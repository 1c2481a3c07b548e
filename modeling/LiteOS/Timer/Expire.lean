import Mathlib.Algebra.Group.Int.Defs
import Mathlib.Algebra.Group.Nat.Defs
import Mathlib.Data.List.MinMax
import Mathlib.Order.Basic

/-!
# Programming the tick

The model of `OsSchedSetNextExpireTime`, which programs the tick timer for the earliest response
time on the two sort links or for the end of the running task's time slice.
-/

namespace LiteOS.Timer

/-- The clock of the system and the longest period of its tick timer. The clock is fast enough for
the response precision to be at least one cycle. -/
structure TickConfig where
  sysClock : ℕ
  /-- `LOSCFG_BASE_CORE_TICK_PER_SECOND_MINI` -/
  tickPerSecondMini : ℕ
  /-- `LOSCFG_BASE_CORE_TIMESLICE_TIMEOUT`, in microseconds -/
  timesliceTimeout : ℕ
  periodMax : ℕ
  precise : 0 < sysClock / tickPerSecondMini * 75 % 2 ^ 32 / 100

namespace TickConfig

variable (tc : TickConfig)

/-- `g_schedTickMinPeriod` -/
def schedTickMinPeriod : ℕ := tc.sysClock / tc.tickPerSecondMini

/-- `g_tickResponsePrecision` -/
def tickResponsePrecision : ℕ := tc.schedTickMinPeriod * 75 % 2 ^ 32 / 100

/-- `g_schedTimeSlice` -/
def schedTimeSlice : ℕ := tc.sysClock * tc.timesliceTimeout / 1000000

/-- `g_schedTimeSliceMin` -/
def schedTimeSliceMin : ℕ := tc.sysClock * 50 / 1000000

/-- `reload` of the timer -/
def reload (period : ℕ) : ℕ := min period tc.periodMax

theorem tickResponsePrecision_pos : 0 < tc.tickResponsePrecision := tc.precise

end TickConfig

/-- `OS_SCHED_MAX_RESPONSE_TIME` and `OS_SORT_LINK_UINT64_MAX` -/
def maxResponseTime : ℕ := 2 ^ 64 - 1

/-- What the function reads: the time, the response times on the two sort links in their order, and
what the tick is programmed for. The 64-bit clock is not about to wrap. -/
structure Tick (tc : TickConfig) where
  currTime : ℕ
  taskSortLink : List ℕ
  swtmrSortLink : List ℕ
  schedResponseTime : ℕ
  schedResponseID : Option ℕ
  taskSorted : taskSortLink.Pairwise (· ≤ ·)
  swtmrSorted : swtmrSortLink.Pairwise (· ≤ ·)
  noWrap : currTime + tc.periodMax + 2 * tc.tickResponsePrecision < 2 ^ 64
  deadline : ∀ e ∈ taskSortLink ++ swtmrSortLink, e + tc.tickResponsePrecision < 2 ^ 64

def getSortLinkNextExpireTime (sortLink : List ℕ) (startTime tickPrecision : ℕ) : ℕ :=
  match sortLink with
  | [] => maxResponseTime - tickPrecision
  | responseTime :: _ =>
    if responseTime ≤ (startTime + tickPrecision) % 2 ^ 64 then
      (startTime + tickPrecision) % 2 ^ 64
    else responseTime

namespace Tick

variable {tc : TickConfig}

def osGetNextExpireTime (s : Tick tc) (startTime tickPrecision : ℕ) : ℕ :=
  let taskExpireTime := getSortLinkNextExpireTime s.taskSortLink startTime tickPrecision
  let swtmrExpireTime := getSortLinkNextExpireTime s.swtmrSortLink startTime tickPrecision
  if taskExpireTime < swtmrExpireTime then taskExpireTime else swtmrExpireTime

/-- `OsSchedSetNextExpireTime`: the new `g_schedResponseTime` and `g_schedResponseID` -/
def osSchedSetNextExpireTime (s : Tick tc) (responseID taskEndTime : ℕ) : ℕ × Option ℕ :=
  let nextExpireTime := s.osGetNextExpireTime s.currTime tc.tickResponsePrecision
  let isTimeSlice := nextExpireTime > taskEndTime ∧
    nextExpireTime - taskEndTime > tc.schedTickMinPeriod
  let nextExpireTime := if isTimeSlice then taskEndTime else nextExpireTime
  if s.schedResponseTime ≤ nextExpireTime ∨
      s.schedResponseTime - nextExpireTime < tc.tickResponsePrecision then
    (s.schedResponseTime, s.schedResponseID)
  else
    let schedResponseID := if isTimeSlice then some responseID else none
    -- a difference of unsigned 64-bit values
    let nextResponseTime := (nextExpireTime + 2 ^ 64 - s.currTime) % 2 ^ 64
    let nextResponseTime := if nextResponseTime < tc.tickResponsePrecision then
        tc.tickResponsePrecision
      else nextResponseTime
    ((s.currTime + tc.reload nextResponseTime) % 2 ^ 64, schedResponseID)

/-- What `OsSchedUpdateExpireTime` reads of the running task. -/
structure RunTask where
  taskID : ℕ
  isIdle : Bool
  startTime : ℕ
  timeSlice : ℤ

/-- The end of the time slice that `OsSchedUpdateExpireTime` passes on -/
def endTime (tc : TickConfig) (runTask : RunTask) (isPmMode : Bool) : ℕ :=
  if !runTask.isIdle && !isPmMode then
    let timeSlice := if runTask.timeSlice ≤ tc.schedTimeSliceMin then (tc.schedTimeSlice : ℤ)
      else runTask.timeSlice
    ((runTask.startTime + timeSlice) % 2 ^ 64).toNat
  else maxResponseTime - tc.tickResponsePrecision

def osSchedUpdateExpireTime (s : Tick tc) (taskScheduled : Bool) (tickIntLock : ℕ)
    (runTask : RunTask) (isPmMode : Bool) : ℕ × Option ℕ :=
  if !taskScheduled || tickIntLock ≠ 0 then (s.schedResponseTime, s.schedResponseID)
  else s.osSchedSetNextExpireTime runTask.taskID (endTime tc runTask isPmMode)

variable (s : Tick tc)

def earliest : Option ℕ := (s.taskSortLink ++ s.swtmrSortLink).min?

/-- The time by which the tick should come, if `e` is the earliest response time -/
def due (e : ℕ) : ℕ := max e (s.currTime + tc.tickResponsePrecision)

/-- A tick programmed for `responseTime` comes soon enough for the earliest response time. -/
def SoonEnough (responseTime : ℕ) : Prop :=
  ∀ e ∈ s.earliest, responseTime < s.due e + tc.tickResponsePrecision

/-- The end of the time slice is not in the past, or it does not matter: the tick is programmed for
it already, it is aligned to the earliest response time, or the longest period of the timer is over
in time. -/
def Timely (taskEndTime : ℕ) : Prop :=
  ∀ e ∈ s.earliest, s.currTime ≤ taskEndTime ∨
    s.schedResponseTime < taskEndTime + tc.tickResponsePrecision ∨
    s.due e ≤ taskEndTime + tc.schedTickMinPeriod ∨
    s.currTime + tc.periodMax < s.due e + tc.tickResponsePrecision

variable {s} {e a b next : ℕ}

theorem getSortLinkNextExpireTime_cons (a : ℕ) (l : List ℕ) :
    getSortLinkNextExpireTime (a :: l) s.currTime tc.tickResponsePrecision = s.due a := by
  have hwrap := s.noWrap
  simp only [getSortLinkNextExpireTime]
  rw [Nat.mod_eq_of_lt (by omega)]
  split_ifs with hle
  · exact (max_eq_right hle).symm
  · exact (max_eq_left (not_le.mp hle).le).symm

theorem mem_of_earliest (he : s.earliest = some e) :
    e ∈ s.taskSortLink ++ s.swtmrSortLink ∧ ∀ a ∈ s.taskSortLink ++ s.swtmrSortLink, e ≤ a :=
  List.min?_eq_some_iff.mp he

theorem due_mono (h : e ≤ a) : s.due e ≤ s.due a := max_le_max_right _ h

theorem due_le_of_earliest (he : s.earliest = some e) :
    s.due e ≤ maxResponseTime - tc.tickResponsePrecision := by
  have hdead := s.deadline e (mem_of_earliest he).1
  have hwrap := s.noWrap
  exact max_le (by unfold maxResponseTime; omega) (by unfold maxResponseTime; omega)

/-- The earlier of the two expire times is that of the earliest response time. -/
theorem osGetNextExpireTime_eq (he : s.earliest = some e) :
    s.osGetNextExpireTime s.currTime tc.tickResponsePrecision = s.due e := by
  obtain ⟨hmem, hmin⟩ := mem_of_earliest he
  have hle := due_le_of_earliest he
  have htask := s.taskSorted
  have hswtmr := s.swtmrSorted
  simp only [osGetNextExpireTime]
  cases ht : s.taskSortLink with
  | nil =>
    cases hs : s.swtmrSortLink with
    | nil => simp [ht, hs] at hmem
    | cons b =>
      rw [hs, List.pairwise_cons] at hswtmr
      simp only [ht, hs, List.nil_append, List.mem_cons] at hmem hmin
      have hb := le_antisymm
        (hmem.elim (fun h => h ▸ le_rfl) fun h => hswtmr.1 e h) (hmin b (.inl rfl))
      rw [getSortLinkNextExpireTime_cons, hb]
      exact if_neg (not_lt.mpr hle)
  | cons a =>
    rw [ht, List.pairwise_cons] at htask
    cases hs : s.swtmrSortLink with
    | nil =>
      simp only [ht, hs, List.append_nil, List.mem_cons] at hmem hmin
      have ha := le_antisymm
        (hmem.elim (fun h => h ▸ le_rfl) fun h => htask.1 e h) (hmin a (.inl rfl))
      rw [getSortLinkNextExpireTime_cons, ha]
      change (if s.due e < maxResponseTime - tc.tickResponsePrecision then s.due e
        else maxResponseTime - tc.tickResponsePrecision) = s.due e
      split_ifs with hlt
      · rfl
      · exact le_antisymm (not_lt.mp hlt) hle
    | cons b =>
      rw [hs, List.pairwise_cons] at hswtmr
      simp only [ht, hs, List.mem_append, List.mem_cons] at hmem hmin
      have ha : s.due e ≤ s.due a := due_mono (hmin a (.inl (.inl rfl)))
      have hb : s.due e ≤ s.due b := due_mono (hmin b (.inr (.inl rfl)))
      -- the earliest response time does not precede both heads
      have hhead : s.due a ≤ s.due e ∨ s.due b ≤ s.due e := by
        rcases hmem with (rfl | h) | (rfl | h)
        · exact .inl le_rfl
        · exact .inl (due_mono (htask.1 e h))
        · exact .inr le_rfl
        · exact .inr (due_mono (hswtmr.1 e h))
      rw [getSortLinkNextExpireTime_cons, getSortLinkNextExpireTime_cons]
      split_ifs with hlt <;> omega

theorem sub64_of_le (h : b ≤ a) (ha : a < 2 ^ 64) : (a + 2 ^ 64 - b) % 2 ^ 64 = a - b := by
  rw [Nat.sub_add_comm h, Nat.add_mod_right, Nat.mod_eq_of_lt (by omega)]

theorem sub64_of_lt (h : a < b) : (a + 2 ^ 64 - b) % 2 ^ 64 = a + 2 ^ 64 - b :=
  Nat.mod_eq_of_lt (by omega)

/-- The response time when the tick is programmed for time `next`: as soon as the precision allows
if that is in the past or near, but the longest period if the difference has wrapped around. -/
theorem response_eq (hnext : next < 2 ^ 64) : (s.currTime + tc.reload
      (if (next + 2 ^ 64 - s.currTime) % 2 ^ 64 < tc.tickResponsePrecision then
        tc.tickResponsePrecision else (next + 2 ^ 64 - s.currTime) % 2 ^ 64)) % 2 ^ 64 =
    if s.currTime ≤ next then
      s.currTime + min (max (next - s.currTime) tc.tickResponsePrecision) tc.periodMax
    else s.currTime + tc.periodMax := by
  have hwrap := s.noWrap
  unfold TickConfig.reload
  rw [Nat.mod_eq_of_lt (lt_of_le_of_lt
    (Nat.add_le_add_left (min_le_right _ tc.periodMax) s.currTime) (by omega))]
  by_cases hle : s.currTime ≤ next
  · rw [sub64_of_le hle hnext, if_pos hle]
    split_ifs with hsmall
    · rw [max_eq_right hsmall.le]
    · rw [max_eq_left (not_lt.mp hsmall)]
  · rw [sub64_of_lt (not_le.mp hle), if_neg hle, if_neg (by omega), min_eq_right (by omega)]

/-- The tick comes soon enough exactly if the end of the time slice is timely. -/
theorem soonEnough_iff (s : Tick tc) (responseID taskEndTime : ℕ) :
    s.SoonEnough (s.osSchedSetNextExpireTime responseID taskEndTime).1 ↔ s.Timely taskEndTime := by
  refine forall₂_congr fun e he => ?_
  have hnext := osGetNextExpireTime_eq he
  have hP := tc.tickResponsePrecision_pos
  have hdue : s.currTime + tc.tickResponsePrecision ≤ s.due e := le_max_right _ _
  have hlt : s.due e < 2 ^ 64 := by
    have := due_le_of_earliest he
    unfold maxResponseTime at this
    omega
  simp only [osSchedSetNextExpireTime, hnext]
  by_cases hslice : s.due e > taskEndTime ∧ s.due e - taskEndTime > tc.schedTickMinPeriod
  · simp only [hslice, and_self, if_true]
    rw [response_eq (hslice.1.trans hlt)]
    split_ifs with hkeep hle <;> dsimp only <;> omega
  · simp only [hslice, if_false]
    rw [response_eq hlt, if_pos (show s.currTime ≤ s.due e by omega)]
    split_ifs with hkeep <;> dsimp only <;> omega

/-- The task has run for twice its time slice and the tick has been reset; a task sleeps until 200
cycles later. The tick is programmed for the longest period of the timer. -/
theorem late_tick_after_slice :
    let tc : TickConfig := ⟨100000, 1000, 20000, 10000, by decide⟩
    let s : Tick tc := ⟨4000, [4200], [], maxResponseTime, none, by simp, by simp, by decide,
      by decide⟩
    s.earliest = some 4200 ∧ endTime tc ⟨1, false, 0, 2000⟩ false = 2000 ∧
      s.osSchedUpdateExpireTime true 0 ⟨1, false, 0, 2000⟩ false = (14000, some 1) ∧
      ¬s.SoonEnough 14000 := by
  refine ⟨rfl, rfl, rfl, fun h => ?_⟩
  have := h 4200 rfl
  revert this
  decide

end Tick

end LiteOS.Timer
