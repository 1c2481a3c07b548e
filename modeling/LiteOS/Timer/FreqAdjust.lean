import LiteOS.Timer.Clock
import LiteOS.Timer.Expire
import Mathlib.Data.List.Forall2
import Mathlib.Tactic.Ring

/-!
# Changing the clock of the tick

The model of `LOS_SysTickClockFreqAdjust`, which converts every time that the kernel keeps in
cycles from the old frequency to the new one.
-/

namespace LiteOS.Timer

def osTimeConvertFreq (time oldFreq newFreq : ℕ) : ℕ :=
  if oldFreq ≥ newFreq then time / (oldFreq / newFreq)
  else time * (newFreq / oldFreq) % 2 ^ 64

/-- What `TaskSchedTimeConvertFreq` reads and writes of a task. -/
structure TaskTimes where
  unused : Bool
  running : Bool
  timeSlice : ℤ
  startTime : ℕ

structure TickTimes where
  sysClock : ℕ
  cyclesPerTick : ℕ
  clock : Clock
  tickTimerStartTime : ℕ
  schedResponseTime : ℕ
  taskCBArray : List TaskTimes
  /-- the response times in the order of the list -/
  taskSortLink : List ℕ
  swtmrSortLink : List ℕ

inductive FreqRet
  | losOk
  | hookIsNull
  | clockInvalid
  deriving DecidableEq

namespace TickTimes

def taskSchedTimeConvertFreq (oldFreq newFreq : ℕ) (taskCB : TaskTimes) : TaskTimes :=
  if taskCB.unused then taskCB
  else
    let taskCB := { taskCB with
      timeSlice := if taskCB.timeSlice > 0 then
          Int.bmod (osTimeConvertFreq taskCB.timeSlice.toNat oldFreq newFreq) (2 ^ 32)
        else 0 }
    if taskCB.running then
      { taskCB with startTime := osTimeConvertFreq taskCB.startTime oldFreq newFreq }
    else taskCB

/-- `OsSchedTimeConvertFreq`, up to the call that programs the tick -/
def osSchedTimeConvertFreq (s : TickTimes) (oldFreq : ℕ) : TickTimes :=
  { s with
    schedResponseTime := maxResponseTime
    taskCBArray := s.taskCBArray.map (taskSchedTimeConvertFreq oldFreq s.sysClock)
    taskSortLink := s.taskSortLink.map (osTimeConvertFreq · oldFreq s.sysClock)
    swtmrSortLink := s.swtmrSortLink.map (osTimeConvertFreq · oldFreq s.sysClock) }

/-- `LOS_SysTickClockFreqAdjust`, with a handler that returns the frequency, or null;
`tickResponseMax` is `LOSCFG_BASE_CORE_TICK_RESPONSE_MAX`. -/
def losSysTickClockFreqAdjust (tickPerSecond tickResponseMax : ℕ) (s : TickTimes)
    (handler : Option ℕ) : TickTimes × FreqRet :=
  match handler with
  | none => (s, .hookIsNull)
  | some freq =>
    let (clock, currTimeCycle) := s.clock.losSysCycleGet
    if freq = 0 ∨ freq = s.sysClock then ({ s with clock := clock }, .clockInvalid)
    else
      let oldFreq := s.sysClock
      let s := { s with
        clock := { clock with
          timer := clock.timer.reload tickResponseMax
          tickTimerBase := osTimeConvertFreq currTimeCycle oldFreq freq
          oldTickTimerBase := osTimeConvertFreq clock.oldTickTimerBase oldFreq freq }
        tickTimerStartTime := osTimeConvertFreq s.tickTimerStartTime oldFreq freq
        sysClock := freq
        cyclesPerTick := freq / tickPerSecond }
      (s.osSchedTimeConvertFreq oldFreq, .losOk)

/-! ## The instants that the times stand for -/

/-- `converted` cycles of the new clock are `time` cycles of the old one, up to one new cycle. -/
def Within (oldFreq newFreq time converted : ℕ) : Prop :=
  converted * oldFreq ≤ time * newFreq + oldFreq ∧ time * newFreq ≤ converted * oldFreq + oldFreq

/-- Two converted times are as far apart as before, up to the rounding of both. -/
def Apart (oldFreq newFreq base convertedBase time converted : ℕ) : Prop :=
  converted * oldFreq + base * newFreq ≤ convertedBase * oldFreq + time * newFreq + 2 * oldFreq ∧
    convertedBase * oldFreq + time * newFreq ≤ converted * oldFreq + base * newFreq + 2 * oldFreq

/-- The change from `s` to `s'` at `currTime` keeps the timeouts of one sort link. -/
structure KeepsLink (s s' : TickTimes) (currTime : ℕ) (sortLink sortLink' : List ℕ) : Prop where
  instants : List.Forall₂ (Within s.sysClock s'.sysClock) sortLink sortLink'
  remaining : List.Forall₂ (Apart s.sysClock s'.sysClock currTime s'.clock.tickTimerBase) sortLink
    sortLink'
  sorted : sortLink.Pairwise (· ≤ ·) → sortLink'.Pairwise (· ≤ ·)

structure Keeps (s s' : TickTimes) (currTime : ℕ) : Prop where
  base : Within s.sysClock s'.sysClock currTime s'.clock.tickTimerBase
  task : KeepsLink s s' currTime s.taskSortLink s'.taskSortLink
  swtmr : KeepsLink s s' currTime s.swtmrSortLink s'.swtmrSortLink

/-- A time that the quotient of the two frequencies is exact enough for. -/
def Convertible (oldFreq newFreq time : ℕ) : Prop :=
  if newFreq ≤ oldFreq then
    time * (oldFreq % newFreq) ≤ (oldFreq / newFreq + time % (oldFreq / newFreq)) * oldFreq
  else time * (newFreq % oldFreq) ≤ oldFreq ∧ time * (newFreq / oldFreq) < 2 ^ 64

variable {oldFreq newFreq time earlier currTime : ℕ}

theorem within_slower_iff (hnew : 0 < newFreq) (hle : newFreq ≤ oldFreq) :
    Within oldFreq newFreq time (time / (oldFreq / newFreq)) ↔
      time * (oldFreq % newFreq) ≤ (oldFreq / newFreq + time % (oldFreq / newFreq)) * oldFreq := by
  have hq : 0 < oldFreq / newFreq := Nat.div_pos hle hnew
  have hold := Nat.div_add_mod oldFreq newFreq
  have htime := Nat.div_add_mod time (oldFreq / newFreq)
  have hlt := Nat.lt_mul_div_succ time hq
  generalize oldFreq / newFreq = q at *
  generalize time / q = a at *
  have hlow : time * newFreq ≤ a * oldFreq + oldFreq :=
    calc time * newFreq ≤ q * (a + 1) * newFreq := Nat.mul_le_mul_right _ hlt.le
      _ = (a + 1) * (newFreq * q) := by ring
      _ ≤ (a + 1) * oldFreq := Nat.mul_le_mul_left _ (by omega)
      _ = a * oldFreq + oldFreq := by ring
  have hleft : q * (a * oldFreq) + time % q * oldFreq = time * oldFreq := by
    rw [← Nat.mul_assoc, ← Nat.add_mul, htime]
  have hright : q * (time * newFreq + oldFreq) + time * (oldFreq % newFreq) =
      time * oldFreq + q * oldFreq :=
    calc _ = time * (newFreq * q + oldFreq % newFreq) + q * oldFreq := by ring
      _ = _ := by rw [hold]
  rw [Within, and_iff_left hlow, ← Nat.mul_le_mul_left_iff hq, Nat.add_mul]
  omega

theorem within_faster_iff (hold : 0 < oldFreq) :
    Within oldFreq newFreq time (time * (newFreq / oldFreq) % 2 ^ 64) ↔
      time * (newFreq % oldFreq) ≤ oldFreq ∧ time * (newFreq / oldFreq) < 2 ^ 64 := by
  have hnew : time * newFreq =
      time * (newFreq / oldFreq) * oldFreq + time * (newFreq % oldFreq) :=
    calc time * newFreq = time * (oldFreq * (newFreq / oldFreq) + newFreq % oldFreq) := by
          rw [Nat.div_add_mod]
      _ = _ := by ring
  generalize time * (newFreq / oldFreq) = product at *
  by_cases hlt : product < 2 ^ 64
  · rw [Nat.mod_eq_of_lt hlt, Within]
    omega
  · -- the product loses at least `2 ^ 64` cycles
    refine iff_of_false (fun h => ?_) fun h => hlt h.2
    have hlost : (product % 2 ^ 64 + 2) * oldFreq ≤ product * oldFreq :=
      Nat.mul_le_mul_right _ (by omega)
    have hge := h.2
    rw [Nat.add_mul] at hlost
    omega

theorem within_iff (hold : 0 < oldFreq) (hnew : 0 < newFreq) :
    Within oldFreq newFreq time (osTimeConvertFreq time oldFreq newFreq) ↔
      Convertible oldFreq newFreq time := by
  unfold osTimeConvertFreq Convertible
  split_ifs with hle
  · exact within_slower_iff hnew hle
  · exact within_faster_iff hold

theorem osTimeConvertFreq_le (hle : earlier ≤ time) (h : Convertible oldFreq newFreq time) :
    osTimeConvertFreq earlier oldFreq newFreq ≤ osTimeConvertFreq time oldFreq newFreq := by
  unfold osTimeConvertFreq Convertible at *
  split_ifs at * with hfreq
  · exact Nat.div_le_div_right hle
  · have hmul := Nat.mul_le_mul_right (newFreq / oldFreq) hle
    rwa [Nat.mod_eq_of_lt h.2, Nat.mod_eq_of_lt (by omega)]

theorem keepsLink_iff {s s' : TickTimes} {sortLink : List ℕ}
    (hold : 0 < s.sysClock) (hnew : 0 < s'.sysClock)
    (hbase : Within s.sysClock s'.sysClock currTime s'.clock.tickTimerBase) :
    KeepsLink s s' currTime sortLink (sortLink.map (osTimeConvertFreq · s.sysClock s'.sysClock)) ↔
      ∀ time ∈ sortLink, Convertible s.sysClock s'.sysClock time := by
  have hinstants : List.Forall₂ (Within s.sysClock s'.sysClock) sortLink
      (sortLink.map (osTimeConvertFreq · s.sysClock s'.sysClock)) ↔
      ∀ time ∈ sortLink, Convertible s.sysClock s'.sysClock time := by
    simp only [List.forall₂_map_right_iff, List.forall₂_same, within_iff hold hnew]
  refine ⟨fun h => hinstants.mp h.instants, fun h => ⟨hinstants.mpr h, ?_, fun hsorted => ?_⟩⟩
  · refine List.forall₂_map_right_iff.mpr (List.forall₂_same.mpr fun time htime => ?_)
    have := (within_iff hold hnew).mpr (h time htime)
    unfold Within at this hbase
    unfold Apart
    omega
  · refine List.pairwise_map.mpr (hsorted.imp_of_mem fun _ htime hle => ?_)
    exact osTimeConvertFreq_le hle (h _ htime)

/-- The timeouts are kept exactly if the quotient is exact enough for all times. It always is if
one frequency is a multiple of the other and nothing overflows. -/
theorem keeps_iff_convertible (tickPerSecond tickResponseMax freq : ℕ) {s s' : TickTimes}
    (hold : 0 < s.sysClock)
    (h : s.losSysTickClockFreqAdjust tickPerSecond tickResponseMax (some freq) = (s', .losOk)) :
    Keeps s s' s.clock.losSysCycleGet.2 ↔
      ∀ time ∈ s.clock.losSysCycleGet.2 :: (s.taskSortLink ++ s.swtmrSortLink),
        Convertible s.sysClock freq time := by
  simp only [losSysTickClockFreqAdjust] at h
  by_cases hbad : freq = 0 ∨ freq = s.sysClock
  · simp [hbad] at h
  rw [if_neg hbad, Prod.mk.injEq] at h
  obtain rfl := h.1
  have hnew : 0 < freq := Nat.pos_of_ne_zero fun h0 => hbad (.inl h0)
  rw [List.forall_mem_cons, List.forall_mem_append]
  constructor
  · rintro ⟨hbase, htask, hswtmr⟩
    exact ⟨(within_iff hold hnew).mp hbase, (keepsLink_iff hold hnew hbase).mp htask,
      (keepsLink_iff hold hnew hbase).mp hswtmr⟩
  · rintro ⟨hbase, htask, hswtmr⟩
    have hbase := (within_iff hold hnew).mpr hbase
    exact ⟨hbase, (keepsLink_iff hold hnew hbase).mpr htask,
      (keepsLink_iff hold hnew hbase).mpr hswtmr⟩

/-- A clock of 100 Hz at cycle 700, with a task that waits until 1000 and a timer for 1500 -/
def hundred : TickTimes where
  sysClock := 100
  cyclesPerTick := 1
  clock := { timer := { period := 1000, count := 50 }, tickTimerBase := 650 }
  tickTimerStartTime := 0
  schedResponseTime := 1000
  taskCBArray := [⟨false, true, 5, 690⟩]
  taskSortLink := [1000]
  swtmrSortLink := [1500]

theorem keeps_halved :
    Keeps hundred (hundred.losSysTickClockFreqAdjust 100 10000 (some 50)).1 700 :=
  (keeps_iff_convertible 100 10000 50 (by decide) rfl).mpr (by
    simp [Convertible, hundred])

/-- From 100 Hz to 60 Hz the quotient is 1: the 300 cycles of 3 seconds stay 300 cycles, which take
5 seconds. -/
theorem not_keeps_sixty :
    ¬Keeps hundred (hundred.losSysTickClockFreqAdjust 100 10000 (some 60)).1 700 := by
  intro h
  have hbase := h.base
  exact absurd hbase.1 (by decide)

end TickTimes

end LiteOS.Timer
