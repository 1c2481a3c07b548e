import LiteOS.Lib.Runs
import Mathlib.Data.Nat.Basic
import Mathlib.Order.Basic

/-!
# System time

The model of the system time of `los_tick.c` without a 64-bit timer (`LOSCFG_BASE_CORE_TICK_WTIMER
== 0`): the cycles of the current period of the tick timer are added to a base, which the tick
handler moves at the end of every period. A reader that sees the counter start again before the tick
has been handled moves the base itself and leaves a note for the handler.
-/

namespace LiteOS.Timer

open Lib

/-- The tick timer counts the cycles of the current period; its tick is pending from the end of a
period on. Not part of the hardware: the number of cycles since the start. -/
structure TickTimer where
  count : ℕ := 0
  period : ℕ
  pending : Bool := false
  elapsed : ℕ := 0

/-- The globals of `los_tick.c` and the timer. Not in the source: the values that `LOS_SysCycleGet`
has returned, the last one first. The `UINT64` values are natural numbers, as if they did not
wrap. -/
structure Clock where
  timer : TickTimer
  tickTimerBase : ℕ := 0
  oldTickTimerBase : ℕ := 0
  tickTimerBaseUpdate : Bool := false
  assertFailed : Bool := false
  reads : List ℕ := []

namespace TickTimer

/-- `n` cycles pass, in which at most one period ends. -/
def advance (t : TickTimer) (n : ℕ) : TickTimer :=
  if t.count + n < t.period then { t with count := t.count + n, elapsed := t.elapsed + n }
  else { t with count := t.count + n - t.period, pending := true, elapsed := t.elapsed + n }

/-- `reload` of the timer: a period begins and the tick is not pending any more. -/
def reload (t : TickTimer) (period : ℕ) : TickTimer :=
  { t with count := 0, period := period, pending := false }

end TickTimer

namespace Clock

def losSysCycleGet (s : Clock) : Clock × ℕ :=
  let schedTime := s.tickTimerBase + s.timer.count
  let (s, schedTime) :=
    -- the counter has started again
    if schedTime < s.oldTickTimerBase then
      let s := { s with
        tickTimerBase := s.tickTimerBase + s.timer.period
        tickTimerBaseUpdate := true }
      (s, s.tickTimerBase + s.timer.count)
    else (s, schedTime)
  ({ s with
    assertFailed := s.assertFailed || !decide (schedTime ≥ s.oldTickTimerBase)
    oldTickTimerBase := schedTime
    reads := schedTime :: s.reads }, schedTime)

def osTickTimerReload (s : Clock) (period : ℕ) : Clock :=
  let (s, base) := s.losSysCycleGet
  { s with tickTimerBase := base, timer := s.timer.reload period }

def osUpdateSysTimeBase (s : Clock) : Clock :=
  let s := if s.tickTimerBaseUpdate = false then
      { s with tickTimerBase := s.tickTimerBase + s.timer.period }
    else s
  { s with tickTimerBaseUpdate := false }

/-- `OsTickHandler` up to its `LOS_SchedTickHandler`; the pending tick is taken. -/
def osTickHandler (s : Clock) : Clock :=
  { s with timer := { s.timer with pending := false } }.osUpdateSysTimeBase

end Clock

inductive ClockOp
  | advance (n : ℕ)
  | sysCycleGet
  | tickTimerReload (period : ℕ)
  | tickHandler
deriving DecidableEq

namespace Clock

def exec (s : Clock) : ClockOp → Clock
  | .advance n => { s with timer := s.timer.advance n }
  | .sysCycleGet => s.losSysCycleGet.1
  | .tickTimerReload period => s.osTickTimerReload period
  | .tickHandler => s.osTickHandler

def Enabled (s : Clock) : ClockOp → Prop
  | .advance n => s.timer.count + n < s.timer.period ∨
      (s.timer.pending = false ∧ s.timer.count + n < 2 * s.timer.period)
  | .sysCycleGet => True
  | .tickTimerReload period => 0 < period
  | .tickHandler => s.timer.pending

def machine : Machine Clock ClockOp where
  init s := ∃ period > 0, s = { timer := { period := period } }
  allowed := Enabled
  step := exec

instance (s : Clock) (op : ClockOp) : Decidable (machine.allowed s op) := by
  cases op <;> unfold machine Enabled <;> infer_instance

/-- The timer is reloaded only when no tick is pending. -/
def ReloadsInTime (s : Clock) : ClockOp → Prop
  | .tickTimerReload _ => s.timer.pending = false
  | _ => True

instance (s : Clock) (op : ClockOp) : Decidable (ReloadsInTime s op) := by
  unfold ReloadsInTime
  split <;> infer_instance

/-- What the clock promises: times do not go back, and are exact when no tick is pending. -/
structure Steady (s : Clock) : Prop where
  asserted : s.assertFailed = false
  reads : s.reads.Pairwise (· ≥ ·)
  exact : s.timer.pending = false → s.losSysCycleGet.2 = s.timer.elapsed

/-- The base lacks the period that has ended exactly if the tick is pending and no reader has seen
it. -/
structure Inv (s : Clock) : Prop where
  count : s.timer.count < s.timer.period
  asserted : s.assertFailed = false
  idle : s.timer.pending = false →
    s.tickTimerBaseUpdate = false ∧ s.tickTimerBase + s.timer.count = s.timer.elapsed
  noted : s.tickTimerBaseUpdate → s.tickTimerBase + s.timer.count = s.timer.elapsed
  behind : s.timer.pending → s.tickTimerBaseUpdate = false →
    s.tickTimerBase + s.timer.period + s.timer.count = s.timer.elapsed
  old : s.oldTickTimerBase ≤ s.timer.elapsed
  read : ∀ v ∈ s.reads, v ≤ s.oldTickTimerBase
  reads : s.reads.Pairwise (· ≥ ·)

variable {s : Clock} {op : ClockOp} {value n period : ℕ}

theorem Inv.base_le (h : Inv s) : s.tickTimerBase + s.timer.count ≤ s.timer.elapsed := by
  cases hp : s.timer.pending with
  | false => exact (h.idle hp).2.le
  | true =>
    cases hu : s.tickTimerBaseUpdate with
    | true => exact (h.noted hu).le
    | false =>
      have := h.behind hp hu
      omega

/-- Only a counter that has started again lets the time seem to go back. -/
theorem Inv.of_lt_old (h : Inv s) (hlt : s.tickTimerBase + s.timer.count < s.oldTickTimerBase) :
    s.timer.pending ∧ s.tickTimerBase + s.timer.period + s.timer.count = s.timer.elapsed := by
  have hold := h.old
  have hp : s.timer.pending := by
    by_contra hp
    have := (h.idle (by simpa using hp)).2
    omega
  have hu : s.tickTimerBaseUpdate = false := by
    by_contra hu
    have := h.noted (by simpa using hu)
    omega
  exact ⟨hp, h.behind hp hu⟩

/-- The value returned lies between the last one and the time, and becomes the last one. -/
theorem Inv.read_spec (h : Inv s) (hold : s.oldTickTimerBase ≤ value)
    (hle : value ≤ s.timer.elapsed) : Inv { s with
      assertFailed := s.assertFailed || !decide (value ≥ s.oldTickTimerBase)
      oldTickTimerBase := value
      reads := value :: s.reads } where
  count := h.count
  asserted := by simp [h.asserted, hold]
  idle := h.idle
  noted := h.noted
  behind := h.behind
  old := hle
  read v hv := by
    rcases List.mem_cons.mp hv with rfl | hv
    · exact le_rfl
    · exact (h.read v hv).trans hold
  reads := List.pairwise_cons.mpr ⟨fun v hv => (h.read v hv).trans hold, h.reads⟩

theorem Inv.losSysCycleGet (h : Inv s) : Inv s.losSysCycleGet.1 := by
  simp only [Clock.losSysCycleGet]
  split_ifs with hlt
  · obtain ⟨hp, heq⟩ := h.of_lt_old hlt
    have hold := h.old
    have h' : Inv { s with
        tickTimerBase := s.tickTimerBase + s.timer.period
        tickTimerBaseUpdate := true } := { h with
      idle := fun hi => by simp [hp] at hi
      noted := fun _ => heq
      behind := fun _ hu => by simp at hu }
    exact h'.read_spec (by dsimp only; omega) heq.le
  · exact h.read_spec (not_lt.mp hlt) h.base_le

theorem losSysCycleGet_timer : s.losSysCycleGet.1.timer = s.timer := by
  simp only [Clock.losSysCycleGet]
  split_ifs <;> rfl

section

variable (h : Inv s)
include h

theorem Inv.losSysCycleGet_idle (hp : s.timer.pending = false) :
    s.losSysCycleGet.2 = s.timer.elapsed ∧ s.losSysCycleGet.1.tickTimerBaseUpdate = false := by
  have hlt : ¬s.tickTimerBase + s.timer.count < s.oldTickTimerBase := fun hlt => by
    simp [(h.of_lt_old hlt).1] at hp
  simp only [Clock.losSysCycleGet, hlt]
  exact ⟨(h.idle hp).2, (h.idle hp).1⟩

theorem Inv.advance (he : Enabled s (.advance n)) : Inv { s with timer := s.timer.advance n } := by
  simp only [TickTimer.advance]
  split_ifs with hlt
  · refine { h with
      count := hlt
      idle := fun hp => ?_
      noted := fun hu => ?_
      behind := fun hp hu => ?_
      old := h.old.trans (Nat.le_add_right _ n) }
    · have := h.idle hp
      exact ⟨this.1, by dsimp only; omega⟩
    · have := h.noted hu
      dsimp only
      omega
    · have := h.behind hp hu
      dsimp only at this ⊢
      omega
  · -- the period ends: the base was exact, and lacks this period now
    have he := he.resolve_left hlt
    obtain ⟨hu, heq⟩ := h.idle he.1
    refine { h with
      count := ?_
      idle := fun hp => by simp at hp
      noted := fun hu' => ?_
      behind := fun _ _ => ?_
      old := h.old.trans (Nat.le_add_right _ n) }
    · dsimp only
      omega
    · simp [hu] at hu'
    · dsimp only
      omega

theorem Inv.osTickHandler (hp : s.timer.pending) : Inv s.osTickHandler := by
  simp only [Clock.osTickHandler, osUpdateSysTimeBase]
  split_ifs with hu
  · have hb := h.behind hp hu
    exact { h with
      idle := fun _ => ⟨rfl, hb⟩
      noted := fun hu' => by simp at hu'
      behind := fun hp' => by simp at hp' }
  · exact { h with
      idle := fun _ => ⟨rfl, h.noted (by simpa using hu)⟩
      noted := fun hu' => by simp at hu'
      behind := fun hp' => by simp at hp' }

theorem Inv.osTickTimerReload (hp : s.timer.pending = false)
    (hpos : 0 < period) : Inv (s.osTickTimerReload period) := by
  obtain ⟨hval, hu⟩ := h.losSysCycleGet_idle hp
  have h' := h.losSysCycleGet
  have ht : s.losSysCycleGet.1.timer = s.timer := losSysCycleGet_timer
  simp only [Clock.osTickTimerReload, TickTimer.reload]
  exact { h' with
    count := hpos
    idle := fun _ => ⟨hu, by simpa [ht] using hval⟩
    noted := fun hu' => by simp [hu] at hu'
    behind := fun hp' => by simp at hp' }

theorem Inv.step (he : Enabled s op) (hr : ReloadsInTime s op) : Inv (exec s op) := by
  cases op with
  | advance => exact h.advance he
  | sysCycleGet => exact h.losSysCycleGet
  | tickTimerReload => exact h.osTickTimerReload hr he
  | tickHandler => exact h.osTickHandler he

end

theorem Inv.of_reaches (h : (machine.restrict ReloadsInTime).Reaches s) : Inv s := by
  refine h.invariant ?_ fun s op hi ha => hi.step ha.1 ha.2
  rintro _ ⟨period, hpos, rfl⟩
  constructor <;> simp [hpos]

/-- If the timer is reloaded only when no tick is pending, the clock is steady. -/
theorem steady_of_reaches (h : (machine.restrict ReloadsInTime).Reaches s) : Steady s :=
  have hi := Inv.of_reaches h
  ⟨hi.asserted, hi.reads, fun hp => (hi.losSysCycleGet_idle hp).1⟩

/-- A reader sees the end of a period before the handler does; then the timer is reloaded. -/
theorem steady_of_reaches_reloaded : ∃ s, (machine.restrict ReloadsInTime).Reaches s ∧
    s.reads = [150, 120, 90] ∧ Steady s := by
  have hr := Machine.Reaches.run (M := machine.restrict ReloadsInTime)
    (.start ⟨100, by decide, rfl⟩) [.advance 90, .sysCycleGet, .advance 30, .sysCycleGet,
      .tickHandler, .advance 30, .tickTimerReload 60, .advance 10] (by decide)
  exact ⟨_, hr, rfl, steady_of_reaches hr⟩

/-- The timer is reloaded while a tick is pending that no reader has seen: the tick is dropped, and
with it a period. The handler of the next tick leaves the time 100 cycles behind. -/
theorem reload_loses_period : ∃ s, machine.Reaches s ∧ machine.allowed s .tickHandler ∧
    (exec s .tickHandler).timer.pending = false ∧
    (exec s .tickHandler).losSysCycleGet.2 = 150 ∧ (exec s .tickHandler).timer.elapsed = 250 := by
  have hr := Machine.Reaches.run (M := machine) (.start ⟨100, by decide, rfl⟩)
    [.advance 150, .tickTimerReload 100, .advance 100] (by decide)
  exact ⟨_, hr, by decide, rfl, rfl, rfl⟩

end Clock

end LiteOS.Timer
