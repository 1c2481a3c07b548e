import LiteOS.Posix.Deadline

/-!
# The real-time clock

`clock_settime` stores how far the given time is from the time of the hardware, `clock_gettime` adds
the time of the hardware to that. `time_t` has 64 bits.
-/

namespace LiteOS.Posix

open Kernel

/-- `unsupported` stands for the clocks that both calls answer with `ENOTSUP`, such as
`CLOCK_BOOTTIME`. -/
inductive ClockId
  | realtime
  | realtimeCoarse
  | monotonic
  | monotonicRaw
  | monotonicCoarse
  | unsupported
  | invalid

inductive ClockErrno
  | einval
  | enotsup

/-- A number of seconds in a `time_t` -/
def timeT (sec : ℤ) : ℤ := (sec + 2 ^ 63) % 2 ^ 64 - 2 ^ 63

/-- `OsGetHwTime` when `LOS_SysCycleGet` answers `cycle` -/
def osGetHwTime (sysClock cycle : ℕ) : Timespec :=
  splitNs ((cycle / sysClock * nsPerSecond + cycle % sysClock * nsPerSecond / sysClock) % 2 ^ 64)

/-- `OsGetRealTime`; `delta` is `g_accDeltaFromSet`. -/
def osGetRealTime (hwTime delta : Timespec) : Timespec :=
  let tvNsec := hwTime.tvNsec + delta.tvNsec
  ⟨timeT (hwTime.tvSec + delta.tvSec + if tvNsec ≥ nsPerSecond then 1 else 0),
    tvNsec.tmod nsPerSecond⟩

/-- `OsSetRealTime`, with the new `g_accDeltaFromSet` -/
def osSetRealTime (hwTime realTime : Timespec) : Timespec :=
  let tvNsec := realTime.tvNsec - hwTime.tvNsec
  ⟨timeT (realTime.tvSec - hwTime.tvSec - if tvNsec < 0 then 1 else 0),
    (tvNsec + nsPerSecond).tmod nsPerSecond⟩

def clockSettime (hwTime : Timespec) (clockId : ClockId) (tp : Timespec) :
    Except ClockErrno Timespec :=
  if !validTimeSpec tp then .error .einval
  else
    match clockId with
    | .realtime => .ok (osSetRealTime hwTime tp)
    | .monotonic | .invalid => .error .einval
    | _ => .error .enotsup

def clockGettime (hwTime delta : Timespec) : ClockId → Except ClockErrno Timespec
  | .monotonicRaw | .monotonic | .monotonicCoarse => .ok hwTime
  | .realtime | .realtimeCoarse => .ok (osGetRealTime hwTime delta)
  | .unsupported => .error .enotsup
  | .invalid => .error .einval

/-- `g_accDeltaFromSet` after calls of `clock_settime`, each at its own cycle -/
def deltaAfter (sysClock : ℕ) (calls : List (ℕ × ClockId × Timespec)) : Timespec :=
  calls.foldl (fun delta (cycle, clockId, tp) =>
    ((clockSettime (osGetHwTime sysClock cycle) clockId tp).toOption).getD delta) ⟨0, 0⟩

def toNs (tp : Timespec) : ℤ := tp.tvSec * nsPerSecond + tp.tvNsec

/-- What a clock should show at the cycle `b` that was set to `v` at the cycle `a`. -/
def Exact (sysClock a b : ℕ) (v : Timespec) (shown : Except ClockErrno Timespec) : Prop :=
  ∃ t, shown = .ok t ∧ 0 ≤ t.tvNsec ∧ t.tvNsec < nsPerSecond ∧
    toNs t = toNs v + (toNs (osGetHwTime sysClock b) - toNs (osGetHwTime sysClock a))

variable {sysClock a b : ℕ} {v : Timespec}

/-- Whatever was set before, the clock is exact as long as the time fits into a `time_t`. -/
theorem exact_clockGettime_iff (earlier : List (ℕ × ClockId × Timespec)) (hv : validTimeSpec v) :
    Exact sysClock a b v (clockGettime (osGetHwTime sysClock b)
        (deltaAfter sysClock (earlier ++ [(a, .realtime, v)])) .realtime) ↔
      toNs v + (toNs (osGetHwTime sysClock b) - toNs (osGetHwTime sysClock a)) <
        2 ^ 63 * nsPerSecond := by
  have hset : deltaAfter sysClock (earlier ++ [(a, .realtime, v)]) =
      osSetRealTime (osGetHwTime sysClock a) v := by
    simp [deltaAfter, clockSettime, hv, Except.toOption]
  have hw : ∀ cycle, ∃ x < 2 ^ 64, osGetHwTime sysClock cycle = splitNs x :=
    fun cycle => ⟨_, Nat.mod_lt _ (by decide), rfl⟩
  obtain ⟨x, hx, ha⟩ := hw a
  obtain ⟨y, hy, hb⟩ := hw b
  simp only [validTimeSpec, Bool.not_eq_true', Bool.or_eq_false_iff, decide_eq_false_iff_not] at hv
  simp only [hset, ha, hb, Exact, clockGettime, Except.ok.injEq, exists_eq_left', osGetRealTime,
    osSetRealTime, toNs, splitNs, timeT, nsPerSecond] at *
  simp (disch := omega) only [Int.tmod_eq_emod_of_nonneg]
  -- with and without a borrow, with and without a carry
  split_ifs <;> omega

theorem exact_clockGettime_november :
    Exact 1000 1500 3700 ⟨1794787200, 999999999⟩ (.ok ⟨1794787203, 199999999⟩) :=
  (exact_clockGettime_iff [(7, .realtime, ⟨5, 0⟩)] (by decide)).mpr (by decide +kernel)

/-- One second after the clock was set to the last second of a `time_t` it shows a time before the
epoch. -/
theorem not_exact_clockGettime : validTimeSpec ⟨2 ^ 63 - 1, 0⟩ ∧
    ¬Exact 1000 0 1000 ⟨2 ^ 63 - 1, 0⟩ (clockGettime (osGetHwTime 1000 1000)
      (deltaAfter 1000 [(0, .realtime, ⟨2 ^ 63 - 1, 0⟩)]) .realtime) := by
  refine ⟨by decide, ?_⟩
  rintro ⟨t, ht, -, -, hexact⟩
  cases ht
  exact absurd hexact (by decide +kernel)

end LiteOS.Posix
