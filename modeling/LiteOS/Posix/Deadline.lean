import LiteOS.Ipc.PthreadMutex
import Mathlib.Algebra.Order.Floor.Div
import Mathlib.Algebra.Order.Ring.Int

/-!
# Absolute deadlines

The five calls of the POSIX layer that take an absolute deadline turn it into a number of ticks in
three ways: `OsGetTickTimeFromNow`, the milliseconds of `pthread_mutex_timedlock`, and
`OsTimeSpec2Tick`. Here a call has passed the tests of its other arguments and cannot proceed at
once; what is left is the conversion and the wait. `time_t` has 64 bits, `rate` is
`LOSCFG_BASE_CORE_TICK_PER_SECOND`.
-/

namespace LiteOS.Posix

open Kernel LockCall Nat

/-- `OS_SYS_NS_PER_SECOND` -/
abbrev nsPerSecond : ℕ := 1000000000

def validTimeSpec (tp : Timespec) : Bool :=
  !(tp.tvNsec < 0 || tp.tvNsec ≥ nsPerSecond || tp.tvSec < 0)

/-- The nanoseconds of a time in an `UINT64` -/
def timeNs (tp : Timespec) : ℕ := ((tp.tvSec * nsPerSecond + tp.tvNsec) % 2 ^ 64).toNat

def osTimeSpec2Tick (rate : ℕ) (tp : Timespec) : ℕ :=
  let ns := timeNs tp
  let tick := (ns * rate + (nsPerSecond - 1)) % 2 ^ 64 / nsPerSecond
  if tick > losWaitForever then losWaitForever else tick

/-- `OsGetTickTimeFromNow`; `tp` is what `clock_gettime` answers. -/
def osGetTickTimeFromNow (rate : ℕ) (ts tp : Timespec) : Except PosixRet ℕ :=
  let nsPerTick := nsPerSecond / rate
  if !validTimeSpec ts then .error .einval
  else
    let currTime := timeNs tp
    let nseconds := timeNs ts
    if currTime ≥ nseconds then .error .etimedout
    else .ok ((nseconds - currTime + nsPerTick - 1) % 2 ^ 64 / nsPerTick + 1)

inductive Outcome
  | fails (errno : PosixRet)
  | waits (ticks : ℕ)
deriving DecidableEq, Repr

def semTimedwait (rate : ℕ) (timeout now : Timespec) : Outcome :=
  match osGetTickTimeFromNow rate timeout now with
  | .error ret => .fails ret
  | .ok tickCnt => .waits (if tickCnt > losWaitForever then losWaitForever else tickCnt)

/-- `pthread_cond_timedwait`; `now` is the time of the clock of the condition variable. -/
def pthreadCondTimedwait (rate : ℕ) (ts now : Timespec) : Outcome :=
  match osGetTickTimeFromNow rate ts now with
  | .error ret => .fails ret
  | .ok absTicks => if absTicks ≥ 2 ^ 32 - 1 then .fails .einval else .waits absTicks

/-- `pthread_mutex_timedlock`; with the timeout 0 `MuxPendForPosix` does not wait. -/
def pthreadMutexTimedlock (absTimeout curTime : Timespec) : Outcome :=
  let call := LockCall.timedlock (some absTimeout) (some curTime)
  if call.argCheck ≠ .zero then .fails call.argCheck
  else
    match call.timeout with
    | .error ret => .fails ret
    | .ok 0 => .fails (mapError .muxUnavailable)
    | .ok timeout => .waits timeout

/-- `ConvertTimeout` with a deadline -/
def convertTimeout (rate : ℕ) (nonblock : Bool) (absTimeout : Timespec) : Except PosixRet ℕ :=
  if nonblock then .ok 0
  else if !validTimeSpec absTimeout then .error .einval
  else .ok (osTimeSpec2Tick rate absTimeout)

/-- What `mq_timedsend` and `mq_timedreceive` do on a full or empty queue; with the timeout 0 the
queue answers `LOS_ERRNO_QUEUE_ISFULL` or `LOS_ERRNO_QUEUE_ISEMPTY`. -/
def mqWait (rate : ℕ) (nonblock : Bool) (absTimeout : Timespec) : Outcome :=
  match convertTimeout rate nonblock absTimeout with
  | .error ret => .fails ret
  | .ok 0 => .fails .eagain
  | .ok absTicks => .waits absTicks

/-- `mq_timedsend` on a full queue -/
def mqTimedsend (rate : ℕ) (nonblock : Bool) (absTimeout : Timespec) : Outcome :=
  mqWait rate nonblock absTimeout

/-- `mq_timedreceive` on an empty queue -/
def mqTimedreceive (rate : ℕ) (nonblock : Bool) (absTimeout : Timespec) : Outcome :=
  mqWait rate nonblock absTimeout

/-- The calls that take an absolute deadline; a message queue may be opened with `O_NONBLOCK`. -/
inductive TimedCall
  | semTimedwait
  | pthreadMutexTimedlock
  | pthreadCondTimedwait
  | mqTimedsend (nonblock : Bool)
  | mqTimedreceive (nonblock : Bool)
deriving DecidableEq, Repr

def TimedCall.outcome (rate : ℕ) (deadline now : Timespec) : TimedCall → Outcome
  | .semTimedwait => Posix.semTimedwait rate deadline now
  | .pthreadMutexTimedlock => Posix.pthreadMutexTimedlock deadline now
  | .pthreadCondTimedwait => Posix.pthreadCondTimedwait rate deadline now
  | .mqTimedsend nonblock => Posix.mqTimedsend rate nonblock deadline
  | .mqTimedreceive nonblock => Posix.mqTimedreceive rate nonblock deadline

/-! ## Keeping a deadline -/

/-- The ticks that are enough for `x` nanoseconds, with one for the tick that has begun, can be
told from `LOS_WAIT_FOREVER`. -/
def Representable (nsPerTick x : ℕ) : Prop := x ⌈/⌉ nsPerTick + 1 < losWaitForever

/-- What a call should do at time `n` with the deadline `d`, both in nanoseconds. -/
def Honoured (nsPerTick d n : ℕ) : Outcome → Prop
  | .fails errno =>
    if d ≤ n then errno = .etimedout else errno = .einval ∧ ¬Representable nsPerTick (d - n)
  | .waits ticks =>
    n < d ∧
      if ticks = losWaitForever then ¬Representable nsPerTick (d - n)
      else d - n ≤ ticks * nsPerTick ∧ ticks * nsPerTick ≤ d - n + 2 * nsPerTick

/-- `ticks`, as far as 32 bits hold it, is a wait for `x` nanoseconds. -/
def Covers (nsPerTick x ticks : ℕ) : Prop :=
  if losWaitForever ≤ ticks then (losWaitForever - 2) * nsPerTick < x
  else x ≤ ticks * nsPerTick ∧ ticks * nsPerTick ≤ x + 2 * nsPerTick

/-- When as many ticks as `x` nanoseconds have milliseconds, modulo 2^32, are a wait for `x`: what
the whole milliseconds before the last one gain, each taken for a tick, is within a tick of the rest
and of what the wraps take off. -/
def MsAsTicks (nsPerTick x : ℕ) : Prop :=
  let ms := (x - 1) / 1000000
  let rest := (x - 1) % 1000000 + 1
  let wraps : ℕ := (ms + 1) / 2 ^ 32
  ((ms : ℤ) * (nsPerTick - 1000000) - (wraps * 2 ^ 32 * nsPerTick + rest)).natAbs ≤ nsPerTick

/-- When the ticks from the beginning of the epoch to `d` are a wait from `n` on: the clock is at
most two ticks after the beginning, or after the last time that `d * rate` wrapped. -/
def FromEpoch (rate d n : ℕ) : Prop :=
  let w := d * rate + 999999999
  let start := w / 2 ^ 64 * 2 ^ 64 + w % 2 ^ 64 % nsPerSecond
  start ≤ n * rate + 999999999 ∧ n * rate + 999999999 ≤ start + 2 * nsPerSecond

/-- When a call keeps its deadline: the times are taken modulo 2^64; `pthread_mutex_timedlock` waits
as many ticks as milliseconds are left, modulo 2^32; the message queues wait as if it were the
beginning of the epoch. -/
def TimedCall.OnTime (rate d n : ℕ) : TimedCall → Prop
  | .semTimedwait | .pthreadCondTimedwait =>
    if d ≤ n then d % 2 ^ 64 ≤ n % 2 ^ 64
    else
      n % 2 ^ 64 < d % 2 ^ 64 ∧ d % 2 ^ 64 - n % 2 ^ 64 + nsPerSecond / rate ≤ 2 ^ 64 ∧
        (d - n < 2 ^ 64 ∨
          (losWaitForever - 2) * (nsPerSecond / rate) < d % 2 ^ 64 - n % 2 ^ 64)
  | .pthreadMutexTimedlock =>
    if d ≤ n then 2 ^ 64 ∣ n - d
    else
      (d - n) % 2 ^ 64 + 999999 < 2 ^ 64 ∧
        if (d - n) % 2 ^ 64 ⌈/⌉ 1000000 % 2 ^ 32 = losWaitForever then
          (losWaitForever - 2) * (nsPerSecond / rate) < d - n
        else d - n < 2 ^ 64 ∧ MsAsTicks (nsPerSecond / rate) (d - n)
  | .mqTimedsend nonblock | .mqTimedreceive nonblock =>
    nonblock = false ∧ n < d ∧
      if losWaitForever * nsPerSecond ≤ (d * rate + 999999999) % 2 ^ 64 then
        (losWaitForever - 2) * (nsPerSecond / rate) < d - n
      else FromEpoch rate d n

variable {rate nsPerTick d n x y : ℕ} {ts tp : Timespec} {errno : PosixRet} {f : ℕ → Outcome}

def ns (tp : Timespec) : ℕ := (tp.tvSec * nsPerSecond + tp.tvNsec).toNat

theorem cast_ns (h : validTimeSpec tp) : (ns tp : ℤ) = tp.tvSec * nsPerSecond + tp.tvNsec := by
  simp only [validTimeSpec, Bool.not_eq_true', Bool.or_eq_false_iff, decide_eq_false_iff_not] at h
  rw [ns, Int.toNat_of_nonneg]
  exact add_nonneg (mul_nonneg (by omega) (by decide)) (by omega)

theorem timeNs_eq (h : validTimeSpec tp) : timeNs tp = ns tp % 2 ^ 64 := by
  rw [timeNs, ← cast_ns h]
  omega

theorem nsPerTick_bounds (h : rate ∣ nsPerSecond) :
    0 < nsPerSecond / rate ∧ nsPerSecond / rate ≤ nsPerSecond :=
  ⟨div_pos (le_of_dvd (by decide) h) (pos_of_dvd_of_pos h (by decide)), div_le_self _ _⟩

/-! ### Waits -/

theorem not_representable_iff (h : 0 < nsPerTick) :
    ¬Representable nsPerTick x ↔ (losWaitForever - 2) * nsPerTick < x := by
  have hle : x ⌈/⌉ nsPerTick ≤ losWaitForever - 2 ↔ x ≤ nsPerTick * (losWaitForever - 2) :=
    ceilDiv_le_iff_le_mul h
  rw [Representable, mul_comm]
  simp only [losWaitForever] at hle ⊢
  omega

theorem honoured_fails_einval_iff (h : 0 < nsPerTick) : Honoured nsPerTick d n (.fails .einval) ↔
      n < d ∧ (losWaitForever - 2) * nsPerTick < d - n := by
  rw [Honoured, ← not_representable_iff h]
  split_ifs with hd
  · simp [hd]
  · simp [Nat.lt_of_not_le hd]

theorem honoured_waits_iff (h : 0 < nsPerTick) (ticks : ℕ) :
    Honoured nsPerTick d n (.waits (if ticks > losWaitForever then losWaitForever else ticks)) ↔
      n < d ∧ Covers nsPerTick (d - n) ticks := by
  rw [Honoured, Covers, ← not_representable_iff h]
  rcases lt_trichotomy ticks losWaitForever with hlt | heq | hgt
  · rw [if_neg (show ¬ticks > losWaitForever by omega), if_neg hlt.ne, if_neg (by omega)]
  · rw [heq, if_neg (lt_irrefl _), if_pos rfl, if_pos le_rfl]
  · rw [if_pos hgt, if_pos rfl, if_pos hgt.le]

theorem not_covers_zero (h : 0 < x) : ¬Covers nsPerTick x 0 := by
  rw [Covers, if_neg (by decide)]
  omega

/-- A call that fails in another way than with `ETIMEDOUT` or `EINVAL` keeps no deadline. -/
theorem not_honoured_fails (ht : errno ≠ .etimedout) (hi : errno ≠ .einval) :
    ¬Honoured nsPerTick d n (.fails errno) := by
  rw [Honoured]
  split_ifs
  · exact ht
  · exact fun h => hi h.1

/-! ### The three conversions -/

/-- The count of `OsGetTickTimeFromNow` for `y` nanoseconds; `x` is the time that is left. -/
theorem covers_fromNow_iff (h : 0 < nsPerTick) (hle : nsPerTick ≤ nsPerSecond) (hy : 0 < y)
    (hlt : y < 2 ^ 64) (hx : x = y ∨ 2 ^ 64 ≤ x) :
    Covers nsPerTick x ((y + nsPerTick - 1) % 2 ^ 64 / nsPerTick + 1) ↔
      y + nsPerTick ≤ 2 ^ 64 ∧ (x < 2 ^ 64 ∨ (losWaitForever - 2) * nsPerTick < y) := by
  have hforever : losWaitForever = 4294967295 := rfl
  have hmax : (losWaitForever - 2) * nsPerTick = 4294967293 * nsPerTick := rfl
  simp only [nsPerSecond] at hle
  by_cases hfit : y + nsPerTick ≤ 2 ^ 64
  · rw [mod_eq_of_lt (by omega), ← ceilDiv_eq_add_pred_div, Covers]
    have hsmall : y ⌈/⌉ nsPerTick ≤ 4294967293 ↔ y ≤ nsPerTick * 4294967293 :=
      ceilDiv_le_iff_le_mul h
    have hcover : y ≤ nsPerTick * (y ⌈/⌉ nsPerTick) := (ceilDiv_le_iff_le_mul h).mp le_rfl
    have hlast : nsPerTick * (y ⌈/⌉ nsPerTick) < y + nsPerTick := by
      rw [ceilDiv_eq_add_pred_div]
      have := mul_div_le (y + nsPerTick - 1) nsPerTick
      omega
    rw [add_mul, mul_comm (y ⌈/⌉ nsPerTick)]
    by_cases hk : y ⌈/⌉ nsPerTick ≤ 4294967293
    · -- a finite wait covers the time that is left unless that is 2^64 or more
      rw [if_neg (by omega)]
      rcases hx with rfl | hx
      · exact iff_of_true (by omega) ⟨hfit, .inl hlt⟩
      · exact iff_of_false (by omega) (by omega)
    · have hy := mt hsmall.mpr hk
      rw [if_pos (by omega)]
      exact iff_of_true (by omega) ⟨hfit, .inr (by omega)⟩
  · -- the sum wraps and the wait is one tick
    have hwrap : (y + nsPerTick - 1) % 2 ^ 64 / nsPerTick = 0 := by
      rw [mod_eq_sub_mod (by omega), mod_eq_of_lt (by omega)]
      exact div_eq_of_lt (by omega)
    rw [hwrap, Covers, if_neg (by decide)]
    exact iff_of_false (by omega) (by omega)

theorem ceilDiv_million (x : ℕ) : x ⌈/⌉ 1000000 = (x + 999999) / 1000000 := by
  rw [ceilDiv_eq_add_pred_div, Nat.add_sub_assoc (by decide)]

theorem covers_milliseconds_iff (hle : nsPerTick ≤ nsPerSecond) (hx : 0 < x) :
    Covers nsPerTick x (x % 2 ^ 64 ⌈/⌉ 1000000 % 2 ^ 32) ↔
      if x % 2 ^ 64 ⌈/⌉ 1000000 % 2 ^ 32 = losWaitForever then (losWaitForever - 2) * nsPerTick < x
      else x < 2 ^ 64 ∧ MsAsTicks nsPerTick x := by
  have hforever : losWaitForever = 4294967295 := rfl
  generalize ht : x % 2 ^ 64 ⌈/⌉ 1000000 % 2 ^ 32 = t
  have htlt : t < 2 ^ 32 := ht ▸ mod_lt _ (by decide)
  rw [Covers]
  by_cases hmax : t = losWaitForever
  · rw [if_pos hmax, if_pos hmax.ge]
  rw [if_neg hmax, if_neg (by omega)]
  by_cases hwrap : x < 2 ^ 64
  · -- the ticks are those of all milliseconds without those of the wraps
    rw [mod_eq_of_lt hwrap, ceilDiv_million] at ht
    have hms : (x + 999999) / 1000000 = (x - 1) / 1000000 + 1 := by omega
    rw [hms] at ht
    have hprod : t * nsPerTick + (((x - 1) / 1000000 + 1) / 2 ^ 32 * nsPerTick) * 2 ^ 32 =
        ((x - 1) / 1000000) * nsPerTick + nsPerTick := by
      rw [← Nat.succ_mul, ← mod_add_div' ((x - 1) / 1000000).succ (2 ^ 32), add_mul, ht,
        Nat.mul_right_comm]
    have hsplit : x = 1000000 * ((x - 1) / 1000000) + ((x - 1) % 1000000 + 1) := by omega
    simp only [hwrap, true_and, MsAsTicks, Int.mul_sub, Int.mul_right_comm _ (2 ^ 32)]
    rw [← Int.natCast_mul, ← Int.natCast_mul]
    clear ht htlt hmax hms hwrap hle hforever hx
    omega
  · have hbound : t * nsPerTick ≤ 2 ^ 32 * 1000000000 := Nat.mul_le_mul htlt.le hle
    exact iff_of_false (by omega) (by omega)

theorem covers_epoch_iff (hrate : rate ∣ nsPerSecond) (hdn : n < d) :
    Covers (nsPerSecond / rate) (d - n) ((d * rate + 999999999) % 2 ^ 64 / nsPerSecond) ↔
      if losWaitForever * nsPerSecond ≤ (d * rate + 999999999) % 2 ^ 64 then
        (losWaitForever - 2) * (nsPerSecond / rate) < d - n
      else FromEpoch rate d n := by
  have hpos : 0 < rate := pos_of_dvd_of_pos hrate (by decide)
  have hone : nsPerSecond / rate * rate = nsPerSecond := Nat.div_mul_cancel hrate
  rw [Covers]
  refine iff_of_eq (if_congr (Nat.le_div_iff_mul_le (by decide)) rfl (propext ?_))
  simp only [FromEpoch]
  generalize nsPerSecond / rate = q at *
  -- both bounds, times the rate
  have hw : d * rate + 999999999 = (d * rate + 999999999) / 2 ^ 64 * 2 ^ 64 +
      (d * rate + 999999999) % 2 ^ 64 := (div_add_mod' _ _).symm
  have he : (d * rate + 999999999) % 2 ^ 64 = (d * rate + 999999999) % 2 ^ 64 / nsPerSecond *
      nsPerSecond + (d * rate + 999999999) % 2 ^ 64 % nsPerSecond := (div_add_mod' _ _).symm
  generalize (d * rate + 999999999) % 2 ^ 64 / nsPerSecond = e at *
  have hscale : ∀ a b, a ≤ b ↔ a * rate ≤ b * rate := fun a b =>
    (Nat.mul_le_mul_right_iff hpos).symm
  rw [tsub_le_iff_left, show e * q ≤ d - n + 2 * q ↔ n + e * q ≤ d + 2 * q by omega, hscale d,
    hscale (n + e * q), add_mul, add_mul, mul_assoc, mul_assoc, hone]
  simp only [nsPerSecond] at *
  omega

/-- The two calls that use `OsGetTickTimeFromNow` differ in what they do with a count that does not
fit. -/
theorem honoured_fromNow_iff (hrate : rate ∣ nsPerSecond) (hd : validTimeSpec ts)
    (hn : validTimeSpec tp) (hf : ∀ ticks, Honoured (nsPerSecond / rate) (ns ts) (ns tp) (f ticks) ↔
      ns tp < ns ts ∧ Covers (nsPerSecond / rate) (ns ts - ns tp) ticks) :
    Honoured (nsPerSecond / rate) (ns ts) (ns tp) (match osGetTickTimeFromNow rate ts tp with
          | .error ret => .fails ret
          | .ok ticks => f ticks) ↔
      TimedCall.semTimedwait.OnTime rate (ns ts) (ns tp) := by
  obtain ⟨hpos, hle⟩ := nsPerTick_bounds hrate
  rw [osGetTickTimeFromNow, TimedCall.OnTime]
  simp only [hd, Bool.not_true, Bool.false_eq_true, if_false, timeNs_eq hd, timeNs_eq hn]
  generalize ns ts = d at *
  generalize ns tp = n at *
  by_cases hnow : n % 2 ^ 64 ≥ d % 2 ^ 64
  · rw [if_pos hnow]
    simp only [Honoured]
    by_cases hdn : d ≤ n
    · simp only [hdn]
      exact iff_of_true trivial hnow
    · simp only [hdn, if_false]
      exact iff_of_false (by simp) (by omega)
  · rw [if_neg hnow]
    simp only [hf]
    by_cases hdn : d ≤ n
    · rw [if_pos hdn]
      exact iff_of_false (by omega) (by omega)
    · rw [if_neg hdn, covers_fromNow_iff hpos hle (by omega) (by omega) (by omega)]
      constructor <;> exact fun h => ⟨by omega, h.2⟩

theorem honoured_pthreadMutexTimedlock_iff (hrate : rate ∣ nsPerSecond) (hd : validTimeSpec ts)
    (hn : validTimeSpec tp) :
    Honoured (nsPerSecond / rate) (ns ts) (ns tp) (pthreadMutexTimedlock ts tp) ↔
      TimedCall.pthreadMutexTimedlock.OnTime rate (ns ts) (ns tp) := by
  obtain ⟨hpos, hle⟩ := nsPerTick_bounds hrate
  have hcheck : (timedlock (some ts) (some tp)).argCheck = .zero := by
    simp only [validTimeSpec, Bool.not_eq_true', Bool.or_eq_false_iff,
      decide_eq_false_iff_not] at hd
    rw [argCheck, if_neg]
    simp only [nsPerSecond] at hd
    omega
  have hleft : (((ts.tvSec - tp.tvSec) * 1000000000 + (ts.tvNsec - tp.tvNsec)) % 2 ^ 64).toNat =
      (((ns ts : ℤ) - ns tp) % 2 ^ 64).toNat := by
    rw [cast_ns hd, cast_ns hn]
    congr 2
    push_cast
    omega
  rw [pthreadMutexTimedlock, TimedCall.OnTime]
  simp only [hcheck, ne_eq, not_true_eq_false, if_false, timeout, hleft]
  generalize ns ts = d at *
  generalize ns tp = n at *
  generalize hy : (((d : ℤ) - n) % 2 ^ 64).toNat = y
  by_cases hzero : y = 0
  · rw [if_pos hzero]
    simp only [Honoured]
    by_cases hdn : d ≤ n
    · rw [if_pos hdn, if_pos hdn]
      exact iff_of_true trivial (by omega)
    · rw [if_neg hdn, if_neg hdn, ← covers_milliseconds_iff hle (by omega),
        show (d - n) % 2 ^ 64 = 0 by omega]
      exact iff_of_false (by simp) fun h => not_covers_zero (by omega) h.2
  rw [if_neg hzero]
  have hleft : ¬d ≤ n → (d - n) % 2 ^ 64 = y := by omega
  generalize ht : (y + 999999) % 2 ^ 64 / 1000000 % 2 ^ 32 = t
  match t, ht with
  | 0, ht =>
    refine iff_of_false (not_honoured_fails (by decide) (by decide)) ?_
    by_cases hdn : d ≤ n
    · rw [if_pos hdn]
      omega
    · rw [if_neg hdn, ← covers_milliseconds_iff hle (by omega), hleft hdn, ceilDiv_million]
      rintro ⟨hfit, hcov⟩
      rw [Nat.mod_eq_of_lt hfit] at ht
      rw [ht] at hcov
      exact not_covers_zero (by omega) hcov
  | t + 1, ht =>
    have hw := honoured_waits_iff (d := d) (n := n) hpos (t + 1)
    rw [if_neg (by simp only [losWaitForever]; omega)] at hw
    refine hw.trans ?_
    by_cases hdn : d ≤ n
    · rw [if_pos hdn]
      exact iff_of_false (by omega) (by omega)
    · have hfit : y + 999999 < 2 ^ 64 := by omega
      rw [if_neg hdn, ← covers_milliseconds_iff hle (by omega), hleft hdn, ceilDiv_million]
      rw [Nat.mod_eq_of_lt hfit] at ht
      rw [ht]
      exact ⟨fun h => ⟨hfit, h.2⟩, fun h => ⟨by omega, h.2⟩⟩

theorem osTimeSpec2Tick_eq {tick : ℕ} (h : validTimeSpec ts)
    (ht : (ns ts * rate + 999999999) % 2 ^ 64 / nsPerSecond = tick) :
    osTimeSpec2Tick rate ts = if tick > losWaitForever then losWaitForever else tick := by
  have hmod : (ns ts % 2 ^ 64 * rate + (nsPerSecond - 1)) % 2 ^ 64 =
      (ns ts * rate + 999999999) % 2 ^ 64 := by
    rw [add_mod, mod_mul_mod, ← add_mod]
    rfl
  simp only [osTimeSpec2Tick, timeNs_eq h, hmod, ht]

theorem honoured_mqWait_iff {nonblock : Bool} (hrate : rate ∣ nsPerSecond) (hd : validTimeSpec ts) :
    Honoured (nsPerSecond / rate) (ns ts) n (mqWait rate nonblock ts) ↔
      (TimedCall.mqTimedsend nonblock).OnTime rate (ns ts) n := by
  obtain ⟨hpos, hle⟩ := nsPerTick_bounds hrate
  rw [mqWait, TimedCall.OnTime, convertTimeout]
  cases nonblock with
  | true => exact iff_of_false (not_honoured_fails (by decide) (by decide)) (by simp)
  | false =>
    simp only [hd, osTimeSpec2Tick_eq hd rfl, true_and]
    rw [and_congr_right fun hdn => (covers_epoch_iff hrate hdn).symm]
    generalize (ns ts * rate + 999999999) % 2 ^ 64 / nsPerSecond = e
    have hw := honoured_waits_iff (d := ns ts) (n := n) hpos e
    match e, hw with
    | 0, _ =>
      refine iff_of_false (not_honoured_fails (by decide) (by decide)) ?_
      rintro ⟨hnd, hcov⟩
      exact not_covers_zero (by omega) hcov
    | e + 1, hw =>
      have hne : ∃ k, (if e + 1 > losWaitForever then losWaitForever else e + 1) = k + 1 := by
        split_ifs
        · exact ⟨losWaitForever - 1, rfl⟩
        · exact ⟨e, rfl⟩
      obtain ⟨k, hk⟩ := hne
      rw [hk] at hw ⊢
      exact hw

/-- For every tick rate, deadline and time, a call keeps its deadline exactly when `OnTime`
holds. -/
theorem TimedCall.honoured_iff (call : TimedCall) (hrate : rate ∣ nsPerSecond)
    (hd : validTimeSpec ts) (hn : validTimeSpec tp) :
    Honoured (nsPerSecond / rate) (ns ts) (ns tp) (call.outcome rate ts tp) ↔
      call.OnTime rate (ns ts) (ns tp) := by
  have hpos := (nsPerTick_bounds hrate).1
  cases call with
  | semTimedwait => exact honoured_fromNow_iff hrate hd hn (honoured_waits_iff hpos)
  | pthreadMutexTimedlock => exact honoured_pthreadMutexTimedlock_iff hrate hd hn
  | pthreadCondTimedwait =>
    refine honoured_fromNow_iff hrate hd hn fun ticks => ?_
    by_cases hbig : ticks ≥ 2 ^ 32 - 1
    · rw [if_pos hbig, honoured_fails_einval_iff hpos, Covers,
        if_pos (show losWaitForever ≤ ticks from hbig)]
    · have hw := honoured_waits_iff (d := ns ts) (n := ns tp) hpos ticks
      rw [if_neg (by simp only [losWaitForever]; omega)] at hw
      rw [if_neg hbig]
      exact hw
  | mqTimedsend => exact honoured_mqWait_iff hrate hd
  | mqTimedreceive => exact honoured_mqWait_iff hrate hd

/-- Up to the year 2554 semaphores and condition variables keep every deadline. -/
theorem TimedCall.onTime_of_lt (hrate : rate ∣ nsPerSecond) (hd : d + nsPerSecond ≤ 2 ^ 64)
    (hn : n < 2 ^ 64) : semTimedwait.OnTime rate d n ∧ pthreadCondTimedwait.OnTime rate d n := by
  have hle := (nsPerTick_bounds hrate).2
  have hpos : 0 < nsPerSecond := by decide
  simp only [OnTime, and_self, mod_eq_of_lt hn, mod_eq_of_lt (show d < 2 ^ 64 by omega)]
  split_ifs with hdn
  · exact hdn
  · exact ⟨by omega, by omega, .inl (by omega)⟩

theorem TimedCall.honoured_iff_ten_seconds :
    semTimedwait.outcome 100 ⟨110, 0⟩ ⟨100, 5⟩ = .waits 1001 ∧
      Honoured (nsPerSecond / 100) 110000000000 100000000005 (.waits 1001) :=
  ⟨by decide, (honoured_iff semTimedwait (by decide : 100 ∣ nsPerSecond)
    (by decide : validTimeSpec ⟨110, 0⟩) (by decide : validTimeSpec ⟨100, 5⟩)).mpr
    (onTime_of_lt (by decide) (by decide) (by decide)).1⟩

/-- With 100 ticks per second: a mutex is waited for after the deadline, and for ten seconds instead
of one before it; a message queue is waited for since the beginning of the epoch. -/
theorem TimedCall.deadlines_missed :
    (pthreadMutexTimedlock.outcome 100 ⟨100, 0⟩ ⟨101, 0⟩ = .waits 4154503686 ∧
      ¬Honoured (nsPerSecond / 100) 100000000000 101000000000 (.waits 4154503686)) ∧
    (pthreadMutexTimedlock.outcome 100 ⟨101, 0⟩ ⟨100, 0⟩ = .waits 1000 ∧
      ¬Honoured (nsPerSecond / 100) 101000000000 100000000000 (.waits 1000)) ∧
    (mqTimedsend false).outcome 100 ⟨101, 0⟩ ⟨100, 0⟩ = .waits 10100 ∧
      ¬Honoured (nsPerSecond / 100) 101000000000 100000000000 (.waits 10100) := by
  refine ⟨⟨by decide, ?_⟩, ⟨by decide, ?_⟩, by decide, ?_⟩
  · exact fun h => absurd h.1 (by decide)
  all_goals
    rintro ⟨-, h⟩
    rw [if_neg (by decide)] at h
    exact absurd h.2 (by decide)

/-! ## Times and ticks -/

/-- A count of nanoseconds as seconds and the rest -/
def splitNs (ns : ℕ) : Timespec := ⟨(ns / nsPerSecond : ℕ), (ns % nsPerSecond : ℕ)⟩

def osTick2TimeSpec (rate tick : ℕ) : Timespec := splitNs (tick * nsPerSecond % 2 ^ 64 / rate)

theorem validTimeSpec_splitNs (x : ℕ) : validTimeSpec (splitNs x) := by
  simp [validTimeSpec, splitNs]
  exact ⟨⟨decide_eq_false (by omega), by omega⟩, decide_eq_false (by omega)⟩

theorem ns_splitNs (x : ℕ) : ns (splitNs x) = x := by
  simp only [ns, splitNs, nsPerSecond]
  omega

/-- A time is rounded up to ticks, and a number of ticks comes back from the time it stands for. -/
structure Converted (rate : ℕ) (tp : Timespec) (n : ℕ) : Prop where
  roundsUp : osTimeSpec2Tick rate tp = min (ns tp * rate ⌈/⌉ nsPerSecond) losWaitForever
  comesBack : osTimeSpec2Tick rate (osTick2TimeSpec rate n) = n

theorem osTimeSpec2Tick_osTick2TimeSpec (hpos : 0 < rate) (hrate : rate ≤ nsPerSecond)
    (hn : n < 2 ^ 32) : osTimeSpec2Tick rate (osTick2TimeSpec rate n) = n := by
  have hsmall : n * 1000000000 % 2 ^ 64 = n * 1000000000 := mod_eq_of_lt (by omega)
  have hle := div_mul_le_self (n * 1000000000) rate
  have hlt := lt_div_mul_add (a := n * 1000000000) hpos
  rw [osTick2TimeSpec, osTimeSpec2Tick_eq (validTimeSpec_splitNs _) rfl, ns_splitNs, hsmall]
  -- the floor has lost less than `rate`, which is at most what the ceiling adds
  generalize n * 1000000000 / rate * rate = x at *
  simp only [nsPerSecond] at *
  rw [mod_eq_of_lt (by omega)]
  split_ifs <;> simp only [losWaitForever] at * <;> omega

/-- The product of a time and the rate is taken modulo 2^64. -/
theorem converted_iff (hpos : 0 < rate) (hrate : rate ≤ nsPerSecond) (hts : validTimeSpec ts)
    (hn : n < 2 ^ 32) : Converted rate ts n ↔ ns ts * rate + 999999999 < 2 ^ 64 ∨
      losWaitForever * nsPerSecond ≤ (ns ts * rate + 999999999) % 2 ^ 64 := by
  have hiff : osTimeSpec2Tick rate ts = min (ns ts * rate ⌈/⌉ nsPerSecond) losWaitForever ↔
      ns ts * rate + 999999999 < 2 ^ 64 ∨
        losWaitForever * nsPerSecond ≤ (ns ts * rate + 999999999) % 2 ^ 64 := by
    rw [osTimeSpec2Tick_eq hts rfl, ceilDiv_eq_add_pred_div]
    split_ifs <;> simp only [nsPerSecond] at * <;> omega
  exact ⟨fun h => hiff.mp h.roundsUp,
    fun h => ⟨hiff.mpr h, osTimeSpec2Tick_osTick2TimeSpec hpos hrate hn⟩⟩

theorem converted_iff_minute : Converted 300 ⟨60, 1⟩ 7 :=
  (converted_iff (by decide) (by decide) (by decide : validTimeSpec ⟨60, 1⟩) (by decide)).mpr
    (.inl (by decide))

/-- With 1000 ticks per second a wait of 18446745 seconds, 213 days, is over after 927 ticks. -/
theorem not_converted_wrap : validTimeSpec ⟨18446745, 0⟩ ∧
    osTimeSpec2Tick 1000 ⟨18446745, 0⟩ = 927 ∧ ¬Converted 1000 ⟨18446745, 0⟩ 0 :=
  ⟨by decide, by decide, fun h => absurd h.roundsUp (by decide)⟩

end LiteOS.Posix
