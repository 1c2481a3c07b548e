import LiteOS.Ipc.MuxSteps

/-!
# POSIX mutexes

The model of `pthread_mutex.c` for one mutex that is statically initialised: its handle is
`_MUX_INVALID_HANDLE` until a lock call creates the kernel mutex behind it. Any number of tasks lock
and unlock it, and a task may be switched away wherever interrupts are enabled, so each call is
split at every access to what the tasks share.
-/

namespace LiteOS.Kernel

open Lib Sched Function MuxSys Muxes

def muxMagic : ℕ := 0xEBCFDEA0

/-- The types of a mutex; `invalid` stands for every other value. -/
inductive MutexType
  | normal
  | recursive
  | errorcheck
  | invalid
deriving DecidableEq, Repr

/-- `pthread_mutex_t`; the handle `none` is `_MUX_INVALID_HANDLE`. -/
structure PthreadMutex where
  magic : ℕ := muxMagic
  handle : Option ℕ := none
  type : MutexType
deriving DecidableEq, Repr

/-- What the functions answer: 0 or an `errno`. -/
inductive PosixRet
  | zero
  | eperm
  | eagain
  | ebusy
  | einval
  | edeadlk
  | etimedout
deriving DecidableEq, Repr

def mapError : Errno → PosixRet
  | .ok => .zero
  | .muxInInterr => .eperm
  | .muxPendInLock => .edeadlk
  | .muxUnavailable => .ebusy
  | .muxTimeout => .etimedout
  | .muxAllBusy => .eagain
  | _ => .einval

def checkMutexAttr : MutexType → Errno
  | .invalid => .nok
  | _ => .ok

def muxPreCheck (c : Config) (mutex : PthreadMutex) (intActive : Bool) : PosixRet :=
  if mutex.magic ≠ muxMagic ∨ ∃ h ∈ mutex.handle, h ≥ c.muxLimit then .einval
  else if intActive then .eperm
  else if checkMutexAttr mutex.type ≠ .ok then .einval
  else .zero

namespace Sched

/-- `MuxPendForPosix` up to its `LOS_Schedule`, after it has read the handle -/
def muxPendForPosix (c : Config) (k : Sched) (m : Muxes) (type : MutexType)
    (muxHandle timeout : ℕ) : Sched × Muxes × Option Errno :=
  let muxPended := m.allMux muxHandle
  if !muxPended.muxStat then (k, m, some .muxInvalid)
  else if muxPended.muxCount = 0 then
    (k, m.modify muxHandle fun cb =>
      { cb with
        muxCount := 1
        owner := some k.runTask
        priority := (k.taskCB k.runTask).priority }, some .ok)
  else if muxPended.owner = some k.runTask ∧ type = .recursive then
    (k, m.modify muxHandle fun cb => { cb with muxCount := (cb.muxCount + 1) % 2 ^ 16 }, some .ok)
  else if timeout = 0 then (k, m, some .muxUnavailable)
  else
    let k := k.modifyTCB k.runTask fun cb => { cb with taskMux := some muxHandle }
    let k := boostOwner c k muxPended.owner
    (k.osSchedTaskWait (.muxList muxHandle) timeout, m, none)

/-- The rest of `MuxPendForPosix` -/
def muxPendForPosixReturn (k : Sched) : Sched × Errno :=
  let (k, timedOut) := k.takeTimeout k.runTask
  (k, if timedOut then .muxTimeout else .ok)

/-- `MuxPostForPosix`, after it has read the handle -/
def muxPostForPosix (c : Config) (k : Sched) (m : Muxes) (type : MutexType) (muxHandle : ℕ) :
    Sched × Muxes × Errno :=
  let muxPosted := m.allMux muxHandle
  if !muxPosted.muxStat then (k, m, .muxInvalid)
  else if muxPosted.muxCount = 0 ∨ muxPosted.owner ≠ some k.runTask then (k, m, .muxInvalid)
  else
    let m := m.modify muxHandle fun cb => { cb with muxCount := cb.muxCount - 1 }
    if muxPosted.muxCount - 1 ≠ 0 ∧ type = .recursive then (k, m, .ok)
    else
      let k := restorePriority c k muxPosted.priority
      match k.lists (.muxList muxHandle) with
      | resumedTask :: _ =>
        let m := m.modify muxHandle fun cb =>
          { cb with
            muxCount := 1
            owner := some resumedTask
            priority := (k.taskCB resumedTask).priority }
        let k := k.modifyTCB resumedTask fun cb => { cb with taskMux := none }
        (k.osSchedTaskWake c resumedTask, m, .ok)
      | [] => (k, m.modify muxHandle fun cb => { cb with owner := none }, .ok)

end Sched

/-- `struct timespec` -/
structure Timespec where
  tvSec : ℤ
  tvNsec : ℤ
deriving DecidableEq, Repr

/-- The calls that lock a mutex; `curTime` is what `clock_gettime` is going to answer. -/
inductive LockCall
  | lock
  | trylock
  | timedlock (absTimeout curTime : Option Timespec)
deriving DecidableEq, Repr

namespace LockCall

def argCheck : LockCall → PosixRet
  | .lock | .trylock => .zero
  | .timedlock none _ => .einval
  | .timedlock (some absTimeout) _ =>
    if absTimeout.tvNsec < 0 ∨ absTimeout.tvNsec ≥ 1000000000 then .einval else .zero

/-- The timeout with which a call comes to `MuxPendForPosix`. `timeoutNs` is unsigned. -/
def timeout : LockCall → Except PosixRet ℕ
  | .lock => .ok losWaitForever
  | .trylock => .ok 0
  | .timedlock (some absTimeout) (some curTime) =>
    let timeoutNs := (((absTimeout.tvSec - curTime.tvSec) * 1000000000 +
      (absTimeout.tvNsec - curTime.tvNsec)) % 2 ^ 64).toNat
    if timeoutNs = 0 then .error .etimedout
    else .ok ((timeoutNs + 999999) % 2 ^ 64 / 1000000 % 2 ^ 32)
  | .timedlock _ _ => .error .einval

end LockCall

inductive CallPoint
  /-- Not inside a call, or waiting in `MuxPendForPosix`. -/
  | out
  /-- `LOS_MuxCreate`: the handle was invalid. -/
  | muxCreate (call : LockCall)
  /-- Read the handle, which was valid. -/
  | getMux (call : LockCall)
  /-- Read the count of the mutex. -/
  | checkCount (call : LockCall) (muxHandle : ℕ)
  /-- Read the owner of the mutex. -/
  | checkOwner (call : LockCall) (muxHandle : ℕ)
  /-- Compute the timeout and read the handle in `MuxPendForPosix`. -/
  | pend (call : LockCall)
  /-- Lock the interrupts in `MuxPendForPosix`. -/
  | pendLocked (timeout muxHandle : ℕ)
  /-- Read the handle in `MuxPostForPosix`. -/
  | post
  /-- Lock the interrupts in `MuxPostForPosix`. -/
  | postLocked (muxHandle : ℕ)
deriving DecidableEq, Repr

/-- The kernel, its mutexes and the POSIX mutex. Not in the source: where the tasks are in their
calls, and how many locks of each task have returned 0 and are not matched by an unlock yet. -/
structure PthreadSys where
  k : Sched
  muxes : Muxes
  mutex : PthreadMutex
  calls : Calls MuxRequest := {}
  point : TaskID → CallPoint := fun _ => .out
  held : TaskID → ℕ := fun _ => 0

inductive PthreadOp
  | task (op : TaskOp)
  | muxCreate
  | lock (call : LockCall)
  | unlock
  | advance
deriving DecidableEq

namespace PthreadSys

section

variable (c : Config) (s : PthreadSys)

@[simps]
def goTo (p : CallPoint) : PthreadSys :=
  { s with point := update s.point s.k.runTask p }

def answer (ret : PosixRet) : PthreadSys × Option PosixRet :=
  (s.goTo .out, some ret)

/-- The lock call of the running task answers what `MuxPendForPosix` returned. -/
def pended (ret : Errno) : PthreadSys × Option PosixRet :=
  let held := if ret = .ok then bump s.held s.k.runTask else s.held
  { s with held := held }.answer (mapError ret)

/-- The unlock call of the running task answers what `MuxPostForPosix` returned. -/
def posted (ret : Errno) : PthreadSys × Option PosixRet :=
  let held :=
    if ret = .ok then update s.held s.k.runTask (s.held s.k.runTask - 1) else s.held
  { s with held := held }.answer (mapError ret)

/-- `pthread_mutex_lock`, `pthread_mutex_trylock` or `pthread_mutex_timedlock` up to the test of the
handle -/
def lock (call : LockCall) : PthreadSys × Option PosixRet :=
  if muxPreCheck c s.mutex false ≠ .zero then s.answer (muxPreCheck c s.mutex false)
  else if call.argCheck ≠ .zero then s.answer call.argCheck
  else
    match s.mutex.handle with
    | none => (s.goTo (.muxCreate call), none)
    | some _ => (s.goTo (.getMux call), none)

/-- `pthread_mutex_unlock` up to `MuxPostForPosix` -/
def unlock : PthreadSys × Option PosixRet :=
  if muxPreCheck c s.mutex false ≠ .zero then s.answer (muxPreCheck c s.mutex false)
  else
    match s.mutex.handle with
    | none => s.answer .einval
    | some _ => (s.goTo .post, none)

/-- A lock call goes on with the handle it reads. The handle never becomes invalid again, so `none`
stands for no case of the source. -/
def withHandle (p : ℕ → CallPoint) : PthreadSys × Option PosixRet :=
  match s.mutex.handle with
  | none => (s, none)
  | some muxHandle => (s.goTo (p muxHandle), none)

/-- The tests of a lock call on the count of a mutex that exists -/
def checkCount (call : LockCall) (muxHandle : ℕ) : PthreadSys × Option PosixRet :=
  let muxCount := (s.muxes.allMux muxHandle).muxCount
  match call with
  | .trylock =>
    if s.mutex.type ≠ .recursive ∧ muxCount ≠ 0 then s.answer .ebusy
    else (s.goTo (.pend call), none)
  | _ =>
    if s.mutex.type = .errorcheck ∧ muxCount ≠ 0 then (s.goTo (.checkOwner call muxHandle), none)
    else (s.goTo (.pend call), none)

def advanceAt : CallPoint → PthreadSys × Option PosixRet
  | .out => (s, none)
  | .muxCreate call =>
    match s.muxes.losMuxCreate with
    | (m, .ok muxHandle) =>
      ({ s with muxes := m, mutex.handle := some muxHandle }.goTo (.pend call), none)
    | (m, .error ret) => { s with muxes := m }.answer (mapError ret)
  | .getMux call => s.withHandle (.checkCount call)
  | .checkCount call muxHandle => s.checkCount call muxHandle
  | .checkOwner call muxHandle =>
    if (s.muxes.allMux muxHandle).owner = some s.k.runTask then s.answer .edeadlk
    else (s.goTo (.pend call), none)
  | .pend call =>
    match call.timeout with
    | .error ret => s.answer ret
    | .ok timeout => s.withHandle (.pendLocked timeout)
  | .pendLocked timeout muxHandle =>
    match s.k.muxPendForPosix c s.muxes s.mutex.type muxHandle timeout with
    | (k, m, none) =>
      ({ s.goTo .out with
        k := k, muxes := m, calls := s.calls.enter s.k.runTask ⟨muxHandle⟩ }, none)
    | (k, m, some ret) => { s with k := k, muxes := m }.pended ret
  | .post => s.withHandle .postLocked
  | .postLocked muxHandle =>
    let (k, m, ret) := s.k.muxPostForPosix c s.muxes s.mutex.type muxHandle
    { s with k := k, muxes := m }.posted ret

def advance : PthreadSys × Option PosixRet :=
  match s.calls.pc s.k.runTask with
  | some _ =>
    let (k, ret) := s.k.muxPendForPosixReturn
    { s with k := k, calls := s.calls.leave s.k.runTask }.pended ret
  | none => s.advanceAt c (s.point s.k.runTask)

/-- The effect of an operation, and what a call that ends with it answers. -/
def exec : PthreadOp → PthreadSys × Option PosixRet
  | .task op => ({ s with k := op.exec c s.k }, none)
  | .muxCreate => ({ s with muxes := s.muxes.losMuxCreate.1 }, none)
  | .lock call => s.lock c call
  | .unlock => s.unlock c
  | .advance => s.advance c

/-- When an operation can come. Tasks begin a call while they execute their own code, and take the
steps of the call while they execute. -/
def Enabled : PthreadOp → Prop
  | .task op => op.Enabled c s.k ∧ op.Gentle s.k
  | .muxCreate => True
  | .lock _ | .unlock =>
    Executing c s.k ∧ s.calls.pc s.k.runTask = none ∧ s.point s.k.runTask = .out
  | .advance =>
    Executing c s.k ∧ (s.calls.pc s.k.runTask ≠ none ∨ s.point s.k.runTask ≠ .out)

/-- Runs after `LOS_KernelInit` with a mutex that is statically initialised. -/
def machine : Machine PthreadSys PthreadOp where
  init s := ∃ k swtmrStack idleStack type, losKernelInit c swtmrStack idleStack = (k, .ok) ∧
    checkMutexAttr type = .ok ∧
      s = { k := k, muxes := Muxes.osMuxInit c, mutex := { type := type } }
  allowed := Enabled c
  step s op := (exec c s op).1

end

instance (c : Config) (s : PthreadSys) (op : PthreadOp) : Decidable ((machine c).allowed s op) := by
  cases op <;> unfold machine Enabled <;> infer_instance

end PthreadSys

/-! ## Ownership -/

/-- How often the tasks have locked mutex `h`, whose control block is `cb`, is what the control
block says; a call that has been answered and has not returned counts as a lock. -/
structure Balanced (k : Sched) (w : Calls MuxRequest) (h : ℕ) (cb : LosMuxCB) (held : TaskID → ℕ) :
    Prop where
  count : cb.muxCount ≠ 0 ↔ cb.owner ≠ none
  balance : ∀ t, held t + (if Granted k w t ⟨h⟩ then 1 else 0) =
    if cb.owner = some t then cb.muxCount else 0

namespace Balanced

variable {c : Config} {k k' : Sched} {w w' : Calls MuxRequest} {h n : ℕ} {cb cb' : LosMuxCB}
variable {held : TaskID → ℕ} {t u : TaskID}

theorem congr (hb : Balanced k w h cb held)
    (hg : ∀ t, Granted k' w' t ⟨h⟩ ↔ Granted k w t ⟨h⟩) : Balanced k' w' h cb held :=
  ⟨hb.count, fun t => by simpa only [hg t] using hb.balance t⟩

theorem not_granted (hn : w.pc t = none) : ¬Granted k w t ⟨h⟩ := by simp [Granted, hn]

section

variable (hb : Balanced k w h cb held)
include hb

theorem owner_of_held (ht : 0 < held t) : cb.owner = some t := by
  have hb := hb.balance t
  by_contra ho
  simp only [ho, if_false] at hb
  omega

theorem owner_eq_none (hc : cb.muxCount = 0) : cb.owner = none := by
  by_contra ho
  exact hb.count.mpr ho hc

/-- The owner that is not inside a call has locked the mutex as often as the count says. -/
theorem held_eq (ho : cb.owner = some t) (hn : w.pc t = none) : held t = cb.muxCount := by
  simpa [not_granted hn, ho] using hb.balance t

/-- Only `t`, which is not inside a call, may have held the mutex, and holds it `n` times now. -/
theorem recount (hn : w.pc t = none) (ho : ∀ u ≠ t, cb.owner ≠ some u) (hc' : cb'.muxCount = n)
    (ho' : cb'.owner = if n = 0 then none else some t) :
    Balanced k w h cb' (update held t n) := by
  refine ⟨by simp [hc', ho'], fun u => ?_⟩
  by_cases hut : u = t
  · subst hut
    by_cases h0 : n = 0 <;> simp [not_granted hn, hc', ho']
  · simpa [hut, ho u hut, ho', Ne.symm hut] using hb.balance u

theorem acquire (hn : w.pc t = none) (hc : cb.muxCount = 0)
    (hc' : cb'.muxCount = 1) (ho' : cb'.owner = some t) : Balanced k w h cb' (bump held t) := by
  have ho := hb.owner_eq_none hc
  have hu : held t = 0 := by simpa [not_granted hn, ho] using hb.balance t
  rw [bump, hu]
  exact hb.recount hn (by simp [ho]) hc' ho'

theorem hand (hn : w.pc t = none) (ho : cb.owner = some t)
    (hw : Wakes u k k') (hp : (k.status u).pend) (hg : Granted k' w u ⟨h⟩)
    (hc' : cb'.muxCount = 1) (ho' : cb'.owner = some u) :
    Balanced k' w h cb' (update held t 0) := by
  have hne : u ≠ t := by
    rintro rfl
    exact not_granted hn hg
  refine ⟨by simp [hc', ho'], fun v => ?_⟩
  by_cases hvt : v = t
  · subst hvt
    simp [not_granted hn, ho', hne]
  · by_cases hvu : v = u
    · subst hvu
      have hv := hb.balance v
      simp [ho, Ne.symm hvt] at hv
      simp [hg, hc', ho', hvt, hv]
    · simpa [granted_wakes_of_ne hw hvu, hvt, Ne.symm hvt, Ne.symm hvu, ho, ho']
        using hb.balance v

theorem leave (hr : w.pc t = some ⟨h⟩)
    (hp : (k.status t).pend = false) : Balanced (k.takeTimeout t).1 (w.leave t) h cb
      (if (k.status t).timeout then held else bump held t) := by
  refine ⟨hb.count, fun u => ?_⟩
  have hu := hb.balance u
  by_cases hut : u = t
  · subst hut
    have hg : Granted k w u ⟨h⟩ ↔ (k.status u).timeout = false := by simp [Granted, hr, hp]
    cases hto : (k.status u).timeout <;> simp_all [not_granted_leave, bump]
  · cases hto : (k.status t).timeout <;>
      simpa [granted_leave_of_ne hut, bump, hut] using hu

end

end Balanced

namespace CallPoint

def handle : CallPoint → Option ℕ
  | .checkCount _ h | .checkOwner _ h | .pendLocked _ h | .postLocked h => some h
  | _ => none

def early : CallPoint → Bool
  | .out | .muxCreate _ => true
  | _ => false

theorem handle_of_early {p : CallPoint} (h : p.early) : p.handle = none := by
  cases p <;> simp_all [early, handle]

end CallPoint

namespace PthreadSys

variable {c : Config} {s : PthreadSys} {op : PthreadOp} {h swtmrStack idleStack timeout : ℕ}
  {t u : TaskID} {m' m : Muxes} {type : MutexType} {k k' : Sched}

@[simps]
def sys (s : PthreadSys) : MuxSys where
  k := s.k
  muxes := s.muxes
  calls := s.calls
  base _ := 0

/-- The POSIX mutex is the kernel mutex `h`, for every task. -/
structure Serves (s : PthreadSys) (h : ℕ) : Prop where
  stat : (s.muxes.allMux h).muxStat
  points : ∀ t h', (s.point t).handle = some h' → h' = h
  calls : ∀ t r, s.calls.pc t = some r → r = ⟨h⟩
  balanced : Balanced s.k s.calls h (s.muxes.allMux h) s.held
  single : s.mutex.type ≠ .recursive → (s.muxes.allMux h).muxCount ≤ 1

/-- What holds in every run in which the kernel mutex is created once. -/
structure Inv (c : Config) (s : PthreadSys) : Prop where
  sys : s.sys.Inv c
  magic : s.mutex.magic = muxMagic
  attr : checkMutexAttr s.mutex.type = .ok
  out : ∀ t, s.calls.pc t ≠ none → s.point t = .out
  fresh : s.mutex.handle = none →
    ∀ t, s.held t = 0 ∧ (s.point t).early ∧ s.calls.pc t = none
  serves : ∀ h ∈ s.mutex.handle, s.Serves h

theorem Inv.init
    (hk : losKernelInit c swtmrStack idleStack = (k, .ok)) (ht : checkMutexAttr type = .ok) :
    Inv c { k := k, muxes := osMuxInit c, mutex := { type := type } } where
  sys := (MuxSys.Inv.init hk).of_eq rfl rfl rfl
  magic := rfl
  attr := ht
  out _ hpc := absurd rfl hpc
  fresh _ _ := ⟨rfl, rfl, rfl⟩
  serves _ hh := nomatch hh

section

variable (hi : Inv c s)
include hi

theorem Inv.preCheck : muxPreCheck c s.mutex false = .zero := by
  have hlim : ∀ h, s.mutex.handle = some h → h < c.muxLimit := fun h hh =>
    hi.sys.limit h (.inr (hi.serves h hh).stat)
  simpa [muxPreCheck, hi.attr] using ⟨hi.magic, hlim⟩

theorem Inv.goTo {p : CallPoint} (hn : s.calls.pc s.k.runTask = none)
    (he : s.mutex.handle = none → p.early)
    (hh : ∀ h ∈ p.handle, s.mutex.handle = some h) : Inv c (s.goTo p) := by
  refine { hi with
    sys := hi.sys
    out := fun t ht => ?_
    fresh := fun hnone t => ?_
    serves := fun h hs => ?_ }
  · have hne : t ≠ s.k.runTask := by
      rintro rfl
      exact ht hn
    simpa [hne] using hi.out t ht
  · obtain ⟨h0, hp, hc⟩ := hi.fresh hnone t
    refine ⟨h0, ?_, hc⟩
    by_cases hne : t = s.k.runTask
    · subst hne
      simpa using he hnone
    · simpa [hne] using hp
  · have hsv := hi.serves h hs
    refine { hsv with points := fun t h' ht => ?_, balanced := hsv.balanced, .. }
    by_cases hne : t = s.k.runTask
    · subst hne
      have hs' := hh h' (by simpa using ht)
      exact Option.some.inj (hs'.symm.trans hs)
    · exact hsv.points t h' (by simpa [hne] using ht)

theorem Inv.answer (hn : s.calls.pc s.k.runTask = none) (ret : PosixRet) : Inv c (s.answer ret).1 :=
  hi.goTo hn (fun _ => rfl) nofun

theorem Inv.handle_of_point (hp : (s.point t).handle = some h) : s.mutex.handle = some h := by
  cases hh : s.mutex.handle with
  | none =>
    have he := (hi.fresh hh t).2.1
    rw [CallPoint.handle_of_early he] at hp
    cases hp
  | some h' => rw [(hi.serves h' hh).points t h hp]

theorem Inv.serve {w' : Calls MuxRequest} (held' : TaskID → ℕ) (hh : s.mutex.handle = some h)
    (hsys : MuxSys.Inv c { s.sys with k := k', muxes := m', calls := w' })
    (hout : ∀ t, w'.pc t ≠ none → s.point t = .out) (hr : ∀ t r, w'.pc t = some r → r = ⟨h⟩)
    (hstat : (m'.allMux h).muxStat) (hb : Balanced k' w' h (m'.allMux h) held')
    (hs : s.mutex.type ≠ .recursive → (m'.allMux h).muxCount ≤ 1) :
    Inv c { s with k := k', muxes := m', calls := w', held := held' } := by
  refine { hi with
    sys := hsys
    out := hout
    fresh := fun hnone => absurd (hh.symm.trans hnone) (by simp)
    serves := fun h' hh' => ?_ }
  obtain rfl : h = h' := Option.some.inj (hh.symm.trans hh')
  exact ⟨hstat, (hi.serves h hh).points, hr, hb, hs⟩

theorem Inv.task {op : TaskOp} (he : op.Enabled c s.k) (hg : op.Gentle s.k) :
    Inv c { s with k := op.exec c s.k } := by
  obtain ⟨hrun, hspec⟩ := hi.sys.run.gentle he hg
  refine { hi with
    sys := (hi.sys.task he hg).1.of_eq rfl
      (noteTask_muxes (s := s.sys) (op.newTask c s.k)).symm
      (noteTask_calls (s := s.sys) (op.newTask c s.k)).symm
    serves := fun h hh => ?_ }
  have hsv := hi.serves h hh
  exact { hsv with balanced := hsv.balanced.congr fun t => hi.sys.wait.granted_env hspec.env }

end

theorem losMuxCreate_allMux (hi : MuxSys.Inv c s.sys) (hs : (s.muxes.allMux h).muxStat) :
    s.muxes.losMuxCreate.1.allMux h = s.muxes.allMux h := by
  simp only [losMuxCreate]
  cases hl : s.muxes.unusedMuxList with
  | nil => rfl
  | cons mux =>
    have hfree := hi.free mux (by simp [hl])
    have hne : h ≠ mux := by
      rintro rfl
      simp [hs] at hfree
    simp [hne]

section

variable (hi : Inv c s)
include hi

theorem Inv.muxCreate : Inv c { s with muxes := s.muxes.losMuxCreate.1 } := by
  refine { hi with sys := hi.sys.muxCreate.1, serves := fun h hh => ?_ }
  have hsv := hi.serves h hh
  have hcb := losMuxCreate_allMux hi.sys hsv.stat
  exact ⟨hcb ▸ hsv.stat, hsv.points, hsv.calls, hcb.symm ▸ hsv.balanced, hcb.symm ▸ hsv.single⟩

theorem Inv.create {call : LockCall} (hn : s.calls.pc s.k.runTask = none)
    (hnone : s.mutex.handle = none) : Inv c (s.advanceAt c (.muxCreate call)).1 := by
  have hcreate := hi.sys.muxCreate.1
  simp only [advanceAt]
  simp only [MuxSys.exec, PthreadSys.sys] at hcreate
  rcases hres : s.muxes.losMuxCreate with ⟨m, e | mux⟩
  · have hm : m = s.muxes := by
      simp only [losMuxCreate] at hres
      split at hres <;> simp_all
    subst hm
    exact hi.answer hn _
  · rw [hres] at hcreate
    have hcb : m.allMux mux = { muxStat := true } := by
      simp only [losMuxCreate] at hres
      split at hres
      · simp at hres
      · obtain ⟨rfl, ⟨⟩⟩ := Prod.mk.injEq .. ▸ hres
        simp
    have hi' : Inv c { s with muxes := m, mutex.handle := some mux } := by
      refine { hi with
        sys := hcreate.of_eq rfl rfl rfl
        fresh := by simp
        serves := ?_ }
      rintro _ ⟨⟩
      refine ⟨by simp [hcb], fun t h' ht => ?_, fun t r hr => ?_, ⟨by simp [hcb], fun t => ?_⟩,
        by simp [hcb]⟩
      · simp [CallPoint.handle_of_early (hi.fresh hnone t).2.1] at ht
      · simp [(hi.fresh hnone t).2.2] at hr
      · simp [hcb, (hi.fresh hnone t).1, Balanced.not_granted (hi.fresh hnone t).2.2]
    exact hi'.goTo hn (by simp) (by simp [CallPoint.handle])

theorem Inv.pendLocked (hx : Executing c s.k)
    (hn : s.calls.pc s.k.runTask = none) (hh : s.mutex.handle = some h)
    (hlt : s.mutex.type = .recursive → (s.muxes.allMux h).owner = some s.k.runTask →
      (s.muxes.allMux h).muxCount < 65535) : Inv c (s.advanceAt c (.pendLocked timeout h)).1 := by
  have hsv := hi.serves h hh
  simp only [advanceAt, muxPendForPosix, hsv.stat, Bool.not_true, Bool.false_eq_true, if_false]
  split_ifs with hc ho ht
  · have hi' := hi.serve (bump s.held s.k.runTask) hh (hi.sys.acquire hx hsv.stat) hi.out
      hsv.calls (by simpa using hsv.stat) (hsv.balanced.acquire hn hc (by simp) (by simp)) (by simp)
    exact hi'.goTo hn (fun _ => rfl) nofun
  · obtain ⟨ho, htype⟩ := ho
    have hlt := hlt htype ho
    have hmod : ((s.muxes.allMux h).muxCount + 1) % 2 ^ 16 = (s.muxes.allMux h).muxCount + 1 :=
      Nat.mod_eq_of_lt (by omega)
    have hb : Balanced s.k s.calls h
        { s.muxes.allMux h with muxCount := ((s.muxes.allMux h).muxCount + 1) % 2 ^ 16 }
        (bump s.held s.k.runTask) := by
      rw [hmod, bump, hsv.balanced.held_eq ho hn]
      exact hsv.balanced.recount hn (by simp [ho, eq_comm]) rfl (by simp [ho])
    have hi' := hi.serve (bump s.held s.k.runTask) hh
      (hi.sys.recount hsv.stat hc fun n => (n + 1) % 2 ^ 16) hi.out hsv.calls
      (by simpa using hsv.stat) (by simpa using hb)
      (fun hne => absurd htype hne)
    exact hi'.goTo hn (fun _ => rfl) nofun
  · exact hi.answer hn _
  · obtain ⟨o, ho'⟩ := Option.ne_none_iff_exists'.mp (hi.sys.count h hc)
    obtain ⟨holt, hoidle⟩ := hi.sys.owner h o ho'
    obtain ⟨hrun, hboost, hsame, hx'⟩ := boosts_boostOwner h hi.sys.run hx holt hoidle
    simp only [PthreadSys.sys] at ho'
    rw [ho']
    simp only [PthreadSys.sys] at hrun hboost hsame hx'
    generalize Sched.boostOwner c _ (some o) = k₁ at *
    have henv := hboost.env hi.sys.run.sched.1
    have hi₀ := hi.goTo (p := .out) hn (fun _ => rfl) nofun
    refine hi₀.serve _ hh (hi.sys.block hn hsv.stat hrun henv hsame hx') (fun t ht => ?_)
      (fun t r hr => ?_) hsv.stat ?_ hsv.single
    · by_cases hne : t = s.k.runTask
      · simp [hne]
      · exact hi₀.out t (by simpa [hne] using ht)
    · by_cases hne : t = s.k.runTask
      · simpa [hne] using hr.symm
      · exact hsv.calls t r (by simpa [hne] using hr)
    · refine hsv.balanced.congr fun t => ?_
      have hg : Granted (k₁.osSchedTaskWait (.muxList h) timeout)
          (s.calls.enter k₁.runTask ⟨h⟩) t ⟨h⟩ ↔ Granted k₁ s.calls t (⟨h⟩ : MuxRequest) :=
        granted_enter blocks_osSchedTaskWait (hsame.runTask.symm ▸ hn)
      rw [hsame.runTask] at hg
      exact hg.trans (hi.sys.wait.granted_env henv)

theorem Inv.pendReturn {r : MuxRequest} (hx : Executing c s.k)
    (hr : s.calls.pc s.k.runTask = some r) : Inv c (s.advance c).1 := by
  obtain ⟨h, hh⟩ : ∃ h, s.mutex.handle = some h := by
    refine Option.ne_none_iff_exists'.mp fun hnone => ?_
    simp [(hi.fresh hnone _).2.2] at hr
  have hsv := hi.serves h hh
  obtain rfl := hsv.calls _ r hr
  have hrun : (s.k.takeTimeout s.k.runTask).1.runTask = s.k.runTask := takeTimeout_same.runTask
  have hi' := hi.serve (if (s.k.status s.k.runTask).timeout then s.held
      else bump s.held s.k.runTask) hh (hi.sys.leave hx)
    (fun t ht => hi.out t fun hn => ht (by simp [update_apply, hn]))
    (fun t r hr' => hsv.calls t r (by
      have hne : t ≠ s.k.runTask := by
        rintro rfl
        simp at hr'
      simpa [hne] using hr'))
    hsv.stat (hsv.balanced.leave hr hx.pend) hsv.single
  have hgo := hi'.goTo (p := .out) (by simp [hrun]) (fun _ => rfl) nofun
  simp only [advance, hr, muxPendForPosixReturn, takeTimeout_snd, pended, PthreadSys.answer, hrun]
  cases hto : (s.k.status s.k.runTask).timeout <;> simpa [hto] using hgo

/-- `MuxPostForPosix` by a task that holds the mutex, or by another task. -/
theorem Inv.postLocked (hx : Executing c s.k)
    (hn : s.calls.pc s.k.runTask = none) (hh : s.mutex.handle = some h) :
    Inv c (s.advanceAt c (.postLocked h)).1 := by
  have hsv := hi.serves h hh
  simp only [advanceAt, muxPostForPosix, hsv.stat, Bool.not_true, Bool.false_eq_true, if_false]
  split_ifs with hown hc
  · exact hi.answer hn _
  all_goals
    obtain ⟨h0, ho⟩ := not_or.mp hown
    replace ho := not_not.mp ho
    have hheld := hsv.balanced.held_eq ho hn
  · have hi' := hi.serve (update s.held s.k.runTask (s.held s.k.runTask - 1)) hh
      (hi.sys.recount hsv.stat h0 (· - 1)) hi.out hsv.calls (by simpa using hsv.stat)
      (hsv.balanced.recount hn (by simp [ho, eq_comm]) (by simp [hheld]) (by
        simp [ho, show ¬s.held s.k.runTask - 1 = 0 by omega]))
      (fun hne => absurd hc.2 hne)
    exact hi'.goTo hn (fun _ => rfl) nofun
  · have hone : (s.muxes.allMux h).muxCount = 1 := by
      by_cases htype : s.mutex.type = .recursive
      · have := not_and'.mp hc htype
        omega
      · have := hsv.single htype
        omega
    obtain ⟨hrun, hr, hsame⟩ :=
      reprioritises_restorePriority hi.sys.run hx (hi.sys.priority h)
    simp only [sys_k, sys_muxes] at hrun hr hsame
    generalize Sched.restorePriority c s.k (s.muxes.allMux h).priority = k₁ at *
    have henv := hi.sys.run.sched.1.env_of_reprioritises hr
    have hsys := hi.sys.kernel hrun henv hsame
    have hb := hsv.balanced.congr fun t => hi.sys.wait.granted_env henv
    cases hl : k₁.lists (.muxList h) with
    | nil =>
      have hi' := hi.serve (update s.held s.k.runTask 0) hh (hsys.free_mux hsv.stat)
        hi.out hsv.calls (by simpa using hsv.stat)
        (hb.recount hn (by simp [ho, eq_comm]) (by simp) (by simp)) (by simp)
      have hgo := hi'.goTo (p := .out) (by simpa [hsame.runTask] using hn) (fun _ => rfl) nofun
      simpa [posted, PthreadSys.answer, hone, hheld, hsame.runTask, Muxes.modify] using hgo
    | cons u =>
      have hm : u ∈ k₁.lists (.muxList h) := by simp [hl]
      obtain ⟨hw, hsys'⟩ := hsys.hand hsv.stat hm
      have hp := (hrun.sched.1.pend_of_mem rfl hm).2.1
      have hg := hsys.wait.granted_wakes hrun.sched.1 hw hm
        head_injective
      have hsame' : Same k₁ ((k₁.modifyTCB u fun cb => { cb with taskMux := none }).osSchedTaskWake
        c u) := Same.trans (.modifyTCB ..) osSchedTaskWake_same
      have hrt := hsame'.runTask.trans hsame.runTask
      have hi' := hi.serve (update s.held s.k.runTask 0) hh hsys' hi.out hsv.calls
        (by simpa using hsv.stat) (hb.hand hn ho hw hp hg (by simp) (by simp)) (by simp)
      have hgo := hi'.goTo (p := .out) (by simpa [hrt] using hn) (fun _ => rfl) nofun
      simpa [posted, PthreadSys.answer, hone, hheld, hrt, Muxes.modify] using hgo

end

/-- A task creates the kernel mutex only while the handle is still invalid, and a recursive mutex is
locked less than 65535 times at once. -/
def Careful (s : PthreadSys) : PthreadOp → Prop
  | .advance =>
    match s.point s.k.runTask with
    | .muxCreate _ => s.mutex.handle = none
    | .pendLocked _ h => s.mutex.type = .recursive →
        (s.muxes.allMux h).owner = some s.k.runTask → (s.muxes.allMux h).muxCount < 65535
    | _ => True
  | _ => True

instance (s : PthreadSys) (op : PthreadOp) : Decidable (Careful s op) := by
  unfold Careful
  split
  · split <;> infer_instance
  · infer_instance

theorem Inv.withHandle {p : ℕ → CallPoint} (hi : Inv c s) (hn : s.calls.pc s.k.runTask = none)
    (hp : ∀ h, (p h).handle = some h) : Inv c (s.withHandle p).1 := by
  simp only [PthreadSys.withHandle]
  cases hh : s.mutex.handle with
  | none => exact hi
  | some =>
    refine hi.goTo hn (by simp [hh]) fun h' hh' => ?_
    rw [hp] at hh'
    exact hh.trans hh'

theorem Inv.advanceAt (hi : Inv c s) (hx : Executing c s.k) (hn : s.calls.pc s.k.runTask = none)
    (hc : Careful s .advance) : Inv c (s.advanceAt c (s.point s.k.runTask)).1 := by
  -- a task that has seen a valid handle may go on to `MuxPendForPosix`
  have hpend : ∀ call, (s.point s.k.runTask).early = false → Inv c (s.goTo (.pend call)) :=
    fun call he => hi.goTo hn
      (fun hnone => absurd (hi.fresh hnone s.k.runTask).2.1 (by simp [he])) nofun
  simp only [Careful] at hc
  cases hp : s.point s.k.runTask with
  | out => exact hi
  | muxCreate => exact hi.create hn (by simpa [hp] using hc)
  | getMux => exact hi.withHandle hn fun _ => rfl
  | checkCount call h =>
    have hh := hi.handle_of_point (t := s.k.runTask) (h := h) (by simp [hp, CallPoint.handle])
    have hpend := fun call => hpend call (by simp [hp, CallPoint.early])
    have howner : Inv c (s.goTo (.checkOwner call h)) := by
      refine hi.goTo hn (by simp [hh]) ?_
      rintro _ ⟨⟩
      exact hh
    simp only [PthreadSys.advanceAt, checkCount]
    split
    · split_ifs
      · exact hi.answer hn _
      · exact hpend _
    · split_ifs
      · exact howner
      · exact hpend _
  | checkOwner call =>
    have hpend := hpend call (by simp [hp, CallPoint.early])
    simp only [PthreadSys.advanceAt]
    split_ifs
    · exact hi.answer hn _
    · exact hpend
  | pend call =>
    simp only [PthreadSys.advanceAt]
    cases call.timeout with
    | error => exact hi.answer hn _
    | ok => exact hi.withHandle hn fun _ => rfl
  | pendLocked =>
    exact hi.pendLocked hx hn (hi.handle_of_point (t := s.k.runTask)
      (by simp [hp, CallPoint.handle]))
      (by simpa [hp] using hc)
  | post => exact hi.withHandle hn fun _ => rfl
  | postLocked =>
    exact hi.postLocked hx hn (hi.handle_of_point (t := s.k.runTask)
      (by simp [hp, CallPoint.handle]))

theorem Inv.step (hi : Inv c s) (he : Enabled c s op) (hc : Careful s op) :
    Inv c (exec c s op).1 := by
  cases op with
  | task => exact hi.task he.1 he.2
  | muxCreate => exact hi.muxCreate
  | lock =>
    obtain ⟨-, hn, -⟩ := he
    simp only [exec, lock]
    split_ifs
    · exact hi.answer hn _
    · exact hi.answer hn _
    · cases hh : s.mutex.handle with
      | none => exact hi.goTo hn (fun _ => rfl) nofun
      | some => exact hi.goTo hn (by simp [hh]) nofun
  | unlock =>
    obtain ⟨-, hn, -⟩ := he
    simp only [exec, unlock]
    split_ifs
    · exact hi.answer hn _
    · cases hh : s.mutex.handle with
      | none => exact hi.answer hn _
      | some => exact hi.goTo hn (by simp [hh]) nofun
  | advance =>
    cases hr : s.calls.pc s.k.runTask with
    | none =>
      have := hi.advanceAt he.1 hr hc
      simpa only [exec, advance, hr] using this
    | some => exact hi.pendReturn he.1 hr

theorem Inv.of_reaches (hr : ((machine c).restrict Careful).Reaches s) : Inv c s := by
  refine hr.invariant ?_ fun s op hi ha => hi.step ha.1 ha.2
  rintro _ ⟨k, swtmrStack, idleStack, type, hk, ht, rfl⟩
  exact .init hk ht

/-- At most one task is between a lock call that returned 0 and its unlock, and its unlock comes to
the answer 0. -/
structure Excludes (c : Config) (s : PthreadSys) : Prop where
  one : ∀ t u, 0 < s.held t → 0 < s.held u → t = u
  unlock : 0 < s.held s.k.runTask → Enabled c s .unlock → exec c s .unlock = (s.goTo .post, none)
  post : 0 < s.held s.k.runTask → Enabled c s .advance → s.point s.k.runTask = .post →
    ∃ h, exec c s .advance = (s.goTo (.postLocked h), none)
  postLocked : ∀ h, 0 < s.held s.k.runTask → Enabled c s .advance →
    s.point s.k.runTask = .postLocked h → (exec c s .advance).2 = some .zero

theorem Inv.handle_of_held (hi : Inv c s) (ht : 0 < s.held t) : ∃ h, s.mutex.handle = some h := by
  refine Option.ne_none_iff_exists'.mp fun hnone => ?_
  have := (hi.fresh hnone t).1
  omega

theorem Inv.pc_eq_none (hi : Inv c s) (hp : s.point t ≠ .out) : s.calls.pc t = none := by
  by_contra hc
  exact hp (hi.out t hc)

theorem muxPostForPosix_owner (hs : (m.allMux h).muxStat) (hc : (m.allMux h).muxCount ≠ 0)
    (ho : (m.allMux h).owner = some k.runTask) : (k.muxPostForPosix c m type h).2.2 = .ok := by
  simp only [muxPostForPosix, hs, hc, ho, Bool.not_true, Bool.false_eq_true, ne_eq, not_true,
    or_self, if_false]
  split_ifs
  · rfl
  · split <;> rfl

theorem Inv.excludes (hi : Inv c s) : Excludes c s where
  one t u ht hu := by
    obtain ⟨h, hh⟩ := hi.handle_of_held ht
    have hb := (hi.serves h hh).balanced
    exact Option.some.inj ((hb.owner_of_held ht).symm.trans (hb.owner_of_held hu))
  unlock ht _ := by
    obtain ⟨h, hh⟩ := hi.handle_of_held ht
    simp [exec, PthreadSys.unlock, hi.preCheck, hh]
  post ht _ hp := by
    obtain ⟨h, hh⟩ := hi.handle_of_held ht
    have hn := hi.pc_eq_none (t := s.k.runTask) (by simp [hp])
    exact ⟨h, by simp [exec, advance, hn, hp, PthreadSys.advanceAt, PthreadSys.withHandle, hh]⟩
  postLocked h ht _ hp := by
    have hn := hi.pc_eq_none (t := s.k.runTask) (by simp [hp])
    have hsv := hi.serves h (hi.handle_of_point (t := s.k.runTask) (by simp [hp, CallPoint.handle]))
    have ho := hsv.balanced.owner_of_held ht
    have hpost : (s.k.muxPostForPosix c s.muxes s.mutex.type h).2.2 = .ok :=
      muxPostForPosix_owner hsv.stat (hsv.balanced.count.mpr (by simp [ho])) ho
    simp [exec, advance, hn, hp, PthreadSys.advanceAt, posted, PthreadSys.answer, hpost, mapError]

/-- In every run in which a task creates the kernel mutex only while the handle is invalid, and in
which a recursive mutex is locked less than 65535 times at once, the mutex excludes. -/
theorem excludes_of_reaches (hr : ((machine c).restrict Careful).Reaches s) : Excludes c s :=
  (Inv.of_reaches hr).excludes

/-- Task 1 has found the handle invalid when a timeout lets task 2 run, which locks the mutex. -/
def preempted : List PthreadOp :=
  [.task (.taskCreate (userTask 9 false) 2000), .task (.taskCreate (userTask 5 false) 3000),
    .task (.schedStart 0), .task (.taskDelay false 1), .task (.taskSwitch 10), .lock .lock,
    .task (.schedTickHandler true 30), .task (.taskSwitch 30), .lock .lock, .advance, .advance,
    .advance, .task (.taskDelay false 1), .task (.taskSwitch 40)]

/-- Task 1 creates the kernel mutex again and locks it: both tasks hold the lock. The unlock of task
2 meets the mutex of task 1. -/
theorem not_excludes : ∃ s, (machine smallConfig).Reaches s ∧ s.held 1 = 1 ∧ s.held 2 = 1 ∧
    s.k.runTask = 2 ∧ (machine smallConfig).allowed s .advance ∧ s.point 2 = .postLocked 1 ∧
    (exec smallConfig s .advance).2 = some .einval := by
  have hr := (Machine.Reaches.start (M := machine smallConfig)
    ⟨_, 0, 1000, .recursive, rfl, rfl, rfl⟩).run (preempted ++ [.advance, .advance, .advance,
      .task (.schedTickHandler true 60), .task (.taskSwitch 60), .unlock, .advance])
    (by decide +kernel)
  exact ⟨_, hr, by decide +kernel⟩

/-- Task 2 locks the mutex twice and unlocks it once while task 1 waits for it. -/
theorem excludes_of_reaches_contended : ∃ s, ((machine smallConfig).restrict Careful).Reaches s ∧
    s.k.runTask = 2 ∧ s.held 2 = 1 ∧ s.k.lists (.muxList 0) = [1] ∧ Excludes smallConfig s := by
  have hr := (Machine.Reaches.start (M := (machine smallConfig).restrict Careful)
    ⟨_, 0, 1000, .recursive, rfl, rfl, rfl⟩).run
    [.task (.taskCreate (userTask 9 false) 2000), .task (.taskCreate (userTask 5 false) 3000),
      .task (.schedStart 0), .lock .lock, .advance, .advance, .advance, .task (.taskDelay false 1),
      .task (.taskSwitch 10), .lock .lock, .advance, .advance, .advance, .advance,
      .task (.schedTickHandler true 30), .task (.taskSwitch 30), .lock .trylock, .advance, .advance,
      .advance, .advance, .unlock, .advance, .advance] (by decide +kernel)
  exact ⟨_, hr, by decide +kernel, by decide +kernel, by decide +kernel, excludes_of_reaches hr⟩

end PthreadSys

end LiteOS.Kernel
