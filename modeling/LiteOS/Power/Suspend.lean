import LiteOS.Power.Locks

/-!
# Suspending the system

The model of the rest of `los_pm.c` (`LOSCFG_BASE_CORE_TICK_WTIMER == 0`): the registered device,
tick timer and handlers, and `OsPmSuspendSleep`. The function takes the callbacks for the way down
under one lock of the interrupts, calls them with the interrupts enabled, and then enters the
low-power mode and calls those for the way up under another lock. Between the two, other tasks and
interrupt handlers use the rest of the interface.

Callbacks are named by numbers, and a null pointer is `none`. What the callbacks return is up to
them; `suspendCheck` may set the mode.
-/

namespace LiteOS.Power

open Lib Kernel

/-- `LosPmDevice` with its address -/
structure LosPmDevice where
  addr : ℕ
  suspend : Option ℕ
  resume : Option ℕ
deriving DecidableEq

/-- `LosPmTickTimer` with its address -/
structure LosPmTickTimer where
  addr : ℕ
  freq : ℕ
  timerStart : Option ℕ
  timerStop : Option ℕ
  timerCycleGet : Option ℕ
  tickLock : Option ℕ
  tickUnlock : Option ℕ
deriving DecidableEq

structure LosPmSysctrl where
  early : Option ℕ := none
  late : Option ℕ := none
  suspendCheck : Option ℕ := none
  normalSuspend : Option ℕ := none
  normalResume : Option ℕ := none
  lightSuspend : Option ℕ := none
  lightResume : Option ℕ := none
  deepSuspend : Option ℕ := none
  deepResume : Option ℕ := none
  shutdownSuspend : Option ℕ := none
  shutdownResume : Option ℕ := none
deriving DecidableEq

/-- `LosPmCB`; `sysctrl` is `g_sysctrl`, to which the member of that name points. -/
structure LosPmCB (ν : Type) extends PmLocks ν where
  pmMode : SysSleep := .normal
  sysMode : SysSleep := .normal
  isWake : Bool := false
  device : Option LosPmDevice := none
  sysctrl : LosPmSysctrl := {}
  tickTimer : Option LosPmTickTimer := none
  enterSleepTime : ℕ := 0

def archEnterSleep : ℕ := 0

/-- `OsPmSysctrlInit`. It leaves `suspendCheck` alone. -/
def LosPmSysctrl.osPmSysctrlInit (sysctrl : LosPmSysctrl) : LosPmSysctrl :=
  { sysctrl with
    early := none
    late := none
    normalSuspend := some archEnterSleep
    normalResume := none
    lightSuspend := some archEnterSleep
    lightResume := none
    deepSuspend := some archEnterSleep
    deepResume := none
    shutdownSuspend := none
    shutdownResume := none }

/-- The handler that `OsPmCpuSuspend` calls. -/
def LosPmSysctrl.cpuSuspend (sysctrl : LosPmSysctrl) : SysSleep → Option ℕ
  | .normal => sysctrl.normalSuspend
  | .light => sysctrl.lightSuspend
  | .deep => sysctrl.deepSuspend
  | .shutdown => sysctrl.shutdownSuspend

/-- The second argument of `LOS_PmRegister` and `LOS_PmUnregister`, for each value of the first. -/
inductive PmNode
  | device (device : LosPmDevice)
  | tickTimer (tickTimer : LosPmTickTimer)
  | sysctrl (sysctrl : LosPmSysctrl)
  | other
deriving DecidableEq

namespace LosPmCB

variable {ν : Type}

section

variable (pm : LosPmCB ν)

def osPmInit (ν : Type) : LosPmCB ν where
  sysctrl := LosPmSysctrl.osPmSysctrlInit {}

def osPmDeviceRegister (device : LosPmDevice) : LosPmCB ν × PmErrno :=
  if device.suspend = none ∨ device.resume = none then (pm, .invalidParam)
  else ({ pm with device := some device }, .ok)

def osPmTickTimerRegister (t : LosPmTickTimer) : LosPmCB ν × PmErrno :=
  if t.tickLock = none ∨ t.tickUnlock = none then (pm, .invalidParam)
  else if (t.timerStart = none ∧ t.timerStop = none ∧ t.timerCycleGet = none ∧ t.freq = 0) ∨
      (t.timerStart ≠ none ∧ t.timerStop ≠ none ∧ t.timerCycleGet ≠ none ∧ t.freq ≠ 0) then
    ({ pm with enterSleepTime := 0, tickTimer := some t }, .ok)
  else (pm, .invalidParam)

def osPmSysctrlRegister (sysctrl : LosPmSysctrl) : LosPmCB ν × PmErrno :=
  let old := pm.sysctrl
  ({ pm with
      sysctrl :=
        { early := sysctrl.early.or old.early
          late := sysctrl.late.or old.late
          suspendCheck := sysctrl.suspendCheck.or old.suspendCheck
          normalSuspend := sysctrl.normalSuspend.or old.normalSuspend
          normalResume := sysctrl.normalResume.or old.normalResume
          lightSuspend := sysctrl.lightSuspend.or old.lightSuspend
          lightResume := sysctrl.lightResume.or old.lightResume
          deepSuspend := sysctrl.deepSuspend.or old.deepSuspend
          deepResume := sysctrl.deepResume.or old.deepResume
          shutdownSuspend := sysctrl.shutdownSuspend.or old.shutdownSuspend
          shutdownResume := sysctrl.shutdownResume.or old.shutdownResume } }, .ok)

def losPmRegister : Option PmNode → LosPmCB ν × PmErrno
  | none => (pm, .invalidParam)
  | some (.device device) => pm.osPmDeviceRegister device
  | some (.tickTimer tickTimer) => pm.osPmTickTimerRegister tickTimer
  | some (.sysctrl sysctrl) => pm.osPmSysctrlRegister sysctrl
  | some .other => (pm, .invalidType)

def osPmDeviceUnregister (device : LosPmDevice) : LosPmCB ν × PmErrno :=
  if pm.device.map LosPmDevice.addr = some device.addr then
    ({ pm with device := none, pmMode := .normal }, .ok)
  else (pm, .invalidNode)

def osPmTickTimerUnregister (tickTimer : LosPmTickTimer) : LosPmCB ν × PmErrno :=
  if pm.tickTimer.map LosPmTickTimer.addr = some tickTimer.addr then
    ({ pm with
        tickTimer := none
        pmMode := if pm.pmMode ≠ .normal ∧ pm.pmMode ≠ .light then .normal else pm.pmMode }, .ok)
  else (pm, .invalidNode)

def osPmSysctrlUnregister : LosPmCB ν × PmErrno :=
  ({ pm with sysctrl := pm.sysctrl.osPmSysctrlInit, pmMode := .normal }, .ok)

def losPmUnregister : Option PmNode → LosPmCB ν × PmErrno
  | none => (pm, .invalidParam)
  | some (.device device) => pm.osPmDeviceUnregister device
  | some (.tickTimer tickTimer) => pm.osPmTickTimerUnregister tickTimer
  | some (.sysctrl _) => pm.osPmSysctrlUnregister
  | some .other => (pm, .invalidType)

def losPmWakeSet : LosPmCB ν := { pm with isWake := true }

def sleepMode (mode : ℤ) : Option SysSleep :=
  if mode = 0 then some .normal
  else if mode = 1 then some .light
  else if mode = 2 then some .deep
  else if mode = 3 then some .shutdown
  else none

def losPmModeSet (mode : ℤ) : LosPmCB ν × PmErrno :=
  match sleepMode mode with
  | none => (pm, .invalidMode)
  | some mode =>
    if mode ≠ .normal ∧ pm.device = none then (pm, .deviceNull)
    else if mode = .light ∧ pm.sysctrl.lightSuspend = none then (pm, .handlerNull)
    else if mode = .deep ∧ pm.sysctrl.deepSuspend = none then (pm, .handlerNull)
    else if mode = .shutdown ∧ pm.sysctrl.shutdownSuspend = none then (pm, .handlerNull)
    else ({ pm with pmMode := mode }, .ok)

/-- `OsPmTickTimerStop`; `cycle` is the time and `sleepCycle` the time to the next timeout in cycles
of the low-power timer. -/
def osPmTickTimerStop (cycle sleepCycle : ℕ) : LosPmCB ν × Bool :=
  match pm.tickTimer with
  | none => (pm, false)
  | some t =>
    if t.tickLock = none ∨ pm.sysMode = .normal then (pm, false)
    else if t.timerStart ≠ none then
      if sleepCycle = 0 then ({ pm with sysMode := .normal }, false)
      else ({ pm with enterSleepTime := cycle }, true)
    else (pm, true)

def osPmTickTimerStart : LosPmCB ν :=
  match pm.tickTimer with
  | none => pm
  | some t =>
    if t.tickUnlock = none then pm
    else if t.timerStop ≠ none then { pm with enterSleepTime := 0 }
    else pm

end

end LosPmCB

/-! ## `OsPmSuspendSleep` -/

/-- The value of `prepare`: nothing has failed, `OS_PM_SYS_EARLY` or `OS_PM_SYS_DEVICE_EARLY`. -/
inductive Prepare
  | done
  | sysEarly
  | sysDeviceEarly
deriving DecidableEq

/-- The local variables of a call after `OsPmSuspendCheck`, and the device that it found. -/
structure Snapshot where
  sysSuspendEarly : Option ℕ
  deviceSuspend : Option ℕ
  mode : SysSleep
  owner : LosPmDevice
deriving DecidableEq

/-- How far the call has come: it will call `early`, it will call `suspend`, or
`OsPmSuspendPrepare` has returned. -/
inductive SuspendPc
  | idle
  | early (snap : Snapshot)
  | suspend (snap : Snapshot)
  | prepared (snap : Snapshot) (prepare : Prepare)
deriving DecidableEq

/-- The low-power handler is entered: the counter of locks, the wake request and the handler. -/
structure Entry where
  lock : ℕ
  isWake : Bool
  handler : Option ℕ
deriving DecidableEq

/-- What a call has done: whether there was a callback `late` when it began, whether `early` has
returned `LOS_OK` or was not there, the device whose `suspend` has returned `LOS_OK`, the devices
whose `resume` was called, how often `late` was called, and the entry into the low-power mode. -/
structure CallLog where
  lateThere : Bool := false
  earlyOk : Bool := false
  suspended : Option LosPmDevice := none
  resumed : List LosPmDevice := []
  late : ℕ := 0
  entered : Option Entry := none
deriving DecidableEq

/-- The power management with one call of `OsPmSuspendSleep`. Not in the source: what the call, or
the last one, has done, and whether a null pointer was followed. -/
structure SuspendSys (ν : Type) where
  pm : LosPmCB ν
  pc : SuspendPc := .idle
  log : CallLog := {}
  fault : Bool := false

/-- What happens. `begin` is `OsPmSuspendCheck`; `early` and `suspend` are the calls of these
callbacks with whether they return `LOS_OK`; `sleep` is the rest. -/
inductive SuspendOp (ν : Type)
  | begin
  | early (ok : Bool)
  | suspend (ok : Bool)
  /-- `check` is the mode that `suspendCheck` sets, if any. -/
  | sleep (check : Option ℤ) (cycle sleepCycle : ℕ)
  | lock (op : PmLockOp ν)
  | wakeSet
  | modeSet (mode : ℤ)
  | register (node : Option PmNode)
  | unregister (node : Option PmNode)

namespace SuspendSys

variable {ν : Type}

section

variable (s : SuspendSys ν)

def osPmSuspendCheck : SuspendSys ν :=
  let pm := { s.pm with sysMode := s.pm.pmMode }
  if pm.lock > 0 then { s with pm := { pm with sysMode := .normal }, log := {} }
  else
    match pm.device with
    | none => { s with pm := { pm with isWake := false }, log := {}, fault := true }
    | some device =>
      { s with
        pm := { pm with isWake := false }
        pc := .early ⟨pm.sysctrl.early, device.suspend, pm.sysMode, device⟩
        log := { lateThere := pm.sysctrl.late.isSome } }

/-- The first half of `OsPmSuspendPrepare` -/
def callEarly (snap : Snapshot) (ok : Bool) : SuspendSys ν :=
  if snap.sysSuspendEarly = none ∨ ok then
    { s with pc := .suspend snap, log := { s.log with earlyOk := true } }
  else { s with pc := .prepared snap .sysEarly }

/-- The second half of `OsPmSuspendPrepare` -/
def callSuspend (snap : Snapshot) (ok : Bool) : SuspendSys ν :=
  if snap.deviceSuspend = none then { s with pc := .prepared snap .done }
  else if ok then
    { s with pc := .prepared snap .done, log := { s.log with suspended := some snap.owner } }
  else { s with pc := .prepared snap .sysDeviceEarly }

/-- The call of `suspendCheck`, which may set the mode -/
def runSuspendCheck (pm : LosPmCB ν) (check : Option ℤ) : LosPmCB ν :=
  if pm.sysctrl.suspendCheck ≠ none then
    let pm := check.elim pm fun mode => (pm.losPmModeSet mode).1
    { pm with sysMode := pm.pmMode }
  else pm

/-- From the second lock of the interrupts to `EXIT`, when all has been prepared -/
def enterSleep (check : Option ℤ) (cycle sleepCycle : ℕ) : SuspendSys ν :=
  if s.pm.isWake ∨ s.pm.lock > 0 then s
  else
    let pm := ((runSuspendCheck s.pm check).osPmTickTimerStop cycle sleepCycle).1
    let handler := pm.sysctrl.cpuSuspend pm.sysMode
    { s with
      pm := pm.osPmTickTimerStart
      log := { s.log with entered := some ⟨pm.lock, pm.isWake, handler⟩ }
      fault := s.fault || handler.isNone }

def osPmResumePrepare (prepare : Prepare) : SuspendSys ν :=
  let s :=
    if prepare = .done then
      match s.pm.device with
      | none => { s with fault := true }
      | some device =>
        if device.resume ≠ none then
          { s with log := { s.log with resumed := device :: s.log.resumed } }
        else s
    else s
  if prepare ≠ .sysEarly ∧ s.pm.sysctrl.late ≠ none then
    { s with log := { s.log with late := s.log.late + 1 } }
  else s

/-- `OsPmSuspendSleep` from the second lock of the interrupts on -/
def finish (prepare : Prepare) (check : Option ℤ) (cycle sleepCycle : ℕ) : SuspendSys ν :=
  let s := if prepare = .done then s.enterSleep check cycle sleepCycle else s
  let s := { s with pm := { s.pm with sysMode := .normal }, pc := .idle }
  s.osPmResumePrepare prepare

end

section

variable [DecidableEq ν]

def exec (msPerTick : ℕ) (s : SuspendSys ν) : SuspendOp ν → SuspendSys ν
  | .begin => s.osPmSuspendCheck
  | .early ok =>
    match s.pc with
    | .early snap => s.callEarly snap ok
    | _ => s
  | .suspend ok =>
    match s.pc with
    | .suspend snap => s.callSuspend snap ok
    | _ => s
  | .sleep check cycle sleepCycle =>
    match s.pc with
    | .prepared _ prepare => s.finish prepare check cycle sleepCycle
    | _ => s
  | .lock op => { s with pm := { s.pm with toPmLocks := (s.pm.toPmLocks.exec msPerTick op).1 } }
  | .wakeSet => { s with pm := s.pm.losPmWakeSet }
  | .modeSet mode => { s with pm := (s.pm.losPmModeSet mode).1 }
  | .register node => { s with pm := (s.pm.losPmRegister node).1 }
  | .unregister node => { s with pm := (s.pm.losPmUnregister node).1 }

/-- When a step can come: there is one call at a time. -/
def Enabled (s : SuspendSys ν) : SuspendOp ν → Prop
  | .begin => s.pc = .idle
  | _ => True

/-- Runs from `OsPmInit`. -/
def machine (ν : Type) [DecidableEq ν] (msPerTick : ℕ) : Machine (SuspendSys ν) (SuspendOp ν) where
  init s := s = { pm := .osPmInit ν }
  allowed := Enabled
  step := exec msPerTick

instance (msPerTick : ℕ) (s : SuspendSys ν) (op) :
    Decidable ((machine ν msPerTick).allowed s op) := by
  unfold machine Enabled
  dsimp only
  split <;> infer_instance

end

/-! ## The registered callbacks -/

/-- The handlers of the modes that may be entered are there, and a registered device has both
callbacks. -/
structure Registered (pm : LosPmCB ν) : Prop where
  handler : ∀ mode, (mode = .shutdown → pm.pmMode = .shutdown) →
    pm.sysctrl.cpuSuspend mode ≠ none
  device : ∀ d ∈ pm.device, d.suspend ≠ none ∧ d.resume ≠ none

/-- What the rest of the interface does to what a call relies on: device and mode stay, and handlers
and `late` may be replaced. -/
structure Leaves (pm pm' : LosPmCB ν) : Prop where
  device : pm'.device = pm.device
  sysMode : pm'.sysMode = pm.sysMode
  handler : ∀ mode, pm.sysctrl.cpuSuspend mode ≠ none → pm'.sysctrl.cpuSuspend mode ≠ none
  late : pm.sysctrl.late ≠ none → pm'.sysctrl.late ≠ none

variable {pm : LosPmCB ν} {s : SuspendSys ν} {snap : Snapshot} {node : Option PmNode}

theorem losPmModeSet_spec (pm : LosPmCB ν) (mode : ℤ) :
    ∃ m, (pm.losPmModeSet mode).1 = { pm with pmMode := m } ∧
      (m = .shutdown → pm.pmMode = .shutdown ∨ pm.sysctrl.shutdownSuspend ≠ none) := by
  have hsame : ∃ m, pm = { pm with pmMode := m } ∧
      (m = .shutdown → pm.pmMode = .shutdown ∨ pm.sysctrl.shutdownSuspend ≠ none) :=
    ⟨pm.pmMode, rfl, .inl⟩
  simp only [LosPmCB.losPmModeSet]
  cases LosPmCB.sleepMode mode with
  | none => exact hsame
  | some m =>
    dsimp only
    split_ifs with hdev hlight hdeep hshut
    iterate 4 exact hsame
    · exact ⟨m, rfl, fun hm => .inr fun hn => hshut ⟨hm, hn⟩⟩

theorem Registered.modeSet (h : Registered pm) (mode : ℤ) :
    Registered (pm.losPmModeSet mode).1 := by
  obtain ⟨m, heq, hshut⟩ := losPmModeSet_spec pm mode
  rw [heq]
  refine ⟨fun mode hmode => ?_, h.device⟩
  by_cases hm : mode = .shutdown
  · subst hm
    rcases hshut (hmode rfl) with hold | hnew
    · exact h.handler _ fun _ => hold
    · exact hnew
  · exact h.handler mode fun hc => absurd hc hm

theorem leaves_modeSet (pm : LosPmCB ν) (mode : ℤ) : Leaves pm (pm.losPmModeSet mode).1 := by
  obtain ⟨m, heq, -⟩ := losPmModeSet_spec pm mode
  rw [heq]
  exact ⟨rfl, rfl, fun _ => id, id⟩

theorem or_ne_none {a b : Option ℕ} (h : b ≠ none) : a.or b ≠ none := by
  cases a <;> simp [h]

theorem cpuSuspend_register (sysctrl : LosPmSysctrl) (mode : SysSleep)
    (h : pm.sysctrl.cpuSuspend mode ≠ none) :
    (pm.osPmSysctrlRegister sysctrl).1.sysctrl.cpuSuspend mode ≠ none := by
  cases mode <;> exact or_ne_none h

/-! ## One call -/

/-- The condition for a step: a call finds a device unless it returns at once, and while it is under
way the device is not replaced or removed and the handlers are not removed. -/
def Undisturbed (s : SuspendSys ν) : SuspendOp ν → Prop
  | .begin => 0 < s.pm.lock ∨ s.pm.device ≠ none
  | .register (some (.device d)) =>
    s.pc = .idle ∨ s.pm.device = some d ∨ d.suspend = none ∨ d.resume = none
  | .unregister (some (.device d)) =>
    s.pc = .idle ∨ s.pm.device.map LosPmDevice.addr ≠ some d.addr
  | .unregister (some (.sysctrl _)) => s.pc = .idle
  | _ => True

/-- What a call has done when it returns: it has called the `resume` of the device that it has
suspended and no other, and `late` if and only if `early` did not fail. -/
structure Returned (log : CallLog) : Prop where
  resumed : log.resumed = log.suspended.toList
  late_le : log.late ≤ 1
  earlyOk : log.late = 1 → log.earlyOk
  late : log.lateThere → log.earlyOk → log.late = 1

/-- The low-power handler is there, and it is entered without locks and wake requests. -/
def EnteredWell (log : CallLog) : Prop :=
  ∀ e ∈ log.entered, e.lock = 0 ∧ e.isWake = false ∧ e.handler ≠ none

structure Open (pm : LosPmCB ν) (log : CallLog) (snap : Snapshot) (earlyOk : Bool)
    (suspended : Option LosPmDevice) : Prop where
  device : pm.device = some snap.owner
  suspend : snap.deviceSuspend = snap.owner.suspend
  handler : pm.sysctrl.cpuSuspend pm.sysMode ≠ none
  late : log.lateThere → pm.sysctrl.late ≠ none
  log : log = { lateThere := log.lateThere, earlyOk := earlyOk, suspended := suspended }

/-- What the call has done against how far it has come. -/
def CallInv (pm : LosPmCB ν) (log : CallLog) : SuspendPc → Prop
  | .idle => Returned log ∧ EnteredWell log
  | .early snap => Open pm log snap false none
  | .suspend snap => Open pm log snap true none
  | .prepared snap .done => Open pm log snap true (some snap.owner)
  | .prepared snap .sysEarly => Open pm log snap false none
  | .prepared snap .sysDeviceEarly => Open pm log snap true none

structure Inv (s : SuspendSys ν) : Prop where
  registered : Registered s.pm
  call : CallInv s.pm s.log s.pc
  fault : s.fault = false

variable {pm' : LosPmCB ν} {suspended : Option LosPmDevice} {earlyOk lateThere : Bool}
  {log : CallLog}

theorem Open.leaves (h : Open pm log snap earlyOk suspended) (hl : Leaves pm pm') :
    Open pm' log snap earlyOk suspended where
  device := hl.device.trans h.device
  suspend := h.suspend
  handler := by
    rw [hl.sysMode]
    exact hl.handler _ h.handler
  late ht := hl.late (h.late ht)
  log := h.log

/-- The rest of the interface, while a call is under way or not. -/
theorem Inv.leaves (h : Inv s) (hr : Registered pm') (hl : s.pc ≠ .idle → Leaves s.pm pm') :
    Inv { s with pm := pm' } := by
  refine ⟨hr, ?_, h.fault⟩
  obtain ⟨pm, pc, log, fault⟩ := s
  have hc := h.call
  cases pc with
  | idle => exact hc
  | early => exact Open.leaves hc (hl (by simp))
  | suspend => exact Open.leaves hc (hl (by simp))
  | prepared _ prepare => cases prepare <;> exact Open.leaves hc (hl (by simp))

theorem Inv.register (h : Inv s) (hop : s.Undisturbed (.register node)) :
    Inv { s with pm := (s.pm.losPmRegister node).1 } := by
  obtain ⟨hhandler, hdevice⟩ := h.registered
  rcases node with _ | node
  · exact h
  cases node with
  | device =>
    simp only [LosPmCB.losPmRegister, LosPmCB.osPmDeviceRegister]
    split_ifs with hd
    · exact h
    · refine h.leaves ⟨hhandler, by simpa using hd⟩ fun hpc => ?_
      rcases hop with hc | hc | hc
      · exact absurd hc hpc
      · exact ⟨hc.symm, rfl, fun _ => id, id⟩
      · exact absurd hc hd
  | tickTimer =>
    simp only [LosPmCB.losPmRegister, LosPmCB.osPmTickTimerRegister]
    split_ifs <;> exact h.leaves ⟨hhandler, hdevice⟩ fun _ => ⟨rfl, rfl, fun _ => id, id⟩
  | sysctrl sysctrl =>
    exact h.leaves ⟨fun mode hm => cpuSuspend_register sysctrl mode (hhandler mode hm), hdevice⟩
      fun _ => ⟨rfl, rfl, fun mode => cpuSuspend_register sysctrl mode, or_ne_none⟩
  | other => exact h

theorem Inv.unregister (h : Inv s) (hop : s.Undisturbed (.unregister node)) :
    Inv { s with pm := (s.pm.losPmUnregister node).1 } := by
  obtain ⟨hhandler, hdevice⟩ := h.registered
  have hnormal : ∀ mode, (mode = .shutdown → SysSleep.normal = .shutdown) →
      s.pm.sysctrl.cpuSuspend mode ≠ none :=
    fun mode hm => hhandler mode fun hc => absurd (hm hc) (by simp)
  rcases node with _ | node
  · exact h
  cases node with
  | device =>
    simp only [LosPmCB.losPmUnregister, LosPmCB.osPmDeviceUnregister]
    split_ifs with hd
    · exact h.leaves ⟨hnormal, by simp⟩ fun hpc => absurd hd (hop.resolve_left hpc)
    · exact h
  | tickTimer =>
    simp only [LosPmCB.losPmUnregister, LosPmCB.osPmTickTimerUnregister]
    split_ifs
    · exact h.leaves ⟨hnormal, hdevice⟩ fun _ => ⟨rfl, rfl, fun _ => id, id⟩
    · exact h.leaves ⟨hhandler, hdevice⟩ fun _ => ⟨rfl, rfl, fun _ => id, id⟩
    · exact h
  | sysctrl =>
    refine h.leaves ⟨fun mode hm => ?_, hdevice⟩ fun hpc => absurd hop hpc
    cases mode with
    | shutdown => exact absurd (hm rfl) (by simp [LosPmCB.losPmUnregister,
        LosPmCB.osPmSysctrlUnregister])
    | _ => simp [LosPmCB.losPmUnregister, LosPmCB.osPmSysctrlUnregister,
        LosPmSysctrl.osPmSysctrlInit, LosPmSysctrl.cpuSuspend]
  | other => exact h

theorem returned_empty (h : lateThere = false) :
    Returned { lateThere := lateThere } := ⟨rfl, by simp, by simp, by simp [h]⟩

/-- `late` is called if it is there. -/
theorem returned_late {late : Option ℕ} {entered : Option Entry} (h : lateThere → late ≠ none) :
    Returned ⟨lateThere, true, suspended, suspended.toList, if late = none then 0 else 1,
      entered⟩ := by
  by_cases hl : late = none
  · simpa [hl] using ⟨rfl, by simp, by simp, fun ht => absurd hl (h ht)⟩
  · simpa [hl] using ⟨rfl, by simp, by simp, by simp⟩

theorem Inv.begin (h : Inv s) (hidle : s.pc = .idle) (hop : s.Undisturbed .begin) :
    Inv s.osPmSuspendCheck := by
  have hreg : ∀ mode b, Registered { s.pm with sysMode := mode, isWake := b } :=
    fun _ _ => ⟨h.registered.handler, h.registered.device⟩
  by_cases hlock : s.pm.lock > 0
  · simp only [osPmSuspendCheck, hlock]
    refine ⟨hreg _ _, ?_, h.fault⟩
    rw [hidle]
    exact ⟨returned_empty rfl, by simp [EnteredWell]⟩
  · obtain ⟨d, hd⟩ := Option.ne_none_iff_exists'.mp (hop.resolve_left hlock)
    simp only [osPmSuspendCheck, hlock, hd]
    exact ⟨⟨h.registered.handler, fun x hx => h.registered.device x (hd ▸ hx)⟩,
      ⟨rfl, rfl, h.registered.handler _ id, by simp [Option.isSome_iff_ne_none], rfl⟩, h.fault⟩

theorem Inv.callEarly (h : Inv s) (hpc : s.pc = .early snap) (ok : Bool) :
    Inv (s.callEarly snap ok) := by
  have ho := h.call
  rw [hpc] at ho
  simp only [SuspendSys.callEarly]
  split_ifs
  · exact ⟨h.registered, ⟨ho.device, ho.suspend, ho.handler, ho.late, by rw [ho.log]⟩, h.fault⟩
  · exact ⟨h.registered, ho, h.fault⟩

theorem Inv.callSuspend (h : Inv s) (hpc : s.pc = .suspend snap) (ok : Bool) :
    Inv (s.callSuspend snap ok) := by
  have ho := h.call
  rw [hpc] at ho
  have hsome : snap.deviceSuspend ≠ none := by
    rw [ho.suspend]
    exact (h.registered.device _ ho.device).1
  simp only [SuspendSys.callSuspend, hsome, if_false]
  split_ifs
  · exact ⟨h.registered, ⟨ho.device, ho.suspend, ho.handler, ho.late, by rw [ho.log]⟩, h.fault⟩
  · exact ⟨h.registered, ho, h.fault⟩

/-- What the preparations under the second lock leave: only the modes and the sleep time change, and
the mode that will be entered has a handler. -/
structure Ready (pm pm' : LosPmCB ν) : Prop where
  registered : Registered pm'
  handler : pm'.sysctrl.cpuSuspend pm'.sysMode ≠ none
  device : pm'.device = pm.device
  sysctrl : pm'.sysctrl = pm.sysctrl
  locks : pm'.toPmLocks = pm.toPmLocks
  isWake : pm'.isWake = pm.isWake

theorem ready_runSuspendCheck (h : Registered pm)
    (hh : pm.sysctrl.cpuSuspend pm.sysMode ≠ none) (check : Option ℤ) :
    Ready pm (runSuspendCheck pm check) := by
  have hset : ∀ m, Registered { pm with pmMode := m } →
      Ready pm { pm with pmMode := m, sysMode := m } := fun m hr =>
    ⟨⟨hr.handler, hr.device⟩, hr.handler m id, rfl, rfl, rfl, rfl⟩
  unfold runSuspendCheck
  split_ifs
  · cases check with
    | none => exact hset pm.pmMode h
    | some mode =>
      obtain ⟨m, heq, -⟩ := losPmModeSet_spec pm mode
      have hr := h.modeSet mode
      simp only [Option.elim_some]
      rw [heq] at hr ⊢
      exact hset m hr
  · exact ⟨h, hh, rfl, rfl, rfl, rfl⟩

theorem Ready.tickTimerStop (h : Ready pm pm') (cycle sleepCycle : ℕ) :
    Ready pm (pm'.osPmTickTimerStop cycle sleepCycle).1 := by
  have hnormal : pm'.sysctrl.cpuSuspend .normal ≠ none :=
    h.registered.handler _ fun hc => absurd hc (by simp)
  have hreg : ∀ mode time, Registered { pm' with sysMode := mode, enterSleepTime := time } :=
    fun _ _ => ⟨h.registered.handler, h.registered.device⟩
  unfold LosPmCB.osPmTickTimerStop
  split
  · exact h
  · split_ifs
    · exact h
    · exact ⟨hreg _ _, hnormal, h.device, h.sysctrl, h.locks, h.isWake⟩
    · exact ⟨hreg _ _, h.handler, h.device, h.sysctrl, h.locks, h.isWake⟩
    · exact h

theorem Ready.tickTimerStart (h : Ready pm pm') : Ready pm pm'.osPmTickTimerStart := by
  have hset : ∀ time, Ready pm { pm' with enterSleepTime := time } := fun _ =>
    ⟨⟨h.registered.handler, h.registered.device⟩, h.handler, h.device, h.sysctrl, h.locks, h.isWake⟩
  unfold LosPmCB.osPmTickTimerStart
  split
  · exact h
  · split_ifs
    · exact h
    · exact hset 0
    · exact h

/-- What happens between the second lock and `EXIT`: nothing, or the low-power handler is entered as
it should be. -/
theorem enterSleep_spec (h : Registered s.pm)
    (hh : s.pm.sysctrl.cpuSuspend s.pm.sysMode ≠ none) (check : Option ℤ) (cycle sleepCycle : ℕ) :
    s.enterSleep check cycle sleepCycle = s ∨ ∃ pm e, s.enterSleep check cycle sleepCycle =
        { s with pm := pm, log := { s.log with entered := some e } } ∧
      Ready s.pm pm ∧ e.lock = 0 ∧ e.isWake = false ∧ e.handler ≠ none := by
  by_cases hgo : s.pm.isWake ∨ s.pm.lock > 0
  · exact .inl (if_pos hgo)
  · have hstop := (ready_runSuspendCheck h hh check).tickTimerStop cycle sleepCycle
    right
    obtain ⟨f, hf⟩ := Option.ne_none_iff_exists'.mp hstop.handler
    obtain ⟨hwake, hlock⟩ : s.pm.isWake = false ∧ s.pm.lock = 0 := by simpa using hgo
    have hlock' := (congrArg PmLocks.lock hstop.locks).trans hlock
    have hwake' := hstop.isWake.trans hwake
    refine ⟨_, ⟨0, false, some f⟩, (if_neg hgo).trans ?_, hstop.tickTimerStart, rfl, rfl, by simp⟩
    simp [hf, hlock', hwake']

theorem Inv.of_returned (hr : Registered s.pm) (hpc : s.pc = .idle) (hf : s.fault = false)
    (hret : Returned s.log) (hent : EnteredWell s.log) : Inv s := by
  refine ⟨hr, ?_, hf⟩
  rw [hpc]
  exact ⟨hret, hent⟩

theorem Inv.resumePrepare {d : LosPmDevice} {entered : Option Entry}
    (hreg : Registered s.pm) (hpc : s.pc = .idle) (hf : s.fault = false)
    (hd : s.pm.device = some d) (hlate : lateThere → s.pm.sysctrl.late ≠ none)
    (hlog : s.log = ⟨lateThere, true, some d, [], 0, entered⟩)
    (hent : EnteredWell s.log) : Inv (s.osPmResumePrepare .done) := by
  have hr := (hreg.device d hd).2
  have heq : s.osPmResumePrepare .done = { s with log :=
      ⟨lateThere, true, some d, [d], if s.pm.sysctrl.late = none then 0 else 1, entered⟩ } := by
    by_cases hl : s.pm.sysctrl.late = none <;> simp [osPmResumePrepare, hd, hr, hl, hlog]
  rw [heq]
  rw [hlog] at hent
  exact .of_returned hreg hpc hf (returned_late hlate) hent

/-- `OsPmSuspendSleep` from the second lock on, when all has been prepared -/
theorem Inv.finish_done (h : Inv s) (ho : Open s.pm s.log snap true (some snap.owner))
    (check : Option ℤ) (cycle sleepCycle : ℕ) : Inv (s.finish .done check cycle sleepCycle) := by
  have hset : ∀ pm : LosPmCB ν, Registered pm → Registered { pm with sysMode := .normal } :=
    fun _ hr => ⟨hr.handler, hr.device⟩
  simp only [SuspendSys.finish, if_true]
  rcases enterSleep_spec h.registered ho.handler check cycle sleepCycle with
    heq | ⟨pm, e, heq, hready, hlock, hwake, hhandler⟩
  · rw [heq]
    refine .resumePrepare (hset _ h.registered) rfl h.fault ho.device ho.late ho.log ?_
    rw [ho.log]
    simp [EnteredWell]
  · rw [heq]
    have hlate : s.log.lateThere → pm.sysctrl.late ≠ none := by
      rw [hready.sysctrl]
      exact ho.late
    have hlog : { s.log with entered := some e } =
        (⟨s.log.lateThere, true, some snap.owner, [], 0, some e⟩ : CallLog) := by rw [ho.log]
    exact .resumePrepare (hset _ hready.registered) rfl h.fault (hready.device.trans ho.device)
      hlate hlog (by simpa [EnteredWell] using ⟨hlock, hwake, hhandler⟩)

theorem Inv.finish {prepare : Prepare} (h : Inv s) (hpc : s.pc = .prepared snap prepare)
    (check : Option ℤ) (cycle sleepCycle : ℕ) : Inv (s.finish prepare check cycle sleepCycle) := by
  have ho := h.call
  rw [hpc] at ho
  have hreg : Registered { s.pm with sysMode := .normal } :=
    ⟨h.registered.handler, h.registered.device⟩
  cases prepare with
  | done => exact h.finish_done ho check cycle sleepCycle
  | sysEarly =>
    have heq : s.finish .sysEarly check cycle sleepCycle =
        { s with pm := { s.pm with sysMode := .normal }, pc := .idle } := by
      simp [SuspendSys.finish, osPmResumePrepare]
    rw [heq]
    refine .of_returned hreg rfl h.fault ?_ ?_ <;> dsimp only <;> rw [ho.log]
    · exact ⟨rfl, by simp, by simp, by simp⟩
    · simp [EnteredWell]
  | sysDeviceEarly =>
    have heq : s.finish .sysDeviceEarly check cycle sleepCycle = { s with
        pm := { s.pm with sysMode := .normal }
        pc := .idle
        log := ⟨s.log.lateThere, true, none, [], if s.pm.sysctrl.late = none then 0 else 1,
          none⟩ } := by
      have hlog : ({ s.log with late := s.log.late + 1 } : CallLog) =
          ⟨s.log.lateThere, true, none, [], 1, none⟩ := by rw [ho.log]
      by_cases hl : s.pm.sysctrl.late = none
      · simp [SuspendSys.finish, osPmResumePrepare, hl, ← ho.log]
      · simp [SuspendSys.finish, osPmResumePrepare, hl, ← hlog]
    rw [heq]
    exact .of_returned hreg rfl h.fault (returned_late ho.late) (by simp [EnteredWell])

/-! ## Runs -/

variable [DecidableEq ν]

theorem Inv.exec {msPerTick : ℕ} {op : SuspendOp ν} (h : Inv s) (he : s.Enabled op)
    (hop : s.Undisturbed op) : Inv (s.exec msPerTick op) := by
  cases op with
  | begin => exact h.begin he hop
  | early ok =>
    simp only [SuspendSys.exec]
    split
    · rename_i snap hpc
      exact h.callEarly hpc ok
    · exact h
  | suspend ok =>
    simp only [SuspendSys.exec]
    split
    · rename_i snap hpc
      exact h.callSuspend hpc ok
    · exact h
  | sleep check cycle sleepCycle =>
    simp only [SuspendSys.exec]
    split
    · rename_i snap prepare hpc
      exact h.finish hpc check cycle sleepCycle
    · exact h
  | lock =>
    exact h.leaves ⟨h.registered.handler, h.registered.device⟩ fun _ => ⟨rfl, rfl, fun _ => id, id⟩
  | wakeSet =>
    exact h.leaves ⟨h.registered.handler, h.registered.device⟩ fun _ => ⟨rfl, rfl, fun _ => id, id⟩
  | modeSet mode => exact h.leaves (h.registered.modeSet mode) fun _ => leaves_modeSet _ mode
  | register => exact h.register hop
  | unregister => exact h.unregister hop

omit [DecidableEq ν] in
theorem Inv.init : Inv { pm := .osPmInit ν } where
  registered := by
    refine ⟨fun mode hm => ?_, by simp [LosPmCB.osPmInit]⟩
    cases mode with
    | shutdown => exact absurd (hm rfl) (by simp [LosPmCB.osPmInit])
    | _ => simp [LosPmCB.osPmInit, LosPmSysctrl.osPmSysctrlInit, LosPmSysctrl.cpuSuspend]
  call := ⟨returned_empty rfl, by simp [EnteredWell]⟩
  fault := rfl

/-- No null pointer has been followed, the low-power handler was entered without locks and wake
requests, and a call that has returned has undone what it did. -/
structure Safe (s : SuspendSys ν) : Prop where
  fault : s.fault = false
  entered : EnteredWell s.log
  returned : s.pc = .idle → Returned s.log

omit [DecidableEq ν] in
theorem Open.enteredWell (h : Open pm log snap earlyOk suspended) : EnteredWell log := by
  rw [h.log]
  simp [EnteredWell]

/-- Undisturbed calls are safe. -/
theorem safe_of_undisturbed (msPerTick : ℕ) (s : SuspendSys ν)
    (h : ((machine ν msPerTick).restrict Undisturbed).Reaches s) : Safe s := by
  have hinv : Inv s :=
    h.invariant (fun s hs => hs ▸ .init) fun s op hinv hop => hinv.exec hop.1 hop.2
  have hc := hinv.call
  refine ⟨hinv.fault, ?_, fun hpc => ?_⟩
  · generalize s.pc = pc at hc
    cases pc with
    | idle => exact hc.2
    | early => exact Open.enteredWell hc
    | suspend => exact Open.enteredWell hc
    | prepared _ prepare => cases prepare <;> exact Open.enteredWell hc
  · rw [hpc] at hc
    exact hc.1

def uart : LosPmDevice := ⟨100, some 1, some 2⟩

/-- The device is registered, the mode is set, and a call goes through while a lock is requested and
released. -/
def lightSleep : List (SuspendOp ℕ) :=
  [.register (some (.device uart)), .modeSet 1, .begin, .lock (.request (some 7) true), .early true,
    .suspend true, .lock (.release .light (some 7)), .sleep none 0 0]

theorem safe_of_undisturbed_light :
    Safe (((machine ℕ 10).restrict Undisturbed).run { pm := .osPmInit ℕ } lightSleep) := by
  refine safe_of_undisturbed 10 _ ((Machine.Reaches.start rfl).run lightSleep ?_)
  exact ⟨⟨trivial, .inl rfl⟩, ⟨trivial, trivial⟩, ⟨rfl, .inr (by decide)⟩, ⟨trivial, trivial⟩,
    ⟨trivial, trivial⟩, ⟨trivial, trivial⟩, ⟨trivial, trivial⟩, ⟨trivial, trivial⟩, trivial⟩

def noDevice : List (SuspendOp ℕ) := [.begin]

/-- The device is replaced while its `suspend` runs. -/
def replacedDevice : List (SuspendOp ℕ) :=
  [.register (some (.device uart)), .begin, .early true, .suspend true,
    .register (some (.device ⟨200, some 3, some 4⟩)), .sleep none 0 0]

/-- The handlers are removed while the system is about to be shut down. -/
def removedHandlers : List (SuspendOp ℕ) :=
  [.register (some (.device uart)),
    .register (some (.sysctrl { late := some 5, shutdownSuspend := some 6 })), .modeSet 3, .begin,
    .early true, .suspend true, .unregister (some (.sysctrl {})), .sleep none 0 0]

/-- A null pointer is followed; the `resume` of another device is called; the null handler is
called, and `late` is not called although nothing has failed. -/
theorem not_safe_when_disturbed :
    (∃ s, (machine ℕ 10).Reaches s ∧ s.fault = true) ∧
    (∃ s, (machine ℕ 10).Reaches s ∧ s.pc = .idle ∧ s.log.suspended = some uart ∧
      s.log.resumed = [⟨200, some 3, some 4⟩]) ∧
    ∃ s, (machine ℕ 10).Reaches s ∧ s.pc = .idle ∧ s.log.entered = some ⟨0, false, none⟩ ∧
      s.log.lateThere = true ∧ s.log.earlyOk = true ∧ s.log.late = 0 := by
  have hinit : (machine ℕ 10).Reaches { pm := .osPmInit ℕ } := .start rfl
  exact ⟨⟨_, hinit.run noDevice (by decide), by decide⟩,
    ⟨_, hinit.run replacedDevice (by decide), by decide⟩,
    ⟨_, hinit.run removedHandlers (by decide), by decide⟩⟩

end SuspendSys

end LiteOS.Power
