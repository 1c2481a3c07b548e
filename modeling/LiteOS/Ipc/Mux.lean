import LiteOS.Kernel.Blocking

/-!
# Mutexes

The model of `los_mux.c`. `LOS_MuxPend` is split at its `LOS_Schedule`: `losMuxPend` answers `none`
when the running task begins to wait, and `losMuxPendReturn` is what the task does when it is
dispatched again.
-/

namespace LiteOS.Kernel

open Lib

/-- `LosMuxCB`; its `muxList` is the list head `muxList` of the mutex's index. -/
structure LosMuxCB where
  /-- `OS_MUX_USED` -/
  muxStat : Bool := false
  muxCount : ℕ := 0
  owner : Option TaskID := none
  priority : ℕ := 0
deriving DecidableEq, Repr

/-- `g_allMux` and `g_unusedMuxList` -/
structure Muxes where
  allMux : ℕ → LosMuxCB
  unusedMuxList : List ℕ

namespace Muxes

def osMuxInit (c : Config) : Muxes where
  allMux _ := {}
  unusedMuxList := List.range c.muxLimit

@[simps]
def modify (m : Muxes) (mux : ℕ) (f : LosMuxCB → LosMuxCB) : Muxes :=
  { m with allMux := Function.update m.allMux mux (f (m.allMux mux)) }

def losMuxCreate (m : Muxes) : Muxes × Except Errno ℕ :=
  match m.unusedMuxList with
  | [] => (m, .error .muxAllBusy)
  | mux :: unused =>
    ({ m with unusedMuxList := unused }.modify mux fun _ => { muxStat := true }, .ok mux)

end Muxes

namespace Sched

section

variable (c : Config) (k : Sched)

def osMuxValidCheck (muxPended : LosMuxCB) (intActive : Bool) : Errno :=
  if !muxPended.muxStat then .muxInvalid
  else if intActive then .muxInInterr
  else if k.losTaskLock ≠ 0 then .muxPendInLock
  else if (k.status k.runTask).systemTask then .muxPendInSystemTask
  else .ok

/-- The owner inherits the priority of a more urgent task that is about to wait. A mutex with a
count has an owner, so `none` stands for no case of the source. -/
def boostOwner (owner : Option TaskID) : Sched :=
  match owner with
  | none => k
  | some owner =>
    if (k.taskCB owner).priority > (k.taskCB k.runTask).priority then
      (k.osSchedModifyTaskSchedParam c owner (k.taskCB k.runTask).priority).1
    else k

/-- `LOS_MuxPend` up to its `LOS_Schedule` -/
def losMuxPend (m : Muxes) (muxHandle timeout : ℕ) (intActive : Bool) :
    Sched × Muxes × Option Errno :=
  if muxHandle ≥ c.muxLimit then (k, m, some .muxInvalid)
  else
    let retErr := k.osMuxValidCheck (m.allMux muxHandle) intActive
    if retErr ≠ .ok then (k, m, some retErr)
    else if (m.allMux muxHandle).muxCount = 0 then
      (k, m.modify muxHandle fun cb =>
        { cb with
          muxCount := 1
          owner := some k.runTask
          priority := (k.taskCB k.runTask).priority }, some .ok)
    else if (m.allMux muxHandle).owner = some k.runTask then
      (k, m.modify muxHandle fun cb => { cb with muxCount := (cb.muxCount + 1) % 2 ^ 16 }, some .ok)
    else if timeout = 0 then (k, m, some .muxUnavailable)
    else
      let k := k.modifyTCB k.runTask fun cb => { cb with taskMux := some muxHandle }
      let k := boostOwner c k (m.allMux muxHandle).owner
      (k.osSchedTaskWait (.muxList muxHandle) timeout, m, none)

/-- The rest of `LOS_MuxPend` -/
def losMuxPendReturn : Sched × Errno :=
  let (k, timedOut) := k.takeTimeout k.runTask
  (k, if timedOut then .muxTimeout else .ok)

/-- The running task gives the mutex back: it gets the priority that it had when it acquired the
mutex. -/
def restorePriority (priority : ℕ) : Sched :=
  if (k.taskCB k.runTask).priority ≠ priority then
    (k.osSchedModifyTaskSchedParam c k.runTask priority).1
  else k

def losMuxPost (m : Muxes) (muxHandle : ℕ) (intActive : Bool) :
    Sched × Muxes × Errno :=
  let muxPosted := m.allMux muxHandle
  if muxHandle ≥ c.muxLimit ∨ !muxPosted.muxStat then (k, m, .muxInvalid)
  else if intActive then (k, m, .muxInInterr)
  else if muxPosted.muxCount = 0 ∨ muxPosted.owner ≠ some k.runTask then (k, m, .muxInvalid)
  else if muxPosted.muxCount - 1 ≠ 0 then
    (k, m.modify muxHandle fun cb => { cb with muxCount := cb.muxCount - 1 }, .ok)
  else
    let k := restorePriority c k muxPosted.priority
    match k.lists (.muxList muxHandle) with
    | resumedTask :: _ =>
      let m := m.modify muxHandle fun cb =>
        { cb with
          muxCount := 1
          owner := some resumedTask
          priority := (k.taskCB resumedTask).priority }
      let k := k.modifyTCB resumedTask fun cb => { cb with taskMux := none }
      (k.osSchedTaskWake c resumedTask, m, .ok)
    | [] => (k, m.modify muxHandle fun cb => { cb with muxCount := 0, owner := none }, .ok)

end

end Sched

end LiteOS.Kernel
