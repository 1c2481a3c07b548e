import LiteOS.Kernel.Blocking

/-!
# Semaphores

The model of `los_sem.c`. `LOS_SemPend` is split at its `LOS_Schedule`: `losSemPend` answers `none`
when the running task begins to wait, and `losSemPendReturn` is what the task does when it is
dispatched again.
-/

namespace LiteOS.Kernel

open Lib

/-- `LosSemCB`; its `semList` is the list head `semList` of the semaphore's index. -/
structure LosSemCB where
  /-- `OS_SEM_USED` -/
  semStat : Bool := false
  semCount : ℕ := 0
  maxSemCount : ℕ := 0
deriving DecidableEq, Repr

/-- `g_allSem` and `g_unusedSemList` -/
structure Sems where
  allSem : ℕ → LosSemCB
  unusedSemList : List ℕ

/-- `OS_SEM_COUNTING_MAX_COUNT` -/
def semCountingMaxCount : ℕ := 0xFFFF

/-- `OS_SEM_BINARY_MAX_COUNT` -/
def semBinaryMaxCount : ℕ := 1

namespace Sems

def osSemInit (c : Config) : Sems where
  allSem _ := {}
  unusedSemList := List.range c.semLimit

def modify (m : Sems) (sem : ℕ) (f : LosSemCB → LosSemCB) : Sems :=
  { m with allSem := Function.update m.allSem sem (f (m.allSem sem)) }

def osSemCreate (m : Sems) (count maxCount : ℕ) : Sems × Except Errno ℕ :=
  if count > maxCount then (m, .error .semOverflow)
  else
    match m.unusedSemList with
    | [] => (m, .error .semAllBusy)
    | sem :: unused =>
      ({ m with unusedSemList := unused }.modify sem fun _ =>
        { semStat := true, semCount := count, maxSemCount := maxCount }, .ok sem)

def losSemCreate (m : Sems) (count : ℕ) : Sems × Except Errno ℕ :=
  m.osSemCreate count semCountingMaxCount

def losBinarySemCreate (m : Sems) (count : ℕ) : Sems × Except Errno ℕ :=
  m.osSemCreate count semBinaryMaxCount

end Sems

namespace Sched

def osSemValidCheck (k : Sched) (semPended : LosSemCB) (intActive : Bool) : Errno :=
  if !semPended.semStat then .semInvalid
  else if intActive then .semPendInterr
  else if k.losTaskLock ≠ 0 then .semPendInLock
  else if (k.status k.runTask).systemTask then .semPendInSystemTask
  else .ok

/-- `LOS_SemPend` up to its `LOS_Schedule` -/
def losSemPend (c : Config) (k : Sched) (m : Sems) (semHandle timeout : ℕ) (intActive : Bool) :
    Sched × Sems × Option Errno :=
  if semHandle ≥ c.semLimit then (k, m, some .semInvalid)
  else
    let retErr := k.osSemValidCheck (m.allSem semHandle) intActive
    if retErr ≠ .ok then (k, m, some retErr)
    else if (m.allSem semHandle).semCount > 0 then
      (k, m.modify semHandle fun s => { s with semCount := s.semCount - 1 }, some .ok)
    else if timeout = 0 then (k, m, some .semUnavailable)
    else
      let k := k.modifyTCB k.runTask fun cb => { cb with taskSem := some semHandle }
      (k.osSchedTaskWait (.semList semHandle) timeout, m, none)

/-- The rest of `LOS_SemPend` -/
def losSemPendReturn (k : Sched) : Sched × Errno :=
  let (k, timedOut) := k.takeTimeout k.runTask
  (k, if timedOut then .semTimeout else .ok)

def losSemPost (c : Config) (k : Sched) (m : Sems) (semHandle : ℕ) : Sched × Sems × Errno :=
  if semHandle ≥ c.semLimit then (k, m, .semInvalid)
  else if !(m.allSem semHandle).semStat then (k, m, .semInvalid)
  else if (m.allSem semHandle).maxSemCount = (m.allSem semHandle).semCount then
    (k, m, .semOverflow)
  else
    match k.lists (.semList semHandle) with
    | resumedTask :: _ =>
      let k := k.modifyTCB resumedTask fun cb => { cb with taskSem := none }
      (k.osSchedTaskWake c resumedTask, m, .ok)
    | [] =>
      (k, m.modify semHandle fun s => { s with semCount := (s.semCount + 1) % 2 ^ 16 }, .ok)

end Sched

end LiteOS.Kernel
