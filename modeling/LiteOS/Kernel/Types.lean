import LiteOS.Lib.Rings
import Mathlib.Algebra.Group.Int.Defs
import Mathlib.Algebra.Group.Nat.Defs
import Mathlib.Data.Int.Notation
import Mathlib.Tactic.Simps.Basic

/-!
# Kernel data

Task control blocks, the lists that run through their `pendList` nodes, and the globals of the
scheduler. A task is named by the index of its control block in `g_taskCBArray`; the block at index
`g_taskMaxNum` is the spare one that stands for "no task". The kernel lists are doubly linked rings
of `pendList` nodes, so a list is the sequence of its members and unlinking a node takes it out of
whatever list it is in.
-/

namespace LiteOS.Kernel

open Lib

abbrev TaskID := ℕ

/-- The bits of `taskStatus`. -/
structure TaskStatus where
  unused : Bool := false
  suspend : Bool := false
  ready : Bool := false
  pend : Bool := false
  running : Bool := false
  delay : Bool := false
  timeout : Bool := false
  pendTime : Bool := false
  exit : Bool := false
  stackFree : Bool := false
  systemTask : Bool := false
  signal : Bool := false
  freeze : Bool := false
  joinable : Bool := false
deriving DecidableEq, Repr

/-- The two wait lists of a message queue, `OS_QUEUE_READ` and `OS_QUEUE_WRITE`. -/
inductive ReadWrite
  | read
  | write
deriving DecidableEq, Repr

/-- The list heads a task can be linked to through its `pendList` node. -/
inductive ListHead
  | priQueueList (priority : ℕ)
  | losFreeTask
  | taskRecycleList
  | joinList (task : TaskID)
  | semList (sem : ℕ)
  | muxList (mux : ℕ)
  | readWriteList (queue : ℕ) (readWrite : ReadWrite)
  | memList (queue : ℕ)
  | stEventList (event : ℕ)
  | waitSignalList
deriving DecidableEq, Repr

/-- Lists on which a task pends: all but the ready queues and the lists of unused blocks. -/
def ListHead.isWait : ListHead → Bool
  | .priQueueList _ | .losFreeTask | .taskRecycleList => false
  | _ => true

/-- Wait lists other than those of `LOS_TaskJoin`. -/
def ListHead.isIpc : ListHead → Bool
  | .joinList _ => false
  | i => i.isWait

theorem ListHead.isWait_of_isIpc {i : ListHead} (h : i.isIpc) : i.isWait := by
  cases i <;> simp_all [isIpc]

/-- `OS_SORT_LINK_INVALID_TIME` -/
def sortLinkInvalidTime : ℕ := 2 ^ 64 - 1

def losWaitForever : ℕ := 0xFFFFFFFF

def osInvalid : ℕ := 0xFFFFFFFF

/-- `OS_TASK_PRIORITY_LOWEST` -/
def taskPriorityLowest : ℕ := 31

/-- The fields of `LosTaskCB` that the scheduler and the inter-task communication read.
`responseTime` is that of the `sortList` node. -/
structure TaskCB where
  taskID : TaskID := 0
  taskStatus : TaskStatus := {}
  priority : ℕ := 0
  /-- an `INT32`, taken as an integer that does not overflow -/
  timeSlice : ℤ := 0
  waitTimes : ℕ := 0
  startTime : ℕ := 0
  responseTime : ℕ := 0
  taskSem : Option ℕ := none
  taskMux : Option ℕ := none
  eventMask : BitVec 32 := 0
  eventMode : BitVec 32 := 0
  topOfStack : ℕ := 0
deriving DecidableEq, Repr

/-- Build-time configuration, and the times `SchedTimeBaseInit` derives from the clock rate. -/
structure Config where
  /-- `LOSCFG_BASE_CORE_TSK_LIMIT` -/
  tskLimit : ℕ
  /-- Task identifiers are 32-bit numbers other than `OS_INVALID`. -/
  tskLimit_lt : tskLimit + 1 < osInvalid
  /-- `LOSCFG_BASE_IPC_SEM_LIMIT` -/
  semLimit : ℕ
  /-- `LOSCFG_BASE_IPC_MUX_LIMIT` -/
  muxLimit : ℕ
  /-- `LOSCFG_BASE_IPC_QUEUE_LIMIT` -/
  queueLimit : ℕ
  schedTimeSlice : ℤ
  schedTimeSliceMin : ℤ
  /-- `g_sysClock` -/
  sysClock : ℕ
  /-- `LOSCFG_BASE_CORE_TICK_PER_SECOND` -/
  tickPerSecond : ℕ
  /-- `LOSCFG_SYS_HEAP_SIZE` -/
  sysHeapSize : ℕ
  tskDefaultStackSize : ℕ
  tskMinStackSize : ℕ
  tskIdleStackSize : ℕ
  tskSwtmrStackSize : ℕ
  /-- `LOSCFG_STACK_POINT_ALIGN_SIZE` -/
  stackPointAlignSize : ℕ
  /-- `LOSCFG_BASE_CORE_SWTMR` -/
  baseCoreSwtmr : Bool
  /-- `PATH_MAX` of the C library -/
  pathMax : ℕ

/-- `g_taskMaxNum`, which is also the index of the spare control block. -/
def Config.taskMaxNum (c : Config) : ℕ := c.tskLimit + 1

/-- `OS_SYS_TICK_TO_CYCLE` -/
def Config.sysTickToCycle (c : Config) (ticks : ℕ) : ℕ := ticks * c.sysClock / c.tickPerSecond

/-- `OS_CYCLE_PER_TICK` -/
def Config.cyclePerTick (c : Config) : ℕ := c.sysClock / c.tickPerSecond

/-- Return codes, named after `LOS_ERRNO_*`. -/
inductive Errno
  | ok
  | nok
  | tskNameEmpty
  | tskEntryNull
  | tskPriorError
  | tskStkszTooLarge
  | tskStkszTooSmall
  | tskTcbUnavailable
  | tskNoMemory
  | tskIdInvalid
  | tskNotCreated
  | tskNotSuspended
  | tskAlreadySuspended
  | tskSuspendLocked
  | tskOperateIdle
  | tskOperateSwtmr
  | tskSuspendSwtmrNotAllowed
  | tskOperateSystemTask
  | tskAlreadyExit
  | tskProcessSignal
  | tskDelayInInt
  | tskDelayInLock
  | tskNotAllowInInt
  | tskSchedLocked
  | tskNotJoinSelf
  | tskNotJoin
  | semOverflow
  | semAllBusy
  | semInvalid
  | semPendInterr
  | semPendInLock
  | semPendInSystemTask
  | semUnavailable
  | semTimeout
  | muxAllBusy
  | muxInvalid
  | muxInInterr
  | muxPendInLock
  | muxPendInSystemTask
  | muxUnavailable
  | muxTimeout
  | queueInvalid
  | queueReadsizeIszero
  | queueReadInInterrupt
  | queueWritesizeIszero
  | queueWriteInInterrupt
  | queueNotCreate
  | queueWriteSizeTooBig
  | queueBufferSizeTooBig
  | queueIsempty
  | queueIsfull
  | queuePendInLock
  | queueTimeout
  | queueSizeTooBig
  | queueParaIszero
  | queueCreateNoMemory
  | queueCbUnavailable
  | queueNotFound
  | queueInTskuse
  | queueInTskwrite
  | eventSetbitInvalid
  | eventReadTimeout
  | eventEventmaskInvalid
  | eventReadInInterrupt
  | eventFlagsInvalid
  | eventReadInLock
  | eventShouldNotDestroyed
  | eventReadInSystemTask
  | eventNotInitialized
  | signalInvalid
  | signalNoMemory
  | signalNoSet
  | signalTimeout
  | signalPendInterr
deriving DecidableEq, Repr

/-- The globals of `los_sched.c` and `los_task.c`. What programs the next tick
(`g_schedResponseTime`, `g_schedResponseID`) is left out: it decides when the tick interrupt comes,
and here the tick may come at any time.

The last fields are not in the source. `assertFailed` records that a `LOS_ASSERT` on the status of a
task did not hold, `unlinkFault` that a sort link node that is in no list was unlinked; the source
would follow null pointers there. The others count, for each control block, how often it was taken
from `g_losFreeTask` and put back, and how many stacks were allocated for it and freed. -/
structure Sched where
  /-- `g_taskCBArray` -/
  taskCB : TaskID → TaskCB
  lists : Rings ListHead TaskID
  /-- `g_queueBitmap` -/
  queueBitmap : BitVec 32
  /-- `g_taskSortLink` -/
  sortLink : List TaskID
  /-- `g_losTask.runTask` -/
  runTask : TaskID
  /-- `g_losTask.newTask` -/
  newTask : TaskID
  /-- `g_losTaskLock` -/
  losTaskLock : ℕ
  idleTaskID : TaskID
  swtmrTaskID : TaskID
  /-- `g_taskScheduled` -/
  taskScheduled : Bool
  assertFailed : Bool := false
  unlinkFault : Bool := false
  creations : TaskID → ℕ := fun _ => 0
  freeEntries : TaskID → ℕ := fun _ => 0
  stackAllocs : TaskID → ℕ := fun _ => 0
  stackFrees : TaskID → ℕ := fun _ => 0

namespace Sched

section

variable (k : Sched) (t : TaskID)

/-- Write to the control block of `t`. -/
@[simps]
def modifyTCB (f : TaskCB → TaskCB) : Sched :=
  { k with taskCB := Function.update k.taskCB t (f (k.taskCB t)) }

/-- Write to the status of `t`. -/
@[simps!]
def setStatus (f : TaskStatus → TaskStatus) : Sched :=
  k.modifyTCB t fun cb => { cb with taskStatus := f cb.taskStatus }

@[simp] theorem modifyTCB_lists_eq (k : Sched) (t : TaskID) (f : TaskCB → TaskCB) :
    (k.modifyTCB t f).lists = k.lists := rfl

@[simp] theorem setStatus_lists_eq (k : Sched) (t : TaskID) (f : TaskStatus → TaskStatus) :
    (k.setStatus t f).lists = k.lists := rfl

/-- The status of `t`. -/
@[simp] abbrev status : TaskStatus := (k.taskCB t).taskStatus

/-- `LOS_ListDelete` on the `pendList` node of `t`. -/
@[simps]
def listDelete : Sched :=
  { k with lists := k.lists.unlink t }

/-- `LOS_ListAdd`: `t` becomes the first member. -/
@[simps]
def listAdd (h : ListHead) (t : TaskID) : Sched :=
  { k with lists := k.lists.addHead h t }

/-- `LOS_ListTailInsert`: `t` becomes the last member. -/
@[simps]
def listTailInsert (h : ListHead) (t : TaskID) : Sched :=
  { k with lists := k.lists.addTail h t }

end

end Sched

end LiteOS.Kernel
