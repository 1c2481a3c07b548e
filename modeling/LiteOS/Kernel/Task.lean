import LiteOS.Kernel.Sched

/-!
# Task management

The functions of `los_task.c` that create, delete, suspend, resume and reprioritise tasks, and the
part of `LOS_KernelInit` that sets up the task control blocks. The allocator's answer to the
request for a stack is an argument (0 when it has no memory). `intActive` stands for
`OS_INT_ACTIVE`.
-/

namespace LiteOS.Kernel

/-- Task entry functions: the idle loop, the software timer task, or one of the application. -/
inductive TaskEntry
  | osIdleTask
  | osSwtmrTask
  | user (entry : ℕ)
deriving DecidableEq, Repr

/-- `TSK_INIT_PARAM_S`; `joinable` is the `LOS_TASK_ATTR_JOINABLE` bit of `uwResved`. -/
structure TaskInitParam where
  pfnTaskEntry : Option TaskEntry
  usTaskPrio : ℕ
  stackAddr : ℕ := 0
  uwStackSize : ℕ
  pcName : Option String
  joinable : Bool := false
deriving DecidableEq, Repr

/-- `OsTaskInitParamCheck`, which also fills in the default stack size. -/
def osTaskInitParamCheck (c : Config) (p : TaskInitParam) : Except Errno TaskInitParam :=
  if p.pcName.isNone then .error .tskNameEmpty
  else if p.pfnTaskEntry.isNone then .error .tskEntryNull
  else if p.usTaskPrio > taskPriorityLowest then .error .tskPriorError
  else if p.usTaskPrio = taskPriorityLowest ∧ p.pfnTaskEntry ≠ some .osIdleTask then
    .error .tskPriorError
  else if p.uwStackSize > c.sysHeapSize then .error .tskStkszTooLarge
  else
    let p := if p.uwStackSize = 0 then { p with uwStackSize := c.tskDefaultStackSize } else p
    if p.uwStackSize < c.tskMinStackSize then .error .tskStkszTooSmall else .ok p

/-- `LOS_Align`, for a boundary that is a power of two. -/
def losAlign (addr boundary : ℕ) : ℕ := (addr + (boundary - 1)) / boundary * boundary

namespace Sched

section

variable (c : Config) (k : Sched) (t : TaskID)

def osCheckTaskIDValid : Errno :=
  if t = k.idleTaskID then .tskOperateIdle
  else if c.baseCoreSwtmr ∧ t = k.swtmrTaskID then .tskSuspendSwtmrNotAllowed
  else if t ≥ c.taskMaxNum then .tskIdInvalid
  else .ok

/-- Add one to a counter of `t`. -/
def bump (count : TaskID → ℕ) (t : TaskID) : TaskID → ℕ := Function.update count t (count t + 1)

def osInsertTCBToFreeList : Sched :=
  let k := { k with freeEntries := bump k.freeEntries t }
  (k.modifyTCB t fun cb => { taskID := cb.taskID, taskStatus := { unused := true } }).listAdd
    .losFreeTask t

/-- The first half of `OsRecycleTaskResources`: the stack, which the callers hand to
`LOS_MemFree`. -/
def freeStack : Sched :=
  if (k.status t).stackFree ∧ (k.taskCB t).topOfStack ≠ 0 then
    { k.modifyTCB t fun cb =>
        { cb with topOfStack := 0, taskStatus := { cb.taskStatus with stackFree := false } } with
      stackFrees := bump k.stackFrees t }
  else k

def osRecycleTaskResources : Sched :=
  let k := k.freeStack t
  if !(k.status t).joinable then k.osInsertTCBToFreeList t else k

/-- The loop of `OsRecycleFinishedTask`; every pass takes one block off the recycle list. -/
def recycleLoop : ℕ → Sched → Sched
  | 0, k => k
  | fuel + 1, k =>
    match k.lists .taskRecycleList with
    | [] => k
    | t :: _ => recycleLoop fuel ((k.listDelete t).osRecycleTaskResources t)

def osRecycleFinishedTask : Sched :=
  recycleLoop (k.lists .taskRecycleList).length k

/-- The fields that `OsNewTaskInit` writes before it looks for a stack. -/
def newTaskCB (p : TaskInitParam) (cb : TaskCB) : TaskCB :=
  { cb with
    taskSem := none
    taskMux := none
    taskStatus := { suspend := true, joinable := p.joinable }
    priority := p.usTaskPrio
    timeSlice := 0
    waitTimes := 0
    eventMask := 0
    responseTime := sortLinkInvalidTime }

def osNewTaskInit (p : TaskInitParam) (stack : ℕ) : Sched × Errno :=
  let k := k.modifyTCB t (newTaskCB p)
  let k := if p.joinable then { k with lists := Function.update k.lists (.joinList t) [] } else k
  if p.stackAddr = 0 then
    let k := k.modifyTCB t fun cb => { cb with topOfStack := stack }
    if stack = 0 then (k, .tskNoMemory)
    else
      ({ k.setStatus t fun s => { s with stackFree := true } with
        stackAllocs := bump k.stackAllocs t }, .ok)
  else
    (k.modifyTCB t fun cb =>
      { cb with topOfStack := losAlign p.stackAddr c.stackPointAlignSize }, .ok)

def losTaskCreateOnly (p : TaskInitParam) (stack : ℕ) : Sched × Except Errno TaskID :=
  match osTaskInitParamCheck c p with
  | .error e => (k, .error e)
  | .ok p =>
    let k := k.osRecycleFinishedTask
    match k.lists .losFreeTask with
    | [] => (k, .error .tskTcbUnavailable)
    | t :: _ =>
      let k := { k.listDelete t with creations := bump k.creations t }
      match k.osNewTaskInit c t p stack with
      | (k, .ok) => (k, .ok t)
      | (k, e) => (k.osInsertTCBToFreeList t, .error e)

/-- One step, although the source has several critical sections: it enables interrupts after the
control block was taken from `g_losFreeTask`, and again before the task enters the ready queue. -/
def losTaskCreate (p : TaskInitParam) (stack : ℕ) : Sched × Except Errno TaskID :=
  match k.losTaskCreateOnly c p stack with
  | (k, .error e) => (k, .error e)
  | (k, .ok t) => (k.osSchedTaskEnQueue c t, .ok t)

/-- `OsTaskInit` together with `OsSchedInit` -/
def osTaskInit : Sched where
  taskCB t :=
    if t < c.taskMaxNum then { taskID := t, taskStatus := { unused := true } }
    else
      { taskID := t, taskStatus := { unused := true, running := true },
        priority := taskPriorityLowest + 1 }
  lists h := if h = .losFreeTask then List.range c.taskMaxNum else []
  queueBitmap := 0
  sortLink := []
  runTask := c.taskMaxNum
  newTask := 0
  losTaskLock := 0
  idleTaskID := osInvalid
  swtmrTaskID := 0
  taskScheduled := false

def osIdleTaskCreate (stack : ℕ) : Sched × Errno :=
  match k.losTaskCreateOnly c
      { pfnTaskEntry := some .osIdleTask, uwStackSize := c.tskIdleStackSize,
        pcName := some "IdleCore000", usTaskPrio := taskPriorityLowest } stack with
  | (k, .error e) => (k, e)
  | (k, .ok t) => ({ k with idleTaskID := t }.osSchedTaskEnQueue c t, .ok)

def osSwtmrTaskCreate (stack : ℕ) : Sched × Errno :=
  match k.losTaskCreate c
      { pfnTaskEntry := some .osSwtmrTask, uwStackSize := c.tskSwtmrStackSize,
        pcName := some "Swt_Task", usTaskPrio := 0 } stack with
  | (k, .error e) => (k, e)
  | (k, .ok t) =>
    ({ k with swtmrTaskID := t }.setStatus t fun s => { s with systemTask := true }, .ok)

/-- The task part of `LOS_KernelInit`: the control blocks, the software timer task if there is
one, and the idle task. -/
def losKernelInit (swtmrStack idleStack : ℕ) : Sched × Errno :=
  let k := osTaskInit c
  let (k, ret) := if c.baseCoreSwtmr then k.osSwtmrTaskCreate c swtmrStack else (k, .ok)
  if ret ≠ .ok then (k, ret) else k.osIdleTaskCreate c idleStack

def losTaskResume (currTime : ℕ) : Sched × Errno :=
  if t ≥ c.taskMaxNum then (k, .tskIdInvalid)
  else if (k.status t).unused then (k, .tskNotCreated)
  else if !(k.status t).suspend then (k, .tskNotSuspended)
  else ((k.osSchedResume c t currTime).1, .ok)

def losTaskSuspend (isPmMode : Bool) : Sched × Errno :=
  let retErr := k.osCheckTaskIDValid c t
  if retErr ≠ .ok then (k, retErr)
  else if (k.status t).unused then (k, .tskNotCreated)
  else if (k.status t).systemTask then (k, .tskOperateSystemTask)
  else if (k.status t).suspend then (k, .tskAlreadySuspended)
  else if (k.status t).running ∧ k.losTaskLock ≠ 0 then (k, .tskSuspendLocked)
  else (k.osSchedSuspend t isPmMode, .ok)

def osTaskJoinPostUnsafe : Sched :=
  if (k.status t).joinable then
    match k.lists (.joinList t) with
    | [] => k
    | resumedTask :: _ => k.osSchedTaskWake c resumedTask
  else k

def osTaskJoinPendUnsafe : Sched × Errno :=
  if (k.status t).exit then (k, .ok)
  else if (k.status t).joinable ∧ k.lists (.joinList t) = [] then
    (k.osSchedTaskWait (.joinList t) losWaitForever, .ok)
  else (k, .nok)

def losCurTaskIDGet : TaskID := (k.taskCB k.runTask).taskID

/-- `LOS_TaskJoin` up to its `LOS_Schedule`; `none` says that it goes on from there. -/
def losTaskJoin (intActive : Bool) : Sched × Option Errno :=
  let ret := k.osCheckTaskIDValid c t
  if ret ≠ .ok then (k, some ret)
  else if intActive then (k, some .tskNotAllowInInt)
  else if k.losTaskLock ≠ 0 then (k, some .tskSchedLocked)
  else if t = k.losCurTaskIDGet then (k, some .tskNotJoinSelf)
  else if (k.status t).unused then (k, some .tskNotCreated)
  else
    match k.osTaskJoinPendUnsafe t with
    | (k, .ok) => (k, none)
    | (k, ret) => (k, some ret)

/-- The rest of `LOS_TaskJoin` -/
def losTaskJoinReturn : Sched :=
  (k.setStatus t fun s => { s with joinable := false }).osRecycleTaskResources t

def osTaskSetDetachUnsafe : Sched × Errno :=
  if (k.status t).joinable then
    if k.lists (.joinList t) = [] then
      (k.setStatus t fun s => { s with joinable := false }, .ok)
    else (k, .tskNotJoin)
  else (k, .nok)

/-- `LOS_TaskDetach`; `none` says that it goes on in `LOS_TaskJoin`, after the `LOS_Schedule`
there. -/
def losTaskDetach (intActive : Bool) : Sched × Option Errno :=
  let ret := k.osCheckTaskIDValid c t
  if ret ≠ .ok then (k, some ret)
  else if intActive then (k, some .tskNotAllowInInt)
  else if (k.status t).unused then (k, some .tskNotCreated)
  else if (k.status t).exit then k.losTaskJoin c t intActive
  else
    let (k, ret) := k.osTaskSetDetachUnsafe t
    (k, some ret)

/-- `OsRunningTaskDelete`: the spare control block takes the place of the deleted task. -/
def osRunningTaskDelete : Sched :=
  let k := { k.listTailInsert .taskRecycleList t with runTask := c.taskMaxNum }
  k.modifyTCB c.taskMaxNum fun cb =>
    { cb with
      taskID := t
      taskStatus := { k.status t with running := true }
      topOfStack := (k.taskCB t).topOfStack }

/-- The end of `LOS_TaskDelete`, after `OsSchedTaskExit`. -/
def finishDelete : Sched :=
  let k := k.modifyTCB t fun cb => { cb with eventMask := 0 }
  if (k.status t).running then
    if !(k.status t).joinable then
      (k.setStatus t fun s => { s with unused := true }).osRunningTaskDelete c t
    else k
  else k.osRecycleTaskResources t

def losTaskDelete : Sched × Errno :=
  let ret := k.osCheckTaskIDValid c t
  if ret ≠ .ok then (k, ret)
  else if (k.status t).systemTask then (k, .tskOperateSystemTask)
  else if (k.status t).unused then (k, .tskNotCreated)
  else if (k.status t).exit then (k, .tskAlreadyExit)
  else if (k.status t).signal then (k, .tskProcessSignal)
  else
    let k := if (k.status t).running ∧ k.losTaskLock ≠ 0 then { k with losTaskLock := 0 } else k
    (finishDelete c ((k.osTaskJoinPostUnsafe c t).osSchedTaskExit t) t, .ok)

def losTaskYield : Sched × Errno := (k.osSchedYield, .ok)

def losTaskDelay (intActive : Bool) (tick : ℕ) : Sched × Errno :=
  if intActive then (k, .tskDelayInInt)
  else if k.losTaskLock ≠ 0 then (k, .tskDelayInLock)
  else if (k.status k.runTask).systemTask then (k, .tskOperateSystemTask)
  else if tick = 0 then k.losTaskYield
  else (k.osSchedDelay k.runTask tick, .ok)

def losTaskPriSet (taskPrio : ℕ) : Sched × Errno :=
  if taskPrio > taskPriorityLowest then (k, .tskPriorError)
  else if t = k.idleTaskID then (k, .tskOperateIdle)
  else if c.baseCoreSwtmr ∧ t = k.swtmrTaskID then (k, .tskOperateSwtmr)
  else if t ≥ c.taskMaxNum then (k, .tskIdInvalid)
  else if (k.status t).unused then (k, .tskNotCreated)
  else if (k.status t).systemTask then (k, .tskOperateSystemTask)
  else ((k.osSchedModifyTaskSchedParam c t taskPrio).1, .ok)

end

end Sched

end LiteOS.Kernel
