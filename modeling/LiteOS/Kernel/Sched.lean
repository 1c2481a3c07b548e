import LiteOS.Kernel.SortLink

/-!
# The scheduler

The functions of `los_sched.c`, in its order. A function that reads the clock takes the time as an
argument, and `OsSchedSuspend` takes the answer of `OsIsPmMode()`.
-/

namespace LiteOS.Kernel.Sched

section

variable (c : Config) (k : Sched) (t : TaskID)

def osTimeSliceUpdate (currTime : ℕ) : Sched :=
  k.modifyTCB t fun cb =>
    let incTime := Int.bmod ((currTime : ℤ) - cb.startTime) (2 ^ 32)
    { cb with
      timeSlice := if cb.taskID ≠ k.idleTaskID then cb.timeSlice - incTime else cb.timeSlice
      startTime := currTime }

/-- `PRIQUEUE_PRIOR0_BIT >> priority` -/
def priQueueBit (priority : ℕ) : BitVec 32 := 0x80000000#32 >>> priority

/-- Both enqueue functions first set the bit of a queue that is still empty. -/
@[simps]
def markPriQueue (priority : ℕ) : Sched :=
  { k with
    queueBitmap :=
      if (k.lists (.priQueueList priority)).isEmpty then k.queueBitmap ||| priQueueBit priority
      else k.queueBitmap }

def osSchedPriQueueEnHead (priority : ℕ) : Sched :=
  (k.markPriQueue priority).listAdd (.priQueueList priority) t

def osSchedPriQueueEnTail (priority : ℕ) : Sched :=
  (k.markPriQueue priority).listTailInsert (.priQueueList priority) t

def osSchedPriQueueDelete (priority : ℕ) : Sched :=
  let k := k.listDelete t
  { k with
    queueBitmap :=
      if (k.lists (.priQueueList priority)).isEmpty then k.queueBitmap &&& ~~~priQueueBit priority
      else k.queueBitmap }

/-- The queue operation of `OsSchedTaskEnQueue`: a task with time left in its slice goes to the
front, one without gets a new slice and goes to the back. -/
def enterPriQueue : Sched :=
  if (k.taskCB t).taskID = k.idleTaskID then k
  else if (k.taskCB t).timeSlice > c.schedTimeSliceMin then
    k.osSchedPriQueueEnHead t (k.taskCB t).priority
  else
    (k.modifyTCB t fun cb => { cb with timeSlice := c.schedTimeSlice }).osSchedPriQueueEnTail t
      (k.taskCB t).priority

def osSchedTaskEnQueue : Sched :=
  let k := { k with assertFailed := k.assertFailed || (k.status t).ready }
  (enterPriQueue c k t).setStatus t fun s =>
    { s with pend := false, suspend := false, delay := false, pendTime := false, ready := true }

def osSchedTaskDeQueue : Sched :=
  if (k.status t).ready then
    (if (k.taskCB t).taskID ≠ k.idleTaskID then k.osSchedPriQueueDelete t (k.taskCB t).priority
      else k).setStatus t fun s => { s with ready := false }
  else k

def osSchedWakePendTimeTask : Sched :=
  let tempStatus := k.status t
  if tempStatus.pend || tempStatus.delay then
    let k := k.setStatus t fun s => { s with pend := false, pendTime := false, delay := false }
    let k :=
      if tempStatus.pend then
        ((k.setStatus t fun s => { s with timeout := true }).listDelete t).modifyTCB t
          fun cb => { cb with taskMux := none, taskSem := none }
      else k
    if !tempStatus.suspend then k.osSchedTaskEnQueue c t else k
  else k

/-- The loop of `OsSchedScanTimerList`. Every pass unlinks the first node, so the length of the
list bounds the number of passes. -/
def scanTimerLoop (c : Config) (currTime : ℕ) : ℕ → Sched → Sched
  | 0, k => k
  | fuel + 1, k =>
    match k.sortLink with
    | [] => k
    | t :: _ =>
      if (k.taskCB t).responseTime ≤ currTime then
        scanTimerLoop c currTime fuel (osSchedWakePendTimeTask c (k.osDeleteNodeSortLink t) t)
      else k

def osSchedScanTimerList (currTime : ℕ) : Sched :=
  scanTimerLoop c currTime k.sortLink.length k

/-- The first half of `OsSchedTaskExit`, which takes the task off its queue or wait list. -/
def leaveList : Sched :=
  if (k.status t).ready then k.osSchedTaskDeQueue t
  else if (k.status t).pend then (k.listDelete t).setStatus t fun s => { s with pend := false }
  else k

def osSchedTaskExit : Sched :=
  let k := k.leaveList t
  let k :=
    if (k.status t).delay || (k.status t).pendTime then
      (k.osDeleteSortLink t).setStatus t fun s => { s with delay := false, pendTime := false }
    else k
  k.setStatus t fun s => { s with exit := true }

def osSchedYield : Sched :=
  k.modifyTCB k.runTask fun cb => { cb with timeSlice := 0 }

def osSchedDelay (tick : ℕ) : Sched :=
  (k.setStatus t fun s => { s with delay := true }).modifyTCB t fun cb =>
    { cb with waitTimes := tick }

def osSchedTaskWait (list : ListHead) (ticks : ℕ) : Sched :=
  let runTask := k.runTask
  let k := (k.setStatus runTask fun s => { s with pend := true }).listTailInsert list runTask
  if ticks ≠ losWaitForever then
    (k.setStatus runTask fun s => { s with pendTime := true }).modifyTCB runTask fun cb =>
      { cb with waitTimes := ticks }
  else k

/-- The first half of `OsSchedTaskWake`: the task no longer pends. -/
def stopPending : Sched :=
  let k := (k.listDelete t).setStatus t fun s => { s with pend := false }
  if (k.status t).pendTime then
    (k.osDeleteSortLink t).setStatus t fun s => { s with pendTime := false }
  else k

def osSchedTaskWake : Sched :=
  let k := k.stopPending t
  if !(k.status t).suspend && !(k.status t).running then k.osSchedTaskEnQueue c t else k

def osSchedFreezeTask : Sched :=
  let responseTime := (k.taskCB t).responseTime
  ((k.osDeleteSortLink t).modifyTCB t fun cb => { cb with responseTime := responseTime }).setStatus
    t fun s => { s with freeze := true }

/-- The branch of `OsSchedUnfreezeTask` for a task whose time has passed while it was frozen. -/
def dropTimeout : Sched :=
  let k := k.modifyTCB t fun cb => { cb with responseTime := sortLinkInvalidTime }
  let k := if (k.status t).pend then k.listDelete t else k
  k.setStatus t fun s => { s with delay := false, pendTime := false, pend := false }

/-- The ticks that a frozen task has left, stored in a `UINT32`. -/
def remainTick (responseTime currTime : ℕ) : ℕ :=
  ((responseTime - currTime) + c.cyclePerTick - 1) / c.cyclePerTick % 2 ^ 32

def osSchedUnfreezeTask (currTime : ℕ) : Sched :=
  let k := k.setStatus t fun s => { s with freeze := false }
  let responseTime := (k.taskCB t).responseTime
  if responseTime > currTime then
    k.osAdd2SortLink c t currTime (remainTick c responseTime currTime)
  else k.dropTimeout t

def osSchedSuspend (isPmMode : Bool) : Sched :=
  let k := if (k.status t).ready then k.osSchedTaskDeQueue t else k
  let k :=
    if ((k.status t).pendTime || (k.status t).delay) && isPmMode then k.osSchedFreezeTask t else k
  k.setStatus t fun s => { s with suspend := true }

def osSchedResume (currTime : ℕ) : Sched × Bool :=
  let k := if (k.status t).freeze then k.osSchedUnfreezeTask c t currTime else k
  let k := k.setStatus t fun s => { s with suspend := false }
  if !((k.status t).delay || (k.status t).pend) then (k.osSchedTaskEnQueue c t, true)
  else (k, false)

def osSchedModifyTaskSchedParam (priority : ℕ) : Sched × Bool :=
  if (k.status t).ready then
    (((k.osSchedTaskDeQueue t).modifyTCB t fun cb =>
      { cb with priority := priority }).osSchedTaskEnQueue c t, true)
  else
    let k := k.modifyTCB t fun cb => { cb with priority := priority }
    (k, (k.status t).running)

/-- `OsGetTopTask`. The first node of an empty ready queue would be the list head itself, which
belongs to no task. -/
def osGetTopTask : TaskID :=
  if k.queueBitmap ≠ 0#32 then
    (k.lists (.priQueueList k.queueBitmap.clz.toNat)).headD (c.taskMaxNum + 1)
  else k.idleTaskID

def osSchedStart (currTime : ℕ) : Sched :=
  let newTask := osGetTopTask c k
  let k := k.setStatus newTask fun s => { s with running := true }
  let k := { k with newTask := newTask, runTask := newTask }
  let k := k.modifyTCB newTask fun cb => { cb with startTime := currTime }
  { k.osSchedTaskDeQueue newTask with taskScheduled := true }

/-- What `OsSchedTaskSwitch` does with the task it switches away from: it goes to the sort link if
it waits for a time, and back to its ready queue if it does not wait at all. -/
def putAside (runTask : TaskID) : Sched :=
  let s := k.status runTask
  if s.pendTime || s.delay then
    k.osAdd2SortLink c runTask (k.taskCB runTask).startTime (k.taskCB runTask).waitTimes
  else if !(s.pend || s.suspend || s.exit || s.unused) then k.osSchedTaskEnQueue c runTask
  else k

/-- The second half of `OsSchedTaskSwitch`, with the new task chosen. -/
def switchTo (runTask newTask : TaskID) : Sched × Bool :=
  let k := { k with newTask := newTask }
  if runTask ≠ newTask then
    let k := k.setStatus runTask fun s => { s with running := false }
    let k := k.setStatus newTask fun s => { s with running := true }
    let k := k.modifyTCB newTask fun cb => { cb with startTime := (k.taskCB runTask).startTime }
    (k.osSchedTaskDeQueue newTask, true)
  else (k.osSchedTaskDeQueue newTask, false)

def osSchedTaskSwitch (currTime : ℕ) : Sched × Bool :=
  let runTask := k.runTask
  let k := putAside c (k.osTimeSliceUpdate runTask currTime) runTask
  k.switchTo runTask (osGetTopTask c k)

/-- `HalPendSV`: switch, and make the new task the running one if it is another. -/
def halPendSV (currTime : ℕ) : Sched :=
  let (k, isTaskSwitch) := osSchedTaskSwitch c k currTime
  if isTaskSwitch then { k with runTask := k.newTask } else k

/-- `LOS_SchedTickHandler`. The timer list is scanned when the tick was not programmed for the end
of a time slice. -/
def losSchedTickHandler (scan : Bool) (currTime : ℕ) : Sched :=
  if k.taskScheduled then
    let k := if scan then osSchedScanTimerList c k currTime else k
    k.osTimeSliceUpdate k.runTask currTime
  else k

end

end LiteOS.Kernel.Sched
