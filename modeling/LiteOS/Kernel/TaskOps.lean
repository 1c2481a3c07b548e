import LiteOS.Kernel.Lifecycle
import LiteOS.Lib.Runs

/-!
# Task calls and interrupts as operations

The calls of `los_task.c` that do not block on another object, the timer interrupt and the task
switch, as the steps of a run. Every system of tasks that communicate takes these steps and adds its
own. Between a task marking itself suspended or delayed and the switch that takes it off the
processor, other calls may come: they are made by interrupt handlers.
-/

namespace LiteOS.Kernel.Sched

open Lib

inductive TaskOp
  | taskCreateOnly (param : TaskInitParam) (stack : ℕ)
  | taskCreate (param : TaskInitParam) (stack : ℕ)
  | taskDelete (t : TaskID)
  | schedStart (currTime : ℕ)
  | taskSuspend (t : TaskID) (isPmMode : Bool)
  | taskResume (t : TaskID) (currTime : ℕ)
  | taskDelay (intActive : Bool) (tick : ℕ)
  | taskYield
  | taskPriSet (t : TaskID) (priority : ℕ)
  | scanTimerList (currTime : ℕ)
  | schedTickHandler (scan : Bool) (currTime : ℕ)
  | taskSwitch (currTime : ℕ)
deriving DecidableEq

namespace TaskOp

def exec (c : Config) (k : Sched) : TaskOp → Sched
  | taskCreateOnly param stack => (k.losTaskCreateOnly c param stack).1
  | taskCreate param stack => (k.losTaskCreate c param stack).1
  | taskDelete t => (k.losTaskDelete c t).1
  | schedStart currTime => osSchedStart c k currTime
  | taskSuspend t isPmMode => (k.losTaskSuspend c t isPmMode).1
  | taskResume t currTime => (k.losTaskResume c t currTime).1
  | taskDelay intActive tick => (k.losTaskDelay intActive tick).1
  | taskYield => k.losTaskYield.1
  | taskPriSet t priority => (k.losTaskPriSet c t priority).1
  | scanTimerList currTime => osSchedScanTimerList c k currTime
  | schedTickHandler scan currTime => losSchedTickHandler c k scan currTime
  | taskSwitch currTime => halPendSV c k currTime

/-- The task that an operation creates, with its priority. -/
def newTask (c : Config) (k : Sched) : TaskOp → Option (TaskID × ℕ)
  | taskCreateOnly param stack =>
    (k.losTaskCreateOnly c param stack).2.toOption.map (·, param.usTaskPrio)
  | taskCreate param stack => (k.losTaskCreate c param stack).2.toOption.map (·, param.usTaskPrio)
  | _ => none

/-- When an operation can come. A task delays itself only while it executes its own code. No
deadline falls on the one value of the 64-bit clock that is reserved. -/
def Enabled (c : Config) (k : Sched) : TaskOp → Prop
  | schedStart _ => k.taskScheduled = false
  | taskResume t currTime => ThawOk c k t currTime
  | taskDelay intActive _ => intActive = false → Executing c k
  | taskSwitch currTime => k.taskScheduled ∧ SwitchOk c k currTime
  | _ => True

/-- Arguments with which an operation keeps the invariant, when `pm` says that tasks may be
frozen. -/
def Proper (c : Config) (pm : Prop) (k : Sched) : TaskOp → Prop
  | taskDelete t => t < c.taskMaxNum → (k.status t).freeze = false ∧
      ∀ j ∈ k.lists (.joinList t), (k.status j).freeze = false
  | taskSuspend t isPmMode => isPmMode →
      (k.status t).delay ∨ (k.status t).pendTime → pm ∧ (k.status t).running = false
  | taskResume t _ => (k.status t).unused = false → (k.status t).suspend →
      (k.status t).exit = false ∧
      ((k.status t).running → (k.status t).delay ∨ (k.status t).pend)
  | _ => True

end TaskOp

/-- What inter-task communication sees of an operation. -/
inductive Effect (c : Config) (op : TaskOp) (k k' : Sched) : Prop
  | quiet (hop : op.newTask c k = none) (hq : Quiet k k')
  | expires (hop : op.newTask c k = none) (he : Expires k k')
  | creates (p : TaskInitParam) (r : Except Errno TaskID)
      (hop : op.newTask c k = r.toOption.map (·, p.usTaskPrio)) (hc : Creates p r k k')
  | deletes (t : TaskID) (hop : op = .taskDelete t)
      (hd : DeleteSpec c t k k' (k.losTaskDelete c t).2)
  | reprioritises (t : TaskID) (p : ℕ) (hop : op = .taskPriSet t p) (hr : Reprioritises t p k k')
  | thaws (t : TaskID) (ht : t < c.taskMaxNum) (hf : (k.status t).freeze)
      (hp : (k.status t).pend) (hw : Wakes t k k')

/-- The invariant of a run: before `OsSchedStart` no task runs. -/
structure RunInv (c : Config) (pm : Prop) (k : Sched) : Prop where
  sched : SchedInv c pm k
  join : JoinInv k
  runTask : k.taskScheduled = false → k.runTask = c.taskMaxNum

variable {c : Config} {pm : Prop} {k k' : Sched} {t u : TaskID} {op : TaskOp}
  {priority swtmrStack idleStack : ℕ}

theorem JoinInv.of_effect (h : JoinInv k) (hmax : (k.status c.taskMaxNum).unused)
    (he : Effect c op k k') : JoinInv k' := by
  cases he with
  | quiet _ hq => exact h.of_quiet hq
  | expires _ he => exact h.of_expires he
  | creates p r _ hc => exact h.of_creates hc
  | deletes t _ hd => exact h.of_deleteSpec hmax hd
  | reprioritises t p _ hr => exact h.of_reprioritises hr
  | thaws t _ _ _ hw => exact h.of_wakes hw

theorem InvWith.freeze_eq_false {run : Option TaskID} (h : InvWith c False run k)
    (ht : t < c.taskMaxNum) : (k.status t).freeze = false := by
  obtain ⟨_, _, hok⟩ := h.task t ht
  simpa using mt hok.freeze id

/-- A step that leaves the running task and the globals of the scheduler alone. -/
theorem RunInv.of_same (h : RunInv c pm k) (hs : Same k k')
    (hi : InvWith c pm (some k.runTask) k') (hj : JoinInv k') : RunInv c pm k' :=
  ⟨h.sched.of_same hs hi, hj, fun e => hs.runTask.trans (h.runTask (hs.taskScheduled ▸ e))⟩

theorem SchedInv.losTaskPriSet_effect (h : SchedInv c pm k) :
    Effect c (.taskPriSet t priority) k (k.losTaskPriSet c t priority).1 := by
  simp only [Sched.losTaskPriSet]
  split_ifs with hp hi hsw hle hu hsys <;> try exact .quiet rfl (.refl k)
  exact .reprioritises t priority rfl
    (h.1.reprioritises_osSchedModifyTaskSchedParam (not_le.mp hle))

theorem SchedInv.effect (h : SchedInv c pm k) (hj : JoinInv k) (he : op.Enabled c k)
    (hp : op.Proper c pm k) : Effect c op k (op.exec c k) := by
  cases op with
  | taskCreateOnly param =>
    exact .creates param _ rfl (h.1.losTaskCreateOnly hj rfl).1.creates
  | taskCreate param => exact .creates param _ rfl (h.1.losTaskCreate hj rfl).creates
  | taskDelete t => exact .deletes t rfl (h.losTaskDelete hp rfl).2
  | schedStart => exact .quiet rfl h.quiet_osSchedStart
  | taskSuspend => exact .quiet rfl (h.1.losTaskSuspend hp).2.2
  | taskResume t currTime =>
    rcases quiet_or_wakes_losTaskResume with
      hq | ⟨ht, hf, hpend, -, hw⟩
    · exact .quiet rfl hq
    · exact .thaws t ht hf hpend hw
  | taskDelay => exact .quiet rfl (h.1.losTaskDelay he).2.2
  | taskYield => exact .quiet rfl .osSchedYield
  | taskPriSet => exact h.losTaskPriSet_effect
  | scanTimerList => exact .expires rfl (h.1.expires_scanTimerLoop _)
  | schedTickHandler => exact .expires rfl h.losSchedTickHandler.2.2
  | taskSwitch => exact .quiet rfl (h.quiet_halPendSV he.2)

theorem osTaskJoinPostUnsafe_same : Same k (k.osTaskJoinPostUnsafe c t) := by
  simp only [osTaskJoinPostUnsafe]
  split_ifs
  · split
    · exact .refl k
    · exact osSchedTaskWake_same
  · exact .refl k

/-- What a call does to the globals of the scheduler. The spare block may take the place of the
running task. -/
structure Globals (c : Config) (k k' : Sched) : Prop where
  taskScheduled : k'.taskScheduled = k.taskScheduled
  idleTaskID : k'.idleTaskID = k.idleTaskID
  losTaskLock : k.losTaskLock = 0 → k'.losTaskLock = 0
  runTask : k'.runTask = k.runTask ∨ k'.runTask = c.taskMaxNum

theorem finishDelete_globals : Globals c k (finishDelete c k t) := by
  simp only [finishDelete]
  split_ifs
  · exact ⟨rfl, rfl, id, .inr rfl⟩
  · exact ⟨rfl, rfl, id, .inl rfl⟩
  · have hs := osRecycleTaskResources_same (t := t)
      (k := k.modifyTCB t fun cb => { cb with eventMask := 0 })
    exact ⟨hs.taskScheduled, hs.idleTaskID, hs.losTaskLock.trans, .inl hs.runTask⟩

theorem losTaskDelete_globals : Globals c k (k.losTaskDelete c t).1 := by
  have hdel : ∀ k₁ : Sched, Globals c k k₁ → k₁.runTask = k.runTask → Globals c k
      (finishDelete c ((k₁.osTaskJoinPostUnsafe c t).osSchedTaskExit t) t) := by
    intro k₁ hk₁ hrun
    have hs : Same k₁ ((k₁.osTaskJoinPostUnsafe c t).osSchedTaskExit t) :=
      osTaskJoinPostUnsafe_same.trans osSchedTaskExit_same
    have hf := finishDelete_globals (c := c) (t := t)
      (k := (k₁.osTaskJoinPostUnsafe c t).osSchedTaskExit t)
    refine ⟨hf.taskScheduled.trans (hs.taskScheduled.trans hk₁.taskScheduled),
      hf.idleTaskID.trans (hs.idleTaskID.trans hk₁.idleTaskID),
      fun hl => hf.losTaskLock (hs.losTaskLock.trans (hk₁.losTaskLock hl)), ?_⟩
    exact hf.runTask.imp_left (·.trans (hs.runTask.trans hrun))
  simp only [losTaskDelete]
  split_ifs <;> first
    | exact ⟨rfl, rfl, id, .inl rfl⟩
    | exact hdel _ ⟨rfl, rfl, fun _ => rfl, .inl rfl⟩ rfl
    | exact hdel _ ⟨rfl, rfl, id, .inl rfl⟩ rfl

section

variable (h : RunInv c pm k) (he : op.Enabled c k) (hp : op.Proper c pm k)
include h he hp

theorem RunInv.exec : RunInv c pm (op.exec c k) := by
  have hinv := h.sched.1
  have hj := h.join.of_effect hinv.spare.unused (h.sched.effect h.join he hp)
  cases op with
  | taskCreateOnly param stack =>
    obtain ⟨⟨hk, hs, -, -⟩, -⟩ := hinv.losTaskCreateOnly h.join rfl
    exact h.of_same hs hk hj
  | taskCreate param stack =>
    obtain ⟨hk, hs, -, -⟩ := hinv.losTaskCreate h.join rfl
    exact h.of_same hs hk hj
  | taskDelete t =>
    refine ⟨(h.sched.losTaskDelete hp rfl).1, hj, fun e => ?_⟩
    have hg := losTaskDelete_globals (c := c) (k := k) (t := t)
    exact hg.runTask.elim (·.trans (h.runTask (hg.taskScheduled ▸ e))) id
  | schedStart =>
    exact ⟨(h.sched.osSchedStart (h.runTask he)).1, hj, by simp [TaskOp.exec, osSchedStart]⟩
  | taskSuspend =>
    obtain ⟨hk, hs, -⟩ := hinv.losTaskSuspend hp
    exact h.of_same hs hk hj
  | taskResume =>
    obtain ⟨hk, hs⟩ := hinv.losTaskResume hp he
    exact h.of_same hs hk hj
  | taskDelay =>
    obtain ⟨hk, hs, -⟩ := hinv.losTaskDelay he
    exact h.of_same hs hk hj
  | taskYield =>
    obtain ⟨hk, hs, -⟩ := hinv.losTaskYield
    exact h.of_same hs hk hj
  | taskPriSet =>
    obtain ⟨hk, hs⟩ := hinv.losTaskPriSet
    exact h.of_same hs hk hj
  | scanTimerList => exact h.of_same (scanTimerLoop_same _) hinv.osSchedScanTimerList hj
  | schedTickHandler scan currTime =>
    obtain ⟨hk, hs, -⟩ := h.sched.losSchedTickHandler
    exact h.of_same hs (hs.runTask ▸ hk.1) hj
  | taskSwitch =>
    refine ⟨(h.sched.halPendSV he.2).1, hj, fun e => ?_⟩
    rw [TaskOp.exec, halPendSV_taskScheduled h.sched he.2, he.1] at e
    exact absurd e (by simp)

/-- No operation changes which task is the idle task or locks the scheduler. -/
theorem RunInv.exec_globals : (op.exec c k).idleTaskID = k.idleTaskID ∧
      (k.losTaskLock = 0 → (op.exec c k).losTaskLock = 0) := by
  have hinv := h.sched.1
  have hsame : ∀ {k'}, Same k k' → k'.idleTaskID = k.idleTaskID ∧
      (k.losTaskLock = 0 → k'.losTaskLock = 0) := fun hs => ⟨hs.idleTaskID, hs.losTaskLock.trans⟩
  cases op with
  | taskCreateOnly => exact hsame (hinv.losTaskCreateOnly h.join rfl).1.same
  | taskCreate => exact hsame (hinv.losTaskCreate h.join rfl).same
  | taskDelete t =>
    have hg := losTaskDelete_globals (c := c) (k := k) (t := t)
    exact ⟨hg.idleTaskID, hg.losTaskLock⟩
  | schedStart =>
    exact ⟨osSchedTaskDeQueue_same.idleTaskID,
      fun hl => osSchedTaskDeQueue_same.losTaskLock.trans hl⟩
  | taskSuspend => exact hsame (hinv.losTaskSuspend hp).2.1
  | taskResume => exact hsame (hinv.losTaskResume hp he).2
  | taskDelay => exact hsame (hinv.losTaskDelay he).2.1
  | taskYield => exact hsame hinv.losTaskYield.2.1
  | taskPriSet => exact hsame hinv.losTaskPriSet.2
  | scanTimerList => exact hsame (scanTimerLoop_same _)
  | schedTickHandler => exact hsame h.sched.losSchedTickHandler.2.1
  | taskSwitch =>
    simp only [TaskOp.exec, h.sched.halPendSV_eq he.2]
    exact ⟨dispatch_same.idleTaskID.trans parked_same.idleTaskID,
      fun hl => dispatch_same.losTaskLock.trans (parked_same.losTaskLock.trans hl)⟩

end

theorem RunInv.of_losKernelInit
    (h : losKernelInit c swtmrStack idleStack = (k, .ok)) : RunInv c pm k :=
  have hb := booted_of_losKernelInit pm h
  ⟨hb.inv, hb.fresh.join, fun _ => hb.runTask⟩

/-! ## A small configuration -/

instance (c : Config) (k : Sched) (t : TaskID) (currTime : ℕ) :
    Decidable (ThawOk c k t currTime) := by
  unfold ThawOk DeadlineOk
  infer_instance

instance (c : Config) (k : Sched) (currTime : ℕ) : Decidable (SwitchOk c k currTime) := by
  unfold SwitchOk DeadlineOk
  infer_instance

instance (c : Config) (k : Sched) : Decidable (Executing c k) :=
  decidable_of_iff (k.runTask < c.taskMaxNum ∧ k.runTask ≠ k.idleTaskID ∧
      (k.status k.runTask).pend = false ∧ (k.status k.runTask).delay = false ∧
      (k.status k.runTask).suspend = false ∧ (k.status k.runTask).exit = false ∧
      (k.status k.runTask).unused = false)
    ⟨fun ⟨h₁, h₂, h₃, h₄, h₅, h₆, h₇⟩ => ⟨h₁, h₂, h₃, h₄, h₅, h₆, h₇⟩,
      fun ⟨h₁, h₂, h₃, h₄, h₅, h₆, h₇⟩ => ⟨h₁, h₂, h₃, h₄, h₅, h₆, h₇⟩⟩

instance (c : Config) (k : Sched) (op : TaskOp) : Decidable (op.Enabled c k) := by
  cases op <;> unfold TaskOp.Enabled <;> infer_instance

instance (c : Config) (pm : Prop) [Decidable pm] (k : Sched) (op : TaskOp) :
    Decidable (op.Proper c pm k) := by
  cases op <;> unfold TaskOp.Proper <;> infer_instance

/-- Up to four tasks, one of them the idle task, and ticks of 10 cycles. -/
def smallConfig : Config where
  tskLimit := 3
  tskLimit_lt := by decide
  semLimit := 2
  muxLimit := 2
  queueLimit := 2
  schedTimeSlice := 100
  schedTimeSliceMin := 10
  sysClock := 1000
  tickPerSecond := 100
  sysHeapSize := 4096
  tskDefaultStackSize := 512
  tskMinStackSize := 64
  tskIdleStackSize := 128
  tskSwtmrStackSize := 128
  stackPointAlignSize := 8
  baseCoreSwtmr := false
  pathMax := 256

/-- The state after `LOS_KernelInit`, in which task 0 is the idle task. -/
def smallBoot : Sched := (losKernelInit smallConfig 0 1000).1

/-- An ordinary task of priority `prio`. -/
def userTask (prio : ℕ) (joinable : Bool) : TaskInitParam where
  pfnTaskEntry := some (.user 0)
  usTaskPrio := prio
  uwStackSize := 512
  pcName := some "user"
  joinable := joinable

end LiteOS.Kernel.Sched
