import LiteOS.Kernel.TaskOps

/-!
# The contract of the scheduler

A run starts after `LOS_KernelInit` and interleaves the calls of tasks and interrupt handlers with
timer scans, waits and wakes on the lists of inter-task communication, and task switches.
-/

namespace LiteOS.Kernel.Sched

open Lib

inductive Op
  | task (op : TaskOp)
  | taskWait (list : ListHead) (ticks : ℕ)
  | taskWake (t : TaskID)
  | taskExit (t : TaskID)
deriving DecidableEq

def exec (c : Config) (k : Sched) : Op → Sched
  | .task op => op.exec c k
  | .taskWait list ticks => k.osSchedTaskWait list ticks
  | .taskWake t => k.osSchedTaskWake c t
  | .taskExit t => k.osSchedTaskExit t

/-- When an operation can come. A task waits only while it executes its own code; the callers of
`OsSchedTaskWake` take the task from a wait list; those of `OsSchedTaskExit` check that it is a
created task other than the idle task and have woken the task that waits for it. -/
def Enabled (c : Config) (k : Sched) : Op → Prop
  | .task op => op.Enabled c k
  | .taskWait list _ => Executing c k ∧ list.isIpc
  | .taskWake t => t < c.taskMaxNum ∧ (k.status t).pend
  | .taskExit t => t < c.taskMaxNum ∧ t ≠ k.idleTaskID ∧ (k.status t).unused = false ∧
      k.lists (.joinList t) = []

/-- The scheduler with everything that may happen to it. -/
def machine (c : Config) : Machine Sched Op where
  init k := ∃ swtmrStack idleStack, losKernelInit c swtmrStack idleStack = (k, .ok)
  allowed := Enabled c
  step := exec c

instance (c : Config) (k : Sched) (op : Op) : Decidable (Enabled c k op) := by
  cases op <;> unfold Enabled <;> infer_instance

instance (c : Config) (k : Sched) (op : Op) : Decidable ((machine c).allowed k op) :=
  inferInstanceAs (Decidable (Enabled c k op))

/-- Arguments with which an operation keeps the invariant. -/
def Proper (c : Config) (pm : Prop) (k : Sched) : Op → Prop
  | .task op => op.Proper c pm k
  | .taskWait _ _ => True
  | .taskWake t => (k.status t).freeze = false
  | .taskExit t => (k.status t).freeze = false

instance (c : Config) (pm : Prop) [Decidable pm] (k : Sched) (op : Op) :
    Decidable (Proper c pm k op) := by
  cases op <;> unfold Proper <;> infer_instance

variable {c : Config} {pm : Prop} {k k' : Sched} {t u : TaskID} {op : Op} {P : Sched → Op → Prop}
  {p : ℕ}

theorem RunInv.step (h : RunInv c pm k) (he : Enabled c k op) (hp : Proper c pm k op) :
    RunInv c pm (Sched.exec c k op) := by
  have hinv := h.sched.1
  cases op with
  | task => exact h.exec he hp
  | taskWait =>
    exact h.of_same osSchedTaskWait_same
      (hinv.osSchedTaskWait he.1 (ListHead.isWait_of_isIpc he.2))
      (h.join.of_blocks he.2 blocks_osSchedTaskWait)
  | taskWake =>
    exact h.of_same osSchedTaskWake_same (hinv.osSchedTaskWake he.1 he.2 hp)
      (h.join.of_wakes wakes_osSchedTaskWake)
  | taskExit =>
    obtain ⟨ht, hi, hu, hj⟩ := he
    exact h.of_same osSchedTaskExit_same (hinv.osSchedTaskExit ht hi hu hp)
      (h.join.of_deletes hj hinv.spare.unused (hinv.deletes_osSchedTaskExit ht))

theorem RunInv.of_reaches (h : ((machine c).restrict (Proper c pm)).Reaches k) : RunInv c pm k :=
  h.invariant (fun _ ⟨_, _, hk⟩ => .of_losKernelInit hk)
    fun _ _ hinv ha => hinv.step ha.1 ha.2

/-! ## The ready queues -/

/-- No assertion on the status of a task has failed, no task is linked in the ready queues more
than once, and none of those linked there is running. -/
structure ReadyOnce (k : Sched) : Prop where
  asserted : k.assertFailed = false
  nodup : ∀ p, (k.lists (.priQueueList p)).Nodup
  once : ∀ t p q, t ∈ k.lists (.priQueueList p) → t ∈ k.lists (.priQueueList q) → p = q
  running : ∀ t p, t ∈ k.lists (.priQueueList p) → (k.status t).running = false

theorem SchedInv.of_mem_priQueueList (h : SchedInv c pm k)
    (hm : t ∈ k.lists (.priQueueList p)) : t < c.taskMaxNum ∧ t ≠ k.idleTaskID ∧
      (k.status t).ready ∧ (k.taskCB t).priority = p := by
  have ht := h.1.linked.bound _ _ hm
  obtain ⟨o, ho, hok⟩ := h.1.task t ht
  have hpl := hok.placed
  rw [ho.eq hm] at hpl
  exact ⟨ht, hpl.2.1, hpl.1, hpl.2.2⟩

theorem SchedInv.readyOnce (h : SchedInv c pm k) : ReadyOnce k where
  asserted := h.1.asserted
  nodup p := h.1.linked.nodup _
  once t p q hp hq :=
    (h.of_mem_priQueueList hp).2.2.2.symm.trans (h.of_mem_priQueueList hq).2.2.2
  running t p hp := by
    obtain ⟨ht, -, hr, -⟩ := h.of_mem_priQueueList hp
    obtain ⟨_, _, hok⟩ := h.1.task t ht
    exact (hok.status.ready hr).2.2.2.2.2

/-- In runs with proper arguments no task is put on a ready queue twice. -/
theorem readyOnce_of_reaches (h : ((machine c).restrict (Proper c True)).Reaches k) : ReadyOnce k :=
  (RunInv.of_reaches h).sched.readyOnce

theorem reaches_smallBoot : (machine smallConfig).Reaches smallBoot := .start ⟨0, 1000, rfl⟩

theorem restrict_reaches_smallBoot :
    ((machine smallConfig).restrict P).Reaches smallBoot := .start ⟨0, 1000, rfl⟩

/-- A run with proper arguments in which a task delays itself and is frozen. -/
theorem readyOnce_of_reaches_frozen : ∃ k,
    ((machine smallConfig).restrict (Proper smallConfig True)).Reaches k ∧
    (k.status 1).freeze = true ∧ ReadyOnce k := by
  have hr := (restrict_reaches_smallBoot (P := Proper smallConfig True)).run
    [.task (.taskCreate (userTask 5 false) 2000), .task (.schedStart 0), .task (.taskDelay false 7),
      .task (.taskSwitch 10), .task (.taskSuspend 1 true)] (by decide +kernel)
  exact ⟨_, hr, by decide +kernel, readyOnce_of_reaches hr⟩

/-- An interrupt handler resumes a task that has suspended itself and still runs: the task is put on
a ready queue, and the next switch finds it there. -/
theorem resume_of_running_task : ∃ k, (machine smallConfig).Reaches k ∧
    (k.status 1).running = true ∧ 1 ∈ k.lists (.priQueueList 5) ∧
    (halPendSV smallConfig k 10).assertFailed = true := by
  have hr := reaches_smallBoot.run [.task (.taskCreate (userTask 5 false) 2000),
    .task (.schedStart 0), .task (.taskSuspend 1 false), .task (.taskResume 1 5)]
    (by decide +kernel)
  exact ⟨_, hr, by decide +kernel⟩

/-! ## Fixed-priority scheduling -/

/-- The bitmap, the ready queues and the status of the tasks agree. -/
structure QueuesOk (c : Config) (k : Sched) : Prop where
  bitmap : ∀ p ≤ taskPriorityLowest,
    (k.queueBitmap &&& priQueueBit p ≠ 0 ↔ k.lists (.priQueueList p) ≠ [])
  ready : ∀ t < c.taskMaxNum, t ≠ k.idleTaskID → (k.status t).ready →
    ∀ p, t ∈ k.lists (.priQueueList p) ↔ p = (k.taskCB t).priority
  only : ∀ t p, t ∈ k.lists (.priQueueList p) →
    t < c.taskMaxNum ∧ t ≠ k.idleTaskID ∧ (k.status t).ready
  nodup : ∀ p, (k.lists (.priQueueList p)).Nodup

/-- Exactly one created task runs; it is the new task, is on no ready queue and no ready task has a
more urgent priority. -/
structure Dispatched (c : Config) (k : Sched) : Prop where
  lt : k.newTask < c.taskMaxNum
  created : (k.status k.newTask).unused = false
  running : ∀ t < c.taskMaxNum, (k.status t).unused = false →
    ((k.status t).running ↔ t = k.newTask)
  unqueued : ∀ p, k.newTask ∉ k.lists (.priQueueList p)
  urgent : ∀ t < c.taskMaxNum, (k.status t).ready →
    (k.taskCB k.newTask).priority ≤ (k.taskCB t).priority

theorem queueBitmap_and_priQueueBit (b : BitVec 32) (hp : p ≤ taskPriorityLowest) :
    b &&& priQueueBit p ≠ 0 ↔ b.getLsbD (31 - p) := by
  have hand : ∀ q ≤ 31, (b &&& priQueueBit p).getLsbD (31 - q) =
      (b.getLsbD (31 - q) && decide (q = p)) := fun q hq => by
    rw [BitVec.getLsbD_and, getLsbD_priQueueBit hp hq]
  rw [not_iff_comm, Bool.not_eq_true]
  constructor
  · intro hb
    refine BitVec.eq_of_getLsbD_eq fun i hi => ?_
    have hi' : i = 31 - (31 - i) := by omega
    rw [hi', hand _ (Nat.sub_le _ _)]
    by_cases he : 31 - i = p <;> simp [he, hb]
  · intro hz
    simpa [hz] using (hand p hp).symm

theorem SchedInv.mem_priQueueList (h : SchedInv c pm k) (ht : t < c.taskMaxNum)
    (hi : t ≠ k.idleTaskID) (hr : (k.status t).ready) :
    t ∈ k.lists (.priQueueList (k.taskCB t).priority) := by
  obtain ⟨o, ho, hok⟩ := h.1.task t ht
  have hready := hok.status.ready hr
  have hpl := hok.placed
  match o, ho, hpl with
  | none, _, hpl => exact absurd (hpl.2.1 hr) hi
  | some (.priQueueList p), ho, hpl => exact hpl.2.2 ▸ ho.mem
  | some .losFreeTask, _, hpl => simp_all [Placed]
  | some .taskRecycleList, _, hpl => simp_all [Placed]
  | some (.joinList _), _, hpl => simp_all [Placed]
  | some (.semList _), _, hpl => simp_all [Placed]
  | some (.muxList _), _, hpl => simp_all [Placed]
  | some (.readWriteList _ _), _, hpl => simp_all [Placed]
  | some (.memList _), _, hpl => simp_all [Placed]
  | some (.stEventList _), _, hpl => simp_all [Placed]
  | some .waitSignalList, _, hpl => simp_all [Placed]

theorem SchedInv.queuesOk (h : SchedInv c pm k) : QueuesOk c k where
  bitmap p hp := (queueBitmap_and_priQueueBit _ hp).trans (h.1.linked.bitmap p hp)
  ready t ht hi hr p :=
    ⟨fun hm => (h.of_mem_priQueueList hm).2.2.2.symm, fun e => e ▸ h.mem_priQueueList ht hi hr⟩
  only t p hm := by
    obtain ⟨ht, hi, hr, -⟩ := h.of_mem_priQueueList hm
    exact ⟨ht, hi, hr⟩
  nodup p := h.1.linked.nodup _

theorem SchedInv.dispatched (h : SchedInv c pm k) (hs : Switched c k) : Dispatched c k where
  lt := hs.newTask ▸ hs.lt
  created := hs.newTask ▸ hs.unused
  running t ht hu := by
    obtain ⟨_, _, hok⟩ := h.1.task t ht
    rw [hs.newTask, hok.running hu, Option.some_inj, eq_comm]
  unqueued p hm := by
    obtain ⟨ht, -, hr, -⟩ := h.of_mem_priQueueList hm
    obtain ⟨_, _, hok⟩ := h.1.task _ ht
    have hrun := (hok.running (hs.newTask ▸ hs.unused)).mpr (by rw [hs.newTask])
    simp [(hok.status.ready hr).2.2.2.2.2] at hrun
  urgent t ht hr := hs.newTask ▸ hs.priority t ht hr

/-! ## Runs in which no task is frozen -/

/-- Calls that freeze no task; a task is resumed only if it has not finished and does not run with
nothing to wait for. -/
def NeverFreezes (k : Sched) : Op → Prop
  | .task (.taskSuspend t isPmMode) => isPmMode →
      (k.status t).delay = false ∧ (k.status t).pendTime = false
  | .task (.taskResume t _) => (k.status t).exit = false ∧
      ((k.status t).running → (k.status t).delay ∨ (k.status t).pend)
  | _ => True

instance (k : Sched) (op : Op) : Decidable (NeverFreezes k op) := by
  unfold NeverFreezes
  split <;> infer_instance

theorem RunInv.proper_of_neverFreezes (h : RunInv c False k) (he : Enabled c k op)
    (hp : NeverFreezes k op) : Proper c False k op := by
  have hf := fun t ht => h.sched.1.freeze_eq_false (t := t) ht
  cases op with
  | task op =>
    cases op with
    | taskDelete t => exact fun ht => ⟨hf t ht, fun j hj => hf j (h.sched.1.linked.bound _ _ hj)⟩
    | taskSuspend => exact fun hpm hw => by simp [hp hpm] at hw
    | taskResume => exact fun _ _ => hp
    | _ => trivial
  | taskWait => trivial
  | taskWake t => exact hf t he.1
  | taskExit t => exact hf t he.1

/-- Calls outside PM mode that resume only tasks that neither run nor have finished. -/
def Plain (k : Sched) : Op → Prop
  | .task (.taskSuspend _ isPmMode) => isPmMode = false
  | .task (.taskResume t _) => (k.status t).running = false ∧ (k.status t).exit = false
  | _ => True

instance (k : Sched) (op : Op) : Decidable (Plain k op) := by
  unfold Plain
  split <;> infer_instance

theorem RunInv.of_reaches_neverFreezes
    (h : ((machine c).restrict P).Reaches k) (hP : ∀ k op, P k op → NeverFreezes k op) :
    RunInv c False k :=
  h.invariant (fun _ ⟨_, _, hk⟩ => .of_losKernelInit hk)
    fun _ _ hinv ha => hinv.step ha.1 (hinv.proper_of_neverFreezes ha.1 (hP _ _ ha.2))

theorem Plain.neverFreezes (h : Plain k op) : NeverFreezes k op := by
  rcases op with op | _ | _ | _
  · cases op with
    | taskSuspend => exact fun hpm => absurd (h.symm.trans hpm) (by simp)
    | taskResume => exact ⟨h.2, fun hr => by simp [h.1] at hr⟩
    | _ => trivial
  all_goals trivial

/-- The fixed-priority scheduling contract. -/
theorem fixed_priority_contract (h : ((machine c).restrict Plain).Reaches k) :
    QueuesOk c k ∧ ∀ currTime, Enabled c k (.task (.taskSwitch currTime)) →
      Dispatched c (exec c k (.task (.taskSwitch currTime))) := by
  have hinv := RunInv.of_reaches_neverFreezes h fun _ _ => Plain.neverFreezes
  refine ⟨hinv.sched.queuesOk, fun currTime he => ?_⟩
  obtain ⟨hk, hs⟩ := hinv.sched.halPendSV he.2
  exact hk.dispatched hs

/-- A task of priority 5 preempts one of priority 9 that it was created after. -/
theorem fixed_priority_contract_preempt : ∃ k, ((machine smallConfig).restrict Plain).Reaches k ∧
    QueuesOk smallConfig k ∧ (halPendSV smallConfig k 20).newTask = 2 ∧
    Dispatched smallConfig (halPendSV smallConfig k 20) := by
  have hr := (restrict_reaches_smallBoot (P := Plain)).run
    [.task (.taskCreate (userTask 9 false) 2000), .task (.schedStart 0),
      .task (.taskCreate (userTask 5 false) 3000)] (by decide +kernel)
  obtain ⟨hq, hs⟩ := fixed_priority_contract hr
  exact ⟨_, hr, hq, by decide +kernel, hs 20 (by decide +kernel)⟩

/-! ## The sort link -/

/-- The sort link node of a created task is linked exactly when its response time is valid, only
tasks with a timeout are linked, and no node was unlinked that was not linked. -/
structure SortLinkOk (c : Config) (k : Sched) : Prop where
  member : ∀ t < c.taskMaxNum, (k.status t).unused = false →
    (t ∈ k.sortLink ↔ (k.taskCB t).responseTime ≠ sortLinkInvalidTime)
  timed : ∀ t ∈ k.sortLink, (k.status t).delay ∨ (k.status t).pendTime
  nodup : k.sortLink.Nodup
  unlinked : k.unlinkFault = false

theorem SchedInv.sortLinkOk (h : SchedInv c False k) : SortLinkOk c k where
  member t ht hu := by
    obtain ⟨_, _, hok⟩ := h.1.task t ht
    have hf := h.1.freeze_eq_false ht
    rw [hok.linked, hok.response hu]
    simp_all
  timed t hm := by
    obtain ⟨_, _, hok⟩ := h.1.task t (h.1.linked.sortBound t hm)
    exact (hok.linked.mp hm).1
  nodup := h.1.linked.sortNodup
  unlinked := h.1.linked.unlinked

/-- The sort link in runs that freeze no task. -/
theorem sortLinkOk_of_reaches (h : ((machine c).restrict NeverFreezes).Reaches k) :
    SortLinkOk c k :=
  (RunInv.of_reaches_neverFreezes h fun _ _ => id).sched.sortLinkOk

/-- A task that delays itself and is suspended outside PM mode stays linked. -/
theorem sortLinkOk_of_reaches_delayed : ∃ k,
    ((machine smallConfig).restrict NeverFreezes).Reaches k ∧ 1 ∈ k.sortLink ∧
    SortLinkOk smallConfig k := by
  have hr := (restrict_reaches_smallBoot (P := NeverFreezes)).run
    [.task (.taskCreate (userTask 5 false) 2000), .task (.schedStart 0), .task (.taskDelay false 7),
      .task (.taskSwitch 10), .task (.taskSuspend 1 false)] (by decide +kernel)
  exact ⟨_, hr, by decide +kernel, sortLinkOk_of_reaches hr⟩

/-- Freezing a delayed task leaves a valid response time in a node that is not linked, and deleting
the task then unlinks that node once more. -/
theorem delete_of_frozen_task : ∃ k, (machine smallConfig).Reaches k ∧
    (k.status 1).unused = false ∧ (k.taskCB 1).responseTime = 80 ∧ 1 ∉ k.sortLink ∧
    k.unlinkFault = false ∧ (k.losTaskDelete smallConfig 1).1.unlinkFault = true := by
  have hr := reaches_smallBoot.run [.task (.taskCreate (userTask 5 false) 2000),
    .task (.schedStart 0), .task (.taskDelay false 7), .task (.taskSwitch 10),
    .task (.taskSuspend 1 true)] (by decide +kernel)
  exact ⟨_, hr, by decide +kernel⟩

/-- A task is in at most one list, and its status says in which. -/
theorem placed_of_reaches (h : ((machine c).restrict (Proper c pm)).Reaches k)
    (ht : t < c.taskMaxNum) :
    (∀ i j, t ∈ k.lists i → t ∈ k.lists j → i = j) ∧
      ((k.status t).unused ↔ t ∈ k.lists .losFreeTask ∨ t ∈ k.lists .taskRecycleList) ∧
      ((k.status t).pend ↔ ∃ i : ListHead, i.isWait ∧ t ∈ k.lists i) := by
  obtain ⟨o, ho, hok⟩ := (RunInv.of_reaches h).sched.1.task t ht
  have hplaced := hok.placed
  have hready := hok.status.ready
  have hgone := hok.status.gone
  refine ⟨fun i j hi hj => by simpa [ho.eq hi] using ho.eq hj, ?_, ?_⟩
  · rw [ho, ho]
    rcases o with _ | i
    · simpa using hplaced.2.2
    · cases i <;> simp_all [Placed]
  · simp only [ho _]
    rcases o with _ | i
    · simpa using hplaced.1
    · cases i <;> simp_all [Placed, ListHead.isWait]

theorem placed_of_reaches_waiting : ∃ k,
    ((machine smallConfig).restrict (Proper smallConfig True)).Reaches k ∧
    ∃ i : ListHead, i.isWait ∧ 1 ∈ k.lists i := by
  have hr := (restrict_reaches_smallBoot (P := Proper smallConfig True)).run
    [.task (.taskCreate (userTask 5 false) 2000), .task (.schedStart 0), .taskWait (.semList 0) 7]
    (by decide +kernel)
  exact ⟨_, hr, (placed_of_reaches hr (by decide)).2.2.mp (by decide +kernel)⟩

end LiteOS.Kernel.Sched
