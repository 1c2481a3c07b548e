import LiteOS.Kernel.Invariant

/-!
# Ready queues

Enqueueing and dequeueing keep the bitmap in step with the queues, and `OsGetTopTask` reads the
first task of the most urgent queue from it.
-/

namespace LiteOS.Kernel.Sched

open Lib Rings

variable {c : Config} {pm : Prop} {run run' : Option TaskID} {k k' : Sched} {t u : TaskID} {p q : ℕ}
  {i : ListHead} {lists : Rings ListHead TaskID}

theorem getLsbD_priQueueBit (hp : p ≤ 31) (hq : q ≤ 31) :
    (priQueueBit p).getLsbD (31 - q) = decide (q = p) := by
  have hbit : (0x80000000#32) = BitVec.twoPow 32 31 := by decide
  rw [priQueueBit, hbit, BitVec.getLsbD_ushiftRight, BitVec.getLsbD_twoPow]
  simp only [Nat.lt_add_one, decide_true, Bool.true_and, decide_eq_decide]
  omega

theorem Around.linkReady (h : Around c pm run t k) (hp : p ≤ 31) (hn : lists.Nodup)
    (hmem : ∀ u j, u ∈ lists j ↔ u ∈ k.lists j ∨ (u = t ∧ j = .priQueueList p))
    (heq : ∀ j ≠ .priQueueList p, lists j = k.lists j) :
    Around c pm run t { k.markPriQueue p with lists := lists } := by
  refine h.relink hn (fun u hne j => by simp [hmem, hne]) fun q hq => ?_
  have hold := h.linked.bitmap q hq
  by_cases hqp : q = p
  · subst hqp
    have hne := List.ne_nil_of_mem ((hmem t _).mpr (.inr ⟨rfl, rfl⟩))
    cases he : k.lists (.priQueueList q) with
    | nil => simp [he, hne, getLsbD_priQueueBit hp hp]
    | cons => simpa [he, hne] using hold
  · have hj := heq (.priQueueList q) (by simpa using hqp)
    cases he : k.lists (.priQueueList p) with
    | nil => simpa [he, hj, getLsbD_priQueueBit hp hq, hqp] using hold
    | cons => simpa [he, hj] using hold

/-- Unlinking a task from its ready queue clears the bit of a queue that becomes empty. -/
theorem Around.osSchedPriQueueDelete (h : Around c pm run t k) (hp : p ≤ 31)
    (ho : ∀ q ≠ p, t ∉ k.lists (.priQueueList q)) :
    Around c pm run t (k.osSchedPriQueueDelete t p) := by
  refine h.relink (h.linked.nodup.unlink t) (fun _ hne _ => mem_unlink_of_ne hne) fun q hq => ?_
  have hold := h.linked.bitmap q hq
  by_cases hqp : q = p
  · subst hqp
    cases he : k.lists.unlink t (.priQueueList q) with
    | nil => simp [he, getLsbD_priQueueBit hp hp]
    | cons a =>
      have hmem : a ∈ k.lists (.priQueueList q) :=
        List.mem_of_mem_erase (show a ∈ k.lists.unlink t _ by simp [he])
      simpa [he, List.ne_nil_of_mem hmem] using hold
  · have hj := unlink_eq_self (ho q hqp)
    cases he : k.lists.unlink t (.priQueueList p) with
    | nil =>
      have hb : (k.queueBitmap &&& ~~~priQueueBit p).getLsbD (31 - q) =
          k.queueBitmap.getLsbD (31 - q) := by
        rw [BitVec.getLsbD_and, BitVec.getLsbD_not, getLsbD_priQueueBit hp hq]
        simp [hqp, show 31 - q < 32 by omega]
      simpa [he, hj, hb] using hold
    | cons => simpa [he, hj] using hold

/-! ## `OsSchedTaskEnQueue` -/

theorem Around.enterPriQueue (h : Around c pm run t k) (hp : (k.taskCB t).priority ≤ 31)
    (ht : t ∉ k.lists (.priQueueList (k.taskCB t).priority)) :
    Around c pm run t (enterPriQueue c k t) := by
  unfold Sched.enterPriQueue
  split_ifs
  · exact h
  · exact h.linkReady hp (h.linked.nodup.addHead ht) (fun _ _ => mem_addHead)
      fun _ hj => addHead_of_ne hj
  · have hm := h.modifyTCB fun cb => { cb with timeSlice := c.schedTimeSlice }
    exact hm.linkReady hp (h.linked.nodup.addTail ht) (fun _ _ => mem_addTail)
      fun _ hj => addTail_of_ne hj

theorem enterPriQueue_taskCB :
    ∃ slice, (enterPriQueue c k t).taskCB t = { k.taskCB t with timeSlice := slice } := by
  unfold enterPriQueue
  split_ifs
  · exact ⟨_, rfl⟩
  · exact ⟨_, rfl⟩
  · exact ⟨c.schedTimeSlice, by simp [osSchedPriQueueEnTail]⟩

theorem enterPriQueue_taskCB_of_ne (hne : u ≠ t) : (enterPriQueue c k t).taskCB u = k.taskCB u := by
  unfold enterPriQueue
  split_ifs <;> simp [osSchedPriQueueEnHead, osSchedPriQueueEnTail, hne]

theorem mem_enterPriQueue : u ∈ (enterPriQueue c k t).lists i ↔ u ∈ k.lists i ∨
      (u = t ∧ (k.taskCB t).taskID ≠ k.idleTaskID ∧ i = .priQueueList (k.taskCB t).priority) := by
  unfold enterPriQueue
  split_ifs with hidle hslice
  · simp [hidle]
  · simp [osSchedPriQueueEnHead, mem_addHead, hidle]
  · simp [osSchedPriQueueEnTail, mem_addTail, hidle]

theorem enterPriQueue_lists_of_ne (hi : i ≠ .priQueueList (k.taskCB t).priority) :
    (enterPriQueue c k t).lists i = k.lists i := by
  unfold enterPriQueue
  split_ifs
  · rfl
  · exact addHead_of_ne hi
  · exact addTail_of_ne hi

def enqueued (s : TaskStatus) : TaskStatus :=
  { s with pend := false, suspend := false, delay := false, pendTime := false, ready := true }

theorem osSchedTaskEnQueue_taskCB : ∃ slice, (k.osSchedTaskEnQueue c t).taskCB t =
    { k.taskCB t with timeSlice := slice, taskStatus := enqueued (k.status t) } := by
  obtain ⟨slice, hs⟩ := enterPriQueue_taskCB (c := c) (t := t)
    (k := { k with assertFailed := k.assertFailed || (k.status t).ready })
  refine ⟨slice, ?_⟩
  simp [osSchedTaskEnQueue, hs, enqueued]

theorem osSchedTaskEnQueue_taskCB_of_ne (hne : u ≠ t) :
    (k.osSchedTaskEnQueue c t).taskCB u = k.taskCB u := by
  simp [osSchedTaskEnQueue, hne, enterPriQueue_taskCB_of_ne]

theorem mem_osSchedTaskEnQueue : u ∈ (k.osSchedTaskEnQueue c t).lists i ↔ u ∈ k.lists i ∨
      (u = t ∧ (k.taskCB t).taskID ≠ k.idleTaskID ∧ i = .priQueueList (k.taskCB t).priority) := by
  simp [osSchedTaskEnQueue, mem_enterPriQueue]

theorem osSchedTaskEnQueue_lists_of_ne (hi : i ≠ .priQueueList (k.taskCB t).priority) :
    (k.osSchedTaskEnQueue c t).lists i = k.lists i :=
  enterPriQueue_lists_of_ne hi

theorem osSchedTaskEnQueue_same : Same k (k.osSchedTaskEnQueue c t) := by
  simp only [osSchedTaskEnQueue, enterPriQueue]
  split_ifs <;> exact ⟨rfl, rfl, rfl, rfl, rfl⟩

@[simp] theorem osSchedTaskEnQueue_sortLink :
    (k.osSchedTaskEnQueue c t).sortLink = k.sortLink := by
  simp only [osSchedTaskEnQueue, enterPriQueue]
  split_ifs <;> rfl

/-- A task that may be enqueued: created, not finished, not running, and in no list. -/
structure Runnable (run : Option TaskID) (k : Sched) (t : TaskID) : Prop where
  id : (k.taskCB t).taskID = t
  priority : (k.taskCB t).priority ≤ taskPriorityLowest
  ready : (k.status t).ready = false
  running : (k.status t).running = false
  exit : (k.status t).exit = false
  unused : (k.status t).unused = false
  freeze : (k.status t).freeze = false
  response : (k.taskCB t).responseTime = sortLinkInvalidTime
  sortLink : t ∉ k.sortLink
  run : run ≠ some t
  nowhere : k.lists.At t none
  idle : t = k.idleTaskID → (k.taskCB t).priority = taskPriorityLowest

/-- The assertion holds at the entry of `OsSchedTaskEnQueue`, and the task ends up on its queue. -/
theorem Around.osSchedTaskEnQueue (h : Around c pm run t k) (hr : Runnable run k t) :
    InvWith c pm run (k.osSchedTaskEnQueue c t) := by
  have hassert : Around c pm run t
      { k with assertFailed := k.assertFailed || (k.status t).ready } :=
    h.globals rfl rfl rfl rfl rfl (by simp [h.asserted, hr.ready])
  refine ((hassert.enterPriQueue hr.priority (hr.nowhere.notMem _)).setStatus enqueued).close ?_
  obtain ⟨slice, hcb⟩ := osSchedTaskEnQueue_taskCB
  refine ⟨if t = k.idleTaskID then none else some (.priQueueList (k.taskCB t).priority), ?_, ?_⟩
  · intro i
    refine mem_osSchedTaskEnQueue.trans ?_
    have hnot := hr.nowhere.notMem i
    by_cases hi : t = k.idleTaskID
    · have hid := hr.id.trans hi
      simp [if_pos hi, hnot, hid]
    · simp [hnot, hr.id, eq_comm]
  · change CBOk _ _ _ _ ((k.osSchedTaskEnQueue c t).taskCB t) _
      (t ∈ (k.osSchedTaskEnQueue c t).sortLink)
    rw [show (Sched.setStatus (Sched.enterPriQueue c _ t) t enqueued).idleTaskID = k.idleTaskID
      from osSchedTaskEnQueue_same.idleTaskID, hcb, osSchedTaskEnQueue_sortLink]
    refine ⟨hr.id, hr.priority, ?_, ?_, ?_, ?_, ?_, fun _ => hr.unused, ?_, ?_⟩
    · constructor <;> simp [enqueued, hr.exit, hr.unused, hr.running, hr.freeze]
    · by_cases hi : t = k.idleTaskID
      · rw [if_pos hi]
        exact ⟨rfl, fun _ => hi, hr.unused⟩
      · simp [Placed, hi, enqueued]
    · simp [enqueued, hr.sortLink]
    · simp [enqueued, hr.response]
    · simp [enqueued, hr.running, hr.run]
    · simp [enqueued, hr.freeze]
    · intro hi
      simp [enqueued, hr.exit, hr.unused, hr.idle hi]

end LiteOS.Kernel.Sched
