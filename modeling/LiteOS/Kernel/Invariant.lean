import LiteOS.Kernel.Task
import LiteOS.Lib.LowBit

/-!
# The scheduler invariant

What the status bits of a task say about where its list node, its sort link node and the ready
bitmap are. `SchedInv` holds between any two calls; `Around t` is the invariant with task `t` left
out, which is what remains true while a function rewrites the control block of `t`.
-/

namespace LiteOS.Kernel.Sched

open Lib Rings

structure StatusOk (s : TaskStatus) : Prop where
  ready : s.ready → s.pend = false ∧ s.delay = false ∧ s.suspend = false ∧
    s.exit = false ∧ s.unused = false ∧ s.running = false
  pendTime : s.pendTime → s.pend
  pend : s.pend → s.delay = false
  gone : s.exit ∨ s.unused → s.pend = false ∧ s.delay = false
  freeze : s.freeze → s.suspend ∧ s.running = false ∧
    (s.delay ∨ s.pendTime)

variable {s : TaskStatus}

theorem StatusOk.pendTime_eq_false (h : StatusOk s) (hp : s.pend = false) : s.pendTime = false := by
  simpa [hp] using mt h.pendTime

theorem StatusOk.freeze_eq_false (h : StatusOk s)
    (hs : s.suspend = false ∨ s.running ∨ (s.delay = false ∧ s.pendTime = false)) :
    s.freeze = false := by
  rw [Bool.eq_false_iff]
  intro hf
  obtain ⟨hsusp, hrun, hwait⟩ := h.freeze hf
  simp_all

def Placed (idle : Prop) (cb : TaskCB) : Option ListHead → Prop
  | none => cb.taskStatus.pend = false ∧ (cb.taskStatus.ready → idle) ∧
      cb.taskStatus.unused = false
  | some (.priQueueList p) => cb.taskStatus.ready ∧ ¬idle ∧ cb.priority = p
  | some .losFreeTask => cb.taskStatus.unused
  | some .taskRecycleList => cb.taskStatus.unused ∧ cb.taskStatus.joinable = false
  | some _ => cb.taskStatus.pend

/-- The control block of `t`, seen together with the list it is in and whether it is in the sort
link. `pm` says that tasks may be frozen, `idle` that `t` is the idle task, `run` that it runs. -/
structure CBOk (pm idle run : Prop) (t : TaskID) (cb : TaskCB) (o : Option ListHead)
    (linked : Prop) : Prop where
  id : cb.taskID = t
  priority : cb.priority ≤ taskPriorityLowest
  status : StatusOk cb.taskStatus
  placed : Placed idle cb o
  linked : linked ↔ (cb.taskStatus.delay ∨ cb.taskStatus.pendTime) ∧
    cb.taskStatus.running = false ∧ cb.taskStatus.freeze = false
  response : cb.taskStatus.unused = false → (cb.responseTime ≠ sortLinkInvalidTime ↔
    (cb.taskStatus.delay ∨ cb.taskStatus.pendTime) ∧ cb.taskStatus.running = false)
  running : cb.taskStatus.unused = false → (cb.taskStatus.running ↔ run)
  live : run → cb.taskStatus.unused = false
  freeze : cb.taskStatus.freeze → pm
  idle : idle → cb.taskStatus.pend = false ∧ cb.taskStatus.delay = false ∧
    cb.taskStatus.suspend = false ∧ cb.taskStatus.exit = false ∧ cb.taskStatus.unused = false ∧
    cb.priority = taskPriorityLowest

def TaskOk (pm : Prop) (run : Option TaskID) (k : Sched) (t : TaskID) : Prop :=
  ∃ o, k.lists.At t o ∧
    CBOk pm (t = k.idleTaskID) (run = some t) t (k.taskCB t) o (t ∈ k.sortLink)

structure Linked (c : Config) (k : Sched) : Prop where
  nodup : k.lists.Nodup
  bound : ∀ h, ∀ t ∈ k.lists h, t < c.taskMaxNum
  bitmap : ∀ p ≤ taskPriorityLowest,
    (k.queueBitmap.getLsbD (31 - p) ↔ k.lists (.priQueueList p) ≠ [])
  sortNodup : k.sortLink.Nodup
  sortBound : ∀ t ∈ k.sortLink, t < c.taskMaxNum
  unlinked : k.unlinkFault = false

/-- The spare control block never waits and is never ready. -/
structure SpareOk (s : TaskStatus) : Prop where
  unused : s.unused
  ready : s.ready = false
  pend : s.pend = false
  delay : s.delay = false
  pendTime : s.pendTime = false

/-- The invariant without task `t`. -/
structure Around (c : Config) (pm : Prop) (run : Option TaskID) (t : TaskID) (k : Sched) :
    Prop where
  lt : t < c.taskMaxNum
  linked : Linked c k
  others : ∀ u < c.taskMaxNum, u ≠ t → TaskOk pm run k u
  spare : SpareOk (k.status c.taskMaxNum)
  asserted : k.assertFailed = false

/-- The scheduler invariant, with `run` the task whose status says `RUNNING`. -/
structure InvWith (c : Config) (pm : Prop) (run : Option TaskID) (k : Sched) : Prop where
  linked : Linked c k
  task : ∀ t < c.taskMaxNum, TaskOk pm run k t
  spare : SpareOk (k.status c.taskMaxNum)
  asserted : k.assertFailed = false

def SchedInv (c : Config) (pm : Prop) (k : Sched) : Prop :=
  InvWith c pm (some k.runTask) k ∧ k.idleTaskID < c.taskMaxNum ∧ k.runTask ≤ c.taskMaxNum

/-- The globals that only `OsSchedStart`, the task switch and a few other functions write. -/
structure Same (k k' : Sched) : Prop where
  runTask : k'.runTask = k.runTask
  idleTaskID : k'.idleTaskID = k.idleTaskID
  swtmrTaskID : k'.swtmrTaskID = k.swtmrTaskID
  losTaskLock : k'.losTaskLock = k.losTaskLock
  taskScheduled : k'.taskScheduled = k.taskScheduled

variable {c : Config} {pm : Prop} {run run' : Option TaskID} {k k' k'' : Sched} {t u : TaskID}

theorem Same.refl (k : Sched) : Same k k := ⟨rfl, rfl, rfl, rfl, rfl⟩

theorem Same.trans (h : Same k k') (h' : Same k' k'') : Same k k'' :=
  ⟨h'.runTask.trans h.runTask, h'.idleTaskID.trans h.idleTaskID,
    h'.swtmrTaskID.trans h.swtmrTaskID, h'.losTaskLock.trans h.losTaskLock,
    h'.taskScheduled.trans h.taskScheduled⟩

theorem Same.setStatus (k : Sched) (t : TaskID) (f : TaskStatus → TaskStatus) :
    Same k (k.setStatus t f) := ⟨rfl, rfl, rfl, rfl, rfl⟩

theorem Same.modifyTCB (k : Sched) (t : TaskID) (f : TaskCB → TaskCB) :
    Same k (k.modifyTCB t f) := ⟨rfl, rfl, rfl, rfl, rfl⟩

theorem Same.listDelete (k : Sched) (t : TaskID) : Same k (k.listDelete t) :=
  ⟨rfl, rfl, rfl, rfl, rfl⟩

theorem SchedInv.of_same (h : SchedInv c pm k) (hs : Same k k')
    (hi : InvWith c pm (some k.runTask) k') : SchedInv c pm k' := by
  refine ⟨?_, hs.idleTaskID ▸ h.2.1, hs.runTask ▸ h.2.2⟩
  rw [hs.runTask]
  exact hi

theorem TaskOk.congr (h : TaskOk pm run k u) (hcb : k'.taskCB u = k.taskCB u)
    (hl : ∀ i, u ∈ k'.lists i ↔ u ∈ k.lists i) (hs : u ∈ k'.sortLink ↔ u ∈ k.sortLink)
    (hi : u = k'.idleTaskID ↔ u = k.idleTaskID) (hr : run' = some u ↔ run = some u) :
    TaskOk pm run' k' u := by
  obtain ⟨o, ho, hok⟩ := h
  refine ⟨o, fun i => (hl i).trans (ho i), ?_⟩
  simpa only [hcb, hs, hi, hr] using hok

theorem InvWith.around (h : InvWith c pm run k) (ht : t < c.taskMaxNum) : Around c pm run t k :=
  ⟨ht, h.linked, fun u hu _ => h.task u hu, h.spare, h.asserted⟩

theorem Around.close (h : Around c pm run t k) (ht : TaskOk pm run k t) : InvWith c pm run k :=
  ⟨h.linked, fun u hu => if e : u = t then e ▸ ht else h.others u hu e, h.spare, h.asserted⟩

theorem Linked.congr (h : Linked c k) (hl : k'.lists = k.lists)
    (hb : k'.queueBitmap = k.queueBitmap) (hs : k'.sortLink = k.sortLink)
    (hu : k'.unlinkFault = k.unlinkFault := by rfl) : Linked c k' := by
  constructor
  · exact hl ▸ h.nodup
  · exact hl ▸ h.bound
  · simpa only [hb, hl] using h.bitmap
  · exact hs ▸ h.sortNodup
  · exact hs ▸ h.sortBound
  · exact hu.trans h.unlinked

theorem Around.globals (h : Around c pm run t k) (hcb : k'.taskCB = k.taskCB)
    (hl : k'.lists = k.lists) (hb : k'.queueBitmap = k.queueBitmap)
    (hs : k'.sortLink = k.sortLink) (hi : k'.idleTaskID = k.idleTaskID)
    (ha : k'.assertFailed = false) (hu : k'.unlinkFault = k.unlinkFault := by rfl) :
    Around c pm run t k' where
  lt := h.lt
  linked := h.linked.congr hl hb hs hu
  others u hu hne := (h.others u hu hne).congr (by rw [hcb]) (by simp [hl]) (by simp [hs])
    (by simp [hi]) Iff.rfl
  spare := by simpa only [status, hcb] using h.spare
  asserted := ha

theorem InvWith.globals (h : InvWith c pm run k) (hcb : k'.taskCB = k.taskCB)
    (hl : k'.lists = k.lists) (hb : k'.queueBitmap = k.queueBitmap)
    (hs : k'.sortLink = k.sortLink) (hi : k'.idleTaskID = k.idleTaskID)
    (ha : k'.assertFailed = false) (hu : k'.unlinkFault = k.unlinkFault := by rfl) :
    InvWith c pm run k' where
  linked := h.linked.congr hl hb hs hu
  task u hu := (h.task u hu).congr (by rw [hcb]) (by simp [hl]) (by simp [hs])
    (by simp [hi]) Iff.rfl
  spare := by simpa only [status, hcb] using h.spare
  asserted := ha

section

variable (h : Around c pm run t k)
include h

/-- The task that was left out may start or stop running meanwhile. -/
theorem Around.change_run (run' : Option TaskID)
    (hr : ∀ u ≠ t, run' = some u ↔ run = some u) : Around c pm run' t k :=
  { h with
    others := fun u hu hne =>
      (h.others u hu hne).congr rfl (fun _ => Iff.rfl) Iff.rfl Iff.rfl (hr u hne) }

theorem Around.modifyTCB (f : TaskCB → TaskCB) : Around c pm run t (k.modifyTCB t f) where
  lt := h.lt
  linked := ⟨h.linked.nodup, h.linked.bound, h.linked.bitmap, h.linked.sortNodup,
    h.linked.sortBound, h.linked.unlinked⟩
  others u hu hne :=
    (h.others u hu hne).congr (by simp [hne]) (fun _ => Iff.rfl) Iff.rfl Iff.rfl Iff.rfl
  spare := by
    have hne := h.lt.ne'
    simpa [hne] using h.spare
  asserted := h.asserted

theorem Around.setStatus (f : TaskStatus → TaskStatus) :
    Around c pm run t (k.setStatus t f) := h.modifyTCB _

end

/-! ## Lists -/

variable {i : ListHead} {lists : Rings ListHead TaskID}

section

variable (h : Around c pm run t k)
include h

/-- The task that was left out changes its place, and the bitmap follows. -/
theorem Around.relink {bitmap : BitVec 32} (hn : lists.Nodup)
    (hmem : ∀ u ≠ t, ∀ j, u ∈ lists j ↔ u ∈ k.lists j) (hb : ∀ p ≤ taskPriorityLowest,
      (bitmap.getLsbD (31 - p) ↔ lists (.priQueueList p) ≠ [])) :
    Around c pm run t { k with lists := lists, queueBitmap := bitmap } where
  lt := h.lt
  linked := { h.linked with
    nodup := hn
    bound := fun j u hu =>
      if e : u = t then e ▸ h.lt else h.linked.bound j u ((hmem u e j).mp hu)
    bitmap := hb }
  others u hu hne := (h.others u hu hne).congr rfl (hmem u hne) Iff.rfl Iff.rfl Iff.rfl
  spare := h.spare
  asserted := h.asserted

theorem Around.listDelete (hp : ∀ p, t ∉ k.lists (.priQueueList p)) :
    Around c pm run t (k.listDelete t) :=
  h.relink (h.linked.nodup.unlink t) (fun _ hne _ => mem_unlink_of_ne hne) fun p hpl => by
    simpa [unlink_eq_self (hp p)] using h.linked.bitmap p hpl

variable (hi : ∀ p, i ≠ .priQueueList p)
include hi

theorem Around.link (hn : lists.Nodup) (hmem : ∀ u j, u ∈ lists j ↔ u ∈ k.lists j ∨ (u = t ∧ j = i))
    (heq : ∀ j ≠ i, lists j = k.lists j) : Around c pm run t { k with lists := lists } :=
  h.relink hn (fun u hne j => by simp [hmem, hne]) fun p hpl => by
    have hj := heq (.priQueueList p) fun e => hi p e.symm
    simpa [hj] using h.linked.bitmap p hpl

theorem Around.listAdd (ht : t ∉ k.lists i) : Around c pm run t (k.listAdd i t) :=
  h.link hi (h.linked.nodup.addHead ht) (fun _ _ => mem_addHead)
    fun _ hj => addHead_of_ne hj

theorem Around.listTailInsert (ht : t ∉ k.lists i) : Around c pm run t (k.listTailInsert i t) :=
  h.link hi (h.linked.nodup.addTail ht) (fun _ _ => mem_addTail)
    fun _ hj => addTail_of_ne hj

end

/-! ## The sort link -/

variable {startTime ticks : ℕ}

theorem mem_osAdd2SortLink :
    u ∈ (k.osAdd2SortLink c t startTime ticks).sortLink ↔ u = t ∨ u ∈ k.sortLink := by
  simp [osAdd2SortLink, (osAddNode2SortLink_perm _ _ _).mem_iff]

theorem osAdd2SortLink_taskCB : (k.osAdd2SortLink c t startTime ticks).taskCB t = { k.taskCB t with
      responseTime := (startTime + c.sysTickToCycle ticks) % 2 ^ 64 } := by
  simp [osAdd2SortLink]

theorem osAdd2SortLink_taskCB_of_ne (hne : u ≠ t) :
    (k.osAdd2SortLink c t startTime ticks).taskCB u = k.taskCB u := by
  simp [osAdd2SortLink, hne]

theorem osAdd2SortLink_same :
    Same k (k.osAdd2SortLink c t startTime ticks) := ⟨rfl, rfl, rfl, rfl, rfl⟩

section

variable (h : Around c pm run t k)
include h

theorem Around.osAdd2SortLink (ht : t ∉ k.sortLink)
    (startTime ticks : ℕ) : Around c pm run t (k.osAdd2SortLink c t startTime ticks) := by
  have hm := h.modifyTCB fun cb =>
    { cb with responseTime := (startTime + c.sysTickToCycle ticks) % 2 ^ 64 }
  refine ⟨h.lt, ⟨hm.linked.nodup, hm.linked.bound, hm.linked.bitmap, ?_, ?_, hm.linked.unlinked⟩,
    ?_, hm.spare, hm.asserted⟩
  · exact (osAddNode2SortLink_perm _ _ _).nodup_iff.mpr
      (List.nodup_cons.mpr ⟨ht, h.linked.sortNodup⟩)
  · intro u hu
    rcases mem_osAdd2SortLink.mp hu with rfl | hu
    · exact h.lt
    · exact h.linked.sortBound u hu
  · intro u hu hne
    refine (hm.others u hu hne).congr rfl (fun _ => Iff.rfl) ?_ Iff.rfl Iff.rfl
    simp [mem_osAdd2SortLink, hne]

theorem Around.osDeleteNodeSortLink (ht : t ∈ k.sortLink) :
    Around c pm run t (k.osDeleteNodeSortLink t) := by
  have hm := h.modifyTCB fun cb => { cb with responseTime := sortLinkInvalidTime }
  have hfault : (k.osDeleteNodeSortLink t).unlinkFault = false := by
    simp [Sched.osDeleteNodeSortLink, ht, h.linked.unlinked]
  refine ⟨h.lt, ⟨hm.linked.nodup, hm.linked.bound, hm.linked.bitmap, h.linked.sortNodup.erase t,
    fun u hu => h.linked.sortBound u (List.mem_of_mem_erase hu), hfault⟩, ?_, hm.spare, hm.asserted⟩
  intro u hu hne
  exact (hm.others u hu hne).congr rfl (fun _ => Iff.rfl) (List.mem_erase_of_ne hne) Iff.rfl
    Iff.rfl

theorem Around.osDeleteSortLink
    (ht : (k.taskCB t).responseTime ≠ sortLinkInvalidTime → t ∈ k.sortLink) :
    Around c pm run t (k.osDeleteSortLink t) := by
  unfold Sched.osDeleteSortLink
  split_ifs with hr
  · exact h.osDeleteNodeSortLink (ht hr)
  · exact h

end

end LiteOS.Kernel.Sched
