import LiteOS.Kernel.Frames

/-!
# The life of a control block

Control blocks move from the free list to a task and back, some of them by way of the recycle list.
Every function that moves one keeps the scheduler invariant and leaves other tasks alone.
-/

namespace LiteOS.Kernel.Sched

open Lib TaskView Sched Quiet Rings

variable {c : Config} {pm : Prop} {run : Option TaskID} {k k' k'' : Sched} {t u : TaskID}
  {i j : ListHead}

/-! ## Only unused blocks change -/

/-- Only unused control blocks change, and they stay unused. -/
structure OnlyUnused (k k' : Sched) : Prop where
  lists : ∀ i : ListHead, i.isWait → k'.lists i = k.lists i
  view : ∀ u, (k'.taskCB u).view = (k.taskCB u).view ∨
    ((k.status u).unused ∧ (k'.status u).unused)

theorem Quiet.onlyUnused (h : Quiet k k') : OnlyUnused k k' := ⟨h.lists, fun u => .inl (h.view u)⟩

theorem OnlyUnused.trans (h : OnlyUnused k k') (h' : OnlyUnused k' k'') : OnlyUnused k k'' := by
  refine ⟨fun i hi => (h'.lists i hi).trans (h.lists i hi), fun u => ?_⟩
  rcases h.view u, h'.view u with ⟨hv | hu, hv' | hu'⟩
  · exact .inl (hv'.trans hv)
  · exact .inr ⟨(congrArg unused hv).symm.trans hu'.1, hu'.2⟩
  · exact .inr ⟨hu.1, (congrArg unused hv').trans hu.2⟩
  · exact .inr ⟨hu.1, hu'.2⟩

theorem OnlyUnused.unused_iff (h : OnlyUnused k k') :
    (k'.status u).unused = (k.status u).unused := by
  rcases h.view u with hv | ⟨hu, hu'⟩
  · exact congrArg unused hv
  · rw [hu, hu']

theorem OnlyUnused.modifyTCB {f : TaskCB → TaskCB} (hu : (k.status t).unused)
    (hf : (f (k.taskCB t)).taskStatus.unused) : OnlyUnused k (k.modifyTCB t f) := by
  refine ⟨fun _ _ => rfl, fun u => ?_⟩
  by_cases hut : u = t
  · subst hut
    exact .inr ⟨hu, by simpa using hf⟩
  · exact .inl (by simp [hut])

/-! ## Recycling -/

theorem isWait_ne (hi : i.isWait) (hj : j.isWait = false) : i ≠ j := by
  rintro rfl
  simp [hi] at hj

theorem Around.freeStack (h : Around c pm run t k) : Around c pm run t (k.freeStack t) := by
  simp only [Sched.freeStack]
  split_ifs
  · have hm := h.modifyTCB fun cb =>
      { cb with topOfStack := 0, taskStatus := { cb.taskStatus with stackFree := false } }
    exact hm.globals rfl rfl rfl rfl rfl hm.asserted
  · exact h

/-- Freeing the stack changes nothing that the invariant or inter-task communication reads. -/
theorem freeStack_taskCB : ∃ top free, (k.freeStack t).taskCB t = { k.taskCB t with
    topOfStack := top
    taskStatus := { k.status t with stackFree := free } } := by
  simp only [freeStack]
  split_ifs
  · exact ⟨0, false, by simp⟩
  · exact ⟨(k.taskCB t).topOfStack, (k.status t).stackFree, rfl⟩

theorem freeStack_taskCB_of_ne (hne : u ≠ t) : (k.freeStack t).taskCB u = k.taskCB u := by
  simp only [freeStack]
  split_ifs
  · simp [hne]
  · rfl

@[simp] theorem freeStack_lists : (k.freeStack t).lists = k.lists := by
  simp only [freeStack]
  split_ifs <;> rfl

@[simp] theorem freeStack_sortLink : (k.freeStack t).sortLink = k.sortLink := by
  simp only [freeStack]
  split_ifs <;> rfl

theorem freeStack_same : Same k (k.freeStack t) := by
  simp only [freeStack]
  split_ifs <;> exact ⟨rfl, rfl, rfl, rfl, rfl⟩

theorem Quiet.freeStack : Quiet k (k.freeStack t) := by
  refine ⟨fun i _ => by rw [freeStack_lists], fun u => ?_⟩
  by_cases hu : u = t
  · subst hu
    obtain ⟨top, free, hcb⟩ := freeStack_taskCB
    rw [hcb]
    rfl
  · rw [freeStack_taskCB_of_ne hu]

section

variable (h : Around c pm run t k) (hid : (k.taskCB t).taskID = t) (hi : t ≠ k.idleTaskID)
  (hr : run ≠ some t) (hat : k.lists.At t none) (hs : t ∉ k.sortLink)
include h hid hi hr hat hs

/-- A control block that no list and no timer refers to goes to the free list. -/
theorem Around.osInsertTCBToFreeList : InvWith c pm run (k.osInsertTCBToFreeList t) := by
  have hg : Around c pm run t { k with freeEntries := bump k.freeEntries t } :=
    h.globals rfl rfl rfl rfl rfl h.asserted
  refine ((hg.modifyTCB _).listAdd (by simp) (hat.notMem _)).close
    ⟨some .losFreeTask, hat.addHead, ?_⟩
  constructor <;> simp [hid, hs, Placed, hr, hi]
  constructor <;> simp

theorem Around.osRecycleTaskResources
    (hj : (k.status t).joinable = false) : InvWith c pm run (k.osRecycleTaskResources t) := by
  obtain ⟨top, free, hcb⟩ := freeStack_taskCB (k := k) (t := t)
  have hj' : ((k.freeStack t).status t).joinable = false := by simpa [hcb] using hj
  simp only [Sched.osRecycleTaskResources, hj']
  refine h.freeStack.osInsertTCBToFreeList (by simp [hcb, hid]) ?_ hr (by simpa using hat)
    (by simpa using hs)
  exact freeStack_same.idleTaskID.symm ▸ hi

end

theorem InvWith.freeStack (h : InvWith c pm run k) (ht : t < c.taskMaxNum) :
    InvWith c pm run (k.freeStack t) := by
  obtain ⟨o, ho, hok⟩ := h.task t ht
  obtain ⟨top, free, hcb⟩ := freeStack_taskCB
  refine (h.around ht).freeStack.close ⟨o, by simpa using ho, ?_⟩
  rw [hcb, freeStack_sortLink, freeStack_same.idleTaskID]
  exact hok.congr rfl rfl rfl ⟨rfl, rfl, rfl, rfl, rfl, rfl, rfl, rfl, rfl, rfl⟩

theorem InvWith.osRecycleTaskResources (h : InvWith c pm run k) (ht : t < c.taskMaxNum)
    (hi : t ≠ k.idleTaskID) (hr : run ≠ some t) (hat : k.lists.At t none)
    (hs : t ∉ k.sortLink) : InvWith c pm run (k.osRecycleTaskResources t) := by
  obtain ⟨_, _, hok⟩ := h.task t ht
  cases hj : (k.status t).joinable with
  | false => exact (h.around ht).osRecycleTaskResources hok.id hi hr hat hs hj
  | true =>
    obtain ⟨top, free, hcb⟩ := freeStack_taskCB (k := k) (t := t)
    have hj' : ((k.freeStack t).status t).joinable := by simpa [hcb] using hj
    simp only [Sched.osRecycleTaskResources, hj']
    exact h.freeStack ht

theorem osRecycleTaskResources_same : Same k (k.osRecycleTaskResources t) := by
  simp only [osRecycleTaskResources]
  split_ifs
  · exact freeStack_same.trans ⟨rfl, rfl, rfl, rfl, rfl⟩
  · exact freeStack_same

theorem OnlyUnused.osInsertTCBToFreeList (hu : (k.status t).unused) :
    OnlyUnused k (k.osInsertTCBToFreeList t) := by
  have hm := OnlyUnused.modifyTCB
    (f := fun cb => { taskID := cb.taskID, taskStatus := { unused := true } }) hu rfl
  exact ⟨fun i hi => addHead_of_ne (isWait_ne hi rfl), hm.view⟩

theorem OnlyUnused.osRecycleTaskResources (hu : (k.status t).unused) :
    OnlyUnused k (k.osRecycleTaskResources t) := by
  have hq := Quiet.freeStack (k := k) (t := t)
  simp only [Sched.osRecycleTaskResources]
  split_ifs
  · exact hq.onlyUnused.trans
      (.osInsertTCBToFreeList ((congrArg unused (hq.view t)).trans hu))
  · exact hq.onlyUnused

/-- An unused control block, seen together with its list. -/
structure Idle (c : Config) (run : Option TaskID) (k : Sched) (t : TaskID) : Prop where
  lt : t < c.taskMaxNum
  id : (k.taskCB t).taskID = t
  unused : (k.status t).unused
  pend : (k.status t).pend = false
  notIdle : t ≠ k.idleTaskID
  run : run ≠ some t
  sortLink : t ∉ k.sortLink
  priQueue : ∀ p, t ∉ k.lists (.priQueueList p)

section

variable (h : InvWith c pm run k)
include h

theorem InvWith.idle_of_unused (ht : t < c.taskMaxNum)
    (hu : (k.status t).unused) : Idle c run k t := by
  obtain ⟨o, ho, hok⟩ := h.task t ht
  have hst := hok.status
  obtain ⟨hpend, hdelay⟩ := hst.gone (.inr hu)
  have hpt := hst.pendTime_eq_false hpend
  have hready : (k.status t).ready = false := by
    simpa [hu] using mt fun hc => (hst.ready hc).2.2.2.2.1
  refine ⟨ht, hok.id, hu, hpend, fun e => by simpa [hu] using (hok.idle e).2.2.2.2.1,
    fun e => by simpa [hu] using hok.live e, by simp [hok.linked, hdelay, hpt], fun p hm => ?_⟩
  have hpl := hok.placed
  rw [ho.eq hm] at hpl
  simpa [hready] using hpl.1

theorem InvWith.placed_of_mem (hm : t ∈ k.lists i) :
    t < c.taskMaxNum ∧ Placed (t = k.idleTaskID) (k.taskCB t) (some i) := by
  have ht := h.linked.bound _ _ hm
  obtain ⟨o, ho, hok⟩ := h.task t ht
  exact ⟨ht, ho.eq hm ▸ hok.placed⟩

theorem InvWith.onlyUnused_listDelete (hi : Idle c run k t) : OnlyUnused k (k.listDelete t) :=
  ⟨fun _ hw => unlink_eq_self (h.notMem_wait hw hi.pend), fun _ => .inl rfl⟩

theorem InvWith.recycleOne (hm : t ∈ k.lists .taskRecycleList) :
    InvWith c pm run ((k.listDelete t).osRecycleTaskResources t) ∧
      OnlyUnused k ((k.listDelete t).osRecycleTaskResources t) := by
  obtain ⟨ht, hu, hj⟩ := h.placed_of_mem hm
  have hi := h.idle_of_unused ht hu
  exact ⟨((h.around ht).listDelete hi.priQueue).osRecycleTaskResources hi.id hi.notIdle hi.run
    (Rings.At.unlink h.linked.nodup) hi.sortLink hj,
    (h.onlyUnused_listDelete hi).trans (.osRecycleTaskResources hu)⟩

end

theorem InvWith.recycleLoop (fuel : ℕ) (h : InvWith c pm run k) :
    InvWith c pm run (recycleLoop fuel k) ∧ OnlyUnused k (recycleLoop fuel k) := by
  induction fuel generalizing k with
  | zero => exact ⟨h, (refl k).onlyUnused⟩
  | succ fuel ih =>
    unfold recycleLoop
    split
    · exact ⟨h, (refl k).onlyUnused⟩
    · rename_i t _ hl
      obtain ⟨hone, hun⟩ := h.recycleOne (t := t) (by simp [hl])
      obtain ⟨hloop, hun'⟩ := ih hone
      exact ⟨hloop, hun.trans hun'⟩

theorem InvWith.osRecycleFinishedTask (h : InvWith c pm run k) :
    InvWith c pm run k.osRecycleFinishedTask ∧ OnlyUnused k k.osRecycleFinishedTask :=
  h.recycleLoop _

theorem recycleLoop_same (fuel : ℕ) : Same k (recycleLoop fuel k) := by
  induction fuel generalizing k with
  | zero => exact .refl k
  | succ _ ih =>
    unfold recycleLoop
    split
    · exact .refl k
    · exact .trans (.trans (.listDelete ..) osRecycleTaskResources_same) ih

theorem osRecycleFinishedTask_same : Same k k.osRecycleFinishedTask := recycleLoop_same _

/-! ## Joining -/

/-- At most one task waits for a task to finish, and only while that task is joinable and has not
finished. -/
structure JoinInv (k : Sched) : Prop where
  live : ∀ u, k.lists (.joinList u) ≠ [] → (k.status u).unused = false ∧
    (k.status u).exit = false ∧ (k.status u).joinable
  one : ∀ u, (k.lists (.joinList u)).length ≤ 1

section

variable (h : JoinInv k)
include h

theorem JoinInv.joinList_eq_nil (hu : (k.status u).unused) : k.lists (.joinList u) = [] := by
  by_contra hne
  simpa [hu] using (h.live u hne).1

/-- Joiners only leave, and tasks that still have one keep the bits that matter. -/
theorem JoinInv.mono (hl : ∀ u, (k'.lists (.joinList u)).Sublist (k.lists (.joinList u)))
    (hv : ∀ u, k'.lists (.joinList u) ≠ [] → (k.status u).unused = false →
      (k.status u).exit = false → (k.status u).joinable → (k'.status u).unused = false ∧
      (k'.status u).exit = false ∧ (k'.status u).joinable) : JoinInv k' := by
  refine ⟨fun u hne => ?_, fun u => (hl u).length_le.trans (h.one u)⟩
  have hne₀ : k.lists (.joinList u) ≠ [] := fun e => hne (List.sublist_nil.mp (e ▸ hl u))
  obtain ⟨hu, hx, hj⟩ := h.live u hne₀
  exact hv u hne hu hx hj

/-- Steps that change only `pend`, `timeout` and the priority of tasks that have a joiner. -/
theorem JoinInv.of_view (hl : ∀ u, (k'.lists (.joinList u)).Sublist (k.lists (.joinList u)))
    (hv : ∀ u, k'.lists (.joinList u) ≠ [] → (k.status u).unused = false → ∃ p d o r,
      (k'.taskCB u).view =
        { (k.taskCB u).view with pend := p, timed := d, timeout := o, priority := r }) :
    JoinInv k' := by
  refine h.mono hl fun u hne hu hx hj => ?_
  obtain ⟨p, d, o, r, he⟩ := hv u hne hu
  exact ⟨(congrArg unused he).trans hu, (congrArg exit he).trans hx,
    (congrArg joinable he).trans hj⟩

theorem JoinInv.of_onlyUnused (ho : OnlyUnused k k') : JoinInv k' := by
  refine h.of_view (fun u => (ho.lists (.joinList u) rfl).symm ▸ List.Sublist.refl _)
    fun u _ hu => ?_
  rcases ho.view u with hv | hv
  · exact ⟨_, _, _, _, hv⟩
  · simp [hu] at hv

theorem JoinInv.of_quiet (hq : Quiet k k') : JoinInv k' :=
  h.of_onlyUnused hq.onlyUnused

theorem JoinInv.of_wakes (hw : Wakes t k k') : JoinInv k' := by
  refine h.of_view (fun u => (hw.lists (.joinList u) rfl).symm ▸ List.erase_sublist)
    fun u _ _ => ?_
  obtain ⟨_, _, hv⟩ := hw.view u
  exact ⟨_, _, _, _, hv⟩

theorem JoinInv.of_expires (he : Expires k k') : JoinInv k' := by
  refine h.of_view (fun u => (he.lists (.joinList u) rfl).symm ▸ List.filter_sublist)
    fun u _ _ => ?_
  rcases he.view u with hv | hv
  · exact ⟨_, _, _, _, hv⟩
  · exact ⟨_, _, _, _, hv.2⟩

theorem JoinInv.of_reprioritises {p : ℕ} (hr : Reprioritises t p k k') : JoinInv k' := by
  refine h.of_view (fun u => (hr.lists (.joinList u) rfl).symm ▸ List.Sublist.refl _)
    fun u _ _ => ?_
  obtain ⟨_, hv⟩ := hr.view u
  exact ⟨_, _, _, _, hv⟩

theorem JoinInv.of_blocks (hi : i.isIpc) (hb : Blocks i k k') : JoinInv k' := by
  have hne : ∀ u, .joinList u ≠ i := by
    rintro u rfl
    simp [ListHead.isIpc] at hi
  refine h.of_view (fun u => (hb.otherLists _ rfl (hne u)).symm ▸ List.Sublist.refl _)
    fun u _ _ => ?_
  obtain ⟨_, _, hv⟩ := hb.view u
  exact ⟨_, _, _, _, hv⟩

end

/-! ## Creation -/

theorem osTaskInitParamCheck_ok {p p' : TaskInitParam} (h : osTaskInitParamCheck c p = .ok p') :
    p'.usTaskPrio = p.usTaskPrio ∧ p'.joinable = p.joinable ∧ p.usTaskPrio ≤ taskPriorityLowest ∧
      (p.usTaskPrio = taskPriorityLowest → p.pfnTaskEntry = some .osIdleTask) := by
  simp only [osTaskInitParamCheck] at h
  split_ifs at h with _ _ hle hidle <;> cases h <;>
    exact ⟨rfl, rfl, not_lt.mp hle, fun e => by simpa [e] using hidle⟩

variable {p : TaskInitParam} {e : Errno}

theorem osTaskInitParamCheck_error (h : osTaskInitParamCheck c p = .error e) : e ≠ .ok := by
  simp only [osTaskInitParamCheck] at h
  split_ifs at h <;> cases h <;> simp

theorem osNewTaskInit_eq (stack : ℕ) (hj : k.lists (.joinList t) = []) :
    ∃ top free allocs, (k.osNewTaskInit c t p stack).1 = { k.modifyTCB t fun cb =>
        { newTaskCB p cb with
          topOfStack := top
          taskStatus := { suspend := true, joinable := p.joinable, stackFree := free } } with
        stackAllocs := allocs } := by
  have hlists : (if p.joinable then
      { k.modifyTCB t (newTaskCB p) with lists := Function.update k.lists (.joinList t) [] }
      else k.modifyTCB t (newTaskCB p)) = k.modifyTCB t (newTaskCB p) := by
    rw [← hj, Function.update_eq_self]
    exact ite_self _
  simp only [osNewTaskInit, modifyTCB_lists_eq, hlists]
  split_ifs
  · exact ⟨stack, false, k.stackAllocs, by simp [modifyTCB, newTaskCB]⟩
  · exact ⟨stack, true, bump k.stackAllocs t, by simp [setStatus, modifyTCB, newTaskCB]⟩
  · exact ⟨_, false, k.stackAllocs, by simp [modifyTCB]; rfl⟩

/-- What `LOS_TaskCreateOnly` answers with: a suspended task that nothing refers to. -/
structure Created (c : Config) (run : Option TaskID) (p : TaskInitParam) (k : Sched) (t : TaskID) :
    Prop where
  lt : t < c.taskMaxNum
  detached : Detached run k t
  running : (k.status t).running = false
  notIdle : t ≠ k.idleTaskID
  priority : (k.taskCB t).priority = p.usTaskPrio

theorem Idle.created (hi : Idle c run k t) (hat : k.lists.At t none)
    (hp : p.usTaskPrio ≤ taskPriorityLowest) (top : ℕ) (free : Bool) (allocs : TaskID → ℕ) :
    Created c run p { k.modifyTCB t fun cb => { newTaskCB p cb with
        topOfStack := top
        taskStatus := { suspend := true, joinable := p.joinable, stackFree := free } } with
      stackAllocs := allocs } t where
  lt := hi.lt
  detached := {
    id := by simp [newTaskCB, hi.id]
    priority := by simpa [newTaskCB] using hp
    ready := by simp
    pend := by simp
    delay := by simp
    pendTime := by simp
    exit := by simp
    unused := by simp
    freeze := by simp
    running := by simp [hi.run]
    response := by simp [newTaskCB]
    sortLink := hi.sortLink
    nowhere := hat
    idle := fun e => absurd e hi.notIdle }
  running := by simp
  notIdle := hi.notIdle
  priority := by simp [newTaskCB]

/-- The view of a task that has just been created; `eventMode` is what the block last had. -/
def freshView (p : TaskInitParam) (eventMode : BitVec 32) : TaskView where
  unused := false
  exit := false
  pend := false
  timed := false
  timeout := false
  systemTask := false
  joinable := p.joinable
  priority := p.usTaskPrio
  eventMask := 0
  eventMode := eventMode

/-- What `LOS_TaskCreate` changes: an unused block becomes a fresh task. -/
structure Creates (p : TaskInitParam) (r : Except Errno TaskID) (k k' : Sched) : Prop where
  lists : ∀ i : ListHead, i.isWait → k'.lists i = k.lists i
  fresh : ∀ t, r = .ok t → (k.status t).unused ∧ ∃ m, (k'.taskCB t).view = freshView p m
  others : ∀ u, r ≠ .ok u → (k'.taskCB u).view = (k.taskCB u).view ∨
    ((k.status u).unused ∧ (k'.status u).unused)

theorem OnlyUnused.creates (h : OnlyUnused k k') :
    Creates p (.error e) k k' := ⟨h.lists, by simp, fun u _ => h.view u⟩

variable {r : Except Errno TaskID}

theorem Creates.trans_quiet (h : Creates p r k k') (hq : Quiet k' k'') : Creates p r k k'' := by
  refine ⟨fun i hi => (hq.lists i hi).trans (h.lists i hi), fun v hv => ?_, fun u hu => ?_⟩
  · obtain ⟨hun, m, hv'⟩ := h.fresh v hv
    exact ⟨hun, m, (hq.view v).trans hv'⟩
  · refine (h.others u hu).imp (hq.view u).trans (And.imp_right fun hun => ?_)
    exact (congrArg unused (hq.view u)).trans hun

theorem JoinInv.of_creates (h : JoinInv k) (hc : Creates p r k k') : JoinInv k' := by
  refine h.of_view (fun u => (hc.lists (.joinList u) rfl).symm ▸ List.Sublist.refl _)
    fun u _ hu => ?_
  by_cases hr : r = .ok u
  · simpa [hu] using (hc.fresh u hr).1
  · rcases hc.others u hr with hv | hv
    · exact ⟨_, _, _, _, hv⟩
    · simp [hu] at hv

structure CreateSpec (c : Config) (pm : Prop) (run : Option TaskID) (p : TaskInitParam)
    (r : Except Errno TaskID) (k k' : Sched) : Prop where
  inv : InvWith c pm run k'
  same : Same k k'
  error : r ≠ .error .ok
  creates : Creates p r k k'

theorem Around.osNewTaskInit (stack : ℕ) (h : Around c pm run t k) (hi : Idle c run k t)
    (hat : k.lists.At t none) (hp : p.usTaskPrio ≤ taskPriorityLowest)
    (hj : k.lists (.joinList t) = []) : InvWith c pm run (k.osNewTaskInit c t p stack).1 ∧
      Created c run p (k.osNewTaskInit c t p stack).1 t ∧
      ((k.osNewTaskInit c t p stack).1.taskCB t).view = freshView p (k.taskCB t).eventMode ∧
      Same k (k.osNewTaskInit c t p stack).1 ∧
      (k.osNewTaskInit c t p stack).1.lists = k.lists ∧
      ∀ u ≠ t, (k.osNewTaskInit c t p stack).1.taskCB u = k.taskCB u := by
  obtain ⟨top, free, allocs, heq⟩ := osNewTaskInit_eq stack hj
  rw [heq]
  have hnew := hi.created hat hp top free allocs
  have hm := h.modifyTCB fun cb =>
    { newTaskCB p cb with
      topOfStack := top
      taskStatus := { suspend := true, joinable := p.joinable, stackFree := free } }
  have hg : Around c pm run t { k.modifyTCB t fun cb =>
      { newTaskCB p cb with
        topOfStack := top
        taskStatus := { suspend := true, joinable := p.joinable, stackFree := free } } with
      stackAllocs := allocs } := hm.globals rfl rfl rfl rfl rfl hm.asserted
  exact ⟨hg.close hnew.detached.taskOk, hnew, by simp [TaskCB.view, freshView, newTaskCB],
    ⟨rfl, rfl, rfl, rfl, rfl⟩, rfl, fun u hu => by simp [hu]⟩

theorem InvWith.losTaskCreateOnly {n : ℕ} (h : InvWith c pm run k) (hj : JoinInv k)
    (hres : k.losTaskCreateOnly c p n = (k', r)) :
    CreateSpec c pm run p r k k' ∧ ∀ t, r = .ok t → Created c run p k' t := by
  unfold Sched.losTaskCreateOnly at hres
  split at hres
  · rename_i hcheck
    cases hres
    exact ⟨⟨h, .refl _, by simpa using osTaskInitParamCheck_error hcheck,
      (refl k).onlyUnused.creates⟩, by simp⟩
  · rename_i p' hcheck
    obtain ⟨hp', hjoin, hp, -⟩ := osTaskInitParamCheck_ok hcheck
    obtain ⟨hrec, hun⟩ := h.osRecycleFinishedTask
    have hsame := osRecycleFinishedTask_same (k := k)
    generalize k.osRecycleFinishedTask = k₁ at hres hrec hsame hun
    dsimp only at hres
    split at hres
    · cases hres
      exact ⟨⟨hrec, hsame, by simp, hun.creates⟩, by simp⟩
    · rename_i t _ hl
      obtain ⟨ht, hu⟩ := hrec.placed_of_mem (t := t) (i := .losFreeTask) (by simp [hl])
      have hi := hrec.idle_of_unused ht hu
      have hunused := hun.unused_iff.symm.trans hu
      have hdel := hun.trans (hrec.onlyUnused_listDelete hi)
      have hopen : Around c pm run t
          { k₁.listDelete t with creations := bump k₁.creations t } :=
        ((hrec.around ht).listDelete hi.priQueue).globals rfl rfl rfl rfl rfl hrec.asserted
      obtain ⟨hinit, hnew, hview, hsame₂, hlists, hothers⟩ := hopen.osNewTaskInit n
        ⟨hi.lt, hi.id, hi.unused, hi.pend, hi.notIdle, hi.run, hi.sortLink,
          fun p hm => hi.priQueue p (List.mem_of_mem_erase hm)⟩
        (Rings.At.unlink hrec.linked.nodup) (hp'.trans_le hp)
        ((hdel.lists _ rfl).trans (hj.joinList_eq_nil hunused))
      have hsame' := (hsame.trans ⟨rfl, rfl, rfl, rfl, rfl⟩ :
        Same k { k₁.listDelete t with creations := bump k₁.creations t }).trans hsame₂
      have hview' : ∀ m, freshView p' m = freshView p m := by simp [freshView, hp', hjoin]
      split at hres
      · rename_i k₂ heq
        rw [heq] at hinit hnew hsame' hview hlists hothers
        cases hres
        refine ⟨⟨hinit, hsame', by simp, fun i hw => ?_, fun v hv => ?_, fun u hut => ?_⟩,
          fun u hu => ?_⟩
        · exact (congrFun hlists i).trans (hdel.lists i hw)
        · cases hv
          exact ⟨hunused, _, hview.trans (hview' _)⟩
        · have hne : u ≠ t := fun e => hut (by rw [e])
          dsimp only at hothers ⊢
          simp only [status, hothers u hne]
          exact hdel.view u
        · cases hu
          exact ⟨hnew.lt, hnew.detached, hnew.running, hnew.notIdle, hnew.priority.trans hp'⟩
      · rename_i k₂ e he heq
        rw [heq] at hinit hnew hsame' hlists hothers
        cases hres
        have hd := hnew.detached
        refine ⟨⟨?_, hsame'.trans ⟨rfl, rfl, rfl, rfl, rfl⟩, by simpa using he, ?_⟩, by simp⟩
        · exact (hinit.around ht).osInsertTCBToFreeList hd.id hnew.notIdle hi.run hd.nowhere
            hd.sortLink
        · refine ⟨fun i hw => ?_, by simp, fun u _ => ?_⟩
          · exact (addHead_of_ne (isWait_ne hw rfl)).trans
              ((congrFun hlists i).trans (hdel.lists i hw))
          · by_cases hut : u = t
            · subst hut
              exact .inr ⟨hunused, by simp [osInsertTCBToFreeList]⟩
            · have hcb : (k₂.osInsertTCBToFreeList t).taskCB u = k₁.taskCB u := by
                simpa [osInsertTCBToFreeList, hut] using hothers u hut
              simp only [status, hcb]
              exact hdel.view u

theorem InvWith.losTaskCreate {n : ℕ} (h : InvWith c pm run k) (hj : JoinInv k)
    (hres : k.losTaskCreate c p n = (k', r)) : CreateSpec c pm run p r k k' := by
  unfold Sched.losTaskCreate at hres
  split at hres
  · rename_i k₁ e heq
    cases hres
    exact (h.losTaskCreateOnly hj heq).1
  · rename_i k₁ t heq
    cases hres
    obtain ⟨hs, hnew⟩ := h.losTaskCreateOnly hj heq
    have hc := hnew t rfl
    exact ⟨(hs.inv.around hc.lt).osSchedTaskEnQueue (hc.detached.runnable hc.running),
      hs.same.trans osSchedTaskEnQueue_same, hs.error,
      hs.creates.trans_quiet (.osSchedTaskEnQueue hc.detached.pend)⟩

/-! ## Deletion -/

/-- The spare block takes the place of a task that deletes itself. -/
theorem InvWith.osRunningTaskDelete (h : InvWith c pm (some t) k) (ht : t < c.taskMaxNum)
    (hi : t ≠ k.idleTaskID) (hx : (k.status t).exit) (hp : (k.status t).pendTime = false)
    (hj : (k.status t).joinable = false) (hat : k.lists.At t none) (hs : t ∉ k.sortLink) :
    InvWith c pm (some c.taskMaxNum)
      ((k.setStatus t fun s => { s with unused := true }).osRunningTaskDelete c t) := by
  obtain ⟨_, _, hok⟩ := h.task t ht
  have hst := hok.status
  obtain ⟨hpend, hdelay⟩ := hst.gone (.inl hx)
  have hready : (k.status t).ready = false := by
    simpa [hx] using mt fun hc => (hst.ready hc).2.2.2.1
  have hfz := hst.freeze_eq_false (.inr (.inr ⟨hdelay, hp⟩))
  have hopen := (((h.around ht).change_run _ fun u hne =>
    show none = some u ↔ some t = some u by simp [hne.symm]).setStatus
    fun s => { s with unused := true }).listTailInsert (i := .taskRecycleList) (by simp)
      (hat.notMem _)
  have hclosed : InvWith c pm none
      ((k.setStatus t fun s => { s with unused := true }).listTailInsert .taskRecycleList t) := by
    refine hopen.close ⟨some .taskRecycleList, hat.addTail, ?_⟩
    constructor <;> simp [hok.id, hok.priority, hs, Placed, hi]
    · constructor <;> simp_all
    · simp_all
    · intro e
      simp_all
    · simp_all
  refine ⟨hclosed.linked.congr rfl rfl rfl, fun u hu => ?_, ?_, hclosed.asserted⟩
  · refine (hclosed.task u hu).congr ?_ (fun _ => Iff.rfl) Iff.rfl Iff.rfl (by simp [hu.ne'])
    simp [Sched.osRunningTaskDelete, hu.ne]
  · constructor <;> simp_all [Sched.osRunningTaskDelete]

theorem InvWith.exited (h : InvWith c pm run k) (ht : t < c.taskMaxNum)
    (hx : (k.status t).exit) (hu : (k.status t).unused = false)
    (hp : (k.status t).pendTime = false) : k.lists.At t none ∧ t ∉ k.sortLink := by
  obtain ⟨o, ho, hok⟩ := h.task t ht
  obtain ⟨hpend, hdelay⟩ := hok.status.gone (.inl hx)
  have hready : (k.status t).ready = false := by
    simpa [hx] using mt fun hc => (hok.status.ready hc).2.2.2.1
  have hpt : (k.taskCB t).taskStatus.pendTime = false := hp
  exact ⟨hok.nowhere hready hpend hu ▸ ho, by simp [hok.linked, hdelay, hpt]⟩

/-- What `LOS_TaskDelete` does to its task: it leaves its wait list and is finished or unused. -/
structure Deletes (c : Config) (t : TaskID) (k k' : Sched) : Prop where
  lists : ∀ i : ListHead, i.isWait → k'.lists i = (k.lists i).erase t
  pend : (k'.status t).pend = false
  gone : (k'.status t).unused ∨ (k'.status t).exit
  others : ∀ u ≠ t, u ≠ c.taskMaxNum → (k'.taskCB u).view = (k.taskCB u).view

theorem osSchedTaskExit_taskCB_of_ne (hne : u ≠ t) :
    (k.osSchedTaskExit t).taskCB u = k.taskCB u := by
  have hleave : (k.leaveList t).taskCB u = k.taskCB u := by
    unfold leaveList
    split_ifs
    · exact osSchedTaskDeQueue_taskCB_of_ne hne
    · simp [hne]
    · rfl
  simp only [osSchedTaskExit]
  split_ifs <;> simp [hne, osDeleteSortLink_taskCB_of_ne hne, hleave]

theorem InvWith.deletes_osSchedTaskExit (h : InvWith c pm run k) (ht : t < c.taskMaxNum) :
    Deletes c t k (k.osSchedTaskExit t) := by
  obtain ⟨_, _, hok⟩ := h.task t ht
  have hcb := osSchedTaskExit_taskCB hok.status
  refine ⟨fun i hi => ?_, by simp [hcb], by simp [hcb], fun u hu _ => ?_⟩
  · rw [osSchedTaskExit_lists]
    have hsame : (k.status t).pend = false → k.lists i = (k.lists i).erase t := fun hp =>
      (List.erase_of_not_mem (h.notMem_wait hi hp)).symm
    unfold leaveList
    split_ifs with hr hp
    · have hpend := (hok.status.ready hr).1
      rw [← hsame hpend]
      exact (Quiet.osSchedTaskDeQueue fun j hj => h.notMem_wait hj hpend).lists i hi
    · rfl
    · exact hsame (by simpa using hp)
  · rw [osSchedTaskExit_taskCB_of_ne hu]

section

variable (h : Deletes c t k k')
include h

/-- What `LOS_TaskDelete` does after `OsSchedTaskExit` concerns the deleted task only. -/
theorem Deletes.then_self
    (hl : ∀ i : ListHead, i.isWait → k''.lists i = k'.lists i) (hp : (k''.status t).pend = false)
    (hg : (k''.status t).unused ∨ (k''.status t).exit)
    (ho : ∀ u ≠ t, u ≠ c.taskMaxNum → k''.taskCB u = k'.taskCB u) : Deletes c t k k'' :=
  ⟨fun i hi => (hl i hi).trans (h.lists i hi), hp, hg,
    fun u hu hm => (congrArg TaskCB.view (ho u hu hm)).trans (h.others u hu hm)⟩

theorem Deletes.freeStack : Deletes c t k (k'.freeStack t) := by
  have hq := Quiet.freeStack (k := k') (t := t)
  refine h.then_self hq.lists ((congrArg TaskView.pend (hq.view t)).trans h.pend) ?_
    fun u hu _ => freeStack_taskCB_of_ne hu
  exact h.gone.imp (congrArg TaskView.unused (hq.view t)).trans
    (congrArg TaskView.exit (hq.view t)).trans

theorem Deletes.osRecycleTaskResources : Deletes c t k (k'.osRecycleTaskResources t) := by
  simp only [Sched.osRecycleTaskResources]
  split_ifs
  · refine h.freeStack.then_self (fun i hi => ?_) ?_ (.inl ?_) fun u hu hm => ?_
    · exact addHead_of_ne (isWait_ne hi rfl)
    · simp [osInsertTCBToFreeList]
    · simp [osInsertTCBToFreeList]
    · simp [osInsertTCBToFreeList, hu]
  · exact h.freeStack

theorem Deletes.finishDelete (hx : (k'.status t).exit)
    (ht : t ≠ c.taskMaxNum) : Deletes c t k (finishDelete c k' t) := by
  have hm : Deletes c t k (k'.modifyTCB t fun cb => { cb with eventMask := 0 }) :=
    h.then_self (fun _ _ => rfl) (by simpa using h.pend) (by simpa using h.gone)
      fun u hu _ => by simp [hu]
  have hp := h.pend
  simp only [Sched.finishDelete]
  split_ifs with hr hj
  · refine hm.then_self (fun i hi => ?_) ?_ (.inr ?_) fun u hu hm => ?_
    · exact addTail_of_ne (isWait_ne hi rfl)
    · simpa [Sched.osRunningTaskDelete, ht] using hp
    · simpa [Sched.osRunningTaskDelete, ht] using hx
    · simp [Sched.osRunningTaskDelete, hu, hm]
  · exact hm
  · exact hm.osRecycleTaskResources

end

theorem osSchedTaskWake_freeze :
    ((k.osSchedTaskWake c t).status u).freeze = (k.status u).freeze := by
  have hstop : ((k.stopPending t).status u).freeze = (k.status u).freeze := by
    by_cases hut : u = t
    · subst hut
      simp [stopPending_taskCB]
    · simp [stopPending_taskCB_of_ne hut]
  simp only [osSchedTaskWake]
  split_ifs
  · by_cases hut : u = t
    · subst hut
      obtain ⟨slice, hcb⟩ := osSchedTaskEnQueue_taskCB (c := c) (k := k.stopPending u) (t := u)
      simpa [hcb, enqueued] using hstop
    · simpa [osSchedTaskEnQueue_taskCB_of_ne hut] using hstop
  · exact hstop

/-- The effect of `OsTaskJoinPostUnsafe`. -/
inductive JoinPosts (t : TaskID) (k k' : Sched) : Prop
  | none (hq : Quiet k k') (hl : (k.status t).joinable → k.lists (.joinList t) = [])
  | one (j : TaskID) (hj : j ∈ k.lists (.joinList t)) (hw : Wakes j k k')

theorem JoinPosts.globals (h : JoinPosts t k k') (hcb : k''.taskCB = k.taskCB)
    (hl : k''.lists = k.lists) : JoinPosts t k'' k' := by
  cases h with
  | none hq hl' =>
    exact .none ⟨fun i hi => (hq.lists i hi).trans (by rw [hl]),
      fun u => (hq.view u).trans (by rw [hcb])⟩ (by simpa [hl, hcb] using hl')
  | one j _ hw =>
    refine .one j (by rwa [hl]) ⟨fun i hi => ?_, ?_, fun u hu => ?_⟩
    · rw [hw.lists i hi, hl]
    · rw [hw.self, hcb]
    · rw [hw.others u hu, hcb]

theorem JoinPosts.unused_eq (h : JoinPosts t k k') :
    (k'.status u).unused = (k.status u).unused := by
  cases h with
  | none hq => exact congrArg unused (hq.view u)
  | one j _ hw =>
    by_cases hu : u = j
    · subst hu
      exact congrArg unused hw.self
    · exact congrArg unused (hw.others u hu)

theorem SchedInv.osTaskJoinPostUnsafe (h : SchedInv c pm k)
    (hf : ∀ j ∈ k.lists (.joinList t), (k.status j).freeze = false) :
    SchedInv c pm (k.osTaskJoinPostUnsafe c t) ∧ Same k (k.osTaskJoinPostUnsafe c t) ∧
      JoinPosts t k (k.osTaskJoinPostUnsafe c t) ∧
      ∀ u, ((k.osTaskJoinPostUnsafe c t).status u).freeze = (k.status u).freeze := by
  simp only [Sched.osTaskJoinPostUnsafe]
  split_ifs with hjoin
  · split
    · rename_i hl
      exact ⟨h, .refl k, .none (.refl k) fun _ => hl, fun _ => rfl⟩
    · rename_i j _ hl
      have hm : j ∈ k.lists (.joinList t) := by simp [hl]
      have hp : (k.status j).pend := by
        by_contra hc
        exact h.1.notMem_wait rfl (by simpa using hc) hm
      have hwake := h.1.osSchedTaskWake (h.1.linked.bound _ _ hm) hp (hf j hm)
      exact ⟨h.of_same osSchedTaskWake_same hwake, osSchedTaskWake_same,
        .one j hm wakes_osSchedTaskWake, fun u => osSchedTaskWake_freeze⟩
  · exact ⟨h, .refl k, .none (.refl k) fun hc => absurd hc hjoin, fun _ => rfl⟩

theorem SchedInv.finishDelete (h : SchedInv c pm k) (ht : t < c.taskMaxNum)
    (hi : t ≠ k.idleTaskID) (hu : (k.status t).unused = false) (hf : (k.status t).freeze = false) :
    SchedInv c pm (finishDelete c (k.osSchedTaskExit t) t) := by
  obtain ⟨_, _, hok⟩ := h.1.task t ht
  have hcb := osSchedTaskExit_taskCB hok.status
  simp only [Sched.finishDelete]
  set k₁ := (k.osSchedTaskExit t).modifyTCB t fun cb => { cb with eventMask := 0 } with hk₁
  have hexit : InvWith c pm (some k.runTask) k₁ :=
    InvWith.modifyTCB (h.1.osSchedTaskExit ht hi hu hf) rfl rfl rfl (.refl _)
  have hsame : Same k k₁ := osSchedTaskExit_same.trans (.modifyTCB ..)
  have hx : (k₁.status t).exit := by simp [hk₁, hcb]
  have hu' : (k₁.status t).unused = false := by simpa [hk₁, hcb] using hu
  have hp : (k₁.status t).pendTime = false := by simp [hk₁, hcb]
  have hrun : (k₁.status t).running ↔ k.runTask = t := by
    simpa [hk₁, hcb] using hok.running hu
  have hi' : t ≠ k₁.idleTaskID := hsame.idleTaskID.symm ▸ hi
  obtain ⟨hat, hs⟩ := hexit.exited ht hx hu' hp
  split_ifs with hr hj
  · -- it deletes itself
    rw [hrun.mp hr] at hexit
    have hdel := hexit.osRunningTaskDelete ht hi' hx hp (by simpa using hj) hat hs
    exact ⟨hdel, hsame.idleTaskID.trans_lt h.2.1, le_refl _⟩
  · exact h.of_same hsame hexit
  · have hne : some k.runTask ≠ some t := fun e => hr (hrun.mpr (Option.some.inj e))
    exact h.of_same (hsame.trans osRecycleTaskResources_same)
      (hexit.osRecycleTaskResources ht hi' hne hat hs)

/-- A call of `LOS_TaskDelete` is refused and changes nothing, or deletes the task after it has
woken the one that waits for it. -/
inductive DeleteSpec (c : Config) (t : TaskID) (k k' : Sched) : Errno → Prop
  | refused (e : Errno) (he : e ≠ .ok) (hk : k' = k) : DeleteSpec c t k k' e
  | deleted (k₁ : Sched) (hi : t ≠ k.idleTaskID) (ht : t < c.taskMaxNum)
      (hu : (k.status t).unused = false) (hx : (k.status t).exit = false)
      (hj : JoinPosts t k k₁) (hd : Deletes c t k₁ k') : DeleteSpec c t k k' .ok

/-- `LOS_TaskDelete` after its checks, with the task lock that they leave. -/
theorem SchedInv.losTaskDelete_checked (h : SchedInv c pm k) (l : ℕ) (ht : t < c.taskMaxNum)
    (hi : t ≠ k.idleTaskID) (hu : (k.status t).unused = false) (hx : (k.status t).exit = false)
    (hf : (k.status t).freeze = false)
    (hfj : ∀ j ∈ k.lists (.joinList t), (k.status j).freeze = false) :
    let k' := Sched.finishDelete c
      ((({ k with losTaskLock := l } : Sched).osTaskJoinPostUnsafe c t).osSchedTaskExit t) t
    SchedInv c pm k' ∧ DeleteSpec c t k k' .ok := by
  have hlock : SchedInv c pm { k with losTaskLock := l } :=
    ⟨h.1.globals rfl rfl rfl rfl rfl h.1.asserted, h.2⟩
  obtain ⟨hpost, hsame, hj, hfz⟩ := hlock.osTaskJoinPostUnsafe hfj
  have hunused := (hj.unused_eq).trans hu
  have hfz' := (hfz t).trans hf
  have hj' : JoinPosts t k _ := hj.globals rfl rfl
  generalize ({ k with losTaskLock := l } : Sched).osTaskJoinPostUnsafe c t = k₁
    at hpost hsame hj' hunused hfz' ⊢
  have hi' : t ≠ k₁.idleTaskID := hsame.idleTaskID.symm ▸ hi
  obtain ⟨_, _, hok⟩ := hpost.1.task t ht
  exact ⟨hpost.finishDelete ht hi' hunused hfz', .deleted k₁ hi ht hu hx hj'
    ((hpost.1.deletes_osSchedTaskExit ht).finishDelete
      (by simp [osSchedTaskExit_taskCB hok.status]) ht.ne)⟩

theorem SchedInv.losTaskDelete (h : SchedInv c pm k)
    (hf : t < c.taskMaxNum → (k.status t).freeze = false ∧
      ∀ j ∈ k.lists (.joinList t), (k.status j).freeze = false)
    (hres : k.losTaskDelete c t = (k', e)) : SchedInv c pm k' ∧ DeleteSpec c t k k' e := by
  simp only [Sched.losTaskDelete] at hres
  split_ifs at hres with hid hsys hu hx hsig <;> cases hres
  · exact ⟨h, .refused _ hid rfl⟩
  · exact ⟨h, .refused _ nofun rfl⟩
  · exact ⟨h, .refused _ nofun rfl⟩
  · exact ⟨h, .refused _ nofun rfl⟩
  · exact ⟨h, .refused _ nofun rfl⟩
  all_goals
    obtain ⟨hi, ht⟩ := osCheckTaskIDValid_ok (not_not.mp hid)
  · exact h.losTaskDelete_checked 0 ht hi (by simpa using hu) (by simpa using hx) (hf ht).1
      (hf ht).2
  · exact h.losTaskDelete_checked k.losTaskLock ht hi (by simpa using hu) (by simpa using hx)
      (hf ht).1 (hf ht).2

theorem JoinInv.joinList_of_joinPosts (h : JoinInv k) (hj : JoinPosts t k k') :
    k'.lists (.joinList t) = [] := by
  cases hj with
  | none hq hl =>
    rw [hq.lists _ rfl]
    by_contra hne
    exact hne (hl (h.live t hne).2.2)
  | one j hm hw =>
    rw [hw.lists _ rfl]
    obtain ⟨x, hx⟩ := List.length_eq_one_iff.mp (le_antisymm (h.one t) (List.length_pos_of_mem hm))
    rw [hx] at hm ⊢
    simp [List.mem_singleton.mp hm]

theorem JoinInv.of_joinPosts (h : JoinInv k) (hj : JoinPosts t k k') : JoinInv k' := by
  cases hj with
  | none hq => exact h.of_quiet hq
  | one j _ hw => exact h.of_wakes hw

theorem JoinInv.of_deletes (h : JoinInv k) (hl : k.lists (.joinList t) = [])
    (hmax : (k.status c.taskMaxNum).unused) (hd : Deletes c t k k') : JoinInv k' := by
  refine h.of_view (fun u => (hd.lists (.joinList u) rfl).symm ▸ List.erase_sublist)
    fun u hne hu => ?_
  have hut : u ≠ t := by
    rintro rfl
    simp [hd.lists (.joinList u) rfl, hl] at hne
  have hum : u ≠ c.taskMaxNum := by
    rintro rfl
    simp [hu] at hmax
  exact ⟨_, _, _, _, hd.others u hut hum⟩

theorem JoinInv.of_deleteSpec (h : JoinInv k) (hmax : (k.status c.taskMaxNum).unused)
    (hd : DeleteSpec c t k k' e) : JoinInv k' := by
  cases hd with
  | refused _ _ hk => exact hk ▸ h
  | deleted _ _ _ _ _ hj hd =>
    exact (h.of_joinPosts hj).of_deletes (h.joinList_of_joinPosts hj) (hj.unused_eq.trans hmax) hd

/-! ## Booting -/

theorem invWith_osTaskInit (c : Config) (pm : Prop) :
    InvWith c pm (some c.taskMaxNum) (osTaskInit c) where
  linked := {
    nodup := fun i => by
      simp only [osTaskInit]
      split
      · exact List.nodup_range
      · exact List.nodup_nil
    bound := fun i t ht => by
      simp only [osTaskInit] at ht
      split at ht
      · simpa using ht
      · simp at ht
    bitmap := fun p _ => by simp [osTaskInit]
    sortNodup := List.nodup_nil
    sortBound := by simp [osTaskInit]
    unlinked := rfl }
  task t ht := by
    have hidle := (ht.trans c.tskLimit_lt).ne
    refine ⟨some .losFreeTask, fun i => ?_, ?_⟩
    · simp only [osTaskInit]
      split
      · simp_all
      · simp_all [eq_comm]
    · constructor <;> simp [osTaskInit, ht, ht.ne', Placed, hidle]
      constructor <;> simp
  spare := by constructor <;> simp [osTaskInit]
  asserted := rfl

/-- While the kernel boots no task has waited or finished. -/
structure Fresh (k : Sched) : Prop where
  join : JoinInv k
  tasks : ∀ t, (k.status t).unused = false →
    (k.status t).exit = false ∧ (k.status t).pend = false ∧ (k.status t).timeout = false

theorem fresh_osTaskInit (c : Config) : Fresh (osTaskInit c) where
  join := ⟨fun _ hne => absurd rfl hne, fun _ => Nat.zero_le _⟩
  tasks t ht := by
    simp only [osTaskInit, status] at ht
    split_ifs at ht

theorem Fresh.of_creates (h : Fresh k) (hc : Creates p r k k') : Fresh k' := by
  refine ⟨h.join.of_creates hc, fun u hu => ?_⟩
  by_cases hr : r = .ok u
  · obtain ⟨m, hv⟩ := (hc.fresh u hr).2
    exact ⟨congrArg exit hv, congrArg pend hv, congrArg timeout hv⟩
  · rcases hc.others u hr with hv | hv
    · obtain ⟨hx, hp, ho⟩ := h.tasks u ((congrArg unused hv).symm.trans hu)
      exact ⟨(congrArg exit hv).trans hx, (congrArg pend hv).trans hp,
        (congrArg timeout hv).trans ho⟩
    · simp [hu] at hv

/-- The swtmr task is an ordinary task but for the `SYSTEM_TASK` flag. -/
theorem InvWith.osSwtmrTaskCreate {stack : ℕ} (h : InvWith c pm run k) (hj : Fresh k)
    (hres : k.osSwtmrTaskCreate c stack = (k', e)) :
    InvWith c pm run k' ∧ Fresh k' ∧ k'.runTask = k.runTask ∧ k'.idleTaskID = k.idleTaskID ∧
      k'.losTaskLock = k.losTaskLock ∧ k'.taskScheduled = k.taskScheduled := by
  unfold Sched.osSwtmrTaskCreate at hres
  split at hres <;> cases hres
  · rename_i heq
    obtain ⟨hinv, hs, -, hc⟩ := h.losTaskCreate hj.join heq
    exact ⟨hinv, hj.of_creates hc, hs.runTask, hs.idleTaskID, hs.losTaskLock, hs.taskScheduled⟩
  · rename_i k₁ t heq
    obtain ⟨hinv, hs, -, hc⟩ := h.losTaskCreate hj.join heq
    have hg : InvWith c pm run { k₁ with swtmrTaskID := t } :=
      hinv.globals rfl rfl rfl rfl rfl hinv.asserted
    refine ⟨InvWith.modifyTCB hg ?_ ?_ ?_ ?_, ?_, hs.runTask, hs.idleTaskID, hs.losTaskLock,
      hs.taskScheduled⟩
    iterate 3 rfl
    · exact ⟨rfl, rfl, rfl, rfl, rfl, rfl, rfl, rfl, rfl, rfl⟩
    · have hf := hj.of_creates hc
      constructor
      · refine hf.join.mono (fun u => List.Sublist.refl _) fun u _ hu hx hjn => ?_
        by_cases hut : u = t
        · subst hut
          simpa using ⟨hu, hx, hjn⟩
        · simpa [hut] using ⟨hu, hx, hjn⟩
      · intro u hu
        by_cases hut : u = t
        · subst hut
          simpa using hf.tasks u (by simpa using hu)
        · simpa [hut] using hf.tasks u (by simpa [hut] using hu)

theorem InvWith.osIdleTaskCreate {stack : ℕ} (h : InvWith c pm run k) (hj : Fresh k)
    (hi : k.idleTaskID = osInvalid) (hres : k.osIdleTaskCreate c stack = (k', .ok)) :
    InvWith c pm run k' ∧ Fresh k' ∧ k'.idleTaskID < c.taskMaxNum ∧ k'.runTask = k.runTask ∧
      k'.losTaskLock = k.losTaskLock ∧ k'.taskScheduled = k.taskScheduled := by
  unfold Sched.osIdleTaskCreate at hres
  split at hres
  · rename_i heq
    cases hres
    exact absurd rfl (h.losTaskCreateOnly hj.join heq).1.error
  · rename_i k₁ t heq
    obtain ⟨⟨hinv, hs, -, hcr⟩, hnew⟩ := h.losTaskCreateOnly hj.join heq
    have hc := hnew t rfl
    cases hres
    have hopen : Around c pm run t { k₁ with idleTaskID := t } := by
      refine ⟨hc.lt, hinv.linked.congr rfl rfl rfl, fun u hu hne => ?_, hinv.spare, hinv.asserted⟩
      have hidle : u ≠ k₁.idleTaskID := by
        rw [hs.idleTaskID, hi]
        exact (hu.trans c.tskLimit_lt).ne
      exact (hinv.task u hu).congr rfl (fun _ => Iff.rfl) Iff.rfl (by simp [hne, hidle]) Iff.rfl
    have hr := hc.detached.runnable hc.running
    have henq := hopen.osSchedTaskEnQueue ⟨hr.id, hr.priority, hr.ready, hr.running, hr.exit,
      hr.unused, hr.freeze, hr.response, hr.sortLink, hr.run, hr.nowhere, fun _ => hc.priority⟩
    have hsame := osSchedTaskEnQueue_same (c := c) (k := { k₁ with idleTaskID := t }) (t := t)
    have hg : Quiet k₁ { k₁ with idleTaskID := t } := .globals rfl rfl
    exact ⟨henq, hj.of_creates (hcr.trans_quiet (hg.trans (.osSchedTaskEnQueue hc.detached.pend))),
      hsame.idleTaskID.trans_lt hc.lt, hsame.runTask.trans hs.runTask,
      hsame.losTaskLock.trans hs.losTaskLock, hsame.taskScheduled.trans hs.taskScheduled⟩

/-- After `LOS_KernelInit` the spare block stands for the running task and nothing is scheduled. -/
structure Booted (c : Config) (pm : Prop) (k : Sched) : Prop where
  inv : SchedInv c pm k
  fresh : Fresh k
  runTask : k.runTask = c.taskMaxNum
  losTaskLock : k.losTaskLock = 0
  taskScheduled : k.taskScheduled = false

theorem booted_of_losKernelInit (pm : Prop) {swtmrStack idleStack : ℕ}
    (hres : losKernelInit c swtmrStack idleStack = (k, .ok)) : Booted c pm k := by
  have hinit := invWith_osTaskInit c pm
  have hjoin := fresh_osTaskInit c
  have key : ∀ k₁, InvWith c pm (some c.taskMaxNum) k₁ ∧ Fresh k₁ ∧
      k₁.runTask = c.taskMaxNum ∧ k₁.idleTaskID = osInvalid ∧ k₁.losTaskLock = 0 ∧
      k₁.taskScheduled = false →
      k₁.osIdleTaskCreate c idleStack = (k, .ok) → Booted c pm k := by
    rintro k₁ ⟨hinv, hj, hrun, hidle, hlock, hsched⟩ hres
    obtain ⟨hk, hj', hlt, hrun', hlock', hsched'⟩ := hinv.osIdleTaskCreate hj hidle hres
    have he := hrun'.trans hrun
    exact ⟨⟨he ▸ hk, hlt, he.le⟩, hj', he, hlock'.trans hlock, hsched'.trans hsched⟩
  unfold losKernelInit at hres
  by_cases hsw : c.baseCoreSwtmr
  · rcases hx : (osTaskInit c).osSwtmrTaskCreate c swtmrStack with ⟨k₁, e⟩
    simp only [hsw, if_true, hx] at hres
    split_ifs at hres with he
    · simp_all
    · exact key k₁ (hinit.osSwtmrTaskCreate hjoin hx) hres
  · simp only [hsw] at hres
    simp at hres
    exact key _ ⟨hinit, hjoin, rfl, rfl, rfl, rfl⟩ hres

end LiteOS.Kernel.Sched
