import LiteOS.Kernel.Blocking
import LiteOS.Kernel.Contract

/-!
# Finished tasks

A joinable task keeps its control block when it finishes, until another task has joined or detached
it. `LOS_TaskJoin` may wait, and it is left by `LOS_Schedule` in any case: what it found out about
the control block of its target may be wrong when it goes on. `JoinSys` records which tasks are
inside the call, for which task.
-/

namespace LiteOS.Kernel

open Lib Sched Function TaskView TaskCB

/-- A call of `LOS_TaskJoin` that has passed its checks; `creation` tells for which of the tasks
that have used the control block. -/
structure JoinCall where
  target : TaskID
  creation : ℕ
deriving DecidableEq

/-- The kernel with the calls of `LOS_TaskJoin` that are to go on after their `LOS_Schedule`. -/
structure JoinSys where
  k : Sched
  joins : TaskID → Option JoinCall := fun _ => none

inductive JoinOp
  | task (op : TaskOp)
  | taskJoin (t : TaskID) (intActive : Bool)
  | taskDetach (t : TaskID) (intActive : Bool)
  | taskJoinReturn
  | recycleFinishedTask
deriving DecidableEq

namespace JoinSys

section

variable (c : Config) (s : JoinSys)

/-- The calls that are left when a task has been deleted. -/
def leave (t : TaskID) (ret : Errno) : TaskID → Option JoinCall :=
  if ret = .ok then update s.joins t none else s.joins

/-- A call for task `t` returns, or goes on after its `LOS_Schedule`. -/
def enter (t : TaskID) : Sched × Option Errno → JoinSys
  | (k, some _) => { s with k := k }
  | (k, none) =>
    { k := k, joins := update s.joins s.k.runTask (some ⟨t, s.k.creations t⟩) }

def exec : JoinOp → JoinSys
  | .task (.taskDelete t) =>
    { k := (s.k.losTaskDelete c t).1, joins := s.leave t (s.k.losTaskDelete c t).2 }
  | .task op => { s with k := op.exec c s.k }
  | .taskJoin t intActive => s.enter t (s.k.losTaskJoin c t intActive)
  | .taskDetach t intActive => s.enter t (s.k.losTaskDetach c t intActive)
  | .taskJoinReturn =>
    match s.joins s.k.runTask with
    | some call =>
      { k := s.k.losTaskJoinReturn call.target
        joins := update s.joins s.k.runTask none }
    | none => s
  | .recycleFinishedTask => { s with k := s.k.osRecycleFinishedTask }

/-- When an operation can come. Tasks make their calls one after the other. -/
def Enabled : JoinOp → Prop
  | .task op => op.Enabled c s.k
  | .taskJoin _ intActive | .taskDetach _ intActive =>
    intActive = false → Executing c s.k ∧ s.joins s.k.runTask = none
  | .taskJoinReturn => Executing c s.k ∧ s.joins s.k.runTask ≠ none
  | .recycleFinishedTask => True

/-- Runs after `LOS_KernelInit`. -/
def machine : Machine JoinSys JoinOp where
  init s := ∃ k swtmrStack idleStack, losKernelInit c swtmrStack idleStack = (k, .ok) ∧
    s = { k := k }
  allowed := Enabled c
  step := exec c

instance (c : Config) (s : JoinSys) (op : JoinOp) : Decidable ((machine c).allowed s op) := by
  cases op <;> unfold machine Enabled <;> infer_instance

/-- Calls with which the control blocks stay consistent: finished tasks are not resumed, and a
finished task is not joined or detached while a task that joined it has yet to recycle it. -/
def Careful : JoinOp → Prop
  | .task op => op.Proper c True s.k
  | .taskJoin t _ | .taskDetach t _ => (s.k.status t).exit →
      ∀ v < c.taskMaxNum, (s.joins v).map JoinCall.target ≠ some t
  | .taskJoinReturn | .recycleFinishedTask => True

end

instance (c : Config) (s : JoinSys) (op : JoinOp) : Decidable (Careful c s op) := by
  cases op <;> unfold Careful <;> infer_instance

variable {c : Config} {pm idle : Prop} {k k' k'' k₁ : Sched} {s : JoinSys} {t u v : TaskID}
  {op : JoinOp} {call : JoinCall} {r : Sched × Option Errno} {run : Option TaskID}
  {p swtmrStack idleStack : ℕ}

/-! ## Steps around the calls -/

/-- A step that ends no task and no wait for one to finish. -/
structure Spares (k k' : Sched) : Prop where
  kept : ∀ u, (k.status u).unused = false → (k'.status u).unused = false ∧
    (k'.status u).exit = (k.status u).exit ∧ (k'.status u).joinable = (k.status u).joinable
  fresh : ∀ u, (k.status u).unused →
    (k'.status u).unused ∨ (k'.status u).exit = false
  joinList : ∀ u v, v ∈ k'.lists (.joinList u) → v ∈ k.lists (.joinList u)
  waits : ∀ u v, v ∈ k.lists (.joinList u) → (k.taskCB v).view.timed = false →
    v ∈ k'.lists (.joinList u) ∧ (k'.taskCB v).view.timed = false

theorem Spares.of_view (hv : ∀ u, ∃ p d o r, (k'.taskCB u).view =
      { (k.taskCB u).view with pend := p, timed := d, timeout := o, priority := r })
    (hl : ∀ u v, v ∈ k'.lists (.joinList u) → v ∈ k.lists (.joinList u))
    (hw : ∀ u v, v ∈ k.lists (.joinList u) → (k.taskCB v).view.timed = false →
      v ∈ k'.lists (.joinList u) ∧ (k'.taskCB v).view.timed = false) : Spares k k' where
  kept u hu := by
    obtain ⟨p, d, o, r, he⟩ := hv u
    exact ⟨(congrArg unused he).trans hu, congrArg exit he, congrArg joinable he⟩
  fresh u hu := by
    obtain ⟨p, d, o, r, he⟩ := hv u
    exact .inl ((congrArg unused he).trans hu)
  joinList := hl
  waits := hw

theorem spares_of_quiet (h : Quiet k k') : Spares k k' := by
  refine .of_view (fun u => ⟨_, _, _, _, h.view u⟩) (fun u v hm => ?_) fun u v hm ht => ?_
  · exact h.lists (.joinList u) rfl ▸ hm
  · exact ⟨(h.lists (.joinList u) rfl).symm ▸ hm, (congrArg timed (h.view v)).trans ht⟩

theorem spares_of_reprioritises (h : Reprioritises t p k k') : Spares k k' := by
  refine .of_view (fun u => ?_) (fun u v hm => ?_) fun u v hm ht => ?_
  · obtain ⟨p, hv⟩ := h.view u
    exact ⟨_, _, _, _, hv⟩
  · exact h.lists (.joinList u) rfl ▸ hm
  · obtain ⟨p, hv⟩ := h.view v
    exact ⟨(h.lists (.joinList u) rfl).symm ▸ hm, (congrArg timed hv).trans ht⟩

theorem spares_of_expires (h : Expires k k')
    (hp : ∀ u v, v ∈ k.lists (.joinList u) → (k.status v).pend) : Spares k k' := by
  refine .of_view (fun u => ?_) (fun u v hm => ?_) fun u v hm ht => ?_
  · rcases h.view u with hv | ⟨-, hv⟩ <;> exact ⟨_, _, _, _, hv⟩
  · rw [h.lists (.joinList u) rfl] at hm
    exact (List.mem_filter.mp hm).1
  · have hv := (h.view v).resolve_right fun hv => absurd (ht.symm.trans hv.1) (by simp)
    rw [h.lists (.joinList u) rfl, List.mem_filter]
    exact ⟨⟨hm, (congrArg pend hv).trans (hp u v hm)⟩,
      (congrArg timed hv).trans ht⟩

theorem spares_of_creates {p : TaskInitParam} {r : Except Errno TaskID} (h : Creates p r k k')
    (hlive : ∀ u v, v ∈ k.lists (.joinList u) → (k.status v).unused = false) : Spares k k' := by
  have hold : ∀ u, (k.status u).unused = false → (k'.taskCB u).view = (k.taskCB u).view :=
    fun u hu => (h.others u fun hr => by simpa [hu] using (h.fresh u hr).1).resolve_right
      fun hv => by simp [hu] at hv
  refine ⟨fun u hu => ?_, fun u hu => ?_, fun u v hm => ?_, fun u v hm ht => ?_⟩
  · exact ⟨(congrArg unused (hold u hu)).trans hu, congrArg exit (hold u hu),
      congrArg joinable (hold u hu)⟩
  · by_cases hr : r = .ok u
    · obtain ⟨-, m, hv⟩ := h.fresh u hr
      exact .inr (congrArg exit hv)
    · rcases h.others u hr with hv | hv
      · exact .inl ((congrArg unused hv).trans hu)
      · exact .inl hv.2
  · exact h.lists (.joinList u) rfl ▸ hm
  · exact ⟨(h.lists (.joinList u) rfl).symm ▸ hm, (congrArg timed (hold v (hlive u v hm))).trans ht⟩

theorem spares_of_onlyUnused (h : OnlyUnused k k')
    (hlive : ∀ u v, v ∈ k.lists (.joinList u) → (k.status v).unused = false) : Spares k k' :=
  -- as far as the views go, a creation that fails
  spares_of_creates (p := ⟨none, 0, 0, 0, none, false⟩) (r := .error .nok) h.creates hlive

theorem spares_of_wakes (h : Wakes t k k') (ht : (k.taskCB t).view.timed) : Spares k k' := by
  refine .of_view (fun u => ?_) (fun u v hm => ?_) fun u v hm hv => ?_
  · obtain ⟨p, d, hv⟩ := h.view u
    exact ⟨_, _, _, _, hv⟩
  · rw [h.lists (.joinList u) rfl] at hm
    exact List.mem_of_mem_erase hm
  · have hne : v ≠ t := by
      rintro rfl
      exact absurd (hv.symm.trans ht) (by simp)
    rw [h.lists (.joinList u) rfl, List.mem_erase_of_ne hne]
    exact ⟨hm, (congrArg timed (h.others v hne)).trans hv⟩

theorem timed_of_freeze (h : InvWith c pm run k) (ht : t < c.taskMaxNum)
    (hf : (k.status t).freeze) (hp : (k.status t).pend) : (k.taskCB t).view.timed := by
  obtain ⟨_, _, hok⟩ := h.task t ht
  have hd := hok.status.pend hp
  have hw := (hok.status.freeze hf).2.2
  simp_all

theorem spares_of_effect {op : TaskOp} (h : RunInv c pm k) (he : Effect c op k k')
    (hd : ∀ t, op ≠ .taskDelete t) : Spares k k' := by
  have hinv := h.sched.1
  cases he with
  | quiet _ hq => exact spares_of_quiet hq
  | expires _ hx => exact spares_of_expires hx fun u v hm => (hinv.pend_of_mem rfl hm).2.1
  | creates p r _ hc => exact spares_of_creates hc fun u v hm => (hinv.pend_of_mem rfl hm).2.2.1
  | deletes t hop => exact absurd hop (hd t)
  | reprioritises t p _ hr => exact spares_of_reprioritises hr
  | thaws t ht hf hp hw => exact spares_of_wakes hw (timed_of_freeze hinv ht hf hp)

/-! ## The invariant -/

/-- Finished tasks are joinable. The target of a call has not been recycled, and it has finished
unless the call waits for it; no two calls have the same target. -/
structure Inv (c : Config) (s : JoinSys) : Prop where
  run : RunInv c True s.k
  finished : ∀ t < c.taskMaxNum, (s.k.status t).unused = false → (s.k.status t).exit →
    (s.k.status t).joinable
  joiner : ∀ v call, s.joins v = some call →
    v < c.taskMaxNum ∧ (s.k.status v).unused = false ∧ (s.k.status v).exit = false
  target : ∀ v call, s.joins v = some call → call.target < c.taskMaxNum ∧
    call.target ≠ s.k.idleTaskID ∧ (s.k.status call.target).unused = false ∧
    (s.k.status call.target).joinable ∧
    (v ∈ s.k.lists (.joinList call.target) ∨ (s.k.status call.target).exit)
  unique : ∀ u v call call', s.joins u = some call → s.joins v = some call' →
    call.target = call'.target → u = v
  member : ∀ t v, v ∈ s.k.lists (.joinList t) →
    (∃ call, s.joins v = some call ∧ call.target = t) ∧ (s.k.taskCB v).view.timed = false

theorem Inv.init (h : losKernelInit c swtmrStack idleStack = (k, .ok)) : Inv c { k := k } where
  run := .of_losKernelInit h
  finished t _ hu hx := by
    have hf := ((booted_of_losKernelInit True h).fresh.tasks t hu).1
    exact absurd (hf.symm.trans hx) (by simp)
  joiner _ _ hv := nomatch hv
  target _ _ hv := nomatch hv
  unique _ _ _ _ hv := nomatch hv
  member t v hm := by
    have hb := booted_of_losKernelInit True h
    obtain ⟨-, hp, hu, -⟩ := hb.inv.1.pend_of_mem rfl hm
    exact absurd ((hb.fresh.tasks v hu).2.1.symm.trans hp) (by simp)

theorem Inv.spares (h : Inv c s) (hrun : RunInv c True k') (hi : k'.idleTaskID = s.k.idleTaskID)
    (hs : Spares s.k k') : Inv c { s with k := k' } where
  run := hrun
  finished t ht hu hx := by
    cases hu₀ : (s.k.status t).unused with
    | true => rcases hs.fresh t hu₀ with hf | hf <;> simp_all
    | false =>
      obtain ⟨-, hx', hj'⟩ := hs.kept t hu₀
      exact hj'.trans (h.finished t ht hu₀ (hx'.symm.trans hx))
  joiner v call hv := by
    obtain ⟨hlt, hu, hx⟩ := h.joiner v call hv
    obtain ⟨hu', hx', -⟩ := hs.kept v hu
    exact ⟨hlt, hu', hx'.trans hx⟩
  target v call hv := by
    obtain ⟨hlt, hne, hu, hj, hw⟩ := h.target v call hv
    obtain ⟨hu', hx', hj'⟩ := hs.kept _ hu
    refine ⟨hlt, hi ▸ hne, hu', hj'.trans hj, hw.imp (fun hm => ?_) hx'.trans⟩
    exact (hs.waits _ v hm (h.member _ v hm).2).1
  unique := h.unique
  member t v hm := by
    obtain ⟨hcall, ht⟩ := h.member t v (hs.joinList t v hm)
    exact ⟨hcall, (hs.waits t v (hs.joinList t v hm) ht).2⟩

theorem Inv.task {op : TaskOp} (h : Inv c s) (hd : ∀ t, op ≠ .taskDelete t)
    (he : op.Enabled c s.k) (hp : op.Proper c True s.k) : Inv c { s with k := op.exec c s.k } :=
  h.spares (h.run.exec he hp) (h.run.exec_globals he hp).1
    (spares_of_effect h.run (h.run.sched.effect h.run.join he hp) hd)

theorem Inv.recycleFinishedTask (h : Inv c s) :
    Inv c { s with k := s.k.osRecycleFinishedTask } := by
  obtain ⟨hinv, hun⟩ := h.run.sched.1.osRecycleFinishedTask
  have hsame := osRecycleFinishedTask_same (k := s.k)
  exact h.spares (h.run.of_same hsame hinv (h.run.join.of_onlyUnused hun)) hsame.idleTaskID
    (spares_of_onlyUnused hun fun u v hm => (h.run.sched.1.pend_of_mem rfl hm).2.2.1)

/-! ## Deletion -/

theorem osTaskJoinPostUnsafe_view : ∃ p d, ((k.osTaskJoinPostUnsafe c t).taskCB u).view =
    { (k.taskCB u).view with pend := p, timed := d } := by
  simp only [osTaskJoinPostUnsafe]
  split_ifs
  · split
    · exact ⟨_, _, rfl⟩
    · exact wakes_osSchedTaskWake.view u
  · exact ⟨_, _, rfl⟩

theorem osSchedTaskExit_status : ((k.osSchedTaskExit t).status t).unused = (k.status t).unused ∧
    ((k.osSchedTaskExit t).status t).joinable = (k.status t).joinable ∧
    ((k.osSchedTaskExit t).status t).exit := by
  have hleave : ((k.leaveList t).status t).unused = (k.status t).unused ∧
      ((k.leaveList t).status t).joinable = (k.status t).joinable := by
    unfold leaveList
    split_ifs <;> simp [osSchedTaskDeQueue_taskCB]
  simp only [osSchedTaskExit]
  split_ifs <;> simp [osDeleteSortLink_taskCB, hleave]

/-- What is left of a control block: a joinable one is kept, any other goes to the free list. -/
structure Leaves (t : TaskID) (k k' : Sched) : Prop where
  kept : (k.status t).joinable → (k'.status t).unused = (k.status t).unused ∧
    (k'.status t).joinable ∧ (k'.status t).exit = (k.status t).exit
  free : (k.status t).joinable = false → (k'.status t).unused

theorem leaves_osRecycleTaskResources : Leaves t k (k.osRecycleTaskResources t) := by
  obtain ⟨top, free, hcb⟩ := freeStack_taskCB (k := k) (t := t)
  constructor <;> intro hj
  · simp [osRecycleTaskResources, hcb, hj]
  · simp [osRecycleTaskResources, hcb, hj, osInsertTCBToFreeList]

theorem leaves_finishDelete (ht : t ≠ c.taskMaxNum) : Leaves t k (finishDelete c k t) := by
  have hrec := leaves_osRecycleTaskResources (t := t)
    (k := k.modifyTCB t fun cb => { cb with eventMask := 0 })
  simp only [finishDelete]
  split_ifs with hr hj
  · exact ⟨fun hj' => by simp [hj'] at hj, fun _ => by simp [osRunningTaskDelete, ht]⟩
  · exact ⟨fun hj' => by simpa using hj', fun hj' => by simp [hj'] at hj⟩
  · exact ⟨fun hj' => by simpa using hrec.kept (by simpa using hj'),
      fun hj' => hrec.free (by simpa using hj')⟩

theorem losTaskDelete_eq (h : (k.losTaskDelete c t).2 = .ok) : ∃ l, (k.losTaskDelete c t).1 =
    finishDelete c ((({ k with losTaskLock := l } : Sched).osTaskJoinPostUnsafe c t).osSchedTaskExit
      t) t := by
  simp only [losTaskDelete] at h ⊢
  split_ifs at h ⊢
  · exact absurd h ‹_›
  · exact ⟨0, rfl⟩
  · exact ⟨k.losTaskLock, rfl⟩

theorem losTaskDelete_status (h : (k.losTaskDelete c t).2 = .ok) (ht : t ≠ c.taskMaxNum) :
    ((k.status t).joinable → ((k.losTaskDelete c t).1.status t).unused = (k.status t).unused ∧
      ((k.losTaskDelete c t).1.status t).joinable ∧ ((k.losTaskDelete c t).1.status t).exit) ∧
    ((k.status t).joinable = false → ((k.losTaskDelete c t).1.status t).unused) := by
  obtain ⟨l, hl⟩ := losTaskDelete_eq h
  obtain ⟨p, d, hv⟩ := osTaskJoinPostUnsafe_view
  rw [hl]
  generalize ({ k with losTaskLock := l } : Sched).osTaskJoinPostUnsafe c t = k₁ at hv ⊢
  obtain ⟨hu, hj, hx⟩ := osSchedTaskExit_status
  have hu' : (k₁.status t).unused = (k.status t).unused := congrArg unused hv
  have hj' : (k₁.status t).joinable = (k.status t).joinable := congrArg joinable hv
  obtain ⟨hkept, hfree⟩ := leaves_finishDelete ht
  rw [hj, hj', hu, hu', hx] at hkept
  rw [hj, hj'] at hfree
  exact ⟨hkept, hfree⟩

theorem view_of_deleted (hj : JoinPosts t k k₁) (hd : Deletes c t k₁ k') (hu : u ≠ t)
    (hm : u < c.taskMaxNum) : ∃ p d, (k'.taskCB u).view =
      { (k.taskCB u).view with pend := p, timed := d } := by
  rw [hd.others u hu hm.ne]
  cases hj with
  | none hq => exact ⟨_, _, hq.view u⟩
  | one j _ hw => exact hw.view u

/-- Deleting `t` lets the task that waits for it go on, and leaves the other waits for tasks to
finish alone. -/
theorem Inv.joinList_of_deleted (h : Inv c s) (hj : JoinPosts t s.k k₁)
    (hd : Deletes c t k₁ k') (hut : u ≠ t) (hvt : v ≠ t) (hm : v ∈ s.k.lists (.joinList u)) :
    v ∈ k'.lists (.joinList u) := by
  rw [hd.lists _ rfl, List.mem_erase_of_ne hvt]
  cases hj with
  | none hq => exact (hq.lists (.joinList u) rfl).symm ▸ hm
  | one j hjm hw =>
    have hne : v ≠ j := by
      rintro rfl
      obtain ⟨call, hcall, rfl⟩ := (h.member t v hjm).1
      obtain ⟨call', hcall', rfl⟩ := (h.member _ v hm).1
      exact hut (congrArg JoinCall.target (Option.some.inj (hcall'.symm.trans hcall)))
    rwa [hw.lists _ rfl, List.mem_erase_of_ne hne]

theorem Inv.taskDelete (h : Inv c s) (hp : (TaskOp.taskDelete t).Proper c True s.k) :
    Inv c (exec c s (.task (.taskDelete t))) := by
  have hrun : RunInv c True ((TaskOp.taskDelete t).exec c s.k) := h.run.exec trivial hp
  have hidle := (losTaskDelete_globals (c := c) (k := s.k) (t := t)).idleTaskID
  have hst := losTaskDelete_status (c := c) (k := s.k) (t := t)
  have hspec : DeleteSpec c t s.k (s.k.losTaskDelete c t).1 (s.k.losTaskDelete c t).2 :=
    (h.run.sched.losTaskDelete hp rfl).2
  simp only [exec, TaskOp.exec] at hrun ⊢
  generalize (s.k.losTaskDelete c t).1 = k' at hrun hidle hst hspec
  generalize (s.k.losTaskDelete c t).2 = e at hst hspec
  cases hspec with
  | refused _ he hk =>
    subst hk
    simpa [leave, he] using h
  | deleted k₁ _ ht _ _ hj hd =>
    obtain ⟨hkept, hfree⟩ := hst rfl ht.ne
    have hother : ∀ u < c.taskMaxNum, u ≠ t → (k'.status u).unused = (s.k.status u).unused ∧
        (k'.status u).exit = (s.k.status u).exit ∧
        (k'.status u).joinable = (s.k.status u).joinable := fun u hm hne => by
      obtain ⟨p, d, hv⟩ := view_of_deleted hj hd hne hm
      exact ⟨congrArg unused hv, congrArg exit hv, congrArg joinable hv⟩
    have hold : ∀ v call, s.leave t .ok v = some call → v ≠ t ∧ s.joins v = some call := by
      intro v call hv
      have hne : v ≠ t := by
        rintro rfl
        simp [leave] at hv
      exact ⟨hne, by simpa [leave, hne] using hv⟩
    refine ⟨hrun, fun u hm hun hxu => ?_, fun v call hv => ?_, fun v call hv => ?_,
      fun u v call call' hcu hcv => ?_, fun u v hm => ?_⟩
    · by_cases hut : u = t
      · subst hut
        cases hjn : (s.k.status u).joinable with
        | true => exact (hkept hjn).2.1
        | false => exact absurd (hun.symm.trans (hfree hjn)) (by simp)
      · obtain ⟨hu', hx', hj'⟩ := hother u hm hut
        exact hj'.trans (h.finished u hm (hu'.symm.trans hun) (hx'.symm.trans hxu))
    · obtain ⟨hne, hv⟩ := hold v call hv
      obtain ⟨hlt, huv, hxv⟩ := h.joiner v call hv
      obtain ⟨hu', hx', -⟩ := hother v hlt hne
      exact ⟨hlt, hu'.trans huv, hx'.trans hxv⟩
    · obtain ⟨hne, hv⟩ := hold v call hv
      obtain ⟨hlt, hni, hun, hjn, hw⟩ := h.target v call hv
      by_cases hct : call.target = t
      · rw [hct] at hlt hni hun hjn ⊢
        obtain ⟨hu', hj', hx'⟩ := hkept hjn
        exact ⟨hlt, hidle ▸ hni, hu'.trans hun, hj', .inr hx'⟩
      · obtain ⟨hu', hx', hj'⟩ := hother _ hlt hct
        exact ⟨hlt, hidle ▸ hni, hu'.trans hun, hj'.trans hjn,
          hw.imp (h.joinList_of_deleted hj hd hct hne) hx'.trans⟩
    · exact h.unique u v call call' (hold u call hcu).2 (hold v call' hcv).2
    · have hpend := (hrun.sched.1.pend_of_mem rfl hm).2.1
      have hvt : v ≠ t := by
        rintro rfl
        exact absurd (hpend.symm.trans hd.pend) (by simp)
      have hlt := hrun.sched.1.linked.bound _ _ hm
      have hview := hd.others v hvt hlt.ne
      rw [hd.lists _ rfl, List.mem_erase_of_ne hvt] at hm
      have hkeep : v ∈ s.k.lists (.joinList u) ∧ (k₁.taskCB v).view = (s.k.taskCB v).view := by
        cases hj with
        | none hq => exact ⟨hq.lists (.joinList u) rfl ▸ hm, hq.view v⟩
        | one j _ hw =>
          have hne : v ≠ j := by
            rintro rfl
            have hpv := (congrArg pend hview).trans (congrArg pend hw.self)
            exact absurd (hpend.symm.trans hpv) (by simp)
          rw [hw.lists _ rfl, List.mem_erase_of_ne hne] at hm
          exact ⟨hm, hw.others v hne⟩
      obtain ⟨⟨call, hcall, hct⟩, htv⟩ := h.member u v hkeep.1
      exact ⟨⟨call, by simpa [leave, hvt] using hcall, hct⟩,
        (congrArg timed (hview.trans hkeep.2)).trans htv⟩

/-! ## Joining and detaching -/

/-- What `LOS_TaskJoin` and `LOS_TaskDetach` do up to the `LOS_Schedule`. -/
inductive JoinSpec (c : Config) (t : TaskID) (intActive : Bool) (k : Sched) :
    Sched × Option Errno → Prop
  | refused (e : Errno) : JoinSpec c t intActive k (k, some e)
  | detached (ht : t < c.taskMaxNum) (hx : (k.status t).exit = false)
      (hl : k.lists (.joinList t) = []) :
      JoinSpec c t intActive k (k.setStatus t fun s => { s with joinable := false }, some .ok)
  | waits (hint : intActive = false) (hi : t ≠ k.idleTaskID) (ht : t < c.taskMaxNum)
      (hu : (k.status t).unused = false) (hx : (k.status t).exit = false)
      (hj : (k.status t).joinable) (hl : k.lists (.joinList t) = []) :
      JoinSpec c t intActive k (k.osSchedTaskWait (.joinList t) losWaitForever, none)
  | finished (hint : intActive = false) (hi : t ≠ k.idleTaskID) (ht : t < c.taskMaxNum)
      (hu : (k.status t).unused = false) (hx : (k.status t).exit) :
      JoinSpec c t intActive k (k, none)

theorem joinSpec_losTaskJoin (c : Config) (k : Sched) (t : TaskID) (intActive : Bool) :
    JoinSpec c t intActive k (k.losTaskJoin c t intActive) := by
  simp only [losTaskJoin, osTaskJoinPendUnsafe]
  split_ifs with hid hint hlock hself hu hx hj
  · exact .refused _
  · exact .refused _
  · exact .refused _
  · exact .refused _
  · exact .refused _
  all_goals obtain ⟨hi, ht⟩ := osCheckTaskIDValid_ok (not_not.mp hid)
  · exact .finished (by simpa using hint) hi ht (by simpa using hu) hx
  · exact .waits (by simpa using hint) hi ht (by simpa using hu) (by simpa using hx) hj.1 hj.2
  · exact .refused _

theorem joinSpec_losTaskDetach (c : Config) (k : Sched) (t : TaskID) (intActive : Bool) :
    JoinSpec c t intActive k (k.losTaskDetach c t intActive) := by
  simp only [losTaskDetach, osTaskSetDetachUnsafe]
  split_ifs with hid hint hu hx hj hl
  iterate 3 exact .refused _
  · exact joinSpec_losTaskJoin c k t intActive
  · obtain ⟨-, ht⟩ := osCheckTaskIDValid_ok (not_not.mp hid)
    exact .detached ht (by simpa using hx) hl
  all_goals exact .refused _

theorem Inv.target_ne (h : Inv c s) (hx : (s.k.status t).exit = false)
    (hl : s.k.lists (.joinList t) = []) (hv : s.joins v = some call) : call.target ≠ t := by
  rintro rfl
  rcases (h.target v call hv).2.2.2.2 with hm | hx'
  · simp [hl] at hm
  · exact absurd (hx.symm.trans hx') (by simp)

theorem placed_detach {cb : TaskCB} {o : Option ListHead} (h : Placed idle cb o) :
    Placed idle { cb with taskStatus := { cb.taskStatus with joinable := false } } o := by
  cases o with
  | none => exact h
  | some i => cases i <;> simp_all [Placed]

theorem invWith_detach (h : InvWith c pm run k) (ht : t < c.taskMaxNum) :
    InvWith c pm run (k.setStatus t fun st => { st with joinable := false }) := by
  obtain ⟨o, ho, hok⟩ := h.task t ht
  refine ((h.around ht).setStatus _).close ⟨o, ho, ?_⟩
  rw [setStatus_taskCB, update_self]
  have hst := hok.status
  exact ⟨hok.id, hok.priority, ⟨hst.ready, hst.pendTime, hst.pend, hst.gone, hst.freeze⟩,
    placed_detach hok.placed, hok.linked, hok.response, hok.running, hok.live, hok.freeze, hok.idle⟩

theorem ne_runTask_of_mem (h : InvWith c pm run k) (he : Executing c k)
    (hm : v ∈ k.lists (.joinList u)) : v ≠ k.runTask := by
  rintro rfl
  exact absurd ((h.pend_of_mem rfl hm).2.1.symm.trans he.pend) (by simp)

section

variable (h : Inv c s)
include h

/-- The control block of a task that nobody waits for changes, and calls for it end. -/
theorem Inv.changes {joins : TaskID → Option JoinCall} (hsame : Same s.k k')
    (hinv : InvWith c True (some s.k.runTask) k')
    (hlists : ∀ u, k'.lists (.joinList u) = s.k.lists (.joinList u))
    (hother : ∀ u ≠ t, k'.taskCB u = s.k.taskCB u) (hnil : s.k.lists (.joinList t) = [])
    (hself : (k'.status t).unused ∨ (k'.status t).exit = false)
    (hjoins : ∀ v call, joins v = some call → s.joins v = some call ∧ call.target ≠ t)
    (hjoiner : ∀ call, joins t = some call →
      (k'.status t).unused = false ∧ (k'.status t).exit = false)
    (hmem : ∀ u v, v ∈ s.k.lists (.joinList u) →
      joins v = s.joins v ∧ (k'.taskCB v).view.timed = (s.k.taskCB v).view.timed) :
    Inv c { k := k', joins := joins } := by
  refine ⟨h.run.of_same hsame hinv ?_, fun u hu hun hxu => ?_, fun v call hv => ?_,
    fun v call hv => ?_, fun u v call call' hcu hcv => ?_, fun u v hm => ?_⟩
  · refine h.run.join.mono (fun u => by rw [hlists]) fun u hne hu hxu hj => ?_
    have hut : u ≠ t := by
      rintro rfl
      exact hne (by rw [hlists, hnil])
    simpa only [status, hother u hut] using ⟨hu, hxu, hj⟩
  · have hut : u ≠ t := by
      rintro rfl
      rcases hself with hs | hs
      · exact absurd (hun.symm.trans hs) (by simp)
      · exact absurd (hxu.symm.trans hs) (by simp)
    simp only [status, hother u hut] at hun hxu ⊢
    exact h.finished u hu hun hxu
  · obtain ⟨hlt, hu, hxv⟩ := h.joiner v call (hjoins v call hv).1
    by_cases hvt : v = t
    · subst hvt
      exact ⟨hlt, hjoiner call hv⟩
    · exact ⟨hlt, by rwa [status, hother v hvt], by rwa [status, hother v hvt]⟩
  · obtain ⟨hv, hne⟩ := hjoins v call hv
    simp only [status, hother _ hne, hlists, hsame.idleTaskID]
    exact h.target v call hv
  · exact h.unique u v call call' (hjoins u call hcu).1 (hjoins v call' hcv).1
  · rw [hlists] at hm
    obtain ⟨⟨call, hcall, hct⟩, htv⟩ := h.member u v hm
    obtain ⟨hv, htimed⟩ := hmem u v hm
    exact ⟨⟨call, hv.trans hcall, hct⟩, htimed.trans htv⟩

theorem Inv.detached (ht : t < c.taskMaxNum) (hx : (s.k.status t).exit = false)
    (hl : s.k.lists (.joinList t) = []) :
    Inv c { s with k := s.k.setStatus t fun st => { st with joinable := false } } := by
  have hview (v) : ((s.k.setStatus t fun st => { st with joinable := false }).taskCB v).view.timed =
      (s.k.taskCB v).view.timed := by
    by_cases hvt : v = t
    · subst hvt
      simp
    · simp [hvt]
  exact h.changes (Same.setStatus ..) (invWith_detach h.run.sched.1 ht) (fun _ => rfl)
    (fun u hne => by simp [hne]) hl (.inr (by simpa using hx))
    (fun v call hv => ⟨hv, h.target_ne hx hl hv⟩)
    (fun call hv => by simpa using (h.joiner t call hv).2) fun u v _ => ⟨rfl, hview v⟩

theorem Inv.enter (he : Executing c s.k) (hrun : RunInv c True k')
    (hi : k'.idleTaskID = s.k.idleTaskID)
    (hv : ∀ u, ∃ p d, (k'.taskCB u).view = { (s.k.taskCB u).view with pend := p, timed := d })
    (hkeep : ∀ u v, v ∈ s.k.lists (.joinList u) → v ∈ k'.lists (.joinList u) ∧
      (k'.taskCB v).view = (s.k.taskCB v).view)
    (hnew : ∀ u v, v ∈ k'.lists (.joinList u) → v ∈ s.k.lists (.joinList u) ∨
      v = s.k.runTask ∧ u = t ∧ (k'.taskCB v).view.timed = false)
    (ht : t < c.taskMaxNum) (hne : t ≠ s.k.idleTaskID) (hu : (s.k.status t).unused = false)
    (hj : (s.k.status t).joinable) (hw : s.k.runTask ∈ k'.lists (.joinList t) ∨ (s.k.status t).exit)
    (hfree : ∀ v call, s.joins v = some call → call.target ≠ t) : Inv c (s.enter t (k', none)) := by
  have hst : ∀ u, (k'.status u).unused = (s.k.status u).unused ∧
      (k'.status u).exit = (s.k.status u).exit ∧
      (k'.status u).joinable = (s.k.status u).joinable := fun u => by
    obtain ⟨p, d, hv⟩ := hv u
    exact ⟨congrArg unused hv, congrArg exit hv, congrArg joinable hv⟩
  have hold : ∀ v call, (s.enter t (k', none)).joins v = some call →
      (v = s.k.runTask ∧ call.target = t) ∨ s.joins v = some call := by
    intro v call hv
    by_cases hvr : v = s.k.runTask
    · subst hvr
      simp only [JoinSys.enter, update_self, Option.some_inj] at hv
      exact .inl ⟨rfl, hv ▸ rfl⟩
    · simp only [JoinSys.enter, update_of_ne hvr] at hv
      exact .inr hv
  refine ⟨hrun, fun u hm hun hxu => ?_, fun v call hv => ?_, fun v call hv => ?_,
    fun u v call call' hcu hcv he => ?_, fun u v hm => ?_⟩
  · obtain ⟨hu', hx', hj'⟩ := hst u
    exact hj'.trans (h.finished u hm (hu'.symm.trans hun) (hx'.symm.trans hxu))
  · obtain ⟨hu', hx', -⟩ := hst v
    rcases hold v call hv with ⟨rfl, -⟩ | hv
    · exact ⟨he.lt, hu'.trans he.unused, hx'.trans he.exit⟩
    · obtain ⟨hlt, hun, hxv⟩ := h.joiner v call hv
      exact ⟨hlt, hu'.trans hun, hx'.trans hxv⟩
  · obtain ⟨hu', hx', hj'⟩ := hst call.target
    rcases hold v call hv with ⟨rfl, hct⟩ | hv
    · rw [hct] at hu' hx' hj' ⊢
      exact ⟨ht, hi.symm ▸ hne, hu'.trans hu, hj'.trans hj, hw.imp_right hx'.trans⟩
    · obtain ⟨hlt, hni, hun, hjn, hwt⟩ := h.target v call hv
      exact ⟨hlt, hi.symm ▸ hni, hu'.trans hun, hj'.trans hjn,
        hwt.imp (fun hm => (hkeep _ v hm).1) hx'.trans⟩
  · rcases hold u call hcu, hold v call' hcv with ⟨⟨rfl, hct⟩ | hcu, ⟨rfl, hct'⟩ | hcv⟩
    · rfl
    · exact absurd (he.symm.trans hct) (hfree v call' hcv)
    · exact absurd (he.trans hct') (hfree u call hcu)
    · exact h.unique u v call call' hcu hcv he
  · rcases hnew u v hm with hm | ⟨rfl, rfl, htv⟩
    · obtain ⟨⟨call, hcall, hct⟩, htv⟩ := h.member u v hm
      have hvr := ne_runTask_of_mem h.run.sched.1 he hm
      exact ⟨⟨call, by simpa [JoinSys.enter, hvr] using hcall, hct⟩,
        (congrArg timed (hkeep u v hm).2).trans htv⟩
    · exact ⟨⟨⟨u, s.k.creations u⟩, by simp [JoinSys.enter], rfl⟩, htv⟩

theorem Inv.waits (he : Executing c s.k) (ht : t < c.taskMaxNum)
    (hi : t ≠ s.k.idleTaskID) (hu : (s.k.status t).unused = false)
    (hx : (s.k.status t).exit = false) (hj : (s.k.status t).joinable)
    (hl : s.k.lists (.joinList t) = []) :
    Inv c (s.enter t (s.k.osSchedTaskWait (.joinList t) losWaitForever, none)) := by
  have hinv := h.run.sched.1
  have hb : Blocks (.joinList t) s.k (s.k.osSchedTaskWait (.joinList t) losWaitForever) :=
    blocks_osSchedTaskWait
  have hsame := osSchedTaskWait_same (k := s.k) (i := .joinList t) (n := losWaitForever)
  have htimed : ((s.k.osSchedTaskWait (.joinList t) losWaitForever).taskCB
      s.k.runTask).view.timed = false := by
    obtain ⟨_, hcb⟩ := osSchedTaskWait_taskCB (k := s.k) (i := .joinList t) (n := losWaitForever)
    obtain ⟨_, _, hok⟩ := hinv.task _ he.lt
    have hpt := hok.status.pendTime_eq_false he.pend
    simp [hcb, hpt]
  have hlists : ∀ u ≠ t, (s.k.osSchedTaskWait (.joinList t) losWaitForever).lists (.joinList u) =
      s.k.lists (.joinList u) := fun u hut => hb.otherLists _ rfl fun e => hut (by cases e; rfl)
  have hwait : InvWith c True (some s.k.runTask)
      (s.k.osSchedTaskWait (.joinList t) losWaitForever) := hinv.osSchedTaskWait he rfl
  generalize s.k.osSchedTaskWait (.joinList t) losWaitForever = k'
    at hb hsame htimed hlists hwait ⊢
  have hone : k'.lists (.joinList t) = [s.k.runTask] := by rw [hb.lists, hl, List.nil_append]
  have hjoin : JoinInv k' := by
    constructor
    · intro u hne
      obtain ⟨p, d, hv⟩ := hb.view u
      have hold : (s.k.status u).unused = false ∧ (s.k.status u).exit = false ∧
          (s.k.status u).joinable := by
        by_cases hut : u = t
        · exact hut ▸ ⟨hu, hx, hj⟩
        · exact h.run.join.live u (hlists u hut ▸ hne)
      exact ⟨(congrArg unused hv).trans hold.1, (congrArg exit hv).trans hold.2.1,
        (congrArg joinable hv).trans hold.2.2⟩
    · intro u
      by_cases hut : u = t
      · rw [hut, hone]
        exact le_refl 1
      · exact hlists u hut ▸ h.run.join.one u
  refine h.enter he (h.run.of_same hsame hwait hjoin) hsame.idleTaskID hb.view (fun u v hm => ?_)
    (fun u v hm => ?_) ht hi hu hj (.inl ?_) fun v call hv => h.target_ne hx hl hv
  · have hut : u ≠ t := by
      rintro rfl
      simp [hl] at hm
    exact ⟨(hlists u hut).symm ▸ hm, hb.others v (ne_runTask_of_mem hinv he hm)⟩
  · by_cases hut : u = t
    · rw [hut, hone, List.mem_singleton] at hm
      exact .inr ⟨hm, hut, hm ▸ htimed⟩
    · exact .inl (hlists u hut ▸ hm)
  · simp [hone]

theorem Inv.join {intActive : Bool} (hr : JoinSpec c t intActive s.k r)
    (he : intActive = false → Executing c s.k ∧ s.joins s.k.runTask = none)
    (hc : (s.k.status t).exit →
      ∀ v < c.taskMaxNum, (s.joins v).map JoinCall.target ≠ some t) : Inv c (s.enter t r) := by
  cases hr with
  | refused => exact h
  | detached ht hx hl => exact h.detached ht hx hl
  | waits hint hi ht hu hx hj hl => exact h.waits (he hint).1 ht hi hu hx hj hl
  | finished hint hi ht hu hx =>
    refine h.enter (he hint).1 h.run rfl (fun u => ⟨_, _, rfl⟩) (fun u v hm => ⟨hm, rfl⟩)
      (fun u v hm => .inl hm) ht hi hu (h.finished t ht hu hx) (.inr hx) fun v call hv e => ?_
    exact hc hx v (h.joiner v call hv).1 (by simp [hv, e])

/-- The target of a call that goes on has finished, and nothing refers to it. -/
theorem Inv.finished_of_executing (he : Executing c s.k)
    (hv : s.joins s.k.runTask = some call) : (s.k.status call.target).exit := by
  exact (h.target _ call hv).2.2.2.2.resolve_left fun hm =>
    ne_runTask_of_mem h.run.sched.1 he hm rfl

end

theorem losTaskJoinReturn_taskCB_of_ne (hne : u ≠ t) :
    (k.losTaskJoinReturn t).taskCB u = k.taskCB u := by
  simp only [losTaskJoinReturn, osRecycleTaskResources]
  split_ifs <;> simp [osInsertTCBToFreeList, freeStack_taskCB_of_ne hne, hne]

theorem losTaskJoinReturn_lists {i : ListHead} (hi : i.isWait) :
    (k.losTaskJoinReturn t).lists i = k.lists i := by
  simp only [losTaskJoinReturn, osRecycleTaskResources]
  split_ifs
  · simp [osInsertTCBToFreeList, Rings.addHead_of_ne (isWait_ne (j := .losFreeTask) hi rfl)]
  · simp

theorem losTaskJoinReturn_unused : ((k.losTaskJoinReturn t).status t).unused :=
  (leaves_osRecycleTaskResources).free (by simp)

theorem Inv.taskJoinReturn (h : Inv c s) (he : Executing c s.k)
    (hv : s.joins s.k.runTask = some call) :
    Inv c { k := s.k.losTaskJoinReturn call.target
            joins := update s.joins s.k.runTask none } := by
  obtain ⟨ht, hi, hu, -, -⟩ := h.target _ call hv
  have hx := h.finished_of_executing he hv
  have hinv := h.run.sched.1
  obtain ⟨_, _, hok⟩ := hinv.task _ ht
  have hpt := hok.status.pendTime_eq_false (hok.status.gone (.inl hx)).1
  obtain ⟨hat, hsort⟩ := hinv.exited ht hx hu hpt
  have hrt : s.k.runTask ≠ call.target := fun e => by
    rw [← e] at hx
    exact absurd (hx.symm.trans he.exit) (by simp)
  have hsame : Same s.k (s.k.losTaskJoinReturn call.target) :=
    (Same.setStatus ..).trans osRecycleTaskResources_same
  have hnil : s.k.lists (.joinList call.target) = [] := by
    by_contra hne
    exact absurd ((h.run.join.live _ hne).2.1.symm.trans hx) (by simp)
  have hinv' : InvWith c True (some s.k.runTask) (s.k.losTaskJoinReturn call.target) :=
    ((hinv.around ht).setStatus _).osRecycleTaskResources (by simp [hok.id]) hi
      (fun e => hrt (Option.some.inj e)) hat hsort (by simp)
  refine h.changes hsame hinv' (fun u => losTaskJoinReturn_lists rfl)
    (fun u => losTaskJoinReturn_taskCB_of_ne) hnil (.inl losTaskJoinReturn_unused)
    (fun v call' hv' => ?_) (fun call' hc => ?_) fun u v hm => ?_
  · have hne : v ≠ s.k.runTask := by
      rintro rfl
      simp at hv'
    rw [update_of_ne hne] at hv'
    exact ⟨hv', fun e => hne (h.unique v _ call' call hv' hv e)⟩
  · rw [update_of_ne (Ne.symm hrt)] at hc
    exact absurd ((h.joiner _ call' hc).2.2.symm.trans hx) (by simp)
  · obtain ⟨-, -, -, hxv⟩ := hinv.pend_of_mem rfl hm
    have hvt : v ≠ call.target := by
      rintro rfl
      exact absurd (hxv.symm.trans hx) (by simp)
    exact ⟨update_of_ne (ne_runTask_of_mem hinv he hm) .., by
      rw [losTaskJoinReturn_taskCB_of_ne hvt]⟩

/-! ## Runs -/

theorem Inv.step (h : Inv c s) (he : Enabled c s op) (hc : Careful c s op) :
    Inv c (exec c s op) := by
  cases op with
  | task op =>
    cases op with
    | taskDelete => exact h.taskDelete hc
    | _ => exact h.task (by simp) he hc
  | taskJoin t intActive => exact h.join (joinSpec_losTaskJoin c s.k t intActive) he hc
  | taskDetach t intActive => exact h.join (joinSpec_losTaskDetach c s.k t intActive) he hc
  | taskJoinReturn =>
    obtain ⟨call, hv⟩ := Option.ne_none_iff_exists'.mp he.2
    simp only [exec, hv]
    exact h.taskJoinReturn he.1 hv
  | recycleFinishedTask => exact h.recycleFinishedTask

theorem Inv.of_reaches (h : ((machine c).restrict (Careful c)).Reaches s) : Inv c s :=
  h.invariant (fun _ ⟨_, _, _, hk, hs⟩ => hs ▸ .init hk) fun _ _ hinv ha => hinv.step ha.1 ha.2

/-- A task that has finished is on no ready queue, and `OsGetTopTask` does not choose it, whether it
is asked now or by the next task switch. -/
structure Retired (c : Config) (k : Sched) : Prop where
  unqueued : ∀ t p, (k.status t).exit → t ∉ k.lists (.priQueueList p)
  top : (k.status (osGetTopTask c k)).exit = false
  dispatch : ∀ currTime, (TaskOp.taskSwitch currTime).Enabled c k →
    ((halPendSV c k currTime).status (halPendSV c k currTime).newTask).exit = false

theorem exit_of_mem_priQueueList (h : SchedInv c pm k)
    (hm : t ∈ k.lists (.priQueueList p)) : (k.status t).exit = false := by
  obtain ⟨ht, -, hr, -⟩ := h.of_mem_priQueueList hm
  obtain ⟨_, _, hok⟩ := h.1.task t ht
  exact (hok.status.ready hr).2.2.2.1

theorem Inv.retired (h : Inv c s) : Retired c s.k where
  unqueued t p hx hm := absurd ((exit_of_mem_priQueueList h.run.sched hm).symm.trans hx) (by simp)
  top := (h.run.sched.1.osGetTopTask h.run.sched.2.1).2.2.2.2.2.1
  dispatch currTime he := by
    have hsched := h.run.sched
    have hpark := hsched.invWith_parked he.2
    have htop : ((parked c s.k currTime).status (topTask c s.k currTime)).exit = false :=
      (hpark.osGetTopTask (parked_same.idleTaskID.trans_lt hsched.2.1)).2.2.2.2.2.1
    rw [hsched.halPendSV_eq he.2]
    simpa [dispatch_newTask, dispatch_taskCB] using htop

/-- In runs of careful calls no finished task runs again. -/
theorem retired_of_reaches (h : ((machine c).restrict (Careful c)).Reaches s) : Retired c s.k :=
  (Inv.of_reaches h).retired

/-- A joinable task that was created suspended is deleted and joined, and its control block is used
again. -/
theorem retired_of_reaches_joined : ∃ s,
    ((machine smallConfig).restrict (Careful smallConfig)).Reaches s ∧
    s.k.creations 1 = 2 ∧ Retired smallConfig s.k := by
  have hr := (Machine.Reaches.start (M := (machine smallConfig).restrict (Careful smallConfig))
    ⟨smallBoot, 0, 1000, rfl, rfl⟩).run
    [.task (.taskCreateOnly (userTask 7 true) 2000), .task (.taskCreate (userTask 9 false) 3000),
      .task (.schedStart 0), .task (.taskDelete 1), .taskJoin 1 false, .task (.taskSwitch 10),
      .taskJoinReturn, .task (.taskCreate (userTask 5 false) 4000)] (by decide +kernel)
  exact ⟨_, hr, by decide +kernel, retired_of_reaches hr⟩

/-- `LOS_TaskResume` of a joinable task that was deleted while it was suspended: it is put on a
ready queue although it has finished, and the next switch runs it. -/
theorem resume_of_finished_task : ∃ s, (machine smallConfig).Reaches s ∧
    (s.k.status 1).exit = true ∧ 1 ∈ s.k.lists (.priQueueList 7) ∧
    osGetTopTask smallConfig s.k = 1 ∧ (halPendSV smallConfig s.k 10).runTask = 1 ∧
    s.k.creations 1 = 1 ∧ s.k.freeEntries 1 = 0 := by
  have hr := (Machine.Reaches.start (M := machine smallConfig)
    ⟨smallBoot, 0, 1000, rfl, rfl⟩).run
    [.task (.taskCreateOnly (userTask 7 true) 2000), .task (.taskCreate (userTask 9 false) 3000),
      .task (.schedStart 0), .task (.taskDelete 1), .task (.taskResume 1 5)] (by decide +kernel)
  exact ⟨_, hr, by decide +kernel⟩

/-- A task inside `LOS_TaskJoin` is alone on the join list of its target until the target finishes,
and then off it; meanwhile the target is not recycled. -/
theorem joiner_of_reaches (h : ((machine c).restrict (Careful c)).Reaches s)
    (hv : s.joins v = some call) :
    (s.k.status call.target).unused = false ∧ s.k.lists (.joinList call.target) =
        (if (s.k.status call.target).exit then [] else [v]) ∧
      ∀ u call', s.joins u = some call' → call'.target = call.target → u = v := by
  have hinv := Inv.of_reaches h
  obtain ⟨-, -, hu, -, hw⟩ := hinv.target v call hv
  refine ⟨hu, ?_, fun _ _ hu he => hinv.unique _ _ _ _ hu hv he⟩
  split_ifs with hx
  · by_contra hne
    simpa [hx] using (hinv.run.join.live _ hne).2.1
  · have hm := List.singleton_sublist.mpr (hw.resolve_right hx)
    exact (hm.eq_of_length_le (hinv.run.join.one _)).symm

theorem joiner_of_reaches_waiting : ∃ s,
    ((machine smallConfig).restrict (Careful smallConfig)).Reaches s ∧
    s.k.lists (.joinList 1) = [2] := by
  have hr := (Machine.Reaches.start (M := (machine smallConfig).restrict (Careful smallConfig))
    ⟨smallBoot, 0, 1000, rfl, rfl⟩).run
    [.task (.taskCreateOnly (userTask 7 true) 2000), .task (.taskCreate (userTask 9 false) 3000),
      .task (.schedStart 0), .taskJoin 1 false] (by decide +kernel)
  exact ⟨_, hr, (@joiner_of_reaches smallConfig _ 2 ⟨1, 1⟩ hr (by decide +kernel)).2.1.trans
    (by decide +kernel)⟩

end JoinSys

end LiteOS.Kernel
