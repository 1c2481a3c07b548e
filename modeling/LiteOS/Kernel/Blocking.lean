import LiteOS.Kernel.TaskOps
import LiteOS.Lib.Counting

/-!
# Calls that block

A blocking call is split at its `LOS_Schedule`: its first half links the running task into a wait
list, its second half runs when the task is dispatched again and reads the result of the wait from
`OS_TASK_STATUS_TIMEOUT`. `Calls` records which tasks are between the two halves, and since when;
`WaitInv` ties it to the control blocks. Each kind of object to wait for instantiates it.
-/

namespace LiteOS.Kernel

open Lib TaskView ListHead

/-- What a blocking call waits for determines the list that its task is linked into. -/
class Request (R : Type*) where
  head : R → ListHead
  isWait : ∀ r, (head r).isWait = true

/-- The blocking calls that tasks are inside, with the order in which they began to wait. -/
@[ext]
structure Calls (R : Type*) where
  pc : TaskID → Option R := fun _ => none
  since : TaskID → ℕ := fun _ => 0
  clock : ℕ := 0

namespace Calls

variable {R : Type*}

/-- Task `t` begins to wait. -/
@[simps]
def enter (w : Calls R) (t : TaskID) (r : R) : Calls R where
  pc := Function.update w.pc t (some r)
  since := Function.update w.since t w.clock
  clock := w.clock + 1

/-- The call of `t` returns, or ends with its task. -/
@[simps]
def leave (w : Calls R) (t : TaskID) : Calls R := { w with pc := Function.update w.pc t none }

end Calls

namespace Sched

variable {R : Type*} {c : Config} {pm : Prop} {run run' : Option TaskID} {k k' : Sched}
  {t u : TaskID} {r : R} {w w' : Calls R}

open Request (head)

/-! ## What happens around the calls -/

/-- A step that neither ends a wait other than by its timeout nor ends a task. -/
structure Env (k k' : Sched) : Prop where
  lists : ∀ i : ListHead, i.isWait →
    k'.lists i = (k.lists i).filter fun u => (k'.status u).pend
  unused : ∀ u, (k.status u).unused = false → (k'.status u).unused = false
  exit : ∀ u, (k.status u).unused = false → (k'.status u).exit = (k.status u).exit
  systemTask : ∀ u, (k.status u).unused = false →
    (k'.status u).systemTask = (k.status u).systemTask
  wait : ∀ u, (k.status u).unused = false →
    ((k'.status u).pend = (k.status u).pend ∧ (k'.status u).timeout = (k.status u).timeout) ∨
    ((k.status u).pend ∧ (k'.status u).pend = false ∧ (k'.status u).timeout)
  event : ∀ u, (k.status u).unused = false →
    (k'.taskCB u).eventMask = (k.taskCB u).eventMask ∧
      (k'.taskCB u).eventMode = (k.taskCB u).eventMode
  untimed : ∀ u, (k.status u).unused = false → (k.taskCB u).view.timed = false →
    (k'.taskCB u).view.timed = false ∧ (k'.status u).timeout = (k.status u).timeout
  fresh : ∀ u, (k.status u).unused → (k'.status u).unused ∨
    ((k'.status u).exit = false ∧ (k'.status u).pend = false ∧ (k'.status u).timeout = false)

variable {i : ListHead}

section

variable (h : InvWith c pm run k)
include h

theorem InvWith.pend_of_mem (hi : i.isWait) (hm : t ∈ k.lists i) :
    t < c.taskMaxNum ∧ (k.status t).pend ∧
      (k.status t).unused = false ∧ (k.status t).exit = false := by
  have ht := h.linked.bound _ _ hm
  obtain ⟨_, _, hok⟩ := h.task t ht
  have hp : (k.status t).pend := by
    by_contra hc
    exact h.notMem_wait hi (by simpa using hc) hm
  refine ⟨ht, hp, ?_, ?_⟩
  · by_contra hc
    simpa [show (k.taskCB t).taskStatus.pend = true from hp] using
      (hok.status.gone (.inr (by simpa using hc))).1
  · by_contra hc
    simpa [show (k.taskCB t).taskStatus.pend = true from hp] using
      (hok.status.gone (.inl (by simpa using hc))).1

/-- Steps that change no wait list, with the views of live tasks kept. -/
theorem InvWith.env_of_view (hl : ∀ i : ListHead, i.isWait → k'.lists i = k.lists i)
    (hv : ∀ u, (k.status u).unused = false → ∃ p, (k'.taskCB u).view =
      { (k.taskCB u).view with priority := p })
    (hf : ∀ u, (k.status u).unused → (k'.status u).unused ∨
      ((k'.status u).exit = false ∧ (k'.status u).pend = false ∧
        (k'.status u).timeout = false)) : Env k k' where
  lists i hi := by
    rw [hl i hi, eq_comm, List.filter_eq_self]
    intro u hu
    obtain ⟨-, hp, hun, -⟩ := h.pend_of_mem hi hu
    obtain ⟨p, he⟩ := hv u hun
    exact (congrArg pend he).trans hp
  unused u hu := by
    obtain ⟨p, he⟩ := hv u hu
    exact (congrArg unused he).trans hu
  exit u hu := by
    obtain ⟨p, he⟩ := hv u hu
    exact congrArg exit he
  systemTask u hu := by
    obtain ⟨p, he⟩ := hv u hu
    exact congrArg systemTask he
  wait u hu := by
    obtain ⟨p, he⟩ := hv u hu
    exact .inl ⟨congrArg pend he, congrArg timeout he⟩
  event u hu := by
    obtain ⟨p, he⟩ := hv u hu
    exact ⟨congrArg eventMask he, congrArg eventMode he⟩
  untimed u hu ht := by
    obtain ⟨p, he⟩ := hv u hu
    exact ⟨(congrArg timed he).trans ht, congrArg timeout he⟩
  fresh := hf

theorem InvWith.env_of_quiet (hq : Quiet k k') : Env k k' :=
  h.env_of_view hq.lists (fun u _ => ⟨_, hq.view u⟩)
    fun u hu => .inl ((congrArg unused (hq.view u)).trans hu)

end

theorem Expires.env (h : Expires k k') : Env k k' where
  lists := h.lists
  unused u hu := by
    rcases h.view u with hv | hv
    · exact (congrArg unused hv).trans hu
    · exact (congrArg unused hv.2).trans hu
  exit u hu := by
    rcases h.view u with hv | hv
    · exact congrArg exit hv
    · exact congrArg exit hv.2
  systemTask u hu := by
    rcases h.view u with hv | hv
    · exact congrArg systemTask hv
    · exact congrArg systemTask hv.2
  wait u hu := by
    rcases h.view u with hv | hv
    · exact .inl ⟨congrArg pend hv, congrArg timeout hv⟩
    · exact .inr ⟨pend_of_timed hv.1, congrArg pend hv.2, congrArg timeout hv.2⟩
  event u hu := by
    rcases h.view u with hv | hv
    · exact ⟨congrArg eventMask hv, congrArg eventMode hv⟩
    · exact ⟨congrArg eventMask hv.2, congrArg eventMode hv.2⟩
  untimed u hu ht := by
    rcases h.view u with hv | hv
    · exact ⟨(congrArg timed hv).trans ht, congrArg timeout hv⟩
    · exact absurd (ht.symm.trans hv.1) (by simp)
  fresh u hu := by
    rcases h.view u with hv | hv
    · exact .inl ((congrArg unused hv).trans hu)
    · exact .inl ((congrArg unused hv.2).trans hu)

theorem InvWith.env_of_creates {p : TaskInitParam} {res : Except Errno TaskID}
    (h : InvWith c pm run k) (hc : Creates p res k k') : Env k k' := by
  refine h.env_of_view hc.lists (fun u hu => ?_) fun u hu => ?_
  · have hne : res ≠ .ok u := fun e => by simpa [hu] using (hc.fresh u e).1
    rcases hc.others u hne with hv | hv
    · exact ⟨_, hv⟩
    · simp [hu] at hv
  · by_cases he : res = .ok u
    · obtain ⟨m, hv⟩ := (hc.fresh u he).2
      exact .inr ⟨congrArg exit hv, congrArg pend hv, congrArg timeout hv⟩
    · rcases hc.others u he with hv | hv
      · exact .inl ((congrArg unused hv).trans hu)
      · exact .inl hv.2

variable {p ticks n priority : ℕ}

theorem InvWith.env_of_reprioritises (h : InvWith c pm run k) (hr : Reprioritises t p k k') :
    Env k k' := by
  refine h.env_of_view hr.lists (fun u _ => hr.view u) fun u hu => ?_
  obtain ⟨p, he⟩ := hr.view u
  exact .inl ((congrArg unused he).trans hu)

/-- Operations that end no task and end waits only by their timeout. -/
def TaskOp.Gentle (k : Sched) : TaskOp → Prop
  | .taskDelete _ => False
  | .taskSuspend _ isPmMode => isPmMode = false
  | .taskResume t _ => (k.status t).running = false ∧ (k.status t).exit = false
  | _ => True

instance (k : Sched) (op : TaskOp) : Decidable (op.Gentle k) := by
  induction op using TaskOp.casesOn <;> unfold TaskOp.Gentle <;> infer_instance

variable {op : TaskOp}

theorem TaskOp.Gentle.proper (hg : op.Gentle k) : op.Proper c False k := by
  cases op with
  | taskDelete => exact hg.elim
  | taskSuspend => exact fun hpm => absurd (hg.symm.trans hpm) (by simp)
  | taskResume => exact fun _ _ => ⟨hg.2, fun hr => by simp [hg.1] at hr⟩
  | _ => trivial

/-- What a gentle operation does; it creates a task or changes a priority only if it says so. -/
structure EnvSpec (c : Config) (op : TaskOp) (k k' : Sched) : Prop where
  env : Env k k'
  priority : (∀ t p, op ≠ .taskPriSet t p) → ∀ u, (k.status u).unused = false →
    (k'.taskCB u).priority = (k.taskCB u).priority
  created : ∀ t p, op.newTask c k = some (t, p) → (k.status t).unused ∧
    (k'.status t).unused = false ∧ (k'.taskCB t).priority = p
  unused : ∀ u, (k.status u).unused → (∀ p, op.newTask c k ≠ some (u, p)) →
    (k'.status u).unused

theorem RunInv.envSpec (h : RunInv c False k) (hg : op.Gentle k) (he : Effect c op k k') :
    EnvSpec c op k k' := by
  have hinv := h.sched.1
  cases he with
  | quiet hop hq =>
    exact ⟨hinv.env_of_quiet hq, fun _ u _ => congrArg priority (hq.view u),
      fun t p ht => by simp [hop] at ht, fun u hu _ => (congrArg unused (hq.view u)).trans hu⟩
  | expires hop hx =>
    have hv : ∀ u, ∃ p d o, (k'.taskCB u).view =
        { (k.taskCB u).view with pend := p, timed := d, timeout := o } := fun u => by
      rcases hx.view u with hv | hv
      · exact ⟨_, _, _, hv⟩
      · exact ⟨_, _, _, hv.2⟩
    refine ⟨hx.env, fun _ u _ => ?_, fun t p ht => by simp [hop] at ht, fun u hu _ => ?_⟩
    · obtain ⟨p, d, o, hv⟩ := hv u
      exact congrArg priority hv
    · obtain ⟨p, d, o, hv⟩ := hv u
      exact (congrArg unused hv).trans hu
  | creates p r hop hc =>
    refine ⟨hinv.env_of_creates hc, fun _ u hu => ?_, fun t p' ht => ?_, fun u hu hne => ?_⟩
    · have hne : r ≠ .ok u := fun e => by simpa [hu] using (hc.fresh u e).1
      rcases hc.others u hne with hv | hv
      · exact congrArg priority hv
      · simp [hu] at hv
    · cases r with
      | error => simp [hop, Except.toOption] at ht
      | ok v =>
        obtain ⟨rfl, rfl⟩ : v = t ∧ p.usTaskPrio = p' := by
          simpa [hop, Except.toOption] using ht
        obtain ⟨hu, m, hv⟩ := hc.fresh v rfl
        exact ⟨hu, congrArg unused hv, congrArg priority hv⟩
    · have hr : r ≠ .ok u := by
        rintro rfl
        exact hne p.usTaskPrio (by simp [hop, Except.toOption])
      rcases hc.others u hr with hv | hv
      · exact (congrArg unused hv).trans hu
      · exact hv.2
  | deletes t hop => simp [hop, TaskOp.Gentle] at hg
  | reprioritises t p hop hr =>
    refine ⟨hinv.env_of_reprioritises hr, fun hne => absurd hop (hne t p),
      fun v p' hv => by simp [hop, TaskOp.newTask] at hv, fun u hu _ => ?_⟩
    by_cases hut : u = t
    · subst hut
      exact (congrArg unused hr.self).trans hu
    · exact (congrArg unused (hr.others u hut)).trans hu
  | thaws t ht hf => simpa [hf] using hinv.freeze_eq_false ht

theorem RunInv.gentle (h : RunInv c False k) (he : op.Enabled c k) (hg : op.Gentle k) :
    RunInv c False (op.exec c k) ∧ EnvSpec c op k (op.exec c k) := by
  have hp : op.Proper c False k := hg.proper
  exact ⟨h.exec he hp, h.envSpec hg (h.sched.effect h.join he hp)⟩

/-! ## Waiting and waking inside a run -/

variable {k₁ : Sched}

theorem Blocks.after_quiet (hq : Quiet k k₁) (hr : k₁.runTask = k.runTask) (hi : i.isWait)
    (hb : Blocks i k₁ k') : Blocks i k k' := by
  refine ⟨?_, fun j hj hne => ?_, ?_, fun u hu => ?_⟩
  · rw [hb.lists, hq.lists i hi, hr]
  · rw [hb.otherLists j hj hne, hq.lists j hj]
  · rw [← hr, hb.self, hq.view]
  · rw [hb.others u (hr.symm ▸ hu), hq.view]

theorem Wakes.after_quiet (hq : Quiet k k₁) (hw : Wakes t k₁ k') : Wakes t k k' :=
  ⟨fun i hi => (hw.lists i hi).trans (by rw [hq.lists i hi]), hw.self.trans (by rw [hq.view]),
    fun u hu => (hw.others u hu).trans (hq.view u)⟩

theorem Deletes.after_quiet (hq : Quiet k k₁) (hd : Deletes c t k₁ k') : Deletes c t k k' :=
  ⟨fun i hi => (hd.lists i hi).trans (by rw [hq.lists i hi]), hd.pend, hd.gone,
    fun u hu hm => (hd.others u hu hm).trans (hq.view u)⟩

variable {f : TaskCB → TaskCB}

/-- Writing to the fields that only inter-task communication uses. -/
theorem RunInv.note (h : RunInv c pm k)
    (hf : ∃ a b, f (k.taskCB t) = { k.taskCB t with taskSem := a, taskMux := b }) :
    RunInv c pm (k.modifyTCB t f) ∧ Quiet k (k.modifyTCB t f) := by
  obtain ⟨a, b, hf⟩ := hf
  have hq : Quiet k (k.modifyTCB t f) := .modifyTCB (by simp [TaskCB.view, hf])
  exact ⟨h.of_same (.modifyTCB ..) (InvWith.modifyTCB h.sched.1 (by rw [hf]) (by rw [hf])
    (by rw [hf]) (by rw [hf]; exact .refl _)) (h.join.of_quiet hq), hq⟩

theorem Executing.congr (h : Executing c k) (hr : k'.runTask = k.runTask)
    (hi : k'.idleTaskID = k.idleTaskID)
    (hst : (k'.taskCB k.runTask).taskStatus = (k.taskCB k.runTask).taskStatus) :
    Executing c k' := by
  constructor <;>
    simp [hr, hi, hst, h.lt, h.notIdle, h.pend, h.delay, h.suspend, h.exit, h.unused]

section

variable (h : RunInv c pm k) (he : Executing c k) (hi : i.isIpc)
include h he hi

theorem RunInv.wait : RunInv c pm (k.osSchedTaskWait i ticks) :=
  h.of_same osSchedTaskWait_same (h.sched.1.osSchedTaskWait he (isWait_of_isIpc hi))
    (h.join.of_blocks hi blocks_osSchedTaskWait)

theorem RunInv.block
    (hf : ∃ a b, f (k.taskCB k.runTask) = { k.taskCB k.runTask with taskSem := a, taskMux := b }) :
    RunInv c pm ((k.modifyTCB k.runTask f).osSchedTaskWait i n) ∧
      Blocks i k ((k.modifyTCB k.runTask f).osSchedTaskWait i n) := by
  obtain ⟨hrun, hq⟩ := h.note hf
  obtain ⟨a, b, hf⟩ := hf
  exact ⟨hrun.wait (he.congr rfl rfl (by simp [hf])) hi,
    .after_quiet hq rfl (isWait_of_isIpc hi) blocks_osSchedTaskWait⟩

end

theorem RunInv.wake (h : RunInv c pm k) (hi : i.isWait) (hm : t ∈ k.lists i)
    (hfz : (k.status t).freeze = false)
    (hf : ∃ a b, f (k.taskCB t) = { k.taskCB t with taskSem := a, taskMux := b }) :
    RunInv c pm ((k.modifyTCB t f).osSchedTaskWake c t) ∧
      Wakes t k ((k.modifyTCB t f).osSchedTaskWake c t) := by
  obtain ⟨ht, hpend, -⟩ := h.sched.1.pend_of_mem hi hm
  obtain ⟨hrun, hq⟩ := h.note hf
  obtain ⟨a, b, hf⟩ := hf
  have hw : Wakes t (k.modifyTCB t f) ((k.modifyTCB t f).osSchedTaskWake c t) :=
    wakes_osSchedTaskWake
  exact ⟨hrun.of_same osSchedTaskWake_same (hrun.sched.1.osSchedTaskWake ht
    (by simpa [hf] using hpend) (by simpa [hf] using hfz)) (hrun.join.of_wakes hw),
    .after_quiet hq hw⟩

theorem RunInv.reprioritise (h : RunInv c pm k) (ht : t < c.taskMaxNum) (hi : t ≠ k.idleTaskID)
    (hp : p ≤ taskPriorityLowest) : RunInv c pm (k.osSchedModifyTaskSchedParam c t p).1 ∧
      Reprioritises t p k (k.osSchedModifyTaskSchedParam c t p).1 := by
  have hr := h.sched.1.reprioritises_osSchedModifyTaskSchedParam (p := p) ht
  exact ⟨h.of_same osSchedModifyTaskSchedParam_same
    (h.sched.1.osSchedModifyTaskSchedParam ht hi hp) (h.join.of_reprioritises hr), hr⟩

theorem osSchedModifyTaskSchedParam_taskCB_of_ne (hu : u ≠ t) :
    (k.osSchedModifyTaskSchedParam c t priority).1.taskCB u = k.taskCB u := by
  simp only [osSchedModifyTaskSchedParam]
  split_ifs <;> simp [osSchedTaskEnQueue_taskCB_of_ne hu, hu, osSchedTaskDeQueue_taskCB_of_ne hu]

theorem Reprioritises.refl : Reprioritises t (k.taskCB t).priority k k :=
  ⟨fun _ _ => rfl, rfl, fun _ _ => rfl⟩

/-! ## Answered calls -/

/-- The call of `t` has been answered and will return `LOS_OK`. -/
def Granted (k : Sched) (w : Calls R) (t : TaskID) (r : R) : Prop :=
  w.pc t = some r ∧ (k.status t).pend = false ∧ (k.status t).timeout = false

instance [DecidableEq R] (k : Sched) (w : Calls R) (t : TaskID) (r : R) :
    Decidable (Granted k w t r) := by
  unfold Granted
  infer_instance

theorem granted_wakes_of_ne (hw : Wakes t k k') (hu : u ≠ t) :
    Granted k' w u r ↔ Granted k w u r := by
  have hv := hw.others u hu
  have hp : (k'.status u).pend = (k.status u).pend := congrArg pend hv
  have hto : (k'.status u).timeout = (k.status u).timeout := congrArg timeout hv
  simp only [Granted, hp, hto]

/-- The second half of a blocking call reads `OS_TASK_STATUS_TIMEOUT` and clears it. -/
def takeTimeout (k : Sched) (t : TaskID) : Sched × Bool :=
  if (k.status t).timeout then (k.setStatus t fun s => { s with timeout := false }, true)
  else (k, false)

theorem takeTimeout_snd : (k.takeTimeout t).2 = (k.status t).timeout := by
  simp only [takeTimeout]
  split_ifs with h
  · exact h.symm
  · simpa using h

theorem takeTimeout_lists : (k.takeTimeout t).1.lists = k.lists := by
  simp only [takeTimeout]
  split_ifs <;> rfl

theorem takeTimeout_taskCB : (k.takeTimeout t).1.taskCB t =
    { k.taskCB t with taskStatus := { k.status t with timeout := false } } := by
  simp only [takeTimeout]
  split_ifs with h
  · simp
  · have hto : (k.taskCB t).taskStatus.timeout = false := by simpa using h
    rw [← hto]

theorem takeTimeout_taskCB_of_ne (hu : u ≠ t) : (k.takeTimeout t).1.taskCB u = k.taskCB u := by
  simp only [takeTimeout]
  split_ifs
  · simp [hu]
  · rfl

theorem takeTimeout_view (u : TaskID) : ∃ o, ((k.takeTimeout t).1.taskCB u).view =
    { (k.taskCB u).view with timeout := o } := by
  by_cases hu : u = t
  · subst hu
    exact ⟨_, by rw [takeTimeout_taskCB]; rfl⟩
  · exact ⟨_, by rw [takeTimeout_taskCB_of_ne hu]⟩

theorem takeTimeout_same : Same k (k.takeTimeout t).1 := by
  simp only [takeTimeout]
  split_ifs <;> exact ⟨rfl, rfl, rfl, rfl, rfl⟩

theorem InvWith.takeTimeout (h : InvWith c pm run k) : InvWith c pm run (k.takeTimeout t).1 := by
  simp only [Sched.takeTimeout]
  split_ifs <;> dsimp only
  · refine InvWith.modifyTCB h ?_ ?_ ?_ ?_
    iterate 3 rfl
    · exact ⟨rfl, rfl, rfl, rfl, rfl, rfl, rfl, rfl, rfl, rfl⟩
  · exact h

theorem granted_leave_of_ne (hu : u ≠ t) :
    Granted (k.takeTimeout t).1 (w.leave t) u r ↔ Granted k w u r := by
  simp [Granted, takeTimeout_taskCB_of_ne hu, hu]

theorem not_granted_leave : ¬Granted k (w.leave t) t r := by simp [Granted]

/-- The calls for `r` that have been answered and not yet returned. -/
def inflight [DecidableEq R] (c : Config) (k : Sched) (w : Calls R) (r : R) : ℕ :=
  ((Finset.range c.taskMaxNum).filter fun t => Granted k w t r).card

theorem inflight_eq_zero_iff [DecidableEq R] :
    inflight c k w r = 0 ↔ ∀ t < c.taskMaxNum, ¬Granted k w t r := by
  simp [inflight]

/-- Whether a call has been answered does not depend on the priority of its task. -/
theorem granted_congr_view (h : (k'.taskCB t).view = { (k.taskCB t).view with priority := p }) :
    Granted k' w t r ↔ Granted k w t r := by
  have hp : (k'.status t).pend = (k.status t).pend := congrArg pend h
  have hto : (k'.status t).timeout = (k.status t).timeout := congrArg timeout h
  simp only [Granted, hp, hto]

theorem inflight_congr [DecidableEq R]
    (h : ∀ t < c.taskMaxNum, Granted k' w' t r ↔ Granted k w t r) :
    inflight c k' w' r = inflight c k w r :=
  congrArg Finset.card (Finset.filter_congr fun t ht => h t (Finset.mem_range.mp ht))

theorem inflight_add_one [DecidableEq R] (ht : t < c.taskMaxNum)
    (hn : ¬Granted k w t r) (hg : Granted k' w' t r)
    (h : ∀ u ≠ t, Granted k' w' u r ↔ Granted k w u r) :
    inflight c k' w' r = inflight c k w r + 1 :=
  card_filter_add_one (Finset.mem_range.mpr ht) hn hg fun u _ => h u

theorem RunInv.takeTimeout (h : RunInv c pm k) : RunInv c pm (k.takeTimeout t).1 := by
  refine h.of_same takeTimeout_same h.sched.1.takeTimeout
    (h.join.of_view (fun u => ?_) fun u _ _ => ?_)
  · rw [takeTimeout_lists]
  · by_cases hu : u = t
    · subst hu
      exact ⟨_, _, false, _, by rw [takeTimeout_taskCB]; rfl⟩
    · exact ⟨_, _, _, _, by rw [takeTimeout_taskCB_of_ne hu]⟩

theorem inflight_leave [DecidableEq R] (ht : t < c.taskMaxNum) :
    inflight c k w r = inflight c (k.takeTimeout t).1 (w.leave t) r +
      if Granted k w t r then 1 else 0 := by
  split_ifs with hg
  · exact inflight_add_one ht not_granted_leave hg fun u hu => (granted_leave_of_ne hu).symm
  · refine inflight_congr fun u _ => ?_
    by_cases hu : u = t
    · subst hu
      exact ⟨fun hc => absurd hc hg, fun hc => absurd hc not_granted_leave⟩
    · exact (granted_leave_of_ne hu).symm

/-! ## The invariant of the calls -/

section Request

variable [Request R] {i : ListHead}

/-- A task pends exactly while it is inside a call that has neither been answered nor timed out; it
is then in the list that its call waits on. The lists are in the order in which the waits began. -/
structure WaitInv (c : Config) (k : Sched) (w : Calls R) : Prop where
  live : ∀ t r, w.pc t = some r →
    t < c.taskMaxNum ∧ (k.status t).unused = false ∧ (k.status t).exit = false
  pend : ∀ t < c.taskMaxNum, (k.status t).pend →
    (k.status t).timeout = false ∧ ∃ r, w.pc t = some r ∧ t ∈ k.lists (head r)
  timeout : ∀ t < c.taskMaxNum, (k.status t).unused = false → (k.status t).exit = false →
    (k.status t).timeout → w.pc t ≠ none
  order : ∀ i : ListHead, i.isWait →
    (k.lists i).Pairwise fun a b => w.since a < w.since b
  past : ∀ i : ListHead, i.isWait → ∀ t ∈ k.lists i, w.since t < w.clock

theorem InvWith.lists_eq_nil_of_fresh (h : InvWith c pm run k) (hf : Fresh k)
    (hi : i.isWait) : k.lists i = [] := by
  refine List.eq_nil_iff_forall_not_mem.mpr fun t hm => ?_
  obtain ⟨ht, hp, hu, -⟩ := h.pend_of_mem hi hm
  simp [hf.tasks t hu] at hp

theorem WaitInv.init (h : InvWith c pm run k) (hf : Fresh k) : WaitInv c k ({} : Calls R) where
  live t r hr := nomatch hr
  pend t ht hp := by
    obtain ⟨_, _, hok⟩ := h.task t ht
    obtain ⟨-, -, hu, -, -⟩ := hok.of_pend hp
    simp [hf.tasks t hu] at hp
  timeout t ht hu _ hc := by simp [hf.tasks t hu] at hc
  order i hi := by simp [h.lists_eq_nil_of_fresh hf hi]
  past i hi t hm := by simp [h.lists_eq_nil_of_fresh hf hi] at hm

theorem WaitInv.of_mem (h : WaitInv c k w) (hs : InvWith c pm run k)
    (hi : i.isWait) (hm : t ∈ k.lists i) :
    (k.status t).timeout = false ∧ ∃ r, w.pc t = some r ∧ head r = i := by
  obtain ⟨ht, hp, -⟩ := hs.pend_of_mem hi hm
  obtain ⟨hto, r, hr, hmem⟩ := h.pend t ht hp
  obtain ⟨o, ho, -⟩ := hs.task t ht
  exact ⟨hto, r, hr, Option.some.inj ((ho.eq hmem).symm.trans (ho.eq hm))⟩

theorem InvWith.runTask_notMem (h : InvWith c pm run k) (he : Executing c k)
    (hi : i.isWait) : k.runTask ∉ k.lists i := h.notMem_wait hi he.pend

theorem WaitInv.env (h : WaitInv c k w) (hs' : InvWith c pm run' k') (he : Env k k') :
    WaitInv c k' w where
  live t r hr := by
    obtain ⟨ht, hu, hx⟩ := h.live t r hr
    exact ⟨ht, he.unused t hu, (he.exit t hu).trans hx⟩
  pend t ht hp := by
    obtain ⟨_, _, hok⟩ := hs'.task t ht
    obtain ⟨-, -, hu', -, -⟩ := hok.of_pend hp
    have hu : (k.status t).unused = false := by
      by_contra hc
      rcases he.fresh t (by simpa using hc) with hf | hf
      · simp_all
      · simp [hp] at hf
    rcases he.wait t hu with ⟨hpe, hte⟩ | hw
    · obtain ⟨hto, r, hr, hm⟩ := h.pend t ht (hpe.symm.trans hp)
      refine ⟨hte.trans hto, r, hr, ?_⟩
      rw [he.lists _ (Request.isWait r), List.mem_filter]
      exact ⟨hm, hp⟩
    · simp [hp] at hw
  timeout t ht hu hx hto := by
    cases hu₀ : (k.status t).unused with
    | true =>
      rcases he.fresh t hu₀ with hf | hf
      · simp [hu] at hf
      · simp [hto] at hf
    | false =>
      rcases he.wait t hu₀ with ⟨-, hte⟩ | ⟨hp, -⟩
      · exact h.timeout t ht hu₀ ((he.exit t hu₀).symm.trans hx) (hte.symm.trans hto)
      · obtain ⟨-, r, hr, -⟩ := h.pend t ht hp
        simp [hr]
  order i hi := by
    rw [he.lists i hi]
    exact (h.order i hi).filter _
  past i hi t hm := by
    rw [he.lists i hi] at hm
    exact h.past i hi t (List.mem_filter.mp hm).1

theorem WaitInv.granted_env (h : WaitInv c k w) (he : Env k k') :
    Granted k' w t r ↔ Granted k w t r := by
  refine and_congr_right fun hr => ?_
  obtain ⟨ht, hu, -⟩ := h.live t r hr
  rcases he.wait t hu with ⟨hp, hto⟩ | ⟨hp, hp', hto'⟩
  · rw [hp, hto]
  · simp [hp, hto']

theorem WaitInv.enter (h : WaitInv c k w) (hs : InvWith c pm run k) (he : Executing c k)
    (hn : w.pc k.runTask = none) (hb : Blocks (head r) k k') :
    WaitInv c k' (w.enter k.runTask r) := by
  have hnot : ∀ i : ListHead, i.isWait → k.runTask ∉ k.lists i := fun i hi =>
    hs.runTask_notMem he hi
  have hto : (k.status k.runTask).timeout = false := by
    by_contra hc
    exact h.timeout _ he.lt he.unused he.exit (by simpa using hc) hn
  have hsince : ∀ i : ListHead, i.isWait → ∀ t ∈ k.lists i,
      (w.enter k.runTask r).since t = w.since t := fun i hi t hm => by
    have hne : t ≠ k.runTask := fun e => hnot i hi (e ▸ hm)
    simp [hne]
  have hlist : ∀ i : ListHead, i.isWait → k'.lists i = k.lists i ∨
      k'.lists i = k.lists i ++ [k.runTask] := fun i hi => by
    by_cases hih : i = head r
    · exact .inr (hih ▸ hb.lists)
    · exact .inl (hb.otherLists i hi hih)
  constructor
  · intro t r' hr
    by_cases ht : t = k.runTask
    · subst ht
      exact ⟨he.lt, (congrArg TaskView.unused hb.self).trans he.unused,
        (congrArg TaskView.exit hb.self).trans he.exit⟩
    · have hv := hb.others t ht
      obtain ⟨hlt, hu, hx⟩ := h.live t r' (by simpa [ht] using hr)
      exact ⟨hlt, (congrArg TaskView.unused hv).trans hu, (congrArg TaskView.exit hv).trans hx⟩
  · intro t ht hp
    by_cases htr : t = k.runTask
    · subst htr
      refine ⟨(congrArg TaskView.timeout hb.self).trans hto, r, by simp, ?_⟩
      simp [hb.lists]
    · have hv := hb.others t htr
      obtain ⟨hto', r', hr, hm⟩ := h.pend t ht ((congrArg TaskView.pend hv).symm.trans hp)
      refine ⟨(congrArg TaskView.timeout hv).trans hto', r', by simpa [htr] using hr, ?_⟩
      by_cases hrr : head r' = head r
      · rw [hrr, hb.lists]
        exact List.mem_append_left _ (hrr ▸ hm)
      · rw [hb.otherLists _ (Request.isWait r') hrr]
        exact hm
  · intro t ht hu hx hto'
    by_cases htr : t = k.runTask
    · subst htr
      simp
    · have hv := hb.others t htr
      simpa [htr] using h.timeout t ht ((congrArg TaskView.unused hv).symm.trans hu)
        ((congrArg TaskView.exit hv).symm.trans hx) ((congrArg TaskView.timeout hv).symm.trans hto')
  · intro i hi
    have hold : (k.lists i).Pairwise fun a b =>
        (w.enter k.runTask r).since a < (w.enter k.runTask r).since b :=
      (h.order i hi).imp_of_mem fun ha hb' hlt => by
        rwa [hsince i hi _ ha, hsince i hi _ hb']
    rcases hlist i hi with he' | he'
    · rw [he']
      exact hold
    · rw [he', List.pairwise_append]
      refine ⟨hold, List.pairwise_singleton _ _, fun a ha b hb' => ?_⟩
      rw [List.mem_singleton.mp hb', hsince i hi a ha]
      simpa using h.past i hi a ha
  · intro i hi t hm
    have hmem : t ∈ k.lists i ∨ t = k.runTask := by
      rcases hlist i hi with he' | he' <;> simp_all
    rcases hmem with hm' | rfl
    · rw [hsince i hi t hm']
      exact (h.past i hi t hm').trans (Nat.lt_succ_self _)
    · simp

theorem granted_enter (hb : Blocks (head r) k k') (hn : w.pc k.runTask = none) {r' : R} :
    Granted k' (w.enter k.runTask r) t r' ↔ Granted k w t r' := by
  by_cases ht : t = k.runTask
  · subst ht
    have hp : (k'.status k.runTask).pend := congrArg pend hb.self
    simp [Granted, hn, hp]
  · have hv := hb.others t ht
    have hp : (k'.status t).pend = (k.status t).pend := congrArg pend hv
    have hto : (k'.status t).timeout = (k.status t).timeout := congrArg timeout hv
    simp only [Granted, hp, hto]
    simp [ht]

section

variable (h : WaitInv c k w)
include h

theorem WaitInv.wakes (hw : Wakes t k k') : WaitInv c k' w := by
  constructor
  · intro u r hr
    obtain ⟨ht, hu, hx⟩ := h.live u r hr
    obtain ⟨p, d, he⟩ := hw.view u
    exact ⟨ht, (congrArg TaskView.unused he).trans hu, (congrArg TaskView.exit he).trans hx⟩
  · intro u hu hp
    have hut : u ≠ t := by
      rintro rfl
      have := congrArg TaskView.pend hw.self
      simp_all
    have he := hw.others u hut
    obtain ⟨hto, r, hr, hm⟩ := h.pend u hu ((congrArg TaskView.pend he).symm.trans hp)
    refine ⟨(congrArg TaskView.timeout he).trans hto, r, hr, ?_⟩
    rw [hw.lists _ (Request.isWait r)]
    exact (List.mem_erase_of_ne hut).mpr hm
  · intro u hu hun hx hto
    obtain ⟨p, d, he⟩ := hw.view u
    exact h.timeout u hu ((congrArg TaskView.unused he).symm.trans hun)
      ((congrArg TaskView.exit he).symm.trans hx) ((congrArg TaskView.timeout he).symm.trans hto)
  · intro i hi
    rw [hw.lists i hi]
    exact (h.order i hi).sublist List.erase_sublist
  · intro i hi u hm
    rw [hw.lists i hi] at hm
    exact h.past i hi u (List.mem_of_mem_erase hm)

theorem WaitInv.granted_wakes (hs : InvWith c pm run k) (hw : Wakes t k k')
    (hm : t ∈ k.lists (head r)) (hhead : Function.Injective (head (R := R))) :
    Granted k' w t r := by
  obtain ⟨hto, r', hr, he⟩ := h.of_mem hs (Request.isWait r) hm
  rw [hhead he] at hr
  exact ⟨hr, congrArg TaskView.pend hw.self, (congrArg TaskView.timeout hw.self).trans hto⟩

theorem WaitInv.leave (hp : (k.status t).pend = false) :
    WaitInv c (k.takeTimeout t).1 (w.leave t) := by
  constructor
  · intro u r hr
    have hu : u ≠ t := by
      rintro rfl
      simp at hr
    obtain ⟨ht, hun, hx⟩ := h.live u r (by simpa [hu] using hr)
    simpa [takeTimeout_taskCB_of_ne hu] using ⟨ht, hun, hx⟩
  · intro u hu hpu
    have hut : u ≠ t := by
      rintro rfl
      simp [takeTimeout_taskCB, hp] at hpu
    rw [status, takeTimeout_taskCB_of_ne hut] at hpu ⊢
    simpa [hut, takeTimeout_lists] using h.pend u hu hpu
  · intro u hu hun hx hto
    have hut : u ≠ t := by
      rintro rfl
      simp [takeTimeout_taskCB] at hto
    rw [status, takeTimeout_taskCB_of_ne hut] at hun hx hto
    simpa [hut] using h.timeout u hu hun hx hto
  · intro i hi
    rw [takeTimeout_lists]
    exact h.order i hi
  · intro i hi u hm
    rw [takeTimeout_lists] at hm
    exact h.past i hi u hm

theorem WaitInv.inflight_wakes [DecidableEq R] (hs : InvWith c pm run k)
    (hw : Wakes t k k') (hm : t ∈ k.lists (head r))
    (hhead : Function.Injective (head (R := R))) (r' : R) :
    inflight c k' w r' = inflight c k w r' + if r' = r then 1 else 0 := by
  obtain ⟨ht, hp, -⟩ := hs.pend_of_mem (Request.isWait r) hm
  have hg := h.granted_wakes hs hw hm hhead
  have hn : ¬Granted k w t r' := fun hc => by simpa [hp] using hc.2.1
  split_ifs with hr
  · subst hr
    exact inflight_add_one ht hn hg fun u hu => granted_wakes_of_ne hw hu
  · refine inflight_congr fun u _ => ?_
    by_cases hu : u = t
    · subst hu
      exact ⟨fun hc => absurd (Option.some.inj (hc.1.symm.trans hg.1)) hr, fun hc => absurd hc hn⟩
    · exact granted_wakes_of_ne hw hu

theorem WaitInv.joinList_eq_nil (hs : InvWith c pm run k)
    (hipc : ∀ r : R, (head r).isIpc) : k.lists (.joinList t) = [] := by
  refine List.eq_nil_iff_forall_not_mem.mpr fun u hm => ?_
  obtain ⟨-, r, -, hr⟩ := h.of_mem hs rfl hm
  simpa [hr, isIpc] using hipc r

theorem WaitInv.quiet_of_joinPosts (hs : InvWith c pm run k)
    (hipc : ∀ r : R, (head r).isIpc) (hj : JoinPosts t k k') : Quiet k k' := by
  cases hj with
  | none hq => exact hq
  | one j hm => simp [h.joinList_eq_nil hs hipc] at hm

theorem WaitInv.deletes (hd : Deletes c t k k') : WaitInv c k' (w.leave t) := by
  constructor
  · intro u r hr
    have hu : u ≠ t := by
      rintro rfl
      simp at hr
    obtain ⟨ht, hun, hx⟩ := h.live u r (by simpa [hu] using hr)
    have hv := hd.others u hu ht.ne
    exact ⟨ht, (congrArg TaskView.unused hv).trans hun, (congrArg TaskView.exit hv).trans hx⟩
  · intro u hu hp
    have hut : u ≠ t := by
      rintro rfl
      simp [hd.pend] at hp
    have hv := hd.others u hut hu.ne
    obtain ⟨hto, r, hr, hm⟩ := h.pend u hu ((congrArg TaskView.pend hv).symm.trans hp)
    refine ⟨(congrArg TaskView.timeout hv).trans hto, r, by simpa [hut] using hr, ?_⟩
    rw [hd.lists _ (Request.isWait r)]
    exact (List.mem_erase_of_ne hut).mpr hm
  · intro u hu hun hx hto
    have hut : u ≠ t := by
      rintro rfl
      rcases hd.gone with hg | hg <;> simp_all
    have hv := hd.others u hut hu.ne
    simpa [hut] using h.timeout u hu ((congrArg TaskView.unused hv).symm.trans hun)
      ((congrArg TaskView.exit hv).symm.trans hx) ((congrArg TaskView.timeout hv).symm.trans hto)
  · intro i hi
    rw [hd.lists i hi]
    exact (h.order i hi).sublist List.erase_sublist
  · intro i hi u hm
    rw [hd.lists i hi] at hm
    exact h.past i hi u (List.mem_of_mem_erase hm)

end

end Request

end Sched

/-! ## Calls by the list they wait on -/

structure WaitHead where
  head : ListHead
  isWait : head.isWait
deriving DecidableEq

instance : Request WaitHead where
  head := WaitHead.head
  isWait := WaitHead.isWait

theorem WaitHead.head_injective : Function.Injective (Request.head (R := WaitHead)) := by
  rintro ⟨i, _⟩ ⟨j, _⟩ h
  cases h
  rfl

namespace Calls

variable {R : Type*} [Request R] {w : Calls R} {t : TaskID} {r : R}

/-- The calls, seen only through the lists that they wait on. -/
@[simps]
def heads (w : Calls R) : Calls WaitHead where
  pc t := (w.pc t).map fun r => ⟨Request.head r, Request.isWait r⟩
  since := w.since
  clock := w.clock

theorem heads_enter : (w.enter t r).heads = w.heads.enter t ⟨Request.head r, Request.isWait r⟩ := by
  have hpc : (w.enter t r).heads.pc = (w.heads.enter t ⟨Request.head r, Request.isWait r⟩).pc := by
    funext u
    by_cases hu : u = t
    · subst hu
      simp
    · simp [hu]
  exact Calls.ext hpc rfl rfl

theorem heads_leave : (w.leave t).heads = w.heads.leave t := by
  have hpc : (w.leave t).heads.pc = (w.heads.leave t).pc := by
    funext u
    by_cases hu : u = t
    · subst hu
      simp
    · simp [hu]
  exact Calls.ext hpc rfl rfl

end Calls

theorem Sched.WaitInv.heads {R : Type*} [Request R] {c : Config} {k : Sched} {w : Calls R}
    (h : WaitInv c k w) : WaitInv c k w.heads where
  live t i hi := by
    obtain ⟨r, hr, -⟩ := Option.map_eq_some_iff.mp hi
    exact h.live t r hr
  pend t ht hp := by
    obtain ⟨hto, r, hr, hm⟩ := h.pend t ht hp
    exact ⟨hto, ⟨Request.head r, Request.isWait r⟩, by simp [hr], hm⟩
  timeout t ht hu hx hto := by
    simpa using h.timeout t ht hu hx hto
  order := h.order
  past := h.past

end LiteOS.Kernel
