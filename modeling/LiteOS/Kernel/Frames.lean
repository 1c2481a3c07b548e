import LiteOS.Kernel.Switch

/-!
# What the scheduler functions leave alone

Inter-task communication reads a task through a few fields of its control block, its *view*, and
through the wait lists. A quiet step changes neither; the other steps change them in one of the
ways described here.
-/

namespace LiteOS.Kernel

/-- What inter-task communication sees of a control block; `timed` says that the task waits with a
timeout. -/
structure TaskView where
  unused : Bool
  exit : Bool
  pend : Bool
  timed : Bool
  timeout : Bool
  systemTask : Bool
  joinable : Bool
  priority : ℕ
  eventMask : BitVec 32
  eventMode : BitVec 32
deriving DecidableEq, Repr

@[simps]
def TaskCB.view (cb : TaskCB) : TaskView where
  unused := cb.taskStatus.unused
  exit := cb.taskStatus.exit
  pend := cb.taskStatus.pend
  timed := cb.taskStatus.pend && cb.taskStatus.pendTime
  timeout := cb.taskStatus.timeout
  systemTask := cb.taskStatus.systemTask
  joinable := cb.taskStatus.joinable
  priority := cb.priority
  eventMask := cb.eventMask
  eventMode := cb.eventMode

namespace Sched

open Lib Sched TaskCB TaskView

variable {c : Config} {pm : Prop} {run : Option TaskID} {k k' k'' : Sched} {t u : TaskID}
  {startTime ticks tick priority p : ℕ}

structure Quiet (k k' : Sched) : Prop where
  lists : ∀ i : ListHead, i.isWait → k'.lists i = k.lists i
  view : ∀ t, (k'.taskCB t).view = (k.taskCB t).view

theorem Quiet.refl (k : Sched) : Quiet k k := ⟨fun _ _ => rfl, fun _ => rfl⟩

theorem Quiet.trans (h : Quiet k k') (h' : Quiet k' k'') : Quiet k k'' :=
  ⟨fun i hi => (h'.lists i hi).trans (h.lists i hi), fun t => (h'.view t).trans (h.view t)⟩

theorem Quiet.globals (hcb : k'.taskCB = k.taskCB) (hl : k'.lists = k.lists) : Quiet k k' :=
  ⟨fun _ _ => by rw [hl], fun _ => by rw [hcb]⟩

theorem Quiet.modifyTCB {f : TaskCB → TaskCB} (hv : (f (k.taskCB t)).view = (k.taskCB t).view) :
    Quiet k (k.modifyTCB t f) := by
  refine ⟨fun _ _ => rfl, fun u => ?_⟩
  by_cases hu : u = t
  · subst hu
    simpa using hv
  · simp [hu]

theorem Quiet.setStatus {f : TaskStatus → TaskStatus}
    (hv : ({ k.taskCB t with taskStatus := f (k.status t) } : TaskCB).view = (k.taskCB t).view) :
    Quiet k (k.setStatus t f) := .modifyTCB hv

theorem Quiet.osAdd2SortLink : Quiet k (k.osAdd2SortLink c t startTime ticks) := by
  refine ⟨fun _ _ => rfl, fun u => ?_⟩
  by_cases hu : u = t
  · subst hu
    rw [osAdd2SortLink_taskCB]
    rfl
  · rw [osAdd2SortLink_taskCB_of_ne hu]

theorem Quiet.osDeleteNodeSortLink : Quiet k (k.osDeleteNodeSortLink t) := by
  refine ⟨fun _ _ => rfl, fun u => ?_⟩
  by_cases hu : u = t
  · subst hu
    simp [Sched.osDeleteNodeSortLink, TaskCB.view]
  · simp [Sched.osDeleteNodeSortLink, hu]

theorem Quiet.osDeleteSortLink : Quiet k (k.osDeleteSortLink t) := by
  refine ⟨fun _ _ => by rw [osDeleteSortLink_lists], fun u => ?_⟩
  by_cases hu : u = t
  · subst hu
    rw [osDeleteSortLink_taskCB]
    rfl
  · rw [osDeleteSortLink_taskCB_of_ne hu]

theorem Quiet.osSchedTaskEnQueue (hp : (k.status t).pend = false) :
    Quiet k (k.osSchedTaskEnQueue c t) := by
  refine ⟨fun i hi => osSchedTaskEnQueue_lists_of_ne (isWait_ne_priQueueList hi _), fun u => ?_⟩
  by_cases hu : u = t
  · subst hu
    obtain ⟨slice, hcb⟩ := osSchedTaskEnQueue_taskCB
    rw [hcb]
    simp [TaskCB.view, enqueued, show (k.taskCB u).taskStatus.pend = false from hp]
  · rw [osSchedTaskEnQueue_taskCB_of_ne hu]

variable {i : ListHead}

theorem InvWith.notMem_wait (h : InvWith c pm run k) (hi : i.isWait)
    (hp : (k.status t).pend = false) : t ∉ k.lists i := by
  intro hm
  obtain ⟨o, ho, hok⟩ := h.task t (h.linked.bound _ _ hm)
  have hpl := hok.placed
  rw [ho.eq hm] at hpl
  cases i <;> simp_all [Placed, ListHead.isWait]

theorem Quiet.osSchedTaskDeQueue (hw : ∀ i : ListHead, i.isWait → t ∉ k.lists i) :
    Quiet k (k.osSchedTaskDeQueue t) := by
  constructor
  · intro i hi
    simp only [Sched.osSchedTaskDeQueue]
    split_ifs
    · exact Rings.unlink_eq_self (hw i hi)
    · rfl
    · rfl
  · intro u
    by_cases hu : u = t
    · subst hu
      rw [osSchedTaskDeQueue_taskCB]
      rfl
    · rw [osSchedTaskDeQueue_taskCB_of_ne hu]

variable {currTime : ℕ} {isPmMode b intActive : Bool}

theorem Quiet.osTimeSliceUpdate : Quiet k (k.osTimeSliceUpdate t currTime) :=
  .modifyTCB rfl

theorem Quiet.osSchedYield : Quiet k k.osSchedYield := .modifyTCB rfl

theorem Quiet.osSchedDelay : Quiet k (k.osSchedDelay t tick) :=
  .trans (.setStatus rfl) (.modifyTCB rfl)

theorem Quiet.osSchedFreezeTask : Quiet k (k.osSchedFreezeTask t) := by
  unfold Sched.osSchedFreezeTask
  exact .trans (.trans .osDeleteSortLink (.modifyTCB rfl)) (.setStatus rfl)

theorem InvWith.quiet_osSchedSuspend (h : InvWith c pm run k)
    (ht : t < c.taskMaxNum) : Quiet k (k.osSchedSuspend t isPmMode) := by
  obtain ⟨_, _, hok⟩ := h.task t ht
  simp only [Sched.osSchedSuspend]
  have hdq : Quiet k (if (k.status t).ready then k.osSchedTaskDeQueue t else k) := by
    split_ifs with hr
    · exact .osSchedTaskDeQueue fun i hi => h.notMem_wait hi (hok.status.ready hr).1
    · exact .refl k
  generalize (if (k.status t).ready then k.osSchedTaskDeQueue t else k) = k₁ at hdq
  split_ifs
  · exact (hdq.trans .osSchedFreezeTask).trans (.setStatus rfl)
  · exact hdq.trans (.setStatus rfl)

theorem Quiet.putAside : Quiet k (putAside c k t) := by
  simp only [Sched.putAside]
  split_ifs with hw hb
  · exact .osAdd2SortLink
  · simp only [Bool.not_eq_true', Bool.or_eq_false_iff] at hb
    exact .osSchedTaskEnQueue hb.1.1.1
  · exact .refl k

theorem InvWith.quiet_dispatch (h : InvWith c pm run k)
    (hp : (k.status t).pend = false) : Quiet k (k.dispatch t startTime) := by
  refine .trans (.trans (.setStatus rfl) (.modifyTCB rfl)) (.osSchedTaskDeQueue fun i hi => ?_)
  exact h.notMem_wait hi hp

theorem SchedInv.quiet_halPendSV (h : SchedInv c pm k) (hd : SwitchOk c k currTime) :
    Quiet k (Sched.halPendSV c k currTime) := by
  have hpark := h.invWith_parked hd
  have hidle : (parked c k currTime).idleTaskID < c.taskMaxNum :=
    parked_same.idleTaskID.trans_lt h.2.1
  have hp := (hpark.osGetTopTask hidle).2.2.1
  have hq : Quiet k (parked c k currTime) :=
    .trans (.trans .osTimeSliceUpdate .putAside) (.setStatus rfl)
  rw [h.halPendSV_eq hd]
  have hnew : InvWith c pm none { parked c k currTime with newTask := topTask c k currTime } :=
    hpark.globals rfl rfl rfl rfl rfl hpark.asserted
  have hg : Quiet (parked c k currTime)
      { parked c k currTime with newTask := topTask c k currTime } := .globals rfl rfl
  exact ((hq.trans hg).trans (hnew.quiet_dispatch hp)).trans (.globals rfl rfl)

theorem SchedInv.quiet_osSchedStart (h : SchedInv c pm k) :
    Quiet k (Sched.osSchedStart c k currTime) := by
  have hp := (h.1.osGetTopTask h.2.1).2.2.1
  have hnew : InvWith c pm (some k.runTask)
      { k with newTask := osGetTopTask c k, runTask := osGetTopTask c k } :=
    h.1.globals rfl rfl rfl rfl rfl h.1.asserted
  have hg : Quiet k { k with newTask := osGetTopTask c k, runTask := osGetTopTask c k } :=
    .globals rfl rfl
  exact (hg.trans (hnew.quiet_dispatch hp)).trans (.globals rfl rfl)

/-! ## Waiting and waking -/

/-- The running task begins to wait on list `i`. -/
structure Blocks (i : ListHead) (k k' : Sched) : Prop where
  lists : k'.lists i = k.lists i ++ [k.runTask]
  otherLists : ∀ j : ListHead, j.isWait → j ≠ i → k'.lists j = k.lists j
  self : (k'.taskCB k.runTask).view = { (k.taskCB k.runTask).view with
    pend := true
    timed := (k'.status k.runTask).pendTime }
  others : ∀ u ≠ k.runTask, (k'.taskCB u).view = (k.taskCB u).view

theorem Blocks.view (h : Blocks i k k') (u : TaskID) : ∃ p d,
    (k'.taskCB u).view = { (k.taskCB u).view with pend := p, timed := d } := by
  by_cases hu : u = k.runTask
  · subst hu
    exact ⟨_, _, h.self⟩
  · exact ⟨_, _, h.others u hu⟩

variable {n : ℕ}

theorem blocks_osSchedTaskWait : Blocks i k (k.osSchedTaskWait i n) := by
  obtain ⟨wait, hcb⟩ := osSchedTaskWait_taskCB (k := k) (i := i) (n := n)
  refine ⟨?_, fun j _ hj => ?_, ?_, fun u hu => ?_⟩
  · rw [osSchedTaskWait_lists, Rings.addTail_self]
  · rw [osSchedTaskWait_lists, Rings.addTail_of_ne hj]
  · simp [view, hcb]
  · rw [osSchedTaskWait_taskCB_of_ne hu]

/-- Task `t` stops waiting because another task or an interrupt handler wakes it. -/
structure Wakes (t : TaskID) (k k' : Sched) : Prop where
  lists : ∀ i : ListHead, i.isWait → k'.lists i = (k.lists i).erase t
  self : (k'.taskCB t).view = { (k.taskCB t).view with pend := false, timed := false }
  others : ∀ u ≠ t, (k'.taskCB u).view = (k.taskCB u).view

theorem Wakes.view (h : Wakes t k k') (u : TaskID) : ∃ p d,
    (k'.taskCB u).view = { (k.taskCB u).view with pend := p, timed := d } := by
  by_cases hu : u = t
  · subst hu
    exact ⟨_, _, h.self⟩
  · exact ⟨_, _, h.others u hu⟩

theorem Wakes.trans_quiet (h : Wakes t k k') (hq : Quiet k' k'') : Wakes t k k'' :=
  ⟨fun i hi => (hq.lists i hi).trans (h.lists i hi), (hq.view t).trans h.self,
    fun u hu => (hq.view u).trans (h.others u hu)⟩

theorem wakes_osSchedTaskWake : Wakes t k (k.osSchedTaskWake c t) := by
  have hstop : Wakes t k (k.stopPending t) := by
    refine ⟨fun i _ => by rw [stopPending_lists]; rfl, ?_, fun u hu => ?_⟩
    · rw [stopPending_taskCB]
      rfl
    · rw [stopPending_taskCB_of_ne hu]
  have hp : ((k.stopPending t).status t).pend = false := by simp [stopPending_taskCB]
  simp only [osSchedTaskWake]
  split_ifs
  · exact hstop.trans_quiet (.osSchedTaskEnQueue hp)
  · exact hstop

theorem wakes_dropTimeout (hp : (k.status t).pend) : Wakes t k (k.dropTimeout t) := by
  have hp' : ((k.modifyTCB t fun cb =>
      { cb with responseTime := sortLinkInvalidTime }).status t).pend := by simpa using hp
  simp only [dropTimeout, hp']
  refine ⟨fun i _ => rfl, by simp [view], fun u hu => by simp [hu]⟩

theorem Quiet.dropTimeout (hp : (k.status t).pend = false) : Quiet k (k.dropTimeout t) := by
  have hp' : ((k.modifyTCB t fun cb =>
      { cb with responseTime := sortLinkInvalidTime }).status t).pend = false := by simpa using hp
  simp only [Sched.dropTimeout, hp', Bool.false_eq_true, if_false]
  refine .trans (.modifyTCB rfl) (.setStatus ?_)
  simp [TaskCB.view, show (k.taskCB t).taskStatus.pend = false from hp]

theorem quiet_or_wakes_osSchedResume : Quiet k (k.osSchedResume c t currTime).1 ∨
      ((k.status t).freeze ∧ (k.status t).pend ∧
        (k.taskCB t).responseTime ≤ currTime ∧ Wakes t k (k.osSchedResume c t currTime).1) := by
  have hlast : ∀ k₁ : Sched, Quiet k₁
      (if !((k₁.status t).delay || (k₁.status t).pend) then
        ((k₁.setStatus t fun s => { s with suspend := false }).osSchedTaskEnQueue c t, true)
      else (k₁.setStatus t fun s => { s with suspend := false }, false)).1 := fun k₁ => by
    have hq : Quiet k₁ (k₁.setStatus t fun s => { s with suspend := false }) := .setStatus rfl
    split_ifs with hw
    · simp only [Bool.not_eq_true', Bool.or_eq_false_iff] at hw
      exact hq.trans (.osSchedTaskEnQueue (by simpa using hw.2))
    · exact hq
  have hresume : ∀ k₁ : Sched, k₁ = (if (k.status t).freeze then
      k.osSchedUnfreezeTask c t currTime else k) → Quiet k₁ (k.osSchedResume c t currTime).1 := by
    rintro k₁ rfl
    simpa [osSchedResume] using hlast _
  by_cases hf : (k.status t).freeze
  · have hthaw : Quiet k (k.setStatus t fun s => { s with freeze := false }) := .setStatus rfl
    have hend := hresume _ rfl
    simp only [osSchedUnfreezeTask] at hend
    split_ifs at hend with hlate
    · exact .inl ((hthaw.trans .osAdd2SortLink).trans hend)
    · cases hp : (k.status t).pend with
      | false => exact .inl ((hthaw.trans (.dropTimeout (by simpa using hp))).trans hend)
      | true =>
        have hw := wakes_dropTimeout (t := t)
          (k := k.setStatus t fun s => { s with freeze := false }) (by simpa using hp)
        refine .inr ⟨hf, rfl, by simpa using hlate, (Wakes.trans_quiet ?_ hend)⟩
        exact ⟨hw.lists, hw.self.trans (by rw [hthaw.view t]),
          fun u hu => (hw.others u hu).trans (hthaw.view u)⟩
  · exact .inl (hresume k (by simp [hf]))

/-! ## Timeouts -/

structure Expires (k k' : Sched) : Prop where
  lists : ∀ i : ListHead, i.isWait →
    k'.lists i = (k.lists i).filter fun u => (k'.status u).pend
  view : ∀ u, (k'.taskCB u).view = (k.taskCB u).view ∨ ((k.taskCB u).view.timed ∧
    (k'.taskCB u).view =
      { (k.taskCB u).view with pend := false, timed := false, timeout := true })

theorem pend_of_timed {cb : TaskCB} (h : cb.view.timed) : cb.taskStatus.pend := by
  simp only [view_timed, Bool.and_eq_true] at h
  exact h.1

theorem Expires.pend_of_pend (h : Expires k k') (hp : (k'.status u).pend) : (k.status u).pend := by
  rcases h.view u with hv | hv
  · have := congrArg pend hv
    simp only [view_pend] at this
    exact this ▸ hp
  · exact pend_of_timed hv.1

theorem Expires.trans (h : Expires k k') (h' : Expires k' k'') : Expires k k'' := by
  constructor
  · intro i hi
    rw [h'.lists i hi, h.lists i hi, List.filter_filter]
    refine List.filter_congr fun u _ => ?_
    cases hp : (k''.status u).pend with
    | false => simp
    | true => simp only [Bool.true_and]; exact h'.pend_of_pend hp
  · intro u
    rcases h'.view u with hv' | ⟨hp', hv'⟩
    · rw [hv']
      exact h.view u
    · rcases h.view u with hv | ⟨hp, hv⟩
      · exact .inr ⟨hv ▸ hp', hv ▸ hv'⟩
      · exact .inr ⟨hp, hv'.trans (by rw [hv])⟩

section

variable (h : InvWith c pm run k)
include h

/-- Members of the wait lists pend, so a quiet step lets no wait end. -/
theorem InvWith.expires_of_quiet (hq : Quiet k k') : Expires k k' := by
  refine ⟨fun i hi => ?_, fun u => .inl (hq.view u)⟩
  rw [hq.lists i hi, eq_comm, List.filter_eq_self]
  intro u hu
  have hv := congrArg pend (hq.view u)
  simp only [view_pend] at hv
  rw [status, hv]
  by_contra hp
  exact h.notMem_wait hi (by simpa using hp) hu

theorem InvWith.expires_of_timeout (hp : (k.taskCB t).view.timed)
    (hl : ∀ i : ListHead, i.isWait → k'.lists i = (k.lists i).erase t) (hself : (k'.taskCB t).view =
      { (k.taskCB t).view with pend := false, timed := false, timeout := true })
    (hothers : ∀ u ≠ t, (k'.taskCB u).view = (k.taskCB u).view) : Expires k k' := by
  constructor
  · intro i hi
    rw [hl i hi, (h.linked.nodup i).erase_eq_filter]
    refine List.filter_congr fun u hu => ?_
    by_cases hut : u = t
    · subst hut
      have hv := congrArg pend hself
      simp only [view_pend] at hv
      simp [hv]
    · have hv := congrArg pend (hothers u hut)
      simp only [view_pend] at hv
      have hpu : (k.status u).pend := by
        by_contra hc
        exact h.notMem_wait hi (by simpa using hc) hu
      simp [bne_iff_ne.mpr hut, hv, show (k.taskCB u).taskStatus.pend = true from hpu]
  · intro u
    by_cases hut : u = t
    · subst hut
      exact .inr ⟨hp, hself⟩
    · exact .inl (hothers u hut)

theorem InvWith.timed_of_mem (hm : t ∈ k.sortLink)
    (hp : (k.status t).pend) : (k.taskCB t).view.timed := by
  obtain ⟨_, -, hok⟩ := h.task t (h.linked.sortBound t hm)
  have hd := hok.status.pend hp
  have ht := (hok.linked.mp hm).1
  simp_all

theorem InvWith.expires_osSchedWakePendTimeTask (hm : t ∈ k.sortLink) :
    Expires k (Sched.osSchedWakePendTimeTask c (k.osDeleteNodeSortLink t) t) := by
  have hdel := Quiet.osDeleteNodeSortLink (k := k) (t := t)
  have hst := osDeleteNodeSortLink_status (k := k) (t := t) (u := t)
  generalize k.osDeleteNodeSortLink t = k₀ at hdel hst ⊢
  cases hp : (k.status t).pend with
  | true =>
    simp only [Sched.osSchedWakePendTimeTask, hst, hp, Bool.true_or, if_true]
    generalize hk₁ : (((k₀.setStatus t fun s => { s with
        pend := false
        pendTime := false
        delay := false }).setStatus t fun s => { s with timeout := true }).listDelete t).modifyTCB
      t (fun cb => { cb with taskMux := none, taskSem := none }) = k₁
    have hq : Quiet k₁
        (if (!(k.status t).suspend) = true then k₁.osSchedTaskEnQueue c t else k₁) := by
      split_ifs
      · exact .osSchedTaskEnQueue (by simp [← hk₁])
      · exact .refl _
    refine h.expires_of_timeout (h.timed_of_mem hm hp) (fun i hi => ?_) ?_ fun u hu => ?_
    · rw [hq.lists i hi, ← hdel.lists i hi, ← hk₁]
      rfl
    · rw [hq.view t, ← hdel.view t, ← hk₁]
      simp [view]
    · rw [hq.view u, ← hdel.view u, ← hk₁]
      simp [hu]
  | false =>
    apply h.expires_of_quiet
    simp only [Sched.osSchedWakePendTimeTask, hst, hp, Bool.false_eq_true, if_false]
    have hq : Quiet k₀ (k₀.setStatus t fun s => { s with
        pend := false
        pendTime := false
        delay := false }) := by
      refine .setStatus ?_
      have hp₀ : (k₀.status t).pend = false := hst ▸ hp
      simp [view, show (k₀.taskCB t).taskStatus.pend = false from hp₀]
    split_ifs
    · exact (hdel.trans hq).trans (.osSchedTaskEnQueue (by simp))
    · exact hdel.trans hq
    · exact hdel

end

theorem InvWith.expires_scanTimerLoop (fuel : ℕ) (h : InvWith c pm run k) :
    Expires k (Sched.scanTimerLoop c currTime fuel k) := by
  induction fuel generalizing k with
  | zero => exact h.expires_of_quiet (.refl k)
  | succ fuel ih =>
    unfold Sched.scanTimerLoop
    split
    · exact h.expires_of_quiet (.refl k)
    · rename_i t _ hl
      split_ifs
      · have hm : t ∈ k.sortLink := by simp [hl]
        exact (h.expires_osSchedWakePendTimeTask hm).trans (ih (h.osSchedWakePendTimeTask hm))
      · exact h.expires_of_quiet (.refl k)

theorem SchedInv.losSchedTickHandler (h : SchedInv c pm k) :
    SchedInv c pm (losSchedTickHandler c k b n) ∧ Same k (losSchedTickHandler c k b n) ∧
      Expires k (losSchedTickHandler c k b n) := by
  have hupd : ∀ k₁, InvWith c pm (some k.runTask) k₁ → Same k k₁ → Expires k k₁ →
      SchedInv c pm (k₁.osTimeSliceUpdate k₁.runTask n) ∧
        Same k (k₁.osTimeSliceUpdate k₁.runTask n) ∧
        Expires k (k₁.osTimeSliceUpdate k₁.runTask n) := fun k₁ hinv hsame hexp => by
    have hs : Same k (k₁.osTimeSliceUpdate k₁.runTask n) := hsame.trans (.modifyTCB ..)
    exact ⟨h.of_same hs hinv.osTimeSliceUpdate, hs,
      hexp.trans (hinv.expires_of_quiet .osTimeSliceUpdate)⟩
  simp only [Sched.losSchedTickHandler]
  split_ifs
  · exact hupd _ h.1.osSchedScanTimerList (scanTimerLoop_same _) (h.1.expires_scanTimerLoop _)
  · exact hupd _ h.1 (.refl k) (h.1.expires_of_quiet (.refl k))
  · exact ⟨h, .refl k, h.1.expires_of_quiet (.refl k)⟩

/-! ## Priorities -/

/-- Only the priority of `t` changes. -/
structure Reprioritises (t : TaskID) (priority : ℕ) (k k' : Sched) : Prop where
  lists : ∀ i : ListHead, i.isWait → k'.lists i = k.lists i
  self : (k'.taskCB t).view = { (k.taskCB t).view with priority := priority }
  others : ∀ u ≠ t, (k'.taskCB u).view = (k.taskCB u).view

theorem Reprioritises.view (h : Reprioritises t priority k k') (u : TaskID) :
    ∃ p, (k'.taskCB u).view = { (k.taskCB u).view with priority := p } := by
  by_cases hu : u = t
  · subst hu
    exact ⟨priority, h.self⟩
  · exact ⟨_, h.others u hu⟩

theorem InvWith.reprioritises_osSchedModifyTaskSchedParam (h : InvWith c pm run k)
    (ht : t < c.taskMaxNum) :
    Reprioritises t p k (Sched.osSchedModifyTaskSchedParam c k t p).1 := by
  have hmod : ∀ k₁, Quiet k k₁ → Reprioritises t p k
      (k₁.modifyTCB t fun cb => { cb with priority := p }) := fun k₁ hq => by
    refine ⟨hq.lists, ?_, fun u hu => ?_⟩
    · rw [← hq.view t]
      simp [view]
    · rw [← hq.view u]
      simp [hu]
  obtain ⟨_, _, hok⟩ := h.task t ht
  simp only [Sched.osSchedModifyTaskSchedParam]
  split_ifs with hr <;> dsimp only
  · have hpend := (hok.status.ready hr).1
    have hdq : Quiet k (k.osSchedTaskDeQueue t) :=
      .osSchedTaskDeQueue fun i hi => h.notMem_wait hi hpend
    have hen := Quiet.osSchedTaskEnQueue (c := c) (t := t)
      (k := (k.osSchedTaskDeQueue t).modifyTCB t fun cb => { cb with priority := p })
      (by simpa [osSchedTaskDeQueue_taskCB] using hpend)
    have hm := hmod _ hdq
    exact ⟨fun i hi => (hen.lists i hi).trans (hm.lists i hi), (hen.view t).trans hm.self,
      fun u hu => (hen.view u).trans (hm.others u hu)⟩
  · exact hmod k (.refl k)

/-! ## The calls of `los_task.c` that leave control blocks in use -/

theorem osCheckTaskIDValid_ok (h : k.osCheckTaskIDValid c t = .ok) :
    t ≠ k.idleTaskID ∧ t < c.taskMaxNum := by
  simp only [osCheckTaskIDValid] at h
  split_ifs at h with hi _ hle
  exact ⟨hi, not_le.mp hle⟩

theorem InvWith.losTaskSuspend (h : InvWith c pm run k)
    (hpm : isPmMode → (k.status t).delay ∨ (k.status t).pendTime →
      pm ∧ (k.status t).running = false) : InvWith c pm run (k.losTaskSuspend c t isPmMode).1 ∧
      Same k (k.losTaskSuspend c t isPmMode).1 ∧ Quiet k (k.losTaskSuspend c t isPmMode).1 := by
  have hrefl : InvWith c pm run k ∧ Same k k ∧ Quiet k k := ⟨h, .refl k, .refl k⟩
  simp only [Sched.losTaskSuspend]
  split_ifs with hid hu hsys hs hl <;> try exact hrefl
  obtain ⟨hi, ht⟩ := osCheckTaskIDValid_ok (not_not.mp hid)
  exact ⟨h.osSchedSuspend ht hi (by simpa using hu) (by simpa using hs) hpm, osSchedSuspend_same,
    h.quiet_osSchedSuspend ht⟩

theorem InvWith.losTaskResume (h : InvWith c pm run k)
    (hr : (k.status t).unused = false → (k.status t).suspend → (k.status t).exit = false ∧
      ((k.status t).running → (k.status t).delay ∨ (k.status t).pend))
    (hd : ThawOk c k t currTime) : InvWith c pm run (k.losTaskResume c t currTime).1 ∧
      Same k (k.losTaskResume c t currTime).1 := by
  have hrefl : InvWith c pm run k ∧ Same k k := ⟨h, .refl k⟩
  simp only [Sched.losTaskResume]
  split_ifs with hle hu hs <;> try exact hrefl
  have hsusp : (k.status t).suspend := by simpa using hs
  have hunused : (k.status t).unused = false := by simpa using hu
  obtain ⟨hx, hrun⟩ := hr hunused hsusp
  exact ⟨h.osSchedResume (not_le.mp hle) hunused hx hsusp hrun hd, osSchedResume_same⟩

/-- Resuming a task leaves it on its wait list, unless its time has passed while it was frozen:
then the wait ends without `OS_TASK_STATUS_TIMEOUT`. -/
theorem quiet_or_wakes_losTaskResume : Quiet k (k.losTaskResume c t n).1 ∨
      (t < c.taskMaxNum ∧ (k.status t).freeze ∧ (k.status t).pend ∧
        (k.taskCB t).responseTime ≤ n ∧ Wakes t k (k.losTaskResume c t n).1) := by
  simp only [losTaskResume]
  split_ifs with hle
  iterate 3 exact .inl (.refl k)
  · exact quiet_or_wakes_osSchedResume.imp_right (.intro (not_le.mp hle))

theorem InvWith.osSchedYield (h : InvWith c pm run k) : InvWith c pm run k.osSchedYield :=
  InvWith.modifyTCB h rfl rfl rfl (.refl _)

theorem InvWith.losTaskYield (h : InvWith c pm run k) :
    InvWith c pm run k.losTaskYield.1 ∧ Same k k.losTaskYield.1 ∧ Quiet k k.losTaskYield.1 :=
  ⟨h.osSchedYield, ⟨rfl, rfl, rfl, rfl, rfl⟩, .osSchedYield⟩

theorem InvWith.losTaskDelay
    (h : InvWith c pm (some k.runTask) k) (he : intActive = false → Executing c k) :
    InvWith c pm (some k.runTask) (k.losTaskDelay intActive tick).1 ∧
      Same k (k.losTaskDelay intActive tick).1 ∧ Quiet k (k.losTaskDelay intActive tick).1 := by
  have hrefl : InvWith c pm (some k.runTask) k ∧ Same k k ∧ Quiet k k := ⟨h, .refl k, .refl k⟩
  simp only [Sched.losTaskDelay]
  split_ifs with hint hl hsys ht <;> try exact hrefl
  · exact h.losTaskYield
  · exact ⟨h.osSchedDelay (he (by simpa using hint)), ⟨rfl, rfl, rfl, rfl, rfl⟩, .osSchedDelay⟩

theorem InvWith.losTaskPriSet (h : InvWith c pm run k) :
    InvWith c pm run (k.losTaskPriSet c t priority).1 ∧
      Same k (k.losTaskPriSet c t priority).1 := by
  have hrefl : InvWith c pm run k ∧ Same k k := ⟨h, .refl k⟩
  simp only [Sched.losTaskPriSet]
  split_ifs with hp hi hsw hle hu hsys <;> try exact hrefl
  exact ⟨h.osSchedModifyTaskSchedParam (not_le.mp hle) hi (not_lt.mp hp),
    osSchedModifyTaskSchedParam_same⟩

end Sched

end LiteOS.Kernel
