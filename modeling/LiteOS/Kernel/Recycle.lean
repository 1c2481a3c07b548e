import LiteOS.Kernel.Join

/-!
# Recycling control blocks

The `Account` of a control block tells whether it and its stacks are given back exactly once: how
often it was taken from the free list and put back, how many stacks were allocated and freed for it,
and the stack that is to be freed with it. Only creation, deletion and recycling change it.
-/

namespace LiteOS.Kernel

open Lib Sched Function Sched TaskOp Rings JoinSys

@[ext]
structure Account where
  creations : ℕ
  freeEntries : ℕ
  stackAllocs : ℕ
  stackFrees : ℕ
  free : Bool
  stackFree : Bool
  topOfStack : ℕ
deriving DecidableEq

/-- The block has been put back as often as it was taken, unless it is in use, and so have its
stacks. -/
structure Account.Balanced (a : Account) : Prop where
  entries : a.creations = a.freeEntries + (if a.free then 0 else 1)
  stacked : a.stackAllocs = a.stackFrees + (if a.stackFree ∧ a.topOfStack ≠ 0 then 1 else 0)
  free : a.free → a.stackFree = false

namespace Sched

@[simps]
def account (k : Sched) (t : TaskID) : Account where
  creations := k.creations t
  freeEntries := k.freeEntries t
  stackAllocs := k.stackAllocs t
  stackFrees := k.stackFrees t
  free := decide (t ∈ k.lists .losFreeTask)
  stackFree := (k.status t).stackFree
  topOfStack := (k.taskCB t).topOfStack

variable {c : Config} {pm : Prop} {run : Option TaskID} {k k' : Sched} {t u : TaskID}
  {currTime swtmrStack idleStack : ℕ}

/-! ## What leaves the accounts alone -/

section

variable {f : TaskCB → TaskCB} {i : ListHead} {startTime ticks tick priority n : ℕ}

theorem account_eq (hcb : k'.taskCB = k.taskCB) (hl : k'.lists .losFreeTask = k.lists .losFreeTask)
    (hc : k'.creations = k.creations) (hf : k'.freeEntries = k.freeEntries)
    (ha : k'.stackAllocs = k.stackAllocs) (hs : k'.stackFrees = k.stackFrees) :
    k'.account = k.account := by
  funext u
  simp only [account, status, hcb, hl, hc, hf, ha, hs]

@[simp]
theorem account_modifyTCB
    (hs : (f (k.taskCB t)).taskStatus.stackFree = (k.taskCB t).taskStatus.stackFree)
    (ht : (f (k.taskCB t)).topOfStack = (k.taskCB t).topOfStack) :
    (k.modifyTCB t f).account = k.account := by
  funext u
  by_cases hu : u = t
  · subst hu
    simpa [account] using ⟨hs, ht⟩
  · simp [account, hu]

@[simp]
theorem account_setStatus {f : TaskStatus → TaskStatus}
    (hs : (f (k.taskCB t).taskStatus).stackFree = (k.taskCB t).taskStatus.stackFree) :
    (k.setStatus t f).account = k.account := account_modifyTCB hs rfl

@[simp]
theorem account_listTailInsert (hi : i ≠ .losFreeTask) :
    (k.listTailInsert i t).account = k.account :=
  account_eq rfl (addTail_of_ne hi.symm) rfl rfl rfl rfl

@[simp]
theorem account_listAdd (hi : i ≠ .losFreeTask) : (k.listAdd i t).account = k.account :=
  account_eq rfl (addHead_of_ne hi.symm) rfl rfl rfl rfl

@[simp]
theorem account_markPriQueue : (k.markPriQueue priority).account = k.account := rfl

@[simp]
theorem account_osAdd2SortLink : (k.osAdd2SortLink c t startTime ticks).account = k.account :=
  .trans rfl (account_modifyTCB (k := k) (f := fun cb =>
    { cb with responseTime := (startTime + c.sysTickToCycle ticks) % 2 ^ 64 }) rfl rfl)

@[simp]
theorem account_osDeleteNodeSortLink : (k.osDeleteNodeSortLink t).account = k.account :=
  .trans rfl (account_modifyTCB (k := k) (f := fun cb =>
    { cb with responseTime := sortLinkInvalidTime }) rfl rfl)

@[simp]
theorem account_osDeleteSortLink : (k.osDeleteSortLink t).account = k.account := by
  unfold osDeleteSortLink
  split_ifs <;> simp

@[simp]
theorem account_enterPriQueue : (enterPriQueue c k t).account = k.account := by
  simp only [enterPriQueue, osSchedPriQueueEnHead, osSchedPriQueueEnTail]
  split_ifs <;> simp

@[simp]
theorem account_osSchedTaskEnQueue : (k.osSchedTaskEnQueue c t).account = k.account := by
  simp only [osSchedTaskEnQueue, account_setStatus, account_enterPriQueue]
  rfl

theorem account_osSchedTaskWait (hi : i ≠ .losFreeTask) :
    (k.osSchedTaskWait i n).account = k.account := by
  simp only [osSchedTaskWait]
  split_ifs <;> simp [hi]

@[simp]
theorem account_osTimeSliceUpdate : (k.osTimeSliceUpdate t currTime).account = k.account := by
  simp [osTimeSliceUpdate]

@[simp]
theorem account_osSchedYield : k.osSchedYield.account = k.account := by
  simp [osSchedYield]

@[simp]
theorem account_osSchedDelay : (k.osSchedDelay t tick).account = k.account := by
  simp [osSchedDelay]

theorem account_parked : (parked c k currTime).account = k.account := by
  refine (account_setStatus rfl).trans ?_
  simp only [putAside]
  split_ifs <;> simp

variable (h : t ∉ k.lists .losFreeTask)
include h

@[simp]
theorem account_listDelete : (k.listDelete t).account = k.account :=
  account_eq rfl (unlink_eq_self h) rfl rfl rfl rfl

@[simp]
theorem account_osSchedTaskDeQueue : (k.osSchedTaskDeQueue t).account = k.account := by
  have hdel : (k.osSchedPriQueueDelete t (k.taskCB t).priority).account = k.account :=
    account_listDelete h
  simp only [osSchedTaskDeQueue]
  split_ifs <;> simp [hdel]

theorem account_osSchedTaskWake : (k.osSchedTaskWake c t).account = k.account := by
  simp only [osSchedTaskWake, stopPending]
  split_ifs <;> simp [h]

theorem account_osSchedWakePendTimeTask : (osSchedWakePendTimeTask c k t).account = k.account := by
  simp only [osSchedWakePendTimeTask]
  split_ifs <;> simp [h]

theorem account_osSchedTaskExit : (k.osSchedTaskExit t).account = k.account := by
  simp only [osSchedTaskExit, leaveList]
  split_ifs <;> simp [h]

theorem account_osSchedSuspend {isPmMode : Bool} :
    (k.osSchedSuspend t isPmMode).account = k.account := by
  simp only [osSchedSuspend, osSchedFreezeTask]
  split_ifs <;> simp [h]

theorem account_osSchedResume : (osSchedResume c k t currTime).1.account = k.account := by
  simp only [osSchedResume, osSchedUnfreezeTask, dropTimeout]
  split_ifs <;> simp [h]

theorem account_osSchedModifyTaskSchedParam :
    (osSchedModifyTaskSchedParam c k t priority).1.account = k.account := by
  simp only [osSchedModifyTaskSchedParam]
  split_ifs <;> simp [h]

theorem account_dispatch : (k.dispatch t startTime).account = k.account := by
  simp [dispatch, h]

end

theorem creations_congr (h : k'.account = k.account) : k'.creations = k.creations :=
  funext fun u => congrArg Account.creations (congrFun h u)

theorem notMem_free_congr (h : k'.account = k.account) (ht : t ∉ k.lists .losFreeTask) :
    t ∉ k'.lists .losFreeTask := by
  have hfree := congrArg Account.free (congrFun h t)
  simpa [ht] using hfree

theorem InvWith.notMem_free (h : InvWith c pm run k) (hu : (k.status t).unused = false) :
    t ∉ k.lists .losFreeTask := fun hf =>
  absurd (hu.symm.trans (h.placed_of_mem hf).2) (by simp)

theorem InvWith.account_scanTimerLoop (fuel : ℕ) (h : InvWith c pm run k) :
    (Sched.scanTimerLoop c currTime fuel k).account = k.account := by
  induction fuel generalizing k with
  | zero => rfl
  | succ fuel ih =>
    unfold Sched.scanTimerLoop
    split
    · rfl
    · rename_i t _ hl
      have hm : t ∈ k.sortLink := by simp [hl]
      obtain ⟨_, _, hok⟩ := h.task t (h.linked.sortBound t hm)
      have hu : (k.status t).unused = false := by
        by_contra hu
        have hg := hok.status.gone (.inr (by simpa using hu))
        have hw := (hok.linked.mp hm).1
        have hpt := hok.status.pendTime_eq_false hg.1
        simp_all
      split_ifs
      · have hwake := account_osSchedWakePendTimeTask (c := c) (k := k.osDeleteNodeSortLink t)
          (h.notMem_free hu)
        rw [ih (h.osSchedWakePendTimeTask hm), hwake, account_osDeleteNodeSortLink]
      · rfl

theorem InvWith.account_osTaskJoinPostUnsafe (h : InvWith c pm run k) :
    (k.osTaskJoinPostUnsafe c t).account = k.account := by
  simp only [osTaskJoinPostUnsafe]
  split_ifs
  · split
    · rfl
    · rename_i j _ hl
      have hm : j ∈ k.lists (.joinList t) := by simp [hl]
      exact account_osSchedTaskWake (h.notMem_free (h.pend_of_mem rfl hm).2.2.1)
  · rfl

theorem RunInv.account_exec {op : TaskOp} (h : RunInv c pm k) (he : op.Enabled c k)
    (hc : ∀ p n, op ≠ .taskCreateOnly p n ∧ op ≠ .taskCreate p n) (hd : ∀ t, op ≠ .taskDelete t) :
    (op.exec c k).account = k.account := by
  have hinv := h.sched.1
  cases op with
  | taskCreateOnly param stack => exact absurd rfl (hc param stack).1
  | taskCreate param stack => exact absurd rfl (hc param stack).2
  | taskDelete t => exact absurd rfl (hd t)
  | schedStart =>
    have htop := (hinv.osGetTopTask h.sched.2.1).2.2.2.2.2.2
    exact .trans rfl (account_dispatch (k :=
      { k with newTask := osGetTopTask c k, runTask := osGetTopTask c k }) (hinv.notMem_free htop))
  | taskSuspend =>
    simp only [TaskOp.exec, losTaskSuspend]
    split_ifs with hid hu <;> try rfl
    exact account_osSchedSuspend (hinv.notMem_free (by simpa using hu))
  | taskResume =>
    simp only [TaskOp.exec, losTaskResume]
    split_ifs with hid hu <;> try rfl
    exact account_osSchedResume (hinv.notMem_free (by simpa using hu))
  | taskDelay =>
    simp only [TaskOp.exec, losTaskDelay]
    split_ifs <;> try rfl
    · exact account_osSchedYield
    · exact account_osSchedDelay
  | taskYield => exact account_osSchedYield
  | taskPriSet =>
    simp only [TaskOp.exec, losTaskPriSet]
    split_ifs with hp hi hsw hle hu <;> try rfl
    exact account_osSchedModifyTaskSchedParam (hinv.notMem_free (by simpa using hu))
  | scanTimerList => exact hinv.account_scanTimerLoop _
  | schedTickHandler =>
    simp only [TaskOp.exec, losSchedTickHandler]
    split_ifs <;> simp [osSchedScanTimerList, hinv.account_scanTimerLoop]
  | taskSwitch currTime =>
    have hpark := h.sched.invWith_parked he.2
    have htop := (hpark.osGetTopTask (parked_same.idleTaskID.trans_lt h.sched.2.1)).2.2.2.2.2.2
    rw [TaskOp.exec, h.sched.halPendSV_eq he.2]
    exact (account_dispatch (k := { parked c k currTime with newTask := topTask c k currTime })
      (hpark.notMem_free htop)).trans account_parked

/-! ## Recycling and creation -/

def Balanced (c : Config) (k : Sched) : Prop := ∀ t < c.taskMaxNum, (k.account t).Balanced

theorem Balanced.congr (hb : Balanced c k) (h : k'.account = k.account) : Balanced c k' :=
  fun t ht => h ▸ hb t ht

theorem Balanced.modify (h : Balanced c k) (ho : ∀ u ≠ t, k'.account u = k.account u)
    (ht : t < c.taskMaxNum → (k'.account t).Balanced) : Balanced c k' := fun u hu => by
  by_cases hut : u = t
  · subst hut
    exact ht hu
  · rw [ho u hut]
    exact h u hu

theorem bump_self {n : TaskID → ℕ} : bump n t t = n t + 1 := update_self ..

theorem bump_of_ne {n : TaskID → ℕ} (hne : u ≠ t) : bump n t u = n u := update_of_ne hne ..

theorem account_freeStack_of_ne (hne : u ≠ t) : (k.freeStack t).account u = k.account u := by
  simp only [freeStack]
  split_ifs
  · simp [account, hne, bump_of_ne hne]
  · rfl

theorem account_freeStack (hb : (k.account t).Balanced) : ((k.freeStack t).account t).Balanced ∧
    ((k.freeStack t).account t).stackAllocs = ((k.freeStack t).account t).stackFrees := by
  have hs := hb.stacked
  simp only [freeStack]
  split_ifs with hc
  · simp only [account_stackAllocs, account_stackFrees, account_stackFree, account_topOfStack, hc,
      ne_eq] at hs
    refine ⟨⟨hb.entries, ?_, fun _ => ?_⟩, ?_⟩ <;> simp [bump_self, hs]
  · have hs' : k.stackAllocs t = k.stackFrees t := by simpa [hc] using hs
    exact ⟨hb, hs'⟩

theorem account_osInsertTCBToFreeList_of_ne (hne : u ≠ t) :
    (k.osInsertTCBToFreeList t).account u = k.account u := by
  simp [account, osInsertTCBToFreeList, hne, bump_of_ne hne]

theorem account_osInsertTCBToFreeList (hb : (k.account t).Balanced)
    (hf : t ∉ k.lists .losFreeTask) (hs : (k.account t).stackAllocs = (k.account t).stackFrees) :
    ((k.osInsertTCBToFreeList t).account t).Balanced := by
  have he : k.creations t = k.freeEntries t + 1 := by simpa [hf] using hb.entries
  refine ⟨?_, ?_, fun _ => ?_⟩
  · simpa [osInsertTCBToFreeList, bump_self] using he
  · simpa [osInsertTCBToFreeList] using hs
  · simp [osInsertTCBToFreeList]

theorem Balanced.osRecycleTaskResources (h : Balanced c k) (hf : t ∉ k.lists .losFreeTask) :
    Balanced c (k.osRecycleTaskResources t) := by
  have hf' : t ∉ (k.freeStack t).lists .losFreeTask := by simpa using hf
  simp only [Sched.osRecycleTaskResources]
  split_ifs
  · refine h.modify (t := t) (fun u hu => ?_) fun ht => ?_
    · rw [account_osInsertTCBToFreeList_of_ne hu, account_freeStack_of_ne hu]
    · obtain ⟨hb, hs⟩ := account_freeStack (h t ht)
      exact account_osInsertTCBToFreeList hb hf' hs
  · exact h.modify (fun u hu => account_freeStack_of_ne hu) fun ht => (account_freeStack (h t ht)).1

theorem InvWith.notMem_free_of_recycle (h : InvWith c pm run k)
    (hm : t ∈ k.lists .taskRecycleList) : t ∉ k.lists .losFreeTask := fun hf => by
  obtain ⟨o, ho, -⟩ := h.task t (h.linked.bound _ _ hm)
  simpa [ho.eq hm] using ho.eq hf

theorem InvWith.balanced_recycleLoop (fuel : ℕ) (h : InvWith c pm run k) (hb : Balanced c k) :
    Balanced c (Sched.recycleLoop fuel k) := by
  induction fuel generalizing k with
  | zero => exact hb
  | succ fuel ih =>
    unfold Sched.recycleLoop
    split
    · exact hb
    · rename_i t _ hl
      have hm : t ∈ k.lists .taskRecycleList := by simp [hl]
      have hf := h.notMem_free_of_recycle hm
      have hdel := account_listDelete hf
      exact ih (h.recycleOne hm).1 ((hb.congr hdel).osRecycleTaskResources
        fun hm => hf (List.mem_of_mem_erase hm))

theorem recycleLoop_creations (fuel : ℕ) : (recycleLoop fuel k).creations = k.creations := by
  induction fuel generalizing k with
  | zero => rfl
  | succ _ ih =>
    unfold recycleLoop
    split
    · rfl
    · rw [ih]
      simp only [osRecycleTaskResources, freeStack]
      split_ifs <;> rfl

variable {p : TaskInitParam} {n : ℕ}

theorem account_osNewTaskInit (hb : (k.account t).Balanced) (hs : (k.account t).stackFree = false)
    (hf : t ∉ k.lists .losFreeTask) :
    (∀ u ≠ t, (k.osNewTaskInit c t p n).1.account u = k.account u) ∧
      ((k.osNewTaskInit c t p n).1.account t).Balanced ∧
      t ∉ (k.osNewTaskInit c t p n).1.lists .losFreeTask ∧ ((k.osNewTaskInit c t p n).2 ≠ .ok →
        ((k.osNewTaskInit c t p n).1.account t).stackAllocs =
          ((k.osNewTaskInit c t p n).1.account t).stackFrees) := by
  have hall : (k.account t).stackAllocs = (k.account t).stackFrees := by
    have hst := hb.stacked
    rw [hs] at hst
    simpa using hst
  have hinit : (k.modifyTCB t (newTaskCB p)).account = k.account := account_modifyTCB hs.symm rfl
  have hjoin : (if p.joinable then
      { k.modifyTCB t (newTaskCB p) with lists := update k.lists (.joinList t) [] }
      else k.modifyTCB t (newTaskCB p)).account = k.account := by
    split_ifs
    · exact .trans (account_eq rfl (by simp) rfl rfl rfl rfl) hinit
    · exact hinit
  simp only [osNewTaskInit, modifyTCB_lists_eq]
  generalize (if p.joinable then
      { k.modifyTCB t (newTaskCB p) with lists := update k.lists (.joinList t) [] }
      else k.modifyTCB t (newTaskCB p)) = k₁ at hjoin ⊢
  replace hf := notMem_free_congr hjoin hf
  rw [← hjoin] at hb hs hall ⊢
  have htop : ∀ n, (∀ u ≠ t, (k₁.modifyTCB t fun cb => { cb with topOfStack := n }).account u =
      k₁.account u) ∧
      ((k₁.modifyTCB t fun cb => { cb with topOfStack := n }).account t).Balanced := fun n => by
    refine ⟨fun u hu => by simp [account, hu], ⟨hb.entries, ?_, fun _ => ?_⟩⟩
    · simpa [show (k₁.status t).stackFree = false from hs] using hall
    · simpa using hs
  split_ifs with ha hn
  · exact ⟨(htop n).1, (htop n).2, hf, fun _ => hall⟩
  · refine ⟨fun u hu => by simp [account, hu, bump_of_ne hu], ⟨hb.entries, ?_, ?_⟩, hf, by simp⟩
    · have hall' : k₁.stackAllocs t = k₁.stackFrees t := hall
      simp [bump_self, hn, hall']
    · exact fun hfree => absurd (by simpa using hfree) hf
  · exact ⟨(htop _).1, (htop _).2, hf, by simp⟩

theorem account_take (hb : (k.account t).Balanced) (hm : t ∈ k.lists .losFreeTask)
    (hn : (k.lists .losFreeTask).Nodup) :
    (∀ u ≠ t, ({ k.listDelete t with creations := bump k.creations t } : Sched).account u =
      k.account u) ∧
    (({ k.listDelete t with creations := bump k.creations t } : Sched).account t).Balanced ∧
    t ∉ ({ k.listDelete t with creations := bump k.creations t } : Sched).lists .losFreeTask := by
  have hnm : t ∉ (k.lists .losFreeTask).erase t := hn.not_mem_erase
  have he : k.creations t = k.freeEntries t := by simpa [hm] using hb.entries
  refine ⟨fun u hu => ?_, ⟨?_, hb.stacked, fun hf => ?_⟩, hnm⟩
  · simp [account, bump_of_ne hu, unlink, List.mem_erase_of_ne hu]
  · simp [unlink, hnm, bump_self, he]
  · exact absurd (by simpa [unlink] using hf) hnm

/-- Creation keeps the accounts balanced, and counts for the block that it takes. -/
theorem InvWith.balanced_losTaskCreateOnly (h : InvWith c pm run k) (hb : Balanced c k) :
    Balanced c (k.losTaskCreateOnly c p n).1 ∧ ∀ u, (k.status u).unused = false →
        (k.losTaskCreateOnly c p n).1.creations u = k.creations u := by
  simp only [Sched.losTaskCreateOnly]
  split
  · exact ⟨hb, fun _ _ => rfl⟩
  · rename_i p' _
    obtain ⟨hrec, hun⟩ := h.osRecycleFinishedTask
    have hb₁ : Balanced c k.osRecycleFinishedTask := h.balanced_recycleLoop _ hb
    have hcr : k.osRecycleFinishedTask.creations = k.creations := recycleLoop_creations _
    generalize k.osRecycleFinishedTask = k₁ at hrec hun hb₁ hcr ⊢
    split
    · exact ⟨hb₁, fun u _ => by rw [hcr]⟩
    · rename_i t _ hl
      have hm : t ∈ k₁.lists .losFreeTask := by simp [hl]
      obtain ⟨ht, hu⟩ := hrec.placed_of_mem hm
      obtain ⟨ho, hbt, hft⟩ := account_take (hb₁ t ht) hm (hrec.linked.nodup _)
      have hst : (({ k₁.listDelete t with creations := bump k₁.creations t } : Sched).account
          t).stackFree = false := (hb₁ t ht).free (by simpa using hm)
      generalize ({ k₁.listDelete t with creations := bump k₁.creations t } : Sched) = k₂
        at ho hbt hft hst ⊢
      obtain ⟨ho', hbt', hft', hall⟩ := account_osNewTaskInit
        hbt hst hft
      have hold : ∀ u, (k.status u).unused = false → u ≠ t := by
        rintro u hk rfl
        exact absurd ((hk.symm.trans hun.unused_iff.symm).trans hu) (by simp)
      rcases heq : k₂.osNewTaskInit c t p' n with ⟨k₃, e⟩
      rw [heq] at ho' hbt' hft' hall
      have hsame : ∀ u ≠ t, k₃.account u = k₁.account u := fun u hu => (ho' u hu).trans (ho u hu)
      have hcreations : ∀ u, (k.status u).unused = false → k₃.creations u = k.creations u :=
        fun u hk => (congrArg Account.creations (hsame u (hold u hk))).trans (congrFun hcr u)
      split
      · rename_i he
        cases he
        exact ⟨hb₁.modify hsame fun _ => hbt', hcreations⟩
      · rename_i hne he
        cases he
        refine ⟨hb₁.modify (t := t) (fun u hu => ?_) fun _ => ?_, hcreations⟩
        · rw [account_osInsertTCBToFreeList_of_ne hu, hsame u hu]
        · exact account_osInsertTCBToFreeList hbt' hft' (hall hne)

theorem InvWith.balanced_losTaskCreate (h : InvWith c pm run k) (hb : Balanced c k) :
    Balanced c (k.losTaskCreate c p n).1 ∧
      ∀ u, (k.status u).unused = false → (k.losTaskCreate c p n).1.creations u = k.creations u := by
  obtain ⟨hb', hc⟩ := h.balanced_losTaskCreateOnly hb
  simp only [Sched.losTaskCreate]
  split
  · rename_i k₁ e heq
    rw [heq] at hb' hc
    exact ⟨hb', hc⟩
  · rename_i k₁ t heq
    rw [heq] at hb' hc
    exact ⟨hb'.congr account_osSchedTaskEnQueue, fun u hu =>
      (congrFun (creations_congr account_osSchedTaskEnQueue) u).trans (hc u hu)⟩

/-! ## Deletion -/

theorem osRecycleTaskResources_creations :
    (k.osRecycleTaskResources t).creations = k.creations := by
  simp only [osRecycleTaskResources, freeStack]
  split_ifs <;> rfl

theorem balanced_finishDelete (hb : Balanced c k) (hf : t ∉ k.lists .losFreeTask) :
    Balanced c (finishDelete c k t) ∧ (finishDelete c k t).creations = k.creations := by
  have hb' : Balanced c (k.modifyTCB t fun cb => { cb with eventMask := 0 }) :=
    hb.congr (account_modifyTCB rfl rfl)
  simp only [finishDelete]
  split_ifs
  · -- the spare block has no account of its own
    have hend : (((k.modifyTCB t fun cb => { cb with eventMask := 0 }).setStatus t fun s =>
        { s with unused := true }).listTailInsert .taskRecycleList t).account = k.account := by simp
    refine ⟨(hb.congr hend).modify (fun u hu => ?_) fun hlt => absurd hlt (lt_irrefl _), rfl⟩
    simp [account, osRunningTaskDelete, hu]
  · exact ⟨hb', rfl⟩
  · exact ⟨hb'.osRecycleTaskResources hf, osRecycleTaskResources_creations⟩

theorem RunInv.balanced_losTaskDelete (h : RunInv c pm k) (hb : Balanced c k)
    (hp : (taskDelete t).Proper c pm k) : Balanced c (k.losTaskDelete c t).1 ∧
      (k.losTaskDelete c t).1.creations = k.creations := by
  rcases hres : k.losTaskDelete c t with ⟨k', e⟩
  cases (h.sched.losTaskDelete hp hres).2 with
  | refused _ _ hk =>
    rw [hk]
    exact ⟨hb, rfl⟩
  | deleted _ _ _ hu =>
    obtain ⟨l, hl⟩ := losTaskDelete_eq (show (k.losTaskDelete c t).2 = .ok by rw [hres])
    rw [hres] at hl
    have hinv : InvWith c pm (some k.runTask) { k with losTaskLock := l } :=
      h.sched.1.globals rfl rfl rfl rfl rfl h.sched.1.asserted
    have hpost : _ = k.account := hinv.account_osTaskJoinPostUnsafe (t := t)
    have hf := h.sched.1.notMem_free hu
    have hexit := (account_osSchedTaskExit (notMem_free_congr hpost hf)).trans hpost
    obtain ⟨hb', hc⟩ := balanced_finishDelete (hb.congr hexit) (notMem_free_congr hexit hf)
    rw [hl]
    exact ⟨hb', hc.trans (creations_congr hexit)⟩

/-! ## Booting -/

theorem balanced_osTaskInit (c : Config) : Balanced c (osTaskInit c) := fun t ht => by
  constructor <;> simp [osTaskInit, ht]

theorem balanced_losKernelInit
    (h : losKernelInit c swtmrStack idleStack = (k, .ok)) : Balanced c k := by
  have hidle : ∀ k₁, InvWith c True (some c.taskMaxNum) k₁ → Balanced c k₁ →
      k₁.osIdleTaskCreate c idleStack = (k, .ok) → Balanced c k := fun k₁ hinv hb hres => by
    unfold osIdleTaskCreate at hres
    obtain ⟨hb', -⟩ := hinv.balanced_losTaskCreateOnly hb
    split at hres
    · rename_i k₂ e heq
      rw [heq] at hb'
      cases hres
      exact hb'
    · rename_i k₂ t heq
      rw [heq] at hb'
      cases hres
      exact hb'.congr (account_osSchedTaskEnQueue)
  have hinit := invWith_osTaskInit c True
  unfold losKernelInit at h
  by_cases hsw : c.baseCoreSwtmr
  · rcases hx : (osTaskInit c).osSwtmrTaskCreate c swtmrStack with ⟨k₁, e⟩
    simp only [hsw, if_true, hx] at h
    split_ifs at h with he
    · simp_all
    · refine hidle k₁ (hinit.osSwtmrTaskCreate (fresh_osTaskInit c) hx).1 ?_ h
      unfold osSwtmrTaskCreate at hx
      obtain ⟨hb', -⟩ := hinit.balanced_losTaskCreate (balanced_osTaskInit c)
      split at hx
      · rename_i k₂ e' heq
        rw [heq] at hb'
        cases hx
        exact hb'
      · rename_i k₂ t heq
        rw [heq] at hb'
        cases hx
        exact hb'.congr (account_setStatus rfl)
  · simp only [hsw] at h
    simp at h
    exact hidle _ hinit (balanced_osTaskInit c) h

end Sched

namespace JoinSys

variable {c : Config} {k k' : Sched} {s : JoinSys} {t v : TaskID} {op : JoinOp}

/-- The accounts balance, and the block that a call of `LOS_TaskJoin` is to recycle has not been
used for another task since. -/
structure AccountInv (c : Config) (s : JoinSys) : Prop where
  inv : Inv c s
  balanced : Sched.Balanced c s.k
  creation : ∀ v call, s.joins v = some call → s.k.creations call.target = call.creation

section

variable (h : AccountInv c s)
include h

theorem AccountInv.keeps (hi : Inv c { s with k := k' })
    (hk : k'.account = s.k.account) : AccountInv c { s with k := k' } :=
  ⟨hi, h.balanced.congr hk, fun v call hv =>
    (congrFun (creations_congr hk) _).trans (h.creation v call hv)⟩

theorem AccountInv.creates (hi : Inv c { s with k := k' }) (hb : Sched.Balanced c k' ∧
      ∀ u, (s.k.status u).unused = false → k'.creations u = s.k.creations u) :
    AccountInv c { s with k := k' } :=
  ⟨hi, hb.1, fun v call hv =>
    (hb.2 _ (h.inv.target v call hv).2.2.1).trans (h.creation v call hv)⟩

theorem AccountInv.task {op : TaskOp} (hd : ∀ t, op ≠ .taskDelete t)
    (he : op.Enabled c s.k) (hp : op.Proper c True s.k) :
    AccountInv c { s with k := op.exec c s.k } := by
  have hi := h.inv.task hd he hp
  have hrun := h.inv.run
  by_cases hc : ∀ p n, op ≠ .taskCreateOnly p n ∧ op ≠ .taskCreate p n
  · exact h.keeps hi (hrun.account_exec he hc hd)
  · cases op with
    | taskCreateOnly => exact h.creates hi (hrun.sched.1.balanced_losTaskCreateOnly h.balanced)
    | taskCreate => exact h.creates hi (hrun.sched.1.balanced_losTaskCreate h.balanced)
    | _ => simp at hc

theorem AccountInv.taskDelete (hp : (taskDelete t).Proper c True s.k) :
    AccountInv c (exec c s (.task (.taskDelete t))) := by
  obtain ⟨hb, hc⟩ := h.inv.run.balanced_losTaskDelete h.balanced hp
  refine ⟨h.inv.taskDelete hp, hb, fun v call hv => ?_⟩
  have hv' : s.joins v = some call := by
    simp only [exec, leave] at hv
    split_ifs at hv
    · by_cases hvt : v = t
      · subst hvt
        simp at hv
      · simpa [hvt] using hv
    · exact hv
  exact (congrFun hc _).trans (h.creation v call hv')

theorem AccountInv.join {intActive : Bool} {r : Sched × Option Errno}
    (hi : Inv c (s.enter t r)) (hr : JoinSpec c t intActive s.k r) :
    AccountInv c (s.enter t r) := by
  have hnew : ∀ k', k'.account = s.k.account → Inv c (s.enter t (k', none)) →
      AccountInv c (s.enter t (k', none)) := fun k' hk hi => by
    have hcr := creations_congr hk
    refine ⟨hi, h.balanced.congr hk, fun v call hv => ?_⟩
    by_cases hvr : v = s.k.runTask
    · subst hvr
      simp only [enter, update_self, Option.some_inj] at hv
      subst hv
      exact congrFun hcr t
    · simp only [enter, update_of_ne hvr] at hv
      exact (congrFun hcr _).trans (h.creation v call hv)
  cases hr with
  | refused => exact h
  | detached => exact h.keeps hi (account_setStatus rfl)
  | waits => exact hnew _ (account_osSchedTaskWait (by simp)) hi
  | finished => exact hnew _ rfl hi

theorem AccountInv.taskJoinReturn {call : JoinCall} (he : Executing c s.k)
    (hv : s.joins s.k.runTask = some call) :
    AccountInv c { k := s.k.losTaskJoinReturn call.target
                   joins := update s.joins s.k.runTask none } := by
  have hf := h.inv.run.sched.1.notMem_free (h.inv.target _ call hv).2.2.1
  refine ⟨h.inv.taskJoinReturn he hv,
    (h.balanced.congr (account_setStatus rfl)).osRecycleTaskResources hf, fun v call' hv' => ?_⟩
  have hne : v ≠ s.k.runTask := by
    rintro rfl
    simp at hv'
  have hcr : (s.k.losTaskJoinReturn call.target).creations = s.k.creations :=
    osRecycleTaskResources_creations
  exact (congrFun hcr _).trans (h.creation v call' ((update_of_ne hne ..).symm.trans hv'))

theorem AccountInv.recycleFinishedTask : AccountInv c { s with k := s.k.osRecycleFinishedTask } :=
  h.creates h.inv.recycleFinishedTask
    ⟨h.inv.run.sched.1.balanced_recycleLoop _ h.balanced,
      fun u _ => congrFun (recycleLoop_creations _) u⟩

theorem AccountInv.step (he : Enabled c s op) (hc : Careful c s op) :
    AccountInv c (exec c s op) := by
  have hi := h.inv.step he hc
  cases op with
  | task op =>
    cases op with
    | taskDelete => exact h.taskDelete hc
    | _ => exact h.task (by simp) he hc
  | taskJoin t intActive => exact h.join hi (joinSpec_losTaskJoin c s.k t intActive)
  | taskDetach t intActive => exact h.join hi (joinSpec_losTaskDetach c s.k t intActive)
  | taskJoinReturn =>
    obtain ⟨call, hv⟩ := Option.ne_none_iff_exists'.mp he.2
    simp only [exec, hv]
    exact h.taskJoinReturn he.1 hv
  | recycleFinishedTask => exact h.recycleFinishedTask

end

theorem AccountInv.of_reaches (h : ((machine c).restrict (Careful c)).Reaches s) : AccountInv c s :=
  h.invariant (fun _ ⟨_, _, _, hk, hs⟩ => hs ▸
      ⟨.init hk, balanced_losKernelInit hk, fun _ _ hv => nomatch hv⟩)
    fun _ _ hinv ha => hinv.step ha.1 ha.2

theorem mem_of_unused {pm : Prop} {run : Option TaskID} (h : InvWith c pm run k)
    (ht : t < c.taskMaxNum) (hu : (k.status t).unused) :
    t ∈ k.lists .losFreeTask ∨ t ∈ k.lists .taskRecycleList := by
  obtain ⟨o, ho, hok⟩ := h.task t ht
  have hi := h.idle_of_unused ht hu
  have hpl := hok.placed
  match o, ho, hpl with
  | some .losFreeTask, ho, _ => exact .inl ho.mem
  | some .taskRecycleList, ho, _ => exact .inr ho.mem
  | some (.priQueueList p), ho, _ => exact absurd ho.mem (hi.priQueue p)
  | none, _, hpl => exact absurd (hpl.2.2.symm.trans hu) (by simp)
  | some (.joinList _), ho, _ => exact absurd ho.mem (h.notMem_wait rfl hi.pend)
  | some (.semList _), ho, _ => exact absurd ho.mem (h.notMem_wait rfl hi.pend)
  | some (.muxList _), ho, _ => exact absurd ho.mem (h.notMem_wait rfl hi.pend)
  | some (.readWriteList _ _), ho, _ => exact absurd ho.mem (h.notMem_wait rfl hi.pend)
  | some (.memList _), ho, _ => exact absurd ho.mem (h.notMem_wait rfl hi.pend)
  | some (.stEventList _), ho, _ => exact absurd ho.mem (h.notMem_wait rfl hi.pend)
  | some .waitSignalList, ho, _ => exact absurd ho.mem (h.notMem_wait rfl hi.pend)

inductive Place
  | free
  | recycle
  | created
deriving DecidableEq

/-- Being in `g_losFreeTask`, in `g_taskRecycleList` or in use as a task. -/
def At (k : Sched) (t : TaskID) : Place → Prop
  | .free => t ∈ k.lists .losFreeTask
  | .recycle => t ∈ k.lists .taskRecycleList
  | .created => (k.status t).unused = false

/-- Every control block is in exactly one place; it has entered the free list as often as it was
created, except for the task that uses it now; all stacks that were allocated for it have been freed
except for the one that is in use, and none is when it is free; and a call of `LOS_TaskJoin` is left
with the block of the task it was made for. -/
structure Recycled (c : Config) (s : JoinSys) : Prop where
  place : ∀ t < c.taskMaxNum, ∃! p, At s.k t p
  nodup : (s.k.lists .losFreeTask).Nodup ∧ (s.k.lists .taskRecycleList).Nodup
  entries : ∀ t < c.taskMaxNum, s.k.creations t =
    s.k.freeEntries t + (if t ∈ s.k.lists .losFreeTask then 0 else 1)
  stacked : ∀ t < c.taskMaxNum, s.k.stackAllocs t = s.k.stackFrees t +
    (if (s.k.status t).stackFree ∧ (s.k.taskCB t).topOfStack ≠ 0 then 1 else 0)
  freed : ∀ t < c.taskMaxNum, t ∈ s.k.lists .losFreeTask → s.k.stackAllocs t = s.k.stackFrees t
  joined : ∀ v call, s.joins v = some call → s.k.creations call.target = call.creation ∧
    (s.k.status call.target).unused = false

theorem AccountInv.recycled (h : AccountInv c s) : Recycled c s where
  place t ht := by
    have hinv := h.inv.run.sched.1
    have hboth : t ∈ s.k.lists .losFreeTask → t ∉ s.k.lists .taskRecycleList :=
      fun hf hr => hinv.notMem_free_of_recycle hr hf
    have hfree : t ∈ s.k.lists .losFreeTask → (s.k.status t).unused :=
      fun hm => (hinv.placed_of_mem hm).2
    have hrec : t ∈ s.k.lists .taskRecycleList → (s.k.status t).unused :=
      fun hm => (hinv.placed_of_mem hm).2.1
    cases hu : (s.k.status t).unused with
    | false =>
      refine ⟨.created, hu, fun p hp => ?_⟩
      cases p with
      | free => exact absurd (hu.symm.trans (hfree hp)) (by simp)
      | recycle => exact absurd (hu.symm.trans (hrec hp)) (by simp)
      | created => rfl
    | true =>
      rcases mem_of_unused hinv ht hu with hm | hm
      · refine ⟨.free, hm, fun p hp => ?_⟩
        cases p with
        | free => rfl
        | recycle => exact absurd hp (hboth hm)
        | created => exact absurd (hu.symm.trans hp) (by simp)
      · refine ⟨.recycle, hm, fun p hp => ?_⟩
        cases p with
        | free => exact absurd hm (hboth hp)
        | recycle => rfl
        | created => exact absurd (hu.symm.trans hp) (by simp)
  nodup := ⟨h.inv.run.sched.1.linked.nodup _, h.inv.run.sched.1.linked.nodup _⟩
  entries t ht := by simpa using (h.balanced t ht).entries
  stacked t ht := by simpa using (h.balanced t ht).stacked
  freed t ht hm := by
    have hb := h.balanced t ht
    have hs := hb.stacked
    rw [hb.free (by simpa using hm)] at hs
    simpa using hs
  joined v call hv := ⟨h.creation v call hv, (h.inv.target v call hv).2.2.1⟩

/-- In runs of careful calls every control block is recycled exactly once. -/
theorem recycled_of_reaches (h : ((machine c).restrict (Careful c)).Reaches s) : Recycled c s :=
  (AccountInv.of_reaches h).recycled

/-- A task waits for another one to finish, recycles its block, and the block is used again. -/
theorem recycled_of_reaches_joined : ∃ s,
    ((machine smallConfig).restrict (Careful smallConfig)).Reaches s ∧
    s.k.creations 1 = 2 ∧ s.k.stackFrees 1 = 1 ∧ Recycled smallConfig s := by
  have hr := (Machine.Reaches.start (M := (machine smallConfig).restrict (Careful smallConfig))
    ⟨smallBoot, 0, 1000, rfl, rfl⟩).run
    [.task (.taskCreate (userTask 7 true) 2000), .task (.taskCreate (userTask 5 false) 3000),
      .task (.schedStart 0), .taskJoin 1 false, .task (.taskSwitch 10), .task (.taskDelete 1),
      .task (.taskSwitch 20), .taskJoinReturn, .task (.taskCreate (userTask 9 false) 4000)]
    (by decide +kernel)
  exact ⟨_, hr, by decide +kernel, by decide +kernel, recycled_of_reaches hr⟩

/-- Task 2 calls `LOS_TaskJoin` for the finished task 1 and is preempted at the `LOS_Schedule` there
by task 3, which joins task 1 as well and recycles its block. -/
def joinTwice : List JoinOp :=
  [.task (.taskCreateOnly (userTask 20 true) 2000), .task (.taskCreate (userTask 9 false) 3000),
    .task (.taskCreateOnly (userTask 5 false) 4000), .task (.schedStart 0), .task (.taskDelete 1),
    .taskJoin 1 false, .task (.taskResume 3 5), .task (.taskSwitch 10), .taskJoin 1 false,
    .taskJoinReturn]

/-- When task 2 goes on, it puts the block of task 1 into the free list once more. If task 3 has
used the block for a new task meanwhile, task 2 takes it away from that task. -/
theorem joined_twice :
    (∃ s, (machine smallConfig).Reaches s ∧ s.k.creations 1 = 1 ∧ s.k.freeEntries 1 = 2 ∧
      (s.k.lists .losFreeTask).count 1 = 2) ∧
    ∃ s, (machine smallConfig).Reaches s ∧ s.k.runTask = 2 ∧ s.joins 2 = some ⟨1, 1⟩ ∧
      s.k.creations 1 = 2 ∧ (s.k.status 1).unused = false ∧ (s.k.status 1).exit = false ∧
      (machine smallConfig).allowed s .taskJoinReturn ∧
      ((exec smallConfig s .taskJoinReturn).k.status 1).unused = true ∧
      1 ∈ (exec smallConfig s .taskJoinReturn).k.lists .losFreeTask := by
  have hstart := Machine.Reaches.start (M := machine smallConfig)
    ⟨smallBoot, 0, 1000, rfl, rfl⟩
  refine ⟨⟨_, hstart.run (joinTwice ++ [.task (.taskDelay false 7), .task (.taskSwitch 20),
    .taskJoinReturn]) (by decide +kernel), ?_⟩,
    ⟨_, hstart.run (joinTwice ++ [.task (.taskCreate (userTask 20 false) 5000),
      .task (.taskDelay false 7), .task (.taskSwitch 20)]) (by decide +kernel), ?_⟩⟩
  all_goals decide +kernel

end JoinSys

end LiteOS.Kernel
