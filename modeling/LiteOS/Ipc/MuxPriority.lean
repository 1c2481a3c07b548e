import LiteOS.Ipc.MuxSteps
import LiteOS.Lib.Nesting

/-!
# Priorities of mutex owners

The owner of a mutex inherits the priority of a more urgent task that begins to wait and gets the
priority back that it had when it acquired the mutex. What this makes of the priorities depends on
the order in which a task gives its mutexes back, and on who waits when a mutex is handed over.
-/

namespace LiteOS.Kernel.MuxSys

open Lib Sched Function TaskView Muxes

variable {c : Config} {s s' : MuxSys} {op : MuxOp} {m mux swtmrStack idleStack : ℕ} {t u o : TaskID}
  {α : Type} {k k' k₁ : Sched}

/-! ## Getting the own priority back -/

/-- The mutexes as resources that save the priority of their owners. -/
@[simps]
def nesting (s : MuxSys) : Nesting ℕ TaskID ℕ where
  owner m := (s.muxes.allMux m).owner
  since := s.acquired
  saved m := (s.muxes.allMux m).priority
  clock := s.clock
  value t := (s.k.taskCB t).priority

/-- The running task owns the mutex, locked once, so that `LOS_MuxPost` gives it back. -/
def GivesBack (s : MuxSys) (mux : ℕ) : Prop :=
  (s.muxes.allMux mux).owner = some s.k.runTask ∧ (s.muxes.allMux mux).muxCount = 1
deriving Decidable

/-- No task gives the mutex back that it acquired first while it owns another one, unless the next
one has saved the same priority. Priorities are changed by mutexes only, owners of mutexes are not
deleted, and mutexes are locked less than 65535 times at once. -/
def FirstLast (c : Config) (s : MuxSys) : MuxOp → Prop
  | .task (.taskPriSet _ _) => False
  | .taskDelete t => ∀ m < c.muxLimit, (s.muxes.allMux m).owner ≠ some t
  | .muxPend mux _ _ => (s.muxes.allMux mux).owner = some s.k.runTask →
      (s.muxes.allMux mux).muxCount < 65535
  | .muxPost mux _ => s.GivesBack mux →
      ∀ m < c.muxLimit, m ≠ mux → (s.muxes.allMux m).owner = some s.k.runTask →
        (s.muxes.allMux m).priority = (s.muxes.allMux mux).priority ∨
          ∃ m' < c.muxLimit, m' ≠ mux ∧ (s.muxes.allMux m').owner = some s.k.runTask ∧
            s.acquired m' < max (s.acquired m) (s.acquired mux)
  | _ => True

instance (c : Config) (s : MuxSys) (op) : Decidable (FirstLast c s op) := by
  induction op using MuxOp.casesOn with
  | task op => induction op using TaskOp.casesOn <;> unfold FirstLast <;> infer_instance
  | _ => unfold FirstLast; infer_instance

structure BaseInv (c : Config) (s : MuxSys) : Prop where
  zero : ∀ m, (s.muxes.allMux m).muxCount = 0 → (s.muxes.allMux m).owner = none
  restores : s.nesting.Restores s.base (s.Live c)

theorem BaseInv.init : BaseInv c
    { k := k, muxes := osMuxInit c, base := fun t => (k.taskCB t).priority } where
  zero _ _ := rfl
  restores := ⟨fun _ _ _ => rfl, fun _ _ ht => (nomatch ht), fun _ _ ht => (nomatch ht),
    fun _ _ ht => (nomatch ht)⟩

theorem modify_field (s : MuxSys) (mux : ℕ) (g : LosMuxCB → α) (f : LosMuxCB → LosMuxCB) :
    (fun m => g ((s.muxes.modify mux f).allMux m)) =
      update (fun m => g (s.muxes.allMux m)) mux (g (f (s.muxes.allMux mux))) :=
  funext fun m => apply_update (fun _ => g) s.muxes.allMux mux _ m

variable {f : LosMuxCB → LosMuxCB} {cb : LosMuxCB}

theorem update_zero (h : ∀ m, (s.muxes.allMux m).muxCount = 0 → (s.muxes.allMux m).owner = none)
    (hcb : cb.muxCount = 0 → cb.owner = none) (m : ℕ) :
    (update s.muxes.allMux mux cb m).muxCount = 0 → (update s.muxes.allMux mux cb m).owner = none :=
  (forall_update_iff _ fun _ (cb : LosMuxCB) => cb.muxCount = 0 → cb.owner = none).2
    ⟨hcb, fun m _ => h m⟩ m

/-- The owners and what the mutexes have saved stay, and of the priorities those of tasks that own
nothing. -/
theorem BaseInv.frame (h : BaseInv c s)
    (hm : ∀ m, (s'.muxes.allMux m).owner = (s.muxes.allMux m).owner ∧
      (s'.muxes.allMux m).priority = (s.muxes.allMux m).priority)
    (hz : ∀ m, (s'.muxes.allMux m).muxCount = 0 → (s'.muxes.allMux m).owner = none)
    (ha : s'.acquired = s.acquired) (hclock : s'.clock = s.clock) (hb : s'.base = s.base)
    (hv : ∀ u, ∃ p q d o, (s'.k.taskCB u).view =
      { (s.k.taskCB u).view with priority := p, pend := q, timed := d, timeout := o })
    (hp : ∀ u, (∀ m, (s.muxes.allMux m).owner ≠ some u) →
      (s'.k.taskCB u).priority = (s.k.taskCB u).priority) : BaseInv c s' where
  zero := hz
  restores := by
    rw [live_congr hv, hb]
    exact h.restores.change (funext fun m => (hm m).1) ha (fun m _ _ => (hm m).2) hclock
      (fun m t ht => ⟨h.restores.live m t ht, rfl⟩) fun t hl hf => .inl ⟨hl, hp t hf, rfl⟩

theorem BaseInv.modified (h : BaseInv c s) (hm : s'.muxes.allMux = update s.muxes.allMux mux cb)
    (ho : cb.owner = (s.muxes.allMux mux).owner) (hp : cb.priority = (s.muxes.allMux mux).priority)
    (hz : cb.muxCount = 0 → (s.muxes.allMux mux).owner = none)
    (ha : s'.acquired = s.acquired) (hclock : s'.clock = s.clock) (hb : s'.base = s.base)
    (hk : s'.k = s.k) : BaseInv c s' := by
  refine h.frame (fun m => ?_) ?_ ha hclock hb (fun u => ⟨_, _, _, _, by rw [hk]⟩) fun u _ => by
    rw [hk]
  · rw [hm]
    exact ⟨update_field LosMuxCB.owner ho m, update_field LosMuxCB.priority hp m⟩
  · rw [hm]
    exact update_zero h.zero fun hc => ho.trans (hz hc)

theorem BaseInv.env {op : TaskOp} (h : BaseInv c s) (hop : ∀ t p, op ≠ .taskPriSet t p)
    (he : EnvSpec c op s.k k') : BaseInv c { s.noteTask (op.newTask c s.k) with k := k' } := by
  have hold : ∀ u, s.Live c u → (k'.status u).unused = false ∧ (k'.status u).exit = false :=
    fun u hu => ⟨he.env.unused u hu.2.1, (he.env.exit u hu.2.1).trans hu.2.2⟩
  -- a live control block that was unused has just been given to a new task
  have hnew : ∀ u, (k'.status u).unused = false → (k'.status u).exit = false →
      (u < c.taskMaxNum → s.Live c u) ∨ ∃ p, op.newTask c s.k = some (u, p) := by
    intro u hu hx
    cases hun : (s.k.status u).unused with
    | false => exact .inl fun hlt => ⟨hlt, hun, (he.env.exit u hun).symm.trans hx⟩
    | true =>
      refine .inr (by_contra fun hc => ?_)
      simp [he.unused u hun (fun p hp => hc ⟨p, hp⟩)] at hu
  rcases hn : op.newTask c s.k with _ | ⟨t, p⟩
  · refine ⟨h.zero, h.restores.change rfl rfl (fun _ _ _ => rfl) rfl ?_ ?_⟩
    · exact fun m t ht => ⟨⟨(h.restores.live m t ht).1, hold t (h.restores.live m t ht)⟩, rfl⟩
    · rintro u ⟨hlt, hu, hx⟩ -
      rcases hnew u hu hx with hl | ⟨p, hp⟩
      · exact .inl ⟨hl hlt, he.priority hop u (hl hlt).2.1, rfl⟩
      · simp [hn] at hp
  · obtain ⟨hun, hun', hp⟩ := he.created t p hn
    have hne : ∀ u, s.Live c u → u ≠ t := by
      rintro _ hu rfl
      simp [hu.2.1] at hun
    refine ⟨h.zero, h.restores.change rfl rfl (fun _ _ _ => rfl) rfl ?_ ?_⟩
    · intro m u hu
      have hl := h.restores.live m u hu
      exact ⟨⟨hl.1, hold u hl⟩, by simp [noteTask, hne u hl]⟩
    · rintro u ⟨hlt, hu, hx⟩ -
      rcases hnew u hu hx with hl | ⟨q, hq⟩
      · exact .inl ⟨hl hlt, he.priority hop u (hl hlt).2.1, by simp [noteTask, hne u (hl hlt)]⟩
      · obtain ⟨rfl, rfl⟩ : t = u ∧ p = q := by simpa [hn] using hq
        exact .inr (by simp [noteTask, hp])

theorem BaseInv.deletes (h : BaseInv c s)
    (ho : ∀ m, (s.muxes.allMux m).owner ≠ some t) (hd : Deletes c t s.k k') :
    BaseInv c { s with k := k', calls := s.calls.leave t } := by
  have hv : ∀ u ≠ t, u < c.taskMaxNum → (k'.taskCB u).view = (s.k.taskCB u).view :=
    fun u hu hlt => hd.others u hu hlt.ne
  refine ⟨h.zero, h.restores.change rfl rfl (fun _ _ _ => rfl) rfl ?_ ?_⟩
  · intro m u hu
    have hl := h.restores.live m u hu
    have hview := hv u (fun e => ho m (e ▸ hu)) hl.1
    exact ⟨⟨hl.1, (congrArg unused hview).trans hl.2.1, (congrArg exit hview).trans hl.2.2⟩, rfl⟩
  · rintro u ⟨hlt, hu, hx⟩ -
    have hne : u ≠ t := by
      rintro rfl
      rcases hd.gone with hg | hg <;> simp_all
    have hview := hv u hne hlt
    exact .inl ⟨⟨hlt, (congrArg unused hview).symm.trans hu,
      (congrArg exit hview).symm.trans hx⟩, congrArg priority hview, rfl⟩

theorem BaseInv.acquired {pends : ℕ → TaskID → ℕ} (h : BaseInv c s) (hx : Executing c s.k)
    (hc : (s.muxes.allMux mux).muxCount = 0) (hfc : ∀ cb, (f cb).muxCount = 1)
    (hfo : ∀ cb, (f cb).owner = some s.k.runTask)
    (hfp : ∀ cb, (f cb).priority = (s.k.taskCB s.k.runTask).priority) :
    BaseInv c { s.setMuxes mux (s.muxes.modify mux f) with k := s.k, pends := pends } := by
  have hnone := h.zero mux hc
  rw [setMuxes_of_ne (t := s.k.runTask) (by simp [hfo]) (by simp [hnone])]
  constructor
  · exact update_zero h.zero (by simp [hfc])
  · have hn := h.restores.take hnone ⟨hx.lt, hx.unused, hx.exit⟩
    have heq : nesting { s.noteOwner mux s.k.runTask with
        muxes := s.muxes.modify mux f, k := s.k, pends := pends } =
        s.nesting.take mux s.k.runTask :=
      Nesting.ext ((modify_field s mux LosMuxCB.owner f).trans (by rw [hfo]; rfl)) rfl
        ((modify_field s mux LosMuxCB.priority f).trans (by rw [hfp]; rfl)) rfl rfl
    rw [← heq] at hn
    exact hn

section

/-! The running task gives a mutex back. -/

variable {k₁ k' : Sched} {posts : ℕ → TaskID → ℕ} (h : BaseInv c s)
    (ho : (s.muxes.allMux mux).owner = some s.k.runTask)
    (hlast : ∀ m, m ≠ mux → (s.muxes.allMux m).owner = some s.k.runTask →
      (s.muxes.allMux m).priority = (s.muxes.allMux mux).priority ∨
        ∃ m', m' ≠ mux ∧ (s.muxes.allMux m').owner = some s.k.runTask ∧
          s.acquired m' < max (s.acquired m) (s.acquired mux))
    (hr : Reprioritises s.k.runTask (s.muxes.allMux mux).priority s.k k₁)

include h ho hlast hr

theorem BaseInv.giveBack : (s.nesting.giveBack mux s.k.runTask).Restores s.base (s.Live c) ∧
      (s.nesting.giveBack mux s.k.runTask).value = fun t => (k₁.taskCB t).priority := by
  refine ⟨h.restores.giveBack ho hlast, funext fun t => ?_⟩
  by_cases ht : t = s.k.runTask
  · subst ht
    simpa using (congrArg priority hr.self).symm
  · simpa [ht] using (congrArg priority (hr.others t ht)).symm

theorem BaseInv.freed (hfo : ∀ cb, (f cb).owner = none)
    (hfp : ∀ cb, (f cb).priority = cb.priority) :
    BaseInv c { s with k := k₁, muxes := s.muxes.modify mux f, posts := posts } := by
  obtain ⟨hn, hval⟩ := h.giveBack ho hlast hr
  constructor
  · exact update_zero h.zero fun _ => hfo _
  · rw [live_congr fun u => (hr.view u).imp fun p hp => ⟨_, _, _, hp⟩]
    have heq : nesting { s with k := k₁, muxes := s.muxes.modify mux f, posts := posts } =
        s.nesting.giveBack mux s.k.runTask :=
      Nesting.ext ((modify_field s mux LosMuxCB.owner f).trans (by rw [hfo]; rfl)) rfl
        ((modify_field s mux LosMuxCB.priority f).trans (by
          rw [hfp]
          exact update_eq_self mux _)) rfl hval.symm
    rw [← heq] at hn
    exact hn

theorem BaseInv.handed (hu : s.Live c u) (hne : u ≠ s.k.runTask) (hw : Wakes u k₁ k')
    (hfc : ∀ cb, (f cb).muxCount = 1)
    (hfo : ∀ cb, (f cb).owner = some u) (hfp : ∀ cb, (f cb).priority = (k₁.taskCB u).priority) :
    BaseInv c { s.setMuxes mux (s.muxes.modify mux f) with k := k', posts := posts } := by
  obtain ⟨hn, hval⟩ := h.giveBack ho hlast hr
  have hpri : ∀ t, (k'.taskCB t).priority = (k₁.taskCB t).priority := fun t => by
    obtain ⟨_, _, hq⟩ := hw.view t
    exact congrArg priority hq
  rw [setMuxes_of_ne (t := u) (by simp [hfo]) (by simpa [ho] using Ne.symm hne)]
  constructor
  · exact update_zero h.zero (by simp [hfc])
  · rw [live_congr (view_handed hr hw)]
    have hn' := hn.take (r := mux) (by simp) hu
    have heq : nesting { s.noteOwner mux u with
        muxes := s.muxes.modify mux f, k := k', posts := posts } =
        (s.nesting.giveBack mux s.k.runTask).take mux u := by
      refine Nesting.ext ((modify_field s mux LosMuxCB.owner f).trans ?_) rfl
        ((modify_field s mux LosMuxCB.priority f).trans ?_) rfl ((funext hpri).trans hval.symm)
      · rw [hfo]
        exact (update_idem _ _ _).symm
      · rw [hfp, ← congrFun hval u]
        rfl
    rw [← heq] at hn'
    exact hn'

end

theorem BaseInv.step (h : BaseInv c s) (hi : Inv c s) (hp : FirstLast c s op)
    (hs : Step c s op s') : BaseInv c s' := by
  have hlast : ∀ mux intActive, op = .muxPost mux intActive → s.GivesBack mux →
      ∀ m, m ≠ mux → (s.muxes.allMux m).owner = some s.k.runTask →
        (s.muxes.allMux m).priority = (s.muxes.allMux mux).priority ∨
          ∃ m', m' ≠ mux ∧ (s.muxes.allMux m').owner = some s.k.runTask ∧
            s.acquired m' < max (s.acquired m) (s.acquired mux) := by
    rintro mux _ rfl hc m hm ho
    exact (hp hc m (hi.lt_of_owner ho) hm ho).imp_right fun ⟨m', _, hm'⟩ => ⟨m', hm'⟩
  cases hs with
  | same => exact h
  | env _ _ he =>
    refine h.env (fun t p e => ?_) he
    subst e
    exact hp
  | deleted _ _ _ hd => exact h.deletes (fun m ho => hp m (hi.lt_of_owner ho) ho) hd
  | created mux unused hl =>
    have hblank := hi.blank mux (hi.free mux (by simp [hl]))
    refine h.modified rfl ?_ ?_ ?_ rfl rfl rfl rfl <;> simp [hblank]
  | acquired _ _ hx _ _ _ hc =>
    exact h.acquired hx hc (fun _ => rfl) (fun _ => rfl) fun _ => rfl
  | recursed mux _ _ _ _ _ ho =>
    refine h.modified rfl rfl rfl (fun hz => ?_) rfl rfl rfl rfl
    have hlt : (s.muxes.allMux mux).muxCount < 65535 := hp ho
    simp only at hz
    omega
  | blocked mux _ o _ _ _ _ _ _ _ ho _ hb _ hw =>
    refine h.frame (fun m => ⟨rfl, rfl⟩) h.zero rfl rfl rfl (hb.view_blocks hw) fun t ht => ?_
    exact hb.priority hw fun e => ht mux (e ▸ ho)
  | returned =>
    refine h.frame (fun m => ⟨rfl, rfl⟩) h.zero rfl rfl rfl (fun u => ?_) fun u _ => ?_
    · obtain ⟨o, ho⟩ := takeTimeout_view u
      exact ⟨_, _, _, o, ho⟩
    · obtain ⟨o, ho⟩ := takeTimeout_view u
      exact congrArg priority ho
  | released mux =>
    refine h.modified rfl rfl rfl (fun hz => ?_) rfl rfl rfl rfl
    simp only at hz
    omega
  | freed mux _ _ _ ho hc hr =>
    exact h.freed ho (hlast mux _ rfl ⟨ho, hc⟩) hr (fun _ => rfl) fun _ => rfl
  | handed mux u _ _ _ hx _ ho hc hr _ _ hl hw =>
    have hu := hi.run.sched.1.pend_of_mem (i := .muxList mux) rfl (t := u) (by simp [hl])
    refine h.handed ho (hlast mux _ rfl ⟨ho, hc⟩) hr ⟨hu.1, hu.2.2.1, hu.2.2.2⟩ ?_ hw (fun _ => rfl)
      (fun _ => rfl) fun _ => rfl
    rintro rfl
    simpa [hu.2.1] using hx.pend

theorem BaseInv.of_reaches (h : ((machine c).restrict (FirstLast c)).Reaches s) :
    Inv c s ∧ BaseInv c s :=
  invariant_of_steps h (fun _ _ _ _ => .init) fun _ _ _ hi _ hb hp hs => hb.step hi hp hs

/-- A task that owns no mutex has the priority that it was created with. -/
theorem priority_restored (h : ((machine c).restrict (FirstLast c)).Reaches s)
    (hl : s.Live c t) (ho : ∀ m, (s.muxes.allMux m).owner ≠ some t) :
    (s.k.taskCB t).priority = s.base t :=
  (BaseInv.of_reaches h).2.restores.free t hl ho

/-- A task of priority 20 acquires mutex 0 and, with the priority 10 that it inherits there, mutex
1; then a task of priority 10 waits for mutex 0. -/
def inheriting : List MuxOp :=
  [.task (.taskCreate (userTask 20 false) 2000), .task (.schedStart 0), .muxCreate, .muxCreate,
    .muxPend 0 7 false, .task (.taskCreate (userTask 10 false) 3000), .task (.taskSwitch 10),
    .muxPend 0 7 false, .task (.taskSwitch 20), .muxPend 1 7 false]

/-- The task gives mutex 1 back before mutex 0. -/
theorem priority_restored_nested : ∃ s,
    ((machine smallConfig).restrict (FirstLast smallConfig)).Reaches s ∧ s.base 1 = 20 ∧
    (s.muxes.allMux 0).owner = some 2 ∧ (s.k.taskCB 1).priority = s.base 1 := by
  have hr := (restrict_reaches_smallSys (P := FirstLast smallConfig)).run
    (inheriting ++ [.muxPost 1 false, .muxPost 0 false]) (by decide +kernel)
  exact ⟨_, hr, by decide +kernel, by decide +kernel, priority_restored hr (by decide +kernel)
    ((BaseInv.of_reaches hr).1.owner_ne (by decide +kernel))⟩

/-- The task gives mutex 0 back first. Mutex 1 has saved the inherited priority, and gives that
priority to a task that then owns no mutex. -/
theorem priority_kept_boosted : ∃ s, (machine smallConfig).Reaches s ∧ s.Live smallConfig 1 ∧
    (∀ m, (s.muxes.allMux m).owner ≠ some 1) ∧ s.base 1 = 20 ∧ (s.k.taskCB 1).priority = 10 := by
  have hr := reaches_smallSys.run (inheriting ++ [.muxPost 0 false, .task (.taskSwitch 30),
    .muxPendReturn, .task (.taskDelay false 5), .task (.taskSwitch 40), .muxPost 1 false])
    (by decide +kernel)
  exact ⟨_, hr, by decide +kernel, (Inv.of_reaches hr).owner_ne (by decide +kernel),
    by decide +kernel⟩

/-! ## A single mutex -/

/-- Only mutex `m` is used, priorities are changed by it only, its owner is not deleted, and it is
locked less than 65535 times at once. When it is handed over, the task that has waited longest is as
urgent as the others that wait. -/
def UrgentFirst (m : ℕ) (s : MuxSys) : MuxOp → Prop
  | .task (.taskPriSet _ _) => False
  | .taskDelete t => (s.muxes.allMux m).owner ≠ some t
  | .muxPend mux _ _ => mux = m ∧ ((s.muxes.allMux m).owner = some s.k.runTask →
      (s.muxes.allMux m).muxCount < 65535)
  | .muxPost mux _ => mux = m → s.GivesBack m →
      ∀ u ∈ (s.k.lists (.muxList m)).head?, ∀ v ∈ s.k.lists (.muxList m),
        (s.k.taskCB u).priority ≤ (s.k.taskCB v).priority
  | _ => True

instance (m : ℕ) (s : MuxSys) (op) : Decidable (UrgentFirst m s op) := by
  induction op using MuxOp.casesOn with
  | task op => induction op using TaskOp.casesOn <;> unfold UrgentFirst <;> infer_instance
  | _ => unfold UrgentFirst; infer_instance

/-- The owner of mutex `m` is at least as urgent as the tasks that wait for it. -/
structure UrgentInv (m : ℕ) (s : MuxSys) : Prop where
  zero : (s.muxes.allMux m).muxCount = 0 → (s.muxes.allMux m).owner = none
  empty : (s.muxes.allMux m).owner = none → s.k.lists (.muxList m) = []
  live : ∀ o, (s.muxes.allMux m).owner = some o → (s.k.status o).unused = false
  others : ∀ mux ≠ m, (s.muxes.allMux mux).owner = none
  urgent : ∀ o, (s.muxes.allMux m).owner = some o → ∀ v ∈ s.k.lists (.muxList m),
    (s.k.taskCB o).priority ≤ (s.k.taskCB v).priority

theorem UrgentInv.init (h : losKernelInit c swtmrStack idleStack = (k, .ok)) : UrgentInv m
    { k := k, muxes := osMuxInit c, base := fun t => (k.taskCB t).priority } := by
  have hb := booted_of_losKernelInit False h
  have hl := hb.inv.1.lists_eq_nil_of_fresh hb.fresh (i := .muxList m) rfl
  constructor <;> simp [osMuxInit, hl]

theorem UrgentInv.frame (h : UrgentInv m s)
    (hm : ∀ mux, (s'.muxes.allMux mux).owner = (s.muxes.allMux mux).owner)
    (hz : (s'.muxes.allMux m).muxCount = 0 → (s.muxes.allMux m).owner = none)
    (ho : ∀ o, (s.muxes.allMux m).owner = some o → (s'.k.status o).unused = false ∧
      (s'.k.taskCB o).priority = (s.k.taskCB o).priority)
    (hl : ∀ v ∈ s'.k.lists (.muxList m), v ∈ s.k.lists (.muxList m) ∧
      (s'.k.taskCB v).priority = (s.k.taskCB v).priority) : UrgentInv m s' where
  zero hc := (hm m).trans (hz hc)
  empty hn := by
    have hempty := h.empty ((hm m).symm.trans hn)
    refine List.eq_nil_iff_forall_not_mem.mpr fun v hv => ?_
    simpa [hempty] using (hl v hv).1
  live o hown := (ho o ((hm m).symm.trans hown)).1
  others mux hne := (hm mux).trans (h.others mux hne)
  urgent o hown v hv := by
    have hown' := (hm m).symm.trans hown
    rw [(ho o hown').2, (hl v hv).2]
    exact h.urgent o hown' v (hl v hv).1

theorem UrgentInv.blocked (h : UrgentInv m s)
    (ho : (s.muxes.allMux m).owner = some o) (hb : Boosts o s.k k₁)
    (hrun : k₁.runTask = s.k.runTask) (hw : Blocks (.muxList m) k₁ k') :
    UrgentInv m { s with k := k', calls := s.calls.enter s.k.runTask ⟨m⟩ } := by
  have hpri : (k'.taskCB o).priority = (k₁.taskCB o).priority := by
    obtain ⟨_, _, hq⟩ := hw.view o
    exact congrArg priority hq
  refine ⟨h.zero, fun hn => by simp [ho] at hn, fun o' ho' => ?_, h.others, fun o' ho' v hv => ?_⟩
  · obtain ⟨q, d, hq⟩ := hw.view o'
    obtain ⟨p, hp⟩ := hb.view o'
    exact (congrArg unused hq).trans ((congrArg unused hp).trans (h.live o' ho'))
  · obtain rfl : o = o' := Option.some.inj (ho.symm.trans ho')
    have hv' : v ∈ s.k.lists (.muxList m) ∨ v = s.k.runTask := by
      simpa [hw.lists, hb.lists (i := .muxList m) rfl, hrun] using hv
    by_cases hvo : v = o
    · rw [hvo]
    rw [hpri, hb.priority hw hvo]
    cases hb with
    | none hle hq =>
      rw [show (k₁.taskCB o).priority = (s.k.taskCB o).priority from
        congrArg priority (hq.view o)]
      rcases hv' with hv' | rfl
      · exact h.urgent o ho v hv'
      · exact hle
    | boost hlt hr =>
      rw [show (k₁.taskCB o).priority = (s.k.taskCB s.k.runTask).priority from
        congrArg priority hr.self]
      rcases hv' with hv' | rfl
      · exact hlt.le.trans (h.urgent o ho v hv')
      · exact le_rfl

theorem UrgentInv.owned (h : UrgentInv m s) (hm : s'.muxes = s.muxes.modify m f)
    (hfc : ∀ cb, (f cb).muxCount = 1) (hfo : ∀ cb, (f cb).owner = some u)
    (hu : (s'.k.status u).unused = false)
    (hl : ∀ v ∈ s'.k.lists (.muxList m), (s'.k.taskCB u).priority ≤ (s'.k.taskCB v).priority) :
    UrgentInv m s' := by
  constructor <;> simp only [hm, modify_allMux, update_self, hfc, hfo]
  · simp
  · simp
  · rintro _ ⟨⟩
    exact hu
  · intro mux hne
    simpa [hne] using h.others mux hne
  · rintro _ ⟨⟩
    exact hl

theorem UrgentInv.step (h : UrgentInv m s) (hi : Inv c s) (hp : UrgentFirst m s op)
    (hs : Step c s op s') : UrgentInv m s' := by
  have hmem : ∀ v ∈ s.k.lists (.muxList m), v < c.taskMaxNum ∧ (s.k.status v).unused = false :=
    fun v hv => ⟨(hi.run.sched.1.pend_of_mem rfl hv).1, (hi.run.sched.1.pend_of_mem rfl hv).2.2.1⟩
  -- a mutex that has an owner is `m`
  have honly : ∀ mux o, (s.muxes.allMux mux).owner = some o → mux = m := fun mux o ho => by
    by_contra hne
    simp [h.others mux hne] at ho
  cases hs with
  | same => exact h
  | env op k' he =>
    have hop : ∀ t p, op ≠ .taskPriSet t p := by
      rintro t p rfl
      exact hp
    obtain ⟨base, born, hnote⟩ := noteTask_eq (op.newTask c s.k)
    rw [hnote]
    refine h.frame (fun _ => rfl) h.zero (fun o ho => ?_) fun v hv => ?_
    · exact ⟨he.env.unused o (h.live o ho), he.priority hop o (h.live o ho)⟩
    · have hv' : v ∈ s.k.lists (.muxList m) := by
        rw [he.env.lists _ rfl] at hv
        exact (List.mem_filter.mp hv).1
      exact ⟨hv', he.priority hop v (hmem v hv').2⟩
  | deleted t k' _ hd =>
    have hview : ∀ v ≠ t, v < c.taskMaxNum → (k'.taskCB v).view = (s.k.taskCB v).view :=
      fun v hv hlt => hd.others v hv hlt.ne
    refine h.frame (fun _ => rfl) h.zero (fun o ho => ?_) fun v hv => ?_
    · have := hview o (by rintro rfl; exact hp ho) (hi.owner m o ho).1
      exact ⟨(congrArg unused this).trans (h.live o ho), congrArg priority this⟩
    · have hv := hv
      rw [hd.lists _ rfl] at hv
      have hv' := List.mem_of_mem_erase hv
      refine ⟨hv', congrArg priority (hview v ?_ (hmem v hv').1)⟩
      rintro rfl
      exact ((hi.run.sched.1.linked.nodup _).mem_erase_iff.mp hv).1 rfl
  | created mux _ hl =>
    have hblank := hi.blank mux (hi.free mux (by simp [hl]))
    exact h.frame (update_field LosMuxCB.owner (by simp [hblank]))
      (fun hc => h.zero ((update_field LosMuxCB.muxCount (by simp [hblank]) m).symm.trans hc))
      (fun o ho => ⟨h.live o ho, rfl⟩) fun v hv => ⟨hv, rfl⟩
  | acquired _ _ hx _ _ _ hc =>
    obtain ⟨rfl, -⟩ := hp
    refine h.owned (setMuxes_muxes _) (fun _ => rfl) (fun _ => rfl) hx.unused fun v hv => ?_
    simp [h.empty (h.zero hc)] at hv
  | recursed mux _ _ _ _ hc ho =>
    obtain ⟨rfl, hlt⟩ := hp
    refine h.frame (update_field LosMuxCB.owner rfl) (fun hc => ?_)
      (fun o ho => ⟨h.live o ho, rfl⟩) fun v hv => ⟨hv, rfl⟩
    have hlt := hlt ho
    simp only [modify_allMux, update_self] at hc
    omega
  | blocked _ _ _ _ _ _ _ _ _ _ ho _ hb hrun hw =>
    obtain ⟨rfl, -⟩ := hp
    exact h.blocked ho hb hrun hw
  | returned =>
    refine h.frame (fun _ => rfl) h.zero (fun o ho => ?_) fun v hv => ?_
    · obtain ⟨_, hv⟩ := takeTimeout_view o
      exact ⟨(congrArg unused hv).trans (h.live o ho), congrArg priority hv⟩
    · obtain ⟨_, hview⟩ := takeTimeout_view v
      exact ⟨by simpa [takeTimeout_lists] using hv, congrArg priority hview⟩
  | released mux _ _ ho =>
    refine h.frame (update_field LosMuxCB.owner rfl) (fun hz => ?_)
      (fun o ho => ⟨h.live o ho, rfl⟩) fun v hv => ⟨hv, rfl⟩
    obtain rfl := honly mux _ ho
    simp only [modify_allMux, update_self] at hz
    omega
  | freed mux _ _ _ ho _ hr hl =>
    obtain rfl := honly mux _ ho
    refine ⟨by simp, fun _ => (hr.lists _ rfl).trans hl, by simp, fun mux' hne => ?_, by simp⟩
    simpa [hne] using h.others mux' hne
  | handed mux u _ _ k' hx _ ho hc hr _ _ hl hw =>
    obtain rfl := honly mux _ ho
    -- the running task does not wait, so that no priority of a waiting task changes
    have hpri : ∀ v ∈ s.k.lists (.muxList mux),
        (k'.taskCB v).priority = (s.k.taskCB v).priority := fun v hv => by
      have hne : v ≠ s.k.runTask := by
        rintro rfl
        simpa [hx.pend] using (hi.run.sched.1.pend_of_mem rfl hv).2.1
      obtain ⟨_, _, hq⟩ := hw.view v
      exact congrArg priority (hq.trans (by rw [hr.others v hne]))
    have humem : u ∈ s.k.lists (.muxList mux) := by simp [hl]
    refine h.owned (setMuxes_muxes _) (fun _ => rfl) (fun _ => rfl) ?_ fun v hv => ?_
    · obtain ⟨p, hv⟩ := hr.view u
      exact (congrArg unused hw.self).trans
        ((congrArg unused hv).trans (hmem u humem).2)
    · have hv := hv
      rw [hw.lists _ rfl, hr.lists _ rfl] at hv
      have hvmem := List.mem_of_mem_erase hv
      rw [hpri u humem, hpri v hvmem]
      exact hp rfl ⟨ho, hc⟩ u (by simp [hl]) v hvmem

/-- The owner of the mutex is at least as urgent as every task that waits for it. -/
theorem owner_urgent (h : ((machine c).restrict (UrgentFirst m)).Reaches s)
    (ho : (s.muxes.allMux m).owner = some t) (hu : u ∈ s.k.lists (.muxList m)) :
    (s.k.taskCB t).priority ≤ (s.k.taskCB u).priority :=
  (invariant_of_steps h (fun _ _ _ hk => UrgentInv.init hk) fun _ _ _ hi _ hu hp hs =>
    UrgentInv.step hu hi hp hs).2.urgent t ho u hu

/-- A task of priority 20 owns the mutex; tasks of priority `p` and `q` wait for it in this
order. -/
def twoWaiting (p q : ℕ) : List MuxOp :=
  [.task (.taskCreate (userTask 20 false) 2000), .task (.schedStart 0), .muxCreate,
    .muxPend 0 7 false, .task (.taskCreate (userTask p false) 3000), .task (.taskSwitch 10),
    .muxPend 0 7 false, .task (.taskSwitch 20), .task (.taskCreate (userTask q false) 4000),
    .task .taskYield, .task (.taskSwitch 30), .muxPend 0 7 false, .task (.taskSwitch 40)]

/-- The two are equally urgent, and the first gets the mutex. -/
theorem owner_urgent_handed : ∃ s, ((machine smallConfig).restrict (UrgentFirst 0)).Reaches s ∧
    (s.muxes.allMux 0).owner = some 2 ∧ 3 ∈ s.k.lists (.muxList 0) ∧
    (s.k.taskCB 2).priority ≤ (s.k.taskCB 3).priority := by
  have hr := (restrict_reaches_smallSys (P := UrgentFirst 0)).run
    (twoWaiting 10 10 ++ [.muxPost 0 false]) (by decide +kernel)
  exact ⟨_, hr, by decide +kernel, by decide +kernel,
    owner_urgent hr (by decide +kernel) (by decide +kernel)⟩

/-- The second of the two is the more urgent one and goes on waiting for the first. -/
theorem inversion_after_hand_over : ∃ s, (machine smallConfig).Reaches s ∧
    (s.muxes.allMux 0).owner = some 2 ∧ s.k.lists (.muxList 0) = [3] ∧
    (s.k.taskCB 2).priority = 15 ∧ (s.k.taskCB 3).priority = 10 := by
  have hr := reaches_smallSys.run (twoWaiting 15 10 ++ [.muxPost 0 false]) (by decide +kernel)
  exact ⟨_, hr, by decide +kernel⟩

end LiteOS.Kernel.MuxSys
