import LiteOS.Ipc.MuxSteps

/-!
# Ownership of a mutex

The protocol of one mutex among any number of others: who owns it, how often the owner has locked
it, what `LOS_MuxPend` and `LOS_MuxPost` answer, and to whom the mutex passes.
-/

namespace LiteOS.Kernel.MuxSys

open Lib Sched Function TaskView Muxes

variable {c : Config} {s s' : MuxSys} {op : MuxOp} {m mux swtmrStack idleStack timeout : ℕ}
  {t u v : TaskID} {f : LosMuxCB → LosMuxCB} {k : Sched}

/-- The tasks that own or wait for mutex `m` are not deleted, and it is locked less than 65535 times
at once. -/
def Protocol (m : ℕ) (s : MuxSys) : MuxOp → Prop
  | .taskDelete t => (s.muxes.allMux m).owner ≠ some t ∧ t ∉ s.k.lists (.muxList m)
  | .muxPend mux _ _ => mux = m → (s.muxes.allMux m).muxCount < 65535
  | _ => True

instance (m : ℕ) (s : MuxSys) (op) : Decidable (Protocol m s op) := by
  induction op using MuxOp.casesOn <;> unfold Protocol <;> infer_instance

/-- The invariant of mutex `m`. -/
structure OwnerInv (m : ℕ) (s : MuxSys) : Prop where
  count : (s.muxes.allMux m).muxCount ≠ 0 ↔ (s.muxes.allMux m).owner ≠ none
  bound : (s.muxes.allMux m).muxCount < 2 ^ 16
  empty : (s.muxes.allMux m).owner = none → s.k.lists (.muxList m) = []
  live : ∀ o, (s.muxes.allMux m).owner = some o →
    (s.k.status o).unused = false ∧ (s.k.status o).systemTask = false
  calls : ∀ t r, s.calls.pc t = some r → (s.k.status t).systemTask = false
  granted : ∀ t, s.calls.pc t = some ⟨m⟩ →
    (Granted s.k s.calls t ⟨m⟩ ↔ (s.muxes.allMux m).owner = some t)
  balance : ∀ t, s.pends m t + (if Granted s.k s.calls t ⟨m⟩ then 1 else 0) =
    s.posts m t + if (s.muxes.allMux m).owner = some t then (s.muxes.allMux m).muxCount else 0

theorem OwnerInv.init (h : losKernelInit c swtmrStack idleStack = (k, .ok)) : OwnerInv m
    { k := k, muxes := osMuxInit c, base := fun t => (k.taskCB t).priority } := by
  have hb := booted_of_losKernelInit False h
  have hl := hb.inv.1.lists_eq_nil_of_fresh hb.fresh (i := .muxList m) rfl
  constructor <;> simp [osMuxInit, Granted, hl]

section

variable (h : OwnerInv m s) (hm : s'.muxes.allMux m = s.muxes.allMux m)
include h hm

theorem OwnerInv.frame
    (hpc : s'.calls.pc = s.calls.pc) (hpe : s'.pends m = s.pends m) (hpo : s'.posts m = s.posts m)
    (hl : s.k.lists (.muxList m) = [] → s'.k.lists (.muxList m) = [])
    (hlive : ∀ o, (s.k.status o).unused = false → (s'.k.status o).unused = false)
    (hsys : ∀ t, (s.muxes.allMux m).owner = some t ∨ (s.calls.pc t).isSome →
      (s'.k.status t).systemTask = (s.k.status t).systemTask)
    (hg : ∀ t, Granted s'.k s'.calls t ⟨m⟩ ↔ Granted s.k s.calls t ⟨m⟩) : OwnerInv m s' := by
  constructor <;> simp only [hm, hpc, hpe, hpo, hg]
  · exact h.count
  · exact h.bound
  · exact fun ho => hl (h.empty ho)
  · exact fun o ho => ⟨hlive o (h.live o ho).1, (hsys o (.inl ho)).trans (h.live o ho).2⟩
  · exact fun t r hr => (hsys t (.inr (by simp [hr]))).trans (h.calls t r hr)
  · exact h.granted
  · exact h.balance

theorem OwnerInv.of_eq (hk : s'.k = s.k) (hc : s'.calls = s.calls) (hpe : s'.pends m = s.pends m)
    (hpo : s'.posts m = s.posts m) : OwnerInv m s' :=
  h.frame hm (by rw [hc]) hpe hpo (by simp [hk]) (by simp [hk]) (by simp [hk]) (by simp [hk, hc])

end

theorem not_granted_runTask (hn : s.calls.pc s.k.runTask = none) :
    ¬Granted s.k s.calls s.k.runTask ⟨m⟩ := by
  simp [Granted, hn]

section

variable (h : OwnerInv m s) (hn : s.calls.pc s.k.runTask = none)
include h hn

/-- The running task takes or gives back a mutex of which no other task is or becomes the owner. -/
theorem OwnerInv.modified {pends posts : ℕ → TaskID → ℕ} {cb : LosMuxCB}
    (hcb : f (s.muxes.allMux m) = cb)
    (hold : ∀ t, (s.muxes.allMux m).owner = some t → t = s.k.runTask)
    (hcount : cb.muxCount ≠ 0 ↔ cb.owner ≠ none) (hbound : cb.muxCount < 2 ^ 16)
    (hempty : cb.owner = none → s.k.lists (.muxList m) = [])
    (hlive : ∀ t, cb.owner = some t → t = s.k.runTask ∧
      (s.k.status t).unused = false ∧ (s.k.status t).systemTask = false)
    (hothers : ∀ t ≠ s.k.runTask, pends m t = s.pends m t ∧ posts m t = s.posts m t)
    (hbalance : s.pends m s.k.runTask = s.posts m s.k.runTask +
        (if (s.muxes.allMux m).owner = some s.k.runTask then (s.muxes.allMux m).muxCount else 0) →
      pends m s.k.runTask = posts m s.k.runTask +
        if cb.owner = some s.k.runTask then cb.muxCount else 0) :
    OwnerInv m { s with muxes := s.muxes.modify m f, pends := pends, posts := posts } := by
  have hne : ∀ t ≠ s.k.runTask, (s.muxes.allMux m).owner ≠ some t ∧ cb.owner ≠ some t :=
    fun t ht => ⟨fun ho => ht (hold t ho), fun ho => ht (hlive t ho).1⟩
  constructor <;> simp only [modify_allMux, update_self, hcb]
  · exact hcount
  · exact hbound
  · exact hempty
  · exact fun o ho => (hlive o ho).2
  · exact h.calls
  · intro t ht
    have := hne t (by rintro rfl; simp [hn] at ht)
    simpa [this] using h.granted t ht
  · intro t
    have hb := h.balance t
    by_cases ht : t = s.k.runTask
    · subst ht
      simp only [not_granted_runTask hn] at hb ⊢
      exact hbalance hb
    · simpa [hothers t ht, hne t ht] using hb

theorem OwnerInv.acquired
    (hx : Executing c s.k) (hsys : (s.k.status s.k.runTask).systemTask = false)
    (hc : (s.muxes.allMux m).muxCount = 0)
    (hfc : ∀ cb, (f cb).muxCount = 1) (hfo : ∀ cb, (f cb).owner = some s.k.runTask) :
    OwnerInv m { s with
      muxes := s.muxes.modify m f
      pends := bumpTask s.pends m s.k.runTask } := by
  have hnone : (s.muxes.allMux m).owner = none := by
    by_contra ho
    exact h.count.mpr ho hc
  refine h.modified hn rfl ?_ ?_ ?_ ?_ ?_ ?_ ?_ <;>
    simp +contextual [hnone, hfc, hfo, bumpTask_self]
  exact ⟨hx.unused, hsys⟩

theorem OwnerInv.recursed
    (hlt : (s.muxes.allMux m).muxCount < 65535) (ho : (s.muxes.allMux m).owner = some s.k.runTask) :
    OwnerInv m { s with
      muxes := s.muxes.modify m fun cb => { cb with muxCount := (cb.muxCount + 1) % 2 ^ 16 }
      pends := bumpTask s.pends m s.k.runTask } := by
  refine h.modified hn rfl ?_ ?_ ?_ ?_ ?_ ?_ ?_ <;> simp +contextual [ho, bumpTask_self]
  · omega
  · omega
  · exact h.live _ ho
  · omega

theorem OwnerInv.released
    (hlt : 1 < (s.muxes.allMux m).muxCount) (ho : (s.muxes.allMux m).owner = some s.k.runTask) :
    OwnerInv m { s with
      muxes := s.muxes.modify m fun cb => { cb with muxCount := cb.muxCount - 1 }
      posts := bumpTask s.posts m s.k.runTask } := by
  have hbound := h.bound
  refine h.modified hn rfl ?_ ?_ ?_ ?_ ?_ ?_ ?_ <;> simp +contextual [ho, bumpTask_self]
  · omega
  · omega
  · exact h.live _ ho
  · omega

theorem OwnerInv.freed
    (ho : (s.muxes.allMux m).owner = some s.k.runTask) (hc : (s.muxes.allMux m).muxCount = 1)
    (hl : s.k.lists (.muxList m) = []) : OwnerInv m { s with
      muxes := s.muxes.modify m fun cb => { cb with muxCount := 0, owner := none }
      posts := bumpTask s.posts m s.k.runTask } := by
  refine h.modified hn rfl ?_ ?_ ?_ ?_ ?_ ?_ ?_ <;> simp +contextual [ho, hc, hl, bumpTask_self]

end

theorem OwnerInv.returned {r : MuxRequest} (h : OwnerInv m s)
    (hx : Executing c s.k) (hr : s.calls.pc s.k.runTask = some r) : OwnerInv m { s with
      k := (s.k.takeTimeout s.k.runTask).1
      calls := s.calls.leave s.k.runTask
      pends := if (s.k.status s.k.runTask).timeout then s.pends
        else bumpTask s.pends r.mux s.k.runTask } := by
  have hst : ∀ o, ((s.k.takeTimeout s.k.runTask).1.status o).unused = (s.k.status o).unused ∧
      ((s.k.takeTimeout s.k.runTask).1.status o).systemTask = (s.k.status o).systemTask := by
    intro o
    by_cases hne : o = s.k.runTask
    · subst hne
      simp [takeTimeout_taskCB]
    · simp [takeTimeout_taskCB_of_ne hne]
  refine ⟨h.count, h.bound, fun ho => ?_, fun o ho => ?_, fun t r' hr' => ?_, fun t ht => ?_,
    fun t => ?_⟩
  · rw [takeTimeout_lists]
    exact h.empty ho
  · rw [(hst o).1, (hst o).2]
    exact h.live o ho
  · have hne : t ≠ s.k.runTask := by
      rintro rfl
      simp at hr'
    rw [(hst t).2]
    exact h.calls t r' (by simpa [hne] using hr')
  · have hne : t ≠ s.k.runTask := by
      rintro rfl
      simp at ht
    rw [granted_leave_of_ne hne]
    exact h.granted t (by simpa [hne] using ht)
  · have hb := h.balance t
    by_cases hne : t = s.k.runTask
    · subst hne
      have hg : Granted s.k s.calls s.k.runTask ⟨m⟩ ↔
          r.mux = m ∧ (s.k.status s.k.runTask).timeout = false := by
        have hrm : r = ⟨m⟩ ↔ r.mux = m := by
          constructor
          all_goals
            rintro rfl
            rfl
        simp only [Granted, hr, Option.some.injEq, hrm]
        exact and_congr_right fun _ => and_iff_right hx.pend
      simp only [not_granted_leave]
      simp only [hg] at hb
      cases hto : (s.k.status s.k.runTask).timeout with
      | true => simpa [hto] using hb
      | false =>
        by_cases hrm : r.mux = m
        · subst hrm
          simpa [hto, bumpTask_self] using hb
        · simpa [hrm, bumpTask_of_ne (Ne.symm hrm)] using hb
    · simp only [granted_leave_of_ne hne]
      cases hto : (s.k.status s.k.runTask).timeout with
      | true => simpa using hb
      | false =>
        by_cases hrm : r.mux = m
        · subst hrm
          simpa [bumpTask_self, hne] using hb
        · simpa [bumpTask_of_ne (Ne.symm hrm)] using hb

variable {k' : Sched} {m' muxes : Muxes}

section

variable (h : OwnerInv m s)
include h

theorem OwnerInv.frame_view (hl : k'.lists (.muxList m) = s.k.lists (.muxList m))
    (hv : ∀ u, ∃ p, (k'.taskCB u).view = { (s.k.taskCB u).view with priority := p }) :
    OwnerInv m { s with k := k' } := by
  refine h.frame rfl rfl rfl rfl hl.trans (fun o => ?_) (fun t _ => ?_) fun t => ?_
  · obtain ⟨p, he⟩ := hv o
    exact (congrArg unused he).trans
  · obtain ⟨p, he⟩ := hv t
    exact congrArg systemTask he
  · obtain ⟨p, he⟩ := hv t
    exact granted_congr_view he

theorem OwnerInv.blocks (hn : s.calls.pc s.k.runTask = none)
    (hsys : (s.k.status s.k.runTask).systemTask = false) (ho : (s.muxes.allMux mux).owner ≠ none)
    (hne : (s.muxes.allMux mux).owner ≠ some s.k.runTask) (hw : Blocks (.muxList mux) s.k k') :
    OwnerInv m { s with k := k', calls := s.calls.enter s.k.runTask ⟨mux⟩ } := by
  have hlive : ∀ u, (k'.status u).unused = (s.k.status u).unused ∧
      (k'.status u).systemTask = (s.k.status u).systemTask := fun u => by
    obtain ⟨_, _, hq⟩ := hw.view u
    exact ⟨congrArg unused hq, congrArg systemTask hq⟩
  have hg : ∀ t, Granted k' (s.calls.enter s.k.runTask ⟨mux⟩) t ⟨m⟩ ↔
      Granted s.k s.calls t ⟨m⟩ := fun t => granted_enter hw hn
  refine ⟨h.count, h.bound, fun hm => ?_, fun o ho' => ?_, fun t r hr => ?_, fun t ht => ?_,
    fun t => ?_⟩
  · have hmux : m ≠ mux := by
      rintro rfl
      exact ho hm
    exact (hw.otherLists _ rfl (by simpa using hmux)).trans (h.empty hm)
  · rw [(hlive o).1, (hlive o).2]
    exact h.live o ho'
  · rw [(hlive t).2]
    by_cases ht : t = s.k.runTask
    · exact ht ▸ hsys
    · exact h.calls t r (by simpa [ht] using hr)
  · rw [hg]
    by_cases htr : t = s.k.runTask
    · subst htr
      simp only [Calls.enter_pc, update_self, Option.some.injEq, MuxRequest.mk.injEq] at ht
      subst ht
      exact ⟨fun hc => absurd hc (not_granted_runTask hn), fun hc => absurd hc hne⟩
    · exact h.granted t (by simpa [htr] using ht)
  · simp only [hg t]
    exact h.balance t

theorem OwnerInv.handed (hi : Inv c s)
    (hn : s.calls.pc s.k.runTask = none) (ho : (s.muxes.allMux m).owner = some s.k.runTask)
    (hc : (s.muxes.allMux m).muxCount = 1) (hu : u ∈ s.k.lists (.muxList m)) (hw : Wakes u s.k k')
    (hfc : ∀ cb, (f cb).muxCount = 1) (hfo : ∀ cb, (f cb).owner = some u) : OwnerInv m { s with
      k := k'
      muxes := s.muxes.modify m f
      posts := bumpTask s.posts m s.k.runTask } := by
  obtain ⟨hult, hup, huu, -⟩ := hi.run.sched.1.pend_of_mem rfl hu
  have hg := hi.wait.granted_wakes hi.run.sched.1 hw hu head_injective
  have hne : u ≠ s.k.runTask := by
    rintro rfl
    exact absurd hg.1 (by simp [hn])
  have hlive : ∀ v, (k'.status v).unused = (s.k.status v).unused ∧
      (k'.status v).systemTask = (s.k.status v).systemTask := fun v => by
    obtain ⟨_, _, hq⟩ := hw.view v
    exact ⟨congrArg unused hq, congrArg systemTask hq⟩
  constructor <;> simp only [modify_allMux, update_self, hfc, hfo]
  iterate 3 simp
  · rintro o ⟨⟩
    rw [(hlive u).1, (hlive u).2]
    exact ⟨huu, h.calls u _ hg.1⟩
  · exact fun t r hr => (hlive t).2.trans (h.calls t r hr)
  · intro t ht
    by_cases htu : t = u
    · subst htu
      simpa using hg
    · have htr : s.k.runTask ≠ t := by
        rintro rfl
        simp [hn] at ht
      rw [granted_wakes_of_ne hw htu, h.granted t ht, ho]
      simp [htr, Ne.symm htu]
  · intro t
    have hb := h.balance t
    rw [bumpTask_self]
    by_cases htu : t = u
    · subst htu
      have hng : ¬Granted s.k s.calls t ⟨m⟩ := fun hcg => by simpa [hup] using hcg.2.1
      simpa [hng, ho, hg, hne, Ne.symm hne] using hb
    · simp only [granted_wakes_of_ne hw htu]
      by_cases htr : t = s.k.runTask
      · subst htr
        simpa [ho, hc, Ne.symm htu] using hb
      · simpa [htr, ho, Ne.symm htr, Ne.symm htu] using hb

theorem OwnerInv.wakes_other (hi : Inv c s) (hne : m ≠ mux)
    (hu : u ∈ s.k.lists (.muxList mux)) (hw : Wakes u s.k k') : OwnerInv m { s with k := k' } := by
  have hpc := (hi.wait.granted_wakes hi.run.sched.1 hw hu
    head_injective).1
  refine h.frame rfl rfl rfl rfl (fun hl => ?_) (fun o => ?_) (fun o _ => ?_) fun t => ?_
  · rw [hw.lists _ rfl, hl]
    rfl
  · obtain ⟨p, d, he⟩ := hw.view o
    exact (congrArg unused he).trans
  · obtain ⟨p, d, he⟩ := hw.view o
    exact congrArg systemTask he
  · by_cases htu : t = u
    · subst htu
      have hno : ∀ k₁ : Sched, ¬Granted k₁ s.calls t ⟨m⟩ := fun k₁ hc => by
        have := hc.1.symm.trans hpc
        simp [hne] at this
      exact ⟨fun hc => absurd hc (hno _), fun hc => absurd hc (hno _)⟩
    · exact granted_wakes_of_ne hw htu

theorem OwnerInv.deletes (hi : Inv c s) (ho : (s.muxes.allMux m).owner ≠ some t)
    (hd : Deletes c t s.k k') : OwnerInv m { s with k := k', calls := s.calls.leave t } := by
  have hg : ∀ v ≠ t, v < c.taskMaxNum →
      (Granted k' (s.calls.leave t) v ⟨m⟩ ↔ Granted s.k s.calls v ⟨m⟩) := fun v hv hlt => by
    have he := hd.others v hv hlt.ne
    have hp : (k'.status v).pend = (s.k.status v).pend := congrArg pend he
    have hto : (k'.status v).timeout = (s.k.status v).timeout := congrArg timeout he
    simp [Granted, hp, hto, hv]
  have hgt : ¬Granted s.k s.calls t ⟨m⟩ := fun hc => ho ((h.granted t hc.1).mp hc)
  refine ⟨h.count, h.bound, fun hm => ?_, fun o ho' => ?_, fun v r hr => ?_, fun v hv => ?_,
    fun v => ?_⟩
  · rw [hd.lists _ rfl, h.empty hm]
    rfl
  · have hot : o ≠ t := fun e => ho (e ▸ ho')
    have he := hd.others o hot (hi.owner m o ho').1.ne
    obtain ⟨hu, hs⟩ := h.live o ho'
    exact ⟨(congrArg unused he).trans hu, (congrArg systemTask he).trans hs⟩
  · have hvt : v ≠ t := by
      rintro rfl
      simp at hr
    have hr' : s.calls.pc v = some r := by simpa [hvt] using hr
    have he := hd.others v hvt (hi.wait.live v r hr').1.ne
    exact (congrArg systemTask he).trans (h.calls v r hr')
  · have hvt : v ≠ t := by
      rintro rfl
      simp at hv
    have hv' : s.calls.pc v = some ⟨m⟩ := by simpa [hvt] using hv
    rw [hg v hvt (hi.wait.live v _ hv').1]
    exact h.granted v hv'
  · have hb := h.balance v
    by_cases hvt : v = t
    · subst hvt
      simpa [not_granted_leave, hgt] using hb
    · cases hpc : s.calls.pc v with
      | none =>
        have hn : ∀ k₁ : Sched, ¬Granted k₁ (s.calls.leave t) v ⟨m⟩ := fun k₁ hc => by
          have := hc.1
          simp [hvt, hpc] at this
        have hn' : ¬Granted s.k s.calls v ⟨m⟩ := fun hc => by simpa [hpc] using hc.1
        simpa [hn, hn'] using hb
      | some r => simpa only [hg v hvt (hi.wait.live v r hpc).1] using hb

theorem OwnerInv.step (hi : Inv c s) (hp : Protocol m s op)
    (hs : Step c s op s') : OwnerInv m s' := by
  cases hs with
  | same => exact h
  | env op _ he =>
    obtain ⟨base, born, hnote⟩ := noteTask_eq (op.newTask c s.k)
    rw [hnote]
    refine h.frame rfl rfl rfl rfl (fun hl => by rw [he.env.lists _ rfl, hl]; rfl)
      he.env.unused (fun t ht => he.env.systemTask t ?_) fun t => hi.wait.granted_env he.env
    rcases ht with ho | hr
    · exact (h.live t ho).1
    · obtain ⟨r, hr⟩ := Option.isSome_iff_exists.1 hr
      exact (hi.wait.live t r hr).2.1
  | deleted _ _ _ hd => exact h.deletes hi hp.1 hd
  | created mux _ hl =>
    have hblank := hi.blank mux (hi.free mux (by simp [hl]))
    by_cases hm : m = mux
    · subst hm
      refine ⟨?_, ?_, ?_, ?_, h.calls, ?_, ?_⟩
      · simp
      · simp
      · exact fun _ => h.empty (by rw [hblank])
      · simp
      · simpa [hblank] using h.granted
      · simpa [hblank] using h.balance
    · exact h.of_eq (by simp [hm]) rfl rfl rfl rfl
  | acquired mux _ hx hn _ hsys hc =>
    obtain ⟨holder, acq, clock, hset⟩ := setMuxes_eq mux (s.muxes.modify mux
      fun cb => { cb with
        muxCount := 1
        owner := some s.k.runTask
        priority := (s.k.taskCB s.k.runTask).priority })
    rw [hset]
    by_cases hm : m = mux
    · subst hm
      have h' := h.acquired hn hx hsys hc (f := fun cb => { cb with
        muxCount := 1
        owner := some s.k.runTask
        priority := (s.k.taskCB s.k.runTask).priority }) (fun _ => rfl) fun _ => rfl
      exact h'.of_eq rfl rfl rfl rfl rfl
    · exact h.of_eq (by simp [hm]) rfl rfl (bumpTask_of_ne hm) rfl
  | recursed mux _ _ hn _ _ ho =>
    by_cases hm : m = mux
    · subst hm
      exact h.recursed hn (hp rfl) ho
    · exact h.of_eq (by simp [hm]) rfl rfl (bumpTask_of_ne hm) rfl
  | blocked _ _ _ k₁ _ _ hn _ hsys _ ho hne hb hrun hw =>
    have h₁ : OwnerInv m { s with k := k₁ } := h.frame_view (hb.lists rfl) hb.view
    obtain ⟨p, hv⟩ := hb.view s.k.runTask
    have hn₁ : s.calls.pc k₁.runTask = none := hrun ▸ hn
    have hsys₁ : (k₁.status k₁.runTask).systemTask = false := by
      simpa [hrun] using (congrArg systemTask hv).trans hsys
    simpa [hrun] using h₁.blocks hn₁ hsys₁ (by simp [ho]) (by simpa [ho, hrun] using hne) hw
  | returned r hx hr => exact h.returned hx hr
  | released mux _ hn ho hc =>
    by_cases hm : m = mux
    · subst hm
      exact h.released hn hc ho
    · exact h.of_eq (by simp [hm]) rfl rfl rfl (bumpTask_of_ne hm)
  | freed mux k₁ _ hn ho hc hr hl =>
    by_cases hm : m = mux
    · subst hm
      exact (h.freed hn ho hc hl).frame_view (hr.lists _ rfl) hr.view
    · have h₁ : OwnerInv m { s with k := k₁ } := h.frame_view (hr.lists _ rfl) hr.view
      exact h₁.of_eq (by simp [hm]) rfl rfl rfl (bumpTask_of_ne hm)
  | handed mux u _ k₁ _ _ hn ho hc hr hi₁ hrun hl hw =>
    obtain ⟨holder, acq, clock, hset⟩ := setMuxes_eq mux (s.muxes.modify mux
      fun cb => { cb with
        muxCount := 1
        owner := some u
        priority := (k₁.taskCB u).priority })
    rw [hset]
    have h₁ : OwnerInv m { s with k := k₁ } := h.frame_view (hr.lists _ rfl) hr.view
    have hu : u ∈ k₁.lists (.muxList mux) := by simp [hr.lists (.muxList mux) rfl, hl]
    by_cases hm : m = mux
    · subst hm
      have h' := h₁.handed hi₁ (by simpa [hrun] using hn) (by simpa [hrun] using ho) hc hu hw
        (f := fun cb => { cb with
          muxCount := 1
          owner := some u
          priority := (k₁.taskCB u).priority }) (fun _ => rfl) fun _ => rfl
      exact h'.of_eq rfl rfl rfl rfl (by simp [hrun])
    · exact (h₁.wakes_other hi₁ hm hu hw).of_eq (by simp [hm]) rfl rfl rfl (bumpTask_of_ne hm)

end

theorem OwnerInv.of_reaches (h : ((machine c).restrict (Protocol m)).Reaches s) :
    Inv c s ∧ OwnerInv m s :=
  invariant_of_steps h (fun _ _ _ hk => .init hk) fun _ _ _ hi _ ho hp hs => ho.step hi hp hs

/-- What mutex `m` promises in every state. -/
structure Owned (c : Config) (s : MuxSys) (m : ℕ) : Prop where
  count : 0 < (s.muxes.allMux m).muxCount ↔ (s.muxes.allMux m).owner ≠ none
  empty : (s.muxes.allMux m).owner = none → s.k.lists (.muxList m) = []
  /-- A call of `LOS_MuxPend` that returns at once returns `LOS_OK` to the owner. -/
  pend : Executing c s.k → s.calls.pc s.k.runTask = none → ∀ timeout k' m' ret,
    s.k.losMuxPend c s.muxes m timeout false = (k', m', some ret) →
    (ret = .ok ↔ (m'.allMux m).owner = some s.k.runTask)
  /-- So does one that has waited. -/
  returns : Executing c s.k → s.calls.pc s.k.runTask = some ⟨m⟩ →
    (s.k.losMuxPendReturn.2 = .ok ↔ (s.muxes.allMux m).owner = some s.k.runTask)
  /-- The count is what the owner has pended and not posted, a pend that has been granted but has
  not returned included; tasks that are not the owner have posted as often as they have pended. -/
  balance : ∀ t, s.pends m t + (if Granted s.k s.calls t ⟨m⟩ then 1 else 0) =
    s.posts m t + if (s.muxes.allMux m).owner = some t then (s.muxes.allMux m).muxCount else 0
  post : ∀ intActive, (s.k.losMuxPost c s.muxes m intActive).2.2 = .ok →
    (s.muxes.allMux m).owner = some s.k.runTask
  /-- The mutex passes to the task that has waited longest. -/
  passes : ∀ op u v, (machine c).allowed s op → (s.muxes.allMux m).owner = some v →
    ((exec c s op).muxes.allMux m).owner = some u → u ≠ v → u ∈ s.k.lists (.muxList m) ∧
      ∀ w ∈ s.k.lists (.muxList m), w ≠ u → s.calls.since u < s.calls.since w

theorem OwnerInv.pend {ret : Errno} (h : OwnerInv m s) (hi : Inv c s)
    (hstat : (s.muxes.allMux m).muxStat)
    (hres : s.k.losMuxPend c s.muxes m timeout false = (k', m', some ret)) :
    ret = .ok ↔ (m'.allMux m).owner = some s.k.runTask := by
  have hlimit := not_le.mpr (hi.limit m (.inr hstat))
  cases hsys : (s.k.status s.k.runTask).systemTask with
  | true =>
    -- a system task is refused, and is not the owner
    have hchk : s.k.osMuxValidCheck (s.muxes.allMux m) false = .muxPendInSystemTask := by
      simp [osMuxValidCheck, hstat, hi.lock, show (s.k.taskCB s.k.runTask).taskStatus.systemTask
        = true from hsys]
    simp only [losMuxPend, hlimit, hchk] at hres
    cases hres
    refine ⟨fun e => by simp at e, fun ho => ?_⟩
    simpa [hsys] using (h.live _ ho).2
  | false =>
    have hchk : s.k.osMuxValidCheck (s.muxes.allMux m) false = .ok := by
      simp [osMuxValidCheck, hstat, hi.lock, show (s.k.taskCB s.k.runTask).taskStatus.systemTask
        = false from hsys]
    simp only [losMuxPend, hlimit, hchk, if_false, ne_eq, not_true_eq_false] at hres
    split_ifs at hres with hc ho ht <;> cases hres
    · simp
    all_goals simpa using ho

theorem OwnerInv.passes (h : OwnerInv m s) (hi : Inv c s) (hs : Step c s op s')
    (hv : (s.muxes.allMux m).owner = some v) (hu : (s'.muxes.allMux m).owner = some u)
    (hne : u ≠ v) : u ∈ s.k.lists (.muxList m) ∧
      ∀ w ∈ s.k.lists (.muxList m), w ≠ u → s.calls.since u < s.calls.since w := by
  have hkeep : (s.muxes.allMux m).owner ≠ some u := fun ho =>
    hne (Option.some.inj (ho.symm.trans hv))
  cases hs with
  | same => exact absurd hu hkeep
  | env => exact absurd (by simpa [noteTask_muxes] using hu) hkeep
  | deleted => exact absurd hu hkeep
  | created mux =>
    by_cases hm : m = mux
    · subst hm
      simp at hu
    · exact absurd (by simpa [hm] using hu) hkeep
  | acquired mux _ _ _ _ _ hc =>
    rw [setMuxes_muxes] at hu
    by_cases hm : m = mux
    · subst hm
      exact absurd hv (fun hv => by simpa [hc] using h.count.mpr (by simp [hv]))
    · exact absurd (by simpa [hm] using hu) hkeep
  | recursed => exact absurd ((update_field LosMuxCB.owner (by rfl) m).symm.trans hu) hkeep
  | blocked => exact absurd hu hkeep
  | returned => exact absurd hu hkeep
  | released => exact absurd ((update_field LosMuxCB.owner (by rfl) m).symm.trans hu) hkeep
  | freed mux =>
    by_cases hm : m = mux
    · subst hm
      simp at hu
    · exact absurd (by simpa [hm] using hu) hkeep
  | handed mux w _ _ _ _ _ _ _ _ _ _ hl =>
    rw [setMuxes_muxes] at hu
    by_cases hm : m = mux
    · subst hm
      obtain rfl : w = u := by simpa using hu
      refine ⟨by simp [hl], fun v hv' hne' => ?_⟩
      have hord := hi.wait.order (.muxList m) rfl
      rw [hl, List.pairwise_cons] at hord
      rw [hl] at hv'
      exact hord.1 v ((List.mem_cons.mp hv').resolve_left hne')
    · exact absurd (by simpa [hm] using hu) hkeep

theorem losMuxPost_ok {intActive : Bool} (h : (k.losMuxPost c muxes m intActive).2.2 = .ok) :
    (muxes.allMux m).owner = some k.runTask := by
  simp only [losMuxPost] at h
  split_ifs at h with hle hint hown
  all_goals first | simp at h; done | exact not_not.mp (not_or.mp hown).2

/-- The ownership protocol. -/
theorem owned_of_reaches (h : ((machine c).restrict (Protocol m)).Reaches s)
    (hm : (s.muxes.allMux m).muxStat = true) : Owned c s m := by
  obtain ⟨hi, ho⟩ := OwnerInv.of_reaches h
  refine ⟨Nat.pos_iff_ne_zero.trans ho.count, ho.empty, fun _ _ timeout k' m' ret hres =>
    ho.pend hi hm hres, fun he hr => ?_, ho.balance, fun _ => losMuxPost_ok, ?_⟩
  · rw [← ho.granted _ hr]
    have hp := he.pend
    simp only [losMuxPendReturn, takeTimeout_snd, Granted]
    cases hto : (s.k.status s.k.runTask).timeout <;> simp_all
  · intro op u v ha hv hu hne
    exact ho.passes hi (hi.step ha).2 hv hu hne

/-- A task of priority 5 waits for a mutex that a task of priority 9 has locked twice. -/
theorem owned_of_reaches_waiting : ∃ s, ((machine smallConfig).restrict (Protocol 0)).Reaches s ∧
    s.k.lists (.muxList 0) = [2] ∧ (s.muxes.allMux 0).muxCount = 2 ∧ Owned smallConfig s 0 := by
  have hr := (restrict_reaches_smallSys (P := Protocol 0)).run
    [.task (.taskCreate (userTask 9 false) 2000), .task (.schedStart 0), .muxCreate,
      .muxPend 0 7 false, .muxPend 0 7 false, .task (.taskCreate (userTask 5 false) 3000),
      .task (.taskSwitch 10), .muxPend 0 7 false] (by decide +kernel)
  exact ⟨_, hr, by decide +kernel, by decide +kernel, owned_of_reaches hr (by decide +kernel)⟩

end LiteOS.Kernel.MuxSys
