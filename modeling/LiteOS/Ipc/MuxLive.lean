import LiteOS.Ipc.MuxSteps

/-!
# Mutex owners are live

A mutex refers to its owner by the control block, and control blocks are used again. As long as no
task is deleted while it owns a mutex, the block belongs to the task that acquired the mutex.
-/

namespace LiteOS.Kernel.MuxSys

open Lib Sched LosMuxCB

variable {c : Config} {s s' : MuxSys} {op : MuxOp} {m mux timeout : ℕ} {t u : TaskID}
  {intActive : Bool} {k' : Sched}

def NoOwnerDeleted (c : Config) (s : MuxSys) : MuxOp → Prop
  | .taskDelete t => ∀ m < c.muxLimit, (s.muxes.allMux m).owner ≠ some t
  | _ => True

instance (c : Config) (s : MuxSys) (op) : Decidable (NoOwnerDeleted c s op) := by
  induction op using MuxOp.casesOn <;> unfold NoOwnerDeleted <;> infer_instance

/-- The owner of mutex `m`, if there is one, is the task that became its owner last, and that task
has not been deleted. -/
def Held (c : Config) (s : MuxSys) (m : ℕ) : Prop :=
  ∀ o, (s.muxes.allMux m).owner = some o → s.Live c o ∧ s.holder m = (o, s.born o)

section

variable (h : s.Held c m) (ho : (s'.muxes.allMux m).owner = (s.muxes.allMux m).owner)
  (hh : s'.holder m = s.holder m)
include h ho hh

theorem Held.frame (hlive : ∀ o, (s.muxes.allMux m).owner = some o →
      s.Live c o → s'.Live c o ∧ s'.born o = s.born o) : s'.Held c m := by
  intro o hown
  rw [ho] at hown
  obtain ⟨hl, hb⟩ := h o hown
  obtain ⟨hl', hb'⟩ := hlive o hown hl
  rw [hh, hb']
  exact ⟨hl', hb⟩

theorem Held.of_view (hb : s'.born = s.born) (hv : ∀ u, ∃ p q d o, (s'.k.taskCB u).view =
      { (s.k.taskCB u).view with priority := p, pend := q, timed := d, timeout := o }) :
      s'.Held c m :=
  h.frame ho hh fun o _ hl => ⟨hl.of_view (hv o), by rw [hb]⟩

end

theorem Held.env {op : TaskOp} (h : s.Held c m) (he : EnvSpec c op s.k k') :
    Held c { s.noteTask (op.newTask c s.k) with k := k' } m := by
  have hlive : ∀ o, s.Live c o → (k'.status o).unused = false ∧ (k'.status o).exit = false :=
    fun o hl => ⟨he.env.unused o hl.2.1, (he.env.exit o hl.2.1).trans hl.2.2⟩
  rcases hn : op.newTask c s.k with _ | ⟨t, p⟩
  · exact h.frame rfl rfl fun o _ hl => ⟨⟨hl.1, hlive o hl⟩, rfl⟩
  · refine h.frame rfl rfl fun o _ hl => ⟨⟨hl.1, hlive o hl⟩, ?_⟩
    have hne : o ≠ t := by
      rintro rfl
      simpa [hl.2.1] using (he.created o p hn).1
    simp [noteTask, bump, hne]

theorem Held.deletes (h : s.Held c m) (ht : (s.muxes.allMux m).owner ≠ some t)
    (hd : Deletes c t s.k k') : Held c { s with k := k', calls := s.calls.leave t } m := by
  refine h.frame rfl rfl fun o ho hl => ⟨?_, rfl⟩
  have hview := hd.others o (fun e => ht (e ▸ ho)) hl.1.ne
  exact ⟨hl.1, (congrArg TaskView.unused hview).trans hl.2.1,
    (congrArg TaskView.exit hview).trans hl.2.2⟩

theorem Held.owned {f : LosMuxCB → LosMuxCB} {pends posts : ℕ → TaskID → ℕ}
    (h : s.Held c m) (hfo : ∀ cb, (f cb).owner = some u) (hu : s.Live c u)
    (hv : ∀ u, ∃ p q d o, (k'.taskCB u).view =
      { (s.k.taskCB u).view with priority := p, pend := q, timed := d, timeout := o }) :
    Held c { s.setMuxes mux (s.muxes.modify mux f) with k := k', pends := pends, posts := posts }
      m := by
  have hlive : ∀ o, s.Live c o → Live c
      { s.setMuxes mux (s.muxes.modify mux f) with k := k', pends := pends, posts := posts } o :=
    fun o hl => hl.of_view (hv o)
  by_cases hown : (s.muxes.allMux mux).owner = some u
  · rw [setMuxes_of_owner (by simp [hfo, hown])] at hlive ⊢
    exact h.frame (update_field owner (by simp [hfo, hown]) m) rfl fun o _ hl =>
      ⟨hlive o hl, rfl⟩
  · rw [setMuxes_of_ne (by simp [hfo]) hown] at hlive ⊢
    by_cases hm : m = mux
    · subst hm
      intro o ho
      obtain rfl : u = o := by simpa [hfo] using ho
      exact ⟨hlive u hu, by simp [noteOwner]⟩
    · exact h.frame (by simp [hm]) (by simp [noteOwner, hm]) fun o _ hl => ⟨hlive o hl, rfl⟩

theorem Held.step (h : ∀ m, s.Held c m) (hi : Inv c s) (hp : NoOwnerDeleted c s op)
    (hs : Step c s op s') (m : ℕ) : s'.Held c m := by
  cases hs with
  | same => exact h m
  | env _ _ he => exact (h m).env he
  | deleted _ _ _ hd => exact (h m).deletes (hi.owner_ne hp m) hd
  | created mux _ hl =>
    have hblank := hi.blank mux (hi.free mux (by simp [hl]))
    exact (h m).of_view (update_field owner (by simp [hblank]) m) rfl rfl fun u =>
      ⟨_, _, _, _, rfl⟩
  | acquired _ _ hx =>
    exact (h m).owned (fun _ => rfl) ⟨hx.lt, hx.unused, hx.exit⟩ fun u => ⟨_, _, _, _, rfl⟩
  | recursed =>
    exact (h m).of_view (update_field owner (by rfl) m) rfl rfl fun u => ⟨_, _, _, _, rfl⟩
  | blocked _ _ _ _ _ _ _ _ _ _ _ _ hb _ hw =>
    exact (h m).of_view rfl rfl rfl (hb.view_blocks hw)
  | returned =>
    refine (h m).of_view rfl rfl rfl fun u => ?_
    obtain ⟨o, hv⟩ := takeTimeout_view u
    exact ⟨_, _, _, o, hv⟩
  | released =>
    exact (h m).of_view (update_field owner (by rfl) m) rfl rfl fun u => ⟨_, _, _, _, rfl⟩
  | freed mux _ _ _ ho _ hr =>
    by_cases hm : m = mux
    · subst hm
      intro o ho
      simp at ho
    · exact (h m).of_view (by simp [hm]) rfl rfl fun u =>
        (hr.view u).imp fun p hp => ⟨_, _, _, hp⟩
  | handed mux u _ _ _ _ _ _ _ hr _ _ hl hw =>
    have hu := hi.run.sched.1.pend_of_mem (i := .muxList mux) rfl (t := u) (by simp [hl])
    exact (h m).owned (fun _ => rfl) ⟨hu.1, hu.2.2.1, hu.2.2.2⟩ (view_handed hr hw)

theorem held_of_reaches (h : ((machine c).restrict (NoOwnerDeleted c)).Reaches s) :
    Inv c s ∧ ∀ m, s.Held c m :=
  invariant_of_steps h (fun _ _ _ _ _ _ ho => by simp [Muxes.osMuxInit] at ho)
    fun _ _ _ hi _ hh hp hs => Held.step hh hi hp hs

structure OwnersLive (c : Config) (s : MuxSys) : Prop where
  /-- The owner of a locked mutex acquired it itself and has not been deleted. -/
  owner : ∀ m, 0 < (s.muxes.allMux m).muxCount → ∃ o, (s.muxes.allMux m).owner = some o ∧
    s.Live c o ∧ s.holder m = (o, s.born o)
  /-- A new task owns no mutex. -/
  created : ∀ op t p, (machine c).allowed s (.task op) → op.newTask c s.k = some (t, p) →
    ∀ m, ((exec c s (.task op)).muxes.allMux m).owner ≠ some t
  /-- `LOS_MuxPend` changes the priority of a task that has acquired the mutex itself and has not
  been deleted. -/
  pend : ∀ mux timeout intActive t, (machine c).allowed s (.muxPend mux timeout intActive) →
    ((exec c s (.muxPend mux timeout intActive)).k.taskCB t).priority ≠ (s.k.taskCB t).priority →
    (s.muxes.allMux mux).owner = some t ∧ s.Live c t ∧ s.holder mux = (t, s.born t)

theorem Step.owner_of_pend (hs : Step c s (.muxPend mux timeout intActive) s')
    (hp : (s'.k.taskCB t).priority ≠ (s.k.taskCB t).priority) :
    (s.muxes.allMux mux).owner = some t := by
  cases hs with
  | same => exact absurd rfl hp
  | acquired => exact absurd rfl hp
  | recursed => exact absurd rfl hp
  | blocked _ _ _ _ _ _ _ _ _ _ ho _ hb _ hw =>
    by_contra hto
    exact hp (hb.priority hw fun e => hto (e ▸ ho))

/-- As long as owners are not deleted, mutexes are owned by live tasks. -/
theorem ownersLive_of_reaches (h : ((machine c).restrict (NoOwnerDeleted c)).Reaches s) :
    OwnersLive c s := by
  obtain ⟨hi, hh⟩ := held_of_reaches h
  refine ⟨fun m hc => ?_, fun op t p ha hn m ho => ?_, fun mux timeout intActive t ha hp => ?_⟩
  · obtain ⟨o, ho⟩ := Option.ne_none_iff_exists'.mp (hi.count m hc.ne')
    exact ⟨o, ho, hh m o ho⟩
  · have ho : (s.muxes.allMux m).owner = some t := by simpa [exec, noteTask_muxes] using ho
    have hspec := (hi.run.gentle ha.1 ha.2).2
    simpa [(hh m t ho).1.2.1] using (hspec.created t p hn).1
  · have ha : Enabled c s (.muxPend mux timeout intActive) := ha
    have ho := (hi.step ha).2.owner_of_pend hp
    exact ⟨ho, hh mux t ho⟩

/-- The control block of a deleted task is used by a new task, which acquires the mutex that the
deleted one has given back. -/
theorem ownersLive_of_reaches_reused : ∃ s,
    ((machine smallConfig).restrict (NoOwnerDeleted smallConfig)).Reaches s ∧
    s.holder 0 = (1, 2) ∧ OwnersLive smallConfig s := by
  have hr := (restrict_reaches_smallSys (P := NoOwnerDeleted smallConfig)).run
    [.task (.taskCreate (userTask 5 false) 2000), .task (.schedStart 0), .muxCreate,
      .muxPend 0 7 false, .muxPost 0 false, .task (.taskDelay false 5), .task (.taskSwitch 10),
      .taskDelete 1, .task (.taskCreate (userTask 9 false) 3000), .task (.taskSwitch 20),
      .muxPend 0 7 false] (by decide +kernel)
  exact ⟨_, hr, by decide +kernel, ownersLive_of_reaches hr⟩

/-- A task is deleted while it owns a mutex. The new task in its control block is the owner and
inherits a priority, although it has never called `LOS_MuxPend`. -/
theorem recycled_owner : ∃ s, (machine smallConfig).Reaches s ∧
    (s.muxes.allMux 0).owner = some 1 ∧ s.born 1 = 2 ∧ s.holder 0 = (1, 1) ∧ s.base 1 = 20 ∧
    (s.k.taskCB 1).priority = 9 := by
  have hr := reaches_smallSys.run
    [.task (.taskCreate (userTask 5 false) 2000), .task (.taskCreate (userTask 9 false) 3000),
      .task (.schedStart 0), .muxCreate, .muxPend 0 7 false, .task (.taskDelay false 5),
      .task (.taskSwitch 10), .taskDelete 1, .task (.taskCreate (userTask 20 false) 4000),
      .muxPend 0 7 false] (by decide +kernel)
  exact ⟨_, hr, by decide +kernel⟩

end LiteOS.Kernel.MuxSys
