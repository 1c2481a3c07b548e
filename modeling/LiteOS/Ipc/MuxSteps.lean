import LiteOS.Ipc.Mux

/-!
# Runs with mutexes

Any number of tasks use the mutexes, while tasks are created, deleted, delayed, suspended, resumed
and reprioritised and timeouts expire. `Step` says what each operation can do, and every property of
mutexes is proved from it.
-/

namespace LiteOS.Kernel

open Lib Sched Function TaskView Sched Muxes

/-- A call of `LOS_MuxPend` that waits for a mutex. -/
structure MuxRequest where
  mux : ℕ
deriving DecidableEq

instance : Request MuxRequest where
  head r := .muxList r.mux
  isWait _ := rfl

/-- The kernel and its mutexes. Not in the source: the calls in progress; how many pends and posts
of each task have returned `LOS_OK`; the priority each task was created with and how many tasks its
control block has served; and, for each mutex, which of them became its owner last, and when. -/
structure MuxSys where
  k : Sched
  muxes : Muxes
  calls : Calls MuxRequest := {}
  pends : ℕ → TaskID → ℕ := fun _ _ => 0
  posts : ℕ → TaskID → ℕ := fun _ _ => 0
  base : TaskID → ℕ
  born : TaskID → ℕ := fun _ => 0
  holder : ℕ → TaskID × ℕ := fun _ => (0, 0)
  acquired : ℕ → ℕ := fun _ => 0
  clock : ℕ := 0

inductive MuxOp
  | task (op : TaskOp)
  | taskDelete (t : TaskID)
  | muxCreate
  | muxPend (muxHandle timeout : ℕ) (intActive : Bool)
  | muxPendReturn
  | muxPost (muxHandle : ℕ) (intActive : Bool)
deriving DecidableEq

namespace MuxSys

section

variable (c : Config) (s : MuxSys)

def noteTask : Option (TaskID × ℕ) → MuxSys
  | none => s
  | some (t, priority) =>
    { s with base := update s.base t priority, born := bump s.born t }

/-- Note that `t` has become the owner of a mutex. -/
def noteOwner (mux : ℕ) (t : TaskID) : MuxSys :=
  { s with
    holder := update s.holder mux (t, s.born t)
    acquired := update s.acquired mux s.clock
    clock := s.clock + 1 }

/-- New mutex control blocks, in which another task may have become the owner. -/
def setMuxes (mux : ℕ) (m : Muxes) : MuxSys :=
  match (m.allMux mux).owner with
  | none => { s with muxes := m }
  | some t =>
    if (s.muxes.allMux mux).owner = some t then { s with muxes := m }
    else { s.noteOwner mux t with muxes := m }

def bumpTask (count : ℕ → TaskID → ℕ) (mux : ℕ) (t : TaskID) : ℕ → TaskID → ℕ :=
  update count mux (bump (count mux) t)

/-- The first half of `LOS_MuxPend` by the running task. -/
def pended (mux : ℕ) : Sched × Muxes × Option Errno → MuxSys
  | (k, _, none) => { s with k := k, calls := s.calls.enter s.k.runTask ⟨mux⟩ }
  | (k, m, some .ok) =>
    { s.setMuxes mux m with k := k, pends := bumpTask s.pends mux s.k.runTask }
  | (k, m, some _) => { s with k := k, muxes := m }

/-- The second half of `LOS_MuxPend` by the running task. -/
def returned (r : MuxRequest) : Sched × Errno → MuxSys
  | (k, .ok) =>
    { s with
      k := k
      calls := s.calls.leave s.k.runTask
      pends := bumpTask s.pends r.mux s.k.runTask }
  | (k, _) => { s with k := k, calls := s.calls.leave s.k.runTask }

/-- `LOS_MuxPost` by the running task. -/
def posted (mux : ℕ) : Sched × Muxes × Errno → MuxSys
  | (k, m, .ok) => { s.setMuxes mux m with k := k, posts := bumpTask s.posts mux s.k.runTask }
  | (k, m, _) => { s with k := k, muxes := m }

/-- `LOS_TaskDelete`: a call that the deleted task is inside never returns. -/
def deleted (t : TaskID) : Sched × Errno → MuxSys
  | (k, .ok) => { s with k := k, calls := s.calls.leave t }
  | (k, _) => { s with k := k }

def exec : MuxOp → MuxSys
  | .task op => { s.noteTask (op.newTask c s.k) with k := op.exec c s.k }
  | .taskDelete t => s.deleted t (s.k.losTaskDelete c t)
  | .muxCreate => { s with muxes := s.muxes.losMuxCreate.1 }
  | .muxPend mux timeout intActive => s.pended mux (s.k.losMuxPend c s.muxes mux timeout intActive)
  | .muxPendReturn =>
    match s.calls.pc s.k.runTask with
    | none => s
    | some r => s.returned r s.k.losMuxPendReturn
  | .muxPost mux intActive => s.posted mux (s.k.losMuxPost c s.muxes mux intActive)

/-- When an operation can come. Tasks make their calls while they execute their own code and are not
inside another call. -/
def Enabled : MuxOp → Prop
  | .task op => op.Enabled c s.k ∧ op.Gentle s.k
  | .taskDelete _ => True
  | .muxCreate => True
  | .muxPend _ _ intActive => intActive = false →
      Executing c s.k ∧ s.calls.pc s.k.runTask = none
  | .muxPendReturn => Executing c s.k ∧ s.calls.pc s.k.runTask ≠ none
  | .muxPost _ intActive => intActive = false →
      Executing c s.k ∧ s.calls.pc s.k.runTask = none

/-- Runs after `LOS_KernelInit`. -/
def machine : Machine MuxSys MuxOp where
  init s := ∃ k swtmrStack idleStack, losKernelInit c swtmrStack idleStack = (k, .ok) ∧
    s = { k := k, muxes := Muxes.osMuxInit c, base := fun t => (k.taskCB t).priority }
  allowed := Enabled c
  step := exec c

end

instance (c : Config) (s : MuxSys) (op : MuxOp) : Decidable ((machine c).allowed s op) := by
  cases op <;> unfold machine Enabled <;> infer_instance

/-! ## What an operation can do -/

/-- The owner of a mutex may get the priority of the running task. -/
inductive Boosts (o : TaskID) (k k' : Sched) : Prop
  | none (hle : (k.taskCB o).priority ≤ (k.taskCB k.runTask).priority) (hq : Quiet k k')
  | boost (hlt : (k.taskCB k.runTask).priority < (k.taskCB o).priority)
      (hr : Reprioritises o (k.taskCB k.runTask).priority k k')

structure Inv (c : Config) (s : MuxSys) : Prop where
  run : RunInv c False s.k
  wait : WaitInv c s.k s.calls
  lock : s.k.losTaskLock = 0
  unused : s.muxes.unusedMuxList.Nodup
  free : ∀ mux ∈ s.muxes.unusedMuxList, (s.muxes.allMux mux).muxStat = false
  limit : ∀ mux, mux ∈ s.muxes.unusedMuxList ∨ (s.muxes.allMux mux).muxStat →
    mux < c.muxLimit
  blank : ∀ mux, (s.muxes.allMux mux).muxStat = false → s.muxes.allMux mux = {}
  used : ∀ t r, s.calls.pc t = some r → (s.muxes.allMux r.mux).muxStat
  owner : ∀ mux o, (s.muxes.allMux mux).owner = some o → o < c.taskMaxNum ∧ o ≠ s.k.idleTaskID
  count : ∀ mux, (s.muxes.allMux mux).muxCount ≠ 0 → (s.muxes.allMux mux).owner ≠ none
  priority : ∀ mux, (s.muxes.allMux mux).priority ≤ taskPriorityLowest

inductive Step (c : Config) (s : MuxSys) : MuxOp → MuxSys → Prop
  | same (op : MuxOp) : Step c s op s
  | env (op : TaskOp) (k' : Sched) (he : EnvSpec c op s.k k') :
      Step c s (.task op) { s.noteTask (op.newTask c s.k) with k := k' }
  | deleted (t : TaskID) (k' : Sched) (ht : t < c.taskMaxNum) (hd : Deletes c t s.k k') :
      Step c s (.taskDelete t) { s with k := k', calls := s.calls.leave t }
  | created (mux : ℕ) (unused : List ℕ) (hl : s.muxes.unusedMuxList = mux :: unused) :
      Step c s .muxCreate { s with
        muxes := { s.muxes with unusedMuxList := unused }.modify mux fun _ => { muxStat := true } }
  | acquired (mux timeout : ℕ) (hx : Executing c s.k) (hn : s.calls.pc s.k.runTask = none)
      (hstat : (s.muxes.allMux mux).muxStat)
      (hsys : (s.k.status s.k.runTask).systemTask = false)
      (hc : (s.muxes.allMux mux).muxCount = 0) :
      Step c s (.muxPend mux timeout false)
        { s.setMuxes mux (s.muxes.modify mux fun cb =>
            { cb with
              muxCount := 1
              owner := some s.k.runTask
              priority := (s.k.taskCB s.k.runTask).priority }) with
          k := s.k
          pends := bumpTask s.pends mux s.k.runTask }
  | recursed (mux timeout : ℕ) (hx : Executing c s.k) (hn : s.calls.pc s.k.runTask = none)
      (hstat : (s.muxes.allMux mux).muxStat)
      (hc : (s.muxes.allMux mux).muxCount ≠ 0)
      (ho : (s.muxes.allMux mux).owner = some s.k.runTask) :
      Step c s (.muxPend mux timeout false)
        { s with
          muxes := s.muxes.modify mux fun cb => { cb with muxCount := (cb.muxCount + 1) % 2 ^ 16 }
          pends := bumpTask s.pends mux s.k.runTask }
  | blocked (mux timeout : ℕ) (o : TaskID) (k₁ k' : Sched) (hx : Executing c s.k)
      (hn : s.calls.pc s.k.runTask = none) (hstat : (s.muxes.allMux mux).muxStat)
      (hsys : (s.k.status s.k.runTask).systemTask = false)
      (hc : (s.muxes.allMux mux).muxCount ≠ 0) (ho : (s.muxes.allMux mux).owner = some o)
      (hne : o ≠ s.k.runTask) (hb : Boosts o s.k k₁) (hrun : k₁.runTask = s.k.runTask)
      (hw : Blocks (.muxList mux) k₁ k') :
      Step c s (.muxPend mux timeout false)
        { s with k := k', calls := s.calls.enter s.k.runTask ⟨mux⟩ }
  | returned (r : MuxRequest) (hx : Executing c s.k) (hr : s.calls.pc s.k.runTask = some r) :
      Step c s .muxPendReturn
        { s with
          k := (s.k.takeTimeout s.k.runTask).1
          calls := s.calls.leave s.k.runTask
          pends := if (s.k.status s.k.runTask).timeout then s.pends
            else bumpTask s.pends r.mux s.k.runTask }
  | released (mux : ℕ) (hx : Executing c s.k) (hn : s.calls.pc s.k.runTask = none)
      (ho : (s.muxes.allMux mux).owner = some s.k.runTask)
      (hc : 1 < (s.muxes.allMux mux).muxCount) :
      Step c s (.muxPost mux false)
        { s with
          muxes := s.muxes.modify mux fun cb => { cb with muxCount := cb.muxCount - 1 }
          posts := bumpTask s.posts mux s.k.runTask }
  | freed (mux : ℕ) (k₁ : Sched) (hx : Executing c s.k) (hn : s.calls.pc s.k.runTask = none)
      (ho : (s.muxes.allMux mux).owner = some s.k.runTask)
      (hc : (s.muxes.allMux mux).muxCount = 1)
      (hr : Reprioritises s.k.runTask (s.muxes.allMux mux).priority s.k k₁)
      (hl : s.k.lists (.muxList mux) = []) :
      Step c s (.muxPost mux false)
        { s with
          k := k₁
          muxes := s.muxes.modify mux fun cb => { cb with muxCount := 0, owner := none }
          posts := bumpTask s.posts mux s.k.runTask }
  | handed (mux : ℕ) (u : TaskID) (rest : List TaskID) (k₁ k' : Sched) (hx : Executing c s.k)
      (hn : s.calls.pc s.k.runTask = none)
      (ho : (s.muxes.allMux mux).owner = some s.k.runTask)
      (hc : (s.muxes.allMux mux).muxCount = 1)
      (hr : Reprioritises s.k.runTask (s.muxes.allMux mux).priority s.k k₁)
      (hi : Inv c { s with k := k₁ }) (hrun : k₁.runTask = s.k.runTask)
      (hl : s.k.lists (.muxList mux) = u :: rest) (hw : Wakes u k₁ k') :
      Step c s (.muxPost mux false)
        { s.setMuxes mux (s.muxes.modify mux fun cb =>
            { cb with
              muxCount := 1
              owner := some u
              priority := (k₁.taskCB u).priority }) with
          k := k'
          posts := bumpTask s.posts mux s.k.runTask }

variable {c : Config} {s s' : MuxSys} {op : MuxOp} {mux : ℕ} {t u : TaskID}

variable {k k' k₁ : Sched} {count : ℕ → TaskID → ℕ}

theorem Inv.init {swtmrStack idleStack : ℕ} (h : losKernelInit c swtmrStack idleStack = (k, .ok)) :
    Inv c { k := k, muxes := osMuxInit c, base := fun t => (k.taskCB t).priority } where
  run := .of_losKernelInit h
  wait := .init (booted_of_losKernelInit False h).inv.1
    (booted_of_losKernelInit False h).fresh
  lock := (booted_of_losKernelInit False h).losTaskLock
  unused := List.nodup_range
  free _ _ := rfl
  limit mux hm := by simpa [osMuxInit] using hm
  blank _ _ := rfl
  used t r hr := nomatch hr
  owner mux o ho := by simp [osMuxInit] at ho
  count mux hc := by simp [osMuxInit] at hc
  priority mux := by simp [osMuxInit]

theorem noteTask_eq (x : Option (TaskID × ℕ)) :
    ∃ base born, s.noteTask x = { s with base := base, born := born } := by
  rcases x with _ | _ <;> exact ⟨_, _, rfl⟩

theorem noteTask_muxes (x : Option (TaskID × ℕ)) : (s.noteTask x).muxes = s.muxes := by
  rcases x with _ | _ <;> rfl

theorem noteTask_calls (x : Option (TaskID × ℕ)) : (s.noteTask x).calls = s.calls := by
  rcases x with _ | _ <;> rfl

theorem setMuxes_muxes (m : Muxes) : (s.setMuxes mux m).muxes = m := by
  simp only [setMuxes]
  split
  · rfl
  · split_ifs <;> rfl

theorem setMuxes_calls (m : Muxes) : (s.setMuxes mux m).calls = s.calls := by
  simp only [setMuxes]
  split
  · rfl
  · split_ifs <;> rfl

theorem setMuxes_eq (mux : ℕ) (m : Muxes) : ∃ holder acquired clock, s.setMuxes mux m =
    { s with muxes := m, holder := holder, acquired := acquired, clock := clock } := by
  simp only [setMuxes]
  split
  · exact ⟨_, _, _, rfl⟩
  · split_ifs <;> exact ⟨_, _, _, rfl⟩

theorem bumpTask_of_ne {mux' : ℕ} (h : mux' ≠ mux) : bumpTask count mux t mux' = count mux' := by
  simp [bumpTask, h]

theorem bumpTask_self : bumpTask count mux t mux u = count mux u + if u = t then 1 else 0 := by
  by_cases h : u = t
  · subst h
    simp [bumpTask, bump]
  · simp [bumpTask, bump, h]

variable {m : Muxes}

theorem setMuxes_of_owner (h : (m.allMux mux).owner = (s.muxes.allMux mux).owner) :
    s.setMuxes mux m = { s with muxes := m } := by
  simp only [setMuxes]
  split
  · rfl
  · rename_i t ht
    rw [if_pos (h.symm.trans ht)]

theorem setMuxes_of_none (h : (m.allMux mux).owner = none) :
    s.setMuxes mux m = { s with muxes := m } := by
  simp only [setMuxes, h]

theorem setMuxes_of_ne (h : (m.allMux mux).owner = some t)
    (hne : (s.muxes.allMux mux).owner ≠ some t) :
    s.setMuxes mux m = { s.noteOwner mux t with muxes := m } := by
  simp only [setMuxes, h, hne, if_false]

theorem Inv.task {op : TaskOp} (h : Inv c s) (he : op.Enabled c s.k) (hg : op.Gentle s.k) :
    Inv c (exec c s (.task op)) ∧ Step c s (.task op) (exec c s (.task op)) := by
  obtain ⟨hrun, hspec⟩ := h.run.gentle he hg
  obtain ⟨hidle, hlock⟩ := h.run.exec_globals he hg.proper
  refine ⟨?_, .env op _ hspec⟩
  constructor <;> simp only [exec, noteTask_muxes, noteTask_calls]
  · exact hrun
  · exact h.wait.env hrun.sched.1 hspec.env
  · exact hlock h.lock
  · exact h.unused
  · exact h.free
  · exact h.limit
  · exact h.blank
  · exact h.used
  · intro mux o ho
    rw [hidle]
    exact h.owner mux o ho
  · exact h.count
  · exact h.priority

theorem head_injective : Function.Injective (Request.head (R := MuxRequest)) := by
  rintro ⟨a⟩ ⟨b⟩ hab
  cases hab
  rfl

theorem isIpc_head (r : MuxRequest) : (Request.head r).isIpc := rfl

theorem Inv.taskDelete (h : Inv c s) : Inv c (exec c s (.taskDelete t)) ∧
    Step c s (.taskDelete t) (exec c s (.taskDelete t)) := by
  have hp : TaskOp.Proper c False s.k (.taskDelete t) := fun ht =>
    ⟨h.run.sched.1.freeze_eq_false ht, fun j hj =>
      h.run.sched.1.freeze_eq_false (h.run.sched.1.linked.bound _ _ hj)⟩
  have he : TaskOp.Enabled c s.k (.taskDelete t) := trivial
  have hrun := h.run.exec he hp
  obtain ⟨hidle, hlock⟩ := h.run.exec_globals he hp
  rcases hres : s.k.losTaskDelete c t with ⟨k', e⟩
  have hexec : TaskOp.exec c s.k (.taskDelete t) = k' := by simp [TaskOp.exec, hres]
  rw [hexec] at hrun hidle hlock
  simp only [exec, hres]
  cases (h.run.sched.losTaskDelete hp hres).2 with
  | refused _ _ hk =>
    subst hk
    simp only [deleted]
    exact ⟨h, .same _⟩
  | deleted _ _ ht _ _ hj hd =>
    have hd' := hd.after_quiet (h.wait.quiet_of_joinPosts h.run.sched.1 isIpc_head hj)
    refine ⟨?_, .deleted t k' ht hd'⟩
    refine { h with
      run := hrun
      wait := h.wait.deletes hd'
      lock := hlock h.lock
      used := fun v r hr => ?_
      owner := fun mux o ho => ?_ }
    · have hv : v ≠ t := by
        rintro rfl
        simp [deleted] at hr
      exact h.used v r (by simpa [deleted, hv] using hr)
    · simp only [deleted]
      rw [hidle]
      exact h.owner mux o ho

theorem Inv.muxCreate (h : Inv c s) :
    Inv c (exec c s .muxCreate) ∧ Step c s .muxCreate (exec c s .muxCreate) := by
  simp only [exec, losMuxCreate]
  cases hl : s.muxes.unusedMuxList with
  | nil => exact ⟨h, .same _⟩
  | cons mux unused =>
    refine ⟨?_, .created mux unused hl⟩
    have hnodup := h.unused
    rw [hl, List.nodup_cons] at hnodup
    have hblank := h.blank mux (h.free mux (by simp [hl]))
    have hat : ∀ mux', (({ s.muxes with unusedMuxList := unused }.modify mux fun _ =>
        { muxStat := true }).allMux mux') =
        { s.muxes.allMux mux' with muxStat := (s.muxes.allMux mux').muxStat || mux' == mux } := by
      intro mux'
      by_cases hne : mux' = mux
      · subst hne
        simp [hblank]
      · have hb : (mux' == mux) = false := by simpa using hne
        simp [hne, hb]
    refine { h with
      unused := hnodup.2
      free := fun mux' hm => ?_
      limit := fun mux' hm => ?_
      blank := fun mux' hs => ?_
      used := fun t r hr => ?_
      owner := fun mux' o ho => ?_
      count := fun mux' hc => ?_
      priority := fun mux' => ?_ }
    · have hne : mux' ≠ mux := fun e => hnodup.1 (e ▸ hm)
      simpa [hne] using h.free mux' (by simp [hl]; exact .inr hm)
    · by_cases hne : mux' = mux
      · exact h.limit mux' (.inl (by simp [hl, hne]))
      · refine h.limit mux' (hm.imp (fun hm => ?_) fun hm => by simpa [hne] using hm)
        rw [hl]
        exact List.mem_cons_of_mem _ hm
    · by_cases hne : mux' = mux
      · simp [hne] at hs
      · simpa [hne] using h.blank mux' (by simpa [hne] using hs)
    · rw [hat, h.used t r hr]
      rfl
    · rw [hat] at ho
      exact h.owner mux' o ho
    · rw [hat] at hc ⊢
      exact h.count mux' hc
    · rw [hat]
      exact h.priority mux'

variable {intActive : Bool} {f : LosMuxCB → LosMuxCB} {cb : LosMuxCB}

theorem osMuxValidCheck_ok (h : k.osMuxValidCheck cb intActive = .ok) :
    cb.muxStat ∧ intActive = false ∧ (k.status k.runTask).systemTask = false := by
  simp only [osMuxValidCheck] at h
  split_ifs at h with hstat hint hlock hsys
  exact ⟨by simpa using hstat, by simpa using hint, by simpa using hsys⟩

theorem update_field {α : Type} (g : LosMuxCB → α) (h : g cb = g (s.muxes.allMux mux)) (m : ℕ) :
    g (update s.muxes.allMux mux cb m) = g (s.muxes.allMux m) :=
  (forall_update_iff _ fun m cb => g cb = g (s.muxes.allMux m)).2 ⟨h, fun _ _ => rfl⟩ m

theorem Inv.modifyMux (h : Inv c s) (mux : ℕ)
    (hstat : (f (s.muxes.allMux mux)).muxStat = (s.muxes.allMux mux).muxStat)
    (hs : (s.muxes.allMux mux).muxStat) (ho : ∀ o, (f (s.muxes.allMux mux)).owner = some o →
      o < c.taskMaxNum ∧ o ≠ s.k.idleTaskID)
    (hc : (f (s.muxes.allMux mux)).muxCount ≠ 0 → (f (s.muxes.allMux mux)).owner ≠ none)
    (hp : (f (s.muxes.allMux mux)).priority ≤ taskPriorityLowest) :
    Inv c { s with muxes := s.muxes.modify mux f } := by
  have hst : ∀ mux', ((s.muxes.modify mux f).allMux mux').muxStat =
      (s.muxes.allMux mux').muxStat := update_field _ hstat
  refine { h with
    free := fun mux' hm => (hst mux').trans (h.free mux' hm)
    limit := fun mux' hm => h.limit mux' (hm.imp_right (hst mux').symm.trans)
    blank := fun mux' hb => ?_
    used := fun t r hr => (hst r.mux).trans (h.used t r hr)
    owner := (forall_update_iff _ fun _ (cb : LosMuxCB) => ∀ o, cb.owner = some o →
      o < c.taskMaxNum ∧ o ≠ s.k.idleTaskID).2 ⟨ho, fun m _ => h.owner m⟩
    count := (forall_update_iff _ fun _ (cb : LosMuxCB) => cb.muxCount ≠ 0 → cb.owner ≠ none).2
      ⟨hc, fun m _ => h.count m⟩
    priority := (forall_update_iff _ fun _ (cb : LosMuxCB) => cb.priority ≤ _).2
      ⟨hp, fun m _ => h.priority m⟩ }
  · have hne : mux' ≠ mux := by
      rintro rfl
      exact absurd ((hst mux').symm.trans hb) (by simp [hs])
    simpa [hne] using h.blank mux' ((hst mux').symm.trans hb)

theorem Inv.of_eq (h : Inv c s) (hk : s'.k = s.k) (hm : s'.muxes = s.muxes)
    (hc : s'.calls = s.calls) : Inv c s' := by
  obtain ⟨k, m, w, _, _, _, _, _, _, _⟩ := s'
  subst hk hm hc
  exact ⟨h.run, h.wait, h.lock, h.unused, h.free, h.limit, h.blank, h.used, h.owner, h.count,
    h.priority⟩

variable {o v : TaskID} {i : ListHead}

theorem Boosts.view (hb : Boosts o k k') (u : TaskID) :
    ∃ p, (k'.taskCB u).view = { (k.taskCB u).view with priority := p } := by
  cases hb with
  | none _ hq => exact ⟨_, hq.view u⟩
  | boost _ hr => exact hr.view u

theorem Boosts.lists (hb : Boosts o k k') (hi : i.isWait) : k'.lists i = k.lists i := by
  cases hb with
  | none _ hq => exact hq.lists i hi
  | boost _ hr => exact hr.lists i hi

variable {pm : Prop} {I : MuxSys → Prop} {P : MuxSys → MuxOp → Prop} {run : Option TaskID}

theorem Boosts.env (hb : Boosts o k k') (h : InvWith c pm run k) : Env k k' := by
  cases hb with
  | none _ hq => exact h.env_of_quiet hq
  | boost _ hr => exact h.env_of_reprioritises hr

theorem boosts_boostOwner (mux : ℕ) (h : RunInv c pm k) (hx : Executing c k)
    (holt : o < c.taskMaxNum) (hoidle : o ≠ k.idleTaskID) :
    let k₁ := boostOwner c
      (k.modifyTCB k.runTask fun cb => { cb with taskMux := some mux }) (some o)
    RunInv c pm k₁ ∧ Boosts o k k₁ ∧ Same k k₁ ∧ Executing c k₁ := by
  obtain ⟨_, _, hok⟩ := h.sched.1.task _ hx.lt
  obtain ⟨hrun, hq⟩ := h.note
    (f := fun cb => { cb with taskMux := some mux }) ⟨_, _, rfl⟩
  have hsame : Same k (k.modifyTCB k.runTask fun cb => { cb with taskMux := some mux }) :=
    .modifyTCB ..
  have hx' : Executing c (k.modifyTCB k.runTask fun cb => { cb with taskMux := some mux }) :=
    hx.congr rfl rfl (by simp)
  have hpo : ((k.modifyTCB k.runTask fun cb => { cb with taskMux := some mux }).taskCB
      o).priority = (k.taskCB o).priority := congrArg priority (hq.view o)
  have hpr : ((k.modifyTCB k.runTask fun cb => { cb with taskMux := some mux }).taskCB
      k.runTask).priority = (k.taskCB k.runTask).priority :=
    congrArg priority (hq.view k.runTask)
  dsimp only [boostOwner]
  rw [hsame.runTask, hpo, hpr]
  split_ifs with hlt
  · have hne : o ≠ k.runTask := by
      rintro rfl
      exact lt_irrefl _ hlt
    obtain ⟨hrun', hr⟩ := hrun.reprioritise
      holt (hsame.idleTaskID.symm ▸ hoidle)
      hok.priority
    refine ⟨hrun', .boost hlt ⟨fun i hi => ?_, ?_, fun u hu => ?_⟩,
      hsame.trans osSchedModifyTaskSchedParam_same, ?_⟩
    · rw [hr.lists i hi, hq.lists i hi]
    · rw [hr.self, hq.view]
    · rw [hr.others u hu, hq.view]
    · refine hx'.congr osSchedModifyTaskSchedParam_same.runTask
        osSchedModifyTaskSchedParam_same.idleTaskID ?_
      rw [hsame.runTask, osSchedModifyTaskSchedParam_taskCB_of_ne hne.symm]
  · exact ⟨hrun, .none (not_lt.mp hlt) hq, hsame, hx'⟩

section

variable (h : Inv c s)
include h

theorem Inv.acquire (hx : Executing c s.k) (hstat : (s.muxes.allMux mux).muxStat) :
    Inv c { s with muxes := s.muxes.modify mux fun cb => { cb with
          muxCount := 1
          owner := some s.k.runTask
          priority := (s.k.taskCB s.k.runTask).priority } } := by
  obtain ⟨_, _, hok⟩ := h.run.sched.1.task _ hx.lt
  refine h.modifyMux mux rfl hstat ?_ (by simp) hok.priority
  rintro _ ⟨⟩
  exact ⟨hx.lt, hx.notIdle⟩

theorem Inv.recount (hstat : (s.muxes.allMux mux).muxStat)
    (hc : (s.muxes.allMux mux).muxCount ≠ 0) (n : ℕ → ℕ) : Inv c { s with
      muxes := s.muxes.modify mux fun cb => { cb with muxCount := n cb.muxCount } } :=
  h.modifyMux mux rfl hstat (h.owner mux) (fun _ => h.count mux hc) (h.priority mux)

/-- The running task begins to wait for a mutex; `k₁` is the kernel with which it does. -/
theorem Inv.block {timeout : ℕ}
    (hn : s.calls.pc s.k.runTask = none) (hstat : (s.muxes.allMux mux).muxStat)
    (hrun : RunInv c False k₁) (he : Env s.k k₁) (hsame : Same s.k k₁) (hx : Executing c k₁) :
    Inv c { s with
      k := k₁.osSchedTaskWait (.muxList mux) timeout
      calls := s.calls.enter s.k.runTask ⟨mux⟩ } := by
  have hblocks := blocks_osSchedTaskWait (k := k₁) (i := .muxList mux) (n := timeout)
  have hs' := hsame.trans (osSchedTaskWait_same (i := .muxList mux) (n := timeout))
  have hw₁ := h.wait.env hrun.sched.1 he
  have hw := hw₁.enter hrun.sched.1 hx (hsame.runTask.symm ▸ hn) hblocks
  rw [hsame.runTask] at hw
  refine { h with
    run := hrun.wait hx rfl
    wait := hw
    lock := hs'.losTaskLock.trans h.lock
    used := fun t r hr => ?_
    owner := fun mux' o' ho'' => hs'.idleTaskID.symm ▸ h.owner mux' o' ho'' }
  by_cases htr : t = s.k.runTask
  · subst htr
    simp only [Calls.enter_pc, update_self, Option.some.injEq] at hr
    exact hr ▸ hstat
  · exact h.used t r (by simpa [htr] using hr)

theorem Inv.muxPend {timeout : ℕ} (he : Enabled c s (.muxPend mux timeout intActive))
    :
    Inv c (exec c s (.muxPend mux timeout intActive)) ∧
      Step c s (.muxPend mux timeout intActive) (exec c s (.muxPend mux timeout intActive)) := by
  simp only [exec, losMuxPend]
  split_ifs with hle hchk hc ho ht
  · exact ⟨h, .same _⟩
  · simp only [pended]
    exact ⟨h, .same _⟩
  all_goals obtain ⟨hstat, rfl, hsys⟩ := osMuxValidCheck_ok (not_not.mp hchk)
  all_goals obtain ⟨hx, hn⟩ := he rfl
  · exact ⟨(h.acquire hx hstat).of_eq rfl (setMuxes_muxes _) (setMuxes_calls _),
      .acquired mux timeout hx hn hstat hsys hc⟩
  · have hset : s.setMuxes mux (s.muxes.modify mux fun cb =>
        { cb with muxCount := (cb.muxCount + 1) % 2 ^ 16 }) = _ :=
      setMuxes_of_owner (by simp)
    simp only [pended, hset]
    exact ⟨(h.recount hstat hc fun n => (n + 1) % 2 ^ 16).of_eq rfl rfl rfl,
      .recursed mux timeout hx hn hstat hc ho⟩
  · exact ⟨h, .same _⟩
  · obtain ⟨o, ho'⟩ := Option.ne_none_iff_exists'.mp (h.count mux hc)
    have hne : o ≠ s.k.runTask := fun e => ho (e ▸ ho')
    obtain ⟨holt, hoidle⟩ := h.owner mux o ho'
    obtain ⟨hrun, hb, hsame, hx'⟩ := boosts_boostOwner mux h.run hx holt hoidle
    rw [ho']
    generalize boostOwner c _ (some o) = k₁ at *
    exact ⟨h.block hn hstat hrun (hb.env h.run.sched.1) hsame hx', .blocked mux timeout o k₁ _ hx hn
      hstat hsys hc ho' hne hb hsame.runTask blocks_osSchedTaskWait⟩

theorem Inv.leave (he : Executing c s.k) : Inv c { s with
      k := (s.k.takeTimeout s.k.runTask).1
      calls := s.calls.leave s.k.runTask } := by
  refine { h with
    run := h.run.takeTimeout
    wait := h.wait.leave he.pend
    lock := takeTimeout_same.losTaskLock.trans h.lock
    used := fun t r' hr' => ?_
    owner := fun mux o ho => takeTimeout_same.idleTaskID.symm ▸ h.owner mux o ho }
  have ht : t ≠ s.k.runTask := by
    rintro rfl
    simp at hr'
  exact h.used t r' (by simpa [ht] using hr')

theorem Inv.muxPendReturn (he : Executing c s.k) :
    Inv c (exec c s .muxPendReturn) ∧ Step c s .muxPendReturn (exec c s .muxPendReturn) := by
  simp only [exec]
  cases hr : s.calls.pc s.k.runTask with
  | none => exact ⟨h, .same _⟩
  | some r =>
    have hret : s.returned r s.k.losMuxPendReturn =
        { s with
          k := (s.k.takeTimeout s.k.runTask).1
          calls := s.calls.leave s.k.runTask
          pends := if (s.k.status s.k.runTask).timeout then s.pends
            else bumpTask s.pends r.mux s.k.runTask } := by
      simp only [losMuxPendReturn, takeTimeout_snd]
      cases (s.k.status s.k.runTask).timeout <;> rfl
    simp only [hret]
    exact ⟨(h.leave he).of_eq rfl rfl rfl, .returned r he hr⟩

end

theorem reprioritises_restorePriority {priority : ℕ} (h : RunInv c pm k) (hx : Executing c k)
    (hp : priority ≤ taskPriorityLowest) : RunInv c pm (restorePriority c k priority) ∧
      Reprioritises k.runTask priority k (restorePriority c k priority) ∧
      Same k (restorePriority c k priority) := by
  simp only [restorePriority]
  split_ifs with hne
  · obtain ⟨hrun, hr⟩ := h.reprioritise hx.lt hx.notIdle hp
    exact ⟨hrun, hr, osSchedModifyTaskSchedParam_same⟩
  · have heq := (not_not.mp hne).symm
    exact ⟨h, heq ▸ .refl, .refl _⟩

section

variable (h : Inv c s)
include h

theorem Inv.kernel (hrun : RunInv c False k₁) (he : Env s.k k₁)
    (hsame : Same s.k k₁) : Inv c { s with k := k₁ } :=
  { h with
    run := hrun
    wait := h.wait.env hrun.sched.1 he
    lock := hsame.losTaskLock.trans h.lock
    owner := fun mux o ho => hsame.idleTaskID.symm ▸ h.owner mux o ho }

theorem Inv.free_mux (hstat : (s.muxes.allMux mux).muxStat) : Inv c { s with
      muxes := s.muxes.modify mux fun cb => { cb with muxCount := 0, owner := none } } :=
  h.modifyMux mux rfl hstat (by simp) (by simp) (h.priority mux)

theorem Inv.hand (hstat : (s.muxes.allMux mux).muxStat) (hm : u ∈ s.k.lists (.muxList mux)) :
    let k' := (s.k.modifyTCB u fun cb => { cb with taskMux := none }).osSchedTaskWake c u
    Wakes u s.k k' ∧ Inv c { s with
      k := k'
      muxes := s.muxes.modify mux fun cb =>
        { cb with
          muxCount := 1
          owner := some u
          priority := (s.k.taskCB u).priority } } := by
  intro k'
  obtain ⟨hult, hup, -⟩ := h.run.sched.1.pend_of_mem rfl hm
  obtain ⟨_, _, hok⟩ := h.run.sched.1.task u hult
  obtain ⟨hrun', hw⟩ := h.run.wake (f := fun cb => { cb with taskMux := none })
    rfl hm (h.run.sched.1.freeze_eq_false hult) ⟨_, _, rfl⟩
  have hsame' : Same s.k k' := Same.trans (.modifyTCB ..) osSchedTaskWake_same
  have hinv' : Inv c { s with k := k' } := { h with
    run := hrun'
    wait := h.wait.wakes hw
    lock := hsame'.losTaskLock.trans h.lock
    owner := fun mux o ho => hsame'.idleTaskID.symm ▸ h.owner mux o ho }
  refine ⟨hw, hinv'.modifyMux mux rfl hstat ?_ (by simp) hok.priority⟩
  rintro _ ⟨⟩
  refine ⟨hult, fun e => ?_⟩
  have := (hok.idle (e.trans hsame'.idleTaskID)).1
  simp_all

theorem Inv.muxPost (he : Enabled c s (.muxPost mux intActive)) :
    Inv c (exec c s (.muxPost mux intActive)) ∧
      Step c s (.muxPost mux intActive) (exec c s (.muxPost mux intActive)) := by
  simp only [exec, losMuxPost]
  split_ifs with hle hint hown hc
  · exact ⟨h, .same _⟩
  · exact ⟨h, .same _⟩
  · exact ⟨h, .same _⟩
  all_goals obtain rfl : intActive = false := by simpa using hint
  all_goals obtain ⟨hx, hn⟩ := he rfl
  all_goals
    obtain ⟨-, hstat⟩ := not_or.mp hle
    obtain ⟨hcount, howner⟩ := not_or.mp hown
    replace hstat : (s.muxes.allMux mux).muxStat := by simpa using hstat
    replace howner := not_not.mp howner
  · have hset : s.setMuxes mux (s.muxes.modify mux fun cb =>
        { cb with muxCount := cb.muxCount - 1 }) = _ := setMuxes_of_owner (by simp)
    simp only [posted, hset]
    exact ⟨(h.recount hstat hcount (· - 1)).of_eq rfl rfl rfl,
      .released mux hx hn howner (by omega)⟩
  · have hone : (s.muxes.allMux mux).muxCount = 1 := by omega
    obtain ⟨hrun, hr, hsame⟩ := reprioritises_restorePriority h.run hx (h.priority mux)
    have hlist := hr.lists (.muxList mux) rfl
    generalize restorePriority c s.k (s.muxes.allMux mux).priority = k₁ at *
    have hinv : Inv c { s with k := k₁ } :=
      h.kernel hrun (h.run.sched.1.env_of_reprioritises hr) hsame
    cases hl : k₁.lists (.muxList mux) with
    | nil =>
      have hset : s.setMuxes mux (s.muxes.modify mux fun cb =>
          { cb with muxCount := 0, owner := none }) = _ := setMuxes_of_none (by simp)
      simp only [posted, hset]
      exact ⟨(hinv.free_mux hstat).of_eq rfl rfl rfl,
        .freed mux k₁ hx hn howner hone hr (hlist.symm.trans hl)⟩
    | cons u rest =>
      obtain ⟨hw, hinv'⟩ := hinv.hand (u := u) hstat (by simp [hl])
      dsimp only [posted] at hw hinv' ⊢
      generalize osSchedTaskWake c _ u = k' at *
      exact ⟨hinv'.of_eq rfl (setMuxes_muxes _) (setMuxes_calls _),
        .handed mux u rest k₁ k' hx hn howner hone hr hinv hsame.runTask (hlist.symm.trans hl) hw⟩

theorem Inv.step (he : Enabled c s op) : Inv c (exec c s op) ∧ Step c s op (exec c s op) := by
  cases op with
  | task => exact h.task he.1 he.2
  | taskDelete => exact h.taskDelete
  | muxCreate => exact h.muxCreate
  | muxPend => exact h.muxPend he
  | muxPendReturn => exact h.muxPendReturn he.1
  | muxPost => exact h.muxPost he

end

theorem Inv.of_reaches (h : (machine c).Reaches s) : Inv c s := by
  refine h.invariant ?_ fun s op hi ha => (hi.step ha).1
  rintro _ ⟨k, a, b, hk, rfl⟩
  exact .init hk

theorem Inv.lt_of_owner (hi : Inv c s) (ho : (s.muxes.allMux mux).owner = some t) :
    mux < c.muxLimit := by
  refine hi.limit mux (.inr ?_)
  by_contra hstat
  simp [hi.blank mux (by simpa using hstat)] at ho

theorem Inv.owner_ne (hi : Inv c s) (h : ∀ m < c.muxLimit, (s.muxes.allMux m).owner ≠ some t)
    (m : ℕ) : (s.muxes.allMux m).owner ≠ some t := fun ho => h m (hi.lt_of_owner ho) ho

theorem invariant_of_steps (h : ((machine c).restrict P).Reaches s)
    (init : ∀ k swtmrStack idleStack, losKernelInit c swtmrStack idleStack = (k, .ok) →
      I { k := k, muxes := osMuxInit c, base := fun t => (k.taskCB t).priority })
    (step : ∀ s s' op, Inv c s → Inv c s' → I s → P s op → Step c s op s' → I s') :
    Inv c s ∧ I s := by
  refine h.invariant (I := fun s => Inv c s ∧ I s) ?_ ?_
  · rintro _ ⟨k, a, b, hk, rfl⟩
    exact ⟨.init hk, init k a b hk⟩
  · rintro s op ⟨hinv, hi⟩ ha
    obtain ⟨hinv', hstep⟩ := hinv.step ha.1
    exact ⟨hinv', step s _ op hinv hinv' hi ha.2 hstep⟩

/-- Control block `t` belongs to a task that has not been deleted. -/
def Live (c : Config) (s : MuxSys) (t : TaskID) : Prop :=
  t < c.taskMaxNum ∧ (s.k.status t).unused = false ∧ (s.k.status t).exit = false
deriving Decidable

theorem Live.of_view (h : s.Live c t) (hv : ∃ p q d o, (s'.k.taskCB t).view =
    { (s.k.taskCB t).view with priority := p, pend := q, timed := d, timeout := o }) :
    s'.Live c t := by
  obtain ⟨p, q, d, o, hv⟩ := hv
  exact ⟨h.1, (congrArg unused hv).trans h.2.1, (congrArg exit hv).trans h.2.2⟩

theorem live_congr (hv : ∀ u, ∃ p q d o, (s'.k.taskCB u).view =
    { (s.k.taskCB u).view with priority := p, pend := q, timed := d, timeout := o }) :
    s'.Live c = s.Live c := by
  funext u
  obtain ⟨p, q, d, o, hv⟩ := hv u
  have hu : (s'.k.status u).unused = (s.k.status u).unused := congrArg unused hv
  have he : (s'.k.status u).exit = (s.k.status u).exit := congrArg exit hv
  simp only [Live, hu, he]

theorem Boosts.view_blocks (hb : Boosts o k k₁)
    (hw : Blocks i k₁ k') (t : TaskID) : ∃ p q d o, (k'.taskCB t).view =
      { (k.taskCB t).view with priority := p, pend := q, timed := d, timeout := o } := by
  obtain ⟨p, hp⟩ := hb.view t
  obtain ⟨q, d, hq⟩ := hw.view t
  exact ⟨p, q, d, _, by rw [hq, hp]⟩

theorem Boosts.priority (hb : Boosts o k k₁)
    (hw : Blocks i k₁ k') (ht : t ≠ o) : (k'.taskCB t).priority = (k.taskCB t).priority := by
  obtain ⟨_, _, hq⟩ := hw.view t
  refine (congrArg TaskView.priority hq).trans ?_
  cases hb with
  | none _ hq => exact congrArg TaskView.priority (hq.view t)
  | boost _ hr => exact congrArg TaskView.priority (hr.others t ht)

theorem view_handed {priority : ℕ}
    (hr : Reprioritises v priority k k₁) (hw : Wakes u k₁ k') (t : TaskID) :
    ∃ p q d o, (k'.taskCB t).view =
      { (k.taskCB t).view with priority := p, pend := q, timed := d, timeout := o } := by
  obtain ⟨p, hp⟩ := hr.view t
  obtain ⟨q, d, hq⟩ := hw.view t
  exact ⟨p, q, d, _, by rw [hq, hp]⟩

/-- The state after `LOS_KernelInit` of the small configuration. -/
def smallSys : MuxSys :=
  { k := smallBoot, muxes := Muxes.osMuxInit smallConfig,
    base := fun t => (smallBoot.taskCB t).priority }

theorem reaches_smallSys : (machine smallConfig).Reaches smallSys := .start ⟨_, 0, 1000, rfl, rfl⟩

theorem restrict_reaches_smallSys :
    ((machine smallConfig).restrict P).Reaches smallSys := .start ⟨_, 0, 1000, rfl, rfl⟩

end MuxSys

end LiteOS.Kernel
