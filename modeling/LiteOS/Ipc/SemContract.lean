import LiteOS.Ipc.Sem

/-!
# The contract of semaphores

Any number of tasks and interrupt handlers use the semaphores, while tasks are created, delayed,
suspended, resumed and reprioritised and timeouts expire. What has been posted to a semaphore is
what it counts now plus what has been granted to calls of `LOS_SemPend`, and the waiters are granted
in the order in which they began to wait.
-/

namespace LiteOS.Kernel

open Lib Sched Function Sems

/-- A call of `LOS_SemPend` that waits for a semaphore. -/
structure SemRequest where
  sem : ℕ
deriving DecidableEq

instance : Request SemRequest where
  head r := .semList r.sem
  isWait _ := rfl

/-- The kernel and its semaphores. Not in the source: the calls in progress, the count each
semaphore was created with, and how many posts and pends have returned `LOS_OK` since. -/
structure SemSys where
  k : Sched
  sems : Sems
  calls : Calls SemRequest := {}
  initial : ℕ → ℕ := fun _ => 0
  posts : ℕ → ℕ := fun _ => 0
  pends : ℕ → ℕ := fun _ => 0

inductive SemOp
  | task (op : TaskOp)
  | semCreate (count : ℕ)
  | binarySemCreate (count : ℕ)
  | semPend (semHandle timeout : ℕ) (intActive : Bool)
  | semPendReturn
  | semPost (semHandle : ℕ)
deriving DecidableEq

namespace SemSys

def created (s : SemSys) (count : ℕ) : Sems × Except Errno ℕ → SemSys
  | (m, .error _) => { s with sems := m }
  | (m, .ok sem) =>
    { s with
      sems := m
      initial := update s.initial sem count
      posts := update s.posts sem 0
      pends := update s.pends sem 0 }

/-- The first half of `LOS_SemPend` by the running task. -/
def pended (s : SemSys) (sem : ℕ) : Sched × Sems × Option Errno → SemSys
  | (k, m, none) => { s with k := k, sems := m, calls := s.calls.enter s.k.runTask ⟨sem⟩ }
  | (k, m, some .ok) => { s with k := k, sems := m, pends := bump s.pends sem }
  | (k, m, some _) => { s with k := k, sems := m }

/-- The second half of `LOS_SemPend` by the running task. -/
def returned (s : SemSys) (r : SemRequest) : Sched × Errno → SemSys
  | (k, .ok) =>
    { s with k := k, calls := s.calls.leave s.k.runTask, pends := bump s.pends r.sem }
  | (k, _) => { s with k := k, calls := s.calls.leave s.k.runTask }

/-- `LOS_SemPost` -/
def posted (s : SemSys) (sem : ℕ) : Sched × Sems × Errno → SemSys
  | (k, m, .ok) => { s with k := k, sems := m, posts := bump s.posts sem }
  | (k, m, _) => { s with k := k, sems := m }

def exec (c : Config) (s : SemSys) : SemOp → SemSys
  | .task op => { s with k := op.exec c s.k }
  | .semCreate count => s.created count (s.sems.losSemCreate count)
  | .binarySemCreate count => s.created count (s.sems.losBinarySemCreate count)
  | .semPend sem timeout intActive => s.pended sem (s.k.losSemPend c s.sems sem timeout intActive)
  | .semPendReturn =>
    match s.calls.pc s.k.runTask with
    | none => s
    | some r => s.returned r s.k.losSemPendReturn
  | .semPost sem => s.posted sem (s.k.losSemPost c s.sems sem)

/-- When an operation can come. Tasks call `LOS_SemPend` while they execute their own code and are
not inside another call. -/
def Enabled (c : Config) (s : SemSys) : SemOp → Prop
  | .task op => op.Enabled c s.k ∧ op.Gentle s.k
  | .semCreate count => count < 2 ^ 16
  | .binarySemCreate count => count < 2 ^ 16
  | .semPend _ _ intActive => intActive = false →
      Executing c s.k ∧ s.calls.pc s.k.runTask = none
  | .semPendReturn => Executing c s.k ∧ s.calls.pc s.k.runTask ≠ none
  | .semPost _ => True

/-- Runs after `LOS_KernelInit`. -/
def machine (c : Config) : Machine SemSys SemOp where
  init s := ∃ k swtmrStack idleStack, losKernelInit c swtmrStack idleStack = (k, .ok) ∧
    s = { k := k, sems := Sems.osSemInit c }
  allowed := Enabled c
  step := exec c

instance (c : Config) (s : SemSys) (op : SemOp) : Decidable ((machine c).allowed s op) := by
  cases op <;> unfold machine Enabled <;> infer_instance

/-- The semaphores that have been created are consistent with the calls. -/
structure Inv (c : Config) (s : SemSys) : Prop where
  run : RunInv c False s.k
  wait : WaitInv c s.k s.calls
  unused : s.sems.unusedSemList.Nodup
  free : ∀ sem ∈ s.sems.unusedSemList, (s.sems.allSem sem).semStat = false
  used : ∀ t r, s.calls.pc t = some r → (s.sems.allSem r.sem).semStat
  count : ∀ sem, (s.sems.allSem sem).semCount ≤ (s.sems.allSem sem).maxSemCount
  max : ∀ sem, (s.sems.allSem sem).maxSemCount < 2 ^ 16
  empty : ∀ sem, 0 < (s.sems.allSem sem).semCount → s.k.lists (.semList sem) = []
  law : ∀ sem, (s.sems.allSem sem).semStat → s.initial sem + s.posts sem =
    (s.sems.allSem sem).semCount + s.pends sem + inflight c s.k s.calls ⟨sem⟩

variable {c : Config} {s s' : SemSys} {op : SemOp}
  {sem swtmrStack idleStack count maxCount n timeout : ℕ} {t u : TaskID} {r : SemRequest}
  {intActive : Bool} {posts pends : ℕ → ℕ} {k : Sched}

theorem head_injective : Function.Injective (Request.head (R := SemRequest)) := by
  rintro ⟨a⟩ ⟨b⟩ hab
  cases hab
  rfl

theorem Inv.init (h : losKernelInit c swtmrStack idleStack = (k, .ok)) :
    Inv c { k := k, sems := osSemInit c } where
  run := .of_losKernelInit h
  wait := .init (booted_of_losKernelInit False h).inv.1
    (booted_of_losKernelInit False h).fresh
  unused := List.nodup_range
  free _ _ := rfl
  used t r hr := nomatch hr
  count _ := le_refl _
  max _ := by simp [osSemInit]
  empty sem hc := absurd hc (by simp [osSemInit])
  law sem hs := absurd hs (by simp [osSemInit])

theorem Inv.task {op : TaskOp} (h : Inv c s) (he : op.Enabled c s.k) (hg : op.Gentle s.k) :
    Inv c { s with k := op.exec c s.k } := by
  obtain ⟨hrun, hspec⟩ := h.run.gentle he hg
  have henv := hspec.env
  refine { h with
    run := hrun
    wait := h.wait.env hrun.sched.1 henv
    empty := fun sem hc => ?_
    law := fun sem hs => ?_ }
  · rw [henv.lists _ rfl, h.empty sem hc, List.filter_nil]
  · rw [h.law sem hs, inflight_congr fun t _ => (h.wait.granted_env henv).symm]

theorem Inv.inflight_eq_zero (h : Inv c s) (hs : (s.sems.allSem sem).semStat = false) :
    s.k.lists (.semList sem) = [] ∧ inflight c s.k s.calls ⟨sem⟩ = 0 := by
  have hnone : ∀ t, s.calls.pc t ≠ some ⟨sem⟩ := fun t ht => by simpa [hs] using h.used t _ ht
  constructor
  · refine List.eq_nil_iff_forall_not_mem.mpr fun t hm => ?_
    obtain ⟨-, ⟨sem'⟩, hr, he⟩ := h.wait.of_mem h.run.sched.1 rfl hm
    cases he
    exact hnone t hr
  · simp [inflight, Granted, hnone]

theorem Inv.created (h : Inv c s) (hm : maxCount < 2 ^ 16) :
    Inv c (s.created count (s.sems.osSemCreate count maxCount)) := by
  simp only [Sems.osSemCreate]
  split_ifs with hle
  · exact h
  · cases hl : s.sems.unusedSemList with
    | nil => exact h
    | cons sem unused =>
      have hfree := h.free sem (by simp [hl])
      obtain ⟨hnil, hzero⟩ := h.inflight_eq_zero hfree
      have hnodup := h.unused
      rw [hl, List.nodup_cons] at hnodup
      refine { h with
        unused := hnodup.2
        free := fun sem' hm' => ?_
        used := fun t r hr => ?_
        count := fun sem' => ?_
        max := fun sem' => ?_
        empty := fun sem' hc => ?_
        law := fun sem' hs => ?_ }
      · have hmem : sem' ∈ unused := hm'
        have hne : sem' ≠ sem := fun e => hnodup.1 (e ▸ hmem)
        simpa [SemSys.created, Sems.modify, hne] using h.free sem' (by simp [hl, hmem])
      · by_cases hne : r.sem = sem
        · simp [SemSys.created, Sems.modify, hne]
        · simpa [SemSys.created, Sems.modify, hne] using h.used t r hr
      · by_cases hne : sem' = sem
        · simpa [SemSys.created, Sems.modify, hne] using hle
        · simpa [SemSys.created, Sems.modify, hne] using h.count sem'
      · by_cases hne : sem' = sem
        · simpa [SemSys.created, Sems.modify, hne] using hm
        · simpa [SemSys.created, Sems.modify, hne] using h.max sem'
      · by_cases hne : sem' = sem
        · simpa [SemSys.created, hne] using hnil
        · exact h.empty sem' (by simpa [SemSys.created, Sems.modify, hne] using hc)
      · by_cases hne : sem' = sem
        · subst hne
          simp [SemSys.created, Sems.modify, hzero]
        · simpa [SemSys.created, Sems.modify, hne] using
            h.law sem' (by simpa [SemSys.created, Sems.modify, hne] using hs)

theorem Inv.recount (h : Inv c s) (hn : n ≤ (s.sems.allSem sem).maxSemCount)
    (hempty : 0 < n → s.k.lists (.semList sem) = [])
    (hpost : ∀ sem' ≠ sem, posts sem' = s.posts sem')
    (hpend : ∀ sem' ≠ sem, pends sem' = s.pends sem')
    (hlaw : (s.sems.allSem sem).semStat → s.initial sem + posts sem =
      n + pends sem + inflight c s.k s.calls ⟨sem⟩) : Inv c { s with
      sems := s.sems.modify sem fun cb => { cb with semCount := n }
      posts := posts
      pends := pends } := by
  have hstat : ∀ sem', ((s.sems.modify sem fun cb => { cb with semCount := n }).allSem
      sem').semStat = (s.sems.allSem sem').semStat := fun sem' => by
    by_cases hne : sem' = sem
    · subst hne
      simp [Sems.modify]
    · simp [Sems.modify, hne]
  have hmax : ∀ sem', ((s.sems.modify sem fun cb => { cb with semCount := n }).allSem
      sem').maxSemCount = (s.sems.allSem sem').maxSemCount := fun sem' => by
    by_cases hne : sem' = sem
    · subst hne
      simp [Sems.modify]
    · simp [Sems.modify, hne]
  refine { h with
    free := fun sem' hm' => (hstat sem').trans (h.free sem' hm')
    used := fun t r hr => (hstat r.sem).trans (h.used t r hr)
    count := fun sem' => ?_
    max := fun sem' => (hmax sem').trans_lt (h.max sem')
    empty := fun sem' hc => ?_
    law := fun sem' hs => ?_ }
  · rw [hmax]
    by_cases hne : sem' = sem
    · subst hne
      simpa [Sems.modify] using hn
    · simpa [Sems.modify, hne] using h.count sem'
  · by_cases hne : sem' = sem
    · subst hne
      exact hempty (by simpa [Sems.modify] using hc)
    · exact h.empty sem' (by simpa [Sems.modify, hne] using hc)
  · rw [hstat] at hs
    by_cases hne : sem' = sem
    · subst hne
      simpa [Sems.modify] using hlaw hs
    · simpa [Sems.modify, hne, hpost sem' hne, hpend sem' hne] using h.law sem' hs

theorem osSemValidCheck_ok {cb : LosSemCB}
    (h : k.osSemValidCheck cb intActive = .ok) : cb.semStat ∧ intActive = false := by
  simp only [osSemValidCheck] at h
  split_ifs at h with hstat hint
  exact ⟨by simpa using hstat, by simpa using hint⟩

theorem Inv.semPend (h : Inv c s)
    (he : intActive = false → Executing c s.k ∧ s.calls.pc s.k.runTask = none) :
    Inv c (exec c s (.semPend sem timeout intActive)) := by
  simp only [exec, losSemPend]
  split_ifs with hle hchk hc ht
  · exact h
  · simp only [pended]
    exact h
  · -- the count is taken at once
    have hcount := h.count sem
    refine h.recount (by omega) (fun _ => h.empty sem hc) (fun _ _ => rfl) (fun sem' hne => ?_)
      fun hs => ?_
    · simp [bump, hne]
    · have hlaw := h.law sem hs
      simp [bump]
      omega
  · exact h
  · obtain ⟨hstat, hint⟩ := osSemValidCheck_ok (not_not.mp hchk)
    obtain ⟨hx, hn⟩ := he hint
    obtain ⟨hrun, hb⟩ := h.run.block (f := fun cb => { cb with taskSem := some sem })
      (i := .semList sem) hx rfl ⟨_, _, rfl⟩
    dsimp only [pended]
    refine { h with
      run := hrun
      wait := h.wait.enter h.run.sched.1 hx hn hb
      used := fun t r hr => ?_
      empty := fun sem' hc' => ?_
      law := fun sem' hs => ?_ }
    · by_cases htr : t = s.k.runTask
      · subst htr
        simp only [Calls.enter_pc, update_self, Option.some.injEq] at hr
        exact hr ▸ hstat
      · exact h.used t r (by simpa [htr] using hr)
    · have hne : sem' ≠ sem := fun e => hc (e ▸ hc')
      exact (hb.otherLists (.semList sem') rfl (by simpa using hne)).trans (h.empty sem' hc')
    · exact (h.law sem' hs).trans (congrArg _ (inflight_congr fun t _ =>
        (granted_enter hb hn).symm))

theorem Inv.semPendReturn (h : Inv c s) (he : Executing c s.k) :
    Inv c (exec c s .semPendReturn) := by
  simp only [exec]
  cases hr : s.calls.pc s.k.runTask with
  | none => exact h
  | some r =>
    have hg : ∀ sem, Granted s.k s.calls s.k.runTask ⟨sem⟩ ↔
        r.sem = sem ∧ (s.k.status s.k.runTask).timeout = false := fun sem => by
      have hrs : r = ⟨sem⟩ ↔ r.sem = sem := by
        constructor
        all_goals
          rintro rfl
          rfl
      simp only [Granted, hr, Option.some.injEq, hrs]
      exact and_congr_right fun _ => and_iff_right he.pend
    have hused : ∀ t r', (s.calls.leave s.k.runTask).pc t = some r' →
        (s.sems.allSem r'.sem).semStat := fun t r' hr' => by
      have ht : t ≠ s.k.runTask := by
        rintro rfl
        simp at hr'
      exact h.used t r' (by simpa [ht] using hr')
    have hempty : ∀ sem, 0 < (s.sems.allSem sem).semCount →
        (s.k.takeTimeout s.k.runTask).1.lists (.semList sem) = [] := fun sem hc => by
      rw [takeTimeout_lists]
      exact h.empty sem hc
    have hlaw : ∀ sem, (s.sems.allSem sem).semStat → s.initial sem + s.posts sem =
        (s.sems.allSem sem).semCount + (s.pends sem +
          if r.sem = sem ∧ (s.k.status s.k.runTask).timeout = false then 1 else 0) +
        inflight c (s.k.takeTimeout s.k.runTask).1 (s.calls.leave s.k.runTask) ⟨sem⟩ := by
      intro sem hs
      have hold := h.law sem hs
      rw [inflight_leave he.lt] at hold
      simp only [hg sem] at hold
      omega
    have hto := takeTimeout_snd (k := s.k) (t := s.k.runTask)
    simp only [losSemPendReturn]
    cases hb : (s.k.status s.k.runTask).timeout with
    | true =>
      simp only [hto, hb, returned]
      refine { h with
        run := h.run.takeTimeout
        wait := h.wait.leave he.pend
        used := hused
        empty := hempty
        law := fun sem hs => ?_ }
      simpa [hb] using hlaw sem hs
    | false =>
      simp only [hto, hb, returned]
      refine { h with
        run := h.run.takeTimeout
        wait := h.wait.leave he.pend
        used := hused
        empty := hempty
        law := fun sem hs => ?_ }
      have := hlaw sem hs
      by_cases hne : sem = r.sem
      · subst hne
        simpa [hb, bump] using this
      · simpa [bump, hne, Ne.symm hne] using this

theorem Inv.semPost (h : Inv c s) : Inv c (exec c s (.semPost sem)) := by
  simp only [exec, losSemPost]
  split_ifs with hle hstat hmax
  iterate 3 exact h
  · cases hl : s.k.lists (.semList sem) with
    | nil =>
      have hcount := h.count sem
      have hlt := h.max sem
      have hmod : ((s.sems.allSem sem).semCount + 1) % 2 ^ 16 = (s.sems.allSem sem).semCount + 1 :=
        Nat.mod_eq_of_lt (by omega)
      refine h.recount (by omega) (fun _ => hl) (fun sem' hne => ?_) (fun _ _ => rfl) fun hs => ?_
      · simp [bump, hne]
      · have hlaw := h.law sem hs
        rw [hmod]
        simp [bump]
        omega
    | cons t =>
      have hm : t ∈ s.k.lists (.semList sem) := by simp [hl]
      have ht := h.run.sched.1.linked.bound _ _ hm
      obtain ⟨hrun, hw⟩ := h.run.wake (f := fun cb => { cb with taskSem := none })
        rfl hm (h.run.sched.1.freeze_eq_false ht) ⟨_, _, rfl⟩
      have hfl := h.wait.inflight_wakes h.run.sched.1 hw hm head_injective
      dsimp only [posted]
      refine { h with
        run := hrun
        wait := h.wait.wakes hw
        empty := fun sem' hc => ?_
        law := fun sem' hs => ?_ }
      · rw [hw.lists _ rfl, h.empty sem' hc]
        rfl
      · have hlaw := h.law sem' hs
        simp only [hfl ⟨sem'⟩]
        by_cases hne : sem' = sem
        · subst hne
          simp [bump]
          omega
        · simpa [bump, hne] using hlaw

theorem Inv.step (h : Inv c s) (he : Enabled c s op) : Inv c (exec c s op) := by
  cases op with
  | task => exact h.task he.1 he.2
  | semCreate => exact h.created (by simp [semCountingMaxCount])
  | binarySemCreate => exact h.created (by simp [semBinaryMaxCount])
  | semPend => exact h.semPend he
  | semPendReturn => exact h.semPendReturn he.1
  | semPost => exact h.semPost

theorem Inv.of_reaches (h : (machine c).Reaches s) : Inv c s :=
  h.invariant (fun _ ⟨_, _, _, hk, hs⟩ => hs ▸ .init hk) fun _ _ hinv ha => hinv.step ha

theorem created_k (x : Sems × Except Errno ℕ) : (s.created count x).k = s.k := by
  rcases x with ⟨m, _ | _⟩ <;> rfl

theorem created_calls (x : Sems × Except Errno ℕ) : (s.created count x).calls = s.calls := by
  rcases x with ⟨m, _ | _⟩ <;> rfl

theorem returned_k : (s.returned r s.k.losSemPendReturn).k = (s.k.takeTimeout s.k.runTask).1 := by
  simp only [losSemPendReturn]
  cases (s.k.takeTimeout s.k.runTask).2 <;> rfl

theorem returned_calls : (s.returned r s.k.losSemPendReturn).calls = s.calls.leave s.k.runTask := by
  simp only [losSemPendReturn]
  cases (s.k.takeTimeout s.k.runTask).2 <;> rfl

/-- Only a post grants a waiting call, and it grants the one that has waited longest. -/
theorem Inv.granted_first (h : Inv c s) (he : Enabled c s op) (hn : ¬Granted s.k s.calls t ⟨sem⟩)
    (hg : Granted (exec c s op).k (exec c s op).calls t ⟨sem⟩) : t ∈ s.k.lists (.semList sem) ∧
      ∀ u ∈ s.k.lists (.semList sem), u ≠ t → s.calls.since t < s.calls.since u := by
  cases op with
  | task => exact absurd ((h.wait.granted_env (h.run.gentle he.1 he.2).2.env).mp hg) hn
  | semCreate => exact absurd (by simpa [exec, created_k, created_calls] using hg) hn
  | binarySemCreate => exact absurd (by simpa [exec, created_k, created_calls] using hg) hn
  | semPend sem' timeout =>
    simp only [exec, losSemPend] at hg
    split_ifs at hg with hle hchk hc ht
    · exact absurd hg hn
    · simp only [pended] at hg
      exact absurd hg hn
    · exact absurd hg hn
    · exact absurd hg hn
    · obtain ⟨hx, hpc⟩ := he (osSemValidCheck_ok (not_not.mp hchk)).2
      obtain ⟨-, hb⟩ := h.run.block (f := fun cb => { cb with taskSem := some sem' })
        (i := .semList sem') hx rfl ⟨_, _, rfl⟩
      exact absurd ((granted_enter hb hpc).mp hg) hn
  | semPendReturn =>
    simp only [exec] at hg
    split at hg
    · exact absurd hg hn
    · rw [returned_k, returned_calls] at hg
      by_cases ht : t = s.k.runTask
      · subst ht
        exact absurd hg not_granted_leave
      · exact absurd ((granted_leave_of_ne ht).mp hg) hn
  | semPost sem' =>
    simp only [exec, losSemPost] at hg
    split_ifs at hg with hle hstat hmax
    iterate 3 exact absurd hg hn
    · cases hl : s.k.lists (.semList sem') with
      | nil =>
        simp only [hl] at hg
        exact absurd hg hn
      | cons v =>
        have hm : v ∈ s.k.lists (.semList sem') := by simp [hl]
        have hv := h.run.sched.1.linked.bound _ _ hm
        obtain ⟨-, hw⟩ := h.run.wake (f := fun cb => { cb with taskSem := none })
          rfl hm (h.run.sched.1.freeze_eq_false hv) ⟨_, _, rfl⟩
        simp only [hl] at hg
        have htv : t = v := by
          by_contra hne
          exact hn ((granted_wakes_of_ne hw hne).mp hg)
        subst htv
        have hgt := h.wait.granted_wakes h.run.sched.1 hw hm
          head_injective
        cases Option.some.inj (hgt.1.symm.trans hg.1)
        refine ⟨hm, fun u hu hne => ?_⟩
        have hord := h.wait.order (.semList sem) rfl
        rw [hl, List.pairwise_cons] at hord
        rw [hl] at hu
        exact hord.1 u ((List.mem_cons.mp hu).resolve_left hne)

structure Conserves (c : Config) (s : SemSys) (sem : ℕ) : Prop where
  count : (s.sems.allSem sem).semCount ≤ (s.sems.allSem sem).maxSemCount
  empty : 0 < (s.sems.allSem sem).semCount → s.k.lists (.semList sem) = []
  law : s.initial sem + s.posts sem =
    (s.sems.allSem sem).semCount + (s.pends sem + inflight c s.k s.calls ⟨sem⟩)
  /-- The calls counted by `inflight` are those that will return `LOS_OK`. -/
  returns : Executing c s.k → s.calls.pc s.k.runTask = some ⟨sem⟩ →
    (s.k.losSemPendReturn.2 = .ok ↔ Granted s.k s.calls s.k.runTask ⟨sem⟩)
  /-- Waiters are granted in the order in which they began to wait. -/
  order : ∀ op t, (machine c).allowed s op → ¬Granted s.k s.calls t ⟨sem⟩ →
    Granted (exec c s op).k (exec c s op).calls t ⟨sem⟩ → t ∈ s.k.lists (.semList sem) ∧
      ∀ u ∈ s.k.lists (.semList sem), u ≠ t → s.calls.since t < s.calls.since u

theorem conserves_of_reaches (h : (machine c).Reaches s)
    (hs : (s.sems.allSem sem).semStat = true) : Conserves c s sem := by
  have hinv := Inv.of_reaches h
  refine ⟨hinv.count sem, hinv.empty sem, ?_, fun he hr => ?_, fun op t ha hn hg =>
    hinv.granted_first ha hn hg⟩
  · rw [hinv.law sem hs, Nat.add_assoc]
  · have hp := he.pend
    simp only [losSemPendReturn, takeTimeout_snd, Granted]
    cases hto : (s.k.status s.k.runTask).timeout <;> simp_all

/-- A task waits for a semaphore and an interrupt handler posts before it has been switched out. -/
theorem conserves_of_reaches_granted : ∃ s, (machine smallConfig).Reaches s ∧
    Granted s.k s.calls 1 ⟨0⟩ ∧ Conserves smallConfig s 0 := by
  have hr := Machine.Reaches.run (M := machine smallConfig)
    (.start ⟨_, 0, 1000, rfl, rfl⟩) [.task (.taskCreate (userTask 5 false) 2000),
      .task (.schedStart 0), .semCreate 0, .semPend 0 7 false, .semPost 0] (by decide +kernel)
  exact ⟨_, hr, by decide +kernel, conserves_of_reaches hr (by decide +kernel)⟩

end SemSys

end LiteOS.Kernel
