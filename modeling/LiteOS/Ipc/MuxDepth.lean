import LiteOS.Ipc.MuxSteps

/-!
# How often a mutex can be locked

`muxCount` has 16 bits, and `LOS_MuxPend` takes a count of 0 for a free mutex. The owner locks and
unlocks the mutex in any order, in whatever state the kernel is at each of its calls; the mutex
excludes the other tasks exactly as long as its owner has at most 65535 pends to release.
-/

namespace LiteOS.Kernel

open Lib Sched

inductive OwnerCall
  | pend (timeout : ℕ)
  | post
deriving DecidableEq

namespace OwnerCall

def exec (c : Config) (mux : ℕ) (m : Muxes) : Sched × OwnerCall → Muxes
  | (k, pend timeout) => (k.losMuxPend c m mux timeout false).2.1
  | (k, post) => (k.losMuxPost c m mux false).2.1

def after (c : Config) (mux : ℕ) (m : Muxes) (calls : List (Sched × OwnerCall)) : Muxes :=
  calls.foldl (exec c mux) m

def depth (d : ℕ) : Sched × OwnerCall → ℕ
  | (_, pend _) => d + 1
  | (_, post) => d - 1

/-- The pends that a sequence of calls leaves to release. -/
def unreleased (calls : List (Sched × OwnerCall)) : ℕ := calls.foldl depth 0

/-- `t` may call `LOS_MuxPend`. -/
def MayPend (t : TaskID) (k : Sched) : Prop :=
  k.runTask = t ∧ k.losTaskLock = 0 ∧ (k.status t).systemTask = false
deriving Decidable

structure Excludes (c : Config) (m : Muxes) (mux : ℕ) (t : TaskID) : Prop where
  count : (m.allMux mux).muxCount ≠ 0
  others : ∀ (k : Sched) timeout intActive, k.runTask ≠ t →
    (k.losMuxPend c m mux timeout intActive).2.2 ≠ some .ok

/-- A mutex that exists has been locked by `t`, and its counter is at `d`. -/
structure Locked (m : Muxes) (mux : ℕ) (t : TaskID) (d : ℕ) : Prop where
  stat : (m.allMux mux).muxStat
  count : (m.allMux mux).muxCount = d
  owner : d ≠ 0 → (m.allMux mux).owner = some t

variable {c : Config} {k : Sched} {m : Muxes} {mux d n timeout : ℕ} {t : TaskID}
  {calls : List (Sched × OwnerCall)}

theorem osMuxValidCheck_of_mayPend {cb : LosMuxCB} (hk : MayPend t k) (hs : cb.muxStat) :
    k.osMuxValidCheck cb false = .ok := by
  obtain ⟨rfl, hlock, hsys⟩ := hk
  simp [osMuxValidCheck, hs, hlock, hsys]

theorem Locked.pend (h : Locked m mux t d) (hlim : mux < c.muxLimit) (hk : MayPend t k) :
    Locked (exec c mux m (k, .pend timeout)) mux t ((d + 1) % 2 ^ 16) := by
  have hlim := not_le.mpr hlim
  simp only [exec, losMuxPend, hlim, osMuxValidCheck_of_mayPend hk h.stat]
  obtain rfl := hk.1
  by_cases hd : d = 0
  · subst hd
    rw [if_pos h.count]
    exact ⟨by simpa using h.stat, by simp, fun _ => by simp⟩
  · have hc : (m.allMux mux).muxCount ≠ 0 := by rwa [h.count]
    rw [if_neg hc, if_pos (h.owner hd)]
    exact ⟨by simpa using h.stat, by simp [h.count], fun _ => by simpa using h.owner hd⟩

theorem Locked.post (h : Locked m mux t d) (hlim : mux < c.muxLimit) (hk : MayPend t k)
    (hd : 2 ≤ d) : Locked (exec c mux m (k, .post)) mux t (d - 1) := by
  obtain rfl := hk.1
  have hvalid : ¬(mux ≥ c.muxLimit ∨ (!(m.allMux mux).muxStat)) := by
    simp [hlim, h.stat]
  have hown : ¬((m.allMux mux).muxCount = 0 ∨ (m.allMux mux).owner ≠ some k.runTask) := by
    rw [h.count, h.owner (by omega)]
    simp only [ne_eq, not_true, or_false]
    omega
  have hmore : (m.allMux mux).muxCount - 1 ≠ 0 := by
    rw [h.count]
    omega
  simp only [exec, losMuxPost, if_neg hvalid, if_neg hown, if_pos hmore]
  exact ⟨by simpa using h.stat, by simp [h.count], fun _ => by simpa using h.owner (by omega)⟩

theorem Locked.excludes (h : Locked m mux t d) (hd : d ≠ 0) : Excludes c m mux t := by
  have hc : (m.allMux mux).muxCount ≠ 0 := by rwa [h.count]
  refine ⟨hc, fun k timeout intActive hne => ?_⟩
  have hown : (m.allMux mux).owner ≠ some k.runTask := by
    rw [h.owner hd]
    exact fun e => hne (Option.some.inj e).symm
  simp only [losMuxPend]
  split_ifs with hlim hchk htime
  · simp
  · simpa using hchk
  · simp
  · simp

theorem after_take_succ (h : n < calls.length) :
    after c mux m (calls.take (n + 1)) = exec c mux (after c mux m (calls.take n)) calls[n] := by
  rw [← List.take_append_getElem h, after, List.foldl_concat, after]

theorem unreleased_take_succ (h : n < calls.length) :
    unreleased (calls.take (n + 1)) = depth (unreleased (calls.take n)) calls[n] := by
  rw [← List.take_append_getElem h, unreleased, List.foldl_concat, unreleased]

section Calls

variable (hlim : mux < c.muxLimit) (hs : (m.allMux mux).muxStat = true)
  (hfree : (m.allMux mux).muxCount = 0) (hk : ∀ x ∈ calls, MayPend t x.1)
  (hheld : ∀ n, 0 < n → n ≤ calls.length → 0 < unreleased (calls.take n))
include hlim hs hfree hk hheld

/-- The counter follows the pends to release until they are 65536. -/
theorem locked_take (hn : n ≤ calls.length) (hlt : ∀ i < n, unreleased (calls.take i) < 2 ^ 16) :
    Locked (after c mux m (calls.take n)) mux t (unreleased (calls.take n) % 2 ^ 16) := by
  induction n with
  | zero => exact ⟨hs, hfree, fun h => absurd rfl h⟩
  | succ n ih =>
    have hn' : n < calls.length := hn
    have hl := ih hn'.le fun i hi => hlt i (Nat.lt_succ_of_lt hi)
    have hd := hlt n (Nat.lt_succ_self n)
    rw [Nat.mod_eq_of_lt hd] at hl
    have hmay := hk _ (List.getElem_mem hn')
    have hpos := hheld (n + 1) n.succ_pos hn
    rw [unreleased_take_succ hn'] at hpos ⊢
    rw [after_take_succ hn']
    rcases hx : calls[n] with ⟨k, timeout | _⟩
    · rw [hx] at hmay
      exact hl.pend hlim hmay
    · rw [hx] at hmay hpos
      simp only [depth] at hpos ⊢
      rw [Nat.mod_eq_of_lt (by omega)]
      exact hl.post hlim hmay (by omega)

/-- The mutex excludes the other tasks while its owner has pends to release if and only if there are
never more than 65535 of them. -/
theorem excludes_iff : (∀ n, 0 < n → n ≤ calls.length →
      Excludes c (after c mux m (calls.take n)) mux t) ↔
    ∀ n ≤ calls.length, unreleased (calls.take n) ≤ 65535 := by
  constructor
  · intro hex n
    induction n using Nat.strong_induction_on with
    | _ n ih =>
      intro hn
      have hlt : ∀ i < n, unreleased (calls.take i) < 2 ^ 16 := fun i hi => by
        have := ih i hi (hi.le.trans hn)
        omega
      have hl := locked_take hlim hs hfree hk hheld hn hlt
      rcases n with _ | n
      · simp [unreleased]
      · -- one call adds at most one pend, so the counter would be at 0
        have hle := hlt n n.lt_succ_self
        have hne := (hex (n + 1) n.succ_pos hn).count
        rw [hl.count] at hne
        have hstep : unreleased (calls.take (n + 1)) ≤ unreleased (calls.take n) + 1 := by
          rw [unreleased_take_succ hn]
          rcases calls[n] with ⟨k, timeout | _⟩ <;> simp only [depth] <;> omega
        omega
  · intro hle n h0 hn
    have hl := locked_take hlim hs hfree hk hheld hn fun i hi => by
      have := hle i (hi.le.trans hn)
      omega
    refine hl.excludes ?_
    have := hheld n h0 hn
    have := hle n hn
    omega

end Calls

end OwnerCall

namespace MuxSys

open OwnerCall

def muxCreated : MuxSys := (machine smallConfig).run smallSys
  [.task (.taskCreate (userTask 9 false) 2000), .task (.schedStart 0), .muxCreate]

/-- Task 1 locks mutex 0 three times and unlocks it once. -/
def smallCalls : List (Sched × OwnerCall) :=
  [(muxCreated.k, .pend 7), (muxCreated.k, .pend 0), (muxCreated.k, .post), (muxCreated.k, .pend 7)]

theorem excludes_iff_recursed : unreleased (smallCalls.take 4) = 2 ∧
    Excludes smallConfig (after smallConfig 0 muxCreated.muxes (smallCalls.take 4)) 0 1 := by
  have hheld : ∀ n < 5, 0 < n → 0 < unreleased (smallCalls.take n) := by decide
  have hle : ∀ n < 5, unreleased (smallCalls.take n) ≤ 65535 := by decide
  exact ⟨by decide, (excludes_iff (by decide) (by decide +kernel) (by decide +kernel)
    (by decide +kernel) fun n h0 hn => hheld n (Nat.lt_succ_of_le hn) h0).mpr
    (fun n hn => hle n (Nat.lt_succ_of_le hn)) 4 (by decide) (by decide)⟩

variable {c : Config} {s : MuxSys} {mux n timeout : ℕ}

theorem exec_muxPend_owner (hlim : mux < c.muxLimit)
    (hs : (s.muxes.allMux mux).muxStat) (hk : MayPend s.k.runTask s.k)
    (hc : (s.muxes.allMux mux).muxCount ≠ 0) (ho : (s.muxes.allMux mux).owner = some s.k.runTask) :
    exec c s (.muxPend mux timeout false) = { s with
      muxes := s.muxes.modify mux fun cb => { cb with muxCount := (cb.muxCount + 1) % 2 ^ 16 }
      pends := bumpTask s.pends mux s.k.runTask } := by
  have hlim := not_le.mpr hlim
  simp only [exec, losMuxPend, hlim, if_false, osMuxValidCheck_of_mayPend hk hs, ne_eq, not_true,
    hc, ho, if_true, pended]
  rw [setMuxes_of_owner (by simp)]

theorem reaches_pends (h : (machine c).Reaches s) (hx : Executing c s.k)
    (hpc : s.calls.pc s.k.runTask = none) (hlim : mux < c.muxLimit)
    (hs : (s.muxes.allMux mux).muxStat) (hk : MayPend s.k.runTask s.k)
    (hc : (s.muxes.allMux mux).muxCount = 1)
    (ho : (s.muxes.allMux mux).owner = some s.k.runTask) (hn : n ≤ 65535) :
    ∃ s', (machine c).Reaches s' ∧ s'.k = s.k ∧ s'.calls = s.calls ∧ s'.posts = s.posts ∧
      s'.pends mux s.k.runTask = s.pends mux s.k.runTask + n ∧ (s'.muxes.allMux mux).muxStat ∧
      (s'.muxes.allMux mux).muxCount = (n + 1) % 2 ^ 16 ∧
      (s'.muxes.allMux mux).owner = some s.k.runTask := by
  induction n with
  | zero => exact ⟨s, h, rfl, rfl, rfl, rfl, hs, hc, ho⟩
  | succ n ih =>
    obtain ⟨s', h', hk', hcalls, hposts, hpends, hs', hc', ho'⟩ := ih (by omega)
    rw [← hk'] at hx hk hpends ho' hpc ⊢
    rw [← hcalls] at hpc
    have hc0 : (s'.muxes.allMux mux).muxCount ≠ 0 := by omega
    have ha : (machine c).allowed s' (.muxPend mux 0 false) := fun _ => ⟨hx, hpc⟩
    have hstep := h'.step _ ha
    have hexec : (machine c).step s' (.muxPend mux 0 false) = _ :=
      exec_muxPend_owner hlim hs' hk hc0 ho'
    rw [hexec] at hstep
    refine ⟨_, hstep, rfl, hcalls, hposts, ?_, by simpa using hs', ?_, by simpa using ho'⟩
    · simp [bumpTask_self, hpends, Nat.add_assoc]
    · simp [hc']

theorem reaches_task (h : (machine c).Reaches s) (op : TaskOp) (he : op.Enabled c s.k)
    (hg : op.Gentle s.k) : ∃ s', (machine c).Reaches s' ∧ s'.k = op.exec c s.k ∧
      s'.muxes = s.muxes ∧ s'.pends = s.pends ∧ s'.posts = s.posts := by
  have ha : (machine c).allowed s (.task op) := ⟨he, hg⟩
  obtain ⟨base, born, hnote⟩ := noteTask_eq (s := s) (op.newTask c s.k)
  refine ⟨_, h.step _ ha, rfl, ?_⟩
  simp only [machine, exec, hnote, and_self]

/-- Task 1 locks the mutex 65536 times and unlocks it never; then task 2 gets it. -/
theorem not_excluded : ∃ s, (machine smallConfig).Reaches s ∧ s.k.runTask = 2 ∧
    s.pends 0 1 = 65536 ∧ s.posts 0 1 = 0 ∧ (s.muxes.allMux 0).muxCount = 0 ∧
    (s.k.losMuxPend smallConfig s.muxes 0 7 false).2.2 = some .ok := by
  have hr := reaches_smallSys.run [.task (.taskCreate (userTask 9 false) 2000),
    .task (.schedStart 0), .muxCreate, .muxPend 0 7 false] (by decide +kernel)
  obtain ⟨s, h, hk, hcalls, hposts, hpends, hs, hc, -⟩ := reaches_pends hr (by decide +kernel)
    (by decide +kernel) (by decide : 0 < smallConfig.muxLimit) (by decide +kernel)
    (by decide +kernel) (by decide +kernel) (by decide +kernel) (le_refl 65535)
  obtain ⟨s₁, h₁, hk₁, hm₁, hpe₁, hpo₁⟩ := reaches_task h
    (.taskCreate (userTask 5 false) 3000) (by rw [hk]; decide +kernel)
    (by rw [hk]; decide +kernel)
  rw [hk] at hk₁
  obtain ⟨s₂, h₂, hk₂, hm₂, hpe₂, hpo₂⟩ := reaches_task h₁ (.taskSwitch 10)
    (by rw [hk₁]; decide +kernel) (by rw [hk₁]; decide +kernel)
  rw [hk₁] at hk₂
  have hmux := hm₂.trans hm₁
  have hrun : s₂.k.runTask = 2 := by rw [hk₂]; decide +kernel
  have hwrap : (65535 + 1) % 2 ^ 16 = 0 := by decide
  have hcount : (s₂.muxes.allMux 0).muxCount = 0 := by rw [hmux, hc, hwrap]
  have hmay : MayPend 2 s₂.k := by rw [hk₂]; decide +kernel
  refine ⟨s₂, h₂, hrun, ?_, ?_, hcount, ?_⟩
  · rw [hpe₂, hpe₁]
    exact hpends.trans (by decide +kernel)
  · rw [hpo₂, hpo₁, hposts]
    decide +kernel
  · have hlim : ¬0 ≥ smallConfig.muxLimit := by decide
    simp only [losMuxPend, hlim, if_false, osMuxValidCheck_of_mayPend hmay (hmux ▸ hs), ne_eq,
      not_true, hcount, if_true]

end MuxSys

end LiteOS.Kernel
