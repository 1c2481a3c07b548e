import LiteOS.Timer.SwtmrContract
import Mathlib.Data.Nat.ModEq

/-!
# Identifiers of software timers

The identifier of a timer is the index of its control block plus a multiple of
`LOSCFG_BASE_CORE_SWTMR_LIMIT`, which counts how often the block has been deleted. The count starts
again when the next identifier would reach `OS_SWTMR_MAX_TIMERID`, so that the identifier of a
deleted timer is refused until its block has been deleted once for every identifier it can have.
-/

namespace LiteOS.Timer

open Lib Kernel Function Nat

namespace Swtmrs

section

variable (c : SwtmrConfig) (s : Swtmrs)

def osSwtmrTimeGet (t currTime : ℕ) : ℕ :=
  let time := if currTime ≥ (s.cbArray t).responseTime then 0
    else (s.cbArray t).responseTime - currTime
  let time := time * c.tickPerSecond % 2 ^ 64 / c.sysClock
  if time > 0xFFFFFFFF then 0xFFFFFFFF else time

/-- `LOS_SwtmrTimeGet`; `hasTick` says whether there is an address for the result. -/
def losSwtmrTimeGet (swtmrId currTime : ℕ) (hasTick : Bool) :
    Except SwtmrErrno ℕ :=
  if swtmrId ≥ c.maxTimerID then .error .idInvalid
  else if !hasTick then .error .tickPtrNull
  else
    match s.findCB c swtmrId with
    | .error e => .error e
    | .ok t =>
      match (s.cbArray t).ucState with
      | .unused => .error .notCreated
      | .created => .error .notStarted
      | .ticking => .ok (s.osSwtmrTimeGet c t currTime)

/-- The timer task accepts a message: it deletes a one-shot timer and calls the handler. -/
def Accepts (item : SwtmrHandlerItem) : Prop :=
  item.handler ≠ none ∧ item.swtmrID < c.maxTimerID ∧
    (s.cbArray (item.swtmrID % c.swtmrLimit)).usTimerID = item.swtmrID
deriving Decidable

/-- The identifier of the block that an operation deletes. -/
def deletes : SwtmrOp → Option ℕ
  | .swtmrDelete swtmrId => if (s.losSwtmrDelete c swtmrId).2 = .ok then some swtmrId else none
  | .swtmrTaskHandle => s.handling.bind fun item =>
      if s.Accepts c item ∧ (s.cbArray (item.swtmrID % c.swtmrLimit)).ucMode = .once then
        some item.swtmrID
      else none
  | _ => none

def newId : SwtmrOp → Option ℕ
  | .swtmrCreate interval mode handler hasRet arg =>
    (s.losSwtmrCreate interval mode handler hasRet arg).2.toOption
  | _ => none

end

variable {c : SwtmrConfig} {s s' s'' : Swtmrs} {op : SwtmrOp} {t u n g currTime : ℕ}

/-- How often a control block can be deleted before its identifier is the same again -/
theorem maxTimerID_div (c : SwtmrConfig) :
    c.maxTimerID / c.swtmrLimit = 0xFFFFFFFF / c.swtmrLimit :=
  Nat.mul_div_cancel _ c.limit_pos

theorem next_usTimerID (ht : t < c.swtmrLimit) (hg : g < c.maxTimerID / c.swtmrLimit) :
    (if t + g * c.swtmrLimit < c.maxTimerID - c.swtmrLimit then t + g * c.swtmrLimit + c.swtmrLimit
    else (t + g * c.swtmrLimit) % c.swtmrLimit) =
      t + (g + 1) % (c.maxTimerID / c.swtmrLimit) * c.swtmrLimit := by
  rw [maxTimerID_div] at hg ⊢
  rw [SwtmrConfig.maxTimerID]
  generalize 0xFFFFFFFF / c.swtmrLimit = N at *
  obtain ⟨M, rfl⟩ : ∃ M, N = M + 1 := ⟨N - 1, by omega⟩
  have hsub : (M + 1) * c.swtmrLimit - c.swtmrLimit = M * c.swtmrLimit := by
    rw [Nat.add_mul, Nat.one_mul, Nat.add_sub_cancel]
  rw [hsub]
  rcases Nat.lt_succ_iff_lt_or_eq.mp hg with hlt | rfl
  · have hle : (g + 1) * c.swtmrLimit ≤ M * c.swtmrLimit := Nat.mul_le_mul_right _ hlt
    rw [Nat.add_mul, Nat.one_mul] at hle
    rw [if_pos (by omega), Nat.mod_eq_of_lt (by omega), Nat.add_mul, Nat.one_mul, Nat.add_assoc]
  · rw [if_neg (by omega), Nat.mod_self, Nat.zero_mul, Nat.add_zero, Nat.add_mul_mod_self_right,
      Nat.mod_eq_of_lt ht]

/-! ## What only creating and deleting change -/

/-- The free list is the same, and so is what names a timer and says what it does. -/
structure Keeps (s s' : Swtmrs) : Prop where
  freeList : s'.freeList = s.freeList
  usTimerID : ∀ u, (s'.cbArray u).usTimerID = (s.cbArray u).usTimerID
  pstNext : ∀ u, (s'.cbArray u).pstNext = (s.cbArray u).pstNext
  ucMode : ∀ u, (s'.cbArray u).ucMode = (s.cbArray u).ucMode
  pfnHandler : ∀ u, (s'.cbArray u).pfnHandler = (s.cbArray u).pfnHandler
  uwInterval : ∀ u, (s'.cbArray u).uwInterval = (s.cbArray u).uwInterval

theorem Keeps.of_eq (hf : s'.freeList = s.freeList) (hcb : s'.cbArray = s.cbArray) :
    Keeps s s' := by
  constructor <;> simp [hf, hcb]

theorem Keeps.refl (s : Swtmrs) : Keeps s s := .of_eq rfl rfl

theorem Keeps.trans (h : Keeps s s') (h' : Keeps s' s'') : Keeps s s'' where
  freeList := h'.freeList.trans h.freeList
  usTimerID u := (h'.usTimerID u).trans (h.usTimerID u)
  pstNext u := (h'.pstNext u).trans (h.pstNext u)
  ucMode u := (h'.ucMode u).trans (h.ucMode u)
  pfnHandler u := (h'.pfnHandler u).trans (h.pfnHandler u)
  uwInterval u := (h'.uwInterval u).trans (h.uwInterval u)

theorem keeps_modifyCB {f : SwtmrCB → SwtmrCB} (hf : ∀ cb, ∃ a b d e, f cb =
      { cb with ucState := a, ucOverrun := b, responseTime := d, startTime := e }) :
    Keeps s (s.modifyCB t f) := by
  obtain ⟨a, b, d, e, hf⟩ := hf (s.cbArray t)
  have hcb : ∀ u, (s.modifyCB t f).cbArray u = if u = t then f (s.cbArray t) else s.cbArray u :=
    fun u => by simp [update_apply]
  constructor
  · rfl
  all_goals
    intro u
    rw [hcb]
    split_ifs with hu
    · rw [hu, hf]
    · rfl

theorem keeps_osDeleteNodeSortLink : Keeps s (s.osDeleteNodeSortLink t) :=
  (keeps_modifyCB fun _ => ⟨_, _, _, _, rfl⟩).trans (.of_eq rfl rfl)

theorem keeps_osSwtmrStop : Keeps s (s.osSwtmrStop t) := by
  simp only [osSwtmrStop, osDeleteSortLink]
  split_ifs
  · exact keeps_osDeleteNodeSortLink.trans (keeps_modifyCB fun _ => ⟨_, _, _, _, rfl⟩)
  · exact keeps_modifyCB fun _ => ⟨_, _, _, _, rfl⟩

theorem keeps_osSwtmrStart : Keeps s (s.osSwtmrStart c t) := by
  have hstate : Keeps s (s.modifyCB t fun cb => { cb with ucState := .ticking }) :=
    keeps_modifyCB fun _ => ⟨_, _, _, _, rfl⟩
  exact (hstate.trans (keeps_modifyCB fun _ => ⟨_, _, _, _, rfl⟩)).trans (.of_eq rfl rfl)

variable {item : SwtmrHandlerItem}

theorem keeps_queueWriteCopy : Keeps s (s.queueWriteCopy c item) := by
  refine .of_eq ?_ queueWriteCopy_cbArray
  simp only [queueWriteCopy]
  split_ifs <;> rfl

theorem keeps_osSwtmrTimeoutHandle : Keeps s (s.osSwtmrTimeoutHandle c t) := by
  simp only [osSwtmrTimeoutHandle]
  split
  · exact keeps_queueWriteCopy.trans
      ((keeps_modifyCB fun _ => ⟨_, _, _, _, rfl⟩).trans keeps_osSwtmrStart)
  · exact keeps_queueWriteCopy.trans (keeps_modifyCB fun _ => ⟨_, _, _, _, rfl⟩)
  · exact keeps_queueWriteCopy

theorem keeps_expire : Keeps s (s.expire c t) :=
  ((keeps_modifyCB fun _ => ⟨_, _, _, _, rfl⟩).trans keeps_osDeleteNodeSortLink).trans
    keeps_osSwtmrTimeoutHandle

theorem keeps_scanLoop (fuel : ℕ) : Keeps s (scanLoop c n fuel s) := by
  induction fuel generalizing s with
  | zero => exact .refl s
  | succ _ ih =>
    simp only [scanLoop]
    split
    · exact .refl s
    · split_ifs
      · exact keeps_expire.trans ih
      · exact .refl s

theorem keeps_losSwtmrStart : Keeps s (s.losSwtmrStart c n currTime).1 := by
  simp only [losSwtmrStart]
  split
  · exact .refl s
  split
  · exact .refl s
  · exact (keeps_osSwtmrStop.trans (keeps_modifyCB fun _ => ⟨_, _, _, _, rfl⟩)).trans
      keeps_osSwtmrStart
  · exact (keeps_modifyCB fun _ => ⟨_, _, _, _, rfl⟩).trans keeps_osSwtmrStart

theorem keeps_losSwtmrStop : Keeps s (s.losSwtmrStop c n).1 := by
  simp only [losSwtmrStop]
  split
  · exact .refl s
  split
  · exact .refl s
  · exact .refl s
  · exact keeps_osSwtmrStop

theorem keeps_swtmrTaskRead : Keeps s s.swtmrTaskRead := by
  simp only [swtmrTaskRead]
  split
  · exact .refl s
  · exact .of_eq rfl rfl

/-! ## What the other calls do -/

theorem findCB_error {e : SwtmrErrno} (h : s.findCB c n = .error e) : e ≠ .ok := by
  simp only [findCB] at h
  split_ifs at h <;> cases h <;> simp

theorem losSwtmrDelete_cases (c : SwtmrConfig) (s : Swtmrs) (n : ℕ) :
    (∃ e, e ≠ .ok ∧ s.losSwtmrDelete c n = (s, e)) ∨ ((s.cbArray (n % c.swtmrLimit)).usTimerID = n ∧
      (s.cbArray (n % c.swtmrLimit)).ucState ≠ .unused ∧
      ∃ s₁, (s₁ = s ∧ (s.cbArray (n % c.swtmrLimit)).ucState = .created ∨
          s₁ = s.osSwtmrStop (n % c.swtmrLimit)) ∧
        s.losSwtmrDelete c n = (s₁.osSwtmrDelete c (n % c.swtmrLimit), .ok)) := by
  simp only [losSwtmrDelete]
  cases hfind : s.findCB c n with
  | error e => exact .inl ⟨e, findCB_error hfind, rfl⟩
  | ok =>
    obtain ⟨-, rfl, hid⟩ := findCB_ok hfind
    dsimp only
    cases hstate : (s.cbArray (n % c.swtmrLimit)).ucState with
    | unused => exact .inl ⟨_, by simp, rfl⟩
    | ticking => exact .inr ⟨hid, by simp, _, .inr rfl, rfl⟩
    | created => exact .inr ⟨hid, by simp, _, .inl ⟨rfl, rfl⟩, rfl⟩

theorem swtmrTaskHandle_of_accepts (h : s.handling = some item) (ha : s.Accepts c item) :
    s.swtmrTaskHandle c = if (s.cbArray (item.swtmrID % c.swtmrLimit)).ucMode = .once then
        ({ s with handling := none }).osSwtmrDelete c (item.swtmrID % c.swtmrLimit)
      else { s with handling := none } := by
  obtain ⟨hh, hlt, hid⟩ := ha
  simp only [swtmrTaskHandle, h]
  rw [if_neg (by simp [hh, hlt]), if_neg (by simpa using hid)]

theorem swtmrTaskHandle_of_not_accepts (h : s.handling = some item) (ha : ¬s.Accepts c item) :
    s.swtmrTaskHandle c = { s with handling := none } := by
  simp only [swtmrTaskHandle, h]
  split_ifs with hbad hid honce
  · rfl
  · rfl
  · exact absurd ⟨(not_or.mp hbad).1, not_le.mp (not_or.mp hbad).2, not_not.mp hid⟩ ha
  · rfl

variable {x : ℕ}

/-- `OsSwtmrDelete` on the block with identifier `x`, after `s₁`. -/
theorem deletes_cases (c : SwtmrConfig) (s : Swtmrs) (op : SwtmrOp) (h : s.deletes c op = some x) :
    (s.cbArray (x % c.swtmrLimit)).usTimerID = x ∧
      ∃ s₁, Keeps s s₁ ∧ exec c s op = s₁.osSwtmrDelete c (x % c.swtmrLimit) := by
  cases op with
  | swtmrDelete swtmrId =>
    rcases losSwtmrDelete_cases c s swtmrId with ⟨e, he, heq⟩ | ⟨hid, -, s₁, hs₁, heq⟩
    · simp [deletes, heq, he] at h
    · obtain rfl : swtmrId = x := by simpa [deletes, heq] using h
      refine ⟨hid, s₁, ?_, by simp [exec, heq]⟩
      rcases hs₁ with ⟨rfl, -⟩ | rfl
      · exact .refl _
      · exact keeps_osSwtmrStop
  | swtmrTaskHandle =>
    simp only [deletes, Option.bind_eq_some_iff, Option.ite_none_right_eq_some,
      Option.some.injEq] at h
    obtain ⟨item, hh, ⟨ha, honce⟩, rfl⟩ := h
    refine ⟨ha.2.2, { s with handling := none }, .of_eq rfl rfl, ?_⟩
    simp only [exec, swtmrTaskHandle_of_accepts hh ha, if_pos honce]
  | _ => simp [deletes] at h

theorem newId_cases (c : SwtmrConfig) (s : Swtmrs) (op : SwtmrOp) (h : s.newId op = some x) :
    ∃ t, s.freeList = some t ∧ (s.cbArray t).usTimerID = x ∧
      (exec c s op).freeList = (s.cbArray t).pstNext ∧
      (∀ u ≠ t, (exec c s op).cbArray u = s.cbArray u) ∧
      ((exec c s op).cbArray t).usTimerID = x ∧ ((exec c s op).cbArray t).pstNext = none := by
  cases op with
  | swtmrCreate interval mode handler hasRet arg =>
    rcases losSwtmrCreate_cases s interval mode handler hasRet arg with
      ⟨e, heq⟩ | ⟨t, mode', handler', hfree, -, heq⟩
    · simp [newId, heq, Except.toOption] at h
    · have hx : (s.cbArray t).usTimerID = x := by simpa [newId, heq, Except.toOption] using h
      refine ⟨t, hfree, hx, by simp [exec, heq], fun u hu => by simp [exec, heq, hu], ?_, ?_⟩
      · simpa [exec, heq] using hx
      · simp [exec, heq]
  | _ => simp [newId] at h

theorem exec_keeps (hd : s.deletes c op = none) (hn : s.newId op = none) :
    Keeps s (exec c s op) := by
  cases op with
  | swtmrCreate interval mode handler hasRet arg =>
    rcases losSwtmrCreate_cases s interval mode handler hasRet arg with
      ⟨e, heq⟩ | ⟨t, mode', handler', -, -, heq⟩
    · simp only [exec, heq]
      exact .refl s
    · simp [newId, heq, Except.toOption] at hn
  | swtmrStart => exact keeps_losSwtmrStart
  | swtmrStop => exact keeps_losSwtmrStop
  | swtmrScan => exact keeps_scanLoop _
  | swtmrTaskRead => exact keeps_swtmrTaskRead
  | swtmrDelete swtmrId =>
    rcases losSwtmrDelete_cases c s swtmrId with ⟨e, he, heq⟩ | ⟨-, -, s₁, hs₁, heq⟩
    · simp only [exec, heq]
      exact .refl s
    · simp [deletes, heq] at hd
  | swtmrTaskHandle =>
    cases hh : s.handling with
    | none => simpa [exec, swtmrTaskHandle, hh] using .refl s
    | some item =>
      by_cases ha : s.Accepts c item
      · have honce : (s.cbArray (item.swtmrID % c.swtmrLimit)).ucMode ≠ .once := by
          simpa [deletes, hh, ha] using hd
        simp only [exec, swtmrTaskHandle_of_accepts hh ha, if_neg honce]
        exact .of_eq rfl rfl
      · simp only [exec, swtmrTaskHandle_of_not_accepts hh ha]
        exact .of_eq rfl rfl

theorem newId_eq_none_of_deletes (h : s.deletes c op = some x) : s.newId op = none := by
  cases op <;> simp_all [deletes, newId]

end Swtmrs

/-- The software timers. Not in the source: how often each control block has been deleted, and how
often it had been when an identifier was last returned by `LOS_SwtmrCreate`. -/
structure SwtmrIds where
  swtmrs : Swtmrs
  deletions : ℕ → ℕ := fun _ => 0
  issued : ℕ → Option ℕ := fun _ => none

namespace SwtmrIds

open Swtmrs

def exec (c : SwtmrConfig) (r : SwtmrIds) (op : SwtmrOp) : SwtmrIds where
  swtmrs := r.swtmrs.exec c op
  deletions :=
    match r.swtmrs.deletes c op with
    | none => r.deletions
    | some x => update r.deletions (x % c.swtmrLimit) (r.deletions (x % c.swtmrLimit) + 1)
  issued :=
    match r.swtmrs.newId op with
    | none => r.issued
    | some x => update r.issued x (some (r.deletions (x % c.swtmrLimit)))

/-- Runs after `OsSwtmrInit`: any calls, in any order. The timer task reads a message when it has
handled the last one. -/
def machine (c : SwtmrConfig) : Machine SwtmrIds SwtmrOp where
  init r := r = { swtmrs := osSwtmrInit c }
  allowed r op := op = .swtmrTaskRead → r.swtmrs.handling = none
  step := exec c

instance (c : SwtmrConfig) (r : SwtmrIds) (op : SwtmrOp) : Decidable ((machine c).allowed r op) :=
  inferInstanceAs (Decidable (op = .swtmrTaskRead → r.swtmrs.handling = none))

/-- The calls that refuse an identifier, and change nothing. -/
structure Stale (c : SwtmrConfig) (s : Swtmrs) (x : ℕ) : Prop where
  swtmrStart : ∀ currTime, s.losSwtmrStart c x currTime = (s, .notCreated)
  swtmrStop : s.losSwtmrStop c x = (s, .notCreated)
  swtmrDelete : s.losSwtmrDelete c x = (s, .notCreated)
  swtmrTimeGet : ∀ currTime, s.losSwtmrTimeGet c x currTime true = .error .notCreated

/-- The identifiers count the deletions, and an identifier was returned with the count it has. -/
structure Inv (c : SwtmrConfig) (r : SwtmrIds) : Prop where
  id : ∀ t < c.swtmrLimit, (r.swtmrs.cbArray t).usTimerID =
    t + r.deletions t % (c.maxTimerID / c.swtmrLimit) * c.swtmrLimit
  free : ∀ t, r.swtmrs.freeList = some t → t < c.swtmrLimit
  next : ∀ t < c.swtmrLimit, ∀ u, (r.swtmrs.cbArray t).pstNext = some u → u < c.swtmrLimit
  issued : ∀ x a, r.issued x = some a → a ≤ r.deletions (x % c.swtmrLimit) ∧
    x = x % c.swtmrLimit + a % (c.maxTimerID / c.swtmrLimit) * c.swtmrLimit

variable {c : SwtmrConfig} {r : SwtmrIds} {op : SwtmrOp} {t u x : ℕ}

theorem Inv.init : Inv c { swtmrs := osSwtmrInit c } where
  id t ht := by simp [osSwtmrInit]
  free t ht := by
    obtain rfl : 0 = t := by simpa [osSwtmrInit] using ht
    exact c.limit_pos
  next t ht u hu := by
    have hu : t + 1 < c.swtmrLimit ∧ t + 1 = u := by simpa [osSwtmrInit] using hu
    omega
  issued x a hx := nomatch hx

theorem Inv.deletes (h : Inv c r) (hx : r.swtmrs.deletes c op = some x)
    (hN : 0 < c.maxTimerID / c.swtmrLimit) : Inv c (exec c r op) := by
  obtain ⟨hid, s₁, hk, heq⟩ := deletes_cases c r.swtmrs op hx
  have hlt : x % c.swtmrLimit < c.swtmrLimit := mod_lt _ c.limit_pos
  have hr : exec c r op = { r with
      swtmrs := s₁.osSwtmrDelete c (x % c.swtmrLimit)
      deletions := update r.deletions (x % c.swtmrLimit)
        (r.deletions (x % c.swtmrLimit) + 1) } := by
    simp only [exec, heq, hx, newId_eq_none_of_deletes hx]
  rw [hr]
  generalize x % c.swtmrLimit = b at *
  have hcb : ∀ u ≠ b, (s₁.osSwtmrDelete c b).cbArray u = s₁.cbArray u := fun u hu => by
    simp [osSwtmrDelete, hu]
  constructor
  · intro u hu
    by_cases hub : u = b
    · subst hub
      have hnext := next_usTimerID hu (mod_lt (r.deletions u) hN)
      simp only [osSwtmrDelete, modifyCB_cbArray, update_self, hk.usTimerID]
      rw [h.id u hu, hnext, mod_add_mod]
    · simp only [hcb u hub, hk.usTimerID, update_of_ne hub]
      exact h.id u hu
  · intro t ht
    obtain rfl : b = t := Option.some.inj ht
    exact hlt
  · intro t ht u hu
    by_cases htb : t = b
    · subst htb
      have hfree : s₁.freeList = some u := by simpa [osSwtmrDelete] using hu
      exact h.free u (hk.freeList ▸ hfree)
    · rw [hcb t htb, hk.pstNext] at hu
      exact h.next t ht u hu
  · intro y a hy
    obtain ⟨hle, heq⟩ := h.issued y a hy
    refine ⟨hle.trans ?_, heq⟩
    by_cases hyb : y % c.swtmrLimit = b <;> simp [hyb]

theorem Inv.newId (h : Inv c r) (hx : r.swtmrs.newId op = some x)
    (hd : r.swtmrs.deletes c op = none) : Inv c (exec c r op) := by
  obtain ⟨t, hfree, hid, hfree', hcb, hid', hnext'⟩ := newId_cases c r.swtmrs op hx
  have ht := h.free t hfree
  have hx' := hid.symm.trans (h.id t ht)
  have hmod : x % c.swtmrLimit = t := by
    rw [hx', add_mul_mod_self_right, mod_eq_of_lt ht]
  have hr : exec c r op = { r with
      swtmrs := r.swtmrs.exec c op
      issued := update r.issued x (some (r.deletions t)) } := by
    simp only [exec, hx, hd, hmod]
  rw [hr]
  constructor
  · intro u hu
    by_cases hut : u = t
    · subst hut
      exact hid'.trans hx'
    · simp only [hcb u hut]
      exact h.id u hu
  · intro u hu
    exact h.next t ht u (hfree'.symm.trans hu)
  · intro u hu v hv
    by_cases hut : u = t
    · subst hut
      simp [hnext'] at hv
    · simp only [hcb u hut] at hv
      exact h.next u hu v hv
  · intro y a hy
    by_cases hyx : y = x
    · subst hyx
      obtain rfl : r.deletions t = a := by simpa using hy
      rw [hmod]
      exact ⟨le_rfl, hx'⟩
    · exact h.issued y a (by simpa [hyx] using hy)

theorem Inv.step (h : Inv c r) (hN : 0 < c.maxTimerID / c.swtmrLimit) : Inv c (exec c r op) := by
  cases hd : r.swtmrs.deletes c op with
  | some => exact h.deletes hd hN
  | none =>
    cases hn : r.swtmrs.newId op with
    | some => exact h.newId hn hd
    | none =>
      have hk := exec_keeps hd hn
      have hr : exec c r op = { r with swtmrs := r.swtmrs.exec c op } := by
        simp only [exec, hd, hn]
      rw [hr]
      exact ⟨fun t ht => (hk.usTimerID t).trans (h.id t ht),
        fun t ht => h.free t (hk.freeList ▸ ht),
        fun t ht u hu => h.next t ht u (hk.pstNext t ▸ hu), h.issued⟩

theorem Inv.of_reaches (hN : 0 < c.maxTimerID / c.swtmrLimit) (h : (machine c).Reaches r) :
    Inv c r := by
  refine h.invariant ?_ fun r op hi _ => hi.step hN
  rintro _ rfl
  exact .init

theorem div_pos_of_limit (h : c.swtmrLimit ≤ 65535) : 0 < c.maxTimerID / c.swtmrLimit := by
  rw [maxTimerID_div]
  exact div_pos (h.trans (by decide)) c.limit_pos

theorem stale_of_ne {s : Swtmrs} (hlt : x < c.maxTimerID)
    (hne : (s.cbArray (x % c.swtmrLimit)).usTimerID ≠ x) : Stale c s x := by
  have hfind : s.findCB c x = .error .notCreated := by
    rw [findCB, if_neg (not_le.mpr hlt), if_pos hne]
  constructor <;> intros <;>
    simp [losSwtmrStart, losSwtmrStop, losSwtmrDelete, losSwtmrTimeGet, hfind, hlt]

/-- Every block has an identifier of its own, and the identifier of a deleted timer is refused until
its block has been deleted as often as it has identifiers. -/
theorem stale_of_reaches (hl : c.swtmrLimit ≤ 65535) (h : (machine c).Reaches r) :
    (∀ t < c.swtmrLimit, (r.swtmrs.cbArray t).usTimerID % c.swtmrLimit = t ∧
      (r.swtmrs.cbArray t).usTimerID < c.maxTimerID) ∧
    ∀ x a, r.issued x = some a → a < r.deletions (x % c.swtmrLimit) →
      r.deletions (x % c.swtmrLimit) < a + c.maxTimerID / c.swtmrLimit → Stale c r.swtmrs x := by
  have hN := div_pos_of_limit hl
  have hi := Inv.of_reaches hN h
  have hlt : ∀ t < c.swtmrLimit, ∀ n, t + n % (c.maxTimerID / c.swtmrLimit) * c.swtmrLimit <
      c.maxTimerID := by
    intro t ht n
    have hmax : c.maxTimerID / c.swtmrLimit * c.swtmrLimit = c.maxTimerID := by
      rw [maxTimerID_div, SwtmrConfig.maxTimerID]
    calc t + n % (c.maxTimerID / c.swtmrLimit) * c.swtmrLimit
        < c.swtmrLimit + n % (c.maxTimerID / c.swtmrLimit) * c.swtmrLimit := by omega
      _ = (n % (c.maxTimerID / c.swtmrLimit) + 1) * c.swtmrLimit := by rw [Nat.add_mul]; omega
      _ ≤ c.maxTimerID / c.swtmrLimit * c.swtmrLimit :=
        Nat.mul_le_mul_right _ (Nat.mod_lt n hN)
      _ = c.maxTimerID := hmax
  refine ⟨fun t ht => ?_, fun x a hx hgt hle => ?_⟩
  · rw [hi.id t ht]
    exact ⟨by rw [Nat.add_mul_mod_self_right, Nat.mod_eq_of_lt ht], hlt t ht _⟩
  · obtain ⟨-, heq⟩ := hi.issued x a hx
    have hmod : x % c.swtmrLimit < c.swtmrLimit := Nat.mod_lt _ c.limit_pos
    refine stale_of_ne (heq ▸ hlt _ hmod a) fun he => ?_
    -- the counts of two different deletions less than a whole round apart differ
    rw [hi.id _ hmod] at he
    have hmul := Nat.add_left_cancel (he.trans heq)
    have hcount := Nat.eq_of_mul_eq_mul_right c.limit_pos hmul
    have hdvd := (Nat.modEq_iff_dvd' hgt.le).mp hcount.symm
    exact absurd (Nat.le_of_dvd (by omega) hdvd) (by omega)

/-- The block of a deleted timer is used again, under another identifier. -/
theorem stale_of_reaches_reused : ∃ r, (machine smallSwtmr).Reaches r ∧ r.issued 0 = some 0 ∧
    r.issued 2 = some 1 ∧ (r.swtmrs.cbArray 0).ucState = .created ∧
    Stale smallSwtmr r.swtmrs 0 := by
  have hr := Machine.Reaches.run (M := machine smallSwtmr) (.start rfl)
    [.swtmrCreate 1 (some .once) (some 7) true 0, .swtmrDelete 0,
      .swtmrCreate 1 (some .period) (some 8) true 0] (by decide +kernel)
  exact ⟨_, hr, by decide +kernel, by decide +kernel, by decide +kernel,
    (stale_of_reaches (by decide) hr).2 0 0 (by decide +kernel) (by decide +kernel)
      (by decide +kernel)⟩

end SwtmrIds

end LiteOS.Timer
