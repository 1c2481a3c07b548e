import LiteOS.Timer.Swtmr
import Mathlib.Data.Nat.Basic
import Mathlib.Order.Basic

/-!
# Software timers are not both free and armed

A one-shot timer that has expired is deleted by the timer task when it handles the expiry, however
late that is. The control block must not have been armed again until then.
-/

namespace LiteOS.Timer

open Lib Kernel

namespace Swtmrs

variable {c : SwtmrConfig} {s s' : Swtmrs} {op : SwtmrOp} {t u n arg currTime : ℕ} {l : List ℕ}
  {f g : SwtmrCB → SwtmrCB}

def expiries (s : Swtmrs) : List SwtmrHandlerItem := s.handling.toList ++ s.handlerQueue

/-- A one-shot timer is not started while one of its expiries is not handled, and no control block
has used up its identifiers. -/
def Prompt (c : SwtmrConfig) (s : Swtmrs) : SwtmrOp → Prop
  | .swtmrStart swtmrId _ => (s.cbArray (swtmrId % c.swtmrLimit)).ucMode = .once →
      ∀ item ∈ s.expiries, item.swtmrID ≠ swtmrId
  | .swtmrDelete swtmrId => swtmrId < c.maxTimerID - c.swtmrLimit
  | .swtmrTaskHandle => ∀ item ∈ s.handling, item.swtmrID < c.maxTimerID - c.swtmrLimit
  | _ => True

instance (c : SwtmrConfig) (s : Swtmrs) (op) : Decidable (Prompt c s op) := by
  induction op using SwtmrOp.casesOn <;> unfold Prompt <;> infer_instance

structure Sound (c : SwtmrConfig) (s : Swtmrs) : Prop where
  linked : ∀ t ∈ s.sortLink, t < c.swtmrLimit ∧ (s.cbArray t).ucState = .ticking
  sortLink : s.sortLink.Nodup
  /-- The free list ends, visits no block twice and holds exactly the unused blocks. -/
  free : ∃ l, Chain (fun t => (s.cbArray t).pstNext) s.freeList l ∧ l.Nodup ∧
    (∀ t, t ∈ l ↔ t < c.swtmrLimit ∧ (s.cbArray t).ucState = .unused) ∧ ∀ t ∈ l, t ∉ s.sortLink

/-- The invariant, with the blocks `l` on the free list. -/
structure Inv (c : SwtmrConfig) (s : Swtmrs) (l : List ℕ) : Prop where
  chain : Chain (fun t => (s.cbArray t).pstNext) s.freeList l
  free : ∀ t, t ∈ l ↔ t < c.swtmrLimit ∧ (s.cbArray t).ucState = .unused
  nodup : s.sortLink.Nodup
  linked : ∀ t ∈ s.sortLink, t < c.swtmrLimit ∧ (s.cbArray t).ucState = .ticking
  responseTime : ∀ t < c.swtmrLimit, (s.cbArray t).ucState ≠ .unused →
    (t ∈ s.sortLink ↔ (s.cbArray t).responseTime ≠ sortLinkInvalidTime)
  interval : ∀ t, (s.cbArray t).ucState ≠ .unused → 0 < (s.cbArray t).uwInterval
  id : ∀ t < c.swtmrLimit, (s.cbArray t).usTimerID % c.swtmrLimit = t
  /-- An expiry whose timer still has the same identifier is one of a timer that exists, and that is
  not armed if it is a one-shot timer. -/
  expiry : ∀ item ∈ s.expiries,
    item.swtmrID ≤ (s.cbArray (item.swtmrID % c.swtmrLimit)).usTimerID ∧
    (item.swtmrID = (s.cbArray (item.swtmrID % c.swtmrLimit)).usTimerID →
      (s.cbArray (item.swtmrID % c.swtmrLimit)).ucState ≠ .unused ∧
      ((s.cbArray (item.swtmrID % c.swtmrLimit)).ucMode = .once →
        item.swtmrID % c.swtmrLimit ∉ s.sortLink))

theorem Inv.sound (h : Inv c s l) : Sound c s where
  linked := h.linked
  sortLink := h.nodup
  free := ⟨l, h.chain, h.chain.nodup, h.free, fun t ht hs => by
    simpa [((h.free t).mp ht).2] using (h.linked t hs).2⟩

theorem chain_range' (k : ℕ) : ∀ n a, a + n = k → 0 < n →
    Chain (fun t => if t + 1 < k then some (t + 1) else none) (some a) (List.range' a n)
  | 0, _, _, h => absurd h (Nat.lt_irrefl 0)
  | 1, a, h, _ => ⟨rfl, by simp [← h, Chain]⟩
  | n + 2, a, h, _ => ⟨rfl, by
      have hlt : a + 1 < k := by omega
      simp only [hlt]
      exact chain_range' k (n + 1) (a + 1) (by omega) (by omega)⟩

theorem Inv.init : Inv c (osSwtmrInit c) (List.range c.swtmrLimit) where
  chain := by
    rw [List.range_eq_range']
    exact chain_range' c.swtmrLimit c.swtmrLimit 0 (by omega) c.limit_pos
  free t := by simp [osSwtmrInit]
  nodup := List.nodup_nil
  linked t ht := by simp [osSwtmrInit] at ht
  responseTime t _ ht := by simp [osSwtmrInit] at ht
  interval t ht := by simp [osSwtmrInit] at ht
  id t ht := by simpa [osSwtmrInit] using Nat.mod_eq_of_lt ht
  expiry item hm := by simp [expiries, osSwtmrInit] at hm

theorem Inv.notMem_free (h : Inv c s l) (hu : (s.cbArray t).ucState ≠ .unused) : t ∉ l :=
  fun ht => hu ((h.free t).mp ht).2

theorem Inv.notMem_sortLink (h : Inv c s l) (hu : (s.cbArray t).ucState ≠ .ticking) :
    t ∉ s.sortLink := fun ht => hu (h.linked t ht).2

/-! ## One control block changes -/

/-- Control block `t` changes, and may be linked or unlinked, taken from the free list or put
there. -/
theorem Inv.change {l' : List ℕ} (h : Inv c s l) (hothers : ∀ u ≠ t, s'.cbArray u = s.cbArray u)
    (hexp : s'.expiries = s.expiries)
    (hchain : Chain (fun u => (s'.cbArray u).pstNext) s'.freeList l')
    (hfree : ∀ u ≠ t, u ∈ l' ↔ u ∈ l)
    (hself : t ∈ l' ↔ t < c.swtmrLimit ∧ (s'.cbArray t).ucState = .unused)
    (hnodup : s'.sortLink.Nodup) (hlink : ∀ u ≠ t, u ∈ s'.sortLink ↔ u ∈ s.sortLink)
    (harmed : t ∈ s'.sortLink → t < c.swtmrLimit ∧ (s'.cbArray t).ucState = .ticking)
    (hused : (s'.cbArray t).ucState ≠ .unused → 0 < (s'.cbArray t).uwInterval ∧
      (t ∈ s'.sortLink ↔ (s'.cbArray t).responseTime ≠ sortLinkInvalidTime))
    (hid : (s'.cbArray t).usTimerID % c.swtmrLimit = (s.cbArray t).usTimerID % c.swtmrLimit)
    (hexpiry : ∀ item ∈ s.expiries, item.swtmrID % c.swtmrLimit = t →
      item.swtmrID ≤ (s'.cbArray t).usTimerID ∧ (item.swtmrID = (s'.cbArray t).usTimerID →
        (s'.cbArray t).ucState ≠ .unused ∧ ((s'.cbArray t).ucMode = .once → t ∉ s'.sortLink))) :
    Inv c s' l' := by
  refine ⟨hchain, fun u => ?_, hnodup, fun u hm => ?_, fun u hlt hu => ?_, fun u hu => ?_,
    fun u hlt => ?_, fun item hm => ?_⟩
  · by_cases hut : u = t
    · exact hut ▸ hself
    · rw [hfree u hut, hothers u hut]
      exact h.free u
  · by_cases hut : u = t
    · exact hut ▸ harmed (hut ▸ hm)
    · rw [hothers u hut]
      exact h.linked u ((hlink u hut).mp hm)
  · by_cases hut : u = t
    · subst hut
      exact (hused hu).2
    · rw [hothers u hut] at hu ⊢
      rw [hlink u hut]
      exact h.responseTime u hlt hu
  · by_cases hut : u = t
    · exact hut ▸ (hused (hut ▸ hu)).1
    · rw [hothers u hut] at hu ⊢
      exact h.interval u hu
  · by_cases hut : u = t
    · subst hut
      exact hid.trans (h.id u hlt)
    · rw [hothers u hut]
      exact h.id u hlt
  · rw [hexp] at hm
    by_cases hut : item.swtmrID % c.swtmrLimit = t
    · rw [hut]
      exact hexpiry item hm hut
    · rw [hothers _ hut, hlink _ hut]
      exact h.expiry item hm

theorem Inv.modify (sortLink : List ℕ) (h : Inv c s l)
    (hnext : (f (s.cbArray t)).pstNext = (s.cbArray t).pstNext)
    (hid : (f (s.cbArray t)).usTimerID = (s.cbArray t).usTimerID)
    (hmode : (f (s.cbArray t)).ucMode = (s.cbArray t).ucMode)
    (hint : (f (s.cbArray t)).uwInterval = (s.cbArray t).uwInterval)
    (hused : (f (s.cbArray t)).ucState = .unused ↔ (s.cbArray t).ucState = .unused)
    (hothers : ∀ u ≠ t, u ∈ sortLink ↔ u ∈ s.sortLink) (hnodup : sortLink.Nodup)
    (hself : t ∈ sortLink → t < c.swtmrLimit ∧ (f (s.cbArray t)).ucState = .ticking)
    (hresp : t ∈ sortLink ↔ (f (s.cbArray t)).responseTime ≠ sortLinkInvalidTime)
    (hexp : t ∈ sortLink → t ∉ s.sortLink → (s.cbArray t).ucMode = .once →
      ∀ item ∈ s.expiries, item.swtmrID ≠ (s.cbArray t).usTimerID) :
    Inv c { s.modifyCB t f with sortLink := sortLink } l := by
  have hcb : (s.modifyCB t f).cbArray t = f (s.cbArray t) := by simp
  have hne : ∀ u ≠ t, (s.modifyCB t f).cbArray u = s.cbArray u := fun u hu => by simp [hu]
  refine h.change (t := t) hne rfl (h.chain.congr fun u _ => ?_) (fun _ _ => Iff.rfl) ?_ hnodup
    hothers ?_ ?_ ?_ fun item hm hut => ?_
  all_goals simp only [hcb]
  · by_cases hut : u = t
    · rw [hut, hcb, hnext]
    · rw [hne u hut]
  · rw [hused]
    exact h.free t
  · exact hself
  · exact fun hu => ⟨hint ▸ h.interval t (mt hused.mpr hu), hresp⟩
  · rw [hid]
  · obtain ⟨hle, heq⟩ := hut ▸ h.expiry item hm
    rw [hid, hmode, ne_eq, hused]
    refine ⟨hle, fun he => ⟨(heq he).1, fun honce hin => ?_⟩⟩
    exact hexp hin ((heq he).2 honce) honce item hm he

theorem Inv.note (h : Inv c s l) (ht : t < c.swtmrLimit) (hu : (s.cbArray t).ucState ≠ .unused)
    (hf : ∀ cb, ∃ n m, f cb = { cb with startTime := n, ucOverrun := m }) :
    Inv c (s.modifyCB t f) l := by
  obtain ⟨n, m, hf⟩ := hf (s.cbArray t)
  exact h.modify s.sortLink (by simp [hf]) (by simp [hf]) (by simp [hf])
    (by simp [hf]) (by simp [hf]) (fun _ _ => Iff.rfl) h.nodup
    (fun hm => by simpa [hf] using h.linked t hm) (by simpa [hf] using h.responseTime t ht hu)
    fun hm hn => absurd hm hn

theorem Inv.osDeleteNodeSortLink (h : Inv c s l) : Inv c (s.osDeleteNodeSortLink t) l :=
  h.modify _ rfl rfl rfl rfl
    Iff.rfl
    (fun _ hu => List.mem_erase_of_ne hu) (h.nodup.erase t)
    (fun hm => absurd hm h.nodup.not_mem_erase) (by simpa using h.nodup.not_mem_erase)
    fun hm => absurd hm h.nodup.not_mem_erase

theorem Inv.osSwtmrStop (h : Inv c s l) (ht : t < c.swtmrLimit)
    (hu : (s.cbArray t).ucState ≠ .unused) :
    Inv c (s.osSwtmrStop t) l ∧ t ∉ (s.osSwtmrStop t).sortLink := by
  have hdel : Inv c (s.osDeleteSortLink t) l ∧ t ∉ (s.osDeleteSortLink t).sortLink ∧
      ((s.osDeleteSortLink t).cbArray t).responseTime = sortLinkInvalidTime ∧
      ((s.osDeleteSortLink t).cbArray t).ucState ≠ .unused := by
    simp only [osDeleteSortLink]
    split_ifs with hr
    · exact ⟨h.osDeleteNodeSortLink, h.nodup.not_mem_erase, by simp [Swtmrs.osDeleteNodeSortLink],
        by simpa [Swtmrs.osDeleteNodeSortLink] using hu⟩
    · exact ⟨h, fun hm => hr ((h.responseTime t ht hu).mp hm), not_not.mp hr, hu⟩
  obtain ⟨hi, hn, hr, hu'⟩ := hdel
  refine ⟨?_, hn⟩
  exact hi.modify (f := fun cb => { cb with ucState := .created, ucOverrun := 0 }) _ rfl rfl rfl rfl
    (iff_of_false (by simp) hu') (fun _ _ => Iff.rfl) hi.nodup (fun hm => absurd hm hn)
    (iff_of_false hn (by simpa using hr)) fun hm => absurd hm hn

theorem osSwtmrStop_cbArray : ∃ r, (s.osSwtmrStop t).cbArray t =
    { s.cbArray t with responseTime := r, ucState := .created, ucOverrun := 0 } := by
  simp only [osSwtmrStop, osDeleteSortLink]
  split_ifs
  · exact ⟨_, by simp [osDeleteNodeSortLink]; rfl⟩
  · exact ⟨_, by simp; rfl⟩

theorem osSwtmrStop_expiries : (s.osSwtmrStop t).expiries = s.expiries := by
  simp only [osSwtmrStop, osDeleteSortLink]
  split_ifs <;> rfl

theorem modifyCB_modifyCB : (s.modifyCB t f).modifyCB t g = s.modifyCB t fun cb => g (f cb) := by
  simp [modifyCB]

section

variable (h : Inv c s l) (ht : t < c.swtmrLimit) (hu : (s.cbArray t).ucState ≠ .unused)
  (hn : t ∉ s.sortLink)
include h ht hu hn

/-- The timer is armed: it has no expiry left that would delete it. -/
theorem Inv.osSwtmrStart
    (hd : (s.cbArray t).startTime + c.sysTickToCycle (s.cbArray t).uwInterval < sortLinkInvalidTime)
    (hexp : (s.cbArray t).ucMode = .once →
      ∀ item ∈ s.expiries, item.swtmrID ≠ (s.cbArray t).usTimerID) :
    Inv c (s.osSwtmrStart c t) l := by
  simp only [Swtmrs.osSwtmrStart, osAdd2SortLink, modifyCB_modifyCB]
  generalize hl : osAddNode2SortLink _ _ _ = sortLink
  have hperm : sortLink.Perm (t :: s.sortLink) := hl ▸ osAddNode2SortLink_perm _ _ _
  refine h.modify sortLink rfl rfl rfl rfl (iff_of_false (by simp) hu)
    (fun u hut => by simp [hperm.mem_iff, hut])
    (hperm.nodup_iff.mpr (List.nodup_cons.mpr ⟨hn, h.nodup⟩))
    (fun _ => ⟨ht, rfl⟩) (iff_of_true (hperm.mem_iff.mpr (by simp)) ?_) fun _ _ => hexp
  simp only [modifyCB_cbArray, Function.update_self]
  rw [Nat.mod_eq_of_lt (hd.trans (show sortLinkInvalidTime < 2 ^ 64 by decide))]
  exact hd.ne

theorem Inv.osSwtmrDelete (hid : (s.cbArray t).usTimerID < c.maxTimerID - c.swtmrLimit) :
    Inv c (s.osSwtmrDelete c t) (t :: l) := by
  have hself : (s.osSwtmrDelete c t).cbArray t = { s.cbArray t with
      usTimerID := (s.cbArray t).usTimerID + c.swtmrLimit
      pstNext := s.freeList
      ucState := .unused } := by
    simp [Swtmrs.osSwtmrDelete, hid]
  have hne : ∀ u ≠ t, (s.osSwtmrDelete c t).cbArray u = s.cbArray u := fun u hut => by
    simp [Swtmrs.osSwtmrDelete, hut]
  refine h.change hne rfl (h.chain.push (h.notMem_free hu) (by rw [hself])
    fun u hut => by rw [hne u hut]) (fun u hut => by simp [hut]) (by simp [hself, ht]) h.nodup
    (fun _ _ => Iff.rfl) (fun hm => absurd hm hn) (by simp [hself]) (by simp [hself])
    fun item hm hut => ?_
  have hle := (h.expiry item hm).1
  rw [hut] at hle
  simp only [hself]
  omega

end

/-! ## Expiry -/

variable {item : SwtmrHandlerItem}

/-- The timer task is told of the expiry of a timer that is not armed any more, or that it will not
delete. -/
theorem Inv.queueWriteCopy (h : Inv c s l) (ht : t < c.swtmrLimit)
    (hid : item.swtmrID = (s.cbArray t).usTimerID) (hu : (s.cbArray t).ucState ≠ .unused)
    (hn : t ∉ s.sortLink) : Inv c (s.queueWriteCopy c item) l := by
  simp only [Swtmrs.queueWriteCopy]
  split_ifs
  · refine { h with expiry := fun item' hm => ?_ }
    have hm' : item' ∈ s.expiries ∨ item' = item := by
      simpa [expiries, or_assoc] using hm
    rcases hm' with hm' | rfl
    · exact h.expiry item' hm'
    · have hmod : item'.swtmrID % c.swtmrLimit = t := by rw [hid, h.id t ht]
      simp only [hmod]
      exact ⟨hid.le, fun _ => ⟨hu, fun _ => hn⟩⟩
  · exact h

theorem queueWriteCopy_cbArray : (s.queueWriteCopy c item).cbArray = s.cbArray := by
  simp only [queueWriteCopy]
  split_ifs <;> rfl

theorem queueWriteCopy_sortLink : (s.queueWriteCopy c item).sortLink = s.sortLink := by
  simp only [queueWriteCopy]
  split_ifs <;> rfl

theorem Inv.osSwtmrTimeoutHandle (h : Inv c s l) (ht : t < c.swtmrLimit)
    (hu : (s.cbArray t).ucState ≠ .unused) (hn : t ∉ s.sortLink)
    (hr : (s.cbArray t).responseTime = sortLinkInvalidTime)
    (hd : (s.cbArray t).startTime + c.sysTickToCycle (s.cbArray t).uwInterval <
      sortLinkInvalidTime) : Inv c (s.osSwtmrTimeoutHandle c t) l := by
  have hq : Inv c (s.queueWriteCopy c ⟨(s.cbArray t).pfnHandler, (s.cbArray t).uwArg,
      (s.cbArray t).usTimerID⟩) l := h.queueWriteCopy ht rfl hu hn
  simp only [Swtmrs.osSwtmrTimeoutHandle]
  generalize hk : s.queueWriteCopy c _ = s₁ at hq ⊢
  have hcb : s₁.cbArray = s.cbArray := hk ▸ queueWriteCopy_cbArray
  have hl : s₁.sortLink = s.sortLink := hk ▸ queueWriteCopy_sortLink
  split
  · next hmode =>
    refine (hq.note ht (hcb ▸ hu) fun cb => ⟨cb.startTime, _, rfl⟩).osSwtmrStart ht ?_ ?_ ?_ ?_
    · simpa [hcb] using hu
    · simpa [hl] using hn
    · simpa [hcb] using hd
    · intro honce
      simp [hmode] at honce
  · refine hq.modify (f := fun cb => { cb with ucState := .created }) s₁.sortLink rfl rfl rfl rfl
      (iff_of_false (by simp) (hcb ▸ hu)) (fun _ _ => Iff.rfl) hq.nodup
      (fun hm => absurd (hl ▸ hm) hn)
      (iff_of_false (hl ▸ hn) (by simp [hcb, hr])) fun hm hn' => absurd hm hn'
  · exact hq

theorem Inv.expire (h : Inv c s l) (ht : t ∈ s.sortLink)
    (hd : (s.cbArray t).responseTime + c.sysTickToCycle (s.cbArray t).uwInterval <
      sortLinkInvalidTime) : Inv c (s.expire c t) l := by
  obtain ⟨hlt, hstate⟩ := h.linked t ht
  have hu : (s.cbArray t).ucState ≠ .unused := by simp [hstate]
  have h₁ := (h.note (f := fun cb => { cb with startTime := cb.responseTime }) hlt hu fun cb =>
    ⟨_, cb.ucOverrun, rfl⟩).osDeleteNodeSortLink (t := t)
  refine h₁.osSwtmrTimeoutHandle hlt ?_ h.nodup.not_mem_erase ?_ ?_
  · simp [Swtmrs.osDeleteNodeSortLink, hstate]
  · simp [Swtmrs.osDeleteNodeSortLink]
  · simpa [Swtmrs.osDeleteNodeSortLink] using hd

theorem expire_spec (c : SwtmrConfig) (s : Swtmrs) (t : ℕ) :
    (∀ u ≠ t, (s.expire c t).cbArray u = s.cbArray u) ∧
    ((s.expire c t).cbArray t).uwInterval = (s.cbArray t).uwInterval ∧
    ((s.cbArray t).ucMode = .period ∧ (s.expire c t).sortLink.Perm (t :: s.sortLink.erase t) ∧
        ((s.expire c t).cbArray t).responseTime =
          ((s.cbArray t).responseTime + c.sysTickToCycle (s.cbArray t).uwInterval) % 2 ^ 64 ∨
      (s.cbArray t).ucMode ≠ .period ∧ (s.expire c t).sortLink = s.sortLink.erase t ∧
        ((s.cbArray t).ucMode = .once ∨ ((s.expire c t).cbArray t).ucState = .created)) := by
  simp only [expire, osSwtmrTimeoutHandle]
  generalize hk : queueWriteCopy c _ _ = s₁
  have hl : s₁.sortLink = s.sortLink.erase t := hk ▸ queueWriteCopy_sortLink
  have hcb : s₁.cbArray = Function.update s.cbArray t { s.cbArray t with
      startTime := (s.cbArray t).responseTime
      responseTime := sortLinkInvalidTime } := by
    rw [← hk, queueWriteCopy_cbArray]
    simp [osDeleteNodeSortLink, modifyCB]
  have hmode : (s₁.cbArray t).ucMode = (s.cbArray t).ucMode := by simp [hcb]
  rw [hmode]
  cases (s.cbArray t).ucMode with
  | period =>
    have hperm : ((s₁.modifyCB t fun cb =>
        { cb with ucOverrun := (cb.ucOverrun + 1) % 2 ^ 8 }).osSwtmrStart c t).sortLink.Perm
          (t :: s.sortLink.erase t) := hl ▸ osAddNode2SortLink_perm _ _ _
    refine ⟨fun u hu => ?_, ?_, .inl ⟨rfl, hperm, ?_⟩⟩
    · simp [osSwtmrStart, osAdd2SortLink, hcb, hu]
    all_goals simp [osSwtmrStart, osAdd2SortLink, hcb]
  | noSelfDelete =>
    exact ⟨fun u hu => by simp [hcb, hu], by simp [hcb], .inr ⟨by simp, hl, by simp⟩⟩
  | once => exact ⟨fun u hu => by simp [hcb, hu], by simp [hcb], .inr ⟨by simp, hl, .inl rfl⟩⟩

theorem mem_expire_of_ne (hu : u ≠ t) : u ∈ (s.expire c t).sortLink ↔ u ∈ s.sortLink := by
  obtain ⟨-, -, ⟨-, hl, -⟩ | ⟨-, hl, -⟩⟩ := expire_spec c s t
  · rw [hl.mem_iff, List.mem_cons, List.mem_erase_of_ne hu]
    exact or_iff_right hu
  · rw [hl, List.mem_erase_of_ne hu]

theorem mem_expire (ht : t ∈ s.sortLink) (hm : u ∈ (s.expire c t).sortLink) : u ∈ s.sortLink := by
  by_cases hu : u = t
  · exact hu ▸ ht
  · exact (mem_expire_of_ne hu).mp hm

/-- The deadlines of the timers stay within the clock during a scan. -/
def DeadlinesOk (c : SwtmrConfig) (s : Swtmrs) (currTime : ℕ) : Prop :=
  ∀ t ∈ s.sortLink, currTime + c.sysTickToCycle (s.cbArray t).uwInterval < sortLinkInvalidTime

theorem DeadlinesOk.expire (h : DeadlinesOk c s n) (ht : t ∈ s.sortLink) :
    DeadlinesOk c (s.expire c t) n := by
  obtain ⟨hother, hint, -⟩ := expire_spec c s t
  intro u hu
  have hkept : ((s.expire c t).cbArray u).uwInterval = (s.cbArray u).uwInterval := by
    by_cases hut : u = t
    · exact hut ▸ hint
    · rw [hother u hut]
  rw [hkept]
  exact h u (mem_expire ht hu)

theorem Inv.scanLoop (h : Inv c s l) (hd : DeadlinesOk c s n) (fuel : ℕ) :
    Inv c (scanLoop c n fuel s) l := by
  induction fuel generalizing s with
  | zero => exact h
  | succ _ ih =>
    simp only [scanLoop]
    split
    · exact h
    · next t rest hl =>
      have ht : t ∈ s.sortLink := by simp [hl]
      split_ifs with hle
      · refine ih (h.expire ht ?_) (hd.expire ht)
        have := hd t ht
        omega
      · exact h

theorem sysTickToCycle_pos (c : SwtmrConfig) (h : 0 < n) : 0 < c.sysTickToCycle n := by
  have hpos := c.tick.2.trans (Nat.le_mul_of_pos_left c.sysClock h)
  exact Nat.div_pos hpos c.tick.1

/-! ## Runs -/

theorem findCB_ok (h : s.findCB c n = .ok t) : n < c.maxTimerID ∧ t = n % c.swtmrLimit ∧
    (s.cbArray t).usTimerID = n := by
  simp only [findCB] at h
  split_ifs at h with hle hid
  cases h
  exact ⟨not_le.mp hle, rfl, not_not.mp hid⟩

theorem losSwtmrCreate_cases (s : Swtmrs) (n : ℕ) (mode : Option SwtmrMode) (handler : Option ℕ)
    (hasRet : Bool) (arg : ℕ) : (∃ e, s.losSwtmrCreate n mode handler hasRet arg = (s, .error e)) ∨
    ∃ t mode' handler', s.freeList = some t ∧ 0 < n ∧ s.losSwtmrCreate n mode handler hasRet arg =
        ({ s.modifyCB t fun cb => { cb with
              pfnHandler := some handler'
              ucMode := mode'
              uwInterval := n
              pstNext := none
              uwArg := arg
              ucState := .created
              ucOverrun := 0
              responseTime := sortLinkInvalidTime } with
          freeList := (s.cbArray t).pstNext }, .ok (s.cbArray t).usTimerID) := by
  unfold losSwtmrCreate
  split
  · exact .inl ⟨_, rfl⟩
  next s' new htake =>
  unfold swtmrCreateTake at htake
  split at htake
  · cases htake
  next hint =>
  split at htake
  · cases htake
  · cases htake
  next mode' handler' =>
  split at htake
  · cases htake
  split at htake
  · cases htake
  next t hfree =>
    cases htake
    exact .inr ⟨t, mode', handler', hfree, Nat.pos_of_ne_zero hint, rfl⟩

section

variable (h : Inv c s l)
include h

theorem Inv.losSwtmrCreate {mode : Option SwtmrMode} {handler : Option ℕ} {hasRet : Bool} :
    ∃ l, Inv c (s.losSwtmrCreate n mode handler hasRet arg).1 l := by
  rcases losSwtmrCreate_cases s n mode handler hasRet arg with
    ⟨e, heq⟩ | ⟨t, mode', handler', hfree, hint, heq⟩
  · rw [heq]
    exact ⟨l, h⟩
  rw [heq]
  have hchain := h.chain
  have hnodup := h.chain.nodup
  cases l with
  | nil => exact absurd (hfree.symm.trans hchain) nofun
  | cons a rest =>
    -- the first block of the free list is taken
    rw [hfree] at hchain
    obtain ⟨ha, hrest⟩ := hchain
    obtain rfl : t = a := Option.some.inj ha
    rw [List.nodup_cons] at hnodup
    obtain ⟨hlt, hunused⟩ := (h.free t).mp (by simp)
    have hn := h.notMem_sortLink (t := t) (by simp [hunused])
    refine ⟨rest, h.change (t := t) (fun u hut => by simp [hut]) rfl (hrest.congr fun u hu => ?_)
      (fun u hut => by simp [hut]) (by simp [hnodup.1]) h.nodup (fun _ _ => Iff.rfl)
      (fun hm => absurd hm hn) (by simpa [hn] using hint) (by simp) fun item hm hut => ?_⟩
    · have hut : u ≠ t := fun e => hnodup.1 (e ▸ hu)
      simp [hut]
    · -- an expiry with the identifier of the block would be one of a timer that exists
      obtain ⟨hle, heq⟩ := hut ▸ h.expiry item hm
      simp only [modifyCB_cbArray, Function.update_self]
      exact ⟨hle, fun he => absurd hunused (heq he).1⟩

theorem Inv.losSwtmrStart
    (he : currTime + c.sysTickToCycle (s.cbArray (n % c.swtmrLimit)).uwInterval <
      sortLinkInvalidTime) (hp : Prompt c s (.swtmrStart n currTime)) :
    Inv c (s.losSwtmrStart c n currTime).1 l := by
  simp only [Swtmrs.losSwtmrStart]
  split
  · exact h
  next t hfind =>
  obtain ⟨-, rfl, hid⟩ := findCB_ok hfind
  have hlt : n % c.swtmrLimit < c.swtmrLimit := Nat.mod_lt _ c.limit_pos
  split
  · exact h
  · next hstate =>
    have hu : (s.cbArray (n % c.swtmrLimit)).ucState ≠ .unused := by simp [hstate]
    obtain ⟨h₁, hn⟩ := h.osSwtmrStop hlt hu
    obtain ⟨r, hcb⟩ := osSwtmrStop_cbArray (s := s) (t := n % c.swtmrLimit)
    refine (h₁.note hlt (by simp [hcb]) fun cb => ⟨_, cb.ucOverrun, rfl⟩).osSwtmrStart hlt ?_ hn ?_
      fun honce item hm => ?_
    · simp [hcb]
    · simpa [hcb] using he
    · have hm : item ∈ (s.osSwtmrStop (n % c.swtmrLimit)).expiries := hm
      rw [osSwtmrStop_expiries] at hm
      simpa [hcb, hid] using hp (by simpa [hcb] using honce) item hm
  · next hstate =>
    have hu : (s.cbArray (n % c.swtmrLimit)).ucState ≠ .unused := by simp [hstate]
    refine (h.note hlt hu fun cb => ⟨_, cb.ucOverrun, rfl⟩).osSwtmrStart hlt ?_
      (h.notMem_sortLink (by simp [hstate])) ?_ fun honce item hm => ?_
    · simp [hstate]
    · simpa using he
    · simpa [hid] using hp (by simpa using honce) item hm

theorem Inv.losSwtmrStop : Inv c (s.losSwtmrStop c n).1 l := by
  simp only [Swtmrs.losSwtmrStop]
  split
  · exact h
  next t hfind =>
  obtain ⟨-, rfl, hid⟩ := findCB_ok hfind
  split
  · exact h
  · exact h
  · next hstate => exact (h.osSwtmrStop (Nat.mod_lt _ c.limit_pos) (by simp [hstate])).1

theorem Inv.losSwtmrDelete (hp : n < c.maxTimerID - c.swtmrLimit) :
    ∃ l, Inv c (s.losSwtmrDelete c n).1 l := by
  simp only [Swtmrs.losSwtmrDelete]
  split
  · exact ⟨l, h⟩
  next t hfind =>
  obtain ⟨-, rfl, hid⟩ := findCB_ok hfind
  have hlt : n % c.swtmrLimit < c.swtmrLimit := Nat.mod_lt _ c.limit_pos
  split
  · exact ⟨l, h⟩
  · next hstate =>
    obtain ⟨h₁, hn⟩ := h.osSwtmrStop hlt (by simp [hstate])
    obtain ⟨r, hcb⟩ := osSwtmrStop_cbArray (s := s) (t := n % c.swtmrLimit)
    exact ⟨_, h₁.osSwtmrDelete hlt (by simp [hcb]) hn (by simpa [hcb, hid] using hp)⟩
  · next hstate =>
    exact ⟨_, h.osSwtmrDelete hlt (by simp [hstate]) (h.notMem_sortLink (by simp [hstate]))
      (hid.symm ▸ hp)⟩

theorem Inv.swtmrTaskRead (he : s.handling = none) : Inv c s.swtmrTaskRead l := by
  simp only [Swtmrs.swtmrTaskRead]
  split
  · exact h
  · next item rest hq =>
    refine { h with expiry := fun item' hm => h.expiry item' ?_ }
    simpa [expiries, he, hq] using hm

theorem Inv.swtmrTaskHandle (hp : ∀ item ∈ s.handling, item.swtmrID < c.maxTimerID - c.swtmrLimit) :
    ∃ l, Inv c (s.swtmrTaskHandle c) l := by
  simp only [Swtmrs.swtmrTaskHandle]
  split
  · exact ⟨l, h⟩
  next item hitem =>
  have hmem : item ∈ s.expiries := by simp [expiries, hitem]
  have h₁ : Inv c { s with handling := none } l := { h with
    expiry := fun item' hm => h.expiry item' (by
      simp only [expiries, Option.toList_none, List.nil_append] at hm
      simp [expiries, hm]) }
  split_ifs with hbad hid honce
  · exact ⟨l, h₁⟩
  · exact ⟨l, h₁⟩
  · -- the identifier still is that of the timer that has expired
    have hid := not_not.mp hid
    obtain ⟨-, heq⟩ := h.expiry item hmem
    obtain ⟨hu, hn⟩ := heq hid.symm
    exact ⟨_, h₁.osSwtmrDelete (Nat.mod_lt _ c.limit_pos) hu (hn honce)
      (hid.symm ▸ hp item (by simp [hitem]))⟩
  · exact ⟨l, h₁⟩

theorem Inv.step (he : Enabled c s op) (hp : Prompt c s op) : ∃ l, Inv c (exec c s op) l := by
  cases op with
  | swtmrCreate => exact h.losSwtmrCreate
  | swtmrStart => exact ⟨l, h.losSwtmrStart he hp⟩
  | swtmrStop => exact ⟨l, h.losSwtmrStop⟩
  | swtmrDelete => exact h.losSwtmrDelete hp
  | swtmrScan => exact ⟨l, h.scanLoop he _⟩
  | swtmrTaskRead => exact ⟨l, h.swtmrTaskRead he⟩
  | swtmrTaskHandle => exact h.swtmrTaskHandle hp

end

def smallSwtmr : SwtmrConfig := ⟨2, 2, 1000, 100, by decide, by decide⟩

end Swtmrs

/-! ## Timers that are being created -/

/-- The software timers, and the calls of `LOS_SwtmrCreate` that have left their critical section
and not returned. -/
structure SwtmrSys where
  swtmrs : Swtmrs
  creating : List SwtmrNew := []

inductive SwtmrStep
  /-- `LOS_SwtmrCreate` up to the end of its critical section, or another operation -/
  | op (op : SwtmrOp)
  | createRest (new : SwtmrNew)
deriving DecidableEq

namespace SwtmrSys

open Swtmrs

variable {c : SwtmrConfig} {s : SwtmrSys}

def step (c : SwtmrConfig) (s : SwtmrSys) : SwtmrStep → SwtmrSys
  | .op (.swtmrCreate interval mode handler hasRet arg) =>
    match s.swtmrs.swtmrCreateTake interval mode handler hasRet arg with
    | .error _ => s
    | .ok (swtmrs, new) => ⟨swtmrs, new :: s.creating⟩
  | .op op => { s with swtmrs := exec c s.swtmrs op }
  | .createRest new => ⟨(s.swtmrs.swtmrCreateFill new).1, s.creating.erase new⟩

def machine (c : SwtmrConfig) : Machine SwtmrSys SwtmrStep where
  init s := s = { swtmrs := osSwtmrInit c }
  allowed s
    | .op op => Enabled c s.swtmrs op
    | .createRest new => new ∈ s.creating
  step := step c

/-- The operations are prompt, and none comes while a call of `LOS_SwtmrCreate` has left its
critical section and not returned. -/
def Prompt (c : SwtmrConfig) (s : SwtmrSys) : SwtmrStep → Prop
  | .op op => s.creating = [] ∧ Swtmrs.Prompt c s.swtmrs op
  | .createRest _ => True

instance (c : SwtmrConfig) (s : SwtmrSys) : ∀ op, Decidable ((machine c).allowed s op)
  | .op op => inferInstanceAs (Decidable ((Swtmrs.machine c).allowed s.swtmrs op))
  | .createRest _ => inferInstanceAs (Decidable (_ ∈ _))

instance (c : SwtmrConfig) (s : SwtmrSys) : ∀ op, Decidable (Prompt c s op)
  | .op _ => inferInstanceAs (Decidable (_ ∧ _))
  | .createRest _ => inferInstanceAs (Decidable True)

/-- The invariant holds, or will when the one call in progress returns. -/
def Ok (c : SwtmrConfig) (s : SwtmrSys) : Prop :=
  (s.creating = [] ∧ ∃ l, Inv c s.swtmrs l) ∨
    ∃ new, s.creating = [new] ∧ ∃ l, Inv c (s.swtmrs.swtmrCreateFill new).1 l

theorem Ok.step {op : SwtmrStep} (h : Ok c s)
    (ha : ((machine c).restrict (Prompt c)).allowed s op) : Ok c (step c s op) := by
  obtain ⟨he, hp⟩ := ha
  cases op with
  | op op =>
    obtain ⟨hnil, hp⟩ := hp
    obtain ⟨-, l, hi⟩ := h.resolve_right (by simp [hnil])
    have hstep := hi.step he hp
    cases op with
    | swtmrCreate interval mode handler hasRet arg =>
      simp only [exec, losSwtmrCreate] at hstep
      simp only [SwtmrSys.step]
      cases htake : s.swtmrs.swtmrCreateTake interval mode handler hasRet arg with
      | error => exact .inl ⟨hnil, l, hi⟩
      | ok p =>
        rw [htake] at hstep
        exact .inr ⟨p.2, by rw [hnil], hstep⟩
    | _ => exact .inl ⟨hnil, hstep⟩
  | createRest new =>
    have he : new ∈ s.creating := he
    rcases h with ⟨hnil, -⟩ | ⟨new', hnew, hi⟩
    · simp [hnil] at he
    · obtain rfl : new = new' := by simpa [hnew] using he
      exact .inl ⟨by simp [SwtmrSys.step, hnew], hi⟩

/-- Timers that are not started again before their expiries are handled are never both free and
armed, whenever no timer is being created. -/
theorem sound_of_reaches (h : ((machine c).restrict (Prompt c)).Reaches s)
    (hnil : s.creating = []) : Sound c s.swtmrs := by
  have hok : Ok c s := by
    refine h.invariant ?_ fun _ _ hi ha => hi.step ha
    rintro _ rfl
    exact .inl ⟨rfl, _, .init⟩
  obtain ⟨-, l, hi⟩ := hok.resolve_right (by simp [hnil])
  exact hi.sound

/-- A one-shot timer and a periodic one are created and started. -/
def twoTimers : List SwtmrStep :=
  [.op (.swtmrCreate 1 (some .once) (some 7) true 0), .createRest ⟨0, 1, .once, 7, 0⟩,
    .op (.swtmrCreate 1 (some .period) (some 8) true 0), .createRest ⟨1, 1, .period, 8, 0⟩,
    .op (.swtmrStart 0 0), .op (.swtmrStart 1 0)]

/-- The one-shot timer has expired and is deleted; the periodic one ticks. -/
theorem sound_of_reaches_expired : ∃ s,
    ((machine smallSwtmr).restrict (Prompt smallSwtmr)).Reaches s ∧ s.swtmrs.sortLink = [1] ∧
    s.swtmrs.freeList = some 0 ∧ Sound smallSwtmr s.swtmrs := by
  have hr := Machine.Reaches.run (M := (machine smallSwtmr).restrict (Prompt smallSwtmr))
    (.start rfl) (twoTimers ++ [.op (.swtmrScan 25), .op .swtmrTaskRead, .op .swtmrTaskHandle])
    (by decide +kernel)
  exact ⟨_, hr, by decide +kernel, by decide +kernel, sound_of_reaches hr (by decide +kernel)⟩

/-- The one-shot timer has expired and is started again before the timer task handles the expiry:
the task then deletes it, and its control block is unused and on the free list while it is armed.
And while a timer is being created, its block is unused and not on the free list. -/
theorem free_while_armed :
    (∃ s, (machine smallSwtmr).Reaches s ∧ s.creating = [] ∧ 0 ∈ s.swtmrs.sortLink ∧
      (s.swtmrs.cbArray 0).ucState = .unused ∧ s.swtmrs.freeList = some 0) ∧
    ∃ s, (machine smallSwtmr).Reaches s ∧ (s.swtmrs.cbArray 0).ucState = .unused ∧
      s.swtmrs.freeList = some 1 ∧ (s.swtmrs.cbArray 1).pstNext = none := by
  have hr := Machine.Reaches.run (M := machine smallSwtmr) (.start rfl) (twoTimers ++
    [.op (.swtmrScan 10), .op (.swtmrStart 0 20), .op .swtmrTaskRead, .op .swtmrTaskHandle])
    (by decide +kernel)
  have hr' := Machine.Reaches.run (M := machine smallSwtmr) (.start rfl) (twoTimers.take 1)
    (by decide +kernel)
  exact ⟨⟨_, hr, by decide +kernel⟩, _, hr', by decide +kernel⟩

end SwtmrSys

end LiteOS.Timer
