import LiteOS.Memory.Primitives
import Mathlib.Data.Finset.Card
import Mathlib.Order.Interval.Finset.Nat

/-!
# Finding a free node

The search for a request starts at the first class whose nodes are all large enough, looks
for a set bit from there on, and falls back to walking the request's own class. Whatever it
returns is a free chunk that is large enough, together with the list the chunk is on, and it
returns null only if there is none.
-/

namespace LiteOS.Memory

open Lib FreeLists

variable {P : Extent} {m : Words} {cs : List Chunk} {L : ℕ → List ℕ} {i j n size w a : ℕ}

/-- Requests the search is used for: whole words that fit the size field. -/
structure Request (size : ℕ) : Prop where
  pos : 16 ≤ size
  fine : size % 4 = 0
  lt : size < 2 ^ 31

theorem startIndex_small (h : size < 128) (h4 : 4 ≤ size) :
    startIndex size = (size / 4 - 1, 223) := by
  rw [startIndex, osMemFlGet_small h h4, osMemSmallBucketCount, if_pos (by omega)]
  rfl

theorem startIndex_large (h : 128 ≤ size) (hlt : size < 2 ^ 32) :
    startIndex size = (osMemFreeListIndexGet size + 1, osMemFreeListIndexGet size) := by
  have hfl : ¬ osMemFlGet size < osMemSmallBucketCount := by
    rw [osMemFlGet_large h hlt, osMemSmallBucketCount]
    omega
  simp only [startIndex, osMemFreeListIndexGet, if_neg hfl]
  rw [Nat.add_comm _ osMemSmallBucketCount, ← Nat.add_assoc]

theorem testBit_ffs (h : ∃ k < 32, w.testBit k) :
    w.testBit (osMemFfs (BitVec.ofNat 32 w)) ∧ osMemFfs (BitVec.ofNat 32 w) < 32 := by
  have hne : BitVec.ofNat 32 w ≠ 0#32 := by
    obtain ⟨k, hk, hw⟩ := h
    intro h0
    have := congrArg (fun b => b.getLsbD k) h0
    rw [BitVec.getLsbD_ofNat] at this
    simp [hk, hw] at this
  have hs := (osMemFfs_spec hne).1
  rw [BitVec.getLsbD_ofNat] at hs
  simpa [and_comm] using hs

namespace FreeLists

theorem head_mem (h : FreeLists P m cs L) (hi : i < 223) (hL : L i ≠ []) :
    m (P.pool + 48 + 4 * i) ∈ L i := by
  have hlink := h.linked i hi
  exact hlink.head_mem fun h0 => hL (hlink.head_eq_zero_iff.mp h0)

/-- The bit test within one word: the lists from the start on are empty, or the result is a
non-empty one. -/
theorem notEmptyIndexGet (h : FreeLists P m cs L) (hi : i < 223) :
    osMemNotEmptyIndexGet m P.pool i = osMemFreeListCount ∧
        (∀ j, i ≤ j → j / 32 = i / 32 → L j = []) ∨
      L (osMemNotEmptyIndexGet m P.pool i) ≠ [] ∧ i ≤ osMemNotEmptyIndexGet m P.pool i := by
  rw [osMemNotEmptyIndexGet]
  simp only [freeListBitmapAt_eq, show i &&& osMemBitmapMask = i % 32 from and_mask_eq i]
  have hbase : i &&& not32 osMemBitmapMask = i / 32 * 32 :=
    and_not32_low (k := 5) (by omega) (by omega)
  have hmask : 1 <<< (i % 32) - 1 = 2 ^ (i % 32) - 1 := by rw [Nat.shiftLeft_eq, Nat.one_mul]
  have hlt : 2 ^ (i % 32) - 1 < 2 ^ 32 := by
    have := Nat.pow_le_pow_right (n := 2) (by omega) (show i % 32 ≤ 32 by omega)
    omega
  rw [hbase, hmask]
  set w := m (P.pool + 20 + 4 * (i / 32)) &&& not32 (2 ^ (i % 32) - 1) with hw
  have hbit : ∀ k, w.testBit k = ((m (P.pool + 20 + 4 * (i / 32))).testBit k &&
      (decide (k < 32) && !decide (k < i % 32))) := fun k => by
    rw [hw, Nat.testBit_and, testBit_not32 hlt, Nat.testBit_two_pow_sub_one]
  by_cases h0 : w = 0
  · refine .inl ⟨if_neg (not_not.mpr h0), fun j hij hj => by_contra fun hne => ?_⟩
    have hset := (h.bits j (by omega)).mpr hne
    have hj0 := hbit (j % 32)
    rw [h0, Nat.zero_testBit, ← hj, hset] at hj0
    simp at hj0
    omega
  rw [if_pos h0]
  obtain ⟨k, hk⟩ := Nat.exists_testBit_of_ne_zero h0
  have hk32 : k < 32 := by
    rw [hbit] at hk
    simp only [Bool.and_eq_true, decide_eq_true_eq] at hk
    exact hk.2.1
  obtain ⟨hset, hlt32⟩ := testBit_ffs ⟨k, hk32, hk⟩
  generalize osMemFfs (BitVec.ofNat 32 w) = r at hset hlt32 ⊢
  rw [hbit] at hset
  simp only [Bool.and_eq_true, Bool.not_eq_true', decide_eq_false_iff_not] at hset
  have hr32 : (r + i / 32 * 32) / 32 = i / 32 ∧ (r + i / 32 * 32) % 32 = r := by omega
  have := h.bits (r + i / 32 * 32) (by omega)
  rw [hr32.1, hr32.2] at this
  exact .inr ⟨this.mp hset.1, by omega⟩

theorem findBitmapWord_spec (h : FreeLists P m cs L) : ∀ {fuel i : ℕ}, i % 32 = 0 →
    223 ≤ i + 32 * fuel →
    (findBitmapWord m P.pool fuel i = none ∧ ∀ j, i ≤ j → j < 223 → L j = []) ∨
      ∃ j, findBitmapWord m P.pool fuel i = some j ∧ L j ≠ [] ∧ i ≤ j
  | 0, _, _, hf => .inl ⟨rfl, by omega⟩
  | fuel + 1, i, hi, hf => by
    rw [findBitmapWord]
    simp only [freeListBitmapAt_eq, osMemFreeListCount_eq]
    split_ifs with hlt h0
    · obtain ⟨k, hk⟩ := Nat.exists_testBit_of_ne_zero h0
      have hk32 : k < 32 := by
        by_contra hc
        have hpow : 2 ^ 32 ≤ 2 ^ k := Nat.pow_le_pow_right (by omega) (by omega)
        rw [Nat.testBit_lt_two_pow ((h.small (i / 32) (by omega)).trans_le hpow)] at hk
        cases hk
      obtain ⟨hset, hlt32⟩ := testBit_ffs ⟨k, hk32, hk⟩
      generalize osMemFfs (BitVec.ofNat 32 (m (P.pool + 20 + 4 * (i / 32)))) = r at hset hlt32
      have hr32 : (r + i) / 32 = i / 32 ∧ (r + i) % 32 = r := by omega
      have := h.bits (r + i) (by omega)
      rw [hr32.1, hr32.2] at this
      exact .inr ⟨_, rfl, this.mp hset, by omega⟩
    · have hf : 223 ≤ i + 32 + 32 * fuel := by omega
      rcases findBitmapWord_spec h (by omega) hf with ⟨hn, hL⟩ | ⟨j, hj, hr⟩
      · refine .inl ⟨hn, fun j h1 h2 => ?_⟩
        by_cases hj : i + 32 ≤ j
        · exact hL j hj h2
        · have hbit := h.bits j (by omega)
          rw [show j / 32 = i / 32 by omega, not_not.mp h0, Nat.zero_testBit] at hbit
          simpa using hbit
      · exact .inr ⟨j, hj, hr.1, by omega⟩
    · exact .inl ⟨rfl, by omega⟩

theorem length_lt (hl : Layout P m cs) (h : FreeLists P m cs L) : (L i).length < P.size := by
  have hP := P.geometry
  have hsub : (L i).toFinset ⊆ Finset.Ico P.first P.last := fun n hn => by
    have := mem_range hl h (List.mem_toFinset.mp hn)
    rw [Finset.mem_Ico]
    omega
  have hcard := Finset.card_le_card hsub
  rw [List.toFinset_card_of_nodup (h.nodup i), Nat.card_Ico] at hcard
  omega

end FreeLists

theorem findSuitable_spec (size : ℕ) : ∀ {l : List ℕ} {fuel prev head : ℕ},
    Linked m 8 12 prev head l 0 → l.length < fuel → ∃ n, findSuitable m size fuel head = some n ∧
      ((n = 0 ∧ ∀ b ∈ l, m (b + 4) < size) ∨ n ∈ l ∧ size ≤ m (n + 4))
  | [], fuel + 1, _, head, h, _ => ⟨0, by simp [findSuitable, show head = 0 from h], by simp⟩
  | a :: l, fuel + 1, _, head, ⟨h1, h2, _, h4⟩, hf => by
    subst h1
    rw [findSuitable, if_neg h2]
    by_cases hs : size ≤ m (sizeAndFlagAt head)
    · exact ⟨head, by rw [if_pos hs], .inr ⟨by simp, hs⟩⟩
    · rw [if_neg hs]
      obtain ⟨n, hn, hr⟩ := findSuitable_spec size h4 (by simpa using hf)
      refine ⟨n, hn, hr.imp (fun hr => ⟨hr.1, ?_⟩) fun hr => ⟨by simp [hr.1], hr.2⟩⟩
      exact List.forall_mem_cons.mpr ⟨not_le.mp hs, hr.2⟩

/-- A list head or member the search settles on: a free chunk of its list that is large
enough. -/
structure Suitable (cs : List Chunk) (size n i : ℕ) : Prop where
  found : ∃ c ∈ cs, c.use = .free ∧ c.addr = n ∧ osMemFreeListIndexGet c.size = i ∧ size ≤ c.size

theorem Suitable.of_index (hl : Layout P m cs) (h : FreeLists P m cs L) (hi : L i ≠ [])
    (hsize : ∀ t, 16 ≤ t → t < 2 ^ 28 → osMemFreeListIndexGet t = i → size ≤ t) :
    Suitable cs size (m (P.pool + 48 + 4 * i)) i := by
  obtain ⟨n, hn⟩ := List.exists_mem_of_ne_nil _ hi
  have hi' := index_le hl h hn
  obtain ⟨c, hc, hu, hca, hci⟩ := h.chunk_of_mem (h.head_mem (by omega) hi)
  exact ⟨c, hc, hu, hca, hci, hsize _ (hl.bounds hc).2.1 (hl.size_lt hc) hci⟩

/-- Where the search starts: every class from there on is large enough, and a size that is large
enough is in one of them or in the request's own class. -/
theorem startIndex_spec (hs : Request size) : ∃ start cur, startIndex size = (start, cur) ∧
    start < 223 ∧ (cur ≠ 223 → cur = osMemFreeListIndexGet size ∧ cur < 223) ∧
    (∀ t, 16 ≤ t → t < 2 ^ 28 → start ≤ osMemFreeListIndexGet t → size ≤ t) ∧
    ∀ t, size ≤ t → t < 2 ^ 28 →
      start ≤ osMemFreeListIndexGet t ∨ cur ≠ 223 ∧ osMemFreeListIndexGet t = cur := by
  obtain ⟨hpos, hfine, hmax⟩ := hs
  have hlt := osMemFreeListIndexGet_lt (n := size) (by omega) (by omega)
  have hmono : ∀ t, size ≤ t → t < 2 ^ 28 → osMemFreeListIndexGet size ≤ osMemFreeListIndexGet t :=
    fun t h1 h2 => osMemFreeListIndexGet_mono (by omega) h1 (by omega)
  by_cases hsmall : size < 128
  · refine ⟨_, _, startIndex_small hsmall (by omega), by omega, by omega, fun t h1 h2 h3 => ?_,
      fun t h1 h2 => ?_⟩
    · exact le_of_index_le_of_small (by omega) hsmall hfine (by omega) h3
    · rw [← osMemFreeListIndexGet_small hsmall (by omega)]
      exact .inl (hmono t h1 h2)
  · refine ⟨_, _, startIndex_large (by omega) (by omega), by omega, fun _ => ⟨rfl, by omega⟩,
      fun t h1 h2 h3 => ?_, fun t h1 h2 => ?_⟩
    · exact le_of_index_lt (by omega) hmax (by omega) h2 h3
    · have := hmono t h1 h2
      omega

/-- The search returns: null if no free chunk is large enough, or one that is with its own
list. -/
theorem osMemFindNextSuitableBlock_spec (hl : Layout P m cs) (h : FreeLists P m cs L)
    (hs : Request size) : ∃ n i, osMemFindNextSuitableBlock m P.pool size = some (n, i) ∧
      ((n = 0 ∧ ∀ c ∈ cs, c.use = .free → c.size < size) ∨ Suitable cs size n i) := by
  obtain ⟨start, cur, hstart, hstart223, hcur, hbig, hall⟩ := startIndex_spec hs
  -- an empty tail of lists leaves the request's own class only
  have hown : (∀ j, start ≤ j → j < 223 → L j = []) → ∀ c ∈ cs, c.use = .free → size ≤ c.size →
      cur ≠ 223 ∧ c.addr ∈ L cur := fun hempty c hc hu hle => by
    have hmem := (h.mem_iff _ _).mpr ⟨c, hc, hu, rfl, rfl⟩
    rcases hall c.size hle (hl.size_lt hc) with hi | ⟨hne, hi⟩
    · have := index_le hl h hmem
      rw [hempty _ hi (by omega)] at hmem
      cases hmem
    · exact ⟨hne, hi ▸ hmem⟩
  rw [osMemFindNextSuitableBlock, hstart]
  simp only [freeListAt_eq]
  rcases h.notEmptyIndexGet hstart223 with ⟨htmp, hword⟩ | ⟨hne, hle⟩
  · rw [if_neg (not_not.mpr htmp)]
    have halign : osMemAlign (start + 1) 32 = (start + 1 + 31) / 32 * 32 :=
      osMemAlign_two_pow (k := 5) (by omega) (by omega)
    have hfuel : 223 ≤ osMemAlign (start + 1) 32 + 32 * osMemBitmapWords := Nat.le_add_left ..
    rcases h.findBitmapWord_spec (by omega) hfuel with ⟨hw, hrest⟩ | ⟨j, hw, hne, hle⟩
    · have hempty : ∀ j, start ≤ j → j < 223 → L j = [] := fun j h1 h2 => by
        by_cases hj : j / 32 = start / 32
        · exact hword j h1 hj
        · exact hrest j (by omega) h2
      simp only [hw]
      by_cases hc : cur = osMemFreeListCount
      · refine ⟨0, start, by rw [if_pos hc], .inl ⟨rfl, fun c hcm hu => not_le.mp fun hle => ?_⟩⟩
        exact (hown hempty c hcm hu hle).1 hc
      · obtain ⟨rfl, hlt⟩ := hcur hc
        obtain ⟨n, hn, hr⟩ := findSuitable_spec size
          (h.linked (osMemFreeListIndexGet size) hlt) (length_lt hl h)
        have hsize : ∀ c ∈ cs, c.use = .free → m (c.addr + 4) = c.size := fun c hcm hu => by
          simp [hl.words c hcm, Chunk.word, hu]
        refine ⟨n, osMemFreeListIndexGet size, ?_, hr.imp (fun hr => ⟨hr.1, ?_⟩) fun hr => ?_⟩
        · rw [if_neg hc, osMemFindCurSuitableBlock, hl.total, freeListAt_eq, hn]
          rfl
        · intro c hcm hu
          by_contra hle
          have := hr.2 _ (hown hempty c hcm hu (not_lt.mp hle)).2
          rw [hsize c hcm hu] at this
          exact hle this
        · obtain ⟨c, hcm, hu, rfl, hci⟩ := h.chunk_of_mem hr.1
          exact ⟨c, hcm, hu, rfl, hci, hsize c hcm hu ▸ hr.2⟩
    · simp only [hw]
      exact ⟨_, _, rfl, .inr (.of_index hl h hne fun t h1 h2 h3 => hbig t h1 h2 (by omega))⟩
  · rw [if_pos]
    · exact ⟨_, _, rfl, .inr (.of_index hl h hne fun t h1 h2 h3 => hbig t h1 h2 (h3 ▸ hle))⟩
    · intro htmp
      obtain ⟨n, hn⟩ := List.exists_mem_of_ne_nil _ hne
      have := index_le hl h hn
      rw [htmp, osMemFreeListCount_eq] at this
      omega

/-- Taking a node for a request: none is large enough and nothing changes, or the chunk found,
with its own list, becomes loose. -/
theorem osMemFreeNodeGet_spec (h : Heap P m cs) (hs : Request size) :
    (osMemFreeNodeGet m P.pool size = some (m, 0) ∧ ∀ c ∈ cs, c.use = .free → c.size < size) ∨
      ∃ pre c post m', cs = pre ++ c :: post ∧ c.use = .free ∧ size ≤ c.size ∧
        osMemFindNextSuitableBlock m P.pool size = some (c.addr, osMemFreeListIndexGet c.size) ∧
        osMemFreeNodeGet m P.pool size = some (m', c.addr) ∧
        Becomes P a m cs m' (pre ++ { c with use := .loose } :: post) := by
  obtain ⟨hl, L, hL⟩ := h
  obtain ⟨n, i, hn, hr⟩ := osMemFindNextSuitableBlock_spec hl hL hs
  rcases hr with ⟨rfl, hnone⟩ | ⟨c, hc, hu, rfl, rfl, hle⟩
  · exact .inl ⟨by simp [osMemFreeNodeGet, hn], hnone⟩
  · have hcb := hl.bounds hc
    have hP := P.geometry
    obtain ⟨pre, post, rfl⟩ := List.append_of_mem hc
    refine .inr ⟨pre, c, post, osMemFreeNodeDelete m P.pool c.addr, rfl, hu, hle, hn, ?_,
      (Heap.delete ⟨hl, L, hL⟩ hu).1⟩
    have hword := hl.free_word hc hu
    simp [osMemFreeNodeGet, hn, show c.addr ≠ 0 by omega, osMemFreeNodeDelete, sizeAndFlagAt, hword]

end LiteOS.Memory
