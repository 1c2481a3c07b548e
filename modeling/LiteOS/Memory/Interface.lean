import LiteOS.Memory.Operations

/-!
# The public interface on a settled heap

`LOS_MemAlloc`, `LOS_MemAllocAlign`, `LOS_MemFree` and `LOS_MemRealloc` for arbitrary
`UINT32` arguments. A pointer handed to a client names its chunk: the word below it is the
header or, below an aligned pointer, the distance back to the payload.
-/

namespace LiteOS.Memory

open Lib Nat

variable {P : Extent} {m m' : Words} {cs pre post : List Chunk} {c d : Chunk}
  {a size p g pool : ℕ}

/-! ### From a client's pointer back to its chunk -/

theorem clear_flag {x k : ℕ} (h : x < 2 ^ k) (hk : k < 32) : (x + 2 ^ k) &&& not32 (2 ^ k) = x := by
  have hlt : 2 ^ k < 2 ^ 32 := Nat.pow_lt_pow_right (by omega) hk
  rw [← or_flag h, Nat.shiftLeft_eq, Nat.one_mul]
  apply Nat.eq_of_testBit_eq
  intro i
  rw [Nat.testBit_and, Nat.testBit_or, testBit_not32 hlt, Nat.testBit_two_pow]
  by_cases hi : k = i
  · subst hi
    simp [Nat.testBit_lt_two_pow h]
  · by_cases h32 : i < 32
    · simp [hi, h32]
    · have : x.testBit i = false :=
        Nat.testBit_lt_two_pow (h.trans_le (Nat.pow_le_pow_right (by omega) (by omega)))
      simp [this, h32]

theorem osGetRealPtr_gap (hw : m (p - 4) = g + 2 ^ 30) (hg : g < 2 ^ 30) (hg4 : g % 4 = 0)
    (hpool : pool + 8 + g ≤ p) (hp : p < 2 ^ 32) : osGetRealPtr m pool p = p - g := by
  have hused : osMemGetGapsizeUsedFlag (g + 2 ^ 30) = 0 := by
    apply gapsizeUsedFlag_eq_zero
    rw [testBit_eq_decide_div_mod_eq, decide_eq_false_iff_not]
    omega
  have halign : osMemGetGapsizeAlignedFlag (g + 2 ^ 30) ≠ 0 := by
    rw [ne_eq, gapsizeAlignedFlag_eq_zero_iff, testBit_eq_decide_div_mod_eq,
      decide_eq_false_iff_not]
    omega
  have hcheck : ¬ osMemGapsizeCheck (g + 2 ^ 30) := fun hbad => hbad.2 hused
  have hclear : osMemGetAlignedGapsize (g + 2 ^ 30) = g := by
    rw [osMemGetAlignedGapsize, show osMemGapsizeAlignedFlag = 2 ^ 30 by decide]
    exact clear_flag (by omega) (by omega)
  have hmask : g &&& (osMemAlignSize - 1) = 0 := by
    rw [show osMemAlignSize - 1 = 2 ^ 2 - 1 from rfl, and_two_pow_sub_one_eq_mod]
    exact hg4
  simp only [osGetRealPtr, hw, osMemNodeHeadSize]
  rw [if_neg hcheck, if_pos halign, hclear, if_neg]
  simp only [u32]
  omega

theorem osGetRealPtr_used (h : Layout P m cs) (hc : c ∈ cs) (hu : c.isUsed) :
    osGetRealPtr m P.pool (c.addr + 8 + c.gap) = c.addr + 8 := by
  have hP := P.geometry
  have hcb := h.bounds hc
  have hlt := h.size_lt hc
  obtain ⟨g, hg⟩ := hu
  by_cases h0 : g = 0
  · subst h0
    have hgap : c.gap = 0 := by simp [Chunk.gap, hg]
    have hword : m (c.addr + 8 + c.gap - 4) = c.size + 2 ^ 31 := by
      rw [hgap, show c.addr + 8 + 0 - 4 = c.addr + 4 by omega, h.words c hc]
      simp [Chunk.word, hg]
    have halign : osMemGetGapsizeAlignedFlag (c.size + 2 ^ 31) = 0 := by
      rw [gapsizeAlignedFlag_eq_zero_iff, testBit_eq_decide_div_mod_eq, decide_eq_false_iff_not]
      omega
    have hcheck : ¬ osMemGapsizeCheck (c.size + 2 ^ 31) := fun hbad => hbad.1 halign
    simp only [osGetRealPtr, hword]
    rw [if_neg hcheck, if_neg (not_not.mpr halign), hgap]
  · have hgap : c.gap = g := by simp [Chunk.gap, hg]
    obtain ⟨hg4, hfit, hgw⟩ := h.gaps c hc (by omega)
    rw [hgap] at hg4 hfit hgw ⊢
    rw [osGetRealPtr_gap ((show c.addr + 8 + g - 4 = c.addr + 4 + g by omega) ▸ hgw) (by omega) hg4
      (by omega) (by omega)]
    omega

/-! ### Allocation -/

theorem clamp_spec (size : ℕ) : 8 ≤ (if size < osMemMinAllocSize then osMemMinAllocSize else size) ∧
      size ≤ (if size < osMemMinAllocSize then osMemMinAllocSize else size) ∧
      ∀ n, 8 < n → size < n →
        (if size < osMemMinAllocSize then osMemMinAllocSize else size) < n := by
  rw [osMemMinAllocSize]
  split_ifs <;> refine ⟨by omega, by omega, fun n h1 h2 => by omega⟩

theorem losMemAlloc_spec (h : Heap P m cs) (hs : Settled cs) (hsize : size < 2 ^ 32) :
    losMemAlloc m P.pool size = some (m, 0) ∨
      ∃ m' cs' c, losMemAlloc m P.pool size = some (m', c.addr + 8) ∧ Settled cs' ∧
        Becomes P 0 m cs m' cs' ∧ Granted cs cs' 0 size 0 c ∧ 0 < size := by
  rw [losMemAlloc]
  by_cases h0 : P.pool = 0 ∨ size = 0
  · exact .inl (if_pos h0)
  rw [if_neg h0]
  obtain ⟨h8, hle, hlt⟩ := clamp_spec size
  have hlt := hlt (2 ^ 32) (by omega) hsize
  generalize (if size < osMemMinAllocSize then osMemMinAllocSize else size) = n at h8 hle hlt ⊢
  by_cases hflag : osMemNodeGetUsedFlag n ≠ 0 ∨ osMemNodeGetAlignedFlag n ≠ 0
  · exact .inl (if_pos hflag)
  rw [if_neg hflag]
  simp only [not_or, not_not] at hflag
  have hn := (flags_eq_zero_iff hlt).mp hflag
  rcases osMemAlloc_spec h hs h8 hn with ⟨hnone, -⟩ | ⟨m', cs', c, hm', hset, hb, hg⟩
  · exact .inl hnone
  · refine .inr ⟨m', cs', c, hm', hset, hb, ⟨hg.mem, hg.use, ?_, hg.fresh⟩, by omega⟩
    have := hg.room
    omega

/-- Rounding a pointer up to a power of two: the distance is below the boundary. -/
theorem osMemAlign_bounds {p b : ℕ} (hb : ∃ k, b = 2 ^ k) (hb4 : b % 4 = 0) (hp : p % 4 = 0)
    (hlt : p + b < 2 ^ 32) :
    osMemAlign p b % b = 0 ∧ p ≤ osMemAlign p b ∧ osMemAlign p b + 4 ≤ p + b ∧
      osMemAlign p b % 4 = 0 := by
  obtain ⟨k, rfl⟩ := hb
  have hpos := Nat.two_pow_pos k
  have hk : k ≤ 32 := by
    by_contra hc
    have := Nat.pow_le_pow_right (n := 2) (by omega) (show 32 ≤ k by omega)
    omega
  rw [osMemAlign_two_pow hk (by omega)]
  have h1 := Nat.div_mul_le_self (p + 2 ^ k - 1) (2 ^ k)
  have h2 := Nat.lt_div_mul_add (a := p + 2 ^ k - 1) hpos
  have h3 : (p + 2 ^ k - 1) / 2 ^ k * 2 ^ k % 2 ^ k = 0 := Nat.mul_mod_left ..
  have h4 : (p + 2 ^ k - 1) / 2 ^ k * 2 ^ k % 4 = 0 := by
    rw [Nat.mul_mod, hb4, Nat.mul_zero, Nat.zero_mod]
  exact ⟨h3, by omega, by omega, h4⟩

theorem losMemAllocAlign_spec {b : ℕ} (h : Heap P m cs) (hs : Settled cs) (hsize : size < 2 ^ 32)
    (hb : b < 2 ^ 32) : losMemAllocAlign m P.pool size b = some (m, 0) ∨
      ∃ m' cs' c g, losMemAllocAlign m P.pool size b = some (m', c.addr + 8 + g) ∧ Settled cs' ∧
        Becomes P 0 m cs m' cs' ∧ Granted cs cs' 0 size g c ∧ (c.addr + 8 + g) % b = 0 ∧
        0 < size := by
  rw [losMemAllocAlign]
  by_cases hbad : P.pool = 0 ∨ size = 0 ∨ b = 0 ∨ ¬ osMemIsPowTwo b ∨ ¬ osMemIsAligned b 4
  · exact .inl (if_pos hbad)
  rw [if_neg hbad]
  have hb0 : b ≠ 0 := by tauto
  have hpow := exists_pow_of_isPowTwo hb0 (by tauto)
  have hb4 : b % 4 = 0 := osMemIsAligned_four.mp (by tauto)
  obtain ⟨h8, hle, hlt⟩ := clamp_spec size
  have hlt := hlt (2 ^ 32) (by omega) hsize
  generalize (if size < osMemMinAllocSize then osMemMinAllocSize else size) = n at h8 hle hlt ⊢
  by_cases hover : 2 ^ 32 - 1 - n < b - 4
  · exact .inl (if_pos hover)
  rw [if_neg hover]
  have huse : u32 (u32 (n + b) + 2 ^ 32 - 4) = n + b - 4 := by
    simp only [u32]
    omega
  rw [huse]
  by_cases hflag : osMemNodeGetUsedFlag (n + b - 4) ≠ 0 ∨ osMemNodeGetAlignedFlag (n + b - 4) ≠ 0
  · exact .inl (if_pos hflag)
  rw [if_neg hflag]
  simp only [not_or, not_not] at hflag
  have hlt30 : n + b - 4 < 2 ^ 30 := (flags_eq_zero_iff (by omega)).mp hflag
  rcases osMemAlloc_spec h hs (show 8 ≤ n + b - 4 by omega) hlt30 with
    ⟨hnone, -⟩ | ⟨m1, cs1, c, hsome, hset, hbec, hg⟩
  · have h0 : osMemAlign 0 b = 0 := by
      obtain ⟨h1, h2, h3, -⟩ := osMemAlign_bounds (p := 0) hpow hb4 rfl (by omega)
      rw [mod_eq_of_lt (by omega)] at h1
      exact h1
    exact .inl (by simp [hnone, h0])
  · have hcb := hbec.heap.layout.bounds hg.mem
    have hP := P.geometry
    have hmod := hbec.heap.layout.addr_mod hg.mem
    have hroom := hg.room
    obtain ⟨h1, h2, h3, h4⟩ := osMemAlign_bounds (p := c.addr + 8) hpow hb4 (by omega) (by omega)
    generalize hal : osMemAlign (c.addr + 8) b = r at h1 h2 h3 h4
    by_cases heq : c.addr + 8 = r
    · refine .inr ⟨m1, cs1, c, 0, ?_, hset, hbec, ⟨hg.mem, hg.use, by omega, hg.fresh⟩,
        by rw [add_zero, heq]; exact h1, by omega⟩
      simp only [hsome, Option.bind_eq_bind, Option.bind_some, hal, if_pos heq]
      rfl
    · obtain ⟨pre, post, rfl⟩ := List.append_of_mem hg.mem
      have hgap := hbec.heap.setGap (g := r - (c.addr + 8)) hg.use (by omega) (by omega) (by omega)
      refine .inr ⟨_, pre ++ ⟨c.addr, c.size, .used (r - (c.addr + 8))⟩ :: post,
        ⟨c.addr, c.size, .used (r - (c.addr + 8))⟩, r - (c.addr + 8), ?_, ?_,
        ⟨hgap.heap, hbec.kept.trans_fresh hgap.kept hg.fresh⟩,
        ⟨by simp, rfl, ?_, hg.fresh⟩, ?_, by omega⟩
      · simp only [hsome, Option.bind_eq_bind, Option.bind_some, hal, if_neg heq,
          osMemNodeHeadSize, sizeAndFlagAt]
        rw [show r - 4 = c.addr + 4 + (r - (c.addr + 8)) by omega,
          show c.addr + 8 + (r - (c.addr + 8)) = r by omega]
        rfl
      · have := (settled_used ⟨0, hg.use⟩).mp hset
        exact (settled_used ⟨_, rfl⟩).mpr this
      · simp only
        omega
      · rw [show (⟨c.addr, c.size, .used (r - (c.addr + 8))⟩ : Chunk).addr = c.addr from rfl,
          show c.addr + 8 + (r - (c.addr + 8)) = r by omega]
        exact h1

/-! ### Release and reallocation -/

theorem Layout.ptr_mod (h : Layout P m cs) (hc : c ∈ cs) : (c.addr + 8 + c.gap) % 4 = 0 := by
  have h1 := h.addr_mod hc
  by_cases hg : c.gap = 0
  · omega
  · have := (h.gaps c hc hg).1
    omega

theorem losMemFree_used (h : Layout P m cs) (hc : c ∈ cs) (hu : c.isUsed) :
    losMemFree m P.pool (c.addr + 8 + c.gap) = osMemFree m P.pool c.addr := by
  have hP := P.geometry
  have hpool : osMemIsAligned P.pool 4 := osMemIsAligned_four.mpr (by omega)
  have hptr := osMemIsAligned_four.mpr (h.ptr_mod hc)
  rw [losMemFree, if_neg]
  · simp only [osGetRealPtr_used h hc hu]
    rw [if_neg (by omega), show c.addr + 8 - osMemNodeHeadSize = c.addr by
      simp only [osMemNodeHeadSize]; omega]
  · simp only [hpool, hptr, not_true_eq_false, or_false]
    omega

theorem losMemFree_spec {P : Region} (h : Heap P m cs) (hs : Settled cs) (hc : c ∈ cs)
    (hu : c.isUsed) :
    ∃ m' cs', losMemFree m P.pool (c.addr + 8 + c.gap) = some (m', .losOk) ∧ Settled cs' ∧
      Becomes P c.addr m cs m' cs' := by
  rw [losMemFree_used h.layout hc hu]
  obtain ⟨pre, post, rfl⟩ := List.append_of_mem hc
  exact osMemFree_spec h hs hu

/-- Reallocating a live pointer: refused with nothing changed, released when the size is zero,
or moved to a chunk of the new size. -/
theorem losMemRealloc_spec {P : Region} (h : Heap P m cs) (hs : Settled cs) (hc : c ∈ cs)
    (hu : c.isUsed) (hsize : size < 2 ^ 32) :
    (losMemRealloc m P.pool (c.addr + 8 + c.gap) size = some (m, 0) ∧ 0 < size) ∨
      (∃ m' cs', losMemRealloc m P.pool (c.addr + 8 + c.gap) size = some (m', 0) ∧ size = 0 ∧
        Settled cs' ∧ Becomes P c.addr m cs m' cs') ∨
      ∃ m' cs' c', losMemRealloc m P.pool (c.addr + 8 + c.gap) size = some (m', c'.addr + 8) ∧
        Settled cs' ∧ Becomes P c.addr m cs m' cs' ∧ Granted cs cs' c.addr size 0 c' ∧
        0 < size ∧ ∀ i, 8 + 4 * i < c.size → 4 * i < size →
          m' (c'.addr + 8 + 4 * i) = m (c.addr + 8 + 4 * i) := by
  have hP := P.geometry
  rw [losMemRealloc]
  by_cases hflag : P.pool = 0 ∨ osMemNodeGetUsedFlag size ≠ 0 ∨ osMemNodeGetAlignedFlag size ≠ 0
  · refine .inl ⟨if_pos hflag, ?_⟩
    by_contra h0
    obtain rfl : size = 0 := by omega
    rcases hflag with hflag | hflag | hflag
    · omega
    all_goals exact hflag rfl
  rw [if_neg hflag, if_neg (by omega)]
  by_cases h0 : size = 0
  · obtain ⟨m', cs', hm', hset, hb⟩ := losMemFree_spec h hs hc hu
    refine .inr (.inl ⟨m', cs', ?_, h0, hset, hb⟩)
    rw [if_pos h0, hm']
    rfl
  rw [if_neg h0]
  simp only [not_or, not_not] at hflag
  have hlt := (flags_eq_zero_iff hsize).mp hflag.2
  obtain ⟨h8, hle, hlt'⟩ := clamp_spec size
  have hlt' := hlt' (2 ^ 30) (by omega) hlt
  simp only [osGetRealPtr_used h.layout hc hu]
  have hnode : c.addr + 8 - osMemNodeHeadSize = c.addr := by
    simp only [osMemNodeHeadSize]
    omega
  rw [if_neg (by omega), hnode, if_neg (by simp [osMemCheckUsedNode_used h.layout hc hu])]
  obtain ⟨pre, post, rfl⟩ := List.append_of_mem hc
  rcases osMemRealloc_spec h hs hu h8 hlt' with hnone | ⟨m', cs', c', hm', hset, hb, hg, hpay⟩
  · exact .inl ⟨hnone, by omega⟩
  · refine .inr (.inr ⟨m', cs', c', hm', hset, hb, ⟨hg.mem, hg.use, ?_, hg.fresh⟩, by omega,
      fun i h1 h2 => hpay i h1 (by omega)⟩)
    have := hg.room
    omega

end LiteOS.Memory
