import LiteOS.Memory.PoolInit

/-!
# Pools too small for a free node

`LOS_MemInit` accepts a pool whose only node is shorter than a free-node header. Its links
then overlap the end node, but such a node is filed below every class a request starts from,
so nothing is ever allocated from the pool and nothing in it changes.
-/

namespace LiteOS.Memory

open Lib

variable {m m' : Words} {pool size : ℕ}

/-- No list from the class of sixteen bytes on has a node. -/
structure Barren (m : Words) (pool : ℕ) : Prop where
  total : m (pool + 4) ≠ 0
  low : m (pool + 20) < 8
  words : ∀ w, 0 < w → w < 7 → m (pool + 20 + 4 * w) = 0
  heads : ∀ j, 3 ≤ j → j < 223 → m (pool + 48 + 4 * j) = 0

theorem Fresh.barren (h : Fresh m m' pool size (osMemFreeListIndexGet (size - 952)))
    (hsize : 952 < size) (hlt : size < 968) (h4 : size % 4 = 0) : Barren m' pool := by
  have hi : osMemFreeListIndexGet (size - 952) < 3 := by
    rw [osMemFreeListIndexGet_small (by omega) (by omega)]
    omega
  generalize osMemFreeListIndexGet (size - 952) = i at h hi
  have hi0 : i / 32 = 0 ∧ i % 32 = i := by omega
  refine ⟨by rw [h.total]; omega, ?_, fun w h0 hw => ?_, fun j h3 hj => ?_⟩
  · have h0 := h.bitmap 0 (by omega)
    rw [hi0.1, hi0.2, if_pos rfl, Nat.shiftLeft_eq, Nat.one_mul] at h0
    rw [show pool + 20 = pool + 20 + 4 * 0 from rfl, h0]
    exact Nat.pow_lt_pow_right (by omega) hi
  · rw [h.bitmap w hw, if_neg (by omega)]
  · rw [h.heads j hj, if_neg (by omega)]

namespace Barren

theorem congr (h : Barren m pool) (hm : ∀ x, pool ≤ x → x < pool + 940 → m' x = m x) :
    Barren m' pool where
  total := by rw [hm _ (by omega) (by omega)]; exact h.total
  low := by rw [hm _ (by omega) (by omega)]; exact h.low
  words w h0 hw := by rw [hm _ (by omega) (by omega)]; exact h.words w h0 hw
  heads j h3 hj := by rw [hm _ (by omega) (by omega)]; exact h.heads j h3 hj

theorem notEmptyIndexGet (h : Barren m pool) {i : ℕ} (h3 : 3 ≤ i) (hi : i < 223) :
    osMemNotEmptyIndexGet m pool i = osMemFreeListCount := by
  have hmask : m (pool + 20 + 4 * (i / 32)) &&& not32 (1 <<< (i % 32) - 1) = 0 := by
    by_cases h0 : i / 32 = 0
    · have hmod : i % 32 = i := by omega
      have hlow : m (pool + 20 + 4 * 0) < 8 := h.low
      rw [h0, hmod, Nat.shiftLeft_eq, Nat.one_mul, and_not32_low (by omega) (by omega)]
      rw [Nat.div_eq_of_lt, Nat.zero_mul]
      exact hlow.trans_le (Nat.pow_le_pow_right (n := 2) (by omega) h3)
    · rw [h.words _ (by omega) (by omega), Nat.zero_and]
  simp only [osMemNotEmptyIndexGet, freeListBitmapAt_eq,
    show i &&& osMemBitmapMask = i % 32 from and_mask_eq i, hmask, ne_eq, not_true_eq_false,
    if_false]

theorem findBitmapWord_eq (h : Barren m pool) : ∀ {fuel i : ℕ}, 32 ≤ i →
    findBitmapWord m pool fuel i = none
  | 0, _, _ => rfl
  | fuel + 1, i, hi => by
    rw [findBitmapWord]
    simp only [freeListBitmapAt_eq, osMemFreeListCount_eq]
    split_ifs with hlt h0
    · exact absurd (h.words _ (by omega) (by omega)) h0
    · exact findBitmapWord_eq h (by omega)
    · rfl

theorem freeNodeGet (h : Barren m pool) (hs : Request size) :
    osMemFreeNodeGet m pool size = some (m, 0) := by
  obtain ⟨hpos, hfine, hmax⟩ := hs
  have hclass := osMemFreeListIndexGet_lt (n := size) (by omega) (by omega)
  obtain ⟨start, cur, hstart, h3, h223, hcur⟩ : ∃ start cur, startIndex size = (start, cur) ∧
      3 ≤ start ∧ start < 223 ∧ (cur = 223 ∨ 3 ≤ cur ∧ cur < 223) := by
    by_cases hsmall : size < 128
    · exact ⟨_, _, startIndex_small hsmall (by omega), by omega, by omega, .inl rfl⟩
    · have hmono : osMemFreeListIndexGet 16 ≤ osMemFreeListIndexGet size ∨ 2 ^ 29 ≤ size := by
        by_cases hlt : size < 2 ^ 29
        · exact .inl (osMemFreeListIndexGet_mono (by omega) hpos hlt)
        · exact .inr (by omega)
      have h16 : osMemFreeListIndexGet 16 = 3 := osMemFreeListIndexGet_small (by omega) (by omega)
      have hlow : 3 ≤ osMemFreeListIndexGet size := by
        rcases hmono with hle | hbig
        · omega
        · have := osMemFreeListIndexGet_huge hbig (by omega)
          omega
      exact ⟨_, _, startIndex_large (by omega) (by omega), by omega, by omega,
        .inr ⟨hlow, by omega⟩⟩
  have halign : 32 ≤ osMemAlign (start + 1) 32 := by
    rw [show osMemAlign (start + 1) 32 = (start + 1 + 31) / 32 * 32 from
      osMemAlign_two_pow (k := 5) (by omega) (by omega)]
    omega
  have hfind : ∃ i, osMemFindNextSuitableBlock m pool size = some (0, i) := by
    rw [osMemFindNextSuitableBlock, hstart]
    simp only [h.notEmptyIndexGet h3 h223, ne_eq, not_true_eq_false, if_false,
      h.findBitmapWord_eq halign]
    by_cases hc : cur = osMemFreeListCount
    · exact ⟨start, by rw [if_pos hc]⟩
    · have hhead := h.heads cur (by rw [osMemFreeListCount_eq] at hc; omega)
        (by rw [osMemFreeListCount_eq] at hc; omega)
      obtain ⟨fuel, hfuel⟩ := Nat.exists_eq_succ_of_ne_zero h.total
      refine ⟨cur, ?_⟩
      rw [if_neg hc, osMemFindCurSuitableBlock, freeListAt_eq, hhead,
        show m (totalSizeAt pool) = fuel + 1 from hfuel]
      simp [findSuitable]
  obtain ⟨i, hi⟩ := hfind
  simp [osMemFreeNodeGet, hi]

theorem alloc (h : Barren m pool) (h8 : 8 ≤ size) (hlt : size < 2 ^ 30) :
    osMemAlloc m pool size = some (m, 0) := by
  simp [osMemAlloc, h.freeNodeGet (request_of_size h8 hlt).1]

theorem losMemAlloc_null (h : Barren m pool) (hsize : size < 2 ^ 32) :
    losMemAlloc m pool size = some (m, 0) := by
  rw [losMemAlloc]
  obtain ⟨h8, -, hlt⟩ := clamp_spec size
  have hlt := hlt (2 ^ 32) (by omega) hsize
  simp only
  generalize (if size < osMemMinAllocSize then osMemMinAllocSize else size) = n at h8 hlt ⊢
  split_ifs with h1 h2
  · rfl
  · rfl
  · simp only [not_or, not_not] at h2
    exact h.alloc h8 ((flags_eq_zero_iff hlt).mp h2)

theorem losMemAllocAlign_null {b : ℕ} (h : Barren m pool) (hsize : size < 2 ^ 32)
    (hb : b < 2 ^ 32) : losMemAllocAlign m pool size b = some (m, 0) := by
  rw [losMemAllocAlign]
  obtain ⟨h8, -, hlt⟩ := clamp_spec size
  have hlt := hlt (2 ^ 32) (by omega) hsize
  simp only
  generalize (if size < osMemMinAllocSize then osMemMinAllocSize else size) = n at h8 hlt ⊢
  split_ifs with hbad hover hflag
  iterate 3 rfl
  · simp only [not_or, not_not] at hbad
    obtain ⟨-, -, hb0, hpow, hb4⟩ := hbad
    have hpow := exists_pow_of_isPowTwo hb0 hpow
    have hb4 := osMemIsAligned_four.mp hb4
    have huse : u32 (u32 (n + b) + 2 ^ 32 - 4) = n + b - 4 := by
      simp only [u32]
      omega
    rw [huse] at hflag ⊢
    simp only [not_or, not_not] at hflag
    have hlt30 : n + b - 4 < 2 ^ 30 := (flags_eq_zero_iff (by omega)).mp hflag
    have h0 : osMemAlign 0 b = 0 := by
      obtain ⟨h1, -, h3, -⟩ := osMemAlign_bounds (p := 0) hpow hb4 rfl (by omega)
      rwa [Nat.mod_eq_of_lt (by omega)] at h1
    simp [h.alloc (show 8 ≤ n + b - 4 by omega) hlt30, h0]

end Barren
end LiteOS.Memory
