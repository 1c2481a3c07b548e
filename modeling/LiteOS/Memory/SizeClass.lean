import LiteOS.Lib.LowBit

/-!
# Two-level size classes of the dynamic memory pool

Small sizes, below 128 bytes, have one free list for each multiple of four. A larger size
is classed by its binary logarithm and by the three bits below the leading one. All
arithmetic is that of the `UINT32` code, wrap-around included: `size << OS_MEM_SLI` loses
bits from `2 ^ 29` on.
-/

namespace LiteOS.Memory

open Lib Nat

/-- Reduction to a `UINT32`. -/
def u32 (n : ℕ) : ℕ := n % 2 ^ 32

def osMemSli : ℕ := 3
def osMemSmallBucketCount : ℕ := 31
def osMemSmallBucketMaxSize : ℕ := 128
def osMemLargeBucketCount : ℕ := 24
def osMemLargeStartBucket : ℕ := 7

def osMemFreeListCount : ℕ := osMemSmallBucketCount + osMemLargeBucketCount <<< osMemSli

def osMemBitmapWords : ℕ := (osMemFreeListCount >>> 5) + 1

def osMemBitmapMask : ℕ := 0x1F

def clz (bitmap : BitVec 32) : ℕ := bitmap.clz.toNat

def osMemFfs (bitmap : BitVec 32) : ℕ := osMemBitmapMask - clz (bitmap &&& (~~~bitmap + 1#32))

def osMemFls (bitmap : BitVec 32) : ℕ := osMemBitmapMask - clz bitmap

def osMemLog2 (size : ℕ) : ℕ := if 0 < size then osMemFls (BitVec.ofNat 32 size) else 0

/-- First level: small sizes count in fours, large ones by their logarithm. -/
def osMemFlGet (size : ℕ) : ℕ :=
  if size < osMemSmallBucketMaxSize then u32 ((size >>> 2) + 2 ^ 32 - 1)
  else osMemLog2 size - osMemLargeStartBucket + osMemSmallBucketCount

/-- Second level: the three bits after the leading one. -/
def osMemSlGet (size fl : ℕ) : ℕ :=
  if fl < osMemSmallBucketCount ∨ size < osMemSmallBucketMaxSize then 0
  else
    let sl := u32 (size <<< osMemSli) >>> (fl - osMemSmallBucketCount + osMemLargeStartBucket)
    u32 (sl + 2 ^ 32 - 1 <<< osMemSli)

/-- The number of the free list a node of the given size belongs to. -/
def osMemFreeListIndexGet (size : ℕ) : ℕ :=
  let fl := osMemFlGet size
  if fl < osMemSmallBucketCount then fl
  else
    let sl := osMemSlGet size fl
    u32 (osMemSmallBucketCount + ((fl - osMemSmallBucketCount) <<< osMemSli) + sl)

theorem osMemFreeListCount_eq : osMemFreeListCount = 223 := rfl

variable {size : ℕ}

theorem osMemLog2_eq (h0 : 0 < size) (h : size < 2 ^ 32) : osMemLog2 size = log2 size := by
  rw [osMemLog2, if_pos h0]
  exact clz_ofNat (by omega) h

theorem osMemFfs_spec {bitmap : BitVec 32} (h : bitmap ≠ 0#32) : bitmap.getLsbD (osMemFfs bitmap) ∧
      ∀ j < osMemFfs bitmap, bitmap.getLsbD j = false := lowBit_exists h

theorem osMemFlGet_small (h : size < 128) (h4 : 4 ≤ size) : osMemFlGet size = size / 4 - 1 := by
  rw [osMemFlGet, osMemSmallBucketMaxSize, if_pos h, u32, shiftRight_eq_div_pow]
  omega

theorem osMemFlGet_large (h : 128 ≤ size) (hlt : size < 2 ^ 32) :
    osMemFlGet size = log2 size - 7 + 31 := by
  rw [osMemFlGet, osMemSmallBucketMaxSize, if_neg (by omega), osMemLog2_eq (by omega) hlt]
  rfl

variable {n s t size : ℕ}

theorem seven_le_log2 (h : 128 ≤ n) : 7 ≤ log2 n :=
  (le_log2 (by omega)).mpr (by omega)

theorem osMemFreeListIndexGet_small (h : size < 128) (h4 : 4 ≤ size) :
    osMemFreeListIndexGet size = size / 4 - 1 := by
  rw [osMemFreeListIndexGet, osMemFlGet_small h h4, osMemSmallBucketCount, if_pos (by omega)]

/-- The three bits below the leading one, for sizes whose shift does not overflow. -/
theorem secondLevel_bounds (h : n ≠ 0) :
    8 ≤ n * 8 / 2 ^ Nat.log2 n ∧ n * 8 / 2 ^ Nat.log2 n < 16 := by
  have hpos : 0 < 2 ^ Nat.log2 n := Nat.two_pow_pos _
  have hle := Nat.log2_self_le h
  have hlt : n < 2 ^ (Nat.log2 n + 1) := Nat.lt_log2_self
  rw [Nat.pow_succ] at hlt
  exact ⟨(Nat.le_div_iff_mul_le hpos).mpr (by omega), (Nat.div_lt_iff_lt_mul hpos).mpr (by omega)⟩

theorem osMemSlGet_large (h : 128 ≤ size) (hlt : size < 2 ^ 32) :
    osMemSlGet size (log2 size - 7 + 31) = u32 (u32 (size * 8) / 2 ^ log2 size + 2 ^ 32 - 8) := by
  have h7 := seven_le_log2 h
  rw [osMemSlGet, osMemSmallBucketCount, osMemSmallBucketMaxSize, if_neg (by omega)]
  simp only [osMemLargeStartBucket, shiftRight_eq_div_pow, shiftLeft_eq]
  congr 5
  omega

theorem osMemFreeListIndexGet_large (h : 128 ≤ n) (hlt : n < 2 ^ 29) : osMemFreeListIndexGet n =
      31 + (log2 n - 7) * 8 + (n * 8 / 2 ^ log2 n - 8) := by
  have hlog := (log2_lt (by omega)).mpr hlt
  obtain ⟨hs, hs'⟩ := secondLevel_bounds (n := n) (by omega)
  have hmul : u32 (n * 8) = n * 8 := mod_eq_of_lt (by omega)
  rw [osMemFreeListIndexGet, osMemFlGet_large h (by omega), osMemSmallBucketCount,
    if_neg (by omega), osMemSlGet_large h (by omega), hmul]
  simp only [u32, osMemSli]
  omega

theorem osMemFreeListIndexGet_upper (h : 2 ^ 28 ≤ n) (hlt : n < 2 ^ 29) :
    osMemFreeListIndexGet n = 191 + n / 2 ^ 25 := by
  have hle := (le_log2 (by omega)).mpr h
  have hlog := (log2_lt (by omega)).mpr hlt
  rw [osMemFreeListIndexGet_large (by omega) hlt, show log2 n = 28 by omega]
  omega

/-- A size from `2 ^ 29` on loses its leading bits in the shift, yet stays above every class
of a node smaller than `2 ^ 28`. -/
theorem osMemFreeListIndexGet_huge (h : 2 ^ 29 ≤ n) (hlt : n < 2 ^ 32) :
    198 < osMemFreeListIndexGet n ∧ osMemFreeListIndexGet n < 222 ∧
      (n < 2 ^ 30 → osMemFreeListIndexGet n = 191 + n / 2 ^ 26) := by
  have hle := (le_log2 (by omega)).mpr h
  have hlog := (log2_lt (by omega)).mpr hlt
  have htop := fun h30 : n < 2 ^ 30 => (log2_lt (by omega)).mpr h30
  rw [osMemFreeListIndexGet, osMemFlGet_large (by omega) hlt, osMemSmallBucketCount,
    if_neg (by omega), osMemSlGet_large (by omega) hlt]
  simp only [u32, osMemSli]
  obtain hk | hk | hk : log2 n = 29 ∨ log2 n = 30 ∨ log2 n = 31 := by omega
  all_goals
    rw [hk] at htop ⊢
    omega

theorem osMemFreeListIndexGet_le (h4 : 4 ≤ size) (hlt : size < 2 ^ 28) :
    osMemFreeListIndexGet size ≤ 198 := by
  by_cases h : size < 128
  · rw [osMemFreeListIndexGet_small h h4]
    omega
  · have hlog := (log2_lt (by omega)).mpr hlt
    have hs := (secondLevel_bounds (n := size) (by omega)).2
    rw [osMemFreeListIndexGet_large (by omega) (by omega)]
    omega

theorem osMemFreeListIndexGet_lt (h4 : 4 ≤ n) (hlt : n < 2 ^ 32) :
    osMemFreeListIndexGet n < 222 := by
  by_cases h28 : n < 2 ^ 28
  · have := osMemFreeListIndexGet_le h4 h28
    omega
  · by_cases h29 : n < 2 ^ 29
    · rw [osMemFreeListIndexGet_upper (by omega) h29]
      omega
    · exact (osMemFreeListIndexGet_huge (by omega) hlt).2.1

theorem osMemFreeListIndexGet_mono (h4 : 4 ≤ s) (hst : s ≤ t) (ht : t < 2 ^ 29) :
    osMemFreeListIndexGet s ≤ osMemFreeListIndexGet t := by
  by_cases h1 : t < 128
  · rw [osMemFreeListIndexGet_small h1 (by omega), osMemFreeListIndexGet_small (by omega) h4]
    omega
  · rw [osMemFreeListIndexGet_large (by omega) ht]
    by_cases h2 : s < 128
    · rw [osMemFreeListIndexGet_small h2 h4]
      omega
    · rw [osMemFreeListIndexGet_large (by omega) (by omega)]
      have h7 := seven_le_log2 (n := s) (by omega)
      have hs := secondLevel_bounds (n := s) (by omega)
      have hlog := (Nat.le_log2 (by omega)).mpr ((Nat.log2_self_le (by omega)).trans hst)
      rcases Nat.lt_or_eq_of_le hlog with hlog | hlog
      · omega
      · rw [hlog] at hs ⊢
        have := Nat.div_le_div_right (c := 2 ^ Nat.log2 t) (Nat.mul_le_mul_right 8 hst)
        omega

theorem le_of_index_lt (h4 : 4 ≤ size) (hs : size < 2 ^ 31) (ht4 : 4 ≤ t)
    (ht : t < 2 ^ 28) (h : osMemFreeListIndexGet size < osMemFreeListIndexGet t) : size ≤ t := by
  by_contra hc
  by_cases hlt : size < 2 ^ 29
  · have := osMemFreeListIndexGet_mono ht4 (show t ≤ size by omega) hlt
    omega
  · have := osMemFreeListIndexGet_huge (n := size) (by omega) (by omega)
    have := osMemFreeListIndexGet_le ht4 ht
    omega

/-- In the small range one class holds one size, so an equal class is enough. -/
theorem le_of_index_le_of_small (h4 : 4 ≤ size) (hs : size < 128)
    (hs4 : size % 4 = 0) (ht4 : 4 ≤ t) (h : size / 4 - 1 ≤ osMemFreeListIndexGet t) : size ≤ t := by
  by_cases ht : t < 128
  · rw [osMemFreeListIndexGet_small ht ht4] at h
    omega
  · omega

/-! ### The whole size field -/

/-- What is expected of the classes of two sizes `s ≤ t`. -/
structure ClassesSound (s t : ℕ) : Prop where
  mono : osMemFreeListIndexGet s ≤ osMemFreeListIndexGet t
  lt : osMemFreeListIndexGet t < osMemFreeListCount
  /-- A node on a list above that of a request is larger than the request. -/
  above : ∀ u, u % 4 = 0 → 4 ≤ u → u < 2 ^ 30 →
    osMemFreeListIndexGet s < osMemFreeListIndexGet u → s < u

theorem osMemFreeListIndexGet_cases (h4 : 4 ≤ n) (hlt : n < 2 ^ 30) :
    n < 2 ^ 28 ∧ osMemFreeListIndexGet n ≤ 198 ∨
      2 ^ 28 ≤ n ∧ n < 2 ^ 29 ∧ osMemFreeListIndexGet n = 191 + n / 2 ^ 25 ∨
      2 ^ 29 ≤ n ∧ osMemFreeListIndexGet n = 191 + n / 2 ^ 26 := by
  by_cases h28 : n < 2 ^ 28
  · exact .inl ⟨h28, osMemFreeListIndexGet_le h4 h28⟩
  · by_cases h29 : n < 2 ^ 29
    · exact .inr (.inl ⟨by omega, h29, osMemFreeListIndexGet_upper (by omega) h29⟩)
    · exact .inr (.inr ⟨by omega, (osMemFreeListIndexGet_huge (by omega) (by omega)).2.2 hlt⟩)

/-- The sizes from `2 ^ 29` on share the eight lists of the sizes from `2 ^ 28` on. -/
theorem classesSound_iff {s t : ℕ} (h4 : 4 ≤ s) (hst : s ≤ t) (ht : t < 2 ^ 30) :
    ClassesSound s t ↔ (s < 2 ^ 29 → t < 2 ^ 29 ∨ s / 2 ^ 25 ≤ t / 2 ^ 26) ∧
      (2 ^ 29 ≤ s → 15 * 2 ^ 26 ≤ s) := by
  have hs := osMemFreeListIndexGet_cases h4 (by omega)
  have ht' := osMemFreeListIndexGet_cases (by omega) ht
  constructor
  · intro h
    have hmono := h.mono
    have htop := osMemFreeListIndexGet_upper (n := 15 * 2 ^ 25) (by omega) (by omega)
    have habove := h.above (15 * 2 ^ 25) (by omega) (by omega) (by omega)
    exact ⟨by omega, by omega⟩
  · rintro ⟨h1, h2⟩
    refine ⟨?_, by rw [osMemFreeListCount_eq]; omega, fun u _ hu hlt hi => ?_⟩
    · by_cases h29 : t < 2 ^ 29
      · exact osMemFreeListIndexGet_mono h4 hst h29
      · omega
    · have hu' := osMemFreeListIndexGet_cases hu hlt
      by_contra hle
      by_cases h29 : s < 2 ^ 29
      · have := osMemFreeListIndexGet_mono hu (by omega : u ≤ s) h29
        omega
      · omega

theorem classesSound_small : ClassesSound 4 128 :=
  (classesSound_iff (by omega) (by omega) (by omega)).mpr (by omega)

/-- The class of half a gigabyte is seven below that of the size before it. -/
theorem not_classesSound_half_gigabyte : ¬ ClassesSound (2 ^ 29 - 4) (2 ^ 29) := by
  intro h
  have hmono := h.mono
  rw [osMemFreeListIndexGet_upper (by omega) (by omega),
    (osMemFreeListIndexGet_huge (by omega) (by omega)).2.2 (by omega)] at hmono
  omega

end LiteOS.Memory
