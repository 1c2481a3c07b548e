import Mathlib.Algebra.Group.Nat.Defs
import Mathlib.Data.Nat.Find
import Mathlib.Data.Nat.Log
import Mathlib.Tactic.Common

/-!
# Lowest and highest set bits of a machine word

`x &&& (~~~x + 1)` keeps the lowest set bit of `x`; counting leading zeros then gives its
position. The highest set bit of a number is its binary logarithm.
-/

namespace LiteOS.Lib

open BitVec

variable {w i n : ℕ} {x : BitVec w} {i : ℕ}

/-- Bits of `x &&& -x`: only the lowest set bit of `x` survives. -/
theorem getLsbD_and_neg (x : BitVec w) (i : ℕ) : (x &&& (~~~x + 1#w)).getLsbD i ↔
      x.getLsbD i ∧ ∀ j < i, x.getLsbD j = false := by
  rw [← neg_eq_not_add, getLsbD_and, getLsbD_neg]
  by_cases hi : i < w
  · cases hx : x.getLsbD i <;> simp [hi]
  · simp [getLsbD_of_ge x i (by omega)]

theorem exists_getLsbD_of_ne_zero (h : x ≠ 0#w) : ∃ i, x.getLsbD i := by
  by_contra hn
  push Not at hn
  apply h
  ext i hi
  simpa [getLsbD_eq_getElem hi] using hn i

/-- With no set bit above `i`, bit `i` being set fixes the number of leading zeros. -/
theorem clz_eq_of_top (hi : i < w) (hset : x.getLsbD i)
    (htop : ∀ j, i < j → x.getLsbD j = false) : x.clz.toNat = w - 1 - i := by
  have hne : x ≠ 0#w := by
    rintro rfl
    simp at hset
  have hlt : x.clz.toNat < w := by
    have h := clz_lt_iff_ne_zero.mpr hne
    rw [lt_def] at h
    have hw : w < 2 ^ w := Nat.lt_two_pow_self
    simpa using h
  have hbit := getLsbD_true_clz_of_ne_zero (by omega) hne
  have hlow : w - 1 - x.clz.toNat ≤ i := by
    by_contra hc
    rw [htop _ (by omega)] at hbit
    exact absurd hbit (by simp)
  have hhigh : i ≤ w - 1 - x.clz.toNat := by
    by_contra hc
    have hsize := toNat_lt_two_pow_sub_clz (x := x)
    have hge := Nat.ge_two_pow_of_testBit (by simpa [getLsbD] using hset)
    have : 2 ^ (w - x.clz.toNat) ≤ 2 ^ i := Nat.pow_le_pow_right (by omega) (by omega)
    omega
  omega

theorem lowBit_spec (hset : x.getLsbD i) (hlow : ∀ j < i, x.getLsbD j = false) :
    w - 1 - (x &&& (~~~x + 1#w)).clz.toNat = i := by
  have hi := lt_of_getLsbD hset
  have h := clz_eq_of_top hi ((getLsbD_and_neg x i).mpr ⟨hset, hlow⟩)
    fun j hj => by
      cases hb : (x &&& (~~~x + 1#w)).getLsbD j with
      | false => rfl
      | true =>
        have := ((getLsbD_and_neg x j).mp hb).2 i hj
        simp [hset] at this
  omega

theorem lowBit_exists (h : x ≠ 0#w) : x.getLsbD (w - 1 - (x &&& (~~~x + 1#w)).clz.toNat) ∧
      ∀ j < w - 1 - (x &&& (~~~x + 1#w)).clz.toNat, x.getLsbD j = false := by
  classical
  have hex := exists_getLsbD_of_ne_zero h
  have hlow : ∀ j < Nat.find hex, x.getLsbD j = false := fun j hj => by
    simpa using Nat.find_min hex hj
  rw [lowBit_spec (Nat.find_spec hex) hlow]
  exact ⟨Nat.find_spec hex, hlow⟩

/-- Counting leading zeros of a 32-bit number is a binary logarithm. -/
theorem clz_ofNat (h0 : n ≠ 0) (h : n < 2 ^ 32) :
    31 - (BitVec.ofNat 32 n).clz.toNat = Nat.log2 n := by
  have hlog := (Nat.log2_lt h0).mpr h
  have hset : (BitVec.ofNat 32 n).getLsbD (Nat.log2 n) := by
    rw [BitVec.getLsbD_ofNat, Nat.testBit_log2 h0]
    simp [hlog]
  have htop : ∀ j, Nat.log2 n < j → (BitVec.ofNat 32 n).getLsbD j = false := fun j hj => by
    have : n < 2 ^ j := (Nat.log2_lt h0).mp hj
    rw [BitVec.getLsbD_ofNat, Nat.testBit_lt_two_pow this, Bool.and_false]
  rw [clz_eq_of_top hlog hset htop]
  omega

end LiteOS.Lib
