import Mathlib.Algebra.Group.Nat.Defs
import Mathlib.Data.List.GetD
import Mathlib.Tactic.Common

/-!
# Byte-addressed memory

A memory maps every address to a byte. Ranges of bytes are stored and loaded as lists; a word takes
four bytes, the least significant one first.
-/

namespace LiteOS.Lib

abbrev Bytes := ℕ → UInt8

namespace Bytes

variable {m : Bytes} {a b n v : ℕ} {l : List UInt8}

/-- Store the bytes `l` from address `a` on. -/
def store (m : Bytes) (a : ℕ) (l : List UInt8) : Bytes := fun b =>
  if a ≤ b then l[b - a]?.getD (m b) else m b

/-- The `n` bytes from address `a` on. -/
def load (m : Bytes) (a n : ℕ) : List UInt8 := (List.range n).map fun i => m (a + i)

@[simp] theorem length_load : (m.load a n).length = n := by simp [load]

theorem store_apply_of_outside (h : b < a ∨ a + l.length ≤ b) : m.store a l b = m b := by
  unfold store
  split_ifs with hab
  · rw [List.getElem?_eq_none (by omega)]
    rfl
  · rfl

theorem load_store_self : (m.store a l).load a l.length = l := by
  refine List.ext_getElem (by simp) fun i hi hi' => ?_
  simp [load, store, hi']

theorem load_store_of_disjoint (h : b + n ≤ a ∨ a + l.length ≤ b) :
    (m.store a l).load b n = m.load b n := by
  refine List.map_congr_left fun i hi => ?_
  rw [List.mem_range] at hi
  exact store_apply_of_outside (by omega)

theorem take_load (k : ℕ) : (m.load a n).take k = m.load a (min k n) := by
  rw [load, load, ← List.map_take, List.take_range]

def wordBytes (v : ℕ) : List UInt8 :=
  [.ofNat v, .ofNat (v / 2 ^ 8), .ofNat (v / 2 ^ 16), .ofNat (v / 2 ^ 24)]

@[simp] theorem length_wordBytes : (wordBytes v).length = 4 := rfl

/-- Store a word at address `a`. -/
def storeWord (m : Bytes) (a v : ℕ) : Bytes := m.store a (wordBytes v)

/-- The word at address `a`. -/
def loadWord (m : Bytes) (a : ℕ) : ℕ :=
  (m a).toNat + 2 ^ 8 * (m (a + 1)).toNat + 2 ^ 16 * (m (a + 2)).toNat + 2 ^ 24 * (m (a + 3)).toNat

theorem loadWord_storeWord (h : v < 2 ^ 32) : (m.storeWord a v).loadWord a = v := by
  simp [loadWord, storeWord, store, wordBytes]
  omega

theorem loadWord_store_of_disjoint (h : b + 4 ≤ a ∨ a + l.length ≤ b) :
    (m.store a l).loadWord b = m.loadWord b := by
  unfold loadWord
  rw [store_apply_of_outside (by omega), store_apply_of_outside (by omega),
    store_apply_of_outside (by omega), store_apply_of_outside (by omega)]

end Bytes

end LiteOS.Lib
