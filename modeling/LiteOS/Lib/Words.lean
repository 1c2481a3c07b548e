import Mathlib.Algebra.Group.Nat.Defs
import Mathlib.Logic.Function.Basic
import Mathlib.Tactic.Common

/-!
# Word-addressed memory

A memory maps every byte address to the word stored at it; programs that keep to
word-aligned addresses only ever look at every fourth entry. Bytes are read out of,
and patched into, the little-endian word that contains them.
-/

namespace LiteOS.Lib

open Function

/-- Contents of memory, one word for each (word-aligned) byte address. -/
abbrev Words := ℕ → ℕ

namespace Words

variable (m : Words) (a b v : ℕ)

def write : Words := update m a v

@[simp] theorem write_self : m.write a v a = v := update_self ..

theorem write_of_ne {a b : ℕ} (h : b ≠ a) : m.write a v b = m b := update_of_ne h ..

theorem write_apply : m.write a v b = if b = a then v else m b := update_apply ..

/-- Copy `n` consecutive words from `src` to `dst`, lowest address first. -/
def copy (dst src : ℕ) : ℕ → Words
  | 0 => m
  | n + 1 => (copy dst src n).write (dst + 4 * n) (copy dst src n (src + 4 * n))

theorem copy_of_outside {dst src n b : ℕ} (h : ∀ i < n, b ≠ dst + 4 * i) :
    m.copy dst src n b = m b := by
  induction n with
  | zero => rfl
  | succ n ih =>
    rw [copy, write_of_ne _ _ (h n (Nat.lt_succ_self n))]
    exact ih fun i hi => h i (Nat.lt_succ_of_lt hi)

theorem copy_inside {dst src n i : ℕ} (hi : i < n) (h : src + 4 * n ≤ dst ∨ dst + 4 * n ≤ src) :
    m.copy dst src n (dst + 4 * i) = m (src + 4 * i) := by
  induction n with
  | zero => omega
  | succ n ih =>
    rw [copy, write_apply]
    split_ifs with he
    · rw [copy_of_outside _ (by omega), show n = i by omega]
    · exact ih (by omega) (by omega)

/-- The byte at address `a` of a little-endian memory. -/
def byteAt : ℕ := m (a / 4 * 4) / 256 ^ (a % 4) % 256

/-- Replace the byte at address `a`, keeping the rest of its word. -/
def setByte : Words :=
  let w := m (a / 4 * 4)
  let k := 256 ^ (a % 4)
  m.write (a / 4 * 4) (w / (k * 256) * (k * 256) + v % 256 * k + w % k)

theorem setByte_of_ne {a b : ℕ} (h : b ≠ a / 4 * 4) : m.setByte a v b = m b :=
  write_of_ne _ _ h

theorem byteAt_congr {m m' : Words} {a : ℕ} (h : m' (a / 4 * 4) = m (a / 4 * 4)) :
    m'.byteAt a = m.byteAt a := by
  simp only [byteAt, h]

end Words
end LiteOS.Lib
