import Mathlib.Data.List.Basic
import Mathlib.Data.Nat.ModEq
import Mathlib.Tactic.Common

/-!
# Ring buffers

A ring of `len` slots holds a sequence that begins at slot `head` and grows at both ends. `window`
reads the sequence off the slots; each operation on the ring is an operation on the sequence.
-/

namespace LiteOS.Lib.RingBuffer

variable {α : Type*} {slot slot' : ℕ → α} {len head n i : ℕ} {a : α}

/-- The `n` entries from slot `head` on, around the ring. -/
def window (slot : ℕ → α) (len head n : ℕ) : List α :=
  (List.range n).map fun i => slot ((head + i) % len)

/-- The slot after `i`. -/
def next (len i : ℕ) : ℕ := if i + 1 = len then 0 else i + 1

/-- The slot before `i`. -/
def prev (len i : ℕ) : ℕ := if i = 0 then len - 1 else i - 1

@[simp] theorem length_window : (window slot len head n).length = n := by simp [window]

theorem next_lt (h : i < len) : next len i < len := by
  unfold next
  split_ifs <;> omega

theorem prev_lt (h : i < len) : prev len i < len := by
  unfold prev
  split_ifs <;> omega

theorem next_prev (h : i < len) : next len (prev len i) = i := by
  unfold next prev
  split_ifs <;> omega

theorem next_eq_mod (h : i < len) : next len i = (i + 1) % len := by
  unfold next
  split_ifs with he
  · rw [he, Nat.mod_self]
  · rw [Nat.mod_eq_of_lt (by omega)]

theorem next_mod (hl : 0 < len) : next len ((head + n) % len) = (head + (n + 1)) % len := by
  rw [next_eq_mod (Nat.mod_lt _ hl), Nat.mod_add_mod, Nat.add_assoc]

theorem next_add_mod (h : head < len) : (next len head + i) % len = (head + (i + 1)) % len := by
  rw [next_eq_mod h, Nat.mod_add_mod, Nat.add_assoc, Nat.add_comm 1 i]

/-- The slots of a window that does not fill the ring are different from the one after it. -/
theorem mod_ne_mod (head : ℕ) (hi : i < n) (hn : n < len) :
    (head + i) % len ≠ (head + n) % len := by
  intro h
  have hmod : i % len = n % len := Nat.ModEq.add_left_cancel' head h
  rw [Nat.mod_eq_of_lt (hi.trans hn), Nat.mod_eq_of_lt hn] at hmod
  omega

theorem window_congr (h : ∀ i < n, slot' ((head + i) % len) = slot ((head + i) % len)) :
    window slot' len head n = window slot len head n :=
  List.map_congr_left fun i hi => h i (List.mem_range.mp hi)

theorem window_succ :
    window slot len head (n + 1) = window slot len head n ++ [slot ((head + n) % len)] := by
  simp [window, List.range_succ]

theorem window_add (slot : ℕ → α) (len head n m : ℕ) : window slot len head (n + m) =
      window slot len head n ++ window slot len ((head + n) % len) m := by
  simp only [window, List.range_add, List.map_append, List.map_map, List.append_cancel_left_eq]
  refine List.map_congr_left fun i _ => ?_
  simp only [Function.comp_apply, Nat.mod_add_mod, Nat.add_assoc]

theorem window_of_le (h : head + n ≤ len) :
    window slot len head n = (List.range n).map fun i => slot (head + i) := by
  refine List.map_congr_left fun i hi => ?_
  rw [Nat.mod_eq_of_lt (by rw [List.mem_range] at hi; omega)]

theorem window_cons (h : head < len) :
    window slot len head (n + 1) = slot head :: window slot len (next len head) n := by
  simp only [window, List.range_succ_eq_map, List.map_cons, List.map_map, Nat.add_zero,
    Nat.mod_eq_of_lt h, List.cons.injEq, true_and]
  refine List.map_congr_left fun i _ => ?_
  simp only [Function.comp_apply, next_add_mod h]

theorem window_push_back (hs : slot' ((head + n) % len) = a)
    (hother : ∀ i < n, slot' ((head + i) % len) = slot ((head + i) % len)) :
    window slot' len head (n + 1) = window slot len head n ++ [a] := by
  rw [window_succ, hs, window_congr hother]

theorem mod_ne_prev (h : head < len) (hi : i + 1 < len) : (head + i) % len ≠ prev len head := by
  have hp := prev_lt h
  have hshift : (head + i) % len = (prev len head + (i + 1)) % len := by
    rw [← next_add_mod hp, next_prev h]
  have hne := mod_ne_mod (prev len head) (Nat.succ_pos i) hi
  rw [Nat.add_zero, Nat.mod_eq_of_lt hp] at hne
  rw [hshift]
  exact hne.symm

theorem window_push_front (h : head < len) (hs : slot' (prev len head) = a)
    (hother : ∀ i < n, slot' ((head + i) % len) = slot ((head + i) % len)) :
    window slot' len (prev len head) (n + 1) = a :: window slot len head n := by
  rw [window_cons (prev_lt h), hs, next_prev h, window_congr hother]

end LiteOS.Lib.RingBuffer
