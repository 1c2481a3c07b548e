import Mathlib.Data.Finset.Card

/-!
# Counting members with a property

How the number of members of a finite set that have a property changes when the property changes at
one member.
-/

namespace LiteOS.Lib

variable {α : Type*} [DecidableEq α] {s : Finset α} {p q : α → Prop} [DecidablePred p]
  [DecidablePred q] {a : α}

theorem card_filter_add_one (ha : a ∈ s) (hp : ¬p a) (hq : q a)
    (h : ∀ b ∈ s, b ≠ a → (q b ↔ p b)) : (s.filter q).card = (s.filter p).card + 1 := by
  have hins : s.filter q = insert a (s.filter p) := by
    ext b
    by_cases hb : b = a
    · subst hb
      simp [ha, hq]
    · by_cases hs : b ∈ s
      · simp [hb, h b hs hb]
      · simp [hs, hb]
  rw [hins, Finset.card_insert_of_notMem (by simp [hp])]

end LiteOS.Lib
