import Mathlib.Algebra.BigOperators.Group.List.Basic
import Mathlib.Algebra.GroupWithZero.Nat
import Mathlib.Data.List.TakeWhile
import Mathlib.Tactic.Common

/-!
# Fields of a string

The fields of a string are what separators leave of it, the empty pieces apart. A string also has a
part before its first doubled separator.
-/

namespace LiteOS.Lib

open List

variable {α : Type*} [DecidableEq α] {sep : α} {l w : List α} {fs gs hs : List (List α)}

def fields (sep : α) (l : List α) : List (List α) := (l.splitOn sep).filter (· ≠ [])

/-- The string goes on with a separator or is at its end. -/
def AtGap (sep : α) (l : List α) : Prop := l = [] ∨ l.head? = some sep

instance : Decidable (AtGap sep l) := inferInstanceAs (Decidable (_ ∨ _))

@[simp] theorem fields_nil : fields sep [] = [] := by simp [fields]

@[simp] theorem fields_sep_cons : fields sep (sep :: l) = fields sep l := by
  have h := splitOn_append_cons_self (a := sep) [] l
  rw [nil_append, splitOn_nil] at h
  simp [fields, h]

theorem fields_append_sep (hw : w ≠ []) (hsep : sep ∉ w) :
    fields sep (w ++ sep :: l) = w :: fields sep l := by
  have hs := splitOn_eq_singleton (by simpa using hsep)
  simp [fields, splitOn_append_cons_self, hs, hw]

theorem fields_append_of_atGap (hw : w ≠ []) (hsep : sep ∉ w) (hl : AtGap sep l) :
    fields sep (w ++ l) = w :: fields sep l := by
  rcases hl with rfl | hl
  · have hs := splitOn_eq_singleton (by simpa using hsep)
    simp [fields, hs, hw]
  · obtain ⟨l', rfl⟩ : ∃ l', l = sep :: l' := by
      cases l with
      | nil => simp at hl
      | cons a l => exact ⟨l, by simpa using hl⟩
    rw [fields_append_sep hw hsep, fields_sep_cons]

theorem ne_nil_of_mem_fields (h : w ∈ fields sep l) : w ≠ [] := by
  simpa using (mem_filter.mp h).2

/-! ## The first field -/

theorem atGap_dropWhile : AtGap sep (l.dropWhile (· ≠ sep)) := by
  induction l with
  | nil => exact .inl rfl
  | cons a l ih =>
    by_cases ha : a = sep
    · subst ha
      exact .inr (by simp)
    · rw [dropWhile_cons_of_pos (by simpa using ha)]
      exact ih

theorem sep_notMem_takeWhile : sep ∉ l.takeWhile (· ≠ sep) := by
  intro h
  simpa using mem_takeWhile_imp h

theorem takeWhile_eq_nil_iff_atGap : l.takeWhile (· ≠ sep) = [] ↔ AtGap sep l := by
  cases l with
  | nil => simp [AtGap]
  | cons a =>
    by_cases ha : a = sep <;> simp [AtGap]

theorem takeWhile_append_of_atGap (hsep : sep ∉ w) (hl : AtGap sep l) :
    (w ++ l).takeWhile (· ≠ sep) = w := by
  rw [takeWhile_append_of_pos (by
    intro a ha
    simpa using fun e : a = sep => hsep (e ▸ ha)), takeWhile_eq_nil_iff_atGap.mpr hl, append_nil]

theorem fields_eq_cons (h : ¬AtGap sep l) :
    fields sep l = l.takeWhile (· ≠ sep) :: fields sep (l.dropWhile (· ≠ sep)) := by
  conv_lhs => rw [← takeWhile_append_dropWhile (p := (· ≠ sep)) (l := l)]
  exact fields_append_of_atGap (mt takeWhile_eq_nil_iff_atGap.mp h) sep_notMem_takeWhile
    atGap_dropWhile

theorem fields_dropWhile_sep : fields sep (l.dropWhile (· = sep)) = fields sep l := by
  induction l with
  | nil => rfl
  | cons a l ih =>
    by_cases ha : a = sep
    · subst ha
      rw [dropWhile_cons_of_pos (by simp), ih, fields_sep_cons]
    · rw [dropWhile_cons_of_neg (by simpa using ha)]

theorem head?_dropWhile_sep : (l.dropWhile (· = sep)).head? ≠ some sep := by
  induction l with
  | nil => simp
  | cons a =>
    by_cases ha : a = sep
    · rwa [dropWhile_cons_of_pos (by simpa using ha)]
    · rw [dropWhile_cons_of_neg (by simpa using ha)]
      simpa using ha

/-- The first field stands behind the separators at the beginning. -/
theorem head?_fields : (fields sep l).head?.getD [] =
    (l.dropWhile (· = sep)).takeWhile (· ≠ sep) := by
  rw [← fields_dropWhile_sep]
  have hhead := @head?_dropWhile_sep _ _ sep l
  generalize l.dropWhile (· = sep) = l' at hhead ⊢
  by_cases hgap : AtGap sep l'
  · rw [hgap.resolve_right hhead]
    rfl
  · rw [fields_eq_cons hgap]
    rfl

/-! ## Doubled separators -/

def cut (sep : α) : List α → List α
  | [] => []
  | [a] => [a]
  | a :: b :: l => if a = sep ∧ b = sep then [] else a :: cut sep (b :: l)

def stem (sep : α) (l : List α) : List (List α) := fields sep (cut sep l)

@[simp] theorem stem_nil : stem sep ([] : List α) = [] := by simp [stem, cut]

@[simp] theorem stem_doubled : stem sep (sep :: sep :: l) = [] := by simp [stem, cut]

theorem stem_sep_cons (h : l.head? ≠ some sep) : stem sep (sep :: l) = stem sep l := by
  cases l with
  | nil => simp [stem, cut]
  | cons b =>
    have hb : b ≠ sep := by simpa using h
    simp [stem, cut, hb]

theorem cut_append (hsep : sep ∉ w) : cut sep (w ++ l) = w ++ cut sep l := by
  induction w with
  | nil => rfl
  | cons a w ih =>
    rw [mem_cons, not_or] at hsep
    have ha : a ≠ sep := fun e => hsep.1 e.symm
    rw [cons_append, cons_append, ← ih hsep.2]
    cases w ++ l with
    | nil => rfl
    | cons => simp [cut, ha]

theorem atGap_cut (h : AtGap sep l) : AtGap sep (cut sep l) := by
  rcases h with rfl | h
  · exact .inl rfl
  · cases l with
    | nil => simp at h
    | cons a l =>
      obtain rfl : a = sep := by simpa using h
      cases l with
      | nil => exact .inr rfl
      | cons =>
        simp only [cut]
        split_ifs
        · exact .inl rfl
        · exact .inr rfl

theorem stem_append_of_atGap (hw : w ≠ []) (hsep : sep ∉ w) (hl : AtGap sep l) :
    stem sep (w ++ l) = w :: stem sep l := by
  rw [stem, cut_append hsep, fields_append_of_atGap hw hsep (atGap_cut hl), stem]

theorem stem_eq_cons (h : ¬AtGap sep l) :
    stem sep l = l.takeWhile (· ≠ sep) :: stem sep (l.dropWhile (· ≠ sep)) := by
  conv_lhs => rw [← takeWhile_append_dropWhile (p := (· ≠ sep)) (l := l)]
  exact stem_append_of_atGap (mt takeWhile_eq_nil_iff_atGap.mp h) sep_notMem_takeWhile
    atGap_dropWhile

/-! ## Lists of fields that begin another one -/

def width (fs : List (List α)) : ℕ := (fs.map List.length).sum

omit [DecidableEq α] in
@[simp] theorem width_nil : width ([] : List (List α)) = 0 := rfl

omit [DecidableEq α] in
@[simp] theorem width_cons : width (w :: fs) = w.length + width fs := rfl

omit [DecidableEq α] in
theorem width_append : width (fs ++ gs) = width fs + width gs := by
  simp [width]

omit [DecidableEq α] in
theorem width_pos (h : ∀ w ∈ fs, w ≠ []) (hne : fs ≠ []) : 0 < width fs := by
  cases fs with
  | nil => exact absurd rfl hne
  | cons w =>
    have hw := length_pos_iff.mpr (h w mem_cons_self)
    rw [width_cons]
    omega

omit [DecidableEq α] in
/-- Of two beginnings of a list of fields the longer one has more characters. -/
theorem width_lt_width_iff (hne : ∀ w ∈ hs, w ≠ []) (hf : fs <+: hs)
    (hg : gs <+: hs) : width fs < width gs ↔ fs.length < gs.length := by
  have key : ∀ {fs gs : List (List α)}, fs <+: gs → gs <+: hs → fs.length < gs.length →
      width fs < width gs := by
    rintro fs gs ⟨rest, rfl⟩ hg hlt
    have hrest : rest ≠ [] := by
      rintro rfl
      simp at hlt
    have := width_pos (fun w hw => hne w (hg.subset (mem_append_right fs hw))) hrest
    rw [width_append]
    omega
  constructor
  · intro h
    by_contra hc
    rcases prefix_or_prefix_of_prefix hf hg with hp | hp
    · rw [hp.eq_of_length_le (Nat.le_of_not_lt hc)] at h
      exact Nat.lt_irrefl _ h
    · rcases Nat.lt_or_eq_of_le hp.length_le with hlt | heq
      · exact Nat.lt_asymm h (key hp hf hlt)
      · rw [hp.eq_of_length heq] at h
        exact Nat.lt_irrefl _ h
  · intro h
    rcases prefix_or_prefix_of_prefix hf hg with hp | hp
    · exact key hp hg h
    · exact absurd hp.length_le (Nat.not_le.mpr h)

end LiteOS.Lib
