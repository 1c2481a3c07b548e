import Mathlib.Data.List.Nodup
import Mathlib.Order.Nat
import Mathlib.Tactic.Common

/-!
# Lists of segments that tile an interval

`Tiles addr size a l b` says that the segments of `l` follow one another without gap or
overlap from address `a` up to address `b`. Segments are any type with a start address and
a size; every segment is at least `k` long, so distinct segments start at least `k` apart.
-/

namespace LiteOS.Lib

variable {α : Type*} (addr size : α → ℕ) (k : ℕ)

/-- The segments of `l` lie end to end from `a` to `b`, each at least `k` long. -/
def Tiles (a : ℕ) : List α → ℕ → Prop
  | [], b => a = b
  | c :: l, b => addr c = a ∧ k ≤ size c ∧ Tiles (a + size c) l b

namespace Tiles

variable {addr size k} {a b : ℕ} {l pre post : List α} {c d : α}

@[simp] theorem nil_iff : Tiles addr size k a [] b ↔ a = b := Iff.rfl

@[simp] theorem cons_iff : Tiles addr size k a (c :: l) b ↔
    addr c = a ∧ k ≤ size c ∧ Tiles addr size k (a + size c) l b := Iff.rfl

theorem le : ∀ {a : ℕ} {l : List α}, Tiles addr size k a l b → a ≤ b
  | _, [], h => Nat.le_of_eq h
  | _, _ :: _, h => (Nat.le_add_right _ _).trans h.2.2.le

theorem append_iff : Tiles addr size k a (pre ++ post) b ↔
    ∃ x, Tiles addr size k a pre x ∧ Tiles addr size k x post b := by
  induction pre generalizing a with
  | nil => simp
  | cons _ _ ih =>
    simp only [List.cons_append, cons_iff, ih]
    constructor
    · rintro ⟨h, hk, x, hx, hp⟩
      exact ⟨x, ⟨h, hk, hx⟩, hp⟩
    · rintro ⟨x, ⟨h, hk, hx⟩, hp⟩
      exact ⟨h, hk, x, hx, hp⟩

theorem end_unique : ∀ {a : ℕ} {l : List α} {b b' : ℕ}, Tiles addr size k a l b →
    Tiles addr size k a l b' → b = b'
  | _, [], _, _, h, h' => h.symm.trans h'
  | _, _ :: _, _, _, h, h' => end_unique h.2.2 h'.2.2

/-- Cutting at a segment: what precedes it ends where it starts. -/
theorem split_iff : Tiles addr size k a (pre ++ c :: post) b ↔
    Tiles addr size k a pre (addr c) ∧ k ≤ size c ∧ Tiles addr size k (addr c + size c) post b := by
  rw [append_iff]
  constructor
  · rintro ⟨x, hp, rfl, hk, hq⟩
    exact ⟨hp, hk, hq⟩
  · rintro ⟨hp, hk, hq⟩
    exact ⟨addr c, hp, rfl, hk, hq⟩

theorem bounds : ∀ {a : ℕ} {l : List α}, Tiles addr size k a l b → c ∈ l →
    a ≤ addr c ∧ k ≤ size c ∧ addr c + size c ≤ b
  | a, d :: l, h, hc => by
    obtain ⟨hd, hk, ht⟩ := h
    rcases List.mem_cons.mp hc with rfl | hc
    · exact ⟨hd.ge, hk, hd.symm ▸ ht.le⟩
    · obtain ⟨h1, h2, h3⟩ := bounds ht hc
      exact ⟨(Nat.le_add_right _ _).trans h1, h2, h3⟩

theorem before (h : Tiles addr size k a (pre ++ c :: post) b) (hd : d ∈ pre) :
    addr d + size d ≤ addr c := (bounds (split_iff.mp h).1 hd).2.2

theorem after (h : Tiles addr size k a (pre ++ c :: post) b) (hd : d ∈ post) :
    addr c + size c ≤ addr d := (bounds (split_iff.mp h).2.2 hd).1

section

variable (h : Tiles addr size k a l b)
include h

theorem apart (hc : c ∈ l) (hd : d ∈ l) :
    c = d ∨ addr c + size c ≤ addr d ∨ addr d + size d ≤ addr c := by
  obtain ⟨pre, post, rfl⟩ := List.append_of_mem hc
  rcases List.mem_append.mp hd with hd | hd
  · exact .inr (.inr (h.before hd))
  · rcases List.mem_cons.mp hd with rfl | hd
    · exact .inl rfl
    · exact .inr (.inl (h.after hd))

theorem eq_of_addr (hk : 0 < k) (hc : c ∈ l) (hd : d ∈ l) (he : addr c = addr d) : c = d := by
  have h1 := (h.bounds hc).2.1
  have h2 := (h.bounds hd).2.1
  rcases h.apart hc hd with hcd | hcd | hcd
  · exact hcd
  · omega
  · omega

theorem addr_ne (hk : 0 < k) (hc : c ∈ l) (hd : d ∈ l)
    (hne : c ≠ d) : addr c ≠ addr d := fun he => hne (h.eq_of_addr hk hc hd he)

end

theorem notMem_of_split (h : Tiles addr size k a (pre ++ c :: post) b) (hk : 0 < k) :
    c ∉ pre ∧ c ∉ post := by
  have hs := (split_iff.mp h).2.1
  constructor
  · intro hc
    have := h.before hc
    omega
  · intro hc
    have := h.after hc
    omega

end Tiles

section Backlinks

variable {addr} {m m' : ℕ → ℕ}

/-- Every segment's first word holds the address of the segment before it; the word at `b`
holds that of the last one. -/
def Backlinks (addr : α → ℕ) (m : ℕ → ℕ) (p : ℕ) : List α → ℕ → Prop
  | [], b => m b = p
  | c :: l, b => m (addr c) = p ∧ Backlinks addr m (addr c) l b

/-- The address of the last segment, or `p` when there is none. -/
def lastAddr (addr : α → ℕ) (p : ℕ) : List α → ℕ
  | [] => p
  | c :: l => lastAddr addr (addr c) l

namespace Backlinks

variable {p b : ℕ} {l pre post : List α} {c d : α}

@[simp] theorem cons_iff : Backlinks addr m p (c :: l) b ↔
    m (addr c) = p ∧ Backlinks addr m (addr c) l b := Iff.rfl

/-- Backlinks read only the first words of the segments and the final word. -/
theorem congr : ∀ {p : ℕ} {l : List α}, (∀ c ∈ l, m' (addr c) = m (addr c)) → m' b = m b →
    Backlinks addr m p l b → Backlinks addr m' p l b
  | _, [], _, hb, h => hb.trans h
  | _, c :: _, hl, hb, h =>
    ⟨(hl c (by simp)).trans h.1, congr (fun d hd => hl d (by simp [hd])) hb h.2⟩

theorem last_eq : ∀ {p : ℕ} {l : List α}, Backlinks addr m p l b → m b = lastAddr addr p l
  | _, [], h => h
  | _, _ :: l, h => last_eq (l := l) h.2

variable {size : α → ℕ} {k a p' : ℕ}

theorem first_eq (ht : Tiles addr size k a l b) (h : Backlinks addr m p l b) : m a = p := by
  cases l with
  | nil => exact (show a = b from ht) ▸ h
  | cons => exact ht.1 ▸ h.1

theorem append_iff (ht : Tiles addr size k a post b) : Backlinks addr m p (pre ++ post) b ↔
      Backlinks addr m p pre a ∧ Backlinks addr m (lastAddr addr p pre) post b := by
  induction pre generalizing p with
  | nil =>
    refine ⟨fun h => ⟨first_eq ht h, h⟩, fun h => h.2⟩
  | cons _ _ ih =>
    simp only [List.cons_append, cons_iff, ih, and_assoc, lastAddr]

/-- Entering a tiling from another predecessor changes only the word at its left end. -/
theorem reenter (ht : Tiles addr size k a l b) (hk : 0 < k) (h : Backlinks addr m p l b)
    (ha : m' a = p') (hm : ∀ x, a < x → x ≤ b → m' x = m x) : Backlinks addr m' p' l b := by
  cases l with
  | nil => exact (show a = b from ht) ▸ ha
  | cons =>
    obtain ⟨hc, hs, ht⟩ := ht
    refine ⟨hc ▸ ha, h.2.congr (fun d hd => ?_) ?_⟩
    · have := ht.bounds hd
      exact hm _ (by omega) (by omega)
    · have := ht.le
      exact hm _ (by omega) (by omega)

end Backlinks
end Backlinks
end LiteOS.Lib
