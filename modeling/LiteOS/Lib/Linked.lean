import LiteOS.Lib.Words
import Mathlib.Data.List.Nodup
import Mathlib.Order.Nat

/-!
# Doubly linked lists threaded through memory

A node is an address; its back pointer is the word at offset `p`, its forward pointer the
word at offset `q`. `Linked m p q prev head l fin` says that the chain entered at `head`
(from `prev`) runs through exactly the nodes of `l` and leaves at `fin`. A list ends in the
null pointer when `fin = 0`.
-/

namespace LiteOS.Lib

variable (m m' : Words) (p q : ℕ)

/-- The chain from `head` to `fin` visits the nodes of `l`, linked both ways. -/
def Linked (prev head : ℕ) : List ℕ → ℕ → Prop
  | [], fin => head = fin
  | a :: l, fin => head = a ∧ a ≠ 0 ∧ m (a + p) = prev ∧ Linked a (m (a + q)) l fin

/-- The node before the end of `l`, or `prev` when `l` is empty. -/
def lastFrom (prev : ℕ) : List ℕ → ℕ
  | [] => prev
  | a :: l => lastFrom a l

namespace Linked

variable {m m' p q} {prev head fin a b prev' : ℕ} {l pre post : List ℕ}

@[simp] theorem nil_iff : Linked m p q prev head [] fin ↔ head = fin := Iff.rfl

@[simp] theorem cons_iff : Linked m p q prev head (a :: l) fin ↔
    head = a ∧ a ≠ 0 ∧ m (a + p) = prev ∧ Linked m p q a (m (a + q)) l fin := Iff.rfl

theorem congr : ∀ {prev head : ℕ} {l : List ℕ},
    (∀ a ∈ l, m' (a + p) = m (a + p) ∧ m' (a + q) = m (a + q)) →
    Linked m p q prev head l fin → Linked m' p q prev head l fin
  | _, _, [], _, h => h
  | _, _, a :: l, hl, ⟨h1, h2, h3, h4⟩ => by
    obtain ⟨hp, hq⟩ := hl a (by simp)
    refine ⟨h1, h2, hp.trans h3, ?_⟩
    rw [hq]
    exact congr (fun b hb => hl b (by simp [hb])) h4

theorem append_iff : Linked m p q prev head (pre ++ post) fin ↔
    ∃ x, Linked m p q prev head pre x ∧ Linked m p q (lastFrom prev pre) x post fin := by
  induction pre generalizing prev head with
  | nil => simp [lastFrom]
  | cons _ _ ih =>
    simp only [List.cons_append, cons_iff, ih]
    constructor
    · rintro ⟨h1, h2, h3, x, hx, hp⟩
      exact ⟨x, ⟨h1, h2, h3, hx⟩, hp⟩
    · rintro ⟨x, ⟨h1, h2, h3, hx⟩, hp⟩
      exact ⟨h1, h2, h3, x, hx, hp⟩

theorem head_eq_zero_iff (h : Linked m p q prev head l 0) : head = 0 ↔ l = [] := by
  cases l with
  | nil => simpa using h
  | cons => simp [h.1, h.2.1]

theorem head_mem (h : Linked m p q prev head l 0) (h0 : head ≠ 0) : head ∈ l := by
  cases l with
  | nil => exact absurd h h0
  | cons => simp [h.1]

/-- Re-entering a chain from another predecessor changes one back pointer. -/
theorem reenter (h : Linked m p q prev head l fin)
    (hfirst : ∀ b, l.head? = some b → m' (b + p) = prev')
    (hp : ∀ b ∈ l.tail, m' (b + p) = m (b + p)) (hq : ∀ b ∈ l, m' (b + q) = m (b + q)) :
    Linked m' p q prev' head l fin := by
  cases l with
  | nil => exact h
  | cons a =>
    obtain ⟨h1, h2, -, h4⟩ := h
    refine ⟨h1, h2, hfirst a rfl, ?_⟩
    rw [hq a (by simp)]
    exact h4.congr fun b hb => ⟨hp b hb, hq b (by simp [hb])⟩

/-- Link a new node in front of a null-terminated list: its two links and the back pointer
of the old first node are written. -/
theorem push (h : Linked m p q prev head l 0) (ha : a ≠ 0) (hap : m' (a + p) = 0)
    (haq : m' (a + q) = head) (hfirst : ∀ b, l.head? = some b → m' (b + p) = a)
    (hp : ∀ b ∈ l.tail, m' (b + p) = m (b + p)) (hq : ∀ b ∈ l, m' (b + q) = m (b + q)) :
    Linked m' p q 0 a (a :: l) 0 :=
  ⟨rfl, ha, hap, haq.symm ▸ h.reenter hfirst hp hq⟩

theorem lastFrom_cases : l = [] ∧ lastFrom prev l = prev ∨ lastFrom prev l ∈ l := by
  induction l generalizing prev with
  | nil => exact .inl ⟨rfl, rfl⟩
  | cons a l ih =>
    rcases @ih a with ⟨rfl, -⟩ | h
    · exact .inr (by simp [lastFrom])
    · exact .inr (by simp [lastFrom, h])

theorem neighbours (h : Linked m p q 0 head (pre ++ a :: post) 0)
    (hnd : (pre ++ a :: post).Nodup) : (head = a ↔ pre = []) ∧ (m (a + q) = 0 ↔ post = []) ∧
      (m (a + q) = 0 ∨ m (a + q) ∈ post) ∧ (pre = [] ∧ m (a + p) = 0 ∨ m (a + p) ∈ pre) := by
  obtain ⟨x, hx, rfl, h0, hback, hpost⟩ := append_iff.mp h
  refine ⟨?_, hpost.head_eq_zero_iff, or_iff_not_imp_left.mpr hpost.head_mem, ?_⟩
  · cases pre with
    | nil => simpa using hx
    | cons b =>
      have hb : b ≠ x := fun e => (List.nodup_cons.mp hnd).1 (by simp [e])
      simpa [hx.1] using hb
  · rw [hback]
    exact lastFrom_cases

/-- Unlink a node: the forward pointer before it and the back pointer behind it are redirected. -/
theorem unlink (h : Linked m p q prev head (pre ++ a :: post) 0)
    (hnd : (prev :: (pre ++ a :: post)).Nodup)
    (hp : ∀ c ∈ pre ++ post, m' (c + p) = if c = m (a + q) then m (a + p) else m (c + p))
    (hq : ∀ c ∈ pre ++ post, m' (c + q) = if c = m (a + p) then m (a + q) else m (c + q)) :
    Linked m' p q prev (if head = a then m (a + q) else head) (pre ++ post) 0 := by
  induction pre generalizing prev head with
  | nil =>
    obtain ⟨rfl, -, hback, hpost⟩ := h
    rw [if_pos rfl]
    refine hpost.reenter (fun b hb => ?_) (fun b hb => ?_) fun b hb => ?_
    · obtain ⟨post, rfl⟩ := List.head?_eq_some_iff.mp hb
      rw [hp b (by simp), if_pos hpost.1.symm, hback]
    · rw [hp b (List.mem_of_mem_tail hb), if_neg]
      rintro rfl
      cases post with
      | nil => cases hb
      | cons c => exact absurd (hpost.1 ▸ hb) (by simp_all)
    · rw [hq b hb, if_neg]
      rintro rfl
      simp [← hback, hb] at hnd
  | cons b pre ih =>
    obtain ⟨rfl, h0, hback, hrest⟩ := h
    obtain ⟨hprev, hnd⟩ := List.nodup_cons.mp hnd
    have hnd' := (List.nodup_cons.mp hnd).2
    obtain ⟨x, hx, rfl, -, hbx, hpost⟩ := append_iff.mp hrest
    have hne : head ∉ pre ++ x :: post := (List.nodup_cons.mp hnd).1
    rw [if_neg (by rintro rfl; simp at hne)]
    refine ⟨rfl, h0, ?_, ?_⟩
    · rw [hp head (by simp), if_neg, hback]
      intro he
      exact hne (by simp [he, hpost.head_mem (he ▸ h0)])
    · have hih := ih hrest hnd (fun c hc => hp c (by simp [hc])) fun c hc => hq c (by simp [hc])
      -- the node before `x` is `head` when nothing is between them
      have hiff : head = m (x + p) ↔ m (head + q) = x := by
        rw [hbx]
        cases pre with
        | nil => simpa [lastFrom] using hx
        | cons c =>
          refine iff_of_false (fun he => hne ?_) fun he => ?_
          · rw [he]
            exact List.mem_append_left _ (lastFrom_cases.resolve_left (by simp))
          · simp [← he, hx.1] at hnd'
      rw [hq head (by simp)]
      simp only [hiff]
      exact hih

end Linked
end LiteOS.Lib
