import Mathlib.Logic.Function.Basic
import Mathlib.Tactic.Common

/-!
# Null-terminated chains

A singly linked list is a pointer to its first node and a successor for every node. A chain that
ends visits no node twice.
-/

namespace LiteOS.Lib

variable {α : Type*}

/-- Following `next` from `head` visits the nodes of the list and ends. -/
def Chain (next : α → Option α) : Option α → List α → Prop
  | head, [] => head = none
  | head, a :: l => head = some a ∧ Chain next (next a) l

namespace Chain

variable {next next' : α → Option α} {head : Option α} {a : α} {l l' : List α}

theorem unique : ∀ {head : Option α} {l l' : List α}, Chain next head l → Chain next head l' →
    l = l'
  | _, [], [], _, _ => rfl
  | _, [], _ :: _, h, h' => by cases h.symm.trans h'.1
  | _, _ :: _, [], h, h' => by cases h'.symm.trans h.1
  | _, a :: l, b :: l', h, h' => by
    obtain rfl : a = b := Option.some.inj (h.1.symm.trans h'.1)
    rw [unique h.2 h'.2]

theorem suffix : ∀ {head : Option α} {l : List α}, Chain next head l → a ∈ l →
    ∃ pre post, l = pre ++ a :: post ∧ Chain next (some a) (a :: post)
  | _, b :: l, h, ha => by
    rcases List.mem_cons.mp ha with rfl | ha
    · exact ⟨[], l, rfl, rfl, h.2⟩
    · obtain ⟨pre, post, rfl, hc⟩ := suffix h.2 ha
      exact ⟨b :: pre, post, rfl, hc⟩

theorem nodup : ∀ {head : Option α} {l : List α}, Chain next head l → l.Nodup
  | _, [], _ => List.nodup_nil
  | head, a :: l, h => by
    refine List.nodup_cons.mpr ⟨fun ha => ?_, nodup h.2⟩
    -- the chain from the second visit of `a` on is shorter than the one from the first
    obtain ⟨pre, post, hl, hc⟩ := suffix h.2 ha
    have hlen := congrArg List.length (unique (h.1 ▸ h : Chain next (some a) (a :: l)) hc)
    rw [hl] at hlen
    simp at hlen
    omega

theorem congr : ∀ {head : Option α} {l : List α}, Chain next head l →
    (∀ a ∈ l, next' a = next a) → Chain next' head l
  | _, [], h, _ => h
  | _, a :: l, h, hn => ⟨h.1, by
      rw [hn a (by simp)]
      exact congr h.2 fun b hb => hn b (List.mem_cons_of_mem _ hb)⟩

theorem push (h : Chain next head l) (ha : a ∉ l) (hn : next' a = head)
    (ho : ∀ b ≠ a, next' b = next b) : Chain next' (some a) (a :: l) :=
  ⟨rfl, hn ▸ h.congr fun b hb => ho b fun e => ha (e ▸ hb)⟩

end Chain

end LiteOS.Lib
