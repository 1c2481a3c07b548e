import Mathlib.Data.List.Nodup
import Mathlib.Logic.Function.Basic
import Mathlib.Tactic.Common

/-!
# Lists that share one link node per member

An intrusive doubly linked list threads through a node stored in its members. When a member has one
such node, it can be in at most one of the lists, and unlinking it needs no mention of which. A
family of lists is a function from list heads; `At r a o` says that `a` is exactly in the list `o`.
-/

namespace LiteOS.Lib

open Function

abbrev Rings (ι α : Type*) := ι → List α

namespace Rings

variable {ι α : Type*} {r : Rings ι α} {a b : α} {i j : ι} {o : Option ι}

def Nodup (r : Rings ι α) : Prop := ∀ i, (r i).Nodup

/-- The member `a` is in the list `o` and in no other. -/
def At (r : Rings ι α) (a : α) (o : Option ι) : Prop := ∀ i, a ∈ r i ↔ o = some i

theorem At.mem (h : r.At a (some i)) : a ∈ r i := (h i).mpr rfl

theorem At.notMem (h : r.At a none) (i : ι) : a ∉ r i := fun hm => by simpa using (h i).mp hm

theorem At.eq (h : r.At a o) (hm : a ∈ r i) : o = some i := (h i).mp hm

/-- The member after `a`, if `a` is not the last one. -/
def next [DecidableEq α] (r : Rings ι α) (i : ι) (a : α) : Option α :=
  ((r i).dropWhile (· ≠ a)).tail.head?

theorem next_eq [DecidableEq α] {l m : List α} (h : r.Nodup) (hl : r i = l ++ a :: m) :
    r.next i a = m.head? := by
  have hn : (l ++ a :: m).Nodup := hl ▸ h i
  have hne : ∀ b ∈ l, b ≠ a := fun b hb => (List.nodup_append.mp hn).2.2 b hb a (by simp)
  have hdrop : (l ++ a :: m).dropWhile (· ≠ a) = a :: m := by
    rw [List.dropWhile_append_of_pos (by simpa using hne)]
    simp
  rw [next, hl, hdrop, List.tail_cons]

section Unlink

variable [DecidableEq α]

/-- Take `a` out of whatever list it is in. -/
def unlink (r : Rings ι α) (a : α) : Rings ι α := fun i => (r i).erase a

theorem mem_unlink (h : r.Nodup) : b ∈ r.unlink a i ↔ b ≠ a ∧ b ∈ r i :=
  (h i).mem_erase_iff

theorem mem_unlink_of_ne (h : b ≠ a) : b ∈ r.unlink a i ↔ b ∈ r i :=
  List.mem_erase_of_ne h

theorem unlink_eq_self (h : a ∉ r i) : r.unlink a i = r i := List.erase_of_not_mem h

theorem Nodup.unlink (h : r.Nodup) (a : α) : (r.unlink a).Nodup := fun i => (h i).erase a

theorem At.unlink (h : r.Nodup) : (r.unlink a).At a none := fun i => by simp [mem_unlink h]

end Unlink

section Add

variable [DecidableEq ι]

/-- Make `a` the first member of the list `i`. -/
def addHead (r : Rings ι α) (i : ι) (a : α) : Rings ι α := update r i (a :: r i)

/-- Make `a` the last member of the list `i`. -/
def addTail (r : Rings ι α) (i : ι) (a : α) : Rings ι α := update r i (r i ++ [a])

@[simp] theorem addHead_self : r.addHead i a i = a :: r i := update_self ..

@[simp] theorem addTail_self : r.addTail i a i = r i ++ [a] := update_self ..

theorem addHead_of_ne (h : j ≠ i) : r.addHead i a j = r j := update_of_ne h ..

theorem addTail_of_ne (h : j ≠ i) : r.addTail i a j = r j := update_of_ne h ..

theorem mem_addHead : b ∈ r.addHead i a j ↔ b ∈ r j ∨ (b = a ∧ j = i) := by
  by_cases h : j = i
  · subst h
    simp [or_comm]
  · simp [addHead_of_ne h, h]

theorem mem_addTail : b ∈ r.addTail i a j ↔ b ∈ r j ∨ (b = a ∧ j = i) := by
  by_cases h : j = i
  · subst h
    simp
  · simp [addTail_of_ne h, h]

theorem Nodup.addHead (h : r.Nodup) (ha : a ∉ r i) : (r.addHead i a).Nodup := fun j => by
  by_cases hj : j = i
  · subst hj
    rw [addHead_self]
    exact List.nodup_cons.mpr ⟨ha, h j⟩
  · rw [addHead_of_ne hj]
    exact h j

theorem Nodup.addTail (h : r.Nodup) (ha : a ∉ r i) : (r.addTail i a).Nodup := fun j => by
  by_cases hj : j = i
  · subst hj
    rw [addTail_self]
    exact (h j).append (List.nodup_singleton a) (by simpa using ha)
  · rw [addTail_of_ne hj]
    exact h j

theorem At.addHead (h : r.At a none) : (r.addHead i a).At a (some i) := fun j => by
  rw [mem_addHead]
  simpa [h.notMem j] using eq_comm

theorem At.addTail (h : r.At a none) : (r.addTail i a).At a (some i) := fun j => by
  rw [mem_addTail]
  simpa [h.notMem j] using eq_comm

end Add

end Rings

end LiteOS.Lib
