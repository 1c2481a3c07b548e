import Mathlib.Tactic.Common

/-!
# Runs of a machine

A machine starts in one of its initial states and takes steps that are allowed in the state it is
in. An invariant that holds initially and is kept by every allowed step holds in every state that a
run reaches.
-/

namespace LiteOS.Lib

variable {σ α : Type*}

/-- A deterministic step function with the steps that may be taken in each state. -/
structure Machine (σ α : Type*) where
  init : σ → Prop
  allowed : σ → α → Prop
  step : σ → α → σ

namespace Machine

inductive Reaches (M : Machine σ α) : σ → Prop
  | start {s : σ} : M.init s → Reaches M s
  | step {s : σ} (a : α) : Reaches M s → M.allowed s a → Reaches M (M.step s a)

/-- The machine whose runs take only steps that meet a condition. -/
@[simps]
def restrict (M : Machine σ α) (P : σ → α → Prop) : Machine σ α :=
  { M with allowed := fun s a => M.allowed s a ∧ P s a }

instance (M : Machine σ α) (P : σ → α → Prop) (s : σ) (a : α) [Decidable (M.allowed s a)]
    [Decidable (P s a)] : Decidable ((M.restrict P).allowed s a) :=
  inferInstanceAs (Decidable (M.allowed s a ∧ P s a))

def run (M : Machine σ α) (s : σ) (as : List α) : σ := as.foldl M.step s

/-- Every step of the sequence is allowed when it is taken. -/
def Runs (M : Machine σ α) : σ → List α → Prop
  | _, [] => True
  | s, a :: as => M.allowed s a ∧ Runs M (M.step s a) as

instance Runs.decidable (M : Machine σ α) [∀ s a, Decidable (M.allowed s a)] :
    ∀ s as, Decidable (M.Runs s as)
  | _, [] => isTrue trivial
  | s, a :: as =>
    have := Runs.decidable M (M.step s a) as
    inferInstanceAs (Decidable (M.allowed s a ∧ M.Runs (M.step s a) as))

variable {M : Machine σ α} {s : σ}

theorem Reaches.run (h : M.Reaches s) (as : List α) (hr : M.Runs s as) :
    M.Reaches (M.run s as) := by
  induction as generalizing s with
  | nil => exact h
  | cons a _ ih => exact ih (h.step a hr.1) hr.2

theorem Reaches.invariant {I : σ → Prop} (h : M.Reaches s) (init : ∀ s, M.init s → I s)
    (step : ∀ s a, I s → M.allowed s a → I (M.step s a)) : I s := by
  induction h with
  | start hi => exact init _ hi
  | step a _ ha ih => exact step _ a ih ha

end Machine

end LiteOS.Lib
