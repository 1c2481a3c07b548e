import LiteOS.Lib.Runs
import Mathlib.Data.Nat.Notation

/-!
# One-time initialisation

The model of `pthread_once` on one control object. A call is split where interrupts are enabled: the
tests of its arguments, the exchange of the control word, and the call of `initRoutine`, which may
be preempted for as long as it runs. Calls are told apart by numbers; a call that `initRoutine`
makes itself is one more call.
-/

namespace LiteOS.Posix

open Lib

/-- What `pthread_once` answers. -/
inductive OnceRet
  | zero
  | einval
deriving DecidableEq, Repr

/-- Where a call of `pthread_once` is. -/
inductive OncePoint
  /-- Not begun. -/
  | out
  /-- About to lock the interrupts. -/
  | entered
  /-- The interrupts are restored and `old` was read. -/
  | exchanged (old : ℕ)
  /-- In `initRoutine`. -/
  | inRoutine
  | returned (ret : OnceRet)
deriving DecidableEq, Repr

/-- The control word and the calls. Not in the source: how often `initRoutine` was called and how
often it returned. -/
structure Once where
  onceControl : ℕ := 0
  point : ℕ → OncePoint := fun _ => .out
  called : ℕ := 0
  finished : ℕ := 0

inductive OnceOp
  /-- Call number `call` begins, in a pthread or not and with null arguments or not. -/
  | pthreadOnce (call : ℕ) (isPthread controlNull routineNull : Bool)
  /-- Call number `call` goes on. -/
  | advance (call : ℕ)
deriving DecidableEq, Repr

namespace Once

def goTo (s : Once) (call : ℕ) (p : OncePoint) : Once :=
  { s with point := Function.update s.point call p }

def advanceAt (s : Once) (call : ℕ) : OncePoint → Once
  | .entered => { s with onceControl := 1 }.goTo call (.exchanged s.onceControl)
  | .exchanged old =>
    if old = 0 then { s with called := s.called + 1 }.goTo call .inRoutine
    else s.goTo call (.returned .zero)
  | .inRoutine => { s with finished := s.finished + 1 }.goTo call (.returned .zero)
  | .out | .returned _ => s

def exec (s : Once) : OnceOp → Once
  | .pthreadOnce call isPthread controlNull routineNull =>
    if !isPthread then s.goTo call (.returned .einval)
    else if controlNull || routineNull then s.goTo call (.returned .einval)
    else s.goTo call .entered
  | .advance call => s.advanceAt call (s.point call)

def Enabled (s : Once) : OnceOp → Prop
  | .pthreadOnce call _ _ _ => s.point call = .out
  | .advance _ => True

instance (s : Once) : ∀ op, Decidable (Enabled s op)
  | .pthreadOnce _ _ _ _ => inferInstanceAs (Decidable (_ = _))
  | .advance _ => inferInstanceAs (Decidable True)

def machine : Machine Once OnceOp where
  init s := s = {}
  allowed := Enabled
  step := exec

instance (s : Once) (op : OnceOp) : Decidable (machine.allowed s op) :=
  inferInstanceAs (Decidable (Enabled s op))

/-- No call exchanges the control word between the first exchange and the return of
`initRoutine`. -/
def Careful (s : Once) : OnceOp → Prop
  | .pthreadOnce _ _ _ _ => True
  | .advance call => s.point call = .entered → s.onceControl ≠ 0 → s.finished ≠ 0

instance (s : Once) : ∀ op, Decidable (Careful s op)
  | .pthreadOnce _ _ _ _ => inferInstanceAs (Decidable True)
  | .advance _ => inferInstanceAs (Decidable (_ → _))

variable {s : Once} {op : OnceOp} {call c d : ℕ} {p : OncePoint} {n : ℕ}

@[simp] theorem goTo_called : (s.goTo call p).called = s.called := rfl
@[simp] theorem goTo_finished : (s.goTo call p).finished = s.finished := rfl
@[simp] theorem goTo_self : (s.goTo call p).point call = p := Function.update_self ..

theorem goTo_of_ne (h : d ≠ call) : (s.goTo call p).point d = s.point d :=
  Function.update_of_ne h _ _

/-- A call that found the control word at 0 and whose `initRoutine` has not returned. -/
def Claims (p : OncePoint) : Prop := p = .exchanged 0 ∨ p = .inRoutine

inductive Stage (s : Once) : Prop
  /-- Nobody has claimed it. -/
  | fresh (control : s.onceControl = 0) (called : s.called = 0) (finished : s.finished = 0)
      (others : ∀ d, ¬Claims (s.point d))
  /-- One call has claimed it and `initRoutine` has not returned. -/
  | claimed (c : ℕ) (control : s.onceControl = 1) (finished : s.finished = 0)
      (claim : s.point c = .exchanged 0 ∧ s.called = 0 ∨ s.point c = .inRoutine ∧ s.called = 1)
      (others : ∀ d, d ≠ c → ¬Claims (s.point d))
  /-- `initRoutine` has returned. -/
  | settled (control : s.onceControl = 1) (called : s.called = 1) (finished : s.finished = 1)
      (others : ∀ d, ¬Claims (s.point d))

/-- A call that has gone past the control word without claiming the initialisation. -/
def Passed (p : OncePoint) : Prop := (∃ old, old ≠ 0 ∧ p = .exchanged old) ∨ p = .returned .zero

section

variable (h : Stage s)
include h

/-- A call moves to a point from which it does not claim the initialisation. -/
theorem Stage.goTo (hc : ¬Claims (s.point call)) (hp : ¬Claims p) : Stage (s.goTo call p) := by
  have hothers : ∀ d, ¬Claims (s.point d) → ¬Claims ((s.goTo call p).point d) := fun d hd => by
    by_cases hdc : d = call
    · rw [hdc, goTo_self]
      exact hp
    · rwa [goTo_of_ne hdc]
  cases h with
  | fresh control called finished others =>
    exact .fresh control called finished fun d => hothers d (others d)
  | claimed c control finished claim others =>
    have hne : c ≠ call := by
      rintro rfl
      exact hc (claim.imp (·.1) (·.1))
    refine .claimed c control finished ?_ fun d hd => hothers d (others d hd)
    rwa [goTo_of_ne hne]
  | settled control called finished others =>
    exact .settled control called finished fun d => hothers d (others d)

theorem Stage.exchange (hc : s.point call = .entered) :
    Stage ({ s with onceControl := 1 }.goTo call (.exchanged s.onceControl)) := by
  have hnot : ¬Claims (s.point call) := by simp [Claims, hc]
  cases h with
  | fresh control called finished others =>
    refine .claimed call rfl finished (.inl ⟨by rw [control, goTo_self], called⟩) fun d hd => ?_
    rw [goTo_of_ne hd]
    exact others d
  | claimed c control finished claim others =>
    have hstage : Stage (s.goTo call (.exchanged 1)) :=
      Stage.goTo (.claimed c control finished claim others) hnot (by simp [Claims])
    rw [control]
    exact control ▸ hstage
  | settled control called finished others =>
    have hstage : Stage (s.goTo call (.exchanged 1)) :=
      Stage.goTo (.settled control called finished others) hnot (by simp [Claims])
    rw [control]
    exact control ▸ hstage

theorem Stage.claim_cases (hc : Claims (s.point call)) :
    s.onceControl = 1 ∧ s.finished = 0 ∧ (∀ d, d ≠ call → ¬Claims (s.point d)) ∧
      (s.point call = .exchanged 0 ∧ s.called = 0 ∨ s.point call = .inRoutine ∧ s.called = 1) := by
  cases h with
  | fresh _ _ _ others => exact absurd hc (others call)
  | settled _ _ _ others => exact absurd hc (others call)
  | claimed c control finished claim others =>
    by_cases hcc : call = c
    · subst hcc
      exact ⟨control, finished, others, claim⟩
    · exact absurd hc (others call hcc)

theorem Stage.advanceAt : Stage (s.advanceAt call (s.point call)) := by
  cases hp : s.point call with
  | out => exact h
  | returned => exact h
  | entered => exact h.exchange hp
  | exchanged old =>
    by_cases hold : old = 0
    · subst hold
      obtain ⟨control, finished, others, claim⟩ := h.claim_cases (.inl hp)
      have hcalled := claim.elim (·.2) fun hr => by simp [hp] at hr
      refine .claimed call control finished (.inr ⟨goTo_self, ?_⟩) fun d hd => ?_
      · simp [Once.advanceAt, hcalled]
      · simp only [Once.advanceAt, if_true, goTo_of_ne hd]
        exact others d hd
    · rw [Once.advanceAt, if_neg hold]
      exact h.goTo (by simp [Claims, hp, hold]) (by simp [Claims])
  | inRoutine =>
    obtain ⟨control, finished, others, claim⟩ := h.claim_cases (.inr hp)
    have hcalled := claim.elim (fun hr => by simp [hp] at hr) (·.2)
    refine .settled control hcalled (by simp [Once.advanceAt, finished]) fun d => ?_
    by_cases hd : d = call
    · simp [Once.advanceAt, hd, Claims]
    · simp only [Once.advanceAt, goTo_of_ne hd]
      exact others d hd

theorem Stage.exec (ha : Enabled s op) : Stage (s.exec op) := by
  cases op with
  | pthreadOnce call =>
    have hout : ¬Claims (s.point call) := by simp [Claims, show s.point call = .out from ha]
    simp only [Once.exec]
    split_ifs <;> exact h.goTo hout (by simp [Claims])
  | advance => exact h.advanceAt

end

/-- Nobody has gone past a control word whose initialisation has not finished. -/
def Early (s : Once) : Prop := s.finished = 0 → ∀ d, ¬Passed (s.point d)

theorem Early.goTo (h : Early s) (hp : ¬Passed p) : Early (s.goTo call p) := by
  intro hf d
  by_cases hd : d = call
  · rw [hd, goTo_self]
    exact hp
  · rw [goTo_of_ne hd]
    exact h hf d

theorem Early.exec (h : Early s) (hc : Careful s op) : Early (s.exec op) := by
  cases op with
  | pthreadOnce =>
    simp only [Once.exec]
    split_ifs <;> exact h.goTo (by simp [Passed])
  | advance call =>
    cases hp : s.point call with
    | out => simpa only [Once.exec, hp, Once.advanceAt] using h
    | returned => simpa only [Once.exec, hp, Once.advanceAt] using h
    | inRoutine => exact fun hf => by simp [Once.exec, hp, Once.advanceAt] at hf
    | entered =>
      simp only [Once.exec, hp]
      intro hf
      have hcontrol : s.onceControl = 0 := by
        by_contra hne
        exact hc hp hne hf
      refine Early.goTo h ?_ hf
      simp [Passed, hcontrol]
    | exchanged old =>
      by_cases hold : old = 0
      · simp only [Once.exec, hp, Once.advanceAt, if_pos hold]
        exact Early.goTo h (by simp [Passed])
      · intro hf
        simp only [Once.exec, hp, Once.advanceAt, if_neg hold] at hf
        exact absurd (.inl ⟨old, hold, hp⟩) (h hf call)

/-- In a run in which no call meets an initialisation in progress, `initRoutine` is called at most
once, and a call that has returned 0 did so after it was called and had returned. -/
theorem finished_of_returned (h : (machine.restrict Careful).Reaches s) :
    s.called ≤ 1 ∧ ∀ call, s.point call = .returned .zero → s.called = 1 ∧ s.finished = 1 := by
  have hinv : Stage s ∧ Early s := by
    refine h.invariant (I := fun s => Stage s ∧ Early s) ?_ ?_
    · rintro s rfl
      exact ⟨.fresh rfl rfl rfl (by simp [Claims]), fun _ d => by simp [Passed]⟩
    · rintro s op ⟨hs, he⟩ ⟨ha, hc⟩
      exact ⟨hs.exec ha, he.exec hc⟩
  obtain ⟨hs, he⟩ := hinv
  have hpassed := fun call hcall hf => he hf call (.inr hcall)
  cases hs with
  | fresh _ _ finished => exact ⟨by omega, fun c hc => absurd finished (hpassed c hc)⟩
  | claimed c _ finished claim =>
    refine ⟨?_, fun c hc => absurd finished (hpassed c hc)⟩
    rcases claim with ⟨-, h0⟩ | ⟨-, h1⟩ <;> omega
  | settled _ called finished => exact ⟨by omega, fun _ _ => ⟨called, finished⟩⟩

/-- A call after the initialisation returns 0. -/
theorem finished_of_returned_second_call : ∃ s, (machine.restrict Careful).Reaches s ∧
    s.point 1 = .returned .zero ∧ s.called = 1 ∧ s.finished = 1 := by
  have hr : (machine.restrict Careful).Reaches (machine.run {}
      [.pthreadOnce 0 true false false, .advance 0, .advance 0, .advance 0,
        .pthreadOnce 1 true false false, .advance 1, .advance 1]) :=
    (Machine.Reaches.start rfl).run _ (by decide)
  exact ⟨_, hr, rfl, (finished_of_returned hr).2 1 rfl⟩

/-- The second call returns 0 while the first one is still in `initRoutine`. -/
theorem returned_during_initRoutine : ∃ s, machine.Reaches s ∧
    s.point 0 = .inRoutine ∧ s.finished = 0 ∧ s.point 1 = .returned .zero := by
  have hr : machine.Reaches (machine.run {}
      [.pthreadOnce 0 true false false, .advance 0, .advance 0,
        .pthreadOnce 1 true false false, .advance 1, .advance 1]) :=
    (Machine.Reaches.start rfl).run _ (by decide)
  exact ⟨_, hr, rfl, rfl, rfl⟩

end Once

end LiteOS.Posix
