import LiteOS.Ipc.Event
import Mathlib.Data.Fintype.Basic

/-!
# Condition variables

The model of `pthread_cond_wait`, `pthread_cond_signal` and `pthread_cond_broadcast` on one
condition variable that was initialised. The calls are cut where the tasks can be switched: after
the counter was changed under `cond->mutex`, after the user mutex was released, and in
`LOS_EventRead`. Nothing is assumed about the user mutexes: the calls may use different ones.
-/

namespace LiteOS.Posix

open Lib Kernel Function

def broadcastEvent : BitVec 32 := 1#32

/-- The mask that `pthread_cond_wait` passes to `LOS_EventRead`. -/
def condEventMask : BitVec 32 := 0x0f#32

/-- Where a task is with respect to the condition variable. -/
inductive CondPhase
  | idle
  /-- in `pthread_cond_wait`, before it has released the user mutex -/
  | counted
  /-- before `LOS_EventRead` -/
  | released
  /-- in the list of the event -/
  | blocked
  /-- before it looks at the event again -/
  | woken
  /-- in `pthread_cond_signal` or `pthread_cond_broadcast`, before `LOS_EventWrite` -/
  | writing
deriving DecidableEq, Repr

namespace CondPhase

/-- The task was counted, and will block or is blocked unless an event comes. -/
def waiting : CondPhase → Bool
  | counted | released | blocked => true
  | _ => false

/-- The task has released the user mutex in `pthread_cond_wait`. -/
def inWait : CondPhase → Bool
  | released | blocked | woken => true
  | _ => false

end CondPhase

/-- `pthread_cond_t` and where the tasks are. Not in the source: for each task that signals or
broadcasts, the tasks that had released the user mutex before it began, and the tasks for which such
a call has done what it does. -/
structure CondVar (τ : Type*) where
  count : ℤ := 0
  event : BitVec 32 := 0#32
  phase : τ → CondPhase := fun _ => .idle
  covered : τ → τ → Bool := fun _ _ => false
  promised : τ → Bool := fun _ => false

namespace CondVar

variable {τ : Type*} [DecidableEq τ]

section

variable (s : CondVar τ) (t : τ)

def setPhase (phase : CondPhase) : CondVar τ :=
  { s with phase := update s.phase t phase }

/-- `LOS_EventPoll` by `LOS_EventRead`: the word afterwards and the result. -/
def poll : BitVec 32 × BitVec 32 :=
  losEventPoll s.event condEventMask (losWaitmodeOr ||| losWaitmodeClr)

/-- The task returns from `pthread_cond_wait`. -/
def leave : CondVar τ :=
  { s.setPhase t .idle with
    covered := fun c u => if u = t then false else s.covered c u
    promised := update s.promised t false }

/-- `cond->count++`, on an `int` of 32 bits -/
def wait : CondVar τ :=
  { s.setPhase t .counted with count := (s.count + 1).bmod (2 ^ 32) }

/-- `LOS_EventRead` of the task, which blocks or returns. -/
def eventRead : CondVar τ :=
  if s.poll.2 = 0#32 then s.setPhase t .blocked
  else { s.leave t with event := s.poll.1 }

/-- `LOS_EventRead` of the task after it was woken. Both results mean success. -/
def eventReadReturn : CondVar τ :=
  { s.leave t with event := s.poll.1 }

/-- `pthread_cond_signal` or `pthread_cond_broadcast` up to `LOS_EventWrite`. With a counter that is
0 the call is over. -/
def start (c : τ) (broadcast : Bool) : CondVar τ :=
  if s.count > 0 then
    { s.setPhase c .writing with
      count := if broadcast then 0 else s.count - 1
      covered := update s.covered c fun t => (s.phase t).inWait }
  else { s with promised := fun t => s.promised t || (s.phase t).inWait }

/-- `LOS_EventWrite(&(cond->event), BROADCAST_EVENT)`: the mask of every task in the list has the
event. -/
def eventWrite (c : τ) : CondVar τ :=
  { s with
    event := s.event ||| broadcastEvent
    phase := fun t => if t = c then .idle else if s.phase t = .blocked then .woken else s.phase t
    covered := update s.covered c fun _ => false
    promised := fun t => s.promised t || s.covered c t }

inductive Op (τ : Type*)
  | wait (t : τ)
  | release (t : τ)
  | read (t : τ)
  | readReturn (t : τ)
  | start (c : τ) (broadcast : Bool)
  | write (c : τ)

def allowed : Op τ → Prop
  | .wait t | .start t _ => s.phase t = .idle
  | .release t => s.phase t = .counted
  | .read t => s.phase t = .released
  | .readReturn t => s.phase t = .woken
  | .write c => s.phase c = .writing

def step : Op τ → CondVar τ
  | .wait t => s.wait t
  | .release t => s.setPhase t .released
  | .read t => s.eventRead t
  | .readReturn t => s.eventReadReturn t
  | .start c broadcast => s.start c broadcast
  | .write c => s.eventWrite c

def machine : Machine (CondVar τ) (Op τ) where
  init s := s = {}
  allowed := allowed
  step := step

/-- After a signal or a broadcast, none of the tasks that had released the user mutex before it
began is blocked or has still to read the event. -/
def Sound : Prop :=
  ∀ t, s.promised t → s.phase t ≠ .released ∧ s.phase t ≠ .blocked

end

variable [Fintype τ]

def waiters (s : CondVar τ) : ℕ := (Finset.univ.filter fun t => (s.phase t).waiting).card

/-- The tasks that have counted themselves and have still to read the event. -/
def coming (s : CondVar τ) : ℕ :=
  (Finset.univ.filter fun t => s.phase t = .counted ∨ s.phase t = .released).card

/-- The counter has room for another task. A signal or a broadcast that begins while another one has
still to write the event finds a counter above 0, or no task that waits for it. When the event is
written, no task that this call has to wake is on its way to read it, and the counter covers those
on their way if no other call has still to write. -/
def Careful (s : CondVar τ) : Op τ → Prop
  | .wait _ => s.count + 1 < 2 ^ 31
  | .start _ _ => (∃ t, s.phase t = .writing) →
      0 < s.count ∨ ∀ t, s.phase t ≠ .released ∧ s.phase t ≠ .blocked
  | .write c => (∀ t, s.covered c t → s.phase t ≠ .released) ∧
      ((∀ t ≠ c, s.phase t ≠ .writing) → s.coming ≤ s.count)
  | _ => True

/-- What every step keeps: the counter covers the waiters except between a change of it and the
write that follows. -/
structure Inv (s : CondVar τ) : Prop where
  nonneg : 0 ≤ s.count
  count : (∀ t, s.phase t ≠ .writing) → s.waiters ≤ s.count
  covered : ∀ c t, s.covered c t → (s.phase t).inWait
  promised : ∀ t, s.promised t → s.phase t = .woken

variable {s : CondVar τ}

omit [DecidableEq τ] in
theorem Inv.sound (h : s.Inv) : s.Sound := fun t ht => by
  rw [h.promised t ht]
  exact ⟨nofun, nofun⟩

omit [DecidableEq τ] in
theorem Inv.init : Inv ({} : CondVar τ) where
  nonneg := le_rfl
  count _ := by simp [waiters, CondPhase.waiting]
  covered _ _ h := by simp at h
  promised _ h := by simp at h

variable {t : τ} {phase : CondPhase}

theorem waiters_setPhase_of_eq (h : phase.waiting = (s.phase t).waiting) :
    (s.setPhase t phase).waiters = s.waiters := by
  refine congrArg Finset.card (Finset.filter_congr fun u _ => ?_)
  by_cases hu : u = t
  · subst hu
    simp [setPhase, h]
  · simp [setPhase, hu]

theorem waiters_setPhase_add_one (hold : (s.phase t).waiting = false) (hnew : phase.waiting)
    : (s.setPhase t phase).waiters = s.waiters + 1 := by
  refine card_filter_add_one (Finset.mem_univ t) (by simp [hold])
    (by simpa [setPhase] using hnew) ?_
  intro u _ hu
  simp [setPhase, hu]

theorem waiters_setPhase_le (hnew : phase.waiting = false) :
    (s.setPhase t phase).waiters ≤ s.waiters := by
  refine Finset.card_le_card fun u hu => ?_
  rw [Finset.mem_filter] at hu ⊢
  by_cases hut : u = t
  · subst hut
    simp [setPhase, hnew] at hu
  · simpa [setPhase, hut] using hu

section Steps

variable (h : s.Inv) {count : ℤ} {phase : CondPhase} {t c : τ}
include h

/-- A task that was promised nothing goes on in `pthread_cond_wait`. -/
theorem Inv.setPhase (hold : s.phase t ≠ .woken) (hwriting : s.phase t ≠ .writing)
    (hwait : (s.phase t).inWait → phase.inWait) (hnonneg : 0 ≤ count)
    (hcount : s.waiters ≤ s.count → (s.setPhase t phase).waiters ≤ count) :
    Inv { s.setPhase t phase with count := count } := by
  refine ⟨hnonneg, fun hnone => hcount (h.count fun u => ?_), fun c u hc => ?_, fun u hu => ?_⟩
  · by_cases hut : u = t
    · exact hut ▸ hwriting
    · simpa [CondVar.setPhase, hut] using hnone u
  · by_cases hut : u = t
    · subst hut
      simpa [CondVar.setPhase] using hwait (h.covered c u hc)
    · simpa [CondVar.setPhase, hut] using h.covered c u hc
  · have hut : u ≠ t := by
      rintro rfl
      exact hold (h.promised u hu)
    simpa [CondVar.setPhase, hut] using h.promised u hu

theorem Inv.leave (hwait : (s.phase t).inWait) (event : BitVec 32) :
    Inv { s.leave t with event := event } := by
  refine ⟨h.nonneg, fun hnone => ?_, fun c u hc => ?_, fun u hu => ?_⟩
  · refine (Int.ofNat_le.2 (waiters_setPhase_le rfl)).trans (h.count fun u => ?_)
    by_cases hut : u = t
    · subst hut
      intro hw
      simp [hw, CondPhase.inWait] at hwait
    · simpa [CondVar.leave, CondVar.setPhase, hut] using hnone u
  · by_cases hut : u = t
    · simp [CondVar.leave, hut] at hc
    · simp only [CondVar.leave, hut] at hc
      simpa [CondVar.leave, CondVar.setPhase, hut] using h.covered c u hc
  · by_cases hut : u = t
    · simp [CondVar.leave, hut] at hu
    · have hu : s.promised u := by simpa [CondVar.leave, hut] using hu
      simpa [CondVar.leave, CondVar.setPhase, hut] using h.promised u hu

theorem Inv.eventRead (ht : s.phase t = .released) : (s.eventRead t).Inv := by
  simp only [CondVar.eventRead]
  split_ifs
  · refine h.setPhase (by simp [ht]) (by simp [ht]) (by simp [CondPhase.inWait]) h.nonneg
      fun hc => ?_
    rwa [waiters_setPhase_of_eq (by simp [ht, CondPhase.waiting])]
  · exact h.leave (by rw [ht]; rfl) _

theorem Inv.start (hc : s.phase c = .idle) (broadcast : Bool)
    (hcare : (∃ t, s.phase t = .writing) →
      0 < s.count ∨ ∀ t, s.phase t ≠ .released ∧ s.phase t ≠ .blocked) :
    (s.start c broadcast).Inv := by
  by_cases hpos : s.count > 0
  · rw [CondVar.start, if_pos hpos]
    refine ⟨?_, fun hw => absurd (by simp [CondVar.setPhase]) (hw c), fun d t hd => ?_,
      fun t ht => ?_⟩
    · dsimp only
      split_ifs <;> omega
    · have hin : (s.phase t).inWait := by
        by_cases hdc : d = c
        · simpa [hdc] using hd
        · exact h.covered d t (by simpa [hdc] using hd)
      have htc : t ≠ c := by
        rintro rfl
        simp [hc, CondPhase.inWait] at hin
      simpa [CondVar.setPhase, htc] using hin
    · have htc : t ≠ c := by
        rintro rfl
        simp [h.promised t ht] at hc
      simpa [CondVar.setPhase, htc] using h.promised t ht
  · rw [CondVar.start, if_neg hpos]
    -- nobody waits, so those that have released the mutex are woken already
    have hnot : ∀ t, s.phase t ≠ .released ∧ s.phase t ≠ .blocked := by
      by_cases hw : ∃ t, s.phase t = .writing
      · exact (hcare hw).resolve_left hpos
      · have hcount := h.count (not_exists.mp hw)
        have hzero : s.waiters = 0 := by omega
        intro t
        have := Finset.filter_eq_empty_iff.1 (Finset.card_eq_zero.1 hzero) (Finset.mem_univ t)
        constructor <;> rintro hp <;> simp [hp, CondPhase.waiting] at this
    have hwoken : ∀ t, (s.phase t).inWait → s.phase t = .woken := fun t ht => by
      cases hp : s.phase t <;> simp_all [CondPhase.inWait]
    refine ⟨h.nonneg, h.count, h.covered, fun t ht => ?_⟩
    rcases Bool.or_eq_true_iff.1 ht with hp | hp
    · exact h.promised t hp
    · exact hwoken t hp

theorem Inv.eventWrite (hc : s.phase c = .writing)
    (hcovered : ∀ t, s.covered c t → s.phase t ≠ .released)
    (hcount : (∀ t ≠ c, s.phase t ≠ .writing) → s.coming ≤ s.count) : (s.eventWrite c).Inv := by
  have hphase : ∀ t, (s.phase t).inWait → (s.eventWrite c).phase t =
      if s.phase t = .released then .released else .woken := by
    intro t ht
    have htc : t ≠ c := by
      rintro rfl
      simp [hc, CondPhase.inWait] at ht
    simp only [CondVar.eventWrite]
    cases hp : s.phase t <;> simp_all [CondPhase.inWait]
  refine ⟨h.nonneg, fun hnone => ?_, fun d t hd => ?_, fun t ht => ?_⟩
  · refine (Int.ofNat_le.2 (Finset.card_le_card fun t ht => ?_)).trans (hcount fun t ht hw => ?_)
    · rw [Finset.mem_filter] at ht ⊢
      by_cases htc : t = c
      · simp [CondVar.eventWrite, htc, CondPhase.waiting] at ht
      · cases hp : s.phase t <;> simp_all [CondVar.eventWrite, CondPhase.waiting]
    · refine hnone t ?_
      simp [CondVar.eventWrite, ht, hw]
  · have hold : s.covered d t := by
      by_cases hdc : d = c
      · simp [CondVar.eventWrite, hdc] at hd
      · simpa [CondVar.eventWrite, hdc] using hd
    rw [hphase t (h.covered d t hold)]
    split_ifs <;> rfl
  · rcases Bool.or_eq_true_iff.1 ht with hp | hp
    · rw [hphase t (by rw [h.promised t hp]; rfl), if_neg (by simp [h.promised t hp])]
    · rw [hphase t (h.covered c t hp), if_neg (hcovered t hp)]

theorem Inv.step {op : Op τ} (hop : s.allowed op) (hcare : s.Careful op) : (s.step op).Inv := by
  cases op with
  | wait t =>
    have ht : s.phase t = .idle := hop
    have hroom : s.count + 1 < 2 ^ 31 := hcare
    have hnonneg := h.nonneg
    have hcount : (s.count + 1).bmod (2 ^ 32) = s.count + 1 :=
      Int.bmod_eq_of_le (by omega) (by omega)
    rw [CondVar.step, CondVar.wait, hcount]
    refine h.setPhase (by simp [ht]) (by simp [ht]) (by simp [ht, CondPhase.inWait]) (by omega)
      fun hc => ?_
    rw [waiters_setPhase_add_one (by rw [ht]; rfl) rfl]
    omega
  | release t =>
    have ht : s.phase t = .counted := hop
    refine h.setPhase (by simp [ht]) (by simp [ht]) (by simp [CondPhase.inWait]) h.nonneg
      fun hc => ?_
    rwa [waiters_setPhase_of_eq (by simp [ht, CondPhase.waiting])]
  | read => exact h.eventRead hop
  | readReturn =>
    have ht := hop
    exact h.leave (by rw [ht]; rfl) _
  | start c broadcast => exact h.start hop broadcast hcare
  | write => exact h.eventWrite hop hcare.1 hcare.2

end Steps

/-- In every careful run no wake-up is lost. -/
theorem no_wakeup_lost (h : ((machine (τ := τ)).restrict Careful).Reaches s) : s.Sound := by
  have hinv : s.Inv := h.invariant (fun s hs => hs ▸ .init) fun s op hs hop => hs.step hop.1 hop.2
  exact hinv.sound

instance (s : CondVar τ) : ∀ op, Decidable (machine.allowed s op)
  | .wait _ | .start _ _ | .release _ | .read _ | .readReturn _ | .write _ =>
    inferInstanceAs (Decidable (_ = _))

instance (s : CondVar τ) (op) : Decidable (s.Careful op) := by
  unfold Careful
  split <;> infer_instance

/-- Two tasks block, and one signal wakes both. -/
theorem no_wakeup_lost_two_blocked : ∃ s : CondVar (Fin 3), (machine.restrict Careful).Reaches s ∧
    s.phase 0 = .woken ∧ s.phase 1 = .woken ∧ s.promised 1 = true ∧ s.Sound := by
  have hr := Machine.Reaches.run (M := (machine (τ := Fin 3)).restrict Careful) (.start rfl)
    [.wait 0, .release 0, .wait 1, .release 1, .read 0, .read 1, .start 2 false, .write 2]
    (by decide +kernel)
  exact ⟨_, hr, by decide +kernel, by decide +kernel, by decide +kernel, no_wakeup_lost hr⟩

/-- Two tasks have released the user mutex and not yet read the event when it is broadcast, or
signalled twice. The first one that reads it clears it, and the other one blocks. -/
theorem second_reader_blocks :
    (∃ s : CondVar (Fin 3), machine.Reaches s ∧ s.promised 1 = true ∧ s.phase 1 = .blocked) ∧
    ∃ s : CondVar (Fin 4), machine.Reaches s ∧ s.promised 1 = true ∧ s.phase 1 = .blocked ∧
      s.phase 2 = .idle ∧ s.phase 3 = .idle := by
  have hbroadcast := Machine.Reaches.run (M := machine (τ := Fin 3)) (.start rfl)
    [.wait 0, .release 0, .wait 1, .release 1, .start 2 true, .write 2, .read 0, .read 1]
    (by decide +kernel)
  have hsignals := Machine.Reaches.run (M := machine (τ := Fin 4)) (.start rfl)
    [.wait 0, .release 0, .wait 1, .release 1, .start 2 false, .write 2, .start 3 false, .write 3,
      .read 0, .read 1]
    (by decide +kernel)
  exact ⟨⟨_, hbroadcast, by decide +kernel⟩,
    ⟨_, hsignals, by decide +kernel⟩⟩

end CondVar

end LiteOS.Posix
