import LiteOS.Lib.Counting
import LiteOS.Lib.Runs
import Mathlib.Data.Finset.Range

/-!
# Thread-specific data

The model of `pthread_key_create`, `pthread_key_delete`, `pthread_setspecific`,
`pthread_getspecific` and of the part of `pthread_exit` that gives the values of a thread to their
destructors. Pthreads are known by their `PthreadData`. `PthreadExitKeyDtor` gives up the interrupt
lock around every destructor; between two of its locked sections the others run.
-/

namespace LiteOS.Posix

open Lib Function List

/-- `PthreadKey`. A destructor is known by its address. -/
structure PthreadKey where
  /-- `flag == PTHREAD_KEY_USED` -/
  used : Bool := false
  destructor : Option ℕ := none
deriving DecidableEq, Repr

/-- Where a pthread is: not created yet, outside `pthread_exit`, or at a point of `pthread_exit`
at which the interrupts are enabled. -/
inductive KeyPhase
  | fresh
  | running
  /-- before it takes the lock to look at the keys from `count` on -/
  | loop (count : ℕ)
  /-- after it has read the destructor of the key `count` -/
  | calling (count : ℕ) (dtor : Option ℕ)
  /-- after it has seen that its value under the key `count` is not null -/
  | checked (count : ℕ) (dtor : ℕ)
  /-- in the destructor of the key `count` -/
  | inDtor (count : ℕ)
  /-- before `free(pthreadData->key)` -/
  | freeKey
  /-- before `LOS_ListDelete(&pthreadData->threadList)` -/
  | unlink
  | gone
deriving DecidableEq, Repr

namespace KeyPhase

/-- The pthread is in `pthread_exit`. -/
def exiting : KeyPhase → Bool
  | fresh | running | gone => false
  | _ => true

/-- The exiting pthread has still to look at its value under the key `k`. -/
def left (k : ℕ) : KeyPhase → Bool
  | loop count | calling count _ | checked count _ => count ≤ k
  | inDtor count => count < k
  | _ => false

/-- The exiting pthread has looked at its value under the key `k`. -/
def looked (k : ℕ) : KeyPhase → Bool
  | loop count | calling count _ => k < count
  | checked count _ | inDtor count => k ≤ count
  | freeKey | unlink => true
  | _ => false

end KeyPhase

inductive KeyErrno
  | einval
  | eagain
  | enomem
deriving DecidableEq, Repr

/-- The keys, the list `g_pthreadListHead` and the member `key` of every pthread. Not in the source:
the value that a pthread last stored under a key since the key was created, and for each of them the
destructor calls that are due and those that were made, as a destructor and its argument. -/
structure ThreadKeys where
  keyData : ℕ → PthreadKey := fun _ => {}
  keyCount : ℕ := 0
  threads : List ℕ := []
  key : ℕ → Option (ℕ → ℕ) := fun _ => none
  phase : ℕ → KeyPhase := fun _ => .fresh
  stored : ℕ → ℕ → ℕ := fun _ _ => 0
  due : ℕ → ℕ → List (ℕ × ℕ) := fun _ _ => []
  made : ℕ → ℕ → List (ℕ × ℕ) := fun _ _ => []

/-- The call that a value needs: one if there is a destructor and the value is not null. -/
def dtorCall (dtor : Option ℕ) (value : ℕ) : List (ℕ × ℕ) :=
  match dtor with
  | some d => if value ≠ 0 then [(d, value)] else []
  | none => []

@[simp]
theorem dtorCall_zero (dtor : Option ℕ) : dtorCall dtor 0 = [] := by
  cases dtor <;> rfl

@[simp]
theorem dtorCall_none (value : ℕ) : dtorCall none value = [] := rfl

theorem dtorCall_some {value : ℕ} (d : ℕ) (h : value ≠ 0) :
    dtorCall (some d) value = [(d, value)] := if_pos h

namespace ThreadKeys

variable (keysMax : ℕ)

section

variable (s : ThreadKeys)

/-- `pthreadData->key[k]`, and 0 for a pthread without an array -/
def cell (t k : ℕ) : ℕ :=
  match s.key t with
  | some key => key k
  | none => 0

def setPhase (t : ℕ) (phase : KeyPhase) : ThreadKeys :=
  { s with phase := update s.phase t phase }

/-- `pthread_create`, for the thread `t` -/
def pthreadCreate (t : ℕ) : ThreadKeys :=
  { s with
    threads := t :: s.threads
    phase := update s.phase t .running }

/-- What `pthread_key_create` does with the entry `keys` of the key `count`. -/
def takeKey (keys count : ℕ) (dtor : Option ℕ) : ThreadKeys :=
  { s with
    keyData := update s.keyData keys ⟨true, dtor⟩
    keyCount := s.keyCount + 1
    stored := fun t k => if k = count then 0 else s.stored t k }

/-- `pthread_key_create`. Without an unused key the last entry would be taken. -/
def pthreadKeyCreate (dtor : Option ℕ) : ThreadKeys × Except KeyErrno ℕ :=
  if s.keyCount ≥ keysMax then (s, .error .eagain)
  else
    let count := ((List.range keysMax).find? fun k => !(s.keyData k).used).getD keysMax
    (s.takeKey (min count (keysMax - 1)) count dtor, .ok count)

/-- What `pthread_key_delete` does once it has found the key in use: every linked pthread with an
array is visited, under the lock. -/
def dropKey (k : ℕ) : ThreadKeys :=
  let dtor := (s.keyData k).destructor
  { s with
    keyData := update s.keyData k {}
    keyCount := s.keyCount - 1
    key := fun t => if t ∈ s.threads then (s.key t).map (update · k 0) else s.key t
    made := fun t i => if i = k ∧ t ∈ s.threads then s.made t i ++ dtorCall dtor (s.cell t i)
      else s.made t i
    due := fun t i => if i = k ∧ s.phase t = .running then s.due t i ++ dtorCall dtor (s.stored t i)
      else s.due t i
    stored := fun t i => if i = k then 0 else s.stored t i }

def pthreadKeyDelete (k : ℕ) : ThreadKeys × Except KeyErrno Unit :=
  if k ≥ keysMax then (s, .error .einval)
  else if s.keyCount = 0 ∨ (s.keyData k).used = false then (s, .error .eagain)
  else (s.dropKey k, .ok ())

/-- `pthreadData->key[k] = x`, in a new array if there is none -/
def store (t k x : ℕ) : ThreadKeys :=
  { s with
    key := update s.key t (some (update (s.cell t) k x))
    stored := update s.stored t (update (s.stored t) k x) }

/-- `pthread_setspecific` by the thread `t`; `mem` tells whether an array could be allocated. -/
def pthreadSetspecific (t k x : ℕ) (mem : Bool) : ThreadKeys × Except KeyErrno Unit :=
  if k ≥ keysMax then (s, .error .einval)
  else if s.key t = none ∧ mem = false then (s, .error .enomem)
  else if (s.keyData k).used = false then (s, .error .eagain)
  else (s.store t k x, .ok ())

/-- `pthread_getspecific` by the thread `t` -/
def pthreadGetspecific (t k : ℕ) : ℕ :=
  if k ≥ keysMax then 0
  else if (s.keyData k).used = false ∨ s.key t = none then 0
  else s.cell t k

/-- `pthread_exit`, up to the first point at which the others can run. -/
def pthreadExit (t : ℕ) : ThreadKeys :=
  { s with
    phase := update s.phase t (if s.key t = none then .unlink else .loop 0)
    due := update s.due t fun k =>
      s.due t k ++ dtorCall (s.keyData k).destructor (s.stored t k) }

/-- The next section of `PthreadExitKeyDtor` and `pthread_exit`. -/
def advance (t : ℕ) : ThreadKeys :=
  match s.phase t with
  | .loop count =>
    match (List.range keysMax).find? fun k => count ≤ k && (s.keyData k).used with
    | some k => s.setPhase t (.calling k (s.keyData k).destructor)
    | none => s.setPhase t .freeKey
  | .calling count (some d) =>
    if s.cell t count ≠ 0 then s.setPhase t (.checked count d) else s.setPhase t (.loop (count + 1))
  | .calling count none => s.setPhase t (.loop (count + 1))
  | .checked count d =>
    { s.setPhase t (.inDtor count) with
      made := update s.made t
        (update (s.made t) count (s.made t count ++ [(d, s.cell t count)])) }
  | .inDtor count => s.setPhase t (.loop (count + 1))
  | .freeKey => s.setPhase t .unlink
  | .unlink => { s.setPhase t .gone with threads := s.threads.erase t }
  | .fresh | .running | .gone => s

inductive Op
  | create (t : ℕ)
  | keyCreate (t : ℕ) (dtor : Option ℕ)
  | keyDelete (t k : ℕ)
  | setspecific (t k x : ℕ) (mem : Bool)
  | exit (t : ℕ)
  | advance (t : ℕ)
deriving DecidableEq, Repr

def allowed : Op → Prop
  | .create t => s.phase t = .fresh
  | .keyCreate t _ | .keyDelete t _ | .setspecific t _ _ _ | .exit t => s.phase t = .running
  | .advance t => (s.phase t).exiting

instance (s : ThreadKeys) : ∀ op, Decidable (s.allowed op)
  | .create _ | .keyCreate _ _ | .keyDelete _ _ | .setspecific _ _ _ _ | .exit _ | .advance _ =>
    inferInstanceAs (Decidable (_ = _))

def step : Op → ThreadKeys
  | .create t => s.pthreadCreate t
  | .keyCreate _ dtor => (s.pthreadKeyCreate keysMax dtor).1
  | .keyDelete _ k => (s.pthreadKeyDelete keysMax k).1
  | .setspecific t k x mem => (s.pthreadSetspecific keysMax t k x mem).1
  | .exit t => s.pthreadExit t
  | .advance t => s.advance keysMax t

/-- The pthreads of a system with `PTHREAD_KEYS_MAX` keys. -/
def machine : Machine ThreadKeys Op where
  init s := s = {}
  allowed := allowed
  step := step keysMax

instance (s : ThreadKeys) (op : Op) : Decidable ((machine keysMax).allowed s op) :=
  inferInstanceAs (Decidable (s.allowed op))

/-- What a running pthread reads is what it stored, no destructor call is made twice or out of turn,
and those that are due are made when the pthread is not exiting. -/
def Sound : Prop :=
  (∀ t k, s.phase t = .running → s.pthreadGetspecific keysMax t k = s.stored t k) ∧
  (∀ t k, s.made t k <+: s.due t k) ∧
  ∀ t k, (s.phase t).exiting = false → s.made t k = s.due t k

/-- The visit of the thread `t` by `pthread_key_delete(k)` finds an array that is allocated, and no
value that the thread has looked at in `pthread_exit`. -/
def visitable (k t : ℕ) : Bool :=
  s.key t = none ∨ s.phase t ≠ .unlink ∧
    ((s.phase t).looked k = false ∨ (s.keyData k).destructor = none ∨ s.cell t k = 0)

/-- A key that is in use is deleted while every linked pthread can be visited. -/
def Careful : Op → Prop
  | .keyDelete _ k => (s.keyData k).used → ∀ t ∈ s.threads, s.visitable k t
  | _ => True

instance (s : ThreadKeys) (op) : Decidable (s.Careful op) := by
  unfold Careful
  split <;> infer_instance

/-- The call that an exiting pthread has still to make for its value under a key. -/
def pending (t k : ℕ) : List (ℕ × ℕ) :=
  if (s.phase t).left k then dtorCall (s.keyData k).destructor (s.cell t k) else []

end

/-- What holds of the pthread `t`. -/
structure ThreadInv (s : ThreadKeys) (t : ℕ) : Prop where
  linked : t ∈ s.threads ↔ s.phase t ≠ .fresh ∧ s.phase t ≠ .gone
  fresh : s.phase t = .fresh → s.key t = none ∧ ∀ k, s.stored t k = 0
  running : s.phase t = .running → ∀ k, s.cell t k = s.stored t k
  unused : t ∈ s.threads → ∀ k, (s.keyData k).used = false → s.cell t k = 0
  calling : ∀ k dtor, s.phase t = .calling k dtor → s.cell t k ≠ 0 →
    (s.keyData k).destructor = dtor
  checked : ∀ k d, s.phase t = .checked k d → s.cell t k ≠ 0 ∧
    (s.keyData k).destructor = some d
  calls : ∀ k, s.due t k = s.made t k ++ s.pending t k

structure Inv (s : ThreadKeys) : Prop where
  count : s.keyCount = ((Finset.range keysMax).filter fun k => (s.keyData k).used).card
  outside : ∀ k, keysMax ≤ k → (s.keyData k).used = false
  nodup : s.threads.Nodup
  thread : ∀ t, s.ThreadInv t

variable {keysMax} {s : ThreadKeys}

theorem pending_eq_nil {t k : ℕ} (h : (s.phase t).left k = false) : s.pending t k = [] := by
  simp [pending, h]

theorem left_eq_false_of_exiting {phase : KeyPhase} (h : phase.exiting = false) (k : ℕ) :
    phase.left k = false := by
  cases phase <;> first | rfl | exact absurd h (by simp [KeyPhase.exiting])

theorem Inv.sound (h : s.Inv keysMax) : s.Sound keysMax := by
  refine ⟨fun t k ht => ?_, fun t k => ⟨s.pending t k, ((h.thread t).calls k).symm⟩,
    fun t k ht => ?_⟩
  · have hunused := (h.thread t).unused ((h.thread t).linked.2 (by simp [ht])) k
    have hcell := (h.thread t).running ht k
    simp only [pthreadGetspecific]
    split_ifs with hk hu
    · rw [← hcell, hunused (h.outside k hk)]
    · rcases hu with hu | hu
      · rw [← hcell, hunused hu]
      · rw [← hcell, cell, hu]
    · exact hcell
  · rw [(h.thread t).calls, pending_eq_nil (left_eq_false_of_exiting ht k), append_nil]

theorem Inv.init : Inv keysMax {} where
  count := by simp
  outside _ _ := rfl
  nodup := nodup_nil
  thread t := by constructor <;> simp [pending]

section Thread

variable {t k : ℕ} (h : s.ThreadInv t)
include h

/-- A step that leaves the keys and the pthread alone. -/
theorem ThreadInv.congr {s' : ThreadKeys} (hdata : s'.keyData = s.keyData)
    (hmem : t ∈ s'.threads ↔ t ∈ s.threads) (hphase : s'.phase t = s.phase t)
    (hkey : s'.key t = s.key t) (hstored : s'.stored t = s.stored t) (hdue : s'.due t = s.due t)
    (hmade : s'.made t = s.made t) : s'.ThreadInv t := by
  have hcell : ∀ k, s'.cell t k = s.cell t k := fun k => by rw [cell, cell, hkey]
  have hpending : ∀ k, s'.pending t k = s.pending t k := fun k => by
    rw [pending, pending, hcell, hphase, hdata]
  obtain ⟨hlinked, hfresh, hrunning, hunused, hcalling, hchecked, hcalls⟩ := h
  constructor <;> simpa only [hmem, hphase, hkey, hcell, hpending, hstored, hdue, hmade, hdata]

theorem ThreadInv.mem_of_exiting (ht : (s.phase t).exiting) : t ∈ s.threads :=
  h.linked.2 (by constructor <;> intro h' <;> simp [h', KeyPhase.exiting] at ht)

theorem ThreadInv.mem_of_running (ht : s.phase t = .running) : t ∈ s.threads :=
  h.linked.2 (by simp [ht])

/-- A pthread that is neither linked nor exiting has nothing to call. -/
theorem ThreadInv.left_eq_false (ht : t ∉ s.threads) (k : ℕ) : (s.phase t).left k = false := by
  have := mt h.linked.2 ht
  cases hp : s.phase t <;> first | rfl | simp [hp] at this

theorem ThreadInv.due_eq_made (hleft : (s.phase t).left k = false) : s.due t k = s.made t k := by
  rw [h.calls, pending_eq_nil hleft, append_nil]

end Thread

section Steps

variable (h : s.Inv keysMax)
include h

variable {t count d k : ℕ}

theorem Inv.pthreadCreate (ht : s.phase t = .fresh) : (s.pthreadCreate t).Inv keysMax := by
  have hnot : t ∉ s.threads := fun hm => ((h.thread t).linked.1 hm).1 ht
  refine ⟨h.count, h.outside, nodup_cons.2 ⟨hnot, h.nodup⟩, fun u => ?_⟩
  by_cases hut : u = t
  · subst hut
    obtain ⟨hkey, hstored⟩ := (h.thread u).fresh ht
    have hcalls := fun k => (h.thread u).due_eq_made (k := k) (by rw [ht]; rfl)
    constructor <;> simp [ThreadKeys.pthreadCreate, cell, pending, *]
  · exact (h.thread u).congr rfl (by simp [ThreadKeys.pthreadCreate, hut]) (update_of_ne hut ..)
      rfl rfl rfl rfl

theorem Inv.goOn (phase : KeyPhase) (made : ℕ → List (ℕ × ℕ)) (ht : (s.phase t).exiting)
    (hphase : phase.exiting) (hcalling : ∀ k dtor, phase = .calling k dtor → s.cell t k ≠ 0 →
      (s.keyData k).destructor = dtor)
    (hchecked : ∀ k d, phase = .checked k d → s.cell t k ≠ 0 ∧ (s.keyData k).destructor = some d)
    (hcalls : ∀ k, s.due t k = made k ++
      if phase.left k then dtorCall (s.keyData k).destructor (s.cell t k) else []) :
    Inv keysMax { s with phase := update s.phase t phase, made := update s.made t made } := by
  refine ⟨h.count, h.outside, h.nodup, fun u => ?_⟩
  by_cases hut : u = t
  · subst hut
    have hnot : ∀ p : KeyPhase, p.exiting = false → phase ≠ p := by
      rintro _ hp rfl
      simp [hp] at hphase
    refine ⟨iff_of_true ((h.thread u).mem_of_exiting ht) ?_, fun hu => ?_, fun hu => ?_,
      (h.thread u).unused, ?_, ?_, ?_⟩
    · simp [hnot .fresh rfl, hnot .gone rfl]
    · exact absurd hu (by simp [hnot .fresh rfl])
    · exact absurd hu (by simp [hnot .running rfl])
    · simpa [cell] using hcalling
    · simpa [cell] using hchecked
    · simpa [pending, cell] using hcalls
  · exact (h.thread u).congr rfl .rfl (update_of_ne hut ..) rfl rfl rfl (update_of_ne hut ..)

theorem Inv.setPhase (phase : KeyPhase) (ht : (s.phase t).exiting) (hphase : phase.exiting)
    (hcalling : ∀ k dtor, phase = .calling k dtor → s.cell t k ≠ 0 →
      (s.keyData k).destructor = dtor)
    (hchecked : ∀ k d, phase = .checked k d → s.cell t k ≠ 0 ∧ (s.keyData k).destructor = some d)
    (hleft : ∀ k, phase.left k ≠ (s.phase t).left k →
      dtorCall (s.keyData k).destructor (s.cell t k) = []) : (s.setPhase t phase).Inv keysMax := by
  have hcalls : ∀ k, s.due t k = s.made t k ++
      if phase.left k then dtorCall (s.keyData k).destructor (s.cell t k) else [] := by
    intro k
    rw [(h.thread t).calls, pending]
    by_cases hk : phase.left k = (s.phase t).left k
    · rw [hk]
    · simp [hleft k hk]
  have := h.goOn phase (s.made t) ht hphase hcalling hchecked hcalls
  rwa [update_eq_self] at this

theorem Inv.advance_loop (ht : s.phase t = .loop count) : (s.advance keysMax t).Inv keysMax := by
  have hex : (s.phase t).exiting := by rw [ht]; rfl
  -- the keys that are passed over are not in use, so the pthread has no value under them
  have hnone : ∀ k, (s.keyData k).used = false →
      dtorCall (s.keyData k).destructor (s.cell t k) = [] := fun k hk => by
    rw [(h.thread t).unused ((h.thread t).mem_of_exiting hex) k hk, dtorCall_zero]
  simp only [ThreadKeys.advance, ht]
  split
  · next k hk =>
    obtain ⟨hcond, -, hfirst⟩ := find?_range_eq_some.mp hk
    simp only [Bool.and_eq_true, decide_eq_true_eq] at hcond
    refine h.setPhase _ hex rfl ?_ (by simp) fun i hi => hnone i ?_
    · rintro i dtor ⟨⟩ _
      rfl
    · have hik : count ≤ i ∧ i < k := by
        simp only [ht, KeyPhase.left, ne_eq, decide_eq_decide] at hi
        omega
      simpa [hik.1] using hfirst i hik.2
  · next hfind =>
    refine h.setPhase _ hex rfl (by simp) (by simp) fun i hi => hnone i ?_
    have hle : count ≤ i := by simpa [ht, KeyPhase.left] using hi
    by_cases hlt : i < keysMax
    · simpa [hle] using find?_eq_none.mp hfind i (mem_range.2 hlt)
    · exact h.outside i (by omega)

theorem Inv.advance_calling {dtor : Option ℕ} (ht : s.phase t = .calling count dtor) :
    (s.advance keysMax t).Inv keysMax := by
  have hex : (s.phase t).exiting := by rw [ht]; rfl
  have hnext : dtorCall dtor (s.cell t count) = [] →
      (s.setPhase t (.loop (count + 1))).Inv keysMax := by
    intro hno
    refine h.setPhase _ hex rfl (by simp) (by simp) fun i hi => ?_
    obtain rfl : i = count := by
      simp only [ht, KeyPhase.left, ne_eq, decide_eq_decide] at hi
      omega
    by_cases hc : s.cell t i = 0
    · rw [hc, dtorCall_zero]
    · rw [(h.thread t).calling i dtor ht hc, hno]
  cases dtor with
  | none =>
    simp only [ThreadKeys.advance, ht]
    exact hnext rfl
  | some d =>
    simp only [ThreadKeys.advance, ht]
    split_ifs with hc
    · refine h.setPhase _ hex rfl (by simp) ?_ fun i hi => absurd (by rw [ht]; rfl) hi
      rintro i d' ⟨⟩
      exact ⟨hc, (h.thread t).calling count (some d) ht hc⟩
    · rw [not_not] at hc
      exact hnext (by rw [hc, dtorCall_zero])

theorem Inv.advance_checked (ht : s.phase t = .checked count d) :
    (s.advance keysMax t).Inv keysMax := by
  obtain ⟨hc, hd⟩ := (h.thread t).checked count d ht
  simp only [ThreadKeys.advance, ht]
  refine h.goOn (.inDtor count) _ (by rw [ht]; rfl) rfl (by simp) (by simp) fun i => ?_
  rw [(h.thread t).calls, pending, ht]
  by_cases hi : i = count
  · subst hi
    simp [KeyPhase.left, hd, dtorCall_some d hc]
  · rw [update_of_ne hi]
    have hle : count ≤ i ↔ count < i := by omega
    simp [KeyPhase.left, hle]

theorem Inv.advance_unlink (ht : s.phase t = .unlink) : (s.advance keysMax t).Inv keysMax := by
  simp only [ThreadKeys.advance, ht]
  refine ⟨h.count, h.outside, h.nodup.erase t, fun u => ?_⟩
  by_cases hut : u = t
  · subst hut
    have hcalls := fun k => (h.thread u).due_eq_made (k := k) (by rw [ht]; rfl)
    constructor <;>
      simp [ThreadKeys.setPhase, pending, KeyPhase.left, h.nodup.mem_erase_iff, hcalls]
  · exact (h.thread u).congr rfl (mem_erase_of_ne hut) (update_of_ne hut ..) rfl rfl rfl rfl

theorem Inv.advance (ht : (s.phase t).exiting) : (s.advance keysMax t).Inv keysMax := by
  have hsame : ∀ phase : KeyPhase, phase.exiting → (∀ k, phase.left k = (s.phase t).left k) →
      (∀ k dtor, phase ≠ .calling k dtor) → (∀ k d, phase ≠ .checked k d) →
      (s.setPhase t phase).Inv keysMax := fun phase hphase hleft hcalling hchecked =>
    h.setPhase phase ht hphase (fun k d hk => absurd hk (hcalling k d))
      (fun k d hk => absurd hk (hchecked k d)) fun k hk => absurd (hleft k) hk
  cases hp : s.phase t with
  | loop => exact h.advance_loop hp
  | calling => exact h.advance_calling hp
  | checked => exact h.advance_checked hp
  | inDtor =>
    simp only [ThreadKeys.advance, hp]
    exact hsame _ rfl (fun k => by simp only [hp, KeyPhase.left, Nat.succ_le_iff]) (by simp)
      (by simp)
  | freeKey =>
    simp only [ThreadKeys.advance, hp]
    exact hsame _ rfl (fun k => by simp [hp, KeyPhase.left]) (by simp) (by simp)
  | unlink => exact h.advance_unlink hp
  | fresh | running | gone => simp [hp, KeyPhase.exiting] at ht

theorem Inv.pthreadExit (ht : s.phase t = .running) : (s.pthreadExit t).Inv keysMax := by
  refine ⟨h.count, h.outside, h.nodup, fun u => ?_⟩
  by_cases hut : u = t
  · subst hut
    have hu := h.thread u
    have hdue : ∀ k, (s.pthreadExit u).due u k =
        s.made u k ++ dtorCall (s.keyData k).destructor (s.cell u k) := fun k => by
      simp [ThreadKeys.pthreadExit, hu.running ht, hu.due_eq_made (by rw [ht]; rfl)]
    refine ⟨iff_of_true (hu.mem_of_running ht) ?_, ?_, ?_, hu.unused, ?_, ?_,
      fun k => (hdue k).trans ?_⟩
    all_goals by_cases hk : s.key u = none <;>
      simp [ThreadKeys.pthreadExit, pending, KeyPhase.left, cell, hk]
  · exact (h.thread u).congr rfl .rfl (update_of_ne hut ..) rfl rfl (update_of_ne hut ..) rfl

theorem Inv.exists_unused (hlt : s.keyCount < keysMax) : ∃ k < keysMax, (s.keyData k).used = false ∧
      (range keysMax).find? (fun k => !(s.keyData k).used) = some k := by
  cases hfind : (range keysMax).find? fun k => !(s.keyData k).used with
  | none =>
    have hall : (Finset.range keysMax).filter (fun k => (s.keyData k).used) =
        Finset.range keysMax := by
      refine Finset.filter_true_of_mem fun k hk => ?_
      simpa using find?_eq_none.mp hfind k (by simpa using hk)
    have := h.count
    rw [hall, Finset.card_range] at this
    omega
  | some k =>
    obtain ⟨hk, hmem, -⟩ := find?_range_eq_some.mp hfind
    exact ⟨k, mem_range.1 hmem, by simpa using hk, rfl⟩

theorem Inv.takeKey (hk : k < keysMax) (hunused : (s.keyData k).used = false) (dtor : Option ℕ) :
    (s.takeKey k k dtor).Inv keysMax := by
  have hdata : ∀ i, i ≠ k → (s.takeKey k k dtor).keyData i = s.keyData i := fun i hi =>
    update_of_ne hi _ _
  have hself : ((s.takeKey k k dtor).keyData k).used := by simp [ThreadKeys.takeKey]
  have hcell : ∀ t i, (s.takeKey k k dtor).cell t i = s.cell t i := fun _ _ => rfl
  refine ⟨?_, fun i hi => ?_, h.nodup, fun t => ?_⟩
  · refine (congrArg (· + 1) h.count).trans
      (card_filter_add_one (Finset.mem_range.2 hk) (by simp [hunused]) hself ?_).symm
    intro i _ hi
    rw [hdata i hi]
  · rw [hdata i (by omega)]
    exact h.outside i hi
  have ht := h.thread t
  have hzero : t ∈ s.threads → s.cell t k = 0 := fun hm => ht.unused hm k hunused
  have hne : (s.phase t).exiting → ∀ i, s.cell t i ≠ 0 → i ≠ k := by
    rintro hex i hc rfl
    exact hc (hzero (ht.mem_of_exiting hex))
  refine ⟨ht.linked, fun hp => ⟨(ht.fresh hp).1, fun i => ?_⟩, fun hp i => ?_, fun hm i hi => ?_,
    fun i d hp hc => ?_, fun i d hp => ?_, fun i => ?_⟩
  · by_cases hik : i = k <;> simp [ThreadKeys.takeKey, (ht.fresh hp).2]
  · rw [hcell]
    by_cases hik : i = k
    · subst hik
      simpa [ThreadKeys.takeKey] using hzero (ht.mem_of_running hp)
    · simpa [ThreadKeys.takeKey, hik] using ht.running hp i
  · have hik : i ≠ k := by
      rintro rfl
      simp [hself] at hi
    rw [hdata i hik] at hi
    exact ht.unused hm i hi
  · rw [hdata i (hne (by rw [show s.phase t = _ from hp]; rfl) i hc)]
    exact ht.calling i d hp hc
  · have hc := ht.checked i d hp
    rwa [hdata i (hne (by rw [show s.phase t = _ from hp]; rfl) i hc.1)]
  · refine (ht.calls i).trans ?_
    change _ = s.made t i ++ if (s.phase t).left i then _ else []
    by_cases hik : i = k
    · subst hik
      by_cases hmem : t ∈ s.threads
      · simp [pending, hcell, hzero hmem]
      · simp [pending, ht.left_eq_false hmem i]
    · rw [hdata i hik, hcell, pending]

theorem Inv.pthreadKeyCreate (dtor : Option ℕ) :
    (s.pthreadKeyCreate keysMax dtor).1.Inv keysMax := by
  simp only [ThreadKeys.pthreadKeyCreate]
  split_ifs with hge
  · exact h
  obtain ⟨k, hk, hunused, hfind⟩ := h.exists_unused (not_le.1 hge)
  have hmin : min k (keysMax - 1) = k := by omega
  simp only [hfind, Option.getD_some, hmin]
  exact h.takeKey hk hunused dtor

omit h in
theorem looked_of_not_left {phase : KeyPhase} (hex : phase.exiting)
    (hleft : phase.left k = false) : phase.looked k := by
  cases phase <;> simp_all [KeyPhase.exiting, KeyPhase.left, KeyPhase.looked]
  omega

omit h in
theorem cell_eq_zero_of_visitable (hv : s.visitable k t)
    (hlooked : (s.phase t).looked k) (hd : (s.keyData k).destructor ≠ none) : s.cell t k = 0 := by
  simp only [visitable, decide_eq_true_eq] at hv
  rcases hv with hkey | ⟨-, hl | hn | hc⟩
  · simp [cell, hkey]
  · simp [hlooked] at hl
  · exact absurd hn hd
  · exact hc

omit h in
theorem ThreadInv.calls_dropKey (h : s.ThreadInv t) (hcare : t ∈ s.threads → s.visitable k t) :
    (s.dropKey k).due t k = (s.dropKey k).made t k ++ (s.dropKey k).pending t k := by
  have hnil : (s.dropKey k).pending t k = [] := by simp [pending, ThreadKeys.dropKey]
  rw [hnil, append_nil]
  by_cases hmem : t ∈ s.threads
  · by_cases hrun : s.phase t = .running
    · have hold := h.due_eq_made (k := k) (by rw [hrun]; rfl)
      simp [ThreadKeys.dropKey, hmem, hrun, hold, h.running hrun]
    · have hcall : s.pending t k = dtorCall (s.keyData k).destructor (s.cell t k) := by
        rw [pending]
        split_ifs with hleft
        · rfl
        · have hex : (s.phase t).exiting := by
            have := h.linked.1 hmem
            cases hp : s.phase t <;> simp_all [KeyPhase.exiting]
          have hlooked := looked_of_not_left hex (by simpa using hleft)
          by_cases hd : (s.keyData k).destructor = none
          · rw [hd, dtorCall_none]
          · rw [cell_eq_zero_of_visitable (hcare hmem) hlooked hd, dtorCall_zero]
      simp [ThreadKeys.dropKey, hmem, hrun, h.calls, hcall]
  · have hrun : s.phase t ≠ .running := fun hp => hmem (h.mem_of_running hp)
    simp [ThreadKeys.dropKey, hmem, hrun, h.due_eq_made (h.left_eq_false hmem k)]

theorem Inv.dropKey (hk : k < keysMax) (hused : (s.keyData k).used)
    (hcare : ∀ t ∈ s.threads, s.visitable k t) : (s.dropKey k).Inv keysMax := by
  have hdata : ∀ i, i ≠ k → (s.dropKey k).keyData i = s.keyData i := fun i hi =>
    update_of_ne hi _ _
  have hself : (s.dropKey k).keyData k = {} := update_self ..
  refine ⟨?_, fun i hi => ?_, h.nodup, fun t => ?_⟩
  · have hcount := card_filter_add_one
      (p := fun i => ((s.dropKey k).keyData i).used)
      (Finset.mem_range.2 hk) (by simp [hself]) hused fun i _ hi => by rw [hdata i hi]
    have := h.count
    change s.keyCount - 1 = _
    omega
  · rw [hdata i (by omega)]
    exact h.outside i hi
  have ht := h.thread t
  have hne : ∀ i, i ≠ k → (s.dropKey k).cell t i = s.cell t i := fun i hi => by
    simp only [cell, ThreadKeys.dropKey]
    split_ifs
    · cases s.key t <;> simp [hi]
    · rfl
  have hzero : t ∈ s.threads → (s.dropKey k).cell t k = 0 := fun hm => by
    simp only [cell, ThreadKeys.dropKey, if_pos hm]
    cases s.key t <;> simp
  refine ⟨ht.linked, fun hp => ⟨?_, fun i => ?_⟩, fun hp i => ?_, fun hm i hi => ?_,
    fun i d hp hc => ?_, fun i d hp => ?_, fun i => ?_⟩
  · have hnot : t ∉ s.threads := fun hm => (ht.linked.1 hm).1 hp
    simpa [ThreadKeys.dropKey, hnot] using (ht.fresh hp).1
  · by_cases hik : i = k <;> simp [ThreadKeys.dropKey, (ht.fresh hp).2]
  · by_cases hik : i = k
    · subst hik
      rw [hzero (ht.mem_of_running hp)]
      simp [ThreadKeys.dropKey]
    · rw [hne i hik]
      simpa [ThreadKeys.dropKey, hik] using ht.running hp i
  · by_cases hik : i = k
    · rw [hik]
      exact hzero hm
    · rw [hdata i hik] at hi
      rw [hne i hik]
      exact ht.unused hm i hi
  · have hik : i ≠ k := by
      rintro rfl
      exact hc (hzero (ht.mem_of_exiting (by rw [show s.phase t = _ from hp]; rfl)))
    rw [hne i hik] at hc
    rw [hdata i hik]
    exact ht.calling i d hp hc
  · obtain ⟨hc, hd⟩ := ht.checked i d hp
    have hik : i ≠ k := by
      rintro rfl
      refine hc (cell_eq_zero_of_visitable (hcare t (ht.mem_of_exiting ?_)) ?_ (by simp [hd])) <;>
        rw [show s.phase t = _ from hp]
      · rfl
      · simp [KeyPhase.looked]
    rw [hdata i hik, hne i hik]
    exact ⟨hc, hd⟩
  · by_cases hik : i = k
    · subst hik
      exact ht.calls_dropKey (hcare t)
    · have hdue : (s.dropKey k).due t i = s.due t i := if_neg fun hc => hik hc.1
      have hmade : (s.dropKey k).made t i = s.made t i := if_neg fun hc => hik hc.1
      rw [hdue, hmade, pending, hne i hik, hdata i hik]
      exact ht.calls i

theorem Inv.store (ht : s.phase t = .running) (hused : (s.keyData k).used) (x : ℕ) :
    (s.store t k x).Inv keysMax := by
  refine ⟨h.count, h.outside, h.nodup, fun u => ?_⟩
  by_cases hut : u = t
  · subst hut
    have hu := h.thread u
    have hself : ∀ i, (s.store u k x).cell u i = if i = k then x else s.cell u i := fun i => by
      by_cases hi : i = k <;> simp [cell, ThreadKeys.store, hi]
    have hphase : (s.store u k x).phase u = .running := ht
    refine ⟨hu.linked, by simp [hphase], fun _ i => ?_, fun hm i hi => ?_, by simp [hphase],
      by simp [hphase], fun i => ?_⟩
    · rw [hself]
      by_cases hik : i = k <;> simp [ThreadKeys.store, hik, hu.running ht]
    · have hik : i ≠ k := by
        rintro rfl
        exact absurd hused (by simp [show (s.keyData i).used = _ from hi])
      rw [hself, if_neg hik]
      exact hu.unused hm i hi
    · rw [pending_eq_nil (by rw [hphase]; rfl), append_nil]
      exact hu.due_eq_made (by rw [ht]; rfl)
  · exact (h.thread u).congr rfl .rfl rfl (update_of_ne hut ..) (update_of_ne hut ..) rfl rfl

theorem Inv.pthreadSetspecific (ht : s.phase t = .running) (k x : ℕ) (mem : Bool) :
    (s.pthreadSetspecific keysMax t k x mem).1.Inv keysMax := by
  simp only [ThreadKeys.pthreadSetspecific]
  split_ifs with hk hm hu
  iterate 3 exact h
  exact h.store ht (by simpa using hu) x

theorem Inv.step {op : Op} (hop : s.allowed op) (hcare : s.Careful op) :
    (s.step keysMax op).Inv keysMax := by
  cases op with
  | create => exact h.pthreadCreate hop
  | keyCreate t dtor => exact h.pthreadKeyCreate dtor
  | keyDelete t k =>
    simp only [ThreadKeys.step, pthreadKeyDelete]
    split_ifs with hk hu
    · exact h
    · exact h
    · have hused : (s.keyData k).used := by simpa using (not_or.1 hu).2
      exact h.dropKey (not_le.1 hk) hused (hcare hused)
  | setspecific t k x mem => exact h.pthreadSetspecific hop k x mem
  | exit => exact h.pthreadExit hop
  | advance => exact h.advance hop

end Steps

/-- In a run whose deletions of keys find every linked pthread visitable, what a pthread reads is
what it stored, and every destructor call that is due is made once. -/
theorem sound_of_careful_run (h : ((machine keysMax).restrict Careful).Reaches s) :
    s.Sound keysMax := by
  refine Inv.sound (Machine.Reaches.invariant h ?_ ?_)
  · rintro s rfl
    exact Inv.init
  · intro s op hs hop
    exact hs.step hop.1 hop.2

/-- Two pthreads store under one key. The key is deleted when one of them has exited. -/
theorem sound_of_careful_run_deleted : ∃ s, ((machine 128).restrict Careful).Reaches s ∧
    s.made 1 0 = [(7, 5)] ∧ s.made 2 0 = [(7, 6)] ∧ s.Sound 128 := by
  have hr := Machine.Reaches.run (M := (machine 128).restrict Careful) (.start rfl)
    [.create 1, .create 2, .keyCreate 1 (some 7), .setspecific 1 0 5 true, .setspecific 2 0 6 true,
      .exit 1, .advance 1, .advance 1, .advance 1, .advance 1, .advance 1, .advance 1, .advance 1,
      .keyDelete 2 0]
    (by decide +kernel)
  exact ⟨_, hr, by decide +kernel, by decide +kernel, sound_of_careful_run hr⟩

/-- A pthread exits with the value 5 under a key. While it is in the destructor another one deletes
the key: the destructor gets the value once more. -/
theorem destructor_called_twice : ∃ s, (machine 128).Reaches s ∧ s.phase 1 = .gone ∧
    s.due 1 0 = [(7, 5)] ∧ s.made 1 0 = [(7, 5), (7, 5)] := by
  have hr := Machine.Reaches.run (M := machine 128) (.start rfl)
    [.create 1, .create 2, .keyCreate 1 (some 7), .setspecific 1 0 5 true, .exit 1, .advance 1,
      .advance 1, .advance 1, .keyDelete 2 0, .advance 1, .advance 1, .advance 1, .advance 1]
    (by decide +kernel)
  exact ⟨_, hr, by decide +kernel⟩

end ThreadKeys

end LiteOS.Posix
