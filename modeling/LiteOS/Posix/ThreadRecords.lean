import LiteOS.Lib.Runs
import Mathlib.Data.List.Nodup

/-!
# The records of pthreads

The model of `pthread_create`, `pthread_exit`, `pthread_cancel`, `pthread_join` and
`pthread_key_delete` as far as they use the `PthreadData` of a pthread, which is found in
`g_pthreadListHead` and by the member `arg` of the task control block. A record that is allocated
gets a number of its own. `pthread_create` and `pthread_exit` are cut where the interrupts are
enabled.
-/

namespace LiteOS.Posix

open Lib Function

/-- The members of `PthreadData` that `pthread_cancel` looks at. -/
structure PthreadData where
  /-- `cancelState == PTHREAD_CANCEL_ENABLE` -/
  enabled : Bool := true
  /-- `cancelType == PTHREAD_CANCEL_ASYNCHRONOUS` -/
  asynchronous : Bool := false
  canceled : Bool := false
deriving DecidableEq, Repr

/-- The state of a task control block: `OS_TASK_STATUS_UNUSED`, `OS_TASK_STATUS_EXIT`, or any
other. -/
inductive BlockState
  | unused
  | live
  | exited
deriving DecidableEq, Repr

/-- A task control block. A block that is given back keeps its entry and its argument. -/
structure PthreadBlock where
  state : BlockState := .unused
  /-- `taskEntry == PthreadEntry` -/
  isPthread : Bool := false
  arg : Option ℕ := none
  joinable : Bool := false
deriving DecidableEq, Repr

inductive RecordPhase
  | absent
  /-- after `LOS_TaskCreateOnly` has failed and the record was freed -/
  | refused
  /-- before `LOS_ListAdd` in `pthread_create` -/
  | created
  | linked
  /-- in `pthread_exit`, before `LOS_ListDelete` -/
  | exiting
  /-- before `free(pthreadData)` -/
  | unlinked
  /-- before `LOS_TaskDelete` -/
  | freed
  | finished
  | cancelled
deriving DecidableEq, Repr

namespace RecordPhase

/-- The pthread was created and has neither exited nor been cancelled. -/
def listed : RecordPhase → Bool
  | linked | exiting => true
  | _ => false

def released : RecordPhase → Bool
  | refused | freed | finished | cancelled => true
  | _ => false

def hasTask : RecordPhase → Bool
  | created | linked | exiting | unlinked | freed => true
  | _ => false

end RecordPhase

/-- The records, the list of pthreads and the task control blocks. Not in the source: how often a
record was freed, and whether one was used after that or through a null pointer. -/
structure ThreadRecords where
  threads : List ℕ := []
  phase : ℕ → RecordPhase := fun _ => .absent
  tid : ℕ → ℕ := fun _ => 0
  data : ℕ → PthreadData := fun _ => {}
  tcb : ℕ → PthreadBlock := fun _ => {}
  freeCount : ℕ → ℕ := fun _ => 0
  badAccess : Bool := false

def neighbours (l : List ℕ) (d : ℕ) : List ℕ :=
  (l.zip l.tail).filterMap fun p => if p.1 = d then some p.2 else if p.2 = d then some p.1 else none

theorem mem_of_mem_neighbours {l : List ℕ} {d e : ℕ} (h : e ∈ neighbours l d) : e ∈ l := by
  obtain ⟨p, hp, hpe⟩ := List.mem_filterMap.1 h
  have hmem := List.of_mem_zip hp
  split_ifs at hpe
  · exact Option.some.inj hpe ▸ List.mem_of_mem_tail hmem.2
  · exact Option.some.inj hpe ▸ hmem.1

namespace ThreadRecords

section

variable (s : ThreadRecords) (d : ℕ)

def access (ds : List ℕ) : ThreadRecords :=
  { s with badAccess := s.badAccess || ds.any fun d => s.freeCount d ≠ 0 }

def setPhase (phase : RecordPhase) : ThreadRecords :=
  { s with phase := update s.phase d phase }

def modifyData (f : PthreadData → PthreadData) : ThreadRecords :=
  { s.access [d] with data := update s.data d (f (s.data d)) }

/-- `free` of a record -/
def free : ThreadRecords :=
  { s with freeCount := update s.freeCount d (s.freeCount d + 1) }

/-- `pthread_create` up to `LOS_TaskCreateOnly`: the record `d` and the task `tid`, each unless the
allocation fails. -/
def pthreadCreate (mem : Bool) (tid : Option ℕ) (joinable : Bool) : ThreadRecords :=
  if mem = false then s
  else
    match tid with
    | none => (s.free d).setPhase d .refused
    | some tid =>
      { s.setPhase d .created with
        tid := update s.tid d tid
        data := update s.data d {}
        tcb := update s.tcb tid ⟨.live, true, some d, joinable⟩ }

/-- `LOS_ListAdd(&g_pthreadListHead, &pthreadData->threadList)` -/
def link : ThreadRecords :=
  { (s.access (d :: s.threads.head?.toList)).setPhase d .linked with threads := d :: s.threads }

/-- `pthread_exit` up to the destructors -/
def pthreadExit : ThreadRecords :=
  (s.modifyData d fun data => { data with enabled := false }).setPhase d .exiting

/-- `LOS_ListDelete(&pthreadData->threadList)` -/
def unlink : ThreadRecords :=
  { (s.access (d :: neighbours s.threads d)).setPhase d .unlinked with
    threads := s.threads.erase d }

/-- `LOS_TaskDelete` of a task -/
def taskDelete (tid : ℕ) : ThreadRecords :=
  let state := if (s.tcb tid).joinable then .exited else .unused
  { s with tcb := update s.tcb tid { s.tcb tid with state := state } }

/-- `DoPthreadCancel`; `suspends` tells whether `LOS_TaskSuspend` returns `LOS_OK`. -/
def doPthreadCancel (tid d : ℕ) (suspends : Bool) : ThreadRecords :=
  let s := s.modifyData d fun data => { data with canceled := false }
  if suspends = false then s
  else
    let s := (s.free d).setPhase d .cancelled
    { s with tcb := update s.tcb tid { s.tcb tid with arg := none } }.taskDelete tid

/-- `pthread_cancel`. What a call does with a record that was freed, after it has used it, is not
followed. -/
def pthreadCancel (tid : ℕ) (suspends : Bool) : ThreadRecords :=
  if (s.tcb tid).isPthread = false then s
  else
    match (s.tcb tid).arg with
    | none => { s with badAccess := true }
    | some d =>
      if s.freeCount d ≠ 0 then { s with badAccess := true }
      else
        let s := s.modifyData d fun data => { data with canceled := true }
        if (s.data d).enabled ∧ (s.data d).asynchronous then s.doPthreadCancel tid d suspends
        else s

/-- `pthread_join` gives the block of a task that has exited back. -/
def pthreadJoin (tid : ℕ) : ThreadRecords :=
  if (s.tcb tid).state = .exited then
    { s with tcb := update s.tcb tid { s.tcb tid with state := .unused } }
  else s

/-- `pthread_key_delete` looks at every record of the list. -/
def pthreadKeyDelete : ThreadRecords := s.access s.threads

inductive Op
  | create (d : ℕ) (mem : Bool) (tid : Option ℕ) (joinable : Bool)
  | link (d : ℕ)
  | setcancelstate (d : ℕ) (enabled : Bool)
  | setcanceltype (d : ℕ) (asynchronous : Bool)
  | exit (d : ℕ)
  | unlink (d : ℕ)
  | free (d : ℕ)
  | taskDelete (d : ℕ)
  | cancel (tid : ℕ) (suspends : Bool)
  | join (tid : ℕ)
  | keyDelete
deriving DecidableEq, Repr

/-- A new record has a number that was not used before, and a task gets a block that is not used. A
pthread can set its cancel state and type in the destructors, too. -/
def allowed : Op → Prop
  | .create d _ tid _ => s.phase d = .absent ∧ ∀ t ∈ tid, (s.tcb t).state = .unused
  | .link d => s.phase d = .created
  | .setcancelstate d _ | .setcanceltype d _ => (s.phase d).listed
  | .exit d => s.phase d = .linked
  | .unlink d => s.phase d = .exiting
  | .free d => s.phase d = .unlinked
  | .taskDelete d => s.phase d = .freed
  | .cancel _ _ | .join _ | .keyDelete => True

def step : Op → ThreadRecords
  | .create d mem tid joinable => s.pthreadCreate d mem tid joinable
  | .link d => s.link d
  | .setcancelstate d enabled => s.modifyData d fun data => { data with enabled := enabled }
  | .setcanceltype d asynchronous =>
    s.modifyData d fun data => { data with asynchronous := asynchronous }
  | .exit d => s.pthreadExit d
  | .unlink d => s.unlink d
  | .free d => (s.free d).setPhase d .freed
  | .taskDelete d => (s.taskDelete (s.tid d)).setPhase d .finished
  | .cancel tid suspends => s.pthreadCancel tid suspends
  | .join tid => s.pthreadJoin tid
  | .keyDelete => s.pthreadKeyDelete

def machine : Machine ThreadRecords Op where
  init s := s = {}
  allowed := allowed
  step := step

/-- The list links the records of the pthreads that were created and have neither exited nor been
cancelled, a record is freed once, when nobody needs it any more, and is not used after that. -/
def Sound : Prop :=
  (∀ d, d ∈ s.threads ↔ (s.phase d).listed) ∧ s.threads.Nodup ∧
  (∀ d, s.freeCount d = if (s.phase d).released then 1 else 0) ∧ s.badAccess = false

/-- The task that is cancelled has a record that was not freed, and does not die of it: the pthread
has disabled cancellation or deferred it, or it cannot be suspended. -/
def Careful : Op → Prop
  | .cancel tid suspends => (s.tcb tid).isPthread → ∃ d ∈ (s.tcb tid).arg,
      s.freeCount d = 0 ∧
        ((s.data d).enabled = false ∨ (s.data d).asynchronous = false ∨ suspends = false)
  | _ => True

end

structure Inv (s : ThreadRecords) : Prop where
  listed : ∀ d, d ∈ s.threads ↔ (s.phase d).listed
  nodup : s.threads.Nodup
  count : ∀ d, s.freeCount d = if (s.phase d).released then 1 else 0
  task : ∀ d, (s.phase d).hasTask → (s.tcb (s.tid d)).state = .live ∧
    (s.tcb (s.tid d)).arg = some d
  access : s.badAccess = false

variable {s : ThreadRecords}

theorem Inv.sound (h : s.Inv) : s.Sound := ⟨h.listed, h.nodup, h.count, h.access⟩

theorem Inv.init : Inv {} where
  listed _ := by simp [RecordPhase.listed]
  nodup := List.nodup_nil
  count _ := rfl
  task _ h := by simp [RecordPhase.hasTask] at h
  access := rfl

theorem access_eq_self {ds : List ℕ} (h : ∀ d ∈ ds, s.freeCount d = 0) : s.access ds = s := by
  have hany : (ds.any fun d => decide (s.freeCount d ≠ 0)) = false := by simpa using h
  rw [access, hany, Bool.or_false]

section Steps

variable (h : s.Inv)
include h

variable {d e tid : ℕ}

theorem Inv.freeCount_eq_zero (hd : (s.phase d).released = false) : s.freeCount d = 0 := by
  rw [h.count, hd]
  rfl

theorem Inv.freeCount_of_mem (hd : d ∈ s.threads) : s.freeCount d = 0 := by
  refine h.freeCount_eq_zero ?_
  have := (h.listed d).1 hd
  cases hp : s.phase d <;> simp_all [RecordPhase.listed, RecordPhase.released]

theorem Inv.tid_ne (hd : (s.phase d).hasTask) (he : (s.phase e).hasTask)
    (hne : e ≠ d) : s.tid e ≠ s.tid d := by
  intro htid
  have hd := (h.task d hd).2
  rw [← htid, (h.task e he).2] at hd
  exact hne (Option.some.inj hd)

theorem Inv.modifyData (hd : s.freeCount d = 0) (f : PthreadData → PthreadData) :
    (s.modifyData d f).Inv := by
  rw [ThreadRecords.modifyData, access_eq_self (by simpa using hd)]
  exact ⟨h.listed, h.nodup, h.count, h.task, h.access⟩

theorem Inv.moves (phase : RecordPhase) (threads : List ℕ) (freeCount : ℕ)
    (htask : phase.hasTask → (s.phase d).hasTask) (hnodup : threads.Nodup)
    (hself : d ∈ threads ↔ phase.listed) (hothers : ∀ e, e ≠ d → (e ∈ threads ↔ e ∈ s.threads))
    (hcount : freeCount = if phase.released then 1 else 0) : Inv { s with
      phase := update s.phase d phase
      threads := threads
      freeCount := update s.freeCount d freeCount } := by
  refine ⟨fun e => ?_, hnodup, fun e => ?_, fun e he => ?_, h.access⟩
  · by_cases hed : e = d
    · subst hed
      simpa using hself
    · simpa [hed, h.listed] using hothers e hed
  · by_cases hed : e = d
    · subst hed
      simpa using hcount
    · simpa [hed] using h.count e
  · by_cases hed : e = d
    · subst hed
      exact h.task e (htask (by simpa using he))
    · exact h.task e (by simpa [hed] using he)

theorem Inv.link (hd : s.phase d = .created) : (s.link d).Inv := by
  have hzero := h.freeCount_eq_zero (by rw [hd]; rfl)
  have hnot : d ∉ s.threads := by simp [h.listed, hd, RecordPhase.listed]
  have hacc : s.access (d :: s.threads.head?.toList) = s := by
    refine access_eq_self fun e he => ?_
    rcases List.mem_cons.1 he with rfl | he
    · exact hzero
    · exact h.freeCount_of_mem (List.mem_of_head? (by simpa using he))
  rw [ThreadRecords.link, hacc]
  have := h.moves (d := d) .linked (d :: s.threads) 0 (by simp [hd, RecordPhase.hasTask])
    (List.nodup_cons.2 ⟨hnot, h.nodup⟩) (by simp [RecordPhase.listed]) (by simp +contextual) rfl
  rwa [← hzero, update_eq_self] at this

theorem Inv.pthreadExit (hd : s.phase d = .linked) : (s.pthreadExit d).Inv := by
  have hzero := h.freeCount_eq_zero (by rw [hd]; rfl)
  have hmod := h.modifyData hzero fun data => { data with enabled := false }
  have := hmod.moves .exiting s.threads 0
    (fun _ => by rw [show (s.modifyData d _).phase d = _ from hd]; rfl)
    h.nodup (by simp [h.listed, hd, RecordPhase.listed]) (fun _ _ => Iff.rfl) rfl
  rwa [← show (s.modifyData d _).freeCount d = 0 from hzero, update_eq_self] at this

theorem Inv.unlink (hd : s.phase d = .exiting) : (s.unlink d).Inv := by
  have hzero := h.freeCount_eq_zero (by rw [hd]; rfl)
  have hacc : s.access (d :: neighbours s.threads d) = s := by
    refine access_eq_self fun e he => ?_
    rcases List.mem_cons.1 he with rfl | he
    · exact hzero
    · exact h.freeCount_of_mem (mem_of_mem_neighbours he)
  rw [ThreadRecords.unlink, hacc]
  have := h.moves (d := d) .unlinked (s.threads.erase d) 0 (by simp [hd, RecordPhase.hasTask])
    (h.nodup.erase d) (by simp [h.nodup.mem_erase_iff, RecordPhase.listed])
    (fun e he => by simp [he]) rfl
  rwa [← hzero, update_eq_self] at this

theorem Inv.free (hd : s.phase d = .unlinked) : ((s.free d).setPhase d .freed).Inv := by
  have hzero := h.freeCount_eq_zero (by rw [hd]; rfl)
  have := h.moves (d := d) .freed s.threads 1 (by simp [hd, RecordPhase.hasTask]) h.nodup
    (by simp [h.listed, hd, RecordPhase.listed]) (fun _ _ => Iff.rfl) rfl
  rw [ThreadRecords.free, hzero]
  exact this

theorem Inv.taskDelete (hd : s.phase d = .freed) :
    ((s.taskDelete (s.tid d)).setPhase d .finished).Inv := by
  have hone : s.freeCount d = 1 := by
    rw [h.count, hd]
    rfl
  have hmoved := h.moves (d := d) .finished s.threads 1 (by simp [RecordPhase.hasTask]) h.nodup
    (by simp [h.listed, hd, RecordPhase.listed]) (fun _ _ => Iff.rfl) rfl
  rw [← hone, update_eq_self] at hmoved
  refine ⟨hmoved.listed, hmoved.nodup, hmoved.count, fun e he => ?_, hmoved.access⟩
  have hed : e ≠ d := by
    rintro rfl
    simp [ThreadRecords.setPhase, RecordPhase.hasTask] at he
  have hold : (s.phase e).hasTask := by
    simpa [ThreadRecords.setPhase, ThreadRecords.taskDelete, hed] using he
  have hne := h.tid_ne (by rw [hd]; rfl) hold hed
  simpa [ThreadRecords.setPhase, ThreadRecords.taskDelete, hne] using h.task e hold

theorem Inv.pthreadJoin (tid : ℕ) : (s.pthreadJoin tid).Inv := by
  simp only [ThreadRecords.pthreadJoin]
  split_ifs with hx
  · refine ⟨h.listed, h.nodup, h.count, fun d hd => ?_, h.access⟩
    have hne : s.tid d ≠ tid := by
      rintro rfl
      simp [(h.task d hd).1] at hx
    simpa [hne] using h.task d hd
  · exact h

theorem Inv.pthreadCreate (hd : s.phase d = .absent) (mem : Bool) {tid : Option ℕ}
    (htid : ∀ t ∈ tid, (s.tcb t).state = .unused) (joinable : Bool) :
    (s.pthreadCreate d mem tid joinable).Inv := by
  have hzero := h.freeCount_eq_zero (by rw [hd]; rfl)
  have hnot : d ∉ s.threads := by simp [h.listed, hd, RecordPhase.listed]
  simp only [ThreadRecords.pthreadCreate]
  split_ifs
  · exact h
  cases tid with
  | none =>
    have := h.moves (d := d) .refused s.threads 1 (by simp [RecordPhase.hasTask]) h.nodup
      (by simp [hnot, RecordPhase.listed]) (fun _ _ => Iff.rfl) rfl
    simp only [ThreadRecords.free, hzero]
    exact this
  | some tid =>
    refine ⟨fun e => ?_, h.nodup, fun e => ?_, fun e he => ?_, h.access⟩
    · by_cases hed : e = d
      · subst hed
        simpa [ThreadRecords.setPhase, RecordPhase.listed] using hnot
      · simpa [ThreadRecords.setPhase, hed] using h.listed e
    · by_cases hed : e = d
      · subst hed
        simpa [ThreadRecords.setPhase, RecordPhase.released] using hzero
      · simpa [ThreadRecords.setPhase, hed] using h.count e
    · by_cases hed : e = d
      · subst hed
        simp
      · have hold : (s.phase e).hasTask := by
          simpa [ThreadRecords.setPhase, hed] using he
        have hne : s.tid e ≠ tid := by
          rintro rfl
          have := (h.task e hold).1
          simp [htid _ rfl] at this
        simpa [hed, hne] using h.task e hold

theorem Inv.pthreadCancel {suspends : Bool} (hcare : s.Careful (.cancel tid suspends)) :
    (s.pthreadCancel tid suspends).Inv := by
  simp only [ThreadRecords.pthreadCancel]
  split_ifs with hp
  · exact h
  obtain ⟨d, hd, hzero, hkind⟩ := hcare (by simpa using hp)
  have hmod := h.modifyData hzero
  simp only [Option.mem_def.1 hd, hzero, ne_eq, not_true_eq_false, if_false]
  split_ifs with hasync
  · have hs : suspends = false := by
      simp [ThreadRecords.modifyData] at hasync
      simpa [hasync] using hkind
    simp only [doPthreadCancel, hs, if_true]
    exact (hmod _).modifyData hzero _
  · exact hmod _

theorem Inv.step {op : Op} (hop : s.allowed op) (hcare : s.Careful op) : (s.step op).Inv := by
  cases op with
  | create _ mem _ joinable => exact h.pthreadCreate hop.1 mem hop.2 joinable
  | link => exact h.link hop
  | setcancelstate d =>
    simp only [ThreadRecords.step]
    exact h.modifyData (h.freeCount_of_mem ((h.listed d).2 hop)) _
  | setcanceltype d =>
    simp only [ThreadRecords.step]
    exact h.modifyData (h.freeCount_of_mem ((h.listed d).2 hop)) _
  | exit => exact h.pthreadExit hop
  | unlink => exact h.unlink hop
  | free => exact h.free hop
  | taskDelete => exact h.taskDelete hop
  | cancel => exact h.pthreadCancel hcare
  | join tid => exact h.pthreadJoin tid
  | keyDelete =>
    simp only [ThreadRecords.step, pthreadKeyDelete,
      access_eq_self fun d hd => h.freeCount_of_mem hd]
    exact h

end Steps

/-- If no pthread is cancelled while it can be killed, or after its record was freed, the records
are kept as they should be. -/
theorem sound_of_gentle_run (h : (machine.restrict Careful).Reaches s) : s.Sound := by
  have hinv : s.Inv := h.invariant (fun s hs => hs ▸ .init) fun s op hs hop => hs.step hop.1 hop.2
  exact hinv.sound

instance (s : ThreadRecords) (op) : Decidable (machine.allowed s op) := by
  unfold machine ThreadRecords.allowed
  dsimp only
  split <;> infer_instance

instance (s : ThreadRecords) (op) : Decidable (s.Careful op) := by
  unfold Careful
  split <;> infer_instance

/-- A pthread with deferred cancellation is cancelled, exits and is joined, and another one takes
its task control block. -/
theorem sound_of_gentle_run_joined : ∃ s, (machine.restrict Careful).Reaches s ∧
    s.threads = [2] ∧ s.freeCount 1 = 1 ∧ s.Sound := by
  have hr := Machine.Reaches.run (M := machine.restrict Careful) (.start rfl)
    [.create 1 true (some 5) true, .link 1, .cancel 5 true, .exit 1, .keyDelete, .unlink 1,
      .free 1, .taskDelete 1, .join 5, .create 2 true (some 5) true, .link 2, .cancel 5 true,
      .keyDelete]
    (by decide +kernel)
  exact ⟨_, hr, by decide +kernel, by decide +kernel, sound_of_gentle_run hr⟩

/-- A pthread with asynchronous cancellation is cancelled: its record is freed and stays in the
list, where the next deletion of a key uses it. A pthread that has exited is cancelled: the record
is used after it was freed. -/
theorem freed_record_linked_and_used :
    (∃ s, machine.Reaches s ∧ s.phase 1 = .cancelled ∧ s.freeCount 1 = 1 ∧ s.threads = [1] ∧
      s.badAccess = false ∧ s.pthreadKeyDelete.badAccess = true) ∧
    ∃ s, machine.Reaches s ∧ s.phase 1 = .finished ∧ s.freeCount 1 = 1 ∧
      s.badAccess = false ∧ (s.pthreadCancel 5 false).badAccess = true := by
  have hasync := Machine.Reaches.run (M := machine) (.start rfl)
    [.create 1 true (some 5) true, .link 1, .setcanceltype 1 true, .cancel 5 true]
    (by decide +kernel)
  have hexit := Machine.Reaches.run (M := machine) (.start rfl)
    [.create 1 true (some 5) true, .link 1, .exit 1, .unlink 1, .free 1, .taskDelete 1]
    (by decide +kernel)
  exact ⟨⟨_, hasync, by decide +kernel⟩, ⟨_, hexit, by decide +kernel⟩⟩

end ThreadRecords

end LiteOS.Posix
