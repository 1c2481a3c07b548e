import LiteOS.Ipc.Queue

/-!
# The contract of message queues

Any number of tasks and interrupt handlers write to and read from the queues, while queues are
created and deleted, tasks are created, delayed, suspended, resumed and reprioritised and timeouts
expire. A queue behaves like a sequence of at most `queueLen` messages that is written at both ends
and read at the front.

A wake hands a slot or a message to a task without touching the counters, so the sequence is longer
than what is counted as readable: by the messages that woken readers have not yet picked up.
-/

namespace LiteOS.Kernel

open Lib Sched LosQueueCB Function Queues ReadWrite WaitHead Request

instance : Request QueueRequest where
  head r := .readWriteList r.queueID r.operateType.readWrite
  isWait _ := rfl

/-- The kernel and its queues, with the calls in progress. -/
structure QueueSys where
  k : Sched
  queues : Queues
  calls : Calls QueueRequest := {}

inductive QueueOp
  | task (op : TaskOp)
  | queueCreate (len maxMsgSize : ℕ) (mem : Option Bytes)
  | queueReadCopy (queueID bufferSize timeOut : ℕ) (intActive : Bool)
  | queueWriteCopy (queueID : ℕ) (buffer : List UInt8) (timeOut : ℕ) (intActive : Bool)
  | queueWriteHeadCopy (queueID : ℕ) (buffer : List UInt8) (timeOut : ℕ) (intActive : Bool)
  | queueOperateReturn
  | queueDelete (queueID : ℕ)

/-- What a call that returns `LOS_OK` has done; `out` are the bytes in the reader's buffer. -/
inductive QueueDone
  | writeTail (msg : List UInt8)
  | writeHead (msg : List UInt8)
  | read (bufferSize : ℕ) (out : List UInt8)
deriving DecidableEq

def QueueRequest.done (r : QueueRequest) (out : List UInt8) : QueueDone :=
  match r.operateType.readWrite, r.operateType.tail with
  | .read, _ => .read r.bufferSize out
  | .write, true => .writeTail r.bufferAddr
  | .write, false => .writeHead r.bufferAddr

/-- A sequence of at most `len` messages, written at both ends and read at the front. -/
inductive DequeStep (len : ℕ) :
    Option QueueDone → List (List UInt8) → List (List UInt8) → Prop
  | idle (l : List (List UInt8)) : DequeStep len none l l
  | writeTail (msg : List UInt8) (l : List (List UInt8)) : l.length < len →
    DequeStep len (some (.writeTail msg)) l (l ++ [msg])
  | writeHead (msg : List UInt8) (l : List (List UInt8)) : l.length < len →
    DequeStep len (some (.writeHead msg)) l (msg :: l)
  | read (bufferSize : ℕ) (msg : List UInt8) (l : List (List UInt8)) :
    DequeStep len (some (.read bufferSize (msg.take bufferSize))) (msg :: l) l

theorem DequeStep.eq_of_none {len : ℕ} {l l' : List (List UInt8)} (h : DequeStep len none l l') :
    l' = l := by
  cases h
  rfl

namespace QueueSys

section

variable (c : Config) (s : QueueSys)

def began (r : QueueRequest) :
    Sched × Queues × Option (Errno × List UInt8) → QueueSys × Option (ℕ × QueueDone)
  | (k, m, none) => (⟨k, m, s.calls.enter s.k.runTask r⟩, none)
  | (k, m, some (.ok, out)) => ({ s with k := k, queues := m }, some (r.queueID, r.done out))
  | (k, m, some _) => ({ s with k := k, queues := m }, none)

def returned (r : QueueRequest) :
    Sched × Queues × Errno × List UInt8 → QueueSys × Option (ℕ × QueueDone)
  | (k, m, .ok, out) => (⟨k, m, s.calls.leave s.k.runTask⟩, some (r.queueID, r.done out))
  | (k, m, _, _) => (⟨k, m, s.calls.leave s.k.runTask⟩, none)

/-- The effect of an operation, and what it has done to which queue if it returns `LOS_OK`. -/
def act : QueueOp → QueueSys × Option (ℕ × QueueDone)
  | .task op => ({ s with k := op.exec c s.k }, none)
  | .queueCreate len maxMsgSize mem =>
    let (k, m, _) := s.k.osQueueCreate s.queues len maxMsgSize mem
    ({ s with k := k, queues := m }, none)
  | .queueReadCopy q bufferSize timeOut intActive => s.began (readCopy q bufferSize)
      (s.k.losQueueReadCopy c s.queues q bufferSize timeOut intActive)
  | .queueWriteCopy q buffer timeOut intActive => s.began (writeCopy q true buffer)
      (s.k.losQueueWriteCopy c s.queues q buffer timeOut intActive)
  | .queueWriteHeadCopy q buffer timeOut intActive => s.began (writeCopy q false buffer)
      (s.k.losQueueWriteHeadCopy c s.queues q buffer timeOut intActive)
  | .queueOperateReturn =>
    match s.calls.pc s.k.runTask with
    | none => (s, none)
    | some r => s.returned r (s.k.osQueueOperateReturn c s.queues r)
  | .queueDelete q => ({ s with queues := (s.k.losQueueDelete c s.queues q).1 }, none)

/-- When an operation can come. Tasks call the queue functions while they execute their own code and
are not inside another call; the memory of a queue is less than 2 GiB. -/
def Enabled : QueueOp → Prop
  | .task op => op.Enabled c s.k ∧ op.Gentle s.k
  | .queueCreate len maxMsgSize mem => len < 2 ^ 16 ∧ maxMsgSize < 2 ^ 16 ∧
      (mem.isSome → len * (maxMsgSize + 4) < 2 ^ 31)
  | .queueReadCopy _ _ _ intActive => intActive = false →
      Executing c s.k ∧ s.calls.pc s.k.runTask = none
  | .queueWriteCopy _ _ _ intActive => intActive = false →
      Executing c s.k ∧ s.calls.pc s.k.runTask = none
  | .queueWriteHeadCopy _ _ _ intActive => intActive = false →
      Executing c s.k ∧ s.calls.pc s.k.runTask = none
  | .queueOperateReturn => Executing c s.k ∧ s.calls.pc s.k.runTask ≠ none
  | .queueDelete _ => True

/-- Runs after `LOS_KernelInit`. -/
def machine : Machine QueueSys QueueOp where
  init s := ∃ k swtmrStack idleStack, losKernelInit c swtmrStack idleStack = (k, .ok) ∧
    s = { k := k, queues := Queues.osQueueInit c }
  allowed := Enabled c
  step s op := (act c s op).1

instance (c : Config) (s : QueueSys) (op : QueueOp) : Decidable (Enabled c s op) := by
  cases op <;> unfold Enabled <;> infer_instance

instance (c : Config) (s : QueueSys) (op : QueueOp) : Decidable ((machine c).allowed s op) :=
  inferInstanceAs (Decidable (Enabled c s op))

/-- The woken readers or writers of a queue that have not resumed. -/
def woken (q : ℕ) (rw : ReadWrite) : ℕ :=
  inflight c s.k s.calls.heads ⟨.readWriteList q rw, rfl⟩

/-- The messages, or the free slots, of a queue: those counted and those handed to woken tasks. -/
def stock (q : ℕ) (rw : ReadWrite) : ℕ :=
  (s.queues.allQueue q).readWriteableCnt rw + s.woken c q rw

def contents (q : ℕ) : List (List UInt8) :=
  (s.queues.allQueue q).contents (s.stock c q .read)

/-- What a step has done to queue `q`. -/
def doneAt (q : ℕ) : Option (ℕ × QueueDone) → Option QueueDone
  | some (q', d) => if q' = q then some d else none
  | none => none

inductive Fits (cb : LosQueueCB) : QueueRequest → Prop
  | read (q n : ℕ) : 0 < n → n < securecMemMaxLen → Fits cb (readCopy q n)
  | write (q : ℕ) (tail : Bool) (msg : List UInt8) : msg.length ≤ cb.queueSize - 4 →
    Fits cb (writeCopy q tail msg)

/-- A queue in use, when `permit` slots or messages are in the hands of the running task. -/
structure QueueOk (c : Config) (s : QueueSys) (permit : ℕ → ReadWrite → ℕ) (q : ℕ) : Prop where
  ring : RingOk (s.queues.allQueue q) (s.stock c q .read + permit q .read)
  total : s.stock c q .read + permit q .read + (s.stock c q .write + permit q .write) =
    (s.queues.allQueue q).queueLen

structure Inv (c : Config) (permit : ℕ → ReadWrite → ℕ) (s : QueueSys) : Prop where
  run : RunInv c False s.k
  wait : WaitInv c s.k s.calls
  unused : s.queues.freeQueueList.Nodup
  free : ∀ q ∈ s.queues.freeQueueList, (s.queues.allQueue q).queueState = false
  asked : ∀ t r, s.calls.pc t = some r → (s.k.status t).timeout = false →
    (s.queues.allQueue r.queueID).queueState ∧ Fits (s.queues.allQueue r.queueID) r
  queue : ∀ q, (s.queues.allQueue q).queueState → QueueOk c s permit q

/-- The messages of a queue, with those in the hands of the running task. -/
def held (permit : ℕ → ReadWrite → ℕ) (s : QueueSys) (q : ℕ) : List (List UInt8) :=
  (s.queues.allQueue q).contents (s.stock c q .read + permit q .read)

/-- What a step, or a part of one, does to a queue in use. -/
structure Moves (c : Config) (permit : ℕ → ReadWrite → ℕ) (s : QueueSys)
    (permit' : ℕ → ReadWrite → ℕ) (s' : QueueSys) (q : ℕ) (d : Option QueueDone) : Prop where
  state : (s'.queues.allQueue q).queueState = (s.queues.allQueue q).queueState
  len : (s'.queues.allQueue q).queueLen = (s.queues.allQueue q).queueLen
  step : DequeStep (s.queues.allQueue q).queueLen d (held c permit s q) (held c permit' s' q)

def noPermit : ℕ → ReadWrite → ℕ := fun _ _ => 0

def onePermit (q : ℕ) (rw : ReadWrite) : ℕ → ReadWrite → ℕ := fun q' rw' =>
  if q' = q ∧ rw' = rw then 1 else 0

end

variable {c : Config} {s s' s'' : QueueSys}
  {q swtmrStack idleStack len maxMsgSize q' bufferSize timeOut : ℕ} {rw rw' : ReadWrite}
  {op : QueueOp} {t u : TaskID} {r : QueueRequest} {permit permit' permit'' : ℕ → ReadWrite → ℕ}

variable {k k' : Sched} {d : Option QueueDone} {cnt : ReadWrite → ℕ}

theorem Inv.init (h : losKernelInit c swtmrStack idleStack = (k, .ok)) :
    Inv c noPermit { k := k, queues := osQueueInit c } where
  run := .of_losKernelInit h
  wait := .init (booted_of_losKernelInit False h).inv.1 (booted_of_losKernelInit False h).fresh
  unused := List.nodup_range
  free _ _ := rfl
  asked t r hr := nomatch hr
  queue q hq := absurd hq (by simp [osQueueInit])

/-! ## What does not concern a queue -/

theorem stock_congr (hcb : (s'.queues.allQueue q).readWriteableCnt rw =
      (s.queues.allQueue q).readWriteableCnt rw) (hw : s'.woken c q rw = s.woken c q rw) :
    s'.stock c q rw = s.stock c q rw := by rw [stock, stock, hcb, hw]

theorem QueueOk.restock (h : QueueOk c s permit q)
    (hcb : s'.queues.allQueue q = { s.queues.allQueue q with readWriteableCnt := cnt })
    (hst : ∀ rw, s'.stock c q rw + permit' q rw = s.stock c q rw + permit q rw) :
    QueueOk c s' permit' q := by
  constructor
  · rw [hcb, hst]
    exact h.ring.recount cnt
  · rw [hcb, hst, hst]
    exact h.total

theorem QueueOk.congr (h : QueueOk c s permit q) (hcb : s'.queues.allQueue q = s.queues.allQueue q)
    (hw : ∀ rw, s'.woken c q rw = s.woken c q rw) : QueueOk c s' permit q :=
  h.restock hcb fun rw => by rw [stock_congr (by rw [hcb]) (hw rw)]

/-- A part of a step that does not change the messages of a queue. -/
theorem moves_of_stock
    (hcb : s'.queues.allQueue q = { s.queues.allQueue q with readWriteableCnt := cnt })
    (hst : s'.stock c q .read + permit' q .read = s.stock c q .read + permit q .read) :
    Moves c permit s permit' s' q none := by
  refine ⟨by rw [hcb], by rw [hcb], ?_⟩
  rw [held, held, hst, hcb]
  exact .idle _

theorem moves_of_same (hcb : s'.queues.allQueue q = s.queues.allQueue q)
    (hw : s'.woken c q .read = s.woken c q .read) (hp : permit' q = permit q) :
    Moves c permit s permit' s' q none :=
  moves_of_stock hcb (by rw [stock_congr (by rw [hcb]) hw, hp])

theorem Moves.trans_none
    (h : Moves c permit s permit' s' q d) (h' : Moves c permit' s' permit'' s'' q none) :
    Moves c permit s permit'' s'' q d := by
  refine ⟨h'.state.trans h.state, h'.len.trans h.len, ?_⟩
  rw [h'.step.eq_of_none]
  exact h.step

theorem Moves.none_trans
    (h : Moves c permit s permit' s' q none) (h' : Moves c permit' s' permit'' s'' q d) :
    Moves c permit s permit'' s'' q d := by
  refine ⟨h'.state.trans h.state, h'.len.trans h.len, ?_⟩
  rw [← h.len, ← h.step.eq_of_none]
  exact h'.step

theorem woken_env (h : WaitInv c s.k s.calls) (he : Env s.k k') :
    woken c { s with k := k' } q rw = s.woken c q rw :=
  inflight_congr fun _ _ => h.heads.granted_env he

theorem Inv.task (h : Inv c permit s) (hrun : RunInv c False k') (he : Env s.k k') :
    Inv c permit { s with k := k' } :=
  { h with
    run := hrun
    wait := h.wait.env hrun.sched.1 he
    asked := fun t r hr hto => by
      refine h.asked t r hr ?_
      rcases he.wait t (h.wait.live t r hr).2.1 with ⟨-, he'⟩ | ⟨-, -, he'⟩
      · exact he'.symm.trans hto
      · exact absurd (hto.symm.trans he') (by simp)
    queue := fun q hq => (h.queue q hq).congr rfl fun _ => woken_env h.wait he }

theorem Inv.unused_empty (h : Inv c permit s) (hq : (s.queues.allQueue q).queueState = false) :
    (∀ rw, s.k.lists (.readWriteList q rw) = []) ∧ ∀ rw, s.woken c q rw = 0 := by
  constructor
  · intro rw
    refine List.eq_nil_iff_forall_not_mem.mpr fun t hm => ?_
    obtain ⟨hto, r, hr, hhead⟩ := h.wait.of_mem h.run.sched.1 rfl hm
    cases hhead
    simpa [hq] using (h.asked t r hr hto).1
  · intro rw
    refine inflight_eq_zero_iff.mpr fun t _ hg => ?_
    obtain ⟨r, hr, hhead⟩ := Option.map_eq_some_iff.mp hg.1
    cases hhead
    simpa [hq] using (h.asked t r hr hg.2.2).1

/-! ## Creating and deleting -/

variable {cb cb' : LosQueueCB} {mem : Option Bytes}

theorem queueOk_new (hcb : s.queues.allQueue q = cb) (hh : cb.queueHead = 0) (ht : cb.queueTail = 0)
    (hl : 0 < cb.queueLen) (hlt : cb.queueLen < 2 ^ 16) (hs : 4 < cb.queueSize)
    (hst : cb.queueSize < 2 ^ 16) (hr : cb.readWriteableCnt .read = 0)
    (hw : cb.readWriteableCnt .write = cb.queueLen) (hz : ∀ rw, s.woken c q rw = 0) :
    QueueOk c s noPermit q := by
  have hstock : ∀ rw, s.stock c q rw = cb.readWriteableCnt rw := fun rw => by
    rw [stock, hz, hcb, Nat.add_zero]
  constructor
  · rw [hcb, hstock, hr]
    refine ⟨hl, hlt, hs, hst, hh ▸ hl, ?_, Nat.zero_le _, fun i hi => ?_⟩
    · rw [ht, hh, noPermit, Nat.zero_mod]
    · exact absurd hi (Nat.not_lt_zero i)
  · rw [hcb, hstock, hstock, hr, hw]
    simp [noPermit]

theorem Inv.create (h : Inv c noPermit s) (hlen : len < 2 ^ 16) :
    Inv c noPermit (act c s (.queueCreate len maxMsgSize mem)).1 ∧
      ∀ q, Moves c noPermit s noPermit (act c s (.queueCreate len maxMsgSize mem)).1 q none ∨
        ((s.queues.allQueue q).queueState = false ∧
          (act c s (.queueCreate len maxMsgSize mem)).1.contents c q = []) := by
  have hsame : Inv c noPermit s ∧ ∀ q, Moves c noPermit s noPermit s q none ∨
      ((s.queues.allQueue q).queueState = false ∧ s.contents c q = []) :=
    ⟨h, fun q => .inl (moves_of_same rfl rfl rfl)⟩
  simp only [act, osQueueCreate]
  split_ifs with hbig hzero hover
  iterate 3 exact hsame
  · cases mem with
    | none => exact hsame
    | some queue =>
      cases hl : s.queues.freeQueueList with
      | nil => exact hsame
      | cons q free =>
        have hfree := h.free q (by simp [hl])
        obtain ⟨hnil, hwoken⟩ := h.unused_empty hfree
        have hnodup := h.unused
        rw [hl, List.nodup_cons] at hnodup
        have hmem : s.k.lists (.memList q) = [] := by
          refine List.eq_nil_iff_forall_not_mem.mpr fun t hm => ?_
          obtain ⟨-, r, -, hhead⟩ := h.wait.of_mem h.run.sched.1 rfl hm
          cases hhead
        simp only [listInitQueue_eq_self hnil hmem, Queues.modify]
        refine ⟨{ h with
          unused := hnodup.2
          free := fun q' hq' => ?_
          asked := fun t r hr hto => ?_
          queue := fun q' hq' => ?_ }, fun q' => ?_⟩
        · have hne : q' ≠ q := fun e => hnodup.1 (e ▸ hq')
          simpa [hne] using h.free q' (by simp [hl, show q' ∈ free from hq'])
        · obtain ⟨huse, hfit⟩ := h.asked t r hr hto
          have hne : r.queueID ≠ q := by
            rintro rfl
            simp [hfree] at huse
          simpa [hne] using ⟨huse, hfit⟩
        · by_cases hne : q' = q
          · subst hne
            have hmax : maxMsgSize ≤ 0xFFFF - 4 := by simpa [nullShort] using hbig
            exact queueOk_new (update_self ..) rfl rfl (by simp; omega) hlen
              (by simp; omega)
              (by simp; omega) rfl rfl hwoken
          · exact (h.queue q' (by simpa [hne] using hq')).congr (by simp [hne]) fun _ => rfl
        · by_cases hne : q' = q
          · subst hne
            refine .inr ⟨hfree, List.length_eq_zero_iff.mp ?_⟩
            rw [contents, LosQueueCB.contents, RingBuffer.length_window, stock]
            simp only [update_self, Nat.zero_add]
            exact hwoken .read
          · exact .inl (moves_of_same (by simp [hne]) rfl rfl)

theorem Inv.delete (h : Inv c noPermit s) (q : ℕ) : Inv c noPermit (act c s (.queueDelete q)).1 ∧
      ∀ q', ((act c s (.queueDelete q)).1.queues.allQueue q').queueState →
        Moves c noPermit s noPermit (act c s (.queueDelete q)).1 q' none := by
  have hsame : Inv c noPermit s ∧ ∀ q', (s.queues.allQueue q').queueState →
      Moves c noPermit s noPermit s q' none :=
    ⟨h, fun q _ => moves_of_same rfl rfl rfl⟩
  simp only [act, losQueueDelete]
  split_ifs with hlim hstate hr hw hmem hcnt
  iterate 6 exact hsame
  · -- nobody waits and all slots are counted, so no call on the queue is in progress
    have huse : (s.queues.allQueue q).queueState := by simpa using hstate
    have htotal := (h.queue q huse).total
    simp only [stock] at htotal
    have hwoken : ∀ rw, s.woken c q rw = 0 := fun rw => by
      cases rw <;> omega
    have hlists : ∀ rw, s.k.lists (.readWriteList q rw) = [] := fun rw => by
      cases rw
      · exact not_not.mp hr
      · exact not_not.mp hw
    have hnot : q ∉ s.queues.freeQueueList := fun hm => by simp [h.free q hm] at huse
    refine ⟨{ h with
      unused := List.nodup_cons.mpr ⟨hnot, h.unused⟩
      free := fun q' hq' => ?_
      asked := fun t r hr' hto => ?_
      queue := fun q' hq' => ?_ }, fun q' hq' => ?_⟩
    · by_cases hne : q' = q
      · simp [Queues.modify, hne]
      · simpa [Queues.modify, hne] using h.free q' ((List.mem_cons.mp hq').resolve_left hne)
    · have hpc := hr'
      have hne : r.queueID ≠ q := by
        rintro rfl
        obtain ⟨ht, -⟩ := h.wait.live t r hpc
        cases hp : (s.k.status t).pend with
        | true =>
          obtain ⟨-, r', hr'', hm⟩ := h.wait.pend t ht hp
          cases hpc.symm.trans hr''
          simp [Request.head, hlists] at hm
        | false =>
          exact inflight_eq_zero_iff.mp (hwoken r.operateType.readWrite) t ht
            ⟨Option.map_eq_some_iff.mpr ⟨r, hpc, rfl⟩, hp, hto⟩
      simpa [Queues.modify, hne] using h.asked t r hpc hto
    · have hne : q' ≠ q := by
        rintro rfl
        simp [Queues.modify] at hq'
      exact (h.queue q' (by simpa [Queues.modify, hne] using hq')).congr
        (by simp [Queues.modify, hne]) fun _ => rfl
    · have hne : q' ≠ q := by
        rintro rfl
        simp [Queues.modify] at hq'
      exact moves_of_same (by simp [Queues.modify, hne]) rfl rfl

/-! ## Transfers -/

variable {m : Queues} {f : LosQueueCB → LosQueueCB}

theorem modify_self : (m.modify q f).allQueue q = f (m.allQueue q) := by simp [Queues.modify]

theorem modify_of_ne (h : q' ≠ q) :
    (m.modify q f).allQueue q' = m.allQueue q' := by simp [Queues.modify, h]

theorem Fits.congr (h : Fits cb r) (hs : cb'.queueSize = cb.queueSize) : Fits cb' r := by
  cases h with
  | read q n h0 hmax => exact .read q n h0 hmax
  | write q tail msg hm => exact .write q tail msg (hs ▸ hm)

theorem Inv.modify (h : Inv c permit s)
    (hst : (f (s.queues.allQueue q)).queueState = (s.queues.allQueue q).queueState)
    (hs : (f (s.queues.allQueue q)).queueSize = (s.queues.allQueue q).queueSize)
    (hp : ∀ q' ≠ q, permit' q' = permit q') (hq : (s.queues.allQueue q).queueState →
      QueueOk c { s with queues := s.queues.modify q f } permit' q) :
    Inv c permit' { s with queues := s.queues.modify q f } := by
  have hstate : ∀ q', ((s.queues.modify q f).allQueue q').queueState =
      (s.queues.allQueue q').queueState := fun q' => by
    by_cases hne : q' = q
    · subst hne
      rw [modify_self, hst]
    · rw [modify_of_ne hne]
  refine { h with
    free := fun q' hq' => (hstate q').trans (h.free q' hq')
    asked := fun t r hr hto => ?_
    queue := fun q' hq' => ?_ }
  · obtain ⟨huse, hfit⟩ := h.asked t r hr hto
    refine ⟨(hstate _).trans huse, hfit.congr ?_⟩
    by_cases hne : r.queueID = q
    · rw [hne, modify_self, hs]
    · rw [modify_of_ne hne]
  · have huse := (hstate q').symm.trans hq'
    by_cases hne : q' = q
    · subst hne
      exact hq huse
    · have hok : QueueOk c { s with queues := s.queues.modify q f } permit q' :=
        (h.queue q' huse).congr (modify_of_ne hne) fun _ => rfl
      exact ⟨by rw [hp q' hne]; exact hok.ring, by rw [hp q' hne]; exact hok.total⟩

theorem onePermit_of_ne (h : q' ≠ q) : onePermit q rw q' = noPermit q' := by
  funext rw'
  simp [onePermit, noPermit, h]

theorem onePermit_self : onePermit q rw q rw' = if rw' = rw then 1 else 0 := by simp [onePermit]

theorem Inv.store {d : QueueDone} (h : Inv c permit s) (hperm : ∀ q' ≠ q, permit' q' = permit q')
    (hshape : SameShape (s.queues.allQueue q) cb)
    (hring : RingOk cb (s.stock c q .read + permit' q .read))
    (htotal : s.stock c q .read + permit' q .read + (s.stock c q .write + permit' q .write) =
      (s.queues.allQueue q).queueLen)
    (hstep : DequeStep (s.queues.allQueue q).queueLen (some d) (held c permit s q)
      (cb.contents (s.stock c q .read + permit' q .read))) :
    Inv c permit' { s with queues := s.queues.modify q fun _ => cb } ∧
      ∀ q', Moves c permit s permit' { s with queues := s.queues.modify q fun _ => cb } q'
        (doneAt q' (some (q, d))) := by
  have hcb : (s.queues.modify q fun _ => cb).allQueue q = cb := modify_self
  have hstock : ∀ rw, stock c { s with queues := s.queues.modify q fun _ => cb } q rw =
      s.stock c q rw := fun rw => stock_congr (by rw [hcb, hshape.readWriteableCnt]) rfl
  refine ⟨h.modify hshape.queueState hshape.queueSize hperm fun _ => ⟨?_, ?_⟩, fun q' => ?_⟩
  · rw [hcb, hstock]
    exact hring
  · rw [hcb, hstock, hstock, hshape.queueLen]
    exact htotal
  · by_cases hq : q' = q
    · subst hq
      rw [doneAt, if_pos rfl]
      refine ⟨by rw [hcb, hshape.queueState], by rw [hcb, hshape.queueLen], ?_⟩
      rw [held, held, hcb, hstock]
      exact hstep
    · rw [doneAt, if_neg (Ne.symm hq)]
      have hcb' : (s.queues.modify q fun _ => cb).allQueue q' = s.queues.allQueue q' :=
        modify_of_ne hq
      exact moves_of_same hcb' rfl (hperm q' hq)

variable {out buffer : List UInt8}

/-- `OsQueueBufferOperate` turns a free slot into a message, or a message into a free slot. -/
theorem Inv.operate (hrw : rw = r.operateType.readWrite)
    (h : Inv c (onePermit r.queueID rw) s) (huse : (s.queues.allQueue r.queueID).queueState)
    (hfit : Fits (s.queues.allQueue r.queueID) r)
    (hx : (s.queues.allQueue r.queueID).osQueueBufferOperate r.operateType r.bufferAddr
      r.bufferSize = (cb, out)) : cb.queueState ∧ Inv c (onePermit r.queueID rw.other)
        { s with queues := s.queues.modify r.queueID fun _ => cb } ∧
      ∀ q, Moves c (onePermit r.queueID rw) s (onePermit r.queueID rw.other)
        { s with queues := s.queues.modify r.queueID fun _ => cb } q
        (doneAt q (some (r.queueID, r.done out))) := by
  have hring := (h.queue r.queueID huse).ring
  have htotal := (h.queue r.queueID huse).total
  have hperm : ∀ q ≠ r.queueID, onePermit r.queueID rw.other q = onePermit r.queueID rw q :=
    fun q hq => by rw [onePermit_of_ne hq, onePermit_of_ne hq]
  simp only [onePermit_self] at hring htotal
  cases hfit with
  | read q n h0 hmax =>
    obtain rfl : rw = .read := hrw
    obtain ⟨hring', hshape, msg, hmsg, rfl⟩ := RingOk.read hring h0 hmax hx
    refine ⟨hshape.queueState.trans huse, h.store hperm hshape
      (by simpa [onePermit_self, other] using hring') ?_ ?_⟩
    · simpa [onePermit_self, other, Nat.add_assoc, Nat.add_comm 1] using htotal
    · rw [held, onePermit_self, if_pos rfl, hmsg, onePermit_self, if_neg (by simp [other])]
      exact .read n msg _
  | write q tail msg hm =>
    obtain rfl : rw = .write := hrw
    simp only [reduceCtorEq, if_false, if_true] at hring htotal
    obtain ⟨hring', hshape, hmsg⟩ := RingOk.write hring (by omega) hm hx
    refine ⟨hshape.queueState.trans huse, h.store hperm hshape
      (by simpa [onePermit_self, other] using hring') ?_ ?_⟩
    · simpa [onePermit_self, other, Nat.add_assoc, Nat.add_comm 1] using htotal
    · have hlen : (LosQueueCB.contents (s.queues.allQueue q) (s.stock c q .read)).length <
          (s.queues.allQueue q).queueLen := by
        have htotal : s.stock c q .read + (s.stock c q .write + 1) =
          (s.queues.allQueue q).queueLen := htotal
        rw [LosQueueCB.contents, RingBuffer.length_window]
        omega
      have hone : onePermit (writeCopy q tail msg).queueID write.other
          (writeCopy q tail msg).queueID .read = 1 := by simp [onePermit, other]
      rw [held, onePermit_self, if_neg (by simp), hone, hmsg]
      cases tail with
      | true => exact .writeTail msg _ hlen
      | false => exact .writeHead msg _ hlen

theorem Inv.release {rest : List TaskID} (h : Inv c (onePermit q rw) s)
    (hl : s.k.lists (.readWriteList q rw) = t :: rest) :
    Inv c noPermit { s with k := s.k.osSchedTaskWake c t } ∧
      ∀ q', Moves c (onePermit q rw) s noPermit
        { s with k := s.k.osSchedTaskWake c t } q' none := by
  have hm : t ∈ s.k.lists (.readWriteList q rw) := by simp [hl]
  obtain ⟨ht, hpend, -⟩ := h.run.sched.1.pend_of_mem rfl hm
  have hw : Wakes t s.k (s.k.osSchedTaskWake c t) := wakes_osSchedTaskWake
  have hrun := h.run.of_same osSchedTaskWake_same
    (h.run.sched.1.osSchedTaskWake ht hpend (h.run.sched.1.freeze_eq_false ht))
    (h.run.join.of_wakes hw)
  have hwoken : ∀ q' rw', woken c { s with k := s.k.osSchedTaskWake c t } q' rw' =
      s.woken c q' rw' + onePermit q rw q' rw' := fun q' rw' => by
    have hfl := h.wait.heads.inflight_wakes h.run.sched.1 hw
      (r := ⟨.readWriteList q rw, rfl⟩) hm head_injective ⟨.readWriteList q' rw', rfl⟩
    have hiff : (⟨.readWriteList q' rw', rfl⟩ : WaitHead) = ⟨.readWriteList q rw, rfl⟩ ↔
        q' = q ∧ rw' = rw := by
      refine ⟨fun he => ListHead.readWriteList.inj (congrArg head he), ?_⟩
      rintro ⟨rfl, rfl⟩
      rfl
    rw [if_congr hiff rfl rfl] at hfl
    exact hfl
  generalize s.k.osSchedTaskWake c t = k' at hw hrun hwoken
  have hstock : ∀ q' rw', stock c { s with k := k' } q' rw' =
      s.stock c q' rw' + onePermit q rw q' rw' := fun q' rw' => by
    rw [stock, stock, hwoken, Nat.add_assoc]
  refine ⟨{ h with
    run := hrun
    wait := h.wait.wakes hw
    asked := fun u r hr hto => h.asked u r hr ?_
    queue := fun q' hq' => (h.queue q' hq').restock rfl fun rw' => hstock q' rw' },
    fun q' => moves_of_stock rfl (hstock q' .read)⟩
  obtain ⟨p, d, hv⟩ := hw.view u
  exact (congrArg TaskView.timeout hv).symm.trans hto

/-- A slot or a message passes between a counter and the running task. -/
theorem Inv.recount (h : Inv c permit s) (hp : ∀ q' ≠ q, permit' q' = permit q')
    (hf : f (s.queues.allQueue q) = { s.queues.allQueue q with readWriteableCnt := cnt })
    (hcnt : ∀ rw, cnt rw + permit' q rw = (s.queues.allQueue q).readWriteableCnt rw + permit q rw)
    (huse : (s.queues.allQueue q).queueState) :
    Inv c permit' { s with queues := s.queues.modify q f } ∧
      ∀ q', Moves c permit s permit' { s with queues := s.queues.modify q f } q' none := by
  have hcb : (s.queues.modify q f).allQueue q = { s.queues.allQueue q with
    readWriteableCnt := cnt } := modify_self.trans hf
  have hstock : ∀ rw, stock c { s with queues := s.queues.modify q f } q rw + permit' q rw =
      s.stock c q rw + permit q rw := fun rw => by
    have hw : woken c { s with queues := s.queues.modify q f } q rw = s.woken c q rw := rfl
    have := hcnt rw
    rw [stock, stock, hw, hcb]
    dsimp only
    omega
  refine ⟨h.modify (by rw [hf]) (by rw [hf]) hp fun _ => (h.queue q huse).restock hcb hstock,
    fun q' => ?_⟩
  by_cases hq : q' = q
  · subst hq
    exact moves_of_stock hcb (hstock .read)
  · exact moves_of_same (modify_of_ne hq) rfl (hp q' hq)

theorem Inv.count (h : Inv c (onePermit q rw) s) (huse : (s.queues.allQueue q).queueState) :
    Inv c noPermit { s with queues := s.queues.modify q fun cb => cb.countUp rw } ∧
      ∀ q', Moves c (onePermit q rw) s noPermit
        { s with queues := s.queues.modify q fun cb => cb.countUp rw } q' none := by
  have hlt : (s.queues.allQueue q).readWriteableCnt rw + 1 < 2 ^ 16 := by
    have := (h.queue q huse).ring.lenLt
    have htotal := (h.queue q huse).total
    have hle : (s.queues.allQueue q).readWriteableCnt rw ≤ s.stock c q rw := Nat.le_add_right ..
    cases rw <;> simp only [onePermit_self, if_true] at htotal <;> omega
  refine h.recount (fun q' hq' => (onePermit_of_ne hq').symm) rfl (fun rw' => ?_) huse
  by_cases hrw : rw' = rw
  · subst hrw
    simpa [onePermit_self, noPermit] using hlt
  · simp [onePermit_self, noPermit, hrw]

theorem Inv.transfer (h : Inv c (onePermit r.queueID r.operateType.readWrite) s)
    (huse : (s.queues.allQueue r.queueID).queueState) (hfit : Fits (s.queues.allQueue r.queueID) r)
    (hx : s.k.osQueueTransfer c s.queues r = (k, m, out)) :
    Inv c noPermit { s with k := k, queues := m } ∧
      ∀ q, Moves c (onePermit r.queueID r.operateType.readWrite) s noPermit
        { s with k := k, queues := m } q (doneAt q (some (r.queueID, r.done out))) := by
  simp only [osQueueTransfer] at hx
  cases hop : (s.queues.allQueue r.queueID).osQueueBufferOperate r.operateType r.bufferAddr
    r.bufferSize with
  | mk cb out' =>
    rw [hop] at hx
    obtain ⟨huse', h', hmove⟩ := h.operate rfl huse hfit hop
    cases hl : s.k.lists (.readWriteList r.queueID r.operateType.readWrite.other) with
    | nil =>
      simp only [hl] at hx
      obtain ⟨rfl, rfl, rfl⟩ : s.k = k ∧ _ = m ∧ out' = out := by simpa using hx
      obtain ⟨h'', hmove'⟩ := h'.count (by rw [modify_self]; exact huse')
      exact ⟨h'', fun q => (hmove q).trans_none (hmove' q)⟩
    | cons t =>
      simp only [hl] at hx
      obtain ⟨rfl, rfl, rfl⟩ : s.k.osSchedTaskWake c t = k ∧ _ = m ∧ out' = out := by
        simpa using hx
      obtain ⟨h'', hmove'⟩ := h'.release hl
      exact ⟨h'', fun q => (hmove q).trans_none (hmove' q)⟩

/-! ## Calls -/

theorem Inv.take (h : Inv c noPermit s) (huse : (s.queues.allQueue q).queueState)
    (hc : (s.queues.allQueue q).readWriteableCnt rw ≠ 0) :
    Inv c (onePermit q rw) { s with queues := s.queues.modify q fun cb => cb.countDown rw } ∧
      ∀ q', Moves c noPermit s (onePermit q rw)
        { s with queues := s.queues.modify q fun cb => cb.countDown rw } q' none := by
  refine h.recount (fun q' hq' => onePermit_of_ne hq') rfl (fun rw' => ?_) huse
  by_cases hrw : rw' = rw
  · subst hrw
    simp only [onePermit_self, noPermit, update_self, if_true]
    omega
  · simp [onePermit_self, noPermit, hrw]

variable {timeOut : ℕ}

theorem Inv.blocked (h : Inv c noPermit s) (hx : Executing c s.k)
    (hn : s.calls.pc s.k.runTask = none) (huse : (s.queues.allQueue r.queueID).queueState)
    (hfit : Fits (s.queues.allQueue r.queueID) r) :
    let k' := s.k.osSchedTaskWait (.readWriteList r.queueID r.operateType.readWrite) timeOut
    Inv c noPermit ⟨k', s.queues, s.calls.enter s.k.runTask r⟩ ∧
      ∀ q, Moves c noPermit s noPermit ⟨k', s.queues, s.calls.enter s.k.runTask r⟩ q none := by
  intro k'
  have hrun : RunInv c False k' := h.run.wait hx rfl
  have hb : Blocks (.readWriteList r.queueID r.operateType.readWrite) s.k k' :=
    blocks_osSchedTaskWait
  have hpc : s.calls.heads.pc s.k.runTask = none := by simp [hn]
  have hwoken : ∀ q rw, woken c ⟨k', s.queues, s.calls.enter s.k.runTask r⟩ q rw =
      s.woken c q rw := fun q rw => by
    rw [woken, woken, Calls.heads_enter]
    exact inflight_congr fun t _ => granted_enter hb hpc
  refine ⟨⟨hrun, h.wait.enter h.run.sched.1 hx hn hb, h.unused, h.free,
    fun t r' hr hto => ?_, fun q hq => (h.queue q hq).congr rfl fun rw => hwoken q rw⟩,
    fun q => moves_of_same rfl (hwoken q .read) rfl⟩
  by_cases ht : t = s.k.runTask
  · subst ht
    obtain rfl : r = r' := by simpa using hr
    exact ⟨huse, hfit⟩
  · have hv := hb.others t ht
    exact h.asked t r' (by simpa [ht] using hr) ((congrArg TaskView.timeout hv).symm.trans hto)

theorem Inv.leave (h : Inv c noPermit s) (hx : Executing c s.k)
    (hr : s.calls.pc s.k.runTask = some r) :
    let s' : QueueSys := ⟨(s.k.takeTimeout s.k.runTask).1, s.queues, s.calls.leave s.k.runTask⟩
    let permit := if (s.k.status s.k.runTask).timeout = true then noPermit
      else onePermit r.queueID r.operateType.readWrite
    Inv c permit s' ∧ ∀ q, Moves c noPermit s permit s' q none := by
  intro s' permit
  have hstock : ∀ q rw, s'.stock c q rw + permit q rw = s.stock c q rw := fun q rw => by
    have hfl := inflight_leave (k := s.k) (w := s.calls.heads)
      (r := (⟨.readWriteList q rw, rfl⟩ : WaitHead)) hx.lt
    have hg : Granted s.k s.calls.heads s.k.runTask ⟨.readWriteList q rw, rfl⟩ ↔
        (q = r.queueID ∧ rw = r.operateType.readWrite) ∧
          (s.k.status s.k.runTask).timeout = false := by
      have hhead : s.calls.heads.pc s.k.runTask = some ⟨head r, isWait r⟩ := by
        rw [Calls.heads_pc, hr]
        rfl
      rw [Granted, hhead, Option.some.injEq, and_iff_right hx.pend]
      refine and_congr_left fun _ => ⟨fun he => ?_, ?_⟩
      · obtain ⟨hq, hrw⟩ := ListHead.readWriteList.inj (congrArg head he)
        exact ⟨hq.symm, hrw.symm⟩
      · rintro ⟨rfl, rfl⟩
        rfl
    have hw : s'.woken c q rw + permit q rw = s.woken c q rw := by
      rw [woken, woken, Calls.heads_leave, hfl, if_congr hg rfl rfl]
      congr 1
      by_cases hto : (s.k.status s.k.runTask).timeout <;> simp [permit, hto, noPermit, onePermit]
    rw [stock, stock, Nat.add_assoc, hw]
  refine ⟨⟨h.run.takeTimeout, h.wait.leave hx.pend, h.unused, h.free, fun t r' hr' hto => ?_,
    fun q hq => (h.queue q hq).restock rfl fun rw => hstock q rw⟩,
    fun q => moves_of_stock rfl (hstock q .read)⟩
  have ht : t ≠ s.k.runTask := by
    rintro rfl
    simp [s'] at hr'
  refine h.asked t r' (by simpa [s', ht] using hr') ?_
  rw [status, takeTimeout_taskCB_of_ne ht] at hto
  exact hto

theorem began_of_ne {e : Errno} (h : e ≠ .ok) :
    s.began r (k, m, some (e, out)) = ({ s with k := k, queues := m }, none) := by
  cases e <;> first | rfl | exact absurd rfl h

theorem osQueueOperateParamCheck_ok {t : OperateType}
    (h : osQueueOperateParamCheck cb t bufferSize = .ok) :
    cb.queueState ∧ (t.readWrite = .write → bufferSize ≤ cb.queueSize - 4) ∧
      bufferSize < securecMemMaxLen := by
  simp only [osQueueOperateParamCheck] at h
  split_ifs at h with hstate hbig hmax
  exact ⟨by simpa using hstate, fun ht => by simpa [ht] using hbig, by omega⟩

variable {intActive tail : Bool}

theorem osQueueReadParameterCheck_ok
    (h : osQueueReadParameterCheck c q bufferSize timeOut intActive = .ok) :
    0 < bufferSize ∧ (timeOut ≠ 0 → intActive = false) := by
  simp only [osQueueReadParameterCheck] at h
  split_ifs at h with hlim hzero hint
  exact ⟨by omega, fun hto => by simpa [hto] using hint⟩

theorem osQueueWriteParameterCheck_ok
    (h : osQueueWriteParameterCheck c q bufferSize timeOut intActive = .ok) :
    timeOut ≠ 0 → intActive = false := by
  simp only [osQueueWriteParameterCheck] at h
  split_ifs at h with hlim hzero hint
  exact fun hto => by simpa [hto] using hint

section

variable (h : Inv c noPermit s)
include h

theorem Inv.osQueueOperate (he : timeOut ≠ 0 → Executing c s.k ∧ s.calls.pc s.k.runTask = none)
    (hfit : osQueueOperateParamCheck (s.queues.allQueue r.queueID) r.operateType r.bufferSize =
      .ok → Fits (s.queues.allQueue r.queueID) r) :
    Inv c noPermit (s.began r (s.k.osQueueOperate c s.queues r timeOut)).1 ∧
      ∀ q, Moves c noPermit s noPermit (s.began r (s.k.osQueueOperate c s.queues r timeOut)).1 q
        (doneAt q (s.began r (s.k.osQueueOperate c s.queues r timeOut)).2) := by
  have hsame : Inv c noPermit s ∧ ∀ q, Moves c noPermit s noPermit s q none :=
    ⟨h, fun q => moves_of_same rfl rfl rfl⟩
  simp only [Sched.osQueueOperate]
  split_ifs with hchk hcnt hto hread hlock
  · rw [began_of_ne hchk]
    exact hsame
  iterate 3 exact hsame
  · obtain ⟨hx, hn⟩ := he hto
    have hchk := not_not.mp hchk
    exact h.blocked hx hn (osQueueOperateParamCheck_ok hchk).1 (hfit hchk)
  · have hchk := not_not.mp hchk
    have huse := (osQueueOperateParamCheck_ok hchk).1
    obtain ⟨h', hmove⟩ := h.take huse hcnt
    have hcb : (s.queues.modify r.queueID fun cb => cb.countDown r.operateType.readWrite).allQueue
        r.queueID = (s.queues.allQueue r.queueID).countDown r.operateType.readWrite := modify_self
    cases hx : s.k.osQueueTransfer c (s.queues.modify r.queueID fun cb =>
        cb.countDown r.operateType.readWrite) r with
    | mk k x =>
      obtain ⟨h'', hmove'⟩ := h'.transfer (by rw [hcb]; exact huse)
        ((hfit hchk).congr (by rw [hcb]; rfl)) hx
      exact ⟨h'', fun q => (hmove q).none_trans (hmove' q)⟩

theorem Inv.osQueueOperateReturn (hx : Executing c s.k) (hr : s.calls.pc s.k.runTask = some r) :
    Inv c noPermit (s.returned r (s.k.osQueueOperateReturn c s.queues r)).1 ∧
      ∀ q, Moves c noPermit s noPermit (s.returned r (s.k.osQueueOperateReturn c s.queues r)).1 q
        (doneAt q (s.returned r (s.k.osQueueOperateReturn c s.queues r)).2) := by
  obtain ⟨h', hmove⟩ := h.leave hx hr
  have hto := takeTimeout_snd (k := s.k) (t := s.k.runTask)
  simp only [Sched.osQueueOperateReturn, hto]
  cases hb : (s.k.status s.k.runTask).timeout with
  | true =>
    rw [hb, if_pos rfl] at h' hmove
    exact ⟨h', hmove⟩
  | false =>
    rw [hb, if_neg (by simp)] at h' hmove
    obtain ⟨huse, hfit⟩ := h.asked _ r hr hb
    cases ht : (s.k.takeTimeout s.k.runTask).1.osQueueTransfer c s.queues r with
    | mk =>
      obtain ⟨h'', hmove'⟩ := h'.transfer huse hfit ht
      exact ⟨h'', fun q => (hmove q).none_trans (hmove' q)⟩

theorem Inv.queueWriteCopyAt
    (he : intActive = false → Executing c s.k ∧ s.calls.pc s.k.runTask = none) :
    let x := s.began (writeCopy q tail buffer)
      (s.k.queueWriteCopyAt c s.queues tail q buffer timeOut intActive)
    Inv c noPermit x.1 ∧ ∀ q', Moves c noPermit s noPermit x.1 q' (doneAt q' x.2) := by
  simp only [Sched.queueWriteCopyAt]
  split_ifs with hchk
  · rw [began_of_ne hchk]
    exact ⟨h, fun q => moves_of_same rfl rfl rfl⟩
  · have hint := osQueueWriteParameterCheck_ok (not_not.mp hchk)
    exact h.osQueueOperate (fun hto => he (hint hto))
      fun hchk' => .write q tail buffer ((osQueueOperateParamCheck_ok hchk').2.1 rfl)

/-- Every step keeps the invariant, and what it does to a queue in use is a step of the sequence. -/
theorem Inv.step (he : Enabled c s op) :
    Inv c noPermit (act c s op).1 ∧ ∀ q, ((act c s op).1.queues.allQueue q).queueState →
      Moves c noPermit s noPermit (act c s op).1 q (doneAt q (act c s op).2) ∨
        ((s.queues.allQueue q).queueState = false ∧ (act c s op).1.contents c q = []) := by
  cases op with
  | task =>
    obtain ⟨hrun, hspec⟩ := h.run.gentle he.1 he.2
    exact ⟨h.task hrun hspec.env,
      fun q _ => .inl (moves_of_same rfl (woken_env h.wait hspec.env) rfl)⟩
  | queueCreate =>
    obtain ⟨h', hmove⟩ := h.create he.1
    exact ⟨h', fun q _ => hmove q⟩
  | queueReadCopy q n =>
    simp only [act, losQueueReadCopy]
    split_ifs with hchk
    · rw [began_of_ne hchk]
      exact ⟨h, fun q _ => .inl (moves_of_same rfl rfl rfl)⟩
    · obtain ⟨h0, hint⟩ := osQueueReadParameterCheck_ok (not_not.mp hchk)
      obtain ⟨h', hmove⟩ := h.osQueueOperate (fun hto => he (hint hto))
        fun hchk' => .read q n h0 (osQueueOperateParamCheck_ok hchk').2.2
      exact ⟨h', fun q _ => .inl (hmove q)⟩
  | queueWriteCopy q =>
    obtain ⟨h', hmove⟩ := h.queueWriteCopyAt he
    exact ⟨h', fun q _ => .inl (hmove q)⟩
  | queueWriteHeadCopy q =>
    obtain ⟨h', hmove⟩ := h.queueWriteCopyAt he
    exact ⟨h', fun q _ => .inl (hmove q)⟩
  | queueOperateReturn =>
    obtain ⟨hx, hn⟩ := he
    simp only [act]
    cases hr : s.calls.pc s.k.runTask with
    | none => exact absurd hr hn
    | some =>
      obtain ⟨h', hmove⟩ := h.osQueueOperateReturn hx hr
      exact ⟨h', fun q _ => .inl (hmove q)⟩
  | queueDelete q =>
    obtain ⟨h', hmove⟩ := h.delete q
    exact ⟨h', fun q' hq' => .inl (hmove q' hq')⟩

end

theorem Inv.of_reaches (h : (machine c).Reaches s) : Inv c noPermit s :=
  h.invariant (fun _ ⟨_, _, _, hk, hs⟩ => hs ▸ .init hk) fun _ _ hinv ha => (hinv.step ha).1

structure Refines (c : Config) (s : QueueSys) (q : ℕ) : Prop where
  bounded : (s.contents c q).length ≤ (s.queues.allQueue q).queueLen
  accounts : (s.queues.allQueue q).readWriteableCnt .read +
    (s.queues.allQueue q).readWriteableCnt .write + (s.woken c q .read + s.woken c q .write) =
    (s.queues.allQueue q).queueLen
  /-- The messages are those from `queueHead` up to `queueTail`. -/
  delimits : (s.queues.allQueue q).queueHead < (s.queues.allQueue q).queueLen ∧
    (s.queues.allQueue q).queueTail = ((s.queues.allQueue q).queueHead +
      (s.contents c q).length) % (s.queues.allQueue q).queueLen
  /-- What every step does to it, until it is deleted. -/
  step : ∀ op, (machine c).allowed s op →
    ((act c s op).1.queues.allQueue q).queueState →
    ((act c s op).1.queues.allQueue q).queueLen = (s.queues.allQueue q).queueLen ∧
      DequeStep (s.queues.allQueue q).queueLen (doneAt q (act c s op).2) (s.contents c q)
        ((act c s op).1.contents c q)

/-- A queue is a sequence of messages while it is in use, and it is created empty. -/
theorem refines_of_reaches (h : (machine c).Reaches s) :
    ((s.queues.allQueue q).queueState = true → Refines c s q) ∧
      ((s.queues.allQueue q).queueState = false → ∀ op, (machine c).allowed s op →
        ((act c s op).1.queues.allQueue q).queueState = true →
        (act c s op).1.contents c q = []) := by
  have hinv := Inv.of_reaches h
  constructor
  · intro hq
    have hring := (hinv.queue q hq).ring
    have htotal := (hinv.queue q hq).total
    have hlen : (s.contents c q).length = s.stock c q .read := by
      rw [contents, LosQueueCB.contents, RingBuffer.length_window]
    simp only [noPermit] at hring htotal
    refine ⟨hlen ▸ hring.le, ?_, ⟨hring.head, hlen ▸ hring.tail⟩, fun op ha hq' => ?_⟩
    · simp only [stock] at htotal
      omega
    · rcases (hinv.step ha).2 q hq' with hmove | ⟨hq'', -⟩
      · exact ⟨hmove.len, hmove.step⟩
      · simp [hq] at hq''
  · intro hq op ha hq'
    rcases (hinv.step ha).2 q hq' with hmove | ⟨-, hnil⟩
    · simp [hmove.state, hq] at hq'
    · exact hnil

/-- Two messages are written at both ends, and a reader that has waited is handed one of them. -/
theorem refines_of_reaches_woken : ∃ s, (machine smallConfig).Reaches s ∧
    s.woken smallConfig 0 .read = 1 ∧ s.contents smallConfig 0 = [[3], [1, 2]] ∧
    Refines smallConfig s 0 := by
  have hr := Machine.Reaches.run (M := machine smallConfig)
    (.start ⟨_, 0, 1000, rfl, rfl⟩) [.task (.taskCreate (userTask 5 false) 2000),
      .task (.schedStart 0), .queueCreate 2 4 (some fun _ => 0), .queueReadCopy 0 4 7 false,
      .queueWriteCopy 0 [1, 2] 0 true, .queueWriteHeadCopy 0 [3] 0 true] (by decide +kernel)
  exact ⟨_, hr, by decide +kernel, by decide +kernel,
    (refines_of_reaches hr).1 (by decide +kernel)⟩

end QueueSys

end LiteOS.Kernel
