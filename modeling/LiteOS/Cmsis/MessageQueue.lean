import LiteOS.Ipc.Queue

/-!
# CMSIS message queues

`osMessageQueueNew`, `osMessageQueuePut` and `osMessageQueueGet` of `cmsis_liteos2.c` over the
queues of the kernel. The count and the size that are asked for have 32 bits, and the kernel gets
16 bits of them.
-/

namespace LiteOS.Cmsis

open LiteOS.Kernel Lib LosQueueCB

/-- `osMessageQueueAttr_t` without the name: `mq_mem`, which is `NULL` or holds bytes, and
`mq_size` -/
structure MessageQueueAttr where
  mqMem : Option Bytes
  mqSize : ℕ

/-- The queues of the kernel: `g_allQueue`, and `g_staticQueue` if there are static ones. -/
structure QueueTables where
  k : Sched
  allQueue : Queues
  staticQueue : Option Queues

/-- `OsQueueCreate` with the queues that it takes one from. -/
def create (k : Sched) (m : Queues) (len maxMsgSize : ℕ) (mem : Option Bytes) :
    Option LosQueueCB :=
  match k.osQueueCreate m (len % 2 ^ 16) (maxMsgSize % 2 ^ 16) mem with
  | (_, m, .ok q) => some (m.allQueue q)
  | (_, _, .error _) => none

/-- `osMessageQueueNew`: the control block of the new queue, or `NULL`. `heap` is what
`LOS_MemAlloc` returns. -/
def osMessageQueueNew (s : QueueTables) (msgCount msgSize : ℕ) (attr : Option MessageQueueAttr)
    (intActive : Bool) (heap : Option Bytes) : Option LosQueueCB :=
  if msgCount = 0 ∨ msgSize = 0 ∨ intActive then none
  else
    match s.staticQueue, attr with
    | some static, some ⟨some mem, mqSize⟩ =>
      if mqSize = 0 then none
      else create s.k static msgCount (mqSize % 2 ^ 16 / msgCount) (some mem)
    | some _, some ⟨none, mqSize⟩ =>
      if mqSize ≠ 0 then none else create s.k s.allQueue msgCount msgSize heap
    | _, _ => create s.k s.allQueue msgCount msgSize heap

/-- The size that `osMessageQueueOp` tells the kernel. -/
def bufferSize (cb : LosQueueCB) : ℕ := cb.queueSize - 4

/-- The transfer of `osMessageQueuePut`, which reads the message at `msg`. -/
def put (cb : LosQueueCB) (msg : Bytes) : LosQueueCB :=
  (cb.osQueueBufferOperate ⟨.write, true, false⟩ (msg.load 0 (bufferSize cb)) (bufferSize cb)).1

/-- The transfer of `osMessageQueueGet`: the queue and the bytes that the caller gets. -/
def get (cb : LosQueueCB) : LosQueueCB × List UInt8 :=
  cb.osQueueBufferOperate ⟨.read, false, false⟩ [] (bufferSize cb)

/-- A queue with `n` messages, as puts and gets make it from `cb`. -/
inductive Used (cb : LosQueueCB) : LosQueueCB → ℕ → Prop
  | new : Used cb cb 0
  | put {cb' : LosQueueCB} {n : ℕ} (msg : Bytes) :
    Used cb cb' n → n < cb'.queueLen → Used cb (put cb' msg) (n + 1)
  | get {cb' : LosQueueCB} {n : ℕ} : Used cb cb' (n + 1) → Used cb (get cb').1 n

/-- The queue is as large as requested; `mqSize` is the size of its static memory. -/
structure AsLarge (cb : LosQueueCB) (msgCount msgSize : ℕ) (mqSize : Option ℕ) : Prop where
  count : cb.queueLen = msgCount
  put : ∀ cb' n msg, Used cb cb' n → n < cb'.queueLen → ∃ l, msgSize ≤ l ∧
    (Cmsis.put cb' msg).contents (n + 1) = cb'.contents n ++ [msg.load 0 l]
  get : ∀ cb' n, Used cb cb' (n + 1) → msgSize ≤ (Cmsis.get cb').2.length
  slots : ∀ size ∈ mqSize, ∀ p < cb.queueLen, (p + 1) * cb.queueSize ≤ size

variable {cb cb' cb'' : LosQueueCB} {n len maxMsgSize msgCount msgSize mqSize : ℕ}

/-- Every message has the size that the kernel is told. -/
structure UsedOk (cb cb' : LosQueueCB) (n : ℕ) : Prop where
  ring : RingOk cb' n
  shape : SameShape cb cb'
  full : ∀ msg ∈ cb'.contents n, msg.length = bufferSize cb

theorem bufferSize_congr (h : SameShape cb cb') : bufferSize cb' = bufferSize cb := by
  rw [bufferSize, h.queueSize, bufferSize]

theorem SameShape.trans (h : SameShape cb cb') (h' : SameShape cb' cb'') : SameShape cb cb'' :=
  ⟨h'.1.trans h.1, h'.2.trans h.2, h'.3.trans h.3, h'.4.trans h.4⟩

theorem UsedOk.put (h : UsedOk cb cb' n) (hn : n < cb'.queueLen) (msg : Bytes) :
    UsedOk cb (put cb' msg) (n + 1) ∧
      (Cmsis.put cb' msg).contents (n + 1) = cb'.contents n ++ [msg.load 0 (bufferSize cb)] := by
  have hsize := bufferSize_congr h.shape
  obtain ⟨out, hx⟩ : ∃ out, cb'.osQueueBufferOperate ⟨.write, true, false⟩
      (msg.load 0 (bufferSize cb')) (msg.load 0 (bufferSize cb')).length =
        (Cmsis.put cb' msg, out) := by
    rw [Bytes.length_load]
    exact ⟨_, rfl⟩
  obtain ⟨hring, hshape, hcont⟩ := h.ring.write hn Bytes.length_load.le hx
  rw [if_pos rfl, ← bufferSize, hsize] at hcont
  refine ⟨⟨hring, SameShape.trans h.shape hshape, fun m hm => ?_⟩, hcont⟩
  rw [hcont, List.mem_append, List.mem_singleton] at hm
  rcases hm with hm | rfl
  · exact h.full m hm
  · exact Bytes.length_load

theorem UsedOk.get (h : UsedOk cb cb' (n + 1)) :
    UsedOk cb (get cb').1 n ∧ (Cmsis.get cb').2.length = bufferSize cb := by
  have hsize := bufferSize_congr h.shape
  have h4 := h.ring.size
  have hlt := h.ring.sizeLt
  have hpos : 0 < bufferSize cb' ∧ bufferSize cb' < securecMemMaxLen := by
    simp only [bufferSize, securecMemMaxLen]
    omega
  obtain ⟨hring, hshape, msg, hcont, hout⟩ := h.ring.read hpos.1 hpos.2 (Prod.eta _).symm
  have hmsg := h.full msg (by simp [hcont])
  refine ⟨⟨hring, SameShape.trans h.shape hshape, fun m hm => ?_⟩, ?_⟩
  · exact h.full m (hcont ▸ List.mem_cons_of_mem _ hm)
  · rw [show (Cmsis.get cb').2 = msg.take (bufferSize cb') from hout, List.length_take, hmsg, hsize]
    exact min_self _

theorem Used.ok (hr : RingOk cb 0) (h : Used cb cb' n) : UsedOk cb cb' n := by
  induction h with
  | new => exact ⟨hr, ⟨rfl, rfl, rfl, rfl⟩, by simp [contents, RingBuffer.window]⟩
  | put msg _ hn ih => exact (ih.put hn msg).1
  | get _ ih => exact ih.get.1

theorem asLarge_iff (hr : RingOk cb 0) (msgCount msgSize : ℕ) (mqSize : Option ℕ) :
    AsLarge cb msgCount msgSize mqSize ↔ cb.queueLen = msgCount ∧ msgSize ≤ bufferSize cb ∧
      ∀ size ∈ mqSize, cb.queueLen * cb.queueSize ≤ size := by
  have hlen := hr.len
  constructor
  · rintro ⟨hcount, -, hget, hslots⟩
    have hput : Used cb (put cb fun _ => 0) (0 + 1) := .put _ .new hlen
    refine ⟨hcount, (hput.ok hr).get.2 ▸ hget _ 0 hput, fun size hs => ?_⟩
    have := hslots size hs (cb.queueLen - 1) (by omega)
    rwa [Nat.sub_add_cancel hlen] at this
  · rintro ⟨hcount, hsize, hslots⟩
    refine ⟨hcount, fun cb' n msg hu hn => ⟨_, hsize, ((hu.ok hr).put hn msg).2⟩,
      fun cb' n hu => ((hu.ok hr).get.2).symm ▸ hsize, fun size hs p hp => ?_⟩
    exact (Nat.mul_le_mul_right _ hp).trans (hslots size hs)

variable {k : Sched} {m : Queues} {mem : Option Bytes}

theorem create_some (h : create k m len maxMsgSize mem = some cb) :
    RingOk cb 0 ∧ cb.queueLen = len % 2 ^ 16 ∧ cb.queueSize = maxMsgSize % 2 ^ 16 + 4 := by
  simp only [create, Sched.osQueueCreate, nullShort] at h
  by_cases hbig : maxMsgSize % 2 ^ 16 > 0xFFFF - 4
  · rw [if_pos hbig] at h
    cases h
  rw [if_neg hbig] at h
  by_cases hzero : len % 2 ^ 16 = 0 ∨ maxMsgSize % 2 ^ 16 = 0
  · rw [if_pos hzero] at h
    cases h
  rw [if_neg hzero] at h
  split_ifs at h with hover
  cases mem with
  | none => simp at h
  | some =>
    cases hfree : m.freeQueueList with
    | nil => simp [hfree] at h
    | cons =>
      simp only [hfree, Queues.modify, Function.update_self, Option.some.injEq] at h
      subst h
      refine ⟨⟨?_, ?_, ?_, ?_, ?_, ?_, Nat.zero_le _, by simp⟩, rfl, rfl⟩
      all_goals
        dsimp only
        first
          | omega
          | exact (Nat.zero_mod _).symm

theorem asLarge_heap (h : create k m msgCount msgSize mem = some cb) :
    AsLarge cb msgCount msgSize none ↔ msgCount < 2 ^ 16 ∧ msgSize < 2 ^ 16 := by
  obtain ⟨hring, hlen, hsize⟩ := create_some h
  rw [asLarge_iff hring, bufferSize, hlen, hsize]
  simp only [Option.not_mem_none, false_implies, implies_true, and_true]
  omega

theorem asLarge_static (h : create k m msgCount (mqSize % 2 ^ 16 / msgCount) mem = some cb) :
    AsLarge cb msgCount msgSize (some mqSize) ↔
      msgCount < 2 ^ 16 ∧ msgSize ≤ mqSize % 2 ^ 16 / msgCount ∧
        4 * msgCount ≤ mqSize - mqSize % 2 ^ 16 + mqSize % 2 ^ 16 % msgCount := by
  obtain ⟨hring, hlen, hsize⟩ := create_some h
  have hle : mqSize % 2 ^ 16 / msgCount ≤ mqSize % 2 ^ 16 := Nat.div_le_self _ _
  have hdiv := Nat.div_add_mod (mqSize % 2 ^ 16) msgCount
  rw [Nat.mod_eq_of_lt (by omega)] at hsize
  rw [asLarge_iff hring, bufferSize, hlen, hsize]
  generalize mqSize % 2 ^ 16 / msgCount = part at *
  have hmul := Nat.mul_add msgCount part 4
  simp only [Option.mem_some_iff, forall_eq']
  constructor
  · rintro ⟨hcount, hmsg, hslots⟩
    rw [hcount, hmul] at hslots
    omega
  · rintro ⟨hcount, hmsg, hslots⟩
    rw [Nat.mod_eq_of_lt hcount, hmul]
    omega

/-- The size of the static memory, where it is used. -/
def staticSize (s : QueueTables) (attr : Option MessageQueueAttr) : Option ℕ :=
  match s.staticQueue, attr with
  | some _, some ⟨some _, mqSize⟩ => some mqSize
  | _, _ => none

/-- What a request has to satisfy. Static memory of `mqSize` bytes is cut into parts of
`mqSize % 2 ^ 16 / msgCount` bytes, and the length words need room in what is left over. -/
def Meets (msgCount msgSize : ℕ) : Option ℕ → Prop
  | some mqSize => msgCount < 2 ^ 16 ∧ msgSize ≤ mqSize % 2 ^ 16 / msgCount ∧
      4 * msgCount ≤ mqSize - mqSize % 2 ^ 16 + mqSize % 2 ^ 16 % msgCount
  | none => msgCount < 2 ^ 16 ∧ msgSize < 2 ^ 16

/-- A queue is as large as requested exactly when the request `Meets` the 16 bits of the kernel and
its length words. -/
theorem asLarge_iff_meets (s : QueueTables) (msgCount msgSize : ℕ) (attr : Option MessageQueueAttr)
    (intActive : Bool) (heap : Option Bytes) (cb : LosQueueCB)
    (h : osMessageQueueNew s msgCount msgSize attr intActive heap = some cb) :
    AsLarge cb msgCount msgSize (staticSize s attr) ↔
      Meets msgCount msgSize (staticSize s attr) := by
  obtain ⟨k, m, static⟩ := s
  simp only [osMessageQueueNew] at h
  split_ifs at h
  rcases static with - | static
  · exact asLarge_heap h
  · rcases attr with - | ⟨- | mem, mqSize⟩
    · exact asLarge_heap h
    · simp only at h
      split_ifs at h
      exact asLarge_heap h
    · simp only at h
      split_ifs at h
      exact asLarge_static h

/-- A kernel with static queues as it starts. -/
def queueTables : QueueTables where
  k := .osTaskInit Sched.smallConfig
  allQueue := .osQueueInit Sched.smallConfig
  staticQueue := some (.osQueueInit Sched.smallConfig)

theorem asLarge_iff_meets_bytes :
    ∃ cb, osMessageQueueNew queueTables 4 12 none false (some fun _ => 0) = some cb ∧
      AsLarge cb 4 12 none := by
  refine ⟨_, rfl, ?_⟩
  exact (asLarge_iff_meets queueTables 4 12 none false (some fun _ => 0) _ rfl).mpr
    ⟨by decide, by decide⟩

/-- 65537 messages of 8 bytes make a queue with one message, and 4 messages of 12 bytes in 64 bytes
take 80 bytes. -/
theorem not_asLarge_truncated :
    (∃ cb, osMessageQueueNew queueTables 65537 8 none false (some fun _ => 0) = some cb ∧
      ¬ AsLarge cb 65537 8 none) ∧
    ∃ cb, osMessageQueueNew queueTables 4 12 (some ⟨some fun _ => 0, 64⟩) false none = some cb ∧
      ¬ AsLarge cb 4 12 (some 64) := by
  refine ⟨⟨_, rfl, fun h => ?_⟩, ⟨_, rfl, fun h => ?_⟩⟩
  · exact absurd h.count (by decide)
  · exact absurd (h.slots 64 rfl 3 (by decide)) (by decide)

end LiteOS.Cmsis
