import LiteOS.Kernel.Blocking
import LiteOS.Lib.Bytes
import LiteOS.Lib.RingBuffer

/-!
# Message queues

The model of `los_queue.c`, without the static queues. `OsQueueOperate` is split at the
`LOS_Schedule` before which its task begins to wait: `osQueueOperate` answers `none` there, and
`osQueueOperateReturn` is what the task does when it is dispatched again.

Message `p` of a queue takes the `queueSize` bytes from `p * queueSize` on; the last four are the
number of bytes of the message.
-/

namespace LiteOS.Kernel

open Lib RingBuffer Function Bytes

/-- `!readWrite` -/
def ReadWrite.other : ReadWrite → ReadWrite
  | .read => .write
  | .write => .read

/-- `OS_QUEUE_OPERATE_TYPE` -/
structure OperateType where
  readWrite : ReadWrite
  /-- `OS_QUEUE_TAIL` -/
  tail : Bool := false
  /-- `OS_QUEUE_POINT` -/
  point : Bool := false
deriving DecidableEq, Repr

/-- `LosQueueCB`; its lists are the list heads `readWriteList` and `memList` of its index. -/
structure LosQueueCB where
  /-- The bytes that `queue` points to. -/
  queue : Bytes := fun _ => 0
  /-- `OS_QUEUE_INUSED` -/
  queueState : Bool := false
  queueLen : ℕ := 0
  queueSize : ℕ := 0
  queueHead : ℕ := 0
  queueTail : ℕ := 0
  readWriteableCnt : ReadWrite → ℕ := fun _ => 0

/-- `g_allQueue` and `g_freeQueueList` -/
structure Queues where
  allQueue : ℕ → LosQueueCB
  freeQueueList : List ℕ

/-- What a call of `OsQueueOperate` is asked for: `bufferAddr` are the bytes to write. -/
structure QueueRequest where
  queueID : ℕ
  operateType : OperateType
  bufferAddr : List UInt8
  bufferSize : ℕ
deriving DecidableEq, Repr

/-- `OS_NULL_SHORT` -/
def nullShort : ℕ := 0xFFFF

def securecMemMaxLen : ℕ := 0x7FFFFFFF

/-- When `memcpy_s` does not copy. -/
def memcpySFails (destMax count : ℕ) : Prop :=
  destMax = 0 ∨ destMax > securecMemMaxLen ∨ count > destMax
deriving Decidable

namespace LosQueueCB

/-- The first half of `OsQueueBufferOperate`: the position to use. -/
def queuePosition (cb : LosQueueCB) (t : OperateType) : Option (ℕ × LosQueueCB) :=
  match t.readWrite, t.tail with
  | .read, false => some (cb.queueHead, { cb with
      queueHead := if cb.queueHead + 1 = cb.queueLen then 0 else cb.queueHead + 1 })
  | .write, false =>
    let head := if cb.queueHead = 0 then cb.queueLen - 1 else cb.queueHead - 1
    some (head, { cb with queueHead := head })
  | .write, true => some (cb.queueTail, { cb with
      queueTail := if cb.queueTail + 1 = cb.queueLen then 0 else cb.queueTail + 1 })
  | .read, true => none

/-- `OsQueueBufferOperate`: the queue afterwards, and the bytes copied to the caller's buffer. -/
def osQueueBufferOperate (cb : LosQueueCB) (t : OperateType) (bufferAddr : List UInt8)
    (bufferSize : ℕ) : LosQueueCB × List UInt8 :=
  match cb.queuePosition t with
  | none => (cb, [])
  | some (position, cb) =>
    let queueNode := position * cb.queueSize
    match t.readWrite, t.point with
    | .read, true => (cb, cb.queue.load queueNode 4)
    | .write, true => ({ cb with queue := cb.queue.store queueNode (bufferAddr.take 4) }, [])
    | .read, false =>
      let msgDataSize := cb.queue.loadWord (queueNode + cb.queueSize - 4)
      let msgDataSize := if bufferSize < msgDataSize then bufferSize else msgDataSize
      if memcpySFails bufferSize msgDataSize then (cb, [])
      else (cb, cb.queue.load queueNode msgDataSize)
    | .write, false =>
      let cb := { cb with
        queue := cb.queue.storeWord (queueNode + cb.queueSize - 4) bufferSize }
      if memcpySFails cb.queueSize bufferSize then (cb, [])
      else ({ cb with queue := cb.queue.store queueNode bufferAddr }, [])

/-- `readWriteableCnt[readWrite]--` -/
def countDown (cb : LosQueueCB) (rw : ReadWrite) : LosQueueCB :=
  { cb with
    readWriteableCnt := update cb.readWriteableCnt rw (cb.readWriteableCnt rw - 1) }

/-- `readWriteableCnt[readWrite]++` -/
def countUp (cb : LosQueueCB) (rw : ReadWrite) : LosQueueCB :=
  { cb with readWriteableCnt :=
      update cb.readWriteableCnt rw ((cb.readWriteableCnt rw + 1) % 2 ^ 16) }

end LosQueueCB

def osQueueOperateParamCheck (cb : LosQueueCB) (t : OperateType) (bufferSize : ℕ) : Errno :=
  if !cb.queueState then .queueNotCreate
  else if t.readWrite = .write ∧ bufferSize > cb.queueSize - 4 then .queueWriteSizeTooBig
  else if bufferSize ≥ securecMemMaxLen then .queueBufferSizeTooBig
  else .ok

def osQueueReadParameterCheck (c : Config) (queueID bufferSize timeOut : ℕ) (intActive : Bool) :
    Errno :=
  if queueID ≥ c.queueLimit then .queueInvalid
  else if bufferSize = 0 then .queueReadsizeIszero
  else if timeOut ≠ 0 ∧ intActive then .queueReadInInterrupt
  else .ok

def osQueueWriteParameterCheck (c : Config) (queueID bufferSize timeOut : ℕ) (intActive : Bool) :
    Errno :=
  if queueID ≥ c.queueLimit then .queueInvalid
  else if bufferSize = 0 then .queueWritesizeIszero
  else if timeOut ≠ 0 ∧ intActive then .queueWriteInInterrupt
  else .ok

namespace Queues

def osQueueInit (c : Config) : Queues where
  allQueue _ := {}
  freeQueueList := List.range c.queueLimit

def modify (m : Queues) (q : ℕ) (f : LosQueueCB → LosQueueCB) : Queues :=
  { m with allQueue := update m.allQueue q (f (m.allQueue q)) }

theorem modify_queueState {m : Queues} {q : ℕ} {f : LosQueueCB → LosQueueCB}
    (h : (f (m.allQueue q)).queueState = (m.allQueue q).queueState) (q' : ℕ) :
    ((m.modify q f).allQueue q').queueState = (m.allQueue q').queueState := by
  by_cases hq : q' = q
  · subst hq
    simpa [modify] using h
  · simp [modify, hq]

end Queues

namespace Sched

section

variable (c : Config) (k : Sched) (m : Queues)

/-- `LOS_ListInit` of the lists of a queue. -/
def listInitQueue (q : ℕ) : Sched :=
  { k with lists := update (update (update k.lists
      (.readWriteList q .read) []) (.readWriteList q .write) []) (.memList q) [] }

/-- `OsQueueCreate`; `mem` is what `LOS_MemAlloc` returns. -/
def osQueueCreate (len maxMsgSize : ℕ) (mem : Option Bytes) : Sched × Queues × Except Errno ℕ :=
  if maxMsgSize > nullShort - 4 then (k, m, .error .queueSizeTooBig)
  else if len = 0 ∨ maxMsgSize = 0 then (k, m, .error .queueParaIszero)
  else
    let msgSize := maxMsgSize + 4
    if (2 ^ 32 - 1) / msgSize < len then (k, m, .error .queueSizeTooBig)
    else
      match mem, m.freeQueueList with
      | none, _ => (k, m, .error .queueCreateNoMemory)
      | some _, [] => (k, m, .error .queueCbUnavailable)
      | some queue, q :: free =>
        (k.listInitQueue q, { m with freeQueueList := free }.modify q fun _ =>
          { queue := queue, queueState := true, queueLen := len, queueSize := msgSize
            readWriteableCnt := fun
              | .read => 0
              | .write => len }, .ok q)

/-- `OsQueueOperate` from `OsQueueBufferOperate` on -/
def osQueueTransfer (r : QueueRequest) : Sched × Queues × List UInt8 :=
  let (cb, out) :=
    (m.allQueue r.queueID).osQueueBufferOperate r.operateType r.bufferAddr r.bufferSize
  let m := m.modify r.queueID fun _ => cb
  let readWriteTmp := r.operateType.readWrite.other
  match k.lists (.readWriteList r.queueID readWriteTmp) with
  | resumedTask :: _ => (k.osSchedTaskWake c resumedTask, m, out)
  | [] => (k, m.modify r.queueID fun cb => cb.countUp readWriteTmp, out)

/-- `OsQueueOperate` up to the first `LOS_Schedule` -/
def osQueueOperate (r : QueueRequest) (timeOut : ℕ) :
    Sched × Queues × Option (Errno × List UInt8) :=
  let readWrite := r.operateType.readWrite
  let ret := osQueueOperateParamCheck (m.allQueue r.queueID) r.operateType r.bufferSize
  if ret ≠ .ok then (k, m, some (ret, []))
  else if (m.allQueue r.queueID).readWriteableCnt readWrite = 0 then
    if timeOut = 0 then
      (k, m, some (if readWrite = .read then .queueIsempty else .queueIsfull, []))
    else if k.losTaskLock ≠ 0 then (k, m, some (.queuePendInLock, []))
    else (k.osSchedTaskWait (.readWriteList r.queueID readWrite) timeOut, m, none)
  else
    let (k, m, out) := k.osQueueTransfer c (m.modify r.queueID (·.countDown readWrite)) r
    (k, m, some (.ok, out))

/-- The rest of `OsQueueOperate` -/
def osQueueOperateReturn (r : QueueRequest) : Sched × Queues × Errno × List UInt8 :=
  let (k, timedOut) := k.takeTimeout k.runTask
  if timedOut then (k, m, .queueTimeout, [])
  else
    let (k, m, out) := k.osQueueTransfer c m r
    (k, m, .ok, out)

/-- What `LOS_QueueReadCopy` asks for. -/
def readCopy (queueID bufferSize : ℕ) : QueueRequest :=
  ⟨queueID, { readWrite := .read }, [], bufferSize⟩

/-- What `LOS_QueueWriteCopy` and `LOS_QueueWriteHeadCopy` ask for. -/
def writeCopy (queueID : ℕ) (tail : Bool) (buffer : List UInt8) : QueueRequest :=
  ⟨queueID, { readWrite := .write, tail := tail }, buffer, buffer.length⟩

def losQueueReadCopy (queueID bufferSize timeOut : ℕ)
    (intActive : Bool) : Sched × Queues × Option (Errno × List UInt8) :=
  let ret := osQueueReadParameterCheck c queueID bufferSize timeOut intActive
  if ret ≠ .ok then (k, m, some (ret, []))
  else k.osQueueOperate c m (readCopy queueID bufferSize) timeOut

/-- What `LOS_QueueWriteCopy` and `LOS_QueueWriteHeadCopy` have in common. -/
def queueWriteCopyAt (tail : Bool) (queueID : ℕ)
    (buffer : List UInt8) (timeOut : ℕ) (intActive : Bool) :
    Sched × Queues × Option (Errno × List UInt8) :=
  let ret := osQueueWriteParameterCheck c queueID buffer.length timeOut intActive
  if ret ≠ .ok then (k, m, some (ret, []))
  else k.osQueueOperate c m (writeCopy queueID tail buffer) timeOut

def losQueueWriteHeadCopy (queueID : ℕ) (buffer : List UInt8) (timeOut : ℕ) (intActive : Bool) :
    Sched × Queues × Option (Errno × List UInt8) :=
  k.queueWriteCopyAt c m false queueID buffer timeOut intActive

def losQueueWriteCopy (queueID : ℕ) (buffer : List UInt8) (timeOut : ℕ) (intActive : Bool) :
    Sched × Queues × Option (Errno × List UInt8) :=
  k.queueWriteCopyAt c m true queueID buffer timeOut intActive

def losQueueDelete (queueID : ℕ) : Queues × Errno :=
  let cb := m.allQueue queueID
  if queueID ≥ c.queueLimit then (m, .queueNotFound)
  else if !cb.queueState then (m, .queueNotCreate)
  else if k.lists (.readWriteList queueID .read) ≠ [] then (m, .queueInTskuse)
  else if k.lists (.readWriteList queueID .write) ≠ [] then (m, .queueInTskuse)
  else if k.lists (.memList queueID) ≠ [] then (m, .queueInTskuse)
  else if cb.readWriteableCnt .write + cb.readWriteableCnt .read ≠ cb.queueLen then
    (m, .queueInTskwrite)
  else
    ({ m.modify queueID fun cb => { cb with queueState := false } with
      freeQueueList := queueID :: m.freeQueueList }, .ok)

end

theorem listInitQueue_eq_self {k : Sched} {q : ℕ} (h : ∀ rw, k.lists (.readWriteList q rw) = [])
    (hm : k.lists (.memList q) = []) : k.listInitQueue q = k := by
  have hinit : ∀ i, k.lists i = [] → update k.lists i [] = k.lists := fun i hi => by
    rw [← hi, update_eq_self]
  rw [listInitQueue, hinit _ (h .read), hinit _ (h .write), hinit _ hm]

end Sched

/-! ## The ring of a queue -/

namespace LosQueueCB

variable {cb cb' : LosQueueCB} {n p p' bufferSize destMax count : ℕ}
  {msg bufferAddr out buffer : List UInt8} {t : OperateType}

/-- The number of bytes of message `p`. -/
def msgDataSize (cb : LosQueueCB) (p : ℕ) : ℕ :=
  cb.queue.loadWord (p * cb.queueSize + cb.queueSize - 4)

/-- Message `p`. -/
def message (cb : LosQueueCB) (p : ℕ) : List UInt8 :=
  cb.queue.load (p * cb.queueSize) (cb.msgDataSize p)

/-- The messages that a queue stores, if there are `n` of them. -/
def contents (cb : LosQueueCB) (n : ℕ) : List (List UInt8) :=
  window cb.message cb.queueLen cb.queueHead n

/-- The queue stores `n` messages, from `queueHead` up to `queueTail`. -/
structure RingOk (cb : LosQueueCB) (n : ℕ) : Prop where
  len : 0 < cb.queueLen
  lenLt : cb.queueLen < 2 ^ 16
  size : 4 < cb.queueSize
  sizeLt : cb.queueSize < 2 ^ 16
  head : cb.queueHead < cb.queueLen
  tail : cb.queueTail = (cb.queueHead + n) % cb.queueLen
  le : n ≤ cb.queueLen
  fits : ∀ i < n, cb.msgDataSize ((cb.queueHead + i) % cb.queueLen) ≤ cb.queueSize - 4

structure SameShape (cb cb' : LosQueueCB) : Prop where
  queueState : cb'.queueState = cb.queueState
  queueLen : cb'.queueLen = cb.queueLen
  queueSize : cb'.queueSize = cb.queueSize
  readWriteableCnt : cb'.readWriteableCnt = cb.readWriteableCnt

theorem osQueueBufferOperate_queueState :
    (cb.osQueueBufferOperate t bufferAddr bufferSize).1.queueState = cb.queueState := by
  obtain ⟨rw, tail, point⟩ := t
  cases rw <;> cases tail <;> cases point <;>
    simp only [osQueueBufferOperate, queuePosition] <;> first
      | rfl
      | split_ifs <;> rfl

theorem RingOk.recount (h : RingOk cb n) (cnt : ReadWrite → ℕ) :
    RingOk { cb with readWriteableCnt := cnt } n :=
  ⟨h.len, h.lenLt, h.size, h.sizeLt, h.head, h.tail, h.le, h.fits⟩

theorem node_disjoint (size : ℕ) (h : p' ≠ p) :
    p' * size + size ≤ p * size ∨ p * size + size ≤ p' * size := by
  rcases Nat.lt_or_gt_of_ne h with hlt | hlt
  · exact .inl (by simpa [Nat.add_mul] using Nat.mul_le_mul_right size hlt)
  · exact .inr (by simpa [Nat.add_mul] using Nat.mul_le_mul_right size hlt)

/-- Write message `p`. -/
def writeAt (cb : LosQueueCB) (p : ℕ) (msg : List UInt8) : Bytes :=
  (cb.queue.storeWord (p * cb.queueSize + cb.queueSize - 4) msg.length).store
    (p * cb.queueSize) msg

section WriteAt

variable {cb' : LosQueueCB} (hq : cb'.queue = cb.writeAt p msg)
  (hs : cb'.queueSize = cb.queueSize) (h4 : 4 < cb.queueSize) (hlt : cb.queueSize < 2 ^ 16)
  (hm : msg.length ≤ cb.queueSize - 4)
include hq hs h4 hlt hm

theorem msgDataSize_writeAt : cb'.msgDataSize p = msg.length := by
  rw [msgDataSize, hq, hs, writeAt, loadWord_store_of_disjoint (.inr (by omega)),
    loadWord_storeWord (by omega)]

theorem message_writeAt : cb'.message p = msg := by
  rw [message, msgDataSize_writeAt hq hs h4 hlt hm, hq, hs, writeAt, load_store_self]

theorem msgDataSize_writeAt_of_ne (hp : p' ≠ p) : cb'.msgDataSize p' = cb.msgDataSize p' := by
  have hd := node_disjoint cb.queueSize hp
  rw [msgDataSize, hq, hs, writeAt, loadWord_store_of_disjoint (by omega), storeWord,
    loadWord_store_of_disjoint (by simp only [length_wordBytes]; omega), msgDataSize]

/-- A message that fits into its node is not touched by writing another one. -/
theorem message_writeAt_of_ne (hp : p' ≠ p) (hf : cb.msgDataSize p' ≤ cb.queueSize - 4) :
    cb'.message p' = cb.message p' := by
  have hd := node_disjoint cb.queueSize hp
  rw [message, msgDataSize_writeAt_of_ne hq hs h4 hlt hm hp, hq, hs, writeAt,
    load_store_of_disjoint (by omega), storeWord,
    load_store_of_disjoint (by simp only [length_wordBytes]; omega), message]

end WriteAt

theorem not_memcpySFails (h : count ≤ destMax) (h0 : 0 < destMax)
    (hmax : destMax ≤ securecMemMaxLen) : ¬memcpySFails destMax count := by
  unfold memcpySFails
  omega

theorem RingOk.write {tail : Bool} (h : RingOk cb n)
    (hn : n < cb.queueLen) (hm : msg.length ≤ cb.queueSize - 4)
    (hx : cb.osQueueBufferOperate ⟨.write, tail, false⟩ msg msg.length = (cb', out)) :
    RingOk cb' (n + 1) ∧ SameShape cb cb' ∧
      cb'.contents (n + 1) = if tail then cb.contents n ++ [msg] else msg :: cb.contents n := by
  have h4 := h.size
  have hlt := h.sizeLt
  have hcopy : ¬memcpySFails cb.queueSize msg.length :=
    not_memcpySFails (by omega) (by omega) (by simp only [securecMemMaxLen]; omega)
  cases tail with
  | true =>
    have hne : ∀ i < n, (cb.queueHead + i) % cb.queueLen ≠ cb.queueTail := fun i hi => by
      rw [h.tail]
      exact mod_ne_mod _ hi hn
    simp only [osQueueBufferOperate, queuePosition, if_neg hcopy] at hx
    have hcb := (Prod.mk.inj hx).1
    have hq : cb'.queue = cb.writeAt cb.queueTail msg := by rw [← hcb]; rfl
    have hs : cb'.queueSize = cb.queueSize := by rw [← hcb]
    have hl : cb'.queueLen = cb.queueLen := by rw [← hcb]
    have hh : cb'.queueHead = cb.queueHead := by rw [← hcb]
    have ht : cb'.queueTail = next cb.queueLen cb.queueTail := by rw [← hcb]; rfl
    refine ⟨⟨hl ▸ h.len, hl ▸ h.lenLt, hs ▸ h4, hs ▸ hlt, ?_, ?_, ?_, fun i hi => ?_⟩,
      ⟨by rw [← hcb], hl, hs, by rw [← hcb]⟩, ?_⟩
    · rw [hh, hl]
      exact h.head
    · rw [ht, hh, hl, h.tail, next_mod h.len]
    · rw [hl]
      exact hn
    · rw [hh, hl, hs]
      rcases Nat.lt_succ_iff_lt_or_eq.mp hi with hi | rfl
      · rw [msgDataSize_writeAt_of_ne hq hs h4 hlt hm (hne i hi)]
        exact h.fits i hi
      · rw [← h.tail, msgDataSize_writeAt hq hs h4 hlt hm]
        exact hm
    · rw [if_pos rfl, contents, contents, hl, hh]
      refine window_push_back ?_ fun i hi => ?_
      · rw [← h.tail]
        exact message_writeAt hq hs h4 hlt hm
      · exact message_writeAt_of_ne hq hs h4 hlt hm (hne i hi) (h.fits i hi)
  | false =>
    have hne : ∀ i < n, (cb.queueHead + i) % cb.queueLen ≠ prev cb.queueLen cb.queueHead :=
      fun i hi => mod_ne_prev h.head (by omega)
    simp only [osQueueBufferOperate, queuePosition, if_neg hcopy] at hx
    have hcb := (Prod.mk.inj hx).1
    have hq : cb'.queue = cb.writeAt (prev cb.queueLen cb.queueHead) msg := by rw [← hcb]; rfl
    have hs : cb'.queueSize = cb.queueSize := by rw [← hcb]
    have hl : cb'.queueLen = cb.queueLen := by rw [← hcb]
    have hh : cb'.queueHead = prev cb.queueLen cb.queueHead := by rw [← hcb]; rfl
    have ht : cb'.queueTail = cb.queueTail := by rw [← hcb]
    have hp := prev_lt h.head
    refine ⟨⟨hl ▸ h.len, hl ▸ h.lenLt, hs ▸ h4, hs ▸ hlt, ?_, ?_, ?_, fun i hi => ?_⟩,
      ⟨by rw [← hcb], hl, hs, by rw [← hcb]⟩, ?_⟩
    · rw [hh, hl]
      exact hp
    · rw [ht, hh, hl, ← next_add_mod hp, next_prev h.head, h.tail]
    · rw [hl]
      exact hn
    · rw [hh, hl, hs]
      cases i with
      | zero =>
        rw [Nat.add_zero, Nat.mod_eq_of_lt hp, msgDataSize_writeAt hq hs h4 hlt hm]
        exact hm
      | succ i =>
        have hi' : i < n := by omega
        rw [← next_add_mod hp, next_prev h.head,
          msgDataSize_writeAt_of_ne hq hs h4 hlt hm (hne i hi')]
        exact h.fits i hi'
    · rw [if_neg (by simp), contents, contents, hl, hh]
      refine window_push_front h.head ?_ fun i hi => ?_
      · exact message_writeAt hq hs h4 hlt hm
      · exact message_writeAt_of_ne hq hs h4 hlt hm (hne i hi) (h.fits i hi)

theorem RingOk.read
    (h : RingOk cb (n + 1)) (h0 : 0 < bufferSize) (hmax : bufferSize < securecMemMaxLen)
    (hx : cb.osQueueBufferOperate ⟨.read, false, false⟩ buffer bufferSize = (cb', out)) :
    RingOk cb' n ∧ SameShape cb cb' ∧
      ∃ msg, cb.contents (n + 1) = msg :: cb'.contents n ∧ out = msg.take bufferSize := by
  have hmin : (if bufferSize < cb.msgDataSize cb.queueHead then bufferSize
      else cb.msgDataSize cb.queueHead) = min bufferSize (cb.msgDataSize cb.queueHead) := by
    split_ifs <;> omega
  have hcopy : ¬memcpySFails bufferSize (min bufferSize (cb.msgDataSize cb.queueHead)) :=
    not_memcpySFails (Nat.min_le_left ..) h0 hmax.le
  have hsize : cb.queue.loadWord (cb.queueHead * cb.queueSize + cb.queueSize - 4) =
      cb.msgDataSize cb.queueHead := rfl
  simp only [osQueueBufferOperate, queuePosition, hsize, hmin, if_neg hcopy, ← take_load] at hx
  obtain ⟨rfl, rfl⟩ := Prod.mk.inj hx
  have hnext : ∀ i, (next cb.queueLen cb.queueHead + i) % cb.queueLen =
      (cb.queueHead + (i + 1)) % cb.queueLen := fun i => next_add_mod h.head
  refine ⟨⟨h.len, h.lenLt, h.size, h.sizeLt, next_lt h.head, ?_, Nat.le_of_succ_le h.le,
    fun i hi => ?_⟩, ⟨rfl, rfl, rfl, rfl⟩, cb.message cb.queueHead, ?_, rfl⟩
  · exact h.tail.trans (hnext n).symm
  · have hfit := h.fits (i + 1) (by omega)
    rw [← hnext] at hfit
    exact hfit
  · exact window_cons h.head

end LosQueueCB

end LiteOS.Kernel
