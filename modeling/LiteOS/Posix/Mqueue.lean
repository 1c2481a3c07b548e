import LiteOS.Ipc.QueueDelete
import Mathlib.Data.Finset.Insert

/-!
# POSIX message queues

The model of `mq_open`, `mq_close` and `mq_unlink`: descriptors and names over the kernel queues.
The three functions hold `g_mqueueMutex`; between them the other tasks use the kernel queues and may
wait for them. The outcomes of the allocations are up to the heap.
-/

namespace LiteOS.Posix

open Lib Kernel Kernel.Sched Function Sched

/-- The values of `errno` that the functions set. -/
inductive MqErrno
  | einval
  | enametoolong
  | eexist
  | enoent
  | enospc
  | enomem
  | enfile
  | ebadf
  | eintr
  | eagain
  | etimedout
deriving DecidableEq, Repr

/-- `MapMqErrno` of a failure -/
def mapMqErrno : Errno → MqErrno
  | .queueIsfull | .queueIsempty => .eagain
  | .queueCreateNoMemory => .enospc
  | .queueTimeout => .etimedout
  | .queueCbUnavailable => .enfile
  | .queueReadInInterrupt | .queueWriteInInterrupt => .eintr
  | _ => .einval

def mqNameCheck (c : Config) : Option (List UInt8) → Except MqErrno (List UInt8)
  | none => .error .einval
  | some mqName =>
    if mqName.length = 0 then .error .einval
    else if mqName.length > c.pathMax - 1 then .error .enametoolong else .ok mqName

inductive MqBlock
  | name (addr : ℕ)
  | personal (addr : ℕ)
deriving DecidableEq, Repr

structure MqName where
  addr : ℕ
  text : List UInt8
deriving DecidableEq, Repr

/-- `struct mqarray`; `mqcb` is the index of a kernel queue, `mqPersonal` the list linked by
`mq_next`. -/
structure MqArray where
  mqId : ℕ := 0
  unlinkflag : Bool := false
  mqName : Option MqName := none
  mqcb : Option ℕ := none
  mqPersonal : List ℕ := []
deriving DecidableEq, Repr

/-- The members of `struct mq_attr` that `mq_open` reads. -/
structure MqAttr where
  mqMaxmsg : ℤ
  mqMsgsize : ℤ
deriving DecidableEq, Repr

/-- The arguments of `mq_open`, and what the allocations of the queue, of its name and of the
descriptor return. -/
structure MqOpen where
  mqName : Option (List UInt8)
  creat : Bool := true
  excl : Bool := false
  attr : Option MqAttr := none
  queueMem : Option Bytes
  nameMem : Option ℕ
  personalMem : Option ℕ

/-- The kernel queues and `g_queueTable`. `personal p` is `mq_posixdes` of the descriptor `p` while
its `mq_status` is `MQ_USE_MAGIC`; `heap` are the blocks that are allocated. Not in the source:
which kernel queues `mq_open` has created that still exist, for which entries it has returned a new
queue, and whether the name of the last one was unlinked. -/
structure MqSys where
  sys : QueueSys
  table : ℕ → MqArray := fun _ => {}
  personal : ℕ → Option ℕ := fun _ => none
  heap : Finset MqBlock := ∅
  created : ℕ → Bool := fun _ => false
  opened : ℕ → Bool := fun _ => false
  unlinked : ℕ → Bool := fun _ => false

inductive MqOp
  /-- The other tasks go on. -/
  | queue (op : QueueOp)
  | mqOpen (o : MqOpen)
  /-- The descriptor `none` is null or -1. -/
  | mqClose (personal : Option ℕ)
  | mqUnlink (mqName : Option (List UInt8))

namespace MqSys

section

variable (c : Config) (s : MqSys)

/-- Write to an entry of `g_queueTable`. -/
def modify (i : ℕ) (f : MqArray → MqArray) : MqSys :=
  { s with table := update s.table i (f (s.table i)) }

def getMqueueCBByName (name : List UInt8) : Option ℕ :=
  (List.range c.queueLimit).find? fun i => (s.table i).mqName.map MqName.text = some name

def losQueueDelete (mqueueID : ℕ) : MqSys × Errno :=
  let (m, ret) := s.sys.k.losQueueDelete c s.sys.queues mqueueID
  ({ s with
      sys := { s.sys with queues := m }
      created := if ret = .ok then update s.created mqueueID false else s.created }, ret)

def freeName (i : ℕ) : MqSys :=
  match (s.table i).mqName with
  | none => s
  | some name =>
    { s with heap := s.heap.erase (.name name.addr) }.modify i ({ · with mqName := none })

/-- Put a new descriptor at the front of the list of its entry. -/
def addPersonal (i p : ℕ) : MqSys :=
  { s.modify i fun cb => { cb with mqPersonal := p :: cb.mqPersonal } with
    personal := update s.personal p (some i)
    heap := insert (MqBlock.personal p) s.heap }

/-- Take a descriptor out of the list of its entry and free it. -/
def removePersonal (i p : ℕ) : MqSys :=
  { s.modify i fun cb => { cb with mqPersonal := cb.mqPersonal.erase p } with
    personal := update s.personal p none
    heap := s.heap.erase (.personal p) }

def doMqueueDelete (i : ℕ) : MqSys × Except MqErrno Unit :=
  let s := s.freeName i
  let s := s.modify i ({ · with mqcb := none })
  match s.losQueueDelete c (s.table i).mqId with
  | (s, .ok) => (s, .ok ())
  | (s, .queueNotFound) | (s, .queueNotCreate) | (s, .queueInTskuse) | (s, .queueInTskwrite) =>
    (s, .error .eagain)
  | (s, _) => (s, .error .einval)

/-- `DoMqueueCreate` from the allocation of the descriptor on -/
def createPersonal (mqueueID : ℕ) : Option ℕ → MqSys × Except MqErrno ℕ
  | none =>
    let s := s.modify mqueueID ({ · with mqPersonal := [] })
    let s := (s.losQueueDelete c mqueueID).1
    let s := s.modify mqueueID ({ · with mqcb := none })
    (s.freeName mqueueID, .error .enospc)
  | some p =>
    let s := s.modify mqueueID ({ · with mqPersonal := [], unlinkflag := false })
    ({ s.addPersonal mqueueID p with
      opened := update s.opened mqueueID true
      unlinked := update s.unlinked mqueueID false }, .ok p)

def doMqueueCreate (attr : MqAttr) (mqName : List UInt8) (o : MqOpen) : MqSys × Except MqErrno ℕ :=
  match s.sys.k.osQueueCreate s.sys.queues attr.mqMaxmsg.toNat attr.mqMsgsize.toNat o.queueMem with
  | (k, m, .error err) =>
    ({ s with sys := { s.sys with k := k, queues := m } }, .error (mapMqErrno err))
  | (k, m, .ok mqueueID) =>
    let s := { s with
      sys := { s.sys with k := k, queues := m }
      created := update s.created mqueueID true }
    if (s.table mqueueID).mqcb ≠ none then (s, .error .einval)
    else
      let s := s.modify mqueueID ({ · with mqId := mqueueID })
      match o.nameMem with
      | none => (s, .error .enomem)
      | some addr =>
        let s := { s with heap := insert (MqBlock.name addr) s.heap }.modify mqueueID
          ({ · with mqName := some ⟨addr, mqName⟩ })
        -- `GetMqueueCBByID`
        if mqueueID ≥ c.queueLimit then (s.freeName mqueueID, .error .enospc)
        else
          (s.modify mqueueID ({ · with mqcb := some mqueueID })).createPersonal c mqueueID
            o.personalMem

def doMqueueOpen (i : ℕ) (personalMem : Option ℕ) : MqSys × Except MqErrno ℕ :=
  if (s.table i).unlinkflag then (s, .error .einval)
  else
    match personalMem with
    | none => (s, .error .enospc)
    | some p => (s.addPersonal i p, .ok p)

def mqOpen (o : MqOpen) : MqSys × Except MqErrno ℕ :=
  match mqNameCheck c o.mqName with
  | .error e => (s, .error e)
  | .ok name =>
    match s.getMqueueCBByName c name with
    | some i =>
      if o.creat ∧ o.excl then (s, .error .eexist) else s.doMqueueOpen i o.personalMem
    | none =>
      if !o.creat then (s, .error .enoent)
      else
        match o.attr with
        | none => s.doMqueueCreate c ⟨16, 64⟩ name o
        | some attr =>
          if attr.mqMaxmsg < 0 ∨ attr.mqMaxmsg > 0xFFFF ∨ attr.mqMsgsize < 0 ∨
              attr.mqMsgsize > 0xFFFF - 4 then
            (s, .error .einval)
          else s.doMqueueCreate c attr name o

def mqClose : Option ℕ → MqSys × Except MqErrno Unit
  | none => (s, .error .ebadf)
  | some p =>
    match s.personal p with
    | none => (s, .error .ebadf)
    | some i =>
      if p ∉ (s.table i).mqPersonal then (s, .error .ebadf) else let s := s.removePersonal i p
        if (s.table i).unlinkflag ∧ (s.table i).mqPersonal = [] then s.doMqueueDelete c i
        else (s, .ok ())

def mqUnlink (mqName : Option (List UInt8)) : MqSys × Except MqErrno Unit :=
  match mqNameCheck c mqName with
  | .error e => (s, .error e)
  | .ok name =>
    match s.getMqueueCBByName c name with
    | none => (s, .error .enoent)
    | some i =>
      let s := { s with unlinked := update s.unlinked i true }
      if (s.table i).mqPersonal ≠ [] then
        (s.modify i ({ · with unlinkflag := true }), .error .eintr)
      else s.doMqueueDelete c i

def exec : MqOp → MqSys
  | .queue op => { s with sys := (s.sys.act c op).1 }
  | .mqOpen o => (s.mqOpen c o).1
  | .mqClose personal => (s.mqClose c personal).1
  | .mqUnlink mqName => (s.mqUnlink c mqName).1

def Fresh (addr : ℕ) : Prop := .name addr ∉ s.heap ∧ .personal addr ∉ s.heap
deriving Decidable

/-- When an operation can come. The other tasks do not delete the queues of `mq_open`; the heap
hands out blocks that are free. -/
def Enabled : MqOp → Prop
  | .queue (.queueDelete q) => s.created q = false
  | .queue op => QueueSys.Enabled c s.sys op
  | .mqOpen o => (∀ a ∈ o.nameMem, s.Fresh a) ∧ ∀ p ∈ o.personalMem, s.Fresh p ∧ p ∉ o.nameMem
  | .mqClose _ | .mqUnlink _ => True

/-- Runs after `LOS_KernelInit`. -/
def machine : Machine MqSys MqOp where
  init s := ∃ sys, (QueueSys.machine c).init sys ∧ s = { sys := sys }
  allowed := Enabled c
  step := exec c

/-- Nobody waits for the queue, and nobody who was woken still has to take what it was handed. -/
def Idle (q : ℕ) : Prop :=
  s.sys.k.lists (.readWriteList q .read) = [] ∧ s.sys.k.lists (.readWriteList q .write) = [] ∧
    s.sys.k.lists (.memList q) = [] ∧
    (s.sys.queues.allQueue q).readWriteableCnt .write +
      (s.sys.queues.allQueue q).readWriteableCnt .read = (s.sys.queues.allQueue q).queueLen
deriving Decidable

/-- A call that makes a new queue finds memory for its name, and for its descriptor unless the entry
has held a queue before; a queue that nobody may open any more is idle. -/
def Careful : MqOp → Prop
  | .queue _ => True
  | .mqOpen o => ∀ name ∈ o.mqName, o.creat → s.getMqueueCBByName c name = none →
      o.queueMem.isSome → o.nameMem.isSome ∧ (o.personalMem.isSome ∨
        ∀ q ∈ s.sys.queues.freeQueueList.head?, (s.table q).mqId = q)
  | .mqClose personal => ∀ p ∈ personal, ∀ q ∈ s.personal p, (s.table q).unlinkflag →
      (s.table q).mqPersonal.erase p = [] → s.Idle q
  | .mqUnlink mqName => ∀ name ∈ mqName, ∀ q ∈ s.getMqueueCBByName c name,
      (s.table q).mqPersonal = [] → s.Idle q

/-- The kernel queue `q` exists and was created by `mq_open`. -/
def QueueExists (q : ℕ) : Prop :=
  s.created q ∧ (s.sys.queues.allQueue q).queueState
deriving Decidable

end

/-- The table, the kernel queues and the heap are the same. -/
structure Unchanged (s s' : MqSys) : Prop where
  table : s'.table = s.table
  queues : QueueRun.SameUse s.sys.queues s'.sys.queues
  created : s'.created = s.created
  personal : s'.personal = s.personal
  heap : s'.heap = s.heap

structure Sound (c : Config) (s : MqSys) : Prop where
  exists_iff : ∀ q, s.QueueExists q ↔ (s.table q).mqcb ≠ none
  names : ∀ i j name name', (s.table i).mqName = some name → (s.table j).mqName = some name' →
    name.text = name'.text → i = j
  /-- A queue is gone when its name has been unlinked and its last descriptor closed. -/
  gone_iff : ∀ q, s.opened q →
    (¬s.QueueExists q ↔ s.unlinked q ∧ ∀ p, s.personal p ≠ some q)
  /-- A call of `mq_open` that fails. -/
  failed : ∀ o e, Enabled c s (.mqOpen o) → Careful c s (.mqOpen o) →
    (s.mqOpen c o).2 = .error e → s.Unchanged (s.mqOpen c o).1

variable {c : Config} {s s' : MqSys} {q i p addr : ℕ} {f : MqArray → MqArray} {name : List UInt8}
variable {o : MqOpen} {e : MqErrno} {op : MqOp} {mqName : Option (List UInt8)}

@[simp] theorem modify_self : (s.modify i f).table i = f (s.table i) := update_self ..

theorem modify_of_ne (h : q ≠ i) : (s.modify i f).table q = s.table q :=
  update_of_ne h _ _

@[simp] theorem modify_sys : (s.modify i f).sys = s.sys := rfl
@[simp] theorem modify_personal : (s.modify i f).personal = s.personal := rfl
@[simp] theorem modify_heap : (s.modify i f).heap = s.heap := rfl
@[simp] theorem modify_unlinked : (s.modify i f).unlinked = s.unlinked := rfl

theorem removePersonal_self : (s.removePersonal i p).table i =
    { s.table i with mqPersonal := (s.table i).mqPersonal.erase p } := update_self ..

theorem removePersonal_of_ne (h : q ≠ i) : (s.removePersonal i p).table q = s.table q :=
  update_of_ne h _ _

theorem addPersonal_self : (s.addPersonal i p).table i =
    { s.table i with mqPersonal := p :: (s.table i).mqPersonal } := update_self ..

theorem addPersonal_of_ne (h : q ≠ i) : (s.addPersonal i p).table q = s.table q :=
  update_of_ne h _ _

/-! ## The invariant -/

/-- How the table, the descriptors and the kernel queues belong together. -/
structure Slots (c : Config) (s : MqSys) : Prop where
  known : QueueRun.Known c s.sys.queues
  freeNodup : s.sys.queues.freeQueueList.Nodup
  unused : ∀ q ∈ s.sys.queues.freeQueueList, (s.sys.queues.allQueue q).queueState = false
  inUse : ∀ q, s.created q → (s.sys.queues.allQueue q).queueState
  mqcb : ∀ q, (s.table q).mqcb = if s.created q then some q else none
  mqName : ∀ q, (s.table q).mqName.isSome = s.created q
  mqId : ∀ q, s.created q → (s.table q).mqId = q
  personal : ∀ p q, s.personal p = some q ↔ p ∈ (s.table q).mqPersonal
  nodup : ∀ q, (s.table q).mqPersonal.Nodup
  allocated : ∀ p, s.personal p ≠ none → .personal p ∈ s.heap
  closed : ∀ q, s.created q = false → (s.table q).mqPersonal = []
  names : ∀ i j name name', (s.table i).mqName = some name → (s.table j).mqName = some name' →
    name.text = name'.text → i = j

structure Live (s : MqSys) (q : ℕ) : Prop where
  unlink : s.created q → (s.table q).unlinkflag = s.unlinked q
  live : s.created q ↔
    s.opened q ∧ ¬(s.unlinked q ∧ (s.table q).mqPersonal = [])

theorem Live.congr (h : s.Live q) (ht : s'.table q = s.table q) (hc : s'.created q = s.created q)
    (ho : s'.opened q = s.opened q) (hu : s'.unlinked q = s.unlinked q) : s'.Live q :=
  ⟨by rw [ht, hc, hu]; exact h.unlink, by rw [ht, hc, ho, hu]; exact h.live⟩

structure Inv (c : Config) (s : MqSys) : Prop where
  slots : Slots c s
  live : ∀ q, s.Live q

theorem Inv.init (h : (machine c).init s) : Inv c s := by
  obtain ⟨sys, ⟨k, _, _, -, rfl⟩, rfl⟩ := h
  refine ⟨⟨fun q hq => ?_, List.nodup_range, fun q _ => rfl, nofun, fun q => rfl, fun q => rfl,
    nofun,
    fun p q => by simp, fun q => List.nodup_nil, fun p hp => absurd rfl hp, fun q _ => rfl, nofun⟩,
    fun q => ⟨nofun, by simp⟩⟩
  simpa [Queues.osQueueInit] using hq

/-! ### Looking up a name -/

theorem mqNameCheck_ok (h : mqNameCheck c mqName = .ok name) : name ∈ mqName := by
  cases mqName with
  | none => cases h
  | some =>
    simp only [mqNameCheck] at h
    split_ifs at h
    cases h
    rfl

theorem getMqueueCBByName_some (h : s.getMqueueCBByName c name = some i) :
    ∃ n, (s.table i).mqName = some n ∧ n.text = name := by
  have := List.find?_some h
  simpa using this

variable {n : MqName} {personal personalMem : Option ℕ} {heap : Finset MqBlock}

theorem Slots.getMqueueCBByName_none (h : Slots c s) (hn : s.getMqueueCBByName c name = none)
    (hi : (s.table i).mqName = some n) : n.text ≠ name := by
  intro hname
  have hlim := h.known i (.inr (h.inUse i (by simp [← h.mqName, hi])))
  have := List.find?_eq_none.mp hn i (List.mem_range.mpr hlim)
  simp [hi, hname] at this

/-! ### The other tasks -/

theorem Slots.free_useStep {m : Queues} {op : QueueOp} (h : Slots c s)
    (huse : QueueRun.UseStep c s.sys.queues m op) :
    m.freeQueueList.Nodup ∧ ∀ q ∈ m.freeQueueList, (m.allQueue q).queueState = false := by
  cases huse with
  | same _ hsame =>
    rw [hsame.free]
    exact ⟨h.freeNodup, fun q hq => (hsame.state q).trans (h.unused q hq)⟩
  | create _ q first state =>
    obtain ⟨hnot, hnd⟩ := List.nodup_cons.mp (first ▸ h.freeNodup)
    refine ⟨hnd, fun q' hq' => ?_⟩
    rw [state, if_neg (by rintro rfl; exact hnot hq')]
    exact h.unused q' (by simp [first, hq'])
  | delete q _ inUse free state =>
    rw [free]
    refine ⟨List.nodup_cons.mpr ⟨fun hm => by simp [h.unused q hm] at inUse, h.freeNodup⟩,
      fun q' hq' => ?_⟩
    rw [state]
    split_ifs with heq
    · rfl
    · exact h.unused q' ((List.mem_cons.mp hq').resolve_left heq)

theorem Inv.queue {op : QueueOp} (h : Inv c s) (ha : Enabled c s (.queue op)) :
    Inv c (s.exec c (.queue op)) := by
  have huse := QueueRun.useStep_act (c := c) s.sys op
  have hs := h.slots
  obtain ⟨hnd, hunused⟩ := hs.free_useStep huse
  refine ⟨{ hs with
    known := hs.known.useStep huse, freeNodup := hnd, unused := hunused, inUse := ?_ },
    fun q => ⟨(h.live q).unlink, (h.live q).live⟩⟩
  intro q (hq : s.created q)
  change (((s.sys.act c op).1.queues).allQueue q).queueState
  have hold := hs.inUse q hq
  cases huse with
  | same _ hsame => exact (hsame.state q).trans hold
  | create _ _ _ state =>
    rw [state]
    split_ifs
    · rfl
    · exact hold
  | delete q' _ _ _ state =>
    have hfree : s.created q' = false := ha
    rw [state, if_neg (by rintro rfl; simp [hfree] at hq)]
    exact hold

/-! ### Changing one entry -/

/-- What the invariant says about the entry `q` alone. -/
structure Entry (s : MqSys) (q : ℕ) : Prop where
  inUse : s.created q → (s.sys.queues.allQueue q).queueState
  mqcb : (s.table q).mqcb = if s.created q then some q else none
  mqName : (s.table q).mqName.isSome = s.created q
  mqId : s.created q → (s.table q).mqId = q
  nodup : (s.table q).mqPersonal.Nodup
  closed : s.created q = false → (s.table q).mqPersonal = []

/-- The entry `i` and its kernel queue are the same. -/
def SameEntry (s s' : MqSys) (i : ℕ) : Prop :=
  s'.table i = s.table i ∧ s'.created i = s.created i ∧
    (s'.sys.queues.allQueue i).queueState = (s.sys.queues.allQueue i).queueState

theorem Slots.entry (h : Slots c s) (hi : s.SameEntry s' i) : s'.Entry i := by
  obtain ⟨ht, hc, hu⟩ := hi
  constructor <;> simp only [ht, hc, hu]
  exacts [h.inUse i, h.mqcb i, h.mqName i, h.mqId i, h.nodup i, h.closed i]

theorem Slots.set {op : QueueOp} (h : Slots c s)
    (huse : QueueRun.UseStep c s.sys.queues s'.sys.queues op)
    (hother : ∀ i, i ≠ q → s.SameEntry s' i) (hq : s'.Entry q)
    (hp : ∀ p i, s'.personal p = some i ↔ p ∈ (s'.table i).mqPersonal)
    (hheap : ∀ p, s'.personal p ≠ none → .personal p ∈ s'.heap)
    (hn : ∀ j n n', j ≠ q → (s'.table q).mqName = some n → (s.table j).mqName = some n' →
      n.text ≠ n'.text) : Slots c s' := by
  have hentry : ∀ i, s'.Entry i := fun i => by
    by_cases hi : i = q
    · exact hi ▸ hq
    · exact h.entry (hother i hi)
  obtain ⟨hnd, hunused⟩ := h.free_useStep huse
  refine ⟨h.known.useStep huse, hnd, hunused, fun i => (hentry i).inUse, fun i => (hentry i).mqcb,
    fun i => (hentry i).mqName, fun i => (hentry i).mqId, hp, fun i => (hentry i).nodup, hheap,
    fun i => (hentry i).closed, fun i j n n' hi hj htext => ?_⟩
  by_contra hij
  by_cases hiq : i = q
  · have hjq : j ≠ q := fun e => hij (hiq.trans e.symm)
    rw [(hother j hjq).1] at hj
    exact hn j n n' hjq (hiq ▸ hi) hj htext
  · rw [(hother i hiq).1] at hi
    by_cases hjq : j = q
    · exact hn i n' n hiq (hjq ▸ hj) hi htext.symm
    · rw [(hother j hjq).1] at hj
      exact hij (h.names i j n n' hi hj htext)

/-! ### Deleting a queue -/

theorem losQueueDelete_idle (huse : (s.sys.queues.allQueue q).queueState)
    (hlim : q < c.queueLimit) (hidle : s.Idle q) : s.losQueueDelete c q = ({ s with
      sys := { s.sys with queues :=
        { s.sys.queues.modify q fun cb => { cb with queueState := false } with
          freeQueueList := q :: s.sys.queues.freeQueueList } }
      created := update s.created q false }, .ok) := by
  obtain ⟨hread, hwrite, hmem, hsum⟩ := hidle
  simp [losQueueDelete, Sched.losQueueDelete, not_le.mpr hlim, huse, hread, hwrite, hmem, hsum]

theorem freeName_eq (s : MqSys) (i : ℕ) : ∃ heap, (∀ p, .personal p ∈ s.heap → .personal p ∈ heap) ∧
    s.freeName i = { s with heap := heap }.modify i ({ · with mqName := none }) := by
  rw [freeName]
  cases hn : (s.table i).mqName with
  | none =>
    have hself : { s.table i with mqName := none } = s.table i := by rw [← hn]
    exact ⟨s.heap, fun p hp => hp, by simp [modify, hself]⟩
  | some n => exact ⟨s.heap.erase (.name n.addr), fun p hp => by simpa using hp, rfl⟩

/-- The kernel queue `q` goes back to the free ones, and its entry is emptied. -/
def release (s : MqSys) (q : ℕ) (heap : Finset MqBlock) : MqSys :=
  { s with
    sys := { s.sys with queues :=
      { s.sys.queues.modify q fun cb => { cb with queueState := false } with
        freeQueueList := q :: s.sys.queues.freeQueueList } }
    table := update s.table q { s.table q with mqName := none, mqcb := none }
    heap := heap
    created := update s.created q false }

theorem Slots.doMqueueDelete_eq (h : Slots c s) (hq : s.created q) (hidle : s.Idle q) :
    ∃ heap, (∀ p, .personal p ∈ s.heap → .personal p ∈ heap) ∧
      s.doMqueueDelete c q = (s.release q heap, .ok ()) := by
  obtain ⟨heap, hheap, hname⟩ := freeName_eq s q
  have huse := h.inUse q hq
  have hdel := losQueueDelete_idle
    (s := ({ s with heap := heap }.modify q ({ · with mqName := none })).modify q
      ({ · with mqcb := none })) huse (h.known q (.inr huse)) hidle
  refine ⟨heap, hheap, ?_⟩
  simp only [doMqueueDelete, hname, modify_self, h.mqId q hq, hdel]
  simp [release, modify]

theorem release_of_ne (h : i ≠ q) :
    (s.release q heap).table i = s.table i ∧ (s.release q heap).created i = s.created i :=
  ⟨update_of_ne h _ _, update_of_ne h _ _⟩

theorem Slots.release (h : Slots c s) (hq : s.created q)
    (hp : (s.table q).mqPersonal = []) (hheap : ∀ p, s.personal p ≠ none → .personal p ∈ heap) :
    Slots c (s.release q heap) := by
  have huse := h.inUse q hq
  have hstate : ∀ i, ((s.release q heap).sys.queues.allQueue i).queueState =
      if i = q then false else (s.sys.queues.allQueue i).queueState := fun i => by
    by_cases hi : i = q <;> simp [MqSys.release, Queues.modify, hi]
  have hself : (s.release q heap).created q = false ∧ (s.release q heap).table q =
      { s.table q with mqName := none, mqcb := none } := by simp [MqSys.release]
  refine h.set (.delete q (h.known q (.inr huse)) huse rfl hstate) (fun i hi =>
    ⟨(release_of_ne hi).1, (release_of_ne hi).2, (hstate i).trans (if_neg hi)⟩) ?_ (fun p i => ?_)
    hheap (by simp [hself])
  · constructor <;> simp [hself, hp]
  · change s.personal p = some i ↔ _
    rw [h.personal]
    by_cases heq : i = q
    · simp [heq, hself]
    · rw [(release_of_ne heq).1]

/-- `DoMqueueDelete` of an idle queue that was unlinked and has no descriptors. -/
theorem Slots.doMqueueDelete (h : Slots c s) (hq : s.created q) (hidle : s.Idle q)
    (hp : (s.table q).mqPersonal = []) (hu : s.unlinked q)
    (hlive : ∀ i, i ≠ q → s.Live i) : Inv c (s.doMqueueDelete c q).1 := by
  obtain ⟨heap, hheap, heq⟩ := h.doMqueueDelete_eq hq hidle
  rw [heq]
  refine ⟨h.release hq hp fun p hp => hheap p (h.allocated p hp), fun i => ?_⟩
  by_cases hi : i = q
  · subst hi
    have hgone : (s.release i heap).created i = false := update_self ..
    have hpers : ((s.release i heap).table i).mqPersonal = [] := by simpa [MqSys.release] using hp
    have hunl : (s.release i heap).unlinked i := hu
    exact ⟨fun hc => by simp [hgone] at hc, by simp [hgone, hpers, hunl]⟩
  · exact (hlive i hi).congr (release_of_ne hi).1 (release_of_ne hi).2 rfl rfl

/-! ### Closing and unlinking -/

section

variable (h : Slots c s)
include h

theorem Slots.created_of_personal (hp : (s.table q).mqPersonal ≠ []) : s.created q := by
  by_contra hc
  exact hp (h.closed q (by simpa using hc))

theorem Slots.relink {cb : MqArray} (hcr : s.created i)
    (ht : s'.table = update s.table i cb) (hid : cb.mqId = (s.table i).mqId)
    (hn : cb.mqName = (s.table i).mqName) (hcb : cb.mqcb = (s.table i).mqcb)
    (hsys : s'.sys = s.sys) (hc : s'.created = s.created) (hnd : cb.mqPersonal.Nodup)
    (hp : ∀ p j, s'.personal p = some j ↔ p ∈ (s'.table j).mqPersonal)
    (hheap : ∀ p, s'.personal p ≠ none → .personal p ∈ s'.heap) : Slots c s' := by
  have hself : s'.table i = cb := by rw [ht, update_self]
  refine h.set (.same (.queueDelete i) (hsys ▸ .refl _)) (fun j hj =>
    ⟨by rw [ht, update_of_ne hj], by rw [hc], by rw [hsys]⟩) ?_ hp hheap fun j n n' hj hi hj' => ?_
  · constructor <;> simp only [hself, hid, hn, hcb, hc, hsys]
    exacts [h.inUse i, h.mqcb i, h.mqName i, h.mqId i, hnd, fun hnot => by simp [hcr] at hnot]
  · rw [hself, hn] at hi
    exact fun htext => hj (h.names j i n' n hj' hi htext.symm)

theorem Slots.removePersonal (hpi : s.personal p = some i) : Slots c (s.removePersonal i p) := by
  have hmem := (h.personal p i).mp hpi
  refine h.relink (h.created_of_personal (List.ne_nil_of_mem hmem)) rfl rfl rfl rfl rfl rfl
    ((h.nodup i).erase p) (fun p' j => ?_) fun p' hp' => ?_
  · by_cases hj : j = i
    · subst hj
      rw [removePersonal_self, (h.nodup j).mem_erase_iff, ← h.personal]
      by_cases hp' : p' = p <;> simp [MqSys.removePersonal, hp']
    · rw [removePersonal_of_ne hj, ← h.personal]
      by_cases hp' : p' = p <;> simp [MqSys.removePersonal, hp', hpi, Ne.symm hj]
  · by_cases heq : p' = p
    · simp [MqSys.removePersonal, heq] at hp'
    · have hold := h.allocated p' (by simpa [MqSys.removePersonal, heq] using hp')
      simp [MqSys.removePersonal, heq, hold]

theorem Slots.addPersonal (hcr : s.created i) (hfresh : s.Fresh p) :
    Slots c (s.addPersonal i p) := by
  have hnone : s.personal p = none := by
    by_contra hp
    exact hfresh.2 (h.allocated p hp)
  have hnew : ∀ j, p ∉ (s.table j).mqPersonal := fun j hp => by
    simp [← h.personal, hnone] at hp
  refine h.relink hcr rfl rfl rfl rfl rfl rfl (List.nodup_cons.mpr ⟨hnew i, h.nodup i⟩)
    (fun p' j => ?_) fun p' hp' => ?_
  · by_cases hj : j = i
    · subst hj
      rw [addPersonal_self, List.mem_cons, ← h.personal]
      by_cases hp' : p' = p <;> simp [MqSys.addPersonal, hp']
    · rw [addPersonal_of_ne hj, ← h.personal]
      by_cases hp' : p' = p <;> simp [MqSys.addPersonal, hp', hnone, Ne.symm hj]
  · by_cases heq : p' = p
    · simp [MqSys.addPersonal, heq]
    · have hold := h.allocated p' (by simpa [MqSys.addPersonal, heq] using hp')
      simp [MqSys.addPersonal, hold]

end

theorem Inv.mqClose (h : Inv c s) (hc : Careful c s (.mqClose personal)) :
    Inv c (s.mqClose c personal).1 := by
  cases personal with
  | none => exact h
  | some p =>
    rw [MqSys.mqClose]
    cases hpi : s.personal p with
    | none => exact h
    | some i =>
      have hs := h.slots
      have hmem := (hs.personal p i).mp hpi
      have hcr := hs.created_of_personal (List.ne_nil_of_mem hmem)
      have hlive : ∀ j, j ≠ i → (s.removePersonal i p).Live j := fun j hj =>
        (h.live j).congr (removePersonal_of_ne hj) rfl rfl rfl
      have hunlink := (h.live i).unlink hcr
      simp only [hmem, not_true_eq_false, if_false, removePersonal_self]
      split_ifs with hlast
      · exact (hs.removePersonal hpi).doMqueueDelete hcr (hc p rfl i hpi hlast.1 hlast.2)
          (by rw [removePersonal_self]; exact hlast.2) (hunlink ▸ hlast.1) hlive
      · refine ⟨hs.removePersonal hpi, fun j => ?_⟩
        by_cases hj : j = i
        · subst hj
          refine ⟨fun _ => by rw [removePersonal_self]; exact hunlink, iff_of_true hcr ?_⟩
          rw [removePersonal_self]
          exact ⟨((h.live j).live.mp hcr).1, fun hu => hlast ⟨hunlink.trans hu.1, hu.2⟩⟩
        · exact hlive j hj

theorem Inv.mqUnlink (h : Inv c s)
    (hc : Careful c s (.mqUnlink mqName)) : Inv c (s.mqUnlink c mqName).1 := by
  rw [MqSys.mqUnlink]
  split
  · exact h
  · next name hname =>
    have hsome := mqNameCheck_ok hname
    cases hget : s.getMqueueCBByName c name with
    | none => exact h
    | some i =>
      have hs := h.slots
      obtain ⟨n, hn, -⟩ := getMqueueCBByName_some hget
      have hcr : s.created i := by simp [← hs.mqName, hn]
      simp only
      split_ifs with hnil
      · refine ⟨hs.relink hcr rfl rfl rfl rfl rfl rfl (hs.nodup i) (fun p' j => ?_) hs.allocated,
          fun j => ?_⟩
        · rw [modify_personal, hs.personal]
          by_cases hj : j = i
          · subst hj
            rw [modify_self]
          · rw [modify_of_ne hj]
        · by_cases hj : j = i
          · subst hj
            refine ⟨fun _ => by simp,
              iff_of_true hcr ⟨((h.live j).live.mp hcr).1, fun hu => hnil ?_⟩⟩
            simpa using hu.2
          · exact (h.live j).congr (update_of_ne hj _ _) rfl rfl
              (update_of_ne hj _ _)
      · have hnil' : (s.table i).mqPersonal = [] := by simpa using hnil
        have hslots : Slots c { s with unlinked := update s.unlinked i true } :=
          { hs with }
        exact hslots.doMqueueDelete hcr (hc name hsome i hget hnil') hnil' (by simp) fun j hj =>
          (h.live j).congr rfl rfl rfl (update_of_ne hj _ _)

/-! ### Opening -/

theorem Unchanged.refl (s : MqSys) : s.Unchanged s := ⟨rfl, .refl _, rfl, rfl, rfl⟩

theorem Inv.congr (h : Inv c s) (hu : s.Unchanged s') (ho : s'.opened = s.opened)
    (hl : s'.unlinked = s.unlinked) : Inv c s' := by
  have hs := h.slots
  have hsame : ∀ i, s.SameEntry s' i := fun i =>
    ⟨congrFun hu.table i, congrFun hu.created i, hu.queues.state i⟩
  refine ⟨hs.set (.same (.queueDelete 0) hu.queues) (fun i _ => hsame i)
    (hs.entry (hsame 0)) ?_ ?_ fun j n n' hj hq hj' htext => ?_, fun q => ?_⟩
  · rw [hu.table, hu.personal]
    exact hs.personal
  · rw [hu.personal, hu.heap]
    exact hs.allocated
  · rw [hu.table] at hq
    exact hj (hs.names j 0 n' n hj' hq htext.symm)
  · exact (h.live q).congr (hsame q).1 (hsame q).2.1 (congrFun ho q) (congrFun hl q)

/-- A call fails and changes nothing, or succeeds and keeps the invariant. -/
structure Opens (c : Config) (s : MqSys) (x : MqSys × Except MqErrno ℕ) : Prop where
  inv : Inv c x.1
  failed : ∀ e, x.2 = .error e → s.Unchanged x.1

theorem Opens.fails (h : Inv c s) (e : MqErrno) : Opens c s (s, .error e) :=
  ⟨h, fun _ _ => .refl s⟩

theorem Inv.doMqueueOpen (h : Inv c s) (hcr : s.created i)
    (hfresh : ∀ p ∈ personalMem, s.Fresh p) : Opens c s (s.doMqueueOpen i personalMem) := by
  simp only [MqSys.doMqueueOpen]
  split_ifs with hflag
  · exact .fails h _
  · cases personalMem with
    | none => exact .fails h _
    | some p =>
      refine ⟨⟨h.slots.addPersonal hcr (hfresh p rfl), fun j => ?_⟩, nofun⟩
      by_cases hj : j = i
      · subst hj
        have hunlink := (h.live j).unlink hcr
        refine ⟨fun _ => by rw [addPersonal_self]; exact hunlink,
          iff_of_true hcr ⟨((h.live j).live.mp hcr).1, fun hu => ?_⟩⟩
        simp [addPersonal_self] at hu
      · exact (h.live j).congr (addPersonal_of_ne hj) rfl rfl rfl

/-- The state after a kernel queue was created and its name saved. -/
def install (s : MqSys) (k : Sched) (m : Queues) (q : ℕ) (name : MqName) : MqSys :=
  { s with
    sys := { s.sys with k := k, queues := m }
    table := update s.table q
      { s.table q with mqId := q, mqName := some name, mqcb := some q }
    heap := insert (.name name.addr) s.heap
    created := update s.created q true }

theorem Slots.created_of_free (h : Slots c s) (hq : q ∈ s.sys.queues.freeQueueList) :
    s.created q = false := by
  cases hc : s.created q with
  | false => rfl
  | true =>
    have huse := h.inUse q hc
    rw [h.unused q hq] at huse
    cases huse

variable {cb : LosQueueCB} {free : List ℕ} {k : Sched}

theorem Slots.install (h : Slots c s) (hfree : s.sys.queues.freeQueueList = q :: free)
    (hcb : cb.queueState) (hn : s.getMqueueCBByName c n.text = none) : Slots c
      (s.install k ({ s.sys.queues with freeQueueList := free }.modify q fun _ => cb) q n) := by
  generalize hm : Queues.modify { s.sys.queues with freeQueueList := free } q (fun _ => cb) = m
  have hstate : ∀ i, (m.allQueue i).queueState =
      if i = q then true else (s.sys.queues.allQueue i).queueState := fun i => by
    by_cases hi : i = q <;> simp [← hm, Queues.modify, hi, hcb]
  have hfree' : m.freeQueueList = free := by rw [← hm]; rfl
  have hself : (s.install k m q n).created q ∧ (s.install k m q n).table q =
      { s.table q with mqId := q, mqName := some n, mqcb := some q } := by simp [MqSys.install]
  refine h.set (.create (.queueDelete q) q (hfree.trans (hfree' ▸ rfl)) hstate)
    (fun i hi => ⟨update_of_ne hi _ _, update_of_ne hi _ _, (hstate i).trans (if_neg hi)⟩) ?_
    (fun p i => ?_) (fun p hp => Finset.mem_insert_of_mem (h.allocated p hp))
    fun j n₁ n₂ _ hi hj => ?_
  · have huse : ((s.install k m q n).sys.queues.allQueue q).queueState :=
      (hstate q).trans (if_pos rfl)
    constructor <;> simp [hself, huse, h.nodup]
  · change s.personal p = some i ↔ _
    rw [h.personal]
    by_cases heq : i = q
    · simp [heq, hself]
    · rw [show (s.install k m q n).table i = s.table i from update_of_ne heq _ _]
  · -- no other entry carries the name
    rw [hself.2] at hi
    cases hi
    exact (h.getMqueueCBByName_none hn hj).symm

theorem Slots.createPersonal_none (h : Slots c s) (name : List UInt8)
    (hfree : s.sys.queues.freeQueueList = q :: free) (hcb : cb.queueState)
    (hsum : cb.readWriteableCnt .write + cb.readWriteableCnt .read = cb.queueLen)
    (hid : (s.table q).mqId = q) (hfresh : s.Fresh addr) :
    let x := ((s.install (s.sys.k.listInitQueue q)
      ({ s.sys.queues with freeQueueList := free }.modify q fun _ => cb) q
      ⟨addr, name⟩).createPersonal c q none).1
    s.Unchanged x ∧ x.opened = s.opened ∧ x.unlinked = s.unlinked := by
  have hmem : q ∈ s.sys.queues.freeQueueList := by simp [hfree]
  have hcr := h.created_of_free hmem
  have hentry : s.table q = { mqId := q, unlinkflag := (s.table q).unlinkflag } := by
    have hmqcb : (s.table q).mqcb = none := by simp [h.mqcb, hcr]
    have hmqName : (s.table q).mqName = none := by simpa [hcr] using h.mqName q
    have hclosed := h.closed q hcr
    generalize s.table q = entry at hid hmqcb hmqName hclosed
    cases entry
    simp_all
  have hdel := losQueueDelete_idle (s := (s.install (s.sys.k.listInitQueue q)
    ({ s.sys.queues with freeQueueList := free }.modify q fun _ => cb) q
    ⟨addr, name⟩).modify q ({ · with mqPersonal := [] }))
    (by simp [MqSys.install, Queues.modify, hcb]) (h.known q (.inl hmem))
    ⟨by simp [MqSys.install, listInitQueue], by simp [MqSys.install, listInitQueue],
      by simp [MqSys.install, listInitQueue], by simpa [MqSys.install, Queues.modify] using hsum⟩
  simp only [createPersonal, hdel, freeName]
  simp only [modify, MqSys.install, update_idem, update_self]
  refine ⟨⟨?_, ⟨hfree.symm, fun i => ?_⟩, ?_, rfl, ?_⟩, trivial, trivial⟩
  · exact update_eq_self_iff.mpr hentry.symm
  · by_cases hi : i = q <;> simp [Queues.modify, hi, h.unused q hmem]
  · exact update_eq_self_iff.mpr hcr.symm
  · exact Finset.erase_insert hfresh.1

theorem Inv.createPersonal_some (h : Inv c s)
    (hfree : s.sys.queues.freeQueueList = q :: free) (hcb : cb.queueState)
    (hn : s.getMqueueCBByName c n.text = none) (hfresh : s.Fresh p) (hne : p ≠ n.addr) :
    Inv c ((s.install k ({ s.sys.queues with freeQueueList := free }.modify q fun _ => cb) q
      n).createPersonal c q (some p)).1 := by
  have hslots := h.slots.install (k := k) hfree hcb hn
  have hclosed := h.slots.closed q (h.slots.created_of_free (by simp [hfree]))
  generalize Queues.modify { s.sys.queues with freeQueueList := free } q (fun _ => cb) = m
    at hslots ⊢
  have hself : ((s.install k m q n).table q).mqPersonal = [] := by
    simpa [MqSys.install] using hclosed
  have hcr : (s.install k m q n).created q := update_self ..
  have hempty : Slots c ((s.install k m q n).modify q
      ({ · with mqPersonal := [], unlinkflag := false })) := by
    refine hslots.relink hcr rfl rfl rfl rfl rfl rfl List.nodup_nil (fun p' j => ?_)
      hslots.allocated
    rw [modify_personal, hslots.personal]
    by_cases hj : j = q
    · rw [hj, modify_self, hself]
    · rw [modify_of_ne hj]
  have hadd := hempty.addPersonal (p := p) hcr
    (by simpa [Fresh, MqSys.install, hne] using hfresh)
  refine ⟨{ hadd with }, fun j => ?_⟩
  by_cases hj : j = q
  · subst hj
    exact ⟨fun _ => by simp [createPersonal, MqSys.addPersonal],
      iff_of_true hcr (by simp [createPersonal])⟩
  · refine (h.live j).congr ?_ (update_of_ne hj _ _) (update_of_ne hj _ _)
      (update_of_ne hj _ _)
    exact (addPersonal_of_ne hj).trans ((modify_of_ne hj).trans (update_of_ne hj _ _))

theorem Inv.doMqueueCreate {attr : MqAttr} (h : Inv c s)
    (hname : s.getMqueueCBByName c name = none) (ha : Enabled c s (.mqOpen o))
    (hc : o.queueMem.isSome → o.nameMem.isSome ∧ (o.personalMem.isSome ∨
      ∀ q ∈ s.sys.queues.freeQueueList.head?, (s.table q).mqId = q)) :
    Opens c s (s.doMqueueCreate c attr name o) := by
  have hs := h.slots
  rw [MqSys.doMqueueCreate]
  rcases QueueRun.osQueueCreate_cases s.sys.k s.sys.queues attr.mqMaxmsg.toNat attr.mqMsgsize.toNat
    o.queueMem with ⟨e, he⟩ | ⟨q, free, cb, hfree, hmem, he, hcb, hsum⟩
  · simp only [he]
    exact .fails h _
  · obtain ⟨hnm, hpm⟩ := hc hmem
    obtain ⟨addr, haddr⟩ := Option.isSome_iff_exists.mp hnm
    have hcr : s.created q = false := hs.created_of_free (by simp [hfree])
    have hmqcb : (s.table q).mqcb = none := by simp [hs.mqcb, hcr]
    have hlim : q < c.queueLimit := hs.known q (.inl (by simp [hfree]))
    simp only [he, hmqcb, haddr, not_le.mpr hlim]
    suffices hrest : ∀ X, X = s.install (s.sys.k.listInitQueue q)
        ({ s.sys.queues with freeQueueList := free }.modify q fun _ => cb) q ⟨addr, name⟩ →
        Opens c s (X.createPersonal c q o.personalMem) from
      hrest _ (by simp [modify, MqSys.install])
    rintro _ rfl
    cases hp : o.personalMem with
    | none =>
      have hid := (hpm.resolve_left (by simp [hp])) q (by simp [hfree])
      obtain ⟨hu, ho, hl⟩ := hs.createPersonal_none name hfree hcb hsum hid
        (ha.1 addr haddr)
      exact ⟨h.congr hu ho hl, fun _ _ => hu⟩
    | some p =>
      obtain ⟨hfresh, hne⟩ := ha.2 p hp
      exact ⟨h.createPersonal_some hfree hcb hname hfresh fun heq => hne (haddr ▸ heq ▸ rfl), nofun⟩

theorem Inv.mqOpen (h : Inv c s) (ha : Enabled c s (.mqOpen o)) (hc : Careful c s (.mqOpen o)) :
    Opens c s (s.mqOpen c o) := by
  rw [MqSys.mqOpen]
  cases hname : mqNameCheck c o.mqName with
  | error => exact .fails h _
  | ok name =>
    cases hget : s.getMqueueCBByName c name with
    | some =>
      simp only [hget]
      split_ifs
      · exact .fails h _
      · obtain ⟨n, hn, -⟩ := getMqueueCBByName_some hget
        exact h.doMqueueOpen (by simp [← h.slots.mqName, hn]) fun p hp => (ha.2 p hp).1
    | none =>
      simp only [hget]
      split_ifs with hcreat
      · exact .fails h _
      · have hmem := hc name (mqNameCheck_ok hname) (by simpa using hcreat) hget
        cases o.attr with
        | none => exact h.doMqueueCreate hget ha hmem
        | some =>
          simp only
          split_ifs
          · exact .fails h _
          · exact h.doMqueueCreate hget ha hmem

/-! ## The runs -/

theorem Inv.step (h : Inv c s) (ha : Enabled c s op) (hc : Careful c s op) :
    Inv c (s.exec c op) := by
  cases op with
  | queue => exact h.queue ha
  | mqOpen => exact (h.mqOpen ha hc).inv
  | mqClose => exact h.mqClose hc
  | mqUnlink => exact h.mqUnlink hc

theorem Inv.sound (h : Inv c s) : Sound c s where
  exists_iff q := by
    rw [h.slots.mqcb]
    cases hcr : s.created q with
    | false => simp [QueueExists, hcr]
    | true => simp [QueueExists, hcr, h.slots.inUse q hcr]
  names := h.slots.names
  gone_iff q ho := by
    have hlive := (h.live q).live
    have hnil : (s.table q).mqPersonal = [] ↔ ∀ p, s.personal p ≠ some q := by
      simp [List.eq_nil_iff_forall_not_mem, ← h.slots.personal]
    rw [← hnil]
    cases hcr : s.created q with
    | false => simpa [QueueExists, hcr, ho] using hlive
    | true =>
      have huse := h.slots.inUse q hcr
      simp only [hcr, ho, true_and, true_iff] at hlive
      exact iff_of_false (fun hn => hn ⟨hcr, huse⟩) hlive
  failed o e ha hc he := (h.mqOpen ha hc).failed e he

/-- If memory is found for the names, and no task uses a queue that nobody may open any more, the
kernel queues, the table and the heap belong together in every state. -/
theorem sound_of_careful (h : ((machine c).restrict (Careful c)).Reaches s) : Sound c s :=
  (h.invariant (fun _ => Inv.init) fun _ _ hinv ha => hinv.step ha.1 ha.2).sound

/-! ## Two runs -/

instance (c : Config) (s : MqSys) (op) : Decidable ((machine c).allowed s op) := by
  unfold machine Enabled
  dsimp only
  split <;> infer_instance

instance (c : Config) (s : MqSys) (op) : Decidable (Careful c s op) := by
  unfold Careful
  split <;> infer_instance

/-- The state after `LOS_KernelInit`. -/
def smallMq : MqSys := { sys := { k := smallBoot, queues := Queues.osQueueInit smallConfig } }

theorem init_smallMq : (machine smallConfig).init smallMq := ⟨_, ⟨_, 0, 1000, rfl, rfl⟩, rfl⟩

/-- A call that opens the queue with a name of one byte. -/
def openOne (byte : UInt8) (nameMem personalMem : Option ℕ) : MqOp :=
  .mqOpen { mqName := some [byte], queueMem := some fun _ => 0, nameMem, personalMem }

/-- A queue is opened twice, unlinked and closed twice. -/
theorem sound_of_careful_closed :
    ∃ s, ((machine smallConfig).restrict (Careful smallConfig)).Reaches s ∧
      s.opened 0 = true ∧ ¬s.QueueExists 0 ∧ Sound smallConfig s := by
  have hr := Machine.Reaches.run (M := (machine smallConfig).restrict (Careful smallConfig))
    (.start init_smallMq) [openOne 97 (some 1) (some 2), openOne 97 none (some 3),
      .mqUnlink (some [97]), .mqClose (some 2), .mqClose (some 3)] (by decide +kernel)
  exact ⟨_, hr, by decide +kernel, by decide +kernel, sound_of_careful hr⟩

/-- Without memory for the name a kernel queue stays behind. A queue that a task waits for is taken
out of the table and not deleted. Without memory for the descriptor the entry has changed. -/
theorem queue_left_behind :
    (∃ s, (machine smallConfig).Reaches s ∧ s.QueueExists 0 ∧ (s.table 0).mqcb = none ∧
      s.opened 0 = false) ∧
    (∃ s, (machine smallConfig).Reaches s ∧ s.QueueExists 0 ∧ (s.table 0).mqcb = none ∧
      s.opened 0 = true ∧ (s.table 0).mqName = none) ∧
    ∃ s, (machine smallConfig).Reaches s ∧ (s.table 1).mqId = 0 ∧
      ((s.exec smallConfig (openOne 98 (some 3) none)).table 1).mqId = 1 := by
  have hleak := Machine.Reaches.run (.start init_smallMq)
    [openOne 97 none (some 2)] (by decide +kernel)
  have hwait := Machine.Reaches.run (.start init_smallMq)
    [.queue (.task (.taskCreate (userTask 10 false) 2000)),
      .queue (.task (.taskCreate (userTask 5 false) 3000)), .queue (.task (.schedStart 0)),
      openOne 97 (some 1) (some 2), .queue (.task (.taskDelay false 5)),
      .queue (.task (.taskSwitch 1)), .queue (.queueReadCopy 0 4 losWaitForever false),
      .queue (.task (.taskSwitch 2)), .queue (.task (.scanTimerList 1000)),
      .queue (.task (.taskSwitch 1001)), .mqUnlink (some [97]), .mqClose (some 2)]
    (by decide +kernel)
  have hone := Machine.Reaches.run (.start init_smallMq)
    [openOne 97 (some 1) (some 2)] (by decide +kernel)
  exact ⟨⟨_, hleak, by decide +kernel⟩,
    ⟨_, hwait, by decide +kernel⟩,
    ⟨_, hone, by decide +kernel⟩⟩

end MqSys

end LiteOS.Posix
