import Mathlib.Algebra.Group.Nat.Defs
import Mathlib.Data.BitVec
import Mathlib.Data.List.Basic

/-!
# `poll`

The model of `poll.c` and of `PipePoll`. What lies behind the descriptors, the outcomes of the
allocations and what the waits answer is up to the rest of the system. Of the wait queues only the
nodes that refer to the `PollTable` of this call are kept: other tasks link and unlink their own
nodes, and unlinking a node depends on no other. The devices stay registered during the call.
-/

namespace LiteOS.Posix

open Function

abbrev PollEvent := BitVec 32

def pollin : PollEvent := 0x001#32
def pollout : PollEvent := 0x004#32
def pollerr : PollEvent := 0x008#32
def pollhup : PollEvent := 0x010#32

/-- The members of `struct pollfd` that the caller sets. -/
structure PollFd where
  fd : ℤ
  events : BitVec 16
deriving DecidableEq, Repr

/-- The ring of a pipe as `PipePoll` reads it. -/
structure PipeView where
  bufferSize : ℕ
  readIndex : ℕ
  writeIndex : ℕ
  roll : Bool
deriving DecidableEq, Repr

/-- What `PollQueryFd` finds behind a descriptor that is not negative. -/
inductive Found
  /-- The descriptor is below `PIPE_DEV_FD`. -/
  | notPipe
  /-- The descriptor is beyond `g_devFd`. -/
  | noEntry
  /-- An entry of `g_devFd`; its device is null after `PipeClose`. -/
  | entry (dev : Option ℕ) (wronly : Bool) (view : PipeView)
deriving DecidableEq, Repr

/-- The values of `errno` that `poll` sets; `PipePoll` answers -1, which `QueryFds` takes for the
negative of `EPERM`. -/
inductive PollErrno
  | eperm
  | ebadf
  | enodev
  | einval
  | etimedout
deriving DecidableEq, Repr

/-- `struct PollTable`; the nodes are numbered in the order of their allocation. -/
structure PollTable where
  node : Option ℕ := none
  event : PollEvent := 0#32
  addQueueFlag : Bool := false
deriving DecidableEq, Repr

/-- One call of `poll`. `queue dev` are the nodes of this call on the wait queue of `dev`. Not in
the source: how many nodes were allocated, how often each was freed, and whether memory was written
through a null pointer. -/
structure PollSys where
  table : PollTable := {}
  semCreated : Bool := false
  errno : Option PollErrno := none
  revents : ℕ → Option (BitVec 16) := fun _ => none
  queue : ℕ → List ℕ := fun _ => []
  allocated : ℕ := 0
  freed : ℕ → ℕ := fun _ => 0
  strayWrite : Bool := false

namespace PollSys

def setAddPollWaitFlag (s : PollSys) (addQueueFlag : Bool) : PollSys :=
  { s with table := { s.table with addQueueFlag := addQueueFlag } }

/-- `LOS_ListDelete` reads the neighbours of the node and writes to them. -/
def destroyPollWait (s : PollSys) : PollSys :=
  match s.table.node with
  | none => { s with strayWrite := true, semCreated := false }
  | some waitNode =>
    { s with
      queue := fun dev => (s.queue dev).erase waitNode
      freed := update s.freed waitNode (s.freed waitNode + 1)
      semCreated := false }

/-- The queue of a null device lies at a small address. -/
def addPollWaitQueue (s : PollSys) (dev : Option ℕ) (alloc : Bool) : PollSys :=
  if !alloc then s
  else
    let waitNode := s.allocated
    { s with
      allocated := waitNode + 1
      table := { s.table with node := some waitNode }
      queue := match dev with
        | some dev => update s.queue dev (waitNode :: s.queue dev)
        | none => s.queue
      strayWrite := s.strayWrite || dev.isNone }

def pollWait (s : PollSys) (dev : Option ℕ) (alloc : Bool) : PollSys :=
  if s.table.addQueueFlag then s.addPollWaitQueue dev alloc else s

end PollSys

def PipeView.nbytes (v : PipeView) : ℕ :=
  if v.readIndex = v.writeIndex then if v.roll then v.bufferSize else 0
  else if v.writeIndex > v.readIndex then v.writeIndex - v.readIndex
  else v.bufferSize - v.readIndex + v.writeIndex

/-- `bufferSize - 1` is a `size_t` of 32 bits: before the first open the size is 0. -/
def PipeView.event (v : PipeView) (wronly : Bool) : PollEvent :=
  if wronly then if v.nbytes < (v.bufferSize + (2 ^ 32 - 1)) % 2 ^ 32 then pollout else 0#32
  else if v.nbytes > 0 then pollin else 0#32

/-- `events | POLLERR | POLLHUP` in `QueryFds`; `events` is a signed short. -/
def PollFd.wanted (fd : PollFd) : PollEvent := fd.events.signExtend 32 ||| pollerr ||| pollhup

namespace PollSys

/-- `PipePoll` on an entry of `g_devFd` -/
def pipePoll (s : PollSys) (dev : Option ℕ) (wronly : Bool) (view : PipeView) (alloc : Bool) :
    PollSys × PollEvent :=
  let mask := view.event wronly &&& s.table.event
  (if mask = 0#32 then s.pollWait dev alloc else s, mask)

/-- The loop of `QueryFds` from descriptor `i` on; `pass` says what is found behind each descriptor
and whether the allocation of its node succeeds. -/
def queryLoop (pass : ℕ → Found × Bool) : List PollFd → ℕ → ℤ → PollSys → PollSys × ℤ
  | [], _, count, s => (s, count)
  | tmpFds :: fds, i, count, s =>
    if tmpFds.fd < 0 then ({ s with errno := some .ebadf }, -1)
    else
      let s := { s with table := { s.table with event := tmpFds.wanted } }
      match pass i with
      | (.notPipe, _) => ({ s with errno := some .enodev }, -1)
      | (.noEntry, _) => ({ s with errno := some .eperm }, -1)
      | (.entry dev wronly view, alloc) =>
        let (s, mask) := s.pipePoll dev wronly view alloc
        let revents := (tmpFds.wanted &&& mask).setWidth 16
        let s := { s with revents := update s.revents i (some revents) }
        if revents ≠ 0#16 then queryLoop pass fds (i + 1) (count + 1) (s.setAddPollWaitFlag false)
        else queryLoop pass fds (i + 1) count s

/-- `QueryFds`; the array is null or not. -/
def queryFds (s : PollSys) (fdsNull : Bool) (fds : List PollFd) (pass : ℕ → Found × Bool) :
    PollSys × ℤ :=
  if fds ≠ [] ∧ fdsNull then ({ s with errno := some .einval }, -1)
  else queryLoop pass fds 0 0 s

end PollSys

/-- What `LOS_SemPend` answers. -/
inductive PendRet
  | ok
  | timeout
  | error
deriving DecidableEq, Repr

/-- One round of `PollTimedWait`: the time since the start, the answer of the wait and what the
query finds afterwards. -/
structure Round where
  last : ℤ
  pend : PendRet
  pass : ℕ → Found × Bool

namespace PollSys

/-- `PollTimedWait`; without a result the call still waits after the given rounds. -/
def pollTimedWait (fdsNull : Bool) (fds : List PollFd) (timeout : ℤ) :
    List Round → ℤ → PollSys → Option (PollSys × ℤ)
  | [], left, s => if timeout < 0 then none else if left ≤ 0 then some (s, 0) else none
  | round :: rounds, left, s =>
    if timeout < 0 then
      if round.pend ≠ .ok then some (s, 0)
      else
        let (s, count) := s.queryFds fdsNull fds round.pass
        if count = 0 then pollTimedWait fdsNull fds timeout rounds left s else some (s, count)
    else if left ≤ 0 then some (s, 0)
    else if round.last ≥ timeout then some (s, 0)
    else
      let left := timeout - round.last
      if round.pend = .timeout then some ({ s with errno := some .etimedout }, 0)
      else
        let (s, count) := s.queryFds fdsNull fds round.pass
        if count = 0 then pollTimedWait fdsNull fds timeout rounds left s else some (s, count)

end PollSys

/-- The arguments of a call and what the rest of the system does: whether the semaphore is created,
what the first query finds, and the rounds of waiting. -/
structure PollCall where
  fdsNull : Bool
  fds : List PollFd
  timeout : ℤ
  semCreate : Bool
  pass : ℕ → Found × Bool
  rounds : List Round

def PollCall.poll (c : PollCall) : Option (PollSys × ℤ) :=
  if !c.semCreate then some ({ errno := some .einval }, -1)
  else
    let s : PollSys := { semCreated := true }
    let s := s.setAddPollWaitFlag (c.timeout ≠ 0)
    let (s, count) := s.queryFds c.fdsNull c.fds c.pass
    if count ≠ 0 then some (s.destroyPollWait, count)
    else if c.timeout = 0 then some (s.destroyPollWait, count)
    else do
      let (s, count) ← PollSys.pollTimedWait c.fdsNull c.fds c.timeout c.rounds c.timeout
        (s.setAddPollWaitFlag false)
      return (s.destroyPollWait, count)

/-! ## Which queues a call joins -/

/-- The queues that the first query joins: those of the descriptors before the first one that is
ready or invalid whose node could be allocated. -/
def joins (pass : ℕ → Found × Bool) : List PollFd → ℕ → List (Option ℕ)
  | [], _ => []
  | tmpFds :: fds, i =>
    if tmpFds.fd < 0 then []
    else
      match pass i with
      | (.notPipe, _) | (.noEntry, _) => []
      | (.entry dev wronly view, alloc) =>
        if view.event wronly &&& tmpFds.wanted ≠ 0#32 then []
        else if alloc then dev :: joins pass fds (i + 1)
        else joins pass fds (i + 1)

def PollCall.joined (c : PollCall) : List (Option ℕ) :=
  if c.fdsNull ∨ c.timeout = 0 then [] else joins c.pass c.fds 0

/-- Nothing is left behind: no queue holds a node of the call, every node was freed once, and
nothing was written through a null pointer. -/
structure PollSys.Clean (s : PollSys) : Prop where
  queues : ∀ dev, s.queue dev = []
  freed : ∀ node, s.freed node = if node < s.allocated then 1 else 0
  stray : s.strayWrite = false

namespace PollSys

variable {s s' : PollSys} {pass : ℕ → Found × Bool} {fds : List PollFd} {i : ℕ}
  {count r timeout left : ℤ}
variable {dev : Option ℕ} {alloc fdsNull : Bool} {ds : List (Option ℕ)}

/-- What the bookkeeping of the nodes looks like after the queues `ds` were joined, in this
order. -/
structure Joined (s : PollSys) (ds : List (Option ℕ)) : Prop where
  allocated : s.allocated = ds.length
  node : s.table.node = if ds = [] then none else some (ds.length - 1)
  freed : ∀ n, s.freed n = 0
  stray : s.strayWrite = ds.any Option.isNone
  mem : ∀ d n, n ∈ s.queue d ↔ ds[n]? = some (some d)
  nodup : ∀ d, (s.queue d).Nodup

theorem revents_eq_zero (fd : PollFd) (view : PipeView) (wronly : Bool) :
    (fd.wanted &&& (view.event wronly &&& fd.wanted)).setWidth 16 = 0#16 ↔
      view.event wronly &&& fd.wanted = 0#32 := by
  have hsmall : (view.event wronly).toNat < 2 ^ 16 := by
    unfold PipeView.event
    split_ifs <;> decide
  have hand : fd.wanted &&& (view.event wronly &&& fd.wanted) =
      view.event wronly &&& fd.wanted := by
    rw [BitVec.and_comm, BitVec.and_assoc, BitVec.and_self]
  rw [hand]
  constructor
  · intro hz
    have hnat := congrArg BitVec.toNat hz
    have hle : (view.event wronly).toNat &&& fd.wanted.toNat ≤ (view.event wronly).toNat :=
      Nat.and_le_left
    apply BitVec.eq_of_toNat_eq
    simp only [BitVec.toNat_setWidth, BitVec.toNat_and, BitVec.toNat_ofNat] at hnat ⊢
    omega
  · intro hz
    simp [hz]

section

variable (h : Joined s ds)
include h

theorem Joined.congr (hn : s'.table.node = s.table.node)
    (ha : s'.allocated = s.allocated) (hf : s'.freed = s.freed) (hw : s'.strayWrite = s.strayWrite)
    (hq : s'.queue = s.queue) : Joined s' ds where
  allocated := ha.trans h.allocated
  node := hn.trans h.node
  freed n := by rw [hf, h.freed]
  stray := hw.trans h.stray
  mem d n := by rw [hq, h.mem]
  nodup d := by rw [hq]; exact h.nodup d

theorem Joined.addPollWaitQueue : Joined (s.addPollWaitQueue dev true) (ds ++ [dev]) := by
  have hfresh : ∀ d, ds.length ∉ s.queue d := fun d hd => by
    simpa using (h.mem d _).mp hd
  have hlast : ∀ n, (ds ++ [dev])[n]? = if n = ds.length then some dev else ds[n]? := fun n => by
    rcases lt_trichotomy n ds.length with hlt | heq | hgt
    · rw [List.getElem?_append_left hlt, if_neg (by omega)]
    · simp [heq]
    · rw [if_neg (by omega), List.getElem?_eq_none (by simp; omega),
        List.getElem?_eq_none (by omega)]
  cases dev with
  | none =>
    refine ⟨by simp [PollSys.addPollWaitQueue, h.allocated], ?_, h.freed, ?_, fun d n => ?_,
      h.nodup⟩
    · simp [PollSys.addPollWaitQueue, h.allocated]
    · simp [PollSys.addPollWaitQueue]
    · change n ∈ s.queue d ↔ _
      rw [hlast, h.mem]
      by_cases hn : n = ds.length <;> simp [hn]
  | some e =>
    refine ⟨by simp [PollSys.addPollWaitQueue, h.allocated], ?_, h.freed, ?_, fun d n => ?_,
      fun d => ?_⟩
    · simp [PollSys.addPollWaitQueue, h.allocated]
    · simp [PollSys.addPollWaitQueue, h.stray]
    · change n ∈ update s.queue e (s.allocated :: s.queue e) d ↔ _
      rw [hlast, h.allocated]
      by_cases hd : d = e
      · subst hd
        rw [update_self, List.mem_cons, h.mem]
        by_cases hn : n = ds.length <;> simp [hn]
      · rw [update_of_ne hd, h.mem]
        by_cases hn : n = ds.length <;> simp [hn, Ne.symm hd]
    · change (update s.queue e (s.allocated :: s.queue e) d).Nodup
      by_cases hd : d = e
      · subst hd
        rw [update_self, h.allocated]
        exact List.nodup_cons.mpr ⟨hfresh d, h.nodup d⟩
      · rw [update_of_ne hd]
        exact h.nodup d

theorem Joined.queryLoop_of_not_flag (hflag : s.table.addQueueFlag = false) :
    Joined (queryLoop pass fds i count s).1 ds ∧
      (queryLoop pass fds i count s).1.table.addQueueFlag = false := by
  induction fds generalizing i count s with
  | nil => exact ⟨h, hflag⟩
  | cons tmpFds _ ih =>
    rw [queryLoop]
    by_cases hfd : tmpFds.fd < 0
    · rw [if_pos hfd]
      exact ⟨h.congr rfl rfl rfl rfl rfl, hflag⟩
    rw [if_neg hfd]
    obtain ⟨found, alloc⟩ := pass i
    cases found with
    | notPipe => exact ⟨h.congr rfl rfl rfl rfl rfl, hflag⟩
    | noEntry => exact ⟨h.congr rfl rfl rfl rfl rfl, hflag⟩
    | entry =>
      simp only [pipePoll, pollWait, hflag, if_false, Bool.false_eq_true]
      split_ifs <;> exact ih (h.congr rfl rfl rfl rfl rfl) rfl

theorem Joined.queryLoop (hflag : s.table.addQueueFlag) :
    Joined (queryLoop pass fds i count s).1 (ds ++ joins pass fds i) := by
  induction fds generalizing i count s ds with
  | nil => simpa [joins, PollSys.queryLoop] using h
  | cons tmpFds _ ih =>
    rw [PollSys.queryLoop, joins]
    by_cases hfd : tmpFds.fd < 0
    · rw [if_pos hfd, if_pos hfd, List.append_nil]
      exact h.congr rfl rfl rfl rfl rfl
    rw [if_neg hfd, if_neg hfd]
    obtain ⟨found, alloc⟩ := pass i
    cases found with
    | notPipe =>
      rw [List.append_nil]
      exact h.congr rfl rfl rfl rfl rfl
    | noEntry =>
      rw [List.append_nil]
      exact h.congr rfl rfl rfl rfl rfl
    | entry dev wronly view =>
      simp only [pipePoll, ne_eq, revents_eq_zero]
      by_cases hmask : view.event wronly &&& tmpFds.wanted = 0#32
      · -- not ready: a node is added
        rw [if_pos hmask, if_neg (not_not.mpr hmask), if_neg (not_not.mpr hmask)]
        simp only [hflag]
        cases alloc with
        | false =>
          rw [if_neg (by simp)]
          exact ih (h.congr rfl rfl rfl rfl rfl) rfl
        | true =>
          have hadd : Joined (s.addPollWaitQueue dev true) (ds ++ [dev]) := h.addPollWaitQueue
          rw [if_pos rfl, ← List.singleton_append, ← List.append_assoc]
          exact ih (hadd.congr rfl rfl rfl rfl rfl) rfl
      · -- ready: the flag is cleared
        rw [if_neg hmask, if_pos hmask, if_pos hmask, List.append_nil]
        refine (Joined.queryLoop_of_not_flag ?_ ?_).1
        · exact h.congr rfl rfl rfl rfl rfl
        · rfl

theorem Joined.queryFds_of_not_flag (hflag : s.table.addQueueFlag = false) :
    Joined (s.queryFds fdsNull fds pass).1 ds ∧
      (s.queryFds fdsNull fds pass).1.table.addQueueFlag = false := by
  rw [queryFds]
  split_ifs
  · exact ⟨h.congr rfl rfl rfl rfl rfl, hflag⟩
  · exact h.queryLoop_of_not_flag hflag

theorem Joined.pollTimedWait {rounds : List Round} (hflag : s.table.addQueueFlag = false)
    (hr : pollTimedWait fdsNull fds timeout rounds left s = some (s', r)) : Joined s' ds := by
  induction rounds generalizing left s with
  | nil =>
    rw [PollSys.pollTimedWait] at hr
    split_ifs at hr
    cases hr
    exact h
  | cons round _ ih =>
    have hquery : Joined (s.queryFds fdsNull fds round.pass).1 ds ∧
        (s.queryFds fdsNull fds round.pass).1.table.addQueueFlag = false :=
      h.queryFds_of_not_flag hflag
    generalize hq : s.queryFds fdsNull fds round.pass = q at hquery
    simp only [PollSys.pollTimedWait, hq] at hr
    split_ifs at hr
    · cases hr
      exact h
    · exact ih hquery.1 hquery.2 hr
    · cases hr
      exact hquery.1
    · cases hr
      exact h
    · cases hr
      exact h
    · cases hr
      exact h.congr rfl rfl rfl rfl rfl
    · exact ih hquery.1 hquery.2 hr
    · cases hr
      exact hquery.1

theorem Joined.clean_destroyPollWait : s.destroyPollWait.Clean ↔ ∃ d, ds = [some d] := by
  have hnode := h.node
  match ds, h, hnode with
  | [], h, hnode =>
    refine iff_of_false (fun hc => ?_) (by simp)
    have := hc.stray
    simp [destroyPollWait, hnode] at this
  | [none], h, hnode =>
    refine iff_of_false (fun hc => ?_) (by simp)
    have := hc.stray
    simp [destroyPollWait, hnode, h.stray] at this
  | [some d], h, hnode =>
    refine iff_of_true ?_ ⟨d, rfl⟩
    have hs : s.destroyPollWait = { s with
        queue := fun dev => (s.queue dev).erase 0
        freed := update s.freed 0 (s.freed 0 + 1)
        semCreated := false } := by
      simp [destroyPollWait, hnode]
    rw [hs]
    refine ⟨fun dev => ?_, fun node => ?_, ?_⟩
    · refine List.eq_nil_iff_forall_not_mem.mpr fun n hn => ?_
      obtain ⟨hne, hmem⟩ := (h.nodup dev).mem_erase_iff.mp hn
      rw [h.mem] at hmem
      simp [hne] at hmem
    · simp only [h.allocated]
      by_cases hn : node = 0 <;> simp [hn, h.freed]
    · simp [h.stray]
  | d :: e :: ds, h, hnode =>
    -- the first node is not freed
    refine iff_of_false (fun hc => ?_) (by simp)
    have hfreed := hc.freed 0
    simp [destroyPollWait, hnode, h.allocated, h.freed] at hfreed

end

end PollSys

namespace PollCall

variable {c : PollCall} {s : PollSys} {r : ℤ}

theorem joined_queryFds : PollSys.Joined ((PollSys.setAddPollWaitFlag { semCreated := true }
    (c.timeout ≠ 0)).queryFds c.fdsNull c.fds c.pass).1 c.joined := by
  have hinit : ∀ flag, PollSys.Joined (PollSys.setAddPollWaitFlag { semCreated := true } flag) [] :=
    fun flag => ⟨rfl, rfl, fun _ => rfl, rfl, fun d n => by simp [PollSys.setAddPollWaitFlag],
      fun d => List.nodup_nil⟩
  by_cases htimeout : c.timeout = 0
  · rw [joined, if_pos (.inr htimeout)]
    exact ((hinit _).queryFds_of_not_flag (by simp [PollSys.setAddPollWaitFlag, htimeout])).1
  cases hnull : c.fdsNull with
  | true =>
    rw [joined, if_pos (.inl hnull), PollSys.queryFds]
    split_ifs with hfds
    · exact (hinit _).congr rfl rfl rfl rfl rfl
    · have hnil : c.fds = [] := by simpa using hfds
      rw [hnil]
      exact hinit _
  | false =>
    rw [joined, if_neg (by simp [hnull, htimeout]), PollSys.queryFds, if_neg (by simp)]
    exact (hinit _).queryLoop (by simp [PollSys.setAddPollWaitFlag, htimeout])

/-- A call of `poll` that returns leaves nothing behind exactly when it failed to create its
semaphore or joined the queue of one device. -/
theorem clean_iff (h : c.poll = some (s, r)) :
    s.Clean ↔ c.semCreate = false ∨ ∃ d, c.joined = [some d] := by
  rw [poll] at h
  cases hsem : c.semCreate with
  | false =>
    rw [hsem] at h
    cases h
    exact iff_of_true ⟨fun _ => rfl, fun _ => rfl, rfl⟩ (.inl rfl)
  | true =>
    simp only [hsem, Bool.not_true, Bool.false_eq_true, if_false] at h
    have hquery := joined_queryFds (c := c)
    generalize (PollSys.setAddPollWaitFlag { semCreated := true } (c.timeout ≠ 0)).queryFds
      c.fdsNull c.fds c.pass = q at h hquery
    obtain ⟨s₁, count⟩ := q
    have hdone : s₁.destroyPollWait.Clean ↔ true = false ∨ ∃ d, c.joined = [some d] :=
      hquery.clean_destroyPollWait.trans (by simp)
    split_ifs at h with hcount htimeout
    · cases h
      exact hdone
    · cases h
      exact hdone
    · obtain ⟨⟨s₂, count'⟩, hwait, hret⟩ := Option.bind_eq_some_iff.mp h
      have hjoined : PollSys.Joined (s₁.setAddPollWaitFlag false) c.joined :=
        hquery.congr rfl rfl rfl rfl rfl
      replace hjoined := hjoined.pollTimedWait rfl hwait
      cases hret
      exact hjoined.clean_destroyPollWait.trans (by simp)

def oneByte : PipeView := ⟨1024, 0, 1, false⟩

def noByte : PipeView := ⟨1024, 0, 0, false⟩

/-- A call for one pipe that is empty until a byte is written during the first wait. -/
def waitForOne : PollCall where
  fdsNull := false
  fds := [⟨64, 1#16⟩]
  timeout := -1
  semCreate := true
  pass := fun _ => (.entry (some 0) false noByte, true)
  rounds := [⟨0, .ok, fun _ => (.entry (some 0) false oneByte, true)⟩]

/-- One descriptor that is not ready: its node is freed when the wait ends. -/
theorem clean_iff_single : ∃ s, waitForOne.poll = some (s, 1) ∧ s.Clean :=
  ⟨_, rfl, (clean_iff (c := waitForOne) rfl).mpr (.inr ⟨0, by decide⟩)⟩

/-- Two descriptors that are not ready leave a node behind that refers to the table of the call, and
a call with a ready descriptor unlinks through a null pointer. -/
theorem node_left_and_null_node :
    (∃ s r, poll ⟨false, [⟨64, 1#16⟩, ⟨66, 1#16⟩], -1, true,
        fun i => (.entry (some i) false noByte, true),
        [⟨0, .ok, fun i => (.entry (some i) false oneByte, true)⟩]⟩ = some (s, r) ∧ r = 2 ∧
      s.queue 0 = [0] ∧ s.freed 0 = 0) ∧
    ∃ s r, poll ⟨false, [⟨64, 1#16⟩], -1, true, fun _ => (.entry (some 0) false oneByte, true),
      []⟩ =
        some (s, r) ∧ r = 1 ∧ s.strayWrite = true :=
  ⟨⟨_, _, rfl, rfl, rfl, rfl⟩, ⟨_, _, rfl, rfl, rfl⟩⟩

end PollCall

end LiteOS.Posix
