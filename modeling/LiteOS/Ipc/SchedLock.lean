import LiteOS.Ipc.Event
import LiteOS.Ipc.PthreadMutex
import LiteOS.Ipc.Queue
import LiteOS.Ipc.Sem
import LiteOS.Memory.Membox

/-!
# Blocking calls under the scheduler lock

While `g_losTaskLock` is not 0, `LOS_Schedule` returns at once, so a call that has put the running
task on a wait list goes on as if the task had been woken. Each blocking call has to refuse before
that. The models of `OsQueueMailAlloc` and `LOS_SignalWait` are here too.
-/

namespace LiteOS.Kernel

open Lib Sched Memory

/-! ## Signals -/

/-- `siginfo_t` -/
structure Siginfo where
  siSigno : ℕ := 0
  siCode : ℕ := 0
  siValue : ℕ := 0
deriving DecidableEq, Repr

/-- The fields of `OsSigCB` that `LOS_SignalWait` reads; `waiting` is `OS_SIGNAL_STATUS_WAIT` of
`sigStatus`. -/
structure OsSigCB where
  sigPendFlag : BitVec 32 := 0
  sigWaitFlag : BitVec 32 := 0
  sigInfo : Siginfo := {}
  sigInfoList : List Siginfo := []
  waiting : Bool := false
deriving DecidableEq, Repr

def losSignalSupportMax : ℕ := 31

/-- `LOS_SIGNAL_MASK`; the shift by -1 for the number 0 leaves nothing. -/
def losSignalMask (sigNo : ℕ) : BitVec 32 := if sigNo = 0 then 0 else 1 <<< (sigNo - 1)

/-- `SignalCBInit`; `memAlloc` says whether `LOS_MemAlloc` finds memory. -/
def signalCBInit (sig : Option OsSigCB) (memAlloc : Bool) : Option OsSigCB :=
  match sig with
  | some sigCB => some sigCB
  | none => if memAlloc then some {} else none

def OsSigCB.deleteSigInfoFromList (sigCB : OsSigCB) (sigNo : ℕ) : OsSigCB :=
  match sigCB.sigInfoList.find? (·.siSigno = sigNo) with
  | none => sigCB
  | some info =>
    { sigCB with sigInfoList := sigCB.sigInfoList.eraseP (·.siSigno = sigNo), sigInfo := info }

namespace Sched

/-- `LOS_SignalWait` up to its `LOS_Schedule`; `sig` holds the signal control blocks of the
tasks. -/
def losSignalWait (k : Sched) (sig : TaskID → Option OsSigCB) (set : Option (BitVec 32))
    (memAlloc : Bool) (timeout : ℕ) (intActive : Bool) :
    Sched × (TaskID → Option OsSigCB) × Option (Except Errno ℕ) :=
  match set with
  | none => (k, sig, some (.error .signalInvalid))
  | some set =>
    if set = 0 then (k, sig, some (.error .signalInvalid))
    else
      match signalCBInit (sig k.runTask) memAlloc with
      | none => (k, sig, some (.error .signalNoMemory))
      | some sigCB =>
        let store (sigCB : OsSigCB) := Function.update sig k.runTask (some sigCB)
        let sigFlag := sigCB.sigPendFlag &&& set
        if sigFlag ≠ 0 then
          let sigCB := { sigCB with sigPendFlag := sigCB.sigPendFlag ^^^ sigFlag }
          let sigNo := losSignalSupportMax - sigFlag.clz.toNat + 1
          (k, store (sigCB.deleteSigInfoFromList sigNo), some (.ok sigNo))
        -- `SignalTimedWait`
        else if timeout = 0 then (k, store sigCB, some (.error .signalInvalid))
        else if intActive then (k, store sigCB, some (.error .signalPendInterr))
        else
          (k.osSchedTaskWait .waitSignalList timeout,
            store { sigCB with sigWaitFlag := sigCB.sigWaitFlag ||| set, waiting := true }, none)

/-- The rest of `LOS_SignalWait` -/
def losSignalWaitReturn (k : Sched) (sig : TaskID → Option OsSigCB) :
    Sched × (TaskID → Option OsSigCB) × Except Errno ℕ :=
  let sigCB := { (sig k.runTask).getD {} with waiting := false, sigWaitFlag := 0 }
  let store (sigCB : OsSigCB) := Function.update sig k.runTask (some sigCB)
  let k := k.setStatus k.runTask fun s => { s with signal := false }
  let (k, timedOut) := k.takeTimeout k.runTask
  if timedOut then (k, store sigCB, .error .signalTimeout)
  else
    let sigNo := sigCB.sigInfo.siSigno
    (k, store { sigCB with sigPendFlag := sigCB.sigPendFlag &&& ~~~losSignalMask sigNo }, .ok sigNo)

/-! ## Mail -/

/-- `OsQueueMailAlloc` up to its `LOS_Schedule`; the mail pool is in `mem`, and the answer is an
address or null. -/
def osQueueMailAlloc (c : Config) (k : Sched) (m : Queues) (mem : Words)
    (queueID mailPool timeOut : ℕ) (intActive : Bool) : Sched × Words × Option ℕ :=
  if queueID ≥ c.queueLimit then (k, mem, some 0)
  else if mailPool = 0 then (k, mem, some 0)
  else if timeOut ≠ 0 ∧ intActive then (k, mem, some 0)
  else if !(m.allQueue queueID).queueState then (k, mem, some 0)
  else
    let (mem, box) := Memory.losMemboxAlloc mem mailPool k.losCurTaskIDGet
    if box = 0 then
      if timeOut = 0 then (k, mem, some 0)
      else (k.osSchedTaskWait (.memList queueID) timeOut, mem, none)
    else (k, mem, some box)

/-- The rest of `OsQueueMailAlloc`; `msg` holds the field of that name of the tasks. -/
def osQueueMailAllocReturn (k : Sched) (msg : TaskID → ℕ) : Sched × (TaskID → ℕ) × ℕ :=
  let (k, timedOut) := k.takeTimeout k.runTask
  if timedOut then (k, msg, 0) else (k, Function.update msg k.runTask 0, msg k.runTask)

end Sched

/-! ## Calls that can block -/

/-- The kernel with everything that a task can wait for. -/
structure KernelState where
  k : Sched
  sems : Sems
  muxes : Muxes
  queues : Queues
  events : Events
  mem : Words
  sig : TaskID → Option OsSigCB
  msg : TaskID → ℕ

inductive BlockingCall
  | semPend (semHandle timeout : ℕ) (intActive : Bool)
  | muxPend (muxHandle timeout : ℕ) (intActive : Bool)
  | queueOperate (r : QueueRequest) (timeOut : ℕ)
  | queueMailAlloc (queueID mailPool timeOut : ℕ) (intActive : Bool)
  | eventRead (event : ℕ) (eventMask mode : BitVec 32) (timeOut : ℕ) (intActive : Bool)
  | signalWait (set : Option (BitVec 32)) (memAlloc : Bool) (timeout : ℕ) (intActive : Bool)
  | taskJoin (t : TaskID) (intActive : Bool)
  | taskDelay (tick : ℕ) (intActive : Bool)
  | muxPendForPosix (type : MutexType) (muxHandle timeout : ℕ)

inductive Answer
  | ret (errno : Errno)
  | mem (addr : ℕ)
  | events (bits : BitVec 32)
  | signal (sigNo : ℕ)
deriving DecidableEq, Repr

namespace KernelState

/-- The answer of a call that returns a number or an error. -/
def answer {α : Type*} (f : α → Answer) : Except Errno α → Answer
  | .error e => .ret e
  | .ok a => f a

/-- A whole call with the scheduler locked: `LOS_Schedule` returns at once and the rest of the call
follows. -/
def call (c : Config) (s : KernelState) : BlockingCall → KernelState × Answer
  | .semPend semHandle timeout intActive =>
    match s.k.losSemPend c s.sems semHandle timeout intActive with
    | (k, m, some e) => ({ s with k := k, sems := m }, .ret e)
    | (k, m, none) => ({ s with k := k.losSemPendReturn.1, sems := m }, .ret k.losSemPendReturn.2)
  | .muxPend muxHandle timeout intActive =>
    match s.k.losMuxPend c s.muxes muxHandle timeout intActive with
    | (k, m, some e) => ({ s with k := k, muxes := m }, .ret e)
    | (k, m, none) => ({ s with k := k.losMuxPendReturn.1, muxes := m }, .ret k.losMuxPendReturn.2)
  | .queueOperate r timeOut =>
    match s.k.osQueueOperate c s.queues r timeOut with
    | (k, m, some (e, _)) => ({ s with k := k, queues := m }, .ret e)
    | (k, m, none) =>
      let (k, m, e, _) := k.osQueueOperateReturn c m r
      ({ s with k := k, queues := m }, .ret e)
  | .queueMailAlloc queueID mailPool timeOut intActive =>
    match s.k.osQueueMailAlloc c s.queues s.mem queueID mailPool timeOut intActive with
    | (k, mem, some addr) => ({ s with k := k, mem := mem }, .mem addr)
    | (k, mem, none) =>
      let (k, msg, addr) := k.osQueueMailAllocReturn s.msg
      ({ s with k := k, mem := mem, msg := msg }, .mem addr)
  | .eventRead event eventMask mode timeOut intActive =>
    match s.k.losEventRead s.events event eventMask mode timeOut intActive with
    | (k, events, some ret) => ({ s with k := k, events := events }, answer .events ret)
    | (k, events, none) =>
      let (k, events, ret) := k.losEventReadReturn events event eventMask mode
      ({ s with k := k, events := events }, answer .events ret)
  | .signalWait set memAlloc timeout intActive =>
    match s.k.losSignalWait s.sig set memAlloc timeout intActive with
    | (k, sig, some ret) => ({ s with k := k, sig := sig }, answer .signal ret)
    | (k, sig, none) =>
      let (k, sig, ret) := k.losSignalWaitReturn sig
      ({ s with k := k, sig := sig }, answer .signal ret)
  | .taskJoin t intActive =>
    match s.k.losTaskJoin c t intActive with
    | (k, some e) => ({ s with k := k }, .ret e)
    | (k, none) => ({ s with k := k.losTaskJoinReturn t }, .ret .ok)
  | .taskDelay tick intActive =>
    ({ s with k := (s.k.losTaskDelay intActive tick).1 }, .ret (s.k.losTaskDelay intActive tick).2)
  | .muxPendForPosix type muxHandle timeout =>
    match s.k.muxPendForPosix c s.muxes type muxHandle timeout with
    | (k, m, some e) => ({ s with k := k, muxes := m }, .ret e)
    | (k, m, none) =>
      ({ s with k := k.muxPendForPosixReturn.1, muxes := m }, .ret k.muxPendForPosixReturn.2)

structure Awake (t : TaskID) (k : Sched) : Prop where
  pend : (k.status t).pend = false
  pendTime : (k.status t).pendTime = false
  delay : (k.status t).delay = false
  lists : ∀ i : ListHead, i.isWait → t ∉ k.lists i

theorem Awake.of_executing {c : Config} {pm : Prop} {k : Sched} (h : RunInv c pm k)
    (he : Executing c k) : Awake k.runTask k where
  pend := he.pend
  pendTime := by
    obtain ⟨_, _, hok⟩ := h.sched.1.task _ he.lt
    exact hok.status.pendTime_eq_false he.pend
  delay := he.delay
  lists i hi := h.sched.1.runTask_notMem he hi

/-- What a successful answer promises: a count of the semaphore, the mutex, an element of the queue
or room for one, a block of the pool, the events, a pending signal, a task that has finished, and
that the delay is over. -/
def Earned (s s' : KernelState) : BlockingCall → Answer → Prop
  | .semPend sem _ _, .ret .ok => 0 < (s.sems.allSem sem).semCount
  | .muxPend mux _ _, .ret .ok => (s'.muxes.allMux mux).owner = some s.k.runTask
  | .muxPendForPosix _ mux _, .ret .ok => (s'.muxes.allMux mux).owner = some s.k.runTask
  | .queueOperate r _, .ret .ok =>
    (s.queues.allQueue r.queueID).readWriteableCnt r.operateType.readWrite ≠ 0
  | .queueMailAlloc _ pool _ _, .mem addr => addr ≠ 0 →
      s.mem (Memory.stFreeListAt pool) ≠ 0 ∧
        addr = s.mem (Memory.stFreeListAt pool) + Memory.osMemboxNodeHeadSize
  | .eventRead event mask mode _ _, .events bits => bits ≠ 0 →
      EventCondition mask mode (s.events event).uwEventID ∧
        bits = mask &&& (s.events event).uwEventID
  | .signalWait set _ _ _, .signal sigNo => ∃ sigCB ∈ s.sig s.k.runTask, ∃ w ∈ set,
      (sigCB.sigPendFlag &&& w).getLsbD (sigNo - 1)
  | .taskJoin t _, .ret .ok => (s.k.status t).exit
  | .taskDelay tick _, .ret .ok => tick = 0
  | _, .ret _ => True
  | _, _ => False

/-- The call leaves the running task awake and reports no success that it has not had. -/
structure Harmless (c : Config) (s : KernelState) (b : BlockingCall) : Prop where
  awake : Awake s.k.runTask (s.call c b).1.k
  earned : Earned s (s.call c b).1 b (s.call c b).2

/-- The calls that do not look at the lock are refused for another reason or find what they ask
for. -/
def Served (c : Config) (s : KernelState) : BlockingCall → Prop
  | .queueMailAlloc queueID mailPool timeOut intActive =>
    queueID ≥ c.queueLimit ∨ mailPool = 0 ∨ timeOut = 0 ∨ intActive ∨
      (s.queues.allQueue queueID).queueState = false ∨ s.mem (Memory.stFreeListAt mailPool) ≠ 0
  | .signalWait set memAlloc timeout intActive =>
    timeout = 0 ∨ intActive ∨ (s.sig s.k.runTask = none ∧ memAlloc = false) ∨
      ∀ w ∈ set, w = 0 ∨ ∃ sigCB ∈ s.sig s.k.runTask, sigCB.sigPendFlag &&& w ≠ 0
  | .muxPendForPosix type muxHandle timeout =>
    timeout = 0 ∨ (s.muxes.allMux muxHandle).muxStat = false ∨
      (s.muxes.allMux muxHandle).muxCount = 0 ∨
      ((s.muxes.allMux muxHandle).owner = some s.k.runTask ∧ type = .recursive)
  | _ => True

variable {c : Config} {s s' : KernelState} {b : BlockingCall} {k k' : Sched} {t : TaskID}
  {e : Errno}

/-! ## Calls that look at the lock -/

theorem losSemPend_locked (m : Sems) (sem n : ℕ) (i : Bool) (hl : k.losTaskLock ≠ 0) :
    ∃ e, e ≠ .ok ∧ k.losSemPend c m sem n i = (k, m, some e) := by
  have hchk : k.osSemValidCheck (m.allSem sem) i ≠ .ok := by
    simp only [osSemValidCheck]
    split_ifs <;> simp
  simp only [losSemPend]
  split_ifs
  · exact ⟨_, by simp, rfl⟩
  · exact ⟨_, hchk, rfl⟩

theorem losMuxPend_locked (m : Muxes) (mux n : ℕ) (i : Bool) (hl : k.losTaskLock ≠ 0) :
    ∃ e, e ≠ .ok ∧ k.losMuxPend c m mux n i = (k, m, some e) := by
  have hchk : k.osMuxValidCheck (m.allMux mux) i ≠ .ok := by
    simp only [osMuxValidCheck]
    split_ifs <;> simp
  simp only [losMuxPend]
  split_ifs
  · exact ⟨_, by simp, rfl⟩
  · exact ⟨_, hchk, rfl⟩

theorem losTaskJoin_locked (t : TaskID) (i : Bool) (hl : k.losTaskLock ≠ 0) :
    ∃ e, e ≠ .ok ∧ k.losTaskJoin c t i = (k, some e) := by
  simp only [losTaskJoin]
  split_ifs with hret
  · exact ⟨_, hret, rfl⟩
  all_goals exact ⟨_, by simp, rfl⟩

theorem losTaskDelay_locked (n : ℕ) (i : Bool) (hl : k.losTaskLock ≠ 0) :
    ∃ e, e ≠ .ok ∧ k.losTaskDelay i n = (k, e) := by
  simp only [losTaskDelay]
  split_ifs
  all_goals exact ⟨_, by simp, rfl⟩

theorem losEventRead_locked (ev : Events) (e n : ℕ) (mask mode : BitVec 32) (i : Bool)
    (hl : k.losTaskLock ≠ 0) : ∃ ev' ret, k.losEventRead ev e mask mode n i = (k, ev', some ret) ∧
      (ret = .ok (losEventPoll (ev e).uwEventID mask mode).2 ∧ mask ≠ 0#32 ∨
        ∃ err, err ≠ .ok ∧ ret = .error err) := by
  simp only [losEventRead]
  split_ifs with hret hint hsys hzero
  · exact ⟨_, _, rfl, .inr ⟨_, hret, rfl⟩⟩
  · exact ⟨_, _, rfl, .inr ⟨_, by simp, rfl⟩⟩
  · exact ⟨_, _, rfl, .inr ⟨_, by simp, rfl⟩⟩
  all_goals
    have hmask : mask ≠ 0#32 := by
      rintro rfl
      simp only [osEventReadParamCheck] at hret
      split_ifs at hret <;> simp at hret
  · exact ⟨_, _, rfl, .inl ⟨rfl, hmask⟩⟩
  · exact ⟨_, _, rfl, .inr ⟨_, by simp, rfl⟩⟩
  · exact ⟨_, _, rfl, .inl ⟨rfl, hmask⟩⟩

/-- `OsQueueOperate` looks at the lock only if the queue has nothing for it. -/
theorem osQueueOperate_locked (m : Queues) (r : QueueRequest) (n : ℕ) (hl : k.losTaskLock ≠ 0) :
    (∃ e, e ≠ .ok ∧ k.osQueueOperate c m r n = (k, m, some (e, []))) ∨
      (m.allQueue r.queueID).readWriteableCnt r.operateType.readWrite ≠ 0 ∧
        k.osQueueOperate c m r n =
          let x := k.osQueueTransfer c (m.modify r.queueID (·.countDown r.operateType.readWrite)) r
          (x.1, x.2.1, some (.ok, x.2.2)) := by
  simp only [osQueueOperate]
  split_ifs with hret hcnt hn
  · exact .inl ⟨_, hret, rfl⟩
  iterate 3 exact .inl ⟨_, by simp, rfl⟩
  · exact .inr ⟨hcnt, rfl⟩

theorem Awake.osQueueTransfer {m : Queues} {r : QueueRequest} (h : Awake t k) :
    Awake t (k.osQueueTransfer c m r).1 := by
  simp only [Sched.osQueueTransfer]
  cases hl : k.lists (.readWriteList r.queueID r.operateType.readWrite.other) with
  | nil => exact h
  | cons u =>
    have hne : t ≠ u := by
      rintro rfl
      exact h.lists _ rfl (by rw [hl]; exact List.mem_cons_self)
    have hw : Wakes u k (k.osSchedTaskWake c u) := wakes_osSchedTaskWake
    have hcb : (k.osSchedTaskWake c u).taskCB t = k.taskCB t := by
      simp only [Sched.osSchedTaskWake]
      split_ifs
      · rw [osSchedTaskEnQueue_taskCB_of_ne hne, stopPending_taskCB_of_ne hne]
      · rw [stopPending_taskCB_of_ne hne]
    refine ⟨?_, ?_, ?_, fun i hi hm => ?_⟩
    · simpa only [status, hcb] using h.pend
    · simpa only [status, hcb] using h.pendTime
    · simpa only [status, hcb] using h.delay
    · rw [hw.lists i hi] at hm
      exact h.lists i hi (List.mem_of_mem_erase hm)

theorem earned_ret (he : e ≠ .ok) : Earned s s' b (.ret e) := by
  cases b <;> cases e <;> first | exact absurd rfl he | trivial

theorem Harmless.of_refused (ha : Awake s.k.runTask s.k) (he : e ≠ .ok)
    (hk : (s.call c b).1.k = s.k) (hret : (s.call c b).2 = .ret e) : Harmless c s b := by
  constructor
  · rw [hk]
    exact ha
  · rw [hret]
    exact earned_ret he

theorem harmless_semPend (sem n : ℕ) (i : Bool) (hl : s.k.losTaskLock ≠ 0)
    (ha : Awake s.k.runTask s.k) : Harmless c s (.semPend sem n i) := by
  obtain ⟨e, he, hres⟩ := losSemPend_locked (c := c) s.sems sem n i hl
  exact .of_refused ha he (by simp only [call, hres]) (by simp only [call, hres])

theorem harmless_muxPend (mux n : ℕ) (i : Bool) (hl : s.k.losTaskLock ≠ 0)
    (ha : Awake s.k.runTask s.k) : Harmless c s (.muxPend mux n i) := by
  obtain ⟨e, he, hres⟩ := losMuxPend_locked (c := c) s.muxes mux n i hl
  exact .of_refused ha he (by simp only [call, hres]) (by simp only [call, hres])

theorem harmless_queueOperate (r : QueueRequest) (n : ℕ) (hl : s.k.losTaskLock ≠ 0)
    (ha : Awake s.k.runTask s.k) : Harmless c s (.queueOperate r n) := by
  rcases osQueueOperate_locked (c := c) s.queues r n hl with ⟨e, he, hres⟩ | ⟨hcnt, hres⟩
  · exact .of_refused ha he (by simp only [call, hres]) (by simp only [call, hres])
  · refine ⟨?_, ?_⟩ <;> simp only [call, hres]
    · exact ha.osQueueTransfer
    · exact hcnt

theorem harmless_eventRead (e n : ℕ) (mask mode : BitVec 32) (i : Bool)
    (hl : s.k.losTaskLock ≠ 0) (ha : Awake s.k.runTask s.k) :
    Harmless c s (.eventRead e mask mode n i) := by
  obtain ⟨ev, ret, hres, ⟨rfl, hmask⟩ | ⟨err, herr, rfl⟩⟩ :=
    losEventRead_locked s.events e n mask mode i hl
  · refine ⟨?_, ?_⟩ <;> simp only [call, hres]
    · exact ha
    · intro hne
      have hcond := not_not.mp (mt (losEventPoll_eq_zero hmask).mpr hne)
      exact ⟨hcond, by rw [losEventPoll_snd _ _ hmask, if_pos hcond]⟩
  · exact .of_refused ha herr (by simp only [call, hres]) (by simp only [call, hres, answer])

theorem harmless_taskJoin (t : TaskID) (i : Bool) (hl : s.k.losTaskLock ≠ 0)
    (ha : Awake s.k.runTask s.k) : Harmless c s (.taskJoin t i) := by
  obtain ⟨e, he, hres⟩ := losTaskJoin_locked (c := c) t i hl
  exact .of_refused ha he (by simp only [call, hres]) (by simp only [call, hres])

theorem harmless_taskDelay (n : ℕ) (i : Bool) (hl : s.k.losTaskLock ≠ 0)
    (ha : Awake s.k.runTask s.k) : Harmless c s (.taskDelay n i) := by
  obtain ⟨e, he, hres⟩ := losTaskDelay_locked n i hl
  exact .of_refused ha he (by simp only [call, hres]) (by simp only [call, hres])

/-! ## Calls that do not look at the lock -/

/-- A call that puts the running task on a wait list and goes on. -/
theorem not_harmless_of_waits {i : ListHead} {n : ℕ} (hk : k.runTask = s.k.runTask)
    (hpend : ((s.call c b).1.k.status s.k.runTask).pend =
      ((k.osSchedTaskWait i n).status s.k.runTask).pend) : ¬Harmless c s b := by
  intro h
  have hb : Blocks i k (k.osSchedTaskWait i n) := blocks_osSchedTaskWait
  have hp : ((k.osSchedTaskWait i n).status k.runTask).pend := congrArg TaskView.pend hb.self
  rw [hk, ← hpend, h.awake.pend] at hp
  cases hp

theorem takeTimeout_pend : ((k.takeTimeout t).1.status t).pend = (k.status t).pend := by
  simp [takeTimeout_taskCB]

theorem muxPendForPosix_cases (c : Config) (s : KernelState) (type : MutexType) (mux n : ℕ) :
    (Served c s (.muxPendForPosix type mux n) ∧ ∃ m e,
        s.k.muxPendForPosix c s.muxes type mux n = (s.k, m, some e) ∧
        (e = .ok → (m.allMux mux).owner = some s.k.runTask)) ∨
      (¬Served c s (.muxPendForPosix type mux n) ∧ ∃ k₁ : Sched, k₁.runTask = s.k.runTask ∧
        s.k.muxPendForPosix c s.muxes type mux n =
          (k₁.osSchedTaskWait (.muxList mux) n, s.muxes, none)) := by
  simp only [muxPendForPosix, Served]
  split_ifs with hstat hc ho hn
  · exact .inl ⟨by simp_all, _, _, rfl, by simp⟩
  · exact .inl ⟨by simp_all, _, _, rfl, by simp⟩
  · exact .inl ⟨by simp_all, _, _, rfl, by simp [ho]⟩
  · exact .inl ⟨by simp_all, _, _, rfl, by simp⟩
  · refine .inr ⟨by simp_all, _, ?_, rfl⟩
    simp only [boostOwner]
    split
    · rfl
    · split_ifs
      · exact osSchedModifyTaskSchedParam_same.runTask
      · rfl

theorem harmless_muxPendForPosix (type : MutexType) (mux n : ℕ) (ha : Awake s.k.runTask s.k) :
    Harmless c s (.muxPendForPosix type mux n) ↔ Served c s (.muxPendForPosix type mux n) := by
  rcases muxPendForPosix_cases c s type mux n with ⟨hs, m, e, hres, ho⟩ | ⟨hs, k₁, hk₁, hres⟩
  · refine iff_of_true ⟨?_, ?_⟩ hs <;> simp only [call, hres]
    · exact ha
    · by_cases he : e = .ok
      · subst he
        exact ho rfl
      · exact earned_ret he
  · refine iff_of_false (not_harmless_of_waits (i := .muxList mux) (n := n) hk₁ ?_) hs
    simp only [call, hres, muxPendForPosixReturn]
    rw [osSchedTaskWait_same.runTask, hk₁]
    exact takeTimeout_pend

theorem osQueueMailAlloc_cases (c : Config) (s : KernelState) (q pool n : ℕ) (i : Bool) :
    (Served c s (.queueMailAlloc q pool n i) ∧ ∃ mem addr,
        s.k.osQueueMailAlloc c s.queues s.mem q pool n i = (s.k, mem, some addr) ∧
        (addr ≠ 0 → s.mem (stFreeListAt pool) ≠ 0 ∧
          addr = s.mem (stFreeListAt pool) + osMemboxNodeHeadSize)) ∨
      (¬Served c s (.queueMailAlloc q pool n i) ∧ ∃ mem,
        s.k.osQueueMailAlloc c s.queues s.mem q pool n i =
          (s.k.osSchedTaskWait (.memList q) n, mem, none)) := by
  simp only [osQueueMailAlloc, Served, losMemboxAlloc]
  split_ifs with hq hpool hi hst hfree h0 hn h0 hn
  iterate 4 exact .inl ⟨by simp_all, _, _, rfl, by simp⟩
  · exact absurd h0 (by simp [osMemboxNodeHeadSize])
  · exact absurd h0 (by simp [osMemboxNodeHeadSize])
  · exact .inl ⟨by simp [hfree], _, _, rfl, fun _ => ⟨hfree, rfl⟩⟩
  · exact .inl ⟨by simp [hn], _, _, rfl, by simp⟩
  · exact .inr ⟨by simp_all, _, rfl⟩
  · exact absurd rfl h0

theorem harmless_queueMailAlloc (q pool n : ℕ) (i : Bool) (ha : Awake s.k.runTask s.k) :
    Harmless c s (.queueMailAlloc q pool n i) ↔ Served c s (.queueMailAlloc q pool n i) := by
  rcases osQueueMailAlloc_cases c s q pool n i with ⟨hs, mem, addr, hres, hm⟩ | ⟨hs, mem, hres⟩
  · refine iff_of_true ⟨?_, ?_⟩ hs <;> simp only [call, hres]
    · exact ha
    · exact hm
  · refine iff_of_false (not_harmless_of_waits (i := .memList q) (n := n) rfl ?_) hs
    have hk : (osQueueMailAllocReturn (s.k.osSchedTaskWait (.memList q) n) s.msg).1 =
        ((s.k.osSchedTaskWait (.memList q) n).takeTimeout s.k.runTask).1 := by
      simp only [osQueueMailAllocReturn, osSchedTaskWait_same.runTask]
      split_ifs <;> rfl
    simp only [call, hres, hk]
    exact takeTimeout_pend

theorem getLsbD_sigNo {sigFlag : BitVec 32} (h : sigFlag ≠ 0) :
    sigFlag.getLsbD (losSignalSupportMax - sigFlag.clz.toNat + 1 - 1) := by
  exact BitVec.getLsbD_true_clz_of_ne_zero (by decide) h

theorem losSignalWait_cases (c : Config) (s : KernelState) (w : Option (BitVec 32)) (a : Bool)
    (n : ℕ) (i : Bool) : (Served c s (.signalWait w a n i) ∧ ∃ sig ret,
        s.k.losSignalWait s.sig w a n i = (s.k, sig, some ret) ∧
        Earned s { s with sig := sig } (.signalWait w a n i) (answer .signal ret)) ∨
      (¬Served c s (.signalWait w a n i) ∧ ∃ sig,
        s.k.losSignalWait s.sig w a n i = (s.k.osSchedTaskWait .waitSignalList n, sig, none)) := by
  rcases w with _ | w
  · exact .inl ⟨by simp [Served], _, _, rfl, trivial⟩
  by_cases hw : w = 0
  · subst hw
    exact .inl ⟨by simp [Served], _, _, rfl, trivial⟩
  simp only [losSignalWait, hw, if_false]
  cases hcb : signalCBInit (s.sig s.k.runTask) a with
  | none =>
    have hs : s.sig s.k.runTask = none ∧ a = false := by
      cases h : s.sig s.k.runTask <;> simp_all [signalCBInit]
    exact .inl ⟨.inr (.inr (.inl hs)), _, _, rfl, trivial⟩
  | some sigCB =>
    have hcb' : s.sig s.k.runTask = some sigCB ∨ (s.sig s.k.runTask = none ∧ a ∧
        sigCB = {}) := by
      cases h : s.sig s.k.runTask <;> simp_all [signalCBInit]
    have hsome : sigCB.sigPendFlag &&& w ≠ 0 → s.sig s.k.runTask = some sigCB := by
      rcases hcb' with h | ⟨-, -, rfl⟩
      · exact fun _ => h
      · simp
    simp only
    split_ifs with hflag hn hi
    · exact .inl ⟨.inr (.inr (.inr fun v hv => .inr ⟨sigCB, hsome hflag, by simp_all⟩)), _, _, rfl,
        sigCB, hsome hflag, w, rfl, getLsbD_sigNo hflag⟩
    · exact .inl ⟨.inl hn, _, _, rfl, trivial⟩
    · exact .inl ⟨.inr (.inl hi), _, _, rfl, trivial⟩
    · refine .inr ⟨?_, _, rfl⟩
      rintro (h | h | ⟨hnone, ha⟩ | h)
      · exact hn h
      · exact hi h
      · rcases hcb' with h | ⟨-, h, -⟩ <;> simp_all
      · obtain h | ⟨cb, hm, hne⟩ := h w rfl
        · exact hw h
        · rcases hcb' with h | ⟨h, -, -⟩ <;> simp_all

theorem harmless_signalWait (w : Option (BitVec 32)) (a : Bool) (n : ℕ) (i : Bool)
    (ha : Awake s.k.runTask s.k) :
    Harmless c s (.signalWait w a n i) ↔ Served c s (.signalWait w a n i) := by
  rcases losSignalWait_cases c s w a n i with ⟨hs, sig, ret, hres, he⟩ | ⟨hs, sig, hres⟩
  · refine iff_of_true ⟨?_, ?_⟩ hs <;> simp only [call, hres]
    · exact ha
    · exact he
  · refine iff_of_false (not_harmless_of_waits (i := .waitSignalList) (n := n) rfl ?_) hs
    have hk : (losSignalWaitReturn (s.k.osSchedTaskWait .waitSignalList n) sig).1 =
        (((s.k.osSchedTaskWait .waitSignalList n).setStatus s.k.runTask fun s =>
          { s with signal := false }).takeTimeout s.k.runTask).1 := by
      simp only [losSignalWaitReturn, setStatus_runTask, osSchedTaskWait_same.runTask]
      split_ifs <;> rfl
    simp only [call, hres, hk]
    rw [takeTimeout_pend]
    simp

/-- With the scheduler locked, a call leaves the running task as it is and reports no success that
it has not had if and only if it looks at the lock or does not come to wait. -/
theorem harmless_iff (hl : s.k.losTaskLock ≠ 0) (ha : Awake s.k.runTask s.k) :
    Harmless c s b ↔ Served c s b := by
  cases b with
  | semPend sem n i => exact iff_of_true (harmless_semPend sem n i hl ha) trivial
  | muxPend mux n i => exact iff_of_true (harmless_muxPend mux n i hl ha) trivial
  | queueOperate r n => exact iff_of_true (harmless_queueOperate r n hl ha) trivial
  | queueMailAlloc q pool n i => exact harmless_queueMailAlloc q pool n i ha
  | eventRead e mask mode n i =>
    exact iff_of_true (harmless_eventRead e n mask mode i hl ha) trivial
  | signalWait w a n i => exact harmless_signalWait w a n i ha
  | taskJoin t i => exact iff_of_true (harmless_taskJoin t i hl ha) trivial
  | taskDelay n i => exact iff_of_true (harmless_taskDelay n i hl ha) trivial
  | muxPendForPosix type mux n => exact harmless_muxPendForPosix type mux n ha

/-- Task 1 owns mutex 0, and the more urgent task 2 runs. -/
def owned : List MuxOp :=
  [.task (.taskCreate (userTask 9 false) 2000), .task (.schedStart 0), .muxCreate,
    .muxPend 0 7 false, .task (.taskCreate (userTask 5 false) 3000), .task (.taskSwitch 10)]

/-- Task 2 has called `LOS_TaskLock`; queue 0 exists, and the mail pool at address 64 is empty. -/
def locked : KernelState :=
  let s := (MuxSys.machine smallConfig).run MuxSys.smallSys owned
  { k := { s.k with losTaskLock := 1 }
    sems := Sems.osSemInit smallConfig
    muxes := s.muxes
    queues := (Queues.osQueueInit smallConfig).modify 0 fun cb => { cb with queueState := true }
    events := fun _ => {}
    mem := fun _ => 0
    sig := fun _ => none
    msg := fun _ => 0 }

theorem awake_locked : Awake 2 locked.k := by
  have hr := MuxSys.reaches_smallSys.run owned (by decide +kernel)
  have ha := Awake.of_executing (MuxSys.Inv.of_reaches hr).run (by decide +kernel)
  exact ⟨ha.pend, ha.pendTime, ha.delay, ha.lists⟩

/-- Two calls that the lock leaves harmless: one does not ask to wait, the other looks at the
lock. -/
theorem harmless_iff_refused : Harmless smallConfig locked (.muxPendForPosix .normal 0 0) ∧
    Harmless smallConfig locked (.semPend 0 losWaitForever false) :=
  ⟨(harmless_iff (by decide) awake_locked).mpr (.inl rfl),
    (harmless_iff (by decide) awake_locked).mpr trivial⟩

/-- Three calls put the running task on a wait list although the scheduler is locked, and it goes on
running. `MuxPendForPosix` returns `LOS_OK` for a mutex that belongs to task 1. -/
theorem waits_under_lock : locked.k.losTaskLock ≠ 0 ∧ Awake locked.k.runTask locked.k ∧
    (∀ b ∈ [.muxPendForPosix .normal 0 losWaitForever, .queueMailAlloc 0 64 losWaitForever false,
        .signalWait (some 1) true losWaitForever false],
      ((locked.call smallConfig b).1.k.status 2).pend = true) ∧
    (locked.call smallConfig (.muxPendForPosix .normal 0 losWaitForever)).2 = .ret .ok ∧
    ((locked.call smallConfig (.muxPendForPosix .normal 0 losWaitForever)).1.muxes.allMux 0).owner =
      some 1 ∧
    2 ∈ (locked.call smallConfig (.muxPendForPosix .normal 0 losWaitForever)).1.k.lists
      (.muxList 0) :=
  ⟨by decide, awake_locked, by decide +kernel⟩

end KernelState

end LiteOS.Kernel
