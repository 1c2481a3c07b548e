import LiteOS.Ipc.SemContract
import LiteOS.Ipc.MuxSteps
import LiteOS.Ipc.QueueContract
import LiteOS.Kernel.Grants

/-!
# Waits that end by time

Tasks wait for semaphores, mutexes and queues of one kernel, in power management mode too: there
`LOS_TaskSuspend` freezes the timeout of a waiting task and `LOS_TaskResume` thaws it. A wait ends
when the object is handed to the task, when its timeout expires, or when the task is thawed. The
blocking calls tell the first two apart by `OS_TASK_STATUS_TIMEOUT`; the third one does not set it.
-/

namespace LiteOS.Kernel

open Lib Sched Function Queues TaskView Sched Request TaskOp Muxes MuxSys

inductive IpcRequest
  | sem (r : SemRequest)
  | mux (r : MuxRequest)
  | queue (r : QueueRequest)
deriving DecidableEq

def IpcRequest.list : IpcRequest → ListHead
  | .sem r => Request.head r
  | .mux r => Request.head r
  | .queue r => Request.head r

instance : Request IpcRequest where
  head := IpcRequest.list
  isWait r := by cases r <;> rfl

/-- The kernel and its objects. Not in the source: the calls in progress, and which of them have
been granted what they wait for. -/
structure IpcSys where
  k : Sched
  sems : Sems
  muxes : Muxes
  queues : Queues
  calls : Calls IpcRequest := {}
  granted : Grants := fun _ => false

inductive IpcOp
  | task (op : TaskOp)
  | semCreate (count : ℕ)
  | binarySemCreate (count : ℕ)
  | semPend (semHandle timeout : ℕ) (intActive : Bool)
  | semPost (semHandle : ℕ)
  | muxCreate
  | muxPend (muxHandle timeout : ℕ) (intActive : Bool)
  | muxPost (muxHandle : ℕ) (intActive : Bool)
  | queueCreate (len maxMsgSize : ℕ) (mem : Option Bytes)
  | queueDelete (queueID : ℕ)
  | queueOperate (r : QueueRequest) (timeOut : ℕ)
  | callReturn

def Sched.Grants.first (g : Grants) : List TaskID → Grants
  | [] => g
  | t :: _ => update g t true

/-- The list that `OsQueueOperate` wakes a task of. -/
def QueueRequest.peers (r : QueueRequest) : ListHead :=
  .readWriteList r.queueID r.operateType.readWrite.other

/-- The list that a call wakes a task of when it returns. -/
def IpcRequest.peers : IpcRequest → Option ListHead
  | .queue r => some r.peers
  | _ => none

namespace IpcSys

section

variable (c : Config) (s : IpcSys)

def waits (r : IpcRequest) (k : Sched) : IpcSys :=
  { s with
    k := k
    calls := s.calls.enter s.k.runTask r
    granted := update s.granted s.k.runTask false }

/-- `LOS_TaskDelete` ends the call that its task is inside. -/
def callsAfter : TaskOp → Calls IpcRequest
  | .taskDelete t => if (s.k.losTaskDelete c t).2 = .ok then s.calls.leave t else s.calls
  | _ => s.calls

/-- The first half of `LOS_SemPend` by the running task. -/
def semPended (sem : ℕ) : Sched × Sems × Option Errno → IpcSys
  | (k, m, none) => { s.waits (.sem ⟨sem⟩) k with sems := m }
  | (k, m, some _) => { s with k := k, sems := m }

/-- `LOS_SemPost` -/
def semPosted (sem : ℕ) : Sched × Sems × Errno → IpcSys
  | (k, m, .ok) =>
    { s with k := k, sems := m, granted := s.granted.first (s.k.lists (.semList sem)) }
  | (k, m, _) => { s with k := k, sems := m }

/-- The first half of `LOS_MuxPend` by the running task. -/
def muxPended (mux : ℕ) : Sched × Muxes × Option Errno → IpcSys
  | (k, m, none) => { s.waits (.mux ⟨mux⟩) k with muxes := m }
  | (k, m, some _) => { s with k := k, muxes := m }

/-- `LOS_MuxPost` by the running task: the mutex is granted to the task that becomes its owner. -/
def muxPosted (mux : ℕ) : Sched × Muxes × Errno → IpcSys
  | (k, m, _) => match (m.allMux mux).owner with
    | none => { s with k := k, muxes := m }
    | some t =>
      if (s.muxes.allMux mux).owner = some t then { s with k := k, muxes := m }
      else { s with k := k, muxes := m, granted := update s.granted t true }

/-- The first half of `OsQueueOperate`. -/
def queueOperated (r : QueueRequest) :
    Sched × Queues × Option (Errno × List UInt8) → IpcSys
  | (k, m, none) => { s.waits (.queue r) k with queues := m }
  | (k, m, some (.ok, _)) =>
    { s with k := k, queues := m, granted := s.granted.first (s.k.lists r.peers) }
  | (k, m, some _) => { s with k := k, queues := m }

/-- The second half of `OsQueueOperate` by the running task. -/
def queueReturned (r : QueueRequest) : Sched × Queues × Errno × List UInt8 → IpcSys
  | (k, m, .ok, _) =>
    { s with
      k := k
      queues := m
      calls := s.calls.leave s.k.runTask
      granted := s.granted.first (s.k.lists r.peers) }
  | (k, m, _, _) => { s with k := k, queues := m, calls := s.calls.leave s.k.runTask }

def exec : IpcOp → IpcSys
  | .task op => { s with k := op.exec c s.k, calls := s.callsAfter c op }
  | .semCreate count => { s with sems := (s.sems.losSemCreate count).1 }
  | .binarySemCreate count => { s with sems := (s.sems.losBinarySemCreate count).1 }
  | .semPend sem timeout intActive =>
    s.semPended sem (s.k.losSemPend c s.sems sem timeout intActive)
  | .semPost sem => s.semPosted sem (s.k.losSemPost c s.sems sem)
  | .muxCreate => { s with muxes := s.muxes.losMuxCreate.1 }
  | .muxPend mux timeout intActive =>
    s.muxPended mux (s.k.losMuxPend c s.muxes mux timeout intActive)
  | .muxPost mux intActive => s.muxPosted mux (s.k.losMuxPost c s.muxes mux intActive)
  | .queueCreate len maxMsgSize mem =>
    let (k, m, _) := s.k.osQueueCreate s.queues len maxMsgSize mem
    { s with k := k, queues := m }
  | .queueDelete q => { s with queues := (s.k.losQueueDelete c s.queues q).1 }
  | .queueOperate r timeOut => s.queueOperated r (s.k.osQueueOperate c s.queues r timeOut)
  | .callReturn =>
    match s.calls.pc s.k.runTask with
    | none => s
    | some (.sem _) =>
      { s with k := s.k.losSemPendReturn.1, calls := s.calls.leave s.k.runTask }
    | some (.mux _) =>
      { s with k := s.k.losMuxPendReturn.1, calls := s.calls.leave s.k.runTask }
    | some (.queue r) => s.queueReturned r (s.k.osQueueOperateReturn c s.queues r)

/-- When an operation can come. Tasks make their calls while they execute their own code and are not
inside another call; an interrupt handler calls `OsQueueOperate` without a timeout. -/
def Enabled : IpcOp → Prop
  | .task op => op.Enabled c s.k
  | .semPend _ _ intActive => intActive = false →
      Executing c s.k ∧ s.calls.pc s.k.runTask = none
  | .muxPend _ _ intActive => intActive = false →
      Executing c s.k ∧ s.calls.pc s.k.runTask = none
  | .muxPost _ intActive => intActive = false →
      Executing c s.k ∧ s.calls.pc s.k.runTask = none
  | .queueOperate _ timeOut => timeOut ≠ 0 →
      Executing c s.k ∧ s.calls.pc s.k.runTask = none
  | .callReturn => Executing c s.k ∧ s.calls.pc s.k.runTask ≠ none
  | _ => True

/-- Runs after `LOS_KernelInit`. -/
def machine : Machine IpcSys IpcOp where
  init s := ∃ k swtmrStack idleStack, losKernelInit c swtmrStack idleStack = (k, .ok) ∧
    s =
      { k := k
        sems := Sems.osSemInit c
        muxes := Muxes.osMuxInit c
        queues := Queues.osQueueInit c }
  allowed := Enabled c
  step := exec c

instance (c : Config) (s : IpcSys) (op : IpcOp) : Decidable ((machine c).allowed s op) := by
  cases op <;> unfold machine Enabled <;> infer_instance

def FirstThawed (k : Sched) (i : ListHead) : Prop :=
  ∀ t ∈ (k.lists i).head?, (k.status t).freeze = false
deriving Decidable

/-- No task is thawed after its time, and no frozen task is woken or deleted. -/
def InTime : IpcOp → Prop
  | .task op => op.Proper c True s.k ∧ ¬op.ThawsLate s.k
  | .semPost sem => FirstThawed s.k (.semList sem)
  | .muxPost mux _ => FirstThawed s.k (.muxList mux)
  | .queueOperate r _ => FirstThawed s.k r.peers
  | .callReturn => ∀ r ∈ s.calls.pc s.k.runTask, ∀ i ∈ r.peers, FirstThawed s.k i
  | _ => True

end

instance (c : Config) (s : IpcSys) (op : IpcOp) : Decidable (InTime c s op) := by
  cases op <;> unfold InTime <;> infer_instance

/-- What the blocking calls rely on: a task that is off its wait list was granted what it waits for
or has `OS_TASK_STATUS_TIMEOUT` set, so that calls return `LOS_OK` only when they were granted. -/
structure Honest (c : Config) (s : IpcSys) : Prop where
  left : ∀ t r, s.calls.pc t = some r → t ∉ s.k.lists (Request.head r) →
    (s.k.status t).timeout ∨ s.granted t
  waiting : ∀ t r, s.calls.pc t = some r → t ∈ s.k.lists (Request.head r) → s.granted t = false
  semPendReturn : ∀ r, Executing c s.k → s.calls.pc s.k.runTask = some (.sem r) →
    s.k.losSemPendReturn.2 = .ok → s.granted s.k.runTask
  muxPendReturn : ∀ r, Executing c s.k → s.calls.pc s.k.runTask = some (.mux r) →
    s.k.losMuxPendReturn.2 = .ok → s.granted s.k.runTask
  queueReturn : ∀ r, Executing c s.k → s.calls.pc s.k.runTask = some (.queue r) →
    (s.k.osQueueOperateReturn c s.queues r).2.2.1 = .ok → s.granted s.k.runTask
  semPend : ∀ sem timeout intActive,
    (s.k.losSemPend c s.sems sem timeout intActive).2.2 = some .ok →
    0 < (s.sems.allSem sem).semCount
  muxPend : ∀ mux timeout intActive,
    (s.k.losMuxPend c s.muxes mux timeout intActive).2.2 = some .ok →
    ((s.k.losMuxPend c s.muxes mux timeout intActive).2.1.allMux mux).owner = some s.k.runTask
  queueOperate : ∀ r timeOut out,
    (s.k.osQueueOperate c s.queues r timeOut).2.2 = some (.ok, out) →
    0 < (s.queues.allQueue r.queueID).readWriteableCnt r.operateType.readWrite

structure Inv (c : Config) (s : IpcSys) : Prop where
  grant : GrantInv c True s.k s.calls s.granted
  owner : ∀ mux o, (s.muxes.allMux mux).owner = some o → o < c.taskMaxNum ∧ o ≠ s.k.idleTaskID
  priority : ∀ mux, (s.muxes.allMux mux).priority ≤ taskPriorityLowest
  unused : s.queues.freeQueueList.Nodup
  free : ∀ q ∈ s.queues.freeQueueList, (s.queues.allQueue q).queueState = false
  asked : ∀ t r, s.calls.pc t = some (.queue r) → (s.k.status t).pend →
    (s.queues.allQueue r.queueID).queueState

variable {c : Config} {s s' : IpcSys} {k' : Sched} {w : Calls IpcRequest} {g : Grants}
  {t u : TaskID} {op : IpcOp}

variable {k : Sched} {swtmrStack idleStack sem timeout mux priority q len maxMsgSize timeOut : ℕ}

theorem Inv.init (h : losKernelInit c swtmrStack idleStack = (k, .ok)) : Inv c
      { k := k
        sems := Sems.osSemInit c
        muxes := osMuxInit c
        queues := osQueueInit c } where
  grant := .init h
  owner mux o ho := by simp [osMuxInit] at ho
  priority mux := by simp [osMuxInit]
  unused := List.nodup_range
  free _ _ := rfl
  asked _ _ hr := nomatch hr

theorem Inv.sched (h : Inv c s) (hg : GrantInv c True k' w g) (hi : k'.idleTaskID = s.k.idleTaskID)
    (ha : ∀ t r, w.pc t = some (.queue r) → (k'.status t).pend →
      (s.queues.allQueue r.queueID).queueState) :
    Inv c { s with k := k', calls := w, granted := g } :=
  { h with
    grant := hg
    owner := fun mux o ho => hi.symm ▸ h.owner mux o ho
    asked := ha }

theorem Inv.env (h : Inv c s) (hrun : RunInv c True k') (he : Env s.k k')
    (hi : k'.idleTaskID = s.k.idleTaskID) : Inv c { s with k := k' } := by
  refine h.sched (h.grant.env hrun he) hi fun t r hr hp => h.asked t r hr ?_
  rcases he.wait t (h.grant.wait.live t _ hr).2.1 with ⟨hpe, -⟩ | ⟨hpe, -⟩
  · exact hpe.symm.trans hp
  · exact hpe

theorem Inv.wakes (h : Inv c s) (hrun : RunInv c True k') (hw : Wakes t s.k k')
    (hi : k'.idleTaskID = s.k.idleTaskID) :
    Inv c { s with k := k', granted := update s.granted t true } := by
  refine h.sched (h.grant.grant hrun hw) hi fun u r hr hp => h.asked u r hr ?_
  have hu : u ≠ t := by
    rintro rfl
    exact absurd (hp.symm.trans (congrArg pend hw.self)) (by simp)
  exact (congrArg pend (hw.others u hu)).symm.trans hp

variable {r : IpcRequest}

theorem Inv.waits (h : Inv c s) (hx : Executing c s.k) (hn : s.calls.pc s.k.runTask = none)
    (hrun : RunInv c True k') (hb : Blocks (head r) s.k k') (hi : k'.idleTaskID = s.k.idleTaskID)
    (hq : ∀ r', r = .queue r' → (s.queues.allQueue r'.queueID).queueState) :
    Inv c (s.waits r k') := by
  refine h.sched (h.grant.enter hx hn hrun hb) hi fun t r' hr hp => ?_
  by_cases ht : t = s.k.runTask
  · subst ht
    exact hq r' (by simpa using hr)
  · exact h.asked t r' (by simpa [ht] using hr)
      ((congrArg pend (hb.others t ht)).symm.trans hp)

theorem Inv.leave (h : Inv c s) (hx : Executing c s.k) : Inv c { s with
        k := (s.k.takeTimeout s.k.runTask).1
        calls := s.calls.leave s.k.runTask } := by
  refine h.sched (h.grant.leave hx) takeTimeout_same.idleTaskID fun t r hr hp => ?_
  have ht : t ≠ s.k.runTask := by
    rintro rfl
    simp at hr
  rw [status, takeTimeout_taskCB_of_ne ht] at hp
  exact h.asked t r (by simpa [ht] using hr) hp

theorem isIpc_head (r : IpcRequest) : (head r).isIpc := by cases r <;> rfl

theorem Inv.taskDelete (h : Inv c s) (hp : TaskOp.Proper c True s.k (.taskDelete t)) :
    Inv c (exec c s (.task (.taskDelete t))) := by
  have he : TaskOp.Enabled c s.k (.taskDelete t) := trivial
  have hrun := h.grant.run.exec he hp
  have hidle := (h.grant.run.exec_globals he hp).1
  rcases hres : s.k.losTaskDelete c t with ⟨k', e⟩
  have hexec : TaskOp.exec c s.k (.taskDelete t) = k' := by simp [TaskOp.exec, hres]
  rw [hexec] at hrun hidle
  simp only [exec, callsAfter, hexec, hres]
  cases (h.grant.run.sched.losTaskDelete hp hres).2 with
  | refused e he hk =>
    subst hk
    rw [if_neg he]
    exact h
  | deleted _ _ _ _ _ hj hd =>
    have hd' := hd.after_quiet
      (h.grant.wait.quiet_of_joinPosts h.grant.run.sched.1 isIpc_head hj)
    rw [if_pos rfl]
    refine h.sched (h.grant.delete hrun hd') hidle fun v r hr hpv => ?_
    have hv : v ≠ t := by
      rintro rfl
      simp at hr
    have hr : s.calls.pc v = some (.queue r) := by simpa [hv] using hr
    have hview := hd'.others v hv (h.grant.wait.live v _ hr).1.ne
    exact h.asked v r hr ((congrArg pend hview).symm.trans hpv)

theorem callsAfter_of_ends {op : TaskOp} (hd : op.ends = false) : s.callsAfter c op = s.calls := by
  cases op <;> first
    | rfl
    | simp [ends] at hd

theorem Inv.task {op : TaskOp} (h : Inv c s) (he : op.Enabled c s.k)
    (hp : op.Proper c True s.k) (hl : ¬op.ThawsLate s.k) : Inv c (exec c s (.task op)) := by
  cases hd : op.ends with
  | true =>
    cases op with
    | taskDelete => exact h.taskDelete hp
    | _ => simp [ends] at hd
  | false =>
    simp only [exec, callsAfter_of_ends hd]
    exact h.env (h.grant.run.exec he hp) (h.grant.run.env_exec he hp hd hl)
      (h.grant.run.exec_globals he hp).1

/-! ## Semaphores -/

theorem Inv.setSems (h : Inv c s) (m : Sems) : Inv c { s with sems := m } := { h with }

variable {intActive : Bool} {i : ListHead}

theorem Inv.semPend (h : Inv c s) (he : Enabled c s (.semPend sem timeout intActive)) :
    Inv c (exec c s (.semPend sem timeout intActive)) := by
  simp only [exec, losSemPend]
  split_ifs with hle hchk hc ht
  · exact h
  · exact h.setSems _
  · exact h.setSems _
  · exact h
  · obtain ⟨-, rfl⟩ := SemSys.osSemValidCheck_ok (not_not.mp hchk)
    obtain ⟨hx, hn⟩ := he rfl
    obtain ⟨hrun, hb⟩ := h.grant.run.block
      (f := fun cb => { cb with taskSem := some sem }) (i := .semList sem) hx rfl
      ⟨_, _, rfl⟩
    exact (h.waits hx hn hrun hb osSchedTaskWait_same.idleTaskID
      (by simp)).setSems _

theorem Inv.wakeFirst {rest : List TaskID} {f : TaskCB → TaskCB} (h : Inv c s)
    (hi : i.isWait) (hl : s.k.lists i = t :: rest) (hf : FirstThawed s.k i)
    (hfn : ∃ a b, f (s.k.taskCB t) = { s.k.taskCB t with taskSem := a, taskMux := b }) :
    Inv c { s with
      k := (s.k.modifyTCB t f).osSchedTaskWake c t
      granted := update s.granted t true } := by
  have hthawed := hf t (by simp [hl])
  obtain ⟨hrun, hw⟩ := h.grant.run.wake hi (by simp [hl]) hthawed hfn
  have hsame : Same s.k ((s.k.modifyTCB t f).osSchedTaskWake c t) :=
    Same.trans (.modifyTCB ..) osSchedTaskWake_same
  exact h.wakes hrun hw hsame.idleTaskID

theorem Inv.semPost (h : Inv c s) (hf : FirstThawed s.k (.semList sem)) :
    Inv c (exec c s (.semPost sem)) := by
  simp only [exec, losSemPost]
  split_ifs with hle hst hmax
  iterate 3 exact h
  · cases hl : s.k.lists (.semList sem) with
    | nil =>
      simp only [semPosted, hl]
      exact h.setSems _
    | cons =>
      simp only [semPosted, hl]
      exact h.wakeFirst rfl hl hf ⟨_, _, rfl⟩

/-! ## Mutexes -/

theorem Inv.modifyMux {f : LosMuxCB → LosMuxCB} (h : Inv c s) (mux : ℕ)
    (ho : ∀ o, (f (s.muxes.allMux mux)).owner = some o → o < c.taskMaxNum ∧ o ≠ s.k.idleTaskID)
    (hp : (f (s.muxes.allMux mux)).priority ≤ taskPriorityLowest) :
    Inv c { s with muxes := s.muxes.modify mux f } :=
  { h with
    owner := fun mux' o ho' => by
      by_cases hne : mux' = mux
      · subst hne
        exact ho o (by simpa using ho')
      · exact h.owner mux' o (by simpa [hne] using ho')
    priority := fun mux' => by
      by_cases hne : mux' = mux
      · subst hne
        simpa using hp
      · simpa [hne] using h.priority mux' }

theorem Inv.muxCreate (h : Inv c s) : Inv c (exec c s .muxCreate) := by
  simp only [exec, losMuxCreate]
  cases hl : s.muxes.unusedMuxList with
  | nil => exact h
  | cons mux unused =>
    have hunused : Inv c { s with muxes := { s.muxes with unusedMuxList := unused } } := { h with }
    exact hunused.modifyMux mux (f := fun _ => { muxStat := true }) (by simp) (Nat.zero_le _)

theorem Inv.muxPend (h : Inv c s) (he : Enabled c s (.muxPend mux timeout intActive)) :
    Inv c (exec c s (.muxPend mux timeout intActive)) := by
  simp only [exec, losMuxPend]
  split_ifs with hle hchk hc ho ht
  · exact h
  · exact h
  all_goals obtain ⟨-, rfl, -⟩ := osMuxValidCheck_ok (not_not.mp hchk)
  all_goals obtain ⟨hx, hn⟩ := he rfl
  · obtain ⟨_, _, hok⟩ := h.grant.run.sched.1.task _ hx.lt
    exact h.modifyMux mux (by rintro _ ⟨⟩; exact ⟨hx.lt, hx.notIdle⟩) hok.priority
  · exact h.modifyMux mux (h.owner mux) (h.priority mux)
  · exact h
  · cases hown : (s.muxes.allMux mux).owner with
    | none =>
      -- the model keeps the scheduler as it is for a counted mutex without an owner
      obtain ⟨hrun, hb⟩ := h.grant.run.block
        (f := fun cb => { cb with taskMux := some mux }) (i := .muxList mux) hx rfl
        ⟨_, _, rfl⟩
      exact h.waits hx hn hrun hb osSchedTaskWait_same.idleTaskID (by simp)
    | some o =>
      obtain ⟨holt, hoidle⟩ := h.owner mux o hown
      obtain ⟨hrun, hb, hsame, hx'⟩ := boosts_boostOwner mux h.grant.run hx holt hoidle
      have h₁ := h.env hrun (hb.env h.grant.run.sched.1) hsame.idleTaskID
      have h₂ := h₁.waits (r := .mux ⟨mux⟩) hx' (hsame.runTask.symm ▸ hn)
        (hrun.wait hx' rfl) (blocks_osSchedTaskWait (n := timeout))
        osSchedTaskWait_same.idleTaskID (by simp)
      simp only [IpcSys.waits, hsame.runTask] at h₂
      exact h₂

variable {mux : ℕ} {m : Muxes} {e : Errno} {out : List UInt8}

theorem muxPosted_of_eq (ho : (m.allMux mux).owner = (s.muxes.allMux mux).owner) :
    s.muxPosted mux (k', m, e) = { s with k := k', muxes := m } := by
  simp only [muxPosted]
  split
  · rfl
  · rename_i t ht
    rw [if_pos (ho.symm.trans ht)]

theorem muxPosted_of_none (ho : (m.allMux mux).owner = none) :
    s.muxPosted mux (k', m, e) = { s with k := k', muxes := m } := by
  simp only [muxPosted, ho]

theorem muxPosted_of_ne (ho : (m.allMux mux).owner = some t)
    (hne : (s.muxes.allMux mux).owner ≠ some t) : s.muxPosted mux (k', m, e) =
      { s with k := k', muxes := m, granted := update s.granted t true } := by
  simp only [muxPosted, ho, hne, if_false]

theorem restorePriority_taskCB_of_ne (ht : t ≠ k.runTask) :
    (restorePriority c k priority).taskCB t = k.taskCB t := by
  simp only [restorePriority]
  split_ifs
  · exact osSchedModifyTaskSchedParam_taskCB_of_ne ht
  · rfl

theorem Inv.muxPost (h : Inv c s) (he : Enabled c s (.muxPost mux intActive))
    (hf : FirstThawed s.k (.muxList mux)) : Inv c (exec c s (.muxPost mux intActive)) := by
  have hrefl : ∀ e, Inv c (s.muxPosted mux (s.k, s.muxes, e)) := fun e => by
    rw [muxPosted_of_eq rfl]
    exact h
  simp only [exec, losMuxPost]
  split_ifs with hle hint hown hc
  · exact hrefl _
  · exact hrefl _
  · exact hrefl _
  all_goals obtain rfl : intActive = false := by simpa using hint
  all_goals obtain ⟨hx, hn⟩ := he rfl
  all_goals obtain ⟨-, howner⟩ := not_or.mp hown
  all_goals replace howner := not_not.mp howner
  · rw [muxPosted_of_eq (by simp)]
    exact h.modifyMux mux (h.owner mux) (h.priority mux)
  · obtain ⟨hrun, hr, hsame⟩ :=
      reprioritises_restorePriority h.grant.run hx (h.priority mux)
    have hlist := hr.lists (.muxList mux) rfl
    have hcb : ∀ t ≠ s.k.runTask,
        (restorePriority c s.k (s.muxes.allMux mux).priority).taskCB t = s.k.taskCB t :=
      fun t ht => restorePriority_taskCB_of_ne ht
    generalize restorePriority c s.k (s.muxes.allMux mux).priority = k₁ at *
    have h₁ : Inv c { s with k := k₁ } :=
      h.env hrun (h.grant.run.sched.1.env_of_reprioritises hr) hsame.idleTaskID
    cases hl : k₁.lists (.muxList mux) with
    | nil =>
      rw [muxPosted_of_none (by simp)]
      exact h₁.modifyMux mux (by simp) (h.priority mux)
    | cons t =>
      have hm : t ∈ s.k.lists (.muxList mux) := by simp [← hlist, hl]
      have hne : t ≠ s.k.runTask := fun e =>
        h.grant.run.sched.1.runTask_notMem hx rfl (e ▸ hm)
      have hf₁ : FirstThawed k₁ (.muxList mux) := fun v hv => by
        obtain rfl : t = v := by simpa [hl] using hv
        rw [status, hcb t hne]
        exact hf t (by simp [← hlist, hl])
      have h₂ := h₁.wakeFirst (f := fun cb => { cb with taskMux := none }) rfl hl hf₁ ⟨_, _, rfl⟩
      obtain ⟨hlt, hpend, -⟩ := hrun.sched.1.pend_of_mem (t := t) (i := .muxList mux) rfl
        (by simp [hl])
      obtain ⟨_, _, hok⟩ := hrun.sched.1.task t hlt
      rw [muxPosted_of_ne (t := t) (by simp) (by simpa [howner] using hne.symm)]
      refine h₂.modifyMux mux ?_ hok.priority
      rintro _ ⟨⟩
      refine ⟨hlt, fun e => ?_⟩
      have hidle := (hok.idle (e.trans osSchedTaskWake_same.idleTaskID)).1
      exact absurd (hpend.symm.trans hidle) (by simp)

/-! ## Queues -/

section

variable (h : Inv c s)
include h

theorem Inv.setQueues {m : Queues} (hf : m.freeQueueList = s.queues.freeQueueList)
    (hs : ∀ q, (m.allQueue q).queueState = (s.queues.allQueue q).queueState) :
    Inv c { s with queues := m } :=
  { h with
    unused := hf ▸ h.unused
    free := fun q hq => (hs q).trans (h.free q (hf ▸ hq))
    asked := fun t r hr hp => (hs r.queueID).trans (h.asked t r hr hp) }

theorem Inv.unused_empty (hq : (s.queues.allQueue q).queueState = false) :
    (∀ rw, s.k.lists (.readWriteList q rw) = []) ∧ s.k.lists (.memList q) = [] := by
  constructor
  · intro rw
    refine List.eq_nil_iff_forall_not_mem.mpr fun t hm => ?_
    obtain ⟨-, hp, -⟩ := h.grant.run.sched.1.pend_of_mem rfl hm
    obtain ⟨-, r, hr, hhead⟩ := h.grant.wait.of_mem h.grant.run.sched.1
      rfl hm
    cases r with
    | queue r =>
      cases hhead
      simpa [hq] using h.asked t r hr hp
    | _ => cases hhead
  · refine List.eq_nil_iff_forall_not_mem.mpr fun t hm => ?_
    obtain ⟨-, r, -, hhead⟩ := h.grant.wait.of_mem h.grant.run.sched.1 rfl hm
    cases r <;> cases hhead

theorem Inv.queueCreate {mem : Option Bytes} :
    Inv c (exec c s (.queueCreate len maxMsgSize mem)) := by
  simp only [exec, osQueueCreate]
  split_ifs
  iterate 3 exact h
  · cases mem with
    | none => exact h
    | some =>
      cases hl : s.queues.freeQueueList with
      | nil => exact h
      | cons q free =>
        have hnodup := h.unused
        rw [hl, List.nodup_cons] at hnodup
        obtain ⟨hnil, hmem⟩ := h.unused_empty (h.free q (by simp [hl]))
        simp only [listInitQueue_eq_self hnil hmem]
        refine { h with
          unused := hnodup.2
          free := fun q' hq' => ?_
          asked := fun t r hr hp => ?_ }
        · have hne : q' ≠ q := fun e => hnodup.1 (e ▸ hq')
          simpa [Queues.modify, hne] using h.free q' (by simp [hl, show q' ∈ free from hq'])
        · by_cases hne : r.queueID = q
          · simp [Queues.modify, hne]
          · simpa [Queues.modify, hne] using h.asked t r hr hp

theorem Inv.queueDelete : Inv c (exec c s (.queueDelete q)) := by
  simp only [exec, losQueueDelete]
  split_ifs with hle hst hread hwrite hmem hcnt
  iterate 6 exact h
  · have hused : (s.queues.allQueue q).queueState := by simpa using hst
    refine { h with
      unused := List.nodup_cons.mpr ⟨fun hq => ?_, h.unused⟩
      free := fun q' hq' => ?_
      asked := fun t r hr hp => ?_ }
    · simpa [hused] using h.free q hq
    · by_cases hne : q' = q
      · simp [Queues.modify, hne]
      · simpa [Queues.modify, hne] using h.free q' ((List.mem_cons.mp hq').resolve_left hne)
    · have hm : t ∈ s.k.lists (.readWriteList r.queueID r.operateType.readWrite) := by
        obtain ⟨-, r', hr', hm⟩ := h.grant.wait.pend t (h.grant.wait.live t _ hr).1 hp
        obtain rfl := Option.some.inj (hr.symm.trans hr')
        exact hm
      have hne : r.queueID ≠ q := by
        rintro rfl
        cases hrw : r.operateType.readWrite <;> simp_all
      simpa [Queues.modify, hne] using h.asked t r hr hp

theorem Inv.transfer {r : QueueRequest} {m m' : Queues}
    (hf : m.freeQueueList = s.queues.freeQueueList)
    (hs : ∀ q, (m.allQueue q).queueState = (s.queues.allQueue q).queueState)
    (hthaw : FirstThawed s.k r.peers) (hx : s.k.osQueueTransfer c m r = (k', m', out)) :
    Inv c { s with
      k := k'
      queues := m'
      granted := s.granted.first (s.k.lists r.peers) } := by
  simp only [osQueueTransfer] at hx
  generalize hcb : (m.allQueue r.queueID).osQueueBufferOperate r.operateType r.bufferAddr
    r.bufferSize = res at hx
  have hstate : res.1.queueState = (m.allQueue r.queueID).queueState := by
    rw [← hcb]
    exact LosQueueCB.osQueueBufferOperate_queueState
  have hm : ∀ q, ((m.modify r.queueID fun _ => res.1).allQueue q).queueState =
      (s.queues.allQueue q).queueState := fun q =>
    (modify_queueState hstate q).trans (hs q)
  cases hl : s.k.lists r.peers with
  | nil =>
    rw [QueueRequest.peers] at hl
    rw [hl] at hx
    cases hx
    exact h.setQueues hf fun q => (modify_queueState rfl q).trans (hm q)
  | cons t =>
    have hwake := h.wakeFirst (f := id) rfl hl hthaw ⟨_, _, rfl⟩
    rw [QueueRequest.peers] at hl
    rw [hl] at hx
    cases hx
    have hid : s.k.modifyTCB t id = s.k := by simp [modifyTCB]
    rw [hid] at hwake
    exact hwake.setQueues hf hm

end

theorem queueOperated_of_ne {r : QueueRequest} {m : Queues} (he : e ≠ .ok) :
    s.queueOperated r (k', m, some (e, out)) = { s with k := k', queues := m } := by
  cases e <;> first
    | rfl
    | exact absurd rfl he

theorem Inv.queueOperate {r : QueueRequest} (h : Inv c s)
    (he : Enabled c s (.queueOperate r timeOut)) (hthaw : FirstThawed s.k r.peers) :
    Inv c (exec c s (.queueOperate r timeOut)) := by
  simp only [exec, osQueueOperate]
  split_ifs with hchk hcnt ht hrw hlock
  · rw [queueOperated_of_ne hchk]
    exact h
  iterate 3 exact h
  · obtain ⟨hx, hn⟩ := he ht
    have huse := (QueueSys.osQueueOperateParamCheck_ok (not_not.mp hchk)).1
    exact h.waits hx hn (h.grant.run.wait hx rfl) blocks_osSchedTaskWait
      osSchedTaskWait_same.idleTaskID (by rintro _ ⟨⟩; exact huse)
  · rcases hres : s.k.osQueueTransfer c
      (s.queues.modify r.queueID (·.countDown r.operateType.readWrite)) r with ⟨k', m', out⟩
    simp only [queueOperated]
    exact h.transfer (m := s.queues.modify r.queueID (·.countDown r.operateType.readWrite)) rfl
      (modify_queueState rfl) hthaw hres

theorem firstThawed_takeTimeout (h : FirstThawed k i) : FirstThawed (k.takeTimeout u).1 i := by
  intro t ht
  rw [takeTimeout_lists] at ht
  have hf := h t ht
  by_cases hu : t = u
  · subst hu
    rw [status, takeTimeout_taskCB]
    exact hf
  · rw [status, takeTimeout_taskCB_of_ne hu]
    exact hf

theorem Inv.callReturn (h : Inv c s) (he : Enabled c s .callReturn)
    (hthaw : InTime c s .callReturn) : Inv c (exec c s .callReturn) := by
  obtain ⟨hx, hne⟩ := he
  have hleave := h.leave hx
  simp only [exec]
  cases hr : s.calls.pc s.k.runTask with
  | none => exact h
  | some r =>
    cases r with
    | sem => exact hleave
    | mux => exact hleave
    | queue r =>
      have hpeers : FirstThawed (s.k.takeTimeout s.k.runTask).1 r.peers :=
        firstThawed_takeTimeout (hthaw _ hr _ rfl)
      simp only [osQueueOperateReturn]
      split_ifs with hto
      · exact hleave
      · rcases hres : (s.k.takeTimeout s.k.runTask).1.osQueueTransfer c s.queues r with
          ⟨k', m', out⟩
        have htr := hleave.transfer rfl (fun _ => rfl) hpeers hres
        simp only [takeTimeout_lists] at htr
        exact htr

/-! ## Runs -/

theorem Inv.step (h : Inv c s) (he : Enabled c s op) (ht : InTime c s op) :
    Inv c (exec c s op) := by
  cases op with
  | task => exact h.task he ht.1 ht.2
  | semCreate => exact h.setSems _
  | binarySemCreate => exact h.setSems _
  | semPend => exact h.semPend he
  | semPost => exact h.semPost ht
  | muxCreate => exact h.muxCreate
  | muxPend => exact h.muxPend he
  | muxPost => exact h.muxPost he ht
  | queueCreate => exact h.queueCreate
  | queueDelete => exact h.queueDelete
  | queueOperate => exact h.queueOperate he ht
  | callReturn => exact h.callReturn he ht

theorem Inv.of_reaches (h : ((machine c).restrict (InTime c)).Reaches s) : Inv c s := by
  refine h.invariant ?_ fun s op hi ha => hi.step ha.1 ha.2
  rintro _ ⟨k, a, b, hk, rfl⟩
  exact .init hk

theorem Inv.mem_iff (h : Inv c s) (hr : s.calls.pc t = some r) :
    t ∈ s.k.lists (head r) ↔ (s.k.status t).pend := by
  constructor
  · intro hm
    exact (h.grant.run.sched.1.pend_of_mem (isWait r) hm).2.1
  · intro hp
    obtain ⟨-, r', hr', hm⟩ := h.grant.wait.pend t (h.grant.wait.live t r hr).1 hp
    obtain rfl := Option.some.inj (hr.symm.trans hr')
    exact hm

/-- The running task was granted what its call waited for, unless the timeout says otherwise. -/
theorem Inv.granted_runTask (h : Inv c s) (hx : Executing c s.k)
    (hr : s.calls.pc s.k.runTask = some r) (hto : (s.k.status s.k.runTask).timeout = false) :
    s.granted s.k.runTask :=
  (h.grant.left _ r hr hx.pend).resolve_left (by simp [hto])

theorem honest_of_reaches (h : ((machine c).restrict (InTime c)).Reaches s) : Honest c s := by
  have hi := Inv.of_reaches h
  constructor
  · intro t r hr hm
    exact hi.grant.left t r hr (by simpa [hi.mem_iff hr] using hm)
  · intro t r hr hm
    exact hi.grant.waiting t r hr ((hi.mem_iff hr).mp hm)
  · intro r hx hr hok
    refine hi.granted_runTask hx hr ?_
    simpa [losSemPendReturn, takeTimeout_snd] using hok
  · intro r hx hr hok
    refine hi.granted_runTask hx hr ?_
    simpa [losMuxPendReturn, takeTimeout_snd] using hok
  · intro r hx hr hok
    refine hi.granted_runTask hx hr ?_
    by_contra hto
    have hto : (s.k.status s.k.runTask).timeout = true := by simpa using hto
    simp only [osQueueOperateReturn, takeTimeout_snd, hto] at hok
    exact absurd hok (by simp)
  · intro sem timeout intActive hok
    simp only [losSemPend] at hok
    split_ifs at hok <;> simp_all
  · intro mux timeout intActive hok
    simp only [losMuxPend] at hok ⊢
    split_ifs at hok ⊢ <;> simp_all
  · intro r timeOut out hok
    simp only [osQueueOperate] at hok
    split_ifs at hok <;> simp_all
    omega

/-! ## Runs of a small system -/

/-- The small system after `LOS_KernelInit`. -/
def smallSys : IpcSys where
  k := smallBoot
  sems := Sems.osSemInit smallConfig
  muxes := Muxes.osMuxInit smallConfig
  queues := Queues.osQueueInit smallConfig

theorem reaches_smallSys {M : Machine IpcSys IpcOp} (h : M.init = (machine smallConfig).init) :
    M.Reaches smallSys := .start (h ▸ ⟨_, 0, 1000, rfl, rfl⟩)

/-- A task that waits for a semaphore is frozen and thawed in time; then it is granted the
semaphore. -/
theorem honest_of_reaches_thawed : ∃ s,
    ((machine smallConfig).restrict (InTime smallConfig)).Reaches s ∧
    s.calls.pc 1 = some (.sem ⟨0⟩) ∧ s.k.losSemPendReturn.2 = .ok ∧ s.granted 1 = true ∧
    Honest smallConfig s := by
  have hr := (reaches_smallSys (M := (machine smallConfig).restrict (InTime smallConfig)) rfl).run
    [.task (.taskCreate (userTask 5 false) 2000), .task (.schedStart 0), .semCreate 0,
      .semPend 0 5 false, .task (.taskSwitch 1), .task (.taskSuspend 1 true),
      .task (.taskResume 1 20), .semPost 0, .task (.taskSwitch 30)] (by decide +kernel)
  exact ⟨_, hr, by decide +kernel, by decide +kernel, by decide +kernel, honest_of_reaches hr⟩

/-- Thawed after its time, the same task returns `LOS_OK` from `LOS_SemPend` although nobody has
posted the semaphore. -/
theorem thawed_late : ∃ s, (machine smallConfig).Reaches s ∧ Executing smallConfig s.k ∧
    s.k.runTask = 1 ∧ s.calls.pc 1 = some (.sem ⟨0⟩) ∧ s.k.losSemPendReturn.2 = .ok ∧
    s.granted 1 = false ∧ 1 ∉ s.k.lists (.semList 0) ∧ (s.k.status 1).timeout = false := by
  have hr := (reaches_smallSys rfl).run
    [.task (.taskCreate (userTask 5 false) 2000), .task (.schedStart 0), .semCreate 0,
      .semPend 0 5 false, .task (.taskSwitch 1), .task (.taskSuspend 1 true),
      .task (.taskResume 1 1000), .task (.taskSwitch 1010)] (by decide +kernel)
  exact ⟨_, hr, by decide +kernel⟩

end IpcSys

end LiteOS.Kernel
