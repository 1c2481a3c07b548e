import LiteOS.Ipc.QueueContract

/-!
# Deleting the tasks that use a queue

`OsQueueOperate` hands a message or a free slot to the task it wakes. No counter shows it: the rest
of that task's call accounts for it. `LOS_TaskDelete` takes a waiting task off its list, and ends
the call of a woken one without giving back what the call had been handed.
-/

namespace LiteOS.Kernel

open Lib Sched LosQueueCB QueueSys Queues TaskView Sched

/-- What a call that returns `LOS_OK` does to the messages of its queue. -/
def QueueDone.apply : QueueDone → List (List UInt8) → List (List UInt8)
  | .writeTail msg, l => l ++ [msg]
  | .writeHead msg, l => msg :: l
  | .read _ _, l => l.tail

theorem DequeStep.eq_apply {len : ℕ} {d : Option QueueDone} {l l' : List (List UInt8)}
    (h : DequeStep len d l l') : l' = d.elim l (·.apply l) := by
  cases h <;> rfl

/-- The queues, and the messages that have been written to each of them and not been read. -/
structure QueueRun where
  sys : QueueSys
  stored : ℕ → List (List UInt8) := fun _ => []

inductive QueueRunOp
  | queue (op : QueueOp)
  | taskDelete (t : TaskID)

namespace QueueRun

open QueueSys (noPermit)

def exec (c : Config) (s : QueueRun) : QueueRunOp → QueueRun
  | .queue op =>
    let (sys, d) := s.sys.act c op
    { sys := sys
      stored := fun q =>
        if (s.sys.queues.allQueue q).queueState then
          (QueueSys.doneAt q d).elim (s.stored q) (·.apply (s.stored q))
        else [] }
  | .taskDelete t =>
    match s.sys.k.losTaskDelete c t with
    | (k, .ok) => { s with sys := { s.sys with k := k, calls := s.sys.calls.leave t } }
    | (k, _) => { s with sys := { s.sys with k := k } }

/-- When an operation can come: the running task is not deleted. -/
def Enabled (c : Config) (s : QueueRun) : QueueRunOp → Prop
  | .queue op => QueueSys.Enabled c s.sys op
  | .taskDelete t => t ≠ s.sys.k.runTask

/-- Runs after `LOS_KernelInit`. -/
def machine (c : Config) : Machine QueueRun QueueRunOp where
  init s := (QueueSys.machine c).init s.sys ∧ s.stored = fun _ => []
  allowed := Enabled c
  step := exec c

/-- `t` has been woken inside `OsQueueOperate` and has not run since. -/
def Handed (s : QueueSys) (t : TaskID) : Prop :=
  (s.calls.pc t).isSome ∧ (s.k.status t).pend = false ∧ (s.k.status t).timeout = false

def Careful (s : QueueRun) : QueueRunOp → Prop
  | .taskDelete t => ¬Handed s.sys t
  | _ => True

instance (c : Config) (s : QueueRun) (op : QueueRunOp) : Decidable ((machine c).allowed s op) := by
  cases op with
  | queue op => exact inferInstanceAs (Decidable ((QueueSys.machine c).allowed s.sys op))
  | taskDelete t => exact inferInstanceAs (Decidable (t ≠ s.sys.k.runTask))

instance (s : QueueRun) (op : QueueRunOp) : Decidable (Careful s op) := by
  cases op <;> unfold Careful <;> try unfold Handed
  all_goals infer_instance

structure Intact (c : Config) (s : QueueRun) (q : ℕ) : Prop where
  total : (s.sys.queues.allQueue q).readWriteableCnt .read +
    (s.sys.queues.allQueue q).readWriteableCnt .write = (s.sys.queues.allQueue q).queueLen
  stored : s.stored q = (s.sys.queues.allQueue q).contents
    ((s.sys.queues.allQueue q).readWriteableCnt .read)
  /-- The first message can be read. -/
  readable : ∀ msg rest n, s.stored q = msg :: rest → 0 < n → n < securecMemMaxLen →
    (s.sys.k.losQueueReadCopy c s.sys.queues q n 0 true).2.2 = some (.ok, msg.take n)
  deletable : (s.sys.k.losQueueDelete c s.sys.queues q).2 = .ok

variable {c : Config} {s : QueueRun} {q timeOut n : ℕ} {t : TaskID} {m m' : Queues} {op : QueueOp}

/-! ## The queues that there are -/

/-- Every queue that is in use or free is below the limit. -/
def Known (c : Config) (m : Queues) : Prop :=
  ∀ q, q ∈ m.freeQueueList ∨ (m.allQueue q).queueState → q < c.queueLimit

structure SameUse (m m' : Queues) : Prop where
  free : m'.freeQueueList = m.freeQueueList
  state : ∀ q, (m'.allQueue q).queueState = (m.allQueue q).queueState

theorem SameUse.refl (m : Queues) : SameUse m m := ⟨rfl, fun _ => rfl⟩

theorem SameUse.modify {f : LosQueueCB → LosQueueCB} (h : SameUse m m')
    (hf : (f (m'.allQueue q)).queueState = (m'.allQueue q).queueState) :
    SameUse m (m'.modify q f) :=
  ⟨h.free, fun q' => (modify_queueState hf q').trans (h.state q')⟩

theorem Known.congr (h : Known c m) (hs : SameUse m m') : Known c m' := fun q hq => by
  rw [hs.free, hs.state] at hq
  exact h q hq

variable {k k' : Sched} {r : QueueRequest}

theorem SameUse.osQueueTransfer (h : SameUse m m') : SameUse m (k.osQueueTransfer c m' r).2.1 := by
  have h' := h.modify (f := fun _ => ((m'.allQueue r.queueID).osQueueBufferOperate r.operateType
    r.bufferAddr r.bufferSize).1) osQueueBufferOperate_queueState
  simp only [Sched.osQueueTransfer]
  split
  · exact h'
  · exact h'.modify (f := fun cb => cb.countUp r.operateType.readWrite.other) rfl

theorem sameUse_osQueueOperate : SameUse m (k.osQueueOperate c m r timeOut).2.1 := by
  simp only [osQueueOperate]
  split_ifs
  iterate 5 exact .refl m
  · exact ((SameUse.refl m).modify rfl).osQueueTransfer

theorem sameUse_osQueueOperateReturn : SameUse m (k.osQueueOperateReturn c m r).2.1 := by
  simp only [osQueueOperateReturn]
  split_ifs
  · exact .refl m
  · exact (SameUse.refl m).osQueueTransfer

variable {sys : QueueSys} {rw : ReadWrite} {buffer msg : List UInt8} {tail intActive : Bool}
  {rest : List (List UInt8)}

theorem began_queues {x : Sched × Queues × Option (Errno × List UInt8)} :
    (sys.began r x).1.queues = x.2.1 := by
  obtain ⟨k, m, _ | ⟨e, out⟩⟩ := x
  · rfl
  · cases e <;> rfl

theorem returned_queues {x : Sched × Queues × Errno × List UInt8} :
    (sys.returned r x).1.queues = x.2.1 := by
  obtain ⟨k, m, e, out⟩ := x
  cases e <;> rfl

theorem sameUse_queueWriteCopyAt :
    SameUse m (k.queueWriteCopyAt c m tail q buffer timeOut intActive).2.1 := by
  simp only [queueWriteCopyAt]
  split_ifs
  · exact .refl m
  · exact sameUse_osQueueOperate

theorem osQueueCreate_cases (k : Sched) (m : Queues) (len maxMsgSize : ℕ) (mem : Option Bytes) :
    (∃ e, k.osQueueCreate m len maxMsgSize mem = (k, m, .error e)) ∨
      ∃ q free cb, m.freeQueueList = q :: free ∧ mem.isSome ∧ k.osQueueCreate m len maxMsgSize mem =
          (k.listInitQueue q, { m with freeQueueList := free }.modify q fun _ => cb, .ok q) ∧
        cb.queueState ∧ cb.readWriteableCnt .write + cb.readWriteableCnt .read = cb.queueLen := by
  simp only [osQueueCreate]
  split_ifs
  iterate 3 exact .inl ⟨_, rfl⟩
  · cases mem with
    | none => exact .inl ⟨_, rfl⟩
    | some =>
      cases hl : m.freeQueueList with
      | nil => exact .inl ⟨_, rfl⟩
      | cons q free => exact .inr ⟨q, free, _, rfl, rfl, rfl, rfl, rfl⟩

theorem losQueueDelete_cases (c : Config) (k : Sched) (m : Queues) (q : ℕ) :
    (k.losQueueDelete c m q).1 = m ∧ (k.losQueueDelete c m q).2 ≠ .ok ∨
      q < c.queueLimit ∧ (m.allQueue q).queueState ∧ k.losQueueDelete c m q =
        ({ m.modify q fun cb => { cb with queueState := false } with
            freeQueueList := q :: m.freeQueueList }, .ok) := by
  simp only [losQueueDelete]
  split_ifs with hlim huse
  iterate 6 exact .inl ⟨rfl, by simp⟩
  · exact .inr ⟨not_le.mp hlim, by simpa using huse, rfl⟩

/-- What an operation does to the queues that there are. -/
inductive UseStep (c : Config) (m m' : Queues) : QueueOp → Prop
  | same (op : QueueOp) (same : SameUse m m') : UseStep c m m' op
  | create (op : QueueOp) (q : ℕ) (first : m.freeQueueList = q :: m'.freeQueueList)
    (state : ∀ q', (m'.allQueue q').queueState =
      if q' = q then true else (m.allQueue q').queueState) :
    UseStep c m m' op
  | delete (q : ℕ) (lim : q < c.queueLimit) (inUse : (m.allQueue q).queueState)
    (free : m'.freeQueueList = q :: m.freeQueueList)
    (state : ∀ q', (m'.allQueue q').queueState =
      if q' = q then false else (m.allQueue q').queueState) :
    UseStep c m m' (.queueDelete q)

theorem useStep_act (sys : QueueSys) (op : QueueOp) :
    UseStep c sys.queues (sys.act c op).1.queues op := by
  cases op with
  | task => exact .same _ (.refl _)
  | queueCreate len maxMsgSize mem =>
    rcases osQueueCreate_cases sys.k sys.queues len maxMsgSize mem with
      ⟨e, he⟩ | ⟨q, free, cb, hfree, -, he, hcb, -⟩
    · simp only [act, he]
      exact .same _ (.refl _)
    · simp only [act, he]
      refine .create _ q hfree fun q' => ?_
      by_cases hq : q' = q <;> simp [Queues.modify, hq, hcb]
  | queueReadCopy =>
    simp only [act, began_queues, losQueueReadCopy]
    split_ifs
    · exact .same _ (.refl _)
    · exact .same _ sameUse_osQueueOperate
  | queueWriteCopy =>
    simp only [act, began_queues]
    exact .same _ sameUse_queueWriteCopyAt
  | queueWriteHeadCopy =>
    simp only [act, began_queues]
    exact .same _ sameUse_queueWriteCopyAt
  | queueOperateReturn =>
    simp only [act]
    split
    · exact .same _ (.refl _)
    · rw [returned_queues]
      exact .same _ sameUse_osQueueOperateReturn
  | queueDelete q =>
    rcases losQueueDelete_cases c sys.k sys.queues q with ⟨he, -⟩ | ⟨hlim, huse, he⟩
    · simp only [act, he]
      exact .same _ (.refl _)
    · simp only [act, he]
      refine .delete q hlim huse rfl fun q' => ?_
      by_cases hq : q' = q <;> simp [Queues.modify, hq]

theorem Known.useStep (h : Known c m) (hs : UseStep c m m' op) : Known c m' := by
  cases hs with
  | same _ hs => exact h.congr hs
  | create _ q first state =>
    intro q' hq'
    rw [state] at hq'
    by_cases hne : q' = q
    · exact h q' (.inl (by simp [first, hne]))
    · exact h q' (hq'.imp (fun hm => by simp [first, hm]) fun hu => by simpa [hne] using hu)
  | delete q lim _ free state =>
    intro q' hq'
    by_cases hne : q' = q
    · exact hne ▸ lim
    · exact h q' (by simpa [free, state, hne] using hq')

theorem Known.act (h : Known c s.sys.queues) : Known c (s.sys.act c op).1.queues :=
  h.useStep (useStep_act s.sys op)

/-! ## Deleting a task -/

theorem woken_deletes (hh : ¬Handed sys t) (hd : Deletes c t sys.k k') :
    woken c { sys with k := k', calls := sys.calls.leave t } q rw = sys.woken c q rw := by
  refine inflight_congr fun u hu => ?_
  rw [Calls.heads_leave]
  by_cases hut : u = t
  · subst hut
    refine ⟨fun hg => absurd hg not_granted_leave, fun hg => absurd ?_ hh⟩
    obtain ⟨hpc, hp, hto⟩ := hg
    obtain ⟨r, hr, -⟩ := Option.map_eq_some_iff.mp hpc
    exact ⟨by simp [hr], hp, hto⟩
  · have hv := hd.others u hut hu.ne
    have hp : (k'.status u).pend = (sys.k.status u).pend := congrArg pend hv
    have hto : (k'.status u).timeout = (sys.k.status u).timeout := congrArg timeout hv
    simp [Granted, hp, hto, hut]

theorem isIpc_head (r : QueueRequest) : (Request.head r).isIpc := rfl

theorem exec_taskDelete (h : QueueSys.Inv c noPermit s.sys) :
    exec c s (.taskDelete t) = s ∨ ∃ k', RunInv c False k' ∧ Deletes c t s.sys.k k' ∧
      exec c s (.taskDelete t) =
        { s with sys := { s.sys with k := k', calls := s.sys.calls.leave t } } := by
  have hp : TaskOp.Proper c False s.sys.k (.taskDelete t) := fun ht =>
    ⟨h.run.sched.1.freeze_eq_false ht, fun j hj => by
      simp [h.wait.joinList_eq_nil h.run.sched.1 isIpc_head] at hj⟩
  have he : TaskOp.Enabled c s.sys.k (.taskDelete t) := trivial
  have hrun := h.run.exec he hp
  rcases hres : s.sys.k.losTaskDelete c t with ⟨k', e⟩
  have hexec : TaskOp.exec c s.sys.k (.taskDelete t) = k' := by simp [TaskOp.exec, hres]
  rw [hexec] at hrun
  simp only [exec, hres]
  cases (h.run.sched.losTaskDelete hp hres).2 with
  | refused e he hk =>
    subst hk
    left
    cases e <;> first | rfl | exact absurd rfl he
  | deleted _ _ _ _ _ hj hd =>
    have hq := h.wait.quiet_of_joinPosts h.run.sched.1 isIpc_head hj
    exact .inr ⟨k', hrun, hd.after_quiet hq, rfl⟩

theorem inv_deletes (h : QueueSys.Inv c noPermit sys) (hrun : RunInv c False k')
    (hd : Deletes c t sys.k k') (hh : ¬Handed sys t) :
    QueueSys.Inv c noPermit { sys with k := k', calls := sys.calls.leave t } where
  run := hrun
  wait := h.wait.deletes hd
  unused := h.unused
  free := h.free
  asked u r hr hto := by
    have hu : u ≠ t := by
      rintro rfl
      simp at hr
    have hr : sys.calls.pc u = some r := by simpa [hu] using hr
    have hv := hd.others u hu (h.wait.live u r hr).1.ne
    exact h.asked u r hr ((congrArg timeout hv).symm.trans hto)
  queue q hq := (h.queue q hq).congr rfl fun _ => woken_deletes hh hd

/-! ## The runs -/

/-- The queues are consistent, and hold the messages that have been written and not read. -/
structure Inv (c : Config) (s : QueueRun) : Prop where
  sys : QueueSys.Inv c noPermit s.sys
  known : Known c s.sys.queues
  stored : ∀ q, (s.sys.queues.allQueue q).queueState → s.stored q = s.sys.contents c q

theorem Inv.init (h : (machine c).init s) : Inv c s := by
  obtain ⟨⟨k, _, _, hk, hs⟩, -⟩ := h
  rw [show s = ⟨s.sys, s.stored⟩ from rfl, hs]
  exact ⟨.init hk, fun q hq => by simpa [osQueueInit] using hq,
    fun q hq => by simp [osQueueInit] at hq⟩

theorem Inv.step {op : QueueRunOp} (h : Inv c s) (he : Enabled c s op) (hc : Careful s op) :
    Inv c (exec c s op) := by
  cases op with
  | queue =>
    obtain ⟨hsys, hmove⟩ := h.sys.step he
    refine ⟨hsys, h.known.act, fun q hq => ?_⟩
    rcases hmove q hq with hm | ⟨hfree, hnil⟩
    · have huse := hm.state.symm.trans hq
      simp only [exec, huse, h.stored q huse]
      exact hm.step.eq_apply.symm
    · simp only [exec, hfree]
      exact hnil.symm
  | taskDelete t =>
    rcases exec_taskDelete h.sys with hx | ⟨k', hrun, hd, hx⟩
    · rw [hx]
      exact h
    · rw [hx]
      refine ⟨inv_deletes h.sys hrun hd hc, h.known, fun q hq => (h.stored q hq).trans ?_⟩
      have hst : QueueSys.stock c { s.sys with k := k', calls := s.sys.calls.leave t } q .read =
        s.sys.stock c q .read := QueueSys.stock_congr rfl (woken_deletes hc hd)
      rw [QueueSys.contents, QueueSys.contents, hst]

theorem Inv.of_reaches (h : ((machine c).restrict Careful).Reaches s) : Inv c s :=
  h.invariant (fun _ => .init) fun _ _ hinv ha => hinv.step ha.1 ha.2

theorem stock_of_idle (hn : ∀ t r, sys.calls.pc t = some r → r.queueID ≠ q) :
    sys.stock c q rw = (sys.queues.allQueue q).readWriteableCnt rw := by
  have hw : sys.woken c q rw = 0 := by
    refine inflight_eq_zero_iff.mpr fun t _ hg => ?_
    obtain ⟨r, hr, hhead⟩ := Option.map_eq_some_iff.mp hg.1
    cases hhead
    exact hn t r hr rfl
  rw [stock, hw, Nat.add_zero]

theorem losQueueReadCopy_of_contents (hlim : q < c.queueLimit) (huse : (m.allQueue q).queueState)
    (hring : RingOk (m.allQueue q) ((m.allQueue q).readWriteableCnt .read))
    (hmsg : (m.allQueue q).contents ((m.allQueue q).readWriteableCnt .read) = msg :: rest)
    (h0 : 0 < n) (hn : n < securecMemMaxLen) :
    (k.losQueueReadCopy c m q n 0 true).2.2 = some (.ok, msg.take n) := by
  have hpar : osQueueReadParameterCheck c q n 0 true = .ok := by
    simp [osQueueReadParameterCheck, hlim, h0.ne']
  have hop : osQueueOperateParamCheck (m.allQueue q) { readWrite := .read } n = .ok := by
    simp [osQueueOperateParamCheck, huse, hn]
  obtain ⟨i, hi⟩ : ∃ i, (m.allQueue q).readWriteableCnt .read = i + 1 := by
    refine Nat.exists_eq_succ_of_ne_zero fun hz => ?_
    have hlen := congrArg List.length hmsg
    simp [LosQueueCB.contents, hz] at hlen
  rw [hi] at hring hmsg
  have hdown : RingOk ((m.allQueue q).countDown .read) (i + 1) := hring.recount _
  rcases hres : ((m.allQueue q).countDown .read).osQueueBufferOperate { readWrite := .read } [] n
    with ⟨cb', out⟩
  obtain ⟨-, -, msg', hmsg', hout⟩ := RingOk.read hdown h0 hn hres
  obtain rfl := (List.cons.inj (hmsg.symm.trans hmsg')).1
  have hcb : (m.modify q fun cb => cb.countDown .read).allQueue q =
    (m.allQueue q).countDown .read := modify_self
  simp only [losQueueReadCopy, hpar, ne_eq, not_true, if_false, osQueueOperate, readCopy, hop, hi,
    Nat.succ_ne_zero, osQueueTransfer, hcb, hres]
  split <;> simp only [hout]

/-- If no task is deleted while it holds a message or a slot that it has been handed, a queue that
no task is using has lost nothing: what it counts is what was written and not read. -/
theorem intact_of_reaches (h : ((machine c).restrict Careful).Reaches s)
    (hq : (s.sys.queues.allQueue q).queueState = true)
    (hn : ∀ t r, s.sys.calls.pc t = some r → r.queueID ≠ q) : Intact c s q := by
  have hinv := Inv.of_reaches h
  have hlim := hinv.known q (.inr hq)
  have hring := (hinv.sys.queue q hq).ring
  have htotal := (hinv.sys.queue q hq).total
  simp only [noPermit, Nat.add_zero, stock_of_idle hn] at hring htotal
  have hstored := hinv.stored q hq
  rw [QueueSys.contents, stock_of_idle hn] at hstored
  refine ⟨htotal, hstored, fun msg rest n hm h0 hmax => ?_, ?_⟩
  · exact losQueueReadCopy_of_contents hlim hq hring (hstored.symm.trans hm) h0 hmax
  · have hnil : ∀ i : ListHead, i.isWait = true → (∀ r : QueueRequest, r.queueID ≠ q →
        i ≠ Request.head r) → s.sys.k.lists i = [] := fun i hi hne => by
      refine List.eq_nil_iff_forall_not_mem.mpr fun t ht => ?_
      obtain ⟨-, r, hr, hhead⟩ := hinv.sys.wait.of_mem hinv.sys.run.sched.1 hi ht
      exact hne r (hn t r hr) hhead.symm
    have hlist : ∀ rw, s.sys.k.lists (.readWriteList q rw) = [] := fun rw =>
      hnil _ rfl fun r hr he => hr (ListHead.readWriteList.inj he).1.symm
    have hmem : s.sys.k.lists (.memList q) = [] := hnil _ rfl (by simp)
    have hsum := (Nat.add_comm ..).trans htotal
    simp [losQueueDelete, not_le.mpr hlim, hq, hlist, hmem, hsum]

/-- Task 2 runs after task 1 has begun to wait for a message of queue 0. -/
def readerWaits : List QueueRunOp :=
  [.queue (.task (.taskCreate (userTask 10 false) 2000)),
    .queue (.task (.taskCreate (userTask 5 false) 3000)), .queue (.task (.schedStart 0)),
    .queue (.queueCreate 2 4 (some fun _ => 0)), .queue (.task (.taskDelay false 5)),
    .queue (.task (.taskSwitch 1)), .queue (.queueReadCopy 0 4 losWaitForever false),
    .queue (.task (.taskSwitch 2)), .queue (.task (.scanTimerList 1000)),
    .queue (.task (.taskSwitch 1001))]

/-- The state after `LOS_KernelInit`. -/
def smallRun : QueueRun :=
  { sys := { k := smallBoot, queues := Queues.osQueueInit smallConfig } }

theorem init_smallRun : (machine smallConfig).init smallRun := ⟨⟨_, 0, 1000, rfl, rfl⟩, rfl⟩

/-- A waiting reader is deleted before a message is written. -/
theorem intact_of_reaches_waiting : ∃ s, ((machine smallConfig).restrict Careful).Reaches s ∧
    (s.sys.queues.allQueue 0).queueState = true ∧ s.stored 0 = [[7]] ∧
    Intact smallConfig s 0 := by
  have hr := Machine.Reaches.run (M := (machine smallConfig).restrict Careful)
    (.start init_smallRun)
    (readerWaits ++ [.taskDelete 1, .queue (.queueWriteCopy 0 [7] 0 false)]) (by decide +kernel)
  have hidle : ∀ t < smallConfig.taskMaxNum, ∀ r ∈ (((machine smallConfig).restrict Careful).run
      smallRun (readerWaits ++ [.taskDelete 1,
        .queue (.queueWriteCopy 0 [7] 0 false)])).sys.calls.pc
      t, r.queueID ≠ 0 := by decide +kernel
  exact ⟨_, hr, by decide +kernel, by decide +kernel,
    intact_of_reaches hr (by decide +kernel) fun t r ht =>
      hidle t ((Inv.of_reaches hr).sys.wait.live t r ht).1 r ht⟩

/-- A reader that has been woken is deleted before it runs: its message is lost, and the queue can
no longer be deleted. -/
theorem woken_reader_deleted : ∃ s, (machine smallConfig).Reaches s ∧
    (s.sys.queues.allQueue 0).queueState = true ∧
    (∀ t < smallConfig.taskMaxNum, s.sys.calls.pc t = none) ∧
    s.stored 0 = [[7]] ∧ (s.sys.queues.allQueue 0).readWriteableCnt .read = 0 ∧
    (s.sys.queues.allQueue 0).readWriteableCnt .write = 1 ∧
    (s.sys.queues.allQueue 0).queueLen = 2 ∧
    (s.sys.k.losQueueDelete smallConfig s.sys.queues 0).2 = .queueInTskwrite := by
  have hr := Machine.Reaches.run (.start init_smallRun)
    (readerWaits ++ [.queue (.queueWriteCopy 0 [7] 0 false), .taskDelete 1]) (by decide +kernel)
  exact ⟨_, hr, by decide +kernel⟩

end QueueRun

end LiteOS.Kernel
