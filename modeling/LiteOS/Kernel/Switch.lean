import LiteOS.Kernel.Transitions

/-!
# Switching tasks

`OsSchedTaskSwitch` puts the running task aside and dispatches the top task. Between the two no
task is running; the invariant of that moment is `InvWith c pm none`.
-/

namespace LiteOS.Kernel.Sched

open Lib Function

variable {c : Config} {pm : Prop} {run run' : Option TaskID} {k k' : Sched} {t u : TaskID} {n : ℕ}

/-! ## The top task -/

theorem clz_queueBitmap (h : k.queueBitmap ≠ 0#32) : k.queueBitmap.clz.toNat ≤ 31 ∧
      k.queueBitmap.getLsbD (31 - k.queueBitmap.clz.toNat) ∧
      ∀ p < k.queueBitmap.clz.toNat, k.queueBitmap.getLsbD (31 - p) = false := by
  have hlt : k.queueBitmap.clz.toNat < 32 := by
    have hc := BitVec.clz_lt_iff_ne_zero.mpr h
    simpa [BitVec.lt_def] using hc
  refine ⟨by omega, BitVec.getLsbD_true_clz_of_ne_zero (by omega) h, fun p hp => ?_⟩
  have hsize := BitVec.toNat_lt_two_pow_sub_clz (x := k.queueBitmap)
  have hpow : 2 ^ (32 - k.queueBitmap.clz.toNat) ≤ 2 ^ (31 - p) :=
    Nat.pow_le_pow_right (by omega) (by omega)
  exact Nat.testBit_lt_two_pow (hsize.trans_le hpow)

/-- What `OsGetTopTask` returns: the idle task when every ready queue is empty, and otherwise the
first task of the most urgent queue that is not. -/
theorem Linked.osGetTopTask (h : Linked c k) :
    (osGetTopTask c k = k.idleTaskID ∧ ∀ p ≤ taskPriorityLowest, k.lists (.priQueueList p) = []) ∨
      ∃ p ≤ taskPriorityLowest, osGetTopTask c k ∈ k.lists (.priQueueList p) ∧
        ∀ q < p, k.lists (.priQueueList q) = [] := by
  unfold Sched.osGetTopTask
  split_ifs with hb
  · right
    obtain ⟨hle, hset, hmin⟩ := clz_queueBitmap hb
    refine ⟨k.queueBitmap.clz.toNat, hle, ?_, fun q hq => ?_⟩
    · have hne := (h.bitmap _ hle).mp hset
      cases hl : k.lists (.priQueueList k.queueBitmap.clz.toNat) with
      | nil => exact absurd hl hne
      | cons => simp
    · by_contra hne
      have := (h.bitmap q (hq.le.trans hle)).mpr hne
      simp [hmin q hq] at this
  · left
    refine ⟨rfl, fun p hp => ?_⟩
    by_contra hne
    have := (h.bitmap p hp).mpr hne
    simp only [not_not] at hb
    simp [hb] at this

theorem InvWith.osGetTopTask (h : InvWith c pm run k) (hi : k.idleTaskID < c.taskMaxNum) :
    osGetTopTask c k < c.taskMaxNum ∧ Queued k (osGetTopTask c k) ∧
      (k.status (osGetTopTask c k)).pend = false ∧ (k.status (osGetTopTask c k)).delay = false ∧
      (k.status (osGetTopTask c k)).suspend = false ∧ (k.status (osGetTopTask c k)).exit = false ∧
      (k.status (osGetTopTask c k)).unused = false := by
  rcases h.linked.osGetTopTask with ⟨htop, -⟩ | ⟨p, hp, hm, -⟩
  · obtain ⟨o, ho, hok⟩ := h.task _ hi
    obtain ⟨hpend, hdelay, hsusp, hexit, hunused, -⟩ := hok.idle rfl
    rw [htop]
    exact ⟨hi, hok.queued ho hpend hunused, hpend, hdelay, hsusp, hexit, hunused⟩
  · have hlt := h.linked.bound _ _ hm
    obtain ⟨o, ho, hok⟩ := h.task _ hlt
    have hpl := hok.placed
    rw [ho.eq hm] at hpl
    obtain ⟨hpend, hdelay, hsusp, hexit, hunused, -⟩ := hok.status.ready hpl.1
    exact ⟨hlt, hok.queued ho hpend hunused, hpend, hdelay, hsusp, hexit, hunused⟩

/-! ## Dispatching -/

/-- The second half of a switch, and the whole of `OsSchedStart`: the new task is marked running
and taken off its queue. -/
def dispatch (k : Sched) (newTask : TaskID) (startTime : ℕ) : Sched :=
  ((k.setStatus newTask fun s => { s with running := true }).modifyTCB newTask fun cb =>
    { cb with startTime := startTime }).osSchedTaskDeQueue newTask

theorem dispatch_taskCB : (k.dispatch t n).taskCB t = { k.taskCB t with
    startTime := n
    taskStatus := { k.status t with running := true, ready := false } } := by
  simp [dispatch, osSchedTaskDeQueue_taskCB]

variable {startTime : ℕ}

theorem dispatch_taskCB_of_ne (hne : u ≠ t) : (k.dispatch t startTime).taskCB u = k.taskCB u := by
  simp [dispatch, osSchedTaskDeQueue_taskCB_of_ne hne, hne]

theorem dispatch_same : Same k (k.dispatch t startTime) := by
  exact .trans (.trans (.setStatus ..) (.modifyTCB ..)) osSchedTaskDeQueue_same

theorem dispatch_newTask : (k.dispatch t startTime).newTask = k.newTask := by
  simp only [dispatch, osSchedTaskDeQueue]
  split_ifs <;> rfl

theorem InvWith.dispatch (h : InvWith c pm none k) (ht : t < c.taskMaxNum)
    (hq : Queued k t) (hp : (k.status t).pend = false) (hd : (k.status t).delay = false)
    (hs : (k.status t).suspend = false) (hx : (k.status t).exit = false)
    (hu : (k.status t).unused = false) : InvWith c pm (some t) (k.dispatch t n) := by
  obtain ⟨o, ho, hok⟩ := h.task t ht
  have hopen := (((h.around ht).change_run (some t) fun u hne => by simp [hne.symm]).setStatus
    fun s => { s with running := true }).modifyTCB fun cb => { cb with startTime := n }
  have hq' : Queued ((k.setStatus t fun s => { s with running := true }).modifyTCB t fun cb =>
      { cb with startTime := n }) t := by
    unfold Queued at hq ⊢
    simpa using hq
  have hdq := hopen.osSchedTaskDeQueue (by simp [hok.id]) (by simp [hok.priority]) hq'
  have hpt := hok.status.pendTime_eq_false hp
  have hfz := hok.status.freeze_eq_false (.inl hs)
  have hcb := dispatch_taskCB (k := k) (t := t) (n := n)
  have hsort : (k.dispatch t n).sortLink = k.sortLink := osSchedTaskDeQueue_sortLink
  refine hdq.close (Detached.taskOk (k := k.dispatch t n) ?_)
  exact {
    id := by simp [hcb, hok.id]
    priority := by simp [hcb, hok.priority]
    ready := by simp [hcb]
    pend := by simpa [hcb] using hp
    delay := by simpa [hcb] using hd
    pendTime := by simpa [hcb] using hpt
    exit := by simpa [hcb] using hx
    unused := by simpa [hcb] using hu
    freeze := by simpa [hcb] using hfz
    running := by simp [hcb]
    response := by
      have hr := hok.response hu
      simpa [hcb, hd, hpt] using hr
    sortLink := by
      simp only [status] at hd hpt
      rw [hsort, hok.linked]
      simp [hd, hpt]
    nowhere := hq'.osSchedTaskDeQueue_at h.linked.nodup (by simp [hok.id])
    idle := fun e => by
      have hidle := hok.idle (e.trans dispatch_same.idleTaskID)
      simpa [hcb] using ⟨hs, hidle.2.2.2.2.2⟩ }

/-! ## Putting the running task aside -/

/-- Clear the `RUNNING` bit. -/
def stopRunning (s : TaskStatus) : TaskStatus := { s with running := false }

theorem StatusOk.stopRunning {s : TaskStatus} (h : StatusOk s) : StatusOk (stopRunning s) where
  ready hr := ⟨(h.ready hr).1, (h.ready hr).2.1, (h.ready hr).2.2.1, (h.ready hr).2.2.2.1,
    (h.ready hr).2.2.2.2.1, rfl⟩
  pendTime := h.pendTime
  pend := h.pend
  gone := h.gone
  freeze hf := ⟨(h.freeze hf).1, rfl, (h.freeze hf).2.2⟩

theorem osSchedTaskEnQueue_stopRunning : (k.osSchedTaskEnQueue c t).setStatus t stopRunning =
    (k.setStatus t stopRunning).osSchedTaskEnQueue c t := by
  simp only [osSchedTaskEnQueue, enterPriQueue]
  by_cases hi : (k.taskCB t).taskID = k.idleTaskID
  · simp [hi, setStatus, modifyTCB, stopRunning]
  · by_cases hs : (k.taskCB t).timeSlice > c.schedTimeSliceMin
    · simp [hi, hs, setStatus, modifyTCB, stopRunning, osSchedPriQueueEnHead, listAdd, markPriQueue]
    · simp [hi, hs, setStatus, modifyTCB, stopRunning, osSchedPriQueueEnTail, listTailInsert,
        markPriQueue]

theorem InvWith.putAside (h : InvWith c pm (some t) k) (ht : t ≤ c.taskMaxNum)
    (hd : (k.status t).delay ∨ (k.status t).pendTime →
      DeadlineOk c (k.taskCB t).startTime (k.taskCB t).waitTimes) :
    InvWith c pm none ((putAside c k t).setStatus t stopRunning) := by
  rcases ht.lt_or_eq with hlt | rfl
  · obtain ⟨o, ho, hok⟩ := h.task t hlt
    have hst := hok.status
    have hpl := hok.placed
    have hopen := (h.around hlt).change_run none fun u hne => by simp [hne.symm]
    have hfz : (k.status t).unused = false → (k.status t).freeze = false := fun hu =>
      hst.freeze_eq_false (.inr (.inl ((hok.running hu).mpr rfl)))
    simp only [Sched.putAside]
    split_ifs with hw hb
    · -- it waits for a time
      simp only [Bool.or_eq_true] at hw
      have hu : (k.status t).unused = false := by
        rcases hw with hw | hw
        · exact (hok.of_pend (hst.pendTime hw)).2.2.1
        · exact (hok.of_delay hw).2.2.1
      have hrun := (hok.running hu).mpr rfl
      have hsort : t ∉ k.sortLink := by simp [hok.linked, hrun]
      refine ((hopen.osAdd2SortLink hsort _ _).setStatus _).close ⟨o, ho, ?_⟩
      have hne := hd hw.symm
      constructor <;> simp [osAdd2SortLink_taskCB, stopRunning, hok.id, hok.priority,
        mem_osAdd2SortLink, osAdd2SortLink_same.idleTaskID]
      · exact hst.stopRunning
      · exact hpl.congr rfl rfl rfl rfl rfl
      · exact ⟨hw.symm, hfz hu⟩
      · exact fun _ => ⟨fun _ => hw.symm, fun _ => hne⟩
      · exact hok.freeze
      · exact hok.idle
    · -- it does not wait
      simp only [Bool.not_eq_true', Bool.or_eq_false_iff] at hb
      obtain ⟨⟨⟨hpend, hsusp⟩, hexit⟩, hunused⟩ := hb
      have hrun := (hok.running hunused).mpr rfl
      have hready := hok.not_ready_of_running hrun
      rw [osSchedTaskEnQueue_stopRunning]
      refine (hopen.setStatus stopRunning).osSchedTaskEnQueue ?_
      exact {
        id := by simp [hok.id]
        priority := by simp [hok.priority]
        ready := by simpa [stopRunning] using hready
        running := by simp [stopRunning]
        exit := by simpa [stopRunning] using hexit
        unused := by simpa [stopRunning] using hunused
        freeze := by simpa [stopRunning] using hfz hunused
        response := by simpa [hrun] using hok.response hunused
        sortLink := by simp [hok.linked, hrun]
        run := by simp
        nowhere := hok.nowhere hready hpend hunused ▸ ho
        idle := fun e => by simpa using (hok.idle e).2.2.2.2.2 }
    · -- it waits without a time, is suspended, or has finished
      simp only [Bool.or_eq_true, not_or] at hw
      refine (hopen.setStatus _).close ⟨o, ho, ?_⟩
      constructor <;> simp [stopRunning, hok.id, hok.priority]
      · exact hst.stopRunning
      · exact hpl.congr rfl rfl rfl rfl rfl
      · simp [hok.linked, hw.1, hw.2]
      · simpa [hw.1, hw.2] using hok.response
      · exact hok.freeze
      · exact hok.idle
  · -- the spare block stands in for a deleted task
    have hsp := h.spare
    have hput : putAside c k c.taskMaxNum = k := by
      simp only [Sched.putAside, hsp.pendTime, hsp.delay, hsp.unused]
      simp
    rw [hput]
    refine ⟨h.linked.congr rfl rfl rfl, fun u hu => ?_, ?_, h.asserted⟩
    · have hne : u ≠ c.taskMaxNum := hu.ne
      exact (h.task u hu).congr (by simp [hne]) (fun _ => Iff.rfl) Iff.rfl Iff.rfl
        (by simp [hne.symm])
    · constructor <;> simp [stopRunning, hsp.unused, hsp.ready, hsp.pend, hsp.delay, hsp.pendTime]

theorem putAside_same : Same k (putAside c k t) := by
  simp only [putAside]
  split_ifs
  · exact osAdd2SortLink_same
  · exact osSchedTaskEnQueue_same
  · exact .refl k

theorem putAside_keeps : ((putAside c k t).status t).running = (k.status t).running ∧
    ((putAside c k t).status t).unused = (k.status t).unused ∧
    ((putAside c k t).taskCB t).startTime = (k.taskCB t).startTime := by
  simp only [putAside]
  split_ifs
  · simp [osAdd2SortLink_taskCB]
  · obtain ⟨slice, hcb⟩ := osSchedTaskEnQueue_taskCB (c := c) (k := k) (t := t)
    simp [hcb, enqueued]
  · exact ⟨rfl, rfl, rfl⟩

/-! ## The switch -/

/-- The moment of a switch at which no task is running. -/
def parked (c : Config) (k : Sched) (currTime : ℕ) : Sched :=
  (putAside c (k.osTimeSliceUpdate k.runTask currTime) k.runTask).setStatus k.runTask stopRunning

variable {currTime : ℕ}

theorem parked_same : Same k (parked c k currTime) :=
  .trans (.trans (.modifyTCB ..) putAside_same) (.setStatus ..)

/-- When the deadline of the running task, if it waits for one, can be represented. -/
def SwitchOk (c : Config) (k : Sched) (currTime : ℕ) : Prop :=
  (k.status k.runTask).delay ∨ (k.status k.runTask).pendTime →
    DeadlineOk c currTime (k.taskCB k.runTask).waitTimes

theorem SchedInv.invWith_parked (h : SchedInv c pm k) (hd : SwitchOk c k currTime) :
    InvWith c pm none (parked c k currTime) := by
  refine h.1.osTimeSliceUpdate.putAside h.2.2 fun hw => ?_
  simp only [osTimeSliceUpdate, status, modifyTCB_taskCB, update_self] at hw ⊢
  exact hd hw

/-- The task that is switched away from stops running before the new one is dispatched, also when
the two are the same. -/
theorem switchTo_eq (hr : u = t → (k.status u).running) :
    k.switchTo u t = (({ k.setStatus u stopRunning with newTask := t }).dispatch t
      (k.taskCB u).startTime, decide (u ≠ t)) := by
  unfold switchTo
  split_ifs with hne
  · simp [hne]
    rfl
  · simp only [not_not] at hne
    subst hne
    have hcb : { k.taskCB u with taskStatus := { k.status u with running := true } } =
        k.taskCB u := by
      simp only [← hr rfl]
    have hk : (({ k.setStatus u stopRunning with newTask := u }).setStatus u fun s =>
        { s with running := true }).modifyTCB u (fun cb =>
          { cb with startTime := (k.taskCB u).startTime }) = { k with newTask := u } := by
      simp only [setStatus, modifyTCB, stopRunning, update_self, update_idem]
      rw [hcb, update_eq_self]
    simp only [dispatch, hk]
    simp

def topTask (c : Config) (k : Sched) (currTime : ℕ) : TaskID :=
  Sched.osGetTopTask c (parked c k currTime)

theorem parked_unused :
    ((parked c k currTime).status k.runTask).unused = (k.status k.runTask).unused := by
  simp [parked, stopRunning, putAside_keeps.2.1, osTimeSliceUpdate]

theorem osSchedTaskSwitch_eq
    (hr : k.runTask = topTask c k currTime → (k.status k.runTask).running) :
    osSchedTaskSwitch c k currTime =
      (({ parked c k currTime with newTask := topTask c k currTime }).dispatch
        (topTask c k currTime) currTime, decide (k.runTask ≠ topTask c k currTime)) := by
  have hstart : ((putAside c (k.osTimeSliceUpdate k.runTask currTime) k.runTask).taskCB
      k.runTask).startTime = currTime := by
    rw [putAside_keeps.2.2]
    simp [osTimeSliceUpdate]
  have h := switchTo_eq (k := putAside c (k.osTimeSliceUpdate k.runTask currTime) k.runTask)
    fun e => by
      rw [putAside_keeps.1]
      simpa [osTimeSliceUpdate] using hr e
  rw [hstart] at h
  exact h

/-- A switch is the moment without a running task, followed by the dispatch of the top task. -/
theorem SchedInv.halPendSV_eq (h : SchedInv c pm k) (hd : SwitchOk c k currTime) :
    halPendSV c k currTime =
      { ({ parked c k currTime with newTask := topTask c k currTime }).dispatch
          (topTask c k currTime) currTime with runTask := topTask c k currTime } := by
  have hidle : (parked c k currTime).idleTaskID < c.taskMaxNum := by
    rw [parked_same.idleTaskID]
    exact h.2.1
  obtain ⟨hlt, -, -, -, -, -, hunused⟩ := (h.invWith_parked hd).osGetTopTask hidle
  have hrun : k.runTask = topTask c k currTime → (k.status k.runTask).running := fun e => by
    obtain ⟨o, ho, hok⟩ := h.1.task k.runTask (e ▸ hlt)
    refine (hok.running ?_).mpr rfl
    rw [← parked_unused, e]
    exact hunused
  unfold halPendSV
  rw [osSchedTaskSwitch_eq hrun]
  by_cases he : k.runTask = topTask c k currTime
  · generalize hx : ({ parked c k currTime with newTask := topTask c k currTime }).dispatch
      (topTask c k currTime) currTime = x
    have hr : x.runTask = topTask c k currTime := by
      rw [← hx, dispatch_same.runTask, ← he]
      exact parked_same.runTask
    simp [he, ← hr]
  · simp only [ne_eq, he, not_false_eq_true, decide_true, if_true]
    rw [dispatch_newTask]

theorem InvWith.osGetTopTask_priority (h : InvWith c pm run k) (ht : t < c.taskMaxNum)
    (hr : (k.status t).ready) :
    (k.taskCB (Sched.osGetTopTask c k)).priority ≤ (k.taskCB t).priority := by
  obtain ⟨o, ho, hok⟩ := h.task t ht
  have hmem : t ≠ k.idleTaskID → t ∈ k.lists (.priQueueList (k.taskCB t).priority) := fun hne =>
    (hok.place_of_ready hr hne ▸ ho).mem
  rcases h.linked.osGetTopTask with ⟨htop, hempty⟩ | ⟨p, hp, hm, hmin⟩
  · by_cases hi : t = k.idleTaskID
    · rw [htop, hi]
    · simpa [hempty _ hok.priority] using hmem hi
  · obtain ⟨o', ho', hok'⟩ := h.task _ (h.linked.bound _ _ hm)
    have hpl := hok'.placed
    rw [ho'.eq hm] at hpl
    rw [hpl.2.2]
    by_cases hi : t = k.idleTaskID
    · rw [(hok.idle hi).2.2.2.2.2]
      exact hp
    · by_contra hlt
      simpa [hmin _ (not_le.mp hlt)] using hmem hi

structure Switched (c : Config) (k : Sched) : Prop where
  newTask : k.newTask = k.runTask
  lt : k.runTask < c.taskMaxNum
  unused : (k.status k.runTask).unused = false
  priority : ∀ t < c.taskMaxNum, (k.status t).ready →
    (k.taskCB k.runTask).priority ≤ (k.taskCB t).priority

theorem InvWith.dispatch_top {scheduled : Bool} (h : InvWith c pm none k)
    (hi : k.idleTaskID < c.taskMaxNum) (hn : k.newTask = Sched.osGetTopTask c k)
    (hk : k' = { k.dispatch (Sched.osGetTopTask c k) startTime with
      runTask := Sched.osGetTopTask c k
      taskScheduled := scheduled }) : SchedInv c pm k' ∧ Switched c k' := by
  subst hk
  obtain ⟨hlt, hq, hp, hd, hs, hx, hu⟩ := h.osGetTopTask hi
  have hinv := h.dispatch (n := startTime) hlt hq hp hd hs hx hu
  refine ⟨⟨hinv.globals rfl rfl rfl rfl rfl hinv.asserted, ?_, hlt.le⟩, ?_⟩
  · exact dispatch_same.idleTaskID.trans_lt hi
  · refine ⟨dispatch_newTask.trans hn, hlt, ?_, fun t ht hr => ?_⟩
    · simpa [dispatch_taskCB] using hu
    · have hne : t ≠ Sched.osGetTopTask c k := by
        rintro rfl
        simp [dispatch_taskCB] at hr
      simp only [status, dispatch_taskCB_of_ne hne] at hr ⊢
      simpa [dispatch_taskCB] using h.osGetTopTask_priority ht hr

section

variable (h : SchedInv c pm k) (hd : SwitchOk c k currTime)
include h hd

theorem SchedInv.halPendSV :
    SchedInv c pm (halPendSV c k currTime) ∧ Switched c (halPendSV c k currTime) := by
  have hp := h.invWith_parked hd
  refine InvWith.dispatch_top (k := { parked c k currTime with newTask := topTask c k currTime })
    (hp.globals rfl rfl rfl rfl rfl hp.asserted) ?_ rfl (h.halPendSV_eq hd)
  exact parked_same.idleTaskID.trans_lt h.2.1

theorem halPendSV_taskScheduled :
    (Sched.halPendSV c k currTime).taskScheduled = k.taskScheduled := by
  rw [h.halPendSV_eq hd]
  exact dispatch_same.taskScheduled.trans parked_same.taskScheduled

end

/-- `OsSchedStart` dispatches the first task; until then the spare block stands for the running
one. -/
theorem SchedInv.osSchedStart (h : SchedInv c pm k) (hrun : k.runTask = c.taskMaxNum) :
    SchedInv c pm (osSchedStart c k currTime) ∧ Switched c (osSchedStart c k currTime) := by
  have hnone : InvWith c pm none k := by
    refine ⟨h.1.linked, fun t ht => ?_, h.1.spare, h.1.asserted⟩
    refine (h.1.task t ht).congr rfl (fun _ => Iff.rfl) Iff.rfl Iff.rfl ?_
    simp [hrun, ht.ne']
  have hk : Sched.osSchedStart c k currTime =
      { ({ k with newTask := osGetTopTask c k, runTask := osGetTopTask c k }).dispatch
          (osGetTopTask c k) currTime with
        runTask := osGetTopTask c k
        taskScheduled := true } := by
    generalize hx : ({ k with newTask := osGetTopTask c k, runTask := osGetTopTask c k }).dispatch
      (osGetTopTask c k) currTime = x
    have hr : x.runTask = osGetTopTask c k := by
      rw [← hx]
      exact dispatch_same.runTask
    rw [← hr, ← hx]
    rfl
  exact InvWith.dispatch_top
    (k := { k with newTask := osGetTopTask c k, runTask := osGetTopTask c k })
    (hnone.globals rfl rfl rfl rfl rfl h.1.asserted) h.2.1 rfl hk

end LiteOS.Kernel.Sched
