import LiteOS.Kernel.ReadyQueue

/-!
# The scheduler functions keep the invariant

One lemma for each function of `los_sched.c`: it is entered in a state that satisfies the invariant
and leaves such a state. Each proof opens the invariant around the task whose control block the
function writes, follows the writes, and closes the invariant with the new view of that task.
-/

namespace LiteOS.Kernel.Sched

open Lib Function Sched ListHead

variable {c : Config} {pm : Prop} {run run' : Option TaskID} {k k' : Sched} {t u : TaskID}
  {o : Option ListHead} {idle runs linked : Prop} {cb : TaskCB} {enqueue isPmMode : Bool}

/-! ## Where a task is -/

theorem CBOk.place_of_ready (h : CBOk pm idle runs t cb o linked)
    (hr : cb.taskStatus.ready) (hi : ¬idle) : o = some (.priQueueList cb.priority) := by
  have hs := h.status.ready hr
  have hp := h.placed
  cases o with
  | none => exact absurd (hp.2.1 hr) hi
  | some i => cases i <;> simp_all [Placed]

theorem Placed.congr {cb' : TaskCB} (h : Placed idle cb o)
    (hpend : cb'.taskStatus.pend = cb.taskStatus.pend)
    (hready : cb'.taskStatus.ready = cb.taskStatus.ready)
    (hunused : cb'.taskStatus.unused = cb.taskStatus.unused)
    (hjoin : cb'.taskStatus.joinable = cb.taskStatus.joinable) (hp : cb'.priority = cb.priority) :
    Placed idle cb' o := by
  cases o with
  | none => simpa only [Placed, hpend, hready, hunused] using h
  | some i => cases i <;> simpa only [Placed, hpend, hready, hunused, hjoin, hp] using h

section

variable (h : CBOk pm idle runs t cb o linked)
include h

theorem CBOk.place_of_pend (hp : cb.taskStatus.pend) : ∃ i, o = some i ∧ i.isWait := by
  have hr := h.status.ready
  have hg := h.status.gone
  have hpl := h.placed
  cases o with
  | none => simp [Placed, hp] at hpl
  | some i => cases i <;> simp_all [Placed, isWait]

theorem CBOk.nowhere (hr : cb.taskStatus.ready = false)
    (hp : cb.taskStatus.pend = false) (hu : cb.taskStatus.unused = false) : o = none := by
  have hpl := h.placed
  cases o with
  | none => rfl
  | some i => cases i <;> simp_all [Placed]

theorem CBOk.not_ready_of_running (hr : cb.taskStatus.running) : cb.taskStatus.ready = false := by
  cases hready : cb.taskStatus.ready with
  | false => rfl
  | true => simp [(h.status.ready hready).2.2.2.2.2] at hr

end

/-- A task that waits for nothing and is not ready: it runs, is suspended or has finished. -/
theorem CBOk.quiet (id : cb.taskID = t) (priority : cb.priority ≤ taskPriorityLowest)
    (ready : cb.taskStatus.ready = false) (pend : cb.taskStatus.pend = false)
    (delay : cb.taskStatus.delay = false) (pendTime : cb.taskStatus.pendTime = false)
    (freeze : cb.taskStatus.freeze = false) (response : cb.responseTime = sortLinkInvalidTime)
    (running : cb.taskStatus.running ↔ runs)
    (unused : cb.taskStatus.unused = false) (hlinked : ¬linked)
    (hidle : idle → cb.taskStatus.suspend = false ∧ cb.taskStatus.exit = false ∧
      cb.priority = taskPriorityLowest) : CBOk pm idle runs t cb none linked where
  id := id
  priority := priority
  status := by constructor <;> simp [ready, pend, delay, pendTime, freeze]
  placed := by simp [Placed, ready, pend, unused]
  linked := by simp [hlinked, delay, pendTime]
  response _ := by simp [response, delay, pendTime]
  running _ := running
  live _ := unused
  freeze hf := by simp [freeze] at hf
  idle hi := by simpa [pend, delay, unused] using hidle hi

/-- An unfinished task that waits for nothing and is in no list: it runs, is suspended, or is about
to be enqueued. -/
structure Detached (run : Option TaskID) (k : Sched) (t : TaskID) : Prop where
  id : (k.taskCB t).taskID = t
  priority : (k.taskCB t).priority ≤ taskPriorityLowest
  ready : (k.status t).ready = false
  pend : (k.status t).pend = false
  delay : (k.status t).delay = false
  pendTime : (k.status t).pendTime = false
  exit : (k.status t).exit = false
  unused : (k.status t).unused = false
  freeze : (k.status t).freeze = false
  running : (k.status t).running ↔ run = some t
  response : (k.taskCB t).responseTime = sortLinkInvalidTime
  sortLink : t ∉ k.sortLink
  nowhere : k.lists.At t none
  idle : t = k.idleTaskID →
    (k.status t).suspend = false ∧ (k.taskCB t).priority = taskPriorityLowest

theorem Detached.taskOk (h : Detached run k t) : TaskOk pm run k t :=
  ⟨none, h.nowhere, .quiet h.id h.priority h.ready h.pend h.delay h.pendTime h.freeze
    h.response h.running h.unused h.sortLink
    fun hi => ⟨(h.idle hi).1, h.exit, (h.idle hi).2⟩⟩

theorem Detached.runnable (h : Detached run k t) (hr : (k.status t).running = false) :
    Runnable run k t where
  id := h.id
  priority := h.priority
  ready := h.ready
  running := hr
  exit := h.exit
  unused := h.unused
  freeze := h.freeze
  response := h.response
  sortLink := h.sortLink
  run e := by simpa [hr] using h.running.mpr e
  nowhere := h.nowhere
  idle hi := (h.idle hi).2

structure SameBits (s s' : TaskStatus) : Prop where
  unused : s'.unused = s.unused
  suspend : s'.suspend = s.suspend
  ready : s'.ready = s.ready
  pend : s'.pend = s.pend
  running : s'.running = s.running
  delay : s'.delay = s.delay
  pendTime : s'.pendTime = s.pendTime
  exit : s'.exit = s.exit
  freeze : s'.freeze = s.freeze
  joinable : s'.joinable = s.joinable

theorem SameBits.refl (s : TaskStatus) : SameBits s s :=
  ⟨rfl, rfl, rfl, rfl, rfl, rfl, rfl, rfl, rfl, rfl⟩

theorem CBOk.detached (h : CBOk pm (t = k.idleTaskID) (run = some t) t (k.taskCB t) o linked)
    (hready : (k.status t).ready = false) (hexit : (k.status t).exit = false)
    (hunused : (k.status t).unused = false) (hidle : t ≠ k.idleTaskID)
    (hid : (k'.taskCB t).taskID = (k.taskCB t).taskID)
    (hp : (k'.taskCB t).priority = (k.taskCB t).priority)
    (hresp : (k'.taskCB t).responseTime = sortLinkInvalidTime) (hs : SameBits { k.status t with
      suspend := (k'.status t).suspend
      pend := false
      delay := false
      pendTime := false
      freeze := false } (k'.status t)) (hsort : t ∉ k'.sortLink) (hat : k'.lists.At t none)
    (he : k'.idleTaskID = k.idleTaskID) : Detached run k' t where
  id := hid.trans h.id
  priority := hp ▸ h.priority
  ready := hs.ready.trans hready
  pend := hs.pend
  delay := hs.delay
  pendTime := hs.pendTime
  exit := hs.exit.trans hexit
  unused := hs.unused.trans hunused
  freeze := hs.freeze
  running := by
    rw [hs.running]
    exact h.running hunused
  response := hresp
  sortLink := hsort
  nowhere := hat
  idle e := absurd (e.trans he) hidle

/-- The wake-up functions end like this: the task is enqueued or left alone. -/
theorem Around.release (h : Around c pm run t k) (hd : Detached run k t)
    (he : enqueue → (k.status t).running = false) :
    InvWith c pm run (if enqueue then k.osSchedTaskEnQueue c t else k) := by
  split_ifs with hq
  · exact h.osSchedTaskEnQueue (hd.runnable (he hq))
  · exact h.close hd.taskOk

/-! ## `OsSchedTaskDeQueue` -/

theorem osSchedTaskDeQueue_taskCB : (k.osSchedTaskDeQueue t).taskCB t =
    { k.taskCB t with taskStatus := { k.status t with ready := false } } := by
  unfold osSchedTaskDeQueue
  split_ifs with hr hi
  · simp [osSchedPriQueueDelete]
  · simp
  · have hs : { k.status t with ready := false } = k.status t := by
      cases hst : k.status t
      simp_all
    rw [hs]

theorem osSchedTaskDeQueue_taskCB_of_ne (hne : u ≠ t) :
    (k.osSchedTaskDeQueue t).taskCB u = k.taskCB u := by
  unfold osSchedTaskDeQueue
  split_ifs <;> simp [osSchedPriQueueDelete, hne]

@[simp] theorem osSchedTaskDeQueue_sortLink : (k.osSchedTaskDeQueue t).sortLink = k.sortLink := by
  unfold osSchedTaskDeQueue
  split_ifs <;> rfl

theorem osSchedTaskDeQueue_same : Same k (k.osSchedTaskDeQueue t) := by
  unfold osSchedTaskDeQueue
  split_ifs <;> exact ⟨rfl, rfl, rfl, rfl, rfl⟩

/-- Where `OsSchedTaskDeQueue` expects a task: on the queue of its priority if it is ready, and in
no list if it is not ready or idles. -/
def Queued (k : Sched) (t : TaskID) : Prop :=
  k.lists.At t (if (k.status t).ready ∧ t ≠ k.idleTaskID then
    some (.priQueueList (k.taskCB t).priority) else none)

theorem Around.osSchedTaskDeQueue (h : Around c pm run t k) (hid : (k.taskCB t).taskID = t)
    (hp : (k.taskCB t).priority ≤ taskPriorityLowest) (hq : Queued k t) :
    Around c pm run t (k.osSchedTaskDeQueue t) := by
  unfold Sched.osSchedTaskDeQueue
  split_ifs with hr hi
  · refine (h.osSchedPriQueueDelete hp fun q hne hm => hne ?_).setStatus _
    rw [Queued, if_pos ⟨hr, fun e => hi (hid.trans e)⟩] at hq
    simpa [eq_comm] using hq.eq hm
  · exact h.setStatus _
  · exact h

theorem Queued.osSchedTaskDeQueue_at (hn : k.lists.Nodup) (hid : (k.taskCB t).taskID = t)
    (hq : Queued k t) : (k.osSchedTaskDeQueue t).lists.At t none := by
  unfold osSchedTaskDeQueue
  split_ifs with hr hi
  · exact Rings.At.unlink hn
  · rw [Queued, if_neg fun e => e.2 (hid.symm.trans (not_not.mp hi))] at hq
    exact hq
  · rw [Queued, if_neg fun e => hr e.1] at hq
    exact hq

theorem CBOk.queued (ho : k.lists.At t o)
    (hok : CBOk pm (t = k.idleTaskID) runs t (k.taskCB t) o linked)
    (hp : (k.status t).pend = false) (hu : (k.status t).unused = false) : Queued k t := by
  unfold Queued
  split_ifs with hr
  · exact hok.place_of_ready hr.1 hr.2 ▸ ho
  · have hpl := hok.placed
    cases o with
    | none => exact ho
    | some i => cases i <;> simp_all [Placed]

/-! ## Waiting -/

/-- The running task executes its own code: it is a created task other than the idle task, and its
status does not say that it waits, is suspended or has finished. -/
structure Executing (c : Config) (k : Sched) : Prop where
  lt : k.runTask < c.taskMaxNum
  notIdle : k.runTask ≠ k.idleTaskID
  pend : (k.status k.runTask).pend = false
  delay : (k.status k.runTask).delay = false
  suspend : (k.status k.runTask).suspend = false
  exit : (k.status k.runTask).exit = false
  unused : (k.status k.runTask).unused = false

variable {i : ListHead}

theorem isWait_ne_priQueueList (hi : i.isWait) (p : ℕ) : i ≠ .priQueueList p := by
  rintro rfl
  simp [isWait] at hi

theorem Placed.of_pend (hi : i.isWait) (hp : cb.taskStatus.pend) : Placed idle cb (some i) := by
  cases i <;> simp_all [Placed, isWait]

theorem InvWith.running (h : InvWith c pm (some k.runTask) k) (he : Executing c k) :
    k.lists.At k.runTask none ∧ (k.status k.runTask).running ∧
      (k.status k.runTask).ready = false ∧ (k.status k.runTask).pendTime = false ∧
      (k.status k.runTask).freeze = false ∧
      (k.taskCB k.runTask).responseTime = sortLinkInvalidTime ∧ k.runTask ∉ k.sortLink := by
  obtain ⟨o, ho, hok⟩ := h.task _ he.lt
  have hrun := (hok.running he.unused).mpr rfl
  have hready := hok.not_ready_of_running hrun
  have hpt := hok.status.pendTime_eq_false he.pend
  have hfz := hok.status.freeze_eq_false (.inr (.inl hrun))
  refine ⟨hok.nowhere hready he.pend he.unused ▸ ho, hrun, hready, hpt, hfz, ?_, ?_⟩
  · simpa [hrun] using hok.response he.unused
  · simp [hok.linked, hrun]

variable {n : ℕ}

theorem osSchedTaskWait_taskCB : ∃ wait,
    (k.osSchedTaskWait i n).taskCB k.runTask = { k.taskCB k.runTask with
      waitTimes := wait
      taskStatus := { k.status k.runTask with
        pend := true
        pendTime := decide (n ≠ losWaitForever) || (k.status k.runTask).pendTime } } := by
  unfold osSchedTaskWait
  split_ifs with ht
  · exact ⟨n, by simp [ht]⟩
  · exact ⟨(k.taskCB k.runTask).waitTimes, by simp [ht]⟩

theorem osSchedTaskWait_taskCB_of_ne (hne : u ≠ k.runTask) :
    (k.osSchedTaskWait i n).taskCB u = k.taskCB u := by
  unfold osSchedTaskWait
  split_ifs <;> simp [hne]

variable {ticks tick priority : ℕ}

@[simp] theorem osSchedTaskWait_lists :
    (k.osSchedTaskWait i ticks).lists = k.lists.addTail i k.runTask := by
  unfold osSchedTaskWait
  split_ifs <;> rfl

@[simp] theorem osSchedTaskWait_sortLink : (k.osSchedTaskWait i ticks).sortLink = k.sortLink := by
  unfold osSchedTaskWait
  split_ifs <;> rfl

theorem osSchedTaskWait_same : Same k (k.osSchedTaskWait i n) := by
  unfold osSchedTaskWait
  split_ifs <;> exact ⟨rfl, rfl, rfl, rfl, rfl⟩

section

variable (h : InvWith c pm (some k.runTask) k) (he : Executing c k)
include h he

theorem InvWith.osSchedTaskWait
    (hi : i.isWait) : InvWith c pm (some k.runTask) (k.osSchedTaskWait i ticks) := by
  obtain ⟨hat, hrun, hready, hpt, hfz, hresp, hsort⟩ := h.running he
  obtain ⟨_, _, hok⟩ := h.task _ he.lt
  have hw : Around c pm (some k.runTask) k.runTask (k.osSchedTaskWait i ticks) := by
    have hlink := ((h.around he.lt).setStatus fun s => { s with pend := true }).listTailInsert
      (isWait_ne_priQueueList hi) (hat.notMem i)
    unfold Sched.osSchedTaskWait
    split_ifs
    · exact (hlink.setStatus _).modifyTCB _
    · exact hlink
  obtain ⟨wait, hcb⟩ := osSchedTaskWait_taskCB
  refine hw.close ⟨some i, ?_, ?_⟩
  · rw [osSchedTaskWait_lists]
    exact hat.addTail
  · rw [hcb, osSchedTaskWait_sortLink, osSchedTaskWait_same.idleTaskID]
    refine ⟨hok.id, hok.priority, ?_, .of_pend hi rfl, ?_, ?_, ?_, hok.live, ?_, ?_⟩
    · constructor <;> simp [hready, he.delay, he.exit, he.unused, hfz]
    · simp [hsort, hrun]
    · simp [hresp, hrun]
    · simp [hrun]
    · simp [hfz]
    · exact fun e => absurd e he.notIdle

theorem InvWith.osSchedDelay : InvWith c pm (some k.runTask) (k.osSchedDelay k.runTask tick) := by
  obtain ⟨hat, hrun, hready, hpt, hfz, hresp, hsort⟩ := h.running he
  obtain ⟨_, _, hok⟩ := h.task _ he.lt
  refine (((h.around he.lt).setStatus _).modifyTCB _).close ⟨none, hat, ?_⟩
  refine ⟨by simp [hok.id], by simp [hok.priority], ?_, ?_, ?_, ?_, ?_, ?_, ?_, ?_⟩
  · constructor <;> simp [hready, he.pend, he.exit, he.unused, hfz, hpt]
  · simp [Placed, he.pend, hready, he.unused]
  · simp [hsort, hrun]
  · simp [hresp, hrun]
  · simp [hrun]
  · simp [he.unused]
  · simp [hfz]
  · exact fun e => absurd e he.notIdle

end

/-! ## Waking -/

theorem osDeleteSortLink_taskCB : (k.osDeleteSortLink t).taskCB t =
    { k.taskCB t with responseTime := sortLinkInvalidTime } := by
  unfold osDeleteSortLink
  split_ifs with hr
  · simp [osDeleteNodeSortLink]
  · simp only [not_not] at hr
    rw [← hr]

theorem osDeleteSortLink_taskCB_of_ne (hne : u ≠ t) :
    (k.osDeleteSortLink t).taskCB u = k.taskCB u := by
  unfold osDeleteSortLink
  split_ifs <;> simp [osDeleteNodeSortLink, hne]

theorem osDeleteSortLink_sortLink : (k.osDeleteSortLink t).sortLink =
    if (k.taskCB t).responseTime ≠ sortLinkInvalidTime then k.sortLink.erase t else k.sortLink := by
  unfold osDeleteSortLink
  split_ifs <;> rfl

@[simp] theorem osDeleteSortLink_lists : (k.osDeleteSortLink t).lists = k.lists := by
  unfold osDeleteSortLink
  split_ifs <;> rfl

theorem osDeleteSortLink_same : Same k (k.osDeleteSortLink t) := by
  unfold osDeleteSortLink
  split_ifs <;> exact ⟨rfl, rfl, rfl, rfl, rfl⟩

/-- `OsDeleteSortLink` trusts the response time, and the response time tells whether the node is
linked. -/
theorem CBOk.notMem_osDeleteSortLink
    (h : CBOk pm idle runs t (k.taskCB t) o (t ∈ k.sortLink)) (hn : k.sortLink.Nodup)
    (hu : (k.status t).unused = false) : t ∉ (k.osDeleteSortLink t).sortLink := by
  unfold osDeleteSortLink
  split_ifs with hr
  · simp [osDeleteNodeSortLink, hn.mem_erase_iff]
  · rw [h.linked]
    intro hl
    exact hr ((h.response hu).mpr ⟨hl.1, hl.2.1⟩)

theorem stopPending_taskCB : (k.stopPending t).taskCB t = { k.taskCB t with
    responseTime :=
      if (k.status t).pendTime then sortLinkInvalidTime else (k.taskCB t).responseTime
    taskStatus := { k.status t with pend := false, pendTime := false } } := by
  unfold stopPending
  cases hp : (k.status t).pendTime <;> simp [hp, osDeleteSortLink_taskCB]

theorem stopPending_taskCB_of_ne (hne : u ≠ t) : (k.stopPending t).taskCB u = k.taskCB u := by
  simp only [stopPending]
  split_ifs <;> simp [hne, osDeleteSortLink_taskCB_of_ne]

@[simp] theorem stopPending_lists : (k.stopPending t).lists = k.lists.unlink t := by
  simp only [stopPending]
  split_ifs
  · exact osDeleteSortLink_lists
  · rfl

theorem stopPending_sortLink : (k.stopPending t).sortLink =
    if (k.status t).pendTime then (k.osDeleteSortLink t).sortLink else k.sortLink := by
  cases hp : (k.status t).pendTime <;> simp [stopPending, osDeleteSortLink_sortLink, hp]

theorem stopPending_same : Same k (k.stopPending t) := by
  have hdel := (Same.listDelete k t).trans (.setStatus _ t fun s => { s with pend := false })
  simp only [stopPending]
  split_ifs
  · exact hdel.trans (osDeleteSortLink_same.trans (.setStatus ..))
  · exact hdel

section

variable (h : CBOk pm idle runs t cb o linked)
include h

theorem CBOk.of_pend (hp : cb.taskStatus.pend) :
    cb.taskStatus.delay = false ∧ cb.taskStatus.exit = false ∧ cb.taskStatus.unused = false ∧
      cb.taskStatus.ready = false ∧ ¬idle := by
  have hr := h.status.ready
  have hg := h.status.gone
  refine ⟨h.status.pend hp, ?_, ?_, ?_, fun hi => by simpa [hp] using (h.idle hi).1⟩
  · cases he : cb.taskStatus.exit <;> simp_all
  · cases he : cb.taskStatus.unused <;> simp_all
  · cases he : cb.taskStatus.ready <;> simp_all

theorem CBOk.of_delay (hd : cb.taskStatus.delay) :
    cb.taskStatus.pend = false ∧ cb.taskStatus.exit = false ∧ cb.taskStatus.unused = false ∧
      cb.taskStatus.ready = false ∧ cb.taskStatus.pendTime = false ∧ ¬idle := by
  have hr := h.status.ready
  have hg := h.status.gone
  have hp := h.status.pend
  have hpt := h.status.pendTime
  refine ⟨?_, ?_, ?_, ?_, ?_, fun hi => by simpa [hd] using (h.idle hi).2.1⟩
  · cases he : cb.taskStatus.pend <;> simp_all
  · cases he : cb.taskStatus.exit <;> simp_all
  · cases he : cb.taskStatus.unused <;> simp_all
  · cases he : cb.taskStatus.ready <;> simp_all
  · cases he : cb.taskStatus.pendTime <;> simp_all

/-- A created task that is not frozen has a response time only while its node is linked. -/
theorem CBOk.linked_of_response
    (hu : cb.taskStatus.unused = false) (hf : cb.taskStatus.freeze = false)
    (hr : cb.responseTime ≠ sortLinkInvalidTime) : linked := by
  obtain ⟨hwait, hrun⟩ := (h.response hu).mp hr
  exact h.linked.mpr ⟨hwait, hrun, hf⟩

theorem CBOk.not_queued (ho : k.lists.At t o)
    (hp : cb.taskStatus.pend) (p : ℕ) : t ∉ k.lists (.priQueueList p) := by
  obtain ⟨i, rfl, hi⟩ := h.place_of_pend hp
  exact fun hm => isWait_ne_priQueueList hi p (by simpa using ho.eq hm)

end

theorem Around.stopPending (h : Around c pm run t k) (ht : TaskOk pm run k t)
    (hp : (k.status t).pend) (hf : (k.status t).freeze = false) :
    Around c pm run t (k.stopPending t) := by
  obtain ⟨o, ho, hok⟩ := ht
  have hd := (h.listDelete (hok.not_queued ho hp)).setStatus fun s => { s with pend := false }
  simp only [Sched.stopPending]
  split_ifs
  · refine (hd.osDeleteSortLink fun hr => ?_).setStatus _
    exact hok.linked_of_response (hok.of_pend hp).2.2.1 hf (by simpa using hr)
  · exact hd

theorem CBOk.notMem_stopPending
    (h : CBOk pm idle runs t (k.taskCB t) o (t ∈ k.sortLink)) (hn : k.sortLink.Nodup)
    (hp : (k.status t).pend) : t ∉ (k.stopPending t).sortLink := by
  obtain ⟨hdelay, -, hunused, -⟩ := h.of_pend hp
  rw [stopPending_sortLink]
  cases hpt : (k.status t).pendTime with
  | false => simpa [hdelay, hpt] using h.linked
  | true => exact h.notMem_osDeleteSortLink hn hunused

theorem InvWith.osSchedTaskWake (h : InvWith c pm run k) (ht : t < c.taskMaxNum)
    (hp : (k.status t).pend) (hf : (k.status t).freeze = false) :
    InvWith c pm run (k.osSchedTaskWake c t) := by
  have htask := h.task t ht
  have hstop := (h.around ht).stopPending htask hp hf
  obtain ⟨o, ho, hok⟩ := htask
  obtain ⟨hdelay, hexit, hunused, hready, hidle⟩ := hok.of_pend hp
  have hsort := hok.notMem_stopPending h.linked.sortNodup hp
  have hat : (k.stopPending t).lists.At t none := by
    rw [stopPending_lists]
    exact Rings.At.unlink h.linked.nodup
  have hcb := stopPending_taskCB (k := k) (t := t)
  have hresp : ((k.stopPending t).taskCB t).responseTime = sortLinkInvalidTime := by
    rw [hcb]
    cases hpt : (k.status t).pendTime with
    | true => rfl
    | false => simpa [hdelay, hpt] using hok.response hunused
  refine hstop.release (hok.detached hready hexit hunused hidle (by simp [hcb]) (by simp [hcb])
    hresp (by
      constructor <;> simp [hcb, hdelay, hf]) hsort hat
    stopPending_same.idleTaskID) fun hq => by simpa using (Bool.and_eq_true_iff.mp hq).2

theorem osSchedTaskWake_same : Same k (k.osSchedTaskWake c t) := by
  simp only [osSchedTaskWake]
  split_ifs
  · exact stopPending_same.trans osSchedTaskEnQueue_same
  · exact stopPending_same

/-! ## Timeouts -/

theorem osDeleteNodeSortLink_status : (k.osDeleteNodeSortLink t).status u = k.status u := by
  by_cases hu : u = t
  · subst hu
    simp [osDeleteNodeSortLink]
  · simp [osDeleteNodeSortLink, hu]

theorem InvWith.osSchedWakePendTimeTask (h : InvWith c pm run k) (ht : t ∈ k.sortLink) :
    InvWith c pm run (osSchedWakePendTimeTask c (k.osDeleteNodeSortLink t) t) := by
  have hlt := h.linked.sortBound t ht
  obtain ⟨o, ho, hok⟩ := h.task t hlt
  obtain ⟨hwait, hrun, hfreeze⟩ := hok.linked.mp ht
  have hdel := ((h.around hlt).osDeleteNodeSortLink ht).setStatus fun s =>
    { s with pend := false, pendTime := false, delay := false }
  have hsort : t ∉ k.sortLink.erase t := by simp [h.linked.sortNodup.mem_erase_iff]
  cases hp : (k.status t).pend with
  | true =>
    obtain ⟨hdelay, hexit, hunused, hready, hidle⟩ := hok.of_pend hp
    have hq := hok.not_queued ho hp
    simp only [Sched.osSchedWakePendTimeTask, osDeleteNodeSortLink_status, hp,
      if_true]
    refine (((hdel.setStatus _).listDelete hq).modifyTCB _).release (hok.detached hready hexit
      hunused hidle ?_ ?_ ?_ (by constructor <;> simp [osDeleteNodeSortLink, hfreeze]) hsort
      (Rings.At.unlink h.linked.nodup) rfl) fun _ => ?_ <;> simp [osDeleteNodeSortLink, hrun]
  | false =>
    -- a task that does not pend waits because it is delayed
    have hpt := hok.status.pendTime_eq_false hp
    have hdelay : (k.status t).delay := by simpa [hpt] using hwait
    obtain ⟨-, hexit, hunused, hready, -, hidle⟩ := hok.of_delay hdelay
    simp only [Sched.osSchedWakePendTimeTask, osDeleteNodeSortLink_status, hp, hdelay]
    refine hdel.release (hok.detached hready hexit hunused hidle ?_ ?_ ?_
      (by constructor <;> simp [osDeleteNodeSortLink, hfreeze]) hsort
      (hok.nowhere hready hp hunused ▸ ho) rfl) fun _ => ?_ <;> simp [osDeleteNodeSortLink, hrun]

theorem osSchedWakePendTimeTask_same : Same k (osSchedWakePendTimeTask c k t) := by
  simp only [osSchedWakePendTimeTask]
  split_ifs
  · refine .trans ?_ osSchedTaskEnQueue_same
    exact ⟨rfl, rfl, rfl, rfl, rfl⟩
  · exact .trans (.setStatus ..) osSchedTaskEnQueue_same
  · exact ⟨rfl, rfl, rfl, rfl, rfl⟩
  · exact .setStatus ..
  · exact .refl k

variable {currTime : ℕ}

theorem InvWith.scanTimerLoop (fuel : ℕ) (h : InvWith c pm run k) :
    InvWith c pm run (scanTimerLoop c currTime fuel k) := by
  induction fuel generalizing k with
  | zero => exact h
  | succ fuel ih =>
    unfold scanTimerLoop
    split
    · exact h
    · rename_i t rest hsort
      split_ifs
      · exact ih (h.osSchedWakePendTimeTask (by simp [hsort]))
      · exact h

theorem InvWith.osSchedScanTimerList (h : InvWith c pm run k) :
    InvWith c pm run (osSchedScanTimerList c k currTime) := h.scanTimerLoop _

theorem scanTimerLoop_same (fuel : ℕ) : Same k (scanTimerLoop c currTime fuel k) := by
  induction fuel generalizing k with
  | zero => exact .refl k
  | succ _ ih =>
    unfold scanTimerLoop
    split
    · exact .refl k
    · split_ifs
      · refine .trans (.trans ?_ osSchedWakePendTimeTask_same) ih
        exact ⟨rfl, rfl, rfl, rfl, rfl⟩
      · exact .refl k

/-! ## Writes that the invariant does not see -/

theorem CBOk.suspended {cb' : TaskCB} {linked' : Prop} (h : CBOk pm idle runs t cb o linked)
    (hsusp : idle ∨ cb.taskStatus.ready → cb'.taskStatus.suspend = cb.taskStatus.suspend)
    (hid : cb'.taskID = cb.taskID) (hp : cb'.priority = cb.priority)
    (hs : SameBits { cb.taskStatus with
      suspend := cb'.taskStatus.suspend
      freeze := cb'.taskStatus.freeze } cb'.taskStatus)
    (hfreeze : cb'.taskStatus.freeze → pm ∧ cb'.taskStatus.suspend ∧
      cb.taskStatus.running = false ∧ (cb.taskStatus.delay ∨ cb.taskStatus.pendTime))
    (hlinked : linked' ↔ (cb.taskStatus.delay ∨ cb.taskStatus.pendTime) ∧
      cb.taskStatus.running = false ∧ cb'.taskStatus.freeze = false)
    (hresp : cb.taskStatus.unused = false → (cb'.responseTime ≠ sortLinkInvalidTime ↔
      (cb.taskStatus.delay ∨ cb.taskStatus.pendTime) ∧
        cb.taskStatus.running = false)) : CBOk pm idle runs t cb' o linked' where
  id := hid.trans h.id
  priority := hp ▸ h.priority
  status := by
    have hst := h.status
    constructor <;> simp only [hs.ready, hs.pend, hs.delay, hs.exit, hs.unused, hs.running,
      hs.pendTime]
    · exact fun hr => hsusp (.inr hr) ▸ hst.ready hr
    · exact hst.pendTime
    · exact hst.pend
    · exact hst.gone
    · exact fun hf => (hfreeze hf).2
  placed := h.placed.congr hs.pend hs.ready hs.unused hs.joinable hp
  linked := by simpa only [hs.delay, hs.pendTime, hs.running] using hlinked
  response := by simpa only [hs.unused, hs.delay, hs.pendTime, hs.running] using hresp
  running := by simpa only [hs.unused, hs.running] using h.running
  live := by simpa only [hs.unused] using h.live
  freeze hf := (hfreeze hf).1
  idle hi := by
    simpa only [hs.pend, hs.delay, hsusp (.inl hi), hs.exit, hs.unused, hp] using h.idle hi

theorem CBOk.congr {cb' : TaskCB} (h : CBOk pm idle runs t cb o linked)
    (hid : cb'.taskID = cb.taskID) (hp : cb'.priority = cb.priority)
    (hr : cb'.responseTime = cb.responseTime) (hs : SameBits cb.taskStatus cb'.taskStatus) :
    CBOk pm idle runs t cb' o linked := by
  refine h.suspended (fun _ => hs.suspend) hid hp { hs with suspend := rfl, freeze := rfl }
    (fun hf => ?_) (hs.freeze ▸ h.linked) (hr ▸ h.response)
  rw [hs.freeze] at hf
  exact ⟨h.freeze hf, hs.suspend ▸ h.status.freeze hf⟩

theorem InvWith.modifyTCB (h : InvWith c pm run k) {f : TaskCB → TaskCB}
    (hid : (f (k.taskCB t)).taskID = (k.taskCB t).taskID)
    (hp : (f (k.taskCB t)).priority = (k.taskCB t).priority)
    (hr : (f (k.taskCB t)).responseTime = (k.taskCB t).responseTime)
    (hs : SameBits (k.status t) (f (k.taskCB t)).taskStatus) :
    InvWith c pm run (k.modifyTCB t f) where
  linked := h.linked.congr rfl rfl rfl
  task u hu := by
    obtain ⟨o, ho, hok⟩ := h.task u hu
    refine ⟨o, ho, ?_⟩
    by_cases hut : u = t
    · subst hut
      simpa using hok.congr hid hp hr hs
    · simpa [hut] using hok
  spare := by
    by_cases hut : c.taskMaxNum = t
    · subst hut
      have hsp := h.spare
      constructor <;> simp [hs.unused, hs.ready, hs.pend, hs.delay, hs.pendTime, hsp.unused,
        hsp.ready, hsp.pend, hsp.delay, hsp.pendTime]
    · simpa [hut] using h.spare
  asserted := h.asserted

theorem InvWith.osTimeSliceUpdate (h : InvWith c pm run k) :
    InvWith c pm run (k.osTimeSliceUpdate t currTime) :=
  h.modifyTCB rfl rfl rfl (.refl _)

/-! ## `OsSchedTaskExit` -/

theorem leaveList_taskCB (hs : StatusOk (k.status t)) : (k.leaveList t).taskCB t =
    { k.taskCB t with taskStatus := { k.status t with ready := false, pend := false } } := by
  unfold leaveList
  split_ifs with hr hp
  · rw [osSchedTaskDeQueue_taskCB]
    simp [(hs.ready hr).1]
  · simp [hr]
  · have hst : { k.status t with ready := false, pend := false } = k.status t := by
      cases hst : k.status t
      simp_all
    rw [hst]

theorem leaveList_sortLink : (k.leaveList t).sortLink = k.sortLink := by
  unfold leaveList
  split_ifs <;> simp

theorem leaveList_same : Same k (k.leaveList t) := by
  unfold leaveList
  split_ifs
  · exact osSchedTaskDeQueue_same
  · exact (Same.listDelete k t).trans (.setStatus ..)
  · exact .refl k

theorem Around.leaveList (h : Around c pm run t k) (ht : TaskOk pm run' k t)
    (hu : (k.status t).unused = false) :
    Around c pm run t (k.leaveList t) ∧ (k.leaveList t).lists.At t none := by
  obtain ⟨o, ho, hok⟩ := ht
  unfold Sched.leaveList
  split_ifs with hr hp
  · have hq := hok.queued ho (hok.status.ready hr).1 hu
    exact ⟨h.osSchedTaskDeQueue hok.id hok.priority hq,
      hq.osSchedTaskDeQueue_at h.linked.nodup hok.id⟩
  · exact ⟨(h.listDelete (hok.not_queued ho hp)).setStatus _, Rings.At.unlink h.linked.nodup⟩
  · simp only [Bool.not_eq_true] at hr hp
    exact ⟨h, hok.nowhere hr hp hu ▸ ho⟩

theorem osSchedTaskExit_taskCB (hs : StatusOk (k.status t)) :
    (k.osSchedTaskExit t).taskCB t = { k.taskCB t with
      responseTime :=
        if (k.status t).delay || (k.status t).pendTime then sortLinkInvalidTime
        else (k.taskCB t).responseTime
      taskStatus := { k.status t with
        ready := false
        pend := false
        delay := false
        pendTime := false
        exit := true } } := by
  have hcb := leaveList_taskCB hs
  simp only [osSchedTaskExit, status, hcb]
  split_ifs with hw
  · simp [osDeleteSortLink_taskCB, hcb]
  · simp only [Bool.or_eq_true, not_or] at hw
    simp [hcb, hw.1, hw.2]

theorem osSchedTaskExit_same : Same k (k.osSchedTaskExit t) := by
  simp only [osSchedTaskExit]
  split_ifs
  · exact (leaveList_same.trans (osDeleteSortLink_same.trans (.setStatus ..))).trans (.setStatus ..)
  · exact leaveList_same.trans (.setStatus ..)

theorem osSchedTaskExit_lists : (k.osSchedTaskExit t).lists = (k.leaveList t).lists := by
  simp only [osSchedTaskExit]
  split_ifs
  · exact osDeleteSortLink_lists
  · rfl

theorem InvWith.osSchedTaskExit (h : InvWith c pm run k) (ht : t < c.taskMaxNum)
    (hi : t ≠ k.idleTaskID) (hu : (k.status t).unused = false)
    (hf : (k.status t).freeze = false) : InvWith c pm run (k.osSchedTaskExit t) := by
  have htask := h.task t ht
  obtain ⟨hleave, hat⟩ := (h.around ht).leaveList htask hu
  obtain ⟨o, ho, hok⟩ := htask
  have hcb := osSchedTaskExit_taskCB hok.status
  have hexit : Around c pm run t (k.osSchedTaskExit t) := by
    simp only [Sched.osSchedTaskExit]
    split_ifs
    · refine ((hleave.osDeleteSortLink fun hr => ?_).setStatus _).setStatus _
      rw [leaveList_sortLink]
      exact hok.linked_of_response hu hf (by simpa [leaveList_taskCB hok.status] using hr)
    · exact hleave.setStatus _
  have hsort : t ∉ (k.osSchedTaskExit t).sortLink := by
    have hlc := leaveList_taskCB hok.status
    simp only [Sched.osSchedTaskExit, status, hlc]
    split_ifs with hw
    · have hdel := hok.notMem_osDeleteSortLink h.linked.sortNodup hu
      simpa [osDeleteSortLink_sortLink, hlc, leaveList_sortLink] using hdel
    · simp only [Bool.or_eq_true, not_or] at hw
      simp [leaveList_sortLink, hok.linked, hw.1, hw.2]
  refine hexit.close ⟨none, osSchedTaskExit_lists ▸ hat, ?_⟩
  rw [hcb, osSchedTaskExit_same.idleTaskID]
  refine .quiet hok.id hok.priority rfl rfl rfl rfl hf ?_ (hok.running hu) hu hsort
    fun e => absurd e hi
  split_ifs with hw
  · rfl
  · simp only [Bool.or_eq_true, not_or] at hw
    simpa [hw.1, hw.2] using hok.response hu

/-! ## Suspending and resuming -/

/-- A deadline other than the one value of the 64-bit clock that stands for "no deadline". -/
def DeadlineOk (c : Config) (startTime ticks : ℕ) : Prop :=
  (startTime + c.sysTickToCycle ticks) % 2 ^ 64 ≠ sortLinkInvalidTime

theorem osSchedFreezeTask_taskCB : (k.osSchedFreezeTask t).taskCB t =
    { k.taskCB t with taskStatus := { k.status t with freeze := true } } := by
  simp [osSchedFreezeTask, osDeleteSortLink_taskCB]

theorem osSchedFreezeTask_same : Same k (k.osSchedFreezeTask t) := by
  unfold osSchedFreezeTask
  exact osDeleteSortLink_same.trans ((Same.modifyTCB ..).trans (.setStatus ..))

theorem Around.osSchedFreezeTask (h : Around c pm run t k)
    (ht : (k.taskCB t).responseTime ≠ sortLinkInvalidTime → t ∈ k.sortLink) :
    Around c pm run t (k.osSchedFreezeTask t) := by
  unfold Sched.osSchedFreezeTask
  exact ((h.osDeleteSortLink ht).modifyTCB _).setStatus _

theorem InvWith.osSchedSuspend (h : InvWith c pm run k) (ht : t < c.taskMaxNum)
    (hi : t ≠ k.idleTaskID) (hu : (k.status t).unused = false) (hs : (k.status t).suspend = false)
    (hpm : isPmMode → (k.status t).delay ∨ (k.status t).pendTime →
      pm ∧ (k.status t).running = false) :
    InvWith c pm run (k.osSchedSuspend t isPmMode) := by
  obtain ⟨o, ho, hok⟩ := h.task t ht
  cases hr : (k.status t).ready with
  | true =>
    -- a ready task waits for nothing, so there is no timeout to freeze
    obtain ⟨hpend, hdelay, -, hexit, -, hrun⟩ := hok.status.ready hr
    have hpt := hok.status.pendTime_eq_false hpend
    have hfz := hok.status.freeze_eq_false (.inr (.inr ⟨hdelay, hpt⟩))
    have hq := hok.queued ho hpend hu
    have hdq := (h.around ht).osSchedTaskDeQueue hok.id hok.priority hq
    have hcb := osSchedTaskDeQueue_taskCB (k := k) (t := t)
    have hsusp : k.osSchedSuspend t isPmMode =
        (k.osSchedTaskDeQueue t).setStatus t fun s => { s with suspend := true } := by
      simp only [Sched.osSchedSuspend, hr, if_true, status, hcb]
      simp [hpt, hdelay]
    rw [hsusp]
    refine (hdq.setStatus _).close ⟨none, hq.osSchedTaskDeQueue_at h.linked.nodup hok.id, ?_⟩
    apply CBOk.quiet <;> simp [hcb, hok.id, hok.priority, hpend, hdelay, hpt, hfz]
    · simpa [hdelay, hpt] using hok.response hu
    · exact hok.running hu
    · exact hu
    · simp [hok.linked, hdelay, hpt]
    · exact fun e => absurd (e.trans osSchedTaskDeQueue_same.idleTaskID) hi
  | false =>
    by_cases hfreeze : (((k.status t).pendTime || (k.status t).delay) && isPmMode)
    · have hsusp : k.osSchedSuspend t isPmMode =
          (k.osSchedFreezeTask t).setStatus t fun s => { s with suspend := true } := by
        simp only [Sched.osSchedSuspend, hr, Bool.false_eq_true, if_false, hfreeze, if_true]
      simp only [Bool.and_eq_true, Bool.or_eq_true] at hfreeze
      obtain ⟨hwait, hmode⟩ := hfreeze
      obtain ⟨hp, hrun⟩ := hpm hmode hwait.symm
      have hsort := hok.notMem_osDeleteSortLink h.linked.sortNodup hu
      rw [hsusp]
      have hlink := hok.linked_of_response hu (hok.status.freeze_eq_false (.inl hs))
      refine (((h.around ht).osSchedFreezeTask hlink).setStatus _).close ⟨o, ?_, ?_⟩
      · exact (osDeleteSortLink_lists).symm ▸ ho
      · simp only [setStatus_taskCB, setStatus_idleTaskID, update_self, osSchedFreezeTask_taskCB,
          osSchedFreezeTask_same.idleTaskID]
        exact hok.suspended (by simp [hi, hr]) rfl rfl (.refl _)
          (fun _ => ⟨hp, rfl, hrun, hwait.symm⟩) (iff_of_false hsort (by simp)) hok.response
    · have hsusp : k.osSchedSuspend t isPmMode =
          k.setStatus t fun s => { s with suspend := true } := by
        simp only [Sched.osSchedSuspend, hr, Bool.false_eq_true, if_false, hfreeze]
      rw [hsusp]
      refine ((h.around ht).setStatus _).close ⟨o, ho, ?_⟩
      rw [setStatus_taskCB, update_self]
      exact hok.suspended (by simp [hi, hr]) rfl rfl (.refl _)
        (fun hf => ⟨hok.freeze hf, rfl, (hok.status.freeze hf).2⟩) hok.linked hok.response

theorem osSchedSuspend_same : Same k (k.osSchedSuspend t isPmMode) := by
  simp only [osSchedSuspend]
  split_ifs
  · exact osSchedTaskDeQueue_same.trans (osSchedFreezeTask_same.trans (.setStatus ..))
  · exact osSchedTaskDeQueue_same.trans (.setStatus ..)
  · exact osSchedFreezeTask_same.trans (.setStatus ..)
  · exact .setStatus ..

theorem dropTimeout_taskCB : (k.dropTimeout t).taskCB t = { k.taskCB t with
    responseTime := sortLinkInvalidTime
    taskStatus := { k.status t with delay := false, pendTime := false, pend := false } } := by
  simp only [dropTimeout]
  split_ifs <;> simp

theorem dropTimeout_sortLink : (k.dropTimeout t).sortLink = k.sortLink := by
  simp only [dropTimeout]
  split_ifs <;> rfl

theorem dropTimeout_same : Same k (k.dropTimeout t) := by
  simp only [dropTimeout]
  split_ifs <;> exact ⟨rfl, rfl, rfl, rfl, rfl⟩

/-- A frozen task whose time has passed is taken off its wait list. -/
theorem Around.dropTimeout (h : Around c pm run t k) (ht : TaskOk pm run' k' t)
    (hl : k.lists = k'.lists) (hp : (k.status t).pend = (k'.status t).pend)
    (hu : (k'.status t).unused = false) (hr : (k'.status t).ready = false) :
    Around c pm run t (k.dropTimeout t) ∧ (k.dropTimeout t).lists.At t none := by
  obtain ⟨o, ho, hok⟩ := ht
  rw [← hl] at ho
  simp only [Sched.dropTimeout]
  split_ifs with hpend
  · simp only [modifyTCB_taskCB, status, update_self] at hpend hp
    have hq := hok.not_queued ho (hp ▸ hpend)
    exact ⟨((h.modifyTCB _).listDelete hq).setStatus _, Rings.At.unlink h.linked.nodup⟩
  · simp only [modifyTCB_taskCB, status, update_self, Bool.not_eq_true] at hpend hp
    exact ⟨(h.modifyTCB _).setStatus _, hok.nowhere hr (hp ▸ hpend) hu ▸ ho⟩

/-- When the timeout of a frozen task can be armed again. -/
def ThawOk (c : Config) (k : Sched) (t : TaskID) (currTime : ℕ) : Prop :=
  (k.status t).freeze → (k.taskCB t).responseTime > currTime →
    DeadlineOk c currTime (remainTick c (k.taskCB t).responseTime currTime)

/-- Resuming a suspended task. The hypothesis `hrun` excludes a task that is still running and
waits for nothing: `OsSchedResume` would put it on a ready queue. -/
theorem InvWith.osSchedResume (h : InvWith c pm run k) (ht : t < c.taskMaxNum)
    (hu : (k.status t).unused = false) (hx : (k.status t).exit = false)
    (hs : (k.status t).suspend)
    (hrun : (k.status t).running → (k.status t).delay ∨ (k.status t).pend)
    (hd : ThawOk c k t currTime) : InvWith c pm run (k.osSchedResume c t currTime).1 := by
  have htask := h.task t ht
  obtain ⟨o, ho, hok⟩ := h.task t ht
  have hready : (k.status t).ready = false := by
    cases hc : (k.status t).ready with
    | false => rfl
    | true => simpa [hs] using (hok.status.ready hc).2.2.1
  have hidle : t ≠ k.idleTaskID := fun e => by simpa [hs] using (hok.idle e).2.2.1
  have hst := hok.status
  cases hf : (k.status t).freeze with
  | false =>
    have hopen := (h.around ht).setStatus fun s => { s with suspend := false }
    simp only [Sched.osSchedResume, hf, Bool.false_eq_true, if_false]
    split_ifs with hw
    · simp only [status, setStatus_taskCB, update_self, Bool.not_eq_true',
        Bool.or_eq_false_iff] at hw
      have hpt := hst.pendTime_eq_false hw.2
      have hrunning : (k.status t).running = false := by
        cases hc : (k.status t).running with
        | false => rfl
        | true => simpa [hw.1, hw.2] using hrun hc
      have hbit : (k.taskCB t).taskStatus.pendTime = false := hpt
      have hbit' : (k.taskCB t).taskStatus.freeze = false := hf
      refine hopen.osSchedTaskEnQueue (Detached.runnable (hok.detached hready hx hu hidle (by simp)
        (by simp) ?_ (by constructor <;> simp [hw, hbit, hbit']) ?_
        (hok.nowhere hready hw.2 hu ▸ ho) rfl) (by simpa using hrunning))
      · simpa [hw.1, hbit] using hok.response hu
      · simp [hok.linked, hw.1, hbit]
    · refine hopen.close ⟨o, ho, ?_⟩
      rw [setStatus_taskCB, update_self]
      exact hok.suspended (by simp [hidle, hready]) rfl rfl (.refl _)
        (fun hz => absurd (hf.symm.trans hz) (by decide)) hok.linked hok.response
  | true =>
    obtain ⟨-, hrunning, hwait⟩ := hst.freeze hf
    have hthaw := (h.around ht).setStatus fun s => { s with freeze := false }
    have hsort : t ∉ k.sortLink := by
      rw [hok.linked]
      rintro ⟨-, -, hl⟩
      simp [hl] at hf
    by_cases hlate : (k.taskCB t).responseTime > currTime
    · -- the timeout is armed again and the task goes on waiting
      have hres : (k.osSchedResume c t currTime).1 =
          ((k.setStatus t fun s => { s with freeze := false }).osAdd2SortLink c t currTime
            (remainTick c (k.taskCB t).responseTime currTime)).setStatus t
            fun s => { s with suspend := false } := by
        have hwp := hwait.imp_right hst.pendTime
        simp only [Sched.osSchedResume, hf, if_true, Sched.osSchedUnfreezeTask, setStatus_taskCB,
          update_self, hlate, status, osAdd2SortLink_taskCB]
        rcases hwp with e | e <;> simp [e]
      rw [hres]
      refine ((hthaw.osAdd2SortLink hsort _ _).setStatus _).close ⟨o, ho, ?_⟩
      simp only [setStatus_taskCB, setStatus_idleTaskID, update_self, osAdd2SortLink_taskCB,
        osAdd2SortLink_same.idleTaskID]
      exact hok.suspended (by simp [hidle, hready]) rfl rfl (.refl _) (by simp)
        (iff_of_true (mem_osAdd2SortLink.mpr (.inl rfl)) ⟨hwait, hrunning, rfl⟩)
        fun _ => iff_of_true (hd hf hlate) ⟨hwait, hrunning⟩
    · have hres : (k.osSchedResume c t currTime).1 =
          (((k.setStatus t fun s => { s with freeze := false }).dropTimeout t).setStatus t
            fun s => { s with suspend := false }).osSchedTaskEnQueue c t := by
        simp only [Sched.osSchedResume, hf, if_true, Sched.osSchedUnfreezeTask, setStatus_taskCB,
          update_self, hlate, if_false, status, dropTimeout_taskCB]
        simp
      rw [hres]
      obtain ⟨hdrop, hat⟩ := hthaw.dropTimeout htask rfl (by simp) hu hready
      have hcb := dropTimeout_taskCB (k := k.setStatus t fun s => { s with freeze := false })
        (t := t)
      exact (hdrop.setStatus _).osSchedTaskEnQueue (Detached.runnable (hok.detached hready hx hu
        hidle (by simp [hcb]) (by simp [hcb]) (by simp [hcb]) (by constructor <;> simp [hcb])
        (by simpa [dropTimeout_sortLink] using hsort) hat dropTimeout_same.idleTaskID)
        (by simpa [hcb] using hrunning))

theorem osSchedUnfreezeTask_same : Same k (k.osSchedUnfreezeTask c t currTime) := by
  simp only [osSchedUnfreezeTask]
  split_ifs
  · exact (Same.setStatus ..).trans osAdd2SortLink_same
  · exact (Same.setStatus ..).trans dropTimeout_same

theorem osSchedResume_same : Same k (k.osSchedResume c t currTime).1 := by
  simp only [osSchedResume]
  split_ifs <;> dsimp only
  · exact osSchedUnfreezeTask_same.trans ((Same.setStatus ..).trans osSchedTaskEnQueue_same)
  · exact osSchedUnfreezeTask_same.trans (.setStatus ..)
  · exact (Same.setStatus ..).trans osSchedTaskEnQueue_same
  · exact .setStatus ..

/-! ## `OsSchedModifyTaskSchedParam` -/

theorem InvWith.osSchedModifyTaskSchedParam (h : InvWith c pm run k)
    (ht : t < c.taskMaxNum) (hi : t ≠ k.idleTaskID) (hp : priority ≤ taskPriorityLowest) :
    InvWith c pm run (k.osSchedModifyTaskSchedParam c t priority).1 := by
  obtain ⟨o, ho, hok⟩ := h.task t ht
  have hst := hok.status
  simp only [Sched.osSchedModifyTaskSchedParam]
  split_ifs with hr <;> dsimp only
  · obtain ⟨hpend, hdelay, -, hexit, hu, hrunning⟩ := hst.ready hr
    have hq := hok.queued ho hpend hu
    have hcb := osSchedTaskDeQueue_taskCB (k := k) (t := t)
    have hpt := hst.pendTime_eq_false hpend
    have hfz := hst.freeze_eq_false (.inr (.inr ⟨hdelay, hpt⟩))
    refine (((h.around ht).osSchedTaskDeQueue hok.id hok.priority hq).modifyTCB
      _).osSchedTaskEnQueue ?_
    exact {
      id := by simp [hcb, hok.id]
      priority := by simpa using hp
      ready := by simp [hcb]
      running := by simp [hcb, hrunning]
      exit := by simp [hcb, hexit]
      unused := by simp [hcb, hu]
      freeze := by simpa [hcb] using hfz
      response := by simpa [hcb, hdelay, show (k.taskCB t).taskStatus.pendTime = false from hpt]
        using hok.response hu
      sortLink := by
        simp [hok.linked, hdelay, show (k.taskCB t).taskStatus.pendTime = false from hpt]
      run := fun e => by simpa [hrunning] using (hok.running hu).mpr e
      nowhere := hq.osSchedTaskDeQueue_at h.linked.nodup hok.id
      idle := fun e => absurd (e.trans osSchedTaskDeQueue_same.idleTaskID) hi }
  · refine ((h.around ht).modifyTCB _).close ⟨o, ho, ?_⟩
    have hpl := hok.placed
    constructor <;> simp [hok.id, hp]
    · exact hst
    · cases o with
      | none => simpa [Placed] using hpl
      | some j => cases j <;> simp_all [Placed]
    · exact hok.linked
    · exact hok.response
    · exact hok.running
    · exact hok.live
    · exact hok.freeze
    · exact fun e => absurd e hi

theorem osSchedModifyTaskSchedParam_same :
    Same k (k.osSchedModifyTaskSchedParam c t priority).1 := by
  simp only [osSchedModifyTaskSchedParam]
  split_ifs <;> dsimp only
  · exact osSchedTaskDeQueue_same.trans ((Same.modifyTCB ..).trans osSchedTaskEnQueue_same)
  · exact .modifyTCB ..

end LiteOS.Kernel.Sched
