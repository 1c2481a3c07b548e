import LiteOS.Ipc.Event

/-!
# The contract of event groups

Any number of tasks and interrupt handlers read, write, clear and poll event blocks, while tasks are
created, delayed, suspended, resumed and reprioritised and timeouts expire. No task waits for a
condition that holds. A read without a timeout returns what it asked for, as long as nobody clears
bits that an answered read has not yet picked up.
-/

namespace LiteOS.Kernel

open Lib Sched TaskView List

/-! ## Waking several tasks -/

namespace Sched

variable {c : Config} {pm : Prop} {run : Option TaskID} {k k' k'' : Sched} {t u : TaskID}
  {ts rest : List TaskID} {i : ListHead}

/-- The tasks `ts` are woken one after the other. -/
inductive WakeSeq : List TaskID → Sched → Sched → Prop
  | nil (k : Sched) : WakeSeq [] k k
  | cons {t : TaskID} {ts : List TaskID} {k k₁ k' : Sched} :
    Wakes t k k₁ → WakeSeq ts k₁ k' → WakeSeq (t :: ts) k k'

section

variable (h : WakeSeq ts k k')
include h

theorem WakeSeq.lists (hi : i.isWait)
    (hn : (k.lists i).Nodup) : k'.lists i = (k.lists i).filter (· ∉ ts) := by
  induction h with
  | nil => simp
  | @cons t _ _ _ _ hw _ ih =>
    rw [ih (hw.lists i hi ▸ hn.erase t), hw.lists i hi, hn.erase_eq_filter, filter_filter]
    refine filter_congr fun u _ => ?_
    by_cases hu : u = t <;> simp [hu]

theorem WakeSeq.view_of_notMem (hu : u ∉ ts) : (k'.taskCB u).view = (k.taskCB u).view := by
  induction h with
  | nil => rfl
  | cons hw _ ih =>
    obtain ⟨hut, hus⟩ := not_or.mp (mt mem_cons.mpr hu)
    exact (ih hus).trans (hw.others u hut)

theorem WakeSeq.view_of_mem (hu : u ∈ ts) :
    (k'.taskCB u).view = { (k.taskCB u).view with pend := false, timed := false } := by
  induction h with
  | nil => simp at hu
  | @cons t ts k k₁ _ hw hs ih =>
    have hfirst : u = t → (k₁.taskCB u).view =
        { (k.taskCB u).view with pend := false, timed := false } := by
      rintro rfl
      exact hw.self
    by_cases hus : u ∈ ts
    · rw [ih hus]
      by_cases hut : u = t
      · rw [hfirst hut]
      · rw [hw.others u hut]
    · exact (hs.view_of_notMem hus).trans (hfirst (mem_cons.mp hu |>.resolve_right hus))

theorem WakeSeq.event (u : TaskID) : (k'.taskCB u).eventMask = (k.taskCB u).eventMask ∧
      (k'.taskCB u).eventMode = (k.taskCB u).eventMode := by
  by_cases hu : u ∈ ts
  · have hv := h.view_of_mem hu
    exact ⟨congrArg eventMask hv, congrArg eventMode hv⟩
  · have hv := h.view_of_notMem hu
    exact ⟨congrArg eventMask hv, congrArg eventMode hv⟩

end

variable {R : Type*} {event : ℕ} {w : Calls R}

theorem WaitInv.wakeSeq [Request R] (h : WaitInv c k w) (hs : WakeSeq ts k k') :
    WaitInv c k' w := by
  induction hs with
  | nil => exact h
  | cons hw _ ih => exact ih (h.wakes hw)

theorem WaitInv.granted_wakeSeq [Request R] {r : R} (h : WaitInv c k w)
    (hi : InvWith c pm run k) (hs : WakeSeq ts k k') (hw : i.isWait)
    (hsub : ∀ u ∈ ts, u ∈ k.lists i) :
    Granted k' w t r ↔ Granted k w t r ∨ (t ∈ ts ∧ w.pc t = some r) := by
  by_cases ht : t ∈ ts
  · have hv := hs.view_of_mem ht
    obtain ⟨hto, -⟩ := h.of_mem hi hw (hsub t ht)
    have hp' : (k'.status t).pend = false := congrArg TaskView.pend hv
    have hto' : (k'.status t).timeout = false := (congrArg TaskView.timeout hv).trans hto
    have hp := (hi.pend_of_mem hw (hsub t ht)).2.1
    simp [Granted, hp, hp', hto', ht]
  · have hv := hs.view_of_notMem ht
    have hp : (k'.status t).pend = (k.status t).pend := congrArg TaskView.pend hv
    have hto : (k'.status t).timeout = (k.status t).timeout := congrArg TaskView.timeout hv
    simp [Granted, hp, hto, ht]

/-- The loop of `LOS_EventWrite` visits every waiting task: unlinking a task does not change which
tasks come after the next one. -/
theorem RunInv.eventWriteLoop (bits word : BitVec 32) (fuel : ℕ)
    (pre : List TaskID) (h : RunInv c False k) (hl : k.lists (.stEventList event) = pre ++ rest)
    (hf : rest.length ≤ fuel) :
    RunInv c False (eventWriteLoop c event bits word fuel rest.head? k) ∧
      WakeSeq (rest.filter fun t => eventMatches (k.taskCB t) bits word) k
        (eventWriteLoop c event bits word fuel rest.head? k) := by
  induction fuel generalizing k pre rest with
  | zero =>
    obtain rfl : rest = [] := length_eq_zero_iff.mp (by omega)
    exact ⟨h, .nil k⟩
  | succ fuel ih =>
    cases rest with
    | nil => exact ⟨h, .nil k⟩
    | cons t rest =>
      have hf' : rest.length ≤ fuel := by simpa using hf
      have hm : t ∈ k.lists (.stEventList event) := by simp [hl]
      have hnext : Rings.next k.lists (.stEventList event) t = rest.head? :=
        Rings.next_eq h.sched.1.linked.nodup hl
      simp only [head?_cons, Sched.eventWriteLoop, hnext]
      by_cases ht : eventMatches (k.taskCB t) bits word
      · -- the woken task is unlinked, the tasks after it stay linked in their order
        obtain ⟨hlt, hpend, -⟩ := h.sched.1.pend_of_mem rfl hm
        have hw : Wakes t k (k.osSchedTaskWake c t) := wakes_osSchedTaskWake
        have hrun := h.of_same osSchedTaskWake_same
          (h.sched.1.osSchedTaskWake hlt hpend (h.sched.1.freeze_eq_false hlt)) (h.join.of_wakes hw)
        have hnd : (pre ++ t :: rest).Nodup := hl ▸ h.sched.1.linked.nodup _
        have hpre : t ∉ pre := fun hc => (nodup_append.mp hnd).2.2 t hc t (by simp) rfl
        have hl' : (k.osSchedTaskWake c t).lists (.stEventList event) = pre ++ rest := by
          rw [hw.lists _ rfl, hl, erase_append_right _ hpre, erase_cons_head]
        obtain ⟨hrun', hs⟩ := ih pre hrun hl' hf'
        rw [if_pos ht, filter_cons_of_pos (by simpa using ht)]
        refine ⟨hrun', .cons hw ?_⟩
        have hcongr : ∀ u ∈ rest, decide (eventMatches (k.taskCB u) bits word) =
            decide (eventMatches ((k.osSchedTaskWake c t).taskCB u) bits word) := fun u _ => by
          obtain ⟨p, d, hv⟩ := hw.view u
          have hmask := congrArg eventMask hv
          have hmode := congrArg eventMode hv
          simp only [TaskCB.view_eventMask, TaskCB.view_eventMode] at hmask hmode
          simp only [eventMatches, hmask, hmode]
        rw [filter_congr hcongr]
        exact hs
      · rw [if_neg ht, filter_cons_of_neg (by simpa using ht)]
        exact ih (pre ++ [t]) h (by simpa using hl) hf'

theorem RunInv.noteEvent {mask mode : BitVec 32} (h : RunInv c pm k) :
    RunInv c pm (k.modifyTCB t fun cb => { cb with eventMask := mask, eventMode := mode }) := by
  refine h.of_same (.modifyTCB ..) (InvWith.modifyTCB h.sched.1 rfl rfl rfl (.refl _)) ?_
  refine h.join.mono (fun _ => List.Sublist.refl _) fun u _ hu hx hj => ?_
  by_cases hut : u = t
  · subst hut
    simpa using ⟨hu, hx, hj⟩
  · simpa [hut] using ⟨hu, hx, hj⟩

theorem WaitInv.congr [Request R] (h : WaitInv c k w)
    (hst : ∀ t, k'.status t = k.status t) (hl : k'.lists = k.lists) : WaitInv c k' w := by
  constructor
  · simpa only [hst] using h.live
  · simpa only [hst, hl] using h.pend
  · simpa only [hst] using h.timeout
  · simpa only [hl] using h.order
  · simpa only [hl] using h.past

end Sched

/-! ## The system -/

/-- A call of `LOS_EventRead` that waits. -/
structure EventRequest where
  event : ℕ
  mask : BitVec 32
  mode : BitVec 32
  timeOut : ℕ
deriving DecidableEq

instance : Request EventRequest where
  head r := .stEventList r.event
  isWait _ := rfl

/-- The kernel and the event blocks, with the calls in progress. -/
structure EventSys where
  k : Sched
  events : Events := fun _ => {}
  calls : Calls EventRequest := {}

inductive EventOp
  | task (op : TaskOp)
  | eventInit (event : ℕ)
  | eventRead (event : ℕ) (eventMask mode : BitVec 32) (timeOut : ℕ) (intActive : Bool)
  | eventReadReturn
  | eventWrite (event : ℕ) (events : BitVec 32)
  | eventClear (event : ℕ) (eventMask : BitVec 32)
  | eventPoll (event : ℕ) (eventMask mode : BitVec 32)
  | eventDestroy (event : ℕ)
deriving DecidableEq

namespace EventSys

/-- The first half of `LOS_EventRead` by the running task. -/
def read (s : EventSys) (r : EventRequest) :
    Sched × Events × Option (Except Errno (BitVec 32)) → EventSys
  | (k, events, none) => { k := k, events := events, calls := s.calls.enter s.k.runTask r }
  | (k, events, some _) => { s with k := k, events := events }

def exec (c : Config) (s : EventSys) : EventOp → EventSys
  | .task op => { s with k := op.exec c s.k }
  | .eventInit e =>
    { s with k := (s.k.losEventInit s.events e).1, events := (s.k.losEventInit s.events e).2 }
  | .eventRead e mask mode timeOut intActive =>
    s.read ⟨e, mask, mode, timeOut⟩ (s.k.losEventRead s.events e mask mode timeOut intActive)
  | .eventReadReturn =>
    match s.calls.pc s.k.runTask with
    | none => s
    | some r =>
      let (k, events, _) := s.k.losEventReadReturn s.events r.event r.mask r.mode
      { k := k, events := events, calls := s.calls.leave s.k.runTask }
  | .eventWrite e bits =>
    let (k, events, _) := s.k.losEventWrite c s.events e bits
    { s with k := k, events := events }
  | .eventClear e mask => { s with events := losEventClear s.events e mask }
  | .eventPoll e mask mode =>
    { s with events := s.events.setWord e (losEventPoll (s.events e).uwEventID mask mode).1 }
  | .eventDestroy e => { s with events := (s.k.losEventDestroy s.events e).1 }

/-- When an operation can come. Tasks call `LOS_EventRead` while they execute their own code and are
not inside another call; a block is not initialised again while calls on it are in progress. -/
def Enabled (c : Config) (s : EventSys) : EventOp → Prop
  | .task op => op.Enabled c s.k ∧ op.Gentle s.k
  | .eventInit e => ∀ t < c.taskMaxNum, (s.calls.pc t).map (·.event) ≠ some e
  | .eventRead _ _ _ _ intActive => intActive = false →
      Executing c s.k ∧ s.calls.pc s.k.runTask = none
  | .eventReadReturn => Executing c s.k ∧ s.calls.pc s.k.runTask ≠ none
  | _ => True

/-- Runs after `LOS_KernelInit`. -/
def machine (c : Config) : Machine EventSys EventOp where
  init s := ∃ k swtmrStack idleStack, losKernelInit c swtmrStack idleStack = (k, .ok) ∧
    s = { k := k }
  allowed := Enabled c
  step := exec c

instance (c : Config) (s : EventSys) (op : EventOp) : Decidable ((machine c).allowed s op) := by
  cases op <;> unfold machine Enabled <;> infer_instance

/-- The bits that a step may clear in the word of block `e`. -/
def cleared (s : EventSys) (e : ℕ) : EventOp → BitVec 32
  | .eventInit e' => if e' = e then BitVec.allOnes 32 else 0#32
  | .eventRead e' mask mode _ _ => if e' = e ∧ mode &&& losWaitmodeClr ≠ 0#32 then mask else 0#32
  | .eventReadReturn =>
    match s.calls.pc s.k.runTask with
    | none => 0#32
    | some r => if r.event = e ∧ r.mode &&& losWaitmodeClr ≠ 0#32 then r.mask else 0#32
  | .eventClear e' mask => if e' = e then ~~~mask else 0#32
  | .eventPoll e' mask mode => if e' = e ∧ mode &&& losWaitmodeClr ≠ 0#32 then mask else 0#32
  | _ => 0#32

def Clears (s : EventSys) (op : EventOp) (events' : Events) : Prop :=
  ∀ e, ∃ keep, (events' e).uwEventID = (s.events e).uwEventID &&& keep ∧
    ~~~keep &&& ~~~s.cleared e op = 0#32

inductive Step (c : Config) (s : EventSys) (op : EventOp) : EventSys → Prop
  | task (k' : Sched) : RunInv c False k' → Env s.k k' → Step c s op { s with k := k' }
  | cleared (events' : Events) : op ≠ .eventReadReturn → s.Clears op events' →
    Step c s op { s with events := events' }
  | blocked (r : EventRequest) (k' : Sched) : Executing c s.k → s.calls.pc s.k.runTask = none →
    osEventReadParamCheck (s.events r.event) r.mask r.mode = .ok →
    ¬EventCondition r.mask r.mode (s.events r.event).uwEventID → RunInv c False k' →
    k' = (s.k.modifyTCB s.k.runTask fun cb =>
      { cb with eventMask := r.mask, eventMode := r.mode }).osSchedTaskWait
        (.stEventList r.event) r.timeOut →
    Step c s op { s with k := k', calls := s.calls.enter s.k.runTask r }
  | returned (r : EventRequest) (events' : Events) : op = .eventReadReturn → Executing c s.k →
    s.calls.pc s.k.runTask = some r → s.Clears op events' →
    Step c s op ⟨(s.k.takeTimeout s.k.runTask).1, events', s.calls.leave s.k.runTask⟩
  | wrote (e : ℕ) (bits : BitVec 32) (k' : Sched) : RunInv c False k' →
    WakeSeq ((s.k.lists (.stEventList e)).filter fun t =>
      eventMatches (s.k.taskCB t) bits ((s.events e).uwEventID ||| bits)) s.k k' →
    Step c s op { s with
      k := k'
      events := s.events.setWord e ((s.events e).uwEventID ||| bits) }

structure Inv (c : Config) (s : EventSys) : Prop where
  run : RunInv c False s.k
  wait : WaitInv c s.k s.calls
  asked : ∀ t r, s.calls.pc t = some r → r.mask ≠ 0#32 ∧
    (r.mode &&& losWaitmodeAnd ≠ 0#32 ↔ ¬r.mode &&& losWaitmodeOr ≠ 0#32)
  noted : ∀ t r, s.calls.pc t = some r →
    (s.k.taskCB t).eventMask = r.mask ∧ (s.k.taskCB t).eventMode = r.mode
  waiting : ∀ e, ∀ t ∈ s.k.lists (.stEventList e),
    ¬EventCondition (s.k.taskCB t).eventMask (s.k.taskCB t).eventMode (s.events e).uwEventID
  forever : ∀ t r, s.calls.pc t = some r → r.timeOut = losWaitForever →
    (s.k.taskCB t).view.timed = false ∧ (s.k.status t).timeout = false

variable {c : Config} {s s' : EventSys} {op : EventOp} {e swtmrStack idleStack timeOut : ℕ}
  {t u : TaskID} {bits mask mode word keep : BitVec 32} {events : Events}

theorem setWord_word (e' : ℕ) :
    (events.setWord e word e').uwEventID = if e' = e then word else (events e').uwEventID := by
  by_cases he : e' = e
  · subst he
    simp [Events.setWord]
  · simp [Events.setWord, he]

theorem setWord_self : events.setWord e (events e).uwEventID = events :=
  Function.update_eq_self e events

theorem clears_setWord (h : ~~~keep &&& ~~~s.cleared e op = 0#32) :
    s.Clears op (s.events.setWord e ((s.events e).uwEventID &&& keep)) := by
  intro e'
  rw [setWord_word]
  by_cases he : e' = e
  · subst he
    exact ⟨keep, by rw [if_pos rfl], h⟩
  · exact ⟨BitVec.allOnes 32, by rw [if_neg he, BitVec.and_allOnes], by simp⟩

variable {events' : Events} {k k' : Sched}

theorem clears_of_eq (h : ∀ e, (events' e).uwEventID = (s.events e).uwEventID) :
    s.Clears op events' := fun e =>
  ⟨BitVec.allOnes 32, by rw [BitVec.and_allOnes, h e], by simp⟩

theorem clears_self : s.Clears op s.events := clears_of_eq fun _ => rfl

theorem clears_poll (h : mode &&& losWaitmodeClr ≠ 0#32 → s.cleared e op = mask) :
    s.Clears op (s.events.setWord e (losEventPoll (s.events e).uwEventID mask mode).1) := by
  obtain ⟨keep, hkeep, hall, hmask⟩ := losEventPoll_fst (s.events e).uwEventID mask mode
  rw [hkeep]
  apply clears_setWord
  by_cases hm : mode &&& losWaitmodeClr = 0#32
  · simp [hall hm]
  · rwa [h hm]

theorem Inv.init (h : losKernelInit c swtmrStack idleStack = (k, .ok)) : Inv c { k := k } where
  run := .of_losKernelInit h
  wait := .init (booted_of_losKernelInit False h).inv.1 (booted_of_losKernelInit False h).fresh
  asked t r hr := nomatch hr
  noted t r hr := nomatch hr
  waiting e t hm := by
    have hb := booted_of_losKernelInit False h
    simp [hb.inv.1.lists_eq_nil_of_fresh hb.fresh (i := .stEventList e) rfl] at hm
  forever t r hr := nomatch hr

/-! ## The steps -/

theorem Inv.step_eventInit (h : Inv c s) (he : Enabled c s (.eventInit e)) :
    Step c s (.eventInit e) (exec c s (.eventInit e)) := by
  have hnil : s.k.lists (.stEventList e) = [] := by
    refine eq_nil_iff_forall_not_mem.mpr fun t hm => ?_
    obtain ⟨-, r, hr, hhead⟩ := h.wait.of_mem h.run.sched.1 rfl hm
    cases hhead
    exact he t (h.wait.live t r hr).1 (by simp [hr])
  have hlists : Function.update s.k.lists (.stEventList e) [] = s.k.lists := by
    rw [← hnil, Function.update_eq_self]
  simp only [exec, losEventInit, hlists]
  refine .cleared _ (nofun) fun e' => ?_
  by_cases hee : e' = e
  · subst hee
    exact ⟨0#32, by simp, by simp [EventSys.cleared]⟩
  · exact ⟨BitVec.allOnes 32, by rw [BitVec.and_allOnes]; simp [hee], by simp⟩

theorem Inv.step_eventRead {intActive : Bool} (h : Inv c s)
    (he : Enabled c s (.eventRead e mask mode timeOut intActive)) :
    Step c s (.eventRead e mask mode timeOut intActive)
      (exec c s (.eventRead e mask mode timeOut intActive)) := by
  have hclears : s.Clears (.eventRead e mask mode timeOut intActive)
      (s.events.setWord e (losEventPoll (s.events e).uwEventID mask mode).1) :=
    clears_poll fun hm => by simp [EventSys.cleared, hm]
  simp only [exec, losEventRead]
  split_ifs with hchk hint hsys hret hto hlock
  iterate 3 exact .cleared _ (nofun) clears_self
  · exact .cleared _ (nofun) hclears
  · exact .cleared _ (nofun) hclears
  · -- the poll has found nothing, so the word is as before
    have hchk := not_not.mp hchk
    obtain ⟨hx, hn⟩ := he (by simpa using hint)
    have hword := losEventPoll_fst_of_eq_zero hret
    have hcond := (losEventPoll_eq_zero (osEventReadParamCheck_ok hchk).2.1).mp hret
    rw [hword, setWord_self]
    refine .blocked ⟨e, mask, mode, timeOut⟩ _ hx hn hchk hcond ?_ rfl
    exact h.run.noteEvent.wait (hx.congr rfl rfl (by simp)) rfl
  · exact .cleared _ (nofun) hclears

theorem step_eventReadReturn (he : Enabled c s .eventReadReturn) :
    Step c s .eventReadReturn (exec c s .eventReadReturn) := by
  simp only [exec]
  cases hr : s.calls.pc s.k.runTask with
  | none => exact absurd hr he.2
  | some r =>
    simp only [losEventReadReturn]
    split_ifs with hto
    · exact .returned r _ rfl he.1 hr clears_self
    · exact .returned r _ rfl he.1 hr
        (clears_poll fun hm => by simp [EventSys.cleared, hr, hm])

theorem Inv.step_eventWrite (h : Inv c s) :
    Step c s (.eventWrite e bits) (exec c s (.eventWrite e bits)) := by
  simp only [exec, losEventWrite]
  split_ifs with hinit hbit
  · exact .cleared _ (nofun) clears_self
  · exact .cleared _ (nofun) clears_self
  · obtain ⟨hrun, hs⟩ := h.run.eventWriteLoop bits ((s.events e).uwEventID ||| bits) _ []
      (rfl : s.k.lists (.stEventList e) = _) (le_refl _)
    exact .wrote e bits _ hrun hs

theorem Inv.step_cases (h : Inv c s) (he : Enabled c s op) : Step c s op (exec c s op) := by
  cases op with
  | task =>
    obtain ⟨hrun, hspec⟩ := h.run.gentle he.1 he.2
    exact .task _ hrun hspec.env
  | eventInit => exact h.step_eventInit he
  | eventRead => exact h.step_eventRead he
  | eventReadReturn => exact step_eventReadReturn he
  | eventWrite => exact h.step_eventWrite
  | eventClear =>
    exact .cleared _ (nofun) (clears_setWord (by simp [EventSys.cleared]))
  | eventPoll =>
    exact .cleared _ (nofun) (clears_poll fun hm => by simp [EventSys.cleared, hm])
  | eventDestroy e =>
    refine .cleared _ (nofun) (clears_of_eq fun e' => ?_)
    simp only [losEventDestroy]
    split_ifs
    · rfl
    · by_cases hee : e' = e
      · subst hee
        simp
      · simp [hee]

/-! ## The invariant -/

section

variable (h : Inv c s) (hm : t ∈ s.k.lists (.stEventList e))
include h hm

theorem Inv.of_mem : ∃ r, s.calls.pc t = some r ∧ r.event = e ∧ (s.k.taskCB t).eventMask = r.mask ∧
      (s.k.taskCB t).eventMode = r.mode := by
  obtain ⟨-, r, hr, hhead⟩ := h.wait.of_mem h.run.sched.1 rfl hm
  exact ⟨r, hr, ListHead.stEventList.inj hhead, h.noted t r hr⟩

theorem Inv.eventMatches_iff : eventMatches (s.k.taskCB t) bits ((s.events e).uwEventID ||| bits) ↔
      EventCondition (s.k.taskCB t).eventMask (s.k.taskCB t).eventMode
        ((s.events e).uwEventID ||| bits) := by
  obtain ⟨r, hr, -, -, hmode⟩ := h.of_mem hm
  exact Kernel.eventMatches_iff (hmode ▸ (h.asked t r hr).2) (h.waiting e t hm)

end

variable {k' : Sched}

theorem Inv.task (h : Inv c s) (hrun : RunInv c False k') (he : Env s.k k') :
    Inv c { s with k := k' } where
  run := hrun
  wait := h.wait.env hrun.sched.1 he
  asked := h.asked
  noted t r hr := by
    obtain ⟨hmask, hmode⟩ := he.event t (h.wait.live t r hr).2.1
    exact ⟨hmask.trans (h.noted t r hr).1, hmode.trans (h.noted t r hr).2⟩
  waiting e t hm := by
    have hm₀ : t ∈ s.k.lists (.stEventList e) := by
      rw [he.lists _ rfl] at hm
      exact (mem_filter.mp hm).1
    obtain ⟨-, -, hu, -⟩ := h.run.sched.1.pend_of_mem rfl hm₀
    obtain ⟨hmask, hmode⟩ := he.event t hu
    rw [hmask, hmode]
    exact h.waiting e t hm₀
  forever t r hr hf := by
    obtain ⟨htimed, hto⟩ := h.forever t r hr hf
    obtain ⟨htimed', hto'⟩ := he.untimed t (h.wait.live t r hr).2.1 htimed
    exact ⟨htimed', hto'.trans hto⟩

theorem Inv.cleared (h : Inv c s) (hc : s.Clears op events') : Inv c { s with events := events' } :=
  { h with
    waiting := fun e t hm hcond => by
      obtain ⟨keep, hkeep, -⟩ := hc e
      rw [hkeep] at hcond
      exact h.waiting e t hm hcond.of_and }

variable {r : EventRequest}

theorem taskCB_of_blocked (hk : k' = (k.modifyTCB k.runTask fun cb =>
      { cb with eventMask := r.mask, eventMode := r.mode }).osSchedTaskWait
        (.stEventList r.event) r.timeOut) :
    (k'.status k.runTask).pend ∧ ∀ u ≠ k.runTask, k'.taskCB u = k.taskCB u := by
  subst hk
  constructor
  · exact congrArg pend (blocks_osSchedTaskWait).self
  · intro u hu
    rw [osSchedTaskWait_taskCB_of_ne (by simpa using hu)]
    simp [hu]

theorem Inv.blocked (h : Inv c s) (hx : Executing c s.k) (hn : s.calls.pc s.k.runTask = none)
    (hchk : osEventReadParamCheck (s.events r.event) r.mask r.mode = .ok)
    (hcond : ¬EventCondition r.mask r.mode (s.events r.event).uwEventID) (hrun : RunInv c False k')
    (hk : k' = (s.k.modifyTCB s.k.runTask fun cb =>
      { cb with eventMask := r.mask, eventMode := r.mode }).osSchedTaskWait
        (.stEventList r.event) r.timeOut) :
    Inv c { s with k := k', calls := s.calls.enter s.k.runTask r } := by
  obtain ⟨-, hmask, hmode⟩ := osEventReadParamCheck_ok hchk
  have hnote : RunInv c False (s.k.modifyTCB s.k.runTask fun cb =>
      { cb with eventMask := r.mask, eventMode := r.mode }) := h.run.noteEvent
  generalize hk₁ : (s.k.modifyTCB s.k.runTask fun cb =>
    { cb with eventMask := r.mask, eventMode := r.mode }) = k₁ at hk hnote
  have hst : ∀ t, k₁.status t = s.k.status t := fun t => by
    by_cases ht : t = s.k.runTask
    · subst ht
      simp [← hk₁]
    · simp [← hk₁, ht]
  have hrunTask : k₁.runTask = s.k.runTask := by simp [← hk₁]
  have hx₁ : Executing c k₁ := hx.congr hrunTask (by simp [← hk₁]) (hst _)
  have hb : Blocks (.stEventList r.event) k₁ k' := hk ▸ blocks_osSchedTaskWait
  have hother : ∀ u ≠ s.k.runTask, (k'.taskCB u).view = (s.k.taskCB u).view := fun u hu =>
    congrArg TaskCB.view ((taskCB_of_blocked (hk₁ ▸ hk)).2 u hu)
  have hself : (k'.taskCB s.k.runTask).eventMask = r.mask ∧
      (k'.taskCB s.k.runTask).eventMode = r.mode := by
    have hv := hb.self
    rw [hrunTask] at hv
    have hm := congrArg eventMask hv
    have hm' := congrArg eventMode hv
    simp only [TaskCB.view_eventMask, TaskCB.view_eventMode] at hm hm'
    simp [hm, hm', ← hk₁]
  have hwait := WaitInv.enter (h.wait.congr hst (by simp [← hk₁])) hnote.sched.1 hx₁
      (hrunTask ▸ hn) hb
  refine ⟨hrun, hrunTask ▸ hwait, fun t r' hr => ?_, fun t r' hr => ?_, fun e t hm => ?_,
    fun t r' hr hf => ?_⟩
  all_goals by_cases ht : t = s.k.runTask
  · subst ht
    obtain rfl : r = r' := by simpa using hr
    exact ⟨hmask, hmode⟩
  · exact h.asked t r' (by simpa [ht] using hr)
  · subst ht
    obtain rfl : r = r' := by simpa using hr
    exact hself
  · have hv := hother t ht
    obtain ⟨hm, hm'⟩ := h.noted t r' (by simpa [ht] using hr)
    exact ⟨(congrArg eventMask hv).trans hm, (congrArg eventMode hv).trans hm'⟩
  · -- the task that begins to wait has just polled
    subst ht
    obtain ⟨-, r', hr', hhead⟩ := hwait.of_mem hrun.sched.1 rfl hm
    obtain rfl : r = r' := by simpa [hrunTask] using hr'
    cases hhead
    rw [hself.1, hself.2]
    exact hcond
  · have hv := hother t ht
    have hm₀ : t ∈ s.k.lists (.stEventList e) := by
      by_cases he : e = r.event
      · subst he
        have hmem : t ∈ k₁.lists (.stEventList r.event) ++ [k₁.runTask] := hb.lists ▸ hm
        simpa [ht, ← hk₁] using hmem
      · have hmem := hb.otherLists (.stEventList e) rfl (by simpa using he) ▸ hm
        simpa [← hk₁] using hmem
    have hmask' := congrArg eventMask hv
    have hmode' := congrArg eventMode hv
    simp only [TaskCB.view_eventMask, TaskCB.view_eventMode] at hmask' hmode'
    rw [hmask', hmode']
    exact h.waiting e t hm₀
  · subst ht
    obtain rfl : r = r' := by simpa using hr
    obtain ⟨wait, hcb⟩ := osSchedTaskWait_taskCB
    rw [← hk, hrunTask] at hcb
    obtain ⟨_, -, hok⟩ := hnote.sched.1.task _ hx₁.lt
    have hpt := hok.status.pendTime_eq_false hx₁.pend
    have hto : (s.k.status s.k.runTask).timeout = false := by
      by_contra hc
      exact h.wait.timeout _ hx.lt hx.unused hx.exit (by simpa using hc) hn
    have htimed : (k'.status s.k.runTask).pendTime = false := by
      rw [hrunTask] at hpt
      simp [hcb, hf, hpt]
    refine ⟨by simp [TaskCB.view, show (k'.taskCB s.k.runTask).taskStatus.pendTime = false
      from htimed], ?_⟩
    rw [status, hcb]
    exact (congrArg TaskStatus.timeout (hst s.k.runTask)).trans hto
  · have hv := hother t ht
    obtain ⟨htimed, hto⟩ := h.forever t r' (by simpa [ht] using hr) hf
    exact ⟨(congrArg timed hv).trans htimed, (congrArg timeout hv).trans hto⟩

theorem Inv.returned (h : Inv c s) (hx : Executing c s.k) (hc : s.Clears op events') :
    Inv c ⟨(s.k.takeTimeout s.k.runTask).1, events', s.calls.leave s.k.runTask⟩ := by
  have hpc : ∀ t r, (s.calls.leave s.k.runTask).pc t = some r →
      t ≠ s.k.runTask ∧ s.calls.pc t = some r := fun t r hr => by
    have ht : t ≠ s.k.runTask := by
      rintro rfl
      simp at hr
    exact ⟨ht, by simpa [ht] using hr⟩
  have hev : ∀ t, ((s.k.takeTimeout s.k.runTask).1.taskCB t).eventMask =
      (s.k.taskCB t).eventMask ∧ ((s.k.takeTimeout s.k.runTask).1.taskCB t).eventMode =
      (s.k.taskCB t).eventMode := fun t => by
    obtain ⟨o, hv⟩ := takeTimeout_view t
    exact ⟨congrArg eventMask hv, congrArg eventMode hv⟩
  refine ⟨h.run.takeTimeout, h.wait.leave hx.pend, fun t r hr => h.asked t r (hpc t r hr).2,
    fun t r hr => ?_, fun e t hm hcond => ?_, fun t r hr hf => ?_⟩
  · rw [(hev t).1, (hev t).2]
    exact h.noted t r (hpc t r hr).2
  · rw [takeTimeout_lists] at hm
    obtain ⟨keep, hkeep, -⟩ := hc e
    rw [(hev t).1, (hev t).2, hkeep] at hcond
    exact h.waiting e t hm hcond.of_and
  · obtain ⟨ht, hr⟩ := hpc t r hr
    rw [status, takeTimeout_taskCB_of_ne ht]
    exact h.forever t r hr hf

theorem Inv.wrote (h : Inv c s) (hrun : RunInv c False k')
    (hs : WakeSeq ((s.k.lists (.stEventList e)).filter fun t =>
      eventMatches (s.k.taskCB t) bits ((s.events e).uwEventID ||| bits)) s.k k') : Inv c { s with
      k := k'
      events := s.events.setWord e ((s.events e).uwEventID ||| bits) } := by
  refine ⟨hrun, h.wait.wakeSeq hs, h.asked, fun t r hr => ?_, fun e' t hm => ?_,
    fun t r hr hf => ?_⟩
  · rw [(hs.event t).1, (hs.event t).2]
    exact h.noted t r hr
  · rw [hs.lists rfl (h.run.sched.1.linked.nodup _), mem_filter] at hm
    obtain ⟨hm, hnot⟩ := hm
    rw [(hs.event t).1, (hs.event t).2, setWord_word]
    split_ifs with he
    · subst he
      intro hcond
      simp only [decide_eq_true_eq, mem_filter, not_and] at hnot
      exact hnot hm ((h.eventMatches_iff hm).mpr hcond)
    · exact h.waiting e' t hm
  · obtain ⟨htimed, hto⟩ := h.forever t r hr hf
    by_cases ht : t ∈ (s.k.lists (.stEventList e)).filter fun t =>
        eventMatches (s.k.taskCB t) bits ((s.events e).uwEventID ||| bits)
    · have hv := hs.view_of_mem ht
      exact ⟨congrArg timed hv, (congrArg timeout hv).trans hto⟩
    · have hv := hs.view_of_notMem ht
      exact ⟨(congrArg timed hv).trans htimed, (congrArg timeout hv).trans hto⟩

theorem Inv.step (h : Inv c s) (he : Enabled c s op) : Inv c (exec c s op) := by
  have hstep := h.step_cases he
  generalize exec c s op = s' at hstep
  cases hstep with
  | task _ hrun henv => exact h.task hrun henv
  | cleared _ _ hc => exact h.cleared hc
  | blocked _ _ hx hn hchk hcond hrun hk => exact h.blocked hx hn hchk hcond hrun hk
  | returned _ _ _ hx _ hc => exact h.returned hx hc
  | wrote _ _ _ hrun hs => exact h.wrote hrun hs

theorem Inv.of_reaches (h : (machine c).Reaches s) : Inv c s :=
  h.invariant (fun _ ⟨_, _, _, hk, hs⟩ => hs ▸ .init hk) fun _ _ hinv ha => hinv.step ha

/-- No wake-up is lost on block `e`. -/
structure Alert (c : Config) (s : EventSys) (e : ℕ) : Prop where
  waiting : ∀ t ∈ s.k.lists (.stEventList e),
    ¬EventCondition (s.k.taskCB t).eventMask (s.k.taskCB t).eventMode (s.events e).uwEventID
  /-- A write sets its bits, takes those tasks off the list whose condition then holds, and leaves
  the others in their order. -/
  write : ∀ bits, (s.k.losEventWrite c s.events e bits).2.2 = .ok →
    ((exec c s (.eventWrite e bits)).events e).uwEventID = (s.events e).uwEventID ||| bits ∧
    (exec c s (.eventWrite e bits)).k.lists (.stEventList e) =
      (s.k.lists (.stEventList e)).filter fun t =>
        ¬EventCondition (s.k.taskCB t).eventMask (s.k.taskCB t).eventMode
          ((s.events e).uwEventID ||| bits)
  /-- The calls of the tasks taken off the list have been answered, not timed out. -/
  wakes : ∀ bits, (s.k.losEventWrite c s.events e bits).2.2 = .ok →
    ∀ t ∈ s.k.lists (.stEventList e),
      EventCondition (s.k.taskCB t).eventMask (s.k.taskCB t).eventMode
        ((s.events e).uwEventID ||| bits) →
      ∃ r, s.calls.pc t = some r ∧
        Granted (exec c s (.eventWrite e bits)).k (exec c s (.eventWrite e bits)).calls t r

theorem exec_eventWrite (h : (s.k.losEventWrite c s.events e bits).2.2 = .ok) :
    exec c s (.eventWrite e bits) = { s with
      k := eventWriteLoop c e bits ((s.events e).uwEventID ||| bits)
        (s.k.lists (.stEventList e)).length (s.k.lists (.stEventList e)).head? s.k
      events := s.events.setWord e ((s.events e).uwEventID ||| bits) } := by
  simp only [exec, losEventWrite] at h ⊢
  split_ifs at h ⊢ with hinit hbit
  rfl

theorem alert_of_reaches (h : (machine c).Reaches s) : Alert c s e := by
  have hinv := Inv.of_reaches h
  have hloop := fun bits => hinv.run.eventWriteLoop bits ((s.events e).uwEventID ||| bits) _ []
    (rfl : s.k.lists (.stEventList e) = _) (le_refl _)
  refine ⟨hinv.waiting e, fun bits hok => ?_, fun bits hok t hm hcond => ?_⟩
  · obtain ⟨-, hs⟩ := hloop bits
    rw [exec_eventWrite hok]
    refine ⟨by simp [setWord_word], ?_⟩
    rw [hs.lists rfl (hinv.run.sched.1.linked.nodup _)]
    refine List.filter_congr fun t hm => ?_
    simp only [List.mem_filter, hm, true_and, decide_eq_true_eq, hinv.eventMatches_iff hm]
  · obtain ⟨-, hs⟩ := hloop bits
    obtain ⟨r, hr, -⟩ := hinv.of_mem hm
    rw [exec_eventWrite hok]
    refine ⟨r, hr, (hinv.wait.granted_wakeSeq hinv.run.sched.1 hs rfl
      fun u hu => (List.mem_filter.mp hu).1).mpr (.inr ⟨?_, hr⟩)⟩
    exact List.mem_filter.mpr ⟨hm, by simpa using (hinv.eventMatches_iff hm).mpr hcond⟩

/-- A task waits for one bit, another for two, and one write wakes the first. -/
theorem alert_of_reaches_waiting : ∃ s, (machine smallConfig).Reaches s ∧
    s.k.lists (.stEventList 0) = [1, 2] ∧
    (exec smallConfig s (.eventWrite 0 1#32)).k.lists (.stEventList 0) = [2] ∧
    Alert smallConfig s 0 := by
  have hr := Machine.Reaches.run (M := machine smallConfig)
    (.start ⟨_, 0, 1000, rfl, rfl⟩) [.task (.taskCreate (userTask 5 false) 2000),
      .task (.taskCreate (userTask 6 false) 3000), .task (.schedStart 0), .eventInit 0,
      .eventRead 0 1#32 2#32 losWaitForever false, .task (.taskSwitch 10),
      .eventRead 0 3#32 4#32 losWaitForever false] (by decide +kernel)
  exact ⟨_, hr, by decide +kernel, by decide +kernel, alert_of_reaches hr⟩

/-! ## What a read returns -/

/-- What is cleared leaves enough for each answered read that has not yet picked up its bits. -/
def Spares (c : Config) (s : EventSys) (op : EventOp) : Prop :=
  ∀ t < c.taskMaxNum, (op = .eventReadReturn → t ≠ s.k.runTask) →
    ∀ r ∈ s.calls.pc t, Granted s.k s.calls t r →
      EventCondition r.mask r.mode ((s.events r.event).uwEventID &&& ~~~s.cleared r.event op)

instance (c : Config) (s : EventSys) (op : EventOp) : Decidable (Spares c s op) := by
  unfold Spares
  infer_instance

structure KeepInv (c : Config) (s : EventSys) : Prop where
  inv : Inv c s
  granted : ∀ t r, Granted s.k s.calls t r →
    EventCondition r.mask r.mode (s.events r.event).uwEventID

theorem KeepInv.cleared (h : KeepInv c s) (hc : s.Clears op events') (hsp : Spares c s op)
    (ht : op = .eventReadReturn → t ≠ s.k.runTask) (hg : Granted s.k s.calls t r) :
    EventCondition r.mask r.mode (events' r.event).uwEventID := by
  obtain ⟨keep, hkeep, hcl⟩ := hc r.event
  have hcond := hsp t (h.inv.wait.live t r hg.1).1 ht r hg.1 hg
  generalize s.cleared r.event op = cleared at hcl hcond
  rw [← BitVec.not_or] at hcl
  rw [← eventCondition_and (by rw [hcl, BitVec.and_zero]),
    show (s.events r.event).uwEventID &&& ~~~cleared &&& (keep ||| cleared) =
      (s.events r.event).uwEventID &&& keep &&& ~~~cleared by ext i; grind] at hcond
  rw [hkeep]
  exact hcond.of_and

theorem KeepInv.step (h : KeepInv c s) (he : Enabled c s op) (hsp : Spares c s op) :
    KeepInv c (exec c s op) := by
  refine ⟨h.inv.step he, ?_⟩
  have hstep := h.inv.step_cases he
  generalize exec c s op = s' at hstep
  cases hstep with
  | task _ _ henv => exact fun t r hg => h.granted t r ((h.inv.wait.granted_env henv).mp hg)
  | cleared _ hop hc => exact fun t r hg => h.cleared hc hsp (fun e => absurd e hop) hg
  | blocked _ _ _ _ _ _ _ hk =>
    intro t r' hg
    obtain ⟨hpend, hother⟩ := taskCB_of_blocked hk
    have ht : t ≠ s.k.runTask := by
      rintro rfl
      simpa [hpend] using hg.2.1
    refine h.granted t r' ?_
    simpa [Granted, ht, hother t ht] using hg
  | returned _ _ _ _ _ hc =>
    intro t r' hg
    by_cases ht : t = s.k.runTask
    · subst ht
      exact absurd hg not_granted_leave
    · exact h.cleared hc hsp (fun _ => ht) ((granted_leave_of_ne ht).mp hg)
  | wrote e _ _ _ hs =>
    intro t r hg
    rw [setWord_word]
    rcases (h.inv.wait.granted_wakeSeq h.inv.run.sched.1 hs rfl
      fun u hu => (mem_filter.mp hu).1).mp hg with hg | ⟨hm, hr⟩
    · have hcond := h.granted t r hg
      split_ifs with he
      · exact he ▸ hcond.or
      · exact hcond
    · -- the write has woken the task because its condition holds now
      obtain ⟨hm, hmatch⟩ := mem_filter.mp hm
      obtain ⟨r', hr', he, hmask, hmode⟩ := h.inv.of_mem hm
      obtain rfl : r = r' := Option.some.inj (hr.symm.trans hr')
      rw [if_pos he, ← hmask, ← hmode]
      exact (h.inv.eventMatches_iff hm).mp (by simpa using hmatch)

theorem KeepInv.of_reaches (h : ((machine c).restrict (Spares c)).Reaches s) : KeepInv c s :=
  h.invariant (fun _ ⟨_, _, _, hk, hs⟩ => hs ▸ ⟨.init hk, fun _ _ hg => nomatch hg.1⟩)
    fun _ _ hinv ha => hinv.step ha.1 ha.2

/-- A read without a timeout that has waited and returns, returns what it asked for. -/
theorem eventRead_satisfied {r : EventRequest} (h : ((machine c).restrict (Spares c)).Reaches s)
    (hx : Executing c s.k) (hr : s.calls.pc s.k.runTask = some r)
    (hf : r.timeOut = losWaitForever) : ∃ ret,
      (s.k.losEventReadReturn s.events r.event r.mask r.mode).2.2 = .ok ret ∧ ret ≠ 0#32 ∧
        EventCondition r.mask r.mode ret := by
  have hk := KeepInv.of_reaches h
  obtain ⟨-, hto⟩ := hk.inv.forever _ r hr hf
  have hm := (hk.inv.asked _ r hr).1
  have hcond := hk.granted _ r ⟨hr, hx.pend, hto⟩
  refine ⟨r.mask &&& (s.events r.event).uwEventID, ?_, hcond.and_ne_zero hm,
    eventCondition_and_self.mpr hcond⟩
  have htimed := takeTimeout_snd.trans hto
  have hret := losEventPoll_snd (s.events r.event).uwEventID r.mode hm
  rw [if_pos hcond] at hret
  simp only [losEventReadReturn, htimed, Bool.false_eq_true, if_false]
  rw [← hret]

/-- A write comes while a task waits for its bit. -/
theorem eventRead_satisfied_written : ∃ s, ((machine smallConfig).restrict
      (Spares smallConfig)).Reaches s ∧
    s.calls.pc s.k.runTask = some ⟨0, 1#32, 2#32, losWaitForever⟩ ∧ ∃ ret,
      (s.k.losEventReadReturn s.events 0 1#32 2#32).2.2 = .ok ret ∧ ret ≠ 0#32 ∧
        EventCondition 1#32 2#32 ret := by
  have hr := Machine.Reaches.run (M := (machine smallConfig).restrict (Spares smallConfig))
    (.start ⟨_, 0, 1000, rfl, rfl⟩)
    [.task (.taskCreate (userTask 5 false) 2000), .task (.schedStart 0), .eventInit 0,
      .eventRead 0 1#32 2#32 losWaitForever false, .eventWrite 0 1#32] (by decide +kernel)
  exact ⟨_, hr, by decide +kernel, eventRead_satisfied (r := ⟨0, 1#32, 2#32, losWaitForever⟩) hr
    (by decide +kernel) (by decide +kernel) rfl⟩

/-- One write wakes two tasks that wait for the same bit and clear it. The second one to run finds
that the first has cleared it, and returns 0. -/
theorem eventRead_zero : ∃ s, (machine smallConfig).Reaches s ∧ Executing smallConfig s.k ∧
    s.calls.pc s.k.runTask = some ⟨0, 1#32, 3#32, losWaitForever⟩ ∧
    (s.k.losEventReadReturn s.events 0 1#32 3#32).2.2 = .ok 0#32 := by
  have hr := Machine.Reaches.run (M := machine smallConfig)
    (.start ⟨_, 0, 1000, rfl, rfl⟩) [.task (.taskCreate (userTask 5 false) 2000),
      .task (.taskCreate (userTask 6 false) 3000), .task (.schedStart 0), .eventInit 0,
      .eventRead 0 1#32 3#32 losWaitForever false, .task (.taskSwitch 10),
      .eventRead 0 1#32 3#32 losWaitForever false, .eventWrite 0 1#32,
      .task (.taskSwitch 20), .eventReadReturn,
      .task (.taskDelay false 5), .task (.taskSwitch 30)] (by decide +kernel)
  exact ⟨_, hr, by decide +kernel⟩

end EventSys

end LiteOS.Kernel
