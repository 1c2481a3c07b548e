import LiteOS.Kernel.Blocking

/-!
# Event groups

The model of `los_event.c`. `LOS_EventRead` is split at its `LOS_Schedule`: `losEventRead` answers
`none` when the running task begins to wait, and `losEventReadReturn` is what the task does when it
is dispatched again. A mask that is returned is told from an error number by its type; in the source
it is by the bit `LOS_ERRTYPE_ERROR`, which no event mask has.
-/

namespace LiteOS.Kernel

open Lib Function

def losWaitmodeAnd : BitVec 32 := 4

def losWaitmodeOr : BitVec 32 := 2

def losWaitmodeClr : BitVec 32 := 1

def losErrtypeError : BitVec 32 := 0x02000000

/-- `EVENT_CB_S`; its `stEventList` is the list head `stEventList` of the block's index. -/
structure EventCB where
  /-- The pointers of `stEventList` are not null. -/
  initialized : Bool := false
  uwEventID : BitVec 32 := 0#32
deriving DecidableEq, Repr

abbrev Events := ℕ → EventCB

/-- `LOS_EventPoll`: the word afterwards and the result. -/
def losEventPoll (eventID eventMask mode : BitVec 32) : BitVec 32 × BitVec 32 :=
  let ret :=
    if mode &&& losWaitmodeOr ≠ 0#32 then
      if eventID &&& eventMask ≠ 0#32 then eventID &&& eventMask else 0#32
    else if eventMask ≠ 0#32 ∧ eventMask = eventID &&& eventMask then eventID &&& eventMask
    else 0#32
  (if ret ≠ 0#32 ∧ mode &&& losWaitmodeClr ≠ 0#32 then eventID &&& ~~~ret else eventID, ret)

def osEventReadParamCheck (eventCB : EventCB) (eventMask mode : BitVec 32) : Errno :=
  if !eventCB.initialized then .eventNotInitialized
  else if eventMask = 0#32 then .eventEventmaskInvalid
  else if eventMask &&& losErrtypeError ≠ 0#32 then .eventSetbitInvalid
  else if (mode &&& losWaitmodeOr ≠ 0#32 ∧ mode &&& losWaitmodeAnd ≠ 0#32) ∨
      mode &&& ~~~(losWaitmodeOr ||| losWaitmodeAnd ||| losWaitmodeClr) ≠ 0#32 ∨
      mode &&& (losWaitmodeOr ||| losWaitmodeAnd) = 0#32 then .eventFlagsInvalid
  else .ok

namespace Events

def setWord (events : Events) (event : ℕ) (word : BitVec 32) : Events :=
  update events event { events event with uwEventID := word }

end Events

namespace Sched

section

variable (k : Sched) (events : Events)

def losEventInit (event : ℕ) : Sched × Events :=
  ({ k with lists := update k.lists (.stEventList event) [] },
    update events event { initialized := true, uwEventID := 0#32 })

/-- `LOS_EventRead` up to its `LOS_Schedule` -/
def losEventRead (event : ℕ) (eventMask mode : BitVec 32)
    (timeOut : ℕ) (intActive : Bool) : Sched × Events × Option (Except Errno (BitVec 32)) :=
  let ret := osEventReadParamCheck (events event) eventMask mode
  if ret ≠ .ok then (k, events, some (.error ret))
  else if intActive then (k, events, some (.error .eventReadInInterrupt))
  else if (k.status k.runTask).systemTask then
    (k, events, some (.error .eventReadInSystemTask))
  else
    let (word, ret) := losEventPoll (events event).uwEventID eventMask mode
    if ret = 0#32 then
      if timeOut = 0 then (k, events.setWord event word, some (.ok ret))
      else if k.losTaskLock ≠ 0 then
        (k, events.setWord event word, some (.error .eventReadInLock))
      else
        let k := k.modifyTCB k.runTask fun cb =>
          { cb with eventMask := eventMask, eventMode := mode }
        (k.osSchedTaskWait (.stEventList event) timeOut, events.setWord event word, none)
    else (k, events.setWord event word, some (.ok ret))

/-- The rest of `LOS_EventRead` -/
def losEventReadReturn (event : ℕ) (eventMask mode : BitVec 32) :
    Sched × Events × Except Errno (BitVec 32) :=
  let (k, timedOut) := k.takeTimeout k.runTask
  if timedOut then (k, events, .error .eventReadTimeout)
  else
    let (word, ret) := losEventPoll (events event).uwEventID eventMask mode
    (k, events.setWord event word, .ok ret)

/-- The test of `LOS_EventWrite`: the new bits for `OR`, the whole word for `AND`. -/
def eventMatches (cb : TaskCB) (events word : BitVec 32) : Prop :=
  (cb.eventMode &&& losWaitmodeOr ≠ 0#32 ∧ cb.eventMask &&& events ≠ 0#32) ∨
    (cb.eventMode &&& losWaitmodeAnd ≠ 0#32 ∧ cb.eventMask &&& word = cb.eventMask)

instance (cb : TaskCB) (events word : BitVec 32) : Decidable (eventMatches cb events word) := by
  unfold eventMatches
  infer_instance

/-- The loop of `LOS_EventWrite` over the waiting tasks, from `resumedTask` on. The next task is
read before the wake unlinks `resumedTask`. -/
def eventWriteLoop (c : Config) (event : ℕ) (events word : BitVec 32) :
    ℕ → Option TaskID → Sched → Sched
  | 0, _, k => k
  | _ + 1, none, k => k
  | fuel + 1, some resumedTask, k =>
    let nextTask := Rings.next k.lists (.stEventList event) resumedTask
    let k :=
      if eventMatches (k.taskCB resumedTask) events word then k.osSchedTaskWake c resumedTask
      else k
    eventWriteLoop c event events word fuel nextTask k

def losEventWrite (c : Config) (k : Sched) (events : Events) (event : ℕ) (bits : BitVec 32) :
    Sched × Events × Errno :=
  if !(events event).initialized then (k, events, .eventNotInitialized)
  else if bits &&& losErrtypeError ≠ 0#32 then (k, events, .eventSetbitInvalid)
  else
    let word := (events event).uwEventID ||| bits
    (eventWriteLoop c event bits word (k.lists (.stEventList event)).length
      (k.lists (.stEventList event)).head? k, events.setWord event word, .ok)

def losEventDestroy (event : ℕ) : Events × Errno :=
  if k.lists (.stEventList event) ≠ [] then (events, .eventShouldNotDestroyed)
  else (update events event { events event with initialized := false }, .ok)

def losEventClear (event : ℕ) (eventMask : BitVec 32) : Events :=
  events.setWord event ((events event).uwEventID &&& eventMask)

end

end Sched

/-! ## What a waiting task waits for -/

/-- The condition of a read: some bit of its mask for `OR`, all of them for `AND`. -/
def EventCondition (mask mode word : BitVec 32) : Prop :=
  if mode &&& losWaitmodeOr ≠ 0#32 then mask &&& word ≠ 0#32 else mask &&& word = mask
deriving Decidable

variable {mask mode word bits keep : BitVec 32}

/-- A read that passes its checks asks for something, with exactly one of `OR` and `AND`. -/
theorem osEventReadParamCheck_ok {cb : EventCB} (h : osEventReadParamCheck cb mask mode = .ok) :
    cb.initialized ∧ mask ≠ 0#32 ∧
      (mode &&& losWaitmodeAnd ≠ 0#32 ↔ ¬mode &&& losWaitmodeOr ≠ 0#32) := by
  simp only [osEventReadParamCheck] at h
  split_ifs at h with hinit hmask hbit hmode
  obtain ⟨hboth, -, hone⟩ := by simpa only [not_or] using hmode
  refine ⟨by simpa using hinit, hmask, fun ha ho => hboth ⟨ho, ha⟩, fun ho ha => hone ?_⟩
  rw [BitVec.and_or_distrib_left, not_not.mp ho, ha, BitVec.or_zero]

theorem losEventPoll_snd (word mode : BitVec 32) (hm : mask ≠ 0#32) :
    (losEventPoll word mask mode).2 =
    if EventCondition mask mode word then mask &&& word else 0#32 := by
  simp only [losEventPoll, EventCondition, BitVec.and_comm word mask]
  by_cases ho : mode &&& losWaitmodeOr = 0#32 <;> simp [ho, hm, eq_comm]

theorem EventCondition.and_ne_zero (hm : mask ≠ 0#32) (h : EventCondition mask mode word) :
    mask &&& word ≠ 0#32 := by
  unfold EventCondition at h
  split_ifs at h with ho
  · exact h
  · rwa [h]

theorem losEventPoll_eq_zero (hm : mask ≠ 0#32) :
    (losEventPoll word mask mode).2 = 0#32 ↔ ¬EventCondition mask mode word := by
  rw [losEventPoll_snd word mode hm]
  by_cases hc : EventCondition mask mode word
  · simpa [hc] using hc.and_ne_zero hm
  · simp [hc]

theorem losEventPoll_fst_of_eq_zero (h : (losEventPoll word mask mode).2 = 0#32) :
    (losEventPoll word mask mode).1 = word := if_neg fun hc => hc.1 h

theorem losEventPoll_fst (word mask mode : BitVec 32) :
    ∃ keep, (losEventPoll word mask mode).1 = word &&& keep ∧
    (mode &&& losWaitmodeClr = 0#32 → keep = BitVec.allOnes 32) ∧ ~~~keep &&& ~~~mask = 0#32 := by
  by_cases hc : (losEventPoll word mask mode).2 ≠ 0#32 ∧ mode &&& losWaitmodeClr ≠ 0#32
  · refine ⟨~~~(losEventPoll word mask mode).2, ?_, fun h => absurd h hc.2, ?_⟩
    · simp only [losEventPoll] at hc ⊢
      rw [if_pos hc]
    · simp only [losEventPoll]
      split_ifs <;> ext i <;> simp +contextual
  · refine ⟨BitVec.allOnes 32, ?_, fun _ => rfl, by simp⟩
    simp only [losEventPoll] at hc ⊢
    rw [if_neg hc, BitVec.and_allOnes]

theorem EventCondition.of_and (h : EventCondition mask mode (word &&& keep)) :
    EventCondition mask mode word := by
  unfold EventCondition at h ⊢
  split_ifs at h ⊢ with ho
  · intro hz
    exact h (by rw [← BitVec.and_assoc, hz, BitVec.zero_and])
  · rw [← BitVec.and_assoc] at h
    calc mask &&& word = (mask &&& word) &&& keep &&& word := by rw [h]
      _ = (mask &&& word) &&& keep := by ext i; grind
      _ = mask := h

theorem EventCondition.or (h : EventCondition mask mode word) :
    EventCondition mask mode (word ||| bits) := by
  unfold EventCondition at h ⊢
  rw [BitVec.and_or_distrib_left]
  split_ifs at h ⊢ with ho
  · intro hz
    refine h ?_
    calc mask &&& word = (mask &&& word) &&& ((mask &&& word) ||| (mask &&& bits)) := by
          ext i; grind
      _ = 0#32 := by rw [hz, BitVec.and_zero]
  · rw [h]
    ext i
    grind

theorem eventCondition_and_self :
    EventCondition mask mode (mask &&& word) ↔ EventCondition mask mode word := by
  simp only [EventCondition, ← BitVec.and_assoc, BitVec.and_self]

/-- Clearing bits that a read does not ask for does not matter to it. -/
theorem eventCondition_and (h : mask &&& ~~~keep = 0#32) :
    EventCondition mask mode (word &&& keep) ↔ EventCondition mask mode word := by
  have hk : mask &&& (word &&& keep) = mask &&& word := by
    calc mask &&& (word &&& keep) = (mask &&& word &&& keep) ||| ((mask &&& ~~~keep) &&& word) := by
          rw [h, BitVec.zero_and, BitVec.or_zero, BitVec.and_assoc]
      _ = mask &&& word := by ext i; grind
  simp only [EventCondition, hk]

/-- While the condition does not hold, the test of a write is that it becomes true. -/
theorem eventMatches_iff {cb : TaskCB}
    (hmode : cb.eventMode &&& losWaitmodeAnd ≠ 0#32 ↔ ¬cb.eventMode &&& losWaitmodeOr ≠ 0#32)
    (hn : ¬EventCondition cb.eventMask cb.eventMode word) :
    Sched.eventMatches cb bits (word ||| bits) ↔
      EventCondition cb.eventMask cb.eventMode (word ||| bits) := by
  unfold Sched.eventMatches EventCondition at *
  by_cases ho : cb.eventMode &&& losWaitmodeOr ≠ 0#32
  · rw [if_pos ho, not_not] at hn
    have ha : ¬cb.eventMode &&& losWaitmodeAnd ≠ 0#32 := fun ha => hmode.mp ha ho
    rw [if_pos ho, BitVec.and_or_distrib_left, hn, BitVec.zero_or]
    exact ⟨fun h => h.elim (·.2) fun h => absurd h.1 ha, fun h => .inl ⟨ho, h⟩⟩
  · rw [if_neg ho]
    exact ⟨fun h => h.elim (fun h => absurd h.1 ho) (·.2), fun h => .inr ⟨hmode.mpr ho, h⟩⟩

end LiteOS.Kernel
