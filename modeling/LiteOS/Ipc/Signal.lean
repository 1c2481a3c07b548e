import LiteOS.Ipc.SchedLock

/-!
# Signals

The rest of the model of `los_signal.c`. `LOS_SignalSend` locks the interrupts twice: first it puts
the information about the signal on the list of the target, then `SignalSend` makes the signal
pending and either wakes the target or sees to it that the target handles the signal. Other tasks
and interrupt handlers may run in between.

What the handlers do, and the stack frames that make a task enter `SignalEntry`, are left out.
-/

namespace LiteOS.Kernel

open Lib Sched Function

def siUser : ℕ := 0

/-- The information that `LOS_SignalSend` passes on. -/
def userInfo (sigNo : ℕ) : Siginfo := { siSigno := sigNo, siCode := siUser, siValue := 0 }

def osSignalValid (sigNo : ℕ) : Bool := decide (0 < sigNo ∧ sigNo ≤ losSignalSupportMax)

/-- `AddSigInfoToList`; `memAlloc` says whether there is memory for a new node. -/
def OsSigCB.addSigInfoToList (sigCB : OsSigCB) (info : Siginfo) (memAlloc : Bool) :
    Option OsSigCB :=
  if sigCB.sigInfoList.any (·.siSigno = info.siSigno) then
    let i := sigCB.sigInfoList.findIdx (·.siSigno = info.siSigno)
    some { sigCB with sigInfoList := sigCB.sigInfoList.set i info }
  else if memAlloc then some { sigCB with sigInfoList := info :: sigCB.sigInfoList }
  else none

/-- One pass of the loop of `SignalHandle`, up to the call of the handler. -/
def OsSigCB.signalHandle (sigCB : OsSigCB) (sigSetFlag : BitVec 32) : OsSigCB :=
  let sigFlag := sigCB.sigPendFlag &&& sigSetFlag
  if sigFlag = 0 then sigCB
  else
    let sigNo := losSignalSupportMax - sigFlag.clz.toNat + 1
    let sigCB := sigCB.deleteSigInfoFromList sigNo
    { sigCB with sigPendFlag := sigCB.sigPendFlag &&& ~~~losSignalMask sigNo }

/-- The first section of `LOS_SignalSend`; `sigSetFlag` is the member of that name in the signal
control blocks. -/
def losSignalSend (c : Config) (sig : TaskID → Option OsSigCB) (sigSetFlag : TaskID → BitVec 32)
    (taskID sigNo : ℕ) (memAlloc nodeAlloc : Bool) : (TaskID → Option OsSigCB) × Errno :=
  if taskID > c.tskLimit then (sig, .signalInvalid)
  else if !osSignalValid sigNo then (sig, .signalInvalid)
  else
    match signalCBInit (sig taskID) memAlloc with
    | none => (sig, .signalNoMemory)
    | some sigCB =>
      let store (sigCB : OsSigCB) := update sig taskID (some sigCB)
      if sigSetFlag taskID &&& losSignalMask sigNo = 0 then (store sigCB, .signalNoSet)
      else
        match sigCB.addSigInfoToList (userInfo sigNo) nodeAlloc with
        | none => (store sigCB, .signalNoMemory)
        | some sigCB => (store sigCB, .ok)

/-- `SignalSend` gets to `OsSchedTaskWake`. -/
def SendWakes (k : Sched) (sig : TaskID → Option OsSigCB) (t : TaskID) (sigNo : ℕ) : Prop :=
  ∃ sigCB ∈ sig t, t ≠ k.runTask ∧ sigCB.waiting ∧
    sigCB.sigWaitFlag &&& losSignalMask sigNo ≠ 0
deriving Decidable

/-- `SignalSend`, without the `SignalHandle` of a task that sends a signal to itself. A target that
neither runs nor waits for signals is sent to `SignalEntry`. -/
def Sched.signalSend (c : Config) (k : Sched) (sig : TaskID → Option OsSigCB) (t : TaskID)
    (sigNo : ℕ) : Sched × (TaskID → Option OsSigCB) :=
  match sig t with
  | none => (k, sig)
  | some sigCB =>
    let mask := losSignalMask sigNo
    let sigCB :=
      if sigCB.sigPendFlag &&& mask = 0 then
        { sigCB with sigPendFlag := sigCB.sigPendFlag ||| mask }
      else sigCB
    let store (sigCB : OsSigCB) := update sig t (some sigCB)
    if t = k.runTask then (k.setStatus t fun s => { s with signal := true }, store sigCB)
    else if sigCB.waiting then
      if sigCB.sigWaitFlag &&& mask ≠ 0 then
        ((k.osSchedTaskWake c t).setStatus t fun s => { s with signal := true },
          store (sigCB.deleteSigInfoFromList sigNo))
      else (k, store sigCB)
    else if !(k.status t).signal then
      (k.setStatus t fun s => { s with signal := true }, store sigCB)
    else (k, store sigCB)

/-- `LOS_SignalSet`, as far as it changes the installed signals; `ignore` is the handler
`SIG_IGN`. -/
def losSignalSet (sig : TaskID → Option OsSigCB) (sigSetFlag : TaskID → BitVec 32) (t : TaskID)
    (sigNo : ℕ) (ignore memAlloc : Bool) :
    (TaskID → Option OsSigCB) × (TaskID → BitVec 32) :=
  if !osSignalValid sigNo then (sig, sigSetFlag)
  else
    match signalCBInit (sig t) memAlloc with
    | none => (sig, sigSetFlag)
    | some sigCB =>
      let mask := losSignalMask sigNo
      let flag := if ignore then sigSetFlag t &&& ~~~mask else sigSetFlag t ||| mask
      (update sig t (some sigCB), update sigSetFlag t flag)

/-- The values of `how` -/
inductive MaskHow
  | sigBlock
  | sigSetmask
  | sigUnblock
  | other
deriving DecidableEq

/-- `LOS_SignalMask` -/
def losSignalMaskSet (sig : TaskID → Option OsSigCB) (sigSetFlag : TaskID → BitVec 32) (t : TaskID)
    (how : MaskHow) (set : Option (BitVec 32)) (memAlloc : Bool) :
    (TaskID → Option OsSigCB) × (TaskID → BitVec 32) × Errno :=
  match signalCBInit (sig t) memAlloc with
  | none => (sig, sigSetFlag, .signalNoMemory)
  | some sigCB =>
    let sig := update sig t (some sigCB)
    match set with
    | none => (sig, sigSetFlag, .signalInvalid)
    | some set =>
      let flag :=
        match how with
        | .sigBlock => sigSetFlag t &&& ~~~set
        | .sigSetmask => set
        | .sigUnblock => sigSetFlag t ||| set
        | .other => sigSetFlag t
      (sig, update sigSetFlag t flag, .ok)

/-! ## Runs -/

/-- A call of `LOS_SignalWait` that waits for the signals of a set. -/
structure SigRequest where
  set : BitVec 32
deriving DecidableEq

instance : Request SigRequest where
  head _ := .waitSignalList
  isWait _ := rfl

/-- The kernel and its signals. Not in the source: the calls of `LOS_SignalWait` that wait, the
targets and numbers of the calls of `LOS_SignalSend` that are between their two sections, how often
`SignalSend` has woken each task since it began to wait, and whether it has ever woken a task that
was not waiting. -/
structure SigSys where
  k : Sched
  sig : TaskID → Option OsSigCB := fun _ => none
  sigSetFlag : TaskID → BitVec 32 := fun _ => 0
  calls : Calls SigRequest := {}
  sending : List (TaskID × ℕ) := []
  wakes : TaskID → ℕ := fun _ => 0
  stray : Bool := false

/-- What tasks and interrupt handlers do. `signalHandle` is one pass of `SignalHandle` by the
running task, with its parameter `cleanStatus`; `signalEntryEnd` is the end of `SignalEntry`. -/
inductive SigOp
  | task (op : TaskOp)
  | signalSet (sigNo : ℕ) (ignore memAlloc : Bool)
  | signalMask (how : MaskHow) (set : Option (BitVec 32)) (memAlloc : Bool)
  | signalWait (set : Option (BitVec 32)) (memAlloc : Bool) (timeout : ℕ) (intActive : Bool)
  | signalWaitReturn
  | signalSend (taskID sigNo : ℕ) (memAlloc nodeAlloc : Bool)
  | signalSendRest (t : TaskID) (sigNo : ℕ)
  | signalHandle (cleanStatus : Bool)
  | signalEntryEnd
deriving DecidableEq

namespace SigSys

section

variable (c : Config) (s : SigSys)

/-- The first half of `LOS_SignalWait` by the running task. -/
def waited (set : Option (BitVec 32)) :
    Sched × (TaskID → Option OsSigCB) × Option (Except Errno ℕ) → SigSys
  | (k, sig, some _) => { s with k := k, sig := sig }
  | (k, sig, none) =>
    { s with
      k := k
      sig := sig
      calls := s.calls.enter s.k.runTask ⟨set.getD 0⟩
      wakes := update s.wakes s.k.runTask 0 }

/-- The first section of `LOS_SignalSend` -/
def sent (t : TaskID) (sigNo : ℕ) : (TaskID → Option OsSigCB) × Errno → SigSys
  | (sig, .ok) => { s with sig := sig, sending := (t, sigNo) :: s.sending }
  | (sig, _) => { s with sig := sig }

def Waits (k : Sched) (t : TaskID) : Prop :=
  t ∈ k.lists .waitSignalList ∧ (k.status t).pend
deriving Decidable

def exec : SigOp → SigSys
  | .task op => { s with k := op.exec c s.k }
  | .signalSet sigNo ignore memAlloc =>
    let (sig, sigSetFlag) := losSignalSet s.sig s.sigSetFlag s.k.runTask sigNo ignore memAlloc
    { s with sig := sig, sigSetFlag := sigSetFlag }
  | .signalMask how set memAlloc =>
    let (sig, sigSetFlag, _) := losSignalMaskSet s.sig s.sigSetFlag s.k.runTask how set memAlloc
    { s with sig := sig, sigSetFlag := sigSetFlag }
  | .signalWait set memAlloc timeout intActive =>
    s.waited set (s.k.losSignalWait s.sig set memAlloc timeout intActive)
  | .signalWaitReturn =>
    match s.calls.pc s.k.runTask with
    | none => s
    | some _ =>
      let (k, sig, _) := s.k.losSignalWaitReturn s.sig
      { s with k := k, sig := sig, calls := s.calls.leave s.k.runTask }
  | .signalSend taskID sigNo memAlloc nodeAlloc =>
    s.sent taskID sigNo (losSignalSend c s.sig s.sigSetFlag taskID sigNo memAlloc nodeAlloc)
  | .signalSendRest t sigNo =>
    let (k, sig) := s.k.signalSend c s.sig t sigNo
    let s' := { s with k := k, sig := sig, sending := s.sending.erase (t, sigNo) }
    if SendWakes s.k s.sig t sigNo then
      { s' with wakes := bump s.wakes t, stray := s.stray || !decide (Waits s.k t) }
    else s'
  | .signalHandle cleanStatus =>
    match s.sig s.k.runTask with
    | none => s
    | some sigCB =>
      { s with
        k :=
          if cleanStatus then s.k.setStatus s.k.runTask fun s => { s with signal := false } else s.k
        sig := update s.sig s.k.runTask
          (some (sigCB.signalHandle (s.sigSetFlag s.k.runTask))) }
  | .signalEntryEnd => { s with k := s.k.setStatus s.k.runTask fun s => { s with signal := false } }

/-- The running task executes its own code and is not inside `LOS_SignalWait`. -/
def Free : Prop := Executing c s.k ∧ s.calls.pc s.k.runTask = none
deriving Decidable

/-- When an operation can come. Signals are sent by anybody at any time. -/
def Enabled : SigOp → Prop
  | .task op => op.Enabled c s.k ∧ op.Gentle s.k
  | .signalSet _ _ _ => Free c s
  | .signalMask _ _ _ => Free c s
  | .signalWait _ _ _ intActive => intActive = false → Free c s
  | .signalWaitReturn => Executing c s.k ∧ s.calls.pc s.k.runTask ≠ none
  | .signalSend _ _ _ _ => True
  | .signalSendRest t sigNo => (t, sigNo) ∈ s.sending
  | .signalHandle _ => Free c s
  | .signalEntryEnd => Free c s

/-- Runs after `LOS_KernelInit`. -/
def machine : Machine SigSys SigOp where
  init s := ∃ k swtmrStack idleStack, losKernelInit c swtmrStack idleStack = (k, .ok) ∧
    s = { k := k }
  allowed := Enabled c
  step := exec c

end

instance (c : Config) (s : SigSys) (op : SigOp) : Decidable ((machine c).allowed s op) := by
  cases op <;> unfold machine Enabled <;> infer_instance

end SigSys

/-! ## What the functions do to the control blocks -/

/-- The signal control block of a task; a task that has none yet gets an empty one when it needs
it. -/
def sigCBOf (sig : TaskID → Option OsSigCB) (t : TaskID) : OsSigCB := (sig t).getD {}

section

variable {sig : TaskID → Option OsSigCB} {sigSetFlag : TaskID → BitVec 32} {t u : TaskID}
  {cb : OsSigCB} {sigNo : ℕ} {memAlloc ignore : Bool}

@[simp] theorem sigCBOf_update_self : sigCBOf (update sig t (some cb)) t = cb := by
  simp [sigCBOf]

theorem sigCBOf_update_of_ne (h : u ≠ t) : sigCBOf (update sig t (some cb)) u = sigCBOf sig u := by
  simp [sigCBOf, h]

theorem eq_of_signalCBInit (h : signalCBInit (sig t) memAlloc = some cb) : cb = sigCBOf sig t := by
  cases hs : sig t with
  | none =>
    simp only [hs, signalCBInit] at h
    split_ifs at h
    simpa [sigCBOf, hs] using h.symm
  | some => simpa [signalCBInit, hs, sigCBOf] using h.symm

theorem sigCBOf_update_init (h : signalCBInit (sig t) memAlloc = some cb) :
    sigCBOf (update sig t (some cb)) u = sigCBOf sig u := by
  by_cases hu : u = t
  · subst hu
    rw [sigCBOf_update_self]
    exact eq_of_signalCBInit h
  · exact sigCBOf_update_of_ne hu

@[simp] theorem losSignalSet_sig :
    sigCBOf (losSignalSet sig sigSetFlag t sigNo ignore memAlloc).1 u = sigCBOf sig u := by
  by_cases hvalid : (!osSignalValid sigNo)
  · rw [losSignalSet, if_pos hvalid]
  · rw [losSignalSet, if_neg hvalid]
    cases h : signalCBInit (sig t) memAlloc with
    | none => rfl
    | some => exact sigCBOf_update_init h

@[simp] theorem losSignalMaskSet_sig {how : MaskHow} {set : Option (BitVec 32)} :
    sigCBOf (losSignalMaskSet sig sigSetFlag t how set memAlloc).1 u = sigCBOf sig u := by
  simp only [losSignalMaskSet]
  cases h : signalCBInit (sig t) memAlloc with
  | none => rfl
  | some =>
    cases set with
    | none => exact sigCBOf_update_init h
    | some => exact sigCBOf_update_init h

theorem losSignalSend_spec (c : Config) (sig : TaskID → Option OsSigCB)
    (sigSetFlag : TaskID → BitVec 32) (t : TaskID) (sigNo : ℕ) (memAlloc nodeAlloc : Bool) :
    ((losSignalSend c sig sigSetFlag t sigNo memAlloc nodeAlloc).2 ≠ .ok ∧ ∀ u,
      sigCBOf (losSignalSend c sig sigSetFlag t sigNo memAlloc nodeAlloc).1 u = sigCBOf sig u) ∨
    ((losSignalSend c sig sigSetFlag t sigNo memAlloc nodeAlloc).2 = .ok ∧ osSignalValid sigNo ∧
      ∃ cb, (sigCBOf sig t).addSigInfoToList (userInfo sigNo) nodeAlloc = some cb ∧
        (losSignalSend c sig sigSetFlag t sigNo memAlloc nodeAlloc).1 =
          update sig t (some cb)) := by
  by_cases hid : t > c.tskLimit
  · rw [losSignalSend, if_pos hid]
    exact .inl ⟨by simp, fun _ => rfl⟩
  by_cases hvalid : (!osSignalValid sigNo)
  · rw [losSignalSend, if_neg hid, if_pos hvalid]
    exact .inl ⟨by simp, fun _ => rfl⟩
  rw [losSignalSend, if_neg hid, if_neg hvalid]
  cases hcb : signalCBInit (sig t) memAlloc with
  | none => exact .inl ⟨by simp, fun _ => rfl⟩
  | some cb =>
    dsimp only
    split_ifs with hset
    · exact .inl ⟨by simp, fun _ => sigCBOf_update_init hcb⟩
    · cases hadd : cb.addSigInfoToList (userInfo sigNo) nodeAlloc with
      | none => exact .inl ⟨by simp, fun _ => sigCBOf_update_init hcb⟩
      | some cb' =>
        right
        rw [eq_of_signalCBInit hcb] at hadd
        exact ⟨rfl, by simpa using hvalid, cb', hadd, rfl⟩

theorem losSignalWait_spec (k : Sched) (sig : TaskID → Option OsSigCB) (set : Option (BitVec 32))
    (memAlloc : Bool) (timeout : ℕ) (intActive : Bool) :
    (∃ sig' err, k.losSignalWait sig set memAlloc timeout intActive =
        (k, sig', some (.error err)) ∧ ∀ u, sigCBOf sig' u = sigCBOf sig u) ∨
    (∃ w, set = some w ∧ (sigCBOf sig k.runTask).sigPendFlag &&& w ≠ 0 ∧
      k.losSignalWait sig set memAlloc timeout intActive =
        (k, update sig k.runTask (some (OsSigCB.deleteSigInfoFromList { sigCBOf sig k.runTask with
            sigPendFlag := (sigCBOf sig k.runTask).sigPendFlag ^^^
              ((sigCBOf sig k.runTask).sigPendFlag &&& w) }
          (losSignalSupportMax - ((sigCBOf sig k.runTask).sigPendFlag &&& w).clz.toNat + 1))),
        some (.ok
          (losSignalSupportMax - ((sigCBOf sig k.runTask).sigPendFlag &&& w).clz.toNat + 1)))) ∨
    (∃ w, set = some w ∧ (sigCBOf sig k.runTask).sigPendFlag &&& w = 0 ∧ intActive = false ∧
      k.losSignalWait sig set memAlloc timeout intActive =
        (k.osSchedTaskWait .waitSignalList timeout, update sig k.runTask (some
          { sigCBOf sig k.runTask with
            sigWaitFlag := (sigCBOf sig k.runTask).sigWaitFlag ||| w
            waiting := true }), none)) := by
  rcases set with _ | w
  · exact .inl ⟨sig, _, rfl, fun _ => rfl⟩
  by_cases hw : w = 0
  · subst hw
    exact .inl ⟨sig, _, rfl, fun _ => rfl⟩
  simp only [losSignalWait, hw, if_false]
  cases hcb : signalCBInit (sig k.runTask) memAlloc with
  | none => exact .inl ⟨sig, _, rfl, fun _ => rfl⟩
  | some =>
    obtain rfl := eq_of_signalCBInit hcb
    dsimp only
    split_ifs with hflag htime hint
    · exact .inr (.inl ⟨w, rfl, hflag, rfl⟩)
    · exact .inl ⟨_, _, rfl, fun _ => sigCBOf_update_init hcb⟩
    · exact .inl ⟨_, _, rfl, fun _ => sigCBOf_update_init hcb⟩
    · exact .inr (.inr ⟨w, rfl, not_not.mp hflag, by simpa using hint, rfl⟩)

end

end LiteOS.Kernel
