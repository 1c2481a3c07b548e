import LiteOS.Ipc.Signal

/-!
# Whom a signal wakes

`SignalSend` decides from `OS_SIGNAL_STATUS_WAIT` whether its target waits, and the target itself
clears that flag when it runs again. A signal that comes between the end of the wait, by another
signal or by the timeout, and the time when the target runs again wakes a task that is ready
already.
-/

namespace LiteOS.Kernel

open Lib Sched Function OsSigCB TaskView BitVec

variable {c : Config} {pm : Prop} {k : Sched} {sig : TaskID → Option OsSigCB} {t u : TaskID}
  {cb cb' : OsSigCB} {sigNo : ℕ} {memAlloc b : Bool} {flag : BitVec 32}

/-! ## The control blocks -/

def OsSigCB.raise (cb : OsSigCB) (sigNo : ℕ) : OsSigCB :=
  if cb.sigPendFlag &&& losSignalMask sigNo = 0 then
    { cb with sigPendFlag := cb.sigPendFlag ||| losSignalMask sigNo }
  else cb

/-- A signal of the wait set is pending. -/
def OsSigCB.Raised (cb : OsSigCB) : Prop := cb.sigPendFlag &&& cb.sigWaitFlag ≠ 0
deriving Decidable

@[simp] theorem raise_waiting : (cb.raise sigNo).waiting = cb.waiting := by
  simp only [raise]
  split_ifs <;> rfl

@[simp] theorem raise_sigWaitFlag : (cb.raise sigNo).sigWaitFlag = cb.sigWaitFlag := by
  simp only [raise]
  split_ifs <;> rfl

@[simp] theorem raise_sigInfoList : (cb.raise sigNo).sigInfoList = cb.sigInfoList := by
  simp only [raise]
  split_ifs <;> rfl

@[simp] theorem raise_sigInfo : (cb.raise sigNo).sigInfo = cb.sigInfo := by
  simp only [raise]
  split_ifs <;> rfl

@[simp] theorem deleteSigInfoFromList_waiting :
    (cb.deleteSigInfoFromList sigNo).waiting = cb.waiting := by
  simp only [deleteSigInfoFromList]
  split <;> rfl

@[simp] theorem deleteSigInfoFromList_sigWaitFlag :
    (cb.deleteSigInfoFromList sigNo).sigWaitFlag = cb.sigWaitFlag := by
  simp only [deleteSigInfoFromList]
  split <;> rfl

@[simp] theorem deleteSigInfoFromList_sigPendFlag :
    (cb.deleteSigInfoFromList sigNo).sigPendFlag = cb.sigPendFlag := by
  simp only [deleteSigInfoFromList]
  split <;> rfl

@[simp] theorem signalHandle_waiting :
    (cb.signalHandle flag).waiting = cb.waiting := by
  simp only [signalHandle]
  split_ifs
  · rfl
  · exact deleteSigInfoFromList_waiting

@[simp] theorem signalHandle_sigWaitFlag :
    (cb.signalHandle flag).sigWaitFlag = cb.sigWaitFlag := by
  simp only [signalHandle]
  split_ifs
  · rfl
  · exact deleteSigInfoFromList_sigWaitFlag

theorem addSigInfoToList_eq {info : Siginfo} (h : cb.addSigInfoToList info memAlloc = some cb') :
    ∃ l, cb' = { cb with sigInfoList := l } := by
  simp only [addSigInfoToList] at h
  split_ifs at h <;> exact ⟨_, (Option.some.inj h).symm⟩

theorem getLsbD_losSignalMask {n : ℕ} (hn : 0 < n) (i : ℕ) :
    (losSignalMask n).getLsbD i = decide (i = n - 1 ∧ i < 32) := by
  rw [losSignalMask, if_neg hn.ne', natCast_eq_ofNat, getLsbD_ofNat,
    Nat.one_shiftLeft, Nat.testBit_two_pow]
  by_cases hi : i < 32 <;> simp [hi, eq_comm]

theorem ne_zero_iff_getLsbD {w : BitVec 32} : w ≠ 0 ↔ ∃ i, w.getLsbD i := by
  constructor
  · intro hne
    by_contra! hbits
    exact hne (eq_of_getLsbD_eq fun i _ => by simpa using hbits i)
  · rintro ⟨i, hi⟩ rfl
    simp at hi

theorem Raised.raise (h : cb.Raised) : (cb.raise sigNo).Raised := by
  rw [Raised, raise_sigWaitFlag, ne_zero_iff_getLsbD]
  obtain ⟨i, hi⟩ := ne_zero_iff_getLsbD.mp h
  refine ⟨i, ?_⟩
  simp only [OsSigCB.raise]
  split_ifs <;> simp_all

/-- A signal of the wait set has one bit, so it is pending however it became so. -/
theorem raised_raise (h : cb.sigWaitFlag &&& losSignalMask sigNo ≠ 0) :
    (cb.raise sigNo).Raised := by
  have hpos : 0 < sigNo := Nat.pos_of_ne_zero fun hz => h (by simp [hz, losSignalMask])
  have hbit : ∀ {w}, w &&& losSignalMask sigNo ≠ 0 → sigNo - 1 < 32 ∧ w.getLsbD (sigNo - 1) := by
    intro w hw
    obtain ⟨i, hi⟩ := ne_zero_iff_getLsbD.mp hw
    rw [getLsbD_and, getLsbD_losSignalMask hpos, Bool.and_eq_true, decide_eq_true_eq] at hi
    obtain ⟨hi, rfl, hlt⟩ := hi
    exact ⟨hlt, hi⟩
  obtain ⟨hlt, hwait⟩ := hbit h
  rw [Raised, raise_sigWaitFlag, ne_zero_iff_getLsbD]
  refine ⟨sigNo - 1, ?_⟩
  simp only [OsSigCB.raise]
  split_ifs with hp
  · simp [getLsbD_losSignalMask hpos, hlt, hwait]
  · simp [(hbit hp).2, hwait]

/-- The block `cb'` says of a wait what `cb` says; `busy` stands for a call in progress. -/
def OsSigCB.Keeps (busy : Prop) (cb cb' : OsSigCB) : Prop :=
  cb'.waiting = cb.waiting ∧ (busy → cb.Raised → cb'.Raised)

theorem OsSigCB.Keeps.of_eq {busy : Prop} (h : cb' = cb) : cb.Keeps busy cb' :=
  ⟨congrArg _ h, fun _ hr => h ▸ hr⟩

theorem keeps_update (busy : TaskID → Prop) (h : (sigCBOf sig t).Keeps (busy t) cb) (u : TaskID) :
    (sigCBOf sig u).Keeps (busy u) (sigCBOf (update sig t (some cb)) u) := by
  by_cases hu : u = t
  · subst hu
    rwa [sigCBOf_update_self]
  · exact .of_eq (sigCBOf_update_of_ne hu)

/-! ## `SignalSend` -/

theorem sendWakes_iff : SendWakes k sig t sigNo ↔ sig t ≠ none ∧ t ≠ k.runTask ∧
    (sigCBOf sig t).waiting ∧ (sigCBOf sig t).sigWaitFlag &&& losSignalMask sigNo ≠ 0 := by
  cases h : sig t <;> simp [SendWakes, h, sigCBOf]

theorem signalSend_of_wakes (h : SendWakes k sig t sigNo) : k.signalSend c sig t sigNo =
    ((k.osSchedTaskWake c t).setStatus t fun s => { s with signal := true }, update sig t
        (some (((sigCBOf sig t).raise sigNo).deleteSigInfoFromList sigNo))) := by
  obtain ⟨cb, hcb, hrun, hwait, hmask⟩ := h
  have hraise : (if cb.sigPendFlag &&& losSignalMask sigNo = 0 then
      { cb with sigPendFlag := cb.sigPendFlag ||| losSignalMask sigNo } else cb) =
      cb.raise sigNo := rfl
  have hof : sigCBOf sig t = cb := by simp [sigCBOf, Option.mem_def.mp hcb]
  simp only [Sched.signalSend, Option.mem_def.mp hcb, hraise, raise_waiting, raise_sigWaitFlag, hof]
  rw [if_neg hrun, if_pos hwait, if_pos hmask]

theorem signalSend_of_none (h : sig t = none) : k.signalSend c sig t sigNo = (k, sig) := by
  simp only [Sched.signalSend, h]

/-- Otherwise the signal only becomes pending, and the target may be marked. -/
theorem signalSend_of_not_wakes (h : ¬SendWakes k sig t sigNo) (hs : sig t ≠ none) :
    (k.signalSend c sig t sigNo).2 = update sig t (some ((sigCBOf sig t).raise sigNo)) ∧
      ((k.signalSend c sig t sigNo).1 = k ∨
        (k.signalSend c sig t sigNo).1 = k.setStatus t fun s => { s with signal := true }) := by
  obtain ⟨cb, hcb⟩ := Option.ne_none_iff_exists'.mp hs
  have hraise : (if cb.sigPendFlag &&& losSignalMask sigNo = 0 then
      { cb with sigPendFlag := cb.sigPendFlag ||| losSignalMask sigNo } else cb) =
      cb.raise sigNo := rfl
  have hof : sigCBOf sig t = cb := by simp [sigCBOf, hcb]
  rw [sendWakes_iff, hof] at h
  simp only [Sched.signalSend, hcb, hraise, raise_waiting, raise_sigWaitFlag, hof]
  split_ifs with hrun hwait hmask hmark
  · exact ⟨rfl, .inr rfl⟩
  · exact absurd ⟨hs, hrun, hwait, hmask⟩ h
  · exact ⟨rfl, .inl rfl⟩
  · exact ⟨rfl, .inr rfl⟩
  · exact ⟨rfl, .inl rfl⟩

theorem losSignalWaitReturn_spec (k : Sched) (sig : TaskID → Option OsSigCB) :
    (k.losSignalWaitReturn sig).1 = ((k.setStatus k.runTask fun s =>
        { s with signal := false }).takeTimeout k.runTask).1 ∧
      (((k.status k.runTask).timeout ∧ (k.losSignalWaitReturn sig).2 = (update sig k.runTask (some
          { sigCBOf sig k.runTask with waiting := false, sigWaitFlag := 0 }),
        .error .signalTimeout)) ∨
      ((k.status k.runTask).timeout = false ∧ (k.losSignalWaitReturn sig).2 =
        (update sig k.runTask (some { sigCBOf sig k.runTask with
            waiting := false
            sigWaitFlag := 0
            sigPendFlag := (sigCBOf sig k.runTask).sigPendFlag &&&
              ~~~losSignalMask (sigCBOf sig k.runTask).sigInfo.siSigno }),
        .ok (sigCBOf sig k.runTask).sigInfo.siSigno))) := by
  have hto : ((k.setStatus k.runTask fun s => { s with signal := false }).takeTimeout
      k.runTask).2 = (k.status k.runTask).timeout := by
    rw [takeTimeout_snd]
    simp
  simp only [losSignalWaitReturn, setStatus_runTask, hto]
  cases (k.status k.runTask).timeout with
  | true => exact ⟨rfl, .inl ⟨rfl, rfl⟩⟩
  | false => exact ⟨rfl, .inr ⟨rfl, rfl⟩⟩

theorem RunInv.mark (h : RunInv c pm k) :
    RunInv c pm (k.setStatus t fun s => { s with signal := b }) ∧
      Quiet k (k.setStatus t fun s => { s with signal := b }) := by
  have hq : Quiet k (k.setStatus t fun s => { s with signal := b }) := .modifyTCB rfl
  refine ⟨h.of_same (.modifyTCB ..) (InvWith.modifyTCB h.sched.1 rfl rfl rfl ?_)
    (h.join.of_quiet hq), hq⟩
  exact ⟨rfl, rfl, rfl, rfl, rfl, rfl, rfl, rfl, rfl, rfl⟩

theorem modifyTCB_id : k.modifyTCB t id = k := by
  simp [modifyTCB]

theorem RunInv.wakeTask {i : ListHead} (h : RunInv c pm k) (hi : i.isWait)
    (hm : t ∈ k.lists i) (hfz : (k.status t).freeze = false) :
    RunInv c pm (k.osSchedTaskWake c t) ∧ Wakes t k (k.osSchedTaskWake c t) := by
  have hw := h.wake (f := id) hi hm hfz ⟨_, _, rfl⟩
  rwa [modifyTCB_id] at hw

namespace SigSys

structure WokenOnce (k : Sched) (t : TaskID) (n : ℕ) : Prop where
  le : n ≤ 1
  waits : (k.status t).pend → n = 0
  ended : n = 0 → (k.status t).pend ∨ (k.status t).timeout

/-- The flags of the signal control blocks agree with the calls. -/
structure WakeInv (c : Config) (s : SigSys) : Prop where
  run : RunInv c False s.k
  wait : WaitInv c s.k s.calls
  flags : ∀ t, (sigCBOf s.sig t).waiting = (s.calls.pc t).isSome
  wakes : ∀ t, s.calls.pc t ≠ none → WokenOnce s.k t (s.wakes t)
  raised : ∀ t, s.calls.pc t ≠ none → s.wakes t ≠ 0 → (sigCBOf s.sig t).Raised
  stray : s.stray = false

/-- A signal of the wait set is sent to a waiting task only if the wait has neither been ended by
another signal nor timed out. -/
def Unended (s : SigSys) : SigOp → Prop
  | .signalWait _ _ _ _ => s.calls.pc s.k.runTask = none
  | .signalSendRest t sigNo => SendWakes s.k s.sig t sigNo →
      s.wakes t = 0 ∧ (s.k.status t).timeout = false
  | _ => True

/-- A signal of the wait set is sent to a waiting task only while no signal of the set is pending,
and not after the timeout. An interrupt handler calls `LOS_SignalWait` only while the task that it
has interrupted is in no such call. -/
def Spaced (s : SigSys) : SigOp → Prop
  | .signalWait _ _ _ _ => s.calls.pc s.k.runTask = none
  | .signalSendRest t sigNo => SendWakes s.k s.sig t sigNo →
      ¬(sigCBOf s.sig t).Raised ∧ (s.k.status t).timeout = false
  | _ => True

variable {s : SigSys} {op : SigOp} {k' : Sched} {sig' : TaskID → Option OsSigCB} {w : BitVec 32}
  {b memAlloc intActive nodeAlloc : Bool} {n timeout taskID swtmrStack idleStack : ℕ}

instance (s : SigSys) (op) : Decidable (Spaced s op) := by
  induction op using SigOp.casesOn <;> unfold Spaced <;> infer_instance

theorem WokenOnce.env (h : WokenOnce k t n) (he : Env k k')
    (hu : (k.status t).unused = false) : WokenOnce k' t n := by
  rcases he.wait t hu with ⟨hp, hto⟩ | ⟨hp, hp', hto'⟩
  · exact ⟨h.le, fun hw => h.waits (hp.symm.trans hw), fun hn => by rw [hp, hto]; exact h.ended hn⟩
  · exact ⟨h.le, fun hw => absurd (hp'.symm.trans hw) (by simp), fun _ => .inr hto'⟩

theorem WakeInv.env (h : WakeInv c s) (hrun : RunInv c False k') (he : Env s.k k') :
    WakeInv c { s with k := k' } :=
  { h with
    run := hrun
    wait := h.wait.env hrun.sched.1 he
    wakes := fun t ht => by
      obtain ⟨r, hr⟩ := Option.ne_none_iff_exists'.mp ht
      exact (h.wakes t ht).env he (h.wait.live t r hr).2.1 }

theorem WakeInv.mark (h : WakeInv c s) :
    WakeInv c { s with k := s.k.setStatus t fun s => { s with signal := b } } := by
  obtain ⟨hrun, hq⟩ := RunInv.mark h.run
  exact h.env hrun (h.run.sched.1.env_of_quiet hq)

/-- A step that writes to control blocks and leaves what they say of the waits alone. -/
theorem WakeInv.store (h : WakeInv c s) (sig' : TaskID → Option OsSigCB)
    (hf : ∀ u, (sigCBOf s.sig u).Keeps (s.calls.pc u ≠ none) (sigCBOf sig' u)) :
    WakeInv c { s with sig := sig' } :=
  { h with
    flags := fun u => (hf u).1.trans (h.flags u)
    raised := fun u hu hn => (hf u).2 hu (h.raised u hu hn) }

section

variable (h : WakeInv c s)
include h

theorem WakeInv.waitTask (he : Free c s) (hself : (sigCBOf sig' s.k.runTask).waiting)
    (hother : ∀ u, u ≠ s.k.runTask → sigCBOf sig' u = sigCBOf s.sig u) : WakeInv c { s with
      k := s.k.osSchedTaskWait .waitSignalList timeout
      sig := sig'
      calls := s.calls.enter s.k.runTask ⟨w⟩
      wakes := update s.wakes s.k.runTask 0 } := by
  obtain ⟨hx, hpc⟩ := he
  have hb : Blocks .waitSignalList s.k (s.k.osSchedTaskWait .waitSignalList timeout) :=
    blocks_osSchedTaskWait
  refine
    { run := h.run.wait hx rfl
      wait := h.wait.enter h.run.sched.1 hx hpc hb
      flags := fun u => ?_
      wakes := fun u hu => ?_
      raised := fun u hu hn => ?_
      stray := h.stray }
  · by_cases hur : u = s.k.runTask
    · subst hur
      simpa using hself
    · simpa [hur, hother u hur] using h.flags u
  · by_cases hur : u = s.k.runTask
    · subst hur
      have hp := congrArg TaskView.pend hb.self
      exact ⟨by simp, by simp, fun _ => .inl hp⟩
    · have hv := hb.others u hur
      have hp : ((s.k.osSchedTaskWait .waitSignalList timeout).status u).pend =
          (s.k.status u).pend := congrArg TaskView.pend hv
      have hto : ((s.k.osSchedTaskWait .waitSignalList timeout).status u).timeout =
          (s.k.status u).timeout := congrArg TaskView.timeout hv
      obtain ⟨hle, hwaits, hended⟩ := h.wakes u (by simpa [hur] using hu)
      constructor
      · simpa [hur] using hle
      · intro hp'
        simpa [hur] using hwaits (hp ▸ hp')
      · intro hn
        rw [hp, hto]
        exact hended (by simpa [hur] using hn)
  · by_cases hur : u = s.k.runTask
    · simp [hur] at hn
    · rw [hother u hur]
      exact h.raised u (by simpa [hur] using hu) (by simpa [hur] using hn)

theorem WakeInv.signalWait {set : Option (BitVec 32)} (he : intActive = false → Free c s)
    (hpc : s.calls.pc s.k.runTask = none) :
    WakeInv c (exec c s (.signalWait set memAlloc timeout intActive)) := by
  simp only [exec]
  rcases losSignalWait_spec s.k s.sig set memAlloc timeout intActive with
    ⟨sig', err, heq, hsame⟩ | ⟨w, -, -, heq⟩ | ⟨w, rfl, -, hint, heq⟩
  · rw [heq]
    exact h.store sig' fun u => .of_eq (hsame u)
  · rw [heq]
    exact h.store _ (keeps_update (s.calls.pc · ≠ none)
      ⟨deleteSigInfoFromList_waiting, fun hn => absurd hpc hn⟩)
  · rw [heq]
    refine h.waitTask (he hint) ?_ fun u hu => sigCBOf_update_of_ne hu
    simp

theorem WakeInv.signalWaitReturn (he : Executing c s.k) :
    WakeInv c (exec c s .signalWaitReturn) := by
  simp only [exec]
  cases hr : s.calls.pc s.k.runTask with
  | none => exact h
  | some =>
    obtain ⟨hk, hcb⟩ := losSignalWaitReturn_spec s.k s.sig
    have hmark := h.mark (t := s.k.runTask) (b := false)
    have hflag : ∀ u, (sigCBOf (s.k.losSignalWaitReturn s.sig).2.1 u).waiting =
        ((s.calls.leave s.k.runTask).pc u).isSome := by
      intro u
      by_cases hu : u = s.k.runTask
      · subst hu
        rcases hcb with ⟨-, hcb⟩ | ⟨-, hcb⟩ <;> simp [hcb]
      · rcases hcb with ⟨-, hcb⟩ | ⟨-, hcb⟩ <;>
          simpa [hcb, sigCBOf_update_of_ne hu, hu] using h.flags u
    rw [hk]
    refine
      { run := hmark.run.takeTimeout
        wait := hmark.wait.leave ?_
        flags := hflag
        wakes := fun u hu => ?_
        raised := fun u hu hn => ?_
        stray := h.stray }
    · simpa using he.pend
    · have hur : u ≠ s.k.runTask := by
        rintro rfl
        simp at hu
      have hw := h.wakes u (by simpa [hur] using hu)
      have hcb' : (((s.k.setStatus s.k.runTask fun s => { s with signal := false }).takeTimeout
          s.k.runTask).1).taskCB u = s.k.taskCB u := by
        rw [takeTimeout_taskCB_of_ne hur]
        simp [hur]
      exact ⟨hw.le, fun hp => hw.waits (by simpa [hcb'] using hp),
        fun hn => by simpa [hcb'] using hw.ended hn⟩
    · have hur : u ≠ s.k.runTask := by
        rintro rfl
        simp at hu
      have hsame : sigCBOf (s.k.losSignalWaitReturn s.sig).2.1 u = sigCBOf s.sig u := by
        rcases hcb with ⟨-, hcb⟩ | ⟨-, hcb⟩ <;> rw [hcb, sigCBOf_update_of_ne hur]
      exact hsame ▸ h.raised u (by simpa [hur] using hu) hn

theorem WakeInv.signalSend :
    WakeInv c (exec c s (.signalSend taskID sigNo memAlloc nodeAlloc)) := by
  simp only [exec]
  rcases losSignalSend_spec c s.sig s.sigSetFlag taskID sigNo memAlloc nodeAlloc with
    ⟨hne, hsame⟩ | ⟨hok, -, cb, hadd, hsig⟩
  · have hsent : s.sent taskID sigNo
        (losSignalSend c s.sig s.sigSetFlag taskID sigNo memAlloc nodeAlloc) =
        { s with
          sig := (losSignalSend c s.sig s.sigSetFlag taskID sigNo memAlloc nodeAlloc).1 } := by
      generalize losSignalSend c s.sig s.sigSetFlag taskID sigNo memAlloc nodeAlloc = p at hne ⊢
      obtain ⟨sig', err⟩ := p
      cases err <;> first | rfl | exact absurd rfl hne
    rw [hsent]
    exact h.store _ fun u => .of_eq (hsame u)
  · obtain ⟨l, rfl⟩ := addSigInfoToList_eq hadd
    have hstore := h.store (losSignalSend c s.sig s.sigSetFlag taskID sigNo memAlloc nodeAlloc).1
      fun u => by
        rw [hsig]
        refine keeps_update (s.calls.pc · ≠ none) ?_ u
        exact ⟨rfl, fun _ => id⟩
    generalize losSignalSend c s.sig s.sigSetFlag taskID sigNo memAlloc nodeAlloc = p
      at hok hstore ⊢
    obtain ⟨sig', err⟩ := p
    obtain rfl : err = .ok := hok
    exact { hstore with }

theorem WakeInv.pc_of_sendWakes (hw : SendWakes s.k s.sig t sigNo) : s.calls.pc t ≠ none := by
  obtain ⟨-, -, hwait, -⟩ := sendWakes_iff.mp hw
  rw [h.flags t] at hwait
  exact Option.isSome_iff_ne_none.mp hwait

theorem WakeInv.unended (hs : Spaced s op) : Unended s op := by
  cases op with
  | signalWait => exact hs
  | signalSendRest =>
    exact fun hw => ⟨not_not.mp fun hn => (hs hw).1 (h.raised _ (h.pc_of_sendWakes hw) hn),
      (hs hw).2⟩
  | _ => trivial

theorem WakeInv.waits_of_sendWakes (hw : SendWakes s.k s.sig t sigNo)
    (hs : s.wakes t = 0 ∧ (s.k.status t).timeout = false) : Waits s.k t := by
  have hpc := h.pc_of_sendWakes hw
  obtain ⟨r, hr⟩ := Option.ne_none_iff_exists'.mp hpc
  have hp : (s.k.status t).pend := by
    rcases (h.wakes t hpc).ended hs.1 with hp | hto
    · exact hp
    · simp [hs.2] at hto
  obtain ⟨-, r', -, hm⟩ := h.wait.pend t (h.wait.live t r hr).1 hp
  exact ⟨hm, hp⟩

theorem WakeInv.wakeTask (hw : Waits s.k t) (hz : s.wakes t = 0) (hr : (sigCBOf s.sig t).Raised) :
    WakeInv c { s with k := s.k.osSchedTaskWake c t, wakes := bump s.wakes t } := by
  obtain ⟨hrun, hwk⟩ := RunInv.wakeTask h.run rfl hw.1
    (h.run.sched.1.freeze_eq_false (h.run.sched.1.linked.bound _ _ hw.1))
  refine { h with
    run := hrun
    wait := h.wait.wakes hwk
    wakes := fun u hu => ?_
    raised := fun u hu hn => ?_ }
  all_goals by_cases hut : u = t
  · subst hut
    have hp : ((s.k.osSchedTaskWake c u).status u).pend = false := congrArg pend hwk.self
    refine ⟨by simp [bump, hz], fun hp' => ?_, fun hn => ?_⟩
    · simp [hp] at hp'
    · simp [bump] at hn
  · have hv := hwk.others u hut
    have hp : ((s.k.osSchedTaskWake c t).status u).pend = (s.k.status u).pend :=
      congrArg pend hv
    have hto : ((s.k.osSchedTaskWake c t).status u).timeout = (s.k.status u).timeout :=
      congrArg timeout hv
    obtain ⟨hle, hwaits, hended⟩ := h.wakes u hu
    constructor
    · simpa [bump, hut] using hle
    · intro hp'
      simpa [bump, hut] using hwaits (hp ▸ hp')
    · intro hn
      rw [hp, hto]
      exact hended (by simpa [bump, hut] using hn)
  · exact hut ▸ hr
  · exact h.raised u hu (by simpa [bump, hut] using hn)

theorem WakeInv.signalSendRest (hs : Unended s (.signalSendRest t sigNo)) :
    WakeInv c (exec c s (.signalSendRest t sigNo)) := by
  simp only [exec]
  by_cases hw : SendWakes s.k s.sig t sigNo
  · have hwaits := h.waits_of_sendWakes hw (hs hw)
    have hraised : (((sigCBOf s.sig t).raise sigNo).deleteSigInfoFromList sigNo).Raised := by
      have := raised_raise (sendWakes_iff.mp hw).2.2.2
      simpa [Raised] using this
    have hstore := h.store (update s.sig t
      (some (((sigCBOf s.sig t).raise sigNo).deleteSigInfoFromList sigNo)))
      (keeps_update (s.calls.pc · ≠ none) ⟨by simp, fun _ _ => hraised⟩)
    have hwoken :=
      (hstore.wakeTask hwaits (hs hw).1 (by simpa using hraised)).mark (t := t) (b := true)
    rw [if_pos hw, signalSend_of_wakes hw]
    refine { hwoken with stray := ?_ }
    simp [h.stray, hwaits]
  · rw [if_neg hw]
    by_cases hnone : s.sig t = none
    · rw [signalSend_of_none hnone]
      exact { h with }
    · obtain ⟨hsig, hk⟩ := signalSend_of_not_wakes hw hnone
      have hstore := h.store (s.k.signalSend c s.sig t sigNo).2 fun u => by
        rw [hsig]
        exact keeps_update (s.calls.pc · ≠ none) ⟨raise_waiting, fun _ => Raised.raise⟩ u
      rcases hk with hk | hk
      · rw [hk]
        exact { hstore with }
      · rw [hk]
        exact { hstore.mark with }

theorem WakeInv.step (he : Enabled c s op) (hs : Unended s op) : WakeInv c (exec c s op) := by
  cases op with
  | task =>
    obtain ⟨hrun, hspec⟩ := h.run.gentle he.1 he.2
    exact h.env hrun hspec.env
  | signalSet sigNo ignore memAlloc =>
    exact { h.store (losSignalSet s.sig s.sigSetFlag s.k.runTask sigNo ignore memAlloc).1
      (fun u => .of_eq losSignalSet_sig) with }
  | signalMask how set memAlloc =>
    exact { h.store (losSignalMaskSet s.sig s.sigSetFlag s.k.runTask how set memAlloc).1
      (fun u => .of_eq losSignalMaskSet_sig) with }
  | signalWait => exact h.signalWait he hs
  | signalWaitReturn => exact h.signalWaitReturn he.1
  | signalSend => exact h.signalSend
  | signalSendRest => exact h.signalSendRest hs
  | signalHandle cleanStatus =>
    simp only [exec]
    cases hcb : s.sig s.k.runTask with
    | none => exact h
    | some cb =>
      have hof : sigCBOf s.sig s.k.runTask = cb := by simp [sigCBOf, hcb]
      have hstore := h.store (update s.sig s.k.runTask
        (some (cb.signalHandle (s.sigSetFlag s.k.runTask))))
        (keeps_update (s.calls.pc · ≠ none) ⟨by simp [hof], fun hn => absurd he.2 hn⟩)
      cases cleanStatus with
      | true => exact hstore.mark
      | false => exact hstore
  | signalEntryEnd => exact h.mark

end

theorem WakeInv.init
    (h : losKernelInit c swtmrStack idleStack = (k, .ok)) : WakeInv c { k := k } where
  run := .of_losKernelInit h
  wait := .init (booted_of_losKernelInit False h).inv.1 (booted_of_losKernelInit False h).fresh
  flags _ := rfl
  wakes _ ht := absurd rfl ht
  raised _ ht := absurd rfl ht
  stray := rfl

theorem WakeInv.of_reaches (h : ((machine c).restrict Spaced).Reaches s) : WakeInv c s :=
  h.invariant (fun _ ⟨_, _, _, hk, hs⟩ => hs ▸ .init hk) fun _ _ hinv ha =>
    hinv.step ha.1 (hinv.unended ha.2)

/-- `SignalSend` has woken only tasks that were waiting, each wait at most once, and no task has
been put into the ready queue twice. -/
structure WakesWaiters (s : SigSys) : Prop where
  stray : s.stray = false
  once : ∀ t, s.calls.pc t ≠ none → s.wakes t ≤ 1
  asserted : s.k.assertFailed = false

theorem wakesWaiters_of_spaced (c : Config) (s : SigSys)
    (h : ((machine c).restrict Spaced).Reaches s) : WakesWaiters s := by
  have hinv := WakeInv.of_reaches h
  exact ⟨hinv.stray, fun t ht => (hinv.wakes t ht).le, hinv.run.sched.1.asserted⟩

/-- A task installs two signals and waits for both of them. -/
def waitForTwo : List SigOp :=
  [.task (.taskCreate (userTask 5 false) 2000), .task (.schedStart 0), .signalSet 1 false true,
    .signalSet 2 false true, .signalWait (some 3) true 7 false, .task (.taskSwitch 0)]

/-- One of them is sent, and the wait returns before the other one is. -/
theorem wakesWaiters_of_spaced_twice : WakesWaiters
    (((machine smallConfig).restrict Spaced).run { k := smallBoot }
      (waitForTwo ++ [.signalSend 1 1 true true, .signalSendRest 1 1, .task (.taskSwitch 0),
        .signalWaitReturn, .signalSend 1 2 true true, .signalSendRest 1 2])) :=
  wakesWaiters_of_spaced smallConfig _ (Machine.Reaches.run
    (M := (machine smallConfig).restrict Spaced)
    (.start ⟨_, 0, 1000, rfl, rfl⟩) _ (by decide +kernel))

/-- The second signal wakes the task again before it runs. -/
theorem ready_task_woken : ∃ s, (machine smallConfig).Reaches s ∧ s.stray = true ∧ s.wakes 1 = 2 ∧
    s.k.assertFailed = true :=
  ⟨_, Machine.Reaches.run (M := machine smallConfig)
    (.start ⟨_, 0, 1000, rfl, rfl⟩)
    (waitForTwo ++ [.signalSend 1 1 true true, .signalSendRest 1 1, .signalSend 1 2 true true,
      .signalSendRest 1 2]) (by decide +kernel), by decide +kernel⟩

end SigSys

end LiteOS.Kernel
