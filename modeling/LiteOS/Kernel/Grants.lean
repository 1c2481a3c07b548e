import LiteOS.Kernel.Blocking

/-!
# Why a wait has ended

A task that is dispatched inside a blocking call takes the absence of `OS_TASK_STATUS_TIMEOUT` for a
grant. `Grants` records what it cannot see: whether the object it waits for was handed to it.
`GrantInv` says that the two agree. It is kept by granting, by timeouts, and by everything that
leaves the waiting tasks alone; here tasks may be frozen.
-/

namespace LiteOS.Kernel.Sched

open Lib TaskView
open Request (head)

/-- The tasks whose calls have been granted what they wait for. -/
abbrev Grants := TaskID → Bool

variable {R : Type*} [Request R] {c : Config} {pm : Prop} {k k' : Sched} {t u : TaskID} {r : R}
  {w : Calls R} {g : Grants} {op : TaskOp}

/-- A call that waits has not been granted; one that no longer waits was granted or timed out. -/
structure GrantInv (c : Config) (pm : Prop) (k : Sched) (w : Calls R) (g : Grants) : Prop where
  run : RunInv c pm k
  wait : WaitInv c k w
  waiting : ∀ t r, w.pc t = some r → (k.status t).pend → g t = false
  left : ∀ t r, w.pc t = some r → (k.status t).pend = false →
    (k.status t).timeout ∨ g t

namespace TaskOp

/-- `LOS_TaskDelete` -/
def ends : TaskOp → Bool
  | taskDelete _ => true
  | _ => false

/-- `LOS_TaskResume` of a task that was frozen while it waited, after its time has passed. -/
def ThawsLate (k : Sched) : TaskOp → Prop
  | taskResume t currTime => (k.status t).freeze ∧ (k.status t).pend ∧
      (k.taskCB t).responseTime ≤ currTime
  | _ => False

instance (k : Sched) (op : TaskOp) : Decidable (op.ThawsLate k) := by
  induction op using TaskOp.casesOn <;> unfold ThawsLate <;> infer_instance

end TaskOp

theorem InvWith.env_losTaskPriSet {run : Option TaskID} {priority : ℕ}
    (h : InvWith c pm run k) : Env k (k.losTaskPriSet c t priority).1 := by
  simp only [Sched.losTaskPriSet]
  split_ifs with hp hi hsw hle hu hsys <;> try exact h.env_of_quiet (.refl k)
  exact h.env_of_reprioritises (h.reprioritises_osSchedModifyTaskSchedParam (not_le.mp hle))

/-- An operation that neither ends a task nor thaws one too late. -/
theorem RunInv.env_exec (h : RunInv c pm k) (he : op.Enabled c k) (hp : op.Proper c pm k)
    (hd : op.ends = false) (hl : ¬op.ThawsLate k) : Env k (op.exec c k) := by
  have hinv := h.sched.1
  cases op with
  | taskResume t currTime =>
    rcases quiet_or_wakes_losTaskResume with
      hq | ⟨-, hf, hpend, hlate, -⟩
    · exact hinv.env_of_quiet hq
    · exact absurd ⟨hf, hpend, hlate⟩ hl
  | taskDelete => simp [TaskOp.ends] at hd
  | taskCreateOnly =>
    exact hinv.env_of_creates (hinv.losTaskCreateOnly h.join rfl).1.creates
  | taskCreate => exact hinv.env_of_creates (hinv.losTaskCreate h.join rfl).creates
  | schedStart => exact hinv.env_of_quiet h.sched.quiet_osSchedStart
  | taskSuspend => exact hinv.env_of_quiet (hinv.losTaskSuspend hp).2.2
  | taskDelay => exact hinv.env_of_quiet (hinv.losTaskDelay he).2.2
  | taskYield => exact hinv.env_of_quiet .osSchedYield
  | taskPriSet => exact hinv.env_losTaskPriSet
  | scanTimerList => exact (hinv.expires_scanTimerLoop _).env
  | schedTickHandler => exact h.sched.losSchedTickHandler.2.2.env
  | taskSwitch => exact hinv.env_of_quiet (h.sched.quiet_halPendSV he.2)

namespace GrantInv

theorem init {swtmrStack idleStack : ℕ} (h : losKernelInit c swtmrStack idleStack = (k, .ok)) :
    GrantInv c pm k ({} : Calls R) fun _ => false where
  run := .of_losKernelInit h
  wait := .init (booted_of_losKernelInit pm h).inv.1 (booted_of_losKernelInit pm h).fresh
  waiting _ _ hr := nomatch hr
  left _ _ hr := nomatch hr

section

variable (h : GrantInv c pm k w g)
include h

theorem env (hrun : RunInv c pm k') (he : Env k k') : GrantInv c pm k' w g where
  run := hrun
  wait := h.wait.env hrun.sched.1 he
  waiting t r hr hp := by
    rcases he.wait t (h.wait.live t r hr).2.1 with ⟨hpe, -⟩ | ⟨-, hpe, -⟩
    · exact h.waiting t r hr (hpe.symm.trans hp)
    · exact absurd (hp.symm.trans hpe) (by simp)
  left t r hr hp := by
    rcases he.wait t (h.wait.live t r hr).2.1 with ⟨hpe, hte⟩ | ⟨-, -, hte⟩
    · rw [hte]
      exact h.left t r hr (hpe.symm.trans hp)
    · exact .inl hte

theorem enter (he : Executing c k) (hn : w.pc k.runTask = none)
    (hrun : RunInv c pm k') (hb : Blocks (head r) k k') :
    GrantInv c pm k' (w.enter k.runTask r) (Function.update g k.runTask false) where
  run := hrun
  wait := h.wait.enter h.run.sched.1 he hn hb
  waiting t r' hr hp := by
    by_cases ht : t = k.runTask
    · simp [ht]
    · have hpe := congrArg pend (hb.others t ht)
      simpa [ht] using h.waiting t r' (by simpa [ht] using hr) (hpe.symm.trans hp)
  left t r' hr hp := by
    by_cases ht : t = k.runTask
    · subst ht
      exact absurd (hp.symm.trans (congrArg pend hb.self)) (by simp)
    · have hpe := congrArg pend (hb.others t ht)
      have hte : (k'.status t).timeout = _ := congrArg timeout (hb.others t ht)
      rw [hte]
      simpa [ht] using h.left t r' (by simpa [ht] using hr) (hpe.symm.trans hp)

/-- A task is woken because the object it waits for is handed to it. -/
theorem grant (hrun : RunInv c pm k') (hw : Wakes t k k') :
    GrantInv c pm k' w (Function.update g t true) where
  run := hrun
  wait := h.wait.wakes hw
  waiting u r hr hp := by
    have hu : u ≠ t := by
      rintro rfl
      exact absurd (hp.symm.trans (congrArg pend hw.self)) (by simp)
    have hpe := congrArg pend (hw.others u hu)
    simpa [hu] using h.waiting u r hr (hpe.symm.trans hp)
  left u r hr hp := by
    by_cases hu : u = t
    · simp [hu]
    · have hpe := congrArg pend (hw.others u hu)
      have hte : (k'.status u).timeout = _ := congrArg timeout (hw.others u hu)
      rw [hte]
      simpa [hu] using h.left u r hr (hpe.symm.trans hp)

theorem leave (he : Executing c k) :
    GrantInv c pm (k.takeTimeout k.runTask).1 (w.leave k.runTask) g := by
  have hne : ∀ u r, (w.leave k.runTask).pc u = some r → u ≠ k.runTask := by
    rintro u r hr rfl
    simp at hr
  refine ⟨h.run.takeTimeout, h.wait.leave he.pend, fun u r hr hp => ?_, fun u r hr hp => ?_⟩
  · have hu := hne u r hr
    rw [status, takeTimeout_taskCB_of_ne hu] at hp
    exact h.waiting u r (by simpa [hu] using hr) hp
  · have hu := hne u r hr
    rw [status, takeTimeout_taskCB_of_ne hu] at hp ⊢
    exact h.left u r (by simpa [hu] using hr) hp

theorem delete (hrun : RunInv c pm k') (hd : Deletes c t k k') :
    GrantInv c pm k' (w.leave t) g := by
  have hne : ∀ u r, (w.leave t).pc u = some r → u ≠ t := by
    rintro u r hr rfl
    simp at hr
  refine ⟨hrun, h.wait.deletes hd, fun u r hr hp => ?_, fun u r hr hp => ?_⟩
  · have hu := hne u r hr
    have hr : w.pc u = some r := by simpa [hu] using hr
    have hv := hd.others u hu (h.wait.live u r hr).1.ne
    exact h.waiting u r hr ((congrArg pend hv).symm.trans hp)
  · have hu := hne u r hr
    have hr : w.pc u = some r := by simpa [hu] using hr
    have hv := hd.others u hu (h.wait.live u r hr).1.ne
    have hte : (k'.status u).timeout = _ := congrArg timeout hv
    rw [hte]
    exact h.left u r hr ((congrArg pend hv).symm.trans hp)

end

end GrantInv

end LiteOS.Kernel.Sched
