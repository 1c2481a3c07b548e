import Mathlib.Algebra.Group.Int.Defs
import Mathlib.Tactic.Common

/-!
# Nested kernel locks

The model of `osKernelLock` and `osKernelRestoreLock`. The first does not count: if the scheduler is
locked already it only says so. The second locks the scheduler once more when it is told to restore
a locked state, so a pair inside another pair, or one around which the scheduler is locked, leaves
the counter higher than it found it.

The counter `g_losTaskLock` has 16 bits. `LOS_TaskUnlock` calls `LOS_Schedule` only when it has
become zero, and the task runs again with the counter at zero.
-/

namespace LiteOS.Cmsis

structure Kernel where
  /-- `g_losTaskLock` -/
  losTaskLock : BitVec 16
  /-- `g_taskScheduled` -/
  taskScheduled : Bool
  /-- `OS_INT_ACTIVE` -/
  intActive : Bool
deriving DecidableEq

def osErrorISR : ℤ := -6

def osError : ℤ := -1

def kernelUnlocked : ℤ := 0

def kernelLocked : ℤ := 1

namespace Kernel

variable (k : Kernel)

/-- `LOS_TaskLock` -/
def taskLock : Kernel := { k with losTaskLock := k.losTaskLock + 1#16 }

/-- `LOS_TaskUnlock` -/
def taskUnlock : Kernel :=
  if 0#16 < k.losTaskLock then { k with losTaskLock := k.losTaskLock - 1#16 } else k

def osKernelLock : ℤ × Kernel :=
  if k.intActive then (osErrorISR, k)
  else if !k.taskScheduled then (osError, k)
  else if 0#16 < k.losTaskLock then (kernelLocked, k)
  else (kernelUnlocked, k.taskLock)

def osKernelRestoreLock (lock : ℤ) : ℤ × Kernel :=
  if k.intActive then (osErrorISR, k)
  else if !k.taskScheduled then (osError, k)
  else if lock = kernelUnlocked then
    let k := k.taskUnlock
    if k.losTaskLock ≠ 0#16 then (osError, k) else (kernelUnlocked, k)
  else if lock = kernelLocked then (kernelLocked, k.taskLock)
  else (osError, k)

end Kernel

/-- A properly nested sequence of calls: nothing, or `osKernelLock`, a sequence, the matching
`osKernelRestoreLock`, and another sequence. -/
inductive Nested
  | nil
  | pair (inner rest : Nested)
deriving DecidableEq

namespace Nested

def exec : Nested → Kernel → Kernel
  | nil, k => k
  | pair inner rest, k =>
    let (lock, locked) := k.osKernelLock
    rest.exec ((inner.exec locked).osKernelRestoreLock lock).2

/-- Each restore brings the counter back to the value it had before the matching lock. -/
def Restores : Nested → Kernel → Prop
  | nil, _ => True
  | pair inner rest, k =>
    let (lock, locked) := k.osKernelLock
    let restored := ((inner.exec locked).osKernelRestoreLock lock).2
    inner.Restores locked ∧ restored.losTaskLock = k.losTaskLock ∧ rest.Restores restored

def Flat : Nested → Prop
  | nil => True
  | pair inner rest => inner = nil ∧ rest.Flat

variable {k : Kernel}

structure InTask (k : Kernel) : Prop where
  intActive : k.intActive = false
  taskScheduled : k.taskScheduled

section

variable (hk : InTask k)
include hk

theorem osKernelLock_of_unlocked (h : k.losTaskLock = 0#16) :
    k.osKernelLock = (kernelUnlocked, { k with losTaskLock := 1#16 }) := by
  simp [Kernel.osKernelLock, hk.intActive, hk.taskScheduled, h, Kernel.taskLock]

theorem osKernelLock_of_locked (h : k.losTaskLock ≠ 0#16) : k.osKernelLock = (kernelLocked, k) := by
  have hpos : 0#16 < k.losTaskLock := by
    rw [BitVec.lt_def]
    have : k.losTaskLock.toNat ≠ 0 := fun hz => h (BitVec.eq_of_toNat_eq hz)
    simpa using Nat.pos_of_ne_zero this
  simp [Kernel.osKernelLock, hk.intActive, hk.taskScheduled, hpos]

theorem osKernelRestoreLock_locked : (k.osKernelRestoreLock kernelLocked).2 = k.taskLock := by
  simp [Kernel.osKernelRestoreLock, hk.intActive, hk.taskScheduled, kernelLocked, kernelUnlocked]

theorem osKernelRestoreLock_unlocked : (k.osKernelRestoreLock kernelUnlocked).2 = k.taskUnlock := by
  simp only [Kernel.osKernelRestoreLock, hk.intActive, hk.taskScheduled]
  simp only [Bool.false_eq_true, Bool.not_true, if_false]
  split_ifs <;> rfl

theorem restored_of_unlocked (h : k.losTaskLock = 0#16) :
    (Kernel.osKernelRestoreLock { k with losTaskLock := 1#16 } kernelUnlocked).2 = k := by
  have hlocked : InTask { k with losTaskLock := 1#16 } := ⟨hk.intActive, hk.taskScheduled⟩
  rw [osKernelRestoreLock_unlocked hlocked]
  simp [Kernel.taskUnlock, ← h]

end

theorem flat_iff {w : Nested} : w = nil ∨ w.Flat ↔ w.Flat := by
  refine or_iff_right_of_imp fun hw => ?_
  rw [hw]
  exact trivial

/-- For every sequence and every value of the counter, each restore is exact if and only if the
scheduler is unlocked at the beginning and no pair lies inside another one. -/
theorem restores_iff (w : Nested) (k : Kernel) (hk : InTask k) :
    w.Restores k ↔ w = nil ∨ k.losTaskLock = 0#16 ∧ w.Flat := by
  induction w generalizing k with
  | nil => simp [Restores]
  | pair inner rest ihInner ihRest =>
    by_cases h : k.losTaskLock = 0#16
    · -- the lock is counted, so what is inside finds the scheduler locked
      have hlocked : InTask { k with losTaskLock := 1#16 } := ⟨hk.intActive, hk.taskScheduled⟩
      have hin : inner.Restores { k with losTaskLock := 1#16 } ↔ inner = nil := by
        simp [ihInner _ hlocked]
      have hrest : rest.Restores k ↔ rest.Flat := by
        rw [ihRest k hk, and_iff_right h, flat_iff]
      simp only [Restores, osKernelLock_of_unlocked hk h, hin, Flat, reduceCtorEq, false_or,
        and_iff_right h]
      refine and_congr_right fun hnil => ?_
      subst hnil
      rw [exec, restored_of_unlocked hk h, hrest, and_iff_right rfl]
    · -- the lock is not counted, and the restore is
      refine iff_of_false (fun hr => ?_) (by simp [h])
      simp only [Restores, osKernelLock_of_locked hk h] at hr
      obtain ⟨hin, heq, -⟩ := hr
      obtain rfl : inner = nil := by simpa [h] using (ihInner k hk).mp hin
      rw [exec, osKernelRestoreLock_locked hk] at heq
      exact absurd heq (by simp [Kernel.taskLock])

/-- Two pairs one after the other -/
theorem restores_iff_twice :
    (pair nil (pair nil nil)).Restores ⟨0, true, false⟩ :=
  (restores_iff _ _ ⟨rfl, rfl⟩).mpr (.inr ⟨rfl, rfl, rfl, trivial⟩)

/-- A pair inside another one: after both the scheduler is still locked. -/
theorem not_restores_nested : ¬(pair (pair nil nil) nil).Restores ⟨0, true, false⟩ ∧
    ((pair (pair nil nil) nil).exec ⟨0, true, false⟩).losTaskLock = 1 := by
  refine ⟨fun h => ?_, by decide⟩
  obtain ⟨⟨-, h, -⟩, -⟩ := h
  exact absurd h (by decide)

end Nested

end LiteOS.Cmsis
