import LiteOS.Fs.Vfs

/-!
# Unmounting and formatting

`umount` and `umount2` look their target up as if it were the path of a file, so they may take a
mount point that the target lies below. `LOS_PartitionFormat` looks for the name of the device among
the targets of the mount points and not among their devices.
-/

namespace LiteOS.Fs

open Sys

variable {c : VfsConfig} {e : Env} {s : Sys} {v : Vfs} {cb : Callback} {target : Option CStr}
  {m m' : MountPoint} {force : Bool} {t partName : CStr}

/-- The call gets as far as taking the mount point off the list: it wins the lookup, it has no
references, and the driver lets it go. -/
def Unmounts (c : VfsConfig) (e : Env) (v : Vfs) (cb : Callback) (target : Option CStr)
    (m : MountPoint) : Prop :=
  ∃ t, vfsMountPathCheck c target = .ok t ∧ Wins c.nested v.mountPoints t m ∧ m.mRefs = 0 ∧
    v.hasOp m.mFs cb ∧ e.driver cb = 0

theorem unmountWith_spec :
    (∃ m, Unmounts c e s.vfs cb target m ∧ (unmountWith c e cb force s target).1.vfs =
      (s.vfs.mpDeleteFromList m).dropFsRef m.mFs ∧ (unmountWith c e cb force s target).2 = 0) ∨
    ((∀ m, ¬Unmounts c e s.vfs cb target m) ∧ (unmountWith c e cb force s target).1.vfs = s.vfs ∧
      (unmountWith c e cb force s target).2 = nok) := by
  simp only [unmountWith, losFsLock_vfs]
  cases hpath : vfsMountPathCheck c target with
  | error =>
    right
    refine ⟨?_, by simp, rfl⟩
    rintro m ⟨t, ht, -⟩
    simp [hpath] at ht
  | ok t =>
    dsimp only
    cases hfind : vfsMpFind c.nested s.vfs.mountPoints t with
    | none =>
      right
      refine ⟨?_, by simp, rfl⟩
      rintro m ⟨t', ht', hw, -⟩
      obtain rfl : t = t' := by simpa [hpath] using ht'
      rw [vfsMpFind_eq_some_iff.mpr hw] at hfind
      simp at hfind
    | some m =>
      have hw := vfsMpFind_eq_some_iff.mp hfind
      have hnot : ¬(m.mRefs = 0 ∧ s.vfs.hasOp m.mFs cb ∧ e.driver cb = 0) →
          ∀ m', ¬Unmounts c e s.vfs cb target m' := by
        rintro h m' ⟨t', ht', hw', hm'⟩
        obtain rfl : t = t' := by simpa [hpath] using ht'
        obtain rfl : m = m' := by
          simpa [vfsMpFind_eq_some_iff.mpr hw'] using hfind.symm
        exact h hm'
      dsimp only
      have hvfs : (if force then closeFdsInMp c e (losFsLock e s).1 m
          else (losFsLock e s).1).vfs = s.vfs := by
        split_ifs <;> simp
      generalize (if force then closeFdsInMp c e (losFsLock e s).1 m
        else (losFsLock e s).1) = s' at hvfs ⊢
      split_ifs with hrefs hret
      · right
        refine ⟨hnot ?_, by simp, rfl⟩
        rintro ⟨h₁, h₂, -⟩
        simp [h₁, h₂] at hrefs
      · right
        refine ⟨hnot fun h => hret h.2.2, ?_, rfl⟩
        simpa using hvfs
      · left
        simp only [not_or, not_not, Bool.not_eq_true, Bool.not_eq_false'] at hrefs
        refine ⟨m, ⟨t, hpath, hw, hrefs.1, hrefs.2, not_not.mp hret⟩, ?_, rfl⟩
        simp [hvfs]

/-- The call leaves the list as it is and fails, or takes the mount point at the target off it. -/
def HitsOnlyTarget (v : Vfs) (target : Option CStr) (v' : Vfs) (ret : ℤ) : Prop :=
  (v'.mountPoints = v.mountPoints ∧ ret ≠ 0) ∨
    (ret = 0 ∧ ∃ t, target = some t ∧ ∃ m ∈ v.mountPoints, components m.mPath = components t ∧
      v'.mountPoints = v.mountPoints.erase m)

theorem eq_of_erase_eq_erase {l : List MountPoint} (hm : m ∈ l)
    (h : l.erase m = l.erase m') : m = m' := by
  by_contra hne
  have hcount := congrArg (List.count m) h
  rw [List.count_erase_self, List.count_erase_of_ne hne] at hcount
  have := List.count_pos_iff.mpr hm
  omega

theorem Wins.mem (h : Wins c.nested v.mountPoints t m) : m ∈ v.mountPoints :=
  mem_of_vfsMpFind (vfsMpFind_eq_some_iff.mpr h)

/-- The target is the mount point that the call takes off the list. -/
def AimsAt (target : Option CStr) (m : MountPoint) : Prop :=
  ∃ t, target = some t ∧ components m.mPath = components t

theorem unmountWith_hitsOnlyTarget_iff : HitsOnlyTarget s.vfs target
      (unmountWith c e cb force s target).1.vfs (unmountWith c e cb force s target).2 ↔
    ∀ m, Unmounts c e s.vfs cb target m → AimsAt target m := by
  rcases @unmountWith_spec c e s cb target force with ⟨m, hm, hvfs, hret⟩ | ⟨hno, hvfs, hret⟩
  · obtain ⟨t, ht, hw, hrest⟩ := hm
    rw [hvfs, hret]
    constructor
    · rintro (⟨-, h⟩ | ⟨-, t', ht', m', hm', hcomp, herase⟩) m'' hm''
      · exact absurd rfl h
      · obtain ⟨t'', ht'', hw'', -⟩ := hm''
        obtain rfl : t = t'' := by simpa [ht] using ht''
        obtain rfl : m = m'' := by
          simpa [vfsMpFind_eq_some_iff.mpr hw''] using (vfsMpFind_eq_some_iff.mpr hw).symm
        obtain rfl : m = m' := eq_of_erase_eq_erase hw.mem herase
        exact ⟨t', ht', hcomp⟩
    · intro h
      obtain ⟨t', ht', hcomp⟩ := h m ⟨t, ht, hw, hrest⟩
      exact .inr ⟨rfl, t', ht', m, hw.mem, hcomp, rfl⟩
  · rw [hvfs, hret]
    refine iff_of_true (.inl ⟨rfl, by decide⟩) fun m hm => absurd hm (hno m)

/-- Both calls hit only their target exactly when the mount point that they take has the components
of the target. -/
theorem unmount_hitsOnlyTarget_iff (c : VfsConfig) (e : Env) (s : Sys) (target : Option CStr)
    (force : Bool) :
    (HitsOnlyTarget s.vfs target (s.umount c e target).1.vfs (s.umount c e target).2 ∧
      HitsOnlyTarget s.vfs target (s.umount2 c e target force).1.vfs
        (s.umount2 c e target force).2) ↔
    (∀ m, Unmounts c e s.vfs .umount target m → AimsAt target m) ∧
      ∀ m, Unmounts c e s.vfs .umount2 target m → AimsAt target m :=
  and_congr unmountWith_hitsOnlyTarget_iff unmountWith_hitsOnlyTarget_iff

/-- In both configurations a path below a mount point unmounts it. -/
theorem unmounts_below :
    (¬HitsOnlyTarget (sampleMounted true).vfs (some ['/', 'a', '/', 'b'])
      ((sampleMounted true).umount (sampleConfig true) {} (some ['/', 'a', '/', 'b'])).1.vfs
      ((sampleMounted true).umount (sampleConfig true) {} (some ['/', 'a', '/', 'b'])).2) ∧
    ¬HitsOnlyTarget (sampleMounted false).vfs (some ['/', 'a', '/', 'b'])
      ((sampleMounted false).umount (sampleConfig false) {} (some ['/', 'a', '/', 'b'])).1.vfs
      ((sampleMounted false).umount (sampleConfig false) {} (some ['/', 'a', '/', 'b'])).2 := by
  have hwrong : ∀ nested m, Unmounts (sampleConfig nested) {} (sampleMounted nested).vfs .umount
      (some ['/', 'a', '/', 'b']) m → components m.mPath ≠ components ['/', 'a', '/', 'b'] →
      ¬HitsOnlyTarget (sampleMounted nested).vfs (some ['/', 'a', '/', 'b'])
        ((sampleMounted nested).umount (sampleConfig nested) {} (some ['/', 'a', '/', 'b'])).1.vfs
        ((sampleMounted nested).umount (sampleConfig nested) {} (some ['/', 'a', '/', 'b'])).2 := by
    intro nested m hm hne h
    obtain ⟨t, ht, hcomp⟩ := unmountWith_hitsOnlyTarget_iff.mp h m hm
    obtain rfl : ['/', 'a', '/', 'b'] = t := by simpa using ht
    exact hne hcomp
  let m : MountPoint := { addr := 100, mFs := 4, mPath := ['/', 'a'], mDev := some ['d'] }
  constructor
  · refine hwrong true m ⟨['/', 'a', '/', 'b'], by rfl, ?_, by decide, by decide +kernel, rfl⟩
      (by decide +kernel)
    exact vfsMpFind_eq_some_iff.mp (by decide +kernel)
  · refine hwrong false m ⟨['/', 'a', '/', 'b'], by rfl, ?_, by decide, by decide +kernel, rfl⟩
      (by decide +kernel)
    exact vfsMpFind_eq_some_iff.mp (by decide +kernel)

/-! ## Formatting -/

/-- The device is formatted only if no mount point was mounted from it; otherwise the call fails
with `EBUSY`. -/
def FormatsUnmountedOnly (v : Vfs) (partName : CStr) (s' : Sys) (ret : ℤ) : Prop :=
  ((∃ holds, (.format, holds) ∈ s'.trace) → ∀ m ∈ v.mountPoints, m.mDev ≠ some partName) ∧
    ((∃ m ∈ v.mountPoints, m.mDev = some partName) → ret = nok ∧ s'.errno = .ebusy)

/-- What `LOS_PartitionFormat` does when no target is the name of the partition. -/
theorem losPartitionFormat_of_notMem {fsType : Option CStr} {holds : ℕ}
    (h : ¬∃ m ∈ v.mountPoints, m.mPath = partName) : (∃ holds', (.format, holds') ∈
        ((startCall v holds).losPartitionFormat e partName fsType).1.trace) ∨
      ((startCall v holds).losPartitionFormat e partName fsType).1.errno = .none := by
  have hany : ((startCall v holds).vfs.mountPoints.any fun iter => iter.mPath = partName) =
      false := by
    simpa [startCall] using h
  simp only [losPartitionFormat, hany, Bool.false_eq_true, if_false, vfsFsMapGet]
  cases (losFsLock e (startCall v holds)).1.vfs.fsMap.find? fun curr =>
      some curr.fsType = fsType with
  | none =>
    right
    simp [losFsUnlock, startCall]
  | some fMap =>
    dsimp only
    split_ifs
    · left
      exact ⟨_, by simp only [callDriver, List.mem_append, List.mem_singleton]; right; rfl⟩
    · right
      simp [losFsUnlock, startCall]

/-- A device is safe from being formatted while it is mounted exactly when it is not mounted or some
target has its name. -/
theorem formatsUnmountedOnly_iff (e : Env) (v : Vfs) (holds : ℕ) (partName : CStr)
    (fsType : Option CStr) : FormatsUnmountedOnly v partName
      ((startCall v holds).losPartitionFormat e partName fsType).1
      ((startCall v holds).losPartitionFormat e partName fsType).2 ↔
    ((∃ m ∈ v.mountPoints, m.mDev = some partName) → ∃ m ∈ v.mountPoints, m.mPath = partName) := by
  by_cases hpath : ∃ m ∈ v.mountPoints, m.mPath = partName
  · have hany : ((startCall v holds).vfs.mountPoints.any fun iter => iter.mPath = partName) =
        true := by
      simpa [startCall] using hpath
    refine iff_of_true ?_ fun _ => hpath
    simp only [losPartitionFormat, hany]
    refine ⟨?_, fun _ => ⟨rfl, rfl⟩⟩
    rintro ⟨holds', hmem⟩
    simp [setErrno, startCall] at hmem
  · constructor
    · rintro ⟨hformat, hbusy⟩ ⟨m, hm, hdev⟩
      rcases @losPartitionFormat_of_notMem e v partName fsType holds hpath with
        hcall | herrno
      · exact absurd hdev (hformat hcall m hm)
      · rw [(hbusy ⟨m, hm, hdev⟩).2] at herrno
        simp at herrno
    · intro h
      refine ⟨fun _ m hm hdev => hpath (h ⟨m, hm, hdev⟩), fun hdev => absurd (h hdev) hpath⟩

/-- The device `d` is mounted at `/a` and formatted. -/
theorem formats_mounted : ¬FormatsUnmountedOnly (sampleMounted true).vfs ['d']
    ((startCall (sampleMounted true).vfs 0).losPartitionFormat {} ['d']
      (some ['f', 'a', 't'])).1
    ((startCall (sampleMounted true).vfs 0).losPartitionFormat {} ['d']
      (some ['f', 'a', 't'])).2 := by
  rintro ⟨hformat, -⟩
  exact absurd (hformat ⟨0, by decide +kernel⟩) (by decide +kernel)

end LiteOS.Fs
