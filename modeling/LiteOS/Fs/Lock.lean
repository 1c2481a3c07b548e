import LiteOS.Fs.Vfs

/-!
# The lock of the file system

A call takes `g_fsMutex` before it works and gives it back on every way out. `Keeps` says this of a
piece of a call: the task holds the mutex as often as before, and drivers were called only under it.
Pieces compose, and a piece that is kept under the lock is kept around it. The calls that do not
look at the answer of `LOS_FsLock`, and `fcntl`, which gives back what it may not have taken, keep
it only under conditions.
-/

namespace LiteOS.Fs

open Sys

variable {c : VfsConfig} {e : Env} {s s' s'' : Sys} {v : Vfs} {cb : Callback} {holds addr : ℕ}
  {path : CStr} {fd : ℤ} {dir : Option Dir}

/-- The holds are as before, and no driver was called without one. -/
structure Keeps (s s' : Sys) : Prop where
  holds : s'.holds = s.holds
  trace : ∃ l, s'.trace = s.trace ++ l ∧ ∀ p ∈ l, 0 < p.2

namespace Keeps

theorem of_eq (hh : s'.holds = s.holds) (ht : s'.trace = s.trace) : Keeps s s' :=
  ⟨hh, [], by simp [ht], by simp⟩

theorem refl (s : Sys) : Keeps s s := of_eq rfl rfl

theorem errno {err : FsErrno} : Keeps s (s.setErrno err) := of_eq rfl rfl

section

variable (h : Keeps s s')
include h

theorem trans (h' : Keeps s' s'') : Keeps s s'' := by
  obtain ⟨hh, l, ht, hl⟩ := h
  obtain ⟨hh', l', ht', hl'⟩ := h'
  refine ⟨hh'.trans hh, l ++ l', by rw [ht', ht, List.append_assoc], fun p hp => ?_⟩
  rcases List.mem_append.mp hp with hp | hp
  · exact hl p hp
  · exact hl' p hp

theorem setErrno {err : FsErrno} : Keeps s (s'.setErrno err) :=
  h.trans (of_eq rfl rfl)

theorem setVfs {v : Vfs} : Keeps s { s' with vfs := v } :=
  h.trans (of_eq rfl rfl)

theorem callDriver (hs : 0 < s.holds) : Keeps s (s'.callDriver e cb).1 := by
  refine h.trans ⟨rfl, [(cb, s'.holds)], rfl, fun p hp => ?_⟩
  rw [List.mem_singleton.mp hp]
  exact h.holds ▸ hs

end

end Keeps

/-! ## Taking and giving back -/

/-- `LOS_FsLock` succeeds at the beginning of a call. -/
def Gets (e : Env) (holds : ℕ) : Prop := e.muxValid ∧ (0 < holds ∨ e.granted 0)
deriving Decidable

theorem losFsLock_true (hroom : s.holds + 1 < 2 ^ 16) (h : losFsLock e s = (s', true)) :
    e.muxValid ∧ s'.holds = s.holds + 1 ∧ s'.trace = s.trace ∧ s'.vfs = s.vfs := by
  simp only [losFsLock] at h
  split_ifs at h with hvalid hholds hgrant
  · simp at h
  · obtain ⟨rfl, -⟩ := Prod.mk.inj h
    exact ⟨by simpa using hvalid, Nat.mod_eq_of_lt hroom, rfl, rfl⟩
  · obtain ⟨rfl, -⟩ := Prod.mk.inj h
    exact ⟨by simpa using hvalid, by dsimp only; omega, rfl, rfl⟩
  · simp at h

theorem losFsLock_false (h : losFsLock e s = (s', false)) :
    s'.holds = s.holds ∧ s'.trace = s.trace ∧ s'.vfs = s.vfs ∧
      (e.muxValid = false ∨ s.holds = 0) := by
  simp only [losFsLock] at h
  split_ifs at h with hvalid hholds hgrant
  · obtain ⟨rfl, -⟩ := Prod.mk.inj h
    exact ⟨rfl, rfl, rfl, .inl (by simpa using hvalid)⟩
  · simp at h
  · simp at h
  · obtain ⟨rfl, -⟩ := Prod.mk.inj h
    exact ⟨rfl, rfl, rfl, .inr (by omega)⟩

theorem losFsLock_snd_iff (hp : s.pends = 0) : (losFsLock e s).2 ↔ Gets e s.holds := by
  simp only [losFsLock, Gets, hp]
  split_ifs <;> simp_all

theorem losFsLock_again (hv : e.muxValid) (hs : 0 < s.holds) : (losFsLock e s).2 := by
  simp [losFsLock, hv, hs]

theorem Keeps.lock_failed (h : losFsLock e s = (s', false)) : Keeps s s' :=
  .of_eq (losFsLock_false h).1 (losFsLock_false h).2.1

section

variable (hroom : s.holds + 1 < 2 ^ 16)
include hroom

theorem pos_of_lock (h : losFsLock e s = (s', true)) : 0 < s'.holds := by
  have := (losFsLock_true hroom h).2.1
  omega

theorem Keeps.locked (h : losFsLock e s = (s', true)) (hk : 0 < s'.holds → Keeps s' s'') :
    Keeps s s''.losFsUnlock := by
  obtain ⟨-, hh, ht, -⟩ := losFsLock_true hroom h
  obtain ⟨hh', l, ht', hl⟩ := hk (by omega)
  refine ⟨?_, l, ht'.trans (by rw [ht]), hl⟩
  simp only [losFsUnlock]
  omega

/-! ## The calls that look at the answer -/

variable {flags : BitVec 32}

omit hroom in
theorem keeps_openLocked (hs : 0 < s.holds) : Keeps s (openLocked c e s path flags).1 := by
  unfold openLocked
  split
  · exact .errno
  · split_ifs
    · exact .errno
    · exact .errno
    · split
      · exact .errno
      · split
        · exact (Keeps.refl s).setVfs.setErrno
        · dsimp only
          split_ifs
          · exact ((Keeps.refl s).setVfs.callDriver hs).setVfs
          · exact ((Keeps.refl s).setVfs.callDriver hs).setVfs

theorem keeps_open {path : Option CStr} : Keeps s (s.open c e path flags).1 := by
  unfold Sys.open
  cases path with
  | none => exact .errno
  | some path =>
    dsimp only [vfsOpen]
    cases vfsPathCheck c (some path) true with
    | error => exact .errno
    | ok =>
      rcases hlock : losFsLock e s with ⟨s', _ | _⟩
      · exact (Keeps.lock_failed hlock).setErrno
      · exact .locked hroom hlock keeps_openLocked

theorem vfsAttachFile_cases {status : FileStatus} :
    (∃ s', vfsAttachFile c e s fd status = (s', none) ∧ Keeps s s') ∨
    ∃ s' s'' i, vfsAttachFile c e s fd status = (s'', some i) ∧ losFsLock e s = (s', true) ∧
      Keeps s' s'' := by
  unfold vfsAttachFile
  split_ifs with hfd
  · exact .inl ⟨_, rfl, .errno⟩
  · rcases hlock : losFsLock e s with ⟨s', _ | _⟩
    · exact .inl ⟨_, rfl, (Keeps.lock_failed hlock).setErrno⟩
    · dsimp only
      split
      · exact .inl ⟨_, rfl, .locked hroom hlock fun _ => .errno⟩
      · split_ifs
        · exact .inl ⟨_, rfl, .locked hroom hlock fun _ => .errno⟩
        · exact .inr ⟨s', _, _, rfl, rfl, (Keeps.refl s').setVfs⟩

theorem keeps_close : Keeps s (s.close c e fd).1 := by
  unfold Sys.close
  split_ifs
  · dsimp only [vfsClose]
    rcases @vfsAttachFile_cases c e s fd hroom .closing with
      ⟨s', heq, hk⟩ | ⟨s', s'', i, heq, hlock, hk⟩
    · rw [heq]
      exact hk
    · rw [heq]
      refine .locked hroom hlock fun hpos => Keeps.setVfs ?_
      split
      · exact hk.setErrno
      · split_ifs
        · exact hk.callDriver hpos
        · exact hk.setErrno
  · exact .refl s

omit hroom in
theorem keeps_callOrNotsup {has : Bool} (hk : Keeps s s') (hs : 0 < s.holds) :
    Keeps s (if has then callDriver e s' cb else (s'.setErrno .enotsup, nok)).1 := by
  split_ifs
  · exact hk.callDriver hs
  · exact hk.setErrno

theorem keeps_stat {path : Option CStr} {buf : Bool} : Keeps s (s.stat c e path buf).1 := by
  unfold stat
  cases vfsPathCheck c path false with
  | error => exact .errno
  | ok =>
    split_ifs
    · exact .errno
    · rcases hlock : losFsLock e s with ⟨s', _ | _⟩
      · exact (Keeps.lock_failed hlock).setErrno
      · dsimp only
        split
        · exact .locked hroom hlock fun _ => .errno
        · exact .locked hroom hlock (keeps_callOrNotsup (.refl s'))

omit hroom in
theorem keeps_opendirLocked (hs : 0 < s.holds) : Keeps s (opendirLocked c e s path addr).1 := by
  unfold opendirLocked
  split_ifs
  · exact .errno
  · split
    · exact .errno
    · split_ifs
      · exact .errno
      · dsimp only
        split_ifs
        · exact ((Keeps.refl s).callDriver hs).setVfs
        · exact (Keeps.refl s).callDriver (e := e) hs

theorem keeps_opendir {path : Option CStr} : Keeps s (s.opendir c e path).1 := by
  unfold opendir
  cases vfsPathCheck c path false with
  | error => exact .errno
  | ok =>
    cases e.malloc with
    | none => exact .errno
    | some =>
      rcases hlock : losFsLock e s with ⟨s', _ | _⟩
      · exact (Keeps.lock_failed hlock).setErrno
      · exact .locked hroom hlock keeps_opendirLocked

theorem keeps_readdir : Keeps s (s.readdir e dir).1 := by
  unfold readdir
  cases dir.bind Dir.dMp with
  | none => exact .errno
  | some =>
    rcases hlock : losFsLock e s with ⟨s', _ | _⟩
    · exact (Keeps.lock_failed hlock).setErrno
    · exact .locked hroom hlock (keeps_callOrNotsup (.refl s'))

theorem keeps_closedir : Keeps s (s.closedir e dir).1 := by
  unfold closedir
  rcases dir with - | ⟨addr, - | mp⟩
  · exact .errno
  · exact .errno
  · rcases hlock : losFsLock e s with ⟨s', _ | _⟩
    · exact (Keeps.lock_failed hlock).setErrno
    · have hcall : Keeps s' (if s'.vfs.mpHasOp mp .closedir then callDriver e s' .closedir
          else (s'.setErrno .enotsup, nok)).1 :=
        keeps_callOrNotsup (.refl s') (pos_of_lock hroom hlock)
      refine Keeps.setVfs (.locked hroom hlock fun _ => ?_)
      split_ifs at hcall ⊢
      all_goals
        first
          | exact hcall.setVfs
          | exact hcall.setErrno

theorem keeps_mkdir {path : Option CStr} : Keeps s (s.mkdir c e path).1 := by
  unfold mkdir
  cases vfsPathCheck c path false with
  | error => exact .errno
  | ok =>
    rcases hlock : losFsLock e s with ⟨s', _ | _⟩
    · exact (Keeps.lock_failed hlock).setErrno
    · dsimp only
      split
      · exact .locked hroom hlock fun _ => .errno
      · exact .locked hroom hlock (keeps_callOrNotsup (.refl s'))

theorem keeps_rmdir {path : Option CStr} : Keeps s (s.rmdir c e path).1 := by
  unfold rmdir
  cases path with
  | none => exact .errno
  | some =>
    rcases hlock : losFsLock e s with ⟨s', _ | _⟩
    · exact (Keeps.lock_failed hlock).setErrno
    · dsimp only
      split
      · exact .locked hroom hlock fun _ => .errno
      · split_ifs
        · exact .locked hroom hlock fun _ => .errno
        · exact .locked hroom hlock (Keeps.refl s').callDriver

end

/-! ## `fstat` and `fcntl` -/

/-- The descriptor of an open file, which the task can attach. -/
def Attaches (c : VfsConfig) (e : Env) (v : Vfs) (holds : ℕ) (fd : ℤ) : Prop :=
  minStartFd ≤ fd ∧ fd < c.nfileDescriptors ∧ Gets e holds ∧
    (v.files (fd - minStartFd).toNat).fMp ≠ none ∧
    (v.files (fd - minStartFd).toNat).fStatus = .ready
deriving Decidable

/-- `VfsAttachFile` leaves the mutex taken exactly when it attaches a file. -/
theorem vfsAttachFile_ready (hroom : s.holds + 1 < 2 ^ 16) (hp : s.pends = 0) :
    (Attaches c e s.vfs s.holds fd ∧ ∃ s', vfsAttachFile c e s fd .ready =
      (s', some (fd - minStartFd).toNat) ∧ s'.holds = s.holds + 1 ∧ s'.trace = s.trace ∧
        e.muxValid ∧ s'.vfs.files = s.vfs.files ∧ Keeps s s'.losFsUnlock) ∨
    (¬Attaches c e s.vfs s.holds fd ∧
      ∃ s', vfsAttachFile c e s fd .ready = (s', none) ∧ Keeps s s') := by
  have hgets := losFsLock_snd_iff (e := e) hp
  unfold vfsAttachFile Vfs.fdToFile
  split_ifs with hfd
  · exact .inr ⟨fun h => by unfold Attaches at h; omega, _, rfl, (Keeps.refl s).setErrno⟩
  · cases hlock : losFsLock e s with
    | mk s' ok =>
      rw [hlock] at hgets
      cases ok with
      | false =>
        refine .inr ⟨fun h => ?_, _, rfl, (Keeps.lock_failed hlock).setErrno⟩
        simpa using hgets.mpr h.2.2.1
      | true =>
        obtain ⟨hv, hh, ht, hvfs⟩ := losFsLock_true hroom hlock
        dsimp only
        split_ifs with hfile
        · refine .inr ⟨fun h => ?_, _, rfl, .locked hroom hlock fun _ => .errno⟩
          rw [hvfs] at hfile
          rcases hfile with hfile | hfile
          · exact h.2.2.2.1 hfile
          · exact hfile h.2.2.2.2
        · rw [hvfs, not_or, not_not] at hfile
          refine .inl ⟨⟨by omega, by omega, hgets.mp rfl, hfile⟩, _, rfl, hh, ht, hv, ?_,
            .locked hroom hlock fun _ => (Keeps.refl s').setVfs⟩
          rw [hvfs, ← hfile.2]
          exact Function.update_eq_self _ _

/-- Every descriptor that can be attached has a path to ask for. -/
theorem keeps_fstat_iff (hroom : holds + 2 < 2 ^ 16) {buf : Bool} :
    Keeps (startCall v holds) ((startCall v holds).fstat c e fd buf).1 ↔
      (Attaches c e v holds fd → (v.files (fd - minStartFd).toNat).fullPath ≠ none) := by
  unfold fstat
  rcases @vfsAttachFile_ready c e (startCall v holds) fd (Nat.lt_of_succ_lt hroom) rfl with
    ⟨hatt, s', heq, hh, ht, hv, hfiles, hk⟩ | ⟨hatt, s', heq, hk⟩
  · rw [heq]
    dsimp only
    rw [hfiles, show (startCall v holds).vfs = v from rfl]
    have hmp : (v.files (fd - minStartFd).toNat).fMp ≠ none := hatt.2.2.2.1
    by_cases hpath : (v.files (fd - minStartFd).toNat).fullPath = none
    · rw [if_pos (.inr hpath)]
      refine iff_of_false (fun hc => ?_) fun hc => hc hatt hpath
      have := hc.holds
      simp only at this
      omega
    · rw [if_neg (not_or.mpr ⟨hmp, hpath⟩)]
      refine iff_of_true ?_ fun _ => hpath
      obtain ⟨hh', l, ht', hl⟩ := @keeps_stat c e s' (hh ▸ hroom)
        (v.files (fd - minStartFd).toNat).fullPath buf
      refine ⟨?_, l, ?_, hl⟩
      · simp only [losFsUnlock]
        omega
      · simp only [losFsUnlock]
        rw [ht', ht]
  · rw [heq]
    exact iff_of_true hk fun hc => absurd hc hatt

variable {cmd : FcntlCmd}

theorem vfsVfcntl_holds {filep : Option ℕ} :
    (vfsVfcntl c s filep cmd).1.holds = s.holds ∧ (vfsVfcntl c s filep cmd).1.trace = s.trace := by
  unfold vfsVfcntl
  cases filep with
  | none => exact ⟨rfl, rfl⟩
  | some =>
    dsimp only
    split_ifs
    · exact ⟨rfl, rfl⟩
    · cases cmd <;> exact ⟨rfl, rfl⟩

theorem fcntl_holds (hfd : fd < c.nfileDescriptors) :
    (s.fcntl c e fd cmd).1.holds = (vfsAttachFile c e s fd .ready).1.holds - 1 ∧
      (s.fcntl c e fd cmd).1.trace = (vfsAttachFile c e s fd .ready).1.trace := by
  obtain ⟨hh, ht⟩ := @vfsVfcntl_holds c (vfsAttachFile c e s fd .ready).1 cmd
    (vfsAttachFile c e s fd .ready).2
  rw [← hh, ← ht]
  simp only [fcntl, if_pos hfd]
  split <;> exact ⟨rfl, rfl⟩

theorem keeps_fcntl_iff (hroom : holds + 2 < 2 ^ 16) :
    Keeps (startCall v holds) ((startCall v holds).fcntl c e fd cmd).1 ↔
      (c.nfileDescriptors ≤ fd ∨ holds = 0 ∨ Attaches c e v holds fd) := by
  by_cases hfd : fd < c.nfileDescriptors
  · obtain ⟨hh, ht⟩ := @fcntl_holds c e (startCall v holds) fd cmd hfd
    rcases @vfsAttachFile_ready c e (startCall v holds) fd (Nat.lt_of_succ_lt hroom) rfl with
      ⟨hatt, s', heq, hh', ht', -⟩ | ⟨hatt, s', heq, hk⟩
    · rw [heq] at hh ht
      refine iff_of_true (.of_eq ?_ (ht.trans ht')) (.inr (.inr hatt))
      rw [hh, hh', Nat.add_sub_cancel]
    · rw [heq] at hh ht
      dsimp only at hh ht
      obtain ⟨hh', l, ht', hl⟩ := hk
      have hheld : s'.holds = holds := hh'
      constructor
      · intro hc
        have h := hc.holds
        right
        left
        omega
      · rintro (hc | rfl | hc)
        · omega
        · refine ⟨?_, l, ht.trans ht', hl⟩
          rw [hh, hheld]
          rfl
        · exact absurd hc hatt
  · have hskip : Keeps (startCall v holds) ((startCall v holds).fcntl c e fd cmd).1 := by
      simp only [fcntl, if_neg hfd]
      exact (Keeps.refl _).setErrno
    exact iff_of_true hskip (.inl (by omega))

/-! ## The calls that do not look at the answer -/

variable {fsType : Option CStr}

theorem keeps_vfsFsMapGet (hroom : s.holds + 1 < 2 ^ 16) (hv : e.muxValid) (hs : 0 < s.holds) :
    Keeps s (vfsFsMapGet e s fsType).1 := by
  have hlock := losFsLock_again hv hs
  unfold vfsFsMapGet
  cases h : losFsLock e s with
  | mk s' ok =>
    obtain rfl : ok := by simpa [h] using hlock
    exact .locked hroom h fun _ => .refl s'

theorem keeps_vfsMountPointInit {source fsType : Option CStr} {target : CStr} {rdonly : Bool}
    (hroom : s.holds + 1 < 2 ^ 16) (hv : e.muxValid) (hs : 0 < s.holds) :
    Keeps s (vfsMountPointInit c e s source target fsType rdonly).1 := by
  unfold vfsMountPointInit
  split
  · exact .errno
  · have hk := @keeps_vfsFsMapGet e s fsType hroom hv hs
    dsimp only
    split
    · exact hk.setErrno
    · split_ifs
      · exact hk.setErrno
      · split
        · exact hk.setErrno
        · exact hk.setVfs

variable {remount rdonly : Bool} {calls : Prop}

theorem keeps_mount_of_gets {source target fsType : Option CStr} (hroom2 : s.holds + 2 < 2 ^ 16)
    (h : (losFsLock e s).2) :
    Keeps s (s.mount c e source target fsType remount rdonly).1 := by
  unfold mount
  cases vfsMountPathCheck c target with
  | error => exact .errno
  | ok target =>
    cases hlock : losFsLock e s with
    | mk s' ok =>
      obtain rfl : ok := by simpa [hlock] using h
      have hroom := Nat.lt_of_succ_lt hroom2
      obtain ⟨hv, hh, -⟩ := losFsLock_true hroom hlock
      have hpos := pos_of_lock hroom hlock
      dsimp only
      split_ifs
      · refine .locked hroom hlock fun _ => ?_
        unfold vfsRemount
        split
        · exact .errno
        · exact (Keeps.refl s').callDriver hpos
      · have hk := @keeps_vfsMountPointInit c e _ source fsType target rdonly (hh ▸ hroom2) hv hpos
        generalize vfsMountPointInit c e s' source target fsType rdonly = p at hk ⊢
        obtain ⟨s'', mp⟩ := p
        cases mp with
        | none => exact .locked hroom hlock fun _ => hk
        | some =>
          dsimp only
          split_ifs
          · exact .locked hroom hlock hk.callDriver
          · exact .locked hroom hlock fun _ => (hk.callDriver hpos).setVfs

/-- `mount` gets as far as calling the driver. -/
def MountCalls (c : VfsConfig) (e : Env) (v : Vfs) (target : CStr) (fsType : Option CStr)
    (remount : Bool) : Prop :=
  if remount then ∃ m, Wins c.nested v.mountPoints target m
  else (∀ m, ¬Wins c.nested v.mountPoints target m) ∧ e.malloc ≠ none ∧
    ∃ mFs, v.fsMap.find? (fun curr => some curr.fsType = fsType) = some mFs ∧ mFs.ops .mount

theorem vfsFsMapGet_trace : (vfsFsMapGet e s fsType).1.trace = s.trace := by
  simp [vfsFsMapGet, losFsUnlock]

/-- Without the lock, `VfsFsMapGet` gives a hold back, if there is one. -/
theorem vfsFsMapGet_holds (h : e.muxValid = false ∨ s.holds = 0) :
    (vfsFsMapGet e s fsType).1.holds = s.holds - 1 := by
  simp only [vfsFsMapGet, losFsLock, losFsUnlock]
  rcases h with hv | hz
  · simp [hv]
  · split_ifs <;> simp [hz]

theorem vfsMpFind_eq_none_iff {nested : Bool} {mps : List MountPoint} :
    vfsMpFind nested mps path = none ↔ ∀ m, ¬Wins nested mps path m := by
  simp only [← vfsMpFind_eq_some_iff, Option.eq_none_iff_forall_ne_some]

/-- A mount point is prepared exactly when the driver will be called for it. -/
theorem vfsMountPointInit_spec {source fsType : Option CStr} {target : CStr} {rdonly : Bool} :
    ((vfsMountPointInit c e s source target fsType rdonly).1.holds = s.holds ∨
      (vfsMountPointInit c e s source target fsType rdonly).1.holds =
        (vfsFsMapGet e s fsType).1.holds) ∧
    (vfsMountPointInit c e s source target fsType rdonly).1.trace = s.trace ∧
    ((vfsMountPointInit c e s source target fsType rdonly).2 ≠ none ↔
      MountCalls c e s.vfs target fsType false) := by
  have htrace := @vfsFsMapGet_trace e s fsType
  have hsnd := @vfsFsMapGet_snd e s fsType
  simp only [MountCalls, ← vfsMpFind_eq_none_iff, ← hsnd]
  unfold vfsMountPointInit
  cases vfsMpFind c.nested s.vfs.mountPoints target with
  | some => exact ⟨.inl rfl, rfl, by simp⟩
  | none =>
    generalize vfsFsMapGet e s fsType = p at htrace ⊢
    obtain ⟨s', mFs⟩ := p
    cases mFs with
    | none => exact ⟨.inr rfl, htrace, by simp⟩
    | some mFs =>
      dsimp only
      cases hops : mFs.ops .mount with
      | false => exact ⟨.inr rfl, htrace, by simp [hops]⟩
      | true =>
        cases e.malloc with
        | none => exact ⟨.inr rfl, htrace, by simp⟩
        | some => exact ⟨.inr rfl, htrace, by simp [hops]⟩

/-- A call that goes on though the lock was not taken. -/
structure Unlocked (s s' : Sys) (cb : Callback) (calls : Prop) : Prop where
  zero : s.holds = 0 → s'.holds = 0
  pos : 0 < s.holds → s'.holds < s.holds
  quiet : ¬calls → s'.trace = s.trace
  calls : calls → s.holds = 0 → (cb, 0) ∈ s'.trace

theorem Unlocked.silent (hno : ¬calls) (hh : s'.holds ≤ s.holds)
    (ht : s'.trace = s.trace) : Unlocked s s'.losFsUnlock cb calls := by
  refine ⟨fun hz => ?_, fun hp => ?_, fun _ => ht, fun hc => absurd hc hno⟩
  all_goals
    simp only [losFsUnlock]
    omega

theorem Unlocked.called (e : Env) (hyes : calls) (hh : s'.holds ≤ s.holds) :
    Unlocked s (losFsUnlock { (callDriver e s' cb).1 with vfs := v }) cb calls := by
  refine ⟨fun hz => ?_, fun hp => ?_, fun hc => absurd hyes hc, fun _ hz => ?_⟩
  · simp only [losFsUnlock, callDriver]
    omega
  · simp only [losFsUnlock, callDriver]
    omega
  · simp [losFsUnlock, callDriver, Nat.le_zero.mp (hz ▸ hh)]

theorem mount_unlocked {source target fsType : Option CStr} {t : CStr}
    (hpath : vfsMountPathCheck c target = .ok t) (h : (losFsLock e s).2 = false) :
    Unlocked s (s.mount c e source target fsType remount rdonly).1 .mount
      (MountCalls c e s.vfs t fsType remount) := by
  unfold mount
  rw [hpath]
  rcases hlock : losFsLock e s with ⟨s', ok⟩
  obtain rfl : ok = false := by simpa [hlock] using h
  obtain ⟨hh, ht, hvfs, hwhy⟩ := losFsLock_false hlock
  cases remount with
  | true =>
    simp only [vfsRemount, hvfs]
    cases hfind : vfsMpFind c.nested s.vfs.mountPoints t with
    | none =>
      refine .silent ?_ hh.le ht
      simpa [MountCalls] using vfsMpFind_eq_none_iff.mp hfind
    | some m =>
      refine .called e ?_ hh.le
      simpa using ⟨m, vfsMpFind_eq_some_iff.mp hfind⟩
  | false =>
    obtain ⟨hholds, htrace, hsome⟩ := @vfsMountPointInit_spec c e s' source fsType t rdonly
    rw [vfsFsMapGet_holds (hh.symm ▸ hwhy)] at hholds
    rw [hvfs] at hsome
    simp only [Bool.false_eq_true, if_false]
    generalize vfsMountPointInit c e s' source t fsType rdonly = p at hholds htrace hsome ⊢
    obtain ⟨s'', mp⟩ := p
    dsimp only at hholds htrace hsome ⊢
    have hle : s''.holds ≤ s.holds := by omega
    cases mp with
    | none => exact .silent (by simpa using hsome) hle (htrace.trans ht)
    | some mp =>
      have hyes : MountCalls c e s.vfs t fsType false := hsome.mp (by simp)
      dsimp only
      split_ifs <;> exact .called e hyes hle

/-- Without the lock a call keeps it only if it held nothing and calls no driver. -/
theorem Unlocked.keeps_iff (h : Unlocked (startCall v holds) s' cb calls) :
    Keeps (startCall v holds) s' ↔ holds = 0 ∧ ¬calls := by
  constructor
  · intro hk
    have hz : holds = 0 := by
      by_contra hne
      have := h.pos (Nat.pos_of_ne_zero hne)
      have := hk.holds
      omega
    refine ⟨hz, fun hc => ?_⟩
    obtain ⟨l, ht, hl⟩ := hk.trace
    have hmem := h.calls hc hz
    rw [ht] at hmem
    exact absurd (hl _ hmem) (by simp)
  · rintro ⟨hz, hno⟩
    exact .of_eq ((h.zero hz).trans hz.symm) (h.quiet hno)

theorem keeps_mount_iff (hroom : holds + 2 < 2 ^ 16) {source target fsType : Option CStr} :
    Keeps (startCall v holds)
      ((startCall v holds).mount c e source target fsType remount rdonly).1 ↔
      ∀ t, vfsMountPathCheck c target = .ok t →
        Gets e holds ∨ (holds = 0 ∧ ¬MountCalls c e v t fsType remount) := by
  have hgets := losFsLock_snd_iff (e := e) (s := startCall v holds) rfl
  by_cases hg : Gets e holds
  · exact iff_of_true (keeps_mount_of_gets hroom (hgets.mpr hg)) fun _ _ => .inl hg
  · cases hpath : vfsMountPathCheck c target with
    | error =>
      refine iff_of_true ?_ (by simp)
      simp only [mount, hpath]
      exact (Keeps.refl _).setErrno
    | ok =>
      have hf : (losFsLock e (startCall v holds)).2 = false := by
        simpa using mt hgets.mp hg
      rw [(mount_unlocked hpath hf).keeps_iff]
      simp only [Except.ok.injEq, forall_eq', hg, false_or]
      exact Iff.rfl

variable {target : Option CStr} {force : Bool}

theorem keeps_unmountWith_of_gets (hroom : s.holds + 1 < 2 ^ 16) (h : (losFsLock e s).2) :
    Keeps s (unmountWith c e cb force s target).1 := by
  unfold unmountWith
  cases hlock : losFsLock e s with
  | mk s' ok =>
    obtain rfl : ok := by simpa [hlock] using h
    have hpos := pos_of_lock hroom hlock
    dsimp only
    split
    · exact .locked hroom hlock fun _ => .errno
    · split
      · exact .locked hroom hlock fun _ => .refl s'
      · rename_i mp _
        split_ifs
        · exact .locked hroom hlock fun _ => .refl s'
        all_goals
          have hclose : Keeps s' (closeFdsInMp c e s' mp) :=
            closeFdsInMp_induction (Keeps s') (.refl s') fun _ hk => hk.callDriver hpos
          first
            | exact .locked hroom hlock hclose.callDriver
            | exact .locked hroom hlock fun _ => (hclose.callDriver hpos).setVfs
            | exact .locked hroom hlock (Keeps.refl s').callDriver
            | exact .locked hroom hlock fun _ => ((Keeps.refl s').callDriver hpos).setVfs

/-- `umount` and `umount2` get as far as calling the driver. -/
def UnmountCalls (c : VfsConfig) (v : Vfs) (cb : Callback) (target : Option CStr) : Prop :=
  ∃ t m, vfsMountPathCheck c target = .ok t ∧ Wins c.nested v.mountPoints t m ∧ m.mRefs = 0 ∧
    v.hasOp m.mFs cb

theorem closeFdsInMp_holds {mp : MountPoint} : (s.closeFdsInMp c e mp).holds = s.holds :=
  closeFdsInMp_induction (fun s' => s'.holds = s.holds) rfl fun _ h => h

theorem unmountWith_unlocked (h : (losFsLock e s).2 = false) :
    Unlocked s (unmountWith c e cb force s target).1 cb (UnmountCalls c s.vfs cb target) := by
  unfold unmountWith
  rcases hlock : losFsLock e s with ⟨s', ok⟩
  obtain rfl : ok = false := by simpa [hlock] using h
  obtain ⟨hh, ht, hvfs, -⟩ := losFsLock_false hlock
  cases hpath : vfsMountPathCheck c target with
  | error =>
    refine .silent ?_ hh.le ht
    rintro ⟨t, m, ht, -⟩
    simp [hpath] at ht
  | ok t =>
    dsimp only
    rw [hvfs]
    cases hfind : vfsMpFind c.nested s.vfs.mountPoints t with
    | none =>
      refine .silent ?_ hh.le ht
      rintro ⟨t', m, ht', hw, -⟩
      obtain rfl : t = t' := by simpa [hpath] using ht'
      exact vfsMpFind_eq_none_iff.mp hfind m hw
    | some m =>
      dsimp only
      by_cases hok : m.mRefs ≠ 0 ∨ (!s.vfs.hasOp m.mFs cb)
      · rw [if_pos hok]
        refine .silent ?_ hh.le ht
        rintro ⟨t', m', ht', hw', hm'⟩
        obtain rfl : t = t' := by simpa [hpath] using ht'
        obtain rfl : m = m' := by simpa [vfsMpFind_eq_some_iff.mpr hw'] using hfind.symm
        simp [hm'] at hok
      · rw [if_neg hok]
        have hyes : UnmountCalls c s.vfs cb target := by
          simp only [not_or, not_not, Bool.not_eq_true, Bool.not_eq_false'] at hok
          exact ⟨t, m, hpath, vfsMpFind_eq_some_iff.mp hfind, hok⟩
        have hle : (if force then closeFdsInMp c e s' m else s').holds ≤ s.holds := by
          split_ifs
          · rw [closeFdsInMp_holds, hh]
          · exact hh.le
        generalize (if force then closeFdsInMp c e s' m else s') = s'' at hle ⊢
        split_ifs <;> exact .called e hyes hle

theorem keeps_unmountWith_iff (hroom : holds + 2 < 2 ^ 16) :
    Keeps (startCall v holds) (unmountWith c e cb force (startCall v holds) target).1 ↔
      Gets e holds ∨ (holds = 0 ∧ ¬UnmountCalls c v cb target) := by
  have hgets := losFsLock_snd_iff (e := e) (s := startCall v holds) rfl
  by_cases hg : Gets e holds
  · exact iff_of_true (keeps_unmountWith_of_gets (Nat.lt_of_succ_lt hroom) (hgets.mpr hg)) (.inl hg)
  · have hf : (losFsLock e (startCall v holds)).2 = false := by simpa using mt hgets.mp hg
    rw [(unmountWith_unlocked hf).keeps_iff, or_iff_right hg]
    exact Iff.rfl

/-! ## All calls -/

/-- After the call the task holds the mutex as often as before, and every driver was called under
it. -/
def LockBalanced (c : VfsConfig) (e : Env) (v : Vfs) (holds : ℕ) (call : FsCall) : Prop :=
  ((startCall v holds).exec c e call).holds = holds ∧
    ∀ p ∈ ((startCall v holds).exec c e call).trace, 0 < p.2

def LockSafe (c : VfsConfig) (e : Env) (v : Vfs) (holds : ℕ) : FsCall → Prop
  | .mount _ target fsType remount _ => ∀ t, vfsMountPathCheck c target = .ok t →
      Gets e holds ∨ (holds = 0 ∧ ¬MountCalls c e v t fsType remount)
  | .umount target => Gets e holds ∨ (holds = 0 ∧ ¬UnmountCalls c v .umount target)
  | .umount2 target _ => Gets e holds ∨ (holds = 0 ∧ ¬UnmountCalls c v .umount2 target)
  | .fstat fd _ => Attaches c e v holds fd → (v.files (fd - minStartFd).toNat).fullPath ≠ none
  | .fcntl fd _ => c.nfileDescriptors ≤ fd ∨ holds = 0 ∨ Attaches c e v holds fd
  | _ => True

theorem lockBalanced_iff_keeps {call : FsCall} : LockBalanced c e v holds call ↔
    Keeps (startCall v holds) ((startCall v holds).exec c e call) := by
  constructor
  · rintro ⟨hh, ht⟩
    exact ⟨hh, _, rfl, ht⟩
  · rintro ⟨hh, l, ht, hl⟩
    refine ⟨hh, ?_⟩
    rw [ht]
    exact hl

theorem lockBalanced_iff (c : VfsConfig) (e : Env) (v : Vfs) (hroom : holds + 2 < 2 ^ 16)
    (call : FsCall) :
    LockBalanced c e v holds call ↔ LockSafe c e v holds call := by
  rw [lockBalanced_iff_keeps]
  have hroom' : (startCall v holds).holds + 1 < 2 ^ 16 := Nat.lt_of_succ_lt hroom
  cases call with
  | mount => exact keeps_mount_iff hroom
  | umount => exact keeps_unmountWith_iff hroom
  | umount2 target force => exact keeps_unmountWith_iff hroom
  | «open» => exact iff_of_true (keeps_open hroom') trivial
  | close => exact iff_of_true (keeps_close hroom') trivial
  | fstat => exact keeps_fstat_iff hroom
  | fcntl => exact keeps_fcntl_iff hroom
  | opendir => exact iff_of_true (keeps_opendir hroom') trivial
  | readdir => exact iff_of_true (keeps_readdir hroom') trivial
  | closedir => exact iff_of_true (keeps_closedir hroom') trivial
  | mkdir => exact iff_of_true (keeps_mkdir hroom') trivial
  | rmdir => exact iff_of_true (keeps_rmdir hroom') trivial

theorem lockBalanced_mkdir : LockBalanced (sampleConfig true) {} (sampleMounted true).vfs 3
    (.mkdir (some ['/', 'a', '/', 'b'])) :=
  (lockBalanced_iff _ _ _ (by decide) _).mpr trivial

/-- `fcntl` on a closed descriptor drops a hold of its caller, and `umount` calls the driver without
the lock when the wait for it has timed out. With 65535 holds `mkdir` calls the driver when the
count has become 0. -/
theorem not_lockBalanced :
    ¬LockBalanced (sampleConfig true) {} sampleVfs 1 (.fcntl 5 .getFl) ∧
    ¬LockBalanced (sampleConfig true) { granted := fun _ => false } (sampleMounted true).vfs 0
      (.umount (some ['/', 'a'])) ∧
    ¬LockBalanced (sampleConfig true) {} (sampleMounted true).vfs 65535
      (.mkdir (some ['/', 'a', '/', 'b'])) := by
  refine ⟨?_, ?_, ?_⟩
  · rintro ⟨hholds, -⟩
    revert hholds
    decide +kernel
  · rintro ⟨-, htrace⟩
    exact absurd (htrace (.umount, 0) (by decide +kernel)) (by decide)
  · rintro ⟨-, htrace⟩
    exact absurd (htrace (.mkdir, 0) (by decide +kernel)) (by decide)

end LiteOS.Fs
