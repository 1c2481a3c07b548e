import LiteOS.Fs.Unmount

/-!
# What the calls do to the books

The books are the lists of mount points and of open directories, the file table and the counters
`mRefs`, `fsRefs` and `g_dirNum`. Every call has one of ten effects on them.
-/

namespace LiteOS.Fs

open Sys Vfs

/-- The call leaves the books alone. Unused files may change. -/
structure SameBooks (v v' : Vfs) : Prop where
  mountPoints : v'.mountPoints = v.mountPoints
  fsMap : v'.fsMap = v.fsMap
  dirs : v'.dirs = v.dirs
  dirNum : v'.dirNum = v.dirNum
  files : ∀ i, ((v.files i).fStatus = .notUsed ∧ (v'.files i).fStatus = .notUsed) ∨
    ((v'.files i).fStatus = (v.files i).fStatus ∧ (v'.files i).fMp = (v.files i).fMp ∧
      (v'.files i).fFops = (v.files i).fFops)

/-- The file at `i` is open on the mount point at `a`, and the close function of its file system
succeeds. -/
def Closes (e : Env) (v : Vfs) (i : ℕ) : Prop :=
  ∃ fs, (v.files i).fFops = some fs ∧ v.hasOp fs .close ∧ e.driver .close = 0

/-- The effects of the calls. A failing `mount` has counted a mount point that is not there, and a
failing `close` or `closedir` has not counted down what is released nevertheless. -/
inductive Effect (c : VfsConfig) (e : Env) (v : Vfs) : FsCall → Vfs → Prop
  | same {call : FsCall} {v' : Vfs} : SameBooks v v' → Effect c e v call v'
  | mounted {source target fsType : Option CStr} {rdonly : Bool} (m : MountPoint) :
    e.malloc = some m.addr → m.mRefs = 0 →
    Effect c e v (.mount source target fsType false rdonly)
      { v.addFsRef m.mFs with mountPoints := m :: v.mountPoints }
  | mountFailed {source target fsType : Option CStr} {rdonly : Bool} (fs : ℕ) :
    e.driver .mount ≠ 0 →
    Effect c e v (.mount source target fsType false rdonly) (v.addFsRef fs)
  | unmounted {call : FsCall} (m : MountPoint) : m ∈ v.mountPoints → m.mRefs = 0 →
    Effect c e v call ((v.mpDeleteFromList m).dropFsRef m.mFs)
  | opened {path : CStr} {flags : BitVec 32} (m : MountPoint) (i : ℕ) (file : File) :
    vfsMpFind c.nested v.mountPoints path = some m → i < c.nrOpenDefault →
    (v.files i).fStatus = .notUsed → file.fStatus = .ready → file.fMp = some m.addr →
    file.fFops = some m.mFs →
    Effect c e v (.open (some path) flags) ((v.addRef m.addr).setFile i file)
  | closed {fd : ℤ} (i a : ℕ) : Vfs.fdToFile c fd = some i → (v.files i).fStatus = .ready →
    (v.files i).fMp = some a → Closes e v i →
    Effect c e v (.close fd) ((v.dropRef a).setFile i {})
  | closeFailed {fd : ℤ} (i : ℕ) : Vfs.fdToFile c fd = some i → (v.files i).fStatus = .ready →
    ¬Closes e v i → Effect c e v (.close fd) (v.setFile i {})
  | dirOpened {path : CStr} (m : MountPoint) (addr : ℕ) :
    vfsMpFind c.nested v.mountPoints path = some m → e.malloc = some addr →
    v.dirNum < c.maxOpenDirs →
    Effect c e v (.opendir (some path))
      { v.addRef m.addr with
        dirNum := (v.dirNum + 1) % 2 ^ 32
        dirs := { addr := addr, dMp := some m.addr } :: v.dirs }
  | dirClosed (d : Dir) (a : ℕ) : d.dMp = some a → v.mpHasOp a .closedir →
    e.driver .closedir = 0 →
    Effect c e v (.closedir (some d))
      { v.dropRef a with
        dirNum := (v.dirNum + (2 ^ 32 - 1)) % 2 ^ 32
        dirs := v.dirs.erase d }
  | dirCloseFailed (d : Dir) (a : ℕ) : d.dMp = some a →
    ¬(v.mpHasOp a .closedir ∧ e.driver .closedir = 0) →
    Effect c e v (.closedir (some d)) { v with dirs := v.dirs.erase d }

variable {c : VfsConfig} {e : Env} {s s' : Sys} {v v' v'' : Vfs} {call : FsCall}

theorem SameBooks.refl (v : Vfs) : SameBooks v v :=
  ⟨rfl, rfl, rfl, rfl, fun _ => .inr ⟨rfl, rfl, rfl⟩⟩

variable {i : ℕ} {source fsType target : Option CStr} {file f g : File}

/-- Writing to one file changes nothing if it stays unused or keeps what it refers to. -/
theorem SameBooks.setFile (h : ((v.files i).fStatus = .notUsed ∧ file.fStatus = .notUsed) ∨
      (file.fStatus = (v.files i).fStatus ∧ file.fMp = (v.files i).fMp ∧
        file.fFops = (v.files i).fFops)) : SameBooks v (v.setFile i file) := by
  refine ⟨rfl, rfl, rfl, rfl, fun j => ?_⟩
  by_cases hj : j = i
  · subst hj
    simpa [Vfs.setFile] using h
  · right
    simp [Vfs.setFile, hj]

theorem Effect.of_eq (h : v' = v) : Effect c e v call v' := by
  subst h
  exact .same (.refl _)

@[simp] theorem setFile_setFile : (v.setFile i f).setFile i g =
    v.setFile i g := by
  simp [setFile]

theorem vfs_of_losFsLock {b : Bool} (h : losFsLock e s = (s', b)) : s'.vfs = s.vfs := by
  have hvfs := @losFsLock_vfs e s
  rwa [h] at hvfs

/-! ## Mounting -/

theorem vfsMountPointInit_books {target : CStr} {rdonly : Bool} :
    (∃ s', vfsMountPointInit c e s source target fsType rdonly = (s', none) ∧ s'.vfs = s.vfs) ∨
    ∃ s' m, vfsMountPointInit c e s source target fsType rdonly = (s', some m) ∧
      s'.vfs = s.vfs.addFsRef m.mFs ∧ e.malloc = some m.addr ∧ m.mRefs = 0 := by
  simp only [vfsMountPointInit]
  cases vfsMpFind c.nested s.vfs.mountPoints target with
  | some => exact .inl ⟨_, rfl, rfl⟩
  | none =>
    cases (vfsFsMapGet e s fsType).2 with
    | none => exact .inl ⟨_, rfl, by simp⟩
    | some =>
      dsimp only
      split_ifs
      · exact .inl ⟨_, rfl, by simp⟩
      · cases hm : e.malloc with
        | none => exact .inl ⟨_, rfl, by simp⟩
        | some => exact .inr ⟨_, _, rfl, by simp, rfl, rfl⟩

theorem mount_effect {remount rdonly : Bool} :
    Effect c e s.vfs (.mount source target fsType remount rdonly)
      (s.mount c e source target fsType remount rdonly).1.vfs := by
  simp only [mount]
  cases vfsMountPathCheck c target with
  | error => exact .of_eq rfl
  | ok t =>
    cases remount with
    | true =>
      simp only [vfsRemount]
      cases vfsMpFind c.nested (losFsLock e s).1.vfs.mountPoints t with
      | none => exact .of_eq (by simp)
      | some => exact .of_eq (by simp)
    | false =>
      simp only [Bool.false_eq_true, if_false]
      rcases @vfsMountPointInit_books c e (losFsLock e s).1 source fsType t rdonly with
        ⟨s', heq, hvfs⟩ | ⟨s', m, heq, hvfs, hm, hz⟩ <;> rw [heq]
      · exact .of_eq (by simpa using hvfs)
      · dsimp only
        rw [losFsLock_vfs] at hvfs
        split_ifs with hret
        · simp only [losFsUnlock_vfs, callDriver_vfs, hvfs]
          exact .mountFailed m.mFs hret
        · simp only [callDriver_vfs, hvfs]
          exact .mounted m hm hz

theorem unmountWith_effect {cb : Callback} {force : Bool} :
    Effect c e s.vfs call (unmountWith c e cb force s target).1.vfs := by
  rcases @unmountWith_spec c e s cb target force with ⟨m, hm, hvfs, -⟩ | ⟨-, hvfs, -⟩
  · obtain ⟨t, -, hw, hz, -⟩ := hm
    rw [hvfs]
    exact .unmounted m hw.mem hz
  · exact .of_eq hvfs

/-! ## Files -/

theorem vfsFileGet_spec (h : v.vfsFileGet c = some i) :
    i < c.nrOpenDefault ∧ (v.files i).fStatus = .notUsed := by
  have hi := List.mem_of_find?_eq_some h
  have hp := List.find?_some h
  exact ⟨by simpa using hi, by simpa using hp⟩

theorem openLocked_effect {path : CStr} {flags : BitVec 32} :
    Effect c e s.vfs (.open (some path) flags) (openLocked c e s path flags).1.vfs := by
  simp only [openLocked]
  cases hfind : vfsMpFind c.nested s.vfs.mountPoints path with
  | none => exact .of_eq rfl
  | some mp =>
    dsimp only
    split_ifs
    · exact .of_eq rfl
    · exact .of_eq rfl
    · cases hget : s.vfs.vfsFileGet c with
      | none => exact .of_eq rfl
      | some i =>
        obtain ⟨hi, hfree⟩ := vfsFileGet_spec hget
        cases e.malloc with
        | none => exact .same (.setFile (.inl ⟨hfree, rfl⟩))
        | some =>
          dsimp only
          split_ifs
          · have hopened : Effect c e s.vfs (.open (some path) flags)
                ((s.vfs.addRef mp.addr).setFile i
                  { fStatus := .ready, fMp := some mp.addr, fFops := some mp.mFs, fFlags := flags,
                    fullPath := some path }) := .opened mp i _ hfind hi hfree rfl rfl rfl
            exact setFile_setFile (v := s.vfs.addRef mp.addr) ▸ hopened
          · refine .same ?_
            simp only [callDriver_vfs, setFile_setFile]
            exact .setFile (.inl ⟨hfree, rfl⟩)

variable {path : Option CStr}

theorem open_effect {flags : BitVec 32} :
    Effect c e s.vfs (.open path flags) (s.open c e path flags).1.vfs := by
  cases path with
  | none => exact .of_eq rfl
  | some path =>
    simp only [«open», vfsOpen]
    cases hp : vfsPathCheck c (some path) true with
    | error => exact .of_eq rfl
    | ok p =>
      obtain rfl : path = p := by
        simp only [vfsPathCheck] at hp
        split_ifs at hp
        simpa using hp
      rcases hlock : losFsLock e s with ⟨s', b⟩
      have hvfs := vfs_of_losFsLock hlock
      cases b with
      | false => exact .of_eq hvfs
      | true =>
        have h := @openLocked_effect c e s' path flags
        rwa [hvfs] at h

variable {fd : ℤ} {dir : Option Dir}

theorem vfsAttachFile_books {status : FileStatus} :
    (∃ s', vfsAttachFile c e s fd status = (s', none) ∧ s'.vfs = s.vfs) ∨
    ∃ s' i, vfsAttachFile c e s fd status = (s', some i) ∧ fdToFile c fd = some i ∧
      (s.vfs.files i).fMp ≠ none ∧ (s.vfs.files i).fStatus = .ready ∧
      s'.vfs = s.vfs.setFile i { s.vfs.files i with fStatus := status } := by
  simp only [vfsAttachFile]
  split_ifs
  · exact .inl ⟨_, rfl, rfl⟩
  · rcases hlock : losFsLock e s with ⟨s', b⟩
    have hvfs := vfs_of_losFsLock hlock
    cases b with
    | false => exact .inl ⟨_, rfl, hvfs⟩
    | true =>
      cases fdToFile c fd with
      | none => exact .inl ⟨_, rfl, hvfs⟩
      | some i =>
        dsimp only
        split_ifs with hno
        · exact .inl ⟨_, rfl, hvfs⟩
        · rw [not_or, not_not, hvfs] at hno
          exact .inr ⟨_, i, rfl, rfl, hno.1, hno.2, by simp [hvfs]⟩

theorem vfsClose_effect : Effect c e s.vfs (.close fd) (vfsClose c e s fd).1.vfs := by
  rcases @vfsAttachFile_books c e s fd .closing with
    ⟨s', heq, hvfs⟩ | ⟨s', i, heq, hfd, hmp, hready, hvfs⟩ <;> simp only [vfsClose, heq]
  · exact .of_eq hvfs
  · obtain ⟨a, ha⟩ := Option.ne_none_iff_exists'.mp hmp
    have hfile : s'.vfs.files i = { s.vfs.files i with fStatus := .closing } := by
      simp [hvfs, setFile]
    have hop : ∀ fs, s'.vfs.hasOp fs .close = s.vfs.hasOp fs .close := fun fs => by
      rw [hvfs]
      rfl
    have hclosed : Closes e s.vfs i →
        Effect c e s.vfs (.close fd) ((s'.vfs.dropRef a).setFile i {}) := by
      intro hcl
      have hv : (s'.vfs.dropRef a).setFile i {} = (s.vfs.dropRef a).setFile i {} := by
        rw [hvfs]
        exact setFile_setFile (v := s.vfs.dropRef a)
      rw [hv]
      exact .closed i a hfd hready ha hcl
    have hfailed : ¬Closes e s.vfs i → Effect c e s.vfs (.close fd) (s'.vfs.setFile i {}) := by
      intro hcl
      rw [hvfs, setFile_setFile]
      exact .closeFailed i hfd hready hcl
    simp only [hfile, ha]
    cases hops : (s.vfs.files i).fFops with
    | none =>
      refine hfailed ?_
      rintro ⟨fs, hfs, -⟩
      simp [hops] at hfs
    | some fs =>
      simp only [hop]
      by_cases hhas : s.vfs.hasOp fs .close
      · simp only [hhas, if_true]
        split_ifs with hret
        · exact hclosed ⟨fs, hops, hhas, hret⟩
        · refine hfailed ?_
          rintro ⟨fs', -, -, h⟩
          exact hret h
      · simp only [hhas]
        refine hfailed ?_
        rintro ⟨fs', hfs', h, -⟩
        obtain rfl : fs = fs' := by simpa [hops] using hfs'
        exact hhas h

theorem close_effect : Effect c e s.vfs (.close fd) (s.close c e fd).1.vfs := by
  simp only [close]
  split_ifs
  · exact vfsClose_effect
  · exact .of_eq rfl

theorem stat_vfs {buf : Bool} : (s.stat c e path buf).1.vfs = s.vfs := by
  simp only [stat]
  repeat' split
  all_goals first
    | rfl
    | exact (vfs_of_losFsLock ‹losFsLock e s = _› :)

theorem vfsAttachFile_ready_sameBooks : SameBooks s.vfs (vfsAttachFile c e s fd .ready).1.vfs := by
  rcases @vfsAttachFile_books c e s fd .ready with
    ⟨s', heq, hvfs⟩ | ⟨s', i, heq, -, -, hready, hvfs⟩ <;> rw [heq, hvfs]
  · exact .refl _
  · exact .setFile (.inr ⟨hready.symm, rfl, rfl⟩)

theorem fstat_effect {buf : Bool} :
    Effect c e s.vfs (.fstat fd buf) (s.fstat c e fd buf).1.vfs := by
  have hsame := @vfsAttachFile_ready_sameBooks c e s fd
  refine .same ?_
  simp only [fstat]
  generalize vfsAttachFile c e s fd .ready = p at hsame ⊢
  obtain ⟨s', r⟩ := p
  cases r with
  | none => exact hsame
  | some =>
    dsimp only
    split_ifs
    · exact hsame
    · rw [losFsUnlock_vfs, stat_vfs]
      exact hsame

theorem SameBooks.trans (h : SameBooks v v') (h' : SameBooks v' v'') : SameBooks v v'' where
  mountPoints := h'.mountPoints.trans h.mountPoints
  fsMap := h'.fsMap.trans h.fsMap
  dirs := h'.dirs.trans h.dirs
  dirNum := h'.dirNum.trans h.dirNum
  files i := by
    rcases h.files i with ⟨h₁, h₂⟩ | ⟨h₁, h₂, h₃⟩
    · rcases h'.files i with ⟨-, h₄⟩ | ⟨h₄, -⟩
      · exact .inl ⟨h₁, h₄⟩
      · exact .inl ⟨h₁, h₄.trans h₂⟩
    · rcases h'.files i with ⟨h₄, h₅⟩ | ⟨h₄, h₅, h₆⟩
      · exact .inl ⟨h₁ ▸ h₄, h₅⟩
      · exact .inr ⟨h₄.trans h₁, h₅.trans h₂, h₆.trans h₃⟩

theorem fcntl_effect {cmd : FcntlCmd} :
    Effect c e s.vfs (.fcntl fd cmd) (s.fcntl c e fd cmd).1.vfs := by
  have hcntl : ∀ {s : Sys} {filep : Option ℕ}, SameBooks s.vfs (vfsVfcntl c s filep cmd).1.vfs := by
    intro s filep
    simp only [vfsVfcntl]
    cases filep with
    | none => exact .refl _
    | some =>
      dsimp only
      split_ifs
      · exact .refl _
      · cases cmd with
        | getFl => exact .refl _
        | setFl => exact .setFile (.inr ⟨rfl, rfl, rfl⟩)
        | other => exact .refl _
  refine .same ?_
  have hsame := (@vfsAttachFile_ready_sameBooks c e s fd).trans
    (@hcntl _ (vfsAttachFile c e s fd .ready).2)
  simp only [fcntl]
  split_ifs
  · dsimp only
    split <;> exact hsame
  · exact .refl _

/-! ## Directories -/

theorem opendir_effect : Effect c e s.vfs (.opendir path) (s.opendir c e path).1.vfs := by
  simp only [opendir]
  cases hp : vfsPathCheck c path false with
  | error => exact .of_eq rfl
  | ok p =>
    obtain rfl : path = some p := by
      cases path with
      | none => simp [vfsPathCheck] at hp
      | some =>
        simp only [vfsPathCheck] at hp
        split_ifs at hp
        simpa using hp
    cases hm : e.malloc with
    | none => exact .of_eq rfl
    | some addr =>
      rcases hlock : losFsLock e s with ⟨s', b⟩
      have hvfs := vfs_of_losFsLock hlock
      cases b with
      | false => exact .of_eq hvfs
      | true =>
        simp only [opendirLocked]
        by_cases hnum : s'.vfs.dirNum ≥ c.maxOpenDirs
        · rw [if_pos hnum]
          exact .of_eq hvfs
        · rw [if_neg hnum]
          cases hfind : vfsMpFind c.nested s'.vfs.mountPoints p with
          | none => exact .of_eq hvfs
          | some mp =>
            dsimp only
            rw [hvfs] at hnum hfind
            split_ifs
            · exact .of_eq hvfs
            · simp only [callDriver_vfs, hvfs]
              exact .dirOpened mp addr hfind hm (by omega)
            · exact .of_eq hvfs

theorem readdir_vfs : (s.readdir e dir).1.vfs = s.vfs := by
  simp only [readdir]
  repeat' split
  all_goals first
    | rfl
    | exact (vfs_of_losFsLock ‹losFsLock e s = _› :)

theorem closedir_effect : Effect c e s.vfs (.closedir dir) (s.closedir e dir).1.vfs := by
  simp only [closedir]
  cases dir with
  | none => exact .of_eq rfl
  | some d =>
    dsimp only
    cases hd : d.dMp with
    | none => exact .of_eq rfl
    | some a =>
      rcases hlock : losFsLock e s with ⟨s', b⟩
      have hvfs := vfs_of_losFsLock hlock
      cases b with
      | false => exact .of_eq hvfs
      | true =>
        dsimp only
        by_cases hop : s'.vfs.mpHasOp a .closedir
        · simp only [hop, if_true]
          split_ifs with hret
          · simp only [callDriver_vfs, hvfs]
            exact .dirClosed d a hd (hvfs ▸ hop) hret
          · simp only [losFsUnlock_vfs, setErrno_vfs, callDriver_vfs, hvfs]
            exact .dirCloseFailed d a hd fun h => hret h.2
        · rw [if_neg hop]
          simp only [if_neg (show nok ≠ 0 by decide), losFsUnlock_vfs, setErrno_vfs, hvfs]
          exact .dirCloseFailed d a hd fun h => hop (hvfs ▸ h.1)

theorem mkdir_vfs : (s.mkdir c e path).1.vfs = s.vfs := by
  simp only [mkdir]
  repeat' split
  all_goals first
    | rfl
    | exact (vfs_of_losFsLock ‹losFsLock e s = _› :)

theorem rmdir_vfs : (s.rmdir c e path).1.vfs = s.vfs := by
  simp only [rmdir]
  repeat' split
  all_goals first
    | rfl
    | exact (vfs_of_losFsLock ‹losFsLock e s = _› :)

theorem exec_effect (c : VfsConfig) (e : Env) (s : Sys) (call : FsCall) :
    Effect c e s.vfs call (s.exec c e call).vfs := by
  cases call with
  | mount => exact mount_effect
  | umount => exact unmountWith_effect
  | umount2 target force => exact unmountWith_effect
  | «open» => exact open_effect
  | close => exact close_effect
  | fstat => exact fstat_effect
  | fcntl => exact fcntl_effect
  | opendir => exact opendir_effect
  | readdir => exact .of_eq readdir_vfs
  | closedir => exact closedir_effect
  | mkdir => exact .of_eq mkdir_vfs
  | rmdir => exact .of_eq rmdir_vfs

end LiteOS.Fs
