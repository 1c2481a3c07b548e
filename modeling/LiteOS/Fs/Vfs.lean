import LiteOS.Fs.MpFind
import Mathlib.Algebra.Group.Nat.Defs

/-!
# The virtual file system

The model of `vfs_maps.c`, `vfs_mount.c`, `vfs_files.c`, `vfs_fs.c` and `LOS_PartitionFormat` as far
as they mount file systems, open and close files and directories, and take the lock. A call is made
by a task, so the kernel is running; what the task cannot know, the answers of the heap, of the
drivers and of the mutex, is in its surroundings.

`strcpy_s` is called with as much room as the string needs, so it does not fail.
-/

namespace LiteOS.Fs

/-- The build-time configuration of the file system and the values that the C library gives to
flags. `int` and `UINT32` have 32 bits. -/
structure VfsConfig where
  /-- `LOSCFG_FS_SUPPORT_MOUNT_TARGET_RECURSIVE` -/
  nested : Bool
  /-- `CONFIG_NFILE_DESCRIPTORS` -/
  nfileDescriptors : ℕ
  nfileDescriptors_lt : nfileDescriptors < 2 ^ 31
  /-- `LOSCFG_MAX_OPEN_DIRS` -/
  maxOpenDirs : ℕ
  maxOpenDirs_lt : maxOpenDirs < 2 ^ 31
  /-- `PATH_MAX` -/
  pathMax : ℕ
  /-- `O_CREAT | O_WRONLY | O_RDWR` -/
  writeFlags : BitVec 32
  /-- `LOS_FCNTL` -/
  losFcntl : BitVec 32

def minStartFd : ℕ := 3

def VfsConfig.nrOpenDefault (c : VfsConfig) : ℕ := c.nfileDescriptors - minStartFd

/-- The functions of a file system, from `struct MountOps`, `struct FileOps` and
`struct FsManagement`. -/
inductive Callback
  | mount
  | umount
  | umount2
  | format
  | open
  | close
  | stat
  | opendir
  | readdir
  | closedir
  | mkdir
  | rmdir
deriving DecidableEq, Repr

/-- The values of `errno` that the functions set. -/
inductive FsErrno
  | none
  | einval
  | enametoolong
  | enodev
  | enomem
  | enoent
  | eacces
  | enfile
  | ebadf
  | enotsup
  | enosys
  | eagain
  | efault
  | ebusy
deriving DecidableEq, Repr

/-- `struct FsMap`, with its address; `ops` says which of its functions are not null. -/
structure FsMap where
  addr : ℕ
  fsType : CStr
  ops : Callback → Bool
  fsRefs : ℕ := 0

/-- `fStatus` -/
inductive FileStatus
  | notUsed
  | initing
  | ready
  | closing
deriving DecidableEq, Repr

/-- `struct File`; `fMp` is the address of a mount point, and `fFops` that of the file system whose
functions the file has. -/
structure File where
  fStatus : FileStatus := .notUsed
  fMp : Option ℕ := none
  fFops : Option ℕ := none
  fFlags : BitVec 32 := 0
  fullPath : Option CStr := none
deriving DecidableEq, Repr

/-- `struct Dir`, with its address. -/
structure Dir where
  addr : ℕ
  dMp : Option ℕ
deriving DecidableEq, Repr

/-- The globals. `dirs` is not in the source: the directories that `opendir` has returned and
`closedir` has not freed. -/
structure Vfs where
  /-- `g_mountPoints` -/
  mountPoints : List MountPoint
  /-- `g_fsMap` -/
  fsMap : List FsMap
  /-- `g_files` -/
  files : ℕ → File
  dirs : List Dir
  /-- `g_dirNum` -/
  dirNum : ℕ

structure Env where
  /-- `OsMuxValidCheck` accepts the task: it may wait now. -/
  muxValid : Bool := true
  /-- How the waits for a mutex that the task does not hold end, one after the other. -/
  granted : ℕ → Bool := fun _ => true
  /-- What `LOSCFG_FS_MALLOC_HOOK` returns. -/
  malloc : Option ℕ := none
  /-- What the functions of the file system return. -/
  driver : Callback → ℤ := fun _ => 0

/-- A call in progress: the file system, how often the task holds `g_fsMutex`, how often it has
waited for it, and the functions of file systems that were called, with the holds at that time. -/
structure Sys where
  vfs : Vfs
  holds : ℕ := 0
  pends : ℕ := 0
  trace : List (Callback × ℕ) := []
  errno : FsErrno := .none

/-- `(int)LOS_NOK` -/
def nok : ℤ := -1

def mapToPosixRet (ret : ℤ) : ℤ := if ret < 0 then -1 else ret

namespace Vfs

section

variable (v : Vfs) (addr : ℕ)

def modifyMp (f : MountPoint → MountPoint) : Vfs :=
  { v with mountPoints := v.mountPoints.map fun mp => if mp.addr = addr then f mp else mp }

/-- `mRefs++` -/
def addRef : Vfs :=
  v.modifyMp addr fun mp => { mp with mRefs := (mp.mRefs + 1) % 2 ^ 32 }

/-- `mRefs--` -/
def dropRef : Vfs :=
  v.modifyMp addr fun mp => { mp with mRefs := (mp.mRefs + (2 ^ 32 - 1)) % 2 ^ 32 }

def modifyFs (f : FsMap → FsMap) : Vfs :=
  { v with fsMap := v.fsMap.map fun fs => if fs.addr = addr then f fs else fs }

/-- `fsRefs++` -/
def addFsRef : Vfs :=
  v.modifyFs addr fun fs => { fs with fsRefs := (fs.fsRefs + 1) % 2 ^ 32 }

/-- `fsRefs--` -/
def dropFsRef : Vfs :=
  v.modifyFs addr fun fs => { fs with fsRefs := (fs.fsRefs + (2 ^ 32 - 1)) % 2 ^ 32 }

/-- Write to an entry of `g_files`. -/
def setFile (i : ℕ) (file : File) : Vfs :=
  { v with files := Function.update v.files i file }

def hasOp (mFs : ℕ) (cb : Callback) : Bool :=
  match v.fsMap.find? (·.addr = mFs) with
  | none => false
  | some fs => fs.ops cb

/-- The file system of the mount point at an address has the function. -/
def mpHasOp (mp : ℕ) (cb : Callback) : Bool :=
  match v.mountPoints.find? (·.addr = mp) with
  | none => false
  | some mp => v.hasOp mp.mFs cb

def mpDeleteFromList (mp : MountPoint) : Vfs :=
  { v with mountPoints := v.mountPoints.erase mp }

def vfsFileGet (c : VfsConfig) (v : Vfs) : Option ℕ :=
  (List.range c.nrOpenDefault).find? fun i => (v.files i).fStatus = .notUsed

def fdToFile (c : VfsConfig) (fd : ℤ) : Option ℕ :=
  if fd < minStartFd ∨ fd ≥ c.nfileDescriptors then none else some (fd - minStartFd).toNat

end

end Vfs

namespace Sys

/-- `VFS_ERRNO_SET` -/
def setErrno (s : Sys) (e : FsErrno) : Sys := { s with errno := e }

/-- `LOS_FsLock`: `LOS_MuxPend` refuses a task that may not wait, lets the owner in, and makes
everybody else wait. `muxCount` has 16 bits. -/
def losFsLock (e : Env) (s : Sys) : Sys × Bool :=
  if !e.muxValid then (s, false)
  else if s.holds > 0 then ({ s with holds := (s.holds + 1) % 2 ^ 16 }, true)
  else if e.granted s.pends then ({ s with holds := 1, pends := s.pends + 1 }, true)
  else ({ s with pends := s.pends + 1 }, false)

/-- `LOS_FsUnlock`: `LOS_MuxPost` refuses a task that is not the owner. -/
def losFsUnlock (s : Sys) : Sys := { s with holds := s.holds - 1 }

def callDriver (e : Env) (s : Sys) (cb : Callback) : Sys × ℤ :=
  ({ s with trace := s.trace ++ [(cb, s.holds)] }, e.driver cb)

variable (c : VfsConfig) (e : Env)

/-! ## `vfs_maps.c` and `vfs_mount.c` -/

def vfsFsMapGet (s : Sys) (fsType : Option CStr) : Sys × Option FsMap :=
  let s := (losFsLock e s).1
  (s.losFsUnlock, s.vfs.fsMap.find? fun curr => some curr.fsType = fsType)

def vfsMountPointInit (s : Sys) (source : Option CStr) (target : CStr) (fsType : Option CStr)
    (rdonly : Bool) : Sys × Option MountPoint :=
  match vfsMpFind c.nested s.vfs.mountPoints target with
  | some _ => (s.setErrno .einval, none)
  | none =>
    let (s, mFs) := vfsFsMapGet e s fsType
    match mFs with
    | none => (s.setErrno .enodev, none)
    | some mFs =>
      if !mFs.ops .mount then (s.setErrno .enodev, none)
      else
        match e.malloc with
        | none => (s.setErrno .enomem, none)
        | some addr =>
          ({ s with vfs := s.vfs.addFsRef mFs.addr },
            some
              { addr := addr
                mFs := mFs.addr
                mPath := target
                mDev := source
                mRefs := 0
                mWriteEnable := !rdonly })

def vfsRemount (s : Sys) (target : CStr) : Sys × ℤ :=
  match vfsMpFind c.nested s.vfs.mountPoints target with
  | none => (s.setErrno .einval, nok)
  | some _ => callDriver e s .mount

def vfsMountPathCheck (target : Option CStr) : Except FsErrno CStr :=
  match target with
  | none => .error .einval
  | some target =>
    if target.head? ≠ some '/' then .error .einval
    else if target.length ≥ c.pathMax then .error .enametoolong
    else .ok target

/-- `mount`; `remount` and `rdonly` are the flags `MS_REMOUNT` and `MS_RDONLY`. -/
def mount (s : Sys) (source target fsType : Option CStr) (remount rdonly : Bool) : Sys × ℤ :=
  match vfsMountPathCheck c target with
  | .error err => (s.setErrno err, nok)
  | .ok target =>
    let s := (losFsLock e s).1
    if remount then
      let (s, ret) := vfsRemount c e s target
      (s.losFsUnlock, ret)
    else
      match vfsMountPointInit c e s source target fsType rdonly with
      | (s, none) => (s.losFsUnlock, nok)
      | (s, some mp) =>
        let (s, ret) := callDriver e s .mount
        if ret ≠ 0 then (s.losFsUnlock, nok)
        else
          (losFsUnlock { s with vfs := { s.vfs with mountPoints := mp :: s.vfs.mountPoints } }, 0)

def closeFdsInMp (s : Sys) (mp : MountPoint) : Sys :=
  (List.range c.nrOpenDefault).foldl (fun s (fd : ℕ) =>
    match Vfs.fdToFile c (fd : ℤ) with
    | none => s
    | some i =>
      let f := s.vfs.files i
      match f.fFops with
      | none => s
      | some fs =>
        if f.fMp = some mp.addr ∧ s.vfs.hasOp fs .close then (callDriver e s .close).1 else s) s

/-- What `umount` and `umount2` do, with the function that they call and whether they first close
the files of the mount point. -/
def unmountWith (cb : Callback) (force : Bool) (s : Sys) (target : Option CStr) : Sys × ℤ :=
  let s := (losFsLock e s).1
  match vfsMountPathCheck c target with
  | .error err => ((s.setErrno err).losFsUnlock, nok)
  | .ok target =>
    match vfsMpFind c.nested s.vfs.mountPoints target with
    | none => (s.losFsUnlock, nok)
    | some mp =>
      if mp.mRefs ≠ 0 ∨ !s.vfs.hasOp mp.mFs cb then (s.losFsUnlock, nok)
      else
        let s := if force then closeFdsInMp c e s mp else s
        let (s, ret) := callDriver e s cb
        if ret ≠ 0 then (s.losFsUnlock, nok)
        else (losFsUnlock { s with vfs := (s.vfs.mpDeleteFromList mp).dropFsRef mp.mFs }, 0)

def umount (s : Sys) (target : Option CStr) : Sys × ℤ := unmountWith c e .umount false s target

/-- `umount2`; `force` is the flag `MNT_FORCE`. -/
def umount2 (s : Sys) (target : Option CStr) (force : Bool) : Sys × ℤ :=
  unmountWith c e .umount2 force s target

def losPartitionFormat (s : Sys) (partName : CStr) (fsType : Option CStr) : Sys × ℤ :=
  if s.vfs.mountPoints.any fun iter => iter.mPath = partName then (s.setErrno .ebusy, nok)
  else
    match vfsFsMapGet e s fsType with
    | (s, none) => (s, nok)
    | (s, some fMap) => if fMap.ops .format then callDriver e s .format else (s, nok)

/-! ## `vfs_fs.c` -/

def vfsPathCheck (path : Option CStr) (isFile : Bool) : Except FsErrno CStr :=
  match path with
  | none => .error .einval
  | some path =>
    if path = [] then .error .einval
    else if path.length ≥ c.pathMax then .error .enametoolong
    else if isFile ∧ path.getLast? = some '/' then .error .einval
    else .ok path

/-- `VfsOpen` after the lock has been taken -/
def openLocked (s : Sys) (path : CStr) (flags : BitVec 32) : Sys × ℤ :=
  match vfsMpFind c.nested s.vfs.mountPoints path with
  | none => (s.setErrno .enoent, nok)
  | some mp =>
    if !s.vfs.hasOp mp.mFs .open then (s.setErrno .enoent, nok)
    else if !mp.mWriteEnable ∧ flags &&& c.writeFlags ≠ 0 then (s.setErrno .eacces, nok)
    else
      match s.vfs.vfsFileGet c with
      | none => (s.setErrno .enfile, nok)
      | some i =>
        match e.malloc with
        | none => ({ s with vfs := s.vfs.setFile i {} }.setErrno .enomem, nok)
        | some _ =>
          let file : File :=
            { fStatus := .initing
              fMp := some mp.addr
              fFops := some mp.mFs
              fFlags := flags
              fullPath := some path }
          let (s, ret) := callDriver e { s with vfs := s.vfs.setFile i file } .open
          if ret = 0 then
            ({ s with vfs := (s.vfs.addRef mp.addr).setFile i { file with fStatus := .ready } },
              (i + minStartFd : ℕ))
          else ({ s with vfs := s.vfs.setFile i {} }, nok)

def vfsOpen (s : Sys) (path : Option CStr) (flags : BitVec 32) : Sys × ℤ :=
  match vfsPathCheck c path true with
  | .error err => (s.setErrno err, nok)
  | .ok path =>
    match losFsLock e s with
    | (s, false) => (s.setErrno .eagain, nok)
    | (s, true) =>
      let (s, fd) := openLocked c e s path flags
      (s.losFsUnlock, fd)

/-- `open`; the paths of pipes and of `/dev/random` are not files of the VFS. -/
def «open» (s : Sys) (path : Option CStr) (flags : BitVec 32) : Sys × ℤ :=
  match path with
  | none => (s.setErrno .einval, nok)
  | some path =>
    let (s, ret) := vfsOpen c e s (some path) flags
    (s, mapToPosixRet ret)

def vfsAttachFile (s : Sys) (fd : ℤ) (status : FileStatus) : Sys × Option ℕ :=
  if fd < minStartFd ∨ fd ≥ c.nfileDescriptors then (s.setErrno .ebadf, none)
  else
    match losFsLock e s with
    | (s, false) => (s.setErrno .efault, none)
    | (s, true) =>
      match Vfs.fdToFile c fd with
      | none => ((s.setErrno .ebadf).losFsUnlock, none)
      | some i =>
        let file := s.vfs.files i
        if file.fMp = none ∨ file.fStatus ≠ .ready then ((s.setErrno .ebadf).losFsUnlock, none)
        else ({ s with vfs := s.vfs.setFile i { file with fStatus := status } }, some i)

def vfsClose (s : Sys) (fd : ℤ) : Sys × ℤ :=
  match vfsAttachFile c e s fd .closing with
  | (s, none) => (s, nok)
  | (s, some i) =>
    let file := s.vfs.files i
    let (s, ret) :=
      match file.fFops with
      | none => (s.setErrno .enotsup, nok)
      | some fs =>
        if s.vfs.hasOp fs .close then callDriver e s .close else (s.setErrno .enotsup, nok)
    let v :=
      match file.fMp with
      | none => s.vfs
      | some mp => if ret = 0 then s.vfs.dropRef mp else s.vfs
    (losFsUnlock { s with vfs := v.setFile i {} }, ret)

/-- `close` of a file of the VFS -/
def close (s : Sys) (fd : ℤ) : Sys × ℤ :=
  if minStartFd ≤ fd ∧ fd < c.nfileDescriptors then
    let (s, ret) := vfsClose c e s fd
    (s, mapToPosixRet ret)
  else (s, mapToPosixRet nok)

/-- `stat`; `buf` says whether there is a buffer. -/
def stat (s : Sys) (path : Option CStr) (buf : Bool) : Sys × ℤ :=
  match vfsPathCheck c path false with
  | .error err => (s.setErrno err, mapToPosixRet nok)
  | .ok path =>
    if !buf then (s.setErrno .einval, mapToPosixRet nok)
    else
      match losFsLock e s with
      | (s, false) => (s.setErrno .eagain, mapToPosixRet nok)
      | (s, true) =>
        match vfsMpFind c.nested s.vfs.mountPoints path with
        | none => ((s.setErrno .enoent).losFsUnlock, mapToPosixRet nok)
        | some mp =>
          let (s, ret) :=
            if s.vfs.hasOp mp.mFs .stat then callDriver e s .stat else (s.setErrno .enotsup, nok)
          (s.losFsUnlock, mapToPosixRet ret)

def fstat (s : Sys) (fd : ℤ) (buf : Bool) : Sys × ℤ :=
  match vfsAttachFile c e s fd .ready with
  | (s, none) => (s, nok)
  | (s, some i) =>
    let filep := s.vfs.files i
    if filep.fMp = none ∨ filep.fullPath = none then (s, nok)
    else
      let (s, ret) := stat c e s filep.fullPath buf
      (s.losFsUnlock, ret)

end Sys

/-- The commands of `fcntl` -/
inductive FcntlCmd
  | getFl
  | setFl (flags : BitVec 32)
  | other
deriving DecidableEq, Repr

namespace Sys

variable (c : VfsConfig) (e : Env)

section

variable (s : Sys)

/-- `VfsVfcntl`; a negative answer is an error number. -/
def vfsVfcntl (filep : Option ℕ) (cmd : FcntlCmd) : Sys × Except FsErrno ℤ :=
  match filep with
  | none => (s, .error .ebadf)
  | some i =>
    let file := s.vfs.files i
    if file.fFops = none then (s, .error .ebadf)
    else
      match cmd with
      | .getFl => (s, .ok file.fFlags.toInt)
      | .setFl flags =>
        let fFlags := (file.fFlags &&& ~~~c.losFcntl) ||| (flags &&& c.losFcntl)
        ({ s with vfs := s.vfs.setFile i { file with fFlags := fFlags } }, .ok 0)
      | .other => (s, .error .enosys)

def fcntl (fd : ℤ) (cmd : FcntlCmd) : Sys × ℤ :=
  let (s, ret) :=
    if fd < c.nfileDescriptors then
      let (s, filep) := vfsAttachFile c e s fd .ready
      let (s, ret) := vfsVfcntl c s filep cmd
      -- `VfsDetachFile`, whether or not a file was attached
      (s.losFsUnlock, ret)
    else (s, .error .ebadf)
  match ret with
  | .error err => (s.setErrno err, nok)
  | .ok ret => (s, ret)

/-- `opendir` after the lock has been taken; the directory is at the address `addr`. -/
def opendirLocked (path : CStr) (addr : ℕ) : Sys × Option Dir :=
  if s.vfs.dirNum ≥ c.maxOpenDirs then (s.setErrno .enfile, none)
  else
    match vfsMpFind c.nested s.vfs.mountPoints path with
    | none => (s.setErrno .enoent, none)
    | some mp =>
      if !s.vfs.hasOp mp.mFs .opendir then (s.setErrno .enotsup, none)
      else
        let dir : Dir := { addr := addr, dMp := some mp.addr }
        let (s, ret) := callDriver e s .opendir
        if ret = 0 then
          let v := s.vfs.addRef mp.addr
          ({ s with vfs := { v with dirNum := (v.dirNum + 1) % 2 ^ 32, dirs := dir :: v.dirs } },
            some dir)
        else (s, none)

def opendir (path : Option CStr) : Sys × Option Dir :=
  match vfsPathCheck c path false with
  | .error err => (s.setErrno err, none)
  | .ok path =>
    match e.malloc with
    | none => (s.setErrno .enomem, none)
    | some addr =>
      match losFsLock e s with
      | (s, false) => (s.setErrno .eagain, none)
      | (s, true) =>
        let (s, dir) := opendirLocked c e s path addr
        (s.losFsUnlock, dir)

/-- `readdir`; the answer says whether there is an entry. -/
def readdir (dir : Option Dir) : Sys × Bool :=
  match dir.bind Dir.dMp with
  | none => (s.setErrno .einval, false)
  | some mp =>
    match losFsLock e s with
    | (s, false) => (s.setErrno .eagain, false)
    | (s, true) =>
      let (s, ret) :=
        if s.vfs.mpHasOp mp .readdir then callDriver e s .readdir else (s.setErrno .enotsup, nok)
      (s.losFsUnlock, ret = 0)

def closedir (dir : Option Dir) : Sys × ℤ :=
  match dir with
  | none => (s.setErrno .ebadf, mapToPosixRet nok)
  | some d =>
    match d.dMp with
    | none => (s.setErrno .ebadf, mapToPosixRet nok)
    | some mp =>
      match losFsLock e s with
      | (s, false) => (s.setErrno .eagain, mapToPosixRet nok)
      | (s, true) =>
        let (s, ret) :=
          if s.vfs.mpHasOp mp .closedir then callDriver e s .closedir
          else (s.setErrno .enotsup, nok)
        let s :=
          if ret = 0 then
            let v := s.vfs.dropRef mp
            { s with vfs := { v with dirNum := (v.dirNum + (2 ^ 32 - 1)) % 2 ^ 32 } }
          else s.setErrno .ebadf
        let s := s.losFsUnlock
        ({ s with vfs := { s.vfs with dirs := s.vfs.dirs.erase d } }, mapToPosixRet ret)

def mkdir (path : Option CStr) : Sys × ℤ :=
  match vfsPathCheck c path false with
  | .error err => (s.setErrno err, mapToPosixRet nok)
  | .ok path =>
    match losFsLock e s with
    | (s, false) => (s.setErrno .eagain, mapToPosixRet nok)
    | (s, true) =>
      match vfsMpFind c.nested s.vfs.mountPoints path with
      | none => ((s.setErrno .enoent).losFsUnlock, mapToPosixRet nok)
      | some mp =>
        let (s, ret) :=
          if s.vfs.hasOp mp.mFs .mkdir then callDriver e s .mkdir else (s.setErrno .enotsup, nok)
        (s.losFsUnlock, mapToPosixRet ret)

/-- `rmdir`, which does not check its path -/
def rmdir (path : Option CStr) : Sys × ℤ :=
  match path with
  | none => (s.setErrno .einval, mapToPosixRet nok)
  | some path =>
    match losFsLock e s with
    | (s, false) => (s.setErrno .eagain, mapToPosixRet nok)
    | (s, true) =>
      match vfsMpFind c.nested s.vfs.mountPoints path with
      | none => ((s.setErrno .enoent).losFsUnlock, mapToPosixRet nok)
      | some mp =>
        if path = [] ∨ !s.vfs.hasOp mp.mFs .rmdir then
          ((s.setErrno .enoent).losFsUnlock, mapToPosixRet nok)
        else
          let (s, ret) := callDriver e s .rmdir
          (s.losFsUnlock, mapToPosixRet ret)

end

end Sys

/-- A call that a task makes while it holds the mutex `holds` times. -/
def startCall (v : Vfs) (holds : ℕ) : Sys := { vfs := v, holds := holds }

inductive FsCall
  | mount (source target fsType : Option CStr) (remount rdonly : Bool)
  | umount (target : Option CStr)
  | umount2 (target : Option CStr) (force : Bool)
  | open (path : Option CStr) (flags : BitVec 32)
  | close (fd : ℤ)
  | fstat (fd : ℤ) (buf : Bool)
  | fcntl (fd : ℤ) (cmd : FcntlCmd)
  | opendir (path : Option CStr)
  | readdir (dir : Option Dir)
  | closedir (dir : Option Dir)
  | mkdir (path : Option CStr)
  | rmdir (path : Option CStr)
deriving DecidableEq, Repr

def Sys.exec (c : VfsConfig) (e : Env) (s : Sys) : FsCall → Sys
  | .mount source target fsType remount rdonly =>
    (s.mount c e source target fsType remount rdonly).1
  | .umount target => (s.umount c e target).1
  | .umount2 target force => (s.umount2 c e target force).1
  | .open path flags => (s.open c e path flags).1
  | .close fd => (s.close c e fd).1
  | .fstat fd buf => (s.fstat c e fd buf).1
  | .fcntl fd cmd => (s.fcntl c e fd cmd).1
  | .opendir path => (s.opendir c e path).1
  | .readdir dir => (s.readdir e dir).1
  | .closedir dir => (s.closedir e dir).1
  | .mkdir path => (s.mkdir c e path).1
  | .rmdir path => (s.rmdir c e path).1

/-! ## What the steps of a call leave alone -/

namespace Sys

variable {c : VfsConfig} {e : Env} {s : Sys} {mp : MountPoint} {fsType : Option CStr}
  {cb : Callback}

@[simp] theorem setErrno_vfs {err : FsErrno} : (s.setErrno err).vfs = s.vfs := rfl

@[simp] theorem losFsLock_vfs : (s.losFsLock e).1.vfs = s.vfs := by
  simp only [losFsLock]
  split_ifs <;> rfl

@[simp] theorem losFsLock_trace : (s.losFsLock e).1.trace = s.trace := by
  simp only [losFsLock]
  split_ifs <;> rfl

@[simp] theorem losFsLock_errno : (s.losFsLock e).1.errno = s.errno := by
  simp only [losFsLock]
  split_ifs <;> rfl

@[simp] theorem losFsUnlock_vfs : s.losFsUnlock.vfs = s.vfs := rfl

@[simp] theorem callDriver_vfs : (s.callDriver e cb).1.vfs = s.vfs := rfl

@[simp] theorem callDriver_snd : (s.callDriver e cb).2 = e.driver cb := rfl

@[simp] theorem vfsFsMapGet_vfs :
    (s.vfsFsMapGet e fsType).1.vfs = s.vfs := by
  simp [vfsFsMapGet]

@[simp] theorem vfsFsMapGet_snd : (s.vfsFsMapGet e fsType).2 =
    s.vfs.fsMap.find? fun curr => some curr.fsType = fsType := by
  simp [vfsFsMapGet]

/-- One pass of `CloseFdsInMp` keeps what every call of a driver keeps. -/
theorem closeFdsInMp_induction (P : Sys → Prop) (h : P s)
    (step : ∀ s, P s → P (callDriver e s .close).1) : P (s.closeFdsInMp c e mp) := by
  unfold closeFdsInMp
  generalize List.range c.nrOpenDefault = fds
  induction fds generalizing s with
  | nil => exact h
  | cons _ _ ih =>
    rw [List.foldl_cons]
    refine ih ?_
    split
    · exact h
    · dsimp only
      split
      · exact h
      · split_ifs
        · exact step s h
        · exact h

@[simp] theorem closeFdsInMp_vfs : (s.closeFdsInMp c e mp).vfs = s.vfs :=
  closeFdsInMp_induction (fun s' => s'.vfs = s.vfs) rfl fun _ h => h

end Sys

/-! ## A small file system -/

def sampleConfig (nested : Bool) : VfsConfig where
  nested := nested
  nfileDescriptors := 8
  nfileDescriptors_lt := by decide
  maxOpenDirs := 10
  maxOpenDirs_lt := by decide
  pathMax := 256
  writeFlags := 0x203
  losFcntl := 0x6008

/-- One file system, with all functions, that nobody has mounted. -/
def sampleVfs : Vfs where
  mountPoints := []
  fsMap := [{ addr := 4, fsType := ['f', 'a', 't'], ops := fun _ => true }]
  files _ := {}
  dirs := []
  dirNum := 0

/-- The surroundings when everything goes well; new blocks are at address `addr`. -/
def wellEnv (addr : ℕ) : Env := { malloc := some addr }

/-- The file system is mounted from the device `d` at `/a`. -/
def sampleMounted (nested : Bool) : Sys :=
  ({ vfs := sampleVfs } : Sys).exec (sampleConfig nested) (wellEnv 100)
    (.mount (some ['d']) (some ['/', 'a']) (some ['f', 'a', 't']) false false)

end LiteOS.Fs
