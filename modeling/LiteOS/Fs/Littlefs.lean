import LiteOS.Fs.MpFind
import LiteOS.Lib.Runs

/-!
# The littlefs adapter

The model of the part of `lfs_adapter.c` between littlefs and the flash: `LfsMount` fills in a
configuration for littlefs, and littlefs hands it to `littlefs_block_read`, `littlefs_block_write`
and `littlefs_block_erase`. The partition number and the block size are in the configuration, but
the functions of the flash are in the global `g_partitionCfg`, which every mount overwrites, and the
device is in `g_lfsDevice`, which the first lookup fills in.

`int` and `UINT32` are both bit vectors of width 32.
-/

namespace LiteOS.Fs

open Lib

/-- The members of `struct DeviceDesc` that are used. What lies around the array of `dAddrArray` is
in the function, too. -/
structure DeviceDesc where
  dFsType : CStr
  dAddrArray : ℤ → BitVec 32
  dPartNum : BitVec 32

/-- The functions of the flash in `struct PartitionCfg`, by their addresses. -/
structure PartitionFuncs where
  readFunc : ℕ
  writeFunc : ℕ
  eraseFunc : ℕ
deriving DecidableEq, Repr

/-- `struct PartitionCfg` -/
structure PartitionCfg extends PartitionFuncs where
  readSize : BitVec 32
  writeSize : BitVec 32
  blockSize : BitVec 32
  blockCount : BitVec 32
  cacheSize : BitVec 32
  partNo : BitVec 32
  lookaheadSize : BitVec 32
  blockCycles : BitVec 32
deriving DecidableEq, Repr

/-- `struct lfs_config`; its functions are always those of the adapter. -/
structure LfsConfig where
  context : BitVec 32
  readSize : BitVec 32
  progSize : BitVec 32
  cacheSize : BitVec 32
  blockCycles : BitVec 32
  lookaheadSize : BitVec 32
  blockSize : BitVec 32
  blockCount : BitVec 32
deriving DecidableEq, Repr

/-- A configuration in use, at its address. What it was made from and the device that the partition
is on are not in the source. -/
structure LfsMounted where
  mountHdl : ℕ
  cfg : LfsConfig
  given : PartitionCfg
  device : DeviceDesc

structure Lfs where
  /-- `g_deviceList` -/
  deviceList : List DeviceDesc := []
  /-- `g_lfsDevice` -/
  lfsDevice : Option DeviceDesc := none
  /-- `g_partitionCfg` -/
  partitionCfg : PartitionFuncs := ⟨0, 0, 0⟩
  mounts : List LfsMounted := []

structure FlashCall where
  func : ℕ
  partition : BitVec 32
  addr : BitVec 32
  size : BitVec 32
deriving DecidableEq, Repr

def invalidDeviceAddr : BitVec 32 := -1

/-- `"littlefs"` -/
def littlefs : CStr := ['l', 'i', 't', 't', 'l', 'e', 'f', 's']

namespace Lfs

section

variable (s : Lfs) (c : LfsConfig)

/-- The device that the lookups use: the one of the first lookup, or the first on the list. -/
def currentDevice : Option DeviceDesc :=
  match s.lfsDevice with
  | some device => some device
  | none => s.deviceList.find? (·.dFsType = littlefs)

def lfsGetStartAddr (partition : BitVec 32) : Lfs × BitVec 32 :=
  let s := { s with lfsDevice := s.currentDevice }
  match s.lfsDevice with
  | none => (s, invalidDeviceAddr)
  | some device =>
    if partition.toInt ≥ device.dPartNum.toInt then (s, invalidDeviceAddr)
    else (s, device.dAddrArray partition.toInt)

/-- What the three block functions have in common: the call that they make, or none if they return
-1 without one. -/
def blockCall (func : PartitionFuncs → ℕ) (addr size : BitVec 32) : Lfs × Option FlashCall :=
  let (s, startaddr) := s.lfsGetStartAddr c.context
  if startaddr = invalidDeviceAddr then (s, none)
  else
    (s, some
      { func := func s.partitionCfg
        partition := c.context
        addr := addr + startaddr
        size := size })

def littlefsBlockRead (block off size : BitVec 32) : Lfs × Option FlashCall :=
  s.blockCall c PartitionFuncs.readFunc (c.blockSize * block + off) size

def littlefsBlockWrite (block off size : BitVec 32) : Lfs × Option FlashCall :=
  s.blockCall c PartitionFuncs.writeFunc (c.blockSize * block + off) size

def littlefsBlockErase (block : BitVec 32) : Lfs × Option FlashCall :=
  s.blockCall c PartitionFuncs.eraseFunc (c.blockSize * block) c.blockSize

end

end Lfs

/-- The configuration that `LfsConfigAdapter` fills in -/
def lfsConfigOf (pCfg : PartitionCfg) : LfsConfig where
  context := pCfg.partNo
  readSize := pCfg.readSize
  progSize := pCfg.writeSize
  cacheSize := pCfg.cacheSize
  blockCycles := pCfg.blockCycles
  lookaheadSize := pCfg.lookaheadSize
  blockSize := pCfg.blockSize
  blockCount := pCfg.blockCount

def Lfs.lfsConfigAdapter (s : Lfs) (pCfg : PartitionCfg) : Lfs × LfsConfig :=
  ({ s with partitionCfg := pCfg.toPartitionFuncs }, lfsConfigOf pCfg)

inductive BlockRequest
  | read (block off size : BitVec 32)
  | prog (block off size : BitVec 32)
  | erase (block : BitVec 32)
deriving DecidableEq, Repr

def Lfs.issue (s : Lfs) (c : LfsConfig) : BlockRequest → Lfs × Option FlashCall
  | .read block off size => s.littlefsBlockRead c block off size
  | .prog block off size => s.littlefsBlockWrite c block off size
  | .erase block => s.littlefsBlockErase c block

/-- What happens: a device is added, `LfsMount` makes a configuration for a partition of a device,
littlefs issues a request (while it mounts or later), and the configuration is freed, by `LfsUmount`
or because littlefs could not mount. -/
inductive LfsOp
  | addDevice (device : DeviceDesc)
  | mount (mountHdl : ℕ) (pCfg : PartitionCfg) (device : DeviceDesc)
  | request (m : LfsMounted) (r : BlockRequest)
  | release (mountHdl : ℕ)

def lfsStep (s : Lfs) : LfsOp → Lfs
  | .addDevice device => { s with deviceList := device :: s.deviceList }
  | .mount mountHdl pCfg device =>
    let (s, cfg) := s.lfsConfigAdapter pCfg
    { s with mounts := { mountHdl, cfg, given := pCfg, device } :: s.mounts }
  | .request m r => (s.issue m.cfg r).1
  | .release mountHdl => { s with mounts := s.mounts.filter (·.mountHdl ≠ mountHdl) }

def lfsMachine : Machine Lfs LfsOp where
  init s := s = {}
  allowed s
    | .mount mountHdl _ _ => ∀ m ∈ s.mounts, m.mountHdl ≠ mountHdl
    | .request m _ => m ∈ s.mounts
    | _ => True
  step := lfsStep

/-! ## Isolation -/

/-- The call that a request through the configuration of a mount should lead to. -/
def LfsMounted.expected (m : LfsMounted) : BlockRequest → FlashCall
  | .read block off size =>
    { func := m.given.readFunc
      partition := m.given.partNo
      addr := m.device.dAddrArray m.given.partNo.toInt + m.given.blockSize * block + off
      size := size }
  | .prog block off size =>
    { func := m.given.writeFunc
      partition := m.given.partNo
      addr := m.device.dAddrArray m.given.partNo.toInt + m.given.blockSize * block + off
      size := size }
  | .erase block =>
    { func := m.given.eraseFunc
      partition := m.given.partNo
      addr := m.device.dAddrArray m.given.partNo.toInt + m.given.blockSize * block
      size := m.given.blockSize }

/-- Every request through the configuration of a mount leads to the right call. -/
def Isolated (s : Lfs) : Prop :=
  ∀ m ∈ s.mounts, ∀ r, (s.issue m.cfg r).2 = some (m.expected r)

/-- The device has the partition, and the partition does not begin at the invalid address. -/
def HasPartition (device : DeviceDesc) (partNo : BitVec 32) : Prop :=
  partNo.toInt < device.dPartNum.toInt ∧ device.dAddrArray partNo.toInt ≠ invalidDeviceAddr
deriving Decidable

/-- All mounts have the same functions and are on the device of the lookups, and no other device
takes its place while a configuration is in use. -/
def Uniform (s : Lfs) : LfsOp → Prop
  | .mount _ pCfg device => (∀ m ∈ s.mounts, m.given.toPartitionFuncs = pCfg.toPartitionFuncs) ∧
      s.currentDevice = some device ∧ HasPartition device pCfg.partNo
  | .addDevice device => device.dFsType ≠ littlefs ∨ s.lfsDevice ≠ none ∨ s.mounts = []
  | _ => True

structure Backed (s : Lfs) (m : LfsMounted) : Prop where
  cfg : m.cfg = lfsConfigOf m.given
  funcs : m.given.toPartitionFuncs = s.partitionCfg
  device : s.currentDevice = some m.device
  partition : HasPartition m.device m.given.partNo

section

variable {s s' : Lfs} {m : LfsMounted} {device : DeviceDesc} {partition addr size : BitVec 32}

@[simp] theorem lfsGetStartAddr_fst : (s.lfsGetStartAddr partition).1 =
    { s with lfsDevice := s.currentDevice } := by
  simp only [Lfs.lfsGetStartAddr]
  split
  · rfl
  · split_ifs <;> rfl

theorem Backed.lfsGetStartAddr_snd (h : Backed s m) : (s.lfsGetStartAddr m.given.partNo).2 =
    m.device.dAddrArray m.given.partNo.toInt := by
  simp only [Lfs.lfsGetStartAddr, h.device]
  rw [if_neg (Int.not_le.mpr h.partition.1)]

theorem Backed.blockCall (h : Backed s m) {func : PartitionFuncs → ℕ} :
    (s.blockCall m.cfg func addr size).2 = some
      { func := func m.given.toPartitionFuncs
        partition := m.given.partNo
        addr := addr + m.device.dAddrArray m.given.partNo.toInt
        size := size } := by
  have hcontext : m.cfg.context = m.given.partNo := by
    rw [h.cfg]
    rfl
  simp only [Lfs.blockCall, hcontext, h.lfsGetStartAddr_snd, lfsGetStartAddr_fst,
    if_neg h.partition.2, h.funcs]

theorem Backed.issue (h : Backed s m) (r : BlockRequest) :
    (s.issue m.cfg r).2 = some (m.expected r) := by
  have hsize : m.cfg.blockSize = m.given.blockSize := by
    rw [h.cfg]
    rfl
  cases r with
  | read =>
    simp only [Lfs.issue, Lfs.littlefsBlockRead, h.blockCall, LfsMounted.expected, hsize]
    rw [BitVec.add_comm, BitVec.add_assoc]
  | prog =>
    simp only [Lfs.issue, Lfs.littlefsBlockWrite, h.blockCall, LfsMounted.expected, hsize]
    rw [BitVec.add_comm, BitVec.add_assoc]
  | erase =>
    simp only [Lfs.issue, Lfs.littlefsBlockErase, h.blockCall, LfsMounted.expected, hsize]
    rw [BitVec.add_comm]

theorem issue_fst {c : LfsConfig} {r : BlockRequest} :
    (s.issue c r).1 = { s with lfsDevice := s.currentDevice } := by
  have hcall : ∀ {func : PartitionFuncs → ℕ} {addr size : BitVec 32},
      (s.blockCall c func addr size).1 = { s with lfsDevice := s.currentDevice } := by
    intro func addr size
    simp only [Lfs.blockCall]
    split_ifs <;> simp
  cases r with
  | read => exact hcall
  | prog => exact hcall
  | erase => exact hcall

theorem currentDevice_looked : ({ s with lfsDevice := s.currentDevice } : Lfs).currentDevice =
    s.currentDevice := by
  cases hd : s.lfsDevice with
  | some => simp [Lfs.currentDevice, hd]
  | none =>
    simp only [Lfs.currentDevice, hd]
    split
    · rename_i heq
      exact heq.symm
    · rfl

/-- A new device is not the one of the lookups if another one has been found or if it has not got
littlefs. -/
theorem currentDevice_addDevice (h : device.dFsType ≠ littlefs ∨ s.lfsDevice ≠ none) :
    ({ s with deviceList := device :: s.deviceList } : Lfs).currentDevice = s.currentDevice := by
  cases hd : s.lfsDevice with
  | some => simp [Lfs.currentDevice, hd]
  | none =>
    have htype := h.resolve_right fun hne => hne hd
    simp [Lfs.currentDevice, hd, htype]

theorem Backed.congr (h : Backed s m) (hf : s'.partitionCfg = s.partitionCfg)
    (hd : s'.currentDevice = s.currentDevice) : Backed s' m :=
  ⟨h.cfg, h.funcs.trans hf.symm, hd.trans h.device, h.partition⟩

end

theorem backed_step {s : Lfs} (op : LfsOp) (h : ∀ m ∈ s.mounts, Backed s m) (hu : Uniform s op) :
    ∀ m ∈ (lfsStep s op).mounts, Backed (lfsStep s op) m := by
  intro m hm
  cases op with
  | addDevice =>
    rcases hu with hu | hu | hu
    · exact (h m hm).congr rfl (currentDevice_addDevice (.inl hu))
    · exact (h m hm).congr rfl (currentDevice_addDevice (.inr hu))
    · simp [lfsStep, hu] at hm
  | mount _ _ device =>
    obtain ⟨hsame, hdev, hpart⟩ := hu
    rcases List.mem_cons.mp hm with rfl | hm
    · exact ⟨rfl, rfl, hdev, hpart⟩
    · have hb := h m hm
      exact ⟨hb.cfg, hsame m hm, hb.device, hb.partition⟩
  | request =>
    simp only [lfsStep, issue_fst] at hm ⊢
    exact (h m hm).congr rfl currentDevice_looked
  | release =>
    have hmem := List.mem_of_mem_filter hm
    exact (h m hmem).congr rfl rfl

/-- Mounts do not interfere in a run in which all of them are alike. -/
theorem isolated_of_uniform (s : Lfs) (h : (lfsMachine.restrict Uniform).Reaches s) :
    Isolated s := by
  have hback : ∀ m ∈ s.mounts, Backed s m := by
    refine h.invariant (I := fun s => ∀ m ∈ s.mounts, Backed s m) ?_ ?_
    · rintro s rfl m hm
      simp at hm
    · intro s op hi ha
      exact backed_step op hi ha.2
  intro m hm r
  exact (hback m hm).issue r

def sampleDevice : DeviceDesc where
  dFsType := littlefs
  dAddrArray i := if i = 0 then 0x1000 else 0x8000
  dPartNum := 2

/-- The configuration of a partition with a read function of its own -/
def samplePartition (partNo : BitVec 32) (readFunc : ℕ) : PartitionCfg where
  readFunc := readFunc
  writeFunc := 20
  eraseFunc := 30
  readSize := 16
  writeSize := 16
  blockSize := 4096
  blockCount := 4
  cacheSize := 64
  partNo := partNo
  lookaheadSize := 16
  blockCycles := 500

/-- Two partitions of one device are mounted. -/
theorem isolated_of_uniform_two : Isolated ((lfsMachine.restrict Uniform).run {}
    [.addDevice sampleDevice, .mount 100 (samplePartition 0 10) sampleDevice,
      .mount 200 (samplePartition 1 10) sampleDevice]) :=
  isolated_of_uniform _ (Machine.Reaches.run (.start rfl) _
    ⟨⟨trivial, .inr (.inr rfl)⟩,
      ⟨by simp [lfsMachine, lfsStep], by simp [lfsMachine, lfsStep], rfl, by decide⟩,
      ⟨by simp [lfsMachine, lfsStep, Lfs.lfsConfigAdapter],
        by simp [lfsMachine, lfsStep, Lfs.lfsConfigAdapter, samplePartition], rfl, by decide⟩,
      trivial⟩)

/-- The read function of the second mount is called for the first one. -/
theorem not_isolated_of_two_readers : ∃ s, lfsMachine.Reaches s ∧ ¬Isolated s := by
  refine ⟨lfsMachine.run {}
    [.addDevice sampleDevice, .mount 100 (samplePartition 0 10) sampleDevice,
      .mount 200 (samplePartition 1 11) sampleDevice],
    Machine.Reaches.run (.start rfl) _
      ⟨trivial, by simp [lfsMachine, lfsStep],
        by simp [lfsMachine, lfsStep, Lfs.lfsConfigAdapter], trivial⟩, fun h => ?_⟩
  have hread := h ⟨100, lfsConfigOf (samplePartition 0 10), samplePartition 0 10, sampleDevice⟩
    (.tail _ (.head _)) (.read 0 0 16)
  exact absurd hread (by decide +kernel)

end LiteOS.Fs
