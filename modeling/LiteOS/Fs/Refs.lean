import LiteOS.Fs.Books
import LiteOS.Lib.Counting
import LiteOS.Lib.Runs
import Mathlib.Order.Interval.Finset.Nat

/-!
# Reference counts

In a run without failing drivers the counters are exact: `fsRefs` counts the mount points of a file
system, `mRefs` the files and directories that are open on a mount point, and `g_dirNum` the open
directories. A failing `mount` leaves `fsRefs` too large, and a failing `close` or `closedir` leaves
`mRefs` too large. That is harmless for the objects themselves, because a mount point with
references is not taken off the list, until `mRefs` overflows.
-/

namespace LiteOS.Fs

open Lib Function MountPoint Vfs List

/-- One call of a task, with the answers of its surroundings. -/
structure FsOp where
  call : FsCall
  env : Env := {}
  holds : ℕ := 0

section

variable (c : VfsConfig) (v : Vfs)

def fsStep (op : FsOp) : Vfs :=
  ((startCall v op.holds).exec c op.env op.call).vfs

structure Unmounted (v : Vfs) : Prop where
  mountPoints : v.mountPoints = []
  fsRefs : ∀ fs ∈ v.fsMap, fs.fsRefs = 0
  files : ∀ i, (v.files i).fStatus = .notUsed
  dirs : v.dirs = []
  dirNum : v.dirNum = 0

/-- The heap gives out blocks that nobody has, below 4 GiB, and `closedir` gets a directory that is
open. -/
def Enabled (op : FsOp) : Prop :=
  match op.call with
  | .mount _ _ _ _ _ => ∀ a ∈ op.env.malloc, 0 < a ∧ a < 2 ^ 32 ∧ ∀ m ∈ v.mountPoints, m.addr ≠ a
  | .opendir _ => ∀ a ∈ op.env.malloc, ∀ d ∈ v.dirs, d.addr ≠ a
  | .closedir dir => ∀ d ∈ dir, d ∈ v.dirs
  | _ => True

instance (v : Vfs) (op : FsOp) : Decidable (Enabled v op) := by
  unfold Enabled
  split <;> infer_instance

def fsMachine : Machine Vfs FsOp where
  init := Unmounted
  allowed := Enabled
  step := fsStep c

instance (c : VfsConfig) (v : Vfs) (op : FsOp) : Decidable ((fsMachine c).allowed v op) :=
  inferInstanceAs (Decidable (Enabled v op))

/-! ## What is counted -/

/-- The files in use and the open directories of the mount point at an address. -/
def uses (a : ℕ) : ℕ :=
  ((Finset.range c.nrOpenDefault).filter fun i =>
    (v.files i).fStatus ≠ .notUsed ∧ (v.files i).fMp = some a).card +
  v.dirs.countP (·.dMp = some a)

/-- The mount points of the file system at an address. -/
def mounts (fs : ℕ) : ℕ := v.mountPoints.countP (·.mFs = fs)

structure Exact (c : VfsConfig) (v : Vfs) : Prop where
  fsRefs : ∀ fs ∈ v.fsMap, fs.fsRefs = mounts v fs.addr
  mRefs : ∀ m ∈ v.mountPoints, m.mRefs = uses c v m.addr
  dirNum : v.dirNum = v.dirs.length

def OnList (mp : Option ℕ) : Prop := ∃ m ∈ v.mountPoints, mp = some m.addr

/-- Every open object refers to a mount point that is on the list. -/
def Anchored : Prop :=
  (∀ i, (v.files i).fStatus = .ready → OnList v (v.files i).fMp) ∧ ∀ d ∈ v.dirs, OnList v d.dMp

end

/-- The counter of a mount point is at least the number of its objects, and equal to it unless
counts may leak. -/
structure Counted (c : VfsConfig) (leak : Prop) (v : Vfs) (m : MountPoint) : Prop where
  le : uses c v m.addr ≤ m.mRefs
  lt : m.mRefs < 2 ^ 32
  eq : ¬leak → m.mRefs = uses c v m.addr

/-- What holds in every state of a run, with or without leaks. -/
structure Inv (c : VfsConfig) (leak : Prop) (v : Vfs) : Prop where
  addrs : (v.mountPoints.map MountPoint.addr).Nodup
  range : ∀ m ∈ v.mountPoints, 0 < m.addr ∧ m.addr < 2 ^ 32
  files : ∀ i, (v.files i).fStatus = .notUsed ∨ ((v.files i).fStatus = .ready ∧
    i < c.nrOpenDefault ∧ OnList v (v.files i).fMp ∧ (v.files i).fFops ≠ none)
  dirsNodup : v.dirs.Nodup
  dirs : ∀ d ∈ v.dirs, OnList v d.dMp
  counted : ∀ m ∈ v.mountPoints, Counted c leak v m
  fsRefs : ¬leak → ∀ fs ∈ v.fsMap, fs.fsRefs = mounts v fs.addr
  dirNum : ¬leak → v.dirNum = v.dirs.length ∧ v.dirNum ≤ c.maxOpenDirs

section

variable {c : VfsConfig} {leak : Prop} {e : Env} {v v' : Vfs} {m m' : MountPoint} {a b i : ℕ}
  {file : File} {d : Dir} {mp : Option ℕ} {f : MountPoint → MountPoint}

theorem Inv.exact (h : Inv c leak v) (hl : ¬leak) : Exact c v :=
  ⟨h.fsRefs hl, fun m hm => (h.counted m hm).eq hl, (h.dirNum hl).1⟩

theorem Inv.anchored (h : Inv c leak v) : Anchored v := by
  refine ⟨fun i hi => ?_, h.dirs⟩
  rcases h.files i with hno | ⟨-, -, hon, -⟩
  · simp [hno] at hi
  · exact hon

theorem Unmounted.inv (h : Unmounted v) : Inv c leak v where
  addrs := by simp [h.mountPoints]
  range := by simp [h.mountPoints]
  files i := .inl (h.files i)
  dirsNodup := by simp [h.dirs]
  dirs := by simp [h.dirs]
  counted := by simp [h.mountPoints]
  fsRefs _ fs hfs := by simp [h.fsRefs fs hfs, mounts, h.mountPoints]
  dirNum _ := by simp [h.dirs, h.dirNum]

/-! ## How the number of uses changes -/

theorem uses_congr (hf : ∀ i, (v'.files i).fStatus ≠ .notUsed ∧ (v'.files i).fMp = some a ↔
      (v.files i).fStatus ≠ .notUsed ∧ (v.files i).fMp = some a) (hd : v'.dirs = v.dirs) :
    uses c v' a = uses c v a := by
  simp only [uses, hf, hd]

theorem uses_setFile_add (hi : i < c.nrOpenDefault) (hfree : (v.files i).fStatus = .notUsed)
    (hused : file.fStatus ≠ .notUsed) (hmp : file.fMp = some a) :
    uses c (v.setFile i file) b = uses c v b + if b = a then 1 else 0 := by
  have hother : ∀ j, j ≠ i → (v.setFile i file).files j = v.files j := fun j hj => by
    simp [setFile, hj]
  have hself : (v.setFile i file).files i = file := by simp [setFile]
  split_ifs with hb
  · subst hb
    unfold uses
    rw [card_filter_add_one (p := fun j =>
        (v.files j).fStatus ≠ .notUsed ∧ (v.files j).fMp = some b) (by simpa using hi)
      (by simp [hfree]) (by simp [hself, hused, hmp]) fun j _ hj => by rw [hother j hj]]
    simp only [setFile]
    omega
  · refine uses_congr (fun j => ?_) rfl
    by_cases hj : j = i
    · subst hj
      simp [hself, hmp, hfree, Ne.symm hb]
    · rw [hother j hj]

theorem uses_setFile_sub (hi : i < c.nrOpenDefault) (hused : (v.files i).fStatus ≠ .notUsed)
    (hmp : (v.files i).fMp = some a) :
    uses c v b = uses c (v.setFile i {}) b + if b = a then 1 else 0 := by
  have hback : (v.setFile i {}).setFile i (v.files i) = v := by
    rw [setFile_setFile]
    simp [setFile]
  have h := @uses_setFile_add c (v.setFile i {}) a b i (v.files i) hi (by simp [setFile])
    hused hmp
  rwa [hback] at h

theorem uses_dirs_cons (hf : v'.files = v.files) (hds : v'.dirs = d :: v.dirs)
    (hd : d.dMp = some a) : uses c v' b = uses c v b + if b = a then 1 else 0 := by
  simp only [uses, hf, hds, countP_cons, hd, Option.some_inj, decide_eq_true_eq, eq_comm (a := a)]
  omega

theorem uses_dirs_erase (hf : v'.files = v.files) (hds : v'.dirs = v.dirs.erase d)
    (hmem : d ∈ v.dirs) (hd : d.dMp = some a) :
    uses c v b = uses c v' b + if b = a then 1 else 0 := by
  have h := (perm_cons_erase hmem).countP_eq (·.dMp = some b)
  simp only [countP_cons, hd, Option.some_inj, decide_eq_true_eq] at h
  simp only [uses, hf, hds, eq_comm]
  omega

theorem SameBooks.uses_eq (h : SameBooks v v') : uses c v' a = uses c v a := by
  refine uses_congr (fun i => ?_) h.dirs
  rcases h.files i with ⟨h₁, h₂⟩ | ⟨h₁, h₂, -⟩
  · simp [h₁, h₂]
  · rw [h₁, h₂]

theorem uses_le : uses c v a ≤ c.nrOpenDefault + v.dirs.length := by
  have hfiles := Finset.card_filter_le (Finset.range c.nrOpenDefault) fun i =>
    (v.files i).fStatus ≠ .notUsed ∧ (v.files i).fMp = some a
  rw [Finset.card_range] at hfiles
  have hdirs : v.dirs.countP (·.dMp = some a) ≤ v.dirs.length := countP_le_length
  exact Nat.add_le_add hfiles hdirs

theorem uses_eq_zero (hf : ∀ i, (v.files i).fStatus = .notUsed ∨ (v.files i).fMp ≠ some a)
    (hd : ∀ d ∈ v.dirs, d.dMp ≠ some a) : uses c v a = 0 := by
  rw [uses, Nat.add_eq_zero_iff, Finset.card_eq_zero, Finset.filter_eq_empty_iff, countP_eq_zero]
  refine ⟨fun i _ ⟨h₁, h₂⟩ => (hf i).elim h₁ fun h => h h₂, fun d hmem => ?_⟩
  simpa using hd d hmem

theorem uses_file_pos (hi : i < c.nrOpenDefault) (hused : (v.files i).fStatus ≠ .notUsed)
    (hmp : (v.files i).fMp = some a) : 0 < uses c v a := by
  rw [uses_setFile_sub hi hused hmp, if_pos rfl]
  omega

theorem uses_dir_pos (hmem : d ∈ v.dirs) (hd : d.dMp = some a) : 0 < uses c v a := by
  have h := @uses_dirs_erase c v { v with dirs := v.dirs.erase d } a a d rfl rfl hmem hd
  rw [h, if_pos rfl]
  omega

/-! ## Counting up and down -/

section

variable (h : Counted c leak v m)
include h

theorem Counted.add (hlt : m.mRefs + 1 < 2 ^ 32) (hu : uses c v' m.addr = uses c v m.addr + 1) :
    Counted c leak v' { m with mRefs := (m.mRefs + 1) % 2 ^ 32 } := by
  have hmod := Nat.mod_eq_of_lt hlt
  constructor
  · dsimp only
    rw [hmod, hu]
    exact Nat.succ_le_succ h.le
  · dsimp only
    rwa [hmod]
  · intro hl
    rw [hmod, hu, h.eq hl]

theorem Counted.sub (hu : uses c v m.addr = uses c v' m.addr + 1) :
    Counted c leak v' { m with mRefs := (m.mRefs + (2 ^ 32 - 1)) % 2 ^ 32 } := by
  have hle := h.le
  have hlt := h.lt
  constructor
  · dsimp only
    omega
  · dsimp only
    omega
  · intro hl
    have := h.eq hl
    dsimp only
    omega

theorem Counted.congr (hu : uses c v' m.addr = uses c v m.addr) : Counted c leak v' m :=
  ⟨hu ▸ h.le, h.lt, fun hl => hu ▸ h.eq hl⟩

end

theorem mem_modifyMp (h : m' ∈ (v.modifyMp a f).mountPoints) :
    ∃ m ∈ v.mountPoints, (m.addr = a ∧ m' = f m) ∨ (m.addr ≠ a ∧ m' = m) := by
  obtain ⟨m, hm, rfl⟩ := mem_map.mp h
  by_cases ha : m.addr = a
  · exact ⟨m, hm, .inl ⟨ha, if_pos ha⟩⟩
  · exact ⟨m, hm, .inr ⟨ha, if_neg ha⟩⟩

theorem Inv.eq_of_addr (h : Inv c leak v) (hm : m ∈ v.mountPoints)
    (hm' : m' ∈ v.mountPoints) (ha : m.addr = m'.addr) : m = m' :=
  inj_on_of_nodup_map h.addrs hm hm' ha

theorem Inv.counted_addRef (h : Inv c leak v) (hm : m ∈ v.mountPoints)
    (hlt : m.mRefs + 1 < 2 ^ 32) (hmps : v'.mountPoints = (v.addRef m.addr).mountPoints)
    (hu : ∀ b, uses c v' b = uses c v b + if b = m.addr then 1 else 0) :
    ∀ m' ∈ v'.mountPoints, Counted c leak v' m' := by
  intro m' hm'
  rw [hmps] at hm'
  obtain ⟨m₀, hm₀, ⟨ha, rfl⟩ | ⟨ha, rfl⟩⟩ := mem_modifyMp hm'
  · obtain rfl := h.eq_of_addr hm₀ hm ha
    refine (h.counted m₀ hm₀).add hlt ?_
    rw [hu, if_pos rfl]
  · refine (h.counted m' hm₀).congr ?_
    rw [hu, if_neg ha, Nat.add_zero]

theorem Inv.counted_dropRef (h : Inv c leak v) (hmps : v'.mountPoints = (v.dropRef a).mountPoints)
    (hu : ∀ b, uses c v b = uses c v' b + if b = a then 1 else 0) :
    ∀ m' ∈ v'.mountPoints, Counted c leak v' m' := by
  intro m' hm'
  rw [hmps] at hm'
  obtain ⟨m₀, hm₀, ⟨ha, rfl⟩ | ⟨ha, rfl⟩⟩ := mem_modifyMp hm'
  · refine (h.counted m₀ hm₀).sub ?_
    rw [hu, if_pos ha]
  · refine (h.counted m' hm₀).congr ?_
    rw [hu, if_neg ha, Nat.add_zero]

theorem Inv.counted_leak (h : Inv c leak v) (hl : leak) (hmps : v'.mountPoints = v.mountPoints)
    (hu : ∀ b, uses c v' b ≤ uses c v b) : ∀ m' ∈ v'.mountPoints, Counted c leak v' m' := by
  intro m' hm'
  rw [hmps] at hm'
  have hc := h.counted m' hm'
  exact ⟨(hu _).trans hc.le, hc.lt, fun hn => absurd hl hn⟩

/-! ## The places of the mount points -/

def SamePlaces (v v' : Vfs) : Prop :=
  v'.mountPoints.map (fun m => (m.addr, m.mFs)) = v.mountPoints.map fun m => (m.addr, m.mFs)

theorem samePlaces_modifyMp
    (hf : ∀ m, (f m).addr = m.addr ∧ (f m).mFs = m.mFs) : SamePlaces v (v.modifyMp a f) := by
  simp only [SamePlaces, modifyMp, map_map]
  refine map_congr_left fun m _ => ?_
  simp only [comp_apply]
  split_ifs
  · rw [(hf m).1, (hf m).2]
  · rfl

theorem SamePlaces.map (h : SamePlaces v v') {β : Type} (g : ℕ × ℕ → β) :
    v'.mountPoints.map (fun m => g (m.addr, m.mFs)) =
      v.mountPoints.map fun m => g (m.addr, m.mFs) := by
  have := congrArg (List.map g) h
  simpa only [List.map_map, comp_def] using this

theorem SamePlaces.addrs (h : SamePlaces v v') :
    v'.mountPoints.map addr = v.mountPoints.map addr := h.map Prod.fst

theorem SamePlaces.mounts_eq (h : SamePlaces v v') : mounts v' a = mounts v a := by
  have hm := congrArg (countP (· = a)) (h.map Prod.snd)
  simpa only [countP_map, comp_def, mounts] using hm

theorem onList_iff : OnList v (some a) ↔ a ∈ v.mountPoints.map addr := by
  simp [OnList, eq_comm]

theorem OnList.some (h : OnList v mp) : ∃ a, mp = Option.some a ∧ a ∈ v.mountPoints.map addr := by
  obtain ⟨m, hm, rfl⟩ := h
  exact ⟨m.addr, rfl, mem_map_of_mem hm⟩

theorem OnList.mono (h : OnList v mp) (hsub : ∀ a, mp = Option.some a → a ∈ v.mountPoints.map addr →
      a ∈ v'.mountPoints.map addr) : OnList v' mp := by
  obtain ⟨a, rfl, ha⟩ := h.some
  exact onList_iff.mpr (hsub a rfl ha)

theorem SamePlaces.onList (h : SamePlaces v v') (ho : OnList v mp) : OnList v' mp := by
  refine ho.mono fun a _ ha => ?_
  rwa [h.addrs]

theorem SamePlaces.range (h : SamePlaces v v')
    (hr : ∀ m ∈ v.mountPoints, 0 < m.addr ∧ m.addr < 2 ^ 32) :
    ∀ m ∈ v'.mountPoints, 0 < m.addr ∧ m.addr < 2 ^ 32 := by
  intro m hm
  have ha := mem_map_of_mem (f := addr) hm
  rw [h.addrs] at ha
  obtain ⟨m₀, hm₀, he⟩ := mem_map.mp ha
  rw [← he]
  exact hr m₀ hm₀

theorem Inv.of_samePlaces (h : Inv c leak v) (hp : SamePlaces v v') (hfs : v'.fsMap = v.fsMap)
    (files : ∀ i, (v'.files i).fStatus = .notUsed ∨ ((v'.files i).fStatus = .ready ∧
      i < c.nrOpenDefault ∧ OnList v (v'.files i).fMp ∧ (v'.files i).fFops ≠ none))
    (dirsNodup : v'.dirs.Nodup) (dirs : ∀ d ∈ v'.dirs, OnList v d.dMp)
    (counted : ∀ m ∈ v'.mountPoints, Counted c leak v' m)
    (dirNum : ¬leak → v'.dirNum = v'.dirs.length ∧ v'.dirNum ≤ c.maxOpenDirs) : Inv c leak v' where
  addrs := by
    rw [hp.addrs]
    exact h.addrs
  range := hp.range h.range
  files i := (files i).imp_right fun ⟨h₁, h₂, h₃, h₄⟩ => ⟨h₁, h₂, hp.onList h₃, h₄⟩
  dirsNodup := dirsNodup
  dirs d hd := hp.onList (dirs d hd)
  counted := counted
  fsRefs hl fs hmem := by
    rw [hp.mounts_eq]
    exact h.fsRefs hl fs (hfs ▸ hmem)
  dirNum := dirNum

theorem Inv.same (h : Inv c leak v) (hs : SameBooks v v') : Inv c leak v' := by
  have hp : SamePlaces v v' := by simp only [SamePlaces, hs.mountPoints]
  refine h.of_samePlaces hp hs.fsMap (fun i => ?_) (hs.dirs ▸ h.dirsNodup) (hs.dirs ▸ h.dirs)
    (fun m hm => ?_) ?_
  · rcases hs.files i with ⟨-, hno⟩ | ⟨h₁, h₂, h₃⟩
    · exact .inl hno
    · rw [h₁, h₂, h₃]
      exact h.files i
  · exact (h.counted m (hs.mountPoints ▸ hm)).congr hs.uses_eq
  · rw [hs.dirs, hs.dirNum]
    exact h.dirNum

/-! ## Opening and closing -/

theorem Inv.room (h : Inv c leak v) (hm : m ∈ v.mountPoints) (hr : leak → m.mRefs + 1 < 2 ^ 32) :
    m.mRefs + 1 < 2 ^ 32 := by
  by_cases hl : leak
  · exact hr hl
  · have heq := (h.counted m hm).eq hl
    have hle := @uses_le c v m.addr
    obtain ⟨hlen, hnum⟩ := h.dirNum hl
    have hfd := c.nfileDescriptors_lt
    have hdirs := c.maxOpenDirs_lt
    have hnr : c.nrOpenDefault ≤ c.nfileDescriptors := Nat.sub_le _ _
    omega

theorem samePlaces_addRef : SamePlaces v (v.addRef a) := samePlaces_modifyMp fun _ => ⟨rfl, rfl⟩

theorem samePlaces_dropRef : SamePlaces v (v.dropRef a) := samePlaces_modifyMp fun _ => ⟨rfl, rfl⟩

section

variable (h : Inv c leak v)
include h

theorem Inv.opened (hm : m ∈ v.mountPoints)
    (hr : leak → m.mRefs + 1 < 2 ^ 32) (hi : i < c.nrOpenDefault)
    (hfree : (v.files i).fStatus = .notUsed) (hready : file.fStatus = .ready)
    (hmp : file.fMp = some m.addr) (hops : file.fFops = some m.mFs) :
    Inv c leak ((v.addRef m.addr).setFile i file) := by
  refine h.of_samePlaces samePlaces_addRef rfl (fun j => ?_) h.dirsNodup h.dirs
    (h.counted_addRef hm (h.room hm hr) rfl fun b => ?_) h.dirNum
  · by_cases hj : j = i
    · subst hj
      right
      simp only [setFile, update_self]
      exact ⟨hready, hi, ⟨m, hm, hmp⟩, by simp [hops]⟩
    · simp only [setFile, update_of_ne hj]
      exact h.files j
  · exact uses_setFile_add hi hfree (by simp [hready]) hmp

theorem Inv.files_released (j : ℕ) :
    ((v.setFile i {}).files j).fStatus = .notUsed ∨ (((v.setFile i {}).files j).fStatus = .ready ∧
      j < c.nrOpenDefault ∧ OnList v ((v.setFile i {}).files j).fMp ∧
      ((v.setFile i {}).files j).fFops ≠ none) := by
  by_cases hj : j = i
  · subst hj
    exact .inl (by simp [setFile])
  · simpa [setFile, hj] using h.files j

theorem Inv.closed (hready : (v.files i).fStatus = .ready)
    (hmp : (v.files i).fMp = some a) : Inv c leak ((v.dropRef a).setFile i {}) := by
  have hi : i < c.nrOpenDefault := by
    rcases h.files i with hno | ⟨-, hi, -⟩
    · simp [hready] at hno
    · exact hi
  refine h.of_samePlaces samePlaces_dropRef rfl h.files_released h.dirsNodup h.dirs
    (h.counted_dropRef rfl fun b => ?_) h.dirNum
  exact uses_setFile_sub hi (by simp [hready]) hmp

theorem Inv.closeFailed (hl : leak) (hready : (v.files i).fStatus = .ready) :
    Inv c leak (v.setFile i {}) := by
  rcases h.files i with hno | ⟨-, hi, hon, -⟩
  · simp [hready] at hno
  obtain ⟨a, ha, -⟩ := hon.some
  refine h.of_samePlaces rfl rfl h.files_released h.dirsNodup h.dirs
    (h.counted_leak hl rfl fun b => ?_) h.dirNum
  rw [uses_setFile_sub hi (by simp [hready]) ha]
  exact Nat.le_add_right _ _

theorem Inv.dirOpened (hm : m ∈ v.mountPoints)
    (hr : leak → m.mRefs + 1 < 2 ^ 32) (hfresh : ∀ d ∈ v.dirs, d.addr ≠ a)
    (hnum : v.dirNum < c.maxOpenDirs) : Inv c leak { v.addRef m.addr with
        dirNum := (v.dirNum + 1) % 2 ^ 32
        dirs := { addr := a, dMp := some m.addr } :: v.dirs } := by
  refine h.of_samePlaces samePlaces_addRef rfl h.files ?_ ?_
    (h.counted_addRef hm (h.room hm hr) rfl fun b => ?_) fun hl => ?_
  · refine nodup_cons.mpr ⟨fun hmem => ?_, h.dirsNodup⟩
    exact hfresh _ hmem rfl
  · rintro d (_ | ⟨_, hd⟩)
    · exact ⟨m, hm, rfl⟩
    · exact h.dirs d hd
  · exact uses_dirs_cons rfl rfl rfl
  · have hlt := c.maxOpenDirs_lt
    have hlen := (h.dirNum hl).1
    dsimp only
    rw [Nat.mod_eq_of_lt (by omega), length_cons]
    omega

theorem Inv.dirClosed (hmem : d ∈ v.dirs) (hd : d.dMp = some a) : Inv c leak { v.dropRef a with
        dirNum := (v.dirNum + (2 ^ 32 - 1)) % 2 ^ 32
        dirs := v.dirs.erase d } := by
  refine h.of_samePlaces samePlaces_dropRef rfl h.files (h.dirsNodup.erase d)
    (fun d' hd' => h.dirs d' (mem_of_mem_erase hd'))
    (h.counted_dropRef rfl fun b => ?_) fun hl => ?_
  · exact uses_dirs_erase rfl rfl hmem hd
  · have hlt := c.maxOpenDirs_lt
    obtain ⟨hlen, hle⟩ := h.dirNum hl
    have hpos := length_pos_of_mem hmem
    dsimp only
    rw [length_erase_of_mem hmem]
    omega

theorem Inv.dirCloseFailed (hl : leak) (hmem : d ∈ v.dirs)
    (hd : d.dMp = some a) : Inv c leak { v with dirs := v.dirs.erase d } := by
  refine h.of_samePlaces rfl rfl h.files (h.dirsNodup.erase d)
    (fun d' hd' => h.dirs d' (mem_of_mem_erase hd'))
    (h.counted_leak hl rfl fun b => ?_) fun hn => absurd hl hn
  have hu := @uses_dirs_erase c v { v with dirs := v.dirs.erase d } a b d rfl rfl hmem hd
  exact hu ▸ Nat.le_add_right _ _

end

/-! ## Mounting and unmounting -/

/-- The heap has room for fewer mount points than `fsRefs` can count. -/
theorem length_lt_of_nodup {l : List ℕ} (hnd : l.Nodup) (hr : ∀ a ∈ l, 0 < a ∧ a < 2 ^ 32) :
    l.length < 2 ^ 32 := by
  have hsub : l.toFinset ⊆ Finset.Ico 1 (2 ^ 32) := fun a ha => by
    have := hr a (mem_toFinset.mp ha)
    exact Finset.mem_Ico.mpr this
  have hcard := Finset.card_le_card hsub
  rw [toFinset_card_of_nodup hnd, Nat.card_Ico] at hcard
  omega

theorem Inv.length_lt (h : Inv c leak v) : v.mountPoints.length < 2 ^ 32 := by
  have hlen := length_lt_of_nodup h.addrs (by simpa using h.range)
  rwa [length_map] at hlen

theorem mem_modifyFs {f : FsMap → FsMap} {fs' : FsMap} (h : fs' ∈ (v.modifyFs a f).fsMap) :
    ∃ fs ∈ v.fsMap, (fs.addr = a ∧ fs' = f fs) ∨ (fs.addr ≠ a ∧ fs' = fs) := by
  obtain ⟨fs, hfs, rfl⟩ := mem_map.mp h
  by_cases ha : fs.addr = a
  · exact ⟨fs, hfs, .inl ⟨ha, if_pos ha⟩⟩
  · exact ⟨fs, hfs, .inr ⟨ha, if_neg ha⟩⟩

theorem mounts_le : mounts v a ≤ v.mountPoints.length := countP_le_length

theorem Inv.mounted (h : Inv c leak v) (hz : m.mRefs = 0) (hpos : 0 < m.addr)
    (hlt : m.addr < 2 ^ 32) (hfresh : ∀ x ∈ v.mountPoints, x.addr ≠ m.addr) :
    Inv c leak { v.addFsRef m.mFs with mountPoints := m :: v.mountPoints } := by
  have hnew : m.addr ∉ v.mountPoints.map addr := by simpa using hfresh
  have hmono : ∀ {mp : Option ℕ}, OnList v mp →
      OnList { v.addFsRef m.mFs with mountPoints := m :: v.mountPoints } mp :=
    fun ho => ho.mono fun _ _ ha => mem_cons_of_mem _ ha
  have hnot : ∀ {mp : Option ℕ}, OnList v mp → mp ≠ some m.addr := by
    rintro mp ho rfl
    exact hnew (onList_iff.mp ho)
  have huses : uses c v m.addr = 0 := by
    refine uses_eq_zero (fun i => (h.files i).imp_right fun hi => hnot hi.2.2.1) fun d hd => ?_
    exact hnot (h.dirs d hd)
  refine
    { addrs := nodup_cons.mpr ⟨hnew, h.addrs⟩
      range := ?_
      files := fun i => (h.files i).imp_right fun ⟨h₁, h₂, h₃, h₄⟩ => ⟨h₁, h₂, hmono h₃, h₄⟩
      dirsNodup := h.dirsNodup
      dirs := fun d hd => hmono (h.dirs d hd)
      counted := ?_
      fsRefs := ?_
      dirNum := h.dirNum }
  · rintro x (_ | ⟨_, hx⟩)
    · exact ⟨hpos, hlt⟩
    · exact h.range x hx
  · rintro x (_ | ⟨_, hx⟩)
    · exact ⟨huses.trans_le (Nat.zero_le _), by omega, fun _ => hz.trans huses.symm⟩
    · exact (h.counted x hx).congr rfl
  · intro hl fs' hfs'
    obtain ⟨fs, hfs, ⟨ha, rfl⟩ | ⟨ha, rfl⟩⟩ := mem_modifyFs hfs'
    · have hroom : fs.fsRefs + 1 < 2 ^ 32 := by
        have hlen := length_lt_of_nodup (nodup_cons.mpr ⟨hnew, h.addrs⟩)
          (forall_mem_cons.mpr ⟨⟨hpos, hlt⟩, by simpa using h.range⟩)
        rw [h.fsRefs hl fs hfs]
        have := @mounts_le v fs.addr
        simp only [length_cons, length_map] at hlen
        omega
      rw [Nat.mod_eq_of_lt hroom, h.fsRefs hl fs hfs]
      simp [mounts, ha]
    · simp [mounts, Ne.symm ha, h.fsRefs hl fs' hfs]

theorem Inv.mountFailed (h : Inv c leak v) (hl : leak) : Inv c leak (v.addFsRef a) :=
  { h with
    counted := fun m hm => (h.counted m hm).congr rfl
    fsRefs := fun hn => absurd hl hn }

theorem Inv.unmounted (h : Inv c leak v) (hm : m ∈ v.mountPoints) (hz : m.mRefs = 0) :
    Inv c leak ((v.mpDeleteFromList m).dropFsRef m.mFs) := by
  have hnone : uses c v m.addr = 0 := by
    have := (h.counted m hm).le
    omega
  have hmono : ∀ {mp : Option ℕ}, mp ≠ some m.addr → OnList v mp →
      OnList ((v.mpDeleteFromList m).dropFsRef m.mFs) mp := by
    intro mp hne ho
    refine ho.mono fun a hmp ha => ?_
    obtain ⟨x, hx, rfl⟩ := mem_map.mp ha
    refine mem_map_of_mem (mem_erase_of_ne (fun he => ?_) |>.mpr hx)
    exact hne (he ▸ hmp)
  refine
    { addrs := h.addrs.sublist (erase_sublist.map _)
      range := fun x hx => h.range x (mem_of_mem_erase hx)
      files := fun i => ?_
      dirsNodup := h.dirsNodup
      dirs := fun d hd => hmono (fun hmp => ?_) (h.dirs d hd)
      counted := fun x hx => (h.counted x (mem_of_mem_erase hx)).congr rfl
      fsRefs := ?_
      dirNum := h.dirNum }
  · refine (h.files i).imp_right ?_
    rintro ⟨hready, hi, hon, hops⟩
    refine ⟨hready, hi, hmono (fun hmp => ?_) hon, hops⟩
    have := uses_file_pos (v := v) hi (by simp [hready]) hmp
    omega
  · have := uses_dir_pos (c := c) (v := v) hd hmp
    omega
  · intro hl fs' hfs'
    have hcount : ∀ b, mounts v b = mounts ((v.mpDeleteFromList m).dropFsRef m.mFs) b +
        if m.mFs = b then 1 else 0 := by
      intro b
      have hperm := (perm_cons_erase hm).countP_eq (·.mFs = b)
      simp only [countP_cons, decide_eq_true_eq] at hperm
      exact hperm
    obtain ⟨fs, hfs, ⟨ha, rfl⟩ | ⟨ha, rfl⟩⟩ := mem_modifyFs hfs'
    · have heq := h.fsRefs hl fs hfs
      have hc := hcount fs.addr
      have hle := (@mounts_le v fs.addr).trans_lt h.length_lt
      rw [if_pos ha.symm] at hc
      dsimp only
      omega
    · have hc := hcount fs'.addr
      rw [if_neg (Ne.symm ha), Nat.add_zero] at hc
      rw [h.fsRefs hl fs' hfs, hc]

end

/-! ## Runs -/

/-- The drivers do not fail when something is counted: `mount`, `close` and `closedir` succeed. -/
def Unfailing (c : VfsConfig) (v : Vfs) (op : FsOp) : Prop :=
  match op.call with
  | .mount _ _ _ remount _ => remount ∨ op.env.driver .mount = 0
  | .close fd => ∀ i ∈ Vfs.fdToFile c fd, (v.files i).fStatus = .ready → Closes op.env v i
  | .closedir dir => ∀ d ∈ dir, ∀ a ∈ d.dMp,
      v.mpHasOp a .closedir ∧ op.env.driver .closedir = 0
  | _ => True

instance (e : Env) (v : Vfs) (i : ℕ) : Decidable (Closes e v i) :=
  inferInstanceAs (Decidable (∃ fs ∈ (v.files i).fFops,
    v.hasOp fs .close = true ∧ e.driver .close = 0))

instance (c : VfsConfig) (v : Vfs) (op : FsOp) : Decidable (Unfailing c v op) := by
  unfold Unfailing
  split <;> infer_instance

/-- The mount point that a path leads to has room for one more reference. -/
def RoomFor (c : VfsConfig) (v : Vfs) (path : Option CStr) : Prop :=
  ∀ p ∈ path, ∀ m ∈ vfsMpFind c.nested v.mountPoints p, m.mRefs + 1 < 2 ^ 32
deriving Decidable

/-- Nothing is opened on a mount point whose counter is at its limit. -/
def Roomy (c : VfsConfig) (v : Vfs) (op : FsOp) : Prop :=
  match op.call with
  | .open path _ => RoomFor c v path
  | .opendir path => RoomFor c v path
  | _ => True

instance (c : VfsConfig) (v : Vfs) (op : FsOp) : Decidable (Roomy c v op) := by
  unfold Roomy
  split <;> infer_instance

variable {c : VfsConfig} {leak : Prop} {v : Vfs}

theorem Inv.step (h : Inv c leak v) (op : FsOp) (hen : Enabled v op)
    (hexact : ¬leak → Unfailing c v op) (hroom : leak → Roomy c v op) :
    Inv c leak (fsStep c v op) := by
  obtain ⟨call, e, holds⟩ := op
  have heff : Effect c e v call (fsStep c v ⟨call, e, holds⟩) :=
    exec_effect c e (startCall v holds) call
  generalize fsStep c v ⟨call, e, holds⟩ = v' at heff ⊢
  cases heff with
  | same hs => exact h.same hs
  | mounted m ha hz =>
    obtain ⟨hpos, hlt, hfresh⟩ := hen m.addr ha
    exact h.mounted hz hpos hlt hfresh
  | mountFailed _ hret =>
    refine h.mountFailed (by_contra fun hl => ?_)
    exact (hexact hl).elim (by simp) hret
  | unmounted m hm hz => exact h.unmounted hm hz
  | opened m _ _ hfind hi hfree hready hmp hops =>
    exact h.opened (mem_of_vfsMpFind hfind) (fun hl => hroom hl _ rfl m hfind) hi hfree
      hready hmp hops
  | closed _ _ _ hready hmp => exact h.closed hready hmp
  | closeFailed i hfd hready hno =>
    exact h.closeFailed (by_contra fun hl => hno (hexact hl i hfd hready)) hready
  | dirOpened m addr hfind ha hnum =>
    exact h.dirOpened (mem_of_vfsMpFind hfind) (fun hl => hroom hl _ rfl m hfind) (hen addr ha) hnum
  | dirClosed d _ hd => exact h.dirClosed (hen d rfl) hd
  | dirCloseFailed d a hd hno =>
    exact h.dirCloseFailed (by_contra fun hl => hno (hexact hl d rfl a hd)) (hen d rfl) hd

/-- The counters are exact in every run without failing drivers. -/
theorem exact_of_unfailing (c : VfsConfig) (v : Vfs)
    (h : ((fsMachine c).restrict (Unfailing c)).Reaches v) : Exact c v := by
  have hinv : Inv c False v := by
    refine h.invariant (fun v hv => Unmounted.inv hv) fun v op hi ha => ?_
    exact hi.step op ha.1 (fun _ => ha.2) False.elim
  exact hinv.exact id

/-- The calls of the sample runs: a file system is mounted at `/a`, -/
def mountCall : FsCall := .mount (some ['d']) (some ['/', 'a']) (some ['f', 'a', 't']) false false

def openCall : FsCall := .open (some ['/', 'a', '/', 'f']) 0

def umountCall : FsCall := .umount (some ['/', 'a'])

def failingEnv (cb : Callback) (addr : ℕ) : Env :=
  { malloc := some addr, driver := fun cb' => if cb' = cb then 1 else 0 }

theorem unmounted_sampleVfs : Unmounted sampleVfs :=
  ⟨rfl, by simp [sampleVfs], fun _ => rfl, rfl, rfl⟩

/-- A file and a directory are open while an unmount fails; then the file is closed. -/
theorem exact_of_unfailing_closed : Exact (sampleConfig false)
    (((fsMachine (sampleConfig false)).restrict (Unfailing (sampleConfig false))).run sampleVfs
      [⟨mountCall, wellEnv 100, 0⟩, ⟨openCall, wellEnv 200, 0⟩,
        ⟨.opendir (some ['/', 'a']), wellEnv 300, 0⟩, ⟨umountCall, {}, 0⟩, ⟨.close 3, {}, 0⟩]) :=
  exact_of_unfailing (sampleConfig false) _
    (Machine.Reaches.run (.start unmounted_sampleVfs) _ (by decide +kernel))

/-- A failing `mount` leaves a reference to the file system, and a failing `close` one to the mount
point. -/
theorem not_exact_of_failing : (∃ v, (fsMachine (sampleConfig false)).Reaches v ∧
      ¬∀ fs ∈ v.fsMap, fs.fsRefs = mounts v fs.addr) ∧
    ∃ v, (fsMachine (sampleConfig false)).Reaches v ∧
      ¬∀ m ∈ v.mountPoints, m.mRefs = uses (sampleConfig false) v m.addr := by
  constructor
  · refine ⟨_, Machine.Reaches.run (.start unmounted_sampleVfs)
      [⟨mountCall, failingEnv .mount 100, 0⟩] (by decide +kernel), by decide +kernel⟩
  · refine ⟨_, Machine.Reaches.run (.start unmounted_sampleVfs)
      [⟨mountCall, wellEnv 100, 0⟩, ⟨openCall, wellEnv 200, 0⟩,
        ⟨.close 3, failingEnv .close 300, 0⟩] (by decide +kernel), by decide +kernel⟩

/-- No open object outlives its mount point in a run in which no counter overflows. -/
theorem anchored_of_roomy (c : VfsConfig) (v : Vfs)
    (h : ((fsMachine c).restrict (Roomy c)).Reaches v) : Anchored v := by
  have hinv : Inv c True v := by
    refine h.invariant (fun v hv => Unmounted.inv hv) fun v op hi ha => ?_
    exact hi.step op ha.1 (fun hn => absurd trivial hn) fun _ => ha.2
  exact hinv.anchored

/-- A file is open while an unmount fails, also after a file was closed by a failing driver. -/
theorem anchored_of_roomy_busy : Anchored
    (((fsMachine (sampleConfig false)).restrict (Roomy (sampleConfig false))).run sampleVfs
      [⟨mountCall, wellEnv 100, 0⟩, ⟨openCall, wellEnv 200, 0⟩,
        ⟨.close 3, failingEnv .close 300, 0⟩, ⟨openCall, wellEnv 200, 0⟩, ⟨umountCall, {}, 0⟩]) :=
  anchored_of_roomy (sampleConfig false) _
    (Machine.Reaches.run (.start unmounted_sampleVfs) _ (by decide +kernel))

/-- The file system is mounted at `/a`, and `n` references have leaked. -/
def leakedVfs (n : ℕ) : Vfs where
  mountPoints := [{ addr := 100, mFs := 4, mPath := ['/', 'a'], mDev := some ['d'], mRefs := n }]
  fsMap := [{ addr := 4, fsType := ['f', 'a', 't'], ops := fun _ => true, fsRefs := 1 }]
  files _ := {}
  dirs := []
  dirNum := 0

/-- Opening a file and closing it with a failing driver leaks one reference. -/
theorem leak_one (n : ℕ) : fsStep (sampleConfig false)
      (fsStep (sampleConfig false) (leakedVfs n) ⟨openCall, wellEnv 200, 0⟩)
      ⟨.close 3, failingEnv .close 300, 0⟩ = leakedVfs ((n + 1) % 2 ^ 32) := by
  let opened : File :=
    { fStatus := .ready, fMp := some 100, fFops := some 4, fullPath := some ['/', 'a', '/', 'f'] }
  have hfiles : fsStep (sampleConfig false)
      (fsStep (sampleConfig false) (leakedVfs n) ⟨openCall, wellEnv 200, 0⟩)
      ⟨.close 3, failingEnv .close 300, 0⟩ =
      (((((leakedVfs ((n + 1) % 2 ^ 32)).setFile 0 { opened with fStatus := .initing }).setFile 0
        opened).setFile 0 { opened with fStatus := .closing }).setFile 0 {}) := rfl
  rw [hfiles]
  simp only [setFile_setFile]
  simp [setFile, leakedVfs]

theorem reaches_leakedVfs (n : ℕ) :
    (fsMachine (sampleConfig false)).Reaches (leakedVfs (n % 2 ^ 32)) := by
  induction n with
  | zero =>
    have h := Machine.Reaches.run (M := fsMachine (sampleConfig false))
      (.start unmounted_sampleVfs) [⟨mountCall, wellEnv 100, 0⟩] (by decide +kernel)
    exact h
  | succ n ih =>
    have h := ih.run [⟨openCall, wellEnv 200, 0⟩, ⟨.close 3, failingEnv .close 300, 0⟩]
      ⟨trivial, trivial, trivial⟩
    have hs := leak_one (n % 2 ^ 32)
    rw [Nat.mod_add_mod] at hs
    exact hs ▸ h

/-- After 2 ^ 32 - 1 failing calls of `close` the counter overflows: an open file does not keep its
mount point from being unmounted. -/
theorem not_anchored_of_overflow :
    ∃ v, (fsMachine (sampleConfig false)).Reaches v ∧ ¬Anchored v := by
  have h := (reaches_leakedVfs (2 ^ 32 - 1)).run [⟨openCall, wellEnv 200, 0⟩, ⟨umountCall, {}, 0⟩]
    ⟨trivial, trivial, trivial⟩
  refine ⟨_, h, fun hanch => ?_⟩
  obtain ⟨m, hm, -⟩ := hanch.1 0 (by decide +kernel)
  have hnone : ((fsMachine (sampleConfig false)).run (leakedVfs ((2 ^ 32 - 1) % 2 ^ 32))
      [⟨openCall, wellEnv 200, 0⟩, ⟨umountCall, {}, 0⟩]).mountPoints = [] := by
    decide +kernel
  exact List.not_mem_nil hm

end LiteOS.Fs
