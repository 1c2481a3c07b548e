import LiteOS.Lib.Counting
import LiteOS.Lib.Runs
import Mathlib.Algebra.Group.Nat.Defs
import Mathlib.Data.Finset.Range

/-!
# The descriptors of pipes

The model of `pipe`, `PipeOpen` and `PipeClose` as far as they keep the devices, the table `g_devFd`
and the two bitmaps. Devices are known by the address of their block. `g_devFdBitmap` has more bits
than `g_devFd` has entries: an entry from `PIPE_FD_NUM` on stands for the memory behind the array.
-/

namespace LiteOS.Posix

open Lib Function Finset Option

def pipeDevNum : ℕ := 32

def pipeFdNum : ℕ := pipeDevNum * 2

def pipeDevFdBitmapLen : ℕ := pipeFdNum / 32 + 1

def oRdonly : ℕ := 0

def oWronly : ℕ := 1

/-- The members of `struct PipeDev` that count; the name of a device is `/dev/pipe` with its
number. -/
structure PipeDev where
  num : ℕ
  /-- `ringBuffer` is not null. -/
  ringBuffer : Bool := false
  readerCnt : ℕ := 0
  writerCnt : ℕ := 0
  ref : ℕ := 0
deriving DecidableEq, Repr

namespace PipeDev

/-- `readerCnt++` or `writerCnt++`, and `ref++` -/
def countUp (dev : PipeDev) (openFlag : ℕ) : PipeDev :=
  { dev with
    readerCnt := if openFlag = oRdonly then (dev.readerCnt + 1) % 2 ^ 32 else dev.readerCnt
    writerCnt := if openFlag = oWronly then (dev.writerCnt + 1) % 2 ^ 32 else dev.writerCnt
    ref := (dev.ref + 1) % 2 ^ 32 }

/-- `readerCnt--` or `writerCnt--`, and `--ref` -/
def countDown (dev : PipeDev) (openFlag : ℕ) : PipeDev :=
  { dev with
    readerCnt := if openFlag = oRdonly then (dev.readerCnt + (2 ^ 32 - 1)) % 2 ^ 32
      else dev.readerCnt
    writerCnt := if openFlag = oWronly then (dev.writerCnt + (2 ^ 32 - 1)) % 2 ^ 32
      else dev.writerCnt
    ref := (dev.ref + (2 ^ 32 - 1)) % 2 ^ 32 }

end PipeDev

/-- `struct PipeFdDev` -/
structure PipeFdDev where
  dev : Option ℕ := none
  openFlag : ℕ := 0
deriving DecidableEq, Repr

/-- A path that is passed to `PipeOpen`. -/
inductive PipePath
  | null
  /-- `/dev/pipe` and a number -/
  | pipe (num : ℕ)
  | other
deriving DecidableEq, Repr

inductive PipeErrno
  | einval
  | enodev
  | ebusy
  | enomem
  | eexist
  | enospc
deriving DecidableEq, Repr

/-- The variables of `pipe.c`. `block` are the devices that are allocated. Not in the source: the
indices that `PipeDevFdAlloc` has handed out, the descriptors that were returned and not closed, and
whether a device was used after it was freed. -/
structure PipeTable where
  devList : List ℕ := []
  block : ℕ → Option PipeDev := fun _ => none
  devNumBitmap : ℕ → Bool := fun _ => false
  devFdBitmap : ℕ → Bool := fun _ => false
  devFd : ℕ → PipeFdDev := fun _ => {}
  devStartFd : ℤ := 0
  handedOut : ℕ → Bool := fun _ => false
  returned : ℤ → Bool := fun _ => false
  usedAfterFree : Bool := false

/-- What the allocations and the creations in a call of `pipe` come to: the block of the device, the
mutex and the two semaphores, and the buffer that `PipeOpen` allocates. -/
structure PipeCall where
  devMem : Option ℕ
  mutex : Bool := true
  readSem : Bool := true
  writeSem : Bool := true
  ringBuffer : Bool := true
deriving DecidableEq, Repr

def PipeCall.creates (call : PipeCall) : Bool :=
  call.devMem.isSome && call.mutex && call.readSem && call.writeSem

inductive PipeOp
  | pipe (call : PipeCall)
  | pipeOpen (path : PipePath) (openFlag : ℕ) (ringBuffer : Bool)
  | pipeClose (fd : ℤ)
deriving DecidableEq, Repr

namespace PipeTable

section

variable (s : PipeTable)

def modifyDev (a : ℕ) (f : PipeDev → PipeDev) : PipeTable :=
  match s.block a with
  | some dev => { s with block := update s.block a (some (f dev)) }
  | none => { s with usedAfterFree := true }

def pipeDevNumAlloc : Option (PipeTable × ℕ) := do
  let devNum ← (List.range pipeDevNum).find? fun n => !s.devNumBitmap n
  return ({ s with devNumBitmap := update s.devNumBitmap devNum true }, devNum)

def pipeDevNumFree (devNum : ℕ) : PipeTable :=
  if devNum ≥ pipeDevNum then s
  else { s with devNumBitmap := update s.devNumBitmap devNum false }

def pipeDevFind : PipePath → Option ℕ
  | .pipe num => s.devList.find? fun a => (s.block a).map PipeDev.num = some num
  | .null | .other => none

/-- `PipeDevRegister`; the answer is the number of the device. -/
def pipeDevRegister (call : PipeCall) : PipeTable × Except PipeErrno ℕ :=
  match s.pipeDevNumAlloc with
  | none => (s, .error .enodev)
  | some (s, num) =>
    match call.devMem with
    | none => (s.pipeDevNumFree num, .error .enomem)
    | some a =>
      if s.pipeDevFind (.pipe num) ≠ none then (s.pipeDevNumFree num, .error .eexist)
      else if !call.mutex || !call.readSem || !call.writeSem then
        (s.pipeDevNumFree num, .error .enospc)
      else
        ({ s with
          block := update s.block a (some { num := num })
          devList := a :: s.devList }, .ok num)

def pipeDevUnregister (a : ℕ) : PipeTable :=
  if a ∉ s.devList then s
  else
    match s.block a with
    | none => { s with devList := s.devList.erase a, usedAfterFree := true }
    | some dev =>
      { { s with devList := s.devList.erase a }.pipeDevNumFree dev.num with
        block := update s.block a none }

def pipeDevFdAlloc : Option (PipeTable × ℕ) := do
  let fd ← (List.range (32 * pipeDevFdBitmapLen)).find? fun i => !s.devFdBitmap i
  return ({ s with
    devFdBitmap := update s.devFdBitmap fd true
    handedOut := update s.handedOut fd true }, fd)

def pipeDevFdFree (fd : ℕ) : PipeTable :=
  { s with devFdBitmap := update s.devFdBitmap fd false }

/-- `PipeOpen`; `ringBuffer` is the outcome of the allocation of the buffer. -/
def pipeOpen (path : PipePath) (openFlag : ℕ) (minFd : ℤ) (ringBuffer : Bool) :
    PipeTable × Except PipeErrno ℤ :=
  if path = .null then (s, .error .einval)
  else if openFlag ≠ oRdonly ∧ openFlag ≠ oWronly then (s, .error .einval)
  else
    match s.pipeDevFind path with
    | none => (s, .error .enodev)
    | some a =>
      match s.pipeDevFdAlloc with
      | none => (s, .error .ebusy)
      | some (s, fd) =>
        let s := { s with
          devFd := update s.devFd fd ⟨some a, openFlag⟩
          devStartFd := minFd }
        let s := s.modifyDev a (·.countUp openFlag)
        if (s.block a).map PipeDev.ringBuffer ≠ some true ∧ !ringBuffer then
          (s.pipeDevFdFree fd, .error .enomem)
        else
          let s := s.modifyDev a ({ · with ringBuffer := true })
          ({ s with returned := update s.returned (fd + minFd) true }, .ok (fd + minFd))

/-- `PipeFdDevGet` gives the index of the entry, `PipeFd2Dev` its device. -/
def pipeFdDevGet (fd : ℤ) : Option ℕ :=
  if fd < s.devStartFd then none
  else if fd - s.devStartFd ≥ pipeFdNum then none
  else some (fd - s.devStartFd).toNat

def pipeFd2Dev (fd : ℤ) : Option (ℕ × ℕ) := do
  let i ← s.pipeFdDevGet fd
  let a ← (s.devFd i).dev
  return (i, a)

def pipeClose (fd : ℤ) : PipeTable × Except PipeErrno Unit :=
  match s.pipeFd2Dev fd with
  | none => (s, .error .enodev)
  | some (i, a) =>
    let openFlag := (s.devFd i).openFlag
    let s := { s with
      devFd := update s.devFd i {}
      returned := update s.returned fd false }
    let s := s.pipeDevFdFree i
    let s := s.modifyDev a (·.countDown openFlag)
    if (s.block a).map PipeDev.ref = some 0 then (s.pipeDevUnregister a, .ok ())
    else (s, .ok ())

def pipe (minFd : ℤ) (call : PipeCall) : PipeTable × Except PipeErrno (ℤ × ℤ) :=
  match s.pipeDevRegister call with
  | (s, .error e) => (s, .error e)
  | (s, .ok num) =>
    let dev := s.pipeDevFind (.pipe num)
    match s.pipeOpen (.pipe num) oRdonly minFd call.ringBuffer with
    | (s, .error e) => (dev.elim s s.pipeDevUnregister, .error e)
    | (s, .ok fd) =>
      match s.pipeOpen (.pipe num) oWronly minFd call.ringBuffer with
      | (s, .error e) => ((pipeClose (dev.elim s s.pipeDevUnregister) fd).1, .error e)
      | (s, .ok fd') => (s, .ok (fd, fd'))

def exec (minFd : ℤ) (s : PipeTable) : PipeOp → PipeTable
  | .pipe call => (s.pipe minFd call).1
  | .pipeOpen path openFlag ringBuffer => (s.pipeOpen path openFlag minFd ringBuffer).1
  | .pipeClose fd => (s.pipeClose fd).1

def Enabled : PipeOp → Prop
  | .pipe call => ∀ a ∈ call.devMem, s.block a = none
  | .pipeOpen _ _ _ | .pipeClose _ => True

def machine (minFd : ℤ) : Machine PipeTable PipeOp where
  init s := s = {}
  allowed := Enabled
  step := exec minFd

/-- `n` entries of `g_devFd` are free. -/
def FreeEntries (n : ℕ) : Prop :=
  n ≤ ((Finset.range pipeFdNum).filter fun i => s.devFdBitmap i = false).card
deriving Decidable

/-- A call finds entries of `g_devFd` for its descriptors, and memory for the buffer of a new
device. -/
def Careful : PipeOp → Prop
  | .pipe call => call.creates → s.FreeEntries 2 ∧ call.ringBuffer
  | .pipeOpen path _ _ => s.pipeDevFind path ≠ none → s.FreeEntries 1
  | .pipeClose _ => True

/-- The entries of `g_devFd` that point to a device -/
def entries (a : ℕ) : Finset ℕ :=
  (Finset.range pipeFdNum).filter fun i => (s.devFd i).dev = some a

end

structure Consistent (s : PipeTable) : Prop where
  counts : ∀ a ∈ s.devList, ∃ dev, s.block a = some dev ∧
    dev.ref = dev.readerCnt + dev.writerCnt ∧ dev.ref = (s.entries a).card
  live : ∀ i a, i < pipeFdNum → (s.devFd i).dev = some a → s.block a ≠ none
  indices : ∀ i, s.handedOut i → i < pipeFdNum
  closes : ∀ fd, s.returned fd → (s.pipeClose fd).2 = .ok ()
  intact : s.usedAfterFree = false

variable {minFd fd : ℤ} {s s' : PipeTable} {a b i j n f : ℕ} {dev dev' : PipeDev} {path : PipePath}
variable {ringBuffer : Bool} {call : PipeCall} {op : PipeOp} {e : PipeFdDev}

/-! ## The invariant -/

def opens (s : PipeTable) (a f : ℕ) : ℕ :=
  ((Finset.range pipeFdNum).filter fun i => s.devFd i = ⟨some a, f⟩).card

structure Inv (minFd : ℤ) (s : PipeTable) : Prop where
  nodup : s.devList.Nodup
  listed : ∀ a, s.block a ≠ none ↔ a ∈ s.devList
  counts : ∀ a dev, s.block a = some dev → dev.readerCnt = s.opens a oRdonly ∧
    dev.writerCnt = s.opens a oWronly ∧ dev.ref = dev.readerCnt + dev.writerCnt
  flags : ∀ i a f, i < pipeFdNum → s.devFd i = ⟨some a, f⟩ → f = oRdonly ∨ f = oWronly
  bits : ∀ i, s.devFdBitmap i ↔ i < pipeFdNum ∧ (s.devFd i).dev ≠ none
  points : ∀ i a, i < pipeFdNum → (s.devFd i).dev = some a → s.block a ≠ none
  nums : ∀ n, s.devNumBitmap n ↔ ∃ a dev, s.block a = some dev ∧ dev.num = n
  numLt : ∀ a dev, s.block a = some dev → dev.num < pipeDevNum
  numInj : ∀ a b dev dev', s.block a = some dev → s.block b = some dev' → dev.num = dev'.num → a = b
  handed : ∀ i, s.handedOut i → i < pipeFdNum
  returned : ∀ fd, s.returned fd → ∃ i < pipeFdNum, fd = i + minFd ∧ (s.devFd i).dev ≠ none
  start : ∀ i < pipeFdNum, (s.devFd i).dev ≠ none → s.devStartFd = minFd
  intact : s.usedAfterFree = false

def Ready (s : PipeTable) : Prop := ∀ a dev, s.block a = some dev → dev.ringBuffer

theorem opens_le (s : PipeTable) (a f : ℕ) : s.opens a f ≤ pipeFdNum :=
  (card_filter_le _ _).trans (by rw [card_range])

theorem card_entries (h : Inv minFd s) (a : ℕ) :
    (s.entries a).card = s.opens a oRdonly + s.opens a oWronly := by
  rw [entries, opens, opens, ← card_union_of_disjoint]
  · congr 1
    ext i
    simp only [mem_filter, mem_union, mem_range]
    constructor
    · rintro ⟨hi, ha⟩
      have hentry : s.devFd i = ⟨some a, (s.devFd i).openFlag⟩ := by rw [← ha]
      rcases h.flags i a _ hi hentry with hf | hf
      · exact .inl ⟨hi, hentry.trans (by rw [hf])⟩
      · exact .inr ⟨hi, hentry.trans (by rw [hf])⟩
    · rintro (⟨hi, he⟩ | ⟨hi, he⟩)
      all_goals exact ⟨hi, by rw [he]⟩
  · refine disjoint_filter.mpr fun i _ h₁ h₂ => ?_
    rw [h₁] at h₂
    exact absurd (congrArg PipeFdDev.openFlag h₂) (show oRdonly ≠ oWronly by decide)

theorem Inv.init : Inv minFd {} where
  nodup := List.nodup_nil
  listed a := by simp
  counts := nofun
  flags := nofun
  bits i := by simp
  points := nofun
  nums n := by simp
  numLt := nofun
  numInj := nofun
  handed := nofun
  returned := nofun
  start i _ h := absurd rfl h
  intact := rfl

theorem Inv.consistent (h : Inv minFd s) : Consistent s where
  counts a ha := by
    obtain ⟨dev, hdev⟩ := ne_none_iff_exists'.mp ((h.listed a).mpr ha)
    obtain ⟨hr, hw, href⟩ := h.counts a dev hdev
    exact ⟨dev, hdev, href, by rw [href, card_entries h, hr, hw]⟩
  live := h.points
  indices := h.handed
  closes fd hfd := by
    obtain ⟨i, hi, rfl, hne⟩ := h.returned fd hfd
    obtain ⟨a, ha⟩ := ne_none_iff_exists'.mp hne
    have hstart := h.start i hi hne
    have hget : s.pipeFd2Dev (i + minFd) = some (i, a) := by
      rw [pipeFd2Dev, pipeFdDevGet, if_neg (by omega), if_neg (by omega)]
      simp [hstart, ha]
    rw [pipeClose, hget]
    simp only
    split_ifs <;> rfl
  intact := h.intact

/-- An entry that was free now points to the device `a`. -/
theorem opens_add (hi : i < pipeFdNum) (hold : (s.devFd i).dev = none)
    (hnew : s'.devFd i = ⟨some a, f⟩) (hother : ∀ j, j ≠ i → s'.devFd j = s.devFd j) (b f' : ℕ) :
    s'.opens b f' = s.opens b f' + if b = a ∧ f' = f then 1 else 0 := by
  have hne : s.devFd i ≠ ⟨some b, f'⟩ := fun heq => by simp [heq] at hold
  split_ifs with hb
  · obtain ⟨rfl, rfl⟩ := hb
    exact card_filter_add_one (mem_range.mpr hi) hne hnew fun j _ hj => by rw [hother j hj]
  · refine congrArg card (filter_congr fun j _ => ?_)
    by_cases hj : j = i
    · subst hj
      refine iff_of_false (fun heq => hb ?_) hne
      rw [hnew] at heq
      cases heq
      exact ⟨rfl, rfl⟩
    · rw [hother j hj]

theorem block_eq_some {x : Option PipeDev} (hblock : s'.block = update s.block a x) (b : ℕ)
    (d : PipeDev) : s'.block b = some d ↔ b = a ∧ x = some d ∨ b ≠ a ∧ s.block b = some d := by
  by_cases hb : b = a <;> simp [hblock, hb]

/-- One entry of `g_devFd` changes, with the counts of the device it points to or pointed to. -/
theorem Inv.setEntry (h : Inv minFd s)
    (hdev : s.block a = some dev) (hlist : s'.devList = s.devList)
    (hblock : s'.block = update s.block a (some dev')) (hnum : dev'.num = dev.num)
    (hbm : s'.devNumBitmap = s.devNumBitmap) (hfd : s'.devFd = update s.devFd i e)
    (hbits : s'.devFdBitmap = update s.devFdBitmap i e.dev.isSome) (hi : i < pipeFdNum)
    (he : ∀ b f, e = ⟨some b, f⟩ → b = a ∧ (f = oRdonly ∨ f = oWronly))
    (hopens : ∀ b f, b ≠ a → s'.opens b f = s.opens b f)
    (hcounts : dev'.readerCnt = s'.opens a oRdonly ∧ dev'.writerCnt = s'.opens a oWronly ∧
      dev'.ref = dev'.readerCnt + dev'.writerCnt) (hhanded : ∀ j, s'.handedOut j → j < pipeFdNum)
    (hret : ∀ fd, s'.returned fd → ∃ j < pipeFdNum, fd = j + minFd ∧ (s'.devFd j).dev ≠ none)
    (hstart : ∀ j < pipeFdNum, (s'.devFd j).dev ≠ none → s'.devStartFd = minFd)
    (hfree : s'.usedAfterFree = s.usedAfterFree) : Inv minFd s' := by
  have hself : s'.devFd i = e := by rw [hfd, update_self]
  have hother : ∀ j, j ≠ i → s'.devFd j = s.devFd j := fun j hj => by
    rw [hfd, update_of_ne hj]
  have hblk := block_eq_some hblock
  have hnone : ∀ b, s'.block b ≠ none ↔ s.block b ≠ none := fun b => by
    by_cases hb : b = a <;> simp [hblock, hb, hdev]
  -- a device keeps its number
  have hnums : ∀ b n, (∃ d, s'.block b = some d ∧ d.num = n) ↔
      ∃ d, s.block b = some d ∧ d.num = n := fun b n => by
    by_cases hb : b = a <;> simp [hblk, hb, hdev, hnum]
  refine ⟨hlist ▸ h.nodup, fun b => (hnone b).trans (hlist ▸ h.listed b), fun b d hb => ?_,
    fun j b f hj hb => ?_, fun j => ?_, fun j b hj hb => ?_, fun n => ?_, fun b d hb => ?_,
    fun b b' d d' hb hb' hn => ?_, hhanded, hret, hstart, hfree.trans h.intact⟩
  · rcases (hblk b d).mp hb with ⟨rfl, ⟨⟩⟩ | ⟨hne, hb⟩
    · exact hcounts
    · rw [hopens b _ hne, hopens b _ hne]
      exact h.counts b d hb
  · by_cases hji : j = i
    · exact (he b f (hself ▸ hji ▸ hb)).2
    · exact h.flags j b f hj (by rw [← hother j hji, hb])
  · by_cases hji : j = i
    · subst hji
      simp [hbits, hself, hi, ne_none_iff_isSome]
    · rw [hbits, update_of_ne hji, hother j hji, h.bits]
  · refine (hnone b).mpr ?_
    by_cases hji : j = i
    · subst hji
      have hba := (he b e.openFlag (by rw [← hb, hself])).1
      simp [hba, hdev]
    · exact h.points j b hj (by rw [← hother j hji, hb])
  · rw [hbm]
    exact (h.nums n).trans (exists_congr fun b => (hnums b n).symm)
  · obtain ⟨d₁, hb₁, hn₁⟩ := (hnums b d.num).mp ⟨d, hb, rfl⟩
    exact hn₁ ▸ h.numLt b d₁ hb₁
  · obtain ⟨d₁, h₁, hn₁⟩ := (hnums b d.num).mp ⟨d, hb, rfl⟩
    obtain ⟨d₂, h₂, hn₂⟩ := (hnums b' d'.num).mp ⟨d', hb', rfl⟩
    exact h.numInj b b' d₁ d₂ h₁ h₂ (by rw [hn₁, hn₂, hn])

/-! ### Opening -/

theorem pipeDevFdAlloc_eq (h : s.FreeEntries 1) : ∃ i < pipeFdNum, s.devFdBitmap i = false ∧
    s.pipeDevFdAlloc = some ({ s with
      devFdBitmap := update s.devFdBitmap i true
      handedOut := update s.handedOut i true }, i) := by
  obtain ⟨k, hk⟩ := card_pos.mp h
  simp only [mem_filter, mem_range] at hk
  cases hfind : (List.range (32 * pipeDevFdBitmapLen)).find? fun i => !s.devFdBitmap i with
  | none =>
    have hlen : pipeFdNum ≤ 32 * pipeDevFdBitmapLen := by decide
    have := List.find?_eq_none.mp hfind k (List.mem_range.mpr (hk.1.trans_le hlen))
    simp [hk.2] at this
  | some i =>
    obtain ⟨hclear, -, hfirst⟩ := List.find?_range_eq_some.mp hfind
    have hik : i ≤ k := by
      by_contra hlt
      have := hfirst k (not_le.mp hlt)
      simp [hk.2] at this
    exact ⟨i, hik.trans_lt hk.1, by simpa using hclear, by simp [pipeDevFdAlloc, hfind]⟩

def opened (s : PipeTable) (minFd : ℤ) (i a f : ℕ) (dev : PipeDev) : PipeTable :=
  { s with
    devFdBitmap := update s.devFdBitmap i true
    handedOut := update s.handedOut i true
    devFd := update s.devFd i ⟨some a, f⟩
    devStartFd := minFd
    block := update s.block a (some { dev.countUp f with ringBuffer := true })
    returned := update s.returned (i + minFd) true }

theorem pipeOpen_eq (minFd : ℤ) (ringBuffer : Bool) (hfree : s.FreeEntries 1)
    (hpath : s.pipeDevFind path = some a)
    (hf : f = oRdonly ∨ f = oWronly) (hdev : s.block a = some dev)
    (hbuf : dev.ringBuffer ∨ ringBuffer) : ∃ i < pipeFdNum, s.devFdBitmap i = false ∧
      s.pipeOpen path f minFd ringBuffer = (s.opened minFd i a f dev, .ok (i + minFd)) := by
  obtain ⟨i, hi, hclear, halloc⟩ := pipeDevFdAlloc_eq hfree
  have hnull : path ≠ .null := by
    rintro rfl
    cases hpath
  refine ⟨i, hi, hclear, ?_⟩
  rw [pipeOpen, if_neg hnull, if_neg (by omega), hpath]
  simp only [halloc, modifyDev, hdev]
  rw [if_neg]
  · simp [opened]
  · rcases hbuf with hbuf | hbuf <;> simp [PipeDev.countUp, hbuf]

theorem Inv.opened (h : Inv minFd s) (hi : i < pipeFdNum) (hclear : s.devFdBitmap i = false)
    (hf : f = oRdonly ∨ f = oWronly) (hdev : s.block a = some dev) :
    Inv minFd (s.opened minFd i a f dev) := by
  have he : (s.devFd i).dev = none := by
    by_contra hne
    simp [(h.bits i).mpr ⟨hi, hne⟩] at hclear
  have hself : (s.opened minFd i a f dev).devFd i = ⟨some a, f⟩ := update_self ..
  have hother : ∀ j, j ≠ i → (s.opened minFd i a f dev).devFd j = s.devFd j := fun j hj =>
    update_of_ne hj _ _
  have hopens := opens_add hi he hself hother
  refine h.setEntry hdev rfl rfl rfl rfl rfl rfl hi (fun b f' heq => ?_)
    (fun b f' hb => ?_) ?_ (fun j hj => ?_) (fun fd hfd => ?_) (fun _ _ _ => rfl) rfl
  · cases heq
    exact ⟨rfl, hf⟩
  · rw [hopens, if_neg fun hba => hb hba.1, Nat.add_zero]
  · rw [hopens, hopens]
    have hle := opens_le s a oRdonly
    have hle' := opens_le s a oWronly
    obtain ⟨hr, hw, href⟩ := h.counts a dev hdev
    simp only [pipeFdNum, pipeDevNum] at hle hle'
    rcases hf with rfl | rfl
    all_goals
      simp [PipeDev.countUp, oRdonly, oWronly] at *
      omega
  · by_cases hji : j = i
    · exact hji ▸ hi
    · exact h.handed j (by simpa [PipeTable.opened, hji] using hj)
  · by_cases hfdi : fd = i + minFd
    · exact ⟨i, hi, hfdi, by simp [hself]⟩
    · obtain ⟨j, hj, hfd', hne⟩ := h.returned fd (by simpa [PipeTable.opened, hfdi] using hfd)
      exact ⟨j, hj, hfd', by rwa [hother j (by rintro rfl; exact hfdi hfd')]⟩

theorem Ready.opened (h : Ready s) : Ready (s.opened minFd i a f dev) := by
  intro b dev' hb
  by_cases hba : b = a
  · simp only [PipeTable.opened, hba, update_self, some.injEq] at hb
    rw [← hb]
  · exact h b dev' (by simpa [PipeTable.opened, hba] using hb)

theorem FreeEntries.opened (h : s.FreeEntries 2) (hi : i < pipeFdNum)
    (hclear : s.devFdBitmap i = false) : (s.opened minFd i a f dev).FreeEntries 1 := by
  have hcard : ((range pipeFdNum).filter fun j => s.devFdBitmap j = false).card =
      ((range pipeFdNum).filter fun j =>
        (s.opened minFd i a f dev).devFdBitmap j = false).card + 1 :=
    card_filter_add_one (mem_range.mpr hi) (by simp [PipeTable.opened]) hclear
    fun j _ hj => by
      simp [PipeTable.opened, hj]
  rw [FreeEntries] at h ⊢
  omega

theorem Inv.pipeOpen (h : Inv minFd s) (hr : Ready s)
    (hfree : s.pipeDevFind path ≠ none → s.FreeEntries 1) :
    Inv minFd (s.pipeOpen path f minFd ringBuffer).1 ∧
      Ready (s.pipeOpen path f minFd ringBuffer).1 := by
  by_cases hf : f = oRdonly ∨ f = oWronly
  · cases hpath : s.pipeDevFind path with
    | none =>
      rw [PipeTable.pipeOpen, hpath]
      split_ifs
      all_goals exact ⟨h, hr⟩
    | some a =>
      obtain ⟨dev, hdev⟩ : ∃ dev, s.block a = some dev := by
        cases path with
        | null => cases hpath
        | other => cases hpath
        | pipe =>
          obtain ⟨dev, hdev, -⟩ := map_eq_some_iff.mp (by simpa using List.find?_some hpath)
          exact ⟨dev, hdev⟩
      obtain ⟨i, hi, hclear, heq⟩ := pipeOpen_eq minFd ringBuffer
        (hfree (by simp [hpath])) hpath hf hdev (.inl (hr a dev hdev))
      rw [heq]
      exact ⟨h.opened hi hclear hf hdev, hr.opened⟩
  · rw [PipeTable.pipeOpen]
    split_ifs with hnull hflag
    · exact ⟨h, hr⟩
    · exact ⟨h, hr⟩
    · omega

/-! ### Closing -/

/-- The state after a descriptor was closed, before its device is looked at -/
def closed (s : PipeTable) (fd : ℤ) (i a : ℕ) (dev : PipeDev) : PipeTable :=
  { s with
    devFd := update s.devFd i {}
    returned := update s.returned fd false
    devFdBitmap := update s.devFdBitmap i false
    block := update s.block a (some (dev.countDown (s.devFd i).openFlag)) }

theorem Inv.closed (h : Inv minFd s) (hi : i < pipeFdNum) (he : s.devFd i = ⟨some a, f⟩)
    (hdev : s.block a = some dev) (hfd : fd = i + minFd) : Inv minFd (s.closed fd i a dev) := by
  have hother : ∀ j, j ≠ i → (s.closed fd i a dev).devFd j = s.devFd j := fun j hj =>
    update_of_ne hj _ _
  have hopens := opens_add (s := s.closed fd i a dev) hi (by simp [PipeTable.closed]) he
    fun j hj => (hother j hj).symm
  refine h.setEntry hdev rfl rfl rfl rfl rfl rfl hi nofun (fun b f' hb => ?_) ?_ h.handed
    (fun fd' hfd' => ?_) (fun j hj hne => ?_) rfl
  · rw [hopens b f', if_neg fun hba => hb hba.1, Nat.add_zero]
  · have hr' := hopens a oRdonly
    have hw' := hopens a oWronly
    have hle := opens_le s a oRdonly
    have hle' := opens_le s a oWronly
    obtain ⟨hr, hw, href⟩ := h.counts a dev hdev
    simp only [pipeFdNum, pipeDevNum] at hle hle'
    rcases h.flags i a f hi he with rfl | rfl
    all_goals
      simp [PipeDev.countDown, oRdonly, oWronly, he] at *
      omega
  · by_cases heq : fd' = fd
    · simp [PipeTable.closed, heq] at hfd'
    · obtain ⟨j, hj, hfd'', hne⟩ := h.returned fd' (by simpa [PipeTable.closed, heq] using hfd')
      exact ⟨j, hj, hfd'', by rwa [hother j (by rintro rfl; exact heq (hfd''.trans hfd.symm))]⟩
  · by_cases hji : j = i
    · simp [PipeTable.closed, hji] at hne
    · exact h.start j hj (by rwa [← hother j hji])

theorem Inv.pipeDevUnregister (h : Inv minFd s) (hdev : s.block a = some dev) (href : dev.ref = 0) :
    Inv minFd (s.pipeDevUnregister a) := by
  have hmem := (h.listed a).mp (by simp [hdev])
  have hnum := h.numLt a dev hdev
  obtain ⟨hr, hw, hsum⟩ := h.counts a dev hdev
  have hentry : ∀ i < pipeFdNum, (s.devFd i).dev ≠ some a := fun i hi he => by
    have hpos : i ∈ s.entries a := mem_filter.mpr ⟨mem_range.mpr hi, he⟩
    have hcard := card_entries h a
    have := card_pos.mpr ⟨i, hpos⟩
    omega
  rw [PipeTable.pipeDevUnregister, if_neg (not_not.mpr hmem), hdev]
  simp only [pipeDevNumFree, if_neg (not_le.mpr hnum)]
  have hblk : ∀ b d, update s.block a none b = some d ↔ b ≠ a ∧ s.block b = some d :=
    fun b d => by by_cases hb : b = a <;> simp [hb]
  refine ⟨h.nodup.erase a, fun b => ?_, fun b d hb => h.counts b d ((hblk b d).mp hb).2, h.flags,
    h.bits, fun j b hj hb => ?_, fun n => ?_, fun b d hb => h.numLt b d ((hblk b d).mp hb).2,
    fun b b' d d' hb hb' => h.numInj b b' d d' ((hblk b d).mp hb).2 ((hblk b' d').mp hb').2,
    h.handed, h.returned, h.start, h.intact⟩
  · rw [h.nodup.mem_erase_iff, ← h.listed]
    by_cases hb : b = a <;> simp [hb]
  · have hne : b ≠ a := by
      rintro rfl
      exact hentry j hj hb
    simpa [hne] using h.points j b hj hb
  · by_cases hn : n = dev.num
    · subst hn
      refine iff_of_false (by simp) ?_
      rintro ⟨b, d, hb, hn⟩
      obtain ⟨hne, hb⟩ := (hblk b d).mp hb
      exact hne (h.numInj b a d dev hb hdev hn)
    · refine Iff.trans (by simp [hn]) ((h.nums n).trans ?_)
      refine exists_congr fun b => exists_congr fun d => and_congr_left fun hd => ?_
      rw [hblk]
      refine (and_iff_right_of_imp fun hb => ?_).symm
      rintro rfl
      rw [hdev] at hb
      cases hb
      exact hn hd.symm

theorem pipeClose_eq (h : s.pipeFd2Dev fd = some (i, a)) (hdev : s.block a = some dev) :
    (s.pipeClose fd).1 = if (dev.countDown (s.devFd i).openFlag).ref = 0 then
      (s.closed fd i a dev).pipeDevUnregister a else s.closed fd i a dev := by
  rw [pipeClose, h]
  simp only [pipeDevFdFree, modifyDev, hdev, update_self, map_some, some.injEq]
  split_ifs <;> rfl

theorem pipeFd2Dev_eq (h : s.pipeFd2Dev fd = some (i, a)) :
    i < pipeFdNum ∧ (s.devFd i).dev = some a ∧ fd = i + s.devStartFd := by
  obtain ⟨i', hi', hrest⟩ := bind_eq_some_iff.mp h
  obtain ⟨a', ha', hret⟩ := bind_eq_some_iff.mp hrest
  cases hret
  rw [pipeFdDevGet] at hi'
  split_ifs at hi' with hlo hhi
  cases hi'
  exact ⟨by omega, ha', by omega⟩

theorem Inv.pipeClose (h : Inv minFd s) : Inv minFd (s.pipeClose fd).1 := by
  cases hget : s.pipeFd2Dev fd with
  | none =>
    rw [PipeTable.pipeClose, hget]
    exact h
  | some x =>
    obtain ⟨i, a⟩ := x
    obtain ⟨hi, ha, hfd⟩ := pipeFd2Dev_eq hget
    obtain ⟨dev, hdev⟩ := ne_none_iff_exists'.mp (h.points i a hi ha)
    have hentry : s.devFd i = ⟨some a, (s.devFd i).openFlag⟩ := by rw [← ha]
    have hclosed : Inv minFd (s.closed fd i a dev) :=
      h.closed hi hentry hdev (by rw [hfd, h.start i hi (by simp [ha])])
    rw [pipeClose_eq hget hdev]
    split_ifs with href
    · exact hclosed.pipeDevUnregister (update_self ..) href
    · exact hclosed

theorem Ready.pipeDevUnregister (h : Ready s) : Ready (s.pipeDevUnregister a) := by
  rw [PipeTable.pipeDevUnregister]
  split_ifs
  · cases hdev : s.block a with
    | none => exact h
    | some =>
      intro b d hb
      refine h b d ?_
      by_cases hba : b = a
      · simp [hba] at hb
      · simpa [hba] using hb
  · exact h

theorem Ready.pipeClose (h : Ready s) (hinv : Inv minFd s) : Ready (s.pipeClose fd).1 := by
  cases hget : s.pipeFd2Dev fd with
  | none =>
    rw [PipeTable.pipeClose, hget]
    exact h
  | some x =>
    obtain ⟨i, a⟩ := x
    obtain ⟨hi, ha, -⟩ := pipeFd2Dev_eq hget
    obtain ⟨dev, hdev⟩ := ne_none_iff_exists'.mp (hinv.points i a hi ha)
    have hclosed : Ready (s.closed fd i a dev) := fun b d hb => by
      by_cases hba : b = a
      · simp only [PipeTable.closed, hba, update_self, some.injEq] at hb
        rw [← hb]
        exact h a dev hdev
      · exact h b d (by simpa [PipeTable.closed, hba] using hb)
    rw [pipeClose_eq hget hdev]
    split_ifs
    · exact hclosed.pipeDevUnregister
    · exact hclosed

/-! ### Creating a device -/

def registered (s : PipeTable) (n a : ℕ) : PipeTable :=
  { s with
    devNumBitmap := update s.devNumBitmap n true
    block := update s.block a (some { num := n })
    devList := a :: s.devList }

theorem Inv.pipeDevRegister_cases (h : Inv minFd s) (call : PipeCall) :
    (∃ e, s.pipeDevRegister call = (s, .error e)) ∨
      ∃ n a, n < pipeDevNum ∧ s.devNumBitmap n = false ∧ call.creates ∧ call.devMem = some a ∧
        s.pipeDevRegister call = (s.registered n a, .ok n) := by
  cases hfind : (List.range pipeDevNum).find? fun n => !s.devNumBitmap n with
  | none => exact .inl ⟨_, by simp [pipeDevRegister, pipeDevNumAlloc, hfind]; rfl⟩
  | some n =>
    have hn := List.mem_range.mp (List.mem_of_find?_eq_some hfind)
    have hclear : s.devNumBitmap n = false := by simpa using List.find?_some hfind
    have halloc : s.pipeDevNumAlloc =
        some ({ s with devNumBitmap := update s.devNumBitmap n true }, n) := by
      simp [pipeDevNumAlloc, hfind]
    -- the number is given back
    have hback : pipeDevNumFree { s with devNumBitmap := update s.devNumBitmap n true } n =
        s := by
      have heq : update s.devNumBitmap n false = s.devNumBitmap :=
        update_eq_self_iff.mpr hclear.symm
      simp [pipeDevNumFree, not_le.mpr hn, heq]
    have hnew : s.devList.find? (fun a => (s.block a).map PipeDev.num = some n) = none := by
      refine List.find?_eq_none.mpr fun a _ hmap => ?_
      obtain ⟨dev, hdev, hnum⟩ := map_eq_some_iff.mp (of_decide_eq_true hmap)
      rw [(h.nums n).mpr ⟨a, dev, hdev, hnum⟩] at hclear
      cases hclear
    rw [pipeDevRegister, halloc]
    simp only [hback]
    cases hmem : call.devMem with
    | none => exact .inl ⟨_, rfl⟩
    | some a =>
      simp only [pipeDevFind, hnew, ne_eq, not_true_eq_false, if_false]
      split_ifs with hfail
      · exact .inl ⟨_, rfl⟩
      · refine .inr ⟨n, a, hn, hclear, ?_, rfl, rfl⟩
        simpa [PipeCall.creates, hmem] using hfail

theorem Inv.registered (h : Inv minFd s) (ha : s.block a = none) (hn : n < pipeDevNum)
    (hclear : s.devNumBitmap n = false) : Inv minFd (s.registered n a) := by
  have hnew : ∀ b dev, s.block b = some dev → dev.num ≠ n := fun b dev hb hnum => by
    rw [(h.nums n).mpr ⟨b, dev, hb, hnum⟩] at hclear
    cases hclear
  have hentry : ∀ i < pipeFdNum, (s.devFd i).dev ≠ some a := fun i hi he => h.points i a hi he ha
  have hblk := block_eq_some (show (s.registered n a).block = update s.block a _ from rfl)
  have hopens : ∀ f, s.opens a f = 0 := fun f => by
    rw [opens, card_eq_zero, filter_eq_empty_iff]
    intro i hi he
    exact hentry i (mem_range.mp hi) (by rw [he])
  refine ⟨List.nodup_cons.mpr ⟨fun hm => (h.listed a).mpr hm ha, h.nodup⟩, fun b => ?_,
    fun b d hb => ?_, h.flags, h.bits, fun j b hj hb => ?_, fun m => ?_, fun b d hb => ?_,
    fun b b' d d' hb hb' hnum => ?_, h.handed, h.returned, h.start, h.intact⟩
  · rw [PipeTable.registered, List.mem_cons, ← h.listed]
    by_cases hb : b = a <;> simp [hb]
  · rcases (hblk b d).mp hb with ⟨rfl, ⟨⟩⟩ | ⟨-, hb⟩
    · exact ⟨(hopens _).symm, (hopens _).symm, rfl⟩
    · exact h.counts b d hb
  · have hne : b ≠ a := by
      rintro rfl
      exact hentry j hj hb
    simpa [PipeTable.registered, hne] using h.points j b hj hb
  · by_cases hm : m = n
    · exact iff_of_true (by simp [PipeTable.registered, hm])
        ⟨a, _, (hblk a _).mpr (.inl ⟨rfl, rfl⟩), hm.symm⟩
    · refine Iff.trans (by simp [PipeTable.registered, hm]) ((h.nums m).trans ?_)
      refine exists_congr fun b => exists_congr fun d => and_congr_left fun hd => ?_
      rw [hblk]
      constructor
      · exact fun hb => .inr ⟨fun heq => by simp [heq, ha] at hb, hb⟩
      · rintro (⟨-, ⟨⟩⟩ | ⟨-, hb⟩)
        · exact absurd hd.symm hm
        · exact hb
  · rcases (hblk b d).mp hb with ⟨-, ⟨⟩⟩ | ⟨-, hb⟩
    · exact hn
    · exact h.numLt b d hb
  · rcases (hblk b d).mp hb with ⟨hba, ⟨⟩⟩ | ⟨-, hold⟩ <;>
      rcases (hblk b' d').mp hb' with ⟨hba', ⟨⟩⟩ | ⟨-, hold'⟩
    · rw [hba, hba']
    · exact absurd hnum.symm (hnew b' d' hold')
    · exact absurd hnum (hnew b d hold)
    · exact h.numInj b b' d d' hold hold' hnum

theorem pipeDevFind_registered : (s.registered n a).pipeDevFind (.pipe n) = some a := by
  simp [pipeDevFind, PipeTable.registered]

theorem pipeDevFind_opened (minFd : ℤ) (path : PipePath) (hdev : s.block a = some dev) :
    (s.opened minFd i a f dev).pipeDevFind path = s.pipeDevFind path := by
  have hnum : ∀ b, ((s.opened minFd i a f dev).block b).map PipeDev.num =
      (s.block b).map PipeDev.num := fun b => by
    by_cases hb : b = a <;> simp [PipeTable.opened, hb, hdev, PipeDev.countUp]
  cases path with
  | null => rfl
  | other => rfl
  | pipe =>
    simp only [pipeDevFind, hnum]
    rfl

theorem Inv.pipe (h : Inv minFd s) (hr : Ready s) (ha : Enabled s (.pipe call))
    (hc : Careful s (.pipe call)) :
    Inv minFd (s.pipe minFd call).1 ∧ Ready (s.pipe minFd call).1 := by
  rcases h.pipeDevRegister_cases call with ⟨e, he⟩ | ⟨n, a, hn, hclear, hcr, hmem, he⟩
  · rw [PipeTable.pipe, he]
    exact ⟨h, hr⟩
  · obtain ⟨hfree, hbuf⟩ := hc hcr
    have hreg := h.registered (ha a hmem) hn hclear
    have hdev : (s.registered n a).block a = some { num := n } := update_self ..
    have hfree' : (s.registered n a).FreeEntries 2 := hfree
    obtain ⟨i, hi, hbit, hopen⟩ := pipeOpen_eq minFd call.ringBuffer
      ((Nat.le_succ 1).trans hfree') pipeDevFind_registered (.inl rfl) hdev
      (.inr hbuf)
    have hinv := hreg.opened hi hbit (.inl rfl) hdev
    have hready : Ready ((s.registered n a).opened minFd i a oRdonly { num := n }) := by
      intro b d hb
      by_cases hba : b = a
      · simp only [PipeTable.opened, hba, update_self, some.injEq] at hb
        rw [← hb]
      · exact hr b d (by simpa [PipeTable.opened, PipeTable.registered, hba] using hb)
    have hfind := (pipeDevFind_opened (i := i) (f := oRdonly) minFd (.pipe n)
      hdev).trans pipeDevFind_registered
    obtain ⟨j, hj, hbit', hopen'⟩ := pipeOpen_eq minFd call.ringBuffer
      (hfree'.opened hi hbit) hfind (.inr rfl) (update_self ..) (.inr hbuf)
    rw [PipeTable.pipe, he]
    simp only [hopen]
    rw [hopen']
    exact ⟨hinv.opened hj hbit' (.inr rfl) (update_self ..), hready.opened⟩

/-! ## The runs -/

theorem Inv.step (h : Inv minFd s ∧ Ready s) (ha : Enabled s op) (hc : Careful s op) :
    Inv minFd (s.exec minFd op) ∧ Ready (s.exec minFd op) := by
  cases op with
  | pipe => exact h.1.pipe h.2 ha hc
  | pipeOpen => exact h.1.pipeOpen h.2 hc
  | pipeClose => exact ⟨h.1.pipeClose, h.2.pipeClose h.1⟩

/-- If entries are free for the descriptors, and memory for the buffer of a new pipe is found, the
counts, the table and the bitmap agree in every state. -/
theorem consistent_of_reaches (h : ((machine minFd).restrict Careful).Reaches s) :
    Consistent s := by
  have hinv : Inv minFd s ∧ Ready s := h.invariant (fun s hs => hs ▸ ⟨.init, nofun⟩)
    fun s op hinv ha => Inv.step hinv ha.1 ha.2
  exact hinv.1.consistent

instance (minFd : ℤ) (s : PipeTable) (op) : Decidable ((machine minFd).allowed s op) := by
  unfold machine Enabled
  dsimp only
  split <;> infer_instance

instance (s : PipeTable) (op) : Decidable (Careful s op) := by
  unfold Careful
  split <;> infer_instance

/-- A pipe whose read end is opened once more and then closed. -/
theorem consistent_of_reaches_reopened : ∃ s, ((machine 64).restrict Careful).Reaches s ∧
    s.block 1 = some ⟨0, true, 1, 1, 2⟩ ∧ s.returned 66 = true ∧ Consistent s := by
  have hr := Machine.Reaches.run (M := (machine 64).restrict Careful) (.start rfl)
    [.pipe { devMem := some 1 }, .pipeOpen (.pipe 0) oRdonly true, .pipeClose 64]
    (by decide +kernel)
  exact ⟨_, hr, by decide +kernel, by decide +kernel, consistent_of_reaches hr⟩

/-- With 64 descriptors open the next one has the index 64 and cannot be closed. Without memory for
the buffer an entry points to a device that was freed. -/
theorem index_out_of_range_and_dangling :
    (∃ s, (machine 64).Reaches s ∧ s.handedOut 64 = true ∧ s.returned 128 = true ∧
      (s.pipeClose 128).2 = .error .enodev) ∧
    ∃ s, (machine 64).Reaches s ∧ (s.devFd 0).dev = some 1 ∧ s.block 1 = none := by
  have hfull := Machine.Reaches.run (M := machine 64) (.start rfl)
    (.pipe { devMem := some 1 } :: List.replicate 63 (.pipeOpen (.pipe 0) oRdonly true))
    (by decide +kernel)
  have hmem := Machine.Reaches.run (M := machine 64) (.start rfl)
    [.pipe { devMem := some 1, ringBuffer := false }] (by decide +kernel)
  exact ⟨⟨_, hfull, by decide +kernel⟩,
    ⟨_, hmem, by decide +kernel⟩⟩

end PipeTable

end LiteOS.Posix
