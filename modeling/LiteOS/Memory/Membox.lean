import LiteOS.Lib.Chains
import LiteOS.Lib.Runs
import LiteOS.Memory.Allocator

/-!
# Static memory boxes

The model of `los_membox.c` without the list of boxes for exception information. A box is a header
of four words and blocks of equal size. The first word of a block links it to the next free block
or, while the block is allocated, holds a magic number with the ID of the task that allocated it.

`LOS_MemboxFree` is called with arbitrary addresses, and clients write to the blocks they hold.
-/

namespace LiteOS.Memory

open Lib Words Memory Nat

section

variable (m : Words) (pool : ℕ)

def osMemboxMagic : ℕ := 0xa55a5a00

def osMemboxMaxTaskID : ℕ := 2 ^ 8 - 1

def osMemboxNodeHeadSize : ℕ := 4

/-- `sizeof(LOS_MEMBOX_INFO)` -/
def memboxInfoSize : ℕ := 16

/-- `boxInfo->uwBlkSize` -/
def uwBlkSizeAt : ℕ := pool

/-- `boxInfo->uwBlkNum` -/
def uwBlkNumAt : ℕ := pool + 4

/-- `boxInfo->uwBlkCnt` -/
def uwBlkCntAt : ℕ := pool + 8

/-- `boxInfo->stFreeList.pstNext` -/
def stFreeListAt : ℕ := pool + 12

def losMemboxAligned (memAddr : ℕ) : ℕ := osMemAlign memAddr 4

/-- `OsMemBoxSetMagic`, for the ID that `LOS_CurTaskIDGet` returns -/
def osMemBoxSetMagic (node taskID : ℕ) : Words :=
  m.write node (osMemboxMagic ||| taskID % 2 ^ 8)

/-- `OsMemBoxCheckMagic`, for a given `LOSCFG_BASE_CORE_TSK_LIMIT` -/
def osMemBoxCheckMagic (tskLimit : ℕ) (m : Words) (node : ℕ) : Ret :=
  let taskID := m node &&& osMemboxMaxTaskID
  if taskID > tskLimit + 1 then .losNok
  else if m node = osMemboxMagic ||| taskID then .losOk
  else .losNok

def osCheckBoxMem (tskLimit : ℕ) (m : Words) (boxInfo node : ℕ) : Ret :=
  if m (uwBlkSizeAt boxInfo) = 0 then .losNok
  else
    let offset := u32 (node + 2 ^ 32 - (boxInfo + memboxInfoSize))
    if offset % m (uwBlkSizeAt boxInfo) ≠ 0 then .losNok
    else if offset / m (uwBlkSizeAt boxInfo) ≥ m (uwBlkNumAt boxInfo) then .losNok
    else osMemBoxCheckMagic tskLimit m node

/-- The loop of `LOS_MemboxInit` that links `n` blocks to their successors: the last node. -/
def linkBlocks (blkSize : ℕ) : ℕ → Words → ℕ → Words × ℕ
  | 0, m, node => (m, node)
  | n + 1, m, node =>
    linkBlocks blkSize n (m.write node (u32 (node + blkSize))) (u32 (node + blkSize))

def losMemboxInit (pool poolSize blkSize : ℕ) : Words × Ret :=
  if pool = 0 then (m, .losNok)
  else if blkSize = 0 then (m, .losNok)
  else if poolSize < memboxInfoSize then (m, .losNok)
  else
    let m := m.write (uwBlkSizeAt pool) (losMemboxAligned (blkSize + osMemboxNodeHeadSize))
    let m := m.write (uwBlkNumAt pool) ((poolSize - memboxInfoSize) / m (uwBlkSizeAt pool))
    let m := m.write (uwBlkCntAt pool) 0
    if m (uwBlkNumAt pool) = 0 then (m, .losNok)
    else
      let node := u32 (pool + memboxInfoSize)
      let m := m.write (stFreeListAt pool) node
      let (m, node) := linkBlocks (m (uwBlkSizeAt pool)) (m (uwBlkNumAt pool) - 1) m node
      (m.write node 0, .losOk)

/-- `LOS_MemboxAlloc`: the user address of the block, or null -/
def losMemboxAlloc (pool taskID : ℕ) : Words × ℕ :=
  if pool = 0 then (m, 0)
  else
    let nodeTmp := m (stFreeListAt pool)
    if nodeTmp ≠ 0 then
      let m := m.write (stFreeListAt pool) (m nodeTmp)
      let m := osMemBoxSetMagic m nodeTmp taskID
      (m.write (uwBlkCntAt pool) (u32 (m (uwBlkCntAt pool) + 1)), nodeTmp + osMemboxNodeHeadSize)
    else (m, 0)

def losMemboxFree (tskLimit : ℕ) (m : Words) (pool box : ℕ) : Words × Ret :=
  if pool = 0 ∨ box = 0 then (m, .losNok)
  else
    let node := u32 (box + 2 ^ 32 - osMemboxNodeHeadSize)
    if osCheckBoxMem tskLimit m pool node ≠ .losOk then (m, .losNok)
    else
      let m := m.write node (m (stFreeListAt pool))
      let m := m.write (stFreeListAt pool) node
      (m.write (uwBlkCntAt pool) (u32 (m (uwBlkCntAt pool) + 2 ^ 32 - 1)), .losOk)

end

/-- The memory that `LOS_MemboxInit` is given, and the block size asked for. No address in it looks
like the mark of a task's block. -/
structure BoxRegion (tskLimit : ℕ) where
  pool : ℕ
  poolSize : ℕ
  blkSize : ℕ
  fits : pool + poolSize ≤ 2 ^ 32
  small : blkSize < 2 ^ 31
  noMark : ∀ a, pool ≤ a → a < pool + poolSize → ∀ taskID ≤ tskLimit + 1,
    a ≠ osMemboxMagic ||| taskID % 2 ^ 8

/-- A box, and the user addresses that have been handed out. -/
structure Membox where
  mem : Words
  held : List ℕ

inductive MemboxOp
  | alloc (taskID : ℕ)
  | free (box : ℕ)
  /-- A client writes the word at `offset` of a block that it holds. -/
  | store (box offset value : ℕ)

namespace BoxRegion

variable {tskLimit i j x y : ℕ} (B : BoxRegion tskLimit)

def size : ℕ := (B.blkSize + 7) / 4 * 4

def num : ℕ := (B.poolSize - 16) / B.size

/-- Block `i`. -/
def block (i : ℕ) : ℕ := B.pool + 16 + i * B.size

theorem four_le_size : 4 ≤ B.size := by
  simp only [size]
  omega

theorem block_succ (i : ℕ) : B.block (i + 1) = B.block i + B.size := by
  simp only [block, Nat.add_mul]
  omega

theorem block_bounds (hi : i < B.num) :
    B.pool + 16 ≤ B.block i ∧ B.block i + B.size ≤ B.pool + B.poolSize ∧ B.block i < 2 ^ 32 := by
  have hmul : (i + 1) * B.size ≤ B.num * B.size := mul_le_mul_right _ hi
  have hnum : B.num * B.size ≤ B.poolSize - 16 := div_mul_le_self ..
  have h4 := B.four_le_size
  have hf := B.fits
  have hb := B.block_succ i
  simp only [block] at hb ⊢
  omega

theorem block_apart (hx : x < B.size) (hy : y < B.size)
    (h : B.block i + x = B.block j + y) : i = j ∧ x = y := by
  have hle : ∀ {i j : ℕ}, i < j → B.block i + B.size ≤ B.block j := fun {i j} hlt => by
    have hmul : (i + 1) * B.size ≤ j * B.size := Nat.mul_le_mul_right _ hlt
    simp only [block, Nat.add_mul] at hmul ⊢
    omega
  rcases Nat.lt_trichotomy i j with hlt | rfl | hlt
  · have := hle hlt
    omega
  · exact ⟨rfl, by omega⟩
  · have := hle hlt
    omega

end BoxRegion

namespace Membox

variable {tskLimit size pool poolSize blkSize k box offset value a v taskID node : ℕ}
  {B : BoxRegion tskLimit} {s : Membox} {m m' : Words} {held l : List ℕ} {i n : ℕ}

def exec (B : BoxRegion tskLimit) (s : Membox) : MemboxOp → Membox
  | .alloc taskID =>
    let (m, box) := losMemboxAlloc s.mem B.pool taskID
    ⟨m, if box = 0 then s.held else box :: s.held⟩
  | .free box => match losMemboxFree tskLimit s.mem B.pool box with
    | (m, .losOk) => ⟨m, s.held.erase box⟩
    | (m, .losNok) => ⟨m, s.held⟩
  | .store box offset value => { s with mem := s.mem.write (box + offset) value }

/-- Tasks have the IDs up to `LOSCFG_BASE_CORE_TSK_LIMIT + 1`, and `LOS_CurTaskIDGet` returns
`LOS_ERRNO_TSK_ID_INVALID` if no task runs. A client writes only to blocks that it holds. -/
def Enabled (B : BoxRegion tskLimit) (s : Membox) : MemboxOp → Prop
  | .alloc taskID => taskID ≤ tskLimit + 1 ∨ taskID = 0x02000207
  | .free box => box < 2 ^ 32
  | .store box offset _ => box ∈ s.held ∧ offset % 4 = 0 ∧ offset + 4 < B.size

/-- Runs after `LOS_MemboxInit`. -/
def machine (B : BoxRegion tskLimit) : Machine Membox MemboxOp where
  init s := ∃ m, losMemboxInit m B.pool B.poolSize B.blkSize = (s.mem, .losOk) ∧ s.held = []
  allowed := Enabled B
  step := exec B

instance (s : Membox) (op : MemboxOp) : Decidable ((machine B).allowed s op) := by
  cases op <;> unfold machine Enabled <;> infer_instance

/-- The low byte of the ID is one that `OsMemBoxCheckMagic` accepts. -/
def Marked (tskLimit : ℕ) (_ : Membox) : MemboxOp → Prop
  | .alloc taskID => taskID % 2 ^ 8 ≤ tskLimit + 1
  | _ => True

instance (s : Membox) : ∀ op, Decidable (Marked tskLimit s op)
  | .alloc _ => inferInstanceAs (Decidable (_ ≤ _))
  | .free _ | .store _ _ _ => inferInstanceAs (Decidable True)

/-- The successor that the first word of a free block gives. -/
def pstNext (m : Words) (node : ℕ) : Option ℕ := if m node = 0 then none else some (m node)

def FreeList (m : Words) (pool : ℕ) (l : List ℕ) : Prop :=
  Chain (pstNext m) (pstNext m (stFreeListAt pool)) l

/-- What holds in every run, with the free list `l`. -/
structure Inv (B : BoxRegion tskLimit) (m : Words) (held l : List ℕ) : Prop where
  pool_ne : B.pool ≠ 0
  blkSize : m (uwBlkSizeAt B.pool) = B.size
  blkNum : m (uwBlkNumAt B.pool) = B.num
  chain : FreeList m B.pool l
  blkCnt : m (uwBlkCntAt B.pool) = held.length
  total : held.length + l.length = B.num
  free : ∀ a ∈ l, ∃ i < B.num, a = B.block i
  user : ∀ box ∈ held, ∃ i < B.num, box = B.block i + 4
  nodup : held.Nodup
  split : ∀ i < B.num, B.block i ∈ l ↔ B.block i + 4 ∉ held
  mark : ∀ i < B.num, B.block i + 4 ∈ held →
    ∃ taskID ≤ tskLimit + 1, m (B.block i) = osMemboxMagic ||| taskID % 2 ^ 8

/-! ## Setting up -/

theorem linkBlocks_spec (node : ℕ) (hpos : 0 < size) (hfit : node + n * size < 2 ^ 32) :
    (linkBlocks size n m node).2 = node + n * size ∧
      (∀ j < n, (linkBlocks size n m node).1 (node + j * size) = node + (j + 1) * size) ∧
      ∀ a, (∀ j < n, a ≠ node + j * size) → (linkBlocks size n m node).1 a = m a := by
  induction n generalizing m node with
  | zero => exact ⟨by simp [linkBlocks], fun j hj => absurd hj (Nat.not_lt_zero j), fun _ _ => rfl⟩
  | succ n ih =>
    have hadd : ∀ j, node + size + j * size = node + (j + 1) * size := fun j => by
      rw [Nat.add_mul]
      omega
    obtain ⟨hnode, hlink, hout⟩ := ih (node + size) (hadd n ▸ hfit)
    have hnext : u32 (node + size) = node + size := Nat.mod_eq_of_lt (by have := hadd n; omega)
    simp only [linkBlocks, hnext]
    simp only [hadd] at hnode hlink hout
    refine ⟨hnode, fun j hj => ?_, fun a ha => ?_⟩
    · cases j with
      | zero =>
        rw [Nat.zero_mul, Nat.add_zero, Nat.zero_add, Nat.one_mul,
          hout node fun j _ => by
            have : 0 < (j + 1) * size := Nat.mul_pos j.succ_pos hpos
            omega]
        exact write_self ..
      | succ j => exact hlink j (by omega)
    · rw [hout a fun j hj => ha (j + 1) (by omega)]
      exact write_of_ne _ _ (by simpa using ha 0 n.succ_pos)

/-- A box as `LOS_MemboxInit` leaves it, with `n + 1` blocks. -/
structure SetUp (m : Words) (pool size n : ℕ) : Prop where
  blkSize : m (uwBlkSizeAt pool) = size
  blkNum : m (uwBlkNumAt pool) = n + 1
  blkCnt : m (uwBlkCntAt pool) = 0
  first : m (stFreeListAt pool) = pool + 16
  link : ∀ j < n, m (pool + 16 + j * size) = pool + 16 + (j + 1) * size
  last : m (pool + 16 + n * size) = 0

theorem SetUp.freeList (h : SetUp m pool size n) :
    FreeList m pool ((List.range' 0 (n + 1)).map (pool + 16 + · * size)) := by
  have hchain : ∀ i k, i + k = n → Chain (pstNext m) (some (pool + 16 + i * size))
      ((List.range' i (k + 1)).map (pool + 16 + · * size)) := fun i k => by
    induction k generalizing i with
    | zero =>
      rintro rfl
      exact ⟨rfl, if_pos h.last⟩
    | succ k ih =>
      intro hi
      refine ⟨rfl, ?_⟩
      rw [pstNext, h.link i (by omega), if_neg (by omega)]
      exact ih (i + 1) (by omega)
  rw [FreeList, pstNext, h.first, if_neg (by omega)]
  simpa using hchain 0 n (zero_add n)

theorem losMemboxInit_ok (hfits : pool + poolSize ≤ 2 ^ 32)
    (hsize : losMemboxAligned (blkSize + osMemboxNodeHeadSize) = size)
    (h : losMemboxInit m pool poolSize blkSize = (m', .losOk)) :
    pool ≠ 0 ∧ ∃ n, (poolSize - 16) / size = n + 1 ∧ SetUp m' pool size n := by
  have hread : ∀ num, ((m.write pool size).write (pool + 4) num).write (pool + 8) 0 (pool + 4) =
    num := fun num => by simp [write_apply]
  simp only [losMemboxInit, hsize, uwBlkSizeAt, uwBlkNumAt, uwBlkCntAt, stFreeListAt,
    write_self, memboxInfoSize, hread] at h
  split_ifs at h with hpool hblk hle hnum <;> cases h
  obtain ⟨n, hn⟩ := Nat.exists_eq_succ_of_ne_zero hnum
  have hpos : 0 < size := Nat.pos_of_ne_zero fun h0 => hnum (by rw [h0, Nat.div_zero])
  have hend : pool + 16 + n * size < 2 ^ 32 := by
    have := Nat.div_mul_le_self (poolSize - 16) size
    rw [hn, Nat.succ_mul] at this
    omega
  have hfirst : u32 (pool + 16) = pool + 16 := Nat.mod_eq_of_lt (by omega)
  rw [hfirst]
  generalize hm : (((m.write pool size).write (pool + 4) ((poolSize - 16) / size)).write
    (pool + 8) 0).write (pool + 12) (pool + 16) = m₀
  have hhead : m₀ pool = size ∧ m₀ (pool + 4) = n + 1 ∧ m₀ (pool + 8) = 0 ∧
    m₀ (pool + 12) = pool + 16 := by simp [← hm, write_apply, hn]
  obtain ⟨hlast, hlink, hout⟩ := linkBlocks_spec (pool + 16) hpos hend
  rw [hhead.1, hhead.2.1, Nat.add_sub_cancel, hlast]
  have hkeep : ∀ a < pool + 16, ((linkBlocks size n m₀ (pool + 16)).1.write
      (pool + 16 + n * size) 0) a = m₀ a := fun a ha => by
    rw [write_of_ne _ _ (by omega), hout a fun j _ => by omega]
  refine ⟨hpool, n, hn, ?_, ?_, ?_, ?_, fun j hj => ?_, write_self ..⟩
  · exact (hkeep _ (by simp [uwBlkSizeAt])).trans hhead.1
  · exact (hkeep _ (by simp [uwBlkNumAt])).trans hhead.2.1
  · exact (hkeep _ (by simp [uwBlkCntAt])).trans hhead.2.2.1
  · exact (hkeep _ (by simp [stFreeListAt])).trans hhead.2.2.2
  · have : (j + 1) * size ≤ n * size := Nat.mul_le_mul_right _ hj
    rw [write_of_ne _ _ (by rw [Nat.add_mul] at this; omega)]
    exact hlink j hj

theorem losMemboxAligned_apply (p : ℕ) : losMemboxAligned p = (p + 3) % 2 ^ 32 / 4 * 4 :=
  and_not32_low (k := 2) (mod_lt _ (by decide)) (by decide)

theorem losMemboxAligned_eq (B : BoxRegion tskLimit) :
    losMemboxAligned (B.blkSize + osMemboxNodeHeadSize) = B.size := by
  have := B.small
  rw [losMemboxAligned_apply, osMemboxNodeHeadSize, BoxRegion.size]
  omega

theorem header_ne_block (B : BoxRegion tskLimit) (hk : k < 16) : B.pool + k ≠ B.block i := by
  simp only [BoxRegion.block]
  omega

theorem Inv.init (h : (machine B).init s) :
    Inv B s.mem s.held ((List.range' 0 B.num).map B.block) := by
  obtain ⟨m, hinit, hheld⟩ := h
  obtain ⟨hpool, n, hn, hset⟩ := losMemboxInit_ok B.fits (losMemboxAligned_eq B) hinit
  have hnum : B.num = n + 1 := hn
  refine ⟨hpool, hset.blkSize, hset.blkNum.trans hnum.symm, ?_, ?_, ?_, ?_, ?_, ?_, ?_, ?_⟩
  · rw [hnum]
    exact hset.freeList
  · rw [hset.blkCnt, hheld]
    rfl
  · simp [hheld]
  · intro a ha
    obtain ⟨i, hi, rfl⟩ := List.mem_map.mp ha
    exact ⟨i, by simpa using hi, rfl⟩
  · simp [hheld]
  · simp [hheld]
  · intro i hi
    simp only [hheld, List.not_mem_nil, not_false_eq_true, iff_true]
    exact List.mem_map.mpr ⟨i, by simpa using hi, rfl⟩
  · simp [hheld]

/-! ## The sizes that the caller chooses -/

section Sizes

variable {pool poolSize blkSize size : ℕ}

/-- What the caller of `LOS_MemboxInit` relies on: the divisor is not zero where the number of
blocks is computed, and a box that was set up has blocks of the size asked for, apart from each
other and within the pool. -/
structure Honest (m : Words) (pool poolSize blkSize : ℕ) : Prop where
  divisor : pool ≠ 0 → memboxInfoSize ≤ poolSize →
    losMemboxAligned (blkSize + osMemboxNodeHeadSize) ≠ 0
  user : ∀ m', losMemboxInit m pool poolSize blkSize = (m', .losOk) →
    blkSize + osMemboxNodeHeadSize ≤ m' (uwBlkSizeAt pool)
  blocks : ∀ m', losMemboxInit m pool poolSize blkSize = (m', .losOk) →
    ∃ l, FreeList m' pool l ∧ l.length = m' (uwBlkNumAt pool) ∧
      (∀ node ∈ l, pool + memboxInfoSize ≤ node ∧
        node + m' (uwBlkSizeAt pool) ≤ pool + poolSize) ∧
      l.Pairwise fun node next => node + m' (uwBlkSizeAt pool) ≤ next

theorem SetUp.pairwise (h : SetUp m pool size n) :
    ((List.range' 0 (n + 1)).map (pool + 16 + · * size)).Pairwise fun node next =>
      node + m (uwBlkSizeAt pool) ≤ next := by
  rw [h.blkSize]
  refine List.pairwise_map.mpr ((List.pairwise_lt_range' ..).imp fun {i j} hij => ?_)
  have : (i + 1) * size ≤ j * size := Nat.mul_le_mul_right _ hij
  rw [Nat.add_mul] at this
  omega

theorem SetUp.inside (h : SetUp m pool size n) (hn : (poolSize - 16) / size = n + 1) :
    ∀ node ∈ (List.range' 0 (n + 1)).map (pool + 16 + · * size), pool + 16 ≤ node ∧
      node + m (uwBlkSizeAt pool) ≤ pool + poolSize := by
  intro node hnode
  obtain ⟨i, hi, rfl⟩ := List.mem_map.mp hnode
  have hle : (i + 1) * size ≤ (n + 1) * size := Nat.mul_le_mul_right _ (by simp at hi; omega)
  have hdiv := Nat.div_mul_le_self (poolSize - 16) size
  have hpos : poolSize - 16 ≠ 0 := fun h0 => by simp [h0] at hn
  rw [hn] at hdiv
  rw [h.blkSize]
  rw [Nat.add_mul] at hle
  omega

theorem losMemboxInit_snd (hpool : pool ≠ 0) (hblk : blkSize ≠ 0) (hlt : 16 ≤ poolSize)
    (hnum : (poolSize - 16) / losMemboxAligned (blkSize + osMemboxNodeHeadSize) ≠ 0) :
    (losMemboxInit m pool poolSize blkSize).2 = .losOk := by
  simp [losMemboxInit, hpool, hblk, uwBlkSizeAt, uwBlkNumAt, uwBlkCntAt, memboxInfoSize, hnum,
    not_lt.mpr hlt, write_apply]

/-- The block size wraps round for the last seven values. The divisor is zero for four of them;
for the other three blocks have no room for the user. -/
theorem honest_iff (hfits : pool + poolSize ≤ 2 ^ 32) (hblk : blkSize ≠ 0)
    (hlt : blkSize < 2 ^ 32) :
    Honest m pool poolSize blkSize ↔ pool = 0 ∨ poolSize < 16 ∨ blkSize + 7 < 2 ^ 32 ∨
      2 ^ 32 ≤ blkSize + 3 ∧ poolSize < 20 := by
  have hsize := losMemboxAligned_apply (blkSize + osMemboxNodeHeadSize)
  rw [osMemboxNodeHeadSize, Nat.add_assoc] at hsize
  constructor
  · intro h
    by_contra hc
    simp only [not_or, Nat.not_lt] at hc
    have hdiv := h.divisor hc.1 hc.2.1
    rw [osMemboxNodeHeadSize] at hdiv
    have hfour : losMemboxAligned (blkSize + osMemboxNodeHeadSize) = 4 := by
      rw [osMemboxNodeHeadSize]
      omega
    have hok : losMemboxInit m pool poolSize blkSize = (_, .losOk) :=
      Prod.ext rfl (losMemboxInit_snd hc.1 hblk hc.2.1 (by rw [hfour]; omega))
    obtain ⟨-, n, -, hset⟩ := losMemboxInit_ok hfits hfour hok
    have huser := h.user _ hok
    rw [hset.blkSize, osMemboxNodeHeadSize] at huser
    omega
  · intro h
    refine ⟨fun hpool hle => ?_, fun m' hm => ?_, fun m' hm => ?_⟩
    · rw [memboxInfoSize] at hle
      rw [osMemboxNodeHeadSize]
      omega
    · obtain ⟨hpool, n, hn, hset⟩ := losMemboxInit_ok hfits hsize hm
      rw [hset.blkSize, osMemboxNodeHeadSize]
      rcases h with h | h | h | ⟨h, hroom⟩
      · exact absurd h hpool
      · simp [Nat.sub_eq_zero_of_le h.le] at hn
      · omega
      · rw [show (blkSize + (4 + 3)) % 2 ^ 32 / 4 * 4 = 4 by omega] at hn
        omega
    · obtain ⟨hpool, n, hn, hset⟩ := losMemboxInit_ok hfits hsize hm
      exact ⟨_, hset.freeList, by simp [hset.blkNum], hset.inside hn, hset.pairwise⟩

theorem honest_page : Honest (fun _ => 0) 0x1000 0x1000 2 :=
  (honest_iff (by decide) (by decide) (by decide)).mpr (by decide)

/-- `LOS_MemboxInit` divides by zero for `blkSize = 0xfffffffc`. In a pool whose header ends with
the last address the first block has the address null: the box has 20 blocks and no free one. -/
theorem not_honest_wrapped : ¬Honest (fun _ => 0) 0x1000 0x1000 0xfffffffc ∧
    ¬Honest (fun _ => 0) 0xfffffff0 0x100 8 := by
  refine ⟨fun h => h.divisor (by decide) (by decide) (by decide), fun h => ?_⟩
  have hok : (losMemboxInit (fun _ => 0) 0xfffffff0 0x100 8).2 = .losOk := by decide +kernel
  have hnull : pstNext (losMemboxInit (fun _ => 0) 0xfffffff0 0x100 8).1
      (stFreeListAt 0xfffffff0) = none := by decide +kernel
  have hnum : (losMemboxInit (fun _ => 0) 0xfffffff0 0x100 8).1 (uwBlkNumAt 0xfffffff0) = 20 := by
    decide +kernel
  generalize hm : losMemboxInit (fun _ => 0) 0xfffffff0 0x100 8 = r at hok hnull hnum
  obtain ⟨l, hl, hlen, -⟩ := h.blocks r.1 (hm.trans (Prod.ext rfl hok))
  rw [FreeList, hnull] at hl
  cases l with
  | nil => exact absurd (hlen.trans hnum) (by decide)
  | cons => exact absurd hl.1 nofun

end Sizes

/-! ## Operations -/

theorem Inv.congr (h : Inv B m held l) (hh : ∀ k < 16, m' (B.pool + k) = m (B.pool + k))
    (hb : ∀ i < B.num, m' (B.block i) = m (B.block i)) : Inv B m' held l := by
  refine { h with
    blkSize := (hh 0 (by omega)).trans h.blkSize
    blkNum := (hh 4 (by omega)).trans h.blkNum
    chain := ?_
    blkCnt := ?_
    mark := fun i hi hheld => ?_ }
  · rw [FreeList, pstNext, stFreeListAt, hh 12 (by omega)]
    refine h.chain.congr fun a ha => ?_
    obtain ⟨i, hi, rfl⟩ := h.free a ha
    rw [pstNext, pstNext, hb i hi]
  · rw [uwBlkCntAt, hh 8 (by omega)]
    exact h.blkCnt
  · rw [hb i hi]
    exact h.mark i hi hheld

theorem Inv.store (h : Inv B m held l) (hbox : box ∈ held)
    (hlt : offset + 4 < B.size) : Inv B (m.write (box + offset) value) held l := by
  obtain ⟨i, hi, rfl⟩ := h.user box hbox
  have hb := (B.block_bounds hi).1
  refine h.congr (fun k hk => write_of_ne _ _ (by omega)) fun j hj =>
    write_of_ne _ _ fun he => ?_
  have := B.block_apart (by omega) (by omega)
    (show B.block i + (4 + offset) = B.block j + 0 by omega)
  omega

theorem Inv.pstNext_eq_none (h : Inv B m held []) : m (stFreeListAt B.pool) = 0 := by
  have hc : pstNext m (stFreeListAt B.pool) = none := h.chain
  by_contra hne
  simp [pstNext, hne] at hc

theorem Inv.head_eq (h : Inv B m held (a :: l)) : m (stFreeListAt B.pool) = a ∧ a ≠ 0 := by
  have hhead := h.chain.1
  by_cases hz : m (stFreeListAt B.pool) = 0
  · simp [pstNext, hz] at hhead
  · obtain rfl : m (stFreeListAt B.pool) = a := by simpa [pstNext, hz] using hhead
    exact ⟨rfl, hz⟩

theorem Inv.take (h : Inv B m held (a :: l)) (m' : Words)
    (hv : ∃ taskID ≤ tskLimit + 1, v = osMemboxMagic ||| taskID % 2 ^ 8)
    (hm : ∀ x, x ≠ B.pool + 8 → x ≠ B.pool + 12 → x ≠ a → m' x = m x) (ha : m' a = v)
    (hhead : m' (B.pool + 12) = m a) (hcnt : m' (B.pool + 8) = m (B.pool + 8) + 1) :
    Inv B m' ((a + 4) :: held) l := by
  obtain ⟨i, hi, rfl⟩ := h.free a (by simp)
  have hnodup := List.nodup_cons.mp h.chain.nodup
  have hnot := (h.split i hi).mp (by simp)
  have hblock : ∀ j, B.block j ≠ B.block i → m' (B.block j) = m (B.block j) := fun j hj =>
    hm _ (header_ne_block B (by omega)).symm (header_ne_block B (by omega)).symm hj
  refine ⟨h.pool_ne, ?_, ?_, ?_, ?_, ?_, fun x hx => h.free x (by simp [hx]), ?_, ?_, ?_, ?_⟩
  · exact (hm _ (by omega) (by omega) (header_ne_block B (k := 0) (by omega))).trans h.blkSize
  · exact (hm _ (by omega) (by omega) (header_ne_block B (by omega))).trans h.blkNum
  · rw [FreeList, pstNext, stFreeListAt, hhead]
    refine h.chain.2.congr fun x hx => ?_
    obtain ⟨j, hj, rfl⟩ := h.free x (by simp [hx])
    rw [pstNext, pstNext, hblock j fun he => hnodup.1 (he ▸ hx)]
  · rw [uwBlkCntAt, hcnt, List.length_cons]
    exact congrArg (· + 1) h.blkCnt
  · have := h.total
    rw [List.length_cons] at this ⊢
    omega
  · intro box hbox
    rcases List.mem_cons.mp hbox with rfl | hbox
    · exact ⟨i, hi, rfl⟩
    · exact h.user box hbox
  · exact List.nodup_cons.mpr ⟨hnot, h.nodup⟩
  · intro j hj
    by_cases hji : B.block j = B.block i
    · rw [hji]
      simp [hnodup.1]
    · rw [List.mem_cons, not_or, ← h.split j hj, List.mem_cons]
      simp [hji]
  · intro j hj hmem
    by_cases hji : B.block j = B.block i
    · rw [hji, ha]
      exact hv
    · rw [hblock j hji]
      exact h.mark j hj ((List.mem_cons.mp hmem).resolve_left (by omega))

theorem Inv.give (h : Inv B m held l) (m' : Words) (hi : i < B.num) (hheld : B.block i + 4 ∈ held)
    (hm : ∀ x, x ≠ B.pool + 8 → x ≠ B.pool + 12 → x ≠ B.block i → m' x = m x)
    (ha : m' (B.block i) = m (B.pool + 12)) (hhead : m' (B.pool + 12) = B.block i)
    (hcnt : m' (B.pool + 8) + 1 = m (B.pool + 8)) :
    Inv B m' (held.erase (B.block i + 4)) (B.block i :: l) := by
  have hnot : B.block i ∉ l := fun hl => (h.split i hi).mp hl hheld
  have hne : B.block i ≠ 0 := by
    have := (B.block_bounds hi).1
    omega
  have hblock : ∀ j, B.block j ≠ B.block i → m' (B.block j) = m (B.block j) := fun j hj =>
    hm _ (header_ne_block B (by omega)).symm (header_ne_block B (by omega)).symm hj
  refine ⟨h.pool_ne, ?_, ?_, ?_, ?_, ?_, ?_,
    fun box hbox => h.user box (List.mem_of_mem_erase hbox), h.nodup.erase _, ?_, ?_⟩
  · exact (hm _ (by omega) (by omega) (header_ne_block B (k := 0) (by omega))).trans h.blkSize
  · exact (hm _ (by omega) (by omega) (header_ne_block B (by omega))).trans h.blkNum
  · constructor
    · rw [pstNext, stFreeListAt, hhead, if_neg hne]
    · rw [pstNext, ha]
      refine h.chain.congr fun x hx => ?_
      obtain ⟨j, hj, rfl⟩ := h.free x hx
      rw [pstNext, pstNext, hblock j fun he => hnot (he ▸ hx)]
  · have := h.blkCnt
    rw [uwBlkCntAt] at this ⊢
    rw [List.length_erase_of_mem hheld]
    omega
  · have := h.total
    have hpos := List.length_pos_of_mem hheld
    rw [List.length_erase_of_mem hheld, List.length_cons]
    omega
  · intro x hx
    rcases List.mem_cons.mp hx with rfl | hx
    · exact ⟨i, hi, rfl⟩
    · exact h.free x hx
  · intro j hj
    by_cases hji : B.block j = B.block i
    · rw [hji]
      simp [h.nodup.not_mem_erase]
    · rw [List.mem_cons, List.mem_erase_of_ne (by omega), ← h.split j hj]
      simp [hji]
  · intro j hj hmem
    have hji : B.block j ≠ B.block i := fun he => h.nodup.not_mem_erase (he ▸ hmem)
    rw [hblock j hji]
    exact h.mark j hj (List.mem_of_mem_erase hmem)

theorem num_lt (B : BoxRegion tskLimit) : B.num < 2 ^ 32 := by
  have hmul : B.num * B.size ≤ B.poolSize - 16 := div_mul_le_self ..
  have h4 := mul_le_mul_left B.num B.four_le_size
  have hf := B.fits
  omega

theorem Inv.losMemboxAlloc (h : Inv B m held l) (ht : taskID % 2 ^ 8 ≤ tskLimit + 1) :
    (l = [] ∧ losMemboxAlloc m B.pool taskID = (m, 0)) ∨
      ∃ a l' m', l = a :: l' ∧ losMemboxAlloc m B.pool taskID = (m', a + 4) ∧
        Inv B m' ((a + 4) :: held) l' := by
  cases l with
  | nil =>
    left
    simp [losMemboxAlloc, h.pstNext_eq_none]
  | cons a l =>
    right
    obtain ⟨hhead, hne⟩ := h.head_eq
    obtain ⟨i, hi, rfl⟩ := h.free a (by simp)
    have h8 : B.pool + 8 ≠ B.block i := header_ne_block B (by omega)
    have h12 : B.pool + 12 ≠ B.block i := header_ne_block B (by omega)
    have hcnt : m (B.pool + 8) = held.length := h.blkCnt
    have htotal := h.total
    have hnum := num_lt B
    rw [List.length_cons] at htotal
    have hlt : m (B.pool + 8) + 1 < 2 ^ 32 := by omega
    have hhead : m (B.pool + 12) = B.block i := hhead
    refine ⟨B.block i, l, _, rfl, ?_, h.take
      (((m.write (B.pool + 12) (m (B.block i))).write (B.block i)
        (osMemboxMagic ||| taskID % 2 ^ 8)).write (B.pool + 8) (m (B.pool + 8) + 1))
      ⟨taskID % 2 ^ 8, ht, by rw [mod_mod]⟩ (fun x hx8 hx12 hxi => ?_) ?_ ?_ ?_⟩
    · rw [losMemboxAlloc, if_neg h.pool_ne]
      simp only [stFreeListAt, hhead, osMemBoxSetMagic, osMemboxNodeHeadSize, uwBlkCntAt]
      rw [if_pos hne, write_of_ne _ _ h8, write_of_ne _ _ (by omega), u32, mod_eq_of_lt hlt]
    · rw [write_of_ne _ _ hx8, write_of_ne _ _ hxi, write_of_ne _ _ hx12]
    · rw [write_of_ne _ _ h8.symm, write_self]
    · rw [write_of_ne _ _ (by omega), write_of_ne _ _ h12, write_self]
    · rw [write_self]

theorem osMemBoxCheckMagic_iff : osMemBoxCheckMagic tskLimit m node = .losOk ↔
    ∃ taskID ≤ tskLimit + 1, m node = osMemboxMagic ||| taskID % 2 ^ 8 := by
  have hmask : ∀ x, x &&& osMemboxMaxTaskID = x % 2 ^ 8 := fun x =>
    and_two_pow_sub_one_eq_mod x 8
  simp only [osMemBoxCheckMagic, hmask]
  constructor
  · intro h
    split_ifs at h with hgt heq
    exact ⟨m node % 2 ^ 8, by omega, by rw [mod_mod]; exact heq⟩
  · rintro ⟨taskID, ht, hm⟩
    have hmod : m node % 2 ^ 8 = taskID % 2 ^ 8 := by
      rw [hm, ← and_two_pow_sub_one_eq_mod, and_or_distrib_right,
        and_two_pow_sub_one_eq_mod (taskID % 2 ^ 8), mod_mod]
      simp [osMemboxMagic]
    rw [hmod, if_neg (by omega), if_pos hm]

theorem Inv.not_marked (h : Inv B m held l) (hl : B.block i ∈ l) :
    osMemBoxCheckMagic tskLimit m (B.block i) ≠ .losOk := by
  rw [ne_eq, osMemBoxCheckMagic_iff]
  rintro ⟨taskID, ht, hm⟩
  obtain ⟨pre, post, rfl, hc⟩ := Chain.suffix h.chain hl
  have hne : m (B.block i) ≠ 0 := by
    have := left_le_or (n := osMemboxMagic) (m := taskID % 2 ^ 8)
    rw [hm]
    simp only [osMemboxMagic] at this ⊢
    omega
  cases post with
  | nil => simp [pstNext, hne, Chain] at hc
  | cons b =>
    obtain rfl : m (B.block i) = b := by simpa [pstNext, hne] using hc.2.1
    obtain ⟨j, hj, hb⟩ := h.free (m (B.block i)) (by simp)
    obtain ⟨hlow, hhigh, -⟩ := B.block_bounds hj
    have h4 := B.four_le_size
    exact B.noMark (m (B.block i)) (by omega) (by omega) taskID ht hm

theorem Inv.osCheckBoxMem_iff (h : Inv B m held l) (hnode : node < 2 ^ 32) :
    osCheckBoxMem tskLimit m B.pool node = .losOk ↔
      ∃ i < B.num, node = B.block i ∧ B.block i + 4 ∈ held := by
  have h4 := B.four_le_size
  have hmarked : ∀ i < B.num, osMemBoxCheckMagic tskLimit m (B.block i) = .losOk ↔
      B.block i + 4 ∈ held := fun i hi => by
    constructor
    · intro hok
      by_contra hn
      exact h.not_marked ((h.split i hi).mpr hn) hok
    · exact fun hheld => osMemBoxCheckMagic_iff.mpr (h.mark i hi hheld)
  have hoffset : ∀ i < B.num, u32 (B.block i + 2 ^ 32 - (B.pool + memboxInfoSize)) = i * B.size :=
    fun i hi => by
      have := (B.block_bounds hi).2.2
      simp only [BoxRegion.block, memboxInfoSize, u32] at this ⊢
      omega
  simp only [osCheckBoxMem, h.blkSize, h.blkNum]
  rw [if_neg (by omega)]
  constructor
  · intro hok
    split_ifs at hok with hmod hnum
    -- the offset is that of block `i`
    have hdiv := Nat.div_add_mod (u32 (node + 2 ^ 32 - (B.pool + memboxInfoSize))) B.size
    rw [not_not.mp hmod, Nat.add_zero, Nat.mul_comm] at hdiv
    have hi := not_le.mp hnum
    generalize u32 (node + 2 ^ 32 - (B.pool + memboxInfoSize)) / B.size = i at hdiv hi
    have heq : node = B.block i := by
      have hb := (B.block_bounds hi).2.2
      simp only [BoxRegion.block, memboxInfoSize, u32] at hb hdiv ⊢
      omega
    subst heq
    exact ⟨i, hi, rfl, (hmarked i hi).mp hok⟩
  · rintro ⟨i, hi, rfl, hheld⟩
    have hpos : 0 < B.size := by omega
    rw [hoffset i hi, if_neg (by simp), if_neg (by rw [Nat.mul_div_cancel _ hpos]; omega)]
    exact (hmarked i hi).mpr hheld

theorem Inv.losMemboxFree (h : Inv B m held l) (hbox : box < 2 ^ 32) :
    (box ∉ held ∧ losMemboxFree tskLimit m B.pool box = (m, .losNok)) ∨
      ∃ i m', box = B.block i + 4 ∧ box ∈ held ∧
        losMemboxFree tskLimit m B.pool box = (m', .losOk) ∧
        Inv B m' (held.erase box) (B.block i :: l) := by
  by_cases hheld : box ∈ held
  · right
    obtain ⟨i, hi, rfl⟩ := h.user box hheld
    have hnode : u32 (B.block i + 4 + 2 ^ 32 - osMemboxNodeHeadSize) = B.block i := by
      simp only [osMemboxNodeHeadSize, u32]
      omega
    have hchk := (h.osCheckBoxMem_iff (B.block_bounds hi).2.2).mpr ⟨i, hi, rfl, hheld⟩
    have h8 : B.pool + 8 ≠ B.block i := header_ne_block B (by omega)
    have h12 : B.pool + 12 ≠ B.block i := header_ne_block B (by omega)
    have hcnt : m (B.pool + 8) = held.length := h.blkCnt
    have htotal := h.total
    have hnum := num_lt B
    have hpos := List.length_pos_of_mem hheld
    refine ⟨i, _, rfl, hheld, ?_, h.give
      (((m.write (B.block i) (m (B.pool + 12))).write (B.pool + 12) (B.block i)).write (B.pool + 8)
        (m (B.pool + 8) - 1)) hi hheld (fun x hx8 hx12 hxi => ?_) ?_ ?_ ?_⟩
    · have h0 : ¬(B.pool = 0 ∨ B.block i + 4 = 0) := by
        have := h.pool_ne
        omega
      rw [Memory.losMemboxFree, if_neg h0]
      simp only [hnode, hchk, ne_eq, not_true, if_false, stFreeListAt, uwBlkCntAt]
      rw [write_of_ne _ _ (by omega), write_of_ne _ _ h8, u32,
        show (m (B.pool + 8) + 2 ^ 32 - 1) % 2 ^ 32 = m (B.pool + 8) - 1 by omega]
    · rw [write_of_ne _ _ hx8, write_of_ne _ _ hx12, write_of_ne _ _ hxi]
    · rw [write_of_ne _ _ h8.symm, write_of_ne _ _ h12.symm, write_self]
    · simp (disch := omega) only [write_of_ne, write_self]
    · rw [write_self]
      omega
  · left
    refine ⟨hheld, ?_⟩
    simp only [Memory.losMemboxFree]
    split_ifs with h0 hchk
    · rfl
    · rfl
    · obtain ⟨i, hi, hnode, hin⟩ := (h.osCheckBoxMem_iff (mod_lt _ (by decide))).mp
        (not_not.mp hchk)
      refine absurd hin (fun hin => hheld ?_)
      obtain ⟨-, hb, -⟩ := B.block_bounds hi
      have hf := B.fits
      have h4 := B.four_le_size
      simp only [osMemboxNodeHeadSize] at hnode
      rwa [show box = B.block i + 4 by omega]

/-! ## The runs -/

structure Sound (B : BoxRegion tskLimit) (s : Membox) (l : List ℕ) : Prop where
  /-- `l` is the free list: it ends, and visits no block twice. -/
  chain : FreeList s.mem B.pool l
  nodup : l.Nodup
  blocks : ∀ a ∈ l, ∃ i < B.num, a = B.block i
  count : s.mem (uwBlkCntAt B.pool) + l.length = s.mem (uwBlkNumAt B.pool)
  blkNum : s.mem (uwBlkNumAt B.pool) = B.num
  /-- Every block is free or allocated, and not both. -/
  split : ∀ i < B.num, B.block i ∈ l ↔ B.block i + 4 ∉ s.held
  held : s.held.Nodup ∧ ∀ box ∈ s.held, ∃ i < B.num, box = B.block i + 4
  free : ∀ box < 2 ^ 32, (losMemboxFree tskLimit s.mem B.pool box).2 = .losOk ↔ box ∈ s.held
  rejected : ∀ box < 2 ^ 32, (losMemboxFree tskLimit s.mem B.pool box).2 ≠ .losOk →
    (losMemboxFree tskLimit s.mem B.pool box).1 = s.mem

theorem Inv.step {op : MemboxOp} (h : Inv B s.mem s.held l) (he : Enabled B s op)
    (hm : Marked tskLimit s op) :
    ∃ l', Inv B (exec B s op).mem (exec B s op).held l' := by
  cases op with
  | alloc =>
    rcases h.losMemboxAlloc hm with ⟨-, hx⟩ | ⟨a, l', m', -, hx, h'⟩
    · exact ⟨l, by simpa [exec, hx] using h⟩
    · exact ⟨l', by simpa [exec, hx] using h'⟩
  | free =>
    rcases h.losMemboxFree he with ⟨-, hx⟩ | ⟨i, m', -, -, hx, h'⟩
    · exact ⟨l, by simpa [exec, hx] using h⟩
    · exact ⟨_, by simpa [exec, hx] using h'⟩
  | store => exact ⟨l, h.store he.1 he.2.2⟩

theorem Inv.of_reaches (h : ((machine B).restrict (Marked tskLimit)).Reaches s) :
    ∃ l, Inv B s.mem s.held l :=
  h.invariant (I := fun s => ∃ l, Inv B s.mem s.held l) (fun _ hs => ⟨_, .init hs⟩)
    fun _ _ ⟨_, hi⟩ ha => hi.step ha.1 ha.2

/-- If the marks are accepted, then in every state the free list and the blocks that are held make
up the box, and `LOS_MemboxFree` takes back exactly the blocks that are held. -/
theorem partitioned_of_reaches (h : ((machine B).restrict (Marked tskLimit)).Reaches s) :
    ∃ l, Sound B s l := by
  obtain ⟨l, hi⟩ := Inv.of_reaches h
  refine ⟨l, hi.chain, hi.chain.nodup, hi.free, ?_, hi.blkNum, hi.split, ⟨hi.nodup, hi.user⟩,
    fun box hbox => ?_, fun box hbox hne => ?_⟩
  · rw [hi.blkCnt, hi.blkNum]
    exact hi.total
  · rcases hi.losMemboxFree hbox with ⟨hn, hx⟩ | ⟨i, m', -, hin, hx, -⟩
    · simp [hx, hn]
    · simp [hx, hin]
  · rcases hi.losMemboxFree hbox with ⟨-, hx⟩ | ⟨i, m', -, -, hx, -⟩
    · rw [hx]
    · simp [hx] at hne

def smallRegion : BoxRegion 5 where
  pool := 0x1000
  poolSize := 56
  blkSize := 8
  fits := by decide
  small := (by decide : 8 < 0x80000000)
  noMark a _ ha taskID _ he := by
    have := Nat.left_le_or (n := osMemboxMagic) (m := taskID % 2 ^ 8)
    simp only [osMemboxMagic] at this he
    omega

/-- Two blocks are allocated and the first of them is freed again. -/
theorem partitioned_of_reaches_freed :
    ∃ s, ((machine smallRegion).restrict (Marked 5)).Reaches s ∧ s.held = [0x1020] ∧
    s.mem (stFreeListAt 0x1000) = 0x1010 ∧ ∃ l, Sound smallRegion s l := by
  have hr := Machine.Reaches.run (M := (machine smallRegion).restrict (Marked 5))
    (s := ⟨(losMemboxInit (fun _ => 7) 0x1000 56 8).1, []⟩)
    (.start ⟨fun _ => 7, Prod.ext rfl (by decide +kernel), rfl⟩)
    [.alloc 1, .alloc 2, .store 0x1014 4 5, .free 0x1012, .free 0x1014] (by decide +kernel)
  exact ⟨_, hr, by decide +kernel, by decide +kernel, partitioned_of_reaches hr⟩

/-- A block is allocated before a task runs. Its mark has the low byte of
`LOS_ERRNO_TSK_ID_INVALID`, and `LOS_MemboxFree` refuses it. -/
theorem early_block_refused : ∃ s, (machine smallRegion).Reaches s ∧ s.held = [0x1014] ∧
    (losMemboxFree 5 s.mem 0x1000 0x1014).2 = .losNok := by
  have hr := Machine.Reaches.run (M := machine smallRegion)
    (s := ⟨(losMemboxInit (fun _ => 7) 0x1000 56 8).1, []⟩)
    (.start ⟨fun _ => 7, Prod.ext rfl (by decide +kernel), rfl⟩) [.alloc 0x02000207]
    (by decide +kernel)
  exact ⟨_, hr, by decide +kernel, by decide +kernel⟩

end Membox

end LiteOS.Memory
