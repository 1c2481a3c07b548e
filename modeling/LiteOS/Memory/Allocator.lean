import LiteOS.Memory.Node

/-!
# The dynamic memory allocator

Each function follows the source function of the same name and threads the memory through.
`none` is a computation that does not return: `LOS_Panic`, or a walk of a free list that does
not end. A null pointer is the address `0`.
-/

namespace LiteOS.Memory

open Lib

inductive Ret
  | losOk
  | losNok
deriving DecidableEq, Repr

section

variable (s : MemSystem) (m : Words) (pool : ℕ)

def osMemWaterUsedRecord (pool size : ℕ) : Words :=
  let m := m.write (curUsedSizeAt pool) (u32 (m (curUsedSizeAt pool) + size))
  if m (waterLineAt pool) < m (curUsedSizeAt pool) then
    m.write (waterLineAt pool) (m (curUsedSizeAt pool))
  else m

/-! ### Free lists -/

/-- The list walk of `OsMemFindCurSuitableBlock`: first node of at least `size`, or null. -/
def findSuitable (m : Words) (size : ℕ) : ℕ → ℕ → Option ℕ
  | 0, _ => none
  | fuel + 1, node =>
    if node = 0 then some 0 else if size ≤ m (sizeAndFlagAt node) then some node
    else findSuitable m size fuel (m (freeNextAt node))

/-- A list within the pool is shorter than the pool, which bounds the walk. -/
def osMemFindCurSuitableBlock (pool index size : ℕ) : Option ℕ :=
  findSuitable m size (m (totalSizeAt pool)) (m (freeListAt pool index))

def osMemNotEmptyIndexGet (m : Words) (pool index : ℕ) : ℕ :=
  let mask := m (freeListBitmapAt pool (index >>> 5))
  let mask := mask &&& not32 (1 <<< (index &&& osMemBitmapMask) - 1)
  if mask ≠ 0 then osMemFfs (BitVec.ofNat 32 mask) + (index &&& not32 osMemBitmapMask)
  else osMemFreeListCount

/-- The loop over the remaining bitmap words; there are no more than `fuel` of them. -/
def findBitmapWord (m : Words) (pool : ℕ) : ℕ → ℕ → Option ℕ
  | 0, _ => none
  | fuel + 1, index =>
    if index < osMemFreeListCount then let mask := m (freeListBitmapAt pool (index >>> 5))
      if mask ≠ 0 then some (osMemFfs (BitVec.ofNat 32 mask) + index)
      else findBitmapWord m pool fuel (index + 32)
    else none

/-- The list to search for `size`: the first one to try, and the class of a large request,
which is searched node by node when no higher list has a node. -/
def startIndex (size : ℕ) : ℕ × ℕ :=
  let fl := osMemFlGet size
  if fl < osMemSmallBucketCount then (fl, osMemFreeListCount)
  else
    let sl := osMemSlGet size fl
    let curIndex := u32 (((fl - osMemSmallBucketCount) <<< osMemSli) + sl + osMemSmallBucketCount)
    (curIndex + 1, curIndex)

/-- The node found, or null, and the index of the list it is on. -/
def osMemFindNextSuitableBlock (pool size : ℕ) : Option (ℕ × ℕ) :=
  let (index, curIndex) := startIndex size
  let tmp := osMemNotEmptyIndexGet m pool index
  if tmp ≠ osMemFreeListCount then some (m (freeListAt pool tmp), tmp)
  else
    match findBitmapWord m pool osMemBitmapWords (osMemAlign (index + 1) 32) with
    | some index => some (m (freeListAt pool index), index)
    | none =>
      if curIndex = osMemFreeListCount then some (0, index)
      else do
        let node ← osMemFindCurSuitableBlock m pool curIndex size
        return (node, curIndex)

def osMemSetFreeListBit (pool index : ℕ) : Words :=
  let a := freeListBitmapAt pool (index >>> 5)
  m.write a (m a ||| 1 <<< (index &&& 0x1f))

def osMemClearFreeListBit (pool index : ℕ) : Words :=
  let a := freeListBitmapAt pool (index >>> 5)
  m.write a (m a &&& not32 (1 <<< (index &&& 0x1f)))

def osMemListAdd (pool listIndex node : ℕ) : Words :=
  let firstNode := m (freeListAt pool listIndex)
  let m := if firstNode ≠ 0 then m.write (freePrevAt firstNode) node else m
  let m := m.write (freePrevAt node) 0
  let m := m.write (freeNextAt node) firstNode
  let m := m.write (freeListAt pool listIndex) node
  osMemSetFreeListBit m pool listIndex

def osMemListDelete (pool listIndex node : ℕ) : Words :=
  if node = m (freeListAt pool listIndex) then
    let m := m.write (freeListAt pool listIndex) (m (freeNextAt node))
    if m (freeNextAt node) = 0 then osMemClearFreeListBit m pool listIndex
    else m.write (freePrevAt (m (freeNextAt node))) 0
  else
    let m := m.write (freeNextAt (m (freePrevAt node))) (m (freeNextAt node))
    if m (freeNextAt node) ≠ 0 then
      m.write (freePrevAt (m (freeNextAt node))) (m (freePrevAt node))
    else m

def osMemFreeNodeAdd (pool node : ℕ) : Option Words :=
  let index := osMemFreeListIndexGet (m (sizeAndFlagAt node))
  if osMemFreeListCount ≤ index then none else some (osMemListAdd m pool index node)

def osMemFreeNodeDelete (pool node : ℕ) : Words :=
  osMemListDelete m pool (osMemFreeListIndexGet (m (sizeAndFlagAt node))) node

def osMemFreeNodeGet (pool size : ℕ) : Option (Words × ℕ) := do
  let (firstNode, index) ← osMemFindNextSuitableBlock m pool size
  if firstNode = 0 then return (m, 0)
  return (osMemListDelete m pool index firstNode, firstNode)

/-! ### Splitting and merging -/

def osMemMergeNode (node : ℕ) : Words :=
  let prev := m (prevAt node)
  let m := m.write (sizeAndFlagAt prev) (m (sizeAndFlagAt prev) + m (sizeAndFlagAt node))
  let nextNode := node + m (sizeAndFlagAt node)
  m.write (prevAt nextNode) (m (prevAt node))

/-- Cut `allocNode` down to `allocSize`; the rest, joined with a free successor, is listed. -/
def osMemSplitNode (pool allocNode allocSize : ℕ) : Option Words :=
  let newFreeNode := allocNode + allocSize
  let m := m.write (prevAt newFreeNode) allocNode
  let m := m.write (sizeAndFlagAt newFreeNode) (m (sizeAndFlagAt allocNode) - allocSize)
  let m := m.write (sizeAndFlagAt allocNode) allocSize
  let nextNode := osMemNextNode m newFreeNode
  let m := m.write (prevAt nextNode) newFreeNode
  let m :=
    if osMemNodeGetUsedFlag (m (sizeAndFlagAt nextNode)) = 0 then
      osMemMergeNode (osMemFreeNodeDelete m pool nextNode) nextNode
    else m
  osMemFreeNodeAdd m pool newFreeNode

/-- The common use of splitting: only if the rest can stand as a free node. -/
def splitIfLarge (pool node allocSize : ℕ) : Option Words :=
  if allocSize + osMemMinLeftSize ≤ m (sizeAndFlagAt node) then
    osMemSplitNode m pool node allocSize
  else some m

/-! ### Pool set-up -/

/-- Clear `n` words from `a` on. -/
def clearWords (m : Words) (a : ℕ) : ℕ → Words
  | 0 => m
  | n + 1 => (clearWords m a n).write (a + 4 * n) 0

/-- `memset_s` of the header, which clears nothing for a `destMax` above `SECUREC_MEM_MAX_LEN`. -/
def clearHead (m : Words) (pool size : ℕ) : Words :=
  if size ≤ 0x7fffffff then clearWords m pool (osMemPoolHeadSize / 4) else m

def osMemPoolInit (m : Words) (pool size : ℕ) : Option Words := do
  let m := clearHead m pool size
  let m := m.write pool pool
  let m := m.write (totalSizeAt pool) size
  let m := m.write (attrAt pool) (m (attrAt pool) &&& not32 (2 ||| 1))
  let newNode := osMemFirstNode pool
  let m := m.write (sizeAndFlagAt newNode) (size - osMemPoolHeadSize - osMemNodeHeadSize)
  let m := m.write (prevAt newNode) (osMemEndNode pool size)
  let m ← osMemFreeNodeAdd m pool newNode
  let endNode := osMemEndNode pool size
  let m := m.write (sizeAndFlagAt endNode) 0
  let m := m.write (prevAt endNode) newNode
  let m := m.write (sizeAndFlagAt endNode) (osMemNodeSetUsedFlag (m (sizeAndFlagAt endNode)))
  let m := m.write (curUsedSizeAt pool) (osMemPoolHeadSize + osMemNodeHeadSize)
  return m.write (waterLineAt pool) (m (curUsedSizeAt pool))

def osMemPoolDeInit (m : Words) (pool size : ℕ) : Words := clearHead m pool size

/-- The registry walk of `OsMemPoolAdd`: the last registered pool, or `none` on a conflict. -/
def poolConflict (m : Words) (pool size : ℕ) : ℕ → ℕ → ℕ → Option (Option ℕ)
  | 0, _, _ => none
  | fuel + 1, curPool, nextPool =>
    if nextPool = 0 then some (some curPool) else
      let poolEnd := u32 (nextPool + m (totalSizeAt nextPool))
      if (pool ≤ nextPool ∧ nextPool < u32 (pool + size)) ∨
          (pool < poolEnd ∧ poolEnd ≤ u32 (pool + size)) then some none
      else poolConflict m pool size fuel nextPool (m (nextPoolAt nextPool))

/-- The allocator's memory with the registry head `g_poolHead`. -/
structure MemSystem where
  mem : Words
  poolHead : ℕ

/-- Every registered pool has its own address, so the address space bounds the walk. -/
def registryBound : ℕ := 2 ^ 32

def osMemPoolAdd (s : MemSystem) (pool size : ℕ) : Option (MemSystem × Ret) := do
  match ← poolConflict s.mem pool size registryBound s.poolHead s.poolHead with
  | none => return (s, .losNok)
  | some curPool =>
    let s := if s.poolHead = 0 then { s with poolHead := pool }
      else { s with mem := s.mem.write (nextPoolAt curPool) pool }
    return ({ s with mem := s.mem.write (nextPoolAt pool) 0 }, .losOk)

def losMemInit (s : MemSystem) (pool size : ℕ) : Option (MemSystem × Ret) := do
  if pool = 0 ∨ size ≤ osMemMinPoolSize then return (s, .losNok)
  if pool &&& (osMemAlignSize - 1) ≠ 0 ∨ size &&& (osMemAlignSize - 1) ≠ 0 then
    return (s, .losNok)
  let m ← osMemPoolInit s.mem pool size
  let (s, ret) ← osMemPoolAdd { s with mem := m } pool size
  if ret ≠ .losOk then return ({ s with mem := osMemPoolDeInit s.mem pool size }, .losNok)
  return (s, .losOk)

/-- The walk of `OsMemPoolDelete`: the pool before `pool`, or `none` if `pool` is not registered. -/
def poolBefore (m : Words) (pool : ℕ) : ℕ → ℕ → ℕ → Option (Option ℕ)
  | 0, _, _ => none
  | fuel + 1, curPool, nextPool =>
    if nextPool = 0 then some none else if pool = nextPool then some (some curPool)
    else poolBefore m pool fuel nextPool (m (nextPoolAt nextPool))

def osMemPoolDelete (s : MemSystem) (pool : ℕ) : Option (MemSystem × Ret) := do
  if pool = s.poolHead then
    return ({ s with poolHead := s.mem (nextPoolAt s.poolHead) }, .losOk)
  match ← poolBefore s.mem pool registryBound s.poolHead s.poolHead with
  | none => return (s, .losNok)
  | some curPool =>
    return ({ s with mem := s.mem.write (nextPoolAt curPool) (s.mem (nextPoolAt pool)) }, .losOk)

def losMemDeInit (s : MemSystem) (pool : ℕ) : Option (MemSystem × Ret) := do
  if pool = 0 then return (s, .losNok)
  if s.mem pool ≠ pool ∨ s.mem (totalSizeAt pool) ≤ osMemMinPoolSize then return (s, .losNok)
  let (s, ret) ← osMemPoolDelete s pool
  if ret ≠ .losOk then return (s, .losNok)
  return ({ s with mem := osMemPoolDeInit s.mem pool (s.mem (totalSizeAt pool)) }, .losOk)

/-- The pools that `LOS_MemPoolList` prints. -/
def poolList (m : Words) : ℕ → ℕ → List ℕ
  | 0, _ => []
  | fuel + 1, nextPool =>
    if nextPool = 0 then [] else nextPool :: poolList m fuel (m (nextPoolAt nextPool))

def losMemPoolList : List ℕ := poolList s.mem registryBound s.poolHead

/-! ### Allocation -/

def osMemCreateUsedNode (addr : ℕ) : ℕ := addr + osMemNodeHeadSize

def osMemAlloc (pool size : ℕ) : Option (Words × ℕ) := do
  let allocSize := osMemAlign (size + osMemNodeHeadSize) osMemAlignSize
  let (m, allocNode) ← osMemFreeNodeGet m pool allocSize
  if allocNode = 0 then return (m, 0)
  let m ← splitIfLarge m pool allocNode allocSize
  let m := m.write (sizeAndFlagAt allocNode) (osMemNodeSetUsedFlag (m (sizeAndFlagAt allocNode)))
  let m := osMemWaterUsedRecord m pool (osMemNodeGetSize (m (sizeAndFlagAt allocNode)))
  return (m, osMemCreateUsedNode allocNode)

def losMemAlloc (pool size : ℕ) : Option (Words × ℕ) :=
  if pool = 0 ∨ size = 0 then some (m, 0)
  else
    let size := if size < osMemMinAllocSize then osMemMinAllocSize else size
    if osMemNodeGetUsedFlag size ≠ 0 ∨ osMemNodeGetAlignedFlag size ≠ 0 then some (m, 0)
    else osMemAlloc m pool size

def losMemAllocAlign (pool size boundary : ℕ) : Option (Words × ℕ) :=
  if pool = 0 ∨ size = 0 ∨ boundary = 0 ∨ ¬ osMemIsPowTwo boundary ∨
      ¬ osMemIsAligned boundary 4 then some (m, 0)
  else
    let size := if size < osMemMinAllocSize then osMemMinAllocSize else size
    if 2 ^ 32 - 1 - size < boundary - 4 then some (m, 0)
    else
      let useSize := u32 (u32 (size + boundary) + 2 ^ 32 - 4)
      if osMemNodeGetUsedFlag useSize ≠ 0 ∨ osMemNodeGetAlignedFlag useSize ≠ 0 then some (m, 0)
      else do
        let (m, ptr) ← osMemAlloc m pool useSize
        let alignedPtr := osMemAlign ptr boundary
        if ptr = alignedPtr then return (m, ptr)
        -- the gap is stored right below the aligned pointer and checked by free
        let gapSize := alignedPtr - ptr
        let allocNode := ptr - osMemNodeHeadSize
        let m := m.write (sizeAndFlagAt allocNode)
          (osMemNodeSetAlignedFlag (m (sizeAndFlagAt allocNode)))
        return (m.write (alignedPtr - 4) (osMemSetGapsizeAlignedFlag gapSize), alignedPtr)

/-! ### Release -/

def osMemAddrValidCheck (pool addr : ℕ) : Prop :=
  pool + osMemPoolHeadSize ≤ addr ∧ addr < pool + m (totalSizeAt pool)
deriving Decidable

def osMemIsNodeValid (node startNode endNode pool : ℕ) : Prop :=
  (startNode ≤ node ∧ node ≤ endNode) ∧
    (osMemNodeGetUsedFlag (m (sizeAndFlagAt node)) ≠ 0 ∨
      osMemAddrValidCheck m pool (m (prevAt node)))
deriving Decidable

def osMemCheckUsedNode (pool node : ℕ) : Ret :=
  let startNode := osMemFirstNode pool
  let endNode := osMemEndNode pool (m (totalSizeAt pool))
  if ¬ osMemIsNodeValid m node startNode endNode pool then .losNok
  else if osMemNodeGetUsedFlag (m (sizeAndFlagAt node)) = 0 then .losNok
  else
    let nextNode := osMemNextNode m node
    if ¬ osMemIsNodeValid m nextNode startNode endNode pool then .losNok
    else if m (prevAt nextNode) ≠ node then .losNok
    else if node ≠ startNode ∧ (¬ osMemIsNodeValid m (m (prevAt node)) startNode endNode pool ∨
        osMemNextNode m (m (prevAt node)) ≠ node) then .losNok
    else .losOk

/-- Join the freed node with a free predecessor; the node that now stands for it. -/
def mergePrev (pool node : ℕ) : Words × ℕ :=
  let preNode := m (prevAt node)
  if preNode ≠ 0 ∧ osMemNodeGetUsedFlag (m (sizeAndFlagAt preNode)) = 0 then
    (osMemMergeNode (osMemFreeNodeDelete m pool preNode) node, preNode)
  else (m, node)

def mergeNext (pool node : ℕ) : Words :=
  let nextNode := osMemNextNode m node
  if nextNode ≠ 0 ∧ osMemNodeGetUsedFlag (m (sizeAndFlagAt nextNode)) = 0 then
    osMemMergeNode (osMemFreeNodeDelete m pool nextNode) nextNode
  else m

def osMemFree (pool node : ℕ) : Option (Words × Ret) :=
  if osMemCheckUsedNode m pool node ≠ .losOk then some (m, .losNok)
  else do
    let m := m.write (curUsedSizeAt pool)
      (u32 (m (curUsedSizeAt pool) + 2 ^ 32 - osMemNodeGetSize (m (sizeAndFlagAt node))))
    let m := m.write (sizeAndFlagAt node) (osMemNodeGetSize (m (sizeAndFlagAt node)))
    let (m, node) := mergePrev m pool node
    let m := mergeNext m pool node
    let m ← osMemFreeNodeAdd m pool node
    return (m, .losOk)

/-- The start of the block's payload, or null when the word before `ptr` is malformed. -/
def osGetRealPtr (pool ptr : ℕ) : ℕ :=
  let gapSize := m (ptr - 4)
  if osMemGapsizeCheck gapSize then 0
  else if osMemGetGapsizeAlignedFlag gapSize ≠ 0 then
    let gapSize := osMemGetAlignedGapsize gapSize
    if gapSize &&& (osMemAlignSize - 1) ≠ 0 ∨
        u32 (ptr + 2 ^ 32 + 2 ^ 32 - osMemNodeHeadSize - pool) < gapSize then 0
    else ptr - gapSize
  else ptr

def losMemFree (pool ptr : ℕ) : Option (Words × Ret) :=
  if pool = 0 ∨ ptr = 0 ∨ ¬ osMemIsAligned pool 4 ∨ ¬ osMemIsAligned ptr 4 then some (m, .losNok)
  else
    let ptr := osGetRealPtr m pool ptr
    if ptr = 0 then some (m, .losNok) else osMemFree m pool (ptr - osMemNodeHeadSize)

/-! ### Reallocation -/

def osMemReAllocSmaller (pool allocSize node nodeSize : ℕ) : Option Words :=
  let setUsed (m : Words) :=
    m.write (sizeAndFlagAt node) (osMemNodeSetUsedFlag (m (sizeAndFlagAt node)))
  let m := m.write (sizeAndFlagAt node) nodeSize
  if allocSize + osMemMinLeftSize ≤ nodeSize then do
    let m ← osMemSplitNode m pool node allocSize
    let m := m.write (curUsedSizeAt pool)
      (u32 (m (curUsedSizeAt pool) + 2 ^ 32 - (nodeSize - allocSize)))
    return setUsed m
  else some (setUsed m)

def osMemMergeNodeForReAllocBigger (pool allocSize node nodeSize nextNode : ℕ) : Option Words := do
  let m := m.write (sizeAndFlagAt node) nodeSize
  let m := osMemMergeNode (osMemFreeNodeDelete m pool nextNode) nextNode
  let m ← splitIfLarge m pool node allocSize
  let m := m.write (sizeAndFlagAt node) (osMemNodeSetUsedFlag (m (sizeAndFlagAt node)))
  return osMemWaterUsedRecord m pool (osMemNodeGetSize (m (sizeAndFlagAt node)) - nodeSize)

/-- The secure copy of a whole number of words, refused when the destination is too small or the
ranges overlap. That `memcpy_s` then clears the destination is left out: the caller releases it. -/
def memcpyS (dest destMax src count : ℕ) : Option Words :=
  if destMax < count ∨ (dest < src + count ∧ src < dest + count) then none
  else some (m.copy dest src (count / 4))

def osMemRealloc (pool ptr node size : ℕ) : Option (Words × ℕ) := do
  let allocSize := osMemAlign (size + osMemNodeHeadSize) osMemAlignSize
  let nodeSize := osMemNodeGetSize (m (sizeAndFlagAt node))
  if allocSize ≤ nodeSize then
    let m ← osMemReAllocSmaller m pool allocSize node nodeSize
    return (m, ptr)
  let nextNode := osMemNextNode m node
  if osMemNodeGetUsedFlag (m (sizeAndFlagAt nextNode)) = 0 ∧
      allocSize ≤ m (sizeAndFlagAt nextNode) + nodeSize then
    let m ← osMemMergeNodeForReAllocBigger m pool allocSize node nodeSize nextNode
    return (m, ptr)
  let (m, tmpPtr) ← osMemAlloc m pool size
  if tmpPtr = 0 then return (m, 0)
  match memcpyS m tmpPtr size ptr (nodeSize - osMemNodeHeadSize) with
  | none =>
    let (m, _) ← losMemFree m pool tmpPtr
    return (m, 0)
  | some m =>
    let (m, _) ← osMemFree m pool node
    return (m, tmpPtr)

def losMemRealloc (pool ptr size : ℕ) : Option (Words × ℕ) :=
  if pool = 0 ∨ osMemNodeGetUsedFlag size ≠ 0 ∨ osMemNodeGetAlignedFlag size ≠ 0 then some (m, 0)
  else if ptr = 0 then losMemAlloc m pool size
  else if size = 0 then do
    let (m, _) ← losMemFree m pool ptr
    return (m, 0)
  else
    let size := if size < osMemMinAllocSize then osMemMinAllocSize else size
    let ptr := osGetRealPtr m pool ptr
    if ptr = 0 then some (m, 0)
    else
      let node := ptr - osMemNodeHeadSize
      if osMemCheckUsedNode m pool node ≠ .losOk then some (m, 0)
      else osMemRealloc m pool ptr node size

end

end LiteOS.Memory
