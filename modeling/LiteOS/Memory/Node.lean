import LiteOS.Lib.Words
import LiteOS.Memory.SizeClass

/-!
# Pool header and node headers

Everything the allocator keeps lies in one memory of 32-bit words: the pool header
(`struct OsMemPoolHead`, 944 bytes: five info words, seven bitmap words, 223 list heads and
the registry link), and in front of each block the node header (`ptr.prev` and
`sizeAndFlag`, 8 bytes). A free node continues with the two links of its free list.

The configuration is the default one of a 32-bit build: water line on, several pools, no
integrity magic, no task ids in headers, no regions, no expansion.
-/

namespace LiteOS.Memory

open Lib Nat

/-- Bitwise complement of a `UINT32`. -/
def not32 (n : ℕ) : ℕ := 2 ^ 32 - 1 - n

def osMemNodeUsedFlag : ℕ := 1 <<< 31
def osMemNodeAlignedFlag : ℕ := 1 <<< 30

/-- The leak and last flags are zero in this configuration. -/
def osMemNodeAlignedAndUsedFlag : ℕ := osMemNodeUsedFlag ||| osMemNodeAlignedFlag

def osMemNodeGetAlignedFlag (sizeAndFlag : ℕ) : ℕ := sizeAndFlag &&& osMemNodeAlignedFlag
def osMemNodeSetAlignedFlag (sizeAndFlag : ℕ) : ℕ := sizeAndFlag ||| osMemNodeAlignedFlag
def osMemNodeGetUsedFlag (sizeAndFlag : ℕ) : ℕ := sizeAndFlag &&& osMemNodeUsedFlag
def osMemNodeSetUsedFlag (sizeAndFlag : ℕ) : ℕ := sizeAndFlag ||| osMemNodeUsedFlag
def osMemNodeGetSize (sizeAndFlag : ℕ) : ℕ := sizeAndFlag &&& not32 osMemNodeAlignedAndUsedFlag

def osMemGapsizeUsedFlag : ℕ := 0x80000000
def osMemGapsizeAlignedFlag : ℕ := 0x40000000
def osMemGetAlignedGapsize (gapsize : ℕ) : ℕ := gapsize &&& not32 osMemGapsizeAlignedFlag
def osMemGetGapsizeAlignedFlag (gapsize : ℕ) : ℕ := gapsize &&& osMemGapsizeAlignedFlag
def osMemSetGapsizeAlignedFlag (gapsize : ℕ) : ℕ := gapsize ||| osMemGapsizeAlignedFlag
def osMemGetGapsizeUsedFlag (gapsize : ℕ) : ℕ := gapsize &&& osMemGapsizeUsedFlag

/-- A gap word carries only the aligned flag; a node header in its place carries the used
flag. Both flags together are an error. -/
def osMemGapsizeCheck (gapsize : ℕ) : Prop :=
  osMemGetGapsizeAlignedFlag gapsize ≠ 0 ∧ osMemGetGapsizeUsedFlag gapsize ≠ 0
deriving Decidable

/-- `sizeof(UINTPTR)`. -/
def osMemAlignSize : ℕ := 4

def osMemIsPowTwo (value : ℕ) : Prop := value &&& (value - 1) = 0

/-- Round `p` up to the power of two `alignSize`, in 32-bit arithmetic. -/
def osMemAlign (p alignSize : ℕ) : ℕ := u32 (p + alignSize - 1) &&& not32 (alignSize - 1)

def osMemIsAligned (a b : ℕ) : Prop := a &&& (b - 1) = 0

instance (value : ℕ) : Decidable (osMemIsPowTwo value) := inferInstanceAs (Decidable (_ = _))
instance (a b : ℕ) : Decidable (osMemIsAligned a b) := inferInstanceAs (Decidable (_ = _))

/-- `sizeof(struct OsMemUsedNodeHead)`. -/
def osMemNodeHeadSize : ℕ := 8

/-- `sizeof(struct OsMemPoolHead)`. -/
def osMemPoolHeadSize : ℕ := 20 + 4 * osMemBitmapWords + 4 * osMemFreeListCount + 4

def osMemMinPoolSize : ℕ := osMemNodeHeadSize + osMemPoolHeadSize

/-- `sizeof(struct OsMemFreeNodeHead)`. -/
def osMemMinLeftSize : ℕ := 16

def osMemMinAllocSize : ℕ := 8

/-! ### Addresses of the fields -/

/-- `info.totalSize`. -/
def totalSizeAt (pool : ℕ) : ℕ := pool + 4

/-- `info.attr`. -/
def attrAt (pool : ℕ) : ℕ := pool + 8

/-- `info.waterLine`. -/
def waterLineAt (pool : ℕ) : ℕ := pool + 12

/-- `info.curUsedSize`. -/
def curUsedSizeAt (pool : ℕ) : ℕ := pool + 16

/-- `freeListBitmap[word]`. -/
def freeListBitmapAt (pool word : ℕ) : ℕ := pool + 20 + 4 * word

/-- `freeList[index]`. -/
def freeListAt (pool index : ℕ) : ℕ := pool + 20 + 4 * osMemBitmapWords + 4 * index

def nextPoolAt (pool : ℕ) : ℕ := pool + 20 + 4 * osMemBitmapWords + 4 * osMemFreeListCount

/-- `node->ptr.prev`. -/
def prevAt (node : ℕ) : ℕ := node

def sizeAndFlagAt (node : ℕ) : ℕ := node + 4

def freePrevAt (node : ℕ) : ℕ := node + 8

/-- Forward pointer of a free node within its free list. -/
def freeNextAt (node : ℕ) : ℕ := node + 12

def osMemNextNode (m : Words) (node : ℕ) : ℕ :=
  node + osMemNodeGetSize (m (sizeAndFlagAt node))

def osMemFirstNode (pool : ℕ) : ℕ := pool + osMemPoolHeadSize
def osMemEndNode (pool size : ℕ) : ℕ := pool + size - osMemNodeHeadSize

/-! ### Bits of header words -/

variable {n p k a b : ℕ}

theorem testBit_not32 (h : n < 2 ^ 32) (i : ℕ) :
    (not32 n).testBit i = (decide (i < 32) && !n.testBit i) := by
  rw [not32, Nat.sub_sub, Nat.add_comm 1 n]
  exact Nat.testBit_two_pow_sub_succ h i

variable {x k : ℕ}

theorem and_not32_low (hx : x < 2 ^ 32) (hk : k ≤ 32) :
    x &&& not32 (2 ^ k - 1) = x / 2 ^ k * 2 ^ k := by
  have hlt : 2 ^ k - 1 < 2 ^ 32 := by
    have := Nat.pow_le_pow_right (n := 2) (by omega) hk
    omega
  apply Nat.eq_of_testBit_eq
  intro i
  rw [Nat.testBit_and, testBit_not32 hlt, Nat.testBit_two_pow_sub_one, Nat.mul_comm,
    Nat.testBit_two_pow_mul, Nat.testBit_div_two_pow]
  by_cases hi : i < k
  · simp [hi]
  · have hik : i - k + k = i := by omega
    by_cases h32 : i < 32
    · simp [h32, Nat.le_of_not_lt hi]
    · have : x.testBit i = false :=
        Nat.testBit_lt_two_pow (hx.trans_le (Nat.pow_le_pow_right (by omega) (by omega)))
      simp [this, hik]

theorem or_flag (h : x < 2 ^ k) : x ||| 1 <<< k = x + 2 ^ k := by
  have hor := Nat.two_pow_add_eq_or_of_lt h 1
  rw [Nat.mul_one] at hor
  rw [Nat.shiftLeft_eq, Nat.one_mul, Nat.or_comm, ← hor, Nat.add_comm]

theorem and_flag_eq_zero (h : x.testBit k = false) : x &&& 1 <<< k = 0 := by
  apply eq_of_testBit_eq
  intro i
  rw [testBit_and, shiftLeft_eq, one_mul, testBit_two_pow, zero_testBit]
  by_cases hi : k = i
  · simp [← hi, h]
  · simp [hi]

theorem and_flag_ne_zero (h : x.testBit k) : x &&& 1 <<< k ≠ 0 := by
  intro h0
  have := congrArg (fun n => n.testBit k) h0
  simp [h] at this

theorem osMemNodeGetSize_eq (w : ℕ) : osMemNodeGetSize w = w % 2 ^ 30 := by
  have h : not32 osMemNodeAlignedAndUsedFlag = 2 ^ 30 - 1 := by decide
  rw [osMemNodeGetSize, h, and_two_pow_sub_one_eq_mod]

variable {w : ℕ}

theorem usedFlag_eq_zero_iff : osMemNodeGetUsedFlag w = 0 ↔ w.testBit 31 = false := by
  constructor
  · intro h
    by_contra hc
    exact and_flag_ne_zero (by simpa using hc) h
  · exact and_flag_eq_zero

theorem alignedFlag_eq_zero_iff : osMemNodeGetAlignedFlag w = 0 ↔ w.testBit 30 = false := by
  constructor
  · intro h
    by_contra hc
    exact and_flag_ne_zero (by simpa using hc) h
  · exact and_flag_eq_zero

theorem gapsizeUsedFlag_eq_zero (h : w.testBit 31 = false) : osMemGetGapsizeUsedFlag w = 0 := by
  rw [osMemGetGapsizeUsedFlag, show osMemGapsizeUsedFlag = 1 <<< 31 by decide]
  exact and_flag_eq_zero h

theorem gapsizeAlignedFlag_eq_zero_iff :
    osMemGetGapsizeAlignedFlag w = 0 ↔ w.testBit 30 = false := by
  rw [osMemGetGapsizeAlignedFlag, show osMemGapsizeAlignedFlag = 1 <<< 30 by decide]
  exact alignedFlag_eq_zero_iff

/-- A `UINT32` without either flag is below `2 ^ 30`, the range of the size field. -/
theorem flags_eq_zero_iff (h : w < 2 ^ 32) :
    (osMemNodeGetUsedFlag w = 0 ∧ osMemNodeGetAlignedFlag w = 0) ↔ w < 2 ^ 30 := by
  rw [usedFlag_eq_zero_iff, alignedFlag_eq_zero_iff, testBit_eq_decide_div_mod_eq,
    testBit_eq_decide_div_mod_eq]
  simp only [decide_eq_false_iff_not]
  omega

theorem osMemAlign_two_pow (hk : k ≤ 32) (h : p + 2 ^ k - 1 < 2 ^ 32) :
    osMemAlign p (2 ^ k) = (p + 2 ^ k - 1) / 2 ^ k * 2 ^ k := by
  rw [osMemAlign, u32, mod_eq_of_lt h, and_not32_low h hk]

theorem osMemAlign_four (h : p + 3 < 2 ^ 32) :
    osMemAlign p osMemAlignSize = (p + 3) / 4 * 4 := osMemAlign_two_pow (k := 2) (by omega) h

theorem osMemIsAligned_four : osMemIsAligned a 4 ↔ a % 4 = 0 := by
  rw [osMemIsAligned, show (4 : ℕ) - 1 = 2 ^ 2 - 1 from rfl, and_two_pow_sub_one_eq_mod]

theorem exists_pow_of_isPowTwo (h0 : b ≠ 0) (h : osMemIsPowTwo b) : ∃ k, b = 2 ^ k := by
  refine ⟨Nat.log2 b, ?_⟩
  by_contra hne
  have hle := Nat.log2_self_le h0
  have hlt : b < 2 ^ (Nat.log2 b + 1) := Nat.lt_log2_self
  rw [Nat.pow_succ] at hlt
  -- below a power of two the leading bit survives the decrement
  have hset : ∀ c, 2 ^ Nat.log2 b ≤ c → c < 2 ^ Nat.log2 b * 2 → c.testBit (Nat.log2 b) := by
    intro c h1 h2
    rw [Nat.testBit_eq_decide_div_mod_eq, decide_eq_true_eq]
    have : c / 2 ^ Nat.log2 b = 1 := by
      apply Nat.div_eq_of_lt_le <;> omega
    rw [this]
  have hand := congrArg (fun n => n.testBit (Nat.log2 b)) h
  simp only [Nat.testBit_and, Nat.zero_testBit, Bool.and_eq_false_iff] at hand
  rcases hand with hand | hand
  · rw [hset b hle hlt] at hand
    cases hand
  · rw [hset (b - 1) (by omega) (by omega)] at hand
    cases hand

end LiteOS.Memory
