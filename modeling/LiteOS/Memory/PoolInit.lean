import LiteOS.Memory.Interface

/-!
# Setting up a pool

`LOS_MemInit` clears the pool header, makes the rest one free node in front of the end node,
and enters the pool in the registry. The registry link is written into the header of the last
registered pool, so that pool must not lie inside the new one.
-/

namespace LiteOS.Memory

open Lib Words

variable {P : Region} {m m' : Words} {cs : List Chunk} {s s' : MemSystem} {a n x i size pool c : ℕ}

theorem clearWords_outside (h : ∀ i < n, x ≠ a + 4 * i) : clearWords m a n x = m x := by
  induction n with
  | zero => rfl
  | succ n ih =>
    rw [clearWords, write_of_ne _ _ (h n (by omega))]
    exact ih fun i hi => h i (by omega)

theorem clearWords_inside (h : i < n) : clearWords m a n (a + 4 * i) = 0 := by
  induction n with
  | zero => omega
  | succ n ih =>
    rw [clearWords, write_apply]
    split_ifs with he
    · rfl
    · exact ih (by omega)

theorem clearHead_eq (h : size ≤ 0x7fffffff ∨ m = fun _ => 0) :
    clearHead m pool size = clearWords m pool 236 := by
  rw [clearHead]
  split_ifs with hle
  · rfl
  · obtain rfl := h.resolve_left hle
    funext x
    generalize 236 = n
    induction n with
    | zero => rfl
    | succ n ih =>
      rw [clearWords, write_apply, ← ih]
      split_ifs <;> rfl

/-- The heap reads the words of its region only, and not the registry link. -/
theorem Heap.congr_region (h : Heap P m cs)
    (hm : ∀ x, P.pool ≤ x → x < P.pool + P.size → x ≠ P.pool + 940 → m' x = m x) :
    Heap P m' cs := by
  obtain ⟨hl, L, hL⟩ := h
  have hP := P.geometry
  refine ⟨hl.congr (hm _ (by omega) (by omega) (by omega)) (hm _ (by omega) (by omega) (by omega))
    (hm _ (by omega) (by omega) (by omega)) (fun c hc => ?_) (fun c hc hg => ?_), L,
    hL.congr (fun _ _ => Iff.rfl) (fun x h1 h2 => hm x (by omega) (by omega) (by omega))
    fun c hc _ => ?_⟩
  · have := hl.bounds hc
    exact ⟨hm _ (by omega) (by omega) (by omega), hm _ (by omega) (by omega) (by omega)⟩
  · have := hl.bounds hc
    have := (hl.gaps c hc hg).2.1
    exact hm _ (by omega) (by omega) (by omega)
  · have := hl.bounds hc
    exact ⟨hm _ (by omega) (by omega) (by omega), hm _ (by omega) (by omega) (by omega)⟩

def initHeader (m : Words) (pool size : ℕ) : Words :=
  let m := clearHead m pool size
  let m := m.write pool pool
  let m := m.write (totalSizeAt pool) size
  let m := m.write (attrAt pool) (m (attrAt pool) &&& not32 (2 ||| 1))
  let m := m.write (sizeAndFlagAt (osMemFirstNode pool))
    (size - osMemPoolHeadSize - osMemNodeHeadSize)
  m.write (prevAt (osMemFirstNode pool)) (osMemEndNode pool size)

theorem initHeader_apply (m : Words) (pool size : ℕ) : ∀ x, initHeader m pool size x =
    if x = pool + 944 then pool + size - 8 else if x = pool + 948 then size - 952
    else if x = pool + 8 then clearHead m pool size (pool + 8) &&& not32 3
    else if x = pool + 4 then size else if x = pool then pool else clearHead m pool size x := by
  intro x
  have hsize : size - osMemPoolHeadSize - osMemNodeHeadSize = size - 952 := by
    rw [show osMemPoolHeadSize = 944 from rfl, show osMemNodeHeadSize = 8 from rfl]
    omega
  simp only [initHeader, hsize, show osMemFirstNode pool = pool + 944 from rfl,
    show osMemEndNode pool size = pool + size - 8 from rfl, prevAt, sizeAndFlagAt, attrAt,
    totalSizeAt, write_apply]
  split_ifs <;> first | rfl | omega

def initEnd (m : Words) (pool size : ℕ) : Words :=
  let endNode := osMemEndNode pool size
  let m := m.write (sizeAndFlagAt endNode) 0
  let m := m.write (prevAt endNode) (osMemFirstNode pool)
  let m := m.write (sizeAndFlagAt endNode) (osMemNodeSetUsedFlag (m (sizeAndFlagAt endNode)))
  let m := m.write (curUsedSizeAt pool) (osMemPoolHeadSize + osMemNodeHeadSize)
  m.write (waterLineAt pool) (m (curUsedSizeAt pool))

theorem initEnd_apply (m : Words) (pool : ℕ) (h : 952 ≤ size) : ∀ x, initEnd m pool size x =
      if x = pool + 12 ∨ x = pool + 16 then 952 else if x = pool + size - 4 then 2 ^ 31
      else if x = pool + size - 8 then pool + 944 else m x := by
  intro x
  have hflag : osMemNodeSetUsedFlag 0 = 2 ^ 31 := by decide
  have hlast : pool + size - 8 + 4 = pool + size - 4 := by omega
  have hread : ((m.write (pool + size - 4) 0).write (pool + size - 8) (pool + 944))
      (pool + size - 4) = 0 := by
    simp (disch := omega) only [write_of_ne, write_self]
  simp only [initEnd, show osMemFirstNode pool = pool + 944 from rfl,
    show osMemEndNode pool size = pool + size - 8 from rfl, prevAt, sizeAndFlagAt, curUsedSizeAt,
    waterLineAt, hlast, hread, hflag, show osMemPoolHeadSize + osMemNodeHeadSize = 952 from rfl,
    write_apply]
  split_ifs <;> first | rfl | omega

theorem osMemPoolInit_eq (m : Words) (pool size : ℕ) : osMemPoolInit m pool size =
    (osMemFreeNodeAdd (initHeader m pool size) pool (osMemFirstNode pool)).bind
      fun m => some (initEnd m pool size) := rfl

/-- The header of a pool right after it was set up, and where else it was written. -/
structure Fresh (m m' : Words) (pool size i : ℕ) : Prop where
  total : m' (pool + 4) = size
  bitmap : ∀ w < 7, m' (pool + 20 + 4 * w) = if w = i / 32 then 1 <<< (i % 32) else 0
  heads : ∀ j < 223, m' (pool + 48 + 4 * j) = if j = i then pool + 944 else 0
  nodes : ∀ x, pool + 944 ≤ x → m' x =
    if x = pool + size - 4 then 2 ^ 31
    else if x = pool + size - 8 then pool + 944
    else if x = pool + 956 then 0
    else if x = pool + 952 then 0
    else if x = pool + 948 then size - 952
    else if x = pool + 944 then pool + size - 8
    else m x
  outside : ∀ x < pool, m' x = m x

/-- The effect of `OsMemPoolInit` on every word that matters later, if the header is clear. -/
theorem osMemPoolInit_fresh (pool : ℕ) (hmax : size ≤ 0x7fffffff ∨ m = fun _ => 0)
    (hsize : 952 < size) (hlt : size < 2 ^ 32) (h4 : size % 4 = 0) :
    ∃ m', osMemPoolInit m pool size = some m' ∧
      Fresh m m' pool size (osMemFreeListIndexGet (size - 952)) := by
  have hhead := initHeader_apply m pool size
  rw [clearHead_eq hmax] at hhead
  set m₁ := initHeader m pool size with hm₁
  have hi222 : osMemFreeListIndexGet (size - 952) < 222 :=
    osMemFreeListIndexGet_lt (by omega) (by omega)
  have hword : m₁ (pool + 948) = size - 952 := by
    rw [hhead, if_neg (by omega), if_pos rfl]
  generalize hi : osMemFreeListIndexGet (size - 952) = i at hi222 ⊢
  -- the cleared part of the header
  have hzero : ∀ j, 3 ≤ j → j < 236 → m₁ (pool + 4 * j) = 0 := fun j h3 hj => by
    rw [hhead, if_neg (by omega), if_neg (by omega), if_neg (by omega), if_neg (by omega),
      if_neg (by omega), clearWords_inside hj]
  have hlist0 : m₁ (pool + 48 + 4 * i) = 0 := by
    have := hzero (12 + i) (by omega) (by omega)
    rwa [show pool + 4 * (12 + i) = pool + 48 + 4 * i by omega] at this
  have hadd := osMemListAdd_apply (by omega) le_rfl hlist0 (.inl rfl)
  have hend := initEnd_apply (osMemListAdd m₁ pool i (pool + 944)) pool hsize.le
  refine ⟨initEnd (osMemListAdd m₁ pool i (pool + 944)) pool size, ?_, ?_⟩
  · rw [osMemPoolInit_eq, osMemFreeNodeAdd, ← hm₁, show osMemFirstNode pool = pool + 944 from rfl,
      show sizeAndFlagAt (pool + 944) = pool + 948 from rfl, hword,
      if_neg (by rw [hi, osMemFreeListCount_eq]; omega), hi]
    rfl
  · have hval : ∀ x, x ≠ pool + 12 → x ≠ pool + 16 → x < pool + 944 →
        initEnd (osMemListAdd m₁ pool i (pool + 944)) pool size x =
          if x = pool + 20 + 4 * (i / 32) then m₁ x ||| 1 <<< (i % 32)
          else if x = pool + 48 + 4 * i then pool + 944
          else m₁ x := fun x h1 h2 h3 => by
      rw [hend, if_neg (by omega), if_neg (by omega), if_neg (by omega), hadd]
      simp only [ne_eq, not_true_eq_false, and_false, if_false]
      rw [if_neg (show x ≠ pool + 944 + 12 by omega), if_neg (show x ≠ pool + 944 + 8 by omega)]
    constructor
    · rw [hval _ (by omega) (by omega) (by omega), if_neg (by omega), if_neg (by omega), hhead]
      simp (disch := omega) only [if_neg, if_true]
    · intro w hw
      have h0 := hzero (5 + w) (by omega) (by omega)
      rw [show pool + 4 * (5 + w) = pool + 20 + 4 * w by omega] at h0
      rw [hval _ (by omega) (by omega) (by omega), h0, Nat.zero_or]
      split_ifs <;> omega
    · intro j hj
      have h0 := hzero (12 + j) (by omega) (by omega)
      rw [show pool + 4 * (12 + j) = pool + 48 + 4 * j by omega] at h0
      rw [hval _ (by omega) (by omega) (by omega), h0]
      split_ifs <;> omega
    · intro x hx
      have hrest : osMemListAdd m₁ pool i (pool + 944) x =
          if x = pool + 956 then 0 else if x = pool + 952 then 0
          else if x = pool + 948 then size - 952 else if x = pool + 944 then pool + size - 8
          else m x := by
        have hclear : clearWords m pool 236 x = m x := clearWords_outside fun j hj => by omega
        rw [hadd, if_neg (by omega), if_neg (by omega), hhead, hclear]
        simp only [ne_eq]
        split_ifs <;> omega
      rw [hend, if_neg (by omega), hrest]
    · intro x hx
      rw [hval x (by omega) (by omega) (by omega), if_neg (by omega), if_neg (by omega), hhead,
        if_neg (by omega), if_neg (by omega), if_neg (by omega), if_neg (by omega),
        if_neg (by omega), clearWords_outside fun j hj => by omega]

/-! ### Which pools are usable -/

/-- The class of a size in exact arithmetic: small sizes in fours, larger ones by their leading
bit and the three bits after it. -/
def sizeClass (size : ℕ) : ℕ :=
  if size < 128 then size / 4 - 1
  else 31 + (Nat.log2 size - 7) * 8 + (size * 8 / 2 ^ Nat.log2 size - 8)

/-- A pool that was set up by rewriting `m` into `m'` can be allocated from. -/
structure Usable (m m' : Words) (pool size : ℕ) : Prop where
  inside : ∀ x, x < pool ∨ pool + size ≤ x → m' x = m x
  /-- The header of the first node, free as it is, ends before the end node. -/
  apart : osMemFirstNode pool + osMemMinLeftSize ≤ osMemEndNode pool size
  word : m' (sizeAndFlagAt (osMemFirstNode pool)) = size - osMemMinPoolSize
  flags : osMemNodeGetUsedFlag (size - osMemMinPoolSize) = 0 ∧
    osMemNodeGetAlignedFlag (size - osMemMinPoolSize) = 0
  filed : m' (freeListAt pool (sizeClass (size - osMemMinPoolSize))) = osMemFirstNode pool

theorem sizeClass_eq (h4 : 4 ≤ n) (h : n < 2 ^ 29) : sizeClass n = osMemFreeListIndexGet n := by
  rw [sizeClass]
  split_ifs with hs
  · exact (osMemFreeListIndexGet_small hs h4).symm
  · exact (osMemFreeListIndexGet_large (by omega) h).symm

theorem usable_iff_of_fresh (hsize : 952 < size) (hlt : size < 2 ^ 32)
    (h : Fresh m m' pool size (osMemFreeListIndexGet (size - 952))) :
    Usable m m' pool size ↔ 968 ≤ size ∧ size - 952 < 2 ^ 29 := by
  have hhead : osMemFirstNode pool = pool + 944 ∧ osMemEndNode pool size = pool + size - 8 ∧
    osMemMinLeftSize = 16 ∧ osMemMinPoolSize = 952 := ⟨rfl, rfl, rfl, rfl⟩
  constructor
  · intro hu
    have hapart := hu.apart
    refine ⟨by omega, ?_⟩
    by_contra hge
    have h30 := (flags_eq_zero_iff (by omega)).mp hu.flags
    rw [hhead.2.2.2] at h30
    -- the shift has lost the leading bit, which puts the node eight classes below its own
    have hi := (osMemFreeListIndexGet_huge (by omega) (by omega)).2.2 h30
    have hlog : Nat.log2 (size - 952) = 29 := by
      have h1 := (Nat.le_log2 (by omega)).mpr (not_lt.mp hge)
      have h2 := (Nat.log2_lt (by omega)).mpr h30
      omega
    have hclass : sizeClass (size - 952) = 199 + (size - 952) / 2 ^ 26 := by
      rw [sizeClass, if_neg (by omega), hlog]
      omega
    have hfiled := hu.filed
    rw [hhead.2.2.2, freeListAt_eq, hclass, h.heads _ (by omega), if_neg (by omega)] at hfiled
    omega
  · rintro ⟨hroom, h29⟩
    have h30 : size - 952 < 2 ^ 30 := by omega
    refine ⟨fun x hx => ?_, by omega, ?_, (flags_eq_zero_iff (by omega)).mpr h30, ?_⟩
    · rcases hx with hx | hx
      · exact h.outside x hx
      · rw [h.nodes x (by omega)]
        simp (disch := omega) only [if_neg]
    · rw [hhead.1, sizeAndFlagAt, h.nodes _ (by omega), if_neg (by omega), if_neg (by omega),
        if_neg (by omega), if_neg (by omega), if_pos (by omega), hhead.2.2.2]
    · have hi := osMemFreeListIndexGet_lt (n := size - 952) (by omega) (by omega)
      rw [hhead.2.2.2, freeListAt_eq, sizeClass_eq (by omega) h29, h.heads _ (by omega), if_pos rfl,
        hhead.1]

theorem Fresh.heap (h : Fresh m m' P.pool P.size (osMemFreeListIndexGet (P.size - 952))) :
    Heap P m' [⟨P.first, P.last - P.first, .free⟩] := by
  have hP := P.geometry
  have hsmall := P.small
  have hsize : P.size - 952 = P.last - P.first := by omega
  have hlast : m' P.last = P.first ∧ m' (P.last + 4) = 2 ^ 31 := by
    rw [h.nodes _ (by omega), h.nodes _ (by omega), if_neg (by omega), if_pos (by omega),
      if_pos (by omega)]
    exact ⟨by omega, rfl⟩
  have hnode : m' P.first = P.last ∧ m' (P.first + 4) = P.last - P.first ∧
      m' (P.first + 8) = 0 ∧ m' (P.first + 12) = 0 := by
    refine ⟨?_, ?_, ?_, ?_⟩ <;> rw [h.nodes _ (by omega), if_neg (by omega), if_neg (by omega)]
    · rw [if_neg (by omega), if_neg (by omega), if_neg (by omega), if_pos (by omega)]
      omega
    · rw [if_neg (by omega), if_neg (by omega), if_pos (by omega), hsize]
    · rw [if_neg (by omega), if_pos (by omega)]
    · rw [if_pos (by omega)]
  rw [hsize] at h
  set i := osMemFreeListIndexGet (P.last - P.first) with hi
  refine ⟨⟨h.total, ⟨rfl, ?_, ?_⟩, ?_, ?_, ?_, ⟨hnode.1, hlast.1⟩, hlast.2⟩,
    fun j => if j = i then [P.first] else [], ⟨?_, ?_, ?_, ?_, ?_⟩⟩
  · simp only
    omega
  · simp only [Tiles.nil_iff]
    omega
  · simp only [List.mem_singleton, forall_eq]
    omega
  · simpa using hnode.2.1
  · simp [Chunk.GapOk]
  · intro j hj
    rw [h.heads j hj]
    by_cases hji : j = i
    · simp only [if_pos hji]
      exact ⟨by omega, by omega, hnode.2.2.1, hnode.2.2.2⟩
    · simp [hji]
  · intro j hj
    rw [h.bitmap _ (by omega)]
    by_cases hji : j = i
    · simp [hji]
    · simp only [hji, if_false, ne_eq, not_true_eq_false, iff_false, Bool.not_eq_true]
      split_ifs with hw
      · rw [Nat.shiftLeft_eq, Nat.one_mul, Nat.testBit_two_pow, decide_eq_false_iff_not]
        omega
      · simp
  · intro j n
    simp only [List.mem_singleton, exists_eq_left, ← hi]
    by_cases hji : j = i
    · simp [hji, eq_comm]
    · simp [hji, Ne.symm hji]
  · intro j
    by_cases hji : j = i <;> simp [hji]
  · intro w hw
    rw [h.bitmap w hw]
    split_ifs
    · rw [Nat.shiftLeft_eq, Nat.one_mul]
      exact Nat.pow_lt_pow_right (by omega) (by omega)
    · omega

/-! ### The registry -/

/-- The pools reached from `head` along the registry links. -/
def Registered (m : Words) : ℕ → List ℕ → Prop
  | head, [] => head = 0
  | head, p :: ps => head = p ∧ p ≠ 0 ∧ Registered m (m (nextPoolAt p)) ps

theorem Registered.congr : ∀ {head : ℕ} {ps : List ℕ},
    (∀ p ∈ ps, m' (nextPoolAt p) = m (nextPoolAt p)) → Registered m head ps → Registered m' head ps
  | _, [], _, h => h
  | _, p :: ps, hm, ⟨h1, h2, h3⟩ => by
    refine ⟨h1, h2, ?_⟩
    rw [hm p (by simp)]
    exact congr (fun q hq => hm q (by simp [hq])) h3

theorem poolConflict_mem : ∀ {fuel cur next : ℕ} {ps : List ℕ},
    Registered m next ps → poolConflict m pool size fuel cur next = some (some c) → c = cur ∨ c ∈ ps
  | 0, _, _, _, _, hc => by simp [poolConflict] at hc
  | fuel + 1, cur, next, ps, hr, hc => by
    rw [poolConflict] at hc
    by_cases h0 : next = 0
    · rw [if_pos h0] at hc
      exact .inl (by simpa using hc.symm)
    · rw [if_neg h0] at hc
      cases ps with
      | nil => exact absurd hr h0
      | cons =>
        obtain ⟨rfl, -, hr⟩ := hr
        simp only at hc
        split_ifs at hc
        · simp at hc
        · rcases poolConflict_mem hr hc with rfl | hmem
          · exact .inr (by simp)
          · exact .inr (by simp [hmem])

def Apart (ps : List ℕ) (pool size : ℕ) : Prop :=
  ∀ p ∈ ps, p + osMemPoolHeadSize ≤ pool ∨ pool + size ≤ p

theorem and_alignMask (x : ℕ) : x &&& (osMemAlignSize - 1) = x % 4 :=
  Nat.and_two_pow_sub_one_eq_mod x 2

section

variable (hok : losMemInit s pool size = some (s', .losOk))
include hok

theorem checked_of_losMemInit : pool ≠ 0 ∧ 952 < size ∧ pool % 4 = 0 ∧ size % 4 = 0 := by
  rw [losMemInit, and_alignMask, and_alignMask, show osMemMinPoolSize = 952 from rfl] at hok
  split_ifs at hok with h1 h2
  · simp at hok
  · simp at hok
  · omega

theorem losMemInit_fresh {ps : List ℕ} (hlt : size < 2 ^ 28)
    (hreg : Registered s.mem s.poolHead ps) (hsep : Apart ps pool size) :
    pool ≠ 0 ∧ 952 < size ∧ pool % 4 = 0 ∧ size % 4 = 0 ∧
      ∃ m', Fresh s.mem m' pool size (osMemFreeListIndexGet (size - 952)) ∧
        ∀ x, pool ≤ x → x < pool + size → x ≠ pool + 940 → s'.mem x = m' x := by
  have hnext : ∀ p, nextPoolAt p = p + 940 := fun _ => rfl
  obtain ⟨h0, hsize, hp4, hs4⟩ := checked_of_losMemInit hok
  obtain ⟨m₁, hm₁, hfresh⟩ :=
    osMemPoolInit_fresh pool (.inl (by omega)) hsize (by omega) hs4
  refine ⟨h0, hsize, hp4, hs4, m₁, hfresh, ?_⟩
  have hsep : ∀ p ∈ ps, p + 944 ≤ pool ∨ pool + size ≤ p := hsep
  have hreg₁ : Registered m₁ s.poolHead ps := hreg.congr fun p hp => by
    have := hsep p hp
    rw [hnext]
    by_cases hlow : p + 940 < pool
    · exact hfresh.outside _ hlow
    · rw [hfresh.nodes _ (by omega)]
      split_ifs <;> omega
  rw [losMemInit, and_alignMask, and_alignMask, show osMemMinPoolSize = 952 from rfl,
    if_neg (by omega), if_neg (by omega)] at hok
  simp only [hm₁, osMemPoolAdd, Option.bind_eq_bind, Option.bind_some] at hok
  cases hwalk : poolConflict m₁ pool size registryBound s.poolHead s.poolHead with
  | none => simp [hwalk] at hok
  | some r =>
    cases r with
    | none => simp [hwalk] at hok
    | some cur =>
      rw [hwalk] at hok
      intro x h1 h2 hx
      by_cases h0 : s.poolHead = 0
      · simp [h0] at hok
        subst hok
        exact write_of_ne _ _ (by rwa [hnext])
      · simp [h0] at hok
        subst hok
        have hcur : cur ∈ ps := by
          rcases poolConflict_mem hreg₁ hwalk with rfl | hmem
          · cases ps with
            | nil => exact absurd hreg h0
            | cons => simp [hreg.1]
          · exact hmem
        have := hsep cur hcur
        simp only [hnext]
        rw [write_of_ne _ _ hx, write_of_ne _ _ (by omega)]

end

theorem losMemInit_first (hpool : pool ≠ 0) (hsize : 952 < size)
    (hlt : size < 2 ^ 28) (hp4 : pool % 4 = 0) (hs4 : size % 4 = 0) :
    ∃ s', losMemInit ⟨m, 0⟩ pool size = some (s', .losOk) := by
  obtain ⟨m₁, hm₁, -⟩ := osMemPoolInit_fresh pool (m := m) (.inl (by omega)) hsize (by omega) hs4
  have hwalk : poolConflict m₁ pool size registryBound 0 0 = some (some 0) := by
    rw [show registryBound = (2 ^ 32 - 1) + 1 from rfl, poolConflict, if_pos rfl]
  refine ⟨⟨m₁.write (nextPoolAt pool) 0, pool⟩, ?_⟩
  rw [losMemInit, and_alignMask, and_alignMask, show osMemMinPoolSize = 952 from rfl,
    if_neg (by omega), if_neg (by omega)]
  simp [hm₁, osMemPoolAdd, hwalk]

/-- The pools that `LOS_MemInit` accepts and that are usable have room for a free node and a first
node below half a gigabyte. -/
theorem usable_iff {pool size : ℕ} (hok : losMemInit s pool size = some (s', .losOk))
    (hfits : pool + size ≤ 2 ^ 32) :
    (∀ m, ∃ m', osMemPoolInit m pool size = some m' ∧ Usable m m' pool size) ↔
      968 ≤ size ∧ size - 952 < 2 ^ 29 := by
  obtain ⟨h0, hsize, -, h4⟩ := checked_of_losMemInit hok
  have hlt : size < 2 ^ 32 := by omega
  constructor
  · intro h
    obtain ⟨m', hm', hu⟩ := h fun _ => 0
    obtain ⟨m₁, hm₁, hfresh⟩ := osMemPoolInit_fresh pool (.inr rfl) hsize hlt h4
    obtain rfl := Option.some.inj (hm₁.symm.trans hm')
    exact (usable_iff_of_fresh hsize hlt hfresh).mp hu
  · intro h m
    obtain ⟨m', hm', hfresh⟩ := osMemPoolInit_fresh pool (.inl (by omega)) hsize hlt h4
    exact ⟨m', hm', (usable_iff_of_fresh hsize hlt hfresh).mpr h⟩

theorem usable_kilobyte : ∃ m', osMemPoolInit (fun _ => 0) 4096 1024 = some m' ∧
    Usable (fun _ => 0) m' 4096 1024 := by
  obtain ⟨s', hok⟩ := losMemInit_first (m := fun _ => 0) (by decide : 4096 ≠ 0)
    (by decide : 952 < 1024) (by decide) (by decide) (by decide)
  exact (usable_iff hok (by decide)).mpr (by decide) _

/-- Four bytes above the minimum the end node overlaps the header of the first node. -/
theorem not_usable_smallest : (∃ s', losMemInit ⟨fun _ => 0, 0⟩ 4096 956 = some (s', .losOk)) ∧
    ∀ m m', ¬ Usable m m' 4096 956 :=
  ⟨losMemInit_first (by decide) (by decide) (by decide) (by decide) (by decide),
    fun _ _ h => absurd h.apart (by decide)⟩

end LiteOS.Memory
