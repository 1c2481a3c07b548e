import LiteOS.Lib.Runs
import LiteOS.Memory.PoolInit

/-!
# The pool registry

`LOS_MemInit` sets the pool up before it looks for a conflict with the registered pools, and its
test compares only the ends of a registered pool with the new range. A run is a sequence of
`LOS_MemInit` and `LOS_MemDeInit` calls with arbitrary addresses and sizes, from an empty registry
and an arbitrary memory.
-/

namespace LiteOS.Memory

open Lib Words List

variable {m m' m'' : Words} {s s' : MemSystem} {pool size p q cur head fuel r i j : ℕ}
  {ps pre post qs : List ℕ}

/-! ### The walks -/

theorem nextPoolAt_eq (p : ℕ) : nextPoolAt p = p + 940 := (rfl)

theorem Registered.head_eq_zero (h : Registered m head ps) : head = 0 ↔ ps = [] := by
  cases ps with
  | nil => exact iff_of_true h rfl
  | cons => simp [h.1, h.2.1]

theorem Registered.poolList_eq : ∀ {fuel head : ℕ} {ps : List ℕ}, Registered m head ps →
    ps.length < fuel → poolList m fuel head = ps
  | fuel + 1, head, [], h, _ => by
    rw [poolList, if_pos (show head = 0 from h)]
  | fuel + 1, _, p :: ps, ⟨h1, h2, h3⟩, hf => by
    subst h1
    rw [poolList, if_neg h2, poolList_eq h3 (by simpa using hf)]

/-- The test of `OsMemPoolAdd`. -/
def Conflicts (m : Words) (pool size p : ℕ) : Prop :=
  (pool ≤ p ∧ p < u32 (pool + size)) ∨
    (pool < u32 (p + m (totalSizeAt p)) ∧ u32 (p + m (totalSizeAt p)) ≤ u32 (pool + size))
deriving Decidable

theorem Registered.poolConflict_eq : ∀ {fuel cur head : ℕ} {ps : List ℕ}, Registered m head ps →
    ps.length < fuel → poolConflict m pool size fuel cur head =
      some (if ∃ p ∈ ps, Conflicts m pool size p then none else some (lastFrom cur ps))
  | fuel + 1, _, head, [], h, _ => by
    rw [poolConflict, if_pos (show head = 0 from h)]
    simp [lastFrom]
  | fuel + 1, cur, head, p :: ps, ⟨h1, h2, h3⟩, hf => by
    rw [h1, poolConflict, if_neg h2]
    change (if Conflicts m pool size p then some none else _) = _
    rw [h3.poolConflict_eq (by simpa using hf)]
    by_cases hc : Conflicts m pool size p <;> simp [hc, lastFrom]

theorem Registered.poolBefore_of_notMem : ∀ {fuel cur head : ℕ} {ps : List ℕ},
    Registered m head ps → ps.length < fuel → pool ∉ ps →
    poolBefore m pool fuel cur head = some none
  | fuel + 1, _, head, [], h, _, _ => by
    rw [poolBefore, if_pos (show head = 0 from h)]
  | fuel + 1, cur, head, p :: ps, ⟨h1, h2, h3⟩, hf, hp => by
    rw [h1, poolBefore, if_neg h2, if_neg fun e => hp (by simp [e])]
    exact h3.poolBefore_of_notMem (by simpa using hf) fun hm => hp (mem_cons_of_mem _ hm)

theorem Registered.poolBefore_eq : ∀ {fuel cur head : ℕ} {pre : List ℕ},
    Registered m head (pre ++ pool :: post) → (pre ++ pool :: post).length < fuel → pool ∉ pre →
    poolBefore m pool fuel cur head = some (some (lastFrom cur pre))
  | fuel + 1, cur, head, [], ⟨h1, h2, _⟩, _, _ => by
    rw [h1, poolBefore, if_neg h2, if_pos rfl]
    rfl
  | fuel + 1, cur, head, p :: pre, ⟨h1, h2, h3⟩, hf, hp => by
    rw [h1, poolBefore, if_neg h2, if_neg fun e => hp (by simp [e])]
    exact h3.poolBefore_eq (by simpa using hf) fun hm => hp (mem_cons_of_mem _ hm)

theorem lastFrom_mem : ∀ {c : ℕ} {ps : List ℕ}, ps ≠ [] → lastFrom c ps ∈ ps
  | _, [p], _ => by simp [lastFrom]
  | _, p :: q :: ps, _ => mem_cons_of_mem _ (lastFrom_mem (c := p) (by simp))

theorem ne_lastFrom (hn : (p :: q :: ps).Nodup) : p ≠ lastFrom r (p :: q :: ps) :=
  fun e => (nodup_cons.mp hn).1 (by
    rw [e]
    exact lastFrom_mem (c := p) (by simp))

theorem Registered.append : ∀ {c head : ℕ} {ps : List ℕ}, Registered m head ps → ps ≠ [] →
    ps.Nodup → pool ≠ 0 → m' (nextPoolAt (lastFrom c ps)) = pool → m' (nextPoolAt pool) = 0 →
    (∀ p ∈ ps, p ≠ lastFrom c ps → m' (nextPoolAt p) = m (nextPoolAt p)) →
    Registered m' head (ps ++ [pool])
  | _, _, [p], h, _, _, h0, hl, hz, _ => by
    refine ⟨h.1, h.2.1, ?_⟩
    rw [show m' (nextPoolAt p) = pool from hl]
    exact ⟨rfl, h0, hz⟩
  | _, _, p :: q :: ps, ⟨h1, h2, h3⟩, _, hn, h0, hl, hz, hm => by
    refine ⟨h1, h2, ?_⟩
    rw [hm p (by simp) (ne_lastFrom hn)]
    exact h3.append (c := p) (by simp) (nodup_cons.mp hn).2 h0 hl hz
      fun r hr hrn => hm r (mem_cons_of_mem _ hr) hrn

theorem Registered.remove : ∀ {c head : ℕ} {pre : List ℕ},
    Registered m head (pre ++ pool :: post) → pre ≠ [] → (pre ++ pool :: post).Nodup →
    m' (nextPoolAt (lastFrom c pre)) = m (nextPoolAt pool) →
    (∀ p ∈ pre ++ post, p ≠ lastFrom c pre → m' (nextPoolAt p) = m (nextPoolAt p)) →
    Registered m' head (pre ++ post)
  | _, _, [p], ⟨h1, h2, h3⟩, _, hn, hl, hm => by
    refine ⟨h1, h2, ?_⟩
    rw [show m' (nextPoolAt p) = m (nextPoolAt pool) from hl]
    refine h3.2.2.congr fun q hq => hm q (mem_cons_of_mem _ hq) fun e => ?_
    refine (nodup_cons.mp hn).1 ?_
    rw [← show q = p from e]
    exact mem_cons_of_mem _ hq
  | _, _, p :: q :: pre, ⟨h1, h2, h3⟩, _, hn, hl, hm => by
    refine ⟨h1, h2, ?_⟩
    rw [hm p (by simp) (ne_lastFrom (hn.sublist (sublist_append_left _ _)))]
    exact h3.remove (c := p) (by simp) (nodup_cons.mp hn).2 hl
      fun r hr hrn => hm r (mem_cons_of_mem _ hr) hrn

/-! ### Setting up a pool -/

/-- The words that `OsMemPoolInit` writes: the header with the first node and its links, and the end
node. -/
def Written (pool size x : ℕ) : Prop :=
  (pool ≤ x ∧ x < pool + 960) ∨ (pool + size ≤ x + 8 ∧ x < pool + size)

theorem osMemPoolInit_frame (h : osMemPoolInit m pool size = some m') (hsize : 952 < size)
    (hmax : size ≤ 0x7fffffff) (h4 : size % 4 = 0) :
    m' (pool + 4) = size ∧ ∀ x, ¬Written pool size x → m' x = m x := by
  obtain ⟨m₁, hm₁, hfresh⟩ := osMemPoolInit_fresh pool (.inl hmax) hsize (by omega) h4
  obtain rfl := Option.some.inj (hm₁.symm.trans h)
  refine ⟨hfresh.total, fun x hx => ?_⟩
  unfold Written at hx
  by_cases hlow : x < pool
  · exact hfresh.outside x hlow
  · rw [hfresh.nodes x (by omega)]
    simp (disch := omega) only [if_neg]

/-! ### The registered ranges -/

def RangesApart (m : Words) (p q : ℕ) : Prop :=
  p + m (totalSizeAt p) ≤ q ∨ q + m (totalSizeAt q) ≤ p
deriving Decidable

/-- The pools of a list lie side by side in the address space, each listed once. -/
structure Laid (m : Words) (ps : List ℕ) : Prop where
  size : ∀ p ∈ ps, 952 < m (p + 4)
  bound : ∀ p ∈ ps, p + m (p + 4) ≤ 2 ^ 32
  nodup : ps.Nodup
  apart : ∀ p ∈ ps, ∀ q ∈ ps, p ≠ q → RangesApart m p q

theorem totalSizeAt_eq (p : ℕ) : totalSizeAt p = p + 4 := rfl

section

variable (h : Laid m ps)
include h

theorem Laid.congr (hm : ∀ p ∈ ps, m' (p + 4) = m (p + 4)) : Laid m' ps where
  size p hp := hm p hp ▸ h.size p hp
  bound p hp := hm p hp ▸ h.bound p hp
  nodup := h.nodup
  apart p hp q hq hpq := by
    have := h.apart p hp q hq hpq
    rwa [RangesApart, totalSizeAt_eq, totalSizeAt_eq, ← hm p hp, ← hm q hq] at this

theorem Laid.sublist (hs : List.Sublist qs ps) : Laid m qs where
  size p hp := h.size p (hs.subset hp)
  bound p hp := h.bound p (hs.subset hp)
  nodup := h.nodup.sublist hs
  apart p hp q hq := h.apart p (hs.subset hp) q (hs.subset hq)

theorem Laid.append (hsize : 952 < m (pool + 4))
    (hbound : pool + m (pool + 4) ≤ 2 ^ 32) (hapart : ∀ p ∈ ps, RangesApart m p pool) :
    Laid m (ps ++ [pool]) where
  size p hp := by
    rcases mem_append.mp hp with hp | hp
    · exact h.size p hp
    · exact mem_singleton.mp hp ▸ hsize
  bound p hp := by
    rcases mem_append.mp hp with hp | hp
    · exact h.bound p hp
    · exact mem_singleton.mp hp ▸ hbound
  nodup := by
    refine nodup_append.mpr ⟨h.nodup, nodup_singleton _, fun p hp q hq hpq => ?_⟩
    have := hapart p hp
    have := h.size p hp
    rw [mem_singleton.mp hq] at hpq
    simp only [RangesApart, totalSizeAt_eq] at *
    omega
  apart p hp q hq hpq := by
    rcases mem_append.mp hp with hp | hp <;> rcases mem_append.mp hq with hq | hq
    · exact h.apart p hp q hq hpq
    · exact mem_singleton.mp hq ▸ hapart p hp
    · exact mem_singleton.mp hp ▸ (hapart q hq).symm
    · exact absurd ((mem_singleton.mp hp).trans (mem_singleton.mp hq).symm) hpq

/-- The pools have different addresses, so there are fewer than the walks may visit. -/
theorem Laid.length_lt : ps.length < registryBound := by
  have hsub : ps ⊆ range (2 ^ 32 - 1) := fun p hp => by
    have := h.size p hp
    have := h.bound p hp
    exact mem_range.mpr (by omega)
  have := (h.nodup.subperm hsub).length_le
  rw [length_range] at this
  exact lt_of_le_of_lt this (by decide)

/-- A word of one pool's header is no other pool's word at another offset. -/
theorem Laid.header_ne (hp : p ∈ ps) (hq : q ∈ ps) (hi : i < 952)
    (hj : j < 952) (hij : i ≠ j) : p + i ≠ q + j := by
  intro e
  have hne : p ≠ q := by omega
  have := h.apart p hp q hq hne
  have := h.size p hp
  have := h.size q hq
  simp only [RangesApart, totalSizeAt_eq] at *
  omega

end

/-- The registry lists the pools `ps`. -/
structure Listing (s : MemSystem) (ps : List ℕ) : Prop where
  registered : Registered s.mem s.poolHead ps
  laid : Laid s.mem ps

def Untouched (m m' : Words) (ps : List ℕ) : Prop :=
  ∀ p ∈ ps, ∀ x, p ≤ x → x < p + m (p + 4) → m' x = m x

theorem Untouched.trans (h : Untouched m m' ps) (h' : Untouched m' m'' ps)
    (hl : Laid m ps) : Untouched m m'' ps := fun p hp x h1 h2 => by
  have := hl.size p hp
  have htotal := h p hp (p + 4) (by omega) (by omega)
  rw [h' p hp x h1 (by omega), h p hp x h1 h2]

theorem Listing.untouched (h : Listing s ps) (hm : Untouched s.mem m' ps) :
    Listing ⟨m', s.poolHead⟩ ps where
  registered := h.registered.congr fun p hp => by
    have := h.laid.size p hp
    exact hm p hp _ (by rw [nextPoolAt_eq]; omega) (by rw [nextPoolAt_eq]; omega)
  laid := h.laid.congr fun p hp => by
    have := h.laid.size p hp
    exact hm p hp _ (by omega) (by omega)

theorem Listing.poolList_eq (h : Listing s ps) : losMemPoolList s = ps :=
  h.registered.poolList_eq h.laid.length_lt

/-! ### The calls -/

inductive PoolOp
  | memInit (pool size : ℕ)
  | memDeInit (pool : ℕ)
deriving DecidableEq, Repr

namespace MemSystem

/-- A call, if it returns: the source panics on a size that no free list takes. -/
def call (s : MemSystem) : PoolOp → Option (MemSystem × Ret)
  | .memInit pool size => losMemInit s pool size
  | .memDeInit pool => losMemDeInit s pool

def Word : PoolOp → Prop
  | .memInit pool size => pool < 2 ^ 32 ∧ size < 2 ^ 32
  | .memDeInit pool => pool < 2 ^ 32

instance : ∀ op, Decidable (Word op)
  | .memInit _ _ => inferInstanceAs (Decidable (_ ∧ _))
  | .memDeInit _ => inferInstanceAs (Decidable (_ < _))

def machine : Machine MemSystem PoolOp where
  init s := s.poolHead = 0
  allowed s op := Word op ∧ (s.call op).isSome
  step s op := (s.call op).elim s Prod.fst

instance (s : MemSystem) (op : PoolOp) : Decidable (machine.allowed s op) :=
  inferInstanceAs (Decidable (_ ∧ _))

/-- The arguments pass the checks that `LOS_MemInit` makes before it writes to the pool. -/
def Checked (pool size : ℕ) : Prop :=
  pool ≠ 0 ∧ 952 < size ∧ pool % 4 = 0 ∧ size % 4 = 0
deriving Decidable

/-- The pool `p` is clear of what `LOS_MemInit` sets up: of the range, of the header with the first
node, and of the end node. -/
def Clear (s : MemSystem) (pool size p : ℕ) : Prop :=
  p + s.mem (totalSizeAt p) ≤ pool ∨ (pool + size ≤ p ∧ pool + 960 ≤ p)
deriving Decidable

/-- The pool `p` lies between the first node and the end node of the range, so that the range is
refused and the words written to it are none of the pool's. -/
def Inside (s : MemSystem) (pool size p : ℕ) : Prop :=
  pool + 960 ≤ p ∧ p + s.mem (totalSizeAt p) + 8 ≤ pool + size ∧ pool + size < 2 ^ 32
deriving Decidable

/-- A new range does not wrap around the address space and is not too long for `memset_s`, and each
registered pool is clear of it or inside it. -/
def Careful (s : MemSystem) : PoolOp → Prop
  | .memInit pool size => Checked pool size →
      pool + size ≤ 2 ^ 32 ∧ size ≤ 0x7fffffff ∧
        ∀ p ∈ losMemPoolList s, Clear s pool size p ∨ Inside s pool size p
  | .memDeInit _ => True

instance (s : MemSystem) : ∀ op, Decidable (Careful s op)
  | .memInit _ _ => inferInstanceAs (Decidable (_ → _))
  | .memDeInit _ => inferInstanceAs (Decidable True)

variable {op : PoolOp} {ret : Ret}

theorem not_written (hp : Clear s pool size p ∨ Inside s pool size p) (hsize : 952 < size) :
    ∀ x, p ≤ x → x < p + s.mem (p + 4) → ¬Written pool size x := by
  intro x h1 h2
  simp only [Clear, Inside, Written, totalSizeAt_eq] at *
  omega

theorem untouched_osMemPoolInit (hm : osMemPoolInit s.mem pool size = some m')
    (hc : Checked pool size) (hmax : size ≤ 0x7fffffff)
    (hps : ∀ p ∈ ps, Clear s pool size p ∨ Inside s pool size p) :
    Untouched s.mem m' ps := fun p hp x h1 h2 =>
  (osMemPoolInit_frame hm hc.2.1 hmax hc.2.2.2).2 x (not_written (hps p hp) hc.2.1 x h1 h2)

theorem untouched_osMemPoolDeInit (hps : ∀ p ∈ ps, p + m (p + 4) ≤ pool ∨ pool + 944 ≤ p) :
    Untouched m (osMemPoolDeInit m pool size) ps := fun p hp x h1 h2 => by
  have := hps p hp
  rw [osMemPoolDeInit, clearHead]
  split_ifs
  · exact clearWords_outside fun i hi => by
      rw [show osMemPoolHeadSize / 4 = 236 from rfl] at hi
      omega
  · rfl

theorem clear_of_not_conflicts (h : Clear s pool size p ∨ Inside s pool size p)
    (hc : ¬Conflicts m' pool size p) : Clear s pool size p := by
  refine h.resolve_right fun hi => hc (.inl ?_)
  have hwrap : u32 (pool + size) = pool + size := Nat.mod_eq_of_lt hi.2.2
  rw [hwrap]
  unfold Inside at hi
  omega

theorem listing_append (h : Listing s ps) (hpool : pool ≠ 0) (hsize : s.mem (pool + 4) = size)
    (hlt : 952 < size) (hbound : pool + size ≤ 2 ^ 32) (hclear : ∀ p ∈ ps, Clear s pool size p)
    (hne : ps ≠ []) :
    Listing ⟨(s.mem.write (nextPoolAt (lastFrom s.poolHead ps)) pool).write (nextPoolAt pool) 0,
      s.poolHead⟩ (ps ++ [pool]) := by
  have hlast := lastFrom_mem (c := s.poolHead) hne
  generalize hl : lastFrom s.poolHead ps = last at hlast
  -- the header words of the old pools are not those of the new one
  have hnew : ∀ p ∈ ps, ∀ i < 952, ∀ j < 952, p + i ≠ pool + j := fun p hp i hi j hj => by
    have := hclear p hp
    have := h.laid.size p hp
    simp only [Clear, totalSizeAt_eq] at *
    omega
  generalize hm' : (s.mem.write (nextPoolAt last) pool).write (nextPoolAt pool) 0 = m'
  have hwrite : ∀ x, m' x = if x = pool + 940 then 0 else if x = last + 940 then pool
      else s.mem x := fun x => by
    rw [← hm', write_apply, write_apply, nextPoolAt_eq, nextPoolAt_eq]
  constructor
  · refine h.registered.append (c := s.poolHead) hne h.laid.nodup hpool ?_ ?_ fun p hp hpl => ?_
    · change m' _ = _
      rw [hl, nextPoolAt_eq, hwrite,
        if_neg (hnew last hlast 940 (by omega) 940 (by omega)), if_pos rfl]
    · change m' _ = _
      rw [nextPoolAt_eq, hwrite, if_pos rfl]
    · change m' _ = _
      rw [nextPoolAt_eq, hwrite, if_neg (hnew p hp 940 (by omega) 940 (by omega)),
        if_neg (by omega)]
  · have hsame : ∀ p ∈ ps ++ [pool], m' (p + 4) = s.mem (p + 4) := fun p hp => by
      rcases mem_append.mp hp with hp | hp
      · rw [hwrite, if_neg (hnew p hp 4 (by omega) 940 (by omega)),
          if_neg (h.laid.header_ne hp hlast (by omega) (by omega) (by omega))]
      · rw [mem_singleton.mp hp, hwrite, if_neg (by omega),
          if_neg (hnew last hlast 940 (by omega) 4 (by omega)).symm]
    refine (h.laid.append (by omega) (by omega) fun p hp => ?_).congr hsame
    have := hclear p hp
    simp only [Clear, RangesApart, totalSizeAt_eq] at *
    omega

/-- `LOS_MemInit` refuses and leaves the registered pools alone, or lists the new pool last. -/
theorem losMemInit_cases (h : Listing s ps) (hcareful : Careful s (.memInit pool size))
    (hr : losMemInit s pool size = some (s', ret)) :
    (ret = .losNok ∧ s'.poolHead = s.poolHead ∧ Untouched s.mem s'.mem ps) ∨
      (ret = .losOk ∧ Listing s' (ps ++ [pool])) := by
  have hmin : osMemMinPoolSize = 952 := rfl
  rw [losMemInit, and_alignMask, and_alignMask, hmin] at hr
  by_cases hc : Checked pool size
  swap
  · refine .inl ?_
    unfold Checked at hc
    split_ifs at hr with h1 h2
    · cases hr
      exact ⟨rfl, rfl, fun _ _ _ _ _ => rfl⟩
    · cases hr
      exact ⟨rfl, rfl, fun _ _ _ _ _ => rfl⟩
    · omega
  obtain ⟨hbound, hmax, hps⟩ := hcareful hc
  rw [h.poolList_eq] at hps
  have hc' := hc
  unfold Checked at hc'
  rw [if_neg (by omega), if_neg (by omega)] at hr
  obtain ⟨m₁, hm₁, hr⟩ := Option.bind_eq_some_iff.mp hr
  have hun := untouched_osMemPoolInit hm₁ hc hmax hps
  have h₁ := h.untouched hun
  have hsize := (osMemPoolInit_frame hm₁ hc.2.1 hmax hc.2.2.2).1
  have htotal : ∀ p ∈ ps, m₁ (totalSizeAt p) = s.mem (totalSizeAt p) := fun p hp => by
    have := h.laid.size p hp
    exact hun p hp _ (by rw [totalSizeAt_eq]; omega) (by rw [totalSizeAt_eq]; omega)
  rw [osMemPoolAdd, h₁.registered.poolConflict_eq h₁.laid.length_lt] at hr
  by_cases hconf : ∃ p ∈ ps, Conflicts m₁ pool size p
  · rw [if_pos hconf] at hr
    cases hr
    refine .inl ⟨rfl, rfl, hun.trans (untouched_osMemPoolDeInit fun p hp => ?_) h.laid⟩
    have := hps p hp
    rw [← totalSizeAt_eq, htotal p hp]
    unfold Clear Inside at this
    omega
  · rw [if_neg hconf] at hr
    have hclear : ∀ p ∈ ps, Clear ⟨m₁, s.poolHead⟩ pool size p := fun p hp => by
      have := clear_of_not_conflicts (hps p hp) fun hcp => hconf ⟨p, hp, hcp⟩
      rwa [Clear, ← htotal p hp] at this
    refine .inr ?_
    by_cases h0 : s.poolHead = 0
    · have hnil := h.registered.head_eq_zero.mp h0
      subst hnil
      simp only [h0] at hr
      cases hr
      have hset : (m₁.write (nextPoolAt pool) 0) (pool + 4) = size := by
        rw [write_of_ne _ _ (by rw [nextPoolAt_eq]; omega), hsize]
      refine ⟨rfl, ⟨rfl, hc.1, ?_⟩, ?_⟩
      · simp [Registered]
      · change Laid (m₁.write (nextPoolAt pool) 0) ([] ++ [pool])
        exact (Laid.mk (by simp) (by simp) nodup_nil (by simp)).append (by omega) (by omega)
          (by simp)
    · have hne : ps ≠ [] := fun e => h0 (h.registered.head_eq_zero.mpr e)
      simp only [h0] at hr
      cases hr
      exact ⟨rfl, listing_append h₁ hc.1 hsize hc.2.1 hbound hclear hne⟩

theorem listing_tail (h : Listing s (pool :: ps)) : Listing ⟨s.mem, s.mem (nextPoolAt pool)⟩ ps :=
  ⟨h.registered.2.2, h.laid.sublist (sublist_cons_self _ _)⟩

theorem listing_remove (h : Listing s (pre ++ pool :: post)) (hne : pre ≠ [])
    (hm : s.mem.write (nextPoolAt (lastFrom s.poolHead pre)) (s.mem (nextPoolAt pool)) = m') :
    Listing ⟨m', s.poolHead⟩ (pre ++ post) ∧ ∀ p ∈ pre ++ post, m' (p + 4) = s.mem (p + 4) := by
  have hlast := mem_append_left (pool :: post) (lastFrom_mem (c := s.poolHead) hne)
  have hsub : List.Sublist (pre ++ post) (pre ++ pool :: post) :=
    (sublist_cons_self _ _).append_left _
  have hwrite : ∀ x, m' x = if x = lastFrom s.poolHead pre + 940 then s.mem (nextPoolAt pool)
      else s.mem x := fun x => by
    rw [← hm, write_apply, nextPoolAt_eq (lastFrom _ _)]
  have hsame : ∀ p ∈ pre ++ post, m' (p + 4) = s.mem (p + 4) := fun p hp => by
    rw [hwrite, if_neg (h.laid.header_ne (hsub.subset hp) hlast (by omega) (by omega) (by omega))]
  refine ⟨⟨?_, (h.laid.sublist hsub).congr hsame⟩, hsame⟩
  refine h.registered.remove (c := s.poolHead) hne h.laid.nodup ?_ fun p _ hp => ?_
  · rw [nextPoolAt_eq (lastFrom _ _)]
    exact (hwrite _).trans (if_pos rfl)
  · exact (hwrite _).trans (if_neg (by rw [nextPoolAt_eq]; omega))

theorem listing_osMemPoolDeInit (h : Listing s ps)
    (hps : ∀ p ∈ ps, p + s.mem (p + 4) ≤ pool ∨ pool + 944 ≤ p) :
    Listing ⟨osMemPoolDeInit s.mem pool size, s.poolHead⟩ ps :=
  h.untouched (untouched_osMemPoolDeInit hps)

theorem listing_losMemDeInit (h : Listing s ps)
    (hr : losMemDeInit s pool = some (s', ret)) : ∃ qs, Listing s' qs := by
  rw [losMemDeInit] at hr
  split_ifs at hr with h1 h2
  · cases hr
    exact ⟨ps, h⟩
  · cases hr
    exact ⟨ps, h⟩
  have hfar : ∀ p ∈ ps, pool ∈ ps → p ≠ pool → p + s.mem (p + 4) ≤ pool ∨ pool + 944 ≤ p :=
    fun p hp hpool hpn => by
      have := h.laid.apart p hp pool hpool hpn
      have := h.laid.size pool hpool
      simp only [RangesApart, totalSizeAt_eq] at *
      omega
  rw [osMemPoolDelete] at hr
  by_cases hhead : pool = s.poolHead
  · obtain ⟨qs, rfl⟩ : ∃ qs, ps = pool :: qs := by
      cases ps with
      | nil => exact absurd (hhead.trans h.registered) h1
      | cons q qs => exact ⟨qs, by rw [hhead, h.registered.1]⟩
    rw [if_pos hhead] at hr
    cases hr
    rw [← hhead]
    refine ⟨qs, listing_osMemPoolDeInit (listing_tail h) fun p hp => ?_⟩
    refine hfar p (mem_cons_of_mem _ hp) (by simp) fun e => ?_
    exact (nodup_cons.mp h.laid.nodup).1 (e ▸ hp)
  rw [if_neg hhead] at hr
  by_cases hpool : pool ∈ ps
  swap
  · rw [h.registered.poolBefore_of_notMem h.laid.length_lt hpool] at hr
    cases hr
    exact ⟨ps, h⟩
  obtain ⟨pre, post, rfl⟩ := append_of_mem hpool
  have hpre : pool ∉ pre := fun hm =>
    (nodup_append.mp h.laid.nodup).2.2 _ hm _ (by simp) rfl
  have hne : pre ≠ [] := fun e => by
    subst e
    exact hhead h.registered.1.symm
  rw [h.registered.poolBefore_eq h.laid.length_lt hpre] at hr
  cases hr
  obtain ⟨hl, hsame⟩ := listing_remove h hne rfl
  refine ⟨pre ++ post, listing_osMemPoolDeInit hl fun p hp => ?_⟩
  simp only [hsame p hp]
  refine hfar p (((sublist_cons_self _ _).append_left _).subset hp) hpool fun e => ?_
  rcases mem_append.mp hp with hp | hp
  · exact hpre (e ▸ hp)
  · exact (nodup_cons.mp (nodup_append.mp h.laid.nodup).2.1).1 (e ▸ hp)

theorem listing_step (h : ∃ ps, Listing s ps) (ha : (machine.restrict Careful).allowed s op) :
    ∃ ps, Listing (machine.step s op) ps := by
  obtain ⟨ps, h⟩ := h
  obtain ⟨⟨s', ret⟩, hr⟩ := Option.isSome_iff_exists.mp ha.1.2
  have hstep : machine.step s op = s' := by simp [machine, hr]
  rw [hstep]
  cases op with
  | memInit =>
    rcases losMemInit_cases h ha.2 hr with ⟨-, hhead, hun⟩ | ⟨-, hl⟩
    · have := h.untouched hun
      rw [← hhead] at this
      exact ⟨ps, this⟩
    · exact ⟨_, hl⟩
  | memDeInit => exact listing_losMemDeInit h hr

theorem listing_of_reaches (h : (machine.restrict Careful).Reaches s) : ∃ ps, Listing s ps :=
  h.invariant
    (fun _ h0 => ⟨[], h0, by simp, by simp, nodup_nil, by simp⟩) fun _ _ => listing_step

/-- In a run of careful calls the registered pools do not overlap and are listed once, and a refused
`LOS_MemInit` leaves their memory and the listing as they were. -/
theorem disjoint_of_reaches (h : (machine.restrict Careful).Reaches s) :
    Registered s.mem s.poolHead (losMemPoolList s) ∧ (losMemPoolList s).Nodup ∧
      (∀ p ∈ losMemPoolList s, ∀ q ∈ losMemPoolList s, p ≠ q → RangesApart s.mem p q) ∧
      ∀ pool size s', Careful s (.memInit pool size) →
        losMemInit s pool size = some (s', .losNok) →
        losMemPoolList s' = losMemPoolList s ∧ s'.poolHead = s.poolHead ∧
          ∀ p ∈ losMemPoolList s, ∀ x, p ≤ x → x < p + s.mem (totalSizeAt p) →
            s'.mem x = s.mem x := by
  obtain ⟨ps, hl⟩ := listing_of_reaches h
  rw [hl.poolList_eq]
  refine ⟨hl.registered, hl.laid.nodup, hl.laid.apart, fun pool size s' hc hr => ?_⟩
  rcases losMemInit_cases hl hc hr with ⟨-, hhead, hun⟩ | ⟨hok, -⟩
  · have hl' := hl.untouched hun
    rw [← hhead] at hl'
    exact ⟨hl'.poolList_eq, hhead, hun⟩
  · cases hok

/-- The memory of the fixed runs before the first call. -/
def emptyRegistry : MemSystem := ⟨fun _ => 7, 0⟩

/-- The two pools are side by side; a third range around the second one is refused. -/
theorem disjoint_of_reaches_twoPools : ∃ s, (machine.restrict Careful).Reaches s ∧
    losMemPoolList s = [4096, 16384] ∧ RangesApart s.mem 4096 16384 ∧
    (losMemInit s 12288 8192).map Prod.snd = some .losNok ∧
    ∀ s', losMemInit s 12288 8192 = some (s', .losNok) →
      ∀ x, 16384 ≤ x → x < 16384 + s.mem (totalSizeAt 16384) → s'.mem x = s.mem x := by
  have hr : (machine.restrict Careful).Reaches
      (machine.run emptyRegistry [.memInit 4096 8192, .memInit 16384 1024]) :=
    (Machine.Reaches.start rfl).run _ (by decide +kernel)
  have hlist : losMemPoolList (machine.run emptyRegistry
      [.memInit 4096 8192, .memInit 16384 1024]) = [4096, 16384] := by decide +kernel
  have hcareful : Careful (machine.run emptyRegistry
      [.memInit 4096 8192, .memInit 16384 1024]) (.memInit 12288 8192) := by decide +kernel
  obtain ⟨-, -, hapart, hkeep⟩ := disjoint_of_reaches hr
  rw [hlist] at hapart hkeep
  exact ⟨_, hr, hlist, hapart 4096 (by simp) 16384 (by simp) (by decide), by decide +kernel,
    fun s' hs => (hkeep 12288 8192 s' hcareful hs).2.2 16384 (by simp)⟩

/-- `LOS_MemInit` of a registered pool returns `LOS_NOK` with its header cleared; a range strictly
inside a registered pool is accepted. -/
theorem reinit_and_nested : ∃ s₁ s₂, machine.Reaches s₁ ∧ machine.Reaches s₂ ∧
    (losMemPoolList s₁ = [4096] ∧ s₁.mem (totalSizeAt 4096) = 8192 ∧
      (losMemInit s₁ 4096 8192).map (fun r => (r.2, r.1.mem (totalSizeAt 4096))) =
        some (.losNok, 0)) ∧
    losMemPoolList s₂ = [4096, 5120] ∧ ¬RangesApart s₂.mem 4096 5120 := by
  have h₁ : machine.Reaches (machine.run emptyRegistry [.memInit 4096 8192]) :=
    (Machine.Reaches.start rfl).run _ (by decide +kernel)
  have h₂ : machine.Reaches (machine.run emptyRegistry [.memInit 4096 8192, .memInit 5120 2048]) :=
    (Machine.Reaches.start rfl).run _ (by decide +kernel)
  exact ⟨_, _, h₁, h₂, by decide +kernel⟩

end MemSystem

end LiteOS.Memory
