import LiteOS.Memory.Barren

/-!
# Clients of one pool

A run starts with a pool that `LOS_MemInit` has just set up and interleaves calls of the
allocator with the client's own stores. A pointer passed to the allocator is null or was
returned by an earlier call and not released since. Two results hold in every state of every
run: the words of the pool form a correct heap, and the blocks the client holds are sound,
apart from each other and from everything the allocator writes.
-/

namespace LiteOS.Memory

open Lib Chunk Words

/-- A block in the client's hands: what it was last asked for, and the boundary if it came from
`LOS_MemAllocAlign` and was not reallocated. -/
structure Block where
  ptr : ℕ
  size : ℕ
  boundary : Option ℕ
deriving DecidableEq

structure Client where
  mem : Words
  live : List Block

inductive Call
  | alloc (size : UInt32)
  | allocAlign (size boundary : UInt32)
  | realloc (ptr : ℕ) (size : UInt32)
  | free (ptr : ℕ)
  /-- The client writes byte `offset` of its block at `ptr`. -/
  | store (ptr offset value : ℕ)

def Call.ptr : Call → ℕ
  | .alloc _ | .allocAlign _ _ => 0
  | .realloc p _ | .free p | .store p _ _ => p

namespace Client

/-- Add a returned pointer to the live blocks unless it is null. -/
def grant (live : List Block) (p : ℕ) (size : UInt32) (boundary : Option ℕ) : List Block :=
  if p = 0 then live else ⟨p, size.toNat, boundary⟩ :: live

def release (live : List Block) (p : ℕ) : List Block := live.filter (·.ptr ≠ p)

def Valid (s : Client) : Call → Prop
  | .alloc _ | .allocAlign _ _ => True
  | .realloc p _ | .free p => p = 0 ∨ ∃ b ∈ s.live, b.ptr = p
  | .store p offset _ => ∃ b ∈ s.live, b.ptr = p ∧ offset < b.size

def step (pool : ℕ) (s : Client) : Call → Option Client
  | .alloc size => do
    let (m, p) ← losMemAlloc s.mem pool size.toNat
    return ⟨m, grant s.live p size none⟩
  | .allocAlign size boundary => do
    let (m, p) ← losMemAllocAlign s.mem pool size.toNat boundary.toNat
    return ⟨m, grant s.live p size (some boundary.toNat)⟩
  | .realloc p size => do
    let (m, q) ← losMemRealloc s.mem pool p size.toNat
    if q = 0 ∧ size ≠ 0 then return ⟨m, s.live⟩
    return ⟨m, grant (release s.live p) q size none⟩
  | .free p => do
    let (m, ret) ← losMemFree s.mem pool p
    return ⟨m, if ret = .losOk then release s.live p else s.live⟩
  | .store p offset value => some ⟨s.mem.setByte (p + offset) value, s.live⟩

/-- States of the runs that start in `s₀`. -/
inductive Reaches (pool : ℕ) (s₀ : Client) : Client → Prop
  | start : Reaches pool s₀ s₀
  | step {s s' : Client} {call : Call} : Reaches pool s₀ s → s.Valid call →
      s.step pool call = some s' → Reaches pool s₀ s'

instance (s : Client) : ∀ call, Decidable (s.Valid call)
  | .alloc _ | .allocAlign _ _ => inferInstanceAs (Decidable True)
  | .realloc _ _ | .free _ => inferInstanceAs (Decidable (_ ∨ _))
  | .store _ _ _ => inferInstanceAs (Decidable (∃ b ∈ _, _))

/-- A sequence of calls, if all are valid and return. -/
def run (pool : ℕ) : List Call → Client → Option Client
  | [], s => some s
  | call :: calls, s =>
    if s.Valid call then (s.step pool call).bind (run pool calls) else none

theorem Reaches.run {pool : ℕ} {s₀ s' : Client} : ∀ {calls : List Call} {s : Client},
    Reaches pool s₀ s → Client.run pool calls s = some s' → Reaches pool s₀ s'
  | [], _, h, hs => Option.some.inj hs ▸ h
  | call :: calls, s, h, hs => by
    rw [Client.run] at hs
    split_ifs at hs with hv
    obtain ⟨s₁, hs₁, hs⟩ := Option.bind_eq_some_iff.mp hs
    exact (h.step hv hs₁).run hs

/-- Runs of the first pool of the system, two kilobytes at address 4096. -/
theorem exists_run (calls : List Call) (live : List Block)
    (h : ((losMemInit ⟨fun _ => 0, 0⟩ 4096 2048).bind fun r =>
      (run 4096 calls ⟨r.1.mem, []⟩).map fun s => (r.2, s.live)) = some (.losOk, live)) :
    ∃ sys' s, losMemInit ⟨fun _ => 0, 0⟩ 4096 2048 = some (sys', .losOk) ∧
      Reaches 4096 ⟨sys'.mem, []⟩ s ∧ s.live = live := by
  obtain ⟨⟨sys', ret⟩, hok, hmap⟩ := Option.bind_eq_some_iff.mp h
  obtain ⟨s, hs, hval⟩ := Option.map_eq_some_iff.mp hmap
  obtain ⟨rfl, hlive⟩ := Prod.ext_iff.mp hval
  exact ⟨sys', s, hok, Reaches.start.run hs, hlive⟩

end Client

/-- The chunk `c` stands behind the block `b`. -/
structure Holds (c : Chunk) (b : Block) : Prop where
  used : c.isUsed
  ptr : b.ptr = c.addr + 8 + c.gap
  room : c.gap + 8 + b.size ≤ c.size
  pos : 0 < b.size
  aligned : ∀ k ∈ b.boundary, b.ptr % k = 0

structure Client.Inv (P : Region) (s : Client) (cs : List Chunk) : Prop where
  heap : Heap P s.mem cs
  settled : Settled cs
  held : ∀ b ∈ s.live, ∃ c ∈ cs, Holds c b
  nodup : (s.live.map Block.ptr).Nodup

/-- Blocks other than the one at `p` are still live with the same bytes. -/
def Client.Undisturbed (p : ℕ) (s s' : Client) : Prop :=
  ∀ b ∈ s.live, b.ptr ≠ p → b ∈ s'.live ∧
    ∀ x, b.ptr ≤ x → x < b.ptr + b.size → s'.mem.byteAt x = s.mem.byteAt x

variable {P : Region} {m m' : Words} {cs cs' : List Chunk} {c d : Chunk} {b b' : Block}
  {s s' s₀ : Client} {a p x offset value e : ℕ}

theorem Holds.ptr_inj (hl : Layout P m cs) (hc : c ∈ cs) (hd : d ∈ cs) (h : Holds c b)
    (h' : Holds d b') : c.addr = d.addr ↔ b.ptr = b'.ptr := by
  have h1 := h.room
  have h2 := h'.room
  rw [h.ptr, h'.ptr]
  constructor
  · intro he
    rw [hl.tiles.eq_of_addr (by omega) hc hd he]
  · intro he
    rcases hl.tiles.apart hc hd with rfl | hcd | hcd
    · rfl
    · have := h.pos
      omega
    · have := h'.pos
      omega

/-- The bytes of a held block lie in words of its chunk's payload. -/
theorem Holds.word_mem (hl : Layout P m cs) (hc : c ∈ cs) (h : Holds c b)
    (h1 : b.ptr ≤ x) (h2 : x < b.ptr + b.size) :
    c.addr + 8 + c.gap ≤ x / 4 * 4 ∧ x / 4 * 4 < c.addr + c.size := by
  have hmod := hl.ptr_mod hc
  have hp := h.ptr
  have hr := h.room
  omega

theorem Becomes.holds (hb : Becomes P a m cs m' cs') (hl : Layout P m cs) (hc : c ∈ cs)
    (h : Holds c b) (ha : c.addr ≠ a) : c ∈ cs' ∧
      ∀ x, b.ptr ≤ x → x < b.ptr + b.size → m'.byteAt x = m.byteAt x := by
  obtain ⟨hc', hm⟩ := hb.kept c hc h.used ha
  refine ⟨hc', fun x h1 h2 => byteAt_congr (hm _ ?_)⟩
  have := h.word_mem hl hc h1 h2
  exact ⟨by omega, by omega⟩

theorem Client.mem_release (hb : b ∈ s.live) (hp : b.ptr ≠ p) : b ∈ release s.live p :=
  List.mem_filter.mpr ⟨hb, by simpa using hp⟩

namespace Client.Inv

variable {l : List Block} {size g : ℕ} {k : Option ℕ}

section

variable (h : s.Inv P cs) (hb : Becomes P a s.mem cs m' cs') (hs : Settled cs')
  (hsub : l.Sublist s.live) (hl : ∀ b ∈ l, ∀ c ∈ cs, Holds c b → c.addr ≠ a)
include h hb hs hsub hl

theorem keep : Inv P ⟨m', l⟩ cs' where
  heap := hb.heap
  settled := hs
  held b hbl := by
    obtain ⟨c, hc, hold⟩ := h.held b (hsub.subset hbl)
    exact ⟨c, (hb.holds h.heap.layout hc hold (hl b hbl c hc hold)).1, hold⟩
  nodup := h.nodup.sublist (hsub.map _)

theorem granted
    (hg : Granted cs cs' a size g c) (hpos : 0 < size) (hk : ∀ i ∈ k, (c.addr + 8 + g) % i = 0) :
    Inv P ⟨m', ⟨c.addr + 8 + g, size, k⟩ :: l⟩ cs' := by
  have hkeep := h.keep hb hs hsub hl
  have hgap : c.gap = g := by simp [gap, hg.use]
  have hroom := hg.room
  have hnew : Holds c ⟨c.addr + 8 + g, size, k⟩ :=
    ⟨⟨g, hg.use⟩, by simp [hgap], by simp only; omega, hpos, hk⟩
  refine ⟨hb.heap, hs, ?_, ?_⟩
  · intro b hbl
    rcases List.mem_cons.mp hbl with rfl | hbl
    · exact ⟨c, hg.mem, hnew⟩
    · exact hkeep.held b hbl
  · refine List.nodup_cons.mpr ⟨fun hmem => ?_, hkeep.nodup⟩
    obtain ⟨b, hbl, he⟩ := List.mem_map.mp hmem
    obtain ⟨d, hd, hold⟩ := h.held b (hsub.subset hbl)
    have hda := hl b hbl d hd hold
    have hd' := (hb.holds h.heap.layout hd hold hda).1
    exact hg.fresh d hd hold.used hda
      ((Holds.ptr_inj hb.heap.layout hd' hg.mem hold hnew).mpr he)

end

section

variable (h : s.Inv P cs)
include h

theorem undisturbed (hb : Becomes P a s.mem cs m' cs')
    (hl : ∀ b ∈ s.live, b.ptr ≠ p → b ∈ l ∧ ∀ c ∈ cs, Holds c b → c.addr ≠ a) :
    Undisturbed p s ⟨m', l⟩ := by
  intro b hbl hp
  obtain ⟨c, hc, hold⟩ := h.held b hbl
  obtain ⟨hbl', hne⟩ := hl b hbl hp
  exact ⟨hbl', (hb.holds h.heap.layout hc hold (hne c hc hold)).2⟩

theorem addr_ne_zero : ∀ c ∈ cs, c.addr ≠ 0 := fun c hc => by
  have := h.heap.layout.bounds hc
  have := P.geometry
  omega

theorem release_ne (hc : c ∈ cs) (hold : Holds c b) (hp : b.ptr = p) :
    ∀ b' ∈ release s.live p, ∀ d ∈ cs, Holds d b' → d.addr ≠ c.addr := by
  intro b' hb' d hd hold' he
  have hne : b'.ptr ≠ p := by simpa using (List.mem_filter.mp hb').2
  exact hne (((Holds.ptr_inj h.heap.layout hd hc hold' hold).mp he).trans hp)

theorem allocated (hb : Becomes P 0 s.mem cs m' cs') (hs : Settled cs')
    (hg : Granted cs cs' 0 size g c) (hpos : 0 < size) (hk : ∀ i ∈ k, (c.addr + 8 + g) % i = 0) :
    Inv P ⟨m', ⟨c.addr + 8 + g, size, k⟩ :: s.live⟩ cs' ∧
      Undisturbed 0 s ⟨m', ⟨c.addr + 8 + g, size, k⟩ :: s.live⟩ := by
  have h0 := h.addr_ne_zero
  constructor
  · exact h.granted hb hs (List.Sublist.refl _) (fun _ _ c hc _ => h0 c hc) hg hpos hk
  · exact h.undisturbed hb fun b hb _ => ⟨by simp [hb], fun c hc _ => h0 c hc⟩

theorem released (hc : c ∈ cs) (hold : Holds c b)
    (hb : Becomes P c.addr s.mem cs m' cs') (hs : Settled cs') :
    Inv P ⟨m', release s.live b.ptr⟩ cs' ∧ Undisturbed b.ptr s ⟨m', release s.live b.ptr⟩ := by
  have hother := h.release_ne hc hold rfl
  constructor
  · exact h.keep hb hs List.filter_sublist hother
  · exact h.undisturbed hb fun b' hb' hne =>
      ⟨mem_release hb' hne, hother b' (mem_release hb' hne)⟩

end

theorem refused (_ : s.Inv P cs) : Undisturbed p s s := fun _ hb _ => ⟨hb, fun _ _ _ => rfl⟩

end Client.Inv

open Client

section

variable (h : s.Inv P cs)
include h

theorem step_alloc (size : UInt32) :
    ∃ s' cs', s.step P.pool (.alloc size) = some s' ∧ s'.Inv P cs' ∧ Undisturbed 0 s s' := by
  rcases losMemAlloc_spec h.heap h.settled size.toNat_lt with
    hm | ⟨m', cs', c, hm, hset, hb, hg, hpos⟩
  · refine ⟨s, cs, ?_, h, h.refused⟩
    simp [step, hm, grant]
  · refine ⟨_, cs', ?_, h.allocated hb hset hg hpos (k := none) (by simp)⟩
    simp [step, hm, grant]

theorem step_allocAlign (size boundary : UInt32) :
    ∃ s' cs', s.step P.pool (.allocAlign size boundary) = some s' ∧ s'.Inv P cs' ∧
      Undisturbed 0 s s' := by
  rcases losMemAllocAlign_spec h.heap h.settled size.toNat_lt boundary.toNat_lt with
    hm | ⟨m', cs', c, g, hm, hset, hb, hg, hk, hpos⟩
  · refine ⟨s, cs, ?_, h, h.refused⟩
    simp [step, hm, grant]
  · refine ⟨_, cs', ?_, h.allocated hb hset hg hpos (k := some boundary.toNat) (by simpa using hk)⟩
    simp [step, hm, grant]

theorem step_free (hp : p = 0 ∨ ∃ b ∈ s.live, b.ptr = p) :
    ∃ s' cs', s.step P.pool (.free p) = some s' ∧ s'.Inv P cs' ∧ Undisturbed p s s' := by
  rcases hp with rfl | ⟨b, hb, rfl⟩
  · refine ⟨s, cs, ?_, h, h.refused⟩
    simp [step, losMemFree]
  · obtain ⟨c, hc, hold⟩ := h.held b hb
    obtain ⟨m', cs', hm, hset, hbec⟩ := losMemFree_spec h.heap h.settled hc hold.used
    refine ⟨_, cs', ?_, h.released hc hold hbec hset⟩
    rw [← hold.ptr] at hm
    simp [step, hm]

/-- A null pointer makes the call an allocation, or a refusal for a size that is too large. -/
theorem step_realloc_null (size : UInt32) :
    ∃ s' cs', s.step P.pool (.realloc 0 size) = some s' ∧ s'.Inv P cs' ∧ Undisturbed 0 s s' := by
  have hlive : release s.live 0 = s.live := List.filter_eq_self.mpr fun b hb => by
    obtain ⟨c, hc, hold⟩ := h.held b hb
    have := hold.ptr
    simp only [decide_eq_true_eq]
    omega
  by_cases hflag : P.pool = 0 ∨ osMemNodeGetUsedFlag size.toNat ≠ 0 ∨
      osMemNodeGetAlignedFlag size.toNat ≠ 0
  · refine ⟨s, cs, ?_, h, h.refused⟩
    simp [step, losMemRealloc, hflag, grant, hlive]
  · obtain ⟨s', cs', hs', hinv⟩ := step_alloc h size
    refine ⟨s', cs', ?_, hinv⟩
    rw [← hs']
    simp only [step, losMemRealloc, hflag, hlive]
    refine congrArg _ (funext fun r => ?_)
    by_cases hr : r.2 = 0 <;> simp [hr, grant]

theorem step_realloc (size : UInt32) (hp : p = 0 ∨ ∃ b ∈ s.live, b.ptr = p) :
    ∃ s' cs', s.step P.pool (.realloc p size) = some s' ∧ s'.Inv P cs' ∧ Undisturbed p s s' := by
  rcases hp with rfl | ⟨b, hb, rfl⟩
  · exact step_realloc_null h size
  · obtain ⟨c, hc, hold⟩ := h.held b hb
    have hspec := losMemRealloc_spec h.heap h.settled hc hold.used size.toNat_lt
    rw [← hold.ptr] at hspec
    rcases hspec with ⟨hm, hpos⟩ | ⟨m', cs', hm, hz, hset, hbec⟩ |
      ⟨m', cs', c', hm, hset, hbec, hg, hpos, -⟩
    · refine ⟨s, cs, ?_, h, h.refused⟩
      have : size ≠ 0 := by rintro rfl; simp at hpos
      simp [step, hm, this]
    · refine ⟨_, cs', ?_, h.released hc hold hbec hset⟩
      have : size = 0 := UInt32.toNat_inj.mp (by simpa using hz)
      simp only [step, hm]
      simp [this, grant]
    · have hother := h.release_ne hc hold rfl
      refine ⟨⟨m', ⟨c'.addr + 8 + 0, size.toNat, none⟩ :: release s.live b.ptr⟩, cs', ?_,
        h.granted hbec hset List.filter_sublist hother hg hpos (by simp),
        h.undisturbed hbec fun b' hb' hne =>
          ⟨by simp [mem_release hb' hne], hother b' (mem_release hb' hne)⟩⟩
      simp [step, hm, grant]

theorem step_store (hp : ∃ b ∈ s.live, b.ptr = p ∧ offset < b.size) :
    ∃ s' cs', s.step P.pool (.store p offset value) = some s' ∧ s'.Inv P cs' ∧
      Undisturbed p s s' := by
  obtain ⟨b, hb, rfl, hlt⟩ := hp
  obtain ⟨c, hc, hold⟩ := h.held b hb
  obtain ⟨h1, h2⟩ := hold.word_mem h.heap.layout hc (x := b.ptr + offset) (by omega) (by omega)
  refine ⟨⟨s.mem.setByte (b.ptr + offset) value, s.live⟩, cs, rfl,
    ⟨h.heap.store hc hold.used h1 h2, h.settled, h.held, h.nodup⟩, ?_⟩
  intro b' hb' hne
  obtain ⟨d, hd, hold'⟩ := h.held b' hb'
  refine ⟨hb', fun x hx1 hx2 => byteAt_congr (setByte_of_ne _ _ ?_)⟩
  have hw := hold'.word_mem h.heap.layout hd hx1 hx2
  rcases h.heap.layout.tiles.apart hc hd with rfl | hcd | hcd
  · exact absurd (hold'.ptr.trans hold.ptr.symm) hne
  · omega
  · omega

/-- Every call a client may make returns, keeps the invariant and disturbs no other block. -/
theorem Client.Inv.step {call : Call} (hv : s.Valid call) :
    ∃ s' cs', s.step P.pool call = some s' ∧ s'.Inv P cs' ∧ Undisturbed call.ptr s s' := by
  cases call with
  | alloc size => exact step_alloc h size
  | allocAlign size boundary => exact step_allocAlign h size boundary
  | realloc p size => exact step_realloc h size hv
  | free => exact step_free h hv
  | store => exact step_store h hv

end

theorem Client.Inv.reaches (h : ∃ cs, s₀.Inv P cs) (hr : Reaches P.pool s₀ s) :
    ∃ cs, s.Inv P cs := by
  induction hr with
  | start => exact h
  | step _ hv hs ih =>
    obtain ⟨cs, hi⟩ := ih
    obtain ⟨s', cs', hs', hi', -⟩ := hi.step hv
    obtain rfl : s' = _ := Option.some.inj (hs'.symm.trans hs)
    exact ⟨cs', hi'⟩

/-! ### What the invariant says about the words of the pool -/

/-- Following `OS_MEM_NEXT_NODE` from `a` visits `nodes` and arrives at `b`. -/
def NodeWalk (m : Words) : ℕ → List ℕ → ℕ → Prop
  | a, [], b => a = b
  | a, n :: nodes, b => a = n ∧ NodeWalk m (osMemNextNode m n) nodes b

def IsFree (m : Words) (node : ℕ) : Prop := osMemNodeGetUsedFlag (m (sizeAndFlagAt node)) = 0
deriving Decidable

def nodeSize (m : Words) (node : ℕ) : ℕ := osMemNodeGetSize (m (sizeAndFlagAt node))

/-- The representation invariant of a pool, on its words. -/
structure WellFormed (m : Words) (pool size : ℕ) (nodes : List ℕ) : Prop where
  /-- The nodes lead from the first node to the end node. -/
  walk : NodeWalk m (osMemFirstNode pool) nodes (osMemEndNode pool size)
  /-- Each `ptr.prev` is the node before; that of the first node is the end node. -/
  prev : Backlinks id m (osMemEndNode pool size) nodes (osMemEndNode pool size)
  /-- No two neighbours are free. -/
  joined : nodes.IsChain fun a b => ¬ (IsFree m a ∧ IsFree m b)
  /-- Every list is a well-linked list of exactly the free nodes of its class. -/
  lists : ∀ i < osMemFreeListCount, ∃ l, l.Nodup ∧ Linked m 8 12 0 (m (freeListAt pool i)) l 0 ∧
    ∀ n, n ∈ l ↔ n ∈ nodes ∧ IsFree m n ∧ osMemFreeListIndexGet (nodeSize m n) = i
  /-- Every free node has a class. -/
  class_lt : ∀ n ∈ nodes, IsFree m n → osMemFreeListIndexGet (nodeSize m n) < osMemFreeListCount
  /-- A bit is set exactly for a non-empty list. -/
  bitmap : ∀ i < osMemFreeListCount,
    (m (freeListBitmapAt pool (i >>> 5))).testBit (i &&& 0x1f) ↔ m (freeListAt pool i) ≠ 0

theorem Layout.isFree_iff (h : Layout P m cs) (hs : Settled cs) (hc : c ∈ cs) :
    IsFree m c.addr ↔ c.use = .free := by
  rw [IsFree, sizeAndFlagAt, h.words c hc, usedFlag_word (h.size_lt hc)]
  exact ⟨use_eq_free (hs.listed c hc), not_isUsed_of_free⟩

theorem Layout.nodeSize_eq (h : Layout P m cs) (hc : c ∈ cs) : nodeSize m c.addr = c.size := by
  rw [nodeSize, sizeAndFlagAt, h.words c hc, size_word (h.size_lt hc)]

theorem nodeWalk_of_tiles : ∀ {a : ℕ} {l : List Chunk},
    (∀ c ∈ l, osMemNextNode m c.addr = c.addr + c.size) →
    Tiles addr size 16 a l e → NodeWalk m a (l.map addr) e
  | _, [], _, h => h
  | _, c :: l, hn, ⟨h1, _, h3⟩ => by
    refine ⟨h1.symm, ?_⟩
    rw [hn c (by simp), h1]
    exact nodeWalk_of_tiles (fun d hd => hn d (by simp [hd])) h3

theorem backlinks_map : ∀ {q : ℕ} {l : List Chunk}, Backlinks addr m q l e →
    Backlinks id m q (l.map addr) e
  | _, [], h => h
  | _, _ :: l, h => ⟨h.1, backlinks_map (l := l) h.2⟩

theorem Heap.wellFormed (h : Heap P m cs) (hs : Settled cs) :
    WellFormed m P.pool P.size (cs.map addr) := by
  obtain ⟨hl, L, hL⟩ := h
  have hfree := fun c hc => hl.isFree_iff (c := c) hs hc
  refine ⟨nodeWalk_of_tiles (fun c hc => hl.next_node hc) hl.tiles, backlinks_map hl.back, ?_,
    ?_, ?_, ?_⟩
  · refine (List.isChain_map _).mpr (hs.apart.imp_of_mem_imp fun c d hc hd hcd hf => hcd ?_)
    exact ⟨(hfree c hc).mp hf.1, (hfree d hd).mp hf.2⟩
  · intro i hi
    refine ⟨L i, hL.nodup i, hL.linked i hi, fun n => ?_⟩
    rw [hL.mem_iff]
    constructor
    · rintro ⟨c, hc, hu, rfl, hci⟩
      exact ⟨List.mem_map_of_mem hc, (hfree c hc).mpr hu, by rw [hl.nodeSize_eq hc, hci]⟩
    · rintro ⟨hn, hf, hci⟩
      obtain ⟨c, hc, rfl⟩ := List.mem_map.mp hn
      exact ⟨c, hc, (hfree c hc).mp hf, rfl, by rwa [hl.nodeSize_eq hc] at hci⟩
  · intro n hn _
    obtain ⟨c, hc, rfl⟩ := List.mem_map.mp hn
    have hb := hl.bounds hc
    have := osMemFreeListIndexGet_le (by omega : 4 ≤ c.size) (hl.size_lt hc)
    rw [hl.nodeSize_eq hc, osMemFreeListCount_eq]
    omega
  · intro i hi
    rw [osMemFreeListCount_eq] at hi
    rw [freeListBitmapAt_eq, and_mask_eq, freeListAt_eq, hL.bits i (by omega), ne_eq, ne_eq,
      (hL.linked i hi).head_eq_zero_iff]

/-! ### Runs from `LOS_MemInit` -/

section Runs

variable {sys sys' : MemSystem} {pool size : ℕ} {ps : List ℕ}

/-- A pool with room for a free node starts in the invariant, with no live block. -/
theorem exists_inv_of_init (hok : losMemInit sys pool size = some (sys', .losOk))
    (hroom : 968 ≤ size) (hlt : size < 2 ^ 28) (hfits : pool + size ≤ 2 ^ 32)
    (hreg : Registered sys.mem sys.poolHead ps) (hsep : Apart ps pool size) :
    ∃ P : Region, P.pool = pool ∧ P.size = size ∧ ∃ cs, Client.Inv P ⟨sys'.mem, []⟩ cs := by
  obtain ⟨h1, h2, h3, h4, m', hfresh, hm⟩ := losMemInit_fresh hok hlt hreg hsep
  let P : Region := ⟨⟨pool, size, h1, h3, h4, hroom, hfits⟩, hlt⟩
  have hheap := (Fresh.heap (P := P) hfresh).congr_region hm
  refine ⟨P, rfl, rfl, [⟨P.first, P.last - P.first, .free⟩], hheap, ?_, by simp, by simp⟩
  exact ⟨by simp, List.isChain_singleton _⟩

/-- In every state of every run the pool is well formed, and every call returns. -/
theorem wellFormed_of_reaches (hok : losMemInit sys pool size = some (sys', .losOk))
    (hroom : osMemPoolHeadSize + osMemNodeHeadSize + osMemMinLeftSize ≤ size)
    (hlt : size < 2 ^ 28) (hfits : pool + size ≤ 2 ^ 32)
    (hreg : Registered sys.mem sys.poolHead ps) (hsep : Apart ps pool size)
    (hr : Reaches pool ⟨sys'.mem, []⟩ s) :
    (∃ nodes, WellFormed s.mem pool size nodes) ∧
      ∀ call, s.Valid call → ∃ s', s.step pool call = some s' := by
  obtain ⟨P, rfl, rfl, hinit⟩ := exists_inv_of_init hok hroom hlt hfits hreg hsep
  obtain ⟨cs, hinv⟩ := Inv.reaches hinit hr
  refine ⟨⟨cs.map Chunk.addr, hinv.heap.wellFormed hinv.settled⟩, fun call hv => ?_⟩
  obtain ⟨s', -, hs', -⟩ := hinv.step hv
  exact ⟨s', hs'⟩

/-- Three blocks are allocated, the nodes of two are freed and merged, and the third block grows. -/
theorem wellFormed_of_first_pool :
    ∃ sys' s, losMemInit ⟨fun _ => 0, 0⟩ 4096 2048 = some (sys', .losOk) ∧
      Reaches 4096 ⟨sys'.mem, []⟩ s ∧ s.live = [⟨5096, 100, none⟩] ∧
      ∃ nodes, WellFormed s.mem 4096 2048 nodes := by
  obtain ⟨sys', s, hok, hr, hlive⟩ := exists_run [.alloc 10, .alloc 20, .alloc 30, .free 5048,
    .free 5068, .realloc 5096 100] [⟨5096, 100, none⟩] (by decide +kernel)
  exact ⟨sys', s, hok, hr, hlive, (wellFormed_of_reaches hok (by decide) (by decide) (by decide)
    (show Registered (fun _ => 0) 0 [] from rfl) (by simp [Apart]) hr).1⟩

/-- The size of the node `LOS_MemAlloc` looks for. -/
def nodeSizeFor (size : ℕ) : ℕ :=
  osMemAlign (max size osMemMinAllocSize + osMemNodeHeadSize) osMemAlignSize

/-- The node `c` is taken for a request of `size` bytes: it is free and large enough, the search
reports its own list, and nothing but the node leaves the free lists. -/
structure Taken (P : Extent) (m : Words) (cs : List Chunk) (size : ℕ) (c : Chunk) : Prop where
  free : c.use = .free
  large : nodeSizeFor size ≤ c.size
  index : osMemFindNextSuitableBlock m P.pool (nodeSizeFor size) =
    some (c.addr, osMemFreeListIndexGet c.size)
  unlinked : ∃ pre post m', cs = pre ++ c :: post ∧
    osMemFreeNodeGet m P.pool (nodeSizeFor size) = some (m', c.addr) ∧
    Heap P m' (pre ++ { c with use := .loose } :: post)

/-- On every settled heap `LOS_MemAlloc` returns, with null exactly if there is no node for the
request. -/
theorem losMemAlloc_complete {P : Extent} {size : ℕ} (h : Heap P m cs) (hs : Settled cs)
    (hsize : size < 2 ^ 30) :
    ∃ m' p, losMemAlloc m P.pool size = some (m', p) ∧
      (p = 0 ↔ size = 0 ∨ ∀ c ∈ cs, c.use = .free → c.size < nodeSizeFor size) ∧
      (p ≠ 0 → ∃ c ∈ cs, Taken P m cs size c) := by
  have hP := P.geometry
  rw [losMemAlloc]
  by_cases h0 : size = 0
  · exact ⟨m, 0, if_pos (.inr h0), by simp [h0], fun hp => absurd rfl hp⟩
  have hclamp : (if size < osMemMinAllocSize then osMemMinAllocSize else size) =
      max size osMemMinAllocSize := by
    split_ifs <;> omega
  have h8 : 8 ≤ max size osMemMinAllocSize := le_max_right ..
  have hlt : max size osMemMinAllocSize < 2 ^ 30 := max_lt hsize (by decide)
  have hflag := (flags_eq_zero_iff (by omega)).mpr hlt
  rw [if_neg (by omega)]
  simp only [hclamp]
  rw [if_neg (by simp [hflag])]
  rcases osMemFreeNodeGet_spec (a := 0) h (request_of_size h8 hlt).1 with
    ⟨hnone, hfull⟩ | ⟨pre, c, post, m', rfl, hc, hle, hfind, hget, hb⟩
  · exact ⟨m, 0, by simp [osMemAlloc, hnone], iff_of_true rfl (.inr hfull), fun hp => absurd rfl hp⟩
  · rcases osMemAlloc_spec h hs h8 hlt with ⟨-, hfull⟩ | ⟨m₂, cs', d, hsome, -⟩
    · exact absurd (hfull c (by simp) hc) (not_lt.mpr hle)
    · refine ⟨m₂, d.addr + 8, hsome, iff_of_false (by omega) ?_, fun _ => ⟨c, by simp, hc, hle,
        hfind, pre, post, m', rfl, hget, hb.heap⟩⟩
      rintro (h | hfull)
      · exact h0 h
      · exact absurd (hfull c (by simp) hc) (not_lt.mpr hle)

/-- Four blocks are allocated, and two that do not touch are freed. -/
theorem losMemAlloc_complete_first_pool : ∃ (s : Client) (cs : List Chunk),
    s.live = [⟨5136, 40, none⟩, ⟨5068, 20, none⟩] ∧
      ∃ m' p, losMemAlloc s.mem 4096 10 = some (m', p) ∧
        (p = 0 ↔ 10 = 0 ∨ ∀ c ∈ cs, c.use = .free → c.size < nodeSizeFor 10) := by
  obtain ⟨sys', s, hok, hr, hlive⟩ := exists_run [.alloc 10, .alloc 20, .alloc 30, .alloc 40,
    .free 5048, .free 5096] [⟨5136, 40, none⟩, ⟨5068, 20, none⟩] (by decide +kernel)
  obtain ⟨P, hpool, -, hinit⟩ := exists_inv_of_init hok (by decide) (by decide) (by decide)
    (show Registered (fun _ => 0) 0 [] from rfl) (by simp [Apart])
  obtain ⟨cs, hinv⟩ := Inv.reaches hinit (hpool ▸ hr)
  obtain ⟨m', p, hm, hiff, -⟩ := losMemAlloc_complete hinv.heap hinv.settled
    (by decide : 10 < 2 ^ 30)
  exact ⟨s, cs, hlive, m', p, hpool ▸ hm, hiff⟩

/-- A walk along the nodes is at a node or has arrived at the end node. -/
theorem nodeWalk_mem (hl : Layout P m cs) : ∀ {l : List ℕ} {a n : ℕ} {ds : List Chunk},
    (∀ d ∈ ds, d ∈ cs) → Tiles Chunk.addr Chunk.size 16 a ds P.last → NodeWalk m a l n →
    n = P.last ∨ ∃ d ∈ ds, d.addr = n
  | [], a, n, [], _, ht, hw => .inl ((show a = n from hw) ▸ ht)
  | [], a, n, d :: ds, _, ht, hw => .inr ⟨d, by simp, ht.1.trans hw⟩
  | x :: l, a, n, [], hds, ht, hw => by
    obtain ⟨rfl, hw⟩ := hw
    have hend : osMemNextNode m a = a := by
      rw [osMemNextNode, sizeAndFlagAt, show a = P.last from ht, hl.sentinel]
      rfl
    rw [hend] at hw
    exact nodeWalk_mem hl hds ht hw
  | x :: l, a, n, d :: ds, hds, ht, hw => by
    obtain ⟨rfl, hw⟩ := hw
    obtain ⟨h1, -, h3⟩ := ht
    rw [← h1, hl.next_node (hds d (by simp)), h1] at hw
    rcases nodeWalk_mem hl (fun e he => hds e (by simp [he])) h3 hw with hn | ⟨e, he, hn⟩
    · exact .inl hn
    · exact .inr ⟨e, by simp [he], hn⟩

/-- What the allocator owes the holder of a live block. -/
structure Block.Sound (m : Words) (pool size : ℕ) (b : Block) : Prop where
  /-- The block lies in the node area. -/
  inside : osMemFirstNode pool ≤ b.ptr ∧ b.ptr + b.size ≤ osMemEndNode pool size
  word : b.ptr % 4 = 0
  boundary : ∀ k ∈ b.boundary, b.ptr % k = 0
  /-- Node headers, the end node's included, and the links of free nodes lie elsewhere. -/
  headers : ∀ l n, NodeWalk m (osMemFirstNode pool) l n →
    (n + (if IsFree m n then osMemMinLeftSize else osMemNodeHeadSize) ≤ b.ptr ∨
      b.ptr + b.size ≤ n)
  /-- Releasing the block succeeds. -/
  free : ∃ m', losMemFree m pool b.ptr = some (m', .losOk)

theorem Client.Inv.sound (h : s.Inv P cs) (hb : b ∈ s.live) : b.Sound s.mem P.pool P.size := by
  obtain ⟨c, hc, hold⟩ := h.held b hb
  have hl := h.heap.layout
  have hcb := hl.bounds hc
  have hp := hold.ptr
  have hr := hold.room
  refine ⟨?_, ?_, hold.aligned, ?_, ?_⟩
  · rw [P.first_eq, P.last_eq]
    omega
  · rw [hp]
    exact hl.ptr_mod hc
  · intro l n hw
    rcases nodeWalk_mem hl (fun _ hd => hd) hl.tiles hw with rfl | ⟨d, hd, rfl⟩
    · exact .inr (by omega)
    · have hdb := hl.bounds hd
      have hlen : (if IsFree s.mem d.addr then osMemMinLeftSize else osMemNodeHeadSize) ≤ 16 := by
        split_ifs <;> decide
      rcases hl.tiles.apart hc hd with rfl | hcd | hcd
      · rw [if_neg fun hf => ?_]
        · exact .inl (by simp only [osMemNodeHeadSize]; omega)
        · exact not_isUsed_of_free ((hl.isFree_iff h.settled hc).mp hf) hold.used
      · exact .inr (by omega)
      · exact .inl (by omega)
  · obtain ⟨m', -, hm', -⟩ := losMemFree_spec h.heap h.settled hc hold.used
    exact ⟨m', by rw [hp]; exact hm'⟩

def Block.Disjoint (b b' : Block) : Prop := b.ptr + b.size ≤ b'.ptr ∨ b'.ptr + b'.size ≤ b.ptr

theorem Client.Inv.disjoint (h : s.Inv P cs) : s.live.Pairwise Block.Disjoint := by
  have hne := List.pairwise_map.mp h.nodup
  refine hne.imp_of_mem fun {b b'} hb hb' hne => ?_
  obtain ⟨c, hc, hold⟩ := h.held b hb
  obtain ⟨d, hd, hold'⟩ := h.held b' hb'
  have h1 := hold.ptr
  have h2 := hold'.ptr
  have h3 := hold.room
  have h4 := hold'.room
  rcases h.heap.layout.tiles.apart hc hd with rfl | hcd | hcd
  · exact absurd (h1.trans h2.symm) hne
  · exact .inl (by omega)
  · exact .inr (by omega)

theorem barren_step (hb : Barren m pool) {call : Call} (hv : Valid ⟨m, []⟩ call) :
    step pool ⟨m, []⟩ call = some ⟨m, []⟩ := by
  cases call with
  | alloc size => simp [step, hb.losMemAlloc_null size.toNat_lt, grant]
  | allocAlign size boundary =>
    simp [step, hb.losMemAllocAlign_null size.toNat_lt boundary.toNat_lt, grant]
  | realloc p size =>
    obtain rfl : p = 0 := by simpa [Valid] using hv
    have hm : losMemRealloc m pool 0 size.toNat = some (m, 0) := by
      rw [losMemRealloc, if_pos rfl, hb.losMemAlloc_null size.toNat_lt, ite_self]
    simp [step, hm, grant, release]
  | free p =>
    obtain rfl : p = 0 := by simpa [Valid] using hv
    simp [step, losMemFree]
  | store => simp [Valid] at hv

theorem barren_reaches (hb : Barren m pool) (hr : Reaches pool ⟨m, []⟩ s) : s = ⟨m, []⟩ := by
  induction hr with
  | start => rfl
  | step _ hv hs ih =>
    subst ih
    exact Option.some.inj (hs.symm.trans (barren_step hb hv))

/-- Nothing is ever allocated from a pool without room for a free node. -/
theorem barren_of_init (hok : losMemInit sys pool size = some (sys', .losOk)) (hroom : size < 968)
    (hlt : size < 2 ^ 28) (hreg : Registered sys.mem sys.poolHead ps) (hsep : Apart ps pool size) :
    Barren sys'.mem pool ∧ ∀ s, Reaches pool ⟨sys'.mem, []⟩ s → s = ⟨sys'.mem, []⟩ := by
  obtain ⟨-, h2, -, h4, m', hfresh, hm⟩ := losMemInit_fresh hok hlt hreg hsep
  have hb := (hfresh.barren h2 hroom h4).congr fun x h1 h2 => hm x h1 (by omega) (by omega)
  exact ⟨hb, fun s hr => barren_reaches hb hr⟩

/-- The `n` bytes from `q` on in `m'` are those from `p` on in `m`. -/
def SameBytes (m m' : Words) (p q n : ℕ) : Prop := ∀ k < n, m'.byteAt (q + k) = m.byteAt (p + k)

/-- Reallocation moves the content of the node, whose start is the pointer only if that was not
shifted to a boundary. -/
theorem Client.Inv.realloc_bytes (h : s.Inv P cs) (hb : b ∈ s.live) {size : UInt32}
    (h0 : size ≠ 0) : ∃ m' q, losMemRealloc s.mem P.pool b.ptr size.toNat = some (m', q) ∧
      (q = 0 → m' = s.mem) ∧ (q ≠ 0 → SameBytes s.mem m' (osGetRealPtr s.mem P.pool b.ptr) q
        (min b.size size.toNat)) := by
  have hl := h.heap.layout
  obtain ⟨c, hc, hold⟩ := h.held b hb
  have hmod := hl.addr_mod hc
  have hroom := hold.room
  rw [hold.ptr, osGetRealPtr_used hl hc hold.used]
  rcases losMemRealloc_spec h.heap h.settled hc hold.used size.toNat_lt with
    ⟨hm, -⟩ | ⟨m', cs', hm, hz, -⟩ | ⟨m', cs', c', hm, -, hbec, hg, -, hpay⟩
  · exact ⟨_, _, hm, fun _ => rfl, fun hq => absurd rfl hq⟩
  · exact absurd (UInt32.toNat_inj.mp (by simpa using hz)) h0
  · refine ⟨_, _, hm, by omega, fun _ k hk => ?_⟩
    have hmod' := hbec.heap.layout.addr_mod hg.mem
    have hword := hpay (k / 4) (by omega) (by omega)
    simp only [byteAt]
    rw [show (c'.addr + 8 + k) / 4 * 4 = c'.addr + 8 + 4 * (k / 4) by omega,
      show (c.addr + 8 + k) / 4 * 4 = c.addr + 8 + 4 * (k / 4) by omega,
      show (c'.addr + 8 + k) % 4 = (c.addr + 8 + k) % 4 by omega, hword]

section Reached

variable (hok : losMemInit sys pool size = some (sys', .losOk)) (hlt : size < 2 ^ 28)
  (hfits : pool + size ≤ 2 ^ 32) (hreg : Registered sys.mem sys.poolHead ps)
  (hsep : Apart ps pool size) (hr : Reaches pool ⟨sys'.mem, []⟩ s)

include hok hlt hfits hreg hsep hr

/-- A client with a live block has a pool with room for a free node, which is in the invariant. -/
theorem exists_inv_of_live (hb : b ∈ s.live) : ∃ P : Region, P.pool = pool ∧ ∃ cs, s.Inv P cs := by
  by_cases hroom : 968 ≤ size
  · obtain ⟨P, rfl, rfl, hinit⟩ := exists_inv_of_init hok hroom hlt hfits hreg hsep
    exact ⟨P, rfl, Inv.reaches hinit hr⟩
  · rw [(barren_of_init hok (by omega) hlt hreg hsep).2 s hr] at hb
    cases hb

/-- In every state of every run: a refused reallocation changes nothing, and one that succeeds
keeps the bytes of the block exactly if they are those from the start of its node on. -/
theorem realloc_preserves_iff (hb : b ∈ s.live) {n : UInt32} (h0 : n ≠ 0) :
    ∃ m' q, losMemRealloc s.mem pool b.ptr n.toNat = some (m', q) ∧ (q = 0 → m' = s.mem) ∧
      (q ≠ 0 → (SameBytes s.mem m' b.ptr q (min b.size n.toNat) ↔
        SameBytes s.mem s.mem b.ptr (osGetRealPtr s.mem pool b.ptr) (min b.size n.toNat))) := by
  obtain ⟨P, rfl, cs, hinv⟩ := exists_inv_of_live hok hlt hfits hreg hsep hr hb
  obtain ⟨m', q, hm, hnull, hmove⟩ := hinv.realloc_bytes hb h0
  refine ⟨m', q, hm, hnull, fun hq => forall₂_congr fun k hk => ?_⟩
  rw [hmove hq k hk]

/-- In every state of every run the live blocks are sound and pairwise disjoint, and every
call returns without disturbing the blocks it is not about. -/
theorem live_blocks_sound :
    (∀ b ∈ s.live, b.Sound s.mem pool size) ∧ s.live.Pairwise Block.Disjoint ∧
      ∀ call, s.Valid call → ∃ s', s.step pool call = some s' ∧ Undisturbed call.ptr s s' := by
  by_cases hroom : 968 ≤ size
  · obtain ⟨P, rfl, rfl, hinit⟩ := exists_inv_of_init hok hroom hlt hfits hreg hsep
    obtain ⟨cs, hinv⟩ := Inv.reaches hinit hr
    refine ⟨fun b hb => hinv.sound hb, hinv.disjoint, fun call hv => ?_⟩
    obtain ⟨s', -, hs', -, hu⟩ := hinv.step hv
    exact ⟨s', hs', hu⟩
  · obtain ⟨hb, hstay⟩ := barren_of_init hok (by omega) hlt hreg hsep
    obtain rfl := hstay s hr
    refine ⟨by simp, by simp, fun call hv => ⟨_, barren_step hb hv, ?_⟩⟩
    intro b hb
    simp at hb

end Reached

/-- Two blocks are live. -/
theorem live_blocks_sound_first_alloc : ∃ s : Client,
    s.live = [⟨5068, 20, none⟩, ⟨5048, 10, none⟩] ∧ (∀ b ∈ s.live, b.Sound s.mem 4096 2048) ∧
      s.live.Pairwise Block.Disjoint := by
  obtain ⟨sys', s, hok, hr, hlive⟩ := exists_run [.alloc 10, .alloc 20]
    [⟨5068, 20, none⟩, ⟨5048, 10, none⟩] (by decide +kernel)
  obtain ⟨hsound, hdisjoint, -⟩ := live_blocks_sound hok (by decide) (by decide)
    (show Registered (fun _ => 0) 0 [] from rfl) (by simp [Apart]) hr
  exact ⟨s, hlive, hsound, hdisjoint⟩

/-- One kilobyte at address 4096 after the allocation of ten bytes. -/
theorem realloc_preserves_first_block : ∃ (s : Client) (m' : Words) (q : ℕ),
    s.live = [⟨5048, 10, none⟩] ∧
    losMemRealloc s.mem 4096 5048 20 = some (m', q) ∧ (q ≠ 0 → SameBytes s.mem m' 5048 q 10) := by
  have hrun : ((losMemInit ⟨fun _ => 0, 0⟩ 4096 1024).bind fun r =>
      (step 4096 ⟨r.1.mem, []⟩ (.alloc 10)).map fun s =>
        (r.2, s.live, osGetRealPtr s.mem 4096 5048)) =
      some (.losOk, [⟨5048, 10, none⟩], 5048) := by decide +kernel
  obtain ⟨⟨sys', ret⟩, hok, hmap⟩ := Option.bind_eq_some_iff.mp hrun
  obtain ⟨s, hs, hval⟩ := Option.map_eq_some_iff.mp hmap
  simp only [Prod.mk.injEq] at hval
  obtain ⟨rfl, hlive, hreal⟩ := hval
  obtain ⟨m', q, hm, -, hiff⟩ := realloc_preserves_iff hok (by decide) (by decide)
    (show Registered (fun _ => 0) 0 [] from rfl) (by simp [Apart])
    (.step .start (show Valid _ (.alloc 10) from trivial) hs)
    (show ⟨5048, 10, none⟩ ∈ s.live by simp [hlive]) (show (20 : UInt32) ≠ 0 by decide)
  refine ⟨s, m', q, hlive, hm, fun hq => (hiff hq).mpr fun k _ => ?_⟩
  rw [hreal]

/-- Eight bytes lie between the node and the boundary; after the reallocation the block starts at
the node, where the client never wrote. -/
theorem realloc_shifts_aligned_block : (do
    let (sys, _) ← losMemInit ⟨fun _ => 0, 0⟩ 4096 2048
    let s ← step 4096 ⟨sys.mem, []⟩ (.allocAlign 16 64)
    let s ← step 4096 s (.store 5056 0 7)
    let (m, q) ← losMemRealloc s.mem 4096 5056 32
    return (s.live, q, s.mem.byteAt 5056, m.byteAt q)) =
      some ([⟨5056, 16, some 64⟩], 5048, 7, 0) := by decide +kernel

end Runs
end LiteOS.Memory
