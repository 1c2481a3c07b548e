import LiteOS.Memory.Search
import Mathlib.Data.List.Chain

/-!
# The operations on a settled heap

A heap is settled when no chunk is loose and no two neighbours are both free. Every public
operation starts from and returns to a settled heap, and keeps the used chunks it was not
asked to change.
-/

namespace LiteOS.Memory

open Lib Chunk Words Option List

/-- Nothing is in transit and free chunks have been joined. -/
structure Settled (cs : List Chunk) : Prop where
  listed : ∀ c ∈ cs, c.use ≠ .loose
  apart : cs.IsChain fun c d => ¬ (c.use = .free ∧ d.use = .free)

variable {P : Extent} {m m' : Words} {cs pre post : List Chunk} {c d : Chunk} {a s size x n : ℕ}

theorem settled_append : Settled (pre ++ post) ↔ Settled pre ∧ Settled post ∧
    ∀ c ∈ pre.getLast?, ∀ d ∈ post.head?, ¬ (c.use = .free ∧ d.use = .free) := by
  constructor
  · rintro ⟨h1, h2⟩
    obtain ⟨h3, h4, h5⟩ := isChain_append.mp h2
    exact ⟨⟨fun c hc => h1 c (by simp [hc]), h3⟩, ⟨fun c hc => h1 c (by simp [hc]), h4⟩, h5⟩
  · rintro ⟨⟨h1, h2⟩, ⟨h3, h4⟩, h5⟩
    refine ⟨fun c hc => ?_, isChain_append.mpr ⟨h2, h4, h5⟩⟩
    rcases mem_append.mp hc with hc | hc
    · exact h1 c hc
    · exact h3 c hc

theorem settled_cons : Settled (c :: post) ↔ c.use ≠ .loose ∧ Settled post ∧
    ∀ d ∈ post.head?, ¬ (c.use = .free ∧ d.use = .free) := by
  constructor
  · rintro ⟨h1, h2⟩
    obtain ⟨h3, h4⟩ := isChain_cons.mp h2
    exact ⟨h1 c (by simp), ⟨fun d hd => h1 d (by simp [hd]), h4⟩, h3⟩
  · rintro ⟨h1, ⟨h2, h3⟩, h4⟩
    refine ⟨fun d hd => ?_, isChain_cons.mpr ⟨h4, h3⟩⟩
    rcases mem_cons.mp hd with rfl | hd
    · exact h1
    · exact h2 d hd

theorem settled_used (hc : c.isUsed) : Settled (pre ++ c :: post) ↔ Settled pre ∧ Settled post := by
  have hl := not_isUsed_of_loose (c := c)
  have hf := not_isUsed_of_free (c := c)
  rw [settled_append, settled_cons]
  constructor
  · rintro ⟨h1, ⟨-, h2, -⟩, -⟩
    exact ⟨h1, h2⟩
  · rintro ⟨h1, h2⟩
    refine ⟨h1, ⟨fun h => hl h hc, h2, fun d _ h => hf h.1 hc⟩, ?_⟩
    simp only [head?_cons, mem_def, some.injEq, forall_eq']
    exact fun d _ h => hf h.2 hc

theorem settled_free (hc : c.use = .free) : Settled (pre ++ c :: post) ↔ Settled pre ∧
    Settled post ∧ (∀ d ∈ pre.getLast?, d.use ≠ .free) ∧ ∀ d ∈ post.head?, d.use ≠ .free := by
  rw [settled_append, settled_cons]
  simp only [hc, head?_cons, mem_def, some.injEq, forall_eq']
  tauto

/-! ### Neighbours -/

/-- The node behind a chunk is unused exactly when it is an unused chunk: the end node counts
as used. -/
theorem Layout.next_flag (h : Layout P m (pre ++ c :: post)) :
    osMemNodeGetUsedFlag (m (c.addr + c.size + 4)) = 0 ↔ ∃ d l, post = d :: l ∧ ¬ d.isUsed := by
  have hend := (Tiles.split_iff.mp h.tiles).2.2
  cases post with
  | nil =>
    rw [show c.addr + c.size = P.last from hend, h.sentinel]
    simp [osMemNodeGetUsedFlag, osMemNodeUsedFlag]
  | cons d l =>
    have hd : d ∈ pre ++ c :: d :: l := by simp
    rw [← hend.1, h.words d hd, usedFlag_word (h.size_lt hd)]
    simp

theorem Layout.prev_cases (h : Layout P m (pre ++ c :: post)) :
    (pre = [] ∧ c.addr = P.first ∧ m c.addr = P.last) ∨
      ∃ l d, pre = l ++ [d] ∧ m c.addr = d.addr ∧ d.addr + d.size = c.addr := by
  rcases eq_nil_or_concat pre with rfl | ⟨l, d, rfl⟩
  · exact .inl ⟨rfl, h.tiles.1, h.back.1⟩
  · refine .inr ⟨l, d, by simp, ?_⟩
    have h' : Layout P m (l ++ d :: c :: post) := by simpa using h
    have hn := h'.next_addr
    rw [hn]
    exact ⟨h'.back_next, rfl⟩

theorem Layout.next_node (h : Layout P m cs) (hc : c ∈ cs) :
    osMemNextNode m c.addr = c.addr + c.size := by
  rw [osMemNextNode, sizeAndFlagAt, h.words c hc, size_word (h.size_lt hc)]

theorem Layout.sum_lt {P : Region} (h : Layout P m (pre ++ c :: post)) (hd : d ∈ post.head?) :
    c.size + d.size < 2 ^ 28 := by
  obtain ⟨l, rfl⟩ := head?_eq_some_iff.mp hd
  have hP := P.geometry
  have hsmall := P.small
  have hc := h.bounds (c := c) (by simp)
  have hd := h.bounds (c := d) (by simp)
  have hadj := h.next_addr
  omega

/-- The headers of the chunks and the backlink of the end node lie in no payload. -/
theorem Layout.payload_ne (h : Layout P m cs) (hd : d ∈ cs) (hc : c ∈ cs)
    (hx : d.Payload x) : x ≠ c.addr + 4 ∧ x ≠ c.addr + c.size := by
  obtain ⟨h1, h2⟩ := hx
  rcases h.tiles.apart hd hc with rfl | hdc | hdc <;> omega

/-- A free chunk is taken off its list and joined to the loose chunk before it. -/
theorem Heap.swallow (h : Heap P m (pre ++ c :: d :: post)) (hc : c.use = .loose)
    (hd : d.use = .free) (hlt : c.size + d.size < 2 ^ 28) : Becomes P a m (pre ++ c :: d :: post)
        (osMemMergeNode (osMemFreeNodeDelete m P.pool d.addr) d.addr)
        (pre ++ ⟨c.addr, c.size + d.size, .loose⟩ :: post) ∧
      ∀ e ∈ pre ++ [c], e.use ≠ .free → ∀ x, e.Payload x →
        osMemMergeNode (osMemFreeNodeDelete m P.pool d.addr) d.addr x = m x := by
  have h' : Heap P m ((pre ++ [c]) ++ d :: post) := by simpa using h
  obtain ⟨hdel', hpay⟩ := h'.delete hd
  have hdel : Becomes P a m (pre ++ c :: d :: post) (osMemFreeNodeDelete m P.pool d.addr)
      (pre ++ c :: { d with use := .loose } :: post) := by simpa using hdel'
  refine ⟨hdel.trans (hdel.heap.merge hc rfl hlt), fun e he heu x hx => ?_⟩
  have he' : e ∈ pre ++ [c] ++ d :: post := mem_append_left _ he
  have hxc := h'.layout.payload_ne he' (c := c) (by simp) hx
  have hxd := h'.layout.payload_ne he' (c := d) (by simp) hx
  rw [show osMemMergeNode _ d.addr = _ from hdel.heap.layout.merge_eq hc rfl,
    write_of_ne _ _ hxd.2, write_of_ne _ _ hxc.1]
  exact hpay e he' (fun h => heu (h ▸ hd)) heu x hx

/-- Join the node before `n` with the node at `n` if that is free. -/
def joinNext (m : Words) (pool n : ℕ) : Words :=
  if osMemNodeGetUsedFlag (m (sizeAndFlagAt n)) = 0 then
    osMemMergeNode (osMemFreeNodeDelete m pool n) n
  else m

section

variable (h : Heap P m (pre ++ c :: post)) (hc : c.use = .loose)
include h hc

theorem Heap.absorb (hp : Settled post)
    (hsum : ∀ d ∈ post.head?, d.use = .free → c.size + d.size < 2 ^ 28) (hn : n = c.addr + c.size) :
    ∃ s post', Settled post' ∧ (∀ d ∈ post'.head?, d.use ≠ .free) ∧
      Becomes P a m (pre ++ c :: post) (joinNext m P.pool n) (pre ++ ⟨c.addr, s, .loose⟩ :: post') ∧
      ∀ d ∈ pre ++ [c], d.use ≠ .free → ∀ x, d.Payload x → joinNext m P.pool n x = m x := by
  subst hn
  have hc' : c = ⟨c.addr, c.size, .loose⟩ := by rw [← hc]
  rw [joinNext]
  split_ifs with hflag
  · obtain ⟨d, l, rfl, hd⟩ := h.layout.next_flag.mp hflag
    obtain ⟨hloose, hl, hfree⟩ := settled_cons.mp hp
    have hdf := use_eq_free hloose hd
    have hjoin := h.swallow (a := a) hc hdf (hsum d (by simp) hdf)
    rw [h.layout.next_addr] at hjoin
    refine ⟨c.size + d.size, l, hl, fun e he => ?_, hjoin⟩
    tauto
  · refine ⟨c.size, post, hp, fun d hd hdf => hflag (h.layout.next_flag.mpr ?_), ?_,
      fun _ _ _ _ _ => rfl⟩
    · obtain ⟨l, rfl⟩ := head?_eq_some_iff.mp hd
      exact ⟨d, l, rfl, not_isUsed_of_free hdf⟩
    · rw [← hc']
      exact .refl h

/-- Splitting a loose chunk lists what is left over, joined with a free successor. -/
theorem osMemSplitNode_spec
    (hs : 16 ≤ s) (hs4 : s % 4 = 0) (hfit : s + 16 ≤ c.size) (hp : Settled post)
    (hsum : ∀ d ∈ post.head?, d.use = .free → c.size + d.size < 2 ^ 28) :
    ∃ m' post', osMemSplitNode m P.pool c.addr s = some m' ∧ Settled post' ∧
      Becomes P a m (pre ++ c :: post) m' (pre ++ ⟨c.addr, s, .loose⟩ :: post') ∧
      ∀ x, c.addr + 8 ≤ x → x < c.addr + s → m' x = m x := by
  have hcm : c ∈ pre ++ c :: post := by simp
  have hlt := h.layout.size_lt hcm
  have hword := h.layout.loose_word hcm hc
  have hsplit := h.split (a := a) hc hs hs4 hfit
  have hsplit' : Heap P (splitHeaders m c.addr c.size s)
      ((pre ++ [⟨c.addr, s, .loose⟩]) ++ ⟨c.addr + s, c.size - s, .loose⟩ :: post) := by
    simpa using hsplit.heap
  have hrest : ∀ d ∈ post.head?, d.use = .free → c.size - s + d.size < 2 ^ 28 := fun d hd hf => by
    have := hsum d hd hf
    omega
  obtain ⟨r, post', hp', hhead, habs, hpay⟩ := hsplit'.absorb rfl hp hrest
    (n := c.addr + c.size) (by simp only; omega)
  obtain ⟨m', hm', hadd, hpay'⟩ := habs.heap.add rfl
  have hsize : m.write (c.addr + s) c.addr (c.addr + 4) = c.size := by
    rw [write_of_ne _ _ (by omega), hword]
  have hfirst : (((m.write (c.addr + s) c.addr).write (c.addr + s + 4) (c.size - s)).write
      (c.addr + 4) s) (c.addr + s + 4) = c.size - s := by
    simp (disch := omega) only [write_of_ne, write_self]
  have hnext : c.addr + s + osMemNodeGetSize (c.size - s) = c.addr + c.size := by
    rw [osMemNodeGetSize_eq, Nat.mod_eq_of_lt (by omega)]
    omega
  refine ⟨m', ⟨c.addr + s, r, .free⟩ :: post', ?_, ?_, ?_, fun x h1 h2 => ?_⟩
  · rw [← hm']
    simp only [osMemSplitNode, prevAt, sizeAndFlagAt, osMemNextNode, hsize, hfirst, hnext]
    rfl
  · refine settled_cons.mpr ⟨by simp, hp', fun d hd hf => hhead d hd hf.2⟩
  · refine hsplit.trans ?_
    simpa using habs.trans hadd
  · rw [hpay' ⟨c.addr, s, .loose⟩ (by simp) (fun he => ?_) (by simp) x ⟨h1, h2⟩,
      hpay ⟨c.addr, s, .loose⟩ (by simp) (by simp) x ⟨h1, h2⟩, splitHeaders]
    simp (disch := omega) only [write_of_ne]
    have := congrArg addr he
    simp only at this
    omega

end

theorem mergePrev_spec {P : Region} (h : Heap P m (pre ++ c :: post)) (hc : c.use = .loose)
    (hp : Settled pre) : ∃ m' b s pre', mergePrev m P.pool c.addr = (m', b) ∧ Settled pre' ∧
      (∀ d ∈ pre'.getLast?, d.use ≠ .free) ∧
      Becomes P a m (pre ++ c :: post) m' (pre' ++ ⟨b, s, .loose⟩ :: post) := by
  have hP := P.geometry
  have hc' : c = ⟨c.addr, c.size, .loose⟩ := by rw [← hc]
  rcases h.layout.prev_cases with ⟨rfl, -, hprev⟩ | ⟨l, d, rfl, hprev, hadj⟩
  · refine ⟨m, c.addr, c.size, [], ?_, hp, by simp, ?_⟩
    · simp only [mergePrev, prevAt, sizeAndFlagAt, hprev, h.layout.sentinel]
      rw [if_neg]
      simp [osMemNodeGetUsedFlag, osMemNodeUsedFlag]
    · rw [← hc']
      exact .refl h
  · have h' : Heap P m (l ++ d :: c :: post) := by simpa using h
    have hdm : d ∈ l ++ d :: c :: post := by simp
    have hdb := h'.layout.bounds hdm
    have hflag : osMemNodeGetUsedFlag (m (d.addr + 4)) = 0 ↔ ¬ d.isUsed := by
      rw [h'.layout.words d hdm, usedFlag_word (h'.layout.size_lt hdm)]
    obtain ⟨hl, hd, hlast⟩ := settled_append.mp hp
    by_cases hu : d.isUsed
    · refine ⟨m, c.addr, c.size, l ++ [d], ?_, hp, ?_, ?_⟩
      · simp only [mergePrev, prevAt, hprev]
        rw [if_neg]
        rintro ⟨-, h0⟩
        exact hflag.mp h0 hu
      · simp only [getLast?_append, getLast?_singleton, some_or, mem_def, some.injEq, forall_eq']
        exact fun hf => not_isUsed_of_free hf hu
      · rw [← hc']
        exact .refl h
    · have hdf := use_eq_free (hd.listed d (by simp)) hu
      obtain ⟨hdel, -⟩ := h'.delete (a := a) hdf
      have hmerge := hdel.heap.merge (a := a) rfl hc (h'.layout.sum_lt (by simp))
      refine ⟨osMemMergeNode (osMemFreeNodeDelete m P.pool d.addr) c.addr, d.addr,
        d.size + c.size, l, ?_, hl, ?_, ?_⟩
      · simp only [mergePrev, prevAt, hprev]
        rw [if_pos ⟨by omega, hflag.mpr hu⟩]
      · intro e he hef
        exact hlast e he d (by simp) ⟨hef, hdf⟩
      · have hcs : l ++ [d] ++ c :: post = l ++ d :: c :: post := by simp
        rw [hcs]
        exact hdel.trans hmerge

/-! ### Release -/

section

variable (h : Layout P m cs) (hc : c ∈ cs)
include h hc

theorem Layout.used_flag (hu : c.isUsed) : osMemNodeGetUsedFlag (m (sizeAndFlagAt c.addr)) ≠ 0 := by
  rw [sizeAndFlagAt, h.words c hc]
  exact fun h0 => (usedFlag_word (h.size_lt hc)).mp h0 hu

theorem Layout.prev_valid : osMemAddrValidCheck m P.pool (m c.addr) := by
  have hP := P.geometry
  obtain ⟨pre, post, rfl⟩ := append_of_mem hc
  rw [osMemAddrValidCheck, h.total, show osMemPoolHeadSize = 944 from rfl]
  rcases h.prev_cases with ⟨-, -, hm⟩ | ⟨l, d, rfl, hm, -⟩
  · omega
  · have := h.bounds (c := d) (by simp)
    omega

theorem Layout.node_valid : osMemIsNodeValid m c.addr P.first P.last P.pool := by
  have := h.bounds hc
  exact ⟨⟨by omega, by omega⟩, .inr (h.prev_valid hc)⟩

theorem osMemCheckUsedNode_used (hu : c.isUsed) : osMemCheckUsedNode m P.pool c.addr = .losOk := by
  have hP := P.geometry
  have hcb := h.bounds hc
  have hend : osMemEndNode P.pool (m (totalSizeAt P.pool)) = P.last := by rw [h.total]; rfl
  have hnext := h.next_node hc
  have hnode := h.node_valid hc
  have hflag := h.used_flag hc hu
  obtain ⟨pre, post, rfl⟩ := append_of_mem hc
  have hback := h.back_next
  have hnextv : osMemIsNodeValid m (c.addr + c.size) P.first P.last P.pool := by
    refine ⟨⟨by omega, by omega⟩, .inr ?_⟩
    rw [osMemAddrValidCheck, prevAt, hback, h.total, show osMemPoolHeadSize = 944 from rfl]
    omega
  have hprev : ¬ (c.addr ≠ P.first ∧ (¬ osMemIsNodeValid m (m c.addr) P.first P.last P.pool ∨
      osMemNextNode m (m c.addr) ≠ c.addr)) := by
    rintro ⟨hne, hbad⟩
    rcases h.prev_cases with ⟨-, hc, -⟩ | ⟨l, d, rfl, hm, hadj⟩
    · exact hne hc
    · have hd : d ∈ l ++ [d] ++ c :: post := by simp
      rw [hm, h.next_node hd] at hbad
      exact hbad.elim (fun hv => hv (h.node_valid hd)) fun hn => hn hadj
  simp only [osMemCheckUsedNode, hend, P.first_eq, hnext, prevAt]
  rw [if_neg (not_not.mpr hnode), if_neg hflag, if_neg (not_not.mpr hnextv),
    if_neg (not_not.mpr hback), if_neg hprev]

end

theorem osMemFree_spec {P : Region} (h : Heap P m (pre ++ c :: post))
    (hs : Settled (pre ++ c :: post)) (hu : c.isUsed) :
    ∃ m' cs', osMemFree m P.pool c.addr = some (m', .losOk) ∧ Settled cs' ∧
      Becomes P c.addr m (pre ++ c :: post) m' cs' := by
  have hcm : c ∈ pre ++ c :: post := by simp
  have hcheck := osMemCheckUsedNode_used h.layout hcm hu
  obtain ⟨hpre, hpost⟩ := (settled_used hu).mp hs
  -- the accounting word does not belong to the layout
  have hinfo := h.write_info (a := c.addr) (x := P.pool + 16)
    (v := u32 (m (P.pool + 16) + 2 ^ 32 - osMemNodeGetSize (m (c.addr + 4)))) (by omega) (by omega)
  generalize hm1 : m.write (P.pool + 16)
    (u32 (m (P.pool + 16) + 2 ^ 32 - osMemNodeGetSize (m (c.addr + 4)))) = m1 at hinfo
  have hun := hinfo.heap.unflag hu
  have hsize : osMemNodeGetSize (m1 (c.addr + 4)) = c.size := by
    rw [hinfo.heap.layout.words c hcm, size_word (h.layout.size_lt hcm)]
  obtain ⟨m3, b, s, pre', hprev, hpre', hlast, hbec⟩ :=
    mergePrev_spec (a := c.addr) hun.heap rfl hpre
  have hbm : (⟨b, s, .loose⟩ : Chunk) ∈ pre' ++ ⟨b, s, .loose⟩ :: post := by simp
  have hbb := hbec.heap.layout.bounds hbm
  have hnext := hbec.heap.layout.next_node hbm
  simp only at hbb hnext
  obtain ⟨r, post', hpost', hhead, habs, -⟩ :=
    hbec.heap.absorb rfl hpost (fun d hd _ => hbec.heap.layout.sum_lt hd)
      rfl
  obtain ⟨m', hm', hadd, -⟩ := habs.heap.add rfl
  refine ⟨m', pre' ++ ⟨b, r, .free⟩ :: post', ?_,
    (settled_free rfl).mpr ⟨hpre', hpost', hlast, hhead⟩,
    hinfo.trans (hun.trans (hbec.trans (habs.trans hadd)))⟩
  have hmerge : mergeNext m3 P.pool b = joinNext m3 P.pool (b + s) := by
    simp only [mergeNext, joinNext, hnext, show b + s ≠ 0 by omega, ne_eq,
      not_false_eq_true, true_and]
  rw [osMemFree, if_neg (by simp [hcheck])]
  simp only [curUsedSizeAt, sizeAndFlagAt, hm1, hsize, hprev, hmerge]
  rw [hm']
  rfl

/-! ### Allocation -/

theorem Heap.waterUsedRecord (h : Heap P m cs) :
    Becomes P a m cs (osMemWaterUsedRecord m P.pool n) cs := by
  have h1 := h.write_info (a := a) (x := P.pool + 16) (v := u32 (m (P.pool + 16) + n))
    (by omega) (by omega)
  have h2 := fun v => h1.heap.write_info (a := a) (x := P.pool + 12) (v := v) (by omega) (by omega)
  unfold osMemWaterUsedRecord
  by_cases hlt : (m.write (P.pool + 16) (u32 (m (P.pool + 16) + n))) (P.pool + 12) <
      (m.write (P.pool + 16) (u32 (m (P.pool + 16) + n))) (P.pool + 16)
  · simp only [curUsedSizeAt, waterLineAt, hlt]
    exact h1.trans (h2 _)
  · simp only [curUsedSizeAt, waterLineAt, hlt]
    exact h1

/-- A chunk handed out by an operation on `cs`: above its gap it holds `size` bytes, and it is
none of the used chunks, apart from the one at `a`. -/
structure Granted (cs cs' : List Chunk) (a size g : ℕ) (c : Chunk) : Prop where
  mem : c ∈ cs'
  use : c.use = .used g
  room : size + 8 + g ≤ c.size
  fresh : ∀ d ∈ cs, d.isUsed → d.addr ≠ a → d.addr ≠ c.addr

theorem request_of_size (h8 : 8 ≤ size) (hlt : size < 2 ^ 30) :
    Request (osMemAlign (size + osMemNodeHeadSize) osMemAlignSize) ∧
      size + 8 ≤ osMemAlign (size + osMemNodeHeadSize) osMemAlignSize ∧
      osMemAlign (size + osMemNodeHeadSize) osMemAlignSize < size + 12 := by
  have h : osMemAlign (size + osMemNodeHeadSize) osMemAlignSize = (size + 8 + 3) / 4 * 4 :=
    osMemAlign_four (by simp only [osMemNodeHeadSize]; omega)
  rw [h]
  exact ⟨⟨by omega, by omega, by omega⟩, by omega⟩

/-- Cut a loose chunk to the requested size if the rest can stand alone, and hand it out. -/
theorem Heap.trim (h : Heap P m (pre ++ c :: post)) (hc : c.use = .loose) (hs : Request s)
    (hle : s ≤ c.size) (hpre : Settled pre) (hpost : Settled post)
    (hhead : ∀ d ∈ post.head?, d.use ≠ .free) :
    ∃ m' t post', splitIfLarge m P.pool c.addr s = some m' ∧ s ≤ t ∧
      Settled (pre ++ ⟨c.addr, t, .used 0⟩ :: post') ∧
      Becomes P a m (pre ++ c :: post) m' (pre ++ ⟨c.addr, t, .loose⟩ :: post') ∧
      ∀ x, c.addr + 8 ≤ x → x < c.addr + s → m' x = m x := by
  have hcm : c ∈ pre ++ c :: post := by simp
  have hword := h.layout.loose_word hcm hc
  simp only [splitIfLarge, sizeAndFlagAt, hword]
  split_ifs with hsplit
  · obtain ⟨m', post', hm', hp', hb⟩ :=
      osMemSplitNode_spec h hc hs.pos hs.fine hsplit hpost fun d hd hf =>
        absurd hf (hhead d hd)
    exact ⟨m', s, post', hm', le_rfl, (settled_used ⟨0, rfl⟩).mpr ⟨hpre, hp'⟩, hb⟩
  · refine ⟨m, c.size, post, rfl, hle, (settled_used ⟨0, rfl⟩).mpr ⟨hpre, hpost⟩, ?_,
      fun _ _ _ => rfl⟩
    rw [show (⟨c.addr, c.size, .loose⟩ : Chunk) = c by rw [← hc]]
    exact .refl h

/-- Allocation changes nothing and returns null when no free chunk is large enough, or hands out
a free chunk. -/
theorem osMemAlloc_spec (h : Heap P m cs) (hs : Settled cs) (h8 : 8 ≤ size) (hlt : size < 2 ^ 30) :
    (osMemAlloc m P.pool size = some (m, 0) ∧ ∀ c ∈ cs, c.use = .free →
        c.size < osMemAlign (size + osMemNodeHeadSize) osMemAlignSize) ∨
      ∃ m' cs' c, osMemAlloc m P.pool size = some (m', c.addr + 8) ∧ Settled cs' ∧
        Becomes P 0 m cs m' cs' ∧ Granted cs cs' 0 size 0 c := by
  obtain ⟨hreq, hle, -⟩ := request_of_size h8 hlt
  generalize hsz : osMemAlign (size + osMemNodeHeadSize) osMemAlignSize = s at hreq hle
  rcases osMemFreeNodeGet_spec (a := 0) h hreq with
    ⟨hnone, hfull⟩ | ⟨pre, c, post, m1, rfl, hc, hcs, -, hget, hb1⟩
  · exact .inl ⟨by simp [osMemAlloc, hsz, hnone], hfull⟩
  · obtain ⟨hpre, hpost, -, hhead⟩ := (settled_free hc).mp hs
    have hcm : c ∈ pre ++ c :: post := by simp
    have hcb := h.layout.bounds hcm
    have hP := P.geometry
    obtain ⟨m2, t, post', hm2, hst, hset, hb2, -⟩ :=
      hb1.heap.trim (a := 0) rfl hreq hcs hpre hpost hhead
    have hb3 := hb2.heap.flag (a := 0) rfl
    have hb4 := hb3.heap.waterUsedRecord (a := 0)
      (n := osMemNodeGetSize ((m2.write (c.addr + 4) (osMemNodeSetUsedFlag (m2 (c.addr + 4))))
        (c.addr + 4)))
    refine .inr ⟨_, _, ⟨c.addr, t, .used 0⟩, ?_, hset,
      hb1.trans (hb2.trans (hb3.trans hb4)), by simp, rfl, ?_, ?_⟩
    · simp only [osMemAlloc, hsz, hget, bind_eq_bind, bind_some]
      rw [if_neg (by omega), hm2]
      rfl
    · simp only
      omega
    · intro d hd hu _ he
      have := h.layout.tiles.eq_of_addr (by omega) hd hcm he
      exact not_isUsed_of_free hc (this ▸ hu)

/-! ### Reallocation -/

/-- Shrinking in place, or keeping the chunk when the rest is too small to stand alone. -/
theorem osMemReAllocSmaller_spec {P : Region} (h : Heap P m (pre ++ c :: post))
    (hs : Settled (pre ++ c :: post)) (hu : c.isUsed) (hr : Request s) (hle : s ≤ c.size) :
    ∃ m' t post', osMemReAllocSmaller m P.pool s c.addr c.size = some m' ∧ s ≤ t ∧
      Settled (pre ++ ⟨c.addr, t, .used 0⟩ :: post') ∧
      Becomes P c.addr m (pre ++ c :: post) m' (pre ++ ⟨c.addr, t, .used 0⟩ :: post') ∧
      ∀ x, c.addr + 8 ≤ x → x < c.addr + s → m' x = m x := by
  have hP := P.geometry
  have hcb := h.layout.bounds (c := c) (by simp)
  obtain ⟨hpre, hpost⟩ := (settled_used hu).mp hs
  have hb1 := h.unflag hu
  by_cases hsplit : s + 16 ≤ c.size
  · obtain ⟨m2, post', hm2, hp', hb2, hpay⟩ :=
      osMemSplitNode_spec (a := c.addr) hb1.heap rfl hr.pos hr.fine hsplit hpost fun d hd _ =>
        hb1.heap.layout.sum_lt hd
    have hb3 := hb2.heap.write_info (a := c.addr) (x := P.pool + 16)
      (v := u32 (m2 (P.pool + 16) + 2 ^ 32 - (c.size - s))) (by omega) (by omega)
    have hb4 := hb3.heap.flag (a := c.addr) rfl
    refine ⟨_, s, post', ?_, le_rfl, (settled_used ⟨0, rfl⟩).mpr ⟨hpre, hp'⟩,
      hb1.trans (hb2.trans (hb3.trans hb4)), fun x h1 h2 => ?_⟩
    · simp only at hm2
      simp only [osMemReAllocSmaller, osMemMinLeftSize, if_pos hsplit, sizeAndFlagAt, curUsedSizeAt,
        hm2, bind_eq_bind, bind_some]
      rfl
    · rw [write_of_ne _ _ (by simp only; omega), write_of_ne _ _ (by omega),
        hpay x h1 h2, write_of_ne _ _ (by omega)]
  · have hb2 := hb1.heap.flag (a := c.addr) rfl
    refine ⟨_, c.size, post, ?_, hle, (settled_used ⟨0, rfl⟩).mpr ⟨hpre, hpost⟩, hb1.trans hb2,
      fun x h1 h2 => ?_⟩
    · simp only [osMemReAllocSmaller, if_neg (show ¬ s + osMemMinLeftSize ≤ c.size from hsplit)]
      rfl
    · rw [write_of_ne _ _ (by simp only; omega), write_of_ne _ _ (by omega)]

theorem osMemMergeNodeForReAllocBigger_spec {P : Region} (h : Heap P m (pre ++ c :: d :: post))
    (hs : Settled (pre ++ c :: d :: post)) (hu : c.isUsed) (hd : d.use = .free)
    (hr : Request s) (hle : s ≤ c.size + d.size) :
    ∃ m' t post', osMemMergeNodeForReAllocBigger m P.pool s c.addr c.size d.addr = some m' ∧
      s ≤ t ∧ Settled (pre ++ ⟨c.addr, t, .used 0⟩ :: post') ∧
      Becomes P c.addr m (pre ++ c :: d :: post) m' (pre ++ ⟨c.addr, t, .used 0⟩ :: post') ∧
      ∀ x, c.Payload x → x < c.addr + s → m' x = m x := by
  have hP := P.geometry
  have hcb := h.layout.bounds (c := c) (by simp)
  obtain ⟨hpre, hpost⟩ := (settled_used hu).mp hs
  have hb1 := h.unflag hu
  obtain ⟨hb3, hpay⟩ := hb1.heap.swallow rfl hd (hb1.heap.layout.sum_lt (by simp))
  obtain ⟨-, hpost', hhead⟩ := settled_cons.mp hpost
  obtain ⟨m4, t, post', hm4, hst, hset, hb4, hpay4⟩ :=
    hb3.heap.trim (a := c.addr) rfl hr hle hpre hpost' fun e he hf => hhead e he ⟨hd, hf⟩
  have hb5 := hb4.heap.flag (a := c.addr) rfl
  have hb6 := fun a => hb5.heap.waterUsedRecord (a := a)
    (n := osMemNodeGetSize ((m4.write (c.addr + 4) (osMemNodeSetUsedFlag (m4 (c.addr + 4))))
      (c.addr + 4)) - c.size)
  refine ⟨_, t, post', ?_, hst, hset,
    hb1.trans (hb3.trans (hb4.trans (hb5.trans (hb6 _)))), fun x hx hlt => ?_⟩
  · simp only at hm4
    simp only [osMemMergeNodeForReAllocBigger, sizeAndFlagAt, hm4]
    rfl
  · obtain ⟨h1, h2⟩ := hx
    rw [((hb6 0).kept ⟨c.addr, t, .used 0⟩ (by simp) ⟨0, rfl⟩ (by simp only; omega)).2 x
      ⟨h1, by simp only; omega⟩, write_of_ne _ _ (by simp only; omega), hpay4 x h1 hlt,
      hpay ⟨c.addr, c.size, .loose⟩ (by simp) (by simp) x ⟨h1, h2⟩,
      write_of_ne _ _ (by omega)]

theorem Heap.copy (dst src : ℕ) (h : Heap P m cs) (hc : c ∈ cs) (hu : c.isUsed)
    (h1 : c.addr + 8 + c.gap ≤ dst) (h2 : dst + 4 * n ≤ c.addr + c.size) :
    Heap P (m.copy dst src n) cs := by
  induction n with
  | zero => exact h
  | succ n ih => exact (ih (by omega)).store hc hu (by omega) (by omega)

/-- Where the content of a reallocated block ends up: in place, or in a fresh chunk while the
old one is released. -/
theorem osMemRealloc_spec {P : Region} (h : Heap P m (pre ++ c :: post))
    (hs : Settled (pre ++ c :: post)) (hu : c.isUsed) (h8 : 8 ≤ size) (hlt : size < 2 ^ 30) :
    osMemRealloc m P.pool (c.addr + 8) c.addr size = some (m, 0) ∨
      ∃ m' cs' c', osMemRealloc m P.pool (c.addr + 8) c.addr size = some (m', c'.addr + 8) ∧
        Settled cs' ∧ Becomes P c.addr m (pre ++ c :: post) m' cs' ∧
        Granted (pre ++ c :: post) cs' c.addr size 0 c' ∧ ∀ i, 8 + 4 * i < c.size → 4 * i < size →
          m' (c'.addr + 8 + 4 * i) = m (c.addr + 8 + 4 * i) := by
  obtain ⟨hreq, hle, hmax⟩ := request_of_size h8 hlt
  generalize hsz : osMemAlign (size + osMemNodeHeadSize) osMemAlignSize = s at hreq hle hmax
  have hP := P.geometry
  have hcm : c ∈ pre ++ c :: post := by simp
  have hcb := h.layout.bounds hcm
  have hnode : osMemNodeGetSize (m (sizeAndFlagAt c.addr)) = c.size := by
    rw [sizeAndFlagAt, h.layout.words c hcm, size_word (h.layout.size_lt hcm)]
  have hnext := h.layout.next_node hcm
  have hfine := h.layout.fine c hcm
  have hfresh : ∀ d ∈ pre ++ c :: post, d.isUsed → d.addr ≠ c.addr → d.addr ≠ c.addr :=
    fun _ _ _ h => h
  by_cases hsmall : s ≤ c.size
  · obtain ⟨m', t, post', hm', hst, hset, hb, hpay⟩ := osMemReAllocSmaller_spec h hs hu hreq hsmall
    refine .inr ⟨m', _, ⟨c.addr, t, .used 0⟩, ?_, hset, hb, ⟨by simp, rfl, ?_, hfresh⟩, ?_⟩
    · simp [osMemRealloc, hsz, hnode, hsmall, hm']
    · simp only
      omega
    · intro i _ hi
      simp only
      exact hpay _ (by omega) (by omega)
  by_cases hgrow : osMemNodeGetUsedFlag (m (sizeAndFlagAt (c.addr + c.size))) = 0 ∧
      s ≤ m (sizeAndFlagAt (c.addr + c.size)) + c.size
  · obtain ⟨d, l, rfl, hd⟩ := h.layout.next_flag.mp hgrow.1
    have hdm : d ∈ pre ++ c :: d :: l := by simp
    have hdf := use_eq_free (hs.listed d hdm) hd
    have hadj := h.layout.next_addr
    have hword := h.layout.free_word hdm hdf
    have hfit : s ≤ c.size + d.size := by
      rw [sizeAndFlagAt, ← hadj, hword] at hgrow
      omega
    obtain ⟨m', t, post', hm', hst, hset, hb, hpay⟩ :=
      osMemMergeNodeForReAllocBigger_spec h hs hu hdf hreq hfit
    refine .inr ⟨m', _, ⟨c.addr, t, .used 0⟩, ?_, hset, hb, ⟨by simp, rfl, ?_, hfresh⟩, ?_⟩
    · rw [hadj] at hm'
      simp [osMemRealloc, hsz, hnode, hsmall, hnext, hgrow, hm']
    · simp only
      omega
    · intro i hi hlt
      simp only
      exact hpay _ ⟨by omega, by omega⟩ (by omega)
  -- a fresh chunk is taken, filled and handed out; the old one is released
  rcases osMemAlloc_spec h hs h8 hlt with ⟨hnone, -⟩ | ⟨m1, cs1, c', hsome, hset1, hb1, hg⟩
  · refine .inl ?_
    simp only [osMemRealloc, hsz, hnode, if_neg hsmall, hnext, if_neg hgrow, hnone,
      bind_eq_bind, bind_some, if_pos]
    rfl
  · obtain ⟨hcm1, hpay1⟩ := hb1.kept c hcm hu (by omega)
    have hne := hg.fresh c hcm hu (by omega)
    have hc'u : c'.isUsed := ⟨0, hg.use⟩
    have hroom := hg.room
    have hsfine := hreq.fine
    have hgap : c'.gap = 0 := by simp [gap, hg.use]
    have hapart := (hb1.heap.layout.tiles.apart hcm1 hg.mem).resolve_left fun he => hne (he ▸ rfl)
    have hcopy := hb1.heap.copy (c'.addr + 8) (c.addr + 8)
      (n := (c.size - 8) / 4) hg.mem hc'u (by omega) (by omega)
    have hmem : memcpyS m1 (c'.addr + 8) size (c.addr + 8) (c.size - osMemNodeHeadSize) =
        some (m1.copy (c'.addr + 8) (c.addr + 8) ((c.size - 8) / 4)) := by
      rw [memcpyS, osMemNodeHeadSize, if_neg]
      omega
    obtain ⟨pre1, post1, rfl⟩ := append_of_mem hcm1
    obtain ⟨m3, cs3, hfree, hset3, hb3⟩ := osMemFree_spec hcopy hset1 hu
    have hkept : Kept c.addr (pre ++ c :: post) m (pre1 ++ c :: post1)
        (m1.copy (c'.addr + 8) (c.addr + 8) ((c.size - 8) / 4)) := by
      intro d hd hdu hdc
      obtain ⟨hd1, hpay⟩ := hb1.kept d hd hdu (by have := h.layout.bounds hd; omega)
      refine ⟨hd1, fun x hx => ?_⟩
      rw [copy_of_outside, hpay x hx]
      intro i hi
      have := hx.1
      have := hx.2
      rcases hb1.heap.layout.tiles.apart hd1 hg.mem with rfl | hap | hap
      · exact absurd rfl (hg.fresh d hd hdu (by have := h.layout.bounds hd; omega))
      · omega
      · omega
    obtain ⟨hc'3, hpay3⟩ := hb3.kept c' hg.mem hc'u (Ne.symm hne)
    refine .inr ⟨m3, cs3, c', ?_, hset3, ⟨hb3.heap, hkept.trans hb3.kept⟩, ⟨hc'3, hg.use, hroom,
      fun d hd hdu _ => hg.fresh d hd hdu (by have := h.layout.bounds hd; omega)⟩, ?_⟩
    · simp only [osMemRealloc, hsz, hnode, if_neg hsmall, hnext, if_neg hgrow, hsome,
        bind_eq_bind, bind_some]
      rw [if_neg (by omega), hmem]
      simp only [hfree]
      rfl
    · intro i hi _
      rw [hpay3 _ ⟨by omega, by omega⟩, copy_inside _ (by omega) (by omega)]
      exact hpay1 _ ⟨by omega, by omega⟩

end LiteOS.Memory
