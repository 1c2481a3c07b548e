import LiteOS.Lib.Runs
import LiteOS.Memory.Contract

/-!
# Releasing a pointer twice

`LOS_MemFree` finds the node of a pointer through the word below it, the header of the node or the
gap word of an aligned pointer. The first release clears the flags of the header, and the links of
the free list it enters may overwrite the gap word with the address of another free node. What the
second release reads there decides whether it is refused.
-/

namespace LiteOS.Memory

open Lib Words Chunk

variable {P : Region} {m m' : Words} {cs cs' pre post : List Chunk} {c d e : Chunk} {L : ℕ → List ℕ}
  {i n x p pool node w y g : ℕ}

/-! ### The words that list operations write -/

section

variable (h : Heap P m cs) (hd : d ∈ cs) (hf : d.use = .free)
include h hd hf

/-- In the node area, deletion writes only links of the other free chunks. -/
theorem Heap.delete_words (hx : P.first ≤ x) : osMemFreeNodeDelete m P.pool d.addr x = m x ∨
      ∃ e ∈ cs, e.use = .free ∧ e ≠ d ∧ (x = e.addr + 8 ∨ x = e.addr + 12) := by
  obtain ⟨hl, L, hL⟩ := h
  have hP := P.geometry
  have hword := hl.free_word hd hf
  have hn : d.addr ∈ L (osMemFreeListIndexGet d.size) := (hL.mem_iff _ _).mpr ⟨d, hd, hf, rfl, rfl⟩
  rw [osMemFreeNodeDelete, sizeAndFlagAt, hword]
  obtain ⟨h8, h12, -⟩ := osMemListDelete_self hl hL hn
  by_cases hxd : x = d.addr + 8 ∨ x = d.addr + 12
  · rcases hxd with rfl | rfl
    · exact .inl h8
    · exact .inl h12
  by_cases hlink : ∃ e ∈ cs, e.use = .free ∧ e ≠ d ∧ (x = e.addr + 8 ∨ x = e.addr + 12)
  · exact .inr hlink
  refine .inl ((relinked_delete hl hL hn).outside x (by omega) fun b hb => ?_)
  obtain ⟨e, he, heu, rfl, -⟩ := hL.chunk_of_mem (hb.elim id List.mem_of_mem_erase)
  by_cases hed : e = d
  · rw [hed]
    exact not_or.mp hxd
  · exact not_or.mp fun hxe => hlink ⟨e, he, heu, hed, hxe⟩

theorem Heap.delete_head (hi : i < 223) :
    osMemFreeNodeDelete m P.pool d.addr (P.pool + 48 + 4 * i) =
      if m (P.pool + 48 + 4 * i) = d.addr then m (d.addr + 12) else m (P.pool + 48 + 4 * i) := by
  obtain ⟨hl, L, hL⟩ := h
  have hdb := hl.bounds hd
  have hP := P.geometry
  have hword := hl.free_word hd hf
  have hn : d.addr ∈ L (osMemFreeListIndexGet d.size) := (hL.mem_iff _ _).mpr ⟨d, hd, hf, rfl, rfl⟩
  rw [osMemFreeNodeDelete, sizeAndFlagAt, hword]
  by_cases hid : i = osMemFreeListIndexGet d.size
  · rw [hid]
    exact (osMemListDelete_self hl hL hn).2.2
  · rw [(relinked_delete hl hL hn).heads i hi hid, if_neg fun he => hid ?_]
    have hmem := (hL.linked i hi).head_mem (by omega)
    rw [he] at hmem
    exact FreeLists.index_eq hl hL hmem hn

end

/-- In the node area, listing a chunk writes its links and the back link of the former head. -/
theorem Heap.add_words (h : Heap P m cs) (hc : c ∈ cs) (hloose : c.use = .loose)
    (hm : osMemFreeNodeAdd m P.pool c.addr = some m') : m' (c.addr + 8) = 0 ∧
      m' (c.addr + 12) = m (P.pool + 48 + 4 * osMemFreeListIndexGet c.size) ∧
      ∀ x, P.first ≤ x → m' x = m x ∨ x = c.addr + 8 ∨ x = c.addr + 12 ∨
        ∃ e ∈ cs, e.use = .free ∧ x = e.addr + 8 := by
  obtain ⟨hl, L, hL⟩ := h
  have hP := P.geometry
  have hcb := hl.bounds hc
  have hword := hl.loose_word hc hloose
  have hi : osMemFreeListIndexGet c.size ≤ 198 :=
    osMemFreeListIndexGet_le (by omega) (hl.size_lt hc)
  rw [osMemFreeNodeAdd, sizeAndFlagAt, hword, osMemFreeListCount_eq, if_neg (by omega)] at hm
  cases hm
  generalize hhead : m (P.pool + 48 + 4 * osMemFreeListIndexGet c.size) = a
  have ha : a = 0 ∨ a ∈ L (osMemFreeListIndexGet c.size) := by
    by_cases h0 : a = 0
    · exact .inl h0
    · exact .inr (hhead ▸ (hL.linked _ (by omega)).head_mem (hhead ▸ h0))
  have har : a = 0 ∨ P.first ≤ a ∧ a + 16 ≤ P.last :=
    ha.imp_right fun hm => FreeLists.mem_range hl hL hm
  have happly := osMemListAdd_apply (n := c.addr) (show _ < 223 by omega) (by omega) hhead
    (by omega)
  refine ⟨?_, ?_, fun x hx => ?_⟩
  · simp (disch := omega) only [happly, if_neg, if_true]
  · simp (disch := omega) only [happly, if_neg, if_true]
  · rw [happly, if_neg (by omega), if_neg (by omega)]
    split_ifs with h1 h2 h3
    · exact .inr (.inr (.inl h1))
    · exact .inr (.inl h2)
    · obtain ⟨e, he, heu, hea, -⟩ := hL.chunk_of_mem (ha.resolve_left h3.2)
      exact .inr (.inr (.inr ⟨e, he, heu, by rw [hea]; exact h3.1⟩))
    · exact .inl rfl

def IsLink (cs : List Chunk) (x : ℕ) : Prop :=
  ∃ e ∈ cs, e.use = .free ∧ (x = e.addr + 8 ∨ x = e.addr + 12)

theorem Heap.link_cases (h : Heap P m cs) (hx : IsLink cs x) :
    m x = 0 ∨ ∃ e ∈ cs, e.use = .free ∧ m x = e.addr := by
  obtain ⟨hl, L, hL⟩ := h
  obtain ⟨e, he, hu, hx⟩ := hx
  have hn := (hL.mem_iff _ _).mpr ⟨e, he, hu, rfl, rfl⟩
  have hmem : m x = 0 ∨ m x ∈ L (osMemFreeListIndexGet e.size) := by
    obtain ⟨hnext, hprev⟩ := hL.links hl hn
    rcases hx with rfl | rfl
    · exact hprev.imp And.right fun hp => hp.2.1
    · exact hnext.imp_right And.left
  refine hmem.imp_right fun hm => ?_
  obtain ⟨f, hf, hfu, hfa, -⟩ := hL.chunk_of_mem hm
  exact ⟨f, hf, hfu, hfa.symm⟩

/-! ### What a release leaves in the words of a node -/

/-- The node behind `node` is free. -/
def NextFree (m : Words) (node : ℕ) : Prop :=
  osMemNodeGetUsedFlag (m (sizeAndFlagAt (osMemNextNode m node))) = 0
deriving Decidable

/-- The size of a node together with a free successor. -/
def joinedSize (m : Words) (node : ℕ) : ℕ :=
  osMemNodeGetSize (m (sizeAndFlagAt node)) +
    if NextFree m node then m (sizeAndFlagAt (osMemNextNode m node)) else 0

/-- The first node of the list for a node together with a free successor, the successor itself not
counted. -/
def listHead (m : Words) (pool node : ℕ) : ℕ :=
  let head := m (freeListAt pool (osMemFreeListIndexGet (joinedSize m node)))
  if NextFree m node ∧ head = osMemNextNode m node then m (freeNextAt (osMemNextNode m node))
  else head

/-- Joining a free successor changes the size of the node, the backlink of the node behind both and
links of free nodes. -/
theorem Heap.mergeNext_words (h : Heap P m (pre ++ c :: post)) (hc : c.use = .loose)
    (hp : Settled post) : ∃ post', Heap P (mergeNext m P.pool c.addr)
        (pre ++ ⟨c.addr, joinedSize m c.addr, .loose⟩ :: post') ∧ c.size ≤ joinedSize m c.addr ∧
      mergeNext m P.pool c.addr (freeListAt P.pool (osMemFreeListIndexGet (joinedSize m c.addr))) =
        listHead m P.pool c.addr ∧
      ∀ x, P.first ≤ x → mergeNext m P.pool c.addr x = m x ∨ x = c.addr + 4 ∨
        (c.addr + c.size ≤ x ∧ mergeNext m P.pool c.addr x = c.addr) ∨ IsLink (pre ++ post') x := by
  have hP := P.geometry
  have hcm : c ∈ pre ++ c :: post := by simp
  have hcb := h.layout.bounds hcm
  have hnext := h.layout.next_node hcm
  have hsize : osMemNodeGetSize (m (c.addr + 4)) = c.size := by
    rw [h.layout.words c hcm, size_word (h.layout.size_lt hcm)]
  have hc' : c = ⟨c.addr, c.size, .loose⟩ := by rw [← hc]
  by_cases hflag : NextFree m c.addr
  · have hflag' : osMemNodeGetUsedFlag (m (c.addr + c.size + 4)) = 0 := by
      rw [← hnext]
      exact hflag
    obtain ⟨d, l, rfl, hd⟩ := h.layout.next_flag.mp hflag'
    have hdf := use_eq_free (settled_cons.mp hp).1 hd
    have hdm : d ∈ pre ++ c :: d :: l := by simp
    have hadj := h.layout.next_addr
    have h' : Heap P m ((pre ++ [c]) ++ d :: l) := by simpa using h
    have hdel : Heap P (osMemFreeNodeDelete m P.pool d.addr)
        (pre ++ c :: { d with use := .loose } :: l) := by
      simpa using (h'.delete (a := 0) hdf).1.heap
    have hlt := h.layout.sum_lt rfl
    have hmerge := (hdel.merge (a := 0) hc rfl hlt).heap
    have hwords := hdel.layout.merge_eq hc rfl
    have hsum : joinedSize m c.addr = c.size + d.size := by
      rw [joinedSize, if_pos hflag, hnext, ← hadj, sizeAndFlagAt, hsize, sizeAndFlagAt,
        h.layout.words d hdm]
      simp [word, hdf]
    have heq : mergeNext m P.pool c.addr =
        osMemMergeNode (osMemFreeNodeDelete m P.pool d.addr) d.addr := by
      rw [mergeNext, hnext, ← hadj, if_pos ⟨by omega, by rw [hadj]; exact hflag'⟩]
    simp only at hwords hmerge
    rw [heq, hsum, hwords]
    rw [hwords] at hmerge
    have hi : osMemFreeListIndexGet (c.size + d.size) ≤ 198 :=
      osMemFreeListIndexGet_le (by omega) (by omega)
    refine ⟨l, hmerge, by omega, ?_, fun x hx => ?_⟩
    · rw [freeListAt_eq, write_of_ne _ _ (by omega), write_of_ne _ _ (by omega),
        h.delete_head hdm hdf (by omega), listHead, hsum, hnext, ← hadj]
      simp only [hflag, true_and, freeListAt_eq, freeNextAt]
    · by_cases h1 : x = d.addr + d.size
      · exact .inr (.inr (.inl ⟨by omega, by rw [h1, write_self]⟩))
      by_cases h2 : x = c.addr + 4
      · exact .inr (.inl h2)
      rw [write_of_ne _ _ h1, write_of_ne _ _ h2]
      rcases h.delete_words hdm hdf hx with hw | ⟨e, he, heu, hed, hxe⟩
      · exact .inl hw
      · have hec : e ≠ c := fun hec => by rw [hec, hc] at heu; cases heu
        exact .inr (.inr (.inr ⟨e, by simpa [hec, hed] using he, heu, hxe⟩))
  · have heq : mergeNext m P.pool c.addr = m := by
      rw [mergeNext, if_neg fun hbad => hflag hbad.2]
    have hsum : joinedSize m c.addr = c.size := by
      rw [joinedSize, if_neg hflag, sizeAndFlagAt, hsize, Nat.add_zero]
    rw [heq, hsum, ← hc']
    refine ⟨post, h, le_rfl, ?_, fun x _ => .inl rfl⟩
    rw [listHead, hsum]
    simp only [hflag, false_and, if_false]

/-- Listing a loose node together with a free successor: what its first words hold then, and which
other words change. -/
theorem Heap.list_words (h : Heap P m (pre ++ c :: post)) (hc : c.use = .loose)
    (hp : Settled post) : ∃ m' cs',
      osMemFreeNodeAdd (mergeNext m P.pool c.addr) P.pool c.addr = some m' ∧ Heap P m' cs' ∧
      ⟨c.addr, joinedSize m c.addr, .free⟩ ∈ cs' ∧ c.size ≤ joinedSize m c.addr ∧
      m' (c.addr + 8) = 0 ∧ m' (c.addr + 12) = listHead m P.pool c.addr ∧
      ∀ x, P.first ≤ x → m' x = m x ∨ x = c.addr + 4 ∨
        (c.addr + c.size ≤ x ∧ m' x = c.addr) ∨ IsLink cs' x := by
  obtain ⟨post', hheap, hle, hhead, hwords⟩ := h.mergeNext_words hc hp
  obtain ⟨m', hm', hadd, -⟩ := hheap.add (a := 0) rfl
  obtain ⟨h8, h12, hx⟩ := hheap.add_words (by simp) rfl hm'
  refine ⟨m', _, hm', hadd.heap, by simp, hle, h8, h12.trans hhead, fun x hx1 => ?_⟩
  have hlink : IsLink (pre ++ post') x →
      IsLink (pre ++ ⟨c.addr, joinedSize m c.addr, .free⟩ :: post') x := by
    rintro ⟨e, he, heu, hxe⟩
    exact ⟨e, by simp only [List.mem_append] at he ⊢; tauto, heu, hxe⟩
  have hself : x = c.addr + 8 ∨ x = c.addr + 12 →
      IsLink (pre ++ ⟨c.addr, joinedSize m c.addr, .free⟩ :: post') x := fun hxc =>
    ⟨⟨c.addr, joinedSize m c.addr, .free⟩, by simp, rfl, hxc⟩
  rcases hx x hx1 with heq | hx2 | hx2 | ⟨e, he, heu, hxe⟩
  · rw [heq]
    exact (hwords x hx1).imp_right (.imp_right (.imp_right hlink))
  · exact .inr (.inr (.inr (hself (.inl hx2))))
  · exact .inr (.inr (.inr (hself (.inr hx2))))
  · refine .inr (.inr (.inr (hlink ⟨e, ?_, heu, .inl hxe⟩)))
    have hne : e ≠ ⟨c.addr, joinedSize m c.addr, .loose⟩ := fun he => by rw [he] at heu; cases heu
    simpa [hne] using he

/-- The memory of a release after the accounting and the flags of the node. -/
def unflagged (m : Words) (pool node : ℕ) : Words :=
  let m := m.write (curUsedSizeAt pool)
    (u32 (m (curUsedSizeAt pool) + 2 ^ 32 - osMemNodeGetSize (m (sizeAndFlagAt node))))
  m.write (sizeAndFlagAt node) (osMemNodeGetSize (m (sizeAndFlagAt node)))

theorem osMemFree_eq (h : osMemCheckUsedNode m pool node = .losOk) : osMemFree m pool node =
      (osMemFreeNodeAdd (mergeNext (mergePrev (unflagged m pool node) pool node).1 pool
        (mergePrev (unflagged m pool node) pool node).2) pool
        (mergePrev (unflagged m pool node) pool node).2).map (·, .losOk) := by
  rw [osMemFree, if_neg (by simp [h])]
  rw [Option.map_eq_bind]
  rfl

theorem Heap.unflagged_heap (h : Heap P m (pre ++ c :: post)) (hu : c.isUsed) :
    Heap P (unflagged m P.pool c.addr) (pre ++ ⟨c.addr, c.size, .loose⟩ :: post) ∧
      unflagged m P.pool c.addr (c.addr + 4) = c.size ∧
      ∀ x, x ≠ P.pool + 16 → x ≠ c.addr + 4 → unflagged m P.pool c.addr x = m x := by
  have hP := P.geometry
  have hcm : c ∈ pre ++ c :: post := by simp
  have hcb := h.layout.bounds hcm
  have hinfo := (h.write_info (a := 0) (x := P.pool + 16)
    (v := u32 (m (P.pool + 16) + 2 ^ 32 - osMemNodeGetSize (m (c.addr + 4)))) (by omega)
    (by omega)).heap
  have heq : unflagged m P.pool c.addr = (m.write (P.pool + 16)
      (u32 (m (P.pool + 16) + 2 ^ 32 - osMemNodeGetSize (m (c.addr + 4))))).write (c.addr + 4)
      c.size := by
    simp only [unflagged, curUsedSizeAt, sizeAndFlagAt]
    rw [write_of_ne _ _ (show c.addr + 4 ≠ P.pool + 16 by omega), h.layout.words c hcm,
      size_word (h.layout.size_lt hcm)]
  rw [heq]
  refine ⟨(hinfo.unflag hu).heap, write_self .., fun x h1 h2 => ?_⟩
  rw [write_of_ne _ _ h2, write_of_ne _ _ h1]

/-- The flags of the node do not matter for the list it is put on. -/
theorem Heap.listHead_unflagged (h : Heap P m (pre ++ c :: post)) (hu : c.isUsed)
    (hp : Settled post) :
    listHead (unflagged m P.pool c.addr) P.pool c.addr = listHead m P.pool c.addr := by
  have hP := P.geometry
  have hcm : c ∈ pre ++ c :: post := by simp
  have hcb := h.layout.bounds hcm
  obtain ⟨hheap, hself, hother⟩ := h.unflagged_heap hu
  obtain ⟨post', hjoin, hle, -⟩ := hheap.mergeNext_words rfl hp
  generalize unflagged m P.pool c.addr = m2 at hheap hself hother hjoin hle ⊢
  have hjs := hjoin.layout.size_lt (c := ⟨c.addr, joinedSize m2 c.addr, .loose⟩) (by simp)
  have hi : osMemFreeListIndexGet (joinedSize m2 c.addr) ≤ 198 :=
    osMemFreeListIndexGet_le (by simp only at hle; omega) hjs
  have hnext := h.layout.next_node hcm
  have hnext2 := hheap.layout.next_node (c := ⟨c.addr, c.size, .loose⟩) (by simp)
  have hsize : osMemNodeGetSize (m2 (c.addr + 4)) = osMemNodeGetSize (m (c.addr + 4)) := by
    have hsum := hnext2.trans hnext.symm
    simp only [osMemNextNode, sizeAndFlagAt] at hsum
    omega
  have hword : m2 (c.addr + c.size + 4) = m (c.addr + c.size + 4) :=
    hother _ (by omega) (by omega)
  have hfree : NextFree m2 c.addr ↔ NextFree m c.addr := by
    simp only [NextFree, hnext, hnext2, sizeAndFlagAt, hword]
  have hjoined : joinedSize m2 c.addr = joinedSize m c.addr := by
    simp only [joinedSize, hfree, sizeAndFlagAt, hsize, hnext, hnext2, hword]
  have hhead := hother (P.pool + 48 + 4 * osMemFreeListIndexGet (joinedSize m2 c.addr)) (by omega)
    (by omega)
  rw [hjoined] at hhead
  have hlink := hother (c.addr + c.size + 12) (by omega) (by omega)
  simp only [listHead, hnext, hnext2, freeListAt_eq, freeNextAt, hfree, hhead, hlink, hjoined]

/-- The released node has entered a list on its own, or with the free node behind it. -/
structure Listed (P : Region) (m m' : Words) (c : Chunk) (cs' : List Chunk) : Prop where
  prevUsed : osMemNodeGetUsedFlag (m (sizeAndFlagAt (m (prevAt c.addr)))) ≠ 0
  node : ∃ s, ⟨c.addr, s, .free⟩ ∈ cs'
  freePrev : m' (c.addr + 8) = 0
  freeNext : m' (c.addr + 12) = listHead m P.pool c.addr
  words : ∀ x, P.first ≤ x → m' x = m x ∨ x = c.addr + 4 ∨
    (c.addr + c.size ≤ x ∧ m' x = c.addr) ∨ IsLink cs' x

/-- What a release leaves of the node of `c`. If the node before it was free, both are one now and
no link lies in the node. -/
structure Released (P : Region) (m m' : Words) (c : Chunk) (cs' : List Chunk) : Prop where
  heap : Heap P m' cs'
  header : m' (c.addr + 4) < 2 ^ 28
  payload : ∀ x, c.addr + 16 ≤ x → x < c.addr + c.size → m' x = m x
  links : (osMemNodeGetUsedFlag (m (sizeAndFlagAt (m (prevAt c.addr)))) = 0 ∧
    ∀ x, c.addr + 8 ≤ x → x < c.addr + 16 → m' x = m x) ∨ Listed P m m' c cs'

theorem IsLink.not_inner (h : Layout P m cs) (hc : c ∈ cs) (hx : IsLink cs x)
    (h1 : c.addr + 16 ≤ x) : c.addr + c.size ≤ x := by
  obtain ⟨e, he, -, hxe⟩ := hx
  rcases h.tiles.apart hc he with rfl | hce | hce <;> omega

theorem osMemFree_released (h : Heap P m (pre ++ c :: post)) (hs : Settled (pre ++ c :: post))
    (hu : c.isUsed) : ∃ m' cs', osMemFree m P.pool c.addr = some (m', .losOk) ∧
      Released P m m' c cs' := by
  have hP := P.geometry
  have hcm : c ∈ pre ++ c :: post := by simp
  have hcb := h.layout.bounds hcm
  have hcs := h.layout.size_lt hcm
  obtain ⟨hpre, hpost⟩ := (settled_used hu).mp hs
  rw [osMemFree_eq (osMemCheckUsedNode_used h.layout hcm hu)]
  have hhead := h.listHead_unflagged hu hpost
  obtain ⟨hheap, hself, hother⟩ := h.unflagged_heap hu
  generalize unflagged m P.pool c.addr = m2 at hheap hself hother hhead ⊢
  have hprev : m2 c.addr = m c.addr := hother _ (by omega) (by omega)
  have hprevw : m2 (m c.addr + 4) = m (m c.addr + 4) := by
    rcases h.layout.prev_cases with ⟨-, -, hm⟩ | ⟨l, d, rfl, hm, hadj⟩
    · exact hother _ (by omega) (by omega)
    · have hdb := h.layout.bounds (c := d) (by simp)
      exact hother _ (by omega) (by omega)
  by_cases hflag : osMemNodeGetUsedFlag (m (m c.addr + 4)) = 0
  · have hfree := hflag
    rcases h.layout.prev_cases with ⟨-, -, hm⟩ | ⟨l, d, rfl, hm, hadj⟩
    · rw [hm, h.layout.sentinel] at hflag
      simp [osMemNodeGetUsedFlag, osMemNodeUsedFlag] at hflag
    -- the node before is free, and the words of this one lie inside the joined node
    have hdm : d ∈ l ++ [d] ++ c :: post := by simp
    have hdb := h.layout.bounds hdm
    rw [hm, h.layout.words d hdm, usedFlag_word (h.layout.size_lt hdm)] at hflag
    have hdf := use_eq_free (hpre.listed d (by simp)) hflag
    have hmp : mergePrev m2 P.pool c.addr =
        (osMemMergeNode (osMemFreeNodeDelete m2 P.pool d.addr) c.addr, d.addr) := by
      simp only [mergePrev, prevAt, sizeAndFlagAt, hprev, hm]
      rw [hm] at hprevw
      refine if_pos ⟨by omega, ?_⟩
      rw [hprevw, h.layout.words d hdm, usedFlag_word (h.layout.size_lt hdm)]
      exact hflag
    have hheap2 : Heap P m2 (l ++ d :: ⟨c.addr, c.size, .loose⟩ :: post) := by simpa using hheap
    have hdel := (hheap2.delete (a := 0) hdf).1.heap
    have hmerge := (hdel.merge (a := 0) rfl rfl (hdel.layout.sum_lt rfl)).heap
    have hwords := hdel.layout.merge_eq rfl rfl
    have hjoin : ∀ x, c.addr + 4 ≤ x → x < c.addr + c.size →
        osMemMergeNode (osMemFreeNodeDelete m2 P.pool d.addr) c.addr x = m2 x := by
      intro x h1 h2
      rw [hwords]
      simp (disch := omega) only [write_of_ne]
      refine (hheap2.delete_words (by simp) hdf (by omega)).resolve_right ?_
      rintro ⟨e, he, heu, -, hxe⟩
      have heb := hheap2.layout.bounds he
      rcases hheap2.layout.tiles.apart (c := ⟨c.addr, c.size, .loose⟩) (by simp) he with
        rfl | hce | hce
      · cases heu
      all_goals
        simp only at hce
        omega
    obtain ⟨m', cs', hm', hheap', hnode, hle, -, -, hw⟩ := hmerge.list_words rfl hpost
    simp only at hm' hnode hle hw
    have hkeep : ∀ x, c.addr + 4 ≤ x → x < c.addr + c.size → m' x = m2 x := fun x h1 h2 => by
      rcases hw x (by omega) with hx | hx | ⟨hx, -⟩ | hx
      · exact hx.trans (hjoin x h1 h2)
      · omega
      · omega
      · have := hx.not_inner hheap'.layout hnode (by simp only; omega)
        simp only at this
        omega
    have hpay : ∀ x, c.addr + 8 ≤ x → x < c.addr + c.size → m' x = m x := fun x h1 h2 =>
      (hkeep x (by omega) h2).trans (hother x (by omega) (by omega))
    refine ⟨m', cs', by rw [hmp, hm']; rfl, hheap', ?_, fun x h1 h2 => hpay x (by omega) h2,
      .inl ⟨hfree, fun x h1 h2 => hpay x h1 (by omega)⟩⟩
    rw [hkeep _ (by omega) (by omega), hself]
    exact hcs
  · have hmp : mergePrev m2 P.pool c.addr = (m2, c.addr) := by
      simp only [mergePrev, prevAt, sizeAndFlagAt, hprev, hprevw]
      rw [if_neg fun hbad => hflag hbad.2]
    obtain ⟨m', cs', hm', hheap', hnode, hle, h8, h12, hw⟩ := hheap.list_words rfl hpost
    simp only at hm' hnode hle h8 h12 hw
    have hwords : ∀ x, P.first ≤ x → m' x = m x ∨ x = c.addr + 4 ∨
        (c.addr + c.size ≤ x ∧ m' x = c.addr) ∨ IsLink cs' x := by
      intro x hx
      by_cases hxc : x = c.addr + 4
      · exact .inr (.inl hxc)
      · rw [← hother x (by omega) hxc]
        exact hw x hx
    refine ⟨m', cs', by rw [hmp, hm']; rfl, hheap', ?_, fun x h1 h2 => ?_,
      .inr ⟨hflag, ⟨_, hnode⟩, h8, h12.trans hhead, hwords⟩⟩
    · rw [show m' (c.addr + 4) = _ from hheap'.layout.words ⟨c.addr, _, .free⟩ hnode]
      exact hheap'.layout.size_lt hnode
    · rcases hwords x (by omega) with hx | hx | ⟨hx, -⟩ | hx
      · exact hx
      · omega
      · omega
      · have := hx.not_inner hheap'.layout hnode h1
        simp only at this
        omega

/-! ### The second release -/

theorem osMemCheckUsedNode_ok (h : osMemCheckUsedNode m pool node = .losOk) :
    osMemFirstNode pool ≤ node ∧ osMemNodeGetUsedFlag (m (sizeAndFlagAt node)) ≠ 0 ∧
      m (osMemNextNode m node) = node ∧ (node ≠ osMemFirstNode pool → osMemFirstNode pool ≤ m node ∧
        osMemNextNode m (m node) = node) := by
  -- each test that fails returns `LOS_NOK`
  have pass : ∀ {q : Prop} [Decidable q] {r : Ret}, (if q then .losNok else r) = Ret.losOk →
      ¬ q ∧ r = .losOk := by
    intro q _ r hr
    by_cases hq : q
    · rw [if_pos hq] at hr
      cases hr
    · rw [if_neg hq] at hr
      exact ⟨hq, hr⟩
  obtain ⟨h1, h⟩ := pass h
  obtain ⟨h2, h⟩ := pass h
  obtain ⟨-, h⟩ := pass h
  obtain ⟨h4, h⟩ := pass h
  obtain ⟨h5, -⟩ := pass h
  refine ⟨(not_not.mp h1).1.1, h2, not_not.mp h4, fun hne => ?_⟩
  obtain ⟨h6, h7⟩ := not_or.mp (not_and.mp h5 hne)
  exact ⟨(not_not.mp h6).1.1, not_not.mp h7⟩

theorem losMemFree_refused (h : osGetRealPtr m pool p ≠ 0 →
    osMemCheckUsedNode m pool (osGetRealPtr m pool p - 8) ≠ .losOk) :
    losMemFree m pool p = some (m, .losNok) := by
  rw [losMemFree]
  split_ifs with h1
  · rfl
  · simp only
    split_ifs with h2
    · rfl
    · exact if_pos (h h2)

/-- The word below a pointer decides where its node is looked for. -/
theorem osGetRealPtr_cases (pool : ℕ) (hw : m (p - 4) < 2 ^ 32) : osGetRealPtr m pool p = 0 ∨
    (osGetRealPtr m pool p = p ∧ (m (p - 4) < 2 ^ 30 ∨ 2 ^ 31 ≤ m (p - 4))) ∨
    (osGetRealPtr m pool p = p - (m (p - 4) - 2 ^ 30) ∧ 2 ^ 30 ≤ m (p - 4) ∧
      m (p - 4) < 2 ^ 31) := by
  rw [osGetRealPtr]
  generalize m (p - 4) = w at hw ⊢
  by_cases halign : osMemGetGapsizeAlignedFlag w = 0
  · have hbit := gapsizeAlignedFlag_eq_zero_iff.mp halign
    rw [Nat.testBit_eq_decide_div_mod_eq, decide_eq_false_iff_not] at hbit
    simp only [osMemGapsizeCheck, halign, ne_eq, not_true_eq_false, false_and, if_false]
    exact .inr (.inl ⟨trivial, by omega⟩)
  by_cases hcheck : osMemGapsizeCheck w
  · simp only [hcheck, if_true, true_or]
  have hbit : w.testBit 30 ≠ false := fun h => halign (gapsizeAlignedFlag_eq_zero_iff.mpr h)
  have hbit' : w.testBit 31 = false := by
    by_contra hset
    refine hcheck ⟨halign, ?_⟩
    rw [osMemGetGapsizeUsedFlag, show osMemGapsizeUsedFlag = 1 <<< 31 by decide]
    exact and_flag_ne_zero (by simpa using hset)
  rw [Nat.testBit_eq_decide_div_mod_eq, ne_eq, decide_eq_false_iff_not] at hbit
  rw [Nat.testBit_eq_decide_div_mod_eq, decide_eq_false_iff_not] at hbit'
  have hgap : osMemGetAlignedGapsize w = w - 2 ^ 30 := by
    rw [osMemGetAlignedGapsize, show osMemGapsizeAlignedFlag = 2 ^ 30 by decide]
    have := clear_flag (x := w - 2 ^ 30) (k := 30) (by omega) (by omega)
    rwa [Nat.sub_add_cancel (by omega)] at this
  simp only [ne_eq, halign, not_false_eq_true, if_true, hgap]
  split_ifs with hbad
  · exact .inl rfl
  · exact .inr (.inr ⟨rfl, by omega⟩)

/-- A release of `ptr` leaves an address in the place of its gap word, and this address, read as a
gap word, leads to words that look like another used node. -/
def Exposed (m : Words) (pool ptr : ℕ) : Prop :=
  let node := ptr - 16
  let address := listHead m pool node
  let other := ptr - 8 - (address - 2 ^ 30)
  m (ptr - 4) = 8 + 2 ^ 30 ∧ osMemNodeGetUsedFlag (m (sizeAndFlagAt (m (prevAt node)))) ≠ 0 ∧
    (2 ^ 30 + 8 < address ∧ address < 2 ^ 31) ∧ osMemFirstNode pool ≤ other ∧
    osMemNodeGetUsedFlag (m (sizeAndFlagAt other)) ≠ 0 ∧ m (osMemNextNode m other) = other
deriving Decidable

theorem Layout.unused_flag (h : Layout P m cs) (hc : c ∈ cs) (hu : c.use = .free) :
    osMemNodeGetUsedFlag (m (sizeAndFlagAt c.addr)) = 0 := by
  rw [sizeAndFlagAt, h.words c hc]
  exact (usedFlag_word (h.size_lt hc)).mpr (not_isUsed_of_free hu)

theorem usedFlag_of_lt (h : w < 2 ^ 31) : osMemNodeGetUsedFlag w = 0 :=
  usedFlag_eq_zero_iff.mpr (Nat.testBit_lt_two_pow h)

/-- The links of a free node never pass for the header of a used one. -/
theorem Heap.link_not_header (h : Heap P m cs) (hbig : 2 ^ 28 ≤ P.first)
    (hx : IsLink cs (y + 4)) : osMemCheckUsedNode m P.pool y ≠ .losOk := by
  intro hok
  obtain ⟨hfirst, -, -, hprev⟩ := osMemCheckUsedNode_ok hok
  rw [P.first_eq] at hfirst hprev
  obtain ⟨e, he, heu, hxe⟩ := hx
  have heb := h.layout.bounds he
  obtain ⟨hp1, hp2⟩ := hprev (by omega)
  rcases hxe with hxe | hxe
  · -- the backlink would be a size
    obtain rfl : y = e.addr + 4 := by omega
    have hword := h.layout.free_word he heu
    have := h.layout.size_lt he
    omega
  · -- the backlink would be a node that ends inside this one
    obtain rfl : y = e.addr + 8 := by omega
    rcases h.link_cases ⟨e, he, heu, .inl rfl⟩ with h0 | ⟨f, hf, hfu, hfa⟩
    · omega
    · rw [hfa, h.layout.next_node hf] at hp2
      rcases h.layout.tiles.apart he hf with rfl | hef | hef <;> omega

/-- What the second release takes for a used node looked like one before the first. -/
theorem Listed.used_before (h : Listed P m m' c cs') (hheap : Heap P m' cs')
    (hheader : m' (c.addr + 4) < 2 ^ 28) (hbig : 2 ^ 28 ≤ P.first) (hy : y < c.addr)
    (hsize : 8 ≤ c.size) (hok : osMemCheckUsedNode m' P.pool y = .losOk) :
    osMemFirstNode P.pool ≤ y ∧
      osMemNodeGetUsedFlag (m (sizeAndFlagAt y)) ≠ 0 ∧ m (osMemNextNode m y) = y := by
  obtain ⟨hfirst, hflag, hnext, -⟩ := osMemCheckUsedNode_ok hok
  refine ⟨hfirst, ?_⟩
  rw [P.first_eq] at hfirst
  have hword : m' (y + 4) = m (y + 4) := by
    rcases h.words (y + 4) (by omega) with hx | hx | ⟨hx, -⟩ | hx
    · exact hx
    · omega
    · omega
    · exact absurd hok (hheap.link_not_header hbig hx)
  have hstep : osMemNextNode m y = osMemNextNode m' y := by
    rw [osMemNextNode, osMemNextNode, sizeAndFlagAt, hword]
  rw [sizeAndFlagAt, ← hword, hstep]
  refine ⟨hflag, ?_⟩
  have hge : P.first ≤ osMemNextNode m' y := hfirst.trans (Nat.le_add_right ..)
  rcases h.words _ hge with hx | hx | ⟨-, hx⟩ | hx
  · exact hx.symm.trans hnext
  · rw [hx] at hnext
    omega
  · omega
  · rcases hheap.link_cases hx with h0 | ⟨e, he, heu, hea⟩
    · omega
    · rw [← hnext, hea] at hflag
      exact absurd (hheap.layout.unused_flag he heu) hflag

/-- A word without flags below the pointer is taken for the header, which is then not used. -/
theorem losMemFree_unflagged (hp : 8 ≤ p) (hw : m (p - 4) < 2 ^ 30) :
    losMemFree m pool p = some (m, .losNok) := by
  refine losMemFree_refused fun h0 hok => ?_
  rcases osGetRealPtr_cases pool (m := m) (p := p) (by omega) with hr | ⟨hr, -⟩ | ⟨-, hr⟩
  · exact absurd hr h0
  · rw [hr] at hok
    refine (osMemCheckUsedNode_ok hok).2.1 (usedFlag_of_lt ?_)
    rw [sizeAndFlagAt, show p - 8 + 4 = p - 4 by omega]
    omega
  · omega

theorem losMemFree_gap (hw : m (p - 4) = g + 2 ^ 30) (hg : g < 2 ^ 30)
    (hnode : osMemCheckUsedNode m pool (p - g - 8) ≠ .losOk) :
    losMemFree m pool p = some (m, .losNok) := by
  refine losMemFree_refused fun h0 => ?_
  rcases osGetRealPtr_cases pool (m := m) (p := p) (by omega) with hr | ⟨-, hr⟩ | ⟨hr, -⟩
  · exact absurd hr h0
  · omega
  · rw [hr, hw, Nat.add_sub_cancel]
    exact hnode

/-- The links of the released node lie where its header and its gap word would be read. -/
theorem Listed.refused (h : Listed P m m' c cs') (hheap : Heap P m' cs')
    (hheader : m' (c.addr + 4) < 2 ^ 28) (hfirst : P.first ≤ c.addr) (hsize : 8 ≤ c.size)
    (hw : m (c.addr + 12) = 8 + 2 ^ 30) (hsafe : ¬ Exposed m P.pool (c.addr + 16)) :
    losMemFree m' P.pool (c.addr + 16) = some (m', .losNok) := by
  have hP := P.geometry
  have hsmall := P.small
  have hback := h.freePrev
  have hnext := h.freeNext
  generalize hx : listHead m P.pool c.addr = x at hnext
  have hrange : x = 0 ∨ P.first ≤ x ∧ x < P.last ∧ x % 4 = 0 := by
    obtain ⟨s, hs⟩ := h.node
    rw [← hnext]
    refine (hheap.link_cases ⟨_, hs, rfl, .inr rfl⟩).imp_right ?_
    rintro ⟨e, he, -, hea⟩
    have heb := hheap.layout.bounds he
    have hem := hheap.layout.addr_mod he
    rw [hea]
    omega
  by_cases hlow : x < 2 ^ 30
  · exact losMemFree_unflagged (by omega)
      (by rw [show c.addr + 16 - 4 = c.addr + 12 by omega]; omega)
  by_cases hmid : x < 2 ^ 31
  · refine losMemFree_gap (g := x - 2 ^ 30) ?_ (by omega) fun hok => ?_
    · rw [show c.addr + 16 - 4 = c.addr + 12 by omega, hnext]
      omega
    by_cases hnear : x ≤ 2 ^ 30 + 8
    · -- the node would begin with the header, the first link or the second link
      refine (osMemCheckUsedNode_ok hok).2.1 (usedFlag_of_lt ?_)
      have hcases : x = 2 ^ 30 ∨ x = 2 ^ 30 + 4 ∨ x = 2 ^ 30 + 8 := by omega
      rcases hcases with rfl | rfl | rfl
      · rw [sizeAndFlagAt, show c.addr + 16 - (2 ^ 30 - 2 ^ 30) - 8 + 4 = c.addr + 12 by omega]
        omega
      · rw [sizeAndFlagAt, show c.addr + 16 - (2 ^ 30 + 4 - 2 ^ 30) - 8 + 4 = c.addr + 8 by omega]
        omega
      · rw [sizeAndFlagAt, show c.addr + 16 - (2 ^ 30 + 8 - 2 ^ 30) - 8 + 4 = c.addr + 4 by omega]
        omega
    · obtain ⟨h1, h2, h3⟩ := h.used_before hheap hheader (by omega)
        (show c.addr + 16 - (x - 2 ^ 30) - 8 < c.addr by omega) hsize hok
      refine hsafe ⟨hw, h.prevUsed, ?_⟩
      rw [show c.addr + 16 - 16 = c.addr by omega, hx,
        show c.addr + 16 - 8 - (x - 2 ^ 30) = c.addr + 16 - (x - 2 ^ 30) - 8 by omega]
      exact ⟨⟨by omega, hmid⟩, h1, h2, h3⟩
  · refine losMemFree_refused fun h0 hok => ?_
    have hword : m' (c.addr + 16 - 4) = x := by
      rw [show c.addr + 16 - 4 = c.addr + 12 by omega, hnext]
    rcases osGetRealPtr_cases P.pool (m := m') (p := c.addr + 16) (by omega) with
      hr | ⟨hr, -⟩ | ⟨-, hr⟩
    · exact absurd hr h0
    · -- the backlink would be the null link
      rw [hr, show c.addr + 16 - 8 = c.addr + 8 by omega] at hok
      have hprev := ((osMemCheckUsedNode_ok hok).2.2.2 (by rw [P.first_eq]; omega)).1
      rw [P.first_eq] at hprev
      omega
    · omega

/-- After a release that was not exposed, no node that passes for a used one is found. -/
theorem Released.refused (h : Released P m m' c cs') (hl : Layout P m cs) (hc : c ∈ cs)
    (hsafe : ¬ Exposed m P.pool (c.addr + 8 + c.gap)) :
    losMemFree m' P.pool (c.addr + 8 + c.gap) = some (m', .losNok) := by
  have hcb := hl.bounds hc
  have hcs := hl.size_lt hc
  have hheader := h.header
  have hpos : c.addr + 8 + c.gap - 4 = c.addr + 4 + c.gap := by omega
  by_cases hg : c.gap = 0
  · refine losMemFree_unflagged (by omega) ?_
    rw [hpos, hg, Nat.add_zero]
    omega
  obtain ⟨hg4, hfit, hgw⟩ := hl.gaps c hc hg
  -- a gap word that is still there leads back to the node
  have hintact : m' (c.addr + 4 + c.gap) = m (c.addr + 4 + c.gap) →
      losMemFree m' P.pool (c.addr + 8 + c.gap) = some (m', .losNok) := by
    intro hm
    refine losMemFree_gap (by rw [hpos, hm, hgw]) (by omega) fun hok => ?_
    rw [show c.addr + 8 + c.gap - c.gap - 8 = c.addr by omega] at hok
    exact (osMemCheckUsedNode_ok hok).2.1 (usedFlag_of_lt (by rw [sizeAndFlagAt]; omega))
  by_cases hfar : 12 ≤ c.gap
  · exact hintact (h.payload _ (by omega) (by omega))
  rcases h.links with ⟨-, hkeep⟩ | hlisted
  · exact hintact (hkeep _ (by omega) (by omega))
  have hnear : c.gap = 4 ∨ c.gap = 8 := by omega
  rcases hnear with hg' | hg'
  · refine losMemFree_unflagged (by omega) ?_
    rw [hpos, hg', hlisted.freePrev]
    omega
  · rw [hg'] at hsafe hgw ⊢
    exact hlisted.refused h.heap hheader hcb.1 (by omega) hgw hsafe

/-- Conversely, a gap word that leads to the node of another block has that node released. -/
theorem Listed.accepted (h : Listed P m m' c cs') (hheap : Heap P m' cs) (hd : d ∈ cs)
    (hc : P.first ≤ c.addr) (hend : c.addr + 16 < 2 ^ 32) (hmod : c.addr % 4 = 0)
    (hlow : 2 ^ 30 ≤ listHead m P.pool c.addr) (hhigh : listHead m P.pool c.addr < 2 ^ 31)
    (haddr : d.addr + 8 + listHead m P.pool c.addr = c.addr + 16 + 2 ^ 30) :
    losMemFree m' P.pool (c.addr + 16) = osMemFree m' P.pool d.addr := by
  have hP := P.geometry
  have hdb := hheap.layout.bounds hd
  have hdm := hheap.layout.addr_mod hd
  have hnext := h.freeNext
  generalize listHead m P.pool c.addr = x at hlow hhigh haddr hnext
  have hreal : osGetRealPtr m' P.pool (c.addr + 16) = d.addr + 8 := by
    obtain ⟨g, rfl⟩ := Nat.exists_eq_add_of_le' hlow
    rw [osGetRealPtr_gap hnext (by omega) (by omega)
      (by omega) (by omega)]
    omega
  rw [losMemFree, if_neg]
  · simp only [hreal]
    rw [if_neg (by omega), osMemNodeHeadSize, Nat.add_sub_cancel]
  · simp only [osMemIsAligned_four]
    omega

/-! ### Runs -/

/-- A client of the pool and the pointer that its last call has released. -/
structure Session where
  client : Client
  freed : Option ℕ

namespace Session

def released (s : Session) (pool : ℕ) : Call → Option ℕ
  | .free p => if (losMemFree s.client.mem pool p).map Prod.snd = some .losOk then some p else none
  | _ => none

/-- The calls of one client, from any well-formed heap. -/
def machine (P : Region) : Machine Session Call where
  init s := (∃ cs, s.client.Inv P cs) ∧ s.freed = none
  allowed s call := s.client.Valid call
  step s call := ⟨(s.client.step P.pool call).getD s.client, s.released P.pool call⟩

/-- Releasing the pointer that was released just before is refused and changes nothing. -/
def Caught (P : Region) (s : Session) : Prop :=
  ∀ p, s.freed = some p → losMemFree s.client.mem P.pool p = some (s.client.mem, .losNok)

/-- No pointer is released whose gap word would become the way to another node. -/
def Careful (P : Region) (s : Session) : Call → Prop
  | .free p => ¬ Exposed s.client.mem P.pool p
  | _ => True

/-- A careful call keeps the heap well formed, and a pointer it releases is not released again. -/
theorem caught_step {s : Session} {call : Call} (h : s.client.Inv P cs)
    (hv : s.client.Valid call) (hcareful : Careful P s call) :
    (∃ cs', ((machine P).step s call).client.Inv P cs') ∧ Caught P ((machine P).step s call) := by
  obtain ⟨s', cs', hs', hinv, -⟩ := h.step hv
  have hclient : ((machine P).step s call).client = s' := by simp [machine, hs']
  refine ⟨⟨cs', hclient ▸ hinv⟩, fun p hp => ?_⟩
  rw [hclient]
  cases call with
  | alloc => cases hp
  | allocAlign => cases hp
  | realloc => cases hp
  | store => cases hp
  | free q =>
    obtain ⟨hok, rfl⟩ : (losMemFree s.client.mem P.pool q).map Prod.snd = some .losOk ∧ q = p := by
      simpa [machine, released] using hp
    rcases hv with rfl | ⟨b, hb, rfl⟩
    · simp [losMemFree] at hok
    obtain ⟨c, hc, hold⟩ := h.held b hb
    rw [hold.ptr] at hcareful hs' ⊢
    have hused := losMemFree_used h.heap.layout hc hold.used
    obtain ⟨pre, post, rfl⟩ := List.append_of_mem hc
    obtain ⟨m', cs', hm', hrel⟩ := osMemFree_released h.heap h.settled hold.used
    have hmem : s'.mem = m' := by
      simp only [Client.step, hused, hm', Option.bind_eq_bind, Option.bind_some, Option.pure_def,
        Option.some.injEq] at hs'
      rw [← hs']
    rw [hmem]
    exact hrel.refused h.heap.layout hc hcareful

/-- Conversely, if the gap word of an exposed pointer leads to the node of a live block, a second
release of the pointer is accepted and is a release of that block. -/
theorem accepted_step {s : Session} {b b' : Block} (h : s.client.Inv P cs)
    (hb : b ∈ s.client.live) (hb' : b' ∈ s.client.live)
    (hexposed : Exposed s.client.mem P.pool b.ptr)
    (hnode : osGetRealPtr s.client.mem P.pool b'.ptr +
      listHead s.client.mem P.pool (b.ptr - 16) = b.ptr + 2 ^ 30) :
    ((machine P).step s (.free b.ptr)).freed = some b.ptr ∧ ∃ m',
      losMemFree ((machine P).step s (.free b.ptr)).client.mem P.pool b.ptr = some (m', .losOk) ∧
      losMemFree ((machine P).step s (.free b.ptr)).client.mem P.pool b'.ptr =
        some (m', .losOk) := by
  obtain ⟨hgap, hprev, ⟨hlow, hhigh⟩, -⟩ := hexposed
  obtain ⟨c, hc, hold⟩ := h.held b hb
  obtain ⟨d, hd, hold'⟩ := h.held b' hb'
  have hP := P.geometry
  have hl := h.heap.layout
  have hcb := hl.bounds hc
  rw [hold'.ptr, osGetRealPtr_used hl hd hold'.used] at hnode
  have hg : c.gap = 8 := by
    rw [hold.ptr, show c.addr + 8 + c.gap - 4 = c.addr + 4 + c.gap by omega] at hgap
    by_cases h0 : c.gap = 0
    · obtain ⟨g, hu⟩ := hold.used
      obtain rfl : g = 0 := by simpa [Chunk.gap, hu] using h0
      have hword : c.word = c.size + 2 ^ 31 := by simp [Chunk.word, hu]
      rw [h0, Nat.add_zero, hl.words c hc, hword] at hgap
      omega
    · have := (hl.gaps c hc h0).2.2
      omega
  have hptr : b.ptr = c.addr + 16 := by rw [hold.ptr, hg]
  rw [hptr, Nat.add_sub_cancel] at hnode hprev hlow hhigh
  have hne : d.addr ≠ c.addr := by omega
  obtain ⟨m', cs', hm', hset, hbec⟩ := losMemFree_spec h.heap h.settled hc hold.used
  have hd' := (hbec.kept d hd hold'.used hne).1
  have hstep : ((machine P).step s (.free b.ptr)).client.mem = m' := by
    simp [machine, Client.step, hold.ptr, hm']
  rw [hstep, hold'.ptr, losMemFree_used hbec.heap.layout hd' hold'.used]
  refine ⟨by simp [machine, released, hold.ptr, hm'], ?_⟩
  have haccept : losMemFree m' P.pool b.ptr = osMemFree m' P.pool d.addr := by
    rw [losMemFree_used hl hc hold.used] at hm'
    obtain ⟨pre, post, rfl⟩ := List.append_of_mem hc
    obtain ⟨m'', cs'', hm'', hrel⟩ := osMemFree_released h.heap h.settled hold.used
    obtain rfl : m' = m'' := by simpa [hm'] using hm''
    rw [hptr]
    exact (hrel.links.resolve_left fun hfree => hprev hfree.1).accepted hbec.heap hd' hcb.1
      (by omega) (hl.addr_mod hc) (by omega) hhigh hnode
  obtain ⟨m'', -, hm'', -⟩ := losMemFree_spec hbec.heap hset hd' hold'.used
  rw [losMemFree_used hbec.heap.layout hd' hold'.used] at hm''
  exact ⟨m'', haccept.trans hm'', hm''⟩

/-- In every run in which no exposed pointer is released, an immediate second release of a pointer
is refused and changes nothing. -/
theorem caught_of_careful_run {s : Session}
    (hr : ((machine P).restrict (Careful P)).Reaches s) : Caught P s := by
  have hinv : (∃ cs, s.client.Inv P cs) ∧ Caught P s := by
    refine hr.invariant (I := fun s => (∃ cs, s.client.Inv P cs) ∧ Caught P s)
      (fun s hs => ⟨hs.1, fun p hp => ?_⟩) fun s call h ha => ?_
    · rw [hs.2] at hp
      cases hp
    · obtain ⟨cs, hcs⟩ := h.1
      exact caught_step hcs ha.1 ha.2
  exact hinv.2

instance (s : Client) (call) : Decidable (s.Valid call) := by
  unfold Client.Valid
  split <;> infer_instance

instance (P : Region) (s : Session) (call : Call) : Decidable ((machine P).allowed s call) :=
  inferInstanceAs (Decidable (s.client.Valid call))

instance (P : Region) (s : Session) (call) : Decidable (Careful P s call) := by
  unfold Careful
  split <;> infer_instance

/-- Four kilobytes at an address that has the aligned flag of a gap word. -/
def gigaRegion : Region :=
  ⟨⟨2 ^ 30, 4096, by decide, by decide, by decide, by decide, by decide⟩, by decide⟩

/-- The pool after `LOS_MemInit`. -/
def gigaStart : Session :=
  ⟨⟨((losMemInit ⟨fun _ => 0, 0⟩ (2 ^ 30) 4096).map (·.1.mem)).getD fun _ => 0, []⟩, none⟩

theorem gigaStart_init : (machine gigaRegion).init gigaStart := by
  refine ⟨?_, rfl⟩
  obtain ⟨sys', hok⟩ := losMemInit_first (by decide : 2 ^ 30 ≠ 0)
    (by decide : 952 < 4096) (by decide) (by decide) (by decide)
  obtain ⟨⟨⟨pool, size, _, _, _, _, _⟩, _⟩, rfl, rfl, cs, hinv⟩ := exists_inv_of_init hok
    (by decide) (by decide) (by decide) (show Registered (fun _ => 0) 0 [] from rfl)
    (by simp [Apart])
  refine ⟨cs, ?_⟩
  rw [gigaStart, hok]
  exact hinv

/-- An aligned block with a gap of eight bytes is released and its list was empty: the second
release finds a null link in the place of the gap word. -/
theorem caught_of_careful_run_aligned : ∃ s,
    ((machine gigaRegion).restrict (Careful gigaRegion)).Reaches s ∧
      s.freed = some (2 ^ 30 + 1008) ∧
      losMemFree s.client.mem (2 ^ 30) (2 ^ 30 + 1008) = some (s.client.mem, .losNok) := by
  have hr := Machine.Reaches.run (M := (machine gigaRegion).restrict (Careful gigaRegion))
    (.start gigaStart_init) [.alloc 16, .alloc 16, .allocAlign 20 16, .alloc 16,
      .free (2 ^ 30 + 1008)] (by decide +kernel)
  have hfreed : (((machine gigaRegion).restrict (Careful gigaRegion)).run gigaStart
      [.alloc 16, .alloc 16, .allocAlign 20 16, .alloc 16, .free (2 ^ 30 + 1008)]).freed =
      some (2 ^ 30 + 1008) := by decide +kernel
  exact ⟨_, hr, hfreed, caught_of_careful_run hr _ hfreed⟩

/-- The free list of the released node starts with another free node, and its address, read as a gap
word, leads to the first block of the pool: the second release returns `LOS_OK` and frees that
block, which the client still holds. -/
theorem second_release_frees_another : ∃ s, (machine gigaRegion).Reaches s ∧
    s.freed = some (2 ^ 30 + 1920) ∧ (∃ b ∈ s.client.live, b.ptr = 2 ^ 30 + 952) ∧
    osMemNodeGetUsedFlag (s.client.mem (sizeAndFlagAt (2 ^ 30 + 944))) ≠ 0 ∧
    (losMemFree s.client.mem (2 ^ 30) (2 ^ 30 + 1920)).map (fun r =>
      (r.2, osMemNodeGetUsedFlag (r.1 (sizeAndFlagAt (2 ^ 30 + 944))))) = some (.losOk, 0) := by
  have hr := Machine.Reaches.run (.start gigaStart_init)
    [.alloc 16, .alloc 32, .alloc 888, .allocAlign 20 16, .alloc 16, .free (2 ^ 30 + 976),
      .free (2 ^ 30 + 1920)] (by decide +kernel)
  exact ⟨_, hr, by decide +kernel⟩

end Session
end LiteOS.Memory
