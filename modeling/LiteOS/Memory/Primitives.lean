import LiteOS.Memory.FreeLists

/-!
# The primitives on a described heap

A heap is a layout together with its free lists. Each primitive of the allocator rewrites a
few neighbouring chunks; the rest of the heap, and the payload of every used chunk, stays.
-/

namespace LiteOS.Memory

open Lib Words Chunk Tiles List

/-- The memory of a pool is described by the chunks `cs`. -/
structure Heap (P : Extent) (m : Words) (cs : List Chunk) : Prop where
  layout : Layout P m cs
  lists : ∃ L, FreeLists P m cs L

/-- Used chunks other than the one at `a` survive with their payload. -/
def Kept (a : ℕ) (cs : List Chunk) (m : Words) (cs' : List Chunk) (m' : Words) : Prop :=
  ∀ c ∈ cs, c.isUsed → c.addr ≠ a → c ∈ cs' ∧ ∀ x, c.Payload x → m' x = m x

variable {P : Extent} {m m' m'' : Words} {cs cs' cs'' pre mid mid' post : List Chunk} {c d : Chunk}
  {a e s b x v g : ℕ}

theorem Kept.refl : Kept a cs m cs m := fun _ hc _ _ => ⟨hc, fun _ _ => rfl⟩

/-- A change of the chunk at `b` does not count when no other used chunk was there. -/
theorem Kept.trans_fresh (h : Kept a cs m cs' m') (h' : Kept b cs' m' cs'' m'')
    (hf : ∀ d ∈ cs, d.isUsed → d.addr ≠ a → d.addr ≠ b) : Kept a cs m cs'' m'' := by
  intro c hc hu ha
  obtain ⟨hc', hm⟩ := h c hc hu ha
  obtain ⟨hc'', hm'⟩ := h' c hc' hu (hf c hc hu ha)
  exact ⟨hc'', fun x hx => (hm' x hx).trans (hm x hx)⟩

theorem Kept.trans (h : Kept a cs m cs' m') (h' : Kept a cs' m' cs'' m'') :
    Kept a cs m cs'' m'' := h.trans_fresh h' fun _ _ _ ha => ha

/-- The chunks `mid` between `a` and `e` are replaced by `mid'`: only words strictly between the two
ends, and the backlink at `e`, may change. -/
structure Splice (m m' : Words) (a e : ℕ) (mid mid' : List Chunk) : Prop where
  old : Tiles Chunk.addr Chunk.size 16 a mid e
  new : Tiles Chunk.addr Chunk.size 16 a mid' e
  outside : ∀ x, x ≤ a ∨ e < x → m' x = m x
  back : ∀ q, Backlinks Chunk.addr m q mid e → Backlinks Chunk.addr m' q mid' e
  fine : ∀ c ∈ mid', c.size % 4 = 0 ∧ c.size < 2 ^ 28
  words : ∀ c ∈ mid', m' (c.addr + 4) = c.word
  gaps : ∀ c ∈ mid', c.GapOk m'
  ne : mid ≠ []

section

variable (hs : Splice m m' a e mid mid') (h : Layout P m (pre ++ (mid ++ post)))
include hs h

theorem Splice.around : Tiles addr size 16 P.first pre a ∧ Tiles addr size 16 e post P.last := by
  obtain ⟨a', htpre, htmid⟩ := append_iff.mp h.tiles
  obtain ⟨e', htm, htpost⟩ := append_iff.mp htmid
  have ht := hs.old
  obtain ⟨c₀, mid, rfl⟩ := exists_cons_of_ne_nil hs.ne
  obtain rfl : a = a' := ht.1.symm.trans htm.1
  obtain rfl : e = e' := end_unique ht htm
  exact ⟨htpre, htpost⟩

theorem Splice.kept
    (hd : d ∈ pre ++ post) (h1 : d.addr < x) (h2 : x < d.addr + d.size) : m' x = m x := by
  obtain ⟨htpre, htpost⟩ := hs.around h
  rcases mem_append.mp hd with hd | hd
  · have := htpre.bounds hd
    exact hs.outside x (by omega)
  · have := htpost.bounds hd
    exact hs.outside x (by omega)

end

theorem Layout.splice (mid mid' : List Chunk) (h : Layout P m (pre ++ (mid ++ post)))
    (hs : Splice m m' a e mid mid') : Layout P m' (pre ++ (mid' ++ post)) := by
  obtain ⟨htpre, htpost⟩ := hs.around h
  have hm := hs.outside
  have hP := P.geometry
  have ha := htpre.le
  have he := htpost.le
  have hold : ∀ d ∈ pre ++ post, d ∈ pre ++ (mid ++ post) := fun d hd => by
    simp only [mem_append] at hd ⊢
    tauto
  have hsplit : ∀ d ∈ pre ++ (mid' ++ post), d ∈ mid' ∨ d ∈ pre ++ post := fun d hd => by
    simp only [mem_append] at hd ⊢
    tauto
  constructor
  · rw [show m' (totalSizeAt P.pool) = _ from hm _ (by simp only [totalSizeAt]; omega)]
    exact h.total
  · exact append_iff.mpr ⟨a, htpre, append_iff.mpr ⟨e, hs.new, htpost⟩⟩
  · intro d hd
    exact (hsplit d hd).elim (hs.fine d) fun hd => h.fine d (hold d hd)
  · intro d hd
    refine (hsplit d hd).elim (hs.words d) fun hd => ?_
    have := h.bounds (hold d hd)
    rw [hs.kept h hd (by omega) (by omega)]
    exact h.words d (hold d hd)
  · intro d hd
    refine (hsplit d hd).elim (hs.gaps d) fun hd hg => ?_
    obtain ⟨h1, h2, h3⟩ := h.gaps d (hold d hd) hg
    exact ⟨h1, h2, (hs.kept h hd (by omega) (by omega)).trans h3⟩
  · obtain ⟨hb1, hb2⟩ :=
      (Backlinks.append_iff (append_iff.mpr ⟨e, hs.old, htpost⟩)).mp h.back
    obtain ⟨hb2, hb3⟩ := (Backlinks.append_iff htpost).mp hb2
    have hb2' := hs.back _ hb2
    rw [Backlinks.append_iff (append_iff.mpr ⟨e, hs.new, htpost⟩), Backlinks.append_iff htpost]
    refine ⟨hb1.congr (fun d hd => hm _ ?_) (hm _ (by omega)), hb2',
      hb3.reenter htpost (by omega) hb2'.last_eq fun x h1 _ => hm x (by omega)⟩
    have := htpre.bounds hd
    omega
  · rw [hm _ (by omega)]
    exact h.sentinel

/-- The heap described by `cs` becomes the one described by `cs'`, and used chunks other than
the one at `a` survive. -/
structure Becomes (P : Extent) (a : ℕ) (m : Words) (cs : List Chunk) (m' : Words)
    (cs' : List Chunk) : Prop where
  heap : Heap P m' cs'
  kept : Kept a cs m cs' m'

theorem Becomes.refl (h : Heap P m cs) : Becomes P a m cs m cs := ⟨h, Kept.refl⟩

theorem Becomes.trans (h : Becomes P a m cs m' cs') (h' : Becomes P a m' cs' m'' cs'') :
    Becomes P a m cs m'' cs'' := ⟨h'.heap, h.kept.trans h'.kept⟩

/-- Replace neighbouring chunks that are on no list by others that are on no list. -/
theorem Heap.splice (mid mid' : List Chunk) (h : Heap P m (pre ++ (mid ++ post)))
    (hs : Splice m m' a e mid mid') (hfree : ∀ c ∈ mid, c.use ≠ .free)
    (hfree' : ∀ c ∈ mid', c.use ≠ .free) (hused : ∀ c ∈ mid, c.isUsed → c.addr = b) :
    Becomes P b m (pre ++ (mid ++ post)) m' (pre ++ (mid' ++ post)) := by
  obtain ⟨hl, L, hL⟩ := h
  have hP := P.geometry
  have ha := (hs.around hl).1.le
  have hother : ∀ d ∈ pre ++ (mid ++ post), d ∉ mid → d ∈ pre ++ post := fun d hd hdm => by
    simpa [hdm] using hd
  refine ⟨⟨hl.splice mid mid' hs, L, ?_⟩, ?_⟩
  · refine hL.congr (fun d hd => ?_) (fun x _ hx => hs.outside x (by omega)) fun d hd hu => ?_
    · have h1 : d ∉ mid := fun hdm => hfree d hdm hd
      have h2 : d ∉ mid' := fun hdm => hfree' d hdm hd
      simp [h1, h2]
    · have hb := hl.bounds hd
      have hd' := hother d hd fun hdm => hfree d hdm hu
      exact ⟨hs.kept hl hd' (by omega) (by omega), hs.kept hl hd' (by omega) (by omega)⟩
  · intro d hd hu hb
    have hd' := hother d hd fun hdm => hb (hused d hdm hu)
    refine ⟨?_, fun x hx => hs.kept hl hd' (by have := hx.1; omega) hx.2⟩
    simp only [mem_append] at hd' ⊢
    exact hd'.imp_right .inr

/-- Writes that touch no layout word, no list word and no payload of a used chunk. -/
theorem Heap.write_info (h : Heap P m cs) (h1 : P.pool + 8 ≤ x) (h2 : x < P.pool + 20) :
    Becomes P a m cs (m.write x v) cs := by
  obtain ⟨hl, L, hL⟩ := h
  have hP := P.geometry
  refine ⟨⟨hl.write_spare (.inl ⟨h1, by omega⟩), L, hL.write_other (by omega) ?_⟩, ?_⟩
  · intro d hd _
    have := hl.bounds hd
    omega
  · intro d hd _ _
    refine ⟨hd, fun y hy => write_of_ne _ _ ?_⟩
    have := hl.bounds hd
    have := hy.1
    omega

section

variable (h : Heap P m (pre ++ c :: post))
include h

theorem Heap.relabel {u : Use} (hc : c.use ≠ .free)
    (hu : u ≠ .free) (hgap : (Chunk.mk c.addr c.size u).gap = 0) (hb : c.isUsed → c.addr = b)
    (hm : m' = m.write (c.addr + 4) (Chunk.mk c.addr c.size u).word) :
    Becomes P b m (pre ++ c :: post) m' (pre ++ ⟨c.addr, c.size, u⟩ :: post) := by
  subst hm
  have hcm : c ∈ pre ++ c :: post := by simp
  have hs := h.layout.bounds hcm
  refine h.splice [c] [⟨c.addr, c.size, u⟩]
    ⟨⟨rfl, hs.2.1, rfl⟩, ⟨rfl, hs.2.1, rfl⟩, ?_, ?_, ?_, ?_, ?_, by simp⟩ ?_ ?_ ?_
  · intro x hx
    exact write_of_ne _ _ (by omega)
  · rintro q ⟨h1, h2⟩
    have hne : ∀ y, y = c.addr ∨ y = c.addr + c.size → y ≠ c.addr + 4 := by omega
    exact ⟨(write_of_ne _ _ (hne _ (.inl rfl))).trans h1,
      (write_of_ne _ _ (hne _ (.inr rfl))).trans h2⟩
  · simpa using h.layout.fine c hcm
  · simp
  · simp only [mem_singleton]
    rintro d rfl hg
    exact absurd hgap hg
  · simpa using hc
  · simpa using hu
  · simpa using hb

theorem Heap.unflag (hc : c.isUsed) :
    Becomes P c.addr m (pre ++ c :: post) (m.write (c.addr + 4) c.size)
      (pre ++ ⟨c.addr, c.size, .loose⟩ :: post) := by
  obtain ⟨g, hg⟩ := hc
  exact h.relabel (by simp [hg]) (by simp) rfl (fun _ => rfl) rfl

theorem Heap.flag (hc : c.use = .loose) :
    Becomes P a m (pre ++ c :: post) (m.write (c.addr + 4) (osMemNodeSetUsedFlag (m (c.addr + 4))))
      (pre ++ ⟨c.addr, c.size, .used 0⟩ :: post) := by
  obtain ⟨ca, cs, cu⟩ := c
  obtain rfl : cu = .loose := hc
  have hcm : (⟨ca, cs, .loose⟩ : Chunk) ∈ pre ++ ⟨ca, cs, .loose⟩ :: post := by simp
  refine h.relabel (by simp) (by simp) rfl (fun ⟨g, hg⟩ => by cases hg) ?_
  rw [show m (ca + 4) = _ from h.layout.words _ hcm, word_loose,
    setUsed_size (h.layout.size_lt hcm)]
  rfl

end

theorem Layout.back_next (h : Layout P m (pre ++ c :: post)) : m (c.addr + c.size) = c.addr := by
  obtain ⟨-, -, htpost⟩ := split_iff.mp h.tiles
  obtain ⟨x, -, htc⟩ := append_iff.mp h.tiles
  have hb := ((Backlinks.append_iff htc).mp h.back).2
  exact Backlinks.first_eq htpost hb.2

theorem Layout.next_addr (h : Layout P m (pre ++ c :: d :: post)) : d.addr = c.addr + c.size :=
  (split_iff.mp h.tiles).2.2.1

theorem Layout.merge_eq (h : Layout P m (pre ++ c :: d :: post)) (hc : c.use = .loose)
    (hd : d.use = .loose) : osMemMergeNode m d.addr =
      (m.write (c.addr + 4) (c.size + d.size)).write (d.addr + d.size) c.addr := by
  have hcm : c ∈ pre ++ c :: d :: post := by simp
  have hdm : d ∈ pre ++ c :: d :: post := by simp
  have hcs := h.bounds hcm
  have hadj := h.next_addr
  have hback := h.back_next
  have hwc := h.loose_word hcm hc
  have hwd := h.loose_word hdm hd
  simp only [osMemMergeNode, prevAt, sizeAndFlagAt]
  rw [← hadj] at hback
  rw [hback, hwc, hwd, write_of_ne _ _ (by omega), write_of_ne _ _ (by omega), hwd, hback]

theorem Heap.merge (h : Heap P m (pre ++ c :: d :: post)) (hc : c.use = .loose)
    (hd : d.use = .loose) (hlt : c.size + d.size < 2 ^ 28) :
    Becomes P a m (pre ++ c :: d :: post) (osMemMergeNode m d.addr)
      (pre ++ ⟨c.addr, c.size + d.size, .loose⟩ :: post) := by
  have hcm : c ∈ pre ++ c :: d :: post := by simp
  have hdm : d ∈ pre ++ c :: d :: post := by simp
  have hcs := h.layout.bounds hcm
  have hds := h.layout.bounds hdm
  have hadj := h.layout.next_addr
  rw [h.layout.merge_eq hc hd]
  refine h.splice [c, d] [⟨c.addr, c.size + d.size, .loose⟩]
    (e := d.addr + d.size) ⟨⟨rfl, hcs.2.1, hadj, hds.2.1, ?_⟩, ⟨rfl, ?_, ?_⟩, ?_, ?_, ?_, ?_, ?_,
    by simp⟩ ?_ ?_ ?_
  · simp only [nil_iff]
    omega
  · simp only
    omega
  · simp only [nil_iff]
    omega
  · intro x hx
    simp (disch := omega) only [write_of_ne]
  · rintro q ⟨h1, -⟩
    refine ⟨?_, write_self ..⟩
    rw [← h1]
    exact (write_of_ne _ _ (show c.addr ≠ _ by omega)).trans
      (write_of_ne _ _ (show c.addr ≠ _ by omega))
  · have h1 := h.layout.fine c hcm
    have h2 := h.layout.fine d hdm
    simp only [mem_singleton, forall_eq]
    omega
  · simp only [mem_singleton, forall_eq, word_loose]
    simp (disch := omega) only [write_of_ne, write_self]
  · simp [Chunk.GapOk]
  · simp [hc, hd]
  · simp
  · simp [isUsed, hc, hd]

/-- The header words `OsMemSplitNode` writes before it looks at the lists. -/
def splitHeaders (m : Words) (node size s : ℕ) : Words :=
  (((m.write (node + s) node).write (node + s + 4) (size - s)).write (node + 4) s).write
    (node + size) (node + s)

theorem Heap.split (h : Heap P m (pre ++ c :: post)) (hc : c.use = .loose) (hs : 16 ≤ s)
    (hs4 : s % 4 = 0) (hfit : s + 16 ≤ c.size) :
    Becomes P a m (pre ++ c :: post) (splitHeaders m c.addr c.size s)
      (pre ++ ⟨c.addr, s, .loose⟩ :: ⟨c.addr + s, c.size - s, .loose⟩ :: post) := by
  have hcm : c ∈ pre ++ c :: post := by simp
  have hcs := h.layout.bounds hcm
  refine h.splice [c] [⟨c.addr, s, .loose⟩, ⟨c.addr + s, c.size - s, .loose⟩]
    ⟨⟨rfl, hcs.2.1, rfl⟩, ⟨rfl, hs, rfl, ?_, ?_⟩, ?_, ?_, ?_, ?_, ?_, by simp⟩ ?_ ?_ ?_
  · simp only
    omega
  · simp only [nil_iff]
    omega
  · intro x hx
    simp only [splitHeaders]
    simp (disch := omega) only [write_of_ne]
  · rintro q ⟨h1, -⟩
    refine ⟨?_, ?_, write_self ..⟩
    · rw [← h1]
      simp only [splitHeaders]
      simp (disch := omega) only [write_of_ne]
    · simp only [splitHeaders]
      simp (disch := omega) only [write_of_ne, write_self]
  · have h1 := h.layout.fine c hcm
    simp only [mem_cons, not_mem_nil, or_false, forall_eq_or_imp, forall_eq]
    omega
  · simp only [mem_cons, not_mem_nil, or_false, forall_eq_or_imp, forall_eq,
      word_loose, splitHeaders]
    constructor <;> simp (disch := omega) only [write_of_ne, write_self]
  · simp [Chunk.GapOk]
  · simp [hc]
  · simp
  · simp [isUsed, hc]

theorem Heap.setGap (h : Heap P m (pre ++ c :: post)) (hc : c.use = .used 0) (hg : 0 < g)
    (hg4 : g % 4 = 0) (hfit : 8 + g < c.size) : Becomes P c.addr m (pre ++ c :: post)
      ((m.write (c.addr + 4) (osMemNodeSetAlignedFlag (m (c.addr + 4)))).write (c.addr + 4 + g)
        (osMemSetGapsizeAlignedFlag g)) (pre ++ ⟨c.addr, c.size, .used g⟩ :: post) := by
  have hcm : c ∈ pre ++ c :: post := by simp
  have hcs := h.layout.bounds hcm
  have hlt := h.layout.size_lt hcm
  have hword : osMemNodeSetAlignedFlag (m (c.addr + 4)) = c.size + 2 ^ 30 + 2 ^ 31 := by
    rw [h.layout.words c hcm, word, hc]
    simp only [osMemNodeSetAlignedFlag, osMemNodeAlignedFlag]
    have h1 := or_flag (x := c.size) (k := 31) (by omega)
    have h2 := or_flag (x := c.size) (k := 30) (by omega)
    have h3 := or_flag (x := c.size + 2 ^ 30) (k := 31) (by omega)
    rw [← h1, Nat.or_assoc, Nat.or_comm (1 <<< 31), ← Nat.or_assoc, h2, h3]
  have hgap : osMemSetGapsizeAlignedFlag g = g + 2 ^ 30 := or_flag (k := 30) (by omega)
  rw [hword, hgap]
  refine h.splice [c] [⟨c.addr, c.size, .used g⟩]
    ⟨⟨rfl, hcs.2.1, rfl⟩, ⟨rfl, hcs.2.1, rfl⟩, ?_, ?_, ?_, ?_, ?_, by simp⟩ ?_ ?_ ?_
  · intro x hx
    simp (disch := omega) only [write_of_ne]
  · rintro q ⟨h1, h2⟩
    have hne : ∀ y, y = c.addr ∨ y = c.addr + c.size → y ≠ c.addr + 4 ∧ y ≠ c.addr + 4 + g := by
      omega
    have h3 := hne _ (.inl rfl)
    have h4 := hne _ (.inr rfl)
    exact ⟨(write_of_ne _ _ h3.2).trans ((write_of_ne _ _ h3.1).trans h1),
      (write_of_ne _ _ h4.2).trans ((write_of_ne _ _ h4.1).trans h2)⟩
  · simpa using h.layout.fine c hcm
  · simp only [mem_singleton, forall_eq]
    simp (disch := omega) only [write_of_ne, write_self]
    obtain ⟨g, rfl⟩ : ∃ g', g = g' + 1 := ⟨g - 1, by omega⟩
    rfl
  · simp only [mem_singleton, forall_eq]
    exact fun _ => ⟨hg4, hfit, write_self ..⟩
  · simp [hc]
  · simp
  · simp

theorem Heap.store (h : Heap P m cs) (hc : c ∈ cs) (hu : c.isUsed)
    (h1 : c.addr + 8 + c.gap ≤ x) (h2 : x < c.addr + c.size) : Heap P (m.write x v) cs := by
  obtain ⟨hl, L, hL⟩ := h
  have hP := P.geometry
  have hcb := hl.bounds hc
  refine ⟨hl.write_spare (.inr ⟨c, hc, h1, h2⟩), L, hL.write_other (by omega) ?_⟩
  intro d hd hdu
  have hdb := hl.bounds hd
  rcases hl.tiles.apart hc hd with rfl | hcd | hcd
  · exact absurd hu (not_isUsed_of_free hdu)
  · omega
  · omega

section ListChanges

variable {L : ℕ → List ℕ} {l : List ℕ} {i x : ℕ} {u : Use}

/-- A relinked list touches no layout word, provided its nodes are unused chunks. -/
theorem Layout.relinked (hl : Layout P m cs) (hr : Relinked P m m' L i l)
    (hnode : ∀ b, b ∈ L i ∨ b ∈ l → ∃ d ∈ cs, ¬ d.isUsed ∧ d.addr = b) : Layout P m' cs := by
  have hP := P.geometry
  refine hl.congr_spare fun x hx => hr.outside x ?_ fun b hb => ?_
  · by_contra hc
    exact hx (.inl (by omega))
  · obtain ⟨d, hd, hu, rfl⟩ := hnode b hb
    have hdb := hl.bounds hd
    have hgap := gap_eq_zero hu
    constructor
    all_goals
      rintro rfl
      exact hx (.inr ⟨d, hd, by omega⟩)

theorem Layout.relinked_payload (hl : Layout P m cs) (hr : Relinked P m m' L i l) (hc : c ∈ cs)
    (hnode : ∀ b, b ∈ L i ∨ b ∈ l → ∃ d ∈ cs, d ≠ c ∧ d.addr = b) (hx : c.Payload x) :
    m' x = m x := by
  have hP := P.geometry
  have hcb := hl.bounds hc
  obtain ⟨h1, h2⟩ := hx
  refine hr.outside x (by omega) fun b hb => ?_
  obtain ⟨d, hd, hdc, rfl⟩ := hnode b hb
  have hdb := hl.bounds hd
  rcases hl.tiles.apart hc hd with rfl | hcd | hcd
  · exact absurd rfl hdc
  · omega
  · omega

theorem Layout.relabel (hl : Layout P m (pre ++ c :: post)) (hc : ¬ c.isUsed)
    (hu : u = .free ∨ u = .loose) : Layout P m (pre ++ { c with use := u } :: post) := by
  have hcm : c ∈ pre ++ c :: post := by simp
  have hcb := hl.bounds hcm
  have hword : (Chunk.mk c.addr c.size u).word = c.word := by
    obtain ⟨ca, cs, cu⟩ := c
    rcases hu with rfl | rfl <;> cases cu with
    | used g => exact absurd ⟨g, rfl⟩ hc
    | free | loose => rfl
  have hgap : (Chunk.mk c.addr c.size u).gap = 0 := by
    rcases hu with rfl | rfl <;> rfl
  refine hl.splice [c] [⟨c.addr, c.size, u⟩]
    ⟨⟨rfl, hcb.2.1, rfl⟩, ⟨rfl, hcb.2.1, rfl⟩, fun _ _ => rfl, fun _ h => h, ?_, ?_, ?_, by simp⟩
  · simpa using hl.fine c hcm
  · simp [hword, hl.words c hcm]
  · simp [Chunk.GapOk, hgap]

/-- One list was relinked, around free chunks and `c`: the chunk changes its use, and what lies in
the other chunks that are on no list stays. -/
theorem Layout.relist (hl : Layout P m (pre ++ c :: post)) (hr : Relinked P m m' L i l)
    (hnode : ∀ b, b ∈ L i ∨ b ∈ l → ∃ d ∈ pre ++ c :: post, (d.use = .free ∨ d = c) ∧ d.addr = b)
    (hc : ¬ c.isUsed) (hu : u = .free ∨ u = .loose)
    (hL : ∃ L', FreeLists P m' (pre ++ { c with use := u } :: post) L') :
    Becomes P a m (pre ++ c :: post) m' (pre ++ { c with use := u } :: post) ∧
      ∀ d ∈ pre ++ c :: post, d ≠ c → d.use ≠ .free → ∀ x, d.Payload x → m' x = m x := by
  have hunused : ∀ b, b ∈ L i ∨ b ∈ l → ∃ d ∈ pre ++ c :: post, ¬ d.isUsed ∧ d.addr = b := by
    intro b hb
    obtain ⟨d, hd, hdu, hdb⟩ := hnode b hb
    exact ⟨d, hd, hdu.elim not_isUsed_of_free fun h => h ▸ hc, hdb⟩
  have hpay : ∀ d ∈ pre ++ c :: post, d ≠ c → d.use ≠ .free → ∀ x, d.Payload x → m' x = m x := by
    intro d hd hdc hdu x hx
    refine hl.relinked_payload hr hd (fun b hb => ?_) hx
    obtain ⟨e, he, heu, heb⟩ := hnode b hb
    exact ⟨e, he, fun h => heu.elim (h ▸ hdu) (h ▸ hdc), heb⟩
  refine ⟨⟨⟨(hl.relinked hr hunused).relabel hc hu, hL⟩, fun d hd hdu _ => ?_⟩, hpay⟩
  have hdc : d ≠ c := fun he => hc (he ▸ hdu)
  refine ⟨?_, hpay d hd hdc fun h => not_isUsed_of_free h hdu⟩
  simp only [mem_append, mem_cons, hdc, false_or] at hd ⊢
  exact hd.imp_right .inr

theorem Heap.delete (h : Heap P m (pre ++ c :: post)) (hc : c.use = .free) :
    Becomes P a m (pre ++ c :: post) (osMemFreeNodeDelete m P.pool c.addr)
        (pre ++ { c with use := .loose } :: post) ∧
      ∀ d ∈ pre ++ c :: post, d ≠ c → d.use ≠ .free → ∀ x, d.Payload x →
        osMemFreeNodeDelete m P.pool c.addr x = m x := by
  obtain ⟨hl, L, hL⟩ := h
  have hcm : c ∈ pre ++ c :: post := by simp
  have hword := hl.free_word hcm hc
  have hn : c.addr ∈ L (osMemFreeListIndexGet c.size) :=
    (hL.mem_iff _ _).mpr ⟨c, hcm, hc, rfl, rfl⟩
  rw [osMemFreeNodeDelete, sizeAndFlagAt, hword]
  refine hl.relist (relinked_delete hl hL hn) (fun b hb => ?_) (not_isUsed_of_free hc)
    (.inr rfl) ⟨_, hL.delete hl hc⟩
  obtain ⟨d, hd, hu, hda, -⟩ := hL.chunk_of_mem (hb.elim id mem_of_mem_erase)
  exact ⟨d, hd, .inl hu, hda⟩

/-- Put a loose chunk on the list of its class; the index is in range, so nothing panics. -/
theorem Heap.add (h : Heap P m (pre ++ c :: post)) (hc : c.use = .loose) :
    ∃ m', osMemFreeNodeAdd m P.pool c.addr = some m' ∧
      Becomes P a m (pre ++ c :: post) m' (pre ++ { c with use := .free } :: post) ∧
      ∀ d ∈ pre ++ c :: post, d ≠ c → d.use ≠ .free → ∀ x, d.Payload x → m' x = m x := by
  obtain ⟨hl, L, hL⟩ := h
  have hcm : c ∈ pre ++ c :: post := by simp
  have hcb := hl.bounds hcm
  have hword := hl.loose_word hcm hc
  have hi : osMemFreeListIndexGet c.size ≤ 198 :=
    osMemFreeListIndexGet_le (by omega) (hl.size_lt hcm)
  refine ⟨osMemListAdd m P.pool (osMemFreeListIndexGet c.size) c.addr, ?_,
    hl.relist (relinked_add hl hL (by omega) hcm hc)
      (fun b hb => ?_) (not_isUsed_of_loose hc) (.inl rfl) ⟨_, hL.add hl hc⟩⟩
  · rw [osMemFreeNodeAdd, sizeAndFlagAt, hword, osMemFreeListCount_eq, if_neg (by omega)]
  · have hb : b = c.addr ∨ b ∈ L (osMemFreeListIndexGet c.size) := by
      rcases hb with hb | hb
      · exact .inr hb
      · exact mem_cons.mp hb
    rcases hb with rfl | hb
    · exact ⟨c, hcm, .inr rfl, rfl⟩
    · obtain ⟨d, hd, hu, hda, -⟩ := hL.chunk_of_mem hb
      exact ⟨d, hd, .inl hu, hda⟩

end ListChanges
end LiteOS.Memory
