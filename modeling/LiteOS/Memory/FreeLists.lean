import LiteOS.Memory.Layout

/-!
# Free lists under insertion and removal

Removing a free chunk from its list makes it loose; listing a loose chunk makes it free.
Both write only list heads, the bitmap and link words, so the layout stays as it is.
-/

namespace LiteOS.Memory

open Lib Function FreeLists Words List

variable {P : Extent} {m m' : Words} {cs cs' pre post : List Chunk} {L : ℕ → List ℕ} {c : Chunk}
  {i j n a b w k : ℕ} {l : List ℕ}

theorem freeListAt_eq (pool i : ℕ) : freeListAt pool i = pool + 48 + 4 * i := rfl

theorem freeListBitmapAt_eq (pool i : ℕ) :
    freeListBitmapAt pool (i >>> 5) = pool + 20 + 4 * (i / 32) := by
  rw [freeListBitmapAt, Nat.shiftRight_eq_div_pow]

theorem and_mask_eq (i : ℕ) : i &&& 0x1f = i % 32 := Nat.and_two_pow_sub_one_eq_mod i 5

theorem testBit_setBit (w k j : ℕ) :
    (w ||| 1 <<< k).testBit j = (w.testBit j || decide (k = j)) := by
  rw [Nat.testBit_or, Nat.shiftLeft_eq, Nat.one_mul, Nat.testBit_two_pow]

theorem testBit_clearBit (hk : k < 32) (hj : j < 32) :
    (w &&& not32 (1 <<< k)).testBit j = (w.testBit j && !decide (k = j)) := by
  have hlt : 1 <<< k < 2 ^ 32 := by
    rw [Nat.shiftLeft_eq, Nat.one_mul]
    exact Nat.pow_lt_pow_right (by omega) hk
  rw [Nat.testBit_and, testBit_not32 hlt, Nat.shiftLeft_eq, Nat.one_mul, Nat.testBit_two_pow]
  simp [hj]

namespace FreeLists

theorem chunk_of_mem (h : FreeLists P m cs L) (hn : n ∈ L i) :
    ∃ c ∈ cs, c.use = .free ∧ c.addr = n ∧ osMemFreeListIndexGet c.size = i :=
  (h.mem_iff i n).mp hn

section

variable (hl : Layout P m cs) (h : FreeLists P m cs L)
include hl h

theorem mem_range (hn : n ∈ L i) : P.first ≤ n ∧ n + 16 ≤ P.last := by
  obtain ⟨c, hc, -, rfl, -⟩ := h.chunk_of_mem hn
  have := hl.bounds hc
  omega

/-- Listed nodes are far enough apart that their link words differ. -/
theorem spaced (ha : a ∈ L i) (hb : b ∈ L j) : a = b ∨ a + 16 ≤ b ∨ b + 16 ≤ a := by
  obtain ⟨c, hc, -, rfl, -⟩ := h.chunk_of_mem ha
  obtain ⟨d, hd, -, rfl, -⟩ := h.chunk_of_mem hb
  have hc' := hl.bounds hc
  have hd' := hl.bounds hd
  rcases hl.tiles.apart hc hd with rfl | hcd | hcd
  · exact .inl rfl
  · exact .inr (.inl (by omega))
  · exact .inr (.inr (by omega))

theorem index_eq (ha : n ∈ L i) (hb : n ∈ L j) : i = j := by
  obtain ⟨c, hc, -, hca, rfl⟩ := h.chunk_of_mem ha
  obtain ⟨d, hd, -, hda, rfl⟩ := h.chunk_of_mem hb
  rw [hl.tiles.eq_of_addr (by omega) hc hd (hca.trans hda.symm)]

theorem index_le (hn : n ∈ L i) : i ≤ 198 := by
  obtain ⟨c, hc, -, -, rfl⟩ := h.chunk_of_mem hn
  have := hl.bounds hc
  exact osMemFreeListIndexGet_le (by omega) (hl.size_lt hc)

end

end FreeLists

/-- The memory `m'` holds the list `l` in place of list `i` of `m`; everything the other lists
read is as before. -/
structure Relinked (P : Extent) (m m' : Words) (L : ℕ → List ℕ) (i : ℕ) (l : List ℕ) : Prop where
  heads : ∀ j < 223, j ≠ i → m' (P.pool + 48 + 4 * j) = m (P.pool + 48 + 4 * j)
  outside : ∀ x, x < P.pool + 20 ∨ P.pool + 940 ≤ x →
    (∀ a, a ∈ L i ∨ a ∈ l → x ≠ a + 8 ∧ x ≠ a + 12) → m' x = m x
  bits : ∀ j < 224, j ≠ i → (m' (P.pool + 20 + 4 * (j / 32))).testBit (j % 32) =
    (m (P.pool + 20 + 4 * (j / 32))).testBit (j % 32)
  linked : Linked m' 8 12 0 (m' (P.pool + 48 + 4 * i)) l 0
  bit : (m' (P.pool + 20 + 4 * (i / 32))).testBit (i % 32) ↔ l ≠ []
  small : ∀ w < 7, m (P.pool + 20 + 4 * w) < 2 ^ 32 → m' (P.pool + 20 + 4 * w) < 2 ^ 32

theorem FreeLists.relink (hl : Layout P m cs) (h : FreeLists P m cs L) (hr : Relinked P m m' L i l)
    (hfar : ∀ j, j ≠ i → ∀ a ∈ L j, ∀ b, b ∈ L i ∨ b ∈ l → a + 16 ≤ b ∨ b + 16 ≤ a)
    (hmem : ∀ j n, n ∈ update L i l j ↔
      ∃ c ∈ cs', c.use = .free ∧ c.addr = n ∧ osMemFreeListIndexGet c.size = j)
    (hnodup : l.Nodup) : FreeLists P m' cs' (update L i l) where
  linked j hj := by
    by_cases hji : j = i
    · subst hji
      simpa using hr.linked
    · rw [update_of_ne hji, hr.heads j hj hji]
      have hP := P.geometry
      refine (h.linked j hj).congr fun a ha => ?_
      have := mem_range hl h ha
      constructor
      all_goals
        refine hr.outside _ (by omega) fun b hb => ?_
        have := hfar j hji a ha b hb
        omega
  bits j hj := by
    by_cases hji : j = i
    · subst hji
      simpa using hr.bit
    · rw [update_of_ne hji, hr.bits j hj hji]
      exact h.bits j hj
  mem_iff := hmem
  nodup j := by
    by_cases hji : j = i
    · subst hji
      simpa using hnodup
    · rw [update_of_ne hji]
      exact h.nodup j
  small w hw := hr.small w hw (h.small w hw)

theorem mem_update_erase (hl : Layout P m (pre ++ c :: post))
    (h : FreeLists P m (pre ++ c :: post) L) (hc : c.use = .free) (j n : ℕ) :
    n ∈ update L (osMemFreeListIndexGet c.size)
        ((L (osMemFreeListIndexGet c.size)).erase c.addr) j ↔
      ∃ d ∈ pre ++ { c with use := .loose } :: post,
        d.use = .free ∧ d.addr = n ∧ osMemFreeListIndexGet d.size = j := by
  have hout := hl.tiles.notMem_of_split (by omega)
  have hiff : n ∈ update L (osMemFreeListIndexGet c.size)
      ((L (osMemFreeListIndexGet c.size)).erase c.addr) j ↔ n ≠ c.addr ∧ n ∈ L j := by
    by_cases hj : j = osMemFreeListIndexGet c.size
    · subst hj
      rw [update_self, (h.nodup _).mem_erase_iff]
    · rw [update_of_ne hj]
      refine ⟨fun hn => ⟨?_, hn⟩, fun hn => hn.2⟩
      rintro rfl
      have hcmem : c.addr ∈ L (osMemFreeListIndexGet c.size) :=
        (h.mem_iff _ _).mpr ⟨c, by simp, hc, rfl, rfl⟩
      exact hj (index_eq hl h hn hcmem)
  rw [hiff, h.mem_iff]
  constructor
  · rintro ⟨hne, d, hd, hu, rfl, rfl⟩
    have hdc : d ≠ c := fun he => hne (he ▸ rfl)
    simp only [mem_append, mem_cons, hdc, false_or] at hd
    exact ⟨d, by simp [hd.imp_right Or.inr], hu, rfl, rfl⟩
  · rintro ⟨d, hd, hu, rfl, rfl⟩
    have hdc : d ≠ { c with use := .loose } := by
      rintro rfl
      cases hu
    simp only [mem_append, mem_cons, hdc, false_or] at hd
    have hd' : d ∈ pre ++ c :: post := by simp [hd.imp_right Or.inr]
    refine ⟨hl.tiles.addr_ne (by omega) hd' (by simp) ?_, d, hd', hu, rfl, rfl⟩
    rintro rfl
    exact hd.elim hout.1 hout.2

theorem mem_update_cons (h : FreeLists P m (pre ++ c :: post) L) (hc : c.use = .loose) (j n : ℕ) :
    n ∈ update L (osMemFreeListIndexGet c.size) (c.addr :: L (osMemFreeListIndexGet c.size)) j ↔
      ∃ d ∈ pre ++ { c with use := .free } :: post,
        d.use = .free ∧ d.addr = n ∧ osMemFreeListIndexGet d.size = j := by
  have hiff : n ∈ update L (osMemFreeListIndexGet c.size)
      (c.addr :: L (osMemFreeListIndexGet c.size)) j ↔
        (n = c.addr ∧ j = osMemFreeListIndexGet c.size) ∨ n ∈ L j := by
    by_cases hj : j = osMemFreeListIndexGet c.size
    · subst hj
      simp
    · simp [hj]
  rw [hiff, h.mem_iff]
  constructor
  · rintro (⟨rfl, rfl⟩ | ⟨d, hd, hu, rfl, rfl⟩)
    · exact ⟨{ c with use := .free }, by simp, rfl, rfl, rfl⟩
    · have hdc : d ≠ c := by
        rintro rfl
        rw [hc] at hu
        cases hu
      simp only [mem_append, mem_cons, hdc, false_or] at hd
      exact ⟨d, by simp [hd.imp_right Or.inr], hu, rfl, rfl⟩
  · rintro ⟨d, hd, hu, rfl, rfl⟩
    by_cases hdc : d = { c with use := .free }
    · subst hdc
      exact .inl ⟨rfl, rfl⟩
    · simp only [mem_append, mem_cons, hdc, false_or] at hd
      exact .inr ⟨d, by simp [hd.imp_right Or.inr], hu, rfl, rfl⟩

section Delete

/-- The word that leads to node `n` of list `i`. -/
def linkAt (m : Words) (pool i n : ℕ) : ℕ :=
  if m (pool + 48 + 4 * i) = n then pool + 48 + 4 * i else m (n + 8) + 12

section

variable (hl : Layout P m cs) (h : FreeLists P m cs L) (hn : n ∈ L i)
include hl h hn

theorem FreeLists.links : (m (n + 12) = 0 ∨ m (n + 12) ∈ L i ∧ m (n + 12) ≠ n) ∧
      (m (P.pool + 48 + 4 * i) = n ∧ m (n + 8) = 0 ∨
        m (P.pool + 48 + 4 * i) ≠ n ∧ m (n + 8) ∈ L i ∧ m (n + 8) ≠ n) := by
  have hi := index_le hl h hn
  have hlink := h.linked i (by omega)
  have hnd := h.nodup i
  obtain ⟨l, t, ht⟩ := append_of_mem hn
  rw [ht] at hlink hnd ⊢
  obtain ⟨hhead, -, hnext, hback⟩ := hlink.neighbours hnd
  simp only [nodup_append, nodup_cons, mem_cons] at hnd
  refine ⟨hnext.imp_right fun hx => ⟨by simp [hx], fun he => hnd.2.1.1 (he ▸ hx)⟩, ?_⟩
  simp only [ne_eq, hhead]
  refine hback.imp_right fun hx => ⟨?_, by simp [hx], fun he => ?_⟩
  · rintro rfl
    cases hx
  · exact hnd.2.2 _ hx _ (.inl rfl) he

theorem FreeLists.linkAt_cases :
    (linkAt m P.pool i n = P.pool + 48 + 4 * i ∧ m (P.pool + 48 + 4 * i) = n ∨
        P.first ≤ linkAt m P.pool i n ∧ m (P.pool + 48 + 4 * i) ≠ n) ∧
      ∀ c ∈ L i, linkAt m P.pool i n ≠ c + 8 ∧ (linkAt m P.pool i n = c + 12 ↔ c = m (n + 8)) := by
  have hP := P.geometry
  have hi := index_le hl h hn
  unfold linkAt
  obtain ⟨-, ⟨hhead, hp⟩ | ⟨hhead, hpm, -⟩⟩ := h.links hl hn
  · simp only [hhead, if_true]
    refine ⟨.inl ⟨trivial, trivial⟩, fun c hc => ?_⟩
    have := mem_range hl h hc
    omega
  · have hpr := mem_range hl h hpm
    simp only [hhead, if_false]
    refine ⟨.inr ⟨by omega, hhead⟩, fun c hc => ?_⟩
    have := spaced hl h hc hpm
    omega

theorem osMemListDelete_apply (x : ℕ) :
    osMemListDelete m P.pool i n x = if x = m (n + 12) + 8 ∧ m (n + 12) ≠ 0 then m (n + 8)
      else if x = linkAt m P.pool i n then m (n + 12)
      else if x = P.pool + 20 + 4 * (i / 32) ∧ m (P.pool + 48 + 4 * i) = n ∧ m (n + 12) = 0 then
        m x &&& not32 (1 <<< (i % 32)) else m x := by
  have hP := P.geometry
  have hi := index_le hl h hn
  have hr := mem_range hl h hn
  obtain ⟨-, ⟨hhead, hp⟩ | ⟨hhead, hpm, hpn⟩⟩ := h.links hl hn
  · have hnext : (m.write (P.pool + 48 + 4 * i) (m (n + 12))) (n + 12) = m (n + 12) :=
      write_of_ne _ _ (by omega)
    simp only [osMemListDelete, freeListAt_eq, freeNextAt, freePrevAt, hhead, hnext, linkAt, hp]
    by_cases h0 : m (n + 12) = 0
    · simp only [h0, if_true, osMemClearFreeListBit, freeListBitmapAt_eq, and_mask_eq,
        write_apply, and_true]
      split_ifs with h1
      all_goals first | rfl | omega | rw [h1]
    · simp [h0, write_apply]
  · have hsp := spaced hl h hpm hn
    have hnext : (m.write (m (n + 8) + 12) (m (n + 12))) (n + 12) = m (n + 12) :=
      write_of_ne _ _ (by omega)
    have hprev : (m.write (m (n + 8) + 12) (m (n + 12))) (n + 8) = m (n + 8) :=
      write_of_ne _ _ (by omega)
    rw [osMemListDelete, freeListAt_eq, if_neg (Ne.symm hhead)]
    simp only [freeNextAt, freePrevAt, hprev, linkAt, hhead]
    by_cases h0 : m (n + 12) = 0 <;> simp [h0, write_apply]

/-- Taking a node off its list leaves its own links, and moves the head on if it was the first. -/
theorem osMemListDelete_self : osMemListDelete m P.pool i n (n + 8) = m (n + 8) ∧
      osMemListDelete m P.pool i n (n + 12) = m (n + 12) ∧
      osMemListDelete m P.pool i n (P.pool + 48 + 4 * i) =
        if m (P.pool + 48 + 4 * i) = n then m (n + 12) else m (P.pool + 48 + 4 * i) := by
  have hP := P.geometry
  have hr := mem_range hl h hn
  have hi := index_le hl h hn
  obtain ⟨hnext, hprev⟩ := h.links hl hn
  obtain ⟨hlinkr, hlinkc⟩ := h.linkAt_cases hl hn
  have hlinkn := hlinkc n hn
  have hnextr := hnext.imp_right fun hx =>
    And.intro (mem_range hl h hx.1).1 (spaced hl h hx.1 hn)
  simp only [osMemListDelete_apply hl h hn]
  refine ⟨?_, ?_, ?_⟩ <;> split_ifs <;> first | rfl | omega

end

theorem FreeLists.far (hl : Layout P m cs) (h : FreeLists P m cs L) (hj : j ≠ i) (ha : a ∈ L j)
    (hb : b ∈ L i) : a + 16 ≤ b ∨ b + 16 ≤ a := by
  rcases spaced hl h ha hb with rfl | hab
  · exact absurd (index_eq hl h ha hb) hj
  · exact hab

theorem relinked_delete (hl : Layout P m cs) (h : FreeLists P m cs L) (hn : n ∈ L i) :
    Relinked P m (osMemListDelete m P.pool i n) L i ((L i).erase n) := by
  have hm := osMemListDelete_apply hl h hn
  have hP := P.geometry
  have hi := index_le hl h hn
  obtain ⟨hnext, hprev⟩ := h.links hl hn
  have hnextr := hnext.imp_right fun hx => (mem_range hl h hx.1).1
  obtain ⟨hlinkr, hlinkc⟩ := h.linkAt_cases hl hn
  obtain ⟨l, t, ht⟩ := append_of_mem hn
  have hnd := h.nodup i
  rw [ht] at hnd
  obtain ⟨hlnil, htnil, -⟩ := (ht ▸ h.linked i (by omega)).neighbours hnd
  have herase : (L i).erase n = l ++ t := by
    have hnl : n ∉ l := fun hm => (nodup_append.mp hnd).2.2 n hm n (by simp) rfl
    rw [ht, erase_append_right _ hnl, erase_cons_head]
  constructor
  · intro j hj hji
    simp (disch := omega) only [hm, if_neg]
  · intro x hx hne
    have h1 := hnext.imp_right fun hy => (hne _ (.inl hy.1)).1
    have h2 : x ≠ linkAt m P.pool i n := by
      unfold linkAt
      split_ifs with hhead
      · omega
      · exact (hne _ (.inl (hprev.resolve_left fun hx => hhead hx.1).2.1)).2
    simp (disch := omega) only [hm, if_neg]
  · intro j hj hji
    rw [hm, if_neg (by omega), if_neg (by omega)]
    split_ifs with h1
    · rw [testBit_clearBit (by omega) (by omega)]
      simp [show i % 32 ≠ j % 32 by omega]
    · rfl
  · rw [herase, (osMemListDelete_self hl h hn).2.2]
    have hlink := h.linked i (by omega)
    rw [ht] at hlink
    have hin : ∀ c ∈ l ++ t, c ∈ L i := fun c hc => by
      rw [ht]
      simp only [mem_append] at hc ⊢
      tauto
    refine hlink.unlink (nodup_cons.mpr ⟨fun h0 => ?_, hnd⟩) (fun c hc => ?_) fun c hc => ?_
    · have := mem_range hl h (ht ▸ h0)
      omega
    · have hcr := mem_range hl h (hin c hc)
      have hsp := hlinkc c (hin c hc)
      rw [hm]
      split_ifs <;> first | rfl | omega
    · have hcr := mem_range hl h (hin c hc)
      have hsp := hlinkc c (hin c hc)
      have hsq := hnext.imp_right fun hy => spaced hl h (hin c hc) hy.1
      rw [hm]
      split_ifs <;> first | rfl | omega
  · rw [hm, if_neg (by omega), if_neg (by omega), herase]
    split_ifs with h1
    · rw [testBit_clearBit (by omega) (by omega)]
      simp [hlnil.mp h1.2.1, htnil.mp h1.2.2]
    · have hbit := h.bits i (by omega)
      have hne : l ++ t ≠ [] := fun he => by
        obtain ⟨hl0, ht0⟩ := append_eq_nil_iff.mp he
        exact h1 ⟨rfl, hlnil.mpr hl0, htnil.mpr ht0⟩
      simp [hbit, hne, ht]
  · intro w hw hlt
    rw [hm, if_neg (by omega), if_neg (by omega)]
    split_ifs
    · exact Nat.and_lt_two_pow _ (Nat.lt_of_le_of_lt (Nat.sub_le _ _) (by omega))
    · exact hlt

/-- Taking a free chunk off its list: the list loses its address, and the chunk is loose. -/
theorem FreeLists.delete (hl : Layout P m (pre ++ c :: post))
    (h : FreeLists P m (pre ++ c :: post) L) (hc : c.use = .free) :
    FreeLists P (osMemListDelete m P.pool (osMemFreeListIndexGet c.size) c.addr)
      (pre ++ { c with use := .loose } :: post) (update L (osMemFreeListIndexGet c.size)
        ((L (osMemFreeListIndexGet c.size)).erase c.addr)) := by
  have hn := (h.mem_iff _ _).mpr ⟨c, by simp, hc, rfl, rfl⟩
  refine h.relink hl (relinked_delete hl h hn) ?_ (mem_update_erase hl h hc) ((h.nodup _).erase _)
  intro j hj a ha b hb
  exact far hl h hj ha (hb.elim id mem_of_mem_erase)

end Delete

section Add

theorem osMemListAdd_apply {pool : ℕ} (hi : i < 223) (hn : pool + 944 ≤ n)
    (ha : m (pool + 48 + 4 * i) = a) (hf : a = 0 ∨ pool + 944 ≤ a) :
    ∀ x, osMemListAdd m pool i n x = if x = pool + 20 + 4 * (i / 32) then m x ||| 1 <<< (i % 32)
      else if x = pool + 48 + 4 * i then n else if x = n + 12 then a else if x = n + 8 then 0
      else if x = a + 8 ∧ a ≠ 0 then n else m x := by
  intro x
  have hfirst : ∀ y, (if a ≠ 0 then m.write (a + 8) n else m) y =
      if y = a + 8 ∧ a ≠ 0 then n else m y := fun y => by
    by_cases h0 : a = 0 <;> simp [h0, write_apply]
  simp only [osMemListAdd, osMemSetFreeListBit, freeListAt_eq, freeListBitmapAt_eq, and_mask_eq,
    freePrevAt, freeNextAt, ha, write_apply, hfirst]
  split_ifs with h1
  all_goals first | rfl | omega | rw [h1]

theorem FreeLists.loose_apart (hl : Layout P m cs) (h : FreeLists P m cs L) (hc : c ∈ cs)
    (hloose : c.use = .loose) (ha : a ∈ L j) : a + 16 ≤ c.addr ∨ c.addr + 16 ≤ a := by
  obtain ⟨d, hd, hu, rfl, -⟩ := h.chunk_of_mem ha
  have hcb := hl.bounds hc
  have hdb := hl.bounds hd
  rcases hl.tiles.apart hc hd with rfl | hcd | hcd
  · rw [hloose] at hu
    cases hu
  · exact .inr (by omega)
  · exact .inl (by omega)

theorem relinked_add (hl : Layout P m cs) (h : FreeLists P m cs L) (hi : i < 223) (hc : c ∈ cs)
    (hloose : c.use = .loose) :
    Relinked P m (osMemListAdd m P.pool i c.addr) L i (c.addr :: L i) := by
  have hP := P.geometry
  have hcb := hl.bounds hc
  have hlink := h.linked i hi
  have hhead : m (P.pool + 48 + 4 * i) = 0 ∨ m (P.pool + 48 + 4 * i) ∈ L i := by
    by_cases h0 : m (P.pool + 48 + 4 * i) = 0
    · exact .inl h0
    · exact .inr (hlink.head_mem h0)
  have hm := osMemListAdd_apply hi hcb.1 rfl
    (hhead.imp_right fun hx => (mem_range hl h hx).1)
  have hsep : ∀ {j a}, a ∈ L j → a + 16 ≤ c.addr ∨ c.addr + 16 ≤ a :=
    fun ha => h.loose_apart hl hc hloose ha
  have hheadr := hhead.imp_right fun hx => (mem_range hl h hx).1
  constructor
  · intro j hj hji
    simp (disch := omega) only [hm, if_neg]
  · intro x hx hne
    have h1 := hne c.addr (by simp)
    have h2 := hhead.imp_right fun hy => (hne _ (.inl hy)).1
    simp (disch := omega) only [hm, if_neg]
  · intro j hj hji
    rw [hm]
    split_ifs with h1 h2 h3 h4 h5
    · rw [testBit_setBit]
      simp [show i % 32 ≠ j % 32 by omega]
    all_goals first | omega | rfl
  · rw [hm, if_neg (by omega), if_pos rfl]
    have hsp : ∀ x ∈ L i, x = m (P.pool + 48 + 4 * i) ∨ x + 16 ≤ m (P.pool + 48 + 4 * i) ∨
        m (P.pool + 48 + 4 * i) + 16 ≤ x := fun x hx => by
      have h0 : m (P.pool + 48 + 4 * i) ≠ 0 := fun h0 => by
        rw [hlink.head_eq_zero_iff.mp h0] at hx
        cases hx
      exact spaced hl h hx (hhead.resolve_left h0)
    refine hlink.push (by omega) ?_ ?_ ?_ ?_ ?_
    · simp (disch := omega) only [hm, if_neg, if_true]
    · simp (disch := omega) only [hm, if_neg, if_true]
    · intro b hb
      obtain ⟨t, ht⟩ := head?_eq_some_iff.mp hb
      rw [ht] at hlink
      have hb' : b ∈ L i := by simp [ht]
      have := mem_range hl h hb'
      have := hsep hb'
      rw [hm, if_neg (by omega), if_neg (by omega), if_neg (by omega), if_neg (by omega),
        if_pos ⟨by rw [hlink.1], by rw [hlink.1]; exact hlink.2.1⟩]
    · intro b hb
      have hb' := mem_of_mem_tail hb
      have := mem_range hl h hb'
      have := hsep hb'
      have hbf : b ≠ m (P.pool + 48 + 4 * i) := by
        rintro rfl
        cases hL : L i with
        | nil => simp [hL] at hb
        | cons =>
          have hnd := h.nodup i
          rw [hL] at hlink hb hnd
          rw [hlink.1] at hb
          exact (nodup_cons.mp hnd).1 hb
      simp (disch := omega) only [hm, if_neg]
    · intro b hb
      have := mem_range hl h hb
      have := hsep hb
      have := hsp b hb
      simp (disch := omega) only [hm, if_neg]
  · rw [hm, if_pos rfl, testBit_setBit]
    simp
  · intro w hw hlt
    rw [hm]
    split_ifs
    · refine Nat.or_lt_two_pow hlt ?_
      rw [Nat.shiftLeft_eq, Nat.one_mul]
      exact Nat.pow_lt_pow_right (by omega) (by omega)
    all_goals omega

theorem FreeLists.add (hl : Layout P m (pre ++ c :: post)) (h : FreeLists P m (pre ++ c :: post) L)
    (hc : c.use = .loose) :
    FreeLists P (osMemListAdd m P.pool (osMemFreeListIndexGet c.size) c.addr)
      (pre ++ { c with use := .free } :: post) (update L (osMemFreeListIndexGet c.size)
        (c.addr :: L (osMemFreeListIndexGet c.size))) := by
  have hcm : c ∈ pre ++ c :: post := by simp
  have hcb := hl.bounds hcm
  have hi := osMemFreeListIndexGet_le (by omega) (hl.size_lt hcm)
  refine h.relink hl (relinked_add hl h (by omega) hcm hc) ?_ (mem_update_cons h hc) ?_
  · intro j hj a ha b hb
    rcases hb with hb | hb
    · exact far hl h hj ha hb
    · rcases mem_cons.mp hb with rfl | hb
      · exact loose_apart hl h hcm hc ha
      · exact far hl h hj ha hb
  · refine nodup_cons.mpr ⟨fun ha => ?_, h.nodup _⟩
    have := loose_apart hl h hcm hc ha
    omega

end Add
end LiteOS.Memory
