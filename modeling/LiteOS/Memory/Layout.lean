import LiteOS.Lib.Linked
import LiteOS.Lib.Tiles
import LiteOS.Memory.Allocator

/-!
# What the words of a pool mean

A pool's node area is cut into chunks, one for each node. `Layout` ties the header words to
a list of chunks and `FreeLists` ties the list heads, the bitmap and the link words to the free
ones. Between two primitives of the allocator a node may be neither used nor listed; such a
chunk is `loose`.
-/

namespace LiteOS.Memory

open Lib Words

/-- Where a pool lies, on a 32-bit machine. -/
structure Extent where
  pool : ℕ
  size : ℕ
  pool_ne : pool ≠ 0
  aligned : pool % 4 = 0
  size_aligned : size % 4 = 0
  room : 968 ≤ size
  fits : pool + size ≤ 2 ^ 32

namespace Extent

variable (P : Extent)

def first : ℕ := P.pool + 944

def last : ℕ := P.pool + P.size - 8

theorem first_eq : osMemFirstNode P.pool = P.first := rfl

theorem last_eq : osMemEndNode P.pool P.size = P.last := rfl

/-- The address facts of a pool, in the form the arithmetic below needs. -/
theorem geometry : P.first = P.pool + 944 ∧ P.last + 8 = P.pool + P.size ∧ P.first + 16 ≤ P.last ∧
    P.last + 8 ≤ 2 ^ 32 ∧ P.pool % 4 = 0 ∧ P.last % 4 = 0 ∧ 0 < P.pool := by
  have h1 := P.pool_ne
  have h2 := P.aligned
  have h3 := P.size_aligned
  have h4 := P.room
  have h6 := P.fits
  simp only [first, last]
  refine ⟨trivial, ?_, ?_, ?_, h2, ?_, ?_⟩ <;> omega

end Extent

/-- A pool in which no size field can reach the flag bits. -/
structure Region extends Extent where
  small : size < 2 ^ 28

instance : Coe Region Extent := ⟨Region.toExtent⟩

/-- What a node is at the moment: on its free list, taken off it but not handed out, or handed
out with the given distance between the payload and the client's pointer. -/
inductive Use
  | free
  | loose
  | used (gap : ℕ)
deriving DecidableEq

structure Chunk where
  addr : ℕ
  size : ℕ
  use : Use
deriving DecidableEq

namespace Chunk

def gap (c : Chunk) : ℕ := match c.use with
  | .used g => g
  | _ => 0

/-- The header word of a chunk: its size and the two flags. -/
def word (c : Chunk) : ℕ := match c.use with
  | .used 0 => c.size + 2 ^ 31
  | .used (_ + 1) => c.size + 2 ^ 30 + 2 ^ 31
  | _ => c.size

def isUsed (c : Chunk) : Prop := ∃ g, c.use = .used g

/-- The word below an aligned pointer records its distance from the payload. -/
def GapOk (m : Words) (c : Chunk) : Prop :=
  c.gap ≠ 0 → c.gap % 4 = 0 ∧ 8 + c.gap < c.size ∧ m (c.addr + 4 + c.gap) = c.gap + 2 ^ 30

/-- Words a client may use, the gap below an aligned pointer included. -/
def Payload (c : Chunk) (x : ℕ) : Prop := c.addr + 8 ≤ x ∧ x < c.addr + c.size

variable {a s g : ℕ}

@[simp] theorem gap_free : (Chunk.mk a s .free).gap = 0 := rfl
@[simp] theorem gap_loose : (Chunk.mk a s .loose).gap = 0 := rfl
@[simp] theorem gap_used : (Chunk.mk a s (.used g)).gap = g := rfl
@[simp] theorem word_free : (Chunk.mk a s .free).word = s := rfl
@[simp] theorem word_loose : (Chunk.mk a s .loose).word = s := rfl
@[simp] theorem word_used : (Chunk.mk a s (.used 0)).word = s + 2 ^ 31 := rfl

variable {c : Chunk}

theorem not_isUsed_of_free (h : c.use = .free) : ¬ c.isUsed := by
  simp [isUsed, h]

theorem not_isUsed_of_loose (h : c.use = .loose) : ¬ c.isUsed := by
  simp [isUsed, h]

theorem use_eq_free (hl : c.use ≠ .loose) (hu : ¬ c.isUsed) : c.use = .free := by
  cases hc : c.use with
  | free => rfl
  | loose => exact absurd hc hl
  | used g => exact absurd ⟨g, hc⟩ hu

theorem gap_eq_zero (h : ¬ c.isUsed) : c.gap = 0 := by
  obtain ⟨a, s, u⟩ := c
  cases u with
  | used g => exact absurd ⟨g, rfl⟩ h
  | free | loose => rfl

theorem size_word (h : c.size < 2 ^ 28) : osMemNodeGetSize c.word = c.size := by
  obtain ⟨a, s, u⟩ := c
  rw [osMemNodeGetSize_eq]
  rcases u with _ | _ | (_ | g) <;> simp only [word] at h ⊢ <;> omega

theorem usedFlag_word (h : c.size < 2 ^ 28) : osMemNodeGetUsedFlag c.word = 0 ↔ ¬ c.isUsed := by
  obtain ⟨a, s, u⟩ := c
  rw [usedFlag_eq_zero_iff, Nat.testBit_eq_decide_div_mod_eq, decide_eq_false_iff_not]
  rcases u with _ | _ | (_ | g) <;> simp [word, isUsed] at h ⊢ <;> omega

theorem setUsed_size (h : s < 2 ^ 28) : osMemNodeSetUsedFlag s = s + 2 ^ 31 :=
  or_flag (by omega)

end Chunk

/-- The header words describe exactly the chunks of `cs`, laid end to end. -/
structure Layout (P : Extent) (m : Words) (cs : List Chunk) : Prop where
  total : m (totalSizeAt P.pool) = P.size
  tiles : Tiles Chunk.addr Chunk.size 16 P.first cs P.last
  fine : ∀ c ∈ cs, c.size % 4 = 0 ∧ c.size < 2 ^ 28
  words : ∀ c ∈ cs, m (c.addr + 4) = c.word
  gaps : ∀ c ∈ cs, c.GapOk m
  back : Backlinks Chunk.addr m P.last cs P.last
  sentinel : m (P.last + 4) = 2 ^ 31

namespace Layout

variable {P : Extent} {m m' : Words} {cs pre post : List Chunk} {c d : Chunk} {x v : ℕ}

section

variable (h : Layout P m cs) (hc : c ∈ cs)
include h hc

theorem bounds : P.first ≤ c.addr ∧ 16 ≤ c.size ∧ c.addr + c.size ≤ P.last := h.tiles.bounds hc

theorem size_lt : c.size < 2 ^ 28 := (h.fine c hc).2

theorem free_word (hu : c.use = .free) : m (c.addr + 4) = c.size := by
  rw [h.words c hc]
  simp [Chunk.word, hu]

theorem loose_word (hu : c.use = .loose) : m (c.addr + 4) = c.size := by
  rw [h.words c hc]
  simp [Chunk.word, hu]

theorem addr_mod : c.addr % 4 = 0 := by
  have go : ∀ {a : ℕ} {l : List Chunk}, Tiles Chunk.addr Chunk.size 16 a l P.last →
      a % 4 = 0 → (∀ d ∈ l, d.size % 4 = 0) → c ∈ l → c.addr % 4 = 0 := by
    intro a l
    induction l generalizing a with
    | nil => simp
    | cons d l ih =>
      rintro ⟨hd, -, ht⟩ ha hs hcl
      rcases List.mem_cons.mp hcl with rfl | hcl
      · omega
      · have := hs d (by simp)
        exact ih ht (by omega) (fun e he => hs e (by simp [he])) hcl
  have hP := P.geometry
  exact go h.tiles (by omega) (fun d hd => (h.fine d hd).1) hc

end

/-- A layout reads the total size, the two words of the end node, the header words and the
gap words; memories that agree there carry the same layout. -/
theorem congr (h : Layout P m cs) (htotal : m' (P.pool + 4) = m (P.pool + 4))
    (hlast : m' P.last = m P.last) (hlast' : m' (P.last + 4) = m (P.last + 4))
    (hhead : ∀ c ∈ cs, m' c.addr = m c.addr ∧ m' (c.addr + 4) = m (c.addr + 4))
    (hgap : ∀ c ∈ cs, c.gap ≠ 0 → m' (c.addr + 4 + c.gap) = m (c.addr + 4 + c.gap)) :
    Layout P m' cs where
  total := htotal.trans h.total
  tiles := h.tiles
  fine := h.fine
  words c hc := (hhead c hc).2.trans (h.words c hc)
  gaps c hc hg := by
    obtain ⟨h1, h2, h3⟩ := h.gaps c hc hg
    exact ⟨h1, h2, (hgap c hc hg).trans h3⟩
  back := h.back.congr (fun c hc => (hhead c hc).1) hlast
  sentinel := hlast'.trans h.sentinel

/-- Words that carry no layout information: the pool header past the total size, and the
payload of any chunk above its gap. -/
def Spare (P : Extent) (cs : List Chunk) (x : ℕ) : Prop :=
  (P.pool + 8 ≤ x ∧ x < P.first) ∨ ∃ c ∈ cs, c.addr + 8 + c.gap ≤ x ∧ x < c.addr + c.size

theorem congr_spare (h : Layout P m cs) (hm : ∀ x, ¬ Spare P cs x → m' x = m x) :
    Layout P m' cs := by
  have hP := P.geometry
  have hout : ∀ y, y < P.pool + 8 ∨ P.last ≤ y → ¬ Spare P cs y := by
    rintro y hy (hx | ⟨c, hc, hx⟩)
    · omega
    · have := h.bounds hc
      omega
  have hin : ∀ c ∈ cs, ∀ y, c.addr ≤ y → y < c.addr + 8 ∨ y = c.addr + 4 + c.gap ∧ c.gap ≠ 0 →
      y < c.addr + c.size → ¬ Spare P cs y := by
    rintro c hc y h1 h2 h3 (hx | ⟨d, hd, hx⟩)
    · have := h.bounds hc
      omega
    · rcases h.tiles.apart hc hd with rfl | hcd | hcd <;> omega
  refine h.congr (hm _ (hout _ (by omega))) (hm _ (hout _ (by omega))) (hm _ (hout _ (by omega)))
    (fun c hc => ⟨hm _ (hin c hc _ ?_ ?_ ?_), hm _ (hin c hc _ ?_ ?_ ?_)⟩)
    (fun c hc hg => hm _ (hin c hc _ ?_ ?_ ?_))
  all_goals have hb := h.bounds hc
  iterate 7 omega
  · exact .inr ⟨rfl, hg⟩
  · have := (h.gaps c hc hg).2.1
    omega

theorem write_spare (h : Layout P m cs) (hx : Spare P cs x) : Layout P (m.write x v) cs :=
  h.congr_spare fun _ hy => write_of_ne _ _ fun he => hy (he ▸ hx)

end Layout

/-- The list heads, the bitmap and the link words describe the free lists `L`, and the lists
hold exactly the free chunks of `cs`, each in the class of its size. -/
structure FreeLists (P : Extent) (m : Words) (cs : List Chunk) (L : ℕ → List ℕ) : Prop where
  linked : ∀ i < 223, Linked m 8 12 0 (m (P.pool + 48 + 4 * i)) (L i) 0
  bits : ∀ i < 224, (m (P.pool + 20 + 4 * (i / 32))).testBit (i % 32) ↔ L i ≠ []
  mem_iff : ∀ i n, n ∈ L i ↔
    ∃ c ∈ cs, c.use = .free ∧ c.addr = n ∧ osMemFreeListIndexGet c.size = i
  nodup : ∀ i, (L i).Nodup
  small : ∀ w < 7, m (P.pool + 20 + 4 * w) < 2 ^ 32

namespace FreeLists

variable {P : Extent} {m m' : Words} {cs cs' : List Chunk} {L : ℕ → List ℕ} {x v : ℕ}

/-- The free lists read the head words and the links of free chunks. -/
theorem congr (h : FreeLists P m cs L) (hfree : ∀ c, c.use = .free → (c ∈ cs' ↔ c ∈ cs))
    (hhead : ∀ x, P.pool + 20 ≤ x → x < P.pool + 940 → m' x = m x)
    (hlink : ∀ c ∈ cs, c.use = .free →
      m' (c.addr + 8) = m (c.addr + 8) ∧ m' (c.addr + 12) = m (c.addr + 12)) :
    FreeLists P m' cs' L where
  linked i hi := by
    rw [hhead _ (by omega) (by omega)]
    refine (h.linked i hi).congr fun n hn => ?_
    obtain ⟨c, hc, hu, rfl, -⟩ := (h.mem_iff i n).mp hn
    exact hlink c hc hu
  bits i hi := by
    rw [hhead _ (by omega) (by omega)]
    exact h.bits i hi
  mem_iff i n := by
    rw [h.mem_iff]
    constructor
    · rintro ⟨c, hc, hu, hr⟩
      exact ⟨c, (hfree c hu).mpr hc, hu, hr⟩
    · rintro ⟨c, hc, hu, hr⟩
      exact ⟨c, (hfree c hu).mp hc, hu, hr⟩
  nodup := h.nodup
  small w hw := by
    rw [hhead _ (by omega) (by omega)]
    exact h.small w hw

/-- A write outside the list heads and the links of free chunks leaves the lists alone. -/
theorem write_other (h : FreeLists P m cs L) (hx : x < P.pool + 20 ∨ P.pool + 940 ≤ x)
    (hlink : ∀ c ∈ cs, c.use = .free → x ≠ c.addr + 8 ∧ x ≠ c.addr + 12) :
    FreeLists P (m.write x v) cs L :=
  h.congr (fun _ _ => Iff.rfl) (fun y h1 h2 => write_of_ne _ _ (by omega))
    fun c hc hu => ⟨write_of_ne _ _ (hlink c hc hu).1.symm, write_of_ne _ _ (hlink c hc hu).2.symm⟩

end FreeLists
end LiteOS.Memory
