import Mathlib.Data.List.Nodup
import Mathlib.Logic.Function.Basic
import Mathlib.Tactic.Common

/-!
# Relocation of a shared object

`OsDoRelocSyms` goes through a table of 32-bit words, with or without addends. The table and the
symbols lie outside the words that are relocated; the numbers of the relocation types are those of
ARM.
-/

namespace LiteOS.Dynlink

open Function List

abbrev Word := BitVec 32

/-- `osFindSym` answers 0 for a symbol that is not found. -/
structure DynSharedObj where
  loadBase : Word
  osFindSym : Word → Word

/-- `rela` tells which of the two sizes the entries have. -/
structure RelocInfo where
  rela : Bool
  relTabSize : ℕ
  relTab : ℕ → Word

inductive RelocRet
  | ok
  | efault
  | enotsup

/-- `OsDoReloc` on the memory `m` -/
def osDoReloc (dso : DynSharedObj) (type relocAddr addend symAddr : Word) (m : Word → Word) :
    RelocRet × (Word → Word) :=
  let stored := if addend ≠ 0 then addend else m relocAddr
  if type = 0 then (.ok, m)
  else if type = 21 ∨ type = 22 then (.ok, update m relocAddr (symAddr + addend))
  else if type = 2 then (.ok, update m relocAddr (symAddr + stored))
  else if type = 23 then (.ok, update m relocAddr (dso.loadBase + stored))
  else (.enotsup, m)

namespace RelocInfo

variable (r : RelocInfo) (dso : DynSharedObj) (i : ℕ)

def relEntSize : ℕ := if r.rela then 12 else 8

def relStride : ℕ := r.relEntSize / 4

def type : Word := r.relTab (i * r.relStride + 1) &&& 255

def symIdx : Word := r.relTab (i * r.relStride + 1) >>> 8

def symAddr : Word := if r.symIdx i = 0 then 0 else dso.osFindSym (r.symIdx i)

def relocAddr : Word := dso.loadBase + r.relTab (i * r.relStride)

def addend : Word :=
  if r.relEntSize = 8 then 0 else r.relTab (i * r.relStride + (r.relStride - 1))

/-- The loop of `OsDoRelocSyms` over the entries that are left -/
def relocLoop : List ℕ → (Word → Word) → RelocRet × (Word → Word)
  | [], m => (.ok, m)
  | i :: rest, m =>
    if r.type i = 0 then relocLoop rest m
    else if r.symIdx i ≠ 0 ∧ r.symAddr dso i = 0 then (.efault, m)
    else
      match osDoReloc dso (r.type i) (r.relocAddr dso i) (r.addend i) (r.symAddr dso i) m with
      | (.ok, m) => relocLoop rest m
      | failed => failed

def entries : ℕ := (r.relTabSize + r.relEntSize - 1) / r.relEntSize

def osDoRelocSyms (m : Word → Word) : RelocRet × (Word → Word) :=
  r.relocLoop dso (range r.entries) m

/-- An entry of type `R_ARCH_ABS32` or `R_ARCH_RELATIVE` whose symbol is found -/
def Plain : Prop :=
  (r.type i = 2 ∨ r.type i = 23) ∧ (r.symIdx i = 0 ∨ r.symAddr dso i ≠ 0)
deriving Decidable

/-- What an entry adds its addend to -/
def base : Word := if r.type i = 2 then r.symAddr dso i else dso.loadBase

/-- Every target gets its base and its addend, which in a table without addends is what the target
held before. -/
def Relocates (m : Word → Word) : Prop :=
  ∃ m', r.osDoRelocSyms dso m = (.ok, m') ∧
    (∀ i < r.entries, m' (r.relocAddr dso i) =
      r.base dso i + if r.rela then r.addend i else m (r.relocAddr dso i)) ∧
    ∀ a, (∀ i < r.entries, r.relocAddr dso i ≠ a) → m' a = m a

variable {r dso i} {m : Word → Word} {l : List ℕ}

theorem osDoReloc_of_plain (h : r.Plain dso i) :
    osDoReloc dso (r.type i) (r.relocAddr dso i) (r.addend i) (r.symAddr dso i) m =
      (.ok, update m (r.relocAddr dso i) (r.base dso i +
        if r.addend i ≠ 0 then r.addend i else m (r.relocAddr dso i))) := by
  rcases h.1 with ht | ht <;> simp [osDoReloc, base, ht]

theorem relocLoop_spec (hp : ∀ i ∈ l, r.Plain dso i) (hn : (l.map (r.relocAddr dso)).Nodup) :
    ∃ m', r.relocLoop dso l m = (.ok, m') ∧ (∀ i ∈ l, m' (r.relocAddr dso i) =
        r.base dso i + if r.addend i ≠ 0 then r.addend i else m (r.relocAddr dso i)) ∧
      ∀ a, (∀ i ∈ l, r.relocAddr dso i ≠ a) → m' a = m a := by
  induction l generalizing m with
  | nil => exact ⟨m, rfl, by simp, fun _ _ => rfl⟩
  | cons i rest ih =>
    obtain ⟨hi, hrest⟩ := forall_mem_cons.mp hp
    obtain ⟨hnew, hn⟩ := nodup_cons.mp hn
    have hne : ∀ j ∈ rest, r.relocAddr dso j ≠ r.relocAddr dso i :=
      fun j hj h => hnew (h ▸ mem_map_of_mem hj)
    have htype : r.type i ≠ 0 := by rcases hi.1 with ht | ht <;> simp [ht]
    simp only [relocLoop, htype, if_false, osDoReloc_of_plain hi]
    obtain ⟨m', heq, htarget, hother⟩ := ih hrest hn
    refine ⟨m', ?_, forall_mem_cons.mpr ⟨?_, fun j hj => ?_⟩, fun a ha => ?_⟩
    · rw [if_neg fun h => hi.2.elim h.1 fun h' => h' h.2]
      exact heq
    · rw [hother _ hne, update_self]
    · rw [htarget j hj, update_of_ne (hne j hj)]
    · obtain ⟨ha, hrest⟩ := forall_mem_cons.mp ha
      rw [hother a hrest, update_of_ne ha.symm]

theorem stored_eq_iff (w : Word) : (r.base dso i + if r.addend i ≠ 0 then r.addend i else w) =
        (r.base dso i + if r.rela then r.addend i else w) ↔
      r.rela = false ∨ r.addend i ≠ 0 ∨ w = 0 := by
  rw [BitVec.add_right_inj]
  cases hrela : r.rela with
  | false => simp [addend, relEntSize, hrela]
  | true => by_cases ha : r.addend i = 0#32 <;> simp [ha]

/-- An addend of 0 is taken for no addend. -/
theorem relocates_iff (hp : ∀ i < r.entries, r.Plain dso i)
    (hn : ((range r.entries).map (r.relocAddr dso)).Nodup) : r.Relocates dso m ↔
      r.rela = false ∨ ∀ i < r.entries, r.addend i ≠ 0 ∨ m (r.relocAddr dso i) = 0 := by
  obtain ⟨m', heq, htarget, hother⟩ := relocLoop_spec (m := m) (by simpa using hp) hn
  simp only [mem_range] at htarget hother
  constructor
  · rintro ⟨m'', heq', h, -⟩
    obtain rfl : m' = m'' := by simpa [osDoRelocSyms, heq] using heq'
    refine or_iff_not_imp_left.mpr fun hrela i hi => ?_
    have hsame := (htarget i hi).symm.trans (h i hi)
    exact ((stored_eq_iff _).mp hsame).resolve_left hrela
  · intro h
    refine ⟨m', heq, fun i hi => ?_, hother⟩
    rw [htarget i hi]
    exact (stored_eq_iff _).mpr (h.imp_right fun h => h i hi)

/-- A table with an `R_ARCH_ABS32` entry for symbol 3 and an `R_ARCH_RELATIVE` one -/
def absAndRelative : RelocInfo := ⟨true, 24, fun k => [256, 0x302, 9, 260, 23, 7].getD k 0⟩

theorem relocates_iff_seven : absAndRelative.Relocates ⟨4096, fun _ => 8192⟩ fun _ => 5 :=
  (relocates_iff (by decide) (by decide)).mpr (.inr (by decide))

/-- A table with one `R_ARCH_RELATIVE` entry -/
def oneRelative (addend : Word) : RelocInfo := ⟨true, 12, fun k => [256, 23, addend].getD k 0⟩

/-- The word gets 4101 instead of 4096. -/
theorem not_relocates_zero : ¬(oneRelative 0).Relocates ⟨4096, fun _ => 0⟩ fun _ => 5 := by
  rintro ⟨m', heq, h, -⟩
  cases heq
  exact absurd (h 0 (by decide)) (by decide)

end RelocInfo

end LiteOS.Dynlink
