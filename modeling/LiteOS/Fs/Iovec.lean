import LiteOS.Lib.Bytes
import Mathlib.Algebra.BigOperators.Group.List.Basic
import Mathlib.Algebra.Group.Int.Defs
import Mathlib.Algebra.GroupWithZero.Nat

/-!
# Vectored input and output

The model of `readv` and `writev`. Both go through a buffer from the heap that is as long as all the
buffers of the caller together: `readv` reads into it and then scatters what it holds, `writev`
gathers the buffers in it and writes it. `size_t` and `ssize_t` have 32 bits. The bytes of the
caller are those of a memory, and `read` and `write` are whatever the descriptor makes of them.
-/

namespace LiteOS.Fs

open Lib Bytes List Nat

/-- `struct iovec` -/
structure Iovec where
  iovBase : ℕ
  iovLen : ℕ
deriving DecidableEq, Repr

section

variable (m : Bytes) (iov : List Iovec)

def iovMaxCnt : ℕ := 4

def ssizeMax : ℕ := 2 ^ 31 - 1

/-- `(ssize_t)LOS_NOK` -/
def losNok : ℤ := -1

/-- The cast of a `ssize_t` to `size_t` -/
def toSizeT (r : ℤ) : ℕ := (r % 2 ^ 32).toNat

/-- The cast of a `size_t` to `ssize_t` -/
def toSsizeT (n : ℕ) : ℤ := Int.bmod n (2 ^ 32)

/-- `memcpy_s` of the bytes `src` -/
def memcpyS (dest destMax : ℕ) (src : List UInt8) : Option Bytes :=
  if destMax = 0 ∨ destMax < src.length then none else some (m.store dest src)

/-- The first loop of both functions, which adds up the lengths. -/
def addLengths (bufLen : ℕ) : List Iovec → Option ℕ
  | [] => some bufLen
  | v :: iov => if ssizeMax - bufLen < v.iovLen then none else addLengths (bufLen + v.iovLen) iov

/-- The second loop of `readv`; `curBuf` are the bytes from that pointer on. The answer says whether
every copy went well. -/
def scatterLoop (m : Bytes) (curBuf : List UInt8) (totalLen : ℕ) : List Iovec → Bytes × Bool
  | [] => (m, true)
  | v :: iov =>
    match memcpyS m v.iovBase v.iovLen (curBuf.take (min totalLen v.iovLen)) with
    | none => (m, false)
    | some m =>
      if totalLen < v.iovLen then (m, true)
      else scatterLoop m (curBuf.drop v.iovLen) (totalLen - v.iovLen) iov

/-- `readv`; `malloc` says whether there is memory for the buffer, and `read` gives the result of
the call of that name for so many bytes and the contents of the buffer after it. -/
def readv (iov : Option (List Iovec)) (malloc : Bool) (read : ℕ → ℤ × List UInt8) : Bytes × ℤ :=
  match iov with
  | none => (m, losNok)
  | some iov =>
    if iov.length = 0 ∨ iov.length > iovMaxCnt then (m, losNok)
    else
      match addLengths 0 iov with
      | none => (m, losNok)
      | some bufLen =>
        if bufLen = 0 then (m, losNok)
        else if !malloc then (m, losNok)
        else
          let (totalBytesRead, buf) := read bufLen
          let totalLen := if toSizeT totalBytesRead < bufLen then toSizeT totalBytesRead else bufLen
          match scatterLoop m buf totalLen iov with
          | (m, false) => (m, losNok)
          | (m, true) => (m, totalBytesRead)

/-- The second loop of `writev`; `buf` is the memory of the buffer and `curBuf` an offset in it. -/
def gatherLoop (m buf : Bytes) (curBuf totalLen : ℕ) : List Iovec → Option Bytes
  | [] => some buf
  | v :: iov =>
    if toSsizeT totalLen ≤ 0 ∨ toSsizeT v.iovLen ≤ 0 then gatherLoop m buf curBuf totalLen iov else
      match memcpyS buf curBuf totalLen (m.load v.iovBase v.iovLen) with
      | none => none
      | some buf => gatherLoop m buf (curBuf + v.iovLen) (totalLen - v.iovLen) iov

/-- `writev`; `malloc` gives the new buffer with what its memory held before, if there is memory,
and `write` the result of the call of that name for the bytes it is passed. -/
def writev (iov : Option (List Iovec)) (malloc : Option Bytes) (write : List UInt8 → ℤ) : ℤ :=
  match iov with
  | none => losNok
  | some iov =>
    if iov.length = 0 ∨ iov.length > iovMaxCnt then losNok
    else
      match addLengths 0 iov with
      | none => losNok
      | some bufLen =>
        if bufLen = 0 then losNok
        else
          match malloc with
          | none => losNok
          | some buf =>
            match gatherLoop m buf 0 bufLen iov with
            | none => losNok
            | some buf => write (buf.load 0 bufLen)

/-! ## What the functions are for -/

def totalLength : ℕ := (iov.map Iovec.iovLen).sum

/-- Fill the buffers in order with the bytes `data`. -/
def scatter (m : Bytes) : List Iovec → List UInt8 → Bytes
  | [], _ => m
  | v :: iov, data => scatter (m.store v.iovBase (data.take v.iovLen)) iov (data.drop v.iovLen)

def gather : List UInt8 :=
  iov.flatMap fun v => m.load v.iovBase v.iovLen

/-- `readv` is `read` into the buffers one after the other, whatever the memory and the buffer from
the heap hold. -/
def ReadsAsOne (r : ℤ) : Prop :=
  ∀ (m : Bytes) (buf : List UInt8), buf.length = totalLength iov →
    readv m (some iov) true (fun _ => (r, buf)) =
      (if r < 0 then m else scatter m iov (buf.take r.toNat), r)

/-- `writev` is `write` of the buffers one after the other. -/
def WritesAsOne : Prop :=
  ∀ (m buf : Bytes) (write : List UInt8 → ℤ),
    writev m (some iov) (some buf) write = write (gather m iov)

/-- No buffer is empty among those that come before the byte `n` or right after it. -/
def NoEmptyUpTo (n : ℕ) : Prop :=
  ∀ i v, iov[i]? = some v → totalLength (iov.take i) ≤ n → v.iovLen ≠ 0

end

section

variable {m : Bytes} {iov : List Iovec} {v : Iovec} {r : ℤ} {n bufLen : ℕ}

@[simp] theorem totalLength_nil : totalLength [] = 0 := rfl

@[simp] theorem totalLength_cons : totalLength (v :: iov) = v.iovLen + totalLength iov := rfl

theorem addLengths_eq (h : bufLen + totalLength iov ≤ ssizeMax) :
    addLengths bufLen iov = some (bufLen + totalLength iov) := by
  induction iov generalizing bufLen with
  | nil => rfl
  | cons _ _ ih =>
    rw [totalLength_cons] at h ⊢
    rw [addLengths, if_neg (by omega), ih (by omega), add_assoc]

/-! ## Scattering -/

theorem store_nil (a : ℕ) : m.store a [] = m := by
  funext b
  simp [store]

theorem scatter_nil : scatter m iov [] = m := by
  induction iov with
  | nil => rfl
  | cons _ _ ih => rw [scatter, take_nil, drop_nil, store_nil, ih]

theorem noEmptyUpTo_nil : NoEmptyUpTo [] n := by
  intro i v hv
  simp at hv

theorem noEmptyUpTo_cons : NoEmptyUpTo (v :: iov) n ↔
    v.iovLen ≠ 0 ∧ (v.iovLen ≤ n → NoEmptyUpTo iov (n - v.iovLen)) := by
  constructor
  · intro h
    refine ⟨h 0 v rfl (zero_le _), fun hle i w hw hsum => h (i + 1) w hw ?_⟩
    rw [take_succ_cons, totalLength_cons]
    omega
  · rintro ⟨hv, h⟩ i w hw hsum
    cases i with
    | zero =>
      obtain rfl : v = w := by simpa using hw
      exact hv
    | succ i =>
      rw [take_succ_cons, totalLength_cons] at hsum
      exact h (by omega) i w hw (by omega)

variable {buf : List UInt8} {x : UInt8}

/-- One pass of the loop: the copy is refused for an empty buffer only. -/
theorem scatterLoop_cons : scatterLoop m buf n (v :: iov) = if v.iovLen = 0 then (m, false)
    else if n < v.iovLen then (m.store v.iovBase (buf.take n), true)
    else scatterLoop (m.store v.iovBase (buf.take v.iovLen)) (buf.drop v.iovLen)
      (n - v.iovLen) iov := by
  have hle : (buf.take (min n v.iovLen)).length ≤ v.iovLen := by
    rw [length_take]
    omega
  by_cases hv : v.iovLen = 0
  · simp only [scatterLoop, memcpyS, if_pos hv, if_pos (Or.inl hv)]
  · have hcopy : ¬(v.iovLen = 0 ∨ v.iovLen < (buf.take (min n v.iovLen)).length) := by omega
    simp only [scatterLoop, memcpyS, if_neg hv, if_neg hcopy]
    by_cases hlt : n < v.iovLen
    · rw [if_pos hlt, if_pos hlt, Nat.min_eq_left (Nat.le_of_lt hlt)]
    · rw [if_neg hlt, if_neg hlt, Nat.min_eq_right (Nat.le_of_not_lt hlt)]

/-- The loop fills the buffers with the first `n` bytes unless it meets an empty one. -/
theorem scatterLoop_eq (h : NoEmptyUpTo iov n) :
    scatterLoop m buf n iov = (scatter m iov (buf.take n), true) := by
  induction iov generalizing m buf n with
  | nil => rfl
  | cons v _ ih =>
    obtain ⟨hv, htail⟩ := noEmptyUpTo_cons.mp h
    rw [scatterLoop_cons, if_neg hv, scatter, take_take]
    by_cases hlt : n < v.iovLen
    · rw [if_pos hlt, drop_eq_nil_of_le (by rw [length_take]; omega), scatter_nil,
        Nat.min_eq_right (Nat.le_of_lt hlt)]
    · have hle := Nat.le_of_not_lt hlt
      rw [if_neg hlt, ih (htail hle), drop_take, Nat.min_eq_left hle]

theorem scatterLoop_fails (h : ¬NoEmptyUpTo iov n) : (scatterLoop m buf n iov).2 = false := by
  induction iov generalizing m buf n with
  | nil => exact absurd noEmptyUpTo_nil h
  | cons _ _ ih =>
    rw [scatterLoop_cons]
    split_ifs with hv hlt
    · rfl
    · exact absurd (noEmptyUpTo_cons.mpr ⟨hv, fun hle => absurd hlt (Nat.not_lt.mpr hle)⟩) h
    · exact ih fun hc => h (noEmptyUpTo_cons.mpr ⟨hv, fun _ => hc⟩)

theorem store_const {l : List UInt8} {a b : ℕ} (hl : ∀ y ∈ l, y = x) (ha : m a = x) :
    m.store b l a = x := by
  simp only [store]
  split_ifs
  · cases hget : l[a - b]? with
    | none => exact ha
    | some y => exact hl y (mem_of_getElem? hget)
  · exact ha

/-- A byte that has the value of all bytes of the buffer keeps it. -/
theorem scatterLoop_const {a : ℕ} (hbuf : ∀ y ∈ buf, y = x) (ha : m a = x) :
    (scatterLoop m buf n iov).1 a = x := by
  induction iov generalizing m buf n with
  | nil => exact ha
  | cons v _ ih =>
    have hstore : ∀ i, m.store v.iovBase (buf.take i) a = x := fun i =>
      store_const (fun y hy => hbuf y (mem_of_mem_take hy)) ha
    rw [scatterLoop_cons]
    split_ifs
    · exact ha
    · exact hstore n
    · exact ih (fun y hy => hbuf y (mem_of_mem_drop hy)) (hstore v.iovLen)

/-! ## The two functions -/

theorem readv_eq (hcnt : 1 ≤ iov.length ∧ iov.length ≤ iovMaxCnt)
    (htotal : 0 < totalLength iov ∧ totalLength iov ≤ ssizeMax) :
    readv m (some iov) true (fun _ => (r, buf)) =
      match scatterLoop m buf (min (toSizeT r) (totalLength iov)) iov with
      | (m, false) => (m, losNok)
      | (m, true) => (m, r) := by
  have hlen : (if toSizeT r < totalLength iov then toSizeT r else totalLength iov) =
      min (toSizeT r) (totalLength iov) := by
    split_ifs <;> omega
  have hadd := @addLengths_eq iov 0 (by omega)
  rw [Nat.zero_add] at hadd
  simp only [readv, if_neg (show ¬(iov.length = 0 ∨ iov.length > iovMaxCnt) by omega), hadd,
    if_neg (Nat.ne_of_gt htotal.1), Bool.not_true, Bool.false_eq_true, if_false, hlen]

theorem toSizeT_of_nonneg (h : 0 ≤ r) (hle : r ≤ ssizeMax) : toSizeT r = r.toNat := by
  rw [toSizeT, Int.emod_eq_of_lt h (by rw [ssizeMax] at hle; omega)]

theorem toSizeT_neg_one : toSizeT (-1) = 2 ^ 32 - 1 := by decide

section

variable (hcnt : 1 ≤ iov.length ∧ iov.length ≤ iovMaxCnt)
  (htotal : 0 < totalLength iov ∧ totalLength iov ≤ ssizeMax)
include hcnt htotal

/-- After a failed `read` the whole buffer is scattered, unless the first copy is refused. -/
theorem readsAsOne_neg_one_iff : ReadsAsOne iov (-1) ↔ ∃ v, iov.head? = some v ∧ v.iovLen = 0 := by
  have hmin : min (toSizeT (-1)) (totalLength iov) = totalLength iov := by
    rw [toSizeT_neg_one]
    have := htotal.2
    rw [ssizeMax] at this
    omega
  cases iov with
  | nil => simp at hcnt
  | cons v iov =>
    constructor
    · intro h
      refine ⟨v, rfl, ?_⟩
      by_contra hv
      -- a memory of zeros and a buffer of ones
      have hone := h (fun _ => 0) (replicate (totalLength (v :: iov)) 1) (by simp)
      rw [readv_eq hcnt htotal, hmin] at hone
      have hfirst : (scatterLoop (fun _ => 0) (replicate (totalLength (v :: iov)) 1)
          (totalLength (v :: iov)) (v :: iov)).1 v.iovBase = 1 := by
        have hstore : store (fun _ => 0) v.iovBase
            ((replicate (totalLength (v :: iov)) 1).take v.iovLen) v.iovBase = 1 := by
          simp [store, Nat.pos_of_ne_zero hv]
        rw [scatterLoop_cons, if_neg hv, if_neg (by rw [totalLength_cons]; omega)]
        refine scatterLoop_const (fun y hy => ?_) hstore
        exact eq_of_mem_replicate (mem_of_mem_drop hy)
      have hzero := congrArg (fun p : Bytes × ℤ => p.1 v.iovBase) hone
      revert hzero
      generalize scatterLoop _ _ _ _ = p at hfirst ⊢
      obtain ⟨m', _ | _⟩ := p <;> simp_all
    · rintro ⟨w, hw, hlen⟩ m buf -
      obtain rfl : v = w := by simpa using hw
      rw [readv_eq hcnt htotal]
      simp [scatterLoop_cons, hlen, losNok]

/-- What was read reaches the buffers unless an empty one is in the way. -/
theorem readsAsOne_nonneg_iff
    (hr : 0 ≤ r ∧ r ≤ totalLength iov) : ReadsAsOne iov r ↔ NoEmptyUpTo iov r.toNat := by
  have hle : r ≤ ssizeMax := by omega
  have hmin : min (toSizeT r) (totalLength iov) = r.toNat := by
    rw [toSizeT_of_nonneg hr.1 hle]
    omega
  constructor
  · intro h
    by_contra hn
    have hz := congrArg Prod.snd
      (h (fun _ => 0) (replicate (totalLength iov) 0) (by simp))
    have hfail := @scatterLoop_fails (fun _ => 0) _ _ (replicate (totalLength iov) 0) hn
    rw [readv_eq hcnt htotal, hmin] at hz
    revert hz
    generalize scatterLoop _ _ _ _ = p at hfail ⊢
    obtain ⟨m', b⟩ := p
    obtain rfl : b = false := hfail
    simp only [losNok]
    omega
  · intro h m buf _
    rw [readv_eq hcnt htotal, hmin, scatterLoop_eq h, if_neg (by omega)]

end

theorem toSsizeT_of_le (h : n ≤ ssizeMax) : toSsizeT n = n := by
  have hlt : n < 2147483648 := by
    rw [ssizeMax] at h
    omega
  exact Int.bmod_eq_of_le (by omega) (show (n : ℤ) < (4294967296 + 1) / 2 by omega)

theorem store_append_load {buf : Bytes} {l l' : List UInt8} {a k : ℕ}
    (h : buf.load 0 a = l) (hl : l'.length = k) : (buf.store a l').load 0 (a + k) = l ++ l' := by
  have hsplit : (buf.store a l').load 0 (a + k) =
      (buf.store a l').load 0 a ++ (buf.store a l').load a k := by
    simp [load, range_add]
  rw [hsplit, load_store_of_disjoint (.inl (by omega)), h, ← hl, load_store_self]

theorem gatherLoop_eq {buf : Bytes} {curBuf : ℕ} {l : List UInt8} (h : totalLength iov ≤ ssizeMax)
    (hl : buf.load 0 curBuf = l) : ∃ buf', gatherLoop m buf curBuf (totalLength iov) iov =
      some buf' ∧ buf'.load 0 (curBuf + totalLength iov) = l ++ gather m iov := by
  induction iov generalizing buf curBuf l with
  | nil => exact ⟨buf, rfl, by simpa [gather] using hl⟩
  | cons v iov ih =>
    rw [totalLength_cons] at h
    have hv := toSsizeT_of_le (n := v.iovLen) (by omega)
    have ht := toSsizeT_of_le h
    by_cases hz : v.iovLen = 0
    · obtain ⟨buf', he, hload⟩ := ih (by omega) hl
      refine ⟨buf', ?_, ?_⟩
      · rw [gatherLoop, if_pos (.inr (by omega)), totalLength_cons, hz, zero_add, he]
      · rw [totalLength_cons, hz, zero_add, hload]
        simp [gather, hz, load]
    · have hcopy : memcpyS buf curBuf (v.iovLen + totalLength iov) (m.load v.iovBase v.iovLen) =
          some (buf.store curBuf (m.load v.iovBase v.iovLen)) := by
        rw [memcpyS, if_neg (by rw [length_load]; omega)]
      obtain ⟨buf', he, hload⟩ := ih (by omega)
        (store_append_load hl (length_load))
      refine ⟨buf', ?_, ?_⟩
      · rw [gatherLoop, totalLength_cons, if_neg (by omega), hcopy]
        simpa using he
      · rw [totalLength_cons, ← add_assoc, hload, append_assoc]
        simp [gather]

theorem writesAsOne (hcnt : 1 ≤ iov.length ∧ iov.length ≤ iovMaxCnt)
    (htotal : 0 < totalLength iov ∧ totalLength iov ≤ ssizeMax) : WritesAsOne iov := by
  intro m buf write
  have hadd := @addLengths_eq iov 0 (by omega)
  rw [Nat.zero_add] at hadd
  obtain ⟨buf', he, hload⟩ := @gatherLoop_eq m iov buf 0 [] htotal.2
    (by simp [load])
  simp only [writev, if_neg (show ¬(iov.length = 0 ∨ iov.length > iovMaxCnt) by omega), hadd,
    if_neg (Nat.ne_of_gt htotal.1), he]
  rw [Nat.zero_add] at hload
  rw [hload, nil_append]

end

/-- When the vectored calls are the plain ones. -/
theorem asOne_iff (iov : List Iovec) (r : ℤ) (hcnt : 1 ≤ iov.length ∧ iov.length ≤ iovMaxCnt)
    (htotal : 0 < totalLength iov ∧ totalLength iov ≤ ssizeMax)
    (hr : r = -1 ∨ 0 ≤ r ∧ r ≤ totalLength iov) : ReadsAsOne iov r ∧ WritesAsOne iov ↔
      (r = -1 ∧ ∃ v, iov.head? = some v ∧ v.iovLen = 0) ∨ (0 ≤ r ∧ NoEmptyUpTo iov r.toNat) := by
  rw [and_iff_left (writesAsOne hcnt htotal)]
  rcases hr with rfl | hr
  · rw [readsAsOne_neg_one_iff hcnt htotal]
    simp
  · rw [readsAsOne_nonneg_iff hcnt htotal hr]
    simp [hr.1, show r ≠ -1 by omega]

/-- A short read into the first of two buffers, with an empty one at the end. -/
theorem asOne_iff_short : ReadsAsOne [⟨100, 4⟩, ⟨200, 0⟩] 3 ∧ WritesAsOne [⟨100, 4⟩, ⟨200, 0⟩] := by
  refine (asOne_iff [⟨100, 4⟩, ⟨200, 0⟩] 3 (by decide) (by decide) (.inr (by decide))).mpr
    (.inr ⟨by decide, ?_⟩)
  exact noEmptyUpTo_cons.mpr ⟨by decide, fun h => absurd h (by decide)⟩

/-- A failed read changes the buffer of the caller. -/
theorem not_readsAsOne_failed : ¬ReadsAsOne [⟨100, 4⟩] (-1) := by
  rw [readsAsOne_neg_one_iff (by decide) (by decide)]
  simp

end LiteOS.Fs
