import LiteOS.Ipc.Queue
import LiteOS.Posix.Poll

/-!
# The ring buffer of a pipe

The model of `PipeRingbufferRead` and `PipeRingbufferWrite`. A ring with equal indices is empty or
full; `roll` tells which. Each of the two functions moves one piece that does not go around the end
of the ring, and each is an operation on the sequence of the bytes that were written and not read.
-/

namespace LiteOS.Posix

open Lib Kernel PipeView RingBuffer

def pipeDevBufSize : ℕ := 1024

/-- The ring buffer of `struct PipeDev`. -/
structure PipeRing extends PipeView where
  ringBuffer : Bytes

namespace PipeRing

section

variable (d : PipeRing)

def opened : PipeRing := ⟨⟨pipeDevBufSize, 0, 0, false⟩, fun _ => 0⟩

/-- The ring is empty in the words of `PipeRead`. -/
def isEmpty : Bool := d.readIndex = d.writeIndex ∧ d.roll = false

def isFull : Bool := d.readIndex = d.writeIndex ∧ d.roll

/-- `readIndex += nbytes`, around the ring -/
def advanceRead (nbytes : ℕ) : PipeRing :=
  if d.readIndex + nbytes ≥ d.bufferSize then
    ⟨⟨d.bufferSize, 0, d.writeIndex, false⟩, d.ringBuffer⟩
  else ⟨⟨d.bufferSize, d.readIndex + nbytes, d.writeIndex, d.roll⟩, d.ringBuffer⟩

/-- `writeIndex += nbytes`, around the ring -/
def advanceWrite (nbytes : ℕ) : PipeRing :=
  if d.writeIndex + nbytes ≥ d.bufferSize then
    ⟨⟨d.bufferSize, d.readIndex, 0, true⟩, d.ringBuffer⟩
  else ⟨⟨d.bufferSize, d.readIndex, d.writeIndex + nbytes, d.roll⟩, d.ringBuffer⟩

/-- The bytes that can be read without going around the ring. -/
def readable : ℕ :=
  if d.readIndex < d.writeIndex then d.writeIndex - d.readIndex else d.bufferSize - d.readIndex

/-- The bytes that can be written without going around the ring. -/
def writable : ℕ :=
  if d.readIndex > d.writeIndex then d.readIndex - d.writeIndex else d.bufferSize - d.writeIndex

/-- `PipeRingbufferRead` for a caller that wants `len` bytes; its buffer gets nothing if `memcpy_s`
refuses. -/
def pipeRingbufferRead (len : ℕ) : PipeRing × List (Option UInt8) :=
  if d.isEmpty then (d, [])
  else
    let nbytes := if d.readable > len then len else d.readable
    let buf := if memcpySFails len nbytes then List.replicate nbytes none
      else (d.ringBuffer.load d.readIndex nbytes).map some
    (d.advanceRead nbytes, buf)

/-- `PipeRingbufferWrite`: the ring afterwards and the number of bytes that were taken. -/
def pipeRingbufferWrite (buf : List UInt8) : PipeRing × ℕ :=
  if d.isFull then (d, 0)
  else
    let nbytes := if d.writable > buf.length then buf.length else d.writable
    let ringBuffer := if memcpySFails (d.bufferSize - d.writeIndex) nbytes then d.ringBuffer
      else d.ringBuffer.store d.writeIndex (buf.take nbytes)
    ({ d with ringBuffer := ringBuffer }.advanceWrite nbytes, nbytes)

/-- The bytes that were written and not read, as the indices and `roll` describe them. -/
def contents : List UInt8 :=
  RingBuffer.window d.ringBuffer d.bufferSize d.readIndex d.nbytes

end

/-- The indices lie in the ring, and `roll` is set when the writer is behind the reader. -/
structure Valid (d : PipeRing) : Prop where
  size : d.bufferSize ≤ securecMemMaxLen
  readIndex : d.readIndex < d.bufferSize
  writeIndex : d.writeIndex < d.bufferSize
  roll_of_lt : d.readIndex < d.writeIndex → d.roll = false
  roll_of_gt : d.writeIndex < d.readIndex → d.roll

theorem opened_valid : opened.Valid :=
  ⟨by decide, by decide, by decide, by decide, by decide⟩

@[simp]
theorem opened_contents : opened.contents = [] := rfl

variable {d : PipeRing} {n len i : ℕ}

@[simp]
theorem length_contents : d.contents.length = d.nbytes := by simp [contents]

section

variable (h : d.Valid)
include h

theorem Valid.nbytes_le : d.nbytes ≤ d.bufferSize := by
  have := h.writeIndex
  unfold nbytes
  split_ifs <;> omega

theorem Valid.nbytes_eq_zero : d.nbytes = 0 ↔ d.isEmpty := by
  have := h.readIndex
  simp only [nbytes, isEmpty]
  split_ifs with heq hr <;> simp_all <;> omega

theorem Valid.writeIndex_eq : (d.readIndex + d.nbytes) % d.bufferSize = d.writeIndex := by
  have hr := h.readIndex
  have hw := h.writeIndex
  unfold nbytes
  split_ifs with heq hroll hlt
  · rw [Nat.add_mod_right, Nat.mod_eq_of_lt hr, heq]
  · rw [Nat.add_zero, Nat.mod_eq_of_lt hr, heq]
  · rw [Nat.mod_eq_of_lt (by omega)]
    omega
  · have : d.readIndex + (d.bufferSize - d.readIndex + d.writeIndex) =
      d.writeIndex + d.bufferSize := by
      omega
    rw [this, Nat.add_mod_right, Nat.mod_eq_of_lt hw]

theorem Valid.readable_le (he : d.isEmpty = false) : d.readable ≤ d.nbytes := by
  simp only [isEmpty] at he
  have := h.readIndex
  unfold readable nbytes
  split_ifs <;> first | omega | simp_all

theorem Valid.readable_pos : 0 < d.readable := by
  have := h.readIndex
  unfold readable
  split_ifs <;> omega

theorem Valid.writable_pos : 0 < d.writable := by
  have := h.writeIndex
  unfold writable
  split_ifs <;> omega

theorem Valid.writable_le : d.writable ≤ d.bufferSize - d.writeIndex := by
  have := h.readIndex
  unfold writable
  split_ifs <;> omega

theorem Valid.nbytes_add_writable_le (hf : d.isFull = false) :
    d.nbytes + d.writable ≤ d.bufferSize := by
  simp only [isFull] at hf
  have := h.readIndex
  have := h.writeIndex
  unfold writable nbytes
  split_ifs <;> first | omega | simp_all

theorem Valid.advanceRead (he : d.isEmpty = false) (hn : n ≤ d.readable)
    (hpos : 0 < n) : (d.advanceRead n).Valid ∧ (d.advanceRead n).nbytes = d.nbytes - n ∧
      (d.advanceRead n).readIndex = (d.readIndex + n) % d.bufferSize ∧
      (d.advanceRead n).bufferSize = d.bufferSize ∧
      (d.advanceRead n).ringBuffer = d.ringBuffer := by
  simp only [isEmpty] at he
  obtain ⟨hsize, hr, hw, hlt, hgt⟩ := h
  have hle : d.readIndex + n ≤ d.bufferSize ∧
      (d.readIndex < d.writeIndex → d.readIndex + n ≤ d.writeIndex) := by
    unfold readable at hn
    split_ifs at hn <;> omega
  by_cases hend : d.readIndex + n ≥ d.bufferSize
  · have heq : d.readIndex + n = d.bufferSize := by omega
    rw [PipeRing.advanceRead, if_pos hend]
    refine ⟨⟨hsize, by simpa using by omega, hw, fun _ => rfl, by simp⟩, ?_, by simp [heq], rfl,
      rfl⟩
    simp only [nbytes]
    grind
  · rw [PipeRing.advanceRead, if_neg hend]
    refine ⟨⟨hsize, by simpa using by omega, hw, ?_, ?_⟩, ?_, ?_, rfl, rfl⟩
    · intro hc
      exact hlt (by simp only at hc; omega)
    · intro hc
      grind
    · simp only [nbytes]
      grind
    · rw [Nat.mod_eq_of_lt (by omega)]

theorem Valid.advanceWrite (hf : d.isFull = false) (hn : n ≤ d.writable)
    (hpos : 0 < n) : (d.advanceWrite n).Valid ∧ (d.advanceWrite n).nbytes = d.nbytes + n ∧
      (d.advanceWrite n).readIndex = d.readIndex ∧ (d.advanceWrite n).bufferSize = d.bufferSize ∧
      (d.advanceWrite n).ringBuffer = d.ringBuffer := by
  simp only [isFull] at hf
  obtain ⟨hsize, hr, hw, hlt, hgt⟩ := h
  have hle : d.writeIndex + n ≤ d.bufferSize ∧
      (d.writeIndex < d.readIndex → d.writeIndex + n ≤ d.readIndex) := by
    unfold writable at hn
    split_ifs at hn <;> omega
  by_cases hend : d.writeIndex + n ≥ d.bufferSize
  · rw [PipeRing.advanceWrite, if_pos hend]
    refine ⟨⟨hsize, hr, by simpa using by omega, by simp, fun _ => rfl⟩, ?_, rfl, rfl, rfl⟩
    simp only [nbytes]
    grind
  · rw [PipeRing.advanceWrite, if_neg hend]
    refine ⟨⟨hsize, hr, by simpa using by omega, ?_, ?_⟩, ?_, rfl, rfl, rfl⟩
    · intro hc
      grind
    · intro hc
      exact hgt (by simp only at hc; omega)
    · simp only [nbytes]
      grind

theorem Valid.contents_eq_nil : d.contents = [] ↔ d.isEmpty := by
  rw [← List.length_eq_zero_iff, length_contents, h.nbytes_eq_zero]

theorem Valid.contents_advanceRead (he : d.isEmpty = false) (hn : n ≤ d.readable) (hpos : 0 < n) :
    d.contents = d.ringBuffer.load d.readIndex n ++ (d.advanceRead n).contents := by
  obtain ⟨-, hnbytes, hindex, hsize, hbuffer⟩ := h.advanceRead he hn hpos
  have hle := h.readable_le he
  have hend : d.readIndex + n ≤ d.bufferSize := by
    have := h.writeIndex
    unfold readable at hn
    split_ifs at hn <;> omega
  have hsplit : d.nbytes = n + (d.nbytes - n) := by omega
  rw [contents, contents, hnbytes, hindex, hsize, hbuffer, hsplit, window_add,
    window_of_le hend, Nat.add_sub_cancel_left]
  rfl

end

@[simp]
theorem bufferSize_pipeRingbufferRead (d : PipeRing) (len : ℕ) :
    (d.pipeRingbufferRead len).1.bufferSize = d.bufferSize := by
  simp only [pipeRingbufferRead, advanceRead]
  split_ifs <;> rfl

@[simp]
theorem bufferSize_pipeRingbufferWrite (d : PipeRing) (buf : List UInt8) :
    (d.pipeRingbufferWrite buf).1.bufferSize = d.bufferSize := by
  simp only [pipeRingbufferWrite, advanceWrite]
  split_ifs <;> rfl

theorem Valid.pipeRingbufferRead (h : d.Valid) (hlen : 0 < len) :
    (d.pipeRingbufferRead len).1.Valid ∧ (d.pipeRingbufferRead len).2.length ≤ len ∧
      ((d.pipeRingbufferRead len).2 = [] ↔ d.isEmpty) ∧
      ∃ taken, d.contents = taken ++ (d.pipeRingbufferRead len).1.contents ∧
        (d.pipeRingbufferRead len).2.length = taken.length ∧
        (len ≤ securecMemMaxLen → (d.pipeRingbufferRead len).2 = taken.map some) := by
  cases he : d.isEmpty with
  | true => simpa [PipeRing.pipeRingbufferRead, he] using h
  | false =>
    set n := if d.readable > len then len else d.readable with hn
    have hpos : 0 < n := by
      have := h.readable_pos
      rw [hn]
      split_ifs <;> omega
    have hbound : n ≤ len ∧ n ≤ d.readable := by
      rw [hn]
      split_ifs <;> omega
    simp only [PipeRing.pipeRingbufferRead, he, Bool.false_eq_true, if_false]
    have hlength : (if memcpySFails len n then List.replicate n none
        else (d.ringBuffer.load d.readIndex n).map some).length = n := by
      split_ifs <;> simp
    refine ⟨(h.advanceRead he hbound.2 hpos).1, hlength.trans_le hbound.1, ?_,
      d.ringBuffer.load d.readIndex n, h.contents_advanceRead he hbound.2 hpos,
      by simpa using hlength, fun hmax => if_neg ?_⟩
    · rw [← List.length_eq_zero_iff, hlength]
      simpa using by omega
    · simp only [memcpySFails]
      omega

/-- The slots of the bytes in the ring lie outside the room behind them. -/
theorem Valid.outside_of_lt (h : d.Valid) (hi : i < d.nbytes) (hn : d.nbytes + n ≤ d.bufferSize) :
    (d.readIndex + i) % d.bufferSize < d.writeIndex ∨
      d.writeIndex + n ≤ (d.readIndex + i) % d.bufferSize := by
  by_contra hc
  obtain ⟨hge, hlt⟩ : d.writeIndex ≤ (d.readIndex + i) % d.bufferSize ∧
      (d.readIndex + i) % d.bufferSize < d.writeIndex + n := by omega
  obtain ⟨k, hk⟩ := Nat.exists_eq_add_of_le hge
  have hlt' : d.nbytes + k < d.bufferSize := by omega
  refine mod_ne_mod d.readIndex (Nat.lt_add_right k hi) hlt' ?_
  calc (d.readIndex + i) % d.bufferSize
      = (d.readIndex + i) % d.bufferSize % d.bufferSize := (Nat.mod_mod _ _).symm
    _ = (d.writeIndex + k) % d.bufferSize := by rw [hk]
    _ = (d.readIndex + d.nbytes + k) % d.bufferSize := by rw [← h.writeIndex_eq, Nat.mod_add_mod]
    _ = (d.readIndex + (d.nbytes + k)) % d.bufferSize := by rw [Nat.add_assoc]

theorem Valid.pipeRingbufferWrite (h : d.Valid) {buf : List UInt8} (hlen : 0 < buf.length) :
    (d.pipeRingbufferWrite buf).1.Valid ∧ (d.pipeRingbufferWrite buf).2 ≤ buf.length ∧
      ((d.pipeRingbufferWrite buf).2 = 0 ↔ d.isFull) ∧ (d.pipeRingbufferWrite buf).1.contents =
        d.contents ++ buf.take (d.pipeRingbufferWrite buf).2 := by
  cases hf : d.isFull with
  | true => simpa [PipeRing.pipeRingbufferWrite, hf] using h
  | false =>
    set n := if d.writable > buf.length then buf.length else d.writable with hn
    have hpos : 0 < n := by
      have := h.writable_pos
      rw [hn]
      split_ifs <;> omega
    have hbound : n ≤ buf.length ∧ n ≤ d.writable := by
      rw [hn]
      split_ifs <;> omega
    have hroom := h.writable_le
    have hcopies : ¬memcpySFails (d.bufferSize - d.writeIndex) n := by
      have := h.size
      simp only [memcpySFails]
      omega
    simp only [PipeRing.pipeRingbufferWrite, hf, Bool.false_eq_true, if_false, ← hn, if_neg hcopies]
    set e : PipeRing := { d with ringBuffer := d.ringBuffer.store d.writeIndex (buf.take n) }
      with he
    have hvalid : e.Valid := ⟨h.size, h.readIndex, h.writeIndex, h.roll_of_lt, h.roll_of_gt⟩
    obtain ⟨hadv, hnbytes, hindex, hsize, hbuffer⟩ := hvalid.advanceWrite hf hbound.2 hpos
    refine ⟨hadv, hbound.1, by simpa using by omega, ?_⟩
    have hfit := h.nbytes_add_writable_le hf
    have hend : e.writeIndex + n ≤ e.bufferSize := by
      change d.writeIndex + n ≤ d.bufferSize
      omega
    have hnew : e.ringBuffer.load d.writeIndex n = buf.take n := by
      have := Bytes.load_store_self (m := d.ringBuffer) (a := d.writeIndex) (l := buf.take n)
      rwa [List.length_take_of_le hbound.1] at this
    rw [contents, hnbytes, hindex, hsize, hbuffer, window_add, contents]
    congr 1
    · refine window_congr fun i hi => ?_
      exact Bytes.store_apply_of_outside (h.outside_of_lt hi (by
        rw [List.length_take_of_le hbound.1]
        omega))
    · rw [hvalid.writeIndex_eq, window_of_le hend]
      exact hnew

end PipeRing

end LiteOS.Posix
