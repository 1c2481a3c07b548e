import LiteOS.Posix.PipeRing
import Mathlib.Data.Fintype.Basic

/-!
# Reading and writing a pipe

The model of `PipeRead`, `PipeWrite` and `PipeClose` on one pipe, by any tasks. The calls are cut
where others can run: before the mutex of the device is taken, and before and in each
`LOS_SemPend`. A task that holds the mutex is alone with the ring, but not with the semaphores, on
which others wait without it. `PIPE_RW_POST` is one step: a task that begins to wait in the middle
of the loop could as well have come before it. The calls that are in progress when the last
descriptor is closed are not followed any further.
-/

namespace LiteOS.Posix

open Lib Kernel Function

/-- The two ends of a pipe, each with a semaphore (`readSem`, `writeSem`) and a number of
descriptors (`readerCnt`, `writerCnt`). -/
inductive PipeSide
  | read
  | write
deriving DecidableEq, Repr

instance : Fintype PipeSide := ⟨{.read, .write}, fun side => by cases side <;> simp⟩

/-- A call of `PipeRead`: its arguments, `nread`, and what was copied to the buffer so far. Not in
the source: the bytes that the call took off the ring, and whether the pipe was empty and had no
write descriptor when it began. -/
structure ReadCall where
  len : ℕ
  nread : ℕ := 0
  buf : List (Option UInt8) := []
  got : List UInt8 := []
  eof : Bool
deriving DecidableEq, Repr

/-- `nread += tmpLen` -/
def ReadCall.add (c : ReadCall) (chunk : List (Option UInt8)) (got : List UInt8) : ReadCall :=
  { c with nread := c.nread + chunk.length, buf := c.buf ++ chunk, got := c.got ++ got }

/-- A call of `PipeWrite`: the buffer, `nwrite`, and, not in the source, the bytes that went to the
ring. -/
structure WriteCall where
  buf : List UInt8
  nwrite : ℕ := 0
  taken : List UInt8 := []
deriving DecidableEq, Repr

/-- `nwrite += tmpLen` -/
def WriteCall.add (c : WriteCall) (chunk : List UInt8) : WriteCall :=
  { c with nwrite := c.nwrite + chunk.length, taken := c.taken ++ chunk }

inductive PipeUse
  | read (c : ReadCall)
  | write (c : WriteCall)
deriving DecidableEq, Repr

def PipeUse.side : PipeUse → PipeSide
  | .read _ => .read
  | .write _ => .write

inductive PipePc
  | idle
  /-- before the first `PIPE_DEV_LOCK` -/
  | lock (use : PipeUse)
  /-- before the `LOS_SemPend` that is called without the mutex -/
  | pend (use : PipeUse)
  | wait (use : PipeUse)
  /-- before `PIPE_DEV_LOCK` after that -/
  | relock (use : PipeUse)
  /-- in the loop, with the mutex -/
  | loop (use : PipeUse)
  /-- before the test of `PIPE_RW_WAIT`, with the mutex -/
  | drain (use : PipeUse)
  /-- before the `LOS_SemPend` of `PIPE_RW_WAIT`, with the mutex -/
  | drainPend (use : PipeUse)
  | drainWait (use : PipeUse)
  /-- in `PipeClose`, before `PIPE_DEV_LOCK` -/
  | closing (side : PipeSide)
  /-- `PipeRead` has returned. Not in the source: whether the pipe was empty and had no write
  descriptor then. -/
  | readDone (ret : ℤ) (c : ReadCall) (atEof : Bool)
  | writeDone (ret : ℤ) (c : WriteCall)
deriving DecidableEq, Repr

namespace PipePc

def use? : PipePc → Option PipeUse
  | lock use | pend use | wait use | relock use | loop use | drain use | drainPend use
  | drainWait use => some use
  | _ => none

def atRest : PipePc → Bool
  | idle | readDone _ _ _ | writeDone _ _ => true
  | _ => false

def waits (side : PipeSide) : PipePc → Bool
  | wait use | drainWait use => use.side = side
  | _ => false

/-- `LOS_SemPend` returns. -/
def wake (side : PipeSide) : PipePc → PipePc
  | wait use => if use.side = side then relock use else wait use
  | drainWait use => if use.side = side then drain use else drainWait use
  | pc => pc

end PipePc

/-- The conversion of a `size_t` to the `INT32` that is returned. -/
def int32 (n : ℕ) : ℤ := if n < 2 ^ 31 then n else n - 2 ^ 32

/-- A pipe and the tasks that use it. `fds` are its descriptors in `g_devFd`. Not in the source: the
bytes that the ring took and those that reads took off it, and whether a `PipeClose` that left no
write descriptor open has come since a `PipeRead` passed `LOS_SemPend`. -/
structure Pipe (τ : Type*) where
  ring : PipeRing := .opened
  mutex : Option τ := none
  sem : PipeSide → ℕ := fun _ => 0
  cnt : PipeSide → ℕ
  fds : PipeSide → ℕ
  gone : Bool := false
  pc : τ → PipePc := fun _ => .idle
  accepted : List UInt8 := []
  delivered : List UInt8 := []
  posted : Bool := false

namespace Pipe

variable {τ : Type*} [DecidableEq τ]

section

variable (s : Pipe τ) (t : τ)

def setPc (pc : PipePc) : Pipe τ :=
  { s with pc := update s.pc t pc }

/-- `PIPE_DEV_UNLOCK` -/
def unlock : Pipe τ := { s with mutex := none }

/-- `PIPE_RW_POST`: every waiting task is woken, and then the semaphore is counted up. -/
def post (side : PipeSide) : Pipe τ :=
  if s.sem side = 0 then
    { s with
      sem := update s.sem side 1
      pc := fun u => (s.pc u).wake side }
  else s

/-- The ring is empty and no write descriptor is open. -/
def atEof : Bool := s.ring.isEmpty ∧ s.cnt .write = 0

/-- `PipeRead` up to `PIPE_DEV_LOCK` -/
def pipeRead (len : ℕ) : Pipe τ :=
  let c : ReadCall := { len := len, eof := s.atEof }
  if len = 0 then s.setPc t (.readDone (-1) c s.atEof) else s.setPc t (.lock (.read c))

/-- `PipeWrite` up to `PIPE_DEV_LOCK` -/
def pipeWrite (buf : List UInt8) : Pipe τ :=
  if buf = [] then s.setPc t (.writeDone (-1) { buf := buf })
  else s.setPc t (.lock (.write { buf := buf }))

/-- `PipeClose` up to `PIPE_DEV_LOCK` -/
def pipeClose (side : PipeSide) : Pipe τ :=
  { s.setPc t (.closing side) with fds := update s.fds side (s.fds side - 1) }

/-- The first lock: a reader that finds the ring empty gives the mutex back. -/
def locked (use : PipeUse) : Pipe τ :=
  match use with
  | .read _ =>
    if s.ring.isEmpty then s.setPc t (.pend use)
    else { s.setPc t (.loop use) with mutex := some t }
  | .write _ => { s.setPc t (.loop use) with mutex := some t }

/-- `PipeRingbufferRead` into the buffer of the call -/
def pull (c : ReadCall) : Pipe τ × List (Option UInt8) × List UInt8 :=
  let tmp := s.ring.pipeRingbufferRead (c.len - c.nread)
  let got := s.ring.contents.take tmp.2.length
  ({ s with ring := tmp.1, delivered := s.delivered ++ got }, tmp.2, got)

/-- `PipeRingbufferWrite` from the buffer of the call -/
def push (c : WriteCall) : Pipe τ × List UInt8 :=
  let tmp := s.ring.pipeRingbufferWrite (c.buf.drop c.nwrite)
  let chunk := (c.buf.drop c.nwrite).take tmp.2
  ({ s with ring := tmp.1, accepted := s.accepted ++ chunk }, chunk)

/-- One turn of the loop of `PipeRead` -/
def loopRead (c : ReadCall) : Pipe τ :=
  let tmp := s.pull c
  if tmp.2.1 = [] then s.setPc t (.drain (.read c))
  else
    let c := c.add tmp.2.1 tmp.2.2
    if c.nread < c.len then tmp.1.setPc t (.loop (.read c))
    else (tmp.1.setPc t (.readDone (int32 c.nread) c tmp.1.atEof)).unlock.post .write

/-- One turn of the loop of `PipeWrite` -/
def loopWrite (c : WriteCall) : Pipe τ :=
  let tmp := s.push c
  if tmp.2 = [] then (s.setPc t (.drain (.write c))).post .read
  else
    let c := c.add tmp.2
    if c.nwrite < c.buf.length then tmp.1.setPc t (.loop (.write c))
    else (tmp.1.setPc t (.writeDone (int32 c.nwrite) c)).unlock.post .read

/-- `LOS_SemPend`, with the places of the task after it and while it waits -/
def semPend (side : PipeSide) (after wait : PipePc) : Pipe τ :=
  if s.sem side > 0 then
    { s.setPc t after with
      sem := update s.sem side (s.sem side - 1)
      posted := s.posted ∧ side = .write }
  else s.setPc t wait

/-- `PipeClose` with the mutex -/
def closed (side : PipeSide) : Pipe τ :=
  let cnt := update s.cnt side (s.cnt side - 1)
  let s := { s.setPc t .idle with cnt := cnt, gone := cnt .read + cnt .write = 0 }
  let s := if cnt .read = 0 then s.post .write else s
  if cnt .write = 0 then { s.post .read with posted := true } else s

/-- `LOS_SemPend` returns an error, as it does with the scheduler locked. -/
def fail : Pipe τ :=
  match s.pc t with
  | .pend (.read c) => s.setPc t (.readDone (-1) c s.atEof)
  | .pend (.write c) => s.setPc t (.writeDone (-1) c)
  | .drainPend use => s.setPc t (.drain use)
  | _ => s

end

variable [Fintype τ]

/-- `PipeWriterIsWaiting` posts more than once. -/
def pipeWriterIsWaiting (s : Pipe τ) : Bool :=
  s.sem .write = 0 ∧ ∃ u, (s.pc u).waits .write

/-- What follows `PIPE_RW_WAIT`. -/
def drained (s : Pipe τ) (t : τ) (use : PipeUse) : Pipe τ :=
  match use with
  | .read c =>
    let pc := if s.pipeWriterIsWaiting then .pend use else .readDone (int32 c.nread) c s.atEof
    (s.setPc t pc).unlock.post .write
  | .write _ => (s.setPc t (.pend use)).unlock

def go (s : Pipe τ) (t : τ) : Pipe τ :=
  match s.pc t with
  | .lock use => s.locked t use
  | .relock use => { s.setPc t (.loop use) with mutex := some t }
  | .loop (.read c) => s.loopRead t c
  | .loop (.write c) => s.loopWrite t c
  | .drain use => if s.sem use.side ≠ 0 then s.setPc t (.drainPend use) else s.drained t use
  | .drainPend use => s.semPend t use.side (.drain use) (.drainWait use)
  | .pend use => s.semPend t use.side (.relock use) (.wait use)
  | .closing side => s.closed t side
  | .idle | .wait _ | .drainWait _ | .readDone _ _ _ | .writeDone _ _ => s

inductive Op (τ : Type*)
  | read (t : τ) (len : ℕ)
  | write (t : τ) (buf : List UInt8)
  | close (t : τ) (side : PipeSide)
  | go (t : τ)
  | fail (t : τ)

/-- A task can go on: the mutex that it wants to take is free, and it does not wait. -/
def canGo (s : Pipe τ) (t : τ) : Bool :=
  match s.pc t with
  | .lock _ | .relock _ | .closing _ => s.mutex = none
  | .loop _ | .drain _ | .drainPend _ | .pend _ => true
  | .idle | .wait _ | .drainWait _ | .readDone _ _ _ | .writeDone _ _ => false

/-- `LOS_SemPend` fails only where it would have to wait. -/
def canFail (s : Pipe τ) (t : τ) : Bool :=
  match s.pc t with
  | .pend use | .drainPend use => s.sem use.side = 0
  | _ => false

def allowed (s : Pipe τ) : Op τ → Prop
  | .read t len =>
    (s.pc t).atRest ∧ s.gone = false ∧ 0 < s.fds .read + s.fds .write ∧ len < 2 ^ 32
  | .write t buf =>
    (s.pc t).atRest ∧ s.gone = false ∧ 0 < s.fds .read + s.fds .write ∧ buf.length < 2 ^ 32
  | .close t side => (s.pc t).atRest ∧ s.gone = false ∧ 0 < s.fds side
  | .go t => s.canGo t ∧ s.gone = false
  | .fail t => s.canFail t ∧ s.gone = false

def step (s : Pipe τ) : Op τ → Pipe τ
  | .read t len => s.pipeRead t len
  | .write t buf => s.pipeWrite t buf
  | .close t side => s.pipeClose t side
  | .go t => s.go t
  | .fail t => s.fail t

/-- A pipe that was opened, with any number of descriptors. -/
def machine : Machine (Pipe τ) (Op τ) where
  init s := ∃ n, s = { cnt := n, fds := n }
  allowed := allowed
  step := step

/-- The bytes that the reads took off the ring are the first ones of those that it took, the others
are in the ring, and a call that returns `n` has moved `n` bytes, in order: a read has those in its
buffer that it took off the ring, a write has put the first ones of its buffer there. -/
structure Sound (s : Pipe τ) : Prop where
  stream : s.accepted = s.delivered ++ s.ring.contents
  bound : s.ring.contents.length ≤ pipeDevBufSize
  read : ∀ t ret c atEof, s.pc t = .readDone ret c atEof → 0 ≤ ret →
    (c.got.length : ℤ) = ret ∧ c.buf = c.got.map some
  write : ∀ t ret c, s.pc t = .writeDone ret c → 0 ≤ ret →
    (c.taken.length : ℤ) = ret ∧ c.taken <+: c.buf

/-- No buffer of a reader is longer than `memcpy_s` allows. -/
def ShortReads (_ : Pipe τ) : Op τ → Prop
  | .read _ len => len ≤ securecMemMaxLen
  | _ => True

end Pipe

/-- What is known of a call in progress; `short` stands for the restriction to short reads. -/
def PipeUse.Ok (short : Prop) : PipeUse → Prop
  | .read c => c.got.length = c.nread ∧ c.nread < c.len ∧ c.len < 2 ^ 32 ∧
      (short → c.len ≤ securecMemMaxLen ∧ c.buf = c.got.map some)
  | .write c => c.taken = c.buf.take c.nwrite ∧ c.nwrite < c.buf.length ∧ c.buf.length < 2 ^ 32

/-- What is known of the call that a task is in or has made. -/
def PipePc.Ok (short : Prop) (pc : PipePc) : Prop :=
  match pc with
  | readDone ret c _ => 0 ≤ ret →
      (c.got.length : ℤ) = ret ∧ (short → c.buf = c.got.map some)
  | writeDone ret c => 0 ≤ ret → (c.taken.length : ℤ) = ret ∧ c.taken <+: c.buf
  | pc => ∀ use, pc.use? = some use → use.Ok short

namespace PipePc

variable {short : Prop} {pc : PipePc}

theorem Ok.use {use : PipeUse} (h : pc.Ok short) (hu : pc.use? = some use) : use.Ok short := by
  cases pc <;> first | exact h use hu | simp [use?] at hu

theorem Ok.of_use {use : PipeUse} (hu : pc.use? = some use) (h : use.Ok short) : pc.Ok short := by
  cases pc <;> simp_all [Ok, use?]

theorem Ok.wake (h : pc.Ok short) (side : PipeSide) : (pc.wake side).Ok short := by
  cases pc with
  | wait use | drainWait use =>
    simp only [PipePc.wake]
    split_ifs
    · exact .of_use rfl (h.use rfl)
    · exact h
  | _ => exact h

end PipePc

theorem int32_of_nonneg {n : ℕ} (hn : n < 2 ^ 32) (h : 0 ≤ int32 n) : int32 n = n := by
  unfold int32 at h ⊢
  split_ifs at h ⊢ <;> omega

theorem int32_eq_zero {n : ℕ} (hn : n < 2 ^ 32) : int32 n = 0 ↔ n = 0 := by
  unfold int32
  split_ifs <;> omega

namespace Pipe

/-- What every step keeps. -/
structure Books {τ : Type*} (short : Prop) (s : Pipe τ) : Prop where
  valid : s.ring.Valid
  size : s.ring.bufferSize = pipeDevBufSize
  stream : s.accepted = s.delivered ++ s.ring.contents
  calls : ∀ t, (s.pc t).Ok short

section Steps

variable {τ : Type*} {short : Prop} {s : Pipe τ} {t : τ}

theorem Books.init (h : ∃ n, s = { cnt := n, fds := n }) : s.Books short := by
  obtain ⟨n, rfl⟩ := h
  exact ⟨PipeRing.opened_valid, rfl, rfl, fun _ => nofun⟩

theorem Books.sound (h : s.Books True) : s.Sound where
  stream := h.stream
  bound := by
    have := h.valid.nbytes_le
    rw [h.size] at this
    simpa using this
  read t ret c atEof ht hret := by
    have := h.calls t
    rw [ht] at this
    exact ⟨(this hret).1, (this hret).2 trivial⟩
  write t ret c ht hret := by
    have := h.calls t
    rw [ht] at this
    exact this hret

variable (h : s.Books short) {c : ReadCall}
include h

theorem Books.unlock : s.unlock.Books short := ⟨h.valid, h.size, h.stream, h.calls⟩

theorem Books.post (side : PipeSide) : (s.post side).Books short := by
  unfold Pipe.post
  split_ifs
  · exact ⟨h.valid, h.size, h.stream, fun u => (h.calls u).wake side⟩
  · exact h

theorem Books.pull (hc : PipeUse.Ok short (.read c)) :
    (s.pull c).1.Books short ∧ ((s.pull c).2.1 = [] ↔ s.ring.isEmpty) ∧
      (c.add (s.pull c).2.1 (s.pull c).2.2).nread ≤ c.len ∧
      s.ring.contents.length = (s.pull c).2.1.length + (s.pull c).1.ring.contents.length ∧
      ((c.add (s.pull c).2.1 (s.pull c).2.2).nread < c.len →
        PipeUse.Ok short (.read (c.add (s.pull c).2.1 (s.pull c).2.2))) ∧
      ∀ atEof, PipePc.Ok short (.readDone (int32 (c.add (s.pull c).2.1 (s.pull c).2.2).nread)
        (c.add (s.pull c).2.1 (s.pull c).2.2) atEof) := by
  obtain ⟨hgot, hlt, hlen, hshort⟩ := hc
  obtain ⟨hvalid, hle, hnil, taken, hcontents, hlength, hcopied⟩ :=
    h.valid.pipeRingbufferRead (Nat.sub_pos_of_lt hlt)
  simp only [Pipe.pull, ReadCall.add]
  set tmp := s.ring.pipeRingbufferRead (c.len - c.nread) with htmp
  have htake : s.ring.contents.take tmp.2.length = taken := by
    rw [hcontents, List.take_left' hlength.symm]
  have hnread : (c.got ++ taken).length = c.nread + tmp.2.length := by simp [hgot, hlength]
  have hall : short → c.len ≤ securecMemMaxLen ∧ c.buf ++ tmp.2 = (c.got ++ taken).map some := by
    refine fun hs => ⟨(hshort hs).1, ?_⟩
    rw [List.map_append, (hshort hs).2, hcopied ((Nat.sub_le _ _).trans (hshort hs).1)]
  rw [htake]
  refine ⟨⟨hvalid, by simpa [htmp] using h.size, ?_, h.calls⟩, hnil, by omega,
    by rw [hcontents, List.length_append, hlength], fun hmore => ⟨hnread, hmore, hlen, hall⟩,
    fun _ hret => ?_⟩
  · rw [h.stream, hcontents, List.append_assoc]
  · rw [int32_of_nonneg (by omega) hret]
    exact ⟨by exact_mod_cast hnread, fun hs => (hall hs).2⟩

theorem Books.push {c : WriteCall} (hc : PipeUse.Ok short (.write c)) :
    (s.push c).1.Books short ∧ ((s.push c).2 = [] ↔ s.ring.isFull) ∧
      (s.push c).1.ring.contents = s.ring.contents ++ (s.push c).2 ∧
      ((c.add (s.push c).2).nwrite < c.buf.length →
        PipeUse.Ok short (.write (c.add (s.push c).2))) ∧
      PipePc.Ok short (.writeDone (int32 (c.add (s.push c).2).nwrite) (c.add (s.push c).2)) := by
  obtain ⟨htaken, hlt, hlen⟩ := hc
  have hrest : (c.buf.drop c.nwrite).length = c.buf.length - c.nwrite := List.length_drop
  obtain ⟨hvalid, hle, hzero, hcontents⟩ :=
    h.valid.pipeRingbufferWrite (hrest ▸ Nat.sub_pos_of_lt hlt)
  simp only [Pipe.push, WriteCall.add]
  set tmp := s.ring.pipeRingbufferWrite (c.buf.drop c.nwrite) with htmp
  have hchunk := List.length_take_of_le hle
  have hnew : c.taken ++ (c.buf.drop c.nwrite).take tmp.2 = c.buf.take (c.nwrite + tmp.2) := by
    rw [htaken, List.take_add]
  rw [hchunk, hnew]
  refine ⟨⟨hvalid, by simpa [htmp] using h.size, ?_, h.calls⟩, ?_, hcontents,
    fun hmore => ⟨rfl, hmore, hlen⟩, fun hret => ?_⟩
  · rw [h.stream, hcontents, List.append_assoc]
  · rw [← hzero, ← List.length_eq_zero_iff, hchunk]
  · rw [int32_of_nonneg (by omega) hret]
    exact ⟨by rw [List.length_take_of_le (by omega)], List.take_prefix _ _⟩

variable [DecidableEq τ] {use : PipeUse} {pc after wait : PipePc}

theorem Books.setPc (hpc : pc.Ok short) : (s.setPc t pc).Books short := by
  refine ⟨h.valid, h.size, h.stream, fun u => ?_⟩
  by_cases hu : u = t
  · subst hu
    simpa [Pipe.setPc] using hpc
  · simpa [Pipe.setPc, hu] using h.calls u

theorem Books.semPend {side : PipeSide} (hafter : after.Ok short)
    (hwait : wait.Ok short) : (s.semPend t side after wait).Books short := by
  unfold Pipe.semPend
  split_ifs
  · have := h.setPc (t := t) hafter
    exact ⟨this.valid, this.size, this.stream, this.calls⟩
  · exact h.setPc hwait

theorem Books.loop (huse : use.Ok short) :
    Books short { s.setPc t (.loop use) with mutex := some t } := by
  have : Books short (s.setPc t (.loop use)) := h.setPc (.of_use rfl huse)
  exact ⟨this.valid, this.size, this.stream, this.calls⟩

theorem Books.locked (huse : use.Ok short) : (s.locked t use).Books short := by
  cases use with
  | read =>
    simp only [Pipe.locked]
    split_ifs
    · exact h.setPc (.of_use rfl huse)
    · exact h.loop huse
  | write => exact h.loop huse

theorem Books.closed (side : PipeSide) : (s.closed t side).Books short := by
  have hidle : Books short (s.setPc t .idle) := h.setPc nofun
  have hcount : ∀ cnt gone, Books short { s.setPc t .idle with cnt := cnt, gone := gone } :=
    fun _ _ => ⟨hidle.valid, hidle.size, hidle.stream, hidle.calls⟩
  have hposted : ∀ {s' : Pipe τ}, s'.Books short →
      Books short { s'.post .read with posted := true } :=
    fun hs => ⟨(hs.post _).valid, (hs.post _).size, (hs.post _).stream, (hs.post _).calls⟩
  simp only [Pipe.closed]
  split_ifs
  · exact hposted ((hcount _ _).post .write)
  · exact hposted (hcount _ _)
  · exact (hcount _ _).post .write
  · exact hcount _ _

theorem Books.loopRead (hc : PipeUse.Ok short (.read c)) : (s.loopRead t c).Books short := by
  obtain ⟨hpulled, -, -, -, hmore, hdone⟩ := h.pull hc
  simp only [Pipe.loopRead]
  split_ifs with hnil hlt
  · exact h.setPc (.of_use rfl hc)
  · exact hpulled.setPc (.of_use rfl (hmore hlt))
  · exact ((hpulled.setPc (hdone _)).unlock).post .write

theorem Books.loopWrite {c : WriteCall} (hc : PipeUse.Ok short (.write c)) :
    (s.loopWrite t c).Books short := by
  obtain ⟨hpushed, -, -, hmore, hdone⟩ := h.push hc
  simp only [Pipe.loopWrite]
  split_ifs with hnil hlt
  · exact (h.setPc (.of_use rfl hc)).post .read
  · exact hpushed.setPc (.of_use rfl (hmore hlt))
  · exact ((hpushed.setPc hdone).unlock).post .read

theorem Books.fail (t : τ) : (s.fail t).Books short := by
  have ht := h.calls t
  unfold Pipe.fail
  split <;> rename_i hpc
  · exact h.setPc fun hret => absurd hret (by decide)
  · exact h.setPc fun hret => absurd hret (by decide)
  · rw [hpc] at ht
    exact h.setPc (.of_use rfl (ht.use rfl))
  · exact h

variable [Fintype τ]

theorem Books.drained (huse : use.Ok short) : (s.drained t use).Books short := by
  cases use with
  | read =>
    refine ((h.setPc ?_).unlock).post .write
    split_ifs
    · exact .of_use rfl huse
    · obtain ⟨hgot, hlt, hlen, hshort⟩ := huse
      intro hret
      rw [int32_of_nonneg (by omega) hret]
      exact ⟨by exact_mod_cast hgot, fun hs => (hshort hs).2⟩
  | write => exact (h.setPc (.of_use rfl huse)).unlock

theorem Books.go (t : τ) : (s.go t).Books short := by
  have ht := h.calls t
  unfold Pipe.go
  split <;> rename_i hpc <;> rw [hpc] at ht
  · exact h.locked (ht.use rfl)
  · exact h.loop (ht.use rfl)
  · exact h.loopRead (ht.use rfl)
  · exact h.loopWrite (ht.use rfl)
  · split_ifs
    · exact h.setPc (.of_use rfl (ht.use rfl))
    · exact h.drained (ht.use rfl)
  · exact h.semPend (.of_use rfl (ht.use rfl)) (.of_use rfl (ht.use rfl))
  · exact h.semPend (.of_use rfl (ht.use rfl)) (.of_use rfl (ht.use rfl))
  · exact h.closed _
  all_goals exact h

theorem Books.step {op : Op τ} (hop : s.allowed op) (hshort : short → s.ShortReads op) :
    (s.step op).Books short := by
  cases op with
  | read =>
    simp only [Pipe.step, pipeRead]
    split_ifs with h0
    · exact h.setPc fun hret => absurd hret (by decide)
    · exact h.setPc (.of_use rfl ⟨rfl, Nat.pos_of_ne_zero h0, hop.2.2.2,
        fun hs => ⟨hshort hs, rfl⟩⟩)
  | write =>
    simp only [Pipe.step, pipeWrite]
    split_ifs with h0
    · exact h.setPc fun hret => absurd hret (by decide)
    · exact h.setPc (.of_use rfl ⟨rfl, List.length_pos_iff.2 h0, hop.2.2.2⟩)
  | close t side =>
    have : Books short (s.setPc t (.closing side)) := h.setPc nofun
    exact ⟨this.valid, this.size, this.stream, this.calls⟩
  | go t => exact h.go t
  | fail t => exact h.fail t

end Steps

variable {τ : Type*} [DecidableEq τ] [Fintype τ] {s : Pipe τ}

/-- A pipe is a stream of bytes, first in, first out. -/
theorem sound_of_shortReads (h : ((machine (τ := τ)).restrict ShortReads).Reaches s) : s.Sound := by
  have hbooks : s.Books True :=
    h.invariant (fun _ hs => .init hs) fun s op hs hop => hs.step hop.1 fun _ => hop.2
  exact hbooks.sound

instance (s : Pipe τ) (op) : Decidable (machine.allowed s op) := by
  unfold machine Pipe.allowed
  dsimp only
  split <;> infer_instance

omit [DecidableEq τ] [Fintype τ] in
instance (s : Pipe τ) : ∀ op, Decidable (s.ShortReads op)
  | .read _ _ => inferInstanceAs (Decidable (_ ≤ _))
  | .write _ _ | .close _ _ | .go _ | .fail _ => inferInstanceAs (Decidable True)

/-- A reader waits, a writer wakes it, and the reader gets what was written. -/
theorem sound_of_shortReads_woken : ∃ s : Pipe (Fin 2), (machine.restrict ShortReads).Reaches s ∧
    s.pc 0 = .readDone 2 ⟨4, 2, [some 7, some 8], [7, 8], false⟩ false ∧ s.Sound := by
  have hr := Machine.Reaches.run (M := (machine (τ := Fin 2)).restrict ShortReads)
    (.start ⟨fun _ => 1, rfl⟩)
    [.read 0 4, .go 0, .go 0, .write 1 [7, 8], .go 1, .go 1, .go 0, .go 0, .go 0, .go 0, .go 0,
      .go 0]
    (by decide +kernel)
  exact ⟨_, hr, by decide +kernel, sound_of_shortReads hr⟩

/-- A reader that passes the length `0x80000000` gets 2 as the answer, and nothing in its buffer. -/
theorem long_read_copies_nothing : ∃ s : Pipe (Fin 2), machine.Reaches s ∧
    s.accepted = [7, 8] ∧ s.ring.contents = [] ∧
    s.pc 0 = .readDone 2 ⟨0x80000000, 2, [none, none], [7, 8], false⟩ false := by
  have hr := Machine.Reaches.run (M := machine (τ := Fin 2)) (.start ⟨fun _ => 1, rfl⟩)
    [.write 1 [7, 8], .go 1, .go 1, .read 0 0x80000000, .go 0, .go 0, .go 0, .go 0, .go 0, .go 0]
    (by decide +kernel)
  exact ⟨_, hr, by decide +kernel⟩

end Pipe

end LiteOS.Posix
