import LiteOS.Posix.Pipe

/-!
# End of file on a pipe

`PipeRead` answers 0 when it is woken and finds the ring empty. It does not look at the number of
write descriptors but relies on the counts of the two semaphores. This module says under which
orders of the calls the answer 0 means the end of the file.
-/

namespace LiteOS.Posix

open Lib Kernel Function PipePc PipeUse ReadCall Bool

namespace PipePc

/-- The task is in `PipeRead`. -/
def reading (pc : PipePc) : Bool := pc.use?.any fun use => use.side = .read

/-- The task is in `PipeWrite`. -/
def writing (pc : PipePc) : Bool := pc.use?.any fun use => use.side = .write

def holds : PipePc → Bool
  | loop _ | drain _ | drainPend _ | drainWait _ => true
  | _ => false

variable (pc : PipePc) (side : PipeSide)

@[simp]
theorem use?_wake : (pc.wake side).use? = pc.use? := by
  cases pc with
  | wait use | drainWait use =>
    simp only [wake]
    split_ifs <;> rfl
  | _ => rfl

@[simp]
theorem reading_wake : (pc.wake side).reading = pc.reading := by simp [reading]

@[simp]
theorem writing_wake : (pc.wake side).writing = pc.writing := by simp [writing]

@[simp]
theorem holds_wake : (pc.wake side).holds = pc.holds := by
  cases pc with
  | wait use | drainWait use =>
    simp only [wake]
    split_ifs <;> rfl
  | _ => rfl

variable {pc}

theorem reading_or_writing_of_holds (h : pc.holds) : pc.reading ∨ pc.writing := by
  cases pc with
  | loop use | drain use | drainPend use | drainWait use =>
    cases use <;> simp [reading, writing, use?, side]
  | _ => simp [holds] at h

theorem writing_of_waits (h : pc.waits .write) : pc.writing := by
  cases pc <;> simp_all [waits, writing, use?]

end PipePc

namespace Pipe

variable {τ : Type*} {s : Pipe τ}

/-- There is something to read, or nothing will come any more. -/
def ready (s : Pipe τ) : Bool := s.ring.isEmpty = false ∨ s.cnt .write = 0

theorem ready_post (s : Pipe τ) (side : PipeSide) : (s.post side).ready = s.ready := by
  unfold post
  split_ifs <;> rfl

/-- Reads do not overlap; one that begins at the end of the file is the first to come to
`LOS_SemPend` after a `PipeClose`; while a write descriptor is open no read asks for all the bytes
in the ring and no more; writers have a write descriptor that stays open; and the last descriptor is
closed when no call is in progress. -/
def Orderly (s : Pipe τ) : Op τ → Prop
  | .read _ len => 0 < len ∧ (∀ u, (s.pc u).reading = false) ∧ (s.atEof → s.posted)
  | .write _ _ => 0 < s.cnt .write
  | .go t =>
    match s.pc t with
    | .loop (.read c) => 0 < s.cnt .write → c.len - c.nread ≠ s.ring.contents.length
    | .closing side =>
      (s.cnt .write ≤ 1 → side = .write → ∀ u, (s.pc u).writing = false) ∧
        (s.cnt .read + s.cnt .write ≤ 1 → ∀ u, (s.pc u).use? = none)
    | _ => True
  | _ => True

theorem isEmpty_of_atEof (h : s.atEof) : s.ring.isEmpty := by
  simp only [atEof, decide_and, decide_eq_true, and_eq_true] at h
  exact h.1

theorem cnt_of_atEof (h : s.atEof) : s.cnt .write = 0 := by
  simp only [atEof, decide_eq_true_eq] at h
  exact h.2

/-- What is known of a reader. Before it waits, a count of the semaphore means that it has something
to read; after it has waited, it has. A call that began at the end of the file finds a count. -/
def Fact (s : Pipe τ) : PipePc → Prop
  | .lock (.read c) | .pend (.read c) =>
    (c.nread = 0 → s.ready = false → s.sem .read = 0) ∧
      (c.eof → s.atEof ∧ c.nread = 0 ∧ 0 < s.sem .read)
  | .wait (.read c) => c.eof = false
  | .relock (.read c) | .loop (.read c) =>
    (c.nread = 0 → s.ready) ∧ (c.eof → s.atEof ∧ c.nread = 0)
  | .drain (.read c) => (c.nread = 0 → s.atEof) ∧ (c.eof → c.nread = 0)
  | .drainPend (.read c) =>
    (c.nread = 0 → s.atEof) ∧ (c.eof → c.nread = 0) ∧ 0 < s.sem .read
  | .drainWait (.read _) => False
  | .readDone ret c atEof => (ret = 0 → atEof) ∧ (c.eof → ret = 0)
  | _ => True

/-- What the steps of writers and closers do, as far as a reader sees it. -/
structure Grows (s s' : Pipe τ) : Prop where
  ready : s.ready → s'.ready
  atEof : s.atEof → s'.atEof
  sem_zero : s'.ready = false → s.sem .read = 0 → s'.sem .read = 0
  sem_pos : 0 < s.sem .read → 0 < s'.sem .read

variable {s s' : Pipe τ} {t : τ} {pc : PipePc} {side : PipeSide}

theorem Grows.of_eq (hring : s'.ring = s.ring) (hcnt : s'.cnt = s.cnt)
    (hsem : s'.sem .read = s.sem .read) : s.Grows s' := by
  have hready : s'.ready = s.ready := by simp [Pipe.ready, hring, hcnt]
  have hatEof : s'.atEof = s.atEof := by simp [Pipe.atEof, hring, hcnt]
  exact ⟨by simp [hready], by simp [hatEof], fun _ => by simp [hsem], by simp [hsem]⟩

theorem Fact.mono (hg : s.Grows s') (h : s.Fact pc) : s'.Fact pc := by
  have hnot : s'.ready = false → s.ready = false := fun hr => by
    by_contra hc
    simp [hg.ready (by simpa using hc)] at hr
  unfold Fact at h ⊢
  split at h <;> first
    | exact h
    | exact h.elim
    | exact ⟨fun h0 hr => hg.sem_zero hr (h.1 h0 (hnot hr)), fun he =>
        ⟨hg.atEof (h.2 he).1, (h.2 he).2.1, hg.sem_pos (h.2 he).2.2⟩⟩
    | exact ⟨fun h0 => hg.ready (h.1 h0), fun he => ⟨hg.atEof (h.2 he).1, (h.2 he).2⟩⟩
    | exact ⟨fun h0 => hg.atEof (h.1 h0), h.2⟩
    | exact ⟨fun h0 => hg.atEof (h.1 h0), h.2.1, hg.sem_pos h.2.2⟩

/-- What is known of the other tasks does not depend on the pipe. -/
theorem Fact.of_not_reading (hpc : pc.reading = false) (h : s.Fact pc) : s'.Fact pc := by
  unfold Fact at h ⊢
  split at h <;> first
    | exact h
    | exact h.elim
    | simp [reading, use?, side] at hpc

theorem fact_wake (h : s.Fact pc) (hs : s.Grows s')
    (hr : side = .read → s'.ready) : s'.Fact (pc.wake side) := by
  cases pc with
  | wait use =>
    cases use with
    | read c =>
      cases side with
      | read =>
        have hc : c.eof = false := h
        exact ⟨fun _ => hr rfl, by simp [hc]⟩
      | write => exact h.mono hs
    | write => cases side <;> trivial
  | drainWait use =>
    cases use with
    | read => exact h.elim
    | write => cases side <;> trivial
  | _ => exact h.mono hs

/-- While nobody reads, a count of the semaphore means that there is something to read. -/
structure EofInv (s : Pipe τ) : Prop where
  books : s.Books False
  holder : ∀ t, (s.pc t).holds ↔ s.mutex = some t
  one : ∀ t u, (s.pc t).reading → (s.pc u).reading → t = u
  writers : s.cnt .write = 0 → ∀ t, (s.pc t).writing = false
  finished : s.gone → ∀ t, (s.pc t).use? = none
  sem : s.sem .read ≤ 1
  quiet : (∀ t, (s.pc t).reading = false) → s.ready = false → s.sem .read = 0
  posted : s.posted → 0 < s.sem .read
  facts : ∀ t, s.Fact (s.pc t)

theorem EofInv.post (h : s.EofInv) (hr : side = .read → s.ready) : (s.post side).EofInv := by
  have hbooks := h.books.post side
  unfold Pipe.post at hbooks ⊢
  split_ifs at hbooks ⊢ with hsem
  · have hg : s.Grows { s with
        sem := update s.sem side 1, pc := fun u => (s.pc u).wake side } := by
      cases side with
      | read => exact ⟨id, id, fun hn => absurd (hn.symm.trans (hr rfl)) (by decide), by simp⟩
      | write => exact .of_eq rfl rfl (by simp)
    refine ⟨hbooks, by simpa using h.holder, by simpa using h.one, by simpa using h.writers,
      by simpa using h.finished, ?_,
      fun hn hno => hg.sem_zero hno (h.quiet (by simpa using hn) hno),
      fun hp => hg.sem_pos (h.posted hp), fun t => fact_wake (h.facts t) hg hr⟩
    cases side with
    | read => simp
    | write => simpa using h.sem
  · exact h

theorem EofInv.posted_post (h : s.EofInv) (hr : s.ready) :
    EofInv { s.post .read with posted := true } := by
  have hp : (s.post .read).EofInv := h.post fun _ => hr
  refine ⟨⟨hp.books.valid, hp.books.size, hp.books.stream, hp.books.calls⟩, hp.holder, hp.one,
    hp.writers, hp.finished, hp.sem, hp.quiet, fun _ => ?_, fun t =>
      (hp.facts t).mono (.of_eq rfl rfl rfl)⟩
  unfold Pipe.post
  split_ifs with hz
  · simp
  · exact Nat.pos_of_ne_zero hz

theorem EofInv.fact (h : s.EofInv) (hpc : s.pc t = pc) : s.Fact pc := hpc ▸ h.facts t

theorem EofInv.move (h : s.EofInv) (t : τ) (hbooks : s'.Books False)
    (hpc : ∀ u, u ≠ t → s'.pc u = s.pc u) (hholds : (s'.pc t).holds ↔ s'.mutex = some t)
    (hmutex : ∀ u, u ≠ t → (s'.mutex = some u ↔ s.mutex = some u)) (hreading : (s'.pc t).reading →
      (s.pc t).reading ∨ ∀ u, (s.pc u).reading = false) (hwriting : s'.cnt .write = 0 →
      (s'.pc t).writing = false ∧ ∀ u, u ≠ t → (s.pc u).writing = false)
    (hgone : s'.gone → (s'.pc t).use? = none ∧ ∀ u, u ≠ t → (s.pc u).use? = none)
    (hsem : s'.sem .read ≤ 1)
    (hquiet : (s.pc t).reading → (s'.pc t).reading ∨ s'.ready ∨ s'.sem .read = 0)
    (hposted : s'.posted → 0 < s'.sem .read) (hothers : (s.pc t).reading ∨ s.Grows s')
    (hfact : s'.Fact (s'.pc t)) : s'.EofInv := by
  refine ⟨hbooks, fun u => ?_, fun u v hu hv => ?_, fun hz u => ?_, fun hg u => ?_, hsem,
    fun hn hno => ?_, hposted, fun u => ?_⟩
  · by_cases hut : u = t
    · exact hut ▸ hholds
    · rw [hpc u hut, hmutex u hut]
      exact h.holder u
  · -- a task that reads now and task `t` are the same
    have hself : ∀ v ≠ t, (s'.pc v).reading → (s'.pc t).reading → t = v := fun v hvt hv ht => by
      rw [hpc v hvt] at hv
      rcases hreading ht with hr | hr
      · exact h.one t v hr hv
      · simp [hr v] at hv
    rcases eq_or_ne t u with rfl | hut <;> rcases eq_or_ne t v with rfl | hvt
    · rfl
    · exact hself v hvt.symm hv hu
    · exact (hself u hut.symm hu hv).symm
    · exact h.one u v (hpc u hut.symm ▸ hu) (hpc v hvt.symm ▸ hv)
  · by_cases hut : u = t
    · exact hut ▸ (hwriting hz).1
    · rw [hpc u hut]
      exact (hwriting hz).2 u hut
  · by_cases hut : u = t
    · exact hut ▸ (hgone hg).1
    · rw [hpc u hut]
      exact (hgone hg).2 u hut
  · by_cases hr : (s.pc t).reading
    · simpa [hn t, hno] using hquiet hr
    · have hgrows := hothers.resolve_left hr
      refine hgrows.sem_zero hno (h.quiet (fun u => ?_) ?_)
      · by_cases hut : u = t
        · simpa [hut] using hr
        · exact hpc u hut ▸ hn u
      · exact eq_false_iff.2 fun hy => by simp [hgrows.ready hy] at hno
  · by_cases hut : u = t
    · exact hut ▸ hfact
    · rw [hpc u hut]
      rcases hothers with hr | hgrows
      · have hnot : (s.pc u).reading = false := by
          by_contra hc
          exact hut (h.one u t (by simpa using hc) hr)
        exact (h.facts u).of_not_reading hnot
      · exact (h.facts u).mono hgrows

theorem EofInv.turn (h : s.EofInv) (t : τ) (hbooks : s'.Books False)
    (hpc : ∀ u, u ≠ t → s'.pc u = s.pc u) (hcnt : s'.cnt = s.cnt) (hgone : s'.gone = s.gone)
    (huse : (s'.pc t).use? = none ∧ ((s.pc t).reading → s'.ready ∨ s'.sem .read = 0) ∨
      ∃ use use', (s.pc t).use? = some use ∧ (s'.pc t).use? = some use' ∧ use'.side = use.side)
    (hholds : (s'.pc t).holds ↔ s'.mutex = some t)
    (hmutex : ∀ u, u ≠ t → (s'.mutex = some u ↔ s.mutex = some u))
    (hsem : s'.sem .read ≤ 1) (hposted : s'.posted → 0 < s'.sem .read)
    (hothers : (s.pc t).reading ∨ s.Grows s') (hfact : s'.Fact (s'.pc t)) : s'.EofInv := by
  refine h.move t hbooks hpc hholds hmutex (fun hr => .inl ?_) (fun hz => ⟨?_, fun u _ => ?_⟩)
    (fun hg => ⟨?_, fun u _ => ?_⟩) hsem (fun hr => ?_) hposted hothers hfact
  · rcases huse with ⟨hn, -⟩ | ⟨use, use', hu, hu', hside⟩
    · simp [reading, hn] at hr
    · simpa [reading, hu, hu', hside] using hr
  · have hw := h.writers (hcnt ▸ hz) t
    rcases huse with ⟨hn, -⟩ | ⟨use, use', hu, hu', hside⟩
    · simp [writing, hn]
    · simpa [writing, hu, hu', hside] using hw
  · exact h.writers (hcnt ▸ hz) u
  · have hf := h.finished (hgone ▸ hg) t
    rcases huse with ⟨hn, -⟩ | ⟨use, use', hu, -, -⟩
    · exact hn
    · simp [hf] at hu
  · exact h.finished (hgone ▸ hg) u
  · rcases huse with ⟨-, hn⟩ | ⟨use, use', hu, hu', hside⟩
    · exact .inr (hn hr)
    · exact .inl (by simpa [reading, hu, hu', hside] using hr)

variable {use : PipeUse}

/-- A call can go on at any time if no write descriptor is open. -/
theorem orderly_go (hu : (s.pc t).use? ≠ none) (hz : s.cnt .write = 0) : s.Orderly (.go t) := by
  simp only [Orderly]
  split <;> rename_i hpc
  · simp [hz]
  · simp [hpc, use?] at hu
  · trivial

theorem pc_post_of_done {ret : ℤ} {c : ReadCall} {atEof : Bool}
    (hpc : s.pc t = .readDone ret c atEof) (side : PipeSide) :
    (s.post side).pc t = .readDone ret c atEof := by
  unfold post
  split_ifs
  · simp only [hpc, wake]
  · exact hpc

theorem EofInv.ok (h : s.EofInv) (hu : (s.pc t).use? = some use) : use.Ok False :=
  (h.books.calls t).use hu

theorem EofInv.allowed_go (h : s.EofInv) (hu : (s.pc t).use? ≠ none) (hcan : s.canGo t) :
    s.allowed (.go t) :=
  ⟨hcan, eq_false_iff.2 fun hg => hu (h.finished hg t)⟩

theorem EofInv.mutex_eq_none (h : s.EofInv) (hpc : s.pc t = pc) (hr : pc.reading)
    (hnot : pc.holds = false) (hat : s.atEof) : s.mutex = none := by
  subst hpc
  by_contra hm
  obtain ⟨u, hm⟩ := Option.ne_none_iff_exists'.1 hm
  have hholds := (h.holder u).2 hm
  have hwriting := h.writers (cnt_of_atEof hat) u
  have hreading := (reading_or_writing_of_holds hholds).resolve_right (by simp [hwriting])
  have hut := h.one u t hreading hr
  rw [hut, hnot] at hholds
  exact absurd hholds (by decide)

section Steps

variable [DecidableEq τ] (h : s.EofInv)
include h

variable {new after wait : PipePc} {t : τ} {use : PipeUse}

theorem EofInv.setPc (hold : (s.pc t).holds = new.holds)
    (huse : new.use? = none ∧ ((s.pc t).reading → s.ready ∨ s.sem .read = 0) ∨
      ∃ use use', (s.pc t).use? = some use ∧ new.use? = some use' ∧ use'.side = use.side)
    (hbooks : (s.setPc t new).Books False) (hfact : s.Fact new) : (s.setPc t new).EofInv := by
  refine h.turn t hbooks (fun u hu => by simp [Pipe.setPc, hu]) rfl rfl
    (by simp only [Pipe.setPc, update_self]; exact huse)
    ?_ (fun _ _ => Iff.rfl) h.sem h.posted (.inr (.of_eq rfl rfl rfl)) ?_
  · simp only [Pipe.setPc, update_self, ← hold]
    exact h.holder t
  · simp only [Pipe.setPc, update_self]
    exact hfact.mono (.of_eq rfl rfl rfl)

theorem EofInv.pass (hu : (s.pc t).use? = some use) (hnew : new.use? = some use)
    (hold : (s.pc t).holds = new.holds) (hfact : s.Fact new) : (s.setPc t new).EofInv :=
  h.setPc hold (.inr ⟨_, _, hu, hnew, rfl⟩) (h.books.setPc (.of_use hnew (h.ok hu))) hfact

theorem EofInv.loop (hu : (s.pc t).use? = some use) (hm : s.mutex = none)
    (hfact : s.Fact (.loop use)) : EofInv { s.setPc t (.loop use) with mutex := some t } := by
  refine h.turn t (h.books.loop (h.ok hu)) (fun u hut => by simp [Pipe.setPc, hut]) rfl rfl
    (.inr ⟨use, use, hu, by simp [Pipe.setPc, use?], rfl⟩)
    (by simp [Pipe.setPc, holds]) (fun u hut => by simp [hm, Ne.symm hut]) h.sem
    h.posted (.inr (.of_eq rfl rfl rfl)) ?_
  simp only [Pipe.setPc, update_self]
  exact hfact.mono (.of_eq rfl rfl rfl)

theorem EofInv.setPc_unlock (hold : (s.pc t).holds) (hnew : new.holds = false)
    (huse : new.use? = none ∧ ((s.pc t).reading → s.ready ∨ s.sem .read = 0) ∨
      ∃ use use', (s.pc t).use? = some use ∧ new.use? = some use' ∧ use'.side = use.side)
    (hok : new.Ok False) (hfact : s.Fact new) : (s.setPc t new).unlock.EofInv := by
  have hm := (h.holder t).1 hold
  refine h.turn t ((h.books.setPc hok).unlock) (fun u hu => by simp [Pipe.setPc, Pipe.unlock, hu])
    rfl rfl (by simp only [Pipe.setPc, Pipe.unlock, update_self]; exact huse)
    (by simp [Pipe.setPc, Pipe.unlock, hnew]) (fun u hut => by simp [Pipe.unlock, hm, Ne.symm hut])
    h.sem h.posted (.inr (.of_eq rfl rfl rfl)) ?_
  simp only [Pipe.setPc, Pipe.unlock, update_self]
  exact hfact.mono (.of_eq rfl rfl rfl)

theorem EofInv.locked (ht : s.pc t = .lock use) (hm : s.mutex = none) :
    (s.locked t use).EofInv := by
  have hu : (s.pc t).use? = some use := by rw [ht]; rfl
  have hf := h.facts t
  rw [ht] at hf
  cases use with
  | read =>
    simp only [Pipe.locked]
    split_ifs with he
    · exact h.pass hu rfl (by rw [ht]; rfl) hf
    · refine h.loop hu hm ⟨fun _ => by simp [Pipe.ready, he], fun heof => ?_⟩
      have := (hf.2 heof).1
      simp [atEof, he] at this
  | write => exact h.loop hu hm trivial

theorem EofInv.loopRead {c : ReadCall} (ht : s.pc t = .loop (.read c))
    (hcare : 0 < s.cnt .write → c.len - c.nread ≠ s.ring.contents.length) :
    (s.loopRead t c).EofInv := by
  have hu : (s.pc t).use? = some (.read c) := by rw [ht]; rfl
  have hreading : (s.pc t).reading := by simp [reading, hu, side]
  have hmutex : s.mutex = some t := (h.holder t).1 (by rw [ht]; rfl)
  have hf := h.fact ht
  obtain ⟨-, hlt, hlen, -⟩ := h.ok hu
  obtain ⟨hpulled, hnil, hle, hlength, hmore, hdone⟩ := h.books.pull (h.ok hu)
  simp only [Pipe.loopRead]
  split_ifs with h0 hless
  · refine h.pass hu rfl (by rw [ht]; rfl) ⟨fun hz => ?_, fun he => (hf.2 he).2⟩
    simpa [Pipe.ready, atEof, hnil.1 h0] using hf.1 hz
  all_goals
    -- a call that began at the end of the file finds nothing
    have heof : c.eof = false := by
      by_contra hc
      exact h0 (hnil.2 (isEmpty_of_atEof (hf.2 (by simpa using hc)).1))
    have hpos : 0 < (s.pull c).2.1.length := List.length_pos_iff.2 h0
  · refine h.turn t (hpulled.setPc (.of_use rfl (hmore hless)))
      (fun u hut => by simp [Pipe.setPc, Pipe.pull, hut]) rfl rfl
      (.inr ⟨_, .read (c.add (s.pull c).2.1 (s.pull c).2.2), hu, by simp [Pipe.setPc, use?], rfl⟩)
      (by simp [Pipe.setPc, Pipe.pull, holds, hmutex]) (fun _ _ => Iff.rfl) h.sem
      h.posted (.inl hreading) ?_
    simp only [Pipe.setPc, update_self]
    exact ⟨fun hz => by simp only [add] at hz; omega, fun he => by simp [add, heof] at he⟩
  · have hready : (s.pull c).1.ready := by
      simp only [Pipe.ready, decide_eq_true_eq]
      by_contra! hc
      have hnone := hpulled.valid.contents_eq_nil.2 (by simpa using hc.1)
      have hne := hcare (Nat.pos_of_ne_zero hc.2)
      simp only [hnone, List.length_nil, add] at hlength hle hless
      omega
    refine EofInv.post (h.turn t ((hpulled.setPc (hdone _)).unlock)
      (fun u hut => by simp [Pipe.setPc, Pipe.unlock, Pipe.pull, hut]) rfl rfl
      (.inl ⟨by simp [Pipe.setPc, Pipe.unlock, use?], fun _ => .inl hready⟩)
      (by simp [Pipe.setPc, Pipe.unlock, holds])
      (fun u hut => by simp [Pipe.unlock, hmutex, Ne.symm hut]) h.sem h.posted (.inl hreading) ?_)
      (by simp)
    simp only [Pipe.setPc, Pipe.unlock, update_self]
    refine ⟨fun hz => ?_, fun he => by simp [add, heof] at he⟩
    rw [int32_eq_zero (by omega)] at hz
    simp only [add] at hz
    omega

theorem EofInv.loopWrite {c : WriteCall} (ht : s.pc t = .loop (.write c)) :
    (s.loopWrite t c).EofInv := by
  have hu : (s.pc t).use? = some (.write c) := by rw [ht]; rfl
  have hmutex : s.mutex = some t := (h.holder t).1 (by rw [ht]; rfl)
  have hcnt : s.cnt .write ≠ 0 := fun hz => by
    have := h.writers hz t
    simp [writing, hu, side] at this
  obtain ⟨hpushed, hnil, hcontents, hmore, hdone⟩ := h.books.push (h.ok hu)
  simp only [Pipe.loopWrite]
  split_ifs with h0 hless
  · refine EofInv.post (h.pass hu rfl (by rw [ht]; rfl) trivial) fun _ => ?_
    have hfull := hnil.1 h0
    simp only [PipeRing.isFull, decide_eq_true_eq] at hfull
    simp [Pipe.ready, Pipe.setPc, PipeRing.isEmpty, hfull]
  all_goals
    -- there is something to read now, and there was a writer before
    have hready : (s.push c).1.ready := by
      have hne : (s.push c).1.ring.contents ≠ [] := by simp [hcontents, h0]
      have := mt hpushed.valid.contents_eq_nil.2 hne
      simp [Pipe.ready, this]
    have hgrows : s.Grows (s.push c).1 :=
      ⟨fun _ => hready, fun hat => by simp [atEof, hcnt] at hat, fun _ => id, id⟩
  · refine h.turn t (hpushed.setPc (.of_use rfl (hmore hless)))
      (fun u hut => by simp [Pipe.setPc, Pipe.push, hut]) rfl rfl
      (.inr ⟨_, .write (c.add (s.push c).2), hu, by simp [Pipe.setPc, use?], rfl⟩)
      (by simp [Pipe.setPc, Pipe.push, holds, hmutex]) (fun _ _ => Iff.rfl) h.sem
      h.posted (.inr ⟨hgrows.ready, hgrows.atEof, hgrows.sem_zero, hgrows.sem_pos⟩) ?_
    simp only [Pipe.setPc, update_self]
    trivial
  · refine EofInv.post (h.turn t ((hpushed.setPc hdone).unlock)
      (fun u hut => by simp [Pipe.setPc, Pipe.unlock, Pipe.push, hut]) rfl rfl
      (.inl ⟨by simp [Pipe.setPc, Pipe.unlock, use?], fun _ => .inl hready⟩)
      (by simp [Pipe.setPc, Pipe.unlock, holds])
      (fun u hut => by simp [Pipe.unlock, hmutex, Ne.symm hut]) h.sem h.posted
      (.inr ⟨hgrows.ready, hgrows.atEof, hgrows.sem_zero, hgrows.sem_pos⟩) ?_) fun _ => hready
    simp only [Pipe.setPc, Pipe.unlock, update_self]
    trivial

theorem EofInv.closed {side : PipeSide} (ht : s.pc t = .closing side) (hm : s.mutex = none)
    (hw : s.cnt .write ≤ 1 → side = .write → ∀ u, (s.pc u).writing = false)
    (hlast : s.cnt .read + s.cnt .write ≤ 1 → ∀ u, (s.pc u).use? = none) :
    (s.closed t side).EofInv := by
  simp only [Pipe.closed]
  set cnt := update s.cnt side (s.cnt side - 1) with hcnt
  have hwrite : cnt .write ≤ s.cnt .write := by
    rw [hcnt]
    cases side <;> simp
  set base : Pipe τ :=
    { s.setPc t .idle with cnt := cnt, gone := cnt .read + cnt .write = 0 } with hbase
  have hgrows : s.Grows base := by
    refine ⟨fun hr => ?_, fun hat => ?_, fun _ => id, id⟩
    · simp only [Pipe.ready, decide_eq_true_eq] at hr ⊢
      exact hr.imp_right fun hz => Nat.eq_zero_of_le_zero (hwrite.trans_eq hz)
    · simp only [atEof, decide_eq_true_eq] at hat ⊢
      exact hat.imp_right fun hz => Nat.eq_zero_of_le_zero (hwrite.trans_eq hz)
  have hidle : (s.setPc t .idle).Books False := h.books.setPc (by simp [PipePc.Ok, use?])
  have hinv : base.EofInv := by
    refine h.move t ⟨hidle.valid, hidle.size, hidle.stream, hidle.calls⟩
      (fun u hut => by simp [hbase, Pipe.setPc, hut])
      (by simp [hbase, Pipe.setPc, hm, holds]) (fun _ _ => Iff.rfl)
      (fun hr => by simp [hbase, Pipe.setPc, reading, use?] at hr)
      (fun hz => ⟨by simp [hbase, Pipe.setPc, writing, use?], fun u _ => ?_⟩)
      (fun hg => ⟨by simp [hbase, Pipe.setPc, use?], fun u _ => ?_⟩) h.sem
      (fun hr => by simp [ht, reading, use?] at hr) h.posted (.inr hgrows)
      (by simp [hbase, Pipe.setPc, Fact])
    · have hz : cnt .write = 0 := hz
      cases side with
      | read => exact h.writers (by simpa [hcnt] using hz) u
      | write => exact hw (by simp [hcnt] at hz; omega) rfl u
    · have hz : cnt .read + cnt .write = 0 := by simpa [hbase] using hg
      refine hlast ?_ u
      cases side <;> simp [hcnt] at hz <;> omega
  have hready : cnt .write = 0 → base.ready := fun hz => by simp [Pipe.ready, hbase, hz]
  split_ifs with hz
  · have hpost : (base.post .write).EofInv := hinv.post (by simp)
    exact hpost.posted_post ((ready_post base _).trans (hready hz))
  · exact hinv.posted_post (hready hz)
  · exact hinv.post (by simp)
  · exact hinv

/-- `LOS_SemPend`. The reader that takes a count is the only one. -/
theorem EofInv.semPend (hu : (s.pc t).use? = some use)
    (hafter : after.use? = some use) (hwait : wait.use? = some use)
    (hholds : (s.pc t).holds = after.holds ∧ (s.pc t).holds = wait.holds)
    (hfact : 0 < s.sem use.side → s.Fact after) (hfact' : s.sem use.side = 0 → s.Fact wait)
    (hindep : ∀ s' : Pipe τ, s'.ring = s.ring → s'.cnt = s.cnt → s.Fact after → s'.Fact after) :
    (s.semPend t use.side after wait).EofInv := by
  unfold Pipe.semPend
  split_ifs with hpos
  · have hbooks := h.books.setPc (t := t) (.of_use hafter (h.ok hu))
    refine h.turn t ⟨hbooks.valid, hbooks.size, hbooks.stream, hbooks.calls⟩
      (fun u hut => by simp [Pipe.setPc, hut]) rfl rfl
      (.inr ⟨use, use, hu, by simp [Pipe.setPc, hafter], rfl⟩) ?_ (fun _ _ => Iff.rfl) ?_ ?_ ?_
      ?_
    · simp only [Pipe.setPc, update_self, ← hholds.1]
      exact h.holder t
    · have := h.sem
      cases use <;> simp [side] <;> omega
    · cases use with
      | read => simp [side]
      | write => simpa [side] using h.posted
    · cases use with
      | read => exact .inl (by simp [reading, hu, side])
      | write => exact .inr (.of_eq rfl rfl (by simp [side]))
    · simp only [Pipe.setPc, update_self]
      exact hindep _ rfl rfl (hfact hpos)
  · exact h.pass hu hwait hholds.2 (hfact' (by omega))

theorem EofInv.pend (ht : s.pc t = .pend use) :
    (s.semPend t use.side (.relock use) (.wait use)).EofInv := by
  have hf := h.fact ht
  refine h.semPend (by rw [ht]; rfl) rfl rfl (by rw [ht]; exact ⟨rfl, rfl⟩) ?_ ?_ ?_
  · intro hpos
    cases use with
    | read =>
      refine ⟨fun hz => ?_, fun he => ⟨(hf.2 he).1, (hf.2 he).2.1⟩⟩
      by_contra hr
      have := hf.1 hz (by simpa using hr)
      simp only [side] at hpos
      omega
    | write => trivial
  · intro hzero
    cases use with
    | read c =>
      show c.eof = false
      by_contra he
      have := (hf.2 (by simpa using he)).2.2
      simp only [side] at hzero
      omega
    | write => trivial
  · intro s' hring hcnt hrelock
    cases use with
    | read => simpa [Fact, Pipe.ready, atEof, hring, hcnt] using hrelock
    | write => trivial

theorem EofInv.drainPend (ht : s.pc t = .drainPend use) :
    (s.semPend t use.side (.drain use) (.drainWait use)).EofInv := by
  have hf := h.fact ht
  refine h.semPend (by rw [ht]; rfl) rfl rfl (by rw [ht]; exact ⟨rfl, rfl⟩) ?_ ?_ ?_
  · intro _
    cases use with
    | read => exact ⟨hf.1, hf.2.1⟩
    | write => trivial
  · intro hzero
    cases use with
    | read =>
      have := hf.2.2
      simp only [side] at hzero
      omega
    | write => trivial
  · intro s' hring hcnt hdrain
    cases use with
    | read => simpa [Fact, atEof, hring, hcnt] using hdrain
    | write => trivial

theorem EofInv.fail (hop : s.canFail t) : (s.fail t).EofInv := by
  have hf := h.facts t
  unfold Pipe.canFail at hop
  unfold Pipe.fail
  cases hpc : s.pc t with
  | pend use =>
    rw [hpc] at hop hf
    cases use with
    | read =>
      have hzero : s.sem .read = 0 := of_decide_eq_true hop
      refine h.setPc (by rw [hpc]; rfl) (.inl ⟨rfl, fun _ => .inr hzero⟩)
        (h.books.setPc fun hret => absurd hret (by decide)) ?_
      refine ⟨nofun, fun he => ?_⟩
      have hpos := (hf.2 he).2.2
      omega
    | write =>
      exact h.setPc (by rw [hpc]; rfl)
        (.inl ⟨rfl, fun hr => by simp [hpc, reading, use?, side] at hr⟩)
        (h.books.setPc fun hret => absurd hret (by decide)) trivial
  | drainPend use =>
    have hu : (s.pc t).use? = some use := by rw [hpc]; rfl
    rw [hpc] at hf
    refine h.pass hu rfl (by rw [hpc]; rfl) ?_
    cases use with
    | read => exact ⟨hf.1, hf.2.1⟩
    | write => trivial
  | _ => simp [hpc] at hop

theorem EofInv.call (hrest : (s.pc t).atRest) (hgone : s.gone = false)
    (hnew : new.holds = false) (hreading : new.reading → ∀ u, (s.pc u).reading = false)
    (hwriting : s.cnt .write = 0 → new.writing = false) (hok : new.Ok False) (hfact : s.Fact new) :
    (s.setPc t new).EofInv := by
  have hholds : (s.pc t).holds = false ∧ (s.pc t).reading = false := by
    cases hpc : s.pc t <;> simp_all [atRest, holds, reading, use?]
  have hmutex : s.mutex ≠ some t := by
    rw [Ne, ← h.holder t, hholds.1]
    decide
  refine h.move t (h.books.setPc hok) (fun u hut => by simp [Pipe.setPc, hut])
    (by simp [Pipe.setPc, hnew, hmutex]) (fun _ _ => Iff.rfl)
    (fun hr => .inr (hreading (by simpa [Pipe.setPc] using hr)))
    (fun hz => ⟨by simpa [Pipe.setPc] using hwriting hz, fun u _ => h.writers hz u⟩)
    (fun hg => absurd (hg.symm.trans hgone) (by decide)) h.sem (fun hr => by simp [hholds.2] at hr)
    h.posted (.inr (.of_eq rfl rfl rfl)) ?_
  simp only [Pipe.setPc, update_self]
  exact hfact.mono (.of_eq rfl rfl rfl)

variable [Fintype τ]

omit [DecidableEq τ] in
theorem EofInv.pipeWriterIsWaiting_eq_false (hat : s.atEof) : s.pipeWriterIsWaiting = false := by
  by_contra hw
  simp only [pipeWriterIsWaiting, not_eq_false, decide_eq_true_eq] at hw
  obtain ⟨u, hwaits⟩ := hw.2
  have hnot := h.writers (cnt_of_atEof hat) u
  simp [writing_of_waits hwaits] at hnot

theorem EofInv.drained (ht : s.pc t = .drain use) (hsem : s.sem use.side = 0) :
    (s.drained t use).EofInv := by
  have hu : (s.pc t).use? = some use := by rw [ht]; rfl
  have hholds : (s.pc t).holds := by rw [ht]; rfl
  cases use with
  | read c =>
    have hf := h.fact ht
    obtain ⟨hgot, hlt, hlen, -⟩ := h.ok hu
    have hdone : PipePc.Ok False (.readDone (int32 c.nread) c s.atEof) := fun hret => by
      rw [int32_of_nonneg (by omega) hret]
      exact ⟨by exact_mod_cast hgot, nofun⟩
    simp only [Pipe.drained]
    split_ifs with hwait
    · -- a writer waits, so this is not the end of the file
      have hnread : c.nread ≠ 0 := fun hz => by
        simp [h.pipeWriterIsWaiting_eq_false (hf.1 hz)] at hwait
      have hpend : s.Fact (.pend (.read c)) :=
        ⟨fun hz => absurd hz hnread, fun he => absurd (hf.2 he) hnread⟩
      exact (h.setPc_unlock hholds rfl (.inr ⟨_, _, hu, rfl, rfl⟩) (.of_use rfl (h.ok hu))
        hpend).post nofun
    · refine (h.setPc_unlock hholds rfl (.inl ⟨rfl, fun _ => .inr hsem⟩) hdone ?_).post nofun
      refine ⟨fun hz => ?_, fun he => ?_⟩
      · exact hf.1 ((int32_eq_zero (by omega)).1 hz)
      · rw [int32_eq_zero (by omega)]
        exact hf.2 he
  | write =>
    exact h.setPc_unlock hholds rfl (.inr ⟨_, _, hu, rfl, rfl⟩) (.of_use rfl (h.ok hu)) trivial

theorem EofInv.go (hcan : s.canGo t) (hcare : s.Orderly (.go t)) : (s.go t).EofInv := by
  have hf := h.facts t
  unfold Pipe.canGo at hcan
  unfold Pipe.go
  cases hpc : s.pc t with
  | lock =>
    rw [hpc] at hcan
    exact h.locked hpc (by simpa using hcan)
  | relock use =>
    rw [hpc] at hcan hf
    refine h.loop (by rw [hpc]; rfl) (by simpa using hcan) ?_
    cases use with
    | read => exact hf
    | write => trivial
  | loop use =>
    cases use with
    | read => exact h.loopRead hpc (by simpa only [Orderly, hpc] using hcare)
    | write => exact h.loopWrite hpc
  | drain use =>
    have hu : (s.pc t).use? = some use := by rw [hpc]; rfl
    simp only
    split_ifs with hsem
    · refine h.pass hu rfl (by rw [hpc]; rfl) ?_
      rw [hpc] at hf
      cases use with
      | read => exact ⟨hf.1, hf.2, Nat.pos_of_ne_zero hsem⟩
      | write => trivial
    · exact h.drained hpc (not_ne_iff.1 hsem)
  | drainPend => exact h.drainPend hpc
  | pend => exact h.pend hpc
  | closing side =>
    rw [hpc] at hcan
    obtain ⟨hw, hlast⟩ := by simpa only [Orderly, hpc] using hcare
    exact h.closed hpc (by simpa using hcan) hw hlast
  | _ => simp [hpc] at hcan

theorem EofInv.step {op : Op τ} (hop : s.allowed op) (hcare : s.Orderly op) :
    (s.step op).EofInv := by
  cases op with
  | read =>
    obtain ⟨hlen, hnone, hposted⟩ := hcare
    simp only [Pipe.step, pipeRead, if_neg hlen.ne']
    refine h.call hop.1 hop.2.1 rfl (fun _ => hnone) (fun _ => rfl) ?_ ?_
    · exact .of_use rfl ⟨rfl, hlen, hop.2.2.2, by simp⟩
    · exact ⟨fun _ => h.quiet hnone, fun he => ⟨he, rfl, h.posted (hposted he)⟩⟩
  | write =>
    simp only [Pipe.step, pipeWrite]
    split_ifs with h0
    · exact h.call hop.1 hop.2.1 rfl (fun hr => by simp [reading, use?] at hr)
        (fun _ => rfl) (fun hret => absurd hret (by decide)) trivial
    · refine h.call hop.1 hop.2.1 rfl
        (fun hr => by simp [reading, use?, side] at hr)
        (fun hz => absurd hz hcare.ne') (.of_use rfl ⟨rfl, List.length_pos_iff.2 h0, hop.2.2.2⟩)
        trivial
  | close t side =>
    have hclosing : (s.setPc t (.closing side)).EofInv := h.call hop.1 hop.2.1 rfl
      (fun hr => by simp [reading, use?] at hr) (fun _ => rfl)
      (by simp [PipePc.Ok, use?])
      trivial
    exact ⟨⟨hclosing.books.valid, hclosing.books.size, hclosing.books.stream,
      hclosing.books.calls⟩, hclosing.holder, hclosing.one, hclosing.writers, hclosing.finished,
      hclosing.sem, hclosing.quiet, hclosing.posted,
      fun u => (hclosing.facts u).mono (.of_eq rfl rfl rfl)⟩
  | go => exact h.go hop.1 hcare
  | fail => exact h.fail hop.1

end Steps

section Answers

variable [DecidableEq τ] [Fintype τ]

/-- By its own steps alone, all of which it can take, the task comes to return 0. -/
def ReturnsZero (s : Pipe τ) (t : τ) : Prop :=
  ∃ k, machine.Runs s (List.replicate k (.go t)) ∧
    ∃ c, (machine.run s (List.replicate k (.go t))).pc t = .readDone 0 c true

/-- The answer 0 means that the ring is empty and no write descriptor is open; and a call that
begins then returns 0 without waiting for anybody. -/
structure EofSound (s : Pipe τ) : Prop where
  zero : ∀ t c atEof, s.pc t = .readDone 0 c atEof → atEof
  answer : ∀ t ret c atEof, s.pc t = .readDone ret c atEof → c.eof → ret = 0
  returns : ∀ t c, (s.pc t).use? = some (.read c) → c.eof → s.ReturnsZero t

theorem ReturnsZero.of_go (hop : s.allowed (.go t)) (h : (s.go t).ReturnsZero t) :
    s.ReturnsZero t := by
  obtain ⟨k, hruns, hdone⟩ := h
  exact ⟨k + 1, ⟨hop, hruns⟩, hdone⟩

variable (h : s.EofInv)
include h

theorem EofInv.returnsZero_go (hpc : s.pc t = pc) (hu : pc.use? ≠ none) (hat : s.atEof)
    (hcan : s.canGo t) (hgo : (s.go t).EofInv → (s.go t).ReturnsZero t) : s.ReturnsZero t := by
  subst hpc
  exact .of_go (h.allowed_go hu hcan) (hgo (h.go hcan (orderly_go hu (cnt_of_atEof hat))))

variable {c : ReadCall}

theorem EofInv.returnsZero_drain_zero (hpc : s.pc t = .drain (.read c)) (he : c.eof)
    (hsem : s.sem .read = 0) : s.ReturnsZero t := by
  have hf := h.fact hpc
  have hnread := hf.2 he
  have hat := hf.1 hnread
  have hwait := h.pipeWriterIsWaiting_eq_false hat
  refine h.returnsZero_go hpc nofun hat (by simp [canGo, hpc]) fun _ => ⟨0, trivial, c, ?_⟩
  have hgo : s.go t = (s.setPc t (.readDone 0 c true)).unlock.post .write := by
    simp [Pipe.go, hpc, side, hsem, Pipe.drained, hwait, hat, hnread, int32]
  rw [hgo]
  exact pc_post_of_done (by simp [Pipe.setPc, Pipe.unlock]) .write

theorem EofInv.returnsZero_drainPend (hpc : s.pc t = .drainPend (.read c)) (he : c.eof) :
    s.ReturnsZero t := by
  have hf := h.fact hpc
  have hle := h.sem
  have hpos := hf.2.2
  refine h.returnsZero_go hpc nofun (hf.1 (hf.2.1 he)) (by simp [canGo, hpc]) fun hs =>
    hs.returnsZero_drain_zero ?_ he ?_
  · simp [Pipe.go, hpc, side, Pipe.semPend, hpos, Pipe.setPc]
  · simp only [Pipe.go, hpc, side, Pipe.semPend, hpos, if_true, update_self]
    omega

theorem EofInv.returnsZero_drain (hpc : s.pc t = .drain (.read c)) (he : c.eof) :
    s.ReturnsZero t := by
  have hf := h.fact hpc
  by_cases hsem : s.sem .read = 0
  · exact h.returnsZero_drain_zero hpc he hsem
  · refine h.returnsZero_go hpc nofun (hf.1 (hf.2 he)) (by simp [canGo, hpc]) fun hs =>
      hs.returnsZero_drainPend ?_ he
    simp [Pipe.go, hpc, side, hsem, Pipe.setPc]

theorem EofInv.returnsZero_loop (hpc : s.pc t = .loop (.read c)) (he : c.eof) :
    s.ReturnsZero t := by
  have hu : (s.pc t).use? = some (.read c) := by rw [hpc]; rfl
  have hf := h.fact hpc
  have hnil := (h.books.pull (h.ok hu)).2.1.2 (isEmpty_of_atEof (hf.2 he).1)
  refine h.returnsZero_go hpc nofun (hf.2 he).1 (by simp [canGo, hpc]) fun hs =>
    hs.returnsZero_drain ?_ he
  simp [Pipe.go, hpc, Pipe.loopRead, hnil, Pipe.setPc]

theorem EofInv.returnsZero_relock (hpc : s.pc t = .relock (.read c)) (he : c.eof) :
    s.ReturnsZero t := by
  have hf := h.fact hpc
  have hm := h.mutex_eq_none hpc rfl rfl (hf.2 he).1
  refine h.returnsZero_go hpc nofun (hf.2 he).1 (by simp [canGo, hpc, hm]) fun hs =>
    hs.returnsZero_loop ?_ he
  simp [Pipe.go, hpc, Pipe.setPc]

theorem EofInv.returnsZero_pend (hpc : s.pc t = .pend (.read c)) (he : c.eof) :
    s.ReturnsZero t := by
  have hf := h.fact hpc
  have hpos := (hf.2 he).2.2
  refine h.returnsZero_go hpc nofun (hf.2 he).1 (by simp [canGo, hpc]) fun hs =>
    hs.returnsZero_relock ?_ he
  simp [Pipe.go, hpc, side, Pipe.semPend, hpos, Pipe.setPc]

theorem EofInv.returnsZero_lock (hpc : s.pc t = .lock (.read c)) (he : c.eof) :
    s.ReturnsZero t := by
  have hf := h.fact hpc
  have hat := (hf.2 he).1
  have hm := h.mutex_eq_none hpc rfl rfl hat
  refine h.returnsZero_go hpc nofun hat (by simp [canGo, hpc, hm]) fun hs =>
    hs.returnsZero_pend ?_ he
  simp [Pipe.go, hpc, Pipe.locked, isEmpty_of_atEof hat, Pipe.setPc]

theorem EofInv.eofSound : s.EofSound := by
  refine ⟨fun t c atEof hpc => ?_, fun t ret c atEof hpc => ?_, fun t c hu he => ?_⟩
  · exact (hpc ▸ h.facts t : s.Fact (.readDone 0 c atEof)).1 rfl
  · exact (hpc ▸ h.facts t : s.Fact (.readDone ret c atEof)).2
  · have hf := h.facts t
    cases hpc : s.pc t <;> rw [hpc] at hf hu <;>
      simp only [use?, Option.some.injEq, reduceCtorEq] at hu <;> subst hu
    · exact h.returnsZero_lock hpc he
    · exact h.returnsZero_pend hpc he
    · have hno : c.eof = false := hf
      simp [hno] at he
    · exact h.returnsZero_relock hpc he
    · exact h.returnsZero_loop hpc he
    · exact h.returnsZero_drain hpc he
    · exact h.returnsZero_drainPend hpc he
    · exact hf.elim

end Answers

variable [DecidableEq τ] [Fintype τ]

/-- In an orderly run the answer 0 means the end of the file, and there every read answers 0
without blocking. -/
theorem eofSound_of_orderly (h : ((machine (τ := τ)).restrict Orderly).Reaches s) : s.EofSound := by
  have hinv : s.EofInv := by
    refine h.invariant ?_ fun s op hs hop => hs.step hop.1 hop.2
    rintro _ ⟨n, rfl⟩
    exact ⟨.init ⟨n, rfl⟩, by simp [PipePc.holds], by simp [PipePc.reading, PipePc.use?],
      by simp [PipePc.writing, PipePc.use?], by simp, by simp, fun _ _ => rfl, nofun,
      fun _ => trivial⟩
  exact hinv.eofSound

instance (s : Pipe τ) (op) : Decidable (s.Orderly op) := by
  induction op using Op.casesOn with
  | go t =>
    dsimp only [Orderly]
    induction s.pc t using PipePc.casesOn with
    | loop use => induction use using PipeUse.casesOn <;> infer_instance
    | _ => infer_instance
  | _ => unfold Orderly; infer_instance

/-- A reader waits and gets what is written. Then the write end is closed, and the next read answers
0. -/
theorem eofSound_of_orderly_closed : ∃ s : Pipe (Fin 2), (machine.restrict Orderly).Reaches s ∧
    s.pc 0 = .readDone 0 ⟨4, 0, [], [], true⟩ true ∧ s.EofSound := by
  have hr := Machine.Reaches.run (M := (machine (τ := Fin 2)).restrict Orderly)
    (.start ⟨fun _ => 1, rfl⟩)
    [.read 0 4, .go 0, .go 0, .write 1 [7, 8], .go 1, .go 1, .go 0, .go 0, .go 0, .go 0, .go 0,
      .go 0, .close 1 .write, .go 1, .read 0 4, .go 0, .go 0, .go 0, .go 0, .go 0]
    (by decide +kernel)
  exact ⟨_, hr, by decide +kernel, eofSound_of_orderly hr⟩

/-- Two bytes are written and read. The write left a count of `readSem`, so the next read answers 0
though the write end is open. After the write end was closed, the first read answers 0 and the
second one blocks. -/
theorem zero_with_writer_and_blocked_at_eof :
    (∃ s : Pipe (Fin 2), machine.Reaches s ∧ s.cnt .write = 1 ∧
      s.pc 0 = .readDone 0 ⟨4, 0, [], [], false⟩ false) ∧
    ∃ s : Pipe (Fin 2), machine.Reaches s ∧ s.atEof = true ∧
      s.pc 0 = .wait (.read ⟨4, 0, [], [], true⟩) := by
  have hzero := Machine.Reaches.run (M := machine (τ := Fin 2)) (.start ⟨fun _ => 1, rfl⟩)
    [.write 1 [7, 8], .go 1, .go 1, .read 0 2, .go 0, .go 0, .read 0 4, .go 0, .go 0, .go 0, .go 0,
      .go 0]
    (by decide +kernel)
  have hblocked := Machine.Reaches.run (M := machine (τ := Fin 2)) (.start ⟨fun _ => 1, rfl⟩)
    [.close 1 .write, .go 1, .read 0 4, .go 0, .go 0, .go 0, .go 0, .go 0, .read 0 4, .go 0, .go 0]
    (by decide +kernel)
  exact ⟨⟨_, hzero, by decide +kernel⟩,
    ⟨_, hblocked, by decide +kernel⟩⟩

end Pipe

end LiteOS.Posix
