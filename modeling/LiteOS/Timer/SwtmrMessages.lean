import LiteOS.Timer.SwtmrIds

/-!
# Messages of expired timers

`OsSwtmrScan` tells the timer task of an expiry by a message in the handler queue, and the timer
task calls the handler when it gets to the message. A message is lost when the queue is full, and a
message that is in the queue already is not withdrawn when its timer is stopped.
-/

namespace LiteOS.Timer

open Lib Kernel Swtmrs Function Swtmrs List Nat

/-- The software timers and the timer task; `calling` is the message whose handler it is about to
call. Not in the source: how many expiries of a one-shot timer since it was last stopped or deleted
still have to be reported, and which timers have been stopped and not started again. -/
structure SwtmrRun where
  swtmrs : Swtmrs
  calling : Option SwtmrHandlerItem := none
  owed : ℕ → ℕ := fun _ => 0
  silent : ℕ → Bool := fun _ => false

inductive SwtmrRunOp
  | swtmr (op : SwtmrOp)
  | handlerCall
deriving DecidableEq

namespace SwtmrRun

section

variable (c : SwtmrConfig) (r : SwtmrRun)

/-- The identifiers of the one-shot timers that expire in a scan. -/
def scanExpired (c : SwtmrConfig) (currTime : ℕ) : ℕ → Swtmrs → List ℕ
  | 0, _ => []
  | fuel + 1, s =>
    match s.sortLink with
    | [] => []
    | t :: _ =>
      if (s.cbArray t).responseTime ≤ currTime then
        (if (s.cbArray t).ucMode = .period then [] else [(s.cbArray t).usTimerID]) ++
          scanExpired c currTime fuel (s.expire c t)
      else []

/-- The message that the timer task is about to call the handler of. -/
def callingAfter : SwtmrOp → Option SwtmrHandlerItem
  | .swtmrTaskHandle => r.swtmrs.handling.bind fun item =>
      if r.swtmrs.Accepts c item then some item else none
  | _ => r.calling

/-- The expiries still to be reported. When the timer task deletes a one-shot timer, only the
expiry whose handler it calls is left. -/
def owedAfter : SwtmrOp → ℕ → ℕ
  | .swtmrStop swtmrId =>
    if (r.swtmrs.losSwtmrStop c swtmrId).2 = .ok then update r.owed swtmrId 0 else r.owed
  | .swtmrDelete swtmrId =>
    if (r.swtmrs.losSwtmrDelete c swtmrId).2 = .ok then update r.owed swtmrId 0
    else r.owed
  | .swtmrScan currTime => fun x => r.owed x +
      (scanExpired c currTime (r.swtmrs.due currTime) r.swtmrs).count x
  | .swtmrTaskHandle =>
    match r.swtmrs.deletes c .swtmrTaskHandle with
    | none => r.owed
    | some x => update r.owed x (min (r.owed x) 1)
  | _ => r.owed

/-- The timers that have been stopped, other than those that the timer task deletes. -/
def silentAfter : SwtmrOp → ℕ → Bool
  | .swtmrStart swtmrId _ => update r.silent swtmrId false
  | .swtmrStop swtmrId =>
    if (r.swtmrs.losSwtmrStop c swtmrId).2 = .ok ∧
        (r.swtmrs.cbArray (swtmrId % c.swtmrLimit)).ucMode ≠ .once then
      update r.silent swtmrId true
    else r.silent
  | _ => r.silent

def exec : SwtmrRunOp → SwtmrRun
  | .swtmr op =>
    { swtmrs := r.swtmrs.exec c op
      calling := r.callingAfter c op
      owed := r.owedAfter c op
      silent := r.silentAfter c op }
  | .handlerCall =>
    { r with
      calling := none
      owed := match r.calling with
        | none => r.owed
        | some item => update r.owed item.swtmrID (r.owed item.swtmrID - 1) }

/-- When an operation can come. The timer task does one thing after the other. -/
def Enabled : SwtmrRunOp → Prop
  | .swtmr op => Swtmrs.Enabled c r.swtmrs op ∧
      (op = .swtmrTaskRead ∨ op = .swtmrTaskHandle → r.calling = none)
  | .handlerCall => r.calling ≠ none

/-- Runs after `OsSwtmrInit` -/
def machine : Machine SwtmrRun SwtmrRunOp where
  init r := r = { swtmrs := osSwtmrInit c }
  allowed := Enabled c
  step := exec c

instance (c : SwtmrConfig) (s : Swtmrs) (op : SwtmrOp) : Decidable (Swtmrs.Enabled c s op) :=
  inferInstanceAs (Decidable ((Swtmrs.machine c).allowed s op))

instance (c : SwtmrConfig) (r : SwtmrRun) (op : SwtmrRunOp) :
    Decidable ((machine c).allowed r op) := by
  cases op <;> unfold machine Enabled <;> infer_instance

/-- The messages that the timer task has not called the handler of. -/
def messages : List SwtmrHandlerItem := r.swtmrs.expiries ++ r.calling.toList

def reports (l : List SwtmrHandlerItem) (x : ℕ) : ℕ := l.countP fun item => item.swtmrID = x

structure Lossless (c : SwtmrConfig) (r : SwtmrRun) : Prop where
  owed : ∀ x, r.owed x ≤ reports r.messages x
  ticking : ∀ t < c.swtmrLimit, (r.swtmrs.cbArray t).ucState = .ticking →
    t ∈ r.swtmrs.sortLink ∨
      ∃ item ∈ r.swtmrs.expiries, item.swtmrID = (r.swtmrs.cbArray t).usTimerID

def dueTimes (cb : SwtmrCB) (currTime : ℕ) : ℕ :=
  if cb.responseTime ≤ currTime then
    if cb.ucMode = .period then
      (currTime - cb.responseTime) / c.sysTickToCycle cb.uwInterval + 1
    else 1
  else 0

def dueExpiries (s : Swtmrs) (currTime : ℕ) : ℕ :=
  (s.sortLink.map fun t => dueTimes c (s.cbArray t) currTime).sum

/-- The handler queue has room for the expiries of a scan; and timers are started again only when
their expiries have been handled. -/
def Roomy : SwtmrRunOp → Prop
  | .swtmr (.swtmrScan currTime) =>
      r.swtmrs.handlerQueue.length + dueExpiries c r.swtmrs currTime ≤ c.handleQueueSize
  | .swtmr op => Prompt c r.swtmrs op
  | .handlerCall => True

instance (c : SwtmrConfig) (r : SwtmrRun) (op : SwtmrRunOp) : Decidable (Roomy c r op) := by
  unfold Roomy
  split <;> infer_instance

/-- A timer is stopped only when no message of it is on its way; and timers are started again only
when their expiries have been handled. -/
def Drained : SwtmrRunOp → Prop
  | .swtmr (.swtmrStop swtmrId) => ∀ item ∈ r.messages, item.swtmrID ≠ swtmrId
  | .swtmr op => Prompt c r.swtmrs op
  | .handlerCall => True

end

instance (c : SwtmrConfig) (r : SwtmrRun) (op : SwtmrRunOp) : Decidable (Drained c r op) := by
  unfold Drained
  split <;> infer_instance

variable {c : SwtmrConfig} {r r' : SwtmrRun} {s s' : Swtmrs} {op : SwtmrOp} {t u x n arg : ℕ}
  {l l' rest : List ℕ} {hasRet : Bool} {handler : Option ℕ} {mode : Option SwtmrMode}

/-! ## What calls do to timers and messages -/

theorem losSwtmrStart_cases (c : SwtmrConfig) (s : Swtmrs) (x currTime : ℕ) :
    (∃ e, e ≠ .ok ∧ s.losSwtmrStart c x currTime = (s, e)) ∨
    (x < c.maxTimerID ∧ (s.cbArray (x % c.swtmrLimit)).usTimerID = x ∧
      (s.cbArray (x % c.swtmrLimit)).ucState ≠ .unused ∧
      ∃ s₁, (s₁ = s ∨ s₁ = s.osSwtmrStop (x % c.swtmrLimit)) ∧
        s.losSwtmrStart c x currTime = ((s₁.modifyCB (x % c.swtmrLimit) fun cb =>
          { cb with startTime := currTime }).osSwtmrStart c (x % c.swtmrLimit), .ok)) := by
  simp only [losSwtmrStart]
  cases hfind : s.findCB c x with
  | error e => exact .inl ⟨e, findCB_error hfind, rfl⟩
  | ok =>
    obtain ⟨hlt, rfl, hid⟩ := findCB_ok hfind
    dsimp only
    cases hstate : (s.cbArray (x % c.swtmrLimit)).ucState with
    | unused => exact .inl ⟨_, by simp, rfl⟩
    | ticking => exact .inr ⟨hlt, hid, by simp, _, .inr rfl, rfl⟩
    | created => exact .inr ⟨hlt, hid, by simp, _, .inl rfl, rfl⟩

theorem losSwtmrStop_cases (c : SwtmrConfig) (s : Swtmrs) (x : ℕ) :
    (∃ e, e ≠ .ok ∧ s.losSwtmrStop c x = (s, e)) ∨ ((s.cbArray (x % c.swtmrLimit)).usTimerID = x ∧
      (s.cbArray (x % c.swtmrLimit)).ucState = .ticking ∧
      s.losSwtmrStop c x = (s.osSwtmrStop (x % c.swtmrLimit), .ok)) := by
  simp only [losSwtmrStop]
  cases hfind : s.findCB c x with
  | error e => exact .inl ⟨e, findCB_error hfind, rfl⟩
  | ok =>
    obtain ⟨-, rfl, hid⟩ := findCB_ok hfind
    dsimp only
    cases hstate : (s.cbArray (x % c.swtmrLimit)).ucState with
    | unused => exact .inl ⟨_, by simp, rfl⟩
    | ticking => exact .inr ⟨hid, rfl, rfl⟩
    | created => exact .inl ⟨_, by simp, rfl⟩

theorem mem_osSwtmrStop (hu : u ≠ t) : u ∈ (s.osSwtmrStop t).sortLink ↔ u ∈ s.sortLink := by
  simp only [osSwtmrStop, osDeleteSortLink]
  split_ifs
  · exact mem_erase_of_ne hu
  · rfl

theorem osSwtmrStop_cbArray_of_ne (hu : u ≠ t) : (s.osSwtmrStop t).cbArray u = s.cbArray u := by
  simp only [osSwtmrStop, osDeleteSortLink]
  split_ifs <;> simp [osDeleteNodeSortLink, hu]

theorem mem_osSwtmrStart : u ∈ (s.osSwtmrStart c t).sortLink ↔ u = t ∨ u ∈ s.sortLink := by
  simp only [osSwtmrStart, osAdd2SortLink]
  rw [(osAddNode2SortLink_perm _ _ _).mem_iff, mem_cons]
  rfl

theorem osSwtmrStart_ucState : ((s.osSwtmrStart c t).cbArray u).ucState =
    if u = t then .ticking else (s.cbArray u).ucState := by
  split_ifs with hu
  · subst hu
    simp [osSwtmrStart, osAdd2SortLink]
  · simp [osSwtmrStart, osAdd2SortLink, hu]

def report (cb : SwtmrCB) : SwtmrHandlerItem := ⟨cb.pfnHandler, cb.uwArg, cb.usTimerID⟩

theorem osSwtmrTimeoutHandle_queue : (s.osSwtmrTimeoutHandle c t).handlerQueue =
      (s.queueWriteCopy c (report (s.cbArray t))).handlerQueue ∧
    (s.osSwtmrTimeoutHandle c t).handling =
      (s.queueWriteCopy c (report (s.cbArray t))).handling := by
  simp only [osSwtmrTimeoutHandle]
  split <;> exact ⟨rfl, rfl⟩

theorem expire_queue : (s.expire c t).handlerQueue =
      (if s.handlerQueue.length < c.handleQueueSize then
        s.handlerQueue ++ [report (s.cbArray t)] else s.handlerQueue) ∧
    (s.expire c t).handling = s.handling := by
  have hreport : report (((s.modifyCB t fun cb =>
      { cb with startTime := cb.responseTime }).osDeleteNodeSortLink t).cbArray t) =
        report (s.cbArray t) := by
    simp [report, osDeleteNodeSortLink]
  rw [expire, osSwtmrTimeoutHandle_queue.1, osSwtmrTimeoutHandle_queue.2, hreport, queueWriteCopy]
  split_ifs <;> simp_all [osDeleteNodeSortLink]

theorem expire_expiries : (s.expire c t).expiries =
    if s.handlerQueue.length < c.handleQueueSize then s.expiries ++ [report (s.cbArray t)]
    else s.expiries := by
  rw [expiries, expire_queue.1, expire_queue.2]
  split_ifs
  · rw [expiries, append_assoc]
  · rfl

theorem scanLoop_messages (fuel : ℕ) : (∀ u ∈ (scanLoop c n fuel s).sortLink, u ∈ s.sortLink) ∧
    ∀ item ∈ (scanLoop c n fuel s).expiries, item ∈ s.expiries ∨
      ∃ u ∈ s.sortLink, item.swtmrID = (s.cbArray u).usTimerID := by
  induction fuel generalizing s with
  | zero => exact ⟨fun _ hu => hu, fun _ hm => .inl hm⟩
  | succ _ ih =>
    simp only [scanLoop]
    split
    · exact ⟨fun _ hu => hu, fun _ hm => .inl hm⟩
    · next t rest hl =>
      have ht : t ∈ s.sortLink := by simp [hl]
      split_ifs with hle
      · obtain ⟨hlink, hitems⟩ := ih
        refine ⟨fun u hu => mem_expire ht (hlink u hu), fun item hm => ?_⟩
        rcases hitems item hm with hm | ⟨u, hu, hid⟩
        · rw [expire_expiries] at hm
          split_ifs at hm
          · rcases mem_append.mp hm with hm | hm
            · exact .inl hm
            · obtain rfl := mem_singleton.mp hm
              exact .inr ⟨t, ht, rfl⟩
          · exact .inl hm
        · rw [keeps_expire.usTimerID] at hid
          exact .inr ⟨u, mem_expire ht hu, hid⟩
      · exact ⟨fun _ hu => hu, fun _ hm => .inl hm⟩

/-! ## Stopped timers -/

/-- Nothing is on its way from a timer that has been stopped. -/
structure SilentInv (c : SwtmrConfig) (r : SwtmrRun) (l : List ℕ) : Prop where
  base : Inv c r.swtmrs l
  message : ∀ x, r.silent x → ∀ item ∈ r.messages, item.swtmrID ≠ x
  armed : ∀ x, r.silent x → ∀ t ∈ r.swtmrs.sortLink, (r.swtmrs.cbArray t).usTimerID ≠ x

theorem prompt_of_drained (h : Drained c r (.swtmr op)) : Prompt c r.swtmrs op := by
  cases op <;> first
    | exact h
    | trivial

theorem losSwtmrStart_expiries : (s.losSwtmrStart c x n).1.expiries = s.expiries := by
  rcases losSwtmrStart_cases c s x n with ⟨e, -, heq⟩ | ⟨-, -, -, s₁, rfl | rfl, heq⟩ <;> rw [heq]
  · rfl
  · exact osSwtmrStop_expiries

theorem losSwtmrStop_expiries : (s.losSwtmrStop c x).1.expiries = s.expiries := by
  rcases losSwtmrStop_cases c s x with ⟨e, -, heq⟩ | ⟨-, -, heq⟩ <;> rw [heq]
  exact osSwtmrStop_expiries

theorem losSwtmrDelete_expiries : (s.losSwtmrDelete c x).1.expiries = s.expiries := by
  rcases losSwtmrDelete_cases c s x with ⟨e, -, heq⟩ | ⟨-, -, s₁, ⟨rfl, -⟩ | rfl, heq⟩ <;> rw [heq]
  · rfl
  · exact osSwtmrStop_expiries

theorem losSwtmrCreate_expiries :
    (s.losSwtmrCreate n mode handler hasRet arg).1.expiries = s.expiries := by
  rcases losSwtmrCreate_cases s n mode handler hasRet arg with ⟨e, heq⟩ | ⟨t, _, _, -, -, heq⟩ <;>
    rw [heq]
  rfl

theorem swtmrTaskRead_expiries (h : s.handling = none) : s.swtmrTaskRead.expiries = s.expiries := by
  simp only [swtmrTaskRead]
  split
  · rfl
  · next item rest hq => simp [expiries, h, hq]

variable {item : SwtmrHandlerItem}

theorem expiries_of_handling (h : s.handling = some item) :
    s.expiries = item :: (s.swtmrTaskHandle c).expiries := by
  have hq : (s.swtmrTaskHandle c).expiries = s.handlerQueue := by
    by_cases ha : s.Accepts c item
    · rw [swtmrTaskHandle_of_accepts h ha]
      split_ifs <;> rfl
    · rw [swtmrTaskHandle_of_not_accepts h ha]
      rfl
  rw [hq, expiries, h]
  rfl

theorem mem_expiries_of_handle (h : item ∈ (s.swtmrTaskHandle c).expiries ∨ s.handling = some item)
    : item ∈ s.expiries := by
  rcases h with h | h
  · cases hh : s.handling with
    | none => simpa [swtmrTaskHandle, hh] using h
    | some =>
      rw [expiries_of_handling hh]
      exact mem_cons_of_mem _ h
  · simp [expiries, h]

theorem swtmrTaskHandle_sortLink : (s.swtmrTaskHandle c).sortLink = s.sortLink := by
  simp only [swtmrTaskHandle]
  split
  · rfl
  · split_ifs <;> rfl

/-- Less is silent, fewer messages are on their way and fewer timers are armed. -/
theorem SilentInv.mono (h : SilentInv c r l)
    (hi : Inv c r'.swtmrs l') (hs : ∀ x, r'.silent x → r.silent x)
    (hm : ∀ item ∈ r'.messages, item ∈ r.messages)
    (ha : ∀ t ∈ r'.swtmrs.sortLink, t ∈ r.swtmrs.sortLink ∧
      (r'.swtmrs.cbArray t).usTimerID = (r.swtmrs.cbArray t).usTimerID) : SilentInv c r' l' where
  base := hi
  message x hx item hitem := h.message x (hs x hx) item (hm item hitem)
  armed x hx t ht := by
    rw [(ha t ht).2]
    exact h.armed x (hs x hx) t (ha t ht).1

theorem SilentInv.swtmrStart (h : SilentInv c r l) (he : Enabled c r (.swtmr (.swtmrStart x n)))
    (hd : Drained c r (.swtmr (.swtmrStart x n))) :
    ∃ l, SilentInv c (exec c r (.swtmr (.swtmrStart x n))) l := by
  obtain ⟨l', hi⟩ := h.base.step he.1 (prompt_of_drained hd)
  have hsilent : ∀ y, (exec c r (.swtmr (.swtmrStart x n))).silent y →
      y ≠ x ∧ r.silent y := by
    intro y hy
    have hne : y ≠ x := by
      rintro rfl
      simp [exec, silentAfter] at hy
    exact ⟨hne, by simpa [exec, silentAfter, hne] using hy⟩
  have hmsg : (exec c r (.swtmr (.swtmrStart x n))).messages = r.messages := by
    simp only [messages, exec, Swtmrs.exec, callingAfter, losSwtmrStart_expiries]
  refine ⟨l', hi, fun y hy => hmsg ▸ h.message y (hsilent y hy).2, fun y hy t ht => ?_⟩
  obtain ⟨hne, hy⟩ := hsilent y hy
  have hk : Keeps r.swtmrs (r.swtmrs.losSwtmrStart c x n).1 := keeps_losSwtmrStart
  have hid := hk.usTimerID t
  simp only [exec, Swtmrs.exec] at ht ⊢
  rw [hid]
  rcases losSwtmrStart_cases c r.swtmrs x n with ⟨e, -, heq⟩ | ⟨-, hidx, -, s₁, hs₁, heq⟩
  · rw [heq] at ht
    exact h.armed y hy t ht
  · by_cases htx : t = x % c.swtmrLimit
    · rw [htx, hidx]
      exact hne.symm
    · refine h.armed y hy t ?_
      rw [heq, mem_osSwtmrStart] at ht
      rcases hs₁ with rfl | rfl
      · exact ht.resolve_left htx
      · exact (mem_osSwtmrStop htx).mp (ht.resolve_left htx)

theorem SilentInv.swtmrStop (h : SilentInv c r l) (he : Enabled c r (.swtmr (.swtmrStop x)))
    (hd : Drained c r (.swtmr (.swtmrStop x))) :
    ∃ l, SilentInv c (exec c r (.swtmr (.swtmrStop x))) l := by
  obtain ⟨l', hi⟩ := h.base.step he.1 (prompt_of_drained hd)
  have hmsg : (exec c r (.swtmr (.swtmrStop x))).messages = r.messages := by
    simp only [messages, exec, Swtmrs.exec, callingAfter, losSwtmrStop_expiries]
  refine ⟨l', ?_⟩
  rcases losSwtmrStop_cases c r.swtmrs x with ⟨e, hne, heq⟩ | ⟨hid, hstate, heq⟩
  · refine h.mono hi (fun y hy => ?_) (fun item hm => hmsg ▸ hm) fun t ht => ?_
    · simpa [exec, silentAfter, heq, hne] using hy
    · simp only [exec, Swtmrs.exec, heq] at ht ⊢
      exact ⟨ht, trivial⟩
  · have hlt : x % c.swtmrLimit < c.swtmrLimit := mod_lt _ c.limit_pos
    have hout := (h.base.osSwtmrStop hlt (by simp [hstate])).2
    have hsilent : ∀ y, (exec c r (.swtmr (.swtmrStop x))).silent y →
        y = x ∨ r.silent y := by
      intro y hy
      by_cases hyx : y = x
      · exact .inl hyx
      · simp only [exec, silentAfter] at hy
        split_ifs at hy
        · exact .inr (by simpa [hyx] using hy)
        · exact .inr hy
    refine ⟨hi, fun y hy item hm => ?_, fun y hy t ht => ?_⟩
    · rw [hmsg] at hm
      rcases hsilent y hy with rfl | hy
      · exact hd item hm
      · exact h.message y hy item hm
    · simp only [exec, Swtmrs.exec, heq] at ht ⊢
      have htx : t ≠ x % c.swtmrLimit := fun e => hout (e ▸ ht)
      have htl := (mem_osSwtmrStop htx).mp ht
      rw [keeps_osSwtmrStop.usTimerID]
      rcases hsilent y hy with rfl | hy
      · -- the identifiers of different blocks differ
        intro e
        exact htx ((h.base.id t (h.base.linked t htl).1).symm.trans (e ▸ rfl))
      · exact h.armed y hy t htl

theorem usTimerID_of_mem (hi : Inv c (Swtmrs.exec c s op) l)
    (ht : t ∈ (Swtmrs.exec c s op).sortLink) :
    ((Swtmrs.exec c s op).cbArray t).usTimerID = (s.cbArray t).usTimerID := by
  cases hd : s.deletes c op with
  | some x =>
    obtain ⟨-, s₁, hk, heq⟩ := deletes_cases c s op hd
    have hne : t ≠ x % c.swtmrLimit := by
      rintro rfl
      have hstate := (hi.linked _ ht).2
      simp [heq, osSwtmrDelete] at hstate
    rw [heq, ← hk.usTimerID]
    simp [osSwtmrDelete, hne]
  | none =>
    cases hn : s.newId op with
    | some =>
      obtain ⟨b, -, hid, -, hcb, hid', -⟩ := newId_cases c s op hn
      by_cases htb : t = b
      · rw [htb, hid, hid']
      · rw [hcb t htb]
    | none => exact (exec_keeps hd hn).usTimerID t

theorem SilentInv.step (h : SilentInv c r l) (he : Enabled c r (.swtmr op))
    (hd : Drained c r (.swtmr op)) : ∃ l, SilentInv c (exec c r (.swtmr op)) l := by
  obtain ⟨l', hi⟩ := h.base.step he.1 (prompt_of_drained hd)
  cases op with
  | swtmrStart => exact h.swtmrStart he hd
  | swtmrStop => exact h.swtmrStop he hd
  | swtmrCreate interval mode handler hasRet arg =>
    refine ⟨l', h.mono hi (fun _ hy => hy) (fun item hm => ?_)
      fun t ht => ⟨?_, usTimerID_of_mem hi ht⟩⟩
    · simpa only [messages, exec, Swtmrs.exec, callingAfter, losSwtmrCreate_expiries] using hm
    · simp only [exec, Swtmrs.exec] at ht
      rcases losSwtmrCreate_cases r.swtmrs interval mode handler hasRet arg with
        ⟨e, heq⟩ | ⟨b, _, _, -, -, heq⟩
      all_goals rwa [heq] at ht
  | swtmrDelete x =>
    refine ⟨l', h.mono hi (fun _ hy => hy) (fun item hm => ?_)
      fun t ht => ⟨?_, usTimerID_of_mem hi ht⟩⟩
    · simpa only [messages, exec, Swtmrs.exec, callingAfter, losSwtmrDelete_expiries] using hm
    · simp only [exec, Swtmrs.exec] at ht
      rcases losSwtmrDelete_cases c r.swtmrs x with ⟨e, -, heq⟩ | ⟨-, -, s₁, hs₁, heq⟩
      · rwa [heq] at ht
      · rw [heq] at ht
        rcases hs₁ with ⟨rfl, -⟩ | rfl
        · exact ht
        · by_cases htx : t = x % c.swtmrLimit
          · have hstate := (hi.linked t (by simpa [Swtmrs.exec, heq] using ht)).2
            simp [Swtmrs.exec, heq, htx, osSwtmrDelete] at hstate
          · exact (mem_osSwtmrStop htx).mp ht
  | swtmrScan n =>
    obtain ⟨hlink, hitems⟩ := scanLoop_messages (r.swtmrs.due n)
    refine ⟨l', hi, fun y hy item hm => ?_, fun y hy t ht => ?_⟩
    · rcases mem_append.mp hm with hm | hm
      · rcases hitems item hm with hm | ⟨u, hu, hid⟩
        · exact h.message y hy item (mem_append_left _ hm)
        · rw [hid]
          exact h.armed y hy u hu
      · exact h.message y hy item (mem_append_right _ hm)
    · rw [show ((exec c r (.swtmr (.swtmrScan n))).swtmrs.cbArray t).usTimerID = _ from
        usTimerID_of_mem hi ht]
      exact h.armed y hy t (hlink t ht)
  | swtmrTaskRead =>
    refine ⟨l', h.mono hi (fun _ hy => hy) (fun item hm => ?_)
      fun t ht => ⟨?_, usTimerID_of_mem hi ht⟩⟩
    · simpa only [messages, exec, Swtmrs.exec, callingAfter, swtmrTaskRead_expiries he.1] using hm
    · simp only [exec, Swtmrs.exec, swtmrTaskRead] at ht
      split at ht <;> exact ht
  | swtmrTaskHandle =>
    refine ⟨l', h.mono hi (fun _ hy => hy) (fun item hm => ?_)
      fun t ht => ⟨?_, usTimerID_of_mem hi ht⟩⟩
    · refine mem_append_left _ (mem_expiries_of_handle (c := c) ?_)
      refine (mem_append.mp hm).imp_right fun hm => ?_
      simp only [exec, callingAfter, Option.mem_toList, Option.bind_eq_some_iff,
        Option.ite_none_right_eq_some, Option.some.injEq] at hm
      obtain ⟨item', hh, -, rfl⟩ := hm
      exact hh
    · simpa [exec, Swtmrs.exec, swtmrTaskHandle_sortLink] using ht

theorem SilentInv.handlerCall (h : SilentInv c r l) : SilentInv c (exec c r .handlerCall) l :=
  h.mono h.base (fun _ hy => hy)
    (fun item hm => mem_append_left _ (by simpa [messages, exec] using hm))
    fun _ ht => ⟨ht, rfl⟩

/-- When a timer is stopped only after its messages have been handled, the timer task does not call
the handler of a stopped timer. -/
theorem silent_of_reaches (h : ((machine c).restrict (Drained c)).Reaches r) :
    ∀ item ∈ r.calling, r.silent item.swtmrID = false := by
  have hi : ∃ l, SilentInv c r l := by
    refine h.invariant (I := fun r => ∃ l, SilentInv c r l) ?_ ?_
    · rintro _ rfl
      exact ⟨_, .init, fun x hx => by simp at hx, fun x hx => by simp at hx⟩
    · rintro r op ⟨l, hi⟩ ha
      cases op with
      | swtmr => exact hi.step ha.1 ha.2
      | handlerCall => exact ⟨l, hi.handlerCall⟩
  obtain ⟨l, hi⟩ := hi
  intro item hitem
  by_contra hc
  refine hi.message _ (by simpa using hc) item (List.mem_append_right _ ?_) rfl
  simpa using hitem

/-- A periodic timer is stopped after the timer task has called its handler, and started again. -/
theorem silent_of_reaches_restarted : ∃ r,
    ((machine smallSwtmr).restrict (Drained smallSwtmr)).Reaches r ∧
    r.calling = some ⟨some 8, 0, 0⟩ ∧ ∀ item ∈ r.calling, r.silent item.swtmrID = false := by
  have hr := Machine.Reaches.run (M := (machine smallSwtmr).restrict (Drained smallSwtmr))
    (.start rfl) [.swtmr (.swtmrCreate 1 (some .period) (some 8) true 0),
      .swtmr (.swtmrStart 0 0), .swtmr (.swtmrScan 10), .swtmr .swtmrTaskRead,
      .swtmr .swtmrTaskHandle, .handlerCall, .swtmr (.swtmrStop 0), .swtmr (.swtmrStart 0 15),
      .swtmr (.swtmrScan 25), .swtmr .swtmrTaskRead, .swtmr .swtmrTaskHandle] (by decide +kernel)
  exact ⟨_, hr, by decide +kernel, silent_of_reaches hr⟩

/-- The message of a periodic timer is in the handler queue when the timer is stopped: its handler
is called afterwards. -/
theorem called_after_stop : ∃ r, (machine smallSwtmr).Reaches r ∧
    r.calling = some ⟨some 8, 0, 0⟩ ∧ r.silent 0 = true ∧
    (r.swtmrs.cbArray 0).ucState = .created := by
  have hr := Machine.Reaches.run (M := machine smallSwtmr) (.start rfl)
    [.swtmr (.swtmrCreate 1 (some .period) (some 8) true 0), .swtmr (.swtmrStart 0 0),
      .swtmr (.swtmrScan 10), .swtmr (.swtmrStop 0), .swtmr .swtmrTaskRead,
      .swtmr .swtmrTaskHandle] (by decide +kernel)
  exact ⟨_, hr, by decide +kernel⟩

/-! ## Lost messages -/

/-- What the timers and the messages owe to the timer task, when `calling` is the message that it is
about to call the handler of. -/
structure Ledger (c : SwtmrConfig) (s : Swtmrs) (calling : Option SwtmrHandlerItem) (owed : ℕ → ℕ) :
    Prop where
  armed : ∀ t ∈ s.sortLink, (s.cbArray t).usTimerID < c.maxTimerID
  handler : ∀ t, (s.cbArray t).ucState ≠ .unused → (s.cbArray t).pfnHandler ≠ none
  message : ∀ item ∈ s.expiries, item.handler ≠ none ∧ item.swtmrID < c.maxTimerID
  ticking : ∀ t < c.swtmrLimit, (s.cbArray t).ucState = .ticking → t ∈ s.sortLink ∨
    ((s.cbArray t).ucMode = .once ∧ ∃ item ∈ s.expiries, item.swtmrID = (s.cbArray t).usTimerID)
  /-- The messages of a timer that has been deleted report nothing. -/
  owed : ∀ x, owed x ≤ (if (s.cbArray (x % c.swtmrLimit)).usTimerID = x then reports s.expiries x
    else 0) + reports calling.toList x

theorem Ledger.init : Ledger c (osSwtmrInit c) none fun _ => 0 where
  armed t ht := by simp [osSwtmrInit] at ht
  handler t ht := by simp [osSwtmrInit] at ht
  message item hm := by simp [expiries, osSwtmrInit] at hm
  ticking t _ ht := by simp [osSwtmrInit] at ht
  owed x := zero_le _

variable {calling calling' : Option SwtmrHandlerItem} {owed owed' : ℕ → ℕ}

section

variable (h : Ledger c s calling owed)
include h

theorem Ledger.change (hk : Keeps s s')
    (he : s'.expiries = s.expiries) (hu : (s.cbArray t).ucState ≠ .unused)
    (hstate : ∀ u ≠ t, (s'.cbArray u).ucState = (s.cbArray u).ucState)
    (hmem : ∀ u ≠ t, u ∈ s'.sortLink ↔ u ∈ s.sortLink)
    (hlt : t ∈ s'.sortLink → (s.cbArray t).usTimerID < c.maxTimerID)
    (ht : (s'.cbArray t).ucState = .ticking → t ∈ s'.sortLink) : Ledger c s' calling owed where
  armed u hm := by
    rw [hk.usTimerID]
    by_cases hut : u = t
    · subst hut
      exact hlt hm
    · exact h.armed u ((hmem u hut).mp hm)
  handler u hused := by
    rw [hk.pfnHandler]
    by_cases hut : u = t
    · subst hut
      exact h.handler u hu
    · exact h.handler u (hstate u hut ▸ hused)
  message := he ▸ h.message
  ticking u hult htick := by
    by_cases hut : u = t
    · subst hut
      exact .inl (ht htick)
    · rw [hmem u hut, he, hk.ucMode, hk.usTimerID]
      exact h.ticking u hult (hstate u hut ▸ htick)
  owed x := by
    rw [hk.usTimerID, he]
    exact h.owed x

theorem Ledger.losSwtmrStart : Ledger c (s.losSwtmrStart c x n).1 calling owed := by
  have hk : Keeps s (s.losSwtmrStart c x n).1 := keeps_losSwtmrStart
  have he := losSwtmrStart_expiries (c := c) (s := s) (x := x) (n := n)
  rcases losSwtmrStart_cases c s x n with ⟨e, -, heq⟩ | ⟨hlt, hid, hu, s₁, hs₁, heq⟩
  · rw [heq]
    exact h
  · rw [heq] at hk he ⊢
    refine h.change hk he hu (fun u hne => ?_) (fun u hne => ?_)
      (fun _ => hid.symm ▸ hlt) fun _ => mem_osSwtmrStart.mpr (.inl rfl)
    · rw [osSwtmrStart_ucState, if_neg hne]
      rcases hs₁ with rfl | rfl <;> simp [hne, osSwtmrStop_cbArray_of_ne hne]
    · rw [mem_osSwtmrStart]
      rcases hs₁ with rfl | rfl
      · exact or_iff_right hne
      · exact (or_iff_right hne).trans (mem_osSwtmrStop hne)

theorem Ledger.osSwtmrStop (hi : Inv c s l) (ht : t < c.swtmrLimit)
    (hu : (s.cbArray t).ucState ≠ .unused) : Ledger c (s.osSwtmrStop t) calling owed := by
  have hout := (hi.osSwtmrStop ht hu).2
  obtain ⟨_, hcb⟩ := osSwtmrStop_cbArray (s := s) (t := t)
  exact h.change keeps_osSwtmrStop osSwtmrStop_expiries hu
    (fun u hne => by rw [osSwtmrStop_cbArray_of_ne hne]) (fun u hne => mem_osSwtmrStop hne)
    (fun hm => absurd hm hout) fun htick => by simp [hcb] at htick

theorem Ledger.forget (hle : ∀ x, owed' x ≤ owed x) : Ledger c s calling owed' :=
  { h with owed := fun x => (hle x).trans (h.owed x) }

/-- A block is given back that no timer with expiries to report uses. -/
theorem Ledger.osSwtmrDelete (hn : t ∉ s.sortLink)
    (ho : owed (s.cbArray t).usTimerID ≤ reports calling.toList (s.cbArray t).usTimerID) :
    Ledger c (s.osSwtmrDelete c t) calling owed := by
  have hcb : ∀ u ≠ t, (s.osSwtmrDelete c t).cbArray u = s.cbArray u := fun u hu => by
    simp [Swtmrs.osSwtmrDelete, hu]
  have hstate : ((s.osSwtmrDelete c t).cbArray t).ucState = .unused := by
    simp [Swtmrs.osSwtmrDelete]
  refine ⟨fun u hm => ?_, fun u hused => ?_, h.message, fun u hult htick => ?_, fun x => ?_⟩
  · rw [hcb u fun e => hn (e ▸ hm)]
    exact h.armed u hm
  · have hut : u ≠ t := by
      rintro rfl
      exact hused hstate
    rw [hcb u hut] at hused ⊢
    exact h.handler u hused
  · have hut : u ≠ t := by
      rintro rfl
      simp [hstate] at htick
    rw [hcb u hut] at htick ⊢
    exact h.ticking u hult htick
  · have hx := h.owed x
    by_cases hxt : x % c.swtmrLimit = t
    · by_cases hcur : (s.cbArray t).usTimerID = x
      · subst hcur
        exact ho.trans (Nat.le_add_left _ _)
      · rw [hxt, if_neg hcur] at hx
        exact hx.trans (Nat.add_le_add_right (Nat.zero_le _) _)
    · rw [hcb _ hxt]
      exact hx

end

/-! ### Scans -/

theorem reports_append (l l' : List SwtmrHandlerItem) (x : ℕ) :
    reports (l ++ l') x = reports l x + reports l' x := countP_append

theorem reports_singleton (item : SwtmrHandlerItem) (x : ℕ) :
    reports [item] x = if item.swtmrID = x then 1 else 0 := by
  simp [reports]

theorem Ledger.expire (h : Ledger c s calling owed) (hi : Inv c s l) (ht : t ∈ s.sortLink)
    (hroom : s.handlerQueue.length < c.handleQueueSize) :
    Ledger c (s.expire c t) calling fun x => owed x +
      (if (s.cbArray t).ucMode = .period then [] else [(s.cbArray t).usTimerID]).count x := by
  obtain ⟨hlt, hstate⟩ := hi.linked t ht
  have hk := keeps_expire (c := c) (s := s) (t := t)
  have he : (s.expire c t).expiries = s.expiries ++ [report (s.cbArray t)] := by
    rw [expire_expiries, if_pos hroom]
  obtain ⟨hother, -, hcase⟩ := expire_spec c s t
  constructor
  · intro u hu
    rw [hk.usTimerID]
    exact h.armed u (mem_expire ht hu)
  · intro u hu
    rw [hk.pfnHandler]
    refine h.handler u fun hc => hu ?_
    have hut : u ≠ t := by
      rintro rfl
      simp [hstate] at hc
    rw [hother u hut, hc]
  · intro item hm
    rw [he] at hm
    rcases mem_append.mp hm with hm | hm
    · exact h.message item hm
    · obtain rfl := mem_singleton.mp hm
      exact ⟨h.handler t (by simp [hstate]), h.armed t ht⟩
  · intro u hult htick
    rw [hk.ucMode, hk.usTimerID, he]
    by_cases hut : u = t
    · subst hut
      rcases hcase with ⟨-, hperm, -⟩ | ⟨-, -, honce | hstate⟩
      · exact .inl (hperm.mem_iff.mpr mem_cons_self)
      · exact .inr ⟨honce, report (s.cbArray u), by simp, rfl⟩
      · simp [hstate] at htick
    · rw [hother u hut] at htick
      rcases h.ticking u hult htick with hm | ⟨honce, item, hm, hid⟩
      · exact .inl ((mem_expire_of_ne hut).mpr hm)
      · exact .inr ⟨honce, item, mem_append_left _ hm, hid⟩
  · intro x
    have hx := h.owed x
    rw [hk.usTimerID, he, reports_append]
    by_cases hxt : x = (s.cbArray t).usTimerID
    · have hcur : x % c.swtmrLimit = t := by rw [hxt, hi.id t hlt]
      rw [hcur, if_pos hxt.symm] at hx ⊢
      have hone : reports [report (s.cbArray t)] x = 1 := by simp [reports, report, hxt]
      have hcount : (if (s.cbArray t).ucMode = .period then []
          else [(s.cbArray t).usTimerID]).count x ≤ 1 := by
        split_ifs <;> simp [hxt]
      omega
    · have hcount : (if (s.cbArray t).ucMode = .period then []
          else [(s.cbArray t).usTimerID]).count x = 0 := by
        split_ifs
        · rfl
        · simp [Ne.symm hxt]
      rw [hcount, Nat.add_zero]
      refine hx.trans (Nat.add_le_add_right ?_ _)
      split_ifs
      · exact Nat.le_add_right _ _
      · exact le_rfl

/-- The next response time of a periodic timer does not wrap round. -/
theorem responseTime_expire (hm : (s.cbArray t).ucMode = .period)
    (hwrap : (s.cbArray t).responseTime + c.sysTickToCycle (s.cbArray t).uwInterval < 2 ^ 64) :
    ((s.expire c t).cbArray t).responseTime =
      (s.cbArray t).responseTime + c.sysTickToCycle (s.cbArray t).uwInterval := by
  obtain ⟨-, -, ⟨-, -, hr⟩ | ⟨hne, -⟩⟩ := expire_spec c s t
  · rw [hr, mod_eq_of_lt hwrap]
  · exact absurd hm hne

theorem dueTimes_expire (hpos : 0 < c.sysTickToCycle (s.cbArray t).uwInterval)
    (hwrap : (s.cbArray t).responseTime + c.sysTickToCycle (s.cbArray t).uwInterval < 2 ^ 64)
    (hle : (s.cbArray t).responseTime ≤ n) (hm : (s.cbArray t).ucMode = .period) :
    dueTimes c ((s.expire c t).cbArray t) n + 1 = dueTimes c (s.cbArray t) n := by
  have hresp := responseTime_expire hm hwrap
  have hk := keeps_expire (c := c) (s := s) (t := t)
  simp only [dueTimes, hresp, hk.ucMode, hk.uwInterval]
  generalize c.sysTickToCycle (s.cbArray t).uwInterval = cycles at *
  split_ifs with hagain
  · have hstep : (n - (s.cbArray t).responseTime) / cycles =
        (n - ((s.cbArray t).responseTime + cycles)) / cycles + 1 := by
      rw [Nat.div_eq_sub_div hpos (by omega), Nat.sub_sub]
    rw [hstep]
  · rw [Nat.div_eq_of_lt (by omega)]

theorem dueExpiries_expire (hnodup : s.sortLink.Nodup)
    (hl : s.sortLink = t :: rest) (hpos : 0 < c.sysTickToCycle (s.cbArray t).uwInterval)
    (hwrap : (s.cbArray t).ucMode = .period →
      (s.cbArray t).responseTime + c.sysTickToCycle (s.cbArray t).uwInterval < 2 ^ 64)
    (hle : (s.cbArray t).responseTime ≤ n) :
    dueExpiries c (s.expire c t) n + 1 = dueExpiries c s n := by
  rw [hl, nodup_cons] at hnodup
  obtain ⟨hother, -, hcase⟩ := expire_spec c s t
  have herase : s.sortLink.erase t = rest := by simp [hl]
  have hrest : (rest.map fun u => dueTimes c ((s.expire c t).cbArray u) n) =
      rest.map fun u => dueTimes c (s.cbArray u) n :=
    map_congr_left fun u hu => by rw [hother u fun e => hnodup.1 (e ▸ hu)]
  have hdue : dueExpiries c s n =
      dueTimes c (s.cbArray t) n + (rest.map fun u => dueTimes c (s.cbArray u) n).sum := by
    simp [dueExpiries, hl]
  rcases hcase with ⟨hm, hperm, -⟩ | ⟨hm, hlink, -⟩
  · have htimes := dueTimes_expire hpos (hwrap hm) hle hm
    rw [hdue, dueExpiries, (hperm.map _).sum_eq, herase, map_cons, sum_cons, hrest]
    omega
  · have hone : dueTimes c (s.cbArray t) n = 1 := by simp [dueTimes, hle, hm]
    rw [hdue, dueExpiries, hlink, herase, hrest, hone, add_comm]

theorem Ledger.scanLoop (fuel : ℕ) (h : Ledger c s calling owed) (hi : Inv c s l)
    (hd : DeadlinesOk c s n) (hroom : s.handlerQueue.length + dueExpiries c s n ≤ c.handleQueueSize)
    :
    Ledger c (scanLoop c n fuel s) calling fun x => owed x + (scanExpired c n fuel s).count x := by
  induction fuel generalizing s owed with
  | zero => simpa [scanLoop, scanExpired] using h
  | succ _ ih =>
    simp only [scanLoop, scanExpired]
    cases hl : s.sortLink with
    | nil => simpa using h
    | cons t =>
      have ht : t ∈ s.sortLink := by simp [hl]
      by_cases hle : (s.cbArray t).responseTime ≤ n
      · have hdead := hd t ht
        have hmax : sortLinkInvalidTime < 2 ^ 64 := by decide
        have hpos := sysTickToCycle_pos c (hi.interval t (by simp [(hi.linked t ht).2]))
        have hdue := dueExpiries_expire hi.nodup hl hpos (fun _ => by omega) hle
        have hlt : s.handlerQueue.length < c.handleQueueSize := by omega
        have hlen : (s.expire c t).handlerQueue.length = s.handlerQueue.length + 1 := by
          rw [expire_queue.1, if_pos hlt, length_append, length_singleton]
        have hnext := ih (h.expire hi ht hlt) (hi.expire ht (by omega)) (hd.expire ht) (by omega)
        simpa only [if_pos hle, count_append, add_assoc] using hnext
      · simpa [hle] using h

/-! ### The timer task -/

theorem Ledger.swtmrTaskRead (h : Ledger c s calling owed) (he : s.handling = none) :
    Ledger c s.swtmrTaskRead calling owed := by
  have hexp := swtmrTaskRead_expiries he
  have hcb : s.swtmrTaskRead.cbArray = s.cbArray ∧ s.swtmrTaskRead.sortLink = s.sortLink := by
    simp only [Swtmrs.swtmrTaskRead]
    split <;> exact ⟨rfl, rfl⟩
  constructor <;> simp only [hcb.1, hcb.2, hexp]
  exacts [h.armed, h.handler, h.message, h.ticking, h.owed]

theorem Ledger.handlerCall (h : Ledger c s (some item) owed) :
    Ledger c s none (update owed item.swtmrID (owed item.swtmrID - 1)) :=
  { h with
    owed := fun x => by
      have hx := h.owed x
      rw [Option.toList_some, reports_singleton] at hx
      by_cases hid : item.swtmrID = x
      · subst hid
        rw [if_pos rfl] at hx
        rw [update_self]
        omega
      · rw [if_neg hid] at hx
        rwa [update_of_ne (Ne.symm hid)] }

theorem reports_expiries (hh : s.handling = some item) (x : ℕ) :
    reports s.expiries x = reports [item] x + reports s.handlerQueue x := by
  rw [expiries, hh, ← reports_append]
  rfl

section

variable (h : Ledger c s calling owed) (hh : s.handling = some item)
include h hh

/-- The timer task has taken a message that is not about a one-shot timer. -/
theorem Ledger.taken (hid : ∀ t < c.swtmrLimit, (s.cbArray t).usTimerID = item.swtmrID →
      (s.cbArray t).ucMode ≠ .once)
    (ho : ∀ x, owed x ≤ (if (s.cbArray (x % c.swtmrLimit)).usTimerID = x then
      reports s.handlerQueue x else 0) + reports calling'.toList x) :
    Ledger c { s with handling := none } calling' owed := by
  refine ⟨h.armed, h.handler, fun item' hm => h.message item' (mem_append_right _ hm),
    fun t ht htick => ?_, ho⟩
  refine (h.ticking t ht htick).imp_right fun ⟨honce, item', hm, heq⟩ => ⟨honce, item', ?_, heq⟩
  have hne : item' ≠ item := by
    rintro rfl
    exact hid t ht heq.symm honce
  simpa [expiries, hh, hne] using hm

theorem Ledger.ignore (hid : ∀ t < c.swtmrLimit, (s.cbArray t).usTimerID ≠ item.swtmrID) :
    Ledger c { s with handling := none } calling owed := by
  refine h.taken hh (fun t ht he => absurd he (hid t ht)) fun x => ?_
  have hx := h.owed x
  rw [reports_expiries hh, reports_singleton] at hx
  by_cases hix : item.swtmrID = x
  · subst hix
    rw [if_neg (hid _ (mod_lt _ c.limit_pos))] at hx ⊢
    exact hx
  · rw [if_neg hix, zero_add] at hx
    exact hx

end

section

variable (h : Ledger c s none owed) (hi : Inv c s l) (hh : s.handling = some item)
include h hi hh

theorem Ledger.accept (hm : (s.cbArray (item.swtmrID % c.swtmrLimit)).ucMode ≠ .once) :
    Ledger c { s with handling := none } (some item) owed := by
  refine h.taken hh (fun t ht he => ?_) fun x => ?_
  · rwa [← he, hi.id t ht] at hm
  · have hx := h.owed x
    rw [reports_expiries hh] at hx
    rw [Option.toList_some]
    split_ifs at hx ⊢ with hcur
    · simp only [Option.toList_none] at hx
      have hnil : reports [] x = 0 := rfl
      omega
    · exact hx.trans (Nat.add_le_add_left (Nat.zero_le _) _)

/-- The timer task is about to call the handler of a one-shot timer, which it deletes. -/
theorem Ledger.acceptOnce
    (ha : s.Accepts c item) (hm : (s.cbArray (item.swtmrID % c.swtmrLimit)).ucMode = .once)
    (hlt : item.swtmrID < c.maxTimerID - c.swtmrLimit) :
    Ledger c (({ s with handling := none }).osSwtmrDelete c (item.swtmrID % c.swtmrLimit))
      (some item) (update owed item.swtmrID (min (owed item.swtmrID) 1)) := by
  have hout := ((hi.expiry item (by simp [expiries, hh])).2 ha.2.2.symm).2 hm
  have hcall : Ledger c s (some item) owed :=
    { h with owed := fun x => (h.owed x).trans (Nat.add_le_add_left (Nat.zero_le _) _) }
  have hone : Ledger c s (some item)
      (update owed item.swtmrID (min (owed item.swtmrID) 1)) := by
    refine hcall.forget fun x => ?_
    by_cases hx : x = item.swtmrID
    · subst hx
      simp
    · simp [hx]
  have hdel := hone.osSwtmrDelete hout (by
    rw [ha.2.2, update_self, Option.toList_some, reports_singleton, if_pos rfl]
    exact min_le_right _ _)
  refine hdel.ignore hh fun t ht => ?_
  by_cases htb : t = item.swtmrID % c.swtmrLimit
  · subst htb
    simp only [Swtmrs.osSwtmrDelete, modifyCB_cbArray, update_self, ha.2.2, if_pos hlt]
    omega
  · have hcb : ((s.osSwtmrDelete c (item.swtmrID % c.swtmrLimit)).cbArray t) = s.cbArray t := by
      simp [Swtmrs.osSwtmrDelete, htb]
    rw [hcb]
    exact fun he => htb ((hi.id t ht).symm.trans (he ▸ rfl))

end

/-! ### Runs -/

/-- What holds in every run in which the handler queue has room. -/
structure LosslessInv (c : SwtmrConfig) (r : SwtmrRun) (l : List ℕ) : Prop where
  base : Inv c r.swtmrs l
  ledger : Ledger c r.swtmrs r.calling r.owed

theorem prompt_of_roomy (h : Roomy c r (.swtmr op)) : Prompt c r.swtmrs op := by
  cases op <;> first
    | exact h
    | trivial

theorem update_zero_le (x y : ℕ) : update owed x 0 y ≤ owed y := by
  by_cases hy : y = x
  · subst hy
    simp
  · simp [hy]

section

variable (h : Ledger c s calling owed) (hi : Inv c s l)
include h hi

theorem Ledger.losSwtmrCreate :
    Ledger c (s.losSwtmrCreate n mode handler hasRet arg).1 calling owed := by
  rcases losSwtmrCreate_cases s n mode handler hasRet arg with
    ⟨e, heq⟩ | ⟨t, mode', handler', hfree, -, heq⟩
  · rw [heq]
    exact h
  · have hunused : (s.cbArray t).ucState = .unused := by
      have hchain := hi.chain
      rw [hfree] at hchain
      cases l with
      | nil => cases hchain
      | cons a =>
        obtain rfl : t = a := Option.some.inj hchain.1
        exact ((hi.free t).mp (by simp)).2
    have hout := hi.notMem_sortLink (t := t) (by simp [hunused])
    rw [heq]
    refine ⟨fun u hu => ?_, fun u hu => ?_, h.message, fun u hult htick => ?_, fun x => ?_⟩
    · have hut : u ≠ t := fun e => hout (e ▸ hu)
      simpa [hut] using h.armed u hu
    · by_cases hut : u = t
      · subst hut
        simp
      · simpa [hut] using h.handler u (by simpa [hut] using hu)
    · have hut : u ≠ t := by
        rintro rfl
        simp at htick
      simpa [hut, expiries] using h.ticking u hult (by simpa [hut] using htick)
    · have hx := h.owed x
      by_cases hxt : x % c.swtmrLimit = t
      · subst hxt
        simpa [expiries] using hx
      · simpa [hxt, expiries] using hx

theorem Ledger.losSwtmrStop : Ledger c (s.losSwtmrStop c x).1 calling
      (if (s.losSwtmrStop c x).2 = .ok then update owed x 0 else owed) := by
  rcases losSwtmrStop_cases c s x with ⟨e, hne, heq⟩ | ⟨-, hstate, heq⟩
  · rw [heq, if_neg hne]
    exact h
  · rw [heq, if_pos rfl]
    exact (h.osSwtmrStop hi (mod_lt _ c.limit_pos) (by simp [hstate])).forget (update_zero_le x)

theorem Ledger.losSwtmrDelete : Ledger c (s.losSwtmrDelete c x).1 calling
      (if (s.losSwtmrDelete c x).2 = .ok then update owed x 0 else owed) := by
  have hlt : x % c.swtmrLimit < c.swtmrLimit := mod_lt _ c.limit_pos
  rcases losSwtmrDelete_cases c s x with ⟨e, hne, heq⟩ | ⟨hid, hu, s₁, hs₁, heq⟩
  · rw [heq, if_neg hne]
    exact h
  · rw [heq, if_pos rfl]
    have h₁ : Ledger c s₁ calling owed ∧ x % c.swtmrLimit ∉ s₁.sortLink ∧
        (s₁.cbArray (x % c.swtmrLimit)).usTimerID = x := by
      rcases hs₁ with ⟨rfl, hstate⟩ | rfl
      · exact ⟨h, hi.notMem_sortLink (by simp [hstate]), hid⟩
      · exact ⟨h.osSwtmrStop hi hlt hu, (hi.osSwtmrStop hlt hu).2,
          (keeps_osSwtmrStop.usTimerID _).trans hid⟩
    obtain ⟨h₁, hout, hid₁⟩ := h₁
    refine (h₁.forget (update_zero_le x)).osSwtmrDelete hout ?_
    rw [hid₁, update_self]
    exact zero_le _

end

section

variable (h : LosslessInv c r l)
include h

theorem LosslessInv.swtmrTaskHandle
    (he : Enabled c r (.swtmr .swtmrTaskHandle)) (hr : Roomy c r (.swtmr .swtmrTaskHandle)) :
    Ledger c (r.swtmrs.swtmrTaskHandle c) (r.callingAfter c .swtmrTaskHandle)
      (r.owedAfter c .swtmrTaskHandle) := by
  have hnone := he.2 (.inr rfl)
  have hl := h.ledger
  rw [hnone] at hl
  simp only [callingAfter, owedAfter, deletes]
  cases hh : r.swtmrs.handling with
  | none => simpa [Swtmrs.swtmrTaskHandle, hh] using hl
  | some item =>
    by_cases ha : r.swtmrs.Accepts c item
    · rw [swtmrTaskHandle_of_accepts hh ha]
      by_cases hm : (r.swtmrs.cbArray (item.swtmrID % c.swtmrLimit)).ucMode = .once
      · simpa [ha, hm] using hl.acceptOnce h.base hh ha hm (hr item hh)
      · simpa [ha, hm] using hl.accept h.base hh hm
    · -- a message has a handler and an identifier in range, so its timer has been deleted
      rw [swtmrTaskHandle_of_not_accepts hh ha]
      obtain ⟨hhandler, hlt⟩ := hl.message item (by simp [expiries, hh])
      have hgone : ∀ t < c.swtmrLimit, (r.swtmrs.cbArray t).usTimerID ≠ item.swtmrID := by
        intro t ht hid
        refine ha ⟨hhandler, hlt, ?_⟩
        rw [← hid, h.base.id t ht]
      simpa [ha] using hl.ignore hh hgone

theorem LosslessInv.step (he : Enabled c r (.swtmr op))
    (hr : Roomy c r (.swtmr op)) : ∃ l, LosslessInv c (exec c r (.swtmr op)) l := by
  obtain ⟨l', hi⟩ := h.base.step he.1 (prompt_of_roomy hr)
  refine ⟨l', hi, ?_⟩
  cases op with
  | swtmrStart => exact h.ledger.losSwtmrStart
  | swtmrStop => exact h.ledger.losSwtmrStop h.base
  | swtmrCreate => exact h.ledger.losSwtmrCreate h.base
  | swtmrDelete => exact h.ledger.losSwtmrDelete h.base
  | swtmrScan => exact h.ledger.scanLoop _ h.base he.1 hr
  | swtmrTaskRead => exact h.ledger.swtmrTaskRead he.1
  | swtmrTaskHandle => exact h.swtmrTaskHandle he hr

theorem LosslessInv.handlerCall (he : Enabled c r .handlerCall) :
    LosslessInv c (exec c r .handlerCall) l := by
  obtain ⟨item, hitem⟩ := Option.ne_none_iff_exists'.mp he
  have hl := h.ledger
  rw [hitem] at hl
  refine ⟨h.base, ?_⟩
  simpa [exec, hitem] using hl.handlerCall

theorem LosslessInv.lossless : Lossless c r where
  owed x := by
    refine (h.ledger.owed x).trans ?_
    rw [messages, reports_append]
    refine Nat.add_le_add_right ?_ _
    split_ifs
    · exact le_rfl
    · exact Nat.zero_le _
  ticking t ht htick := (h.ledger.ticking t ht htick).imp_right (·.2)

end

/-- When the handler queue has room for the expiries of every scan, no expiry is lost. -/
theorem lossless_of_reaches (h : ((machine c).restrict (Roomy c)).Reaches r) : Lossless c r := by
  have hi : ∃ l, LosslessInv c r l := by
    refine h.invariant (I := fun r => ∃ l, LosslessInv c r l) ?_ ?_
    · rintro _ rfl
      exact ⟨_, .init, .init⟩
    · rintro r op ⟨l, hi⟩ ha
      cases op with
      | swtmr => exact hi.step ha.1 ha.2
      | handlerCall => exact ⟨l, hi.handlerCall ha.1⟩
  obtain ⟨l, hi⟩ := hi
  exact hi.lossless

/-- A one-shot timer has expired and a periodic one has too; their messages are in the queue. -/
theorem lossless_of_reaches_expired : ∃ r,
    ((machine smallSwtmr).restrict (Roomy smallSwtmr)).Reaches r ∧ r.owed 0 = 1 ∧
    r.swtmrs.handlerQueue.length = 2 ∧ (r.swtmrs.cbArray 0).ucState = .ticking ∧
    Lossless smallSwtmr r := by
  have hr := Machine.Reaches.run (M := (machine smallSwtmr).restrict (Roomy smallSwtmr))
    (.start rfl) [.swtmr (.swtmrCreate 1 (some .once) (some 7) true 0),
      .swtmr (.swtmrCreate 1 (some .period) (some 8) true 0), .swtmr (.swtmrStart 0 0),
      .swtmr (.swtmrStart 1 0), .swtmr (.swtmrScan 15)] (by decide +kernel)
  exact ⟨_, hr, by decide +kernel, by decide +kernel, by decide +kernel, lossless_of_reaches hr⟩

/-- The messages of a periodic timer fill the handler queue. The message of a one-shot timer is lost
when it expires then: it ticks, but is neither armed nor in the queue. -/
theorem lost_expiry : ∃ r, (machine smallSwtmr).Reaches r ∧
    (r.swtmrs.cbArray 0).ucState = .ticking ∧ 0 ∉ r.swtmrs.sortLink ∧ r.owed 0 = 1 ∧
    reports r.messages 0 = 0 := by
  have hr := Machine.Reaches.run (M := machine smallSwtmr) (.start rfl)
    [.swtmr (.swtmrCreate 3 (some .once) (some 7) true 0),
      .swtmr (.swtmrCreate 1 (some .period) (some 8) true 0), .swtmr (.swtmrStart 0 0),
      .swtmr (.swtmrStart 1 0), .swtmr (.swtmrScan 20), .swtmr (.swtmrScan 30)]
    (by decide +kernel)
  exact ⟨_, hr, by decide +kernel⟩

end SwtmrRun

end LiteOS.Timer
