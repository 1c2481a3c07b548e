import LiteOS.Timer.Swtmr

/-!
# Power locks

The model of the locks of `los_pm.c`. A lock has a name and a count, and the control block of the
power management counts all of them together. Both counts stop at `OS_PM_LOCK_MAX`, each for
itself. A lock that was created by `LOS_PmTimeLockRequest` has a timer, which releases it.

The calls are atomic here. What the software timers answer, and whether there is memory for a node,
is up to the caller of the functions.
-/

namespace LiteOS.Power

open Lib Kernel Timer

def osPmLockMax : ℕ := 0xFFFF

/-- `LOS_SysSleepEnum` -/
inductive SysSleep
  | normal
  | light
  | deep
  | shutdown
deriving DecidableEq

/-- Return codes, named after `LOS_ERRNO_PM_*`; `swtmr` is an error of the software timers. -/
inductive PmErrno
  | ok
  | nok
  | invalidMode
  | invalidParam
  | notLock
  | invalidNode
  | invalidType
  | handlerNull
  | deviceNull
  | alreadyLock
  | swtmr (ret : SwtmrErrno)
deriving DecidableEq

variable {ν : Type}

structure OsPmLockCB (ν : Type) where
  name : ν
  count : ℕ
  swtmrID : ℕ
deriving DecidableEq

/-- The members `lock` and `lockList` of `LosPmCB`. -/
structure PmLocks (ν : Type) where
  lock : ℕ := 0
  lockList : List (OsPmLockCB ν) := []
deriving DecidableEq

section

variable [DecidableEq ν]

/-- The walk over the list: the nodes before the first one with the name, that one, and the nodes
behind it. -/
def search (name : ν) : List (OsPmLockCB ν) →
    Option (List (OsPmLockCB ν) × OsPmLockCB ν × List (OsPmLockCB ν))
  | [] => none
  | cb :: l =>
    if cb.name = name then some ([], cb, l)
    else (search name l).map fun (pre, found, post) => (cb :: pre, found, post)

namespace PmLocks

/-- `OsPmLockRequest`; `memAlloc` says whether there is memory for a node. -/
def osPmLockRequest (pm : PmLocks ν) (name : ν) (swtmrID : ℕ) (memAlloc : Bool) :
    PmLocks ν × PmErrno :=
  let lock :=
    match search name pm.lockList with
    | none =>
      if memAlloc then
        some (pm.lockList, ({ name := name, count := 1, swtmrID := swtmrID } : OsPmLockCB ν), [])
      else none
    | some (pre, lock, post) =>
      some (pre, if lock.count < osPmLockMax then { lock with count := lock.count + 1 } else lock,
        post)
  match lock with
  | none => (pm, .nok)
  | some (pre, lock, post) =>
    if lock.swtmrID ≠ osInvalid ∧ lock.count > 1 then
      ({ pm with lockList := pre ++ { lock with count := lock.count - 1 } :: post }, .alreadyLock)
    else if pm.lock < osPmLockMax then
      ({ lock := pm.lock + 1, lockList := pre ++ lock :: post }, .ok)
    else ({ pm with lockList := pre ++ lock :: post }, .notLock)

def losPmLockRequest (pm : PmLocks ν) (name : Option ν) (memAlloc : Bool) :
    PmLocks ν × PmErrno :=
  match name with
  | none => (pm, .invalidParam)
  | some name => pm.osPmLockRequest name osInvalid memAlloc

/-- What `LOS_PmLockRelease` leaves: the locks and its answer, the timer that it deletes, and
whether it writes the event that wakes `LOS_PmReadLock`. -/
structure Released (ν : Type) where
  pm : PmLocks ν
  ret : PmErrno
  swtmrDelete : Option ℕ := none
  eventWrite : Bool := false

/-- `LOS_PmLockRelease`; `mode` is `pm->pmMode`. -/
def losPmLockRelease (pm : PmLocks ν) (mode : SysSleep) (name : Option ν) : Released ν :=
  match name with
  | none => { pm := pm, ret := .invalidParam }
  | some name =>
    match search name pm.lockList with
    | none => { pm := pm, ret := .notLock }
    | some (pre, lock, post) =>
      let (lockList, lockFree) :=
        if lock.count > 0 then
          if lock.count - 1 = 0 then (pre ++ post, some lock.swtmrID)
          else (pre ++ { lock with count := lock.count - 1 } :: post, none)
        else (pm.lockList, none)
      if pm.lock > 0 then
        { pm := { lock := pm.lock - 1, lockList := lockList }
          ret := .ok
          swtmrDelete := lockFree
          eventWrite := pm.lock - 1 = 0 ∧ mode ≠ .normal }
      else { pm := { pm with lockList := lockList }, ret := .notLock, swtmrDelete := lockFree }

/-- `LOS_PmTimeLockRequest`; `create` is the answer of `LOS_SwtmrCreate` for a number of ticks and
`start` that of `LOS_SwtmrStart`. -/
def losPmTimeLockRequest (pm : PmLocks ν) (msPerTick : ℕ) (mode : SysSleep) (name : Option ν)
    (millisecond : ℕ) (create : ℕ → Except SwtmrErrno ℕ) (memAlloc : Bool) (start : SwtmrErrno) :
    PmLocks ν × PmErrno :=
  match name with
  | none => (pm, .invalidParam)
  | some name =>
    if millisecond = 0 then (pm, .invalidParam)
    else
      let ticks := (millisecond + msPerTick - 1) % 2 ^ 64 / msPerTick % 2 ^ 32
      match create ticks with
      | .error ret => (pm, .swtmr ret)
      | .ok swtmrID =>
        match pm.osPmLockRequest name swtmrID memAlloc with
        | (pm, .ok) =>
          if start ≠ .ok then ((pm.losPmLockRelease mode (some name)).pm, .swtmr start)
          else (pm, .ok)
        | (pm, ret) => (pm, ret)

end PmLocks

/-- The calls, and `OsPmSwtmrHandler` for a name. -/
inductive PmLockOp (ν : Type)
  | request (name : Option ν) (memAlloc : Bool)
  | timeRequest (mode : SysSleep) (name : Option ν) (millisecond : ℕ)
      (create : ℕ → Except SwtmrErrno ℕ) (memAlloc : Bool) (start : SwtmrErrno)
  | release (mode : SysSleep) (name : Option ν)
  | expire (mode : SysSleep) (name : ν)

namespace PmLocks

def exec (msPerTick : ℕ) (pm : PmLocks ν) : PmLockOp ν → PmLocks ν × PmErrno
  | .request name memAlloc => pm.losPmLockRequest name memAlloc
  | .timeRequest mode name millisecond create memAlloc start =>
    pm.losPmTimeLockRequest msPerTick mode name millisecond create memAlloc start
  | .release mode name =>
    let released := pm.losPmLockRelease mode name
    (released.pm, released.ret)
  | .expire mode name =>
    let released := pm.losPmLockRelease mode (some name)
    (released.pm, released.ret)

/-- Runs from `OsPmInit`. -/
def machine (ν : Type) [DecidableEq ν] (msPerTick : ℕ) : Machine (PmLocks ν) (PmLockOp ν) where
  init pm := pm = {}
  allowed _ _ := True
  step pm op := (pm.exec msPerTick op).1

end PmLocks

end

/-! ## The accounts -/

namespace PmLocks

/-- The common count is the sum of the counts of the nodes, and no node has count zero. -/
structure Accounted (pm : PmLocks ν) : Prop where
  sum : pm.lock = (pm.lockList.map OsPmLockCB.count).sum
  pos : ∀ cb ∈ pm.lockList, 1 ≤ cb.count

/-- What every call keeps. A lock with a timer is never counted twice. -/
structure Inv (pm : PmLocks ν) : Prop extends Accounted pm where
  bound : pm.lock ≤ osPmLockMax
  timed : ∀ cb ∈ pm.lockList, cb.swtmrID ≠ osInvalid → cb.count = 1

variable {pm : PmLocks ν} {name : ν} {l pre post : List (OsPmLockCB ν)} {cb cb' lock : OsPmLockCB ν}
  {n n' swtmrID msPerTick : ℕ}

theorem sum_replace (pre post : List (OsPmLockCB ν)) (cb : OsPmLockCB ν) :
    ((pre ++ cb :: post).map OsPmLockCB.count).sum =
      ((pre ++ post).map OsPmLockCB.count).sum + cb.count := by
  simp only [List.map_append, List.map_cons, List.sum_append, List.sum_cons]
  omega

/-- The count of one node changes together with the common count. -/
theorem Inv.replace (h : Inv ⟨n, pre ++ cb :: post⟩)
    (hsum : n' + cb.count = n + cb'.count) (hbound : n' ≤ osPmLockMax) (hpos : 1 ≤ cb'.count)
    (htimed : cb'.swtmrID ≠ osInvalid → cb'.count = 1) : Inv ⟨n', pre ++ cb' :: post⟩ := by
  have hpos' := h.pos
  have htimed' := h.timed
  simp only [List.forall_mem_append, List.forall_mem_cons] at hpos' htimed'
  refine ⟨⟨?_, ?_⟩, hbound, ?_⟩
  · have := h.sum
    simp only [sum_replace] at this ⊢
    omega
  · simp only [List.forall_mem_append, List.forall_mem_cons]
    exact ⟨hpos'.1, hpos, hpos'.2.2⟩
  · simp only [List.forall_mem_append, List.forall_mem_cons]
    exact ⟨htimed'.1, htimed, htimed'.2.2⟩

variable {n : ℕ}

theorem Inv.remove (h : Inv ⟨n + cb.count, pre ++ cb :: post⟩) : Inv ⟨n, pre ++ post⟩ := by
  have hsub : ∀ x ∈ pre ++ post, x ∈ pre ++ cb :: post := fun x hx => by
    rcases List.mem_append.mp hx with hx | hx <;> simp [hx]
  refine ⟨⟨?_, fun x hx => h.pos x (hsub x hx)⟩, ?_, fun x hx => h.timed x (hsub x hx)⟩
  · have := h.sum
    simp only [sum_replace] at this
    exact Nat.add_right_cancel this
  · exact Nat.le_of_add_right_le h.bound

theorem Inv.count_le (h : Inv ⟨n, pre ++ cb :: post⟩) : cb.count ≤ n := by
  have := h.sum
  simp only [sum_replace] at this
  omega

theorem Inv.init : Inv ({} : PmLocks ν) where
  sum := rfl
  pos := by simp
  bound := Nat.zero_le _
  timed := by simp

variable [DecidableEq ν]

/-- A request for the name finds room in the common count, or it will not change the count of its
node. -/
def Room (pm : PmLocks ν) (name : ν) : Prop :=
  pm.lock < osPmLockMax ∨
    ∃ found ∈ search name pm.lockList,
      found.2.1.swtmrID ≠ osInvalid ∨ found.2.1.count = osPmLockMax
deriving Decidable

def Unsaturated (pm : PmLocks ν) : PmLockOp ν → Prop
  | .request name _ => ∀ n ∈ name, pm.Room n
  | .timeRequest _ name _ _ _ _ => ∀ n ∈ name, pm.Room n
  | .release _ _ => True
  | .expire _ _ => True

instance (pm : PmLocks ν) (op) : Decidable (pm.Unsaturated op) := by
  unfold Unsaturated
  split <;> infer_instance

instance (msPerTick : ℕ) (pm : PmLocks ν) (op : PmLockOp ν) :
    Decidable ((machine ν msPerTick).allowed pm op) := isTrue trivial

theorem search_eq_none (h : search name l = none) : ∀ x ∈ l, x.name ≠ name := by
  induction l with
  | nil => simp
  | cons x l ih =>
    simp only [search] at h
    split_ifs at h with hx
    rw [Option.map_eq_none_iff] at h
    simpa [hx] using ih h

theorem search_eq_some (h : search name l = some (pre, cb, post)) :
    l = pre ++ cb :: post ∧ cb.name = name ∧ ∀ x ∈ pre, x.name ≠ name := by
  induction l generalizing pre with
  | nil => simp [search] at h
  | cons x l ih =>
    simp only [search] at h
    split_ifs at h with hx
    · obtain ⟨rfl, rfl, rfl⟩ : [] = pre ∧ x = cb ∧ l = post := by simpa using h
      simp [hx]
    · obtain ⟨⟨pre', cb', post'⟩, hs, heq⟩ := Option.map_eq_some_iff.mp h
      obtain ⟨rfl, rfl, rfl⟩ : x :: pre' = pre ∧ cb' = cb ∧ post' = post := by simpa using heq
      obtain ⟨hl, hname, hpre⟩ := ih hs
      exact ⟨by rw [hl, List.cons_append], hname, by simpa [hx] using hpre⟩

theorem search_append (hpre : ∀ x ∈ pre, x.name ≠ name) (hcb : cb.name = name) :
    search name (pre ++ cb :: post) = some (pre, cb, post) := by
  induction pre with
  | nil => simp [search, hcb]
  | cons x _ ih =>
    have hx := hpre x (by simp)
    simp [search, hx, ih fun y hy => hpre y (by simp [hy])]

variable {swtmrID : ℕ} {memAlloc : Bool}

theorem osPmLockRequest_of_none (hs : search name pm.lockList = none) :
    (pm.osPmLockRequest name swtmrID true).1 =
      ⟨if pm.lock < osPmLockMax then pm.lock + 1 else pm.lock,
        pm.lockList ++ [⟨name, 1, swtmrID⟩]⟩ := by
  by_cases hlt : pm.lock < osPmLockMax <;> simp [osPmLockRequest, hs, hlt]

theorem osPmLockRequest_of_some (hs : search name pm.lockList = some (pre, cb, post))
    (hlock : (if cb.count < osPmLockMax then { cb with count := cb.count + 1 } else cb) = lock) :
    (pm.osPmLockRequest name swtmrID memAlloc).1 = if lock.swtmrID ≠ osInvalid ∧ lock.count > 1 then
        ⟨pm.lock, pre ++ { lock with count := lock.count - 1 } :: post⟩
      else ⟨if pm.lock < osPmLockMax then pm.lock + 1 else pm.lock, pre ++ lock :: post⟩ := by
  simp only [osPmLockRequest, hs, hlock]
  split_ifs <;> rfl

variable {mode : SysSleep}

theorem losPmLockRelease_of_some (hs : search name pm.lockList = some (pre, cb, post)) :
    (pm.losPmLockRelease mode (some name)).pm = ⟨pm.lock - 1, if cb.count > 0 then
        if cb.count - 1 = 0 then pre ++ post else pre ++ { cb with count := cb.count - 1 } :: post
      else pm.lockList⟩ := by
  by_cases hlock : pm.lock > 0
  · simp only [losPmLockRelease, hs]
    split_ifs <;> rfl
  · have hz : pm.lock = 0 := by omega
    simp only [losPmLockRelease, hs, hz]
    split_ifs <;> rfl

theorem release_replace (hpre : ∀ x ∈ pre, x.name ≠ name) (hcb : cb.name = name)
    (hpos : 1 ≤ cb.count) :
    (losPmLockRelease ⟨n + 1, pre ++ { cb with count := cb.count + 1 } :: post⟩ mode
      (some name)).pm = ⟨n, pre ++ cb :: post⟩ := by
  have hs : search name (pre ++ { cb with count := cb.count + 1 } :: post) =
      some (pre, { cb with count := cb.count + 1 }, post) := search_append hpre hcb
  have hne : cb.count ≠ 0 := by omega
  simp [losPmLockRelease, hs, hne]

theorem release_append (hl : ∀ x ∈ l, x.name ≠ name) :
    (losPmLockRelease ⟨n + 1, l ++ [⟨name, 1, swtmrID⟩]⟩ mode (some name)).pm = ⟨n, l⟩ := by
  have hs : search name (l ++ [⟨name, 1, swtmrID⟩]) = some (l, ⟨name, 1, swtmrID⟩, []) :=
    search_append hl rfl
  simp [losPmLockRelease, hs]

theorem osPmLockRequest_spec (h : Inv pm) (hroom : pm.Room name) (swtmrID : ℕ) (memAlloc : Bool) :
    ((pm.osPmLockRequest name swtmrID memAlloc).2 ≠ .ok ∧
      (pm.osPmLockRequest name swtmrID memAlloc).1 = pm) ∨
    ((pm.osPmLockRequest name swtmrID memAlloc).2 = .ok ∧
      Inv (pm.osPmLockRequest name swtmrID memAlloc).1 ∧
      ∀ mode, ((pm.osPmLockRequest name swtmrID memAlloc).1.losPmLockRelease mode
        (some name)).pm = pm) := by
  obtain ⟨lock, lockList⟩ := pm
  cases hs : search name lockList with
  | none =>
    have hlt : lock < osPmLockMax := by
      rcases hroom with hlt | ⟨found, hmem, -⟩
      · exact hlt
      · simp [hs] at hmem
    cases memAlloc with
    | false => exact .inl (by simp [osPmLockRequest, hs])
    | true =>
      right
      have heq : osPmLockRequest ⟨lock, lockList⟩ name swtmrID true =
          (⟨lock + 1, lockList ++ [⟨name, 1, swtmrID⟩]⟩, .ok) := by
        simp [osPmLockRequest, hs, hlt]
      rw [heq]
      refine ⟨rfl, ⟨⟨?_, ?_⟩, hlt, ?_⟩, fun mode => release_append (search_eq_none hs)⟩
      · simpa using h.sum
      · simpa [or_imp, forall_and] using h.pos
      · simpa [or_imp, forall_and] using h.timed
  | some found =>
    obtain ⟨pre, cb, post⟩ := found
    obtain ⟨rfl, hname, hpre⟩ := search_eq_some hs
    have hpos := h.pos cb (by simp)
    have hle := h.count_le
    by_cases htimed : cb.swtmrID ≠ osInvalid
    · -- the count goes up and down again
      have hone := h.timed cb (by simp) htimed
      have heq : osPmLockRequest ⟨lock, pre ++ cb :: post⟩ name swtmrID memAlloc =
          (⟨lock, pre ++ cb :: post⟩, .alreadyLock) := by
        have hlt : cb.count < osPmLockMax := by rw [hone]; decide
        have hgt : 0 < cb.count := hpos
        simp [osPmLockRequest, hs, hlt, htimed, hgt]
      rw [heq]
      exact .inl ⟨by simp, rfl⟩
    · by_cases hmax : cb.count = osPmLockMax
      · -- this node has all of the common count
        have heq : osPmLockRequest ⟨lock, pre ++ cb :: post⟩ name swtmrID memAlloc =
            (⟨lock, pre ++ cb :: post⟩, .notLock) := by
          have hge : ¬lock < osPmLockMax := by omega
          have hlt : ¬cb.count < osPmLockMax := by omega
          simp [osPmLockRequest, hs, hlt, htimed, hge]
        rw [heq]
        exact .inl ⟨by simp, rfl⟩
      · have hlt : lock < osPmLockMax := by
          rcases hroom with hlt | ⟨found, hmem, htime | hcount⟩
          · exact hlt
          · obtain rfl : (pre, cb, post) = found := by simpa [hs] using hmem
            exact absurd htime htimed
          · obtain rfl : (pre, cb, post) = found := by simpa [hs] using hmem
            exact absurd hcount hmax
        have hclt : cb.count < osPmLockMax := by omega
        have heq : osPmLockRequest ⟨lock, pre ++ cb :: post⟩ name swtmrID memAlloc =
            (⟨lock + 1, pre ++ { cb with count := cb.count + 1 } :: post⟩, .ok) := by
          simp [osPmLockRequest, hs, hclt, htimed, hlt]
        rw [heq]
        refine .inr ⟨rfl, ?_, fun mode => release_replace hpre hname hpos⟩
        exact h.replace (by dsimp only; omega) hlt (by simp) fun ht => absurd ht htimed

theorem exec_timeRequest_started (pm : PmLocks ν) (name : ν) (swtmrID : ℕ) (memAlloc : Bool) :
    (pm.exec 1 (.timeRequest .normal (some name) 1 (fun _ => .ok swtmrID) memAlloc .ok)).1 =
      (pm.osPmLockRequest name swtmrID memAlloc).1 := by
  simp only [exec, losPmTimeLockRequest]
  generalize pm.osPmLockRequest name swtmrID memAlloc = p
  obtain ⟨pm', ret⟩ := p
  cases ret <;> rfl

theorem losPmLockRelease_spec (h : Inv pm) (mode : SysSleep) (name : Option ν) :
    ((pm.losPmLockRelease mode name).ret ≠ .ok ∧ (pm.losPmLockRelease mode name).pm = pm) ∨
    ((pm.losPmLockRelease mode name).ret = .ok ∧ Inv (pm.losPmLockRelease mode name).pm) := by
  cases name with
  | none => exact .inl (by simp [losPmLockRelease])
  | some name =>
    obtain ⟨lock, lockList⟩ := pm
    cases hs : search name lockList with
    | none => exact .inl (by simp [losPmLockRelease, hs])
    | some found =>
      obtain ⟨pre, cb, post⟩ := found
      obtain ⟨rfl, -, -⟩ := search_eq_some hs
      have hpos : 0 < cb.count := h.pos cb (by simp)
      have hle := h.count_le
      have hbound : lock ≤ osPmLockMax := h.bound
      have hlock : 0 < lock := by omega
      right
      by_cases hone : cb.count - 1 = 0
      · obtain ⟨n, rfl⟩ : ∃ n, lock = n + cb.count := ⟨lock - cb.count, by omega⟩
        have hn : n + cb.count - 1 = n := by omega
        simp only [losPmLockRelease, hs, hpos, hone, hlock, if_true, hn]
        exact ⟨trivial, h.remove⟩
      · simp only [losPmLockRelease, hs, hpos, hone, hlock, if_true]
        refine ⟨trivial, h.replace (by dsimp only; omega) (by omega) (by dsimp only; omega) ?_⟩
        intro ht
        have := h.timed cb (by simp) ht
        omega

/-- One call keeps the accounts, and a call that fails changes nothing. -/
theorem Inv.exec {op : PmLockOp ν} (h : Inv pm) (hop : pm.Unsaturated op) :
    Inv (pm.exec msPerTick op).1 ∧
      ((pm.exec msPerTick op).2 ≠ .ok → (pm.exec msPerTick op).1 = pm) := by
  cases op with
  | request name memAlloc =>
    cases name with
    | none => exact ⟨h, fun _ => rfl⟩
    | some name =>
      simp only [PmLocks.exec]
      rcases osPmLockRequest_spec h (hop name rfl) osInvalid memAlloc with
        ⟨hne, heq⟩ | ⟨hok, hinv, -⟩
      · exact ⟨heq.symm ▸ h, fun _ => heq⟩
      · exact ⟨hinv, fun hne => absurd hok hne⟩
  | timeRequest mode name millisecond create memAlloc =>
    cases name with
    | none => exact ⟨h, fun _ => rfl⟩
    | some name =>
      simp only [PmLocks.exec, losPmTimeLockRequest]
      by_cases hms : millisecond = 0
      · rw [if_pos hms]
        exact ⟨h, fun _ => rfl⟩
      rw [if_neg hms]
      cases create ((millisecond + msPerTick - 1) % 2 ^ 64 / msPerTick % 2 ^ 32) with
      | error => exact ⟨h, fun _ => rfl⟩
      | ok swtmrID =>
        have hspec := osPmLockRequest_spec h (hop name rfl) swtmrID memAlloc
        dsimp only
        generalize pm.osPmLockRequest name swtmrID memAlloc = p at hspec ⊢
        obtain ⟨pm', ret⟩ := p
        rcases hspec with ⟨hne, rfl⟩ | ⟨rfl, hinv, hundo⟩
        · cases ret <;> first | exact absurd rfl hne | exact ⟨h, fun _ => rfl⟩
        · dsimp only
          split_ifs
          · rw [hundo mode]
            exact ⟨h, fun _ => rfl⟩
          · exact ⟨hinv, fun hne => absurd rfl hne⟩
  | release mode name =>
    simp only [PmLocks.exec]
    rcases losPmLockRelease_spec h mode name with ⟨hne, heq⟩ | ⟨hok, hinv⟩
    · exact ⟨heq.symm ▸ h, fun _ => heq⟩
    · exact ⟨hinv, fun hne => absurd hok hne⟩
  | expire mode name =>
    simp only [PmLocks.exec]
    rcases losPmLockRelease_spec h mode (some name) with ⟨hne, heq⟩ | ⟨hok, hinv⟩
    · exact ⟨heq.symm ▸ h, fun _ => heq⟩
    · exact ⟨hinv, fun hne => absurd hok hne⟩

/-- In every run whose requests find room the locks are accounted for, and a call that fails changes
nothing. -/
theorem accounted_of_unsaturated (msPerTick : ℕ) (pm : PmLocks ν)
    (h : ((machine ν msPerTick).restrict Unsaturated).Reaches pm) :
    pm.Accounted ∧ ∀ op, pm.Unsaturated op → (pm.exec msPerTick op).2 ≠ .ok →
      (pm.exec msPerTick op).1 = pm := by
  have hinv : Inv pm :=
    h.invariant (fun pm hpm => hpm ▸ .init) fun pm op hinv hop => (hinv.exec hop.2).1
  exact ⟨hinv.toAccounted, fun op hop => (hinv.exec hop).2⟩

/-- A lock is requested twice, the second time with a timer that does not start. -/
def undoneRequest : List (PmLockOp ℕ) :=
  [.request (some 7) true, .timeRequest .light (some 7) 25 (fun _ => .ok 3) true .maxSize]

theorem accounted_of_unsaturated_undone :
    (((machine ℕ 10).restrict Unsaturated).run {} undoneRequest).Accounted :=
  (accounted_of_unsaturated 10 _ ((Machine.Reaches.start rfl).run undoneRequest (by decide))).1

theorem reaches_repeated (n : ℕ) (hn : n + 1 ≤ osPmLockMax) :
    (machine Bool 10).Reaches ⟨n + 1, [⟨true, n + 1, osInvalid⟩]⟩ := by
  induction n with
  | zero =>
    have hs : (machine Bool 10).Reaches {} := .start rfl
    exact hs.step (.request (some true) true) trivial
  | succ n ih =>
    have hs := (ih (by omega)).step (.request (some true) true) trivial
    have hlt : n + 1 < osPmLockMax := hn
    simpa [machine, exec, losPmLockRequest, osPmLockRequest, search, hlt] using hs

/-- A lock has been requested 65535 times. A request for another one fails, and puts a node with
count one on the list. -/
theorem saturated_request_changes : (machine Bool 10).Reaches
      ⟨osPmLockMax, [⟨true, osPmLockMax, osInvalid⟩]⟩ ∧
    exec 10 ⟨osPmLockMax, [⟨true, osPmLockMax, osInvalid⟩]⟩ (.request (some false) true) =
      (⟨osPmLockMax, [⟨true, osPmLockMax, osInvalid⟩, ⟨false, 1, osInvalid⟩]⟩, .notLock) ∧
    ¬Accounted ⟨osPmLockMax, [⟨true, osPmLockMax, osInvalid⟩, ⟨false, 1, osInvalid⟩]⟩ := by
  refine ⟨reaches_repeated 65534 (by decide), by decide, fun h => ?_⟩
  exact absurd h.sum (by decide)

/-! ## The names -/

theorem nodup_osPmLockRequest (h : (pm.lockList.map OsPmLockCB.name).Nodup) :
    ((pm.osPmLockRequest name swtmrID memAlloc).1.lockList.map OsPmLockCB.name).Nodup := by
  cases hs : search name pm.lockList with
  | none =>
    have hnew : (pm.lockList.map OsPmLockCB.name ++ [name]).Nodup := by
      rw [List.nodup_append]
      refine ⟨h, by simp, ?_⟩
      simpa using search_eq_none hs
    cases memAlloc with
    | false => simpa [osPmLockRequest, hs] using h
    | true =>
      simp only [osPmLockRequest, hs]
      split_ifs <;> simpa using hnew
  | some found =>
    rw [(search_eq_some hs).1] at h
    simp only [osPmLockRequest, hs]
    split_ifs <;> simpa using h

theorem sublist_losPmLockRelease {name : Option ν} :
    List.Sublist ((pm.losPmLockRelease mode name).pm.lockList.map OsPmLockCB.name)
      (pm.lockList.map OsPmLockCB.name) := by
  cases name with
  | none => exact List.Sublist.refl _
  | some name =>
    cases hs : search name pm.lockList with
    | none => simp [losPmLockRelease, hs]
    | some found =>
      obtain ⟨lock, lockList⟩ := pm
      obtain ⟨rfl, -, -⟩ := search_eq_some hs
      simp only [losPmLockRelease, hs]
      split_ifs <;> simp

theorem nodup_of_reaches (h : (machine ν msPerTick).Reaches pm) :
    (pm.lockList.map OsPmLockCB.name).Nodup := by
  induction h with
  | start hi =>
    rw [hi]
    exact List.nodup_nil
  | @step pm op _ _ ih =>
    cases op with
    | request name =>
      cases name with
      | none => exact ih
      | some => exact nodup_osPmLockRequest ih
    | timeRequest _ name millisecond create memAlloc =>
      cases name with
      | none => exact ih
      | some name =>
        simp only [machine, exec, losPmTimeLockRequest]
        by_cases hms : millisecond = 0
        · rwa [if_pos hms]
        rw [if_neg hms]
        cases create ((millisecond + msPerTick - 1) % 2 ^ 64 / msPerTick % 2 ^ 32) with
        | error => exact ih
        | ok swtmrID =>
          have hreq := @nodup_osPmLockRequest ν pm name _ swtmrID memAlloc ih
          dsimp only
          generalize pm.osPmLockRequest name swtmrID memAlloc = p at hreq ⊢
          obtain ⟨pm', ret⟩ := p
          cases ret <;> try exact hreq
          split_ifs
          · exact hreq.sublist sublist_losPmLockRelease
          · exact hreq
    | release => exact ih.sublist sublist_losPmLockRelease
    | expire => exact ih.sublist sublist_losPmLockRelease

end PmLocks

end LiteOS.Power
