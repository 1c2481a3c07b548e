import LiteOS.Power.Locks

/-!
# Power locks under preemption

`OsPmLockRequest` and `LOS_PmLockRelease` read the first pointer of the list before they lock the
interrupts. A call is cut there, and again where `LOS_PmLockRelease` has unlocked the interrupts and
still has to delete the timer of its node and to free the node. Any number of tasks and interrupt
handlers call, and any of them may take its next step.

While the pointer that a call has read is the first of the list when it locks the interrupts, the
call does what it does without preemption.
-/

namespace LiteOS.Power

open Lib Kernel Function List

/-- A value of the variable `list`: the head of the list or the list member of a node. -/
inductive ListPtr
  | head
  | node (a : ℕ)
deriving DecidableEq

/-- How far a call has come: it has read the pointer; or it has a node to delete the timer of, or to
free. -/
inductive LockPc (ν : Type)
  | idle
  | request (name : ν) (swtmrID : ℕ) (list : ListPtr)
  | release (name : ν) (list : ListPtr)
  | swtmrDelete (a : ℕ)
  | memFree (a : ℕ)
deriving DecidableEq

def LockPc.list {ν : Type} : LockPc ν → Option ListPtr
  | .request _ _ list => some list
  | .release _ list => some list
  | _ => none

/-- The list with the addresses of its nodes, the nodes that are allocated, and the calls. Not in
the source: whether a call has touched a node that was freed, or has gone through the null pointers
of a node that was deleted from the list. -/
structure LockHeap (ν : Type) where
  lock : ℕ := 0
  lockList : List ℕ := []
  node : ℕ → Option (OsPmLockCB ν) := fun _ => none
  pc : ℕ → LockPc ν := fun _ => .idle
  touchedFreed : Bool := false
  followedNull : Bool := false

inductive Walk (ν : Type)
  | head
  | found (a : ℕ) (cb : OsPmLockCB ν)
  | freed
  | null

inductive LockStep (ν : Type)
  | request (who : ℕ) (name : ν) (swtmrID : ℕ)
  | release (who : ℕ) (name : ν)
  /-- The section with locked interrupts; `mem` is the answer of `LOS_MemAlloc`. -/
  | enter (who : ℕ) (mem : Option ℕ)
  | swtmrDelete (who : ℕ)
  | memFree (who : ℕ)
deriving DecidableEq

namespace LockHeap

variable {ν : Type}

/-- `head->pstNext` -/
def first (s : LockHeap ν) : ListPtr :=
  match s.lockList with
  | [] => .head
  | a :: _ => .node a

@[simps]
def setPc (s : LockHeap ν) (who : ℕ) (pc : LockPc ν) : LockHeap ν :=
  { s with pc := update s.pc who pc }

@[simps]
def setNode (s : LockHeap ν) (a : ℕ) (cb : Option (OsPmLockCB ν)) : LockHeap ν :=
  { s with node := update s.node a cb }

@[simps]
def countUp (s : LockHeap ν) : LockHeap ν :=
  { s with lock := if s.lock < osPmLockMax then s.lock + 1 else s.lock }

section

variable [DecidableEq ν]

section

variable (s : LockHeap ν)

def walkList (node : ℕ → Option (OsPmLockCB ν)) (name : ν) : List ℕ → Walk ν
  | [] => .head
  | a :: l =>
    match node a with
    | none => .freed
    | some cb => if cb.name = name then .found a cb else walkList node name l

/-- The walk from a pointer that was read earlier. `LOS_ListDelete` sets the pointers of a node that
it takes off the list to null. -/
def walk (name : ν) : ListPtr → Walk ν
  | .head => .head
  | .node a =>
    if a ∈ s.lockList then walkList s.node name (s.lockList.dropWhile (· ≠ a))
    else
      match s.node a with
      | none => .freed
      | some cb => if cb.name = name then .found a cb else .null

/-- `OsPmLockRequest` from `LOS_IntLock` on -/
def enterRequest (name : ν) (swtmrID : ℕ) (list : ListPtr) (mem : Option ℕ) :
    LockHeap ν :=
  match s.walk name list with
  | .freed => { s with touchedFreed := true }
  | .null => { s with followedNull := true }
  | .head =>
    match mem with
    | none => s
    | some a =>
      countUp { s with
        lockList := s.lockList ++ [a]
        node := update s.node a (some ⟨name, 1, swtmrID⟩) }
  | .found a cb =>
    let cb := if cb.count < osPmLockMax then { cb with count := cb.count + 1 } else cb
    if cb.swtmrID ≠ osInvalid ∧ cb.count > 1 then
      s.setNode a (some { cb with count := cb.count - 1 })
    else (s.setNode a (some cb)).countUp

/-- `LOS_PmLockRelease` from `LOS_IntLock` to `LOS_IntRestore` -/
def enterRelease (who : ℕ) (name : ν) (list : ListPtr) : LockHeap ν :=
  let countDown (s : LockHeap ν) := { s with lock := s.lock - 1 }
  match s.walk name list with
  | .freed => { s with touchedFreed := true }
  | .null => { s with followedNull := true }
  | .head => s
  | .found a cb =>
    if cb.count > 0 then
      let s := s.setNode a (some { cb with count := cb.count - 1 })
      if cb.count - 1 = 0 then
        if a ∈ s.lockList then
          countDown { s.setPc who (.swtmrDelete a) with lockList := s.lockList.erase a }
        else { s with followedNull := true }
      else countDown s
    else countDown s

def exec : LockStep ν → LockHeap ν
  | .request who name swtmrID => s.setPc who (.request name swtmrID s.first)
  | .release who name => s.setPc who (.release name s.first)
  | .enter who mem =>
    match s.pc who with
    | .request name swtmrID list => (s.setPc who .idle).enterRequest name swtmrID list mem
    | .release name list => (s.setPc who .idle).enterRelease who name list
    | _ => s
  | .swtmrDelete who =>
    match s.pc who with
    | .swtmrDelete a =>
      { s.setPc who (.memFree a) with touchedFreed := s.touchedFreed || (s.node a).isNone }
    | _ => s
  | .memFree who =>
    match s.pc who with
    | .memFree a =>
      { (s.setPc who .idle).setNode a none with
        touchedFreed := s.touchedFreed || (s.node a).isNone }
    | _ => s

/-- When a step can come. The memory that `LOS_MemAlloc` returns is not in use. -/
def Enabled : LockStep ν → Prop
  | .request who _ _ => s.pc who = .idle
  | .release who _ => s.pc who = .idle
  | .enter _ mem => ∀ a ∈ mem, s.node a = none
  | .swtmrDelete _ => True
  | .memFree _ => True

/-- Runs from `OsPmInit`. -/
def machine (ν : Type) [DecidableEq ν] : Machine (LockHeap ν) (LockStep ν) where
  init s := s = {}
  allowed := Enabled
  step := exec

end

instance (s : LockHeap ν) (op) : Decidable ((machine ν).allowed s op) := by
  unfold machine Enabled
  dsimp only
  split <;> infer_instance

end

/-! ## What a call may rely on -/

/-- The call still has to delete the timer of the node, or to free the node. -/
def Owes (s : LockHeap ν) (who a : ℕ) : Prop :=
  s.pc who = .swtmrDelete a ∨ s.pc who = .memFree a

/-- The nodes of the list are allocated, and so are those that a call still has to free, which are
off the list and the business of that call only. -/
structure Inv (s : LockHeap ν) : Prop where
  nodup : s.lockList.Nodup
  linked : ∀ a ∈ s.lockList, s.node a ≠ none
  owed : ∀ who a, s.Owes who a → a ∉ s.lockList ∧ s.node a ≠ none
  alone : ∀ who who' a, s.Owes who a → s.Owes who' a → who = who'
  touchedFreed : s.touchedFreed = false
  followedNull : s.followedNull = false

/-- When a call locks the interrupts, the pointer that it has read is still the first of the
list. -/
def Steady (s : LockHeap ν) : LockStep ν → Prop
  | .enter who _ => ∀ list ∈ (s.pc who).list, list = s.first
  | _ => True

def view (s : LockHeap ν) : PmLocks ν := ⟨s.lock, s.lockList.filterMap s.node⟩

instance (s : LockHeap ν) (op) : Decidable (s.Steady op) := by
  unfold Steady
  split <;> infer_instance

variable {s : LockHeap ν} {name : ν} {node : ℕ → Option (OsPmLockCB ν)} {l pre post : List ℕ}
  {a who n : ℕ} {cb : OsPmLockCB ν}

section

variable (h : Inv s)
include h

/-- A step of a call that leaves the heap alone and does not take over a node. -/
theorem Inv.setPc {pc : LockPc ν} (hpc : ∀ a, pc ≠ .swtmrDelete a ∧ pc ≠ .memFree a) :
    Inv (s.setPc who pc) := by
  have howes : ∀ w a, (s.setPc who pc).Owes w a → s.Owes w a := fun w a hw => by
    by_cases hww : w = who
    · subst hww
      simp only [Owes, setPc_pc, update_self] at hw
      exact hw.elim (fun hc => absurd hc (hpc a).1) fun hc => absurd hc (hpc a).2
    · simpa [Owes, hww] using hw
  exact ⟨h.nodup, h.linked, fun w a hw => h.owed w a (howes w a hw),
    fun w w' a hw hw' => h.alone w w' a (howes w a hw) (howes w' a hw'), h.touchedFreed,
    h.followedNull⟩

theorem Inv.setNode : Inv (s.setNode a (some cb)) := by
  have hne : ∀ b, s.node b ≠ none → update s.node a (some cb) b ≠ none := fun b hb => by
    by_cases hba : b = a
    · subst hba
      simp
    · rwa [update_of_ne hba]
  exact ⟨h.nodup, fun b hb => hne b (h.linked b hb),
    fun w b hw => ⟨(h.owed w b hw).1, hne b (h.owed w b hw).2⟩, h.alone, h.touchedFreed,
    h.followedNull⟩

theorem Inv.setLock : Inv { s with lock := n } :=
  ⟨h.nodup, h.linked, h.owed, h.alone, h.touchedFreed, h.followedNull⟩

theorem Inv.link (ha : s.node a = none) : Inv { s with
      lockList := s.lockList ++ [a]
      node := update s.node a (some cb) } := by
  have hnew : a ∉ s.lockList := fun hmem => h.linked a hmem ha
  have hset : Inv (s.setNode a (some cb)) := h.setNode
  refine ⟨?_, ?_, fun w b hw => ?_, h.alone, h.touchedFreed, h.followedNull⟩
  · rw [nodup_append]
    exact ⟨h.nodup, by simp, by
      intro b hb c hc hbc
      exact hnew (mem_singleton.mp hc ▸ hbc ▸ hb)⟩
  · intro b hb
    rcases mem_append.mp hb with hb | hb
    · exact hset.linked b hb
    · obtain rfl : b = a := by simpa using hb
      simp
  · refine ⟨fun hb => ?_, (hset.owed w b hw).2⟩
    rcases mem_append.mp hb with hb | hb
    · exact (h.owed w b hw).1 hb
    · obtain rfl : b = a := by simpa using hb
      exact (h.owed w b hw).2 ha

theorem Inv.unlink (ha : a ∈ s.lockList) :
    Inv { s.setPc who (.swtmrDelete a) with lockList := s.lockList.erase a } := by
  have howes : ∀ w b,
      Owes { s.setPc who (.swtmrDelete a) with lockList := s.lockList.erase a } w b →
      (w = who ∧ b = a) ∨ (w ≠ who ∧ s.Owes w b) := by
    intro w b hw
    by_cases hww : w = who
    · subst hww
      left
      simpa [Owes, eq_comm] using hw
    · right
      exact ⟨hww, by simpa [Owes, hww] using hw⟩
  refine ⟨h.nodup.erase a, fun b hb => h.linked b (mem_of_mem_erase hb), fun w b hw => ?_,
    fun w w' b hw hw' => ?_, h.touchedFreed, h.followedNull⟩
  · rcases howes w b hw with ⟨-, rfl⟩ | ⟨-, hw⟩
    · exact ⟨h.nodup.not_mem_erase, h.linked b ha⟩
    · exact ⟨fun hb => (h.owed w b hw).1 (mem_of_mem_erase hb), (h.owed w b hw).2⟩
  · rcases howes w b hw with ⟨rfl, rfl⟩ | ⟨-, hs⟩
    · rcases howes w' b hw' with ⟨rfl, -⟩ | ⟨-, hs'⟩
      · rfl
      · exact absurd ha (h.owed w' b hs').1
    · rcases howes w' b hw' with ⟨-, rfl⟩ | ⟨-, hs'⟩
      · exact absurd ha (h.owed w b hs).1
      · exact h.alone w w' b hs hs'

/-- The node that a call has taken off the list is the business of that call. -/
theorem Inv.swtmrDelete (hpc : s.pc who = .swtmrDelete a) :
    Inv { s.setPc who (.memFree a) with touchedFreed := s.touchedFreed || (s.node a).isNone } := by
  have hnode := (h.owed who a (.inl hpc)).2
  have howes : ∀ w b, (s.setPc who (.memFree a)).Owes w b → s.Owes w b := fun w b hw => by
    by_cases hww : w = who
    · subst hww
      obtain rfl : a = b := by simpa [Owes] using hw
      exact .inl hpc
    · simpa [Owes, hww] using hw
  exact ⟨h.nodup, h.linked, fun w b hw => h.owed w b (howes w b hw),
    fun w w' b hw hw' => h.alone w w' b (howes w b hw) (howes w' b hw'),
    by simp [h.touchedFreed, Option.isSome_iff_ne_none.mpr hnode], h.followedNull⟩

theorem Inv.memFree (hpc : s.pc who = .memFree a) : Inv { (s.setPc who .idle).setNode a none with
      touchedFreed := s.touchedFreed || (s.node a).isNone } := by
  obtain ⟨hlist, hnode⟩ := h.owed who a (.inr hpc)
  have howes : ∀ w b, (s.setPc who .idle).Owes w b → w ≠ who ∧ s.Owes w b := fun w b hw => by
    by_cases hww : w = who
    · subst hww
      simp [Owes] at hw
    · exact ⟨hww, by simpa [Owes, hww] using hw⟩
  refine ⟨h.nodup, fun b hb => ?_, fun w b hw => ?_, fun w w' b hw hw' => ?_,
    by simp [h.touchedFreed, Option.isSome_iff_ne_none.mpr hnode], h.followedNull⟩
  · have hba : b ≠ a := fun hba => hlist (hba ▸ hb)
    simpa [hba] using h.linked b hb
  · obtain ⟨hww, hs⟩ := howes w b hw
    have hba : b ≠ a := by
      rintro rfl
      exact hww (h.alone w who b hs (.inr hpc))
    simpa [hba] using h.owed w b hs
  · exact h.alone w w' b (howes w b hw).2 (howes w' b hw').2

end

theorem Inv.init : Inv ({} : LockHeap ν) where
  nodup := nodup_nil
  linked := by simp
  owed := by simp [Owes]
  alone := by simp [Owes]
  touchedFreed := rfl
  followedNull := rfl

theorem filterMap_update {x : Option (OsPmLockCB ν)} (ha : a ∉ l) :
    l.filterMap (update node a x) = l.filterMap node := by
  refine filterMap_congr fun b hb => update_of_ne ?_ _ _
  rintro rfl
  exact ha hb

/-- The list with the node that was found replaced, as the calls without preemption see it. -/
theorem filterMap_replace (hn : (pre ++ a :: post).Nodup) :
    (pre ++ a :: post).filterMap (update node a (some cb)) =
      pre.filterMap node ++ cb :: post.filterMap node := by
  rw [nodup_append, nodup_cons] at hn
  have hpre : a ∉ pre := fun ha => hn.2.2 a ha a (by simp) rfl
  rw [filterMap_append, filterMap_cons_some (update_self a (some cb) node),
    filterMap_update hpre, filterMap_update hn.2.1.1]

variable [DecidableEq ν]

/-! ## The walk -/

theorem walk_first (s : LockHeap ν) (name : ν) :
    s.walk name s.first = walkList s.node name s.lockList := by
  unfold first
  split
  · rename_i hl
    rw [hl]
    rfl
  · rename_i b l hl
    simp [walk, hl]

theorem walkList_cases (hl : ∀ a ∈ l, node a ≠ none) :
    (walkList node name l = .head ∧ search name (l.filterMap node) = none) ∨
    ∃ pre a cb post, l = pre ++ a :: post ∧ node a = some cb ∧ walkList node name l = .found a cb ∧
      search name (l.filterMap node) = some (pre.filterMap node, cb, post.filterMap node) := by
  induction l with
  | nil => exact .inl ⟨rfl, rfl⟩
  | cons b l ih =>
    obtain ⟨cb, hb⟩ := Option.ne_none_iff_exists'.mp (hl b (by simp))
    by_cases hname : cb.name = name
    · exact .inr ⟨[], b, cb, l, rfl, hb, by simp [walkList, hb, hname], by simp [hb, search, hname]⟩
    · rcases ih fun a ha => hl a (by simp [ha]) with ⟨hw, hs⟩ | ⟨pre, a, cb', post, rfl, ha, hw, hs⟩
      · exact .inl ⟨by simp [walkList, hb, hname, hw], by simp [hb, search, hname, hs]⟩
      · refine .inr ⟨b :: pre, a, cb', post, rfl, ha, by simp [walkList, hb, hname, hw], ?_⟩
        simp only [filterMap_cons, hb, search, if_neg hname, hs]
        rfl

/-! ## The sections with locked interrupts -/

theorem enterRequest_spec (h : Inv s) {mem : Option ℕ} (hmem : ∀ a ∈ mem, s.node a = none)
    (swtmrID : ℕ) :
    Inv (s.enterRequest name swtmrID s.first mem) ∧
      (s.enterRequest name swtmrID s.first mem).view =
        (s.view.osPmLockRequest name swtmrID mem.isSome).1 := by
  rcases @walkList_cases ν name s.node s.lockList _ h.linked with
    ⟨hw, hs⟩ | ⟨pre, a, cb, post, hl, ha, hw, hs⟩
  · cases mem with
    | none => simp [enterRequest, walk_first, hw, view, PmLocks.osPmLockRequest, hs, h]
    | some a =>
      have hfree := hmem a rfl
      have hnew : a ∉ s.lockList := fun hmem => h.linked a hmem hfree
      simp only [enterRequest, walk_first, hw]
      refine ⟨(h.link hfree).setLock, ?_⟩
      have hview : (s.lockList ++ [a]).filterMap
          (update s.node a (some ⟨name, 1, swtmrID⟩)) =
          s.lockList.filterMap s.node ++ [⟨name, 1, swtmrID⟩] := by
        simp [filterMap_update hnew]
      have hreq := @PmLocks.osPmLockRequest_of_none ν s.view name _ swtmrID hs
      rw [Option.isSome_some, hreq]
      simp only [view, countUp, hview]
      rfl
  · have hset : ∀ x n, view { s.setNode a (some x) with lock := n } =
        ⟨n, pre.filterMap s.node ++ x :: post.filterMap s.node⟩ := by
      intro x n
      simp only [view, setNode_lockList, setNode_node]
      rw [hl, filterMap_replace (hl ▸ h.nodup)]
    simp only [enterRequest, walk_first, hw]
    generalize hcb : (if cb.count < osPmLockMax then { cb with count := cb.count + 1 } else cb) = x
    rw [PmLocks.osPmLockRequest_of_some hs hcb]
    by_cases htimed : x.swtmrID ≠ osInvalid ∧ x.count > 1
    · rw [if_pos htimed, if_pos htimed]
      exact ⟨h.setNode, hset _ _⟩
    · rw [if_neg htimed, if_neg htimed]
      exact ⟨h.setNode.setLock, hset _ _⟩

theorem enterRelease_spec (h : Inv s) (mode : SysSleep) : Inv (s.enterRelease who name s.first) ∧
      (s.enterRelease who name s.first).view = (s.view.losPmLockRelease mode (some name)).pm := by
  rcases @walkList_cases ν name s.node s.lockList _ h.linked with
    ⟨hw, hs⟩ | ⟨pre, a, cb, post, hl, ha, hw, hs⟩
  · simp [enterRelease, walk_first, hw, view, PmLocks.losPmLockRelease, hs, h]
  · have hmem : a ∈ s.lockList := by simp [hl]
    have hpre : a ∉ pre := by
      have hn := hl ▸ h.nodup
      rw [nodup_append] at hn
      exact fun ha => hn.2.2 a ha a (by simp) rfl
    have hset : ∀ x n, view { s.setNode a (some x) with lock := n } =
        ⟨n, pre.filterMap s.node ++ x :: post.filterMap s.node⟩ := by
      intro x n
      simp only [view, setNode_lockList, setNode_node]
      rw [hl, filterMap_replace (hl ▸ h.nodup)]
    simp only [enterRelease, walk_first, hw]
    rw [@PmLocks.losPmLockRelease_of_some ν s.view name _ _ cb _ mode hs]
    by_cases hpos : cb.count > 0
    · rw [if_pos hpos, if_pos hpos]
      by_cases hone : cb.count - 1 = 0
      · rw [if_pos hone, if_pos hone, setNode_lockList, if_pos hmem]
        refine ⟨((h.setNode).unlink hmem).setLock, ?_⟩
        have herase : s.lockList.erase a = pre ++ post := by
          rw [hl, erase_append_right _ hpre, erase_cons_head]
        have hn : a ∉ s.lockList.erase a := h.nodup.not_mem_erase
        simp only [view, setPc_node, setNode_node, setPc_lock, setNode_lock, filterMap_update hn,
          herase, filterMap_append]
      · rw [if_neg hone, if_neg hone]
        exact ⟨h.setNode.setLock, hset _ _⟩
    · rw [if_neg hpos, if_neg hpos]
      exact ⟨h.setLock, rfl⟩

/-! ## Runs -/

/-- A steady step keeps the invariant, and it is a call without preemption or nothing at all for
those who look at the locks. -/
theorem Inv.exec {op : LockStep ν} (h : Inv s) (he : s.Enabled op) (hs : s.Steady op) :
    Inv (s.exec op) ∧
      ((s.exec op).view = s.view ∨ ∃ call, (s.exec op).view = (s.view.exec 1 call).1) := by
  cases op with
  | request => exact ⟨h.setPc (by simp), .inl rfl⟩
  | release => exact ⟨h.setPc (by simp), .inl rfl⟩
  | enter who mem =>
    have hidle : Inv (s.setPc who .idle) := h.setPc (by simp)
    simp only [LockHeap.exec]
    split
    · rename_i name swtmrID list hpc
      obtain rfl : list = s.first := hs list (by simp [hpc, LockPc.list])
      obtain ⟨hinv, heq⟩ := @enterRequest_spec ν _ name _ hidle mem he swtmrID
      exact ⟨hinv, .inr ⟨.timeRequest .normal (some name) 1 (fun _ => .ok swtmrID) mem.isSome .ok,
        heq.trans (s.view.exec_timeRequest_started name swtmrID mem.isSome).symm⟩⟩
    · rename_i name list hpc
      obtain rfl : list = s.first := hs list (by simp [hpc, LockPc.list])
      obtain ⟨hinv, heq⟩ := @enterRelease_spec ν _ name who _ hidle .normal
      exact ⟨hinv, .inr ⟨.release .normal (some name), heq⟩⟩
    · exact ⟨h, .inl rfl⟩
  | swtmrDelete who =>
    simp only [LockHeap.exec]
    split
    · rename_i a hpc
      exact ⟨h.swtmrDelete hpc, .inl rfl⟩
    · exact ⟨h, .inl rfl⟩
  | memFree who =>
    simp only [LockHeap.exec]
    split
    · rename_i a hpc
      refine ⟨h.memFree hpc, .inl ?_⟩
      have hlist := (h.owed who a (.inr hpc)).1
      simp [view, filterMap_update hlist]
    · exact ⟨h, .inl rfl⟩

/-- A steady run with preemption is a run without preemption for those who look at the locks. -/
theorem inv_of_reaches (h : ((machine ν).restrict Steady).Reaches s) :
    Inv s ∧ (PmLocks.machine ν 1).Reaches s.view := by
  induction h with
  | start hi =>
    rw [show _ = _ from hi]
    exact ⟨.init, .start rfl⟩
  | @step _ _ _ ha ih =>
    obtain ⟨hinv, hview⟩ := ih.1.exec ha.1 ha.2
    refine ⟨hinv, ?_⟩
    rcases hview with heq | ⟨call, heq⟩
    · exact heq.symm ▸ ih.2
    · exact heq.symm ▸ ih.2.step call trivial

/-- No two nodes of the list have the same name, and no call has touched a node that was freed. -/
structure Sound (s : LockHeap ν) : Prop where
  distinct : s.lockList.Pairwise fun a b => ∀ x ∈ s.node a, ∀ y ∈ s.node b, x.name ≠ y.name
  touchedFreed : s.touchedFreed = false

/-- Steady runs are sound. -/
theorem sound_of_steady (s : LockHeap ν) (h : ((machine ν).restrict Steady).Reaches s) :
    Sound s := by
  obtain ⟨hinv, hview⟩ := inv_of_reaches h
  refine ⟨?_, hinv.touchedFreed⟩
  have hn := PmLocks.nodup_of_reaches hview
  rw [List.Nodup, List.pairwise_map, view, List.pairwise_filterMap] at hn
  exact hn

def sharedLock : List (LockStep ℕ) :=
  [.request 0 7 osInvalid, .enter 0 (some 100), .request 1 7 osInvalid, .release 0 7,
    .enter 1 none, .enter 0 none, .release 1 7, .enter 1 none, .swtmrDelete 1, .memFree 1]

theorem sound_of_steady_shared :
    Sound (((machine ℕ).restrict Steady).run {} sharedLock) :=
  sound_of_steady _ ((Machine.Reaches.start rfl).run sharedLock (by decide))

/-- The first caller has read the pointer of the empty list when the second one puts a node with the
same name on it. -/
def sameNameTwice : List (LockStep ℕ) :=
  [.request 0 7 osInvalid, .request 1 7 osInvalid, .enter 1 (some 100), .enter 0 (some 200)]

/-- The first caller has read the pointer to a node when the second one frees the node. -/
def freedInBetween : List (LockStep ℕ) :=
  [.request 1 7 osInvalid, .enter 1 (some 100), .request 0 8 osInvalid, .release 1 7,
    .enter 1 none, .swtmrDelete 1, .memFree 1, .enter 0 (some 200)]

/-- The list gets two nodes with the same name, and a node is read after it was freed. -/
theorem unsound_when_preempted :
    (∃ s, (machine ℕ).Reaches s ∧ s.lockList = [100, 200] ∧
      s.node 100 = some ⟨7, 1, osInvalid⟩ ∧ s.node 200 = some ⟨7, 1, osInvalid⟩) ∧
    ∃ s, (machine ℕ).Reaches s ∧ s.touchedFreed = true :=
  ⟨⟨_, (Machine.Reaches.start rfl).run sameNameTwice (by decide), by decide⟩,
    ⟨_, (Machine.Reaches.start rfl).run freedInBetween (by decide), by decide⟩⟩

end LockHeap

end LiteOS.Power
