import LiteOS.Lib.Runs
import Mathlib.Data.Fintype.Card
import Mathlib.Data.List.Lex
import Mathlib.Order.Fin.Basic
import Mathlib.Order.Interval.Finset.Nat

/-!
# Registration of shell commands

`osCmdReg` looks for the command in one critical section of `cmdInfo.muxLock` and inserts it in
another one. A command is registered once as long as no call looks for a command that another call
is about to insert.
-/

namespace LiteOS.Shell

open LiteOS.Lib List

/-- A character of a string, which does not include the terminating NUL. -/
abbrev Chr := {c : Fin 256 // c ≠ 0}

def strncmp : List Chr → List Chr → ℕ → Ordering
  | _, _, 0 | [], [], _ + 1 => .eq
  | [], _ :: _, _ + 1 => .lt
  | _ :: _, [], _ + 1 => .gt
  | a :: s, b :: t, n + 1 => if a < b then .lt else if b < a then .gt else strncmp s t n

def strcmp (s t : List Chr) : Ordering := strncmp s t (s.length + 1)

/-- `butt` stands for every value from `CMD_TYPE_BUTT` on. -/
inductive CmdType
  | typeShow
  | typeStd
  | typeEx
  | butt
  deriving DecidableEq

structure CmdItem where
  cmdType : CmdType
  cmdKey : List Chr
  paraNum : ℕ
  cmdHook : ℕ

/-- A node of the list, with the address of its block. -/
structure CmdItemNode extends CmdItem where
  addr : ℕ

def CmdItem.name (cmd : CmdItem) : CmdType × List Chr := (cmd.cmdType, cmd.cmdKey)

/-- The loop at `cmdItem`, with the nodes in front of it, the nearest first, and those behind it. -/
def ascendingWalk (cmd : CmdItemNode) :
    List CmdItemNode → CmdItemNode → List CmdItemNode → List CmdItemNode
  | cmdNext :: front, cmdItem, behind =>
    if strncmp cmdItem.cmdKey cmd.cmdKey cmd.cmdKey.length ≠ .lt ∧
        strncmp cmdNext.cmdKey cmd.cmdKey cmd.cmdKey.length = .lt then
      front.reverse ++ cmdNext :: cmd :: cmdItem :: behind
    else ascendingWalk cmd front cmdNext (cmdItem :: behind)
  | [], cmdItem, behind =>
    -- in front of the list's own head is the end of the list
    if strncmp cmd.cmdKey cmdItem.cmdKey cmd.cmdKey.length = .gt then cmdItem :: behind ++ [cmd]
    else cmd :: cmdItem :: behind

def osCmdAscendingInsert (list : List CmdItemNode) (cmd : CmdItemNode) : List CmdItemNode :=
  match list.reverse with
  | [] => [cmd]
  | cmdItem :: front => ascendingWalk cmd front cmdItem []

def Ascending (list : List CmdItemNode) : Prop :=
  list.Pairwise fun x y => strcmp x.cmdKey y.cmdKey ≠ .gt

section

variable {s t : List Chr} {n : ℕ} {cmd cmdItem : CmdItemNode} {front behind list : List CmdItemNode}

theorem strncmp_lt (h : t.length ≤ n) : strncmp s t n = .lt ↔ s < t := by
  fun_induction strncmp s t n <;>
    grind [cons_lt_cons_iff, not_lt_nil, nil_lt_cons]

theorem strncmp_gt (h : s.length ≤ n) : strncmp s t n = .gt ↔ t < s := by
  fun_induction strncmp s t n <;>
    grind [cons_lt_cons_iff, not_lt_nil, nil_lt_cons]

theorem strncmp_eq (h : s.length = n) (ht : t.length = n) : strncmp s t n = .eq ↔ s = t := by
  have hlt : strncmp s t n = .lt ↔ s < t := strncmp_lt ht.le
  have hgt : strncmp s t n = .gt ↔ t < s := strncmp_gt h.le
  cases hc : strncmp s t n <;> grind

theorem ascending_iff : Ascending list ↔ list.Pairwise fun x y => x.cmdKey ≤ y.cmdKey := by
  simp [Ascending, strcmp, strncmp_gt]

/-- The loop stops in front of the first node whose key is not below the new one: if the key of
`cmdItem` is below it, those of the nodes behind are. -/
theorem ascendingWalk_spec (cmd : CmdItemNode) (h : Ascending (front.reverse ++ cmdItem :: behind))
    (hb : cmdItem.cmdKey < cmd.cmdKey → ∀ y ∈ behind, y.cmdKey < cmd.cmdKey) :
    ∃ l r, front.reverse ++ cmdItem :: behind = l ++ r ∧
      ascendingWalk cmd front cmdItem behind = l ++ cmd :: r ∧ Ascending (l ++ cmd :: r) := by
  rw [ascending_iff] at h
  simp only [ascending_iff]
  fun_induction ascendingWalk cmd front cmdItem behind with
  | case1 next front item behind hc =>
    rw [strncmp_lt le_rfl, ne_eq, strncmp_lt le_rfl, not_lt] at hc
    exact ⟨front.reverse ++ [next], item :: behind, by simp, by simp, by
      grind [pairwise_cons]⟩
  | case2 next front item behind hc ih =>
    rw [strncmp_lt le_rfl, ne_eq, strncmp_lt le_rfl, not_lt] at hc
    simpa using ih (by simpa using h) (by grind)
  | case3 item behind hc =>
    rw [strncmp_gt le_rfl] at hc
    exact ⟨item :: behind, [], by simp, rfl, by grind [pairwise_cons]⟩
  | case4 item behind hc =>
    rw [strncmp_gt le_rfl, not_lt] at hc
    exact ⟨[], item :: behind, by simp, rfl, by grind [pairwise_cons]⟩

theorem osCmdAscendingInsert_spec (h : Ascending list) (cmd : CmdItemNode) :
    (osCmdAscendingInsert list cmd).Perm (cmd :: list) ∧
      Ascending (osCmdAscendingInsert list cmd) := by
  unfold osCmdAscendingInsert
  split <;> rename_i hr
  · simp [reverse_eq_nil_iff.1 hr, Ascending]
  · rw [reverse_eq_cons_iff] at hr
    obtain ⟨l, r, hl, hw, ha⟩ := ascendingWalk_spec cmd (hr ▸ h) (by simp)
    exact ⟨by rw [hw, hr, hl]; exact perm_middle, hw ▸ ha⟩

theorem foldl_osCmdAscendingInsert (nodes : List CmdItemNode) (h : Ascending list) :
    (nodes.foldl osCmdAscendingInsert list).Perm (nodes ++ list) ∧
      Ascending (nodes.foldl osCmdAscendingInsert list) := by
  induction nodes generalizing list with
  | nil => exact ⟨.refl _, h⟩
  | cons node nodes ih =>
    obtain ⟨hp, ha⟩ := osCmdAscendingInsert_spec h node
    exact ⟨(ih ha).1.trans ((hp.append_left nodes).trans perm_middle), (ih ha).2⟩

end

def cmdKeyLen : ℕ := 16
def cmdMaxParas : ℕ := 32
def xargs : ℕ := 0xFFFFFFFF

inductive Stat
  | none
  | digit
  | other
  deriving DecidableEq

def isDigit (c : Chr) : Bool := 48 ≤ c.1 ∧ c.1 ≤ 57

def keyChar (c : Chr) : Bool :=
  isDigit c ∨ (97 ≤ c.1 ∧ c.1 ≤ 122) ∨ (65 ≤ c.1 ∧ c.1 ≤ 90) ∨ c.1 = 95 ∨ c.1 = 45

def keyStat : Stat → List Chr → Option Stat
  | state, [] => some state
  | state, c :: temp =>
    if keyChar c then
      keyStat (if isDigit c then if state = .none then .digit else state else .other) temp
    else none

def osCmdKeyCheck (cmdKey : List Chr) : Bool :=
  cmdKey.length < cmdKeyLen && keyStat .none cmdKey ∉ [none, some .digit]

/-- The arguments of `osCmdReg`, where `none` is the null pointer. -/
structure CmdReg where
  cmdType : CmdType
  cmdKey : Option (List Chr)
  paraNum : ℕ
  cmdProc : Option ℕ

inductive ShellErrno
  | paraError
  | cmdError
  | cmdExist
  | memallocError
  | notInit

/-- The checks between the first two critical sections, and the command that passes them. -/
def CmdReg.check (r : CmdReg) : Except ShellErrno CmdItem :=
  match r.cmdProc, r.cmdKey with
  | some cmdProc, some cmdKey =>
    if r.cmdType = .butt ∨ cmdKeyLen ≤ cmdKey.length ∨ cmdKey = [] then .error .paraError
    else if cmdMaxParas < r.paraNum ∧ r.paraNum ≠ xargs then .error .paraError
    else if osCmdKeyCheck cmdKey then .ok ⟨r.cmdType, cmdKey, r.paraNum, cmdProc⟩
    else .error .cmdError
  | _, _ => .error .paraError

/-- Where a task is: outside of `osCmdReg`, with the answer of its last call, in front of the
duplicate check, or in front of `OsCmdItemCreate`. -/
inductive Pc
  | idle (ret : Except ShellErrno Unit)
  | find (cmd : CmdItem)
  | create (cmd : CmdItem)

def Pc.isIdle : Pc → Bool
  | .idle _ => true
  | _ => false

def Pc.sought : Pc → Option (CmdType × List Chr)
  | .find cmd => some cmd.name
  | _ => none

def Pc.pending : Pc → Option (CmdType × List Chr)
  | .create cmd => some cmd.name
  | _ => none

structure CmdModInfo (τ : Type) where
  cmdList : List CmdItemNode := []
  listNum : ℕ := 0
  initMagicFlag : Bool := true
  pc : τ → Pc := fun _ => .idle (.ok ())

/-- The critical sections of `osCmdReg`, each with the code up to it; `create` has the addresses
that `LOS_MemAlloc` returns. -/
inductive Op (τ : Type)
  | reg (who : τ) (r : CmdReg)
  | find (who : τ)
  | create (who : τ) (cmdItem cmdItemNode : Option ℕ)

namespace CmdModInfo

variable {τ : Type} {s : CmdModInfo τ} {list l : List CmdItemNode}

/-- `strncmp` after the lengths have been compared. -/
def isExist (s : CmdModInfo τ) (cmd : CmdItem) : Bool :=
  s.cmdList.any fun node => cmd.cmdType = node.cmdType ∧
    cmd.cmdKey.length = node.cmdKey.length ∧
    strncmp node.cmdKey cmd.cmdKey cmd.cmdKey.length = .eq

def insert (s : CmdModInfo τ) (node : CmdItemNode) : CmdModInfo τ :=
  { s with cmdList := osCmdAscendingInsert s.cmdList node, listNum := (s.listNum + 1) % 2 ^ 32 }

/-- The blocks of the nodes are apart, as `LOS_MemAlloc` gives them. -/
def Blocks (list : List CmdItemNode) : Prop :=
  (list.map (·.addr)).Nodup ∧ ∀ node ∈ list, 0 < node.addr ∧ node.addr < 2 ^ 32

structure Registered (s : CmdModInfo τ) : Prop where
  once : (s.cmdList.map (·.name)).Nodup
  ascending : Ascending s.cmdList
  listNum : s.listNum = s.cmdList.length

structure Inv (s : CmdModInfo τ) : Prop extends Registered s where
  blocks : Blocks s.cmdList
  new : ∀ t n, (s.pc t).pending = some n → n ∉ s.cmdList.map (·.name)
  apart : ∀ t u n, (s.pc t).pending = some n → (s.pc u).pending = some n → t = u

theorem Blocks.length_lt (h : Blocks list) : list.length < 2 ^ 32 := by
  have hsub : (list.map (·.addr)).toFinset ⊆ Finset.Ioo 0 (2 ^ 32) := fun a ha => by
    obtain ⟨node, hn, rfl⟩ := mem_map.1 (mem_toFinset.1 ha)
    exact Finset.mem_Ioo.2 (h.2 node hn)
  have hcard := Finset.card_le_card hsub
  rw [toFinset_card_of_nodup h.1, length_map, Nat.card_Ioo] at hcard
  omega

theorem Blocks.perm (h : Blocks list) (hp : l.Perm list) : Blocks l :=
  ⟨(hp.map _).nodup_iff.2 h.1, fun node hn => h.2 node (hp.mem_iff.1 hn)⟩

theorem Inv.insert {node : CmdItemNode} (h : Inv s) (hn : node.name ∉ s.cmdList.map (·.name))
    (hp : ∀ t, (s.pc t).pending ≠ some node.name) (ha : 0 < node.addr ∧ node.addr < 2 ^ 32)
    (hf : node.addr ∉ s.cmdList.map (·.addr)) : Inv (s.insert node) := by
  obtain ⟨hperm, hasc⟩ := osCmdAscendingInsert_spec h.ascending node
  have hblocks : Blocks (node :: s.cmdList) :=
    ⟨nodup_cons.2 ⟨hf, h.blocks.1⟩, forall_mem_cons.2 ⟨ha, h.blocks.2⟩⟩
  exact { once := (hperm.map _).nodup_iff.2 (nodup_cons.2 ⟨hn, h.once⟩)
          ascending := hasc
          listNum := by
            rw [CmdModInfo.insert, hperm.length_eq, h.listNum]
            exact Nat.mod_eq_of_lt hblocks.length_lt
          blocks := hblocks.perm hperm
          new := fun t n ht hm => by
            rcases mem_cons.1 ((hperm.map _).mem_iff.1 hm) with rfl | hm
            · exact hp t ht
            · exact h.new t n ht hm
          apart := h.apart }

theorem isExist_iff {cmd : CmdItem} : s.isExist cmd ↔ cmd.name ∈ s.cmdList.map (·.name) := by
  simp only [isExist, any_eq_true, decide_eq_true_eq, mem_map]
  refine exists_congr fun node => and_congr_right fun _ => ?_
  rw [CmdItem.name, CmdItem.name, Prod.mk.injEq, eq_comm]
  refine and_congr_right fun _ => ⟨fun h => (strncmp_eq h.1.symm rfl).1 h.2, fun h => ?_⟩
  exact ⟨by rw [h], (strncmp_eq (by rw [h]) rfl).2 h⟩

variable [DecidableEq τ]

def setPc (s : CmdModInfo τ) (who : τ) (pc : Pc) : CmdModInfo τ :=
  { s with pc := Function.update s.pc who pc }

def step (s : CmdModInfo τ) : Op τ → CmdModInfo τ
  | .reg who r => s.setPc who <|
    if s.initMagicFlag then
      match r.check with
      | .error e => .idle (.error e)
      | .ok cmd => .find cmd
    else .idle (.error .notInit)
  | .find who =>
    match s.pc who with
    | .find cmd => s.setPc who (if s.isExist cmd then .idle (.error .cmdExist) else .create cmd)
    | _ => s
  | .create who cmdItem cmdItemNode =>
    match s.pc who, cmdItem, cmdItemNode with
    | .create cmd, some _, some a => (s.insert ⟨cmd, a⟩).setPc who (.idle (.ok ()))
    | .create _, _, _ => s.setPc who (.idle (.error .memallocError))
    | _, _, _ => s

def Enabled (s : CmdModInfo τ) : Op τ → Prop
  | .reg who _ => (s.pc who).isIdle
  | .find _ => True
  | .create _ _ cmdItemNode => ∀ a ∈ cmdItemNode, 0 < a ∧ a < 2 ^ 32 ∧ a ∉ s.cmdList.map (·.addr)

/-- At the start the list is what `OsShellSysCmdRegister` leaves, for any system commands. -/
def machine : Machine (CmdModInfo τ) (Op τ) where
  init s := ∃ nodes, (nodes.map (·.name)).Nodup ∧ Blocks nodes ∧
    s.cmdList = nodes.foldl osCmdAscendingInsert [] ∧ s.listNum = nodes.length ∧
    ∀ t, (s.pc t).isIdle
  allowed := Enabled
  step := step

/-- No call looks for a command that another call has looked for and is about to insert. -/
def Alone (s : CmdModInfo τ) : Op τ → Prop
  | .find who => ∀ t, ∀ n ∈ (s.pc t).pending, n ∉ (s.pc who).sought
  | _ => True

theorem Inv.init (h : machine.init s) : Inv s := by
  obtain ⟨nodes, hn, hb, hl, hnum, hpc⟩ := h
  obtain ⟨hp, ha⟩ := foldl_osCmdAscendingInsert nodes (show Ascending [] from .nil)
  rw [← hl, append_nil] at hp
  have hidle t n : (s.pc t).pending ≠ some n := by
    have := hpc t
    cases hq : s.pc t <;> simp_all [Pc.isIdle, Pc.pending]
  exact { once := (hp.map _).nodup_iff.2 hn
          ascending := hl ▸ ha
          listNum := hnum.trans hp.length_eq.symm
          blocks := hb.perm hp
          new := fun t n h => absurd h (hidle t n)
          apart := fun t _ n h => absurd h (hidle t n) }

theorem Inv.setPc {who : τ} {pc : Pc} (h : Inv s) (hp : ∀ n ∈ pc.pending,
    n ∉ s.cmdList.map (·.name) ∧ ∀ t, (s.pc t).pending ≠ some n) : Inv (s.setPc who pc) := by
  refine { h with new := fun t n => ?_, apart := fun t u n => ?_ } <;>
    simp only [CmdModInfo.setPc, Function.update_apply]
  · split
    · exact fun hn => (hp n hn).1
    · exact h.new t n
  · split <;> split
    · simp_all
    · exact fun hn hu => absurd hu ((hp n hn).2 u)
    · exact fun ht hn => absurd ht ((hp n hn).2 t)
    · exact h.apart t u n

theorem Inv.step {op : Op τ} (h : Inv s) (ha : Enabled s op) (hc : Alone s op) :
    Inv (s.step op) := by
  cases op with
  | reg who r =>
    refine h.setPc fun n hn => ?_
    revert hn
    split
    · split <;> simp [Pc.pending]
    · simp [Pc.pending]
  | find who =>
    simp only [CmdModInfo.step]
    split
    · rename_i cmd hpc
      refine h.setPc fun n hn => ?_
      split at hn
      · simp [Pc.pending] at hn
      · rename_i he
        obtain rfl : cmd.name = n := by simpa [Pc.pending] using hn
        exact ⟨fun hm => he (isExist_iff.2 hm), fun t ht => hc t _ ht (by rw [hpc]; rfl)⟩
    · exact h
  | create who cmdItem cmdItemNode =>
    simp only [CmdModInfo.step]
    split
    · rename_i cmd _ a hpc
      have hw : (s.pc who).pending = some cmd.name := by rw [hpc]; rfl
      have hi : Inv (s.setPc who (.idle (.ok ()))) := h.setPc (by simp [Pc.pending])
      obtain ⟨h0, hlt, hf⟩ := ha a rfl
      refine hi.insert (h.new who _ hw) (fun t => ?_) ⟨h0, hlt⟩ hf
      simp only [CmdModInfo.setPc, Function.update_apply]
      split
      · simp [Pc.pending]
      · rename_i ht
        exact fun he => ht (h.apart t who _ he hw)
    · exact h.setPc (by simp [Pc.pending])
    · exact h

/-- When no call looks for a command that another call is about to insert, every command is
registered once. -/
theorem registered_of_reaches (h : (machine.restrict Alone).Reaches s) : Registered s :=
  (h.invariant (fun _ => Inv.init) fun _ _ hi ha => hi.step ha.1 ha.2).toRegistered

instance (s : CmdModInfo τ) (op) : Decidable (machine.allowed s op) := by
  cases op <;> unfold machine Enabled <;> infer_instance

instance [Fintype τ] (s : CmdModInfo τ) (op) : Decidable (Alone s op) := by
  cases op <;> unfold Alone <;> infer_instance

/-- The arguments of a call that registers the command `a`. -/
def regA : CmdReg := ⟨.typeEx, some [⟨97, by decide⟩], 0, some 1⟩

theorem init_empty : machine.init ({} : CmdModInfo (Fin 2)) :=
  ⟨[], by simp, by simp [Blocks], rfl, rfl, fun _ => rfl⟩

theorem registered_of_reaches_second :
    Registered ((machine.restrict Alone).run ({} : CmdModInfo (Fin 2))
      [.reg 0 regA, .find 0, .create 0 (some 16) (some 32), .reg 1 regA, .find 1]) :=
  registered_of_reaches (.run (.start (M := machine.restrict Alone) init_empty) _
    (by decide +kernel))

/-- Two tasks register the same command: both look for it before either inserts it. -/
theorem not_registered_twice : ∃ s : CmdModInfo (Fin 2), machine.Reaches s ∧ ¬ Registered s :=
  ⟨_, .run (.start init_empty) [.reg 0 regA, .find 0, .reg 1 regA, .find 1,
      .create 0 (some 16) (some 32), .create 1 (some 48) (some 64)] (by decide +kernel),
    fun h => absurd h.once (by decide +kernel)⟩

end CmdModInfo

end LiteOS.Shell
