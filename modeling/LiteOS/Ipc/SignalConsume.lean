import LiteOS.Ipc.SignalWake

/-!
# What a wait consumes

Every pending signal has one node in the list of its task, apart from the signal that has woken the
task: `SignalSend` takes its node off the list at once, and `LOS_SignalWait` makes it no longer
pending when it returns. A call that finds several signals of its set pending makes all of them no
longer pending and takes one node.
-/

namespace LiteOS.Kernel

open Lib Sched Function OsSigCB BitVec

def Pending (cb : OsSigCB) (n : ℕ) : Prop := 0 < n ∧ cb.sigPendFlag.getLsbD (n - 1)
deriving Decidable

def HasNode (cb : OsSigCB) (n : ℕ) : Prop := userInfo n ∈ cb.sigInfoList
deriving Decidable

/-- The list is made of the information of signals, at most one node for each, and only signals
with valid numbers are pending. -/
structure Listed (cb : OsSigCB) : Prop where
  nodes : ∀ i ∈ cb.sigInfoList, i = userInfo i.siSigno
  nodup : (cb.sigInfoList.map Siginfo.siSigno).Nodup
  valid : ∀ n, Pending cb n → osSignalValid n

variable {cb cb' : OsSigCB} {n m i j : ℕ} {w flag : BitVec 32}

/-! ## Masks -/

theorem osSignalValid_iff : osSignalValid n ↔ 0 < n ∧ n ≤ 31 := decide_eq_true_iff

theorem and_losSignalMask_ne_zero_iff (hn : osSignalValid n) :
    w &&& losSignalMask n ≠ 0 ↔ w.getLsbD (n - 1) := by
  obtain ⟨hpos, hle⟩ := osSignalValid_iff.mp hn
  constructor
  · intro hne
    by_contra hbit
    refine hne (eq_of_getLsbD_eq fun i hi => ?_)
    rw [getLsbD_and, getLsbD_losSignalMask hpos]
    by_cases hin : i = n - 1
    · subst hin
      simp [hbit]
    · simp [hin]
  · intro hbit hz
    have := congrArg (fun v => getLsbD v (n - 1)) hz
    rw [getLsbD_and, getLsbD_losSignalMask hpos] at this
    simp [hbit] at this
    omega

theorem pending_raise (hn : osSignalValid n) : Pending (cb.raise n) m ↔ m = n ∨ Pending cb m := by
  obtain ⟨hpos, hle⟩ := osSignalValid_iff.mp hn
  have hself : Pending (cb.raise n) n := by
    refine ⟨hpos, ?_⟩
    simp only [raise]
    split_ifs with hz
    · rw [getLsbD_or, getLsbD_losSignalMask hpos]
      simp
      omega
    · exact (and_losSignalMask_ne_zero_iff hn).mp hz
  by_cases hmn : m = n
  · subst hmn
    simp [hself]
  · rw [or_iff_right hmn]
    simp only [raise]
    refine and_congr_right fun hm => ?_
    split_ifs with hz
    · rw [getLsbD_or, getLsbD_losSignalMask hpos]
      have hne : m - 1 ≠ n - 1 := by omega
      simp [hne]
    · rfl

theorem getLsbD_and_not_losSignalMask (hn : 0 < n) (i : ℕ) (hi : i < 32) :
    (w &&& ~~~losSignalMask n).getLsbD i = (w.getLsbD i && decide (i ≠ n - 1)) := by
  rw [getLsbD_and, getLsbD_not, getLsbD_losSignalMask hn]
  simp [hi]

theorem pending_clear (hn : 0 < n) (h : cb'.sigPendFlag = cb.sigPendFlag &&& ~~~losSignalMask n) :
    Pending cb' m ↔ Pending cb m ∧ m ≠ n := by
  unfold Pending
  rw [h]
  by_cases hi : m - 1 < 32
  · rw [getLsbD_and_not_losSignalMask hn _ hi]
    simp only [Bool.and_eq_true, decide_eq_true_eq]
    constructor
    · rintro ⟨hm, hbit, hne⟩
      exact ⟨⟨hm, hbit⟩, by omega⟩
    · rintro ⟨⟨hm, hbit⟩, hne⟩
      exact ⟨hm, hbit, by omega⟩
  · rw [getLsbD_of_ge _ _ (by omega), getLsbD_of_ge _ _ (by omega)]
    simp

/-! ## Nodes -/

theorem eraseP_eq_filter {α : Type} {f : α → ℕ} {l : List α} (h : (l.map f).Nodup) :
    l.eraseP (f · = n) = l.filter (f · ≠ n) := by
  induction l with
  | nil => rfl
  | cons a l ih =>
    rw [List.map_cons, List.nodup_cons] at h
    by_cases ha : f a = n
    · have hrest : l.filter (f · ≠ n) = l := by
        refine List.filter_eq_self.mpr fun b hb => ?_
        have hne : f b ≠ n := fun hbn => h.1 (by
          rw [ha, ← hbn]
          exact List.mem_map_of_mem hb)
        simpa using hne
      rw [List.eraseP_cons_of_pos (by simpa using ha), List.filter_cons_of_neg (by simpa using ha),
        hrest]
    · rw [List.eraseP_cons_of_neg (by simpa using ha), List.filter_cons_of_pos (by simpa using ha),
        ih h.2]

section

variable (h : Listed cb)
include h

theorem deleteSigInfoFromList_sigInfoList :
    (cb.deleteSigInfoFromList n).sigInfoList = cb.sigInfoList.filter (·.siSigno ≠ n) := by
  simp only [deleteSigInfoFromList]
  split
  · rename_i hnone
    refine (List.filter_eq_self.mpr fun i hi => ?_).symm
    simpa using List.find?_eq_none.mp hnone i hi
  · exact eraseP_eq_filter h.nodup

theorem deleteSigInfoFromList_sigInfo (hn : HasNode cb n) :
    (cb.deleteSigInfoFromList n).sigInfo = userInfo n := by
  simp only [deleteSigInfoFromList]
  cases hf : cb.sigInfoList.find? (·.siSigno = n) with
  | none =>
    have hne : (userInfo n).siSigno ≠ n := by simpa using List.find?_eq_none.mp hf _ hn
    exact absurd rfl hne
  | some info =>
    have hmem := List.mem_of_find?_eq_some hf
    have hno : info.siSigno = n := by simpa using List.find?_some hf
    rw [h.nodes info hmem, hno]

theorem hasNode_delete : HasNode (cb.deleteSigInfoFromList n) m ↔ HasNode cb m ∧ m ≠ n := by
  simp [HasNode, deleteSigInfoFromList_sigInfoList h, userInfo]

theorem Listed.delete : Listed (cb.deleteSigInfoFromList n) where
  nodes i hi := by
    rw [deleteSigInfoFromList_sigInfoList h] at hi
    exact h.nodes i (List.mem_of_mem_filter hi)
  nodup := by
    rw [deleteSigInfoFromList_sigInfoList h]
    exact h.nodup.sublist (List.filter_sublist.map _)
  valid m hm := h.valid m (by simpa [Pending] using hm)

theorem addSigInfoToList_spec {memAlloc : Bool}
    (ha : cb.addSigInfoToList (userInfo n) memAlloc = some cb') :
    Listed cb' ∧ ∀ m, HasNode cb' m ↔ m = n ∨ HasNode cb m := by
  simp only [addSigInfoToList] at ha
  split_ifs at ha with hany
  · -- the node is written again with what it holds already
    obtain ⟨i, hi, hno⟩ := List.any_eq_true.mp hany
    have hnode : HasNode cb n := by
      have hin : i.siSigno = n := of_decide_eq_true hno
      rw [HasNode, ← hin, ← h.nodes i hi]
      exact hi
    have hset : cb.sigInfoList.set
        (cb.sigInfoList.findIdx fun x => x.siSigno = (userInfo n).siSigno) (userInfo n) =
        cb.sigInfoList := by
      have hlt : cb.sigInfoList.findIdx (fun x => x.siSigno = (userInfo n).siSigno) <
          cb.sigInfoList.length := List.findIdx_lt_length_of_exists ⟨i, hi, hno⟩
      have hget := List.findIdx_getElem (w := hlt)
      have hval : cb.sigInfoList[cb.sigInfoList.findIdx fun x =>
          x.siSigno = (userInfo n).siSigno] = userInfo n := by
        rw [h.nodes _ (List.getElem_mem hlt)]
        simp only [decide_eq_true_eq] at hget
        rw [hget]
        rfl
      have hself := List.set_getElem_self hlt
      rwa [hval] at hself
    rw [hset] at ha
    obtain rfl : cb = cb' := Option.some.inj ha
    refine ⟨h, fun m => ?_⟩
    constructor
    · exact .inr
    · rintro (rfl | hm)
      · exact hnode
      · exact hm
  · obtain rfl := Option.some.inj ha
    have hnew : n ∉ cb.sigInfoList.map Siginfo.siSigno := by
      simp only [Bool.not_eq_true, List.any_eq_false, decide_eq_true_eq] at hany
      intro hmem
      obtain ⟨i, hi, hin⟩ := List.mem_map.mp hmem
      exact hany i hi hin
    refine ⟨⟨?_, ?_, fun m hm => h.valid m hm⟩, fun m => ?_⟩
    · rintro i (_ | ⟨_, hi⟩)
      · rfl
      · exact h.nodes i hi
    · exact List.nodup_cons.mpr ⟨hnew, h.nodup⟩
    · simp [HasNode, userInfo]

end

theorem listed_empty : Listed {} :=
  ⟨by simp, by simp, fun n hn => absurd hn.2 (by simp)⟩

/-! ## What one call does -/

def EachHasNode (cb : OsSigCB) : Prop :=
  ∀ n, Pending cb n → cb.sigInfoList.countP (·.siSigno = n) = 1

/-- A call of `LOS_SignalWait` that returns a number consumes that signal and no other; one that
returns an error consumes none. -/
def Consumes (before after : OsSigCB) (set : BitVec 32) : Except Errno ℕ → Prop
  | .ok n => set.getLsbD (n - 1) ∧ Pending before n ∧ after.sigInfo = userInfo n ∧
      (∀ m, Pending after m ↔ Pending before m ∧ m ≠ n) ∧ EachHasNode after
  | .error _ => (∀ m, Pending after m ↔ Pending before m) ∧ EachHasNode after

theorem Listed.countP_eq_one (h : Listed cb) (hn : HasNode cb n) :
    cb.sigInfoList.countP (·.siSigno = n) = 1 := by
  have hcount := List.count_eq_one_of_mem h.nodup (List.mem_map_of_mem hn)
  rw [List.count, List.countP_map] at hcount
  refine (List.countP_congr fun i _ => ?_).trans hcount
  simp [userInfo]

theorem Listed.eachHasNode (h : Listed cb) (hn : ∀ n, Pending cb n → HasNode cb n) :
    EachHasNode cb := fun n hp => h.countP_eq_one (hn n hp)

/-- The set has no member, or it is the set of one signal. -/
def AtMostOne (w : BitVec 32) : Prop := ∃ n ≤ 32, w = losSignalMask n

theorem AtMostOne.unique (h : AtMostOne w) (hi : w.getLsbD i) (hj : w.getLsbD j) : i = j := by
  obtain ⟨n, -, rfl⟩ := h
  rcases Nat.eq_zero_or_pos n with rfl | hn
  · simp [losSignalMask] at hi
  · rw [getLsbD_losSignalMask hn] at hi hj
    exact (of_decide_eq_true hi).1.trans (of_decide_eq_true hj).1.symm

theorem pending_sigNo (hw : cb.sigPendFlag &&& w ≠ 0) :
    Pending cb (losSignalSupportMax - (cb.sigPendFlag &&& w).clz.toNat + 1) ∧
      w.getLsbD (losSignalSupportMax - (cb.sigPendFlag &&& w).clz.toNat + 1 - 1) := by
  have hbit := KernelState.getLsbD_sigNo hw
  rw [getLsbD_and, Bool.and_eq_true] at hbit
  exact ⟨⟨Nat.succ_pos _, hbit.1⟩, hbit.2⟩

/-- The signals that keep their nodes stay pending. -/
def Drops (before after : OsSigCB) : Prop :=
  ∀ n, HasNode after n → HasNode before n ∧ (Pending before n → Pending after n)

theorem Drops.pending_or {P : ℕ → Prop} (h : Drops cb cb')
    (hp : ∀ n, HasNode cb n → Pending cb n ∨ P n) : ∀ n, HasNode cb' n → Pending cb' n ∨ P n :=
  fun n hn => (hp n (h n hn).1).imp_left (h n hn).2

/-- A signal that is handled is no longer pending and has no node any more. -/
theorem signalHandle_spec (h : Listed cb) :
    Listed (cb.signalHandle flag) ∧ ((∀ m, Pending cb m → HasNode cb m) →
      ∀ m, Pending (cb.signalHandle flag) m → HasNode (cb.signalHandle flag) m) ∧
      Drops cb (cb.signalHandle flag) := by
  simp only [signalHandle]
  split_ifs with hz
  · exact ⟨h, id, fun _ hm => ⟨hm, id⟩⟩
  · obtain ⟨hp, -⟩ := pending_sigNo hz
    generalize losSignalSupportMax - (cb.sigPendFlag &&& flag).clz.toNat + 1 = n at hp ⊢
    have hclear : ∀ m, Pending { cb.deleteSigInfoFromList n with
        sigPendFlag := (cb.deleteSigInfoFromList n).sigPendFlag &&& ~~~losSignalMask n } m ↔
        Pending cb m ∧ m ≠ n := fun m => pending_clear hp.1 (by simp)
    refine ⟨⟨h.delete.nodes, h.delete.nodup, fun m hm => h.valid m ((hclear m).mp hm).1⟩,
      fun hnode m hm => ?_, fun m hm => ?_⟩
    · obtain ⟨hm, hne⟩ := (hclear m).mp hm
      exact (hasNode_delete h).mpr ⟨hnode m hm, hne⟩
    · obtain ⟨hm, hne⟩ := (hasNode_delete h).mp hm
      exact ⟨hm, fun hp => (hclear m).mpr ⟨hp, hne⟩⟩

theorem takeOne_spec (h : Listed cb) (hnode : ∀ m, Pending cb m → HasNode cb m)
    (hw : cb.sigPendFlag &&& w ≠ 0) (hone : AtMostOne (cb.sigPendFlag &&& w)) (hcb : cb' =
      deleteSigInfoFromList { cb with sigPendFlag := cb.sigPendFlag ^^^ (cb.sigPendFlag &&& w) }
        (losSignalSupportMax - (cb.sigPendFlag &&& w).clz.toNat + 1)) :
    Listed cb' ∧ (∀ m, Pending cb' m → HasNode cb' m) ∧ Drops cb cb' ∧ Consumes cb cb' w
      (.ok (losSignalSupportMax - (cb.sigPendFlag &&& w).clz.toNat + 1)) := by
  obtain ⟨hp, hwn⟩ := pending_sigNo hw
  generalize losSignalSupportMax - (cb.sigPendFlag &&& w).clz.toNat + 1 = n at hcb hp hwn ⊢
  -- the only bit of the set that is pending is cleared
  have hflag : cb.sigPendFlag ^^^ (cb.sigPendFlag &&& w) =
      cb.sigPendFlag &&& ~~~losSignalMask n := by
    refine eq_of_getLsbD_eq fun i hi => ?_
    rw [getLsbD_and_not_losSignalMask hp.1 i hi, getLsbD_xor, getLsbD_and]
    by_cases hin : i = n - 1
    · subst hin
      simp [hwn]
    · have hno : (cb.sigPendFlag.getLsbD i && w.getLsbD i) = false := by
        by_contra hc
        refine hin (hone.unique ?_ ?_)
        · rw [getLsbD_and]
          simpa using hc
        · rw [getLsbD_and, hp.2, hwn]
          rfl
      rw [hno]
      simp [hin]
  rw [hflag] at hcb
  have hclear : ∀ m, Pending { cb with sigPendFlag := cb.sigPendFlag &&& ~~~losSignalMask n } m ↔
      Pending cb m ∧ m ≠ n := fun m => pending_clear hp.1 rfl
  have hl : Listed { cb with sigPendFlag := cb.sigPendFlag &&& ~~~losSignalMask n } :=
    ⟨h.nodes, h.nodup, fun m hm => h.valid m ((hclear m).mp hm).1⟩
  have hafter : ∀ m, Pending cb' m ↔ Pending cb m ∧ m ≠ n := fun m => by
    rw [hcb, ← hclear m]
    simp [Pending]
  have hnodes : ∀ m, Pending cb' m → HasNode cb' m := fun m hm => by
    obtain ⟨hm, hne⟩ := (hafter m).mp hm
    rw [hcb]
    exact (hasNode_delete hl).mpr ⟨hnode m hm, hne⟩
  have hdrops : Drops cb cb' := fun m hm => by
    rw [hcb] at hm
    obtain ⟨hm, hne⟩ := (hasNode_delete hl).mp hm
    exact ⟨hm, fun hp => (hafter m).mpr ⟨hp, hne⟩⟩
  have hl' : Listed cb' := hcb ▸ hl.delete
  refine ⟨hl', hnodes, hdrops, hwn, hp, ?_, hafter, hl'.eachHasNode hnodes⟩
  rw [hcb]
  exact deleteSigInfoFromList_sigInfo hl (hnode n hp)

/-! ## The account of a task -/

/-- The control block of a task against its call, the number of times that the call was woken,
and whether it has timed out. A signal that is exempt may have a node before it is pending. -/
structure Accounted (exempt : ℕ → Prop) (cb : OsSigCB) (pc : Option SigRequest) (wakes : ℕ)
    (timeout : Bool) : Prop where
  mask : cb.sigWaitFlag = pc.elim 0 SigRequest.set
  listed : Listed cb
  pending : ∀ n, Pending cb n →
    HasNode cb n ∨ (pc ≠ none ∧ wakes = 1 ∧ cb.sigInfo = userInfo n)
  woken : ∀ r, pc = some r → wakes = 1 → timeout = false ∧
    ∃ n, cb.sigInfo = userInfo n ∧ Pending cb n ∧ r.set.getLsbD (n - 1)
  nodes : ∀ n, HasNode cb n →
    Pending cb n ∧ ¬(pc ≠ none ∧ wakes ≠ 0 ∧ cb.sigInfo = userInfo n) ∨ exempt n

section

variable {exempt exempt' : ℕ → Prop} {pc : Option SigRequest} {wakes wakes' : ℕ}
  {timeout timeout' memAlloc : Bool} {r : SigRequest}

theorem Accounted.congr (h : Accounted exempt cb pc wakes timeout)
    (ht : pc ≠ none → wakes = 1 → timeout' = timeout) : Accounted exempt cb pc wakes timeout' :=
  { h with
    woken := fun r hr hw => by
      rw [ht (by simp [hr]) hw]
      exact h.woken r hr hw }

/-- A task that is in no call, or whose call has not been woken, has a node for every pending
signal. -/
theorem Accounted.hasNode (h : Accounted exempt cb pc wakes timeout)
    (hw : pc = none ∨ wakes ≠ 1) : ∀ n, Pending cb n → HasNode cb n := by
  intro n hn
  rcases h.pending n hn with hnode | ⟨hpc, hone, -⟩
  · exact hnode
  · exact absurd hone (hw.resolve_left hpc)

theorem Accounted.of_none (hm : cb.sigWaitFlag = 0) (hl : Listed cb)
    (hn : ∀ n, Pending cb n → HasNode cb n) (he : ∀ n, HasNode cb n → Pending cb n ∨ exempt n) :
    Accounted exempt cb none wakes timeout :=
  ⟨hm, hl, fun n hp => .inl (hn n hp), fun r hr => by simp at hr, fun n hnode =>
    (he n hnode).imp_left fun hp => ⟨hp, by simp⟩⟩

section

variable (h : Accounted exempt cb pc wakes timeout)
include h

theorem Accounted.pending_or_exempt : ∀ n, HasNode cb n → Pending cb n ∨ exempt n :=
  fun n hn => (h.nodes n hn).imp_left And.left

theorem Accounted.mono (he : ∀ n, exempt n → exempt' n) : Accounted exempt' cb pc wakes timeout :=
  { h with nodes := fun n hn => (h.nodes n hn).imp_right (he n) }

theorem Accounted.add (ha : cb.addSigInfoToList (userInfo n) memAlloc = some cb')
    (he : ∀ m, m = n ∨ exempt m → exempt' m) : Accounted exempt' cb' pc wakes timeout := by
  obtain ⟨hl, hnode⟩ := addSigInfoToList_spec h.listed ha
  obtain ⟨l, rfl⟩ := addSigInfoToList_eq ha
  refine ⟨h.mask, hl, fun m hm => ?_, h.woken, fun m hm => ?_⟩
  · exact (h.pending m hm).imp_left fun hn => (hnode m).mpr (.inr hn)
  · rcases (hnode m).mp hm with hmn | hm
    · exact .inr (he m (.inl hmn))
    · exact (h.nodes m hm).imp_right fun hx => he m (.inr hx)

theorem Accounted.raise (hv : osSignalValid n)
    (hn : HasNode cb n) (hh : ¬(pc ≠ none ∧ wakes ≠ 0 ∧ cb.sigInfo = userInfo n) ∨ exempt' n)
    (he : ∀ m ≠ n, exempt m → exempt' m) : Accounted exempt' (cb.raise n) pc wakes timeout where
  mask := by
    rw [raise_sigWaitFlag]
    exact h.mask
  listed :=
    { nodes := by simpa using h.listed.nodes
      nodup := by simpa using h.listed.nodup
      valid := fun m hm => by
        rcases (pending_raise hv).mp hm with rfl | hm
        · exact hv
        · exact h.listed.valid m hm }
  pending m hm := by
    rw [HasNode, raise_sigInfoList, raise_sigInfo]
    rcases (pending_raise hv).mp hm with rfl | hm
    · exact .inl hn
    · exact h.pending m hm
  woken r hr hw := by
    obtain ⟨hto, m, hi, hp, hs⟩ := h.woken r hr hw
    exact ⟨hto, m, by rwa [raise_sigInfo], (pending_raise hv).mpr (.inr hp), hs⟩
  nodes m hm := by
    rw [HasNode, raise_sigInfoList] at hm
    rw [raise_sigInfo, pending_raise hv]
    by_cases hmn : m = n
    · subst hmn
      exact hh.imp_left fun hh => ⟨.inl rfl, hh⟩
    · exact (h.nodes m hm).imp (fun hp => ⟨.inr hp.1, hp.2⟩) (he m hmn)

end

theorem Accounted.wake (h : Accounted exempt cb (some r) 0 false) (hv : osSignalValid n)
    (hn : HasNode cb n) (hw : cb.sigWaitFlag &&& losSignalMask n ≠ 0)
    (he : ∀ m ≠ n, exempt m → exempt' m) :
    Accounted exempt' ((cb.raise n).deleteSigInfoFromList n) (some r) 1 false := by
  have hr := h.raise hv hn (.inl (by simp)) he
  have hinfo := deleteSigInfoFromList_sigInfo hr.listed (by simpa [HasNode] using hn)
  have hpend : ∀ m, Pending ((cb.raise n).deleteSigInfoFromList n) m ↔ Pending (cb.raise n) m := by
    simp [Pending]
  refine ⟨?_, hr.listed.delete, fun m hm => ?_, fun r' hr' _ => ⟨rfl, n, hinfo, ?_, ?_⟩,
    fun m hm => ?_⟩
  · rw [deleteSigInfoFromList_sigWaitFlag]
    exact hr.mask
  · by_cases hmn : m = n
    · subst hmn
      exact .inr ⟨by simp, rfl, hinfo⟩
    · left
      exact (hasNode_delete hr.listed).mpr ⟨hr.hasNode (.inr (by simp)) m ((hpend m).mp hm), hmn⟩
  · exact (hpend n).mpr ((pending_raise hv).mpr (.inl rfl))
  · obtain rfl : r = r' := by simpa using hr'
    rw [← show cb.sigWaitFlag = r.set from h.mask]
    exact (and_losSignalMask_ne_zero_iff hv).mp hw
  · obtain ⟨hm, hmn⟩ := (hasNode_delete hr.listed).mp hm
    rw [hpend, hinfo]
    exact (hr.pending_or_exempt m hm).imp_left fun hp =>
      ⟨hp, fun hh => hmn (congrArg Siginfo.siSigno hh.2.2).symm⟩

theorem Accounted.enter (h : Accounted exempt cb none wakes timeout) : Accounted exempt
    { cb with sigWaitFlag := cb.sigWaitFlag ||| w, waiting := true } (some ⟨w⟩) 0 timeout' := by
  refine ⟨?_, ⟨h.listed.nodes, h.listed.nodup, h.listed.valid⟩, fun m hm => ?_, fun r _ hw => ?_,
    fun m hm => ?_⟩
  · simp [h.mask]
  · exact .inl (h.hasNode (.inl rfl) m hm)
  · simp at hw
  · exact (h.pending_or_exempt m hm).imp_left fun hp => ⟨hp, by simp⟩

theorem Accounted.leave (h : Accounted exempt cb (some r) 1 timeout) (hcb : cb' = { cb with
      waiting := false
      sigWaitFlag := 0
      sigPendFlag := cb.sigPendFlag &&& ~~~losSignalMask cb.sigInfo.siSigno }) :
    Accounted exempt cb' none wakes' timeout' ∧ Consumes cb cb' r.set (.ok cb.sigInfo.siSigno) := by
  obtain ⟨-, n, hi, hp, hs⟩ := h.woken r rfl rfl
  have hno : cb.sigInfo.siSigno = n := by rw [hi]; rfl
  rw [hno] at hcb ⊢
  have hclear : ∀ m, Pending cb' m ↔ Pending cb m ∧ m ≠ n := fun m =>
    pending_clear hp.1 (by rw [hcb])
  have hl : Listed cb' := by
    refine ⟨?_, ?_, fun m hm => h.listed.valid m ((hclear m).mp hm).1⟩
    · rw [hcb]
      exact h.listed.nodes
    · rw [hcb]
      exact h.listed.nodup
  have hnodes : ∀ m, Pending cb' m → HasNode cb' m := fun m hm => by
    obtain ⟨hm, hne⟩ := (hclear m).mp hm
    rcases h.pending m hm with hnode | ⟨-, -, hinfo⟩
    · rw [hcb]
      exact hnode
    · exact absurd (congrArg Siginfo.siSigno (hinfo.symm.trans hi)) hne
  refine ⟨.of_none (by rw [hcb]) hl hnodes fun m hm => ?_, hs, hp, ?_, hclear,
    hl.eachHasNode hnodes⟩
  · rw [hcb] at hm
    refine (h.nodes m hm).imp_left fun hp => (hclear m).mpr ⟨hp.1, fun hmn => hp.2 ?_⟩
    exact ⟨by simp, by simp, hmn ▸ hi⟩
  · rw [hcb]
    exact hi

theorem Accounted.expire (h : Accounted exempt cb (some r) wakes true) {err : Errno} :
    Accounted exempt { cb with waiting := false, sigWaitFlag := 0 } none wakes' timeout' ∧
      Consumes cb { cb with waiting := false, sigWaitFlag := 0 } r.set (.error err) := by
  have hne : wakes ≠ 1 := fun hw => by simpa using (h.woken r rfl hw).1
  have hnodes := h.hasNode (.inr hne)
  have hl : Listed { cb with waiting := false, sigWaitFlag := 0 } :=
    ⟨h.listed.nodes, h.listed.nodup, h.listed.valid⟩
  exact ⟨.of_none rfl hl hnodes h.pending_or_exempt, fun _ => Iff.rfl, hl.eachHasNode hnodes⟩

end

/-! ## Runs -/

namespace SigSys

/-- The nodes of the signals that are being sent are exempt; all are if the account is not
strict. -/
def Sending (strict : Prop) (sending : List (TaskID × ℕ)) (t : TaskID) (n : ℕ) : Prop :=
  strict → (t, n) ∈ sending

/-- The signal has woken a call of `LOS_SignalWait` that has not run since. -/
def Handed (s : SigSys) (t : TaskID) (n : ℕ) : Prop :=
  s.calls.pc t ≠ none ∧ s.wakes t ≠ 0 ∧ (sigCBOf s.sig t).sigInfo = userInfo n
deriving Decidable

structure InfoInv (c : Config) (strict : Prop) (s : SigSys) : Prop where
  wake : WakeInv c s
  sends : ∀ p ∈ s.sending, osSignalValid p.2
  accounts : ∀ t, Accounted (Sending strict s.sending t) (sigCBOf s.sig t) (s.calls.pc t)
    (s.wakes t) (s.k.status t).timeout

/-- The node of a signal is still there when `SignalSend` makes the signal pending, the sends are
spaced, and `LOS_SignalWait` finds at most one signal of its set pending. An interrupt handler calls
it only while the task that it has interrupted is in no such call. -/
def Tidy (s : SigSys) : SigOp → Prop
  | .signalWait set _ _ _ => s.calls.pc s.k.runTask = none ∧
      ∀ w ∈ set, AtMostOne ((sigCBOf s.sig s.k.runTask).sigPendFlag &&& w)
  | .signalSendRest t sigNo => (SendWakes s.k s.sig t sigNo →
      s.wakes t = 0 ∧ (s.k.status t).timeout = false) ∧ HasNode (sigCBOf s.sig t) sigNo
  | _ => True

/-- A signal is not made pending again for a task that it has woken and that has not run since. -/
def Fresh (s : SigSys) : SigOp → Prop
  | .signalSendRest t sigNo => ¬Handed s t sigNo
  | _ => True

instance (s : SigSys) (op) : Decidable (Fresh s op) := by
  induction op using SigOp.casesOn <;> unfold Fresh <;> infer_instance

instance (s : SigSys) (op) : Decidable (Tidy s op) := by
  induction op using SigOp.casesOn <;> unfold Tidy AtMostOne <;> infer_instance

/-- `LOS_SignalWait` consumes what it returns. -/
def AnswersWell (s : SigSys) : SigOp → Prop
  | .signalWait set memAlloc timeout intActive =>
    ∀ ret ∈ (s.k.losSignalWait s.sig set memAlloc timeout intActive).2.2,
      Consumes (sigCBOf s.sig s.k.runTask)
        (sigCBOf (s.k.losSignalWait s.sig set memAlloc timeout intActive).2.1 s.k.runTask)
        (set.getD 0) ret
  | .signalWaitReturn => ∀ r ∈ s.calls.pc s.k.runTask,
      Consumes (sigCBOf s.sig s.k.runTask)
        (sigCBOf (s.k.losSignalWaitReturn s.sig).2.1 s.k.runTask) r.set
        (s.k.losSignalWaitReturn s.sig).2.2
  | _ => True

variable {c : Config} {strict : Prop} {s : SigSys} {op : SigOp} {t u : TaskID}
  {sigNo timeout taskID swtmrStack idleStack : ℕ} {k' k : Sched} {set : Option (BitVec 32)}
  {b memAlloc intActive nodeAlloc cleanStatus : Bool}

section

variable (h : InfoInv c strict s)
include h

/-- The accounts do not change while the wait flags and the ends of the waits stay what they are. -/
theorem InfoInv.accounts_env (he : Env s.k k') (t : TaskID) :
    Accounted (Sending strict s.sending t) (sigCBOf s.sig t) (s.calls.pc t) (s.wakes t)
      (k'.status t).timeout := by
  refine (h.accounts t).congr fun hpc hone => ?_
  obtain ⟨r, hr⟩ := Option.ne_none_iff_exists'.mp hpc
  rcases he.wait t (h.wake.wait.live t r hr).2.1 with ⟨-, hto⟩ | ⟨hp, -⟩
  · exact hto
  · simp [(h.wake.wakes t hpc).waits hp] at hone

theorem InfoInv.accounts_mark (u : TaskID) :
    Accounted (Sending strict s.sending u) (sigCBOf s.sig u) (s.calls.pc u) (s.wakes u)
      ((s.k.setStatus t fun s => { s with signal := b }).status u).timeout :=
  h.accounts_env (h.wake.run.sched.1.env_of_quiet (RunInv.mark h.wake.run).2) u

theorem InfoInv.accounts_store {sending : List (TaskID × ℕ)}
    (he : ∀ u ≠ t, ∀ n, Sending strict s.sending u n → Sending strict sending u n)
    (ha : Accounted (Sending strict sending t) cb (s.calls.pc t) (s.wakes t)
      (s.k.status t).timeout) (u : TaskID) :
    Accounted (Sending strict sending u) (sigCBOf (update s.sig t (some cb)) u) (s.calls.pc u)
      (s.wakes u) (s.k.status u).timeout := by
  by_cases hu : u = t
  · subst hu
    rwa [sigCBOf_update_self]
  · rw [sigCBOf_update_of_ne hu]
    exact (h.accounts u).mono (he u hu)

theorem InfoInv.mark :
    InfoInv c strict { s with k := s.k.setStatus t fun s => { s with signal := b } } :=
  ⟨h.wake.mark, h.sends, h.accounts_mark⟩

theorem InfoInv.answers_signalWait (ht : Tidy s (.signalWait set memAlloc timeout intActive)) :
    AnswersWell s (.signalWait set memAlloc timeout intActive) := by
  obtain ⟨hpc, hone⟩ := ht
  have hacc := h.accounts s.k.runTask
  have hnode := hacc.hasNode (.inl hpc)
  intro ret hret
  rcases losSignalWait_spec s.k s.sig set memAlloc timeout intActive with
    ⟨sig', err, heq, hsame⟩ | ⟨w, rfl, hflag, heq⟩ | ⟨w, rfl, -, -, heq⟩
  · rw [heq] at hret ⊢
    obtain rfl : .error err = ret := by simpa using hret
    rw [hsame]
    exact ⟨fun _ => Iff.rfl, hacc.listed.eachHasNode hnode⟩
  · rw [heq] at hret ⊢
    obtain rfl := Option.some.inj hret
    rw [sigCBOf_update_self]
    exact (takeOne_spec hacc.listed hnode hflag (hone w rfl) rfl).2.2.2
  · rw [heq] at hret
    simp at hret

theorem InfoInv.signalWait (he : intActive = false → Free c s)
    (ht : Tidy s (.signalWait set memAlloc timeout intActive)) :
    InfoInv c strict (exec c s (.signalWait set memAlloc timeout intActive)) := by
  have hwake : WakeInv c (exec c s (.signalWait set memAlloc timeout intActive)) :=
    h.wake.signalWait he ht.1
  obtain ⟨hpc, hone⟩ := ht
  have hacc := h.accounts s.k.runTask
  simp only [exec] at hwake ⊢
  rcases losSignalWait_spec s.k s.sig set memAlloc timeout intActive with
    ⟨sig', err, heq, hsame⟩ | ⟨w, rfl, hflag, heq⟩ | ⟨w, rfl, -, hint, heq⟩
  · rw [heq] at hwake ⊢
    refine ⟨hwake, h.sends, fun u => ?_⟩
    simpa only [waited, hsame] using h.accounts u
  · rw [heq] at hwake ⊢
    refine ⟨hwake, h.sends, h.accounts_store (fun _ _ _ => id) ?_⟩
    obtain ⟨hl, hn, hd, -⟩ :=
      takeOne_spec hacc.listed (hacc.hasNode (.inl hpc)) hflag (hone w rfl) rfl
    rw [hpc] at hacc ⊢
    exact .of_none (by rw [deleteSigInfoFromList_sigWaitFlag]; exact hacc.mask) hl hn
      (hd.pending_or hacc.pending_or_exempt)
  · rw [heq] at hwake ⊢
    have hb : Blocks .waitSignalList s.k (s.k.osSchedTaskWait .waitSignalList timeout) :=
      blocks_osSchedTaskWait
    refine ⟨hwake, h.sends, fun u => ?_⟩
    simp only [waited]
    by_cases hu : u = s.k.runTask
    · subst hu
      rw [hpc] at hacc
      simp only [sigCBOf_update_self, Calls.enter_pc, update_self]
      exact hacc.enter
    · have hto : ((s.k.osSchedTaskWait .waitSignalList timeout).status u).timeout =
          (s.k.status u).timeout := congrArg TaskView.timeout (hb.others u hu)
      rw [sigCBOf_update_of_ne hu, hto]
      simpa [hu] using h.accounts u

theorem InfoInv.wakes_of_running (he : Executing c s.k)
    (hpc : s.calls.pc s.k.runTask ≠ none) (hto : (s.k.status s.k.runTask).timeout = false) :
    s.wakes s.k.runTask = 1 := by
  have hwoken := h.wake.wakes s.k.runTask hpc
  have hle := hwoken.le
  have hne : s.wakes s.k.runTask ≠ 0 := fun hz => by
    rcases hwoken.ended hz with hp | hto'
    · simp [he.pend] at hp
    · simp [hto] at hto'
  omega

theorem InfoInv.returned {r : SigRequest} (he : Executing c s.k)
    (hr : s.calls.pc s.k.runTask = some r) (wakes : ℕ) (timeout : Bool) :
    Accounted (Sending strict s.sending s.k.runTask)
        (sigCBOf (s.k.losSignalWaitReturn s.sig).2.1 s.k.runTask) none wakes timeout ∧
      Consumes (sigCBOf s.sig s.k.runTask)
        (sigCBOf (s.k.losSignalWaitReturn s.sig).2.1 s.k.runTask) r.set
        (s.k.losSignalWaitReturn s.sig).2.2 := by
  have hacc := h.accounts s.k.runTask
  rw [hr] at hacc
  rcases (losSignalWaitReturn_spec s.k s.sig).2 with ⟨hto, heq⟩ | ⟨hto, heq⟩
  · rw [heq, sigCBOf_update_self]
    rw [hto] at hacc
    exact hacc.expire
  · rw [h.wakes_of_running he (by simp [hr]) hto] at hacc
    rw [heq, sigCBOf_update_self]
    exact hacc.leave rfl

theorem InfoInv.signalWaitReturn (he : Executing c s.k) :
    InfoInv c strict (exec c s .signalWaitReturn) := by
  have hwake := h.wake.signalWaitReturn he
  simp only [exec] at hwake ⊢
  cases hr : s.calls.pc s.k.runTask with
  | none => exact h
  | some =>
    simp only [hr] at hwake
    refine ⟨hwake, h.sends, fun u => ?_⟩
    obtain ⟨hk, hcb⟩ := losSignalWaitReturn_spec s.k s.sig
    by_cases hu : u = s.k.runTask
    · subst hu
      simp only [Calls.leave_pc, update_self]
      exact (h.returned he hr _ _).1
    · have hsig : sigCBOf (s.k.losSignalWaitReturn s.sig).2.1 u = sigCBOf s.sig u := by
        rcases hcb with ⟨-, hcb⟩ | ⟨-, hcb⟩ <;> rw [hcb, sigCBOf_update_of_ne hu]
      have hto : ((s.k.losSignalWaitReturn s.sig).1.status u).timeout =
          (s.k.status u).timeout := by
        rw [hk, status, takeTimeout_taskCB_of_ne hu]
        simp [hu]
      simp only [hsig, hto]
      simpa [hu] using h.accounts u

theorem InfoInv.signalSend :
    InfoInv c strict (exec c s (.signalSend taskID sigNo memAlloc nodeAlloc)) := by
  have hwake : WakeInv c (exec c s (.signalSend taskID sigNo memAlloc nodeAlloc)) :=
    h.wake.signalSend
  simp only [exec] at hwake ⊢
  rcases losSignalSend_spec c s.sig s.sigSetFlag taskID sigNo memAlloc nodeAlloc with
    ⟨hne, hsame⟩ | ⟨hok, hv, cb, hadd, hsig⟩
  · generalize losSignalSend c s.sig s.sigSetFlag taskID sigNo memAlloc nodeAlloc = p
      at hne hsame hwake ⊢
    obtain ⟨sig', err⟩ := p
    have hsent : s.sent taskID sigNo (sig', err) = { s with sig := sig' } := by
      cases err <;> first | rfl | exact absurd rfl hne
    rw [hsent] at hwake ⊢
    refine ⟨hwake, h.sends, fun u => ?_⟩
    rw [hsame]
    exact h.accounts u
  · generalize losSignalSend c s.sig s.sigSetFlag taskID sigNo memAlloc nodeAlloc = p
      at hok hsig hwake ⊢
    obtain ⟨sig', err⟩ := p
    obtain rfl : err = .ok := hok
    obtain rfl : sig' = update s.sig taskID (some cb) := hsig
    refine ⟨hwake, ?_, h.accounts_store (fun _ _ _ hn hs => .tail _ (hn hs))
      ((h.accounts taskID).add hadd fun m hm hs => ?_)⟩
    · rintro p (_ | ⟨_, hp⟩)
      · exact hv
      · exact h.sends p hp
    · rcases hm with rfl | hm
      · exact .head _
      · exact .tail _ (hm hs)

theorem InfoInv.signalSendRest (hmem : (t, sigNo) ∈ s.sending)
    (ht : Tidy s (.signalSendRest t sigNo)) (hf : strict → ¬Handed s t sigNo) :
    InfoInv c strict (exec c s (.signalSendRest t sigNo)) := by
  obtain ⟨hs, hnode⟩ := ht
  have hwake := h.wake.signalSendRest hs
  have hv := h.sends _ hmem
  have hsends : ∀ p ∈ s.sending.erase (t, sigNo), osSignalValid p.2 :=
    fun p hp => h.sends p (List.mem_of_mem_erase hp)
  have hsend : ∀ u n, (u, n) ≠ (t, sigNo) → Sending strict s.sending u n →
      Sending strict (s.sending.erase (t, sigNo)) u n :=
    fun _ _ hne hn hs => (List.mem_erase_of_ne hne).mpr (hn hs)
  simp only [exec] at hwake ⊢
  by_cases hw : SendWakes s.k s.sig t sigNo
  · rw [if_pos hw, signalSend_of_wakes hw] at hwake ⊢
    have hmask := (sendWakes_iff.mp hw).2.2.2
    obtain ⟨hz, hto⟩ := hs hw
    obtain ⟨r, hr⟩ := Option.ne_none_iff_exists'.mp (h.wake.pc_of_sendWakes hw)
    have hwk : Wakes t s.k (s.k.osSchedTaskWake c t) := wakes_osSchedTaskWake
    have htime : ∀ u, (((s.k.osSchedTaskWake c t).setStatus t fun s =>
        { s with signal := true }).status u).timeout = (s.k.status u).timeout := by
      intro u
      obtain ⟨p, d, hview⟩ := hwk.view u
      have hwu := congrArg TaskView.timeout hview
      by_cases hu : u = t
      · subst hu
        simpa using hwu
      · simpa [hu] using hwu
    refine ⟨hwake, hsends, fun u => ?_⟩
    have hacc := h.accounts u
    simp only [htime]
    by_cases hu : u = t
    · subst hu
      rw [hr, hz, hto] at hacc
      rw [sigCBOf_update_self, hr, hto]
      have hwoken := hacc.wake hv hnode hmask fun m hm => hsend u m (by simp [hm])
      simpa [bump, hz] using hwoken
    · rw [sigCBOf_update_of_ne hu]
      simpa [bump, hu] using hacc.mono fun n => hsend u n (by simp [hu])
  · rw [if_neg hw] at hwake ⊢
    have hsome : s.sig t ≠ none := fun hnone => by simp [HasNode, sigCBOf, hnone] at hnode
    obtain ⟨hsig, hk⟩ := signalSend_of_not_wakes hw hsome
    refine ⟨hwake, hsends, fun u => ?_⟩
    have hraise : Accounted (Sending strict (s.sending.erase (t, sigNo)) t)
        ((sigCBOf s.sig t).raise sigNo) (s.calls.pc t) (s.wakes t) (s.k.status t).timeout := by
      refine (h.accounts t).raise hv hnode ?_ fun m hm => hsend t m (by simp [hm])
      by_cases hs : strict
      · exact .inl (hf hs)
      · exact .inr fun h => absurd h hs
    have hacc := h.accounts_store (fun u hu n => hsend u n (by simp [hu])) hraise u
    have hto : ((s.k.signalSend c s.sig t sigNo).1.status u).timeout =
        (s.k.status u).timeout := by
      rcases hk with hk | hk
      · rw [hk]
      · rw [hk]
        by_cases hu : u = t
        · subst hu
          simp
        · simp [hu]
    simp only [hsig, hto]
    exact hacc

theorem InfoInv.signalHandle (hf : Free c s) :
    InfoInv c strict (exec c s (.signalHandle cleanStatus)) := by
  have hwake : WakeInv c (exec c s (.signalHandle cleanStatus)) := h.wake.step hf trivial
  simp only [exec] at hwake ⊢
  cases hcb : s.sig s.k.runTask with
  | none => exact h
  | some cb =>
    simp only [hcb] at hwake
    have hof : sigCBOf s.sig s.k.runTask = cb := by simp [sigCBOf, hcb]
    have hacc := h.accounts s.k.runTask
    rw [hof, hf.2] at hacc
    obtain ⟨hl, hn, hd⟩ := @signalHandle_spec cb (s.sigSetFlag s.k.runTask) hacc.listed
    have hafter : ∀ wakes timeout, Accounted (Sending strict s.sending s.k.runTask)
        (cb.signalHandle (s.sigSetFlag s.k.runTask)) none wakes timeout := fun _ _ =>
      .of_none (by rw [signalHandle_sigWaitFlag]; exact hacc.mask) hl (hn (hacc.hasNode (.inl rfl)))
        (hd.pending_or hacc.pending_or_exempt)
    refine ⟨hwake, h.sends, fun u => ?_⟩
    by_cases hu : u = s.k.runTask
    · subst hu
      rw [sigCBOf_update_self, hf.2]
      exact hafter _ _
    · rw [sigCBOf_update_of_ne hu]
      cases cleanStatus with
      | true => exact h.accounts_mark u
      | false => exact h.accounts u

theorem InfoInv.step (he : Enabled c s op) (ht : Tidy s op)
    (hf : strict → Fresh s op) : InfoInv c strict (exec c s op) := by
  cases op with
  | task =>
    exact ⟨h.wake.step he trivial, h.sends, h.accounts_env (h.wake.run.gentle he.1 he.2).2.env⟩
  | signalSet =>
    refine ⟨h.wake.step he trivial, h.sends, fun u => ?_⟩
    simp only [exec, losSignalSet_sig]
    exact h.accounts u
  | signalMask =>
    refine ⟨h.wake.step he trivial, h.sends, fun u => ?_⟩
    simp only [exec, losSignalMaskSet_sig]
    exact h.accounts u
  | signalWait => exact h.signalWait he ht
  | signalWaitReturn => exact h.signalWaitReturn he.1
  | signalSend => exact h.signalSend
  | signalSendRest => exact h.signalSendRest he ht hf
  | signalHandle => exact h.signalHandle he
  | signalEntryEnd => exact h.mark

end

theorem InfoInv.init
    (h : losKernelInit c swtmrStack idleStack = (k, .ok)) : InfoInv c strict { k := k } where
  wake := .init h
  sends p hp := by simp at hp
  accounts _ := .of_none rfl listed_empty (fun n hn => absurd hn.2 (by simp [sigCBOf]))
    fun n hn => by simp [HasNode, sigCBOf] at hn

theorem InfoInv.of_reaches {P : SigSys → SigOp → Prop} (hP : ∀ s op, P s op → Tidy s op)
    (hf : ∀ s op, strict → P s op → Fresh s op) (h : ((machine c).restrict P).Reaches s) :
    InfoInv c strict s :=
  h.invariant (fun _ ⟨_, _, _, hk, hs⟩ => hs ▸ .init hk) fun s op hinv ha =>
    hinv.step ha.1 (hP s op ha.2) fun hs => hf s op hs ha.2

/-- In a tidy run every call of `LOS_SignalWait` consumes exactly the signal that it returns. -/
theorem answersWell_of_tidy (c : Config) (s : SigSys) (op : SigOp)
    (h : ((machine c).restrict Tidy).Reaches s)
    (ha : ((machine c).restrict Tidy).allowed s op) : AnswersWell s op := by
  have hinv : InfoInv c False s := .of_reaches (fun _ _ => id) (fun _ _ => False.elim) h
  cases op with
  | signalWait => exact hinv.answers_signalWait ha.2
  | signalWaitReturn =>
    intro r hr
    exact (hinv.returned ha.1.1 hr 0 false).2
  | _ => trivial

/-- A task that waits for two signals is sent one of them and runs again. -/
def sentOne : List SigOp :=
  waitForTwo ++ [.signalSend 1 1 true true, .signalSendRest 1 1, .task (.taskSwitch 0)]

theorem answersWell_of_tidy_woken : AnswersWell
    (((machine smallConfig).restrict Tidy).run { k := smallBoot } sentOne) .signalWaitReturn := by
  have htidy : ((machine smallConfig).restrict Tidy).Runs { k := smallBoot } sentOne := by
    refine ⟨⟨by decide +kernel, trivial⟩, ⟨by decide +kernel, trivial⟩,
      ⟨by decide +kernel, trivial⟩, ⟨by decide +kernel, trivial⟩, ⟨by decide +kernel,
      by decide +kernel, ?_⟩, ⟨by decide +kernel, trivial⟩, ⟨trivial, trivial⟩,
      ⟨by decide +kernel, by decide +kernel, by decide +kernel⟩, ⟨by decide +kernel, trivial⟩,
      trivial⟩
    intro w hw
    obtain rfl : 3 = w := by simpa using hw
    exact ⟨0, by decide, by decide +kernel⟩
  have hinit : ((machine smallConfig).restrict Tidy).init { k := smallBoot } :=
    ⟨_, 0, 1000, rfl, rfl⟩
  have henabled : Enabled smallConfig (((machine smallConfig).restrict Tidy).run
      { k := smallBoot } sentOne) .signalWaitReturn := by
    unfold Enabled
    decide +kernel
  exact @answersWell_of_tidy smallConfig _ .signalWaitReturn ((Machine.Reaches.start hinit).run
    sentOne htidy) ⟨henabled, trivial⟩

/-- Two signals have been sent to the running task by interrupt handlers. -/
def twoPending : SigSys :=
  (machine smallConfig).run { k := smallBoot }
    [.task (.taskCreate (userTask 5 false) 2000), .task (.schedStart 0), .signalSet 1 false true,
      .signalSet 2 false true, .signalSend 1 1 true true, .signalSendRest 1 1,
      .signalSend 1 2 true true, .signalSendRest 1 2]

/-- It waits for both of them: one number is returned, and neither signal is pending any more. -/
theorem two_consumed : (machine smallConfig).Reaches twoPending ∧
    (machine smallConfig).allowed twoPending (.signalWait (some 3) true 7 false) ∧
    ¬AnswersWell twoPending (.signalWait (some 3) true 7 false) := by
  have hr : (machine smallConfig).Reaches twoPending :=
    Machine.Reaches.run (M := machine smallConfig)
      (.start ⟨_, 0, 1000, rfl, rfl⟩) _ (by decide +kernel)
  refine ⟨hr, by decide +kernel, fun h => ?_⟩
  have hret : (twoPending.k.losSignalWait twoPending.sig (some 3) true 7 false).2.2 =
      some (.ok 2) := by
    rfl
  obtain ⟨-, -, -, hpend, -⟩ := h (.ok 2) hret
  exact absurd ((hpend 1).mpr ⟨by decide +kernel, by decide⟩) (by decide +kernel)

/-! ## Nodes and pending signals -/

/-- Apart from the signals that are being sent to the task, its list has one node for each pending
signal that has not been handed over, and no other node. -/
structure Agrees (s : SigSys) (t : TaskID) : Prop where
  nodup : ((sigCBOf s.sig t).sigInfoList.map Siginfo.siSigno).Nodup
  nodes : ∀ n, (t, n) ∉ s.sending → (n ∈ (sigCBOf s.sig t).sigInfoList.map Siginfo.siSigno ↔
    Pending (sigCBOf s.sig t) n ∧ ¬Handed s t n)

def Matched (s : SigSys) (op : SigOp) : Prop := Tidy s op ∧ Fresh s op
deriving Decidable

theorem agrees_of_reaches (c : Config) (s : SigSys) (t : TaskID)
    (h : ((machine c).restrict Matched).Reaches s) : Agrees s t := by
  have hinv : InfoInv c True s := .of_reaches (fun _ _ => And.left) (fun _ _ _ => And.right) h
  have hacc := hinv.accounts t
  refine ⟨hacc.listed.nodup, fun n hsend => ?_⟩
  have hmem : n ∈ (sigCBOf s.sig t).sigInfoList.map Siginfo.siSigno ↔
      HasNode (sigCBOf s.sig t) n := by
    refine ⟨fun hn => ?_, fun hn => List.mem_map_of_mem hn⟩
    obtain ⟨i, hi, rfl⟩ := List.mem_map.mp hn
    rw [HasNode, ← hacc.listed.nodes i hi]
    exact hi
  rw [hmem]
  refine ⟨fun hn => (hacc.nodes n hn).resolve_right fun hs => hsend (hs trivial), ?_⟩
  rintro ⟨hp, hh⟩
  refine (hacc.pending n hp).resolve_right fun ⟨hpc, hone, hinfo⟩ => hh ⟨hpc, ?_, hinfo⟩
  simp [hone]

theorem agrees_of_reaches_sent : Agrees (((machine smallConfig).restrict Matched).run
    { k := smallBoot } [.task (.taskCreate (userTask 5 false) 2000), .task (.schedStart 0),
      .signalSet 1 false true, .signalSend 1 1 true true, .signalSendRest 1 1]) 1 :=
  agrees_of_reaches smallConfig _ 1 (Machine.Reaches.run
    (M := (machine smallConfig).restrict Matched)
    (.start ⟨_, 0, 1000, rfl, rfl⟩) _ (by decide +kernel))

/-- The call that consumes two signals leaves the node of one of them. -/
theorem node_left_behind : ∃ s, (machine smallConfig).Reaches s ∧ ¬Agrees s 1 := by
  have hr : (machine smallConfig).Reaches twoPending :=
    Machine.Reaches.run (M := machine smallConfig)
      (.start ⟨_, 0, 1000, rfl, rfl⟩) _ (by decide +kernel)
  refine ⟨_, hr.step (.signalWait (some 3) true 7 false) (by decide +kernel), fun h => ?_⟩
  exact absurd ((h.nodes 1 (by decide +kernel)).mp (by decide +kernel)).1 (by decide +kernel)

end SigSys

end LiteOS.Kernel
