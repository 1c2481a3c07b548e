import LiteOS.Kernel.Types

/-!
# The task sort link

`g_taskSortLink` keeps the tasks that wait for a time in the order of their response times. A node
whose response time is `OS_SORT_LINK_INVALID_TIME` is taken to be unlinked.
-/

namespace LiteOS.Kernel

open List

/-- The walk of `OsAddNode2SortLink` from the tail towards the head: `nodes` are the members that
have not been looked at, the last one first. -/
def walkFromTail (responseTime : TaskID → ℕ) (t : TaskID) : List TaskID → List TaskID
  | [] => [t]
  | prev :: nodes =>
    if responseTime prev ≤ responseTime t then t :: prev :: nodes
    else prev :: walkFromTail responseTime t nodes

def osAddNode2SortLink (responseTime : TaskID → ℕ) (sortLink : List TaskID) (t : TaskID) :
    List TaskID :=
  match sortLink with
  | [] => [t]
  | first :: rest =>
    if responseTime first > responseTime t then t :: first :: rest
    else if responseTime first = responseTime t then first :: t :: rest
    else (walkFromTail responseTime t (first :: rest).reverse).reverse

theorem walkFromTail_perm (responseTime : TaskID → ℕ) (t : TaskID) (nodes : List TaskID) :
    (walkFromTail responseTime t nodes).Perm (t :: nodes) := by
  induction nodes with
  | nil => exact .refl _
  | cons prev nodes ih =>
    unfold walkFromTail
    split
    · exact .refl _
    · exact (ih.cons prev).trans (.swap t prev nodes)

/-- Whatever path the insertion takes, the list gains exactly the new node. -/
theorem osAddNode2SortLink_perm (responseTime : TaskID → ℕ) (sortLink : List TaskID)
    (t : TaskID) : (osAddNode2SortLink responseTime sortLink t).Perm (t :: sortLink) := by
  cases sortLink with
  | nil => exact .refl _
  | cons first rest =>
    simp only [osAddNode2SortLink]
    split_ifs
    · exact .refl _
    · exact .swap t first rest
    · exact (reverse_perm _).trans ((walkFromTail_perm _ _ _).trans
        ((reverse_perm _).cons t))

/-! ## The position of a new node -/

section Position

variable {responseTime : TaskID → ℕ} {sortLink before after : List TaskID} {t first : TaskID}

/-- The list with `t` behind every node that does not expire later. -/
def stableInsert (responseTime : TaskID → ℕ) (sortLink : List TaskID) (t : TaskID) :
    List TaskID :=
  sortLink.takeWhile (responseTime · ≤ responseTime t) ++
    t :: sortLink.dropWhile (responseTime · ≤ responseTime t)

theorem walkFromTail_append (hafter : ∀ u ∈ after, responseTime t < responseTime u)
    (hbefore : ∀ u ∈ before, responseTime u ≤ responseTime t) :
    walkFromTail responseTime t (after ++ before) = after ++ t :: before := by
  induction after with
  | nil => cases before with
    | nil => rfl
    | cons u before => exact if_pos (hbefore u (by simp))
  | cons u after ih =>
    have hlt := hafter u (by simp)
    rw [cons_append, walkFromTail, if_neg (by omega), ih fun v hv => hafter v (by simp [hv])]
    rfl

theorem exists_split (hsorted : sortLink.Pairwise (responseTime · ≤ responseTime ·)) (time : ℕ) :
    ∃ before after, sortLink = before ++ after ∧ (∀ u ∈ before, responseTime u ≤ time) ∧
      ∀ u ∈ after, time < responseTime u := by
  induction sortLink with
  | nil => exact ⟨[], [], by simp⟩
  | cons u sortLink ih =>
    obtain ⟨hu, hsorted⟩ := pairwise_cons.mp hsorted
    by_cases h : responseTime u ≤ time
    · obtain ⟨before, after, rfl, hbefore, hafter⟩ := ih hsorted
      exact ⟨u :: before, after, rfl, by simpa using ⟨h, hbefore⟩, hafter⟩
    · refine ⟨[], u :: sortLink, rfl, by simp, fun v hv => ?_⟩
      rcases mem_cons.mp hv with rfl | hv
      · omega
      · have := hu v hv
        omega

theorem stableInsert_append (hafter : ∀ u ∈ after, responseTime t < responseTime u)
    (hbefore : ∀ u ∈ before, responseTime u ≤ responseTime t) :
    stableInsert responseTime (before ++ after) t = before ++ t :: after := by
  have hstop : after.takeWhile (responseTime · ≤ responseTime t) = [] ∧
      after.dropWhile (responseTime · ≤ responseTime t) = after := by
    cases after with
    | nil => exact ⟨rfl, rfl⟩
    | cons u after => simp [hafter u (by simp)]
  rw [stableInsert, takeWhile_append_of_pos (by simpa using hbefore),
    dropWhile_append_of_pos (by simpa using hbefore), hstop.1, hstop.2, append_nil]

/-- All paths put the new node behind the nodes that do not expire later, if at most one node has
the time of both the head and the new node. -/
theorem osAddNode2SortLink_eq_stableInsert
    (hsorted : sortLink.Pairwise (responseTime · ≤ responseTime ·))
    (htie : ∀ first second rest, sortLink = first :: second :: rest →
      responseTime first = responseTime t → responseTime second ≠ responseTime t) :
    osAddNode2SortLink responseTime sortLink t = stableInsert responseTime sortLink t := by
  obtain ⟨before, after, rfl, hbefore, hafter⟩ := exists_split hsorted (responseTime t)
  rw [stableInsert_append hafter hbefore]
  rcases before with _ | ⟨first, before⟩
  · rcases after with _ | ⟨first, after⟩
    · rfl
    · exact if_pos (hafter first (by simp))
  · have hle := hbefore first (by simp)
    rw [cons_append, osAddNode2SortLink, if_neg (by omega)]
    split_ifs with heq
    · rcases before with _ | ⟨second, before⟩
      · rfl
      · have hle := hbefore second (by simp)
        have hge := (pairwise_cons.mp hsorted).1 second (by simp)
        exact absurd (by omega) (htie first second _ rfl heq)
    · rw [← cons_append, reverse_append, walkFromTail_append]
      · simp
      · simpa using hafter
      · exact fun u hu => hbefore u (mem_reverse.mp hu)

theorem osAddNode2SortLink_tie (heq : responseTime first = responseTime t) :
    osAddNode2SortLink responseTime (first :: after) t = first :: t :: after := by
  simp [osAddNode2SortLink, heq]

/-- The paths agree unless several nodes at the head have the new node's time: the new node is
then put behind the first of them only. -/
theorem osAddNode2SortLink_eq_stableInsert_iff
    (hsorted : sortLink.Pairwise (responseTime · ≤ responseTime ·)) (ht : t ∉ sortLink) :
    osAddNode2SortLink responseTime sortLink t = stableInsert responseTime sortLink t ↔
      ∀ first second rest, sortLink = first :: second :: rest →
        responseTime first = responseTime t → responseTime second ≠ responseTime t := by
  refine ⟨?_, osAddNode2SortLink_eq_stableInsert hsorted⟩
  rintro h first second rest rfl heq heq'
  rw [osAddNode2SortLink_tie heq, stableInsert, takeWhile_cons_of_pos (by simp [heq]),
    takeWhile_cons_of_pos (by simp [heq']), cons_append, cons_append] at h
  have hsecond : t = second := (cons.inj (cons.inj h).2).1
  exact ht (by simp [hsecond])

theorem osAddNode2SortLink_between : osAddNode2SortLink id [1, 3] 2 = stableInsert id [1, 3] 2 :=
  (osAddNode2SortLink_eq_stableInsert_iff (by decide) (by decide)).mpr (by
    rintro _ _ _ ⟨⟩ h
    exact absurd h (by decide))

/-- A third node with the time of the first two expires before the second. -/
theorem osAddNode2SortLink_three_equal :
    osAddNode2SortLink (fun _ => 5) [1, 2] 3 = [1, 3, 2] ∧
      stableInsert (fun _ => 5) [1, 2] 3 = [1, 2, 3] := by
  decide

end Position

namespace Sched

def osAdd2SortLink (c : Config) (k : Sched) (t : TaskID) (startTime waitTicks : ℕ) : Sched :=
  let k := k.modifyTCB t fun cb =>
    { cb with responseTime := (startTime + c.sysTickToCycle waitTicks) % 2 ^ 64 }
  { k with sortLink := osAddNode2SortLink (fun u => (k.taskCB u).responseTime) k.sortLink t }

def osDeleteNodeSortLink (k : Sched) (t : TaskID) : Sched :=
  { k.modifyTCB t fun cb => { cb with responseTime := sortLinkInvalidTime } with
    sortLink := k.sortLink.erase t
    unlinkFault := k.unlinkFault || decide (t ∉ k.sortLink) }

def osDeleteSortLink (k : Sched) (t : TaskID) : Sched :=
  if (k.taskCB t).responseTime ≠ sortLinkInvalidTime then k.osDeleteNodeSortLink t else k

end Sched

end LiteOS.Kernel
