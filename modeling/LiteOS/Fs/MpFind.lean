import LiteOS.Lib.Fields

/-!
# Looking up mount points

The model of `VfsMpFind` in its two configurations. A pointer into a string is the rest of the
string from there on. Where a mount point is found `pathInMp` is set to the path itself.

With `LOSCFG_FS_SUPPORT_MOUNT_TARGET_RECURSIVE` the walk compares the components before the first
doubled slash of both strings, and the mount point that shares most characters wins; without it only
the first components are compared and the first mount point of the list that agrees wins.
-/

namespace LiteOS.Fs

open Lib List

/-- A string of the source, without the NUL at its end. -/
abbrev CStr := List Char

/-- `struct MountPoint`, with its address; `mFs` is the address of a `struct FsMap`. -/
structure MountPoint where
  addr : ℕ := 0
  mFs : ℕ := 0
  mPath : CStr
  mDev : Option CStr := none
  mRefs : ℕ := 0
  mWriteEnable : Bool := true
deriving DecidableEq, Repr

/-- `while ((*p == '/') && (*(p + 1) != '/')) p++` -/
def skipSlash : CStr → CStr
  | [] => []
  | a :: p => if a = '/' ∧ p.head? ≠ some '/' then skipSlash p else a :: p

/-- `t - mPath`, the distance to the next slash or to the end. -/
def nextSlash (mPath : CStr) : ℕ := (mPath.takeWhile (· ≠ '/')).length

theorem length_skipSlash_le (p : CStr) : (skipSlash p).length ≤ p.length := by
  induction p with
  | nil => rfl
  | cons a p ih =>
    rw [skipSlash]
    split_ifs
    · exact ih.trans (Nat.le_succ _)
    · exact le_refl _

/-- The `do` loop of `VfsMpFind` over the strings of one mount point: the number of matching
characters, or nothing where the loop leaves for the next mount point. -/
def matchLoop (mPath iPath : CStr) (matched : ℕ) : Option ℕ :=
  let m := skipSlash mPath
  let i := skipSlash iPath
  let n := nextSlash m
  if n = 0 then some matched
  else if m.take n ≠ i.take n then none
  else if ¬AtGap '/' (i.drop n) then none
  else if m.drop n = [] then some (matched + n)
  else matchLoop (m.drop n) (i.drop n) (matched + n)
termination_by mPath.length
decreasing_by
  have hskip := length_skipSlash_le mPath
  have hn : nextSlash (skipSlash mPath) ≤ (skipSlash mPath).length :=
    (List.takeWhile_prefix _).length_le
  have hpos : nextSlash (skipSlash mPath) ≠ 0 := by assumption
  rw [List.length_drop]
  omega

/-- The loop of `VfsMpFind` over the mount points, with nested mount targets. -/
def findBest (path : CStr) : List MountPoint → Option MountPoint → ℕ → Option MountPoint
  | [], bestMp, _ => bestMp
  | mp :: mps, bestMp, bestMatches =>
    match matchLoop mp.mPath path 0 with
    | none => findBest path mps bestMp bestMatches
    | some matched =>
      if matched > bestMatches then findBest path mps (some mp) matched
      else findBest path mps bestMp bestMatches

/-- The loop that compares two components, with the strings where it ends. -/
def compareLoop : CStr → CStr → CStr × CStr
  | a :: mPath, b :: target =>
    if a ≠ '/' ∧ b ≠ '/' ∧ a = b then compareLoop mPath target else (a :: mPath, b :: target)
  | mPath, target => (mPath, target)

/-- Whether the first components of the two strings agree. -/
def sameFirst (mPath path : CStr) : Bool :=
  let (m, target) := compareLoop (mPath.dropWhile (· = '/')) (path.dropWhile (· = '/'))
  AtGap '/' m && AtGap '/' target

/-- `VfsMpFind`; `nested` is `LOSCFG_FS_SUPPORT_MOUNT_TARGET_RECURSIVE`. -/
def vfsMpFind (nested : Bool) (mountPoints : List MountPoint) (path : CStr) : Option MountPoint :=
  if nested then findBest path mountPoints none 0
  else mountPoints.find? fun mp => sameFirst mp.mPath path

/-! ## What the strings say -/

def components (p : CStr) : List CStr := fields '/' p

def leading (p : CStr) : List CStr := stem '/' p

def Below (mp : MountPoint) (path : CStr) : Prop := components mp.mPath <+: components path
deriving Decidable

/-- The path lies below the mount point as far as both are read up to their first doubled slash. -/
def Seen (mp : MountPoint) (path : CStr) : Prop :=
  leading mp.mPath ≠ [] ∧ leading mp.mPath <+: leading path
deriving Decidable

variable {mp m m' : MountPoint} {mps : List MountPoint} {p q path : CStr} {n : ℕ} {nested : Bool}

/-! ## The walk over two strings -/

theorem skipSlash_of_not_atGap (h : ¬AtGap '/' p) : skipSlash p = p := by
  cases p with
  | nil => rfl
  | cons => rw [skipSlash, if_neg (fun hc => h (.inr (by simp [hc.1])))]

/-- Skipping slashes leaves a component, nothing, or a string that begins with a doubled slash. -/
theorem leading_skipSlash : leading (skipSlash p) = leading p ∧
    (AtGap '/' (skipSlash p) → leading p = []) := by
  cases p with
  | nil => simp [skipSlash, leading]
  | cons a p =>
    by_cases ha : a = '/'
    · subst ha
      by_cases hp : p.head? = some '/'
      · obtain ⟨p', rfl⟩ : ∃ p', p = '/' :: p' := by
          cases p with
          | nil => simp at hp
          | cons b p => exact ⟨p, by simpa using hp⟩
        simp [skipSlash, leading]
      · have hskip : skipSlash ('/' :: p) = p := by
          rw [skipSlash, if_pos ⟨rfl, hp⟩]
          cases p with
          | nil => rfl
          | cons => exact skipSlash_of_not_atGap (by simpa [AtGap] using hp)
        rw [hskip, leading, leading, stem_sep_cons hp]
        refine ⟨rfl, fun hgap => ?_⟩
        rw [hgap.resolve_right hp]
        simp
    · have hgap : ¬AtGap '/' (a :: p) := by simp [AtGap, ha]
      rw [skipSlash_of_not_atGap hgap]
      exact ⟨rfl, fun hc => absurd hc hgap⟩

theorem nextSlash_eq_zero_iff : nextSlash p = 0 ↔ AtGap '/' p := by
  rw [nextSlash, length_eq_zero_iff, takeWhile_eq_nil_iff_atGap]

theorem take_nextSlash : p.take (nextSlash p) = p.takeWhile (· ≠ '/') :=
  prefix_iff_eq_take.mp (List.takeWhile_prefix _) |>.symm

theorem drop_nextSlash : p.drop (nextSlash p) = p.dropWhile (· ≠ '/') := by
  have h := @List.drop_left _ (p.takeWhile (· ≠ '/')) (p.dropWhile (· ≠ '/'))
  rwa [takeWhile_append_dropWhile] at h

theorem leading_eq_cons (h : ¬AtGap '/' p) :
    leading p = p.takeWhile (· ≠ '/') :: leading (p.drop (nextSlash p)) := by
  rw [drop_nextSlash]
  exact stem_eq_cons h

/-- The first component of `p` is where the walk stands in `q`, and ends there too. -/
theorem leading_first (hp : ¬AtGap '/' p) :
    (p.take (nextSlash p) = q.take (nextSlash p) ∧ AtGap '/' (q.drop (nextSlash p))) ↔
      ¬AtGap '/' q ∧ q.takeWhile (· ≠ '/') = p.takeWhile (· ≠ '/') := by
  constructor
  · rintro ⟨htake, hgap⟩
    have hq : q = p.takeWhile (· ≠ '/') ++ q.drop (nextSlash p) := by
      rw [← take_nextSlash, htake, take_append_drop]
    have hfirst : q.takeWhile (· ≠ '/') = p.takeWhile (· ≠ '/') := by
      conv_lhs => rw [hq]
      exact takeWhile_append_of_atGap sep_notMem_takeWhile hgap
    exact ⟨fun hc => hp (takeWhile_eq_nil_iff_atGap.mp
        (hfirst ▸ takeWhile_eq_nil_iff_atGap.mpr hc)), hfirst⟩
  · rintro ⟨-, hfirst⟩
    have hn : nextSlash q = nextSlash p := congrArg length hfirst
    constructor
    · rw [take_nextSlash, ← hn, take_nextSlash, hfirst]
    · rw [← hn, drop_nextSlash]
      exact atGap_dropWhile

/-- The walk finds whether the leading components of the mount point begin those of the path. -/
theorem matchLoop_eq (p q : CStr) (n : ℕ) : matchLoop p q n =
    if leading p <+: leading q then some (n + width (leading p)) else none := by
  induction hlen : p.length using Nat.strong_induction_on generalizing p q n with
  | _ len ih =>
    obtain ⟨hp, hpgap⟩ := leading_skipSlash
    obtain ⟨hq, hqgap⟩ := leading_skipSlash (p := q)
    have hle := length_skipSlash_le p
    rw [matchLoop.eq_def]
    revert hp hpgap hq hqgap hle
    generalize skipSlash p = m
    generalize skipSlash q = i
    intro hp hpgap hq hqgap hle
    by_cases hm : AtGap '/' m
    · rw [if_pos (nextSlash_eq_zero_iff.mpr hm), hpgap hm]
      simp
    have hpos := mt nextSlash_eq_zero_iff.mp hm
    have hcons := hp.symm.trans (leading_eq_cons hm)
    have hlt : (m.drop (nextSlash m)).length < len := by
      have : nextSlash m ≤ m.length := (List.takeWhile_prefix _).length_le
      rw [length_drop]
      omega
    rw [if_neg hpos]
    by_cases hfirst : m.take (nextSlash m) = i.take (nextSlash m) ∧
        AtGap '/' (i.drop (nextSlash m))
    · -- both strings have the same component here
      obtain ⟨hi, hw⟩ := (leading_first hm).mp hfirst
      have hicons := hq.symm.trans (leading_eq_cons hi)
      rw [show nextSlash i = nextSlash m from congrArg length hw, hw] at hicons
      rw [if_neg (not_not.mpr hfirst.1), if_neg (not_not.mpr hfirst.2), hcons, hicons]
      simp only [cons_prefix_cons, true_and, width_cons, ← Nat.add_assoc]
      split_ifs with hend hpre hpre
      · rw [hend]
        simp [leading, nextSlash]
      · exact absurd (by simp [hend, leading]) hpre
      · rw [ih _ hlt _ _ _ rfl, if_pos hpre]
        rfl
      · rw [ih _ hlt _ _ _ rfl, if_neg hpre]
    · have hnot : ¬leading p <+: leading q := by
        rintro ⟨rest, hrest⟩
        apply hfirst
        rw [leading_first hm]
        rw [hcons, ← hq, cons_append] at hrest
        have hi : ¬AtGap '/' i := fun hc => by
          rw [hq, hqgap hc] at hrest
          simp at hrest
        rw [leading_eq_cons hi] at hrest
        exact ⟨hi, (cons.inj hrest).1.symm⟩
      rw [if_neg hnot]
      by_cases htake : m.take (nextSlash m) = i.take (nextSlash m)
      · rw [if_neg (not_not.mpr htake), if_pos fun hc => hfirst ⟨htake, hc⟩]
      · rw [if_pos htake]

/-! ## The mount point that wins -/

theorem Seen.width_pos (h : Seen mp path) : 0 < width (leading mp.mPath) :=
  Lib.width_pos (fun _ hw => ne_nil_of_mem_fields hw) h.1

/-- Characters and components order the mount points in the same way. -/
theorem Seen.width_lt_iff (hmp : Seen mp path) (hm : Seen m path) :
    width (leading mp.mPath) < width (leading m.mPath) ↔
      (leading mp.mPath).length < (leading m.mPath).length :=
  width_lt_width_iff (fun _ hw => ne_nil_of_mem_fields hw) hmp.2 hm.2

theorem findBest_cons {best : Option MountPoint} : findBest path (mp :: mps) best n =
    if Seen mp path ∧ n < width (leading mp.mPath) then
      findBest path mps (some mp) (width (leading mp.mPath)) else findBest path mps best n := by
  rw [findBest, matchLoop_eq, Nat.zero_add]
  by_cases hpre : leading mp.mPath <+: leading path
  · by_cases hlt : n < width (leading mp.mPath)
    · have hne : leading mp.mPath ≠ [] := fun he => by
        simp [he] at hlt
      simp [hpre, Seen, hne]
    · simp [hpre, hlt]
  · simp [hpre, Seen]

/-- Either no mount point does better than the best one so far, or the first of those that do best
wins. -/
theorem findBest_cases (best : Option MountPoint) : (findBest path mps best n = best ∧
      ∀ x ∈ mps, Seen x path → width (leading x.mPath) ≤ n) ∨
    ∃ l₁ m l₂, mps = l₁ ++ m :: l₂ ∧ findBest path mps best n = some m ∧ Seen m path ∧
      n < width (leading m.mPath) ∧
      (∀ x ∈ l₁, Seen x path → width (leading x.mPath) < width (leading m.mPath)) ∧
      ∀ x ∈ l₂, Seen x path → width (leading x.mPath) ≤ width (leading m.mPath) := by
  induction mps generalizing best n with
  | nil => exact .inl ⟨rfl, by simp⟩
  | cons mp mps ih =>
    rw [findBest_cons]
    split_ifs with hmp
    · right
      rcases ih (some mp) with ⟨he, hle⟩ | hwin
      · exact ⟨[], mp, mps, rfl, he, hmp.1, hmp.2, by simp, hle⟩
      · obtain ⟨l₁, m, l₂, hl, he, hm, hlt, hbefore, hafter⟩ := hwin
        refine ⟨mp :: l₁, m, l₂, by rw [hl]; rfl, he, hm, hmp.2.trans hlt, ?_, hafter⟩
        intro x hx hseen
        rcases mem_cons.mp hx with rfl | hx
        · exact hlt
        · exact hbefore x hx hseen
    · have hmp' : Seen mp path → width (leading mp.mPath) ≤ n := fun hseen =>
        Nat.le_of_not_lt fun hlt => hmp ⟨hseen, hlt⟩
      rcases ih best with ⟨he, hle⟩ | hwin
      · left
        refine ⟨he, fun x hx hseen => ?_⟩
        rcases mem_cons.mp hx with rfl | hx
        · exact hmp' hseen
        · exact hle x hx hseen
      · right
        obtain ⟨l₁, m, l₂, hl, he, hm, hlt, hbefore, hafter⟩ := hwin
        refine ⟨mp :: l₁, m, l₂, by rw [hl]; rfl, he, hm, hlt, ?_, hafter⟩
        intro x hx hseen
        rcases mem_cons.mp hx with rfl | hx
        · exact (hmp' hseen).trans_lt hlt
        · exact hbefore x hx hseen

/-- The first of the mount points whose leading components are the longest beginning of those of the
path. -/
def Picked (mps : List MountPoint) (path : CStr) (m : MountPoint) : Prop :=
  ∃ l₁ l₂, mps = l₁ ++ m :: l₂ ∧ Seen m path ∧
    (∀ x ∈ l₁, Seen x path → (leading x.mPath).length < (leading m.mPath).length) ∧
    ∀ x ∈ l₂, Seen x path → (leading x.mPath).length ≤ (leading m.mPath).length

theorem Picked.unique (h : Picked mps path m) (h' : Picked mps path m') : m = m' := by
  obtain ⟨l₁, l₂, rfl, hm, hbefore, hafter⟩ := h
  obtain ⟨l₁', l₂', hl, hm', hbefore', hafter'⟩ := h'
  rcases append_eq_append_iff.mp hl with ⟨as, rfl, hr⟩ | ⟨as, rfl, hr⟩
  · cases as with
    | nil => exact (cons.inj hr).1
    | cons =>
      obtain ⟨rfl, rfl⟩ := cons.inj hr
      have h₁ := hbefore' m (by simp) hm
      have h₂ := hafter m' (by simp) hm'
      omega
  · cases as with
    | nil => exact (cons.inj hr).1.symm
    | cons =>
      obtain ⟨rfl, rfl⟩ := cons.inj hr
      have h₁ := hbefore m' (by simp) hm'
      have h₂ := hafter' m (by simp) hm
      omega

theorem vfsMpFind_nested : (vfsMpFind true mps path = none ∧ ∀ x ∈ mps, ¬Seen x path) ∨
    ∃ m, vfsMpFind true mps path = some m ∧ Picked mps path m := by
  rw [vfsMpFind, if_pos rfl]
  rcases @findBest_cases mps path 0 none with ⟨he, hle⟩ | hwin
  · left
    exact ⟨he, fun x hx hseen => absurd (hle x hx hseen) (Nat.not_le.mpr hseen.width_pos)⟩
  · right
    obtain ⟨l₁, m, l₂, hl, he, hm, -, hbefore, hafter⟩ := hwin
    refine ⟨m, he, l₁, l₂, hl, hm, fun x hx hseen => ?_, fun x hx hseen => ?_⟩
    · exact (hseen.width_lt_iff hm).mp (hbefore x hx hseen)
    · exact Nat.le_of_not_lt fun hlt =>
        Nat.not_lt.mpr (hafter x hx hseen) ((hm.width_lt_iff hseen).mpr hlt)

theorem vfsMpFind_nested_eq_some_iff : vfsMpFind true mps path = some m ↔ Picked mps path m := by
  rcases @vfsMpFind_nested mps path with ⟨he, hnone⟩ | ⟨m', he, hm'⟩
  · rw [he]
    constructor
    · intro h
      simp at h
    · rintro ⟨l₁, l₂, rfl, hm, -⟩
      exact absurd hm (hnone m (by simp))
  · rw [he, Option.some.injEq]
    constructor
    · rintro rfl
      exact hm'
    · intro hm
      exact hm'.unique hm

theorem vfsMpFind_nested_eq_none_iff :
    vfsMpFind true mps path = none ↔ ∀ x ∈ mps, ¬Seen x path := by
  rcases @vfsMpFind_nested mps path with ⟨he, hnone⟩ | ⟨m, he, hm⟩
  · simpa [he] using hnone
  · obtain ⟨l₁, l₂, rfl, hseen, -⟩ := hm
    rw [he]
    constructor
    · intro h
      simp at h
    · intro h
      exact absurd hseen (h m (by simp))

/-! ## Lookup by the first component -/

/-- The first component of a path, empty for the root. -/
def firstComponent (p : CStr) : CStr := (components p).head?.getD []

theorem compareLoop_atGap_iff : (AtGap '/' (compareLoop p q).1 ∧ AtGap '/' (compareLoop p q).2) ↔
    p.takeWhile (· ≠ '/') = q.takeWhile (· ≠ '/') := by
  induction p generalizing q with
  | nil =>
    have hnil : compareLoop [] q = ([], q) := by cases q <;> rfl
    rw [hnil, takeWhile_nil, eq_comm, takeWhile_eq_nil_iff_atGap]
    exact and_iff_right (.inl rfl)
  | cons a p ih =>
    cases q with
    | nil =>
      rw [compareLoop, takeWhile_nil, takeWhile_eq_nil_iff_atGap]
      · exact and_iff_left (.inl rfl)
      · simp
    | cons b =>
      rw [compareLoop]
      by_cases ha : a = '/'
      · simp [ha, AtGap]
      · by_cases hb : b = '/'
        · simp [hb, AtGap]
        · by_cases hab : a = b
          · subst hab
            simp [ha, ih]
          · simp [ha, hb, hab, AtGap]

theorem sameFirst_iff : sameFirst p q ↔ firstComponent p = firstComponent q := by
  simp only [sameFirst, Bool.and_eq_true, decide_eq_true_eq, compareLoop_atGap_iff, firstComponent,
    components, head?_fields]

/-- The first mount point whose first component is that of the path. -/
def PickedFirst (mps : List MountPoint) (path : CStr) (m : MountPoint) : Prop :=
  ∃ l₁ l₂, mps = l₁ ++ m :: l₂ ∧ firstComponent m.mPath = firstComponent path ∧
    ∀ x ∈ l₁, firstComponent x.mPath ≠ firstComponent path

theorem vfsMpFind_first_eq_some_iff :
    vfsMpFind false mps path = some m ↔ PickedFirst mps path m := by
  simp only [vfsMpFind, Bool.false_eq_true, if_false, find?_eq_some_iff_append, sameFirst_iff,
    PickedFirst]
  constructor
  · rintro ⟨h, l₁, l₂, hl, hbefore⟩
    exact ⟨l₁, l₂, hl, h, fun x hx => by simpa [← sameFirst_iff] using hbefore x hx⟩
  · rintro ⟨l₁, l₂, hl, h, hbefore⟩
    exact ⟨h, l₁, l₂, hl, fun x hx => by simpa [← sameFirst_iff] using hbefore x hx⟩

/-- The mount point that the lookup returns, by the components of the strings. -/
def Wins (nested : Bool) (mps : List MountPoint) (path : CStr) (m : MountPoint) : Prop :=
  if nested then Picked mps path m else PickedFirst mps path m

theorem vfsMpFind_eq_some_iff : vfsMpFind nested mps path = some m ↔ Wins nested mps path m := by
  cases nested with
  | true => exact vfsMpFind_nested_eq_some_iff
  | false => exact vfsMpFind_first_eq_some_iff

theorem mem_of_vfsMpFind (h : vfsMpFind nested mps path = some m) : m ∈ mps := by
  have hw := vfsMpFind_eq_some_iff.mp h
  cases nested with
  | true =>
    obtain ⟨l₁, l₂, rfl, -⟩ := hw
    simp
  | false =>
    obtain ⟨l₁, l₂, rfl, -⟩ := hw
    simp

/-! ## Longest matches -/

/-- The answer that a lookup should give: a mount point whose components are the longest beginning
of those of the path. -/
def LongestMatch (mps : List MountPoint) (path : CStr) : Option MountPoint → Prop
  | none => ∀ x ∈ mps, ¬Below x path
  | some m => m ∈ mps ∧ Below m path ∧
      ∀ x ∈ mps, Below x path → (components x.mPath).length ≤ (components m.mPath).length

/-- The lookup gives that answer, whatever the order of the list. -/
def FindsLongest (mps : List MountPoint) (path : CStr) : Prop :=
  ∃ r, LongestMatch mps path r ∧ ∀ mps', mps'.Perm mps → vfsMpFind true mps' path = r

/-- The mount point does best among all others by its leading components, and none does better by
all its components. -/
def Outstanding (mps : List MountPoint) (path : CStr) (m : MountPoint) : Prop :=
  Seen m path ∧ Below m path ∧ ∀ x ∈ mps, x ≠ m →
    (Seen x path → (leading x.mPath).length < (leading m.mPath).length) ∧
    (Below x path → (components x.mPath).length ≤ (components m.mPath).length)

/-- The lookup is right exactly where the doubled slashes and the mounts at the root do not
matter. -/
theorem findsLongest_iff (mps : List MountPoint) (path : CStr) : FindsLongest mps path ↔
    (∀ x ∈ mps, ¬Seen x path ∧ ¬Below x path) ∨ ∃ m ∈ mps, Outstanding mps path m := by
  constructor
  · rintro ⟨r, hr, hfind⟩
    have hself := hfind mps (.refl mps)
    cases r with
    | none =>
      left
      intro x hx
      exact ⟨vfsMpFind_nested_eq_none_iff.mp hself x hx, hr x hx⟩
    | some m =>
      right
      obtain ⟨hm, hbelow, hbest⟩ := hr
      obtain ⟨-, -, -, hseen, -⟩ := vfsMpFind_nested_eq_some_iff.mp hself
      refine ⟨m, hm, hseen, hbelow, fun x hx hne => ⟨fun hx' => ?_, hbest x hx⟩⟩
      -- the list with `x` in front
      have hfront := hfind (x :: mps.erase x) (List.perm_cons_erase hx).symm
      obtain ⟨l₁, l₂, hl, -, hbefore, -⟩ := vfsMpFind_nested_eq_some_iff.mp hfront
      cases l₁ with
      | nil => exact absurd (List.cons.inj hl).1 hne
      | cons =>
        obtain ⟨rfl, -⟩ := List.cons.inj hl
        exact hbefore x List.mem_cons_self hx'
  · rintro (hnone | ⟨m, hm, hseen, hbelow, hbest⟩)
    · refine ⟨none, fun x hx => (hnone x hx).2, fun mps' hperm => ?_⟩
      exact vfsMpFind_nested_eq_none_iff.mpr fun x hx => (hnone x (hperm.mem_iff.mp hx)).1
    · refine ⟨some m, ⟨hm, hbelow, fun x hx hx' => ?_⟩, fun mps' hperm => ?_⟩
      · by_cases hne : x = m
        · rw [hne]
        · exact (hbest x hx hne).2 hx'
      · obtain ⟨l₁, l₂, hl, hfirst⟩ := List.eq_append_cons_of_mem (hperm.mem_iff.mpr hm)
        have hmem : ∀ x, x ∈ l₁ ∨ x ∈ l₂ → x ∈ mps := fun x hx => by
          refine hperm.mem_iff.mp ?_
          rw [hl, List.mem_append, List.mem_cons]
          exact hx.imp_right .inr
        refine vfsMpFind_nested_eq_some_iff.mpr ⟨l₁, l₂, hl, hseen, fun x hx hx' => ?_,
          fun x hx hx' => ?_⟩
        · have hne : x ≠ m := fun e => hfirst (e ▸ hx)
          exact (hbest x (hmem x (.inl hx)) hne).1 hx'
        · by_cases hne : x = m
          · rw [hne]
          · exact ((hbest x (hmem x (.inr hx)) hne).1 hx').le

def mountedAt (mPath : CStr) : MountPoint := { mPath := mPath }

/-- Neither a mount at the root nor a path with a doubled slash is found. -/
theorem not_findsLongest : ¬FindsLongest [mountedAt ['/']] ['/', 'a'] ∧
    ¬FindsLongest [mountedAt ['/', 'a']] ['/', '/', 'a'] := by
  have hfalse : ∀ {m : MountPoint} {path : CStr}, ¬Seen m path → Below m path →
      ¬FindsLongest [m] path := by
    rintro m path hseen hbelow ⟨r, hr, hfind⟩
    have hnone : vfsMpFind true [m] path = none :=
      vfsMpFind_nested_eq_none_iff.mpr (by simpa using hseen)
    obtain rfl : none = r := hnone.symm.trans (hfind [m] (.refl _))
    exact hr m (by simp) hbelow
  exact ⟨hfalse (by decide +kernel) (by decide +kernel),
    hfalse (by decide +kernel) (by decide +kernel)⟩

end LiteOS.Fs
