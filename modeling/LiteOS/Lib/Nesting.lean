import Mathlib.Logic.Function.Basic
import Mathlib.Tactic.Common

/-!
# Resources that save a value

A holder has a value. A resource notes the value of its holder when it is taken and gives it the
noted value back when it is given back; in between the value of a holder may change. The resource
that a holder took first has noted the holder's own value, so the holder has its own value again
once it holds nothing, provided that it gives that resource back last or the next one has noted the
same value.
-/

namespace LiteOS.Lib

open Function

variable {ρ τ ν : Type*}

/-- Who holds each resource, since when and what the resource has noted, and the values. -/
@[ext]
structure Nesting (ρ τ ν : Type*) where
  owner : ρ → Option τ
  since : ρ → ℕ
  saved : ρ → ν
  clock : ℕ
  value : τ → ν

namespace Nesting

/-- Among the holders in `live`, those that hold nothing have their own value, and the resource that
a holder took first has noted it. -/
structure Restores (base : τ → ν) (live : τ → Prop) (n : Nesting ρ τ ν) : Prop where
  free : ∀ t, live t → (∀ r, n.owner r ≠ some t) → n.value t = base t
  first : ∀ r t, n.owner r = some t → (∀ r', n.owner r' = some t → n.since r ≤ n.since r') →
    n.saved r = base t
  past : ∀ r t, n.owner r = some t → n.since r < n.clock
  live : ∀ r t, n.owner r = some t → live t

variable {n n' : Nesting ρ τ ν} {base base' : τ → ν} {live live' : τ → Prop} {r : ρ} {t : τ}

/-- The values of holders change, and holders of nothing come and go. -/
theorem Restores.change (h : n.Restores base live)
    (howner : n'.owner = n.owner) (hsince : n'.since = n.since)
    (hsaved : ∀ r t, n.owner r = some t → n'.saved r = n.saved r) (hclock : n'.clock = n.clock)
    (hlive : ∀ r t, n.owner r = some t → live' t ∧ base' t = base t)
    (hfree : ∀ t, live' t → (∀ r, n.owner r ≠ some t) →
      (live t ∧ n'.value t = n.value t ∧ base' t = base t) ∨ n'.value t = base' t) :
    n'.Restores base' live' := by
  constructor <;> simp only [howner, hsince, hclock]
  · intro t ht hf
    rcases hfree t ht hf with ⟨hl, hv, hb⟩ | hv
    · rw [hv, hb]
      exact h.free t hl hf
    · exact hv
  · intro r t ht hmin
    rw [hsaved r t ht, (hlive r t ht).2]
    exact h.first r t ht hmin
  · exact h.past
  · exact fun r t ht => (hlive r t ht).1

variable [DecidableEq ρ]

/-- Holder `t` takes resource `r`. -/
@[simps]
def take (n : Nesting ρ τ ν) (r : ρ) (t : τ) : Nesting ρ τ ν where
  owner := update n.owner r (some t)
  since := update n.since r n.clock
  saved := update n.saved r (n.value t)
  clock := n.clock + 1
  value := n.value

/-- Holder `t` gives resource `r` back. -/
@[simps]
def giveBack [DecidableEq τ] (n : Nesting ρ τ ν) (r : ρ) (t : τ) : Nesting ρ τ ν where
  owner := update n.owner r none
  since := n.since
  saved := n.saved
  clock := n.clock
  value := update n.value t (n.saved r)

theorem Restores.take (h : n.Restores base live) (hr : n.owner r = none) (hl : live t) :
    (n.take r t).Restores base live where
  free u hu hfree := by
    refine h.free u hu fun r' hr' => hfree r' ?_
    have hrr : r' ≠ r := by
      rintro rfl
      simp [hr] at hr'
    simpa [hrr] using hr'
  first r' u hu hmin := by
    have hkeep : ∀ r'' u, n.owner r'' = some u → r'' ≠ r := by
      rintro r'' u hu' rfl
      simp [hr] at hu'
    by_cases hrr : r' = r
    · -- a holder of anything else took it before, so that the holder of `r` was free
      subst hrr
      obtain rfl : t = u := by simpa using hu
      have hfree : ∀ r'', n.owner r'' ≠ some t := fun r'' hr'' => by
        have hle := hmin r'' (by simpa [hkeep r'' t hr''] using hr'')
        have hlt := h.past r'' t hr''
        simp only [take_since, update_self, update_of_ne (hkeep r'' t hr'')] at hle
        omega
      simpa using h.free t hl hfree
    · have hu' : n.owner r' = some u := by simpa [hrr] using hu
      have hmin' : ∀ r'', n.owner r'' = some u → n.since r' ≤ n.since r'' := fun r'' hr'' => by
        simpa [hrr, hkeep r'' u hr''] using hmin r'' (by simpa [hkeep r'' u hr''] using hr'')
      simpa [hrr] using h.first r' u hu' hmin'
  past r' u hu := by
    by_cases hrr : r' = r
    · subst hrr
      simp
    · have := h.past r' u (by simpa [hrr] using hu)
      simp only [take_since, update_of_ne hrr, take_clock]
      omega
  live r' u hu := by
    by_cases hrr : r' = r
    · subst hrr
      obtain rfl : t = u := by simpa using hu
      exact hl
    · exact h.live r' u (by simpa [hrr] using hu)

/-- If the resource that is given back is the first of several, the second has noted the same
value. -/
theorem Restores.giveBack [DecidableEq τ] (h : n.Restores base live) (hr : n.owner r = some t)
    (hlast : ∀ r', r' ≠ r → n.owner r' = some t → n.saved r' = n.saved r ∨
      ∃ r'', r'' ≠ r ∧ n.owner r'' = some t ∧ n.since r'' < max (n.since r') (n.since r)) :
    (n.giveBack r t).Restores base live where
  free u hu hfree := by
    have hfree' : ∀ r', r' ≠ r → n.owner r' ≠ some u := fun r' hrr hr' =>
      hfree r' (by simpa [hrr] using hr')
    by_cases hut : u = t
    · -- `r` was the only one, hence the first
      subst hut
      have hmin : ∀ r', n.owner r' = some u → n.since r ≤ n.since r' := fun r' hr' => by
        obtain rfl : r' = r := by
          by_contra hrr
          exact hfree' r' hrr hr'
        exact Nat.le_refl _
      simpa using h.first r u hr hmin
    · have hfree'' : ∀ r', n.owner r' ≠ some u := fun r' hr' => by
        by_cases hrr : r' = r
        · subst hrr
          exact hut (Option.some.inj (hr'.symm.trans hr))
        · exact hfree' r' hrr hr'
      simpa [hut] using h.free u hu hfree''
  first r' u hu hmin := by
    have hrr : r' ≠ r := by
      rintro rfl
      simp at hu
    have hu' : n.owner r' = some u := by simpa [hrr] using hu
    have hmin' : ∀ r'', r'' ≠ r → n.owner r'' = some u → n.since r' ≤ n.since r'' :=
      fun r'' hrr' hr'' => hmin r'' (by simpa [hrr'] using hr'')
    by_cases hfirst : n.owner r = some u → n.since r' ≤ n.since r
    · refine h.first r' u hu' fun r'' hr'' => ?_
      by_cases hrr' : r'' = r
      · exact hrr' ▸ hfirst (hrr' ▸ hr'')
      · exact hmin' r'' hrr' hr''
    · -- `r` was the first
      obtain ⟨hru, hlt⟩ := Classical.not_imp.mp hfirst
      obtain rfl : u = t := Option.some.inj (hru.symm.trans hr)
      rcases hlast r' hrr hu' with hsaved | ⟨q, hqr, hq, hlt'⟩
      · refine hsaved.trans (h.first r u hru fun r'' hr'' => ?_)
        by_cases hrr' : r'' = r
        · exact Nat.le_of_eq (by rw [hrr'])
        · exact Nat.le_trans (Nat.le_of_not_le hlt) (hmin' r'' hrr' hr'')
      · have hle := hmin' q hqr hq
        omega
  past r' u hu := by
    have hrr : r' ≠ r := by
      rintro rfl
      simp at hu
    exact h.past r' u (by simpa [hrr] using hu)
  live r' u hu := by
    have hrr : r' ≠ r := by
      rintro rfl
      simp at hu
    exact h.live r' u (by simpa [hrr] using hu)

end Nesting

end LiteOS.Lib
