import Mathlib.Data.List.Infix

namespace Reloadium.Lib

/-!
# Library — the longest suffix with a property

A loop that walks a list from its end and takes elements as long as a property of what it has
taken holds computes the longest suffix with that property, provided that the property passes
from a list to its rest.

* `IsLongestSuffix` — the specification;
* `SuffixClosed` — what the property must satisfy;
* `isLongestSuffix_of_stop` — the greedy rule.
-/

variable {α : Type*} {p : List α → Prop} {xs r s : List α}

/-- `r` is the longest suffix of `xs` with the property `p`. -/
structure IsLongestSuffix (p : List α → Prop) (xs r : List α) : Prop where
  suffix : r <:+ xs
  holds : p r
  longest : ∀ s, s <:+ xs → p s → s <:+ r

/-- The property passes from a list to its rest. -/
def SuffixClosed (p : List α → Prop) : Prop := ∀ a s, p (a :: s) → p s

theorem SuffixClosed.of_suffix (hp : SuffixClosed p) (h : p r) (hs : s <:+ r) : p s := by
  obtain ⟨t, rfl⟩ := hs
  induction t with
  | nil => exact h
  | cons a t ih => exact ih (hp a _ h)

/-- A suffix of `xs` beyond `s` starts with the element of `xs` before `s`. -/
theorem eq_or_cons_suffix {a : α} (ha : a :: s <:+ xs) (hr : r <:+ xs) (hs : s <:+ r) :
    r = s ∨ a :: s <:+ r := by
  rcases List.suffix_or_suffix_of_suffix ha hr with hle | hge
  · exact Or.inr hle
  · rcases List.suffix_cons_iff.mp hge with rfl | hge
    · exact Or.inr List.suffix_rfl
    · exact Or.inl (hge.eq_of_length_le hs.length_le)

/-- There is at most one element before `s`. -/
theorem cons_suffix_inj {a b : α} (ha : a :: s <:+ xs) (hb : b :: s <:+ xs) : a = b := by
  rcases eq_or_cons_suffix ha hb (List.suffix_cons b s) with h | h
  · exact absurd (congrArg List.length h) (by simp)
  · exact (List.cons.inj (h.eq_of_length rfl)).1

/-- **Greedy rule.** A suffix with the property, and not with it when the element `a` before it
    is taken too, is the longest. -/
theorem isLongestSuffix_of_stop (hp : SuffixClosed p) (h : p s) {a : α} (ha : a :: s <:+ xs)
    (hstop : ¬ p (a :: s)) : IsLongestSuffix p xs s := by
  have hs : s <:+ xs := (List.suffix_cons a s).trans ha
  refine ⟨hs, h, fun r hr hpr => ?_⟩
  rcases List.suffix_or_suffix_of_suffix hr hs with hle | hge
  · exact hle
  · rcases eq_or_cons_suffix ha hr hge with rfl | hmore
    · exact List.suffix_rfl
    · exact absurd (hp.of_suffix hpr hmore) hstop

/-- A list with the property is its own longest suffix with it. -/
theorem isLongestSuffix_self (h : p xs) : IsLongestSuffix p xs xs :=
  ⟨List.suffix_rfl, h, fun _ hs _ => hs⟩

end Reloadium.Lib
