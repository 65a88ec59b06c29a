import Mathlib.Data.List.Basic
import Mathlib.Algebra.Ring.Nat

namespace Reloadium.Lib

/-!
# Library — pieces with gaps between them

`Spaced isGap pieces out` says that `out` is the given pieces, unchanged and in their
order, with nothing but gap elements before, between and after them.

* `spaced_append` — two such lists in a row;
* `weight_spaced` — such a list has as many other elements as its pieces have together,
  which is how one shows that something is missing.
-/

variable {α : Type*} {isGap : α → Bool}

/-- `out` is made of the pieces in their order and of gap elements around them. -/
def Spaced (isGap : α → Bool) : List (List α) → List α → Prop
  | [], out => ∀ a ∈ out, isGap a
  | piece :: rest, out =>
    ∃ gap tail, (∀ a ∈ gap, isGap a) ∧ out = gap ++ piece ++ tail ∧ Spaced isGap rest tail

/-- How many elements are no gap elements. -/
def weight (isGap : α → Bool) (s : List α) : Nat := s.countP fun a => !isGap a

@[simp] theorem weight_nil : weight isGap [] = 0 := rfl

@[simp] theorem weight_append (s t : List α) :
    weight isGap (s ++ t) = weight isGap s + weight isGap t := List.countP_append

theorem weight_gap {s : List α} (h : ∀ a ∈ s, isGap a) : weight isGap s = 0 := by
  rw [weight, List.countP_eq_zero]
  intro a ha
  simp [h a ha]

theorem spaced_singleton (piece : List α) : Spaced isGap [piece] piece :=
  ⟨[], [], by simp, by simp, by simp [Spaced]⟩

/-- A gap in front changes nothing. -/
theorem spaced_gap_append {gap out : List α} {pieces : List (List α)}
    (hgap : ∀ a ∈ gap, isGap a) (h : Spaced isGap pieces out) :
    Spaced isGap pieces (gap ++ out) := by
  have happend : ∀ more : List α, (∀ a ∈ more, isGap a) → ∀ a ∈ gap ++ more, isGap a := by
    intro more hmore a ha
    rcases List.mem_append.mp ha with ha | ha
    · exact hgap a ha
    · exact hmore a ha
  cases pieces with
  | nil => exact happend out h
  | cons piece rest =>
    obtain ⟨more, tail, hmore, rfl, htail⟩ := h
    exact ⟨gap ++ more, tail, happend more hmore, by simp, htail⟩

theorem spaced_append {pieces more : List (List α)} {out tail : List α}
    (h : Spaced isGap pieces out) (htail : Spaced isGap more tail) :
    Spaced isGap (pieces ++ more) (out ++ tail) := by
  induction pieces generalizing out with
  | nil => exact spaced_gap_append h htail
  | cons piece rest ih =>
    obtain ⟨gap, out', hgap, rfl, hout'⟩ := h
    exact ⟨gap, out' ++ tail, hgap, by simp, ih hout'⟩

/-- **Nothing is missing.** -/
theorem weight_spaced {pieces : List (List α)} {out : List α} (h : Spaced isGap pieces out) :
    weight isGap out = (pieces.map (weight isGap)).sum := by
  induction pieces generalizing out with
  | nil => exact weight_gap h
  | cons piece rest ih =>
    obtain ⟨gap, tail, hgap, rfl, htail⟩ := h
    rw [weight_append, weight_append, weight_gap hgap, ih htail, List.map_cons, List.sum_cons]
    omega

end Reloadium.Lib
