import Mathlib.Data.List.Lex
import Mathlib.Order.Lattice

namespace Reloadium.Lib

/-!
# Library — comparing tuples

* `tupleCompare` — the first items that differ are compared, and the lengths if none do;
* `tupleCompare_lt_iff` — if the items are keys that stand for the elements of a linear order, this
  is the lexicographic order;
* `tupleCompare_congr`, `tupleCompare_not` — the comparisons that go with it.
-/

def tupleCompare {α : Type} [DecidableEq α] (item : α → α → Bool) (length : Nat → Nat → Bool) :
    List α → List α → Bool
  | a :: s, b :: t => if a = b then tupleCompare item length s t else item a b
  | s, t => length s.length t.length

variable {ι α β : Type} [LinearOrder β] {item : α → α → Bool} {key : ι → α}
  {order : ι → β}

/-- The keys stand for the elements; two of them are only compared if they differ. -/
structure Represents (item : α → α → Bool) (key : ι → α) (order : ι → β) : Prop where
  eq_iff : ∀ i j, key i = key j ↔ order i = order j
  lt_iff : ∀ i j, key i ≠ key j → (item (key i) (key j) = true ↔ order i < order j)

theorem Represents.map_eq_map_iff (h : Represents item key order) (s t : List ι) :
    s.map key = t.map key ↔ s.map order = t.map order := by
  induction s generalizing t with
  | nil =>
    rw [List.map_nil, List.map_nil, List.nil_eq, List.nil_eq, List.map_eq_nil_iff,
      List.map_eq_nil_iff]
  | cons i s ih =>
    cases t with
    | nil => exact iff_of_false (List.cons_ne_nil _ _) (List.cons_ne_nil _ _)
    | cons j t =>
      rw [List.map_cons, List.map_cons, List.map_cons, List.map_cons, List.cons_eq_cons,
        List.cons_eq_cons, h.eq_iff, ih]

variable [DecidableEq α]

theorem tupleCompare_lt_iff (h : Represents item key order) (s t : List ι) :
    tupleCompare item (fun m n => decide (m < n)) (s.map key) (t.map key) = true ↔
      s.map order < t.map order := by
  induction s generalizing t with
  | nil =>
    cases t with
    | nil => exact iff_of_false (by simp [tupleCompare]) (List.not_lt_nil _)
    | cons j t => exact iff_of_true (by simp [tupleCompare]) (List.nil_lt_cons _ _)
  | cons i s ih =>
    cases t with
    | nil => exact iff_of_false (by simp [tupleCompare]) (List.not_lt_nil _)
    | cons j t =>
      rw [List.map_cons, List.map_cons, List.map_cons, List.map_cons, tupleCompare,
        List.cons_lt_cons_iff]
      split
      case isTrue hij =>
        rw [ih, (h.eq_iff i j).mp hij]
        exact ⟨fun hlt => Or.inr ⟨rfl, hlt⟩, fun hlt => (hlt.resolve_left (lt_irrefl _)).2⟩
      case isFalse hij =>
        rw [h.lt_iff i j hij]
        exact (or_iff_left fun hlt => hij ((h.eq_iff i j).mpr hlt.1)).symm

/-- On tuples that differ, only the comparisons of what differs matter. -/
theorem tupleCompare_congr {item' : α → α → Bool} {length length' : Nat → Nat → Bool}
    (hitem : ∀ a b, a ≠ b → item a b = item' a b)
    (hlength : ∀ m n, m ≠ n → length m n = length' m n) {s t : List α} (hne : s ≠ t) :
    tupleCompare item length s t = tupleCompare item' length' s t := by
  induction s, t using tupleCompare.induct with
  | case1 a s t ih =>
    rw [tupleCompare, tupleCompare, if_pos rfl, if_pos rfl]
    exact ih fun h => hne (h ▸ rfl)
  | case2 a s b t hab =>
    rw [tupleCompare, tupleCompare, if_neg hab, if_neg hab]
    exact hitem a b hab
  | case3 s t hcons =>
    rw [tupleCompare.eq_2 _ _ _ _ hcons, tupleCompare.eq_2 _ _ _ _ hcons]
    apply hlength
    cases s with
    | nil =>
      intro h
      exact hne (List.eq_nil_of_length_eq_zero h.symm).symm
    | cons a s =>
      cases t with
      | nil => exact Nat.succ_ne_zero s.length
      | cons b t => exact absurd rfl (hcons a s b t rfl)

theorem tupleCompare_not (item : α → α → Bool) (length : Nat → Nat → Bool) (s t : List α) :
    tupleCompare (fun a b => !item a b) (fun m n => !length m n) s t =
      !tupleCompare item length s t := by
  induction s, t using tupleCompare.induct with
  | case1 a s t ih =>
    rw [tupleCompare, tupleCompare, if_pos rfl, if_pos rfl]
    exact ih
  | case2 a s b t hab => rw [tupleCompare, tupleCompare, if_neg hab, if_neg hab]
  | case3 s t hcons => rw [tupleCompare.eq_2 _ _ _ _ hcons, tupleCompare.eq_2 _ _ _ _ hcons]

end Reloadium.Lib
