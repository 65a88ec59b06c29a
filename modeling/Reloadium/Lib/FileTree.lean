import Mathlib.Data.List.Basic
import Reloadium.Lib.PMap

namespace Reloadium.Lib

/-!
# Library — file trees

A file tree maps paths (lists of names) to directories and files.  Its operations act on
the region at and below a path, or, for `mkdirs`, on a path and its ancestors; each takes
the `part` of the region it reaches, so that an operation that fails half-way is the same
operation on a smaller part.

Every operation has a lookup lemma, and the frame rule that it leaves every path outside
its region as it was.
-/

variable {κ ν : Type*} [DecidableEq κ] [DecidableEq ν]

/-- What is at a path: a directory, or a file with its content. -/
inductive Node (ν : Type*) where
  | dir
  | file (content : ν)
  deriving DecidableEq

/-- A file tree, with file contents in `ν`. -/
abbrev Tree (κ ν : Type*) := PMap (List κ) (Node ν)

/-- Neither path is at or below the other. -/
def Apart (p q : List κ) : Prop := ¬ p <+: q ∧ ¬ q <+: p

instance (p q : List κ) : Decidable (Apart p q) := inferInstanceAs (Decidable (_ ∧ _))

omit [DecidableEq κ] in
/-- Nothing is below both of two paths that are apart. -/
theorem Apart.not_prefix {p q x : List κ} (h : Apart p q) (hq : q <+: x) : ¬ p <+: x := by
  intro hp
  rcases List.prefix_or_prefix_of_prefix hp hq with hpq | hqp
  · exact h.1 hpq
  · exact h.2 hqp

omit [DecidableEq κ] in
/-- What is below a path is not at it or above it. -/
theorem not_append_prefix {p r : List κ} (hr : r ≠ []) : ¬ p ++ r <+: p := by
  intro h
  have hlen := h.length_le
  rw [List.length_append] at hlen
  exact hr (List.eq_nil_of_length_eq_zero (by omega))

namespace Tree

/-- Every ancestor of a path of the tree is in the tree. -/
def Closed (t : Tree κ ν) : Prop := ∀ p q, p <+: q → t q ≠ none → t p ≠ none

/-- The tree with one node, at the root. -/
def single (n : Node ν) : Tree κ ν := fun r => if r = [] then some n else none

/-- Delete what is at and below `p`. -/
def delete (t : Tree κ ν) (p : List κ) (part : List κ → Bool) : Tree κ ν := fun q =>
  if p <+: q ∧ part q then none else t q

/-- Create the directories that are missing among `p` and its ancestors. -/
def mkdirs (t : Tree κ ν) (p : List κ) (part : List κ → Bool) : Tree κ ν := fun q =>
  if q <+: p ∧ t q = none ∧ part q then some .dir else t q

/-- Copy the tree `src` to `p`. -/
def copy (t : Tree κ ν) (p : List κ) (src : Tree κ ν) (part : List κ → Bool) : Tree κ ν :=
  fun q => if p <+: q ∧ part q then (src (q.drop p.length)).or (t q) else t q

/-- Move what is at and below `p` to `p'`. -/
def move (t : Tree κ ν) (p p' : List κ) : Tree κ ν := fun q =>
  if p' <+: q then t (p ++ q.drop p'.length) else if p <+: q then none else t q

/-! ### Frame rules -/

variable {t : Tree κ ν} {p q : List κ} {part : List κ → Bool}

omit [DecidableEq ν]

theorem delete_frame (h : ¬ p <+: q) : t.delete p part q = t q :=
  if_neg fun hp => h hp.1

theorem mkdirs_frame [DecidableEq ν] (h : ¬ q <+: p) : t.mkdirs p part q = t q :=
  if_neg fun hp => h hp.1

theorem copy_frame {src : Tree κ ν} (h : ¬ p <+: q) : t.copy p src part q = t q :=
  if_neg fun hp => h hp.1

theorem move_frame {p' : List κ} (h : ¬ p <+: q) (h' : ¬ p' <+: q) : t.move p p' q = t q := by
  rw [move, if_neg h', if_neg h]

/-- A single node is copied to its path alone. -/
theorem copy_single_frame {n : Node ν} (h : q ≠ p) : t.copy p (single n) part q = t q := by
  unfold copy
  split
  case isTrue hp =>
    obtain ⟨⟨r, rfl⟩, -⟩ := hp
    have hr : r ≠ [] := by
      rintro rfl
      exact h (List.append_nil p)
    rw [List.drop_left, single, if_neg hr, Option.none_or]
  case isFalse => rfl

/-! ### Within the region -/

theorem copy_single_self (n : Node ν) (h : part p = true) :
    t.copy p (single n) part p = some n := by
  rw [copy, if_pos ⟨List.prefix_rfl, h⟩, List.drop_length, single, if_pos rfl, Option.some_or]

theorem copy_apply {src : Tree κ ν} {r : List κ} (h : part (p ++ r) = true) :
    t.copy p src part (p ++ r) = (src r).or (t (p ++ r)) := by
  rw [copy, if_pos ⟨List.prefix_append p r, h⟩, List.drop_left]

theorem delete_apply {r : List κ} (h : part (p ++ r) = true) :
    t.delete p part (p ++ r) = none := by
  rw [delete, if_pos ⟨List.prefix_append p r, h⟩]

/-- A deletion adds nothing. -/
theorem delete_eq_none (h : t q = none) : t.delete p part q = none := by
  rw [delete, h, ite_self]

end Tree

end Reloadium.Lib
