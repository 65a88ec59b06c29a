import Mathlib.Algebra.BigOperators.Group.List.Basic
import Mathlib.Algebra.Group.WithOne.Defs
import Mathlib.Data.List.Count

namespace Reloadium.Lib

/-!
# Library — blocks that spread their sums

Values at indices, and blocks of indices that are processed one after the other: a block adds
up the values that its indices have by then and gives the sum to each of them.  A later block
adds up what an earlier one has written, so a value may count more than once.

`counted blocks i` lists the indices whose values make up that of `i` in the end, each as often
as it counts, and `foldr_spread` is the equation.  A block counts in full for each of its
indices (`sublist_counted`); `surplus` is what counts on top of it, which is nothing if no two
blocks share an index (`surplus_of_pairwise_disjoint`).
-/

namespace Spread

variable {ι M : Type*} [DecidableEq ι] {blocks : List (List ι)} {block : List ι} {i : ι}

/-- Give each index of a block the sum of the block. -/
def spread [AddCommMonoid M] (block : List ι) (v : ι → M) (i : ι) : M :=
  if i ∈ block then (block.map v).sum else v i

/-- The indices that count for `i` once the blocks are processed, the last one first. -/
def counted : List (List ι) → ι → List ι
  | [], i => [i]
  | block :: blocks, i =>
    if i ∈ block then block.flatMap (counted blocks) else counted blocks i

/-- What counts for `i` on top of a block. -/
def surplus (blocks : List (List ι)) (block : List ι) (i : ι) : List ι :=
  (counted blocks i).diff block

/-! ### The values after all blocks -/

omit [DecidableEq ι] in
theorem sum_map_flatMap [AddCommMonoid M] (f : ι → List ι) (v : ι → M) (is : List ι) :
    ((is.flatMap f).map v).sum = (is.map fun i => ((f i).map v).sum).sum := by
  induction is with
  | nil => rfl
  | cons i is ih =>
    rw [List.flatMap_cons, List.map_append, List.sum_append, ih, List.map_cons, List.sum_cons]

/-- **Spreading.** The value of an index is the sum of what counts for it. -/
theorem foldr_spread [AddCommMonoid M] (blocks : List (List ι)) (v : ι → M) (i : ι) :
    blocks.foldr spread v i = ((counted blocks i).map v).sum := by
  induction blocks generalizing i with
  | nil =>
    rw [List.foldr_nil, counted, List.map_singleton, List.sum_singleton]
  | cons block blocks ih =>
    rw [List.foldr_cons, spread, counted]
    by_cases hi : i ∈ block
    · rw [if_pos hi, if_pos hi, sum_map_flatMap]
      congr 1
      exact List.map_congr_left fun j _ => ih j
    · rw [if_neg hi, if_neg hi, ih]

/-! ### What counts -/

omit [DecidableEq ι] in
theorem sublist_flatMap {f : ι → List ι} (h : ∀ j ∈ block, j ∈ f j) :
    block.Sublist (block.flatMap f) := by
  induction block with
  | nil => exact List.nil_sublist _
  | cons j js ih =>
    rw [List.flatMap_cons]
    have hj : [j].Sublist (f j) := List.singleton_sublist.mpr (h j List.mem_cons_self)
    exact hj.append (ih fun k hk => h k (List.mem_cons_of_mem j hk))

/-- Every index counts for itself. -/
theorem self_mem_counted (blocks : List (List ι)) (i : ι) : i ∈ counted blocks i := by
  induction blocks with
  | nil => exact List.mem_singleton_self i
  | cons block blocks ih =>
    rw [counted]
    split
    · next hi => exact List.mem_flatMap.mpr ⟨i, hi, ih⟩
    · exact ih

/-- A block counts in full for each of its indices. -/
theorem sublist_counted (hblock : block ∈ blocks) (hi : i ∈ block) :
    block.Sublist (counted blocks i) := by
  induction blocks with
  | nil => cases hblock
  | cons b blocks ih =>
    rw [counted]
    rcases List.mem_cons.mp hblock with rfl | hblock
    · rw [if_pos hi]
      exact sublist_flatMap fun j _ => self_mem_counted blocks j
    · have hrest := ih hblock
      split
      · next hib =>
        -- what has counted for `i` so far is part of the sum of the block
        have hpart : (counted blocks i).Sublist (b.flatMap (counted blocks)) := by
          rw [List.flatMap]
          exact List.sublist_flatten_of_mem (List.mem_map_of_mem hib)
        exact hrest.trans hpart
      · exact hrest

/-- What counts for an index of a block is the block and the surplus. -/
theorem append_surplus (hblock : block ∈ blocks) (hi : i ∈ block) :
    (block ++ surplus blocks block i).Perm (counted blocks i) :=
  List.subperm_append_diff_self_of_count_le fun j _ =>
    (sublist_counted hblock hi).count_le j

theorem sum_counted [AddCommMonoid M] (hblock : block ∈ blocks) (hi : i ∈ block) (v : ι → M) :
    ((counted blocks i).map v).sum =
      (block.map v).sum + ((surplus blocks block i).map v).sum := by
  rw [← ((append_surplus hblock hi).map v).sum_eq, List.map_append, List.sum_append]

/-- Outside of all blocks nothing else counts. -/
theorem counted_of_notMem (h : ∀ block ∈ blocks, i ∉ block) : counted blocks i = [i] := by
  induction blocks with
  | nil => rfl
  | cons block blocks ih =>
    rw [counted, if_neg (h block List.mem_cons_self)]
    exact ih fun b hb => h b (List.mem_cons_of_mem block hb)

/-- Where no two blocks share an index, only its own block counts for an index. -/
theorem counted_of_pairwise_disjoint (h : blocks.Pairwise List.Disjoint)
    (hblock : block ∈ blocks) (hi : i ∈ block) : counted blocks i = block := by
  induction blocks with
  | nil => cases hblock
  | cons b blocks ih =>
    rw [List.pairwise_cons] at h
    rw [counted]
    rcases List.mem_cons.mp hblock with rfl | hmem
    · rw [if_pos hi]
      have halone : ∀ j ∈ block, counted blocks j = [j] := fun j hj =>
        counted_of_notMem fun b hb hjb => h.1 b hb hj hjb
      rw [List.flatMap_congr halone]
      exact List.flatMap_singleton' block
    · rw [if_neg fun hib => h.1 block hmem hib hi]
      exact ih h.2 hmem

/-- Blocks that share no index have no surplus. -/
theorem surplus_of_pairwise_disjoint (h : blocks.Pairwise List.Disjoint)
    (hblock : block ∈ blocks) (hi : i ∈ block) : surplus blocks block i = [] := by
  have hlength := (append_surplus hblock hi).length_eq
  rw [counted_of_pairwise_disjoint h hblock hi, List.length_append] at hlength
  exact List.length_eq_zero_iff.mp (by omega)

end Spread

end Reloadium.Lib
