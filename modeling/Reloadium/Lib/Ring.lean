import Mathlib.Data.List.Nodup
import Mathlib.Logic.Function.Iterate

namespace Reloadium.Lib

/-!
# Library — walking around a list

The index before an index of a list of `n` elements is the last one for the first.  A walk of
`n` steps around the list comes by every index exactly once and ends where it started.
-/

namespace Ring

variable {n i j k : Nat}

/-- The index before `i`. -/
def before (n i : Nat) : Nat := if 0 < i then i - 1 else n - 1

theorem before_lt (hi : i < n) : before n i < n := by
  unfold before
  split <;> omega

/-- Where a walk of at most one round is after `k` steps. -/
def walk (n i k : Nat) : Nat := if k ≤ i then i - k else i + n - k

/-- **Step lemma.** -/
theorem before_walk (hi : i < n) (hk : k < n) : before n (walk n i k) = walk n i (k + 1) := by
  unfold before walk
  split_ifs <;> omega

/-- A whole round ends at its start. -/
theorem walk_round (hi : i < n) : walk n i n = i := by
  unfold walk
  split <;> omega

/-- **One round** comes by every index exactly once. -/
theorem existsUnique_walk (hi : i < n) (hj : j < n) :
    ∃! k, (1 ≤ k ∧ k ≤ n) ∧ walk n i k = j := by
  refine ⟨if j < i then i - j else i + n - j, ⟨?_, ?_⟩, ?_⟩
  · split <;> omega
  · unfold walk
    split_ifs <;> omega
  · rintro k ⟨⟨hpos, hle⟩, hk⟩
    unfold walk at hk
    split_ifs at hk ⊢ <;> omega

end Ring

end Reloadium.Lib
