import Mathlib.Data.List.Basic
import Mathlib.Algebra.BigOperators.Group.List.Basic
import Mathlib.Algebra.Order.Ring.Abs
import Mathlib.Tactic.Linarith
import Mathlib.Tactic.Ring

namespace Reloadium.Lib.Halving

/-!
# Library — averages kept by halving

The recurrence `m ← (x + m) / 2` keeps one number and no count, so it weighs the samples
exponentially: over positive samples it computes the rounded down quotient of the weighted
sum `m + x₁ + 2·x₂ + 4·x₃ + …` by a power of two (`foldl_step_cons`).  A division that rounds
toward zero rounds up as long as the value is negative: `settle` takes the samples of that
stretch together, and `foldl_step` is the closed form from any start.

`within_one_iff` says when a rounded down quotient `a / d` is within one of another
quotient `s / n`: exactly when `a` lies in a window of multiples of `d`.
-/

/-- One step of the recurrence; the division rounds toward zero. -/
def step (m x : Int) : Int := (x + m).tdiv 2

/-- `x₁ + 2·x₂ + 4·x₃ + …`. -/
def weighted : List Int → Int
  | [] => 0
  | x :: xs => x + 2 * weighted xs

/-- The quotient rounded up. -/
def ceilDiv (a b : Int) : Int := -(-a / b)

/-- Fold the leading samples that leave `p / w` negative into one value, and give the
    samples that are left. -/
def settle (p w : Int) : List Int → Int × List Int
  | [] => (ceilDiv p w, [])
  | x :: xs =>
    if p + w * x < 0 then settle (p + w * x) (2 * w) xs else (ceilDiv p w, x :: xs)

/-! ### The closed form -/

theorem step_of_nonneg {m x : Int} (h : 0 ≤ x + m) : step m x = (x + m) / 2 :=
  Int.tdiv_eq_ediv_of_nonneg h

/-- Halving goes toward zero. -/
theorem step_le (m x : Int) : step m x ≤ max 0 (x + m) := by
  by_cases h : 0 ≤ x + m
  · rw [step_of_nonneg h]
    omega
  · have hneg : x + m = -(-(x + m)) := by omega
    rw [step, hneg, Int.neg_tdiv, Int.tdiv_eq_ediv_of_nonneg (by omega)]
    omega

/-- From a value that the next sample makes nonnegative the recurrence rounds down. -/
theorem foldl_step_cons {m x : Int} {xs : List Int} (hxs : ∀ y ∈ xs, 0 ≤ y)
    (h : 0 ≤ x + m) :
    (x :: xs).foldl step m = (m + weighted (x :: xs)) / 2 ^ (x :: xs).length := by
  induction xs generalizing m x with
  | nil => simp [step_of_nonneg h, weighted, Int.add_comm]
  | cons y ys ih =>
    have hy : 0 ≤ y := hxs y List.mem_cons_self
    rw [List.foldl_cons, step_of_nonneg h]
    rw [ih (fun z hz => hxs z (List.mem_cons_of_mem y hz)) (by omega)]
    -- the two divisions in a row are one
    have hhalf : (x + m) / 2 + weighted (y :: ys) =
        (m + weighted (x :: y :: ys)) / 2 := by
      simp only [weighted]
      omega
    rw [hhalf, Int.ediv_ediv_of_nonneg (by omega), List.length_cons (a := x), pow_succ,
      Int.mul_comm 2]

theorem ceilDiv_add_mul (p x : Int) {w : Int} (hw : 0 < w) :
    ceilDiv (p + w * x) w = ceilDiv p w + x := by
  have hneg : -(p + w * x) = -p + w * -x := by ring
  rw [ceilDiv, hneg, Int.add_mul_ediv_left _ _ (by omega), ceilDiv]
  omega

/-- A sample that leaves the value negative: the step rounds up. -/
theorem step_ceilDiv {p w x : Int} (hw : 0 < w) (h : p + w * x < 0) :
    step (ceilDiv p w) x = ceilDiv (p + w * x) (2 * w) := by
  rw [step, Int.add_comm x, ← ceilDiv_add_mul p x hw, ceilDiv, ceilDiv]
  have hnonneg : 0 ≤ -(p + w * x) / w := Int.ediv_nonneg (by omega) (by omega)
  rw [Int.neg_tdiv, Int.tdiv_eq_ediv_of_nonneg hnonneg, Int.ediv_ediv_of_nonneg (by omega),
    Int.mul_comm w 2]

/-- A quotient that the next sample does not leave negative, once it is rounded up. -/
theorem nonneg_add_ceilDiv {p w x : Int} (hw : 0 < w) (h : 0 ≤ p + w * x) :
    0 ≤ x + ceilDiv p w := by
  rw [Int.add_comm, ← ceilDiv_add_mul p x hw, ceilDiv]
  have hle : -(p + w * x) / w ≤ 0 := by
    refine Int.lt_add_one_iff.mp (Int.ediv_lt_of_lt_mul hw ?_)
    omega
  omega

/-- **Closed form.** Over nonnegative samples the recurrence is the rounded down quotient
    of the weighted sum, once the samples that leave the value negative are settled. -/
theorem foldl_step {p w : Int} {xs : List Int} (hxs : ∀ y ∈ xs, 0 ≤ y) (hw : 0 < w)
    (h : p < 0 ∨ w = 1) :
    xs.foldl step (ceilDiv p w) =
      ((settle p w xs).1 + weighted (settle p w xs).2) / 2 ^ (settle p w xs).2.length := by
  induction xs generalizing p w with
  | nil => simp [settle, weighted]
  | cons x xs ih =>
    have hrest : ∀ y ∈ xs, 0 ≤ y := fun y hy => hxs y (List.mem_cons_of_mem x hy)
    rw [settle]
    by_cases hneg : p + w * x < 0
    · rw [if_pos hneg, List.foldl_cons, step_ceilDiv hw hneg]
      exact ih hrest (by omega) (Or.inl hneg)
    · rw [if_neg hneg]
      exact foldl_step_cons hrest (nonneg_add_ceilDiv hw (by omega))

/-- A nonnegative start needs no settling. -/
theorem settle_of_nonneg {p : Int} {xs : List Int} (hp : 0 ≤ p) (hxs : ∀ y ∈ xs, 0 ≤ y) :
    settle p 1 xs = (p, xs) := by
  cases xs with
  | nil => simp [settle, ceilDiv]
  | cons x xs =>
    have hx : 0 ≤ x := hxs x List.mem_cons_self
    rw [settle, if_neg (by omega)]
    simp [ceilDiv]

/-! ### Two quotients within one of each other -/

theorem within_one_iff {a d s n : Int} (hd : 0 < d) (hn : 0 < n) :
    |a / d * n - s| ≤ n ↔ (ceilDiv s n - 1) * d ≤ a ∧ a < (s / n + 2) * d := by
  rw [abs_le]
  refine and_congr ?_ ?_
  -- `s ≤ (q + 1) * n` says that `q + 1` is at least `s / n` rounded up
  · rw [← Int.le_ediv_iff_mul_le hd, ceilDiv]
    have hceil : -(a / d + 1) ≤ -s / n ↔ -(a / d + 1) * n ≤ -s := Int.le_ediv_iff_mul_le hn
    constructor
    · intro h
      have hmul := hceil.mpr (by linarith)
      omega
    · intro h
      have hmul := hceil.mp (by omega)
      linarith
  · rw [← Int.ediv_lt_iff_lt_mul hd]
    have hfloor : a / d - 1 ≤ s / n ↔ (a / d - 1) * n ≤ s := Int.le_ediv_iff_mul_le hn
    constructor
    · intro h
      have hmul := hfloor.mpr (by linarith)
      omega
    · intro h
      have hmul := hfloor.mp (by omega)
      linarith

end Reloadium.Lib.Halving
