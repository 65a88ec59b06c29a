import Reloadium.Profile.CumulateMaps
import Reloadium.Lib.Halving
import Mathlib.Algebra.Order.BigOperators.Group.List

namespace Reloadium.Profile

open Reloadium.Lib.Halving

/-!
# Profile — the MEAN of a line

`update` keeps no count of the samples: MEAN is halved with every sample that comes, so it
is the average of `Lib.Halving`, in which a sample weighs twice the one before it.  The
first sample is halved with itself, and from `2^62` on that sum wraps (`toInt_first`); over
positive samples with a sum below `2^63` nothing else wraps (`toInt_foldl_halve`).

`meanLaw_iff` says when MEAN is within one of the arithmetic mean all the same: exactly
when the weighted sum of the samples lies in a window around that mean.
-/

/-- One step of MEAN, as `update` computes it. -/
def halve (mean value : Int64) : Int64 := (value + mean) / 2

/-- The first sample's own mean.  Doubled in 64 bits it wraps from `2^62` on. -/
def firstMean (x : Int) : Int := if x < 2 ^ 62 then x else x - 2 ^ 63

/-- MEAN is within one of the arithmetic mean of the samples, in cross-multiplied form. -/
def MeanLaw (xs : List Int64) (mean : Option Int64) : Prop :=
  ∃ m, mean = some m ∧
    |m.toInt * xs.length - (xs.map Int64.toInt).sum| ≤ (xs.length : Int)

/-- With `s` the sum and `n` the number of the samples, the weighted sum `w` of the samples
    is at least `(⌈s / n⌉ - 1)·2^k` and below `(⌊s / n⌋ + 2)·2^k`, where `k` samples were
    added after the ones that pay back a wrapped first sample. -/
def WeightedNearMean : List Int → Prop
  | [] => False
  | x :: rest =>
    let (start, late) := settle (firstMean x) 1 rest
    let s := (x :: rest).sum
    let n : Int := (x :: rest).length
    (ceilDiv s n - 1) * 2 ^ late.length ≤ start + weighted late ∧
      start + weighted late < (s / n + 2) * 2 ^ late.length

instance : DecidablePred WeightedNearMean
  | [] => inferInstanceAs (Decidable False)
  | _ :: _ => inferInstanceAs (Decidable (_ ∧ _))

/-- Below `2^62` nothing wraps, and the weighted sum is that of all samples. -/
theorem weightedNearMean_of_lt {x : Int} {rest : List Int} (h0 : 0 ≤ x) (h : x < 2 ^ 62)
    (hrest : ∀ y ∈ rest, 0 ≤ y) :
    WeightedNearMean (x :: rest) ↔
      (ceilDiv (x :: rest).sum (x :: rest).length - 1) * 2 ^ rest.length ≤
          x + weighted rest ∧
        x + weighted rest <
          ((x :: rest).sum / (x :: rest).length + 2) * 2 ^ rest.length := by
  rw [WeightedNearMean, firstMean, if_pos h, settle_of_nonneg h0 hrest]

/-! ### From 64-bit numbers to integers -/

theorem toInt_two : (2 : Int64).toInt = 2 := by decide

/-- A step whose sum fits into 64 bits is a step of the library's recurrence. -/
theorem toInt_halve {mean value : Int64} (hle : -2 ^ 63 ≤ value.toInt + mean.toInt)
    (hlt : value.toInt + mean.toInt < 2 ^ 63) :
    (halve mean value).toInt = step mean.toInt value.toInt := by
  have hsum : (value + mean).toInt = value.toInt + mean.toInt := by
    rw [Int64.toInt_add]
    exact Int.bmod_eq_of_le (by omega) (by omega)
  rw [halve, Int64.toInt_div_of_ne_right _ _ (by decide), hsum, toInt_two, step]

/-- The first sample, halved with itself. -/
theorem toInt_first {x : Int64} (hpos : 0 < x.toInt) :
    (halve x x).toInt = firstMean x.toInt := by
  have hlt := x.toInt_lt
  rw [halve, Int64.toInt_div_of_ne_right _ _ (by decide), Int64.toInt_add, toInt_two,
    firstMean]
  by_cases h : x.toInt < 2 ^ 62
  · rw [if_pos h, Int.bmod_eq_of_le (by omega) (by omega), ← mul_two,
      Int.mul_tdiv_cancel _ (by omega)]
  · -- the doubled sample is past `2^63`, so it comes out `2^64` smaller
    have hwrap : (x.toInt + x.toInt).bmod (2 ^ 64) = (x.toInt - 2 ^ 63) * 2 := by
      rw [← Int.sub_bmod_right, Int.bmod_eq_of_le (by omega) (by omega)]
      omega
    rw [if_neg h, hwrap, Int.mul_tdiv_cancel _ (by omega)]

/-- Over positive samples whose sum fits no later step wraps. -/
theorem toInt_foldl_halve {xs : List Int64} {mean : Int64} (hpos : ∀ x ∈ xs, 0 < x.toInt)
    (hsum : (xs.map Int64.toInt).sum < 2 ^ 63)
    (hmean : mean.toInt + (xs.map Int64.toInt).sum < 2 ^ 63) :
    (xs.foldl halve mean).toInt = (xs.map Int64.toInt).foldl step mean.toInt := by
  induction xs generalizing mean with
  | nil => rfl
  | cons x xs ih =>
    have hx : 0 < x.toInt := hpos x List.mem_cons_self
    have hrest : ∀ y ∈ xs, 0 < y.toInt := fun y hy => hpos y (List.mem_cons_of_mem x hy)
    have hnonneg : 0 ≤ (xs.map Int64.toInt).sum := by
      refine List.sum_nonneg fun i hi => ?_
      obtain ⟨y, hy, rfl⟩ := List.mem_map.mp hi
      exact (hrest y hy).le
    rw [List.map_cons, List.sum_cons] at hsum hmean
    have hlow := mean.le_toInt
    have hstep : (halve mean x).toInt = step mean.toInt x.toInt :=
      toInt_halve (by omega) (by omega)
    rw [List.foldl_cons, List.map_cons, List.foldl_cons, ← hstep]
    refine ih hrest (by omega) ?_
    rw [hstep]
    have hle := step_le mean.toInt x.toInt
    omega

/-! ### The law -/

/-- MEAN of a line that has one, over further samples. -/
theorem mean_foldl_record {lv : LineValues} {m : Int64} (h : lv.mean = some m)
    (xs : List Int64) : (xs.foldl LineValues.record lv).mean = some (xs.foldl halve m) := by
  induction xs generalizing lv m with
  | nil => exact h
  | cons x xs ih =>
    refine ih ?_
    rw [LineValues.record, h, Option.getD_some, halve]

/-- **MEAN.** Over positive samples whose sum fits it is the rounded down quotient of
    their weighted sum. -/
theorem record_mean {x : Int64} {rest : List Int64} (hpos : ∀ y ∈ x :: rest, 0 < y.toInt)
    (hsum : ((x :: rest).map Int64.toInt).sum < 2 ^ 63) :
    ∃ m, (lineOf (x :: rest)).mean = some m ∧
      m.toInt = let (start, late) := settle (firstMean x.toInt) 1 (rest.map Int64.toInt)
        (start + weighted late) / 2 ^ late.length := by
  have hx : 0 < x.toInt := hpos x List.mem_cons_self
  have hrest : ∀ y ∈ rest, 0 < y.toInt := fun y hy => hpos y (List.mem_cons_of_mem x hy)
  have hnonneg : ∀ i ∈ rest.map Int64.toInt, 0 ≤ i := by
    intro i hi
    obtain ⟨y, hy, rfl⟩ := List.mem_map.mp hi
    exact (hrest y hy).le
  have hfirst : (LineValues.empty.record x).mean = some (halve x x) := rfl
  refine ⟨rest.foldl halve (halve x x), mean_foldl_record hfirst rest, ?_⟩
  rw [List.map_cons, List.sum_cons] at hsum
  have hlt : firstMean x.toInt ≤ x.toInt := by
    unfold firstMean
    split <;> omega
  have hceil : ceilDiv (firstMean x.toInt) 1 = firstMean x.toInt := by simp [ceilDiv]
  have hsums := List.sum_nonneg hnonneg
  rw [toInt_foldl_halve hrest (by omega) (by rw [toInt_first hx]; omega), toInt_first hx]
  have hclosed := foldl_step (p := firstMean x.toInt) hnonneg Int.one_pos (Or.inr rfl)
  rw [hceil] at hclosed
  exact hclosed

/-- **MEAN law.** After any operations and for any line whose samples since its last clear
    are positive with a sum below `2^63`, MEAN is within one of their arithmetic mean
    exactly when their weighted sum is near it. -/
theorem meanLaw_iff (ops : List Op) (l : Int) (hne : recorded ops l ≠ [])
    (hpos : ∀ x ∈ recorded ops l, 0 < x)
    (hsum : ((recorded ops l).map Int64.toInt).sum < 2 ^ 63) :
    MeanLaw (recorded ops l) ((run ops).values .MEAN l) ↔
      WeightedNearMean ((recorded ops l).map Int64.toInt) := by
  have hline : (run ops).values .MEAN l = (lineOf (recorded ops l)).mean :=
    congrArg LineValues.mean (line_run ops l)
  rw [hline]
  obtain ⟨x, rest, hxs⟩ := List.exists_cons_of_ne_nil hne
  rw [hxs] at hpos hsum ⊢
  have hposInt : ∀ y ∈ x :: rest, 0 < y.toInt := fun y hy =>
    Int64.lt_iff_toInt_lt.mp (hpos y hy)
  obtain ⟨m, hmean, hm⟩ := record_mean hposInt hsum
  have hlen : (0 : Int) < (x :: rest).length := by simp
  have hpow : (0 : Int) < 2 ^ (settle (firstMean x.toInt) 1 (rest.map Int64.toInt)).2.length :=
    Int.pow_pos (by omega)
  have hwithin := within_one_iff (s := ((x :: rest).map Int64.toInt).sum)
    (a := (settle (firstMean x.toInt) 1 (rest.map Int64.toInt)).1 +
      weighted (settle (firstMean x.toInt) 1 (rest.map Int64.toInt)).2) hpow hlen
  simp only at hm
  rw [← hm] at hwithin
  -- what is left is to read the two definitions
  rw [MeanLaw, List.map_cons, WeightedNearMean, ← List.map_cons, List.length_map]
  refine Iff.trans ?_ hwithin
  constructor
  · rintro ⟨m', hm', hlaw⟩
    rw [hmean, Option.some.injEq] at hm'
    exact hm' ▸ hlaw
  · exact fun hlaw => ⟨m, hmean, hlaw⟩

/-- One `update` of line 1 for each sample. -/
def samplesOfLine (xs : List Int64) : List Op := xs.map fun x => .update [(1, x)] none 1 .ADD

/-- The law is met by the samples 10 and 12. -/
theorem mean_of_close_samples :
    MeanLaw (recorded (samplesOfLine [10, 12]) 1)
      ((run (samplesOfLine [10, 12])).values .MEAN 1) := by
  have hxs : recorded (samplesOfLine [10, 12]) 1 = [10, 12] := by decide
  have hpos : ∀ x ∈ recorded (samplesOfLine [10, 12]) 1, 0 < x := by
    rw [hxs, List.forall_mem_cons, List.forall_mem_singleton]
    exact ⟨by decide, by decide⟩
  exact (meanLaw_iff (samplesOfLine [10, 12]) 1 (by decide) hpos (by decide)).mpr (by decide)

/-- **Counterexample.** The samples 100, 10 and 10 of one line, whose mean is 40: its MEAN
    is 32. -/
theorem mean_forgets_early_samples :
    ¬ ∀ (ops : List Op) (l : Int), recorded ops l ≠ [] → (∀ x ∈ recorded ops l, 0 < x) →
      ((recorded ops l).map Int64.toInt).sum < 2 ^ 63 →
      MeanLaw (recorded ops l) ((run ops).values .MEAN l) := by
  intro h
  have hxs : recorded (samplesOfLine [100, 10, 10]) 1 = [100, 10, 10] := by decide
  have hpos : ∀ x ∈ recorded (samplesOfLine [100, 10, 10]) 1, 0 < x := by
    rw [hxs, List.forall_mem_cons, List.forall_mem_cons, List.forall_mem_singleton]
    exact ⟨by decide, by decide, by decide⟩
  have hmean : (run (samplesOfLine [100, 10, 10])).values .MEAN 1 = some 32 := by decide
  obtain ⟨m, hm, hlaw⟩ := h (samplesOfLine [100, 10, 10]) 1 (by decide) hpos (by decide)
  rw [hmean, Option.some.injEq] at hm
  subst hm
  exact absurd hlaw (by decide)

end Reloadium.Profile
