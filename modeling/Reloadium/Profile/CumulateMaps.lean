import Reloadium.Profile.MinMax
import Mathlib.Algebra.BigOperators.Group.List.Basic
import Mathlib.Algebra.Ring.Int.Defs
import Mathlib.Order.Bounds.Basic

namespace Reloadium.Profile

open Reloadium.Lib

/-!
# Profile — ADD, LAST, and the lines of the five maps

The map of ADD and the map of LAST are written for every non-zero sample, so they hold the
sum (in 64-bit arithmetic) and the end of the samples recorded for a line (`addLast_law`).

The gutter of a file takes its range from the map of `CumulateType.DEFAULT`, and
`FileValues.isEmpty` looks at that map only, whichever type is painted.  MEAN is written
together with ADD and LAST, while MAX and MIN are written under their comparisons:

* `max_isSome` — MAX has the lines with a positive sample;
* `min_isSome` — MIN has the lines with a sample other than `Long.MAX_VALUE`;
* `aligned_iff` — so the five maps have the same lines exactly when every line with a
  sample has both.
-/

/-! ### ADD and LAST -/

/-- The sum of the samples in 64-bit two's complement arithmetic, if there is a sample. -/
def wrappedSum (xs : List Int64) : Option Int :=
  if xs = [] then none else some ((xs.map Int64.toInt).sum.bmod (2 ^ 64))

/-- **ADD.** It is the wrapped sum of the samples. -/
theorem record_add (xs : List Int64) : (lineOf xs).add.map Int64.toInt = wrappedSum xs := by
  induction xs using List.reverseRecOn with
  | nil => rfl
  | append_singleton xs x ih =>
    have hne : xs ++ [x] ≠ [] := by simp
    rw [lineOf_concat, wrappedSum, if_neg hne, List.map_append, List.sum_append]
    -- the new sample is added to the sum so far, or to 0 when it is the first
    cases hadd : (lineOf xs).add with
    | none =>
      have hxs : xs = [] := by
        by_contra h
        simp [hadd, wrappedSum, h] at ih
      simp [LineValues.record, lineOf, LineValues.empty, hxs]
    | some s =>
      rw [hadd, Option.map_some, wrappedSum] at ih
      split at ih
      · exact absurd ih (by simp)
      · rw [Option.some.injEq] at ih
        simp [LineValues.record, hadd, ih, Int.add_comm]

/-- **LAST.** It is the last sample. -/
theorem record_last (xs : List Int64) : (lineOf xs).last = xs.getLast? := by
  induction xs using List.reverseRecOn with
  | nil => rfl
  | append_singleton xs x _ =>
    rw [lineOf_concat, List.getLast?_concat]
    rfl

/-- **ADD/LAST law.** After any operations and for any line, ADD is the sum modulo `2^64`
    and LAST the most recent of the samples recorded for the line since its last clear, and
    both are absent exactly when there is no such sample. -/
theorem addLast_law (ops : List Op) (l : Int) :
    ((run ops).values .ADD l).map Int64.toInt = wrappedSum (recorded ops l) ∧
      (run ops).values .LAST l = (recorded ops l).getLast? ∧
      ((run ops).values .ADD l = none ↔ recorded ops l = []) ∧
      ((run ops).values .LAST l = none ↔ recorded ops l = []) := by
  have hadd : (run ops).values .ADD l = (lineOf (recorded ops l)).add :=
    congrArg LineValues.add (line_run ops l)
  have hlast : (run ops).values .LAST l = (lineOf (recorded ops l)).last :=
    congrArg LineValues.last (line_run ops l)
  have hsum := record_add (recorded ops l)
  rw [hadd, hlast, record_last, List.getLast?_eq_none_iff]
  refine ⟨hsum, rfl, ?_, Iff.rfl⟩
  rw [← Option.map_eq_none_iff (f := Int64.toInt), hsum, wrappedSum]
  simp

/-! ### The lines of the five maps -/

/-- `CumulateType.DEFAULT`. -/
def CumulateType.DEFAULT : CumulateType := .ADD

/-- The key set of the map of a type. -/
def FileValues.keySet (fv : FileValues) (c : CumulateType) : Set Int :=
  {l | (fv.values c l).isSome}

/-- `FileValues.isEmpty`. -/
def FileValues.isEmpty (fv : FileValues) : Prop := fv.keySet .DEFAULT = ∅

/-- The five maps have the same lines. -/
def FileValues.Aligned (fv : FileValues) : Prop := ∀ c c', fv.keySet c = fv.keySet c'

/-- In an aligned state `isEmpty` speaks for whichever type is painted. -/
theorem FileValues.Aligned.isEmpty_iff {fv : FileValues} (h : fv.Aligned) (c : CumulateType) :
    fv.isEmpty ↔ fv.keySet c = ∅ := by rw [FileValues.isEmpty, h .DEFAULT c]

/-- In an aligned state the first and the last line of the default type are those of
    whichever type is painted. -/
theorem FileValues.Aligned.bounds_iff {fv : FileValues} (h : fv.Aligned) (c : CumulateType)
    (l : Int) : (IsLeast (fv.keySet .DEFAULT) l ↔ IsLeast (fv.keySet c) l) ∧
      (IsGreatest (fv.keySet .DEFAULT) l ↔ IsGreatest (fv.keySet c) l) := by
  rw [h .DEFAULT c]
  exact ⟨Iff.rfl, Iff.rfl⟩

/-- The value of a type among the five of a line. -/
def LineValues.get (lv : LineValues) : CumulateType → Option Int64
  | .LAST => lv.last
  | .MEAN => lv.mean
  | .ADD => lv.add
  | .MIN => lv.min
  | .MAX => lv.max

theorem line_get (fv : FileValues) (c : CumulateType) (l : Int) :
    (fv.line l).get c = fv.values c l := by cases c <;> rfl

/-- LAST, MEAN and ADD have the lines with a sample. -/
theorem get_isSome (xs : List Int64) (c : CumulateType) (hmin : c ≠ .MIN) (hmax : c ≠ .MAX) :
    ((lineOf xs).get c).isSome ↔ xs ≠ [] := by
  induction xs using List.reverseRecOn with
  | nil => cases c <;> simp [lineOf, LineValues.empty, LineValues.get]
  | append_singleton xs x _ =>
    rw [lineOf_concat]
    cases c with
    | LAST => simp [LineValues.record, LineValues.get]
    | MEAN => simp [LineValues.record, LineValues.get]
    | ADD => simp [LineValues.record, LineValues.get]
    | MIN => exact absurd rfl hmin
    | MAX => exact absurd rfl hmax

/-- MAX has the lines with a positive sample. -/
theorem max_isSome (xs : List Int64) : (lineOf xs).max.isSome ↔ ∃ x ∈ xs, 0 < x := by
  have hmax := record_max xs
  cases hm : (lineOf xs).max with
  | none =>
    simp only [MaxOf, hm] at hmax
    refine iff_of_false (by simp) ?_
    rintro ⟨x, hx, hpos⟩
    have hle := hmax x hx
    simp only [Int64.lt_iff_toInt_lt, Int64.le_iff_toInt_le] at hpos hle
    omega
  | some m =>
    simp only [MaxOf, hm] at hmax
    exact iff_of_true rfl ⟨m, hmax.2.1, hmax.1⟩

theorem toInt_maxValue : Int64.maxValue.toInt = 2 ^ 63 - 1 := by decide

/-- A sample below the ones before it is not the largest of all numbers. -/
theorem ne_maxValue_of_below {pre : List Int64} {x : Int64} (h : Below pre x) :
    x ≠ Int64.maxValue := by
  rintro rfl
  rcases h with ⟨p, _, _, hlt⟩ | ⟨_, hlt⟩
  · have hp := p.toInt_lt
    rw [Int64.lt_iff_toInt_lt, toInt_maxValue] at hlt
    omega
  · exact absurd hlt (by decide)

theorem lt_maxValue {x : Int64} (h : x ≠ Int64.maxValue) : x < Int64.maxValue := by
  have hx := x.toInt_lt
  have hne : x.toInt ≠ 2 ^ 63 - 1 := fun heq =>
    h (Int64.toInt_inj.mp (heq.trans toInt_maxValue.symm))
  rw [Int64.lt_iff_toInt_lt, toInt_maxValue]
  omega

/-- MIN has the lines with a sample that was below the ones before it. -/
theorem min_isSome_iff_below (xs : List Int64) :
    (lineOf xs).min.isSome ↔ ∃ pre x post, xs = pre ++ x :: post ∧ Below pre x := by
  induction xs using List.reverseRecOn with
  | nil => simp [lineOf, LineValues.empty]
  | append_singleton xs x ih =>
    rw [lineOf_concat, LineValues.record]
    by_cases h : Below xs x
    · rw [if_pos ((below_iff xs x).mpr h)]
      exact iff_of_true rfl ⟨xs, x, [], rfl, h⟩
    · rw [if_neg (fun hlt => h ((below_iff xs x).mp hlt)), ih]
      apply Iff.intro
      · rintro ⟨pre, y, post, rfl, hy⟩
        exact ⟨pre, y, post ++ [x], by simp, hy⟩
      · rintro ⟨pre, y, post, heq, hy⟩
        rcases List.eq_nil_or_concat post with rfl | ⟨post', z, rfl⟩
        -- the last sample is the one that is not below the others
        · obtain ⟨hxs, hxy⟩ := List.append_inj' heq rfl
          rw [List.singleton_inj] at hxy
          exact absurd (hxs ▸ hxy ▸ hy) h
        · rw [List.concat_eq_append, ← List.cons_append, ← List.append_assoc] at heq
          exact ⟨pre, y, post', (List.append_inj' heq rfl).1, hy⟩

/-- MIN has the lines with a sample other than `Long.MAX_VALUE`. -/
theorem min_isSome (xs : List Int64) :
    (lineOf xs).min.isSome ↔ ∃ x ∈ xs, x ≠ Int64.maxValue := by
  rw [min_isSome_iff_below]
  apply Iff.intro
  · rintro ⟨pre, x, post, rfl, hx⟩
    exact ⟨x, by simp, ne_maxValue_of_below hx⟩
  · rintro ⟨x, hx, hne⟩
    obtain ⟨y, rest, rfl⟩ := List.exists_cons_of_ne_nil (List.ne_nil_of_mem hx)
    by_cases hy : y = Int64.maxValue
    -- a first sample that large makes every smaller one below it
    · obtain ⟨pre, post, hrest⟩ := List.append_of_mem (List.mem_of_ne_of_mem (hy ▸ hne) hx)
      refine ⟨y :: pre, x, post, by rw [hrest, List.cons_append], Or.inl ⟨y, by simp, ?_⟩⟩
      rw [hy]
      exact ⟨by decide, lt_maxValue hne⟩
    · exact ⟨[], y, rest, rfl, Or.inr ⟨by simp, lt_maxValue hy⟩⟩

/-- The lines of a type, by the samples of the line. -/
theorem mem_keySet_run (ops : List Op) (c : CumulateType) (l : Int) :
    l ∈ (run ops).keySet c ↔ ((lineOf (recorded ops l)).get c).isSome := by
  have hline : (run ops).line l = lineOf (recorded ops l) := line_run ops l
  rw [← hline, line_get]
  rfl

/-- **Alignment.** After any operations the five maps have the same lines exactly when
    every line with a sample since its last clear has a positive one and one other than
    `Long.MAX_VALUE`. -/
theorem aligned_iff (ops : List Op) :
    (run ops).Aligned ↔ ∀ l, recorded ops l = [] ∨
      (∃ x ∈ recorded ops l, 0 < x) ∧ ∃ x ∈ recorded ops l, x ≠ Int64.maxValue := by
  apply Iff.intro
  · intro h l
    by_cases hne : recorded ops l = []
    · exact Or.inl hne
    -- the line is in the map of ADD, so it is in those of MAX and MIN
    · have hadd : l ∈ (run ops).keySet .ADD :=
        (mem_keySet_run ops .ADD l).mpr ((get_isSome _ .ADD (by simp) (by simp)).mpr hne)
      have hmax := (mem_keySet_run ops .MAX l).mp (h .ADD .MAX ▸ hadd)
      have hmin := (mem_keySet_run ops .MIN l).mp (h .ADD .MIN ▸ hadd)
      exact Or.inr ⟨(max_isSome _).mp hmax, (min_isSome _).mp hmin⟩
  · intro h
    have hkeys : ∀ c l, l ∈ (run ops).keySet c ↔ recorded ops l ≠ [] := by
      intro c l
      rw [mem_keySet_run]
      by_cases hmin : c = .MIN
      · subst hmin
        refine (min_isSome _).trans ⟨?_, fun hne => ((h l).resolve_left hne).2⟩
        rintro ⟨x, hx, _⟩
        exact List.ne_nil_of_mem hx
      · by_cases hmax : c = .MAX
        · subst hmax
          refine (max_isSome _).trans ⟨?_, fun hne => ((h l).resolve_left hne).1⟩
          rintro ⟨x, hx, _⟩
          exact List.ne_nil_of_mem hx
        · exact get_isSome _ c hmin hmax
    intro c c'
    ext l
    rw [hkeys, hkeys]

/-- **Counterexample.** One negative sample: ADD has the line, MAX has not. -/
theorem negative_sample_not_aligned : ¬ ∀ ops : List Op, (run ops).Aligned := by
  intro h
  have hkeys := h [.update [(1, -5)] none 1 .ADD] .ADD .MAX
  have hadd : (1 : Int) ∈ (run [.update [(1, -5)] none 1 .ADD]).keySet .ADD := by
    show Option.isSome _ = true
    decide
  rw [hkeys] at hadd
  exact absurd hadd (by show ¬ Option.isSome _ = true; decide)

end Reloadium.Profile
