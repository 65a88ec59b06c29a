import Reloadium.Profile.FileValues
import Mathlib.Data.List.Induction

namespace Reloadium.Profile

/-!
# Profile — the MIN and MAX of a line

`update` compares a sample with the *maximum* recorded so far to decide whether it is a
new minimum, and starts both maps from defaults (`0` for MAX, `Long.MAX_VALUE` for MIN).
So MAX sees positive samples only, and MIN holds the last sample that was below the
largest positive sample before it:

* `record_max` — MAX is the largest positive sample;
* `record_min` — MIN is the last sample that is `Below` the ones before it;
* `minMaxLaw_iff` — MIN and MAX are the minimum and the maximum of the samples of a line
  exactly when there is none, or some sample is positive and the last sample below the
  ones before it is the least.
-/

/-- `x` is less than the largest positive sample of `pre`, or than `Long.MAX_VALUE` if
    none is positive. -/
def Below (pre : List Int64) (x : Int64) : Prop :=
  (∃ p ∈ pre, 0 < p ∧ x < p) ∨ ((∀ p ∈ pre, p ≤ 0) ∧ x < Int64.maxValue)

/-- `m` is a sample below the ones before it, and no later sample is. -/
def LastBelow (xs : List Int64) (m : Int64) : Prop :=
  ∃ pre post, xs = pre ++ m :: post ∧ Below pre m ∧
    ∀ a x b, post = a ++ x :: b → ¬ Below (pre ++ m :: a) x

/-- The five values of a line with the given samples. -/
def lineOf (xs : List Int64) : LineValues := xs.foldl LineValues.record .empty

theorem lineOf_concat (xs : List Int64) (x : Int64) :
    lineOf (xs ++ [x]) = (lineOf xs).record x := by simp [lineOf]

/-! ### Two facts about 64-bit comparisons -/

theorem le_of_not_gt {x y : Int64} (h : ¬ x > y) : x ≤ y := by
  simp only [gt_iff_lt, Int64.lt_iff_toInt_lt, Int64.le_iff_toInt_le] at *
  omega

theorem le_trans_of_lt {x y z : Int64} (h₁ : x ≤ y) (h₂ : y < z) : x ≤ z := by
  simp only [Int64.lt_iff_toInt_lt, Int64.le_iff_toInt_le] at *
  omega

/-! ### MAX -/

/-- What the MAX entry says about the samples. -/
def MaxOf (xs : List Int64) (max : Option Int64) : Prop :=
  match max with
  | none => ∀ x ∈ xs, x ≤ 0
  | some m => 0 < m ∧ m ∈ xs ∧ ∀ x ∈ xs, x ≤ m

/-- **MAX.** It is the largest positive sample, and absent if no sample is positive. -/
theorem record_max (xs : List Int64) : MaxOf xs (lineOf xs).max := by
  -- the samples come one by one at the end of the history
  induction xs using List.reverseRecOn with
  | nil => simp [lineOf, LineValues.empty, MaxOf]
  | append_singleton xs x ih =>
    rw [lineOf_concat]
    cases hmax : (lineOf xs).max with
    | none =>
      simp only [MaxOf, hmax] at ih
      by_cases hx : x > 0
      -- the first positive sample: all before it were at most 0
      · simp only [LineValues.record, hmax, Option.getD_none, if_pos hx, MaxOf]
        refine ⟨hx, by simp, fun y hy => ?_⟩
        rcases List.mem_append.mp hy with hy | hy
        · exact le_trans_of_lt (ih y hy) hx
        · rw [List.mem_singleton.mp hy]
          exact Int64.le_refl x
      · simp only [LineValues.record, hmax, Option.getD_none, if_neg hx, MaxOf]
        intro y hy
        rcases List.mem_append.mp hy with hy | hy
        · exact ih y hy
        · rw [List.mem_singleton.mp hy]
          exact le_of_not_gt hx
    | some m =>
      simp only [MaxOf, hmax] at ih
      obtain ⟨hpos, hmem, hle⟩ := ih
      by_cases hx : x > m
      -- a sample above the maximum takes its place
      · simp only [LineValues.record, hmax, Option.getD_some, if_pos hx, MaxOf]
        refine ⟨Int64.lt_trans hpos hx, by simp, fun y hy => ?_⟩
        rcases List.mem_append.mp hy with hy | hy
        · exact le_trans_of_lt (hle y hy) hx
        · rw [List.mem_singleton.mp hy]
          exact Int64.le_refl x
      · simp only [LineValues.record, hmax, Option.getD_some, if_neg hx, MaxOf]
        refine ⟨hpos, by simp [hmem], fun y hy => ?_⟩
        rcases List.mem_append.mp hy with hy | hy
        · exact hle y hy
        · rw [List.mem_singleton.mp hy]
          exact le_of_not_gt hx

/-! ### MIN -/

/-- The comparison `update` makes for MIN asks whether the sample is below the ones
    before it. -/
theorem below_iff (xs : List Int64) (x : Int64) :
    x < (lineOf xs).max.getD Int64.maxValue ↔ Below xs x := by
  have hmax := record_max xs
  cases hm : (lineOf xs).max with
  | none =>
    simp only [MaxOf, hm] at hmax
    rw [Option.getD_none]
    constructor
    · exact fun h => Or.inr ⟨hmax, h⟩
    -- no sample is positive, so only the second way to be below is open
    · rintro (⟨p, hp, hpos, _⟩ | ⟨_, h⟩)
      · have hle := hmax p hp
        simp only [Int64.lt_iff_toInt_lt, Int64.le_iff_toInt_le] at hpos hle
        omega
      · exact h
  | some m =>
    simp only [MaxOf, hm] at hmax
    obtain ⟨hpos, hmem, hle⟩ := hmax
    rw [Option.getD_some]
    constructor
    · exact fun h => Or.inl ⟨m, hmem, hpos, h⟩
    -- the maximum is positive, so only the first way is open
    · rintro (⟨p, hp, _, hlt⟩ | ⟨hnonpos, _⟩)
      · have hpm := hle p hp
        simp only [Int64.lt_iff_toInt_lt, Int64.le_iff_toInt_le] at hlt hpm ⊢
        omega
      · have hm0 := hnonpos m hmem
        simp only [Int64.lt_iff_toInt_lt, Int64.le_iff_toInt_le] at hpos hm0
        omega

/-- A later sample below the ones before it replaces the last one. -/
theorem lastBelow_concat_of_below {xs : List Int64} {x m : Int64} (h : Below xs x) :
    LastBelow (xs ++ [x]) m ↔ x = m := by
  constructor
  · rintro ⟨pre, post, heq, _, hlast⟩
    rcases List.eq_nil_or_concat post with rfl | ⟨post', y, rfl⟩
    · have := List.append_inj_right' heq rfl
      simpa using this
    · -- the last sample of `post` is `x`, which would not be below the ones before it
      rw [List.concat_eq_append, ← List.cons_append, ← List.append_assoc] at heq
      obtain ⟨hxs, hxy⟩ := List.append_inj' heq rfl
      rw [List.cons.injEq] at hxy
      rw [hxs, hxy.1] at h
      exact absurd h (hlast post' y [] (by simp))
  · rintro rfl
    exact ⟨xs, [], rfl, h, by simp⟩

/-- A later sample that is not below the ones before it leaves the last one. -/
theorem lastBelow_concat_of_not_below {xs : List Int64} {x m : Int64} (h : ¬ Below xs x) :
    LastBelow (xs ++ [x]) m ↔ LastBelow xs m := by
  constructor
  · rintro ⟨pre, post, heq, hm, hlast⟩
    rcases List.eq_nil_or_concat post with rfl | ⟨post', y, rfl⟩
    · -- `m` would be the new sample, which is not below the ones before it
      obtain ⟨hxs, hxm⟩ := List.append_inj' heq rfl
      rw [List.cons.injEq] at hxm
      rw [hxs, hxm.1] at h
      exact absurd hm h
    · rw [List.concat_eq_append, ← List.cons_append, ← List.append_assoc] at heq
      obtain ⟨hxs, _⟩ := List.append_inj' heq rfl
      refine ⟨pre, post', hxs, hm, fun a z b hpost => hlast a z (b ++ [y]) ?_⟩
      rw [List.concat_eq_append, hpost, List.append_assoc, List.cons_append]
  · rintro ⟨pre, post, rfl, hm, hlast⟩
    refine ⟨pre, post ++ [x], by simp, hm, fun a z b hpost => ?_⟩
    -- a later sample `z` is the new one, or it is one of `post`
    rcases List.eq_nil_or_concat b with rfl | ⟨b', w, rfl⟩
    · obtain ⟨ha, hz⟩ := List.append_inj' hpost rfl
      rw [List.cons.injEq] at hz
      rwa [← ha, ← hz.1]
    · rw [List.concat_eq_append, ← List.cons_append, ← List.append_assoc] at hpost
      exact hlast a z b' (List.append_inj' hpost rfl).1

/-- **MIN.** It is the last sample below the ones before it, and absent if there is
    none. -/
theorem record_min (xs : List Int64) (m : Int64) :
    (lineOf xs).min = some m ↔ LastBelow xs m := by
  induction xs using List.reverseRecOn with
  | nil =>
    constructor
    · intro h
      simp [lineOf, LineValues.empty] at h
    · rintro ⟨pre, post, h, _⟩
      simp at h
  | append_singleton xs x ih =>
    rw [lineOf_concat, LineValues.record]
    by_cases h : Below xs x
    · rw [lastBelow_concat_of_below h, if_pos ((below_iff xs x).mpr h), Option.some.injEq]
    · rw [lastBelow_concat_of_not_below h, if_neg (fun hlt => h ((below_iff xs x).mp hlt)), ih]

/-! ### The law -/

/-- MIN and MAX of a line are the minimum and the maximum of its samples, and absent
    exactly when there is no sample. -/
def MinMaxLaw (xs : List Int64) (lv : LineValues) : Prop :=
  lv.min.map Int64.toInt = (xs.map Int64.toInt).min? ∧
    lv.max.map Int64.toInt = (xs.map Int64.toInt).max?

/-- The line has no sample, or one of its samples is positive and the last sample below
    the ones before it is the least of all. -/
def Regular (xs : List Int64) : Prop :=
  xs = [] ∨ (∃ x ∈ xs, 0 < x) ∧ ∃ m, LastBelow xs m ∧ ∀ x ∈ xs, m ≤ x

theorem min?_toInt_eq_some {xs : List Int64} {m : Int64} :
    (xs.map Int64.toInt).min? = some m.toInt ↔ m ∈ xs ∧ ∀ x ∈ xs, m ≤ x := by
  rw [List.min?_eq_some_iff]
  simp [Int64.toInt_inj, Int64.le_iff_toInt_le]

theorem max?_toInt_eq_some {xs : List Int64} {m : Int64} :
    (xs.map Int64.toInt).max? = some m.toInt ↔ m ∈ xs ∧ ∀ x ∈ xs, x ≤ m := by
  rw [List.max?_eq_some_iff]
  simp [Int64.toInt_inj, Int64.le_iff_toInt_le]

/-- The MAX half of the law holds as soon as one sample is positive, and fails when there
    are samples but none is positive. -/
theorem max_law_iff (xs : List Int64) (hne : xs ≠ []) :
    (lineOf xs).max.map Int64.toInt = (xs.map Int64.toInt).max? ↔ ∃ x ∈ xs, 0 < x := by
  have hmax := record_max xs
  cases hm : (lineOf xs).max with
  | none =>
    simp only [MaxOf, hm] at hmax
    constructor
    · intro h
      rw [Option.map_none, eq_comm, List.max?_eq_none_iff, List.map_eq_nil_iff] at h
      exact absurd h hne
    · rintro ⟨x, hx, hpos⟩
      have hle := hmax x hx
      simp only [Int64.lt_iff_toInt_lt, Int64.le_iff_toInt_le] at hpos hle
      omega
  | some m =>
    simp only [MaxOf, hm] at hmax
    obtain ⟨hpos, hmem, hle⟩ := hmax
    constructor
    · exact fun _ => ⟨m, hmem, hpos⟩
    · intro _
      rw [Option.map_some, eq_comm]
      exact max?_toInt_eq_some.mpr ⟨hmem, hle⟩

/-- The MIN half of the law holds exactly when the last sample below the ones before it
    is the least. -/
theorem min_law_iff (xs : List Int64) (hne : xs ≠ []) :
    (lineOf xs).min.map Int64.toInt = (xs.map Int64.toInt).min? ↔
      ∃ m, LastBelow xs m ∧ ∀ x ∈ xs, m ≤ x := by
  cases hm : (lineOf xs).min with
  | none =>
    constructor
    · intro h
      rw [Option.map_none, eq_comm, List.min?_eq_none_iff, List.map_eq_nil_iff] at h
      exact absurd h hne
    · rintro ⟨m, hlast, _⟩
      rw [← record_min, hm] at hlast
      exact absurd hlast (by simp)
  | some m =>
    have hlast := (record_min xs m).mp hm
    rw [Option.map_some, eq_comm, min?_toInt_eq_some]
    constructor
    · exact fun h => ⟨m, hlast, h.2⟩
    · rintro ⟨m', hlast', hle⟩
      rw [← record_min, hm, Option.some.injEq] at hlast'
      subst hlast'
      obtain ⟨pre, post, rfl, _⟩ := hlast
      exact ⟨by simp, hle⟩

/-- **MIN/MAX law.** After any operations and for any line, MIN and MAX are the minimum
    and the maximum of the samples recorded for it since its last clear exactly when
    those samples are regular. -/
theorem minMaxLaw_iff (ops : List Op) (l : Int) :
    MinMaxLaw (recorded ops l) ((run ops).line l) ↔ Regular (recorded ops l) := by
  rw [line_run]
  -- `lineOf` is the fold of the run lemma
  show MinMaxLaw _ (lineOf _) ↔ _
  unfold MinMaxLaw Regular
  by_cases hne : recorded ops l = []
  · rw [hne]
    simp [lineOf, LineValues.empty]
  · rw [min_law_iff _ hne, max_law_iff _ hne, and_comm]
    simp [hne]

/-- **Counterexample.** The samples 5, 1, 3 of one line: its MIN is 3. -/
theorem later_sample_replaces_min :
    ¬ ∀ (ops : List Op) (l : Int), MinMaxLaw (recorded ops l) ((run ops).line l) := by
  intro h
  have h531 := (h [.update [(1, 5)] none 1 .ADD, .update [(1, 1)] none 1 .ADD,
    .update [(1, 3)] none 1 .ADD] 1).1
  exact absurd h531 (by decide)

end Reloadium.Profile
