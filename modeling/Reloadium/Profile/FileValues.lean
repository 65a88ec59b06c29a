import Reloadium.Lib.PMap
import Mathlib.Data.List.Basic

namespace Reloadium.Profile

open Reloadium.Lib

/-!
# Profile — the values of one file

Model of `rw.profile.FileValues`: five maps from line numbers to 64-bit samples, one for
each `CumulateType`, and the frame each line belongs to.  `update` folds one batch of
samples into the five maps; the two `clear` operations drop all lines, or a range.

The maps never mix lines, so the history of a line is the list of its non-zero samples
since it was last cleared (`recorded`), and its five values are a fold over that list
(`line_run`).  Every law about a `CumulateType` is proved about that fold.
-/

/-- `CumulateType`. -/
inductive CumulateType where
  | LAST
  | MEAN
  | ADD
  | MIN
  | MAX
deriving DecidableEq, Repr

/-- `CumulateType.getAll`. -/
def CumulateType.getAll : List CumulateType := [.LAST, .MEAN, .ADD, .MAX, .MIN]

/-- `FileValues`.  An absent frame and a `null` frame are the same to its readers. -/
structure FileValues where
  values : CumulateType → PMap Int Int64
  lineToFrame : Int → Option String

namespace FileValues

/-- The object its constructor builds. -/
def new : FileValues := ⟨fun _ => .empty, fun _ => none⟩

/-- `this.values.get(c).put(line, value)`. -/
def put (fv : FileValues) (c : CumulateType) (line : Int) (value : Int64) : FileValues :=
  { fv with values := Function.update fv.values c ((fv.values c).put line value) }

/-- `this.values.get(c).remove(line)`. -/
def remove (fv : FileValues) (c : CumulateType) (line : Int) : FileValues :=
  { fv with values := Function.update fv.values c ((fv.values c).remove line) }

/-- The body of the loop of `update` over the entries of its argument.  The default of
    `currentMinValue` is looked up in the map of `MAX`, as in the source. -/
def updateEntry (fv : FileValues) (entry : Int × Int64) : FileValues :=
  -- a line without a sample in this batch keeps its values
  if entry.2 = 0 then fv
  else
    let currentAddValue := (fv.values .ADD).getOrDefault entry.1 0
    -- the first sample is its own mean
    let currentMeanValue := (fv.values .MEAN).getOrDefault entry.1 entry.2
    let currentMaxValue := (fv.values .MAX).getOrDefault entry.1 0
    -- the map of MAX once more, with the default that belongs to a minimum
    let currentMinValue := (fv.values .MAX).getOrDefault entry.1 Int64.maxValue
    let fv := fv.put .ADD entry.1 (entry.2 + currentAddValue)
    let fv := fv.put .MEAN entry.1 ((entry.2 + currentMeanValue) / 2)
    let fv := if entry.2 > currentMaxValue then fv.put .MAX entry.1 entry.2 else fv
    let fv := if entry.2 < currentMinValue then fv.put .MIN entry.1 entry.2 else fv
    fv.put .LAST entry.1 entry.2

/-- `this.lineToFrame.put(line, frame)`. -/
def putFrame (fv : FileValues) (line : Int) (frame : Option String) : FileValues :=
  { fv with lineToFrame := Function.update fv.lineToFrame line frame }

/-- `FileValues.update`; `values` lists the entries of the map in iteration order. -/
def update (fv : FileValues) (values : List (Int × Int64)) (frame : Option String)
    (frameLine : Int) (_cumulateType : CumulateType) : FileValues :=
  let fv := values.foldl updateEntry fv
  let fv := fv.putFrame (frameLine - 1) frame
  -- the frame of every line of the batch, its zero samples included
  values.foldl (fun fv entry => fv.putFrame (entry.1 - 1) frame) fv

/-- `FileValues.clear()`. -/
def clear (fv : FileValues) : FileValues :=
  CumulateType.getAll.foldl
    (fun fv c => { fv with values := Function.update fv.values c .empty }) fv

/-- `IntStream.rangeClosed(start, end)`. -/
def rangeClosed (start stop : Int) : List Int :=
  (List.range (stop - start + 1).toNat).map fun k : Nat => start + k

/-- `FileValues.clear(start, end)`. -/
def clearRange (fv : FileValues) (start stop : Int) : FileValues :=
  (rangeClosed start stop).foldl
    (fun fv l => CumulateType.getAll.foldl (fun fv c => fv.remove c l) fv) fv

end FileValues

/-- A call of one of the three operations. -/
inductive Op where
  | update (values : List (Int × Int64)) (frame : Option String) (frameLine : Int)
      (cumulateType : CumulateType)
  | clear
  | clearRange (start stop : Int)

/-- One operation. -/
def FileValues.step (fv : FileValues) : Op → FileValues
  | .update values frame frameLine cumulateType => fv.update values frame frameLine cumulateType
  | .clear => fv.clear
  | .clearRange start stop => fv.clearRange start stop

/-- The state after a sequence of operations on a fresh `FileValues`. -/
def run (ops : List Op) : FileValues := ops.foldl FileValues.step .new

/-! ### One line -/

/-- The five values of one line. -/
@[ext] structure LineValues where
  last : Option Int64
  mean : Option Int64
  add : Option Int64
  min : Option Int64
  max : Option Int64
deriving DecidableEq, Repr

/-- A line without values. -/
def LineValues.empty : LineValues := ⟨none, none, none, none, none⟩

/-- Record one non-zero sample of the line. -/
def LineValues.record (lv : LineValues) (value : Int64) : LineValues where
  last := some value
  mean := some ((value + lv.mean.getD value) / 2)
  add := some (value + lv.add.getD 0)
  -- compared with the line's maximum, as the loop body does
  min := if value < lv.max.getD Int64.maxValue then some value else lv.min
  max := if value > lv.max.getD 0 then some value else lv.max

/-- The five values of line `l`. -/
def FileValues.line (fv : FileValues) (l : Int) : LineValues where
  last := fv.values .LAST l
  mean := fv.values .MEAN l
  add := fv.values .ADD l
  min := fv.values .MIN l
  max := fv.values .MAX l

/-- The non-zero samples of line `l` in a batch. -/
def samplesOf (l : Int) (values : List (Int × Int64)) : List Int64 :=
  (values.filter fun entry => entry.1 = l ∧ entry.2 ≠ 0).map Prod.snd

theorem samplesOf_of_notMem {l : Int} {values : List (Int × Int64)}
    (h : l ∉ values.map Prod.fst) : samplesOf l values = [] := by
  rw [samplesOf, List.map_eq_nil_iff, List.filter_eq_nil_iff]
  intro entry hentry heq
  simp only [decide_eq_true_eq] at heq
  exact h (heq.1 ▸ List.mem_map_of_mem hentry)

/-- What an operation does to the samples recorded for line `l` since it was last
    cleared. -/
def recordedStep (l : Int) (xs : List Int64) : Op → List Int64
  | .update values _ _ _ => xs ++ samplesOf l values
  | .clear => []
  | .clearRange start stop => if start ≤ l ∧ l ≤ stop then [] else xs

/-- The non-zero samples recorded for line `l` since it was last cleared. -/
def recorded (ops : List Op) (l : Int) : List Int64 := ops.foldl (recordedStep l) []

theorem put_values_apply (fv : FileValues) (c c' : CumulateType) (line l : Int)
    (value : Int64) :
    (fv.put c line value).values c' l =
      if c' = c ∧ l = line then some value else fv.values c' l := by
  unfold FileValues.put
  by_cases hc : c' = c
  · subst hc
    simp [PMap.put_apply]
  · simp [hc]

/-- Writing into another line leaves a line as it is. -/
theorem line_put_of_ne (fv : FileValues) (c : CumulateType) {line l : Int} (value : Int64)
    (h : l ≠ line) : (fv.put c line value).line l = fv.line l := by
  ext1 <;> simp [FileValues.line, put_values_apply, h]

/-- The loop body touches the line of its entry only, where it records the sample. -/
theorem line_updateEntry (fv : FileValues) (entry : Int × Int64) (l : Int) :
    (fv.updateEntry entry).line l =
      if entry.1 = l ∧ entry.2 ≠ 0 then (fv.line l).record entry.2 else fv.line l := by
  obtain ⟨line, value⟩ := entry
  unfold FileValues.updateEntry
  by_cases h0 : value = 0
  · simp [h0]
  -- the entry's own line: four cases, by what its sample replaces
  by_cases hl : line = l
  · subst hl
    simp only [h0, if_false, ne_eq, not_false_eq_true, and_self, if_true, PMap.getOrDefault]
    by_cases hmax : value > (fv.values .MAX line).getD 0 <;>
      by_cases hmin : value < (fv.values .MAX line).getD Int64.maxValue <;>
        ext1 <;> simp [FileValues.line, LineValues.record, put_values_apply, hmax, hmin]
  · have hne : l ≠ line := Ne.symm hl
    simp only [h0, if_false, hl, false_and]
    split <;> split <;> simp only [line_put_of_ne _ _ _ hne]

theorem line_foldl_updateEntry (values : List (Int × Int64)) (fv : FileValues) (l : Int) :
    (values.foldl FileValues.updateEntry fv).line l =
      (samplesOf l values).foldl LineValues.record (fv.line l) := by
  induction values generalizing fv with
  | nil => rfl
  | cons entry values ih =>
    rw [List.foldl_cons, ih, line_updateEntry, samplesOf, samplesOf, List.filter_cons]
    by_cases h : entry.1 = l ∧ entry.2 ≠ 0 <;> simp [h]

/-- The frames of the lines are no values. -/
theorem line_foldl_putFrame (values : List (Int × Int64)) (fv : FileValues)
    (frame : Option String) (l : Int) :
    (values.foldl (fun fv entry => fv.putFrame (entry.1 - 1) frame) fv).line l =
      fv.line l := by
  induction values generalizing fv with
  | nil => rfl
  | cons entry values ih =>
    rw [List.foldl_cons, ih]
    rfl

/-- `update` records the samples of its batch, line by line. -/
theorem line_update (fv : FileValues) (values : List (Int × Int64)) (frame : Option String)
    (frameLine : Int) (cumulateType : CumulateType) (l : Int) :
    (fv.update values frame frameLine cumulateType).line l =
      (samplesOf l values).foldl LineValues.record (fv.line l) := by
  rw [← line_foldl_updateEntry, FileValues.update, line_foldl_putFrame]
  rfl

theorem line_clear (fv : FileValues) (l : Int) : fv.clear.line l = .empty := rfl

theorem mem_rangeClosed {start stop l : Int} :
    l ∈ FileValues.rangeClosed start stop ↔ start ≤ l ∧ l ≤ stop := by
  simp only [FileValues.rangeClosed, List.mem_map, List.mem_range]
  constructor
  · rintro ⟨k, hk, rfl⟩
    omega
  · intro h
    exact ⟨(l - start).toNat, by omega, by omega⟩

/-- Removing a line from every map empties that line and keeps the others. -/
theorem line_removeAll (fv : FileValues) (line l : Int) :
    (CumulateType.getAll.foldl (fun fv c => fv.remove c line) fv).line l =
      if l = line then .empty else fv.line l := by
  by_cases h : l = line
  · subst h
    rw [if_pos rfl]
    ext1 <;> simp [CumulateType.getAll, FileValues.remove, FileValues.line, PMap.remove_apply,
      LineValues.empty]
  · rw [if_neg h]
    ext1 <;> simp [CumulateType.getAll, FileValues.remove, FileValues.line, PMap.remove_apply,
      h]

theorem line_clearRange (fv : FileValues) (start stop l : Int) :
    (fv.clearRange start stop).line l =
      if start ≤ l ∧ l ≤ stop then .empty else fv.line l := by
  simp only [← mem_rangeClosed]
  rw [FileValues.clearRange]
  -- over the lines of the range, which is what the source's loop goes through
  induction FileValues.rangeClosed start stop generalizing fv with
  | nil => simp
  | cons line lines ih =>
    rw [List.foldl_cons, ih, line_removeAll]
    by_cases h : l = line <;> by_cases hl : l ∈ lines <;> simp [h, hl]

/-- **Step lemma.** An operation does to the five values of a line what it does to the
    line's recorded samples. -/
theorem line_step {fv : FileValues} {l : Int} {xs : List Int64}
    (h : fv.line l = xs.foldl LineValues.record .empty) (op : Op) :
    (fv.step op).line l = (recordedStep l xs op).foldl LineValues.record .empty := by
  cases op with
  | update values frame frameLine cumulateType =>
    rw [FileValues.step, line_update, recordedStep, List.foldl_append, h]
  | clear => exact line_clear fv l
  | clearRange start stop =>
    rw [FileValues.step, line_clearRange, recordedStep]
    by_cases hl : start ≤ l ∧ l ≤ stop
    · rw [if_pos hl, if_pos hl]
      rfl
    · rw [if_neg hl, if_neg hl, h]

/-- **Run lemma.** After any operations the five values of a line are the fold of the
    samples recorded for it since it was last cleared. -/
theorem line_run (ops : List Op) (l : Int) :
    (run ops).line l = (recorded ops l).foldl LineValues.record .empty := by
  unfold run recorded
  -- from any state that is the fold of `xs`, for the induction over the operations
  have h : ∀ (fv : FileValues) (xs : List Int64),
      fv.line l = xs.foldl LineValues.record .empty →
      (ops.foldl FileValues.step fv).line l =
        (ops.foldl (recordedStep l) xs).foldl LineValues.record .empty := by
    induction ops with
    | nil => exact fun _ _ h => h
    | cons op ops ih => exact fun fv xs h => ih _ _ (line_step h op)
  exact h .new [] rfl

end Reloadium.Profile
