import Reloadium.Profile.CumulateMaps
import Reloadium.Lib.Assoc
import Reloadium.Lib.Since

namespace Reloadium.Profile

open Reloadium.Lib

/-!
# Profile — the line profilers and their events

Model of `rw.profile.LineProfiler` with its subclasses and of the two events that feed
them.  A `LineProfile` event goes to the time profiler and to the memory profiler, each of
which records its own samples for the file; a `LineProfileClear` event clears its ranges
in the time profiler only.

`hasValue_time` and `hasValue_memory` say which lines have values after any sequence of
events, and `clearLaw_iff` when the clears have reached both profilers.
-/

/-- A `FileValues` with the lines of its default map listed.  The list may hold lines that
    have been cleared. -/
structure FileStore extends FileValues where
  lines : List Int
  listed : ∀ l, (values .DEFAULT l).isSome → l ∈ lines

namespace FileStore

/-- The object its constructor builds. -/
def new : FileStore := ⟨.new, [], by simp [FileValues.new]⟩

theorem add_eq (fv : FileValues) (l : Int) : fv.values .DEFAULT l = (fv.line l).add := rfl

/-- Only a line of the batch gets a value by it. -/
theorem listed_update (s : FileStore) (values : List (Int × Int64)) (frame : Option String)
    (frameLine : Int) (cumulateType : CumulateType) (l : Int)
    (h : ((s.update values frame frameLine cumulateType).values .DEFAULT l).isSome) :
    l ∈ s.lines ++ values.map Prod.fst := by
  by_cases hl : l ∈ values.map Prod.fst
  · exact List.mem_append_right _ hl
  · rw [add_eq, line_update, samplesOf_of_notMem hl] at h
    exact List.mem_append_left _ (s.listed l h)

/-- `FileValues.update`. -/
def update (s : FileStore) (values : List (Int × Int64)) (frame : Option String)
    (frameLine : Int) (cumulateType : CumulateType) : FileStore where
  toFileValues := s.toFileValues.update values frame frameLine cumulateType
  lines := s.lines ++ values.map Prod.fst
  listed := s.listed_update values frame frameLine cumulateType

/-- Clearing gives no line a value. -/
theorem listed_clearRange (s : FileStore) (start stop l : Int)
    (h : ((s.toFileValues.clearRange start stop).values .DEFAULT l).isSome) : l ∈ s.lines := by
  rw [add_eq, line_clearRange] at h
  split at h
  · exact absurd h (by simp [LineValues.empty])
  · exact s.listed l h

/-- `FileValues.clear(start, end)`. -/
def clearRange (s : FileStore) (start stop : Int) : FileStore where
  toFileValues := s.toFileValues.clearRange start stop
  lines := s.lines
  listed := s.listed_clearRange start stop

end FileStore

variable {File : Type} [DecidableEq File]

/-- `LineProfile`. -/
structure LineProfile (File : Type) where
  file : File
  stop : Bool
  memoryValues : List (Int × Int64)
  timeValues : List (Int × Int64)
  line : Int
  frame : Option String
  frameLine : Int

/-- `LineProfileClear`. -/
structure LineProfileClear (File : Type) where
  file : File
  ranges : List (Int × Int)

/-- `LineProfiler`, without its renderer. -/
structure LineProfiler (File : Type) where
  values : List (File × FileStore)

namespace LineProfiler

/-- The object its constructor builds. -/
def new : LineProfiler File := ⟨[]⟩

/-- The `FileValues` of a file, a new one if it has none. -/
def fileValues (p : LineProfiler File) (file : File) : FileStore :=
  (p.values.lookup file).getD .new

/-- The body the two `onLineProfileEvent` share: `values` are the event's samples of the
    profiler's own kind. -/
def onSamples (p : LineProfiler File) (event : LineProfile File)
    (values : List (Int × Int64)) (cumulateType : CumulateType) : LineProfiler File where
  values := Assoc.put p.values event.file
    ((p.fileValues event.file).update values event.frame event.frameLine cumulateType)

/-- `LineProfiler.clearLines`. -/
def clearLines (p : LineProfiler File) (file : File) (start stop : Int) :
    LineProfiler File :=
  match p.values.lookup file with
  | none => p
  | some fileValues => ⟨Assoc.put p.values file (fileValues.clearRange start stop)⟩

end LineProfiler

/-- `TimeProfiler.onLineProfileEvent`. -/
def TimeProfiler.onLineProfileEvent (p : LineProfiler File) (event : LineProfile File)
    (cumulateType : CumulateType) : LineProfiler File :=
  p.onSamples event event.timeValues cumulateType

/-- `MemoryProfiler.onLineProfileEvent`. -/
def MemoryProfiler.onLineProfileEvent (p : LineProfiler File) (event : LineProfile File)
    (cumulateType : CumulateType) : LineProfiler File :=
  p.onSamples event event.memoryValues cumulateType

/-- The profilers of a handler that keep values, and the cumulate type selected in its
    quick config. -/
structure Profilers (File : Type) where
  timeProfiler : LineProfiler File
  memoryProfiler : LineProfiler File
  cumulateType : CumulateType

/-- The profilers of a new handler. -/
def Profilers.new (cumulateType : CumulateType) : Profilers File :=
  ⟨.new, .new, cumulateType⟩

/-- `LineProfile.handle`, the part on the profilers' values. -/
def LineProfile.handle (event : LineProfile File) (s : Profilers File) : Profilers File :=
  { s with
    timeProfiler := TimeProfiler.onLineProfileEvent s.timeProfiler event s.cumulateType
    memoryProfiler := MemoryProfiler.onLineProfileEvent s.memoryProfiler event
      s.cumulateType }

/-- `LineProfileClear.handle`.  Only the time profiler clears its lines. -/
def LineProfileClear.handle (event : LineProfileClear File) (s : Profilers File) :
    Profilers File :=
  { s with
    timeProfiler := event.ranges.foldl (fun p r => p.clearLines event.file r.1 r.2)
      s.timeProfiler }

/-- The events of the line profilers. -/
inductive ProfileEvent (File : Type) where
  | lineProfile (event : LineProfile File)
  | lineProfileClear (event : LineProfileClear File)

/-- One event. -/
def Profilers.handle (s : Profilers File) : ProfileEvent File → Profilers File
  | .lineProfile event => event.handle s
  | .lineProfileClear event => event.handle s

/-- The profilers of a new handler after the given events. -/
def Profilers.after (cumulateType : CumulateType) (events : List (ProfileEvent File)) :
    Profilers File := events.foldl Profilers.handle (.new cumulateType)

/-! ### What one event does to one line -/

/-- The five values of a line of a file. -/
def LineProfiler.line (p : LineProfiler File) (file : File) (l : Int) : LineValues :=
  (p.fileValues file).line l

/-- The line has a value of some type. -/
def LineProfiler.HasValue (p : LineProfiler File) (file : File) (l : Int) : Prop :=
  ∃ c, ((p.line file l).get c).isSome

theorem LineProfiler.line_onSamples (p : LineProfiler File) (event : LineProfile File)
    (values : List (Int × Int64)) (cumulateType : CumulateType) (file : File) (l : Int) :
    (p.onSamples event values cumulateType).line file l =
      if event.file = file then (samplesOf l values).foldl LineValues.record (p.line file l)
      else p.line file l := by
  unfold LineProfiler.line LineProfiler.fileValues LineProfiler.onSamples
  rw [Assoc.lookup_put]
  by_cases h : event.file = file
  · subst h
    rw [if_pos rfl, if_pos rfl, Option.getD_some]
    exact line_update _ values event.frame event.frameLine cumulateType l
  · rw [if_neg (Ne.symm h), if_neg h]

theorem LineProfiler.line_clearLines (p : LineProfiler File) (f file : File)
    (start stop l : Int) :
    (p.clearLines f start stop).line file l =
      if f = file ∧ start ≤ l ∧ l ≤ stop then .empty else p.line file l := by
  unfold LineProfiler.clearLines
  cases hf : p.values.lookup f with
  | none =>
    -- a file without values has an empty line anyway
    by_cases h : f = file
    · subst h
      have hempty : p.line f l = .empty := by
        rw [LineProfiler.line, LineProfiler.fileValues, hf]
        rfl
      simp [hempty]
    · simp [h]
  | some fileValues =>
    unfold LineProfiler.line LineProfiler.fileValues
    rw [Assoc.lookup_put]
    by_cases h : f = file
    · subst h
      rw [if_pos rfl, hf, Option.getD_some, Option.getD_some]
      simp only [true_and]
      exact line_clearRange fileValues.toFileValues start stop l
    · simp [h, Ne.symm h]

/-- Clearing a list of ranges empties the lines that one of them covers. -/
theorem LineProfiler.line_foldl_clearLines (ranges : List (Int × Int)) (p : LineProfiler File)
    (f file : File) (l : Int) :
    (ranges.foldl (fun p r => p.clearLines f r.1 r.2) p).line file l =
      if f = file ∧ ∃ r ∈ ranges, r.1 ≤ l ∧ l ≤ r.2 then .empty else p.line file l := by
  induction ranges generalizing p with
  | nil => simp
  | cons r rest ih =>
    simp only [List.foldl_cons, ih, LineProfiler.line_clearLines, List.exists_mem_cons_iff]
    by_cases hf : f = file <;> by_cases hr : r.1 ≤ l ∧ l ≤ r.2 <;> simp only [hf, hr,
      true_and, false_and, true_or, false_or, if_true, if_false, ite_self]

/-! ### Which lines have values -/

/-- The event is a `LineProfile` that carries a non-zero sample for the line; `samples`
    selects the kind of sample. -/
def Carries (samples : LineProfile File → List (Int × Int64)) (file : File) (l : Int) :
    ProfileEvent File → Prop
  | .lineProfile event => event.file = file ∧ samplesOf l (samples event) ≠ []
  | .lineProfileClear _ => False

/-- The event is a `LineProfileClear` with a range that covers the line. -/
def Covers (file : File) (l : Int) : ProfileEvent File → Prop
  | .lineProfile _ => False
  | .lineProfileClear event => event.file = file ∧ ∃ r ∈ event.ranges, r.1 ≤ l ∧ l ≤ r.2

/-- Some event carried a non-zero sample for the line, and no clear covered it since. -/
def CarriedSinceClear (samples : LineProfile File → List (Int × Int64)) (file : File)
    (l : Int) (events : List (ProfileEvent File)) : Prop :=
  Since (fun e => ¬ Covers file l e) (fun _ e => Carries samples file l e) events

omit [DecidableEq File] in
@[simp] theorem carries_lineProfile {samples : LineProfile File → List (Int × Int64)}
    {file : File} {l : Int} {event : LineProfile File} :
    Carries samples file l (.lineProfile event) ↔
      event.file = file ∧ samplesOf l (samples event) ≠ [] := Iff.rfl

omit [DecidableEq File] in
@[simp] theorem not_carries_lineProfileClear
    {samples : LineProfile File → List (Int × Int64)} {file : File} {l : Int}
    {event : LineProfileClear File} : ¬ Carries samples file l (.lineProfileClear event) :=
  id

omit [DecidableEq File] in
@[simp] theorem not_covers_lineProfile {file : File} {l : Int} {event : LineProfile File} :
    ¬ Covers file l (.lineProfile event) := id

omit [DecidableEq File] in
theorem carriedSinceClear_append (samples : LineProfile File → List (Int × Int64))
    (file : File) (l : Int) (events : List (ProfileEvent File)) (e : ProfileEvent File) :
    CarriedSinceClear samples file l (events ++ [e]) ↔
      Carries samples file l e ∨ CarriedSinceClear samples file l events ∧ ¬ Covers file l e :=
  since_append_singleton events e

theorem foldl_record_lineOf (xs ys : List Int64) :
    ys.foldl LineValues.record (lineOf xs) = lineOf (xs ++ ys) := by
  rw [lineOf, lineOf, List.foldl_append]

/-- A line is the fold of its samples, and it has a value when it has samples. -/
theorem hasValue_iff {p : LineProfiler File} {file : File} {l : Int} {xs : List Int64}
    (h : p.line file l = lineOf xs) : p.HasValue file l ↔ xs ≠ [] := by
  rw [LineProfiler.HasValue, h]
  constructor
  · rintro ⟨c, hc⟩ rfl
    cases c <;> exact absurd hc (by simp [lineOf, LineValues.empty, LineValues.get])
  · exact fun hne => ⟨.LAST, (get_isSome xs .LAST (by simp) (by simp)).mpr hne⟩

theorem after_append_singleton (cumulateType : CumulateType)
    (events : List (ProfileEvent File)) (e : ProfileEvent File) :
    Profilers.after cumulateType (events ++ [e]) =
      (Profilers.after cumulateType events).handle e := by
  simp [Profilers.after]

/-- **Run lemma** of the time profiler: a line folds samples, and it has some exactly when
    an event carried one since the last clear that covered the line. -/
theorem timeLine_run (cumulateType : CumulateType) (events : List (ProfileEvent File))
    (file : File) (l : Int) :
    ∃ xs, (Profilers.after cumulateType events).timeProfiler.line file l = lineOf xs ∧
      (xs ≠ [] ↔ CarriedSinceClear LineProfile.timeValues file l events) := by
  induction events using List.reverseRecOn with
  | nil => exact ⟨[], rfl, by simp [CarriedSinceClear]⟩
  | append_singleton events e ih =>
    obtain ⟨xs, hline, hxs⟩ := ih
    rw [after_append_singleton, carriedSinceClear_append]
    cases e with
    | lineProfile event =>
      simp only [Profilers.handle, LineProfile.handle, TimeProfiler.onLineProfileEvent,
        LineProfiler.line_onSamples, hline, carries_lineProfile, not_covers_lineProfile,
        not_false_eq_true, and_true, ← hxs]
      by_cases hfile : event.file = file
      · refine ⟨xs ++ samplesOf l event.timeValues, ?_, ?_⟩
        · rw [if_pos hfile, foldl_record_lineOf]
        · rw [or_comm]
          simp only [hfile, true_and, ne_eq, List.append_eq_nil_iff, not_and_or]
      · exact ⟨xs, if_neg hfile, by simp only [hfile, false_and, false_or]⟩
    | lineProfileClear event =>
      simp only [Profilers.handle, LineProfileClear.handle,
        LineProfiler.line_foldl_clearLines, hline, not_carries_lineProfileClear, false_or,
        ← hxs]
      by_cases hcover : Covers file l (.lineProfileClear event)
      · exact ⟨[], if_pos hcover, by simp [hcover]⟩
      · exact ⟨xs, if_neg hcover, by simp only [hcover, not_false_eq_true, and_true]⟩

/-- **Run lemma** of the memory profiler: a line has samples as soon as an event carried
    one, whatever was cleared. -/
theorem memoryLine_run (cumulateType : CumulateType) (events : List (ProfileEvent File))
    (file : File) (l : Int) :
    ∃ xs, (Profilers.after cumulateType events).memoryProfiler.line file l = lineOf xs ∧
      (xs ≠ [] ↔ ∃ e ∈ events, Carries LineProfile.memoryValues file l e) := by
  induction events using List.reverseRecOn with
  | nil => exact ⟨[], rfl, by simp⟩
  | append_singleton events e ih =>
    obtain ⟨xs, hline, hxs⟩ := ih
    simp only [after_append_singleton, List.mem_append, List.mem_singleton, or_and_right,
      exists_or, exists_eq_left, ← hxs]
    cases e with
    | lineProfile event =>
      simp only [Profilers.handle, LineProfile.handle, MemoryProfiler.onLineProfileEvent,
        LineProfiler.line_onSamples, hline, carries_lineProfile]
      by_cases hfile : event.file = file
      · refine ⟨xs ++ samplesOf l event.memoryValues, ?_, ?_⟩
        · rw [if_pos hfile, foldl_record_lineOf]
        · simp only [hfile, true_and, ne_eq, List.append_eq_nil_iff, not_and_or]
      · exact ⟨xs, if_neg hfile, by simp only [hfile, false_and, or_false]⟩
    | lineProfileClear event =>
      exact ⟨xs, hline, by simp only [not_carries_lineProfileClear, or_false]⟩

/-- Which lines have values in the time profiler. -/
theorem hasValue_time (cumulateType : CumulateType) (events : List (ProfileEvent File))
    (file : File) (l : Int) :
    (Profilers.after cumulateType events).timeProfiler.HasValue file l ↔
      CarriedSinceClear LineProfile.timeValues file l events := by
  obtain ⟨xs, hline, hxs⟩ := timeLine_run cumulateType events file l
  rw [hasValue_iff hline, hxs]

/-- Which lines have values in the memory profiler. -/
theorem hasValue_memory (cumulateType : CumulateType) (events : List (ProfileEvent File))
    (file : File) (l : Int) :
    (Profilers.after cumulateType events).memoryProfiler.HasValue file l ↔
      ∃ e ∈ events, Carries LineProfile.memoryValues file l e := by
  obtain ⟨xs, hline, hxs⟩ := memoryLine_run cumulateType events file l
  rw [hasValue_iff hline, hxs]

/-! ### The clears -/

/-- A line has a value only if an event carried a sample of the profiler's kind for it
    since the last clear that covered it. -/
def ClearLaw (samples : LineProfile File → List (Int × Int64))
    (events : List (ProfileEvent File)) (p : LineProfiler File) : Prop :=
  ∀ file l, p.HasValue file l → CarriedSinceClear samples file l events

/-- **Clears.** They have reached both profilers exactly when every line that ever had a
    memory sample has had one since the last clear that covered it. -/
theorem clearLaw_iff (cumulateType : CumulateType) (events : List (ProfileEvent File)) :
    ClearLaw LineProfile.timeValues events
        (Profilers.after cumulateType events).timeProfiler ∧
      ClearLaw LineProfile.memoryValues events
        (Profilers.after cumulateType events).memoryProfiler ↔
      ∀ file l, (∃ e ∈ events, Carries LineProfile.memoryValues file l e) →
        CarriedSinceClear LineProfile.memoryValues file l events := by
  simp only [ClearLaw, hasValue_time, hasValue_memory]
  exact and_iff_right fun _ _ h => h

/-- **Counterexample.** A memory sample for line 1 and a clear of lines 1 to 2: line 1
    keeps its memory value. -/
theorem memory_sample_outlives_clear :
    ¬ ∀ (cumulateType : CumulateType) (events : List (ProfileEvent String)),
      ClearLaw LineProfile.timeValues events
          (Profilers.after cumulateType events).timeProfiler ∧
        ClearLaw LineProfile.memoryValues events
          (Profilers.after cumulateType events).memoryProfiler := by
  intro h
  let sample : ProfileEvent String :=
    .lineProfile ⟨"main.py", false, [(1, 64)], [], 1, none, 1⟩
  let clear : ProfileEvent String := .lineProfileClear ⟨"main.py", [(1, 2)]⟩
  have hvalue : (Profilers.after .ADD [sample, clear]).memoryProfiler.HasValue "main.py" 1 :=
    (hasValue_memory .ADD [sample, clear] "main.py" 1).mpr ⟨sample, by simp, rfl, by decide⟩
  have hsince := (h .ADD [sample, clear]).2 "main.py" 1 hvalue
  -- the last event covers the line
  rcases (since_append_singleton [sample] clear).mp hsince with hcarries | ⟨_, hkeeps⟩
  · exact hcarries
  · exact hkeeps ⟨rfl, (1, 2), by simp, by decide, by decide⟩

end Reloadium.Profile
