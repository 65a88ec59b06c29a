import Reloadium.Highlights.Highlighter
import Reloadium.Lib.Refs

namespace Reloadium.Debugger

open Reloadium.Lib Reloadium.Highlights

/-!
# Debugger — the traced functions

Model of `rw.debugger.FastDebug`.  All of its work is done in tasks of the UI thread: a
`FunctionTraced` event adds and shows a highlighter for the function it names, and
`activate` and `deactivate` show and hide all of them.
-/

/-- `FunctionTraced`. -/
structure FunctionTraced where
  file : String
  name : String
  line : Int
  deriving DecidableEq, Repr

/-- What `FastDebug` and its events post. -/
inductive FastDebugTask where
  | onFunctionTracedEvent (event : FunctionTraced)
  | activate
  | deactivate
  deriving DecidableEq, Repr

/-- `FastDebug`: its highlighters, with their devices. -/
abbrev FastDebug := List (Highlighter × Bool)

namespace FastDebug

/-- The lines of a function, if the event lies in it; lines are counted from one. -/
def linesAround (event : FunctionTraced) (e : PyFunction) : Option (Int × Int) :=
  if e.name = event.name then
    match e.identifier with
    | none => none
    | some identifier =>
      let startLine := identifier + 1
      let endLine := e.endLine + 1
      if startLine ≤ event.line ∧ event.line ≤ endLine then some (startLine, endLine) else none
  else none

/-- The highlighter for the function that an event is about, if there is one. -/
def traced (ide : EditorState) (event : FunctionTraced) : Option Highlighter :=
  ((ide.functions event.file).findSome? (linesAround event)).map fun lines =>
    ⟨event.file, lines.1, lines.2⟩

/-- `onFunctionTracedEvent`. -/
def onFunctionTracedEvent (ide : EditorState) (highlighters : FastDebug) (event : FunctionTraced) :
    FastDebug :=
  match traced ide event with
  | none => highlighters
  | some h => highlighters ++ [(h, h.show ide false)]

/-- One task. -/
def exec (ide : EditorState) (highlighters : FastDebug) : FastDebugTask → FastDebug
  | .onFunctionTracedEvent event => onFunctionTracedEvent ide highlighters event
  | .activate => highlighters.map fun e => (e.1, e.1.show ide e.2)
  | .deactivate => highlighters.map fun e => (e.1, Highlighter.hide e.2)

/-- Whether a highlighter is visible, by its place in the list. -/
def visible (highlighters : FastDebug) (i : Nat) : Bool :=
  (highlighters[i]?.map Prod.snd).getD false

/-- The visible highlighters fit their documents. -/
def Kept (ide : EditorState) (highlighters : FastDebug) : Prop :=
  ∀ e ∈ highlighters, e.2 = true → e.1.fits ide = true

/-- The highlighters that fit their documents are visible. -/
def Shown (ide : EditorState) (highlighters : FastDebug) : Prop :=
  ∀ e ∈ highlighters, e.1.fits ide = true → e.2 = true

variable {ide : EditorState} {highlighters : FastDebug}

/-- The highlighters after an event: at most one new one. -/
theorem mem_onFunctionTracedEvent {event : FunctionTraced} {e : Highlighter × Bool} :
    e ∈ onFunctionTracedEvent ide highlighters event ↔
      e ∈ highlighters ∨ ∃ h, traced ide event = some h ∧ e = (h, h.fits ide) := by
  unfold onFunctionTracedEvent
  cases traced ide event with
  | none => simp
  | some h => simp [Highlighter.show_eq]

theorem visible_onFunctionTracedEvent (highlighters : FastDebug) (event : FunctionTraced)
    (i : Nat) :
    visible (onFunctionTracedEvent ide highlighters event) i =
      (visible highlighters i ||
        (decide (i = highlighters.length) && (traced ide event).any (·.fits ide))) := by
  unfold onFunctionTracedEvent visible
  cases traced ide event with
  | none => simp
  | some h =>
    simp only [getElem?_concat, Option.any_some]
    split
    · next hi => simp [hi, Highlighter.show_eq]
    · next hi => simp [hi]

/-- `deactivate` hides all of them. -/
theorem visible_deactivate (ide : EditorState) (highlighters : FastDebug) (i : Nat) :
    visible (exec ide highlighters .deactivate) i = false := by
  unfold exec visible
  cases hi : highlighters[i]? <;> simp [hi, Highlighter.hide]

/-- **Step lemma.** -/
theorem Kept.exec (h : Kept ide highlighters) (t : FastDebugTask) :
    Kept ide (exec ide highlighters t) := by
  intro e he hvis
  cases t with
  | onFunctionTracedEvent event =>
    rcases mem_onFunctionTracedEvent.mp he with he | ⟨hl, _, rfl⟩
    · exact h e he hvis
    · exact hvis
  | activate =>
    obtain ⟨e', he', rfl⟩ := List.mem_map.mp he
    rw [Highlighter.show_eq, Bool.or_eq_true] at hvis
    rcases hvis with hvis | hfits
    · exact h e' he' hvis
    · exact hfits
  | deactivate =>
    obtain ⟨e', _, rfl⟩ := List.mem_map.mp he
    cases hvis

theorem shown_activate (highlighters : FastDebug) :
    Shown ide (exec ide highlighters .activate) := by
  intro e he hfits
  obtain ⟨e', _, rfl⟩ := List.mem_map.mp he
  rw [Highlighter.show_eq, Bool.or_eq_true]
  exact Or.inr hfits

/-- With all of them visible, a new one is too. -/
theorem Shown.onFunctionTracedEvent (h : Shown ide highlighters) (event : FunctionTraced) :
    Shown ide (FastDebug.onFunctionTracedEvent ide highlighters event) := by
  intro e he hfits
  rcases mem_onFunctionTracedEvent.mp he with he | ⟨hl, _, rfl⟩
  · exact h e he hfits
  · exact hfits

/-- **Switching off and on** shows the highlighters that were visible before. -/
theorem visible_reactivate (hkept : Kept ide highlighters) (hshown : Shown ide highlighters)
    (i : Nat) :
    visible (exec ide (exec ide highlighters .deactivate) .activate) i =
      visible highlighters i := by
  unfold exec visible
  cases hi : highlighters[i]? with
  | none => simp [hi]
  | some e =>
    have hmem := List.mem_of_getElem? hi
    simp only [List.getElem?_map, hi, Option.map_some, Option.getD_some, Highlighter.show_eq,
      Highlighter.hide, Bool.false_or]
    rw [Bool.eq_iff_iff]
    exact ⟨hshown e hmem, hkept e hmem⟩

end FastDebug

end Reloadium.Debugger
