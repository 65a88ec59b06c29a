import Reloadium.Highlights.Highlighter
import Reloadium.Lib.Refs
import Reloadium.Lib.Deferred

namespace Reloadium.Highlights

open Reloadium.Lib

/-!
# Highlights — the error highlights of the files

Model of `rw.highlights.ErrorHighlightManager`.  Apart from `clearAll`, which the handler
never calls, the manager works in tasks for the UI thread only: `highlighters` lists every
highlighter ever created with its marks, and `all` binds a file to the numbers of its own.

A visible highlighter is one of `all`, whatever tasks have run (`Owned.exec`), so that
`deactivate` hides every one of them (`not_visible_deactivate`).
-/

/-- `ErrorHighlightManager`, and the highlighters created so far. -/
structure ErrorHighlightManager where
  highlighters : List (ErrorHighlighter × Marks)
  all : AList fun _ : String => List Nat

/-- What the manager posts. -/
inductive ErrorTask where
  | add (file : String) (line : Int) (msg : String)
  | clearFile (file : String)
  | activate
  | deactivate
  deriving DecidableEq, Repr

namespace ErrorHighlightManager

/-- The manager its constructor builds. -/
def new : ErrorHighlightManager := ⟨[], ∅⟩

/-- The numbers of the highlighters of all files. -/
def refs (m : ErrorHighlightManager) : List Nat := (valuesOf m.all).flatten

/-- `ErrorHighlighter.hide` on a highlighter with its marks. -/
def hide (e : ErrorHighlighter × Marks) : ErrorHighlighter × Marks :=
  (e.1, ErrorHighlighter.hide e.2)

/-- `ErrorHighlighter.show` on a highlighter with its marks. -/
def «show» (ide : EditorState) (e : ErrorHighlighter × Marks) : ErrorHighlighter × Marks :=
  (e.1, e.1.show ide e.2)

/-- The loop that shows highlighters. -/
def showAll (ide : EditorState) :
    List Nat → List (ErrorHighlighter × Marks) → List (ErrorHighlighter × Marks)
  | [], highlighters => highlighters
  | ref :: rest, highlighters =>
    let shown := highlighters.modify ref («show» ide)
    -- a line outside its document throws, and that ends the loop
    if highlighters[ref]?.all fun e => ide.hasOffsets e.1.file (e.1.line - 1) then
      showAll ide rest shown
    else shown

/-- The task of `add`. -/
def add (ide : EditorState) (m : ErrorHighlightManager) (file : String) (line : Int)
    (msg : String) : ErrorHighlightManager :=
  let all := withKey m.all file
  if line < 0 then { m with all }
  else
    let highlighter : ErrorHighlighter := ⟨file, line, msg⟩
    { highlighters := m.highlighters ++ [(highlighter, highlighter.show ide .new)]
      all := all.insert file (listAt all file ++ [m.highlighters.length]) }

/-- The task of `clearFile`. -/
def clearFile (m : ErrorHighlightManager) (file : String) : ErrorHighlightManager :=
  match m.all.lookup file with
  | none => m
  | some highlighters =>
    { highlighters := modifyAll hide highlighters m.highlighters
      all := m.all.insert file [] }

/-- The task of `activate`. -/
def activate (ide : EditorState) (m : ErrorHighlightManager) : ErrorHighlightManager :=
  { m with highlighters := showAll ide m.refs m.highlighters }

/-- The task of `deactivate`. -/
def deactivate (m : ErrorHighlightManager) : ErrorHighlightManager :=
  { m with highlighters := modifyAll hide m.refs m.highlighters }

/-- One task. -/
def exec (ide : EditorState) (m : ErrorHighlightManager) : ErrorTask → ErrorHighlightManager
  | .add file line msg => m.add ide file line msg
  | .clearFile file => m.clearFile file
  | .activate => m.activate ide
  | .deactivate => m.deactivate

/-- Whether a highlighter is visible, by its number. -/
def visible (m : ErrorHighlightManager) (ref : Nat) : Bool :=
  (m.highlighters[ref]?.map fun e => e.2.visible).getD false

/-- Every visible highlighter is one of `all`. -/
def Owned (m : ErrorHighlightManager) : Prop := ∀ ref, m.visible ref = true → ref ∈ m.refs

variable {ide : EditorState} {m : ErrorHighlightManager} {ref : Nat} {file : String}

/-! ### The lists of the files -/

theorem mem_refs : ref ∈ m.refs ↔ ∃ file, ref ∈ listAt m.all file := mem_flatten_valuesOf

theorem listAt_add (m : ErrorHighlightManager) (file : String) (line : Int) (msg : String)
    (f : String) :
    listAt (m.add ide file line msg).all f =
      if 0 ≤ line ∧ f = file then listAt m.all f ++ [m.highlighters.length]
      else listAt m.all f := by
  unfold add
  by_cases hline : line < 0
  · have hnot : ¬ 0 ≤ line := by omega
    simp [hline, hnot, listAt_withKey]
  · have hline' : 0 ≤ line := by omega
    simp only [if_neg hline, hline', true_and, listAt_insert, listAt_withKey]
    split
    · next h => rw [h]
    · rfl

theorem listAt_clearFile (m : ErrorHighlightManager) (file f : String) :
    listAt (m.clearFile file).all f = if f = file then [] else listAt m.all f := by
  unfold clearFile
  cases hfile : m.all.lookup file with
  | none =>
    show listAt m.all f = _
    by_cases h : f = file
    · rw [if_pos h, listAt, h, hfile, Option.getD_none]
    · rw [if_neg h]
  | some refs => exact listAt_insert m.all file f []

/-! ### What a task does to what is visible -/

/-- Hiding a list of highlighters. -/
theorem getD_visible_modifyAll_hide (refs : List Nat)
    (highlighters : List (ErrorHighlighter × Marks)) (ref : Nat) :
    ((modifyAll hide refs highlighters)[ref]?.map fun e => e.2.visible).getD false =
      if ref ∈ refs then false else (highlighters[ref]?.map fun e => e.2.visible).getD false := by
  rw [@map_getElem?_modifyAll _ _ hide (fun e => e.2.visible) (fun _ => false)
    (fun e => ErrorHighlighter.visible_hide e.2) (fun _ => rfl)]
  cases highlighters[ref]? <;> simp

theorem visible_deactivate (m : ErrorHighlightManager) (ref : Nat) :
    m.deactivate.visible ref = if ref ∈ m.refs then false else m.visible ref :=
  getD_visible_modifyAll_hide m.refs m.highlighters ref

theorem visible_clearFile (m : ErrorHighlightManager) (file : String) (ref : Nat) :
    (m.clearFile file).visible ref = if ref ∈ listAt m.all file then false else m.visible ref := by
  unfold clearFile listAt
  cases m.all.lookup file with
  | none => simp
  | some refs => exact getD_visible_modifyAll_hide refs m.highlighters ref

/-- `add` shows the one highlighter that it creates. -/
theorem visible_add (m : ErrorHighlightManager) (file : String) (line : Int) (msg : String)
    (ref : Nat) :
    (m.add ide file line msg).visible ref =
      if 0 ≤ line ∧ ref = m.highlighters.length then
        (⟨file, line, msg⟩ : ErrorHighlighter).placeable ide
      else m.visible ref := by
  unfold add visible
  by_cases hline : line < 0
  · have hnot : ¬ 0 ≤ line := by omega
    simp [hline, hnot]
  · have hline' : 0 ≤ line := by omega
    simp only [if_neg hline, hline', true_and, getElem?_concat]
    split
    · simp [ErrorHighlighter.visible_show]
    · rfl

/-- The loop of `activate` creates no highlighter and shows those of its list only. -/
theorem visible_showAll (refs : List Nat) (highlighters : List (ErrorHighlighter × Marks))
    (ref : Nat)
    (h : ((showAll ide refs highlighters)[ref]?.map fun e => e.2.visible).getD false = true) :
    ref ∈ refs ∨ (highlighters[ref]?.map fun e => e.2.visible).getD false = true := by
  induction refs generalizing highlighters with
  | nil => exact Or.inr h
  | cons r rest ih =>
    -- what the first round leaves
    have hfirst : ∀ hs : List (ErrorHighlighter × Marks),
        ((hs.modify r («show» ide))[ref]?.map fun e => e.2.visible).getD false = true →
          ref ∈ r :: rest ∨ (hs[ref]?.map fun e => e.2.visible).getD false = true := by
      intro hs hvis
      by_cases hr : r = ref
      · exact Or.inl (hr ▸ List.mem_cons_self)
      · rw [List.getElem?_modify_ne _ _ hr] at hvis
        exact Or.inr hvis
    rw [showAll] at h
    split at h
    · rcases ih _ h with hmem | hvis
      · exact Or.inl (List.mem_cons_of_mem r hmem)
      · exact hfirst highlighters hvis
    · exact hfirst highlighters h

/-! ### The owner of a visible highlighter -/

theorem owned_new : new.Owned := fun ref h => by simp [new, visible] at h

/-- **Step lemma.** Every task keeps the visible highlighters in `all`. -/
theorem Owned.exec (h : m.Owned) (ide : EditorState) (t : ErrorTask) : (m.exec ide t).Owned := by
  intro ref hvis
  rw [mem_refs]
  cases t with
  | add file line msg =>
    simp only [ErrorHighlightManager.exec, visible_add] at hvis
    simp only [ErrorHighlightManager.exec, listAt_add]
    by_cases hnew : 0 ≤ line ∧ ref = m.highlighters.length
    · refine ⟨file, ?_⟩
      rw [if_pos ⟨hnew.1, rfl⟩, hnew.2]
      exact List.mem_append_right _ List.mem_cons_self
    · rw [if_neg hnew] at hvis
      obtain ⟨f, hmem⟩ := mem_refs.mp (h ref hvis)
      refine ⟨f, ?_⟩
      split
      · exact List.mem_append_left _ hmem
      · exact hmem
  | clearFile file =>
    simp only [ErrorHighlightManager.exec, visible_clearFile] at hvis
    simp only [ErrorHighlightManager.exec, listAt_clearFile]
    split at hvis
    · cases hvis
    · next hnot =>
      obtain ⟨f, hmem⟩ := mem_refs.mp (h ref hvis)
      have hf : f ≠ file := fun hf => hnot (hf ▸ hmem)
      exact ⟨f, by rwa [if_neg hf]⟩
  | activate =>
    refine mem_refs.mp ?_
    rcases visible_showAll m.refs m.highlighters ref hvis with hmem | hvis
    · exact hmem
    · exact h ref hvis
  | deactivate =>
    simp only [ErrorHighlightManager.exec, visible_deactivate] at hvis
    refine mem_refs.mp ?_
    split at hvis
    · cases hvis
    · exact h ref hvis

/-- `deactivate` hides every highlighter. -/
theorem not_visible_deactivate (h : m.Owned) (ref : Nat) : m.deactivate.visible ref = false := by
  rw [visible_deactivate]
  split
  · rfl
  · next hnot =>
    rw [← Bool.not_eq_true]
    exact fun hvis => hnot (h ref hvis)

end ErrorHighlightManager

end Reloadium.Highlights
