import Reloadium.Editor.Document

namespace Reloadium.Highlights

open Reloadium.Lib Reloadium.Editor

/-!
# Highlights — using a suggestion

Model of the click on a suggested fix: where `SolutionHighlighter.show` puts the inlay of the
suggestion, and what the gutter icon of `SolutionRenderer` then does to the document.

The click deletes the line of the inlay up to one character past its end, so the separator of
the line is lost with it, and a last line cannot be deleted at all (`handleMouseClick_eq`).
Hence the text of the error line is never what is replaced (`useSuggestion_ne`).
-/

/-- The offset at which `SolutionHighlighter.show` adds its inlay; lines are counted from one.
    `InlayModel.addBlockElement` keeps it inside the text. -/
def solutionOffset (document : Document) (line : Int) : Option Nat :=
  (document.logicalPositionToOffset (line - 1)).map fun offset =>
    min (offset + 1) document.getTextLength

/-- `handleMouseClick` of the gutter icon; `line` is the visual line of the inlay. -/
def handleMouseClick (document : Document) (line : Nat) (solutionSuggestion : JString) :
    Option Document := do
  let start ← document.getLineStartOffset line
  let stop ← document.getLineEndOffset line
  let deleted ← document.deleteString start (stop + 1)
  deleted.insertString start solutionSuggestion

/-- The click on the inlay of a suggestion for an error line.  `offsetToVisualLine` is that of
    the editor, where folded regions and soft wraps are taken into account. -/
def useSuggestion (offsetToVisualLine : Nat → Nat) (document : Document) (line : Int)
    (solutionSuggestion : JString) : Option Document := do
  let offset ← solutionOffset document line
  handleMouseClick document (offsetToVisualLine offset) solutionSuggestion

/-- What the click is for: the text of a line is replaced, and nothing else. -/
def replaceLine (document : Document) (line : Nat) (solutionSuggestion : JString) :
    Option Document := do
  let start ← document.getLineStartOffset line
  let stop ← document.getLineEndOffset line
  some (document.take start ++ solutionSuggestion ++ document.drop stop)

variable {document text : Document} {line : Nat} {solutionSuggestion : JString}

/-- Replacing a line, by the cut at its ends. -/
theorem replaceLine_eq {c : Lines.Cut UInt16}
    (h : Lines.cut newline document line = some c) :
    replaceLine document line solutionSuggestion =
      some (c.before ++ solutionSuggestion ++ c.after) := by
  obtain ⟨htake, hdrop⟩ := (Lines.isCut_of_cut h).take_drop
  simp only [replaceLine, Document.getLineStartOffset, Document.getLineEndOffset, Lines.start,
    Lines.stop, h, Option.map_some, Option.bind_eq_bind, Option.bind_some, htake, hdrop]

/-- The click on a line: its separator goes with it, and without one there is no result. -/
theorem handleMouseClick_eq {c : Lines.Cut UInt16}
    (h : Lines.cut newline document line = some c) :
    handleMouseClick document line solutionSuggestion =
      match c.after with
      | [] => none
      | _ :: rest =>
        if 13 ∈ solutionSuggestion then none
        else some (c.before ++ solutionSuggestion ++ rest) := by
  have hcut := Lines.isCut_of_cut h
  obtain ⟨htake, hdrop⟩ := hcut.take_drop
  have hlength : document.getTextLength =
      c.before.length + c.line.length + c.after.length := by
    rw [Document.getTextLength, ← hcut.append, List.length_append, List.length_append]
  simp only [handleMouseClick, Document.getLineStartOffset, Document.getLineEndOffset,
    Lines.start, Lines.stop, h, Option.map_some, Option.bind_eq_bind, Option.bind_some,
    Document.deleteString]
  cases hafter : c.after with
  | nil =>
    rw [hafter, List.length_nil] at hlength
    rw [if_neg (by omega), Option.bind_none]
  | cons a rest =>
    rw [hafter] at hdrop
    rw [hafter, List.length_cons] at hlength
    have hrest : document.drop (c.before.length + c.line.length + 1) = rest := by
      rw [← List.drop_drop, hdrop, List.drop_one, List.tail_cons]
    rw [if_pos ⟨by omega, by omega⟩, Option.bind_some, htake, hrest, Document.insertString,
      List.take_left, List.drop_left]
    have hinside : c.before.length ≤ Document.getTextLength (c.before ++ rest) := by
      rw [Document.getTextLength, List.length_append]
      exact Nat.le_add_right _ _
    by_cases hreturn : 13 ∈ solutionSuggestion
    · rw [if_neg fun hand => hand.2 hreturn]
      exact (if_pos hreturn).symm
    · rw [if_pos ⟨hinside, hreturn⟩]
      exact (if_neg hreturn).symm

/-- So a suggestion that brings its own separator replaces the visual line of the inlay, unless
    that is the last one. -/
theorem handleMouseClick_append_newline {c : Lines.Cut UInt16}
    (h : Lines.cut newline document line = some c) (hlast : c.after ≠ [])
    (hreturn : 13 ∉ solutionSuggestion) :
    handleMouseClick document line (solutionSuggestion ++ [newline]) =
      replaceLine document line solutionSuggestion := by
  rw [handleMouseClick_eq h, replaceLine_eq h]
  cases hafter : c.after with
  | nil => exact absurd hafter hlast
  | cons a rest =>
    have hhead : a = newline := (Lines.isCut_of_cut h).head a (by rw [hafter]; rfl)
    have hreturn' : 13 ∉ solutionSuggestion ++ [newline] := by
      rw [List.mem_append, not_or]
      exact ⟨hreturn, by decide⟩
    refine (if_neg hreturn').trans ?_
    rw [hhead, List.append_assoc, List.append_assoc, List.append_assoc, List.singleton_append]

/-- Replacing a line keeps all separators. -/
theorem count_replaceLine (h : replaceLine document line solutionSuggestion = some text) :
    text.count newline = document.count newline + solutionSuggestion.count newline := by
  cases hcut : Lines.cut newline document line with
  | none =>
    simp [replaceLine, Document.getLineStartOffset, Lines.start, hcut] at h
  | some c =>
    rw [replaceLine_eq hcut] at h
    cases h
    rw [List.count_append, List.count_append, (Lines.isCut_of_cut hcut).count_eq]
    omega

/-- The click loses one. -/
theorem count_handleMouseClick
    (h : handleMouseClick document line solutionSuggestion = some text) :
    text.count newline + 1 = document.count newline + solutionSuggestion.count newline := by
  cases hcut : Lines.cut newline document line with
  | none =>
    simp [handleMouseClick, Document.getLineStartOffset, Lines.start, hcut] at h
  | some c =>
    have hparts := Lines.isCut_of_cut hcut
    rw [handleMouseClick_eq hcut] at h
    split at h
    · cases h
    · next a rest hafter =>
      split at h
      · cases h
      · cases h
        -- the separator is the first unit after the line
        have hhead : a = newline := hparts.head a (by rw [hafter]; rfl)
        have hcount := hparts.count_eq
        rw [hafter, hhead, List.count_cons_self] at hcount
        rw [List.count_append, List.count_append]
        omega

/-- **A suggestion never replaces its line.** Whatever the document, the error line, what is
    folded and the suggestion, the click does not lead to the document in which the text of
    the error line is replaced and nothing else. -/
theorem useSuggestion_ne (offsetToVisualLine : Nat → Nat) (document : Document) (line : Int)
    (solutionSuggestion : JString) :
    ¬ ∃ text, replaceLine document (line - 1).toNat solutionSuggestion = some text ∧
      useSuggestion offsetToVisualLine document line solutionSuggestion = some text := by
  rintro ⟨text, hreplaced, hclick⟩
  obtain ⟨offset, -, hclick⟩ := Option.bind_eq_some_iff.mp hclick
  have hkept := count_replaceLine hreplaced
  have hlost := count_handleMouseClick hclick
  omega

/-- **Counterexample.** The first of two lines is to be replaced, with nothing folded: the
    second line is joined to the suggestion. -/
theorem suggestion_joins_lines :
    ¬ ∀ (offsetToVisualLine : Nat → Nat) (document : Document) (line : Int)
      (solutionSuggestion : JString), 1 ≤ line →
      (document.getLineStartOffset (line - 1).toNat).isSome →
      ∃ text, replaceLine document (line - 1).toNat solutionSuggestion = some text ∧
        useSuggestion offsetToVisualLine document line solutionSuggestion = some text := by
  intro h
  have htwo : ∃ text, replaceLine [97, 10, 98] 0 [120] = some text ∧
      useSuggestion (Lines.number newline [97, 10, 98]) [97, 10, 98] 1 [120] = some text :=
    h (Lines.number newline [97, 10, 98]) [97, 10, 98] 1 [120] (by decide) (by decide)
  have hreplaced : replaceLine [97, 10, 98] 0 [120] = some [120, 10, 98] := by decide
  have hclick : useSuggestion (Lines.number newline [97, 10, 98]) [97, 10, 98] 1 [120] =
      some [120, 98] := by decide
  obtain ⟨text, h₁, h₂⟩ := htwo
  rw [hreplaced] at h₁
  rw [hclick] at h₂
  cases h₁.trans h₂.symm

end Reloadium.Highlights
