import Reloadium.Lib.JString
import Reloadium.Lib.Lines

namespace Reloadium.Editor

open Reloadium.Lib

/-!
# Editor — documents and folded regions

What the plugin uses of an editor of the IDE: the text of its document with the numbers and
the offsets of its lines, the two edits of the document, and the regions that can be folded.
Lines are counted from zero.  An operation that the IDE refuses with an exception is `none`.
-/

/-- A line separator; the text of a document has no other. -/
def newline : UInt16 := 10

/-- `Document`, by its text. -/
abbrev Document := JString

namespace Document

/-- `getTextLength`. -/
def getTextLength (document : Document) : Nat := document.length

/-- `getLineNumber`. -/
def getLineNumber (document : Document) (offset : Nat) : Option Nat :=
  if offset ≤ document.getTextLength then some (Lines.number newline document offset) else none

/-- `getLineStartOffset`. -/
def getLineStartOffset (document : Document) (line : Nat) : Option Nat :=
  Lines.start newline document line

/-- `getLineEndOffset`, without the separator of the line. -/
def getLineEndOffset (document : Document) (line : Nat) : Option Nat :=
  Lines.stop newline document line

/-- `deleteString`. -/
def deleteString (document : Document) (startOffset endOffset : Nat) : Option Document :=
  if startOffset ≤ endOffset ∧ endOffset ≤ document.getTextLength then
    some (document.take startOffset ++ document.drop endOffset)
  else none

/-- `insertString`; a carriage return in the new text is refused. -/
def insertString (document : Document) (offset : Nat) (s : JString) : Option Document :=
  if offset ≤ document.getTextLength ∧ 13 ∉ s then
    some (document.take offset ++ s ++ document.drop offset)
  else none

/-- `Editor.logicalPositionToOffset` for the first column of a line: the end of the text if the
    line is below it.  A negative line is no position. -/
def logicalPositionToOffset (document : Document) (line : Int) : Option Nat :=
  if line < 0 then none
  else some ((document.getLineStartOffset line.toNat).getD document.getTextLength)

end Document

/-- `FoldRegion`. -/
structure FoldRegion where
  startOffset : Nat
  endOffset : Nat
  isExpanded : Bool
  deriving DecidableEq, Repr

/-- The text of an editor and `FoldingModel.getAllFoldRegions`, which lie inside the text. -/
structure FoldedText where
  document : Document
  foldRegions : List FoldRegion
  inside : ∀ region ∈ foldRegions, region.startOffset ≤ region.endOffset ∧
    region.endOffset ≤ document.getTextLength

end Reloadium.Editor
