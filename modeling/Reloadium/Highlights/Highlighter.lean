import Mathlib.Data.List.Basic

namespace Reloadium.Highlights

/-!
# Highlights — the highlighters

Model of `rw.highlights.Highlighter` and `rw.highlights.ErrorHighlighter`.  A highlighter
keeps what its constructor was given and, as its marks, what it has put on the screen: the
device in the markup of the document and, for an error, the inlays in the open editors.

`show` guards the device against repetition but adds inlays every time, and `hide` takes
everything away.  So whether a highlighter is visible depends on the last of the two only
(`visible_show`, `visible_hide`), provided its place in the document exists at all
(`ErrorHighlighter.placeable`).
-/

/-- A Python function of a file: its name, the line of its name, if it has one, and its last
    line. -/
structure PyFunction where
  name : String
  identifier : Option Int
  endLine : Int
  deriving DecidableEq, Repr

/-- What the editor answers to the renderers: the documents and the open editors stay as
    they are while the renderers work.  Lines are counted from zero. -/
structure EditorState where
  /-- `VirtualFileWrapper.getVirtualFile`. -/
  virtualFile : String → Option String
  /-- `MarkupModel.addLineHighlighter` finds the line. -/
  hasLine : String → Int → Bool
  /-- `DiffUtil.getLinesRange` finds the lines. -/
  hasRange : String → Int → Int → Bool
  /-- `Document.getLineStartOffset` and `Document.getLineEndOffset` find the line. -/
  hasOffsets : String → Int → Bool
  /-- `EditorFactory.getEditors`, the editors by number. -/
  editors : String → List Nat
  /-- `SyntaxTraverser.psiTraverser`, filtered for functions. -/
  functions : String → List PyFunction

/-- `Highlighter`, without its device; lines are counted from one. -/
structure Highlighter where
  file : String
  line : Int
  endLine : Int
  deriving DecidableEq, Repr

namespace Highlighter

/-- The last line that `getTextRange` asks for. -/
def correctedLineEnd (h : Highlighter) : Int :=
  let correctedLineEnd := if h.endLine = -1 then h.line - 1 else h.endLine
  if correctedLineEnd < h.line then h.line else correctedLineEnd

/-- Adding the highlighter to the markup does not fail. -/
def fits (ide : EditorState) (h : Highlighter) : Bool :=
  if h.line = h.endLine then ide.hasLine h.file (h.line - 1)
  else ide.hasRange h.file (h.line - 1) h.correctedLineEnd

/-- `show`, on whether there is a device. -/
def «show» (ide : EditorState) (h : Highlighter) (device : Bool) : Bool :=
  -- without its lines the highlighter stays without a device
  if device then device else h.fits ide

/-- `hide`, on whether there is a device. -/
def hide (_device : Bool) : Bool := false

theorem show_eq (ide : EditorState) (h : Highlighter) (device : Bool) :
    h.show ide device = (device || h.fits ide) := by
  cases device <;> rfl

end Highlighter

/-- An `Inlay` in an editor. -/
structure Inlay where
  editor : Nat
  disposed : Bool
  deriving DecidableEq, Repr

/-- `inlays.forEach(dispose)`. -/
def dispose (inlays : List Inlay) : List Inlay := inlays.map fun i => { i with disposed := true }

/-- Some inlay is on the screen. -/
def live (inlays : List Inlay) : Bool := inlays.any fun i => !i.disposed

theorem live_append (inlays inlays' : List Inlay) :
    live (inlays ++ inlays') = (live inlays || live inlays') := List.any_append

@[simp] theorem live_dispose (inlays : List Inlay) : live (dispose inlays) = false := by
  simp [live, dispose]

/-- What a highlighter has put on the screen. -/
structure Marks where
  device : Bool
  inlays : List Inlay
  deriving DecidableEq, Repr

namespace Marks

/-- The marks of a new highlighter. -/
def new : Marks := ⟨false, []⟩

/-- Something of the highlighter is on the screen. -/
def visible (m : Marks) : Bool := m.device || live m.inlays

@[simp] theorem visible_new : new.visible = false := rfl

end Marks

/-- `ErrorHighlighter`, without its marks. -/
structure ErrorHighlighter where
  file : String
  line : Int
  msg : String
  deriving DecidableEq, Repr

namespace ErrorHighlighter

/-- Its line highlighter. -/
def highlighter (h : ErrorHighlighter) : Highlighter := ⟨h.file, h.line, h.line⟩

/-- The inlays that `show` adds, one in each editor of the file. -/
def newInlays (ide : EditorState) (h : ErrorHighlighter) : List Inlay :=
  (ide.editors h.file).map fun editor => ⟨editor, false⟩

/-- `show`. -/
def «show» (ide : EditorState) (h : ErrorHighlighter) (m : Marks) : Marks :=
  let device := h.highlighter.show ide m.device
  -- a line outside the document throws before an inlay is added
  if ide.hasOffsets h.file (h.line - 1) then ⟨device, m.inlays ++ h.newInlays ide⟩
  else ⟨device, m.inlays⟩

/-- `hide`. -/
def hide (m : Marks) : Marks := ⟨Highlighter.hide m.device, dispose m.inlays⟩

/-- Showing the highlighter puts something on the screen. -/
def placeable (ide : EditorState) (h : ErrorHighlighter) : Bool :=
  h.highlighter.fits ide || (ide.hasOffsets h.file (h.line - 1) && live (h.newInlays ide))

/-- After `show` a highlighter is visible where it can be placed, or if it was before. -/
theorem visible_show (ide : EditorState) (h : ErrorHighlighter) (m : Marks) :
    (h.show ide m).visible = (m.visible || h.placeable ide) := by
  unfold «show» placeable
  cases hoff : ide.hasOffsets h.file (h.line - 1) with
  | false => simp [Marks.visible, Highlighter.show_eq, Bool.or_right_comm]
  | true =>
    simp only [if_true, Marks.visible, Highlighter.show_eq, live_append, Bool.true_and]
    cases m.device <;> cases live m.inlays <;> simp

/-- After `hide` it is not. -/
@[simp] theorem visible_hide (m : Marks) : (hide m).visible = false := by
  simp [hide, Marks.visible, Highlighter.hide]

end ErrorHighlighter

end Reloadium.Highlights
