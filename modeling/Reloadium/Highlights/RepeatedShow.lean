import Reloadium.Highlights.Highlighter
import Mathlib.Data.List.Induction
import Mathlib.Data.List.Nodup

namespace Reloadium.Highlights

/-!
# Highlights — showing an error twice

`ErrorHighlighter` in full: the markup of the document with the line highlighters that `show`
has added to it, and the inlays of the open editors.  Seen through `ErrorMarkup.marks` it is
the highlighter that the managers work with (`marks_show`, `marks_hide`).

The line highlighter is guarded by the device, the inlays by nothing: after any calls an
editor has as many live inlays as there were calls of `show` since the last `hide`
(`liveIn_afterCalls`), and `showsOnce_iff` says when that is one.
-/

/-- What an `ErrorHighlighter` has put on the screen: its line highlighters in the markup by
    number, how many there have been, the one that is its device, and its inlays. -/
structure ErrorMarkup where
  created : Nat
  highlighters : List Nat
  device : Option Nat
  inlays : List Inlay

namespace ErrorMarkup

/-- Nothing is on the screen. -/
def new : ErrorMarkup := ⟨0, [], none, []⟩

/-- `Highlighter.show`. -/
def showDevice (ide : EditorState) (h : Highlighter) (m : ErrorMarkup) : ErrorMarkup :=
  match m.device with
  | some _ => m
  | none =>
    if h.fits ide then
      { m with
        created := m.created + 1
        highlighters := m.highlighters ++ [m.created]
        device := some m.created }
    else m

/-- `Highlighter.hide`. -/
def hideDevice (m : ErrorMarkup) : ErrorMarkup :=
  match m.device with
  | none => m
  | some id =>
    { m with highlighters := m.highlighters.filter fun id' => id' ≠ id, device := none }

/-- `ErrorHighlighter.show`. -/
def «show» (ide : EditorState) (h : ErrorHighlighter) (m : ErrorMarkup) : ErrorMarkup :=
  let m := m.showDevice ide h.highlighter
  -- a line outside the document throws before an inlay is added
  if ide.hasOffsets h.file (h.line - 1) then { m with inlays := m.inlays ++ h.newInlays ide }
  else m

/-- `ErrorHighlighter.hide`. -/
def hide (m : ErrorMarkup) : ErrorMarkup :=
  let m := m.hideDevice
  { m with inlays := dispose m.inlays }

/-- Whether there is a device, and the inlays. -/
def marks (m : ErrorMarkup) : Marks := ⟨m.device.isSome, m.inlays⟩

theorem isSome_showDevice (ide : EditorState) (h : Highlighter) (m : ErrorMarkup) :
    (m.showDevice ide h).device.isSome = h.show ide m.device.isSome := by
  unfold showDevice
  cases hdev : m.device with
  | some id => simp [Highlighter.show_eq, hdev]
  | none => cases hfits : h.fits ide <;> simp [Highlighter.show_eq, hfits, hdev]

@[simp] theorem inlays_showDevice (ide : EditorState) (h : Highlighter) (m : ErrorMarkup) :
    (m.showDevice ide h).inlays = m.inlays := by
  unfold showDevice
  split
  · rfl
  · split <;> rfl

@[simp] theorem device_hideDevice (m : ErrorMarkup) : m.hideDevice.device = none := by
  unfold hideDevice
  split
  · assumption
  · rfl

@[simp] theorem inlays_hideDevice (m : ErrorMarkup) : m.hideDevice.inlays = m.inlays := by
  unfold hideDevice
  split <;> rfl

/-- `show` is that of the managers. -/
theorem marks_show (ide : EditorState) (h : ErrorHighlighter) (m : ErrorMarkup) :
    (m.show ide h).marks = h.show ide m.marks := by
  unfold «show» ErrorHighlighter.show marks
  cases hoff : ide.hasOffsets h.file (h.line - 1) <;> simp [isSome_showDevice]

/-- `hide` is that of the managers. -/
theorem marks_hide (m : ErrorMarkup) : m.hide.marks = ErrorHighlighter.hide m.marks := by
  simp [hide, ErrorHighlighter.hide, marks, Highlighter.hide]

end ErrorMarkup

/-- A call on an `ErrorHighlighter`. -/
inductive ShowHide where
  | «show»
  | hide
  deriving DecidableEq, Repr

/-- One call. -/
def ErrorMarkup.step (ide : EditorState) (h : ErrorHighlighter) (m : ErrorMarkup) :
    ShowHide → ErrorMarkup
  | .show => m.show ide h
  | .hide => m.hide

/-- What is on the screen after a sequence of calls. -/
def ErrorMarkup.afterCalls (ide : EditorState) (h : ErrorHighlighter) (calls : List ShowHide) :
    ErrorMarkup :=
  calls.foldl (ErrorMarkup.step ide h) .new

/-- The live inlays in an editor. -/
def liveIn (editor : Nat) (inlays : List Inlay) : Nat :=
  inlays.countP fun i => i.editor = editor && !i.disposed

/-- After the last call every editor of the file has `n` live inlays, and the markup has `n`
    line highlighters. -/
def Times (ide : EditorState) (h : ErrorHighlighter) (n : Nat) (m : ErrorMarkup) : Prop :=
  (∀ editor ∈ ide.editors h.file, liveIn editor m.inlays = n) ∧ m.highlighters.length = n

/-- Showing is idempotent and hiding is its inverse: one of each is on the screen if the last
    call was `show`, none if it was `hide`. -/
def ShowsOnce (ide : EditorState) (h : ErrorHighlighter) (calls : List ShowHide) : Prop :=
  (calls.getLast? = some .show → Times ide h 1 (.afterCalls ide h calls)) ∧
    (calls.getLast? = some .hide → Times ide h 0 (.afterCalls ide h calls))

/-- How often `show` has been called since the last `hide`. -/
def showsSinceHide (calls : List ShowHide) : Nat :=
  calls.foldl (fun n call => match call with | .show => n + 1 | .hide => 0) 0

variable {ide : EditorState} {h : ErrorHighlighter}

/-! ### The calls so far -/

theorem afterCalls_append (calls : List ShowHide) (call : ShowHide) :
    ErrorMarkup.afterCalls ide h (calls ++ [call]) =
      (ErrorMarkup.afterCalls ide h calls).step ide h call := by
  rw [ErrorMarkup.afterCalls, List.foldl_append]
  rfl

@[simp] theorem showsSinceHide_show (calls : List ShowHide) :
    showsSinceHide (calls ++ [.show]) = showsSinceHide calls + 1 := by
  rw [showsSinceHide, List.foldl_append]
  rfl

@[simp] theorem showsSinceHide_hide (calls : List ShowHide) :
    showsSinceHide (calls ++ [.hide]) = 0 := by
  rw [showsSinceHide, List.foldl_append]
  rfl

/-! ### The inlays -/

theorem liveIn_append (editor : Nat) (inlays inlays' : List Inlay) :
    liveIn editor (inlays ++ inlays') = liveIn editor inlays + liveIn editor inlays' :=
  List.countP_append

theorem liveIn_dispose (editor : Nat) (inlays : List Inlay) :
    liveIn editor (dispose inlays) = 0 := by
  rw [liveIn, List.countP_eq_zero]
  intro i hi
  obtain ⟨j, -, rfl⟩ := List.mem_map.mp hi
  simp

/-- `show` adds one inlay to each editor. -/
theorem liveIn_newInlays (hnodup : (ide.editors h.file).Nodup) {editor : Nat}
    (heditor : editor ∈ ide.editors h.file) : liveIn editor (h.newInlays ide) = 1 := by
  have hcount : liveIn editor (h.newInlays ide) = (ide.editors h.file).count editor := by
    rw [liveIn, ErrorHighlighter.newInlays, List.countP_map, List.count]
    congr 1
    funext e
    simp [Bool.beq_eq_decide_eq]
  rw [hcount, List.count_eq_one_of_mem hnodup heditor]

/-- **The inlays pile up.** -/
theorem liveIn_afterCalls (hoff : ide.hasOffsets h.file (h.line - 1) = true)
    (hnodup : (ide.editors h.file).Nodup) {editor : Nat} (heditor : editor ∈ ide.editors h.file)
    (calls : List ShowHide) :
    liveIn editor (ErrorMarkup.afterCalls ide h calls).inlays = showsSinceHide calls := by
  induction calls using List.reverseRecOn with
  | nil => rfl
  | append_singleton calls call ih =>
    rw [afterCalls_append]
    cases call with
    | «show» =>
      rw [showsSinceHide_show, ErrorMarkup.step, ErrorMarkup.show, if_pos hoff]
      show liveIn editor (_ ++ h.newInlays ide) = _
      rw [ErrorMarkup.inlays_showDevice, liveIn_append, liveIn_newInlays hnodup heditor, ih]
    | hide =>
      rw [showsSinceHide_hide, ErrorMarkup.step]
      exact liveIn_dispose editor _

/-! ### The markup -/

namespace ErrorMarkup

variable {m : ErrorMarkup}

/-- Showing adds the device to a markup without one. -/
theorem highlighters_showDevice (hm : m.highlighters = m.device.toList) (h : Highlighter) :
    (m.showDevice ide h).highlighters = (m.showDevice ide h).device.toList := by
  unfold showDevice
  split
  · exact hm
  · next hdev =>
    split
    · rw [hm, hdev]
      rfl
    · exact hm

/-- Hiding takes the device out. -/
theorem highlighters_hideDevice (hm : m.highlighters = m.device.toList) :
    m.hideDevice.highlighters = [] := by
  unfold hideDevice
  split
  · next hdev => rw [hm, hdev, Option.toList_none]
  · next id hdev => simp [hm, hdev]

end ErrorMarkup

/-- The markup has the device, and nothing else of the highlighter. -/
theorem highlighters_afterCalls (calls : List ShowHide) :
    (ErrorMarkup.afterCalls ide h calls).highlighters =
      (ErrorMarkup.afterCalls ide h calls).device.toList := by
  induction calls using List.reverseRecOn with
  | nil => rfl
  | append_singleton calls call ih =>
    rw [afterCalls_append]
    cases call with
    | «show» =>
      have hdevice := @ErrorMarkup.highlighters_showDevice ide _ ih h.highlighter
      rw [ErrorMarkup.step, ErrorMarkup.show]
      split
      · exact hdevice
      · exact hdevice
    | hide =>
      show (ErrorMarkup.hideDevice _).highlighters = (ErrorMarkup.hideDevice _).device.toList
      rw [ErrorMarkup.highlighters_hideDevice ih, ErrorMarkup.device_hideDevice,
        Option.toList_none]

/-- The device is there after `show`, once. -/
theorem length_highlighters (hfits : h.highlighter.fits ide = true) (calls : List ShowHide) :
    (ErrorMarkup.afterCalls ide h calls).highlighters.length = min 1 (showsSinceHide calls) := by
  have hdevice : (ErrorMarkup.afterCalls ide h calls).device.isSome =
      decide (0 < showsSinceHide calls) := by
    induction calls using List.reverseRecOn with
    | nil => rfl
    | append_singleton calls call ih =>
      rw [afterCalls_append]
      cases call with
      | «show» =>
        have hmarks := ErrorMarkup.marks_show ide h (.afterCalls ide h calls)
        have hshow : ((ErrorMarkup.afterCalls ide h calls).show ide h).device.isSome = true := by
          refine (congrArg Marks.device hmarks).trans ?_
          unfold ErrorHighlighter.show
          split <;> simp [Highlighter.show_eq, hfits]
        rw [ErrorMarkup.step, hshow, showsSinceHide_show]
        simp
      | hide =>
        rw [showsSinceHide_hide]
        show (ErrorMarkup.hideDevice _).device.isSome = false
        rw [ErrorMarkup.device_hideDevice]
        rfl
  rw [highlighters_afterCalls]
  cases hdev : (ErrorMarkup.afterCalls ide h calls).device with
  | none =>
    rw [hdev] at hdevice
    have hzero : ¬ 0 < showsSinceHide calls := of_decide_eq_false hdevice.symm
    simp only [Option.toList_none, List.length_nil]
    omega
  | some id =>
    rw [hdev] at hdevice
    have hpos : 0 < showsSinceHide calls := of_decide_eq_true hdevice.symm
    simp only [Option.toList_some, List.length_singleton]
    omega

/-! ### Showing once -/

/-- **Showing an error** keeps one inlay in each editor, and hiding it none, exactly when it
    has been shown at most once since it was last hidden. -/
theorem showsOnce_iff (hnodup : (ide.editors h.file).Nodup) (hopen : ide.editors h.file ≠ [])
    (hfits : h.highlighter.fits ide = true) (hoff : ide.hasOffsets h.file (h.line - 1) = true)
    (calls : List ShowHide) : ShowsOnce ide h calls ↔ showsSinceHide calls ≤ 1 := by
  obtain ⟨editor, heditor⟩ := List.exists_mem_of_ne_nil _ hopen
  -- both sides depend on the last call only
  rcases List.eq_nil_or_concat' calls with rfl | ⟨before, last, rfl⟩
  · exact iff_of_true ⟨nofun, nofun⟩ (Nat.zero_le 1)
  rw [ShowsOnce, List.getLast?_concat]
  cases last with
  | «show» =>
    apply Iff.intro
    · intro hshows
      have honce := (hshows.1 rfl).1 editor heditor
      rw [liveIn_afterCalls hoff hnodup heditor] at honce
      exact Nat.le_of_eq honce
    · intro hle
      have hone : showsSinceHide (before ++ [.show]) = 1 := by
        rw [showsSinceHide_show] at hle ⊢
        omega
      refine ⟨fun _ => ⟨fun e he => ?_, ?_⟩, nofun⟩
      · rw [liveIn_afterCalls hoff hnodup he, hone]
      · rw [length_highlighters hfits, hone]
        rfl
  | hide =>
    have hzero := showsSinceHide_hide before
    refine iff_of_true ⟨nofun, fun _ => ⟨fun e he => ?_, ?_⟩⟩ (by omega)
    · rw [liveIn_afterCalls hoff hnodup he, hzero]
    · rw [length_highlighters hfits, hzero]
      rfl

/-- A document of many lines, in two editors. -/
def twoEditors : EditorState := ⟨some, fun _ _ => true, fun _ _ _ => true, fun _ _ => true,
  fun _ => [0, 1], fun _ => []⟩

/-- An error. -/
def nameError : ErrorHighlighter := ⟨"main.py", 1, "NameError"⟩

/-- Shown, hidden and shown again. -/
theorem showsOnce_shown_again : ShowsOnce twoEditors nameError [.show, .hide, .show] :=
  (showsOnce_iff (by decide) (by decide) rfl rfl [.show, .hide, .show]).mpr (by decide)

/-- **Counterexample.** An error that is shown twice has two inlays in each editor. -/
theorem shown_twice :
    ¬ ∀ (ide : EditorState) (h : ErrorHighlighter) (calls : List ShowHide),
      (ide.editors h.file).Nodup → ide.editors h.file ≠ [] → h.highlighter.fits ide = true →
        ide.hasOffsets h.file (h.line - 1) = true → ShowsOnce ide h calls := by
  intro hall
  have hshows := hall twoEditors nameError [.show, .show] (by decide) (by decide) rfl rfl
  have honce := (hshows.1 rfl).1 0 (by decide)
  exact absurd honce (by decide)

end Reloadium.Highlights
