import Reloadium.Highlights.Highlighter
import Reloadium.Lib.Deferred
import Reloadium.Profile.LineProfiler

namespace Reloadium.Profile

open Reloadium.Lib Reloadium.Highlights

/-!
# Profile — the marker of the current line

Model of `rw.profile.FrameProgressRenderer`, without the blink of the profiled lines.  One
slot holds the highlighter of the last line that was reached.  An event replaces it, except
that a stop event hides it and leaves it in the slot; highlighters are shown and hidden in
tasks of the UI thread.

Once the tasks have run, `Kept` holds: only the highlighter of the slot can be visible.
`activate` shows it again even if a stop event has hidden it (`visible_activate`).
-/

/-- `FrameProgressRenderer`: its highlighter, with its number among those created so far. -/
structure FrameProgressRenderer where
  created : Nat
  highlighter : Option (Nat × Highlighter)

/-- What the renderer posts, for a highlighter by its number. -/
inductive FrameProgressTask where
  | «show» (ref : Nat) (highlighter : Highlighter)
  | hide (ref : Nat)
  deriving DecidableEq, Repr

/-- The highlighter of the line that an event reports. -/
def currentLine (event : LineProfile String) : Highlighter := ⟨event.file, event.line, event.line⟩

namespace FrameProgressRenderer

/-- The renderer its constructor builds. -/
def new : FrameProgressRenderer := ⟨0, none⟩

/-- One task, on the devices of the highlighters. -/
def exec (ide : EditorState) (devices : Nat → Bool) : FrameProgressTask → Nat → Bool
  | .show ref highlighter => Function.update devices ref (highlighter.show ide (devices ref))
  | .hide ref => Function.update devices ref (Highlighter.hide (devices ref))

/-- `deactivate`. -/
def deactivate : Posting FrameProgressRenderer FrameProgressTask := fun s =>
  match s.highlighter with
  | none => (s, [])
  | some (ref, _) => (s, [.hide ref])

/-- `activate`. -/
def activate : Posting FrameProgressRenderer FrameProgressTask := fun s =>
  match s.highlighter with
  | none => (s, [])
  | some (ref, highlighter) => (s, [.show ref highlighter])

/-- A new highlighter goes into the slot and is shown. -/
def replace (highlighter : Highlighter) : Posting FrameProgressRenderer FrameProgressTask :=
  fun s => (⟨s.created + 1, some (s.created, highlighter)⟩, [.show s.created highlighter])

/-- `renderFrameProgress`.  The old highlighter is hidden as by `deactivate`. -/
def renderFrameProgress (event : LineProfile String) :
    Posting FrameProgressRenderer FrameProgressTask :=
  if event.stop then deactivate else deactivate.andThen (replace (currentLine event))

end FrameProgressRenderer

/-- The renderer and the devices of its highlighters. -/
abbrev FrameProgress := FrameProgressRenderer × (Nat → Bool)

namespace FrameProgress

open FrameProgressRenderer

/-- Whether a highlighter is visible, by its number. -/
def visible (x : FrameProgress) (ref : Nat) : Bool := x.2 ref

/-- The highlighter is in the slot, and it fits its document. -/
def Placed (ide : EditorState) (x : FrameProgress) (ref : Nat) : Prop :=
  ∃ h, x.1.highlighter = some (ref, h) ∧ h.fits ide = true

/-- Only the highlighter of the slot can be visible. -/
structure Kept (ide : EditorState) (x : FrameProgress) : Prop where
  placed : ∀ ref, x.visible ref = true → x.Placed ide ref
  fresh : ∀ ref h, x.1.highlighter = some (ref, h) → ref < x.1.created

variable {ide : EditorState} {x : FrameProgress}

/-- An operation after its tasks. -/
abbrev settle (ide : EditorState) (o : Posting FrameProgressRenderer FrameProgressTask)
    (x : FrameProgress) : FrameProgress := o.settle (FrameProgressRenderer.exec ide) x

theorem kept_new : Kept ide (new, fun _ => false) := by
  refine ⟨fun ref hvis => ?_, fun ref h hslot => ?_⟩
  · cases hvis
  · cases hslot

/-- The slot stays as it is. -/
theorem slot_deactivate (x : FrameProgress) : (x.settle ide deactivate).1 = x.1 := by
  unfold settle Posting.settle deactivate
  split <;> rfl

theorem slot_activate (x : FrameProgress) : (x.settle ide activate).1 = x.1 := by
  unfold settle Posting.settle activate
  split <;> rfl

/-- `deactivate` hides the marker. -/
theorem visible_deactivate (h : Kept ide x) (ref : Nat) :
    (x.settle ide deactivate).visible ref = false := by
  rw [← Bool.not_eq_true]
  unfold settle Posting.settle deactivate visible
  cases hslot : x.1.highlighter with
  | none =>
    intro hvis
    obtain ⟨_, hsome, _⟩ := h.placed ref hvis
    rw [hslot] at hsome
    cases hsome
  | some e =>
    obtain ⟨r, hl⟩ := e
    show ¬ Function.update x.2 r (Highlighter.hide (x.2 r)) ref = true
    by_cases href : ref = r
    · subst href
      simp [Highlighter.hide]
    · rw [Function.update_of_ne href]
      intro hvis
      obtain ⟨_, hsome, _⟩ := h.placed ref hvis
      rw [hslot] at hsome
      cases hsome
      exact href rfl

/-- `activate` shows the highlighter of the slot. -/
theorem visible_activate (h : Kept ide x) (ref : Nat) :
    (x.settle ide activate).visible ref = true ↔ x.Placed ide ref := by
  unfold settle Posting.settle activate visible Placed
  cases hslot : x.1.highlighter with
  | none =>
    apply Iff.intro
    · intro hvis
      obtain ⟨_, hsome, _⟩ := h.placed ref hvis
      rw [hslot] at hsome
      cases hsome
    · rintro ⟨_, hsome, _⟩
      cases hsome
  | some e =>
    obtain ⟨r, hl⟩ := e
    show Function.update x.2 r (hl.show ide (x.2 r)) ref = true ↔ _
    by_cases href : ref = r
    · subst href
      rw [Function.update_self, Highlighter.show_eq, Bool.or_eq_true]
      apply Iff.intro
      · rintro (hvis | hfits)
        · obtain ⟨hl', hsome, hfits⟩ := h.placed ref hvis
          rw [hslot] at hsome
          exact ⟨hl', hsome, hfits⟩
        · exact ⟨hl, rfl, hfits⟩
      · rintro ⟨hl', hsome, hfits⟩
        cases hsome
        exact Or.inr hfits
    · rw [Function.update_of_ne href]
      apply Iff.intro
      · intro hvis
        obtain ⟨_, hsome, _⟩ := h.placed ref hvis
        rw [hslot] at hsome
        cases hsome
        exact absurd rfl href
      · rintro ⟨_, hsome, _⟩
        cases hsome
        exact absurd rfl href

theorem Kept.deactivate (h : Kept ide x) : Kept ide (x.settle ide deactivate) := by
  refine ⟨fun ref hvis => ?_, fun ref hl hslot => ?_⟩
  · rw [visible_deactivate h] at hvis
    cases hvis
  · rw [slot_deactivate] at hslot ⊢
    exact h.fresh ref hl hslot

theorem Kept.activate (h : Kept ide x) : Kept ide (x.settle ide activate) := by
  refine ⟨fun ref hvis => ?_, fun ref hl hslot => ?_⟩
  · rw [Placed, slot_activate]
    exact (visible_activate h ref).mp hvis
  · rw [slot_activate] at hslot ⊢
    exact h.fresh ref hl hslot

/-- A new highlighter in the slot, where nothing is visible. -/
theorem visible_replace (ide : EditorState) (hx : ∀ ref, x.visible ref = false)
    (hl : Highlighter) (ref : Nat) :
    (x.settle ide (replace hl)).visible ref = true ↔ ref = x.1.created ∧ hl.fits ide = true := by
  show Function.update x.2 x.1.created (hl.show ide (x.2 x.1.created)) ref = true ↔ _
  by_cases href : ref = x.1.created
  · subst href
    have hnot : x.2 x.1.created = false := hx _
    rw [Function.update_self, Highlighter.show_eq, hnot]
    simp
  · rw [Function.update_of_ne href]
    have hnot : x.2 ref = false := hx _
    simp [hnot, href]

theorem kept_replace (hx : ∀ ref, x.visible ref = false) (hl : Highlighter) :
    Kept ide (x.settle ide (replace hl)) := by
  refine ⟨fun ref hvis => ?_, fun ref hl' hslot => ?_⟩
  · obtain ⟨rfl, hfits⟩ := (visible_replace ide hx hl ref).mp hvis
    exact ⟨hl, rfl, hfits⟩
  · cases hslot
    exact Nat.lt_succ_self _

/-- **The marker of an event**: none for a stop event, else the line that it reports. -/
theorem visible_renderFrameProgress (h : Kept ide x) (event : LineProfile String) (ref : Nat) :
    (x.settle ide (renderFrameProgress event)).visible ref = true ↔
      event.stop = false ∧ ref = x.1.created ∧ (currentLine event).fits ide = true := by
  unfold renderFrameProgress
  by_cases hstop : event.stop = true
  · rw [if_pos hstop, visible_deactivate h, hstop]
    simp
  · rw [if_neg hstop]
    rw [Bool.not_eq_true] at hstop
    have hrepl := visible_replace ide (visible_deactivate h) (currentLine event) ref
    rw [slot_deactivate] at hrepl
    rw [settle, Posting.settle_andThen, hrepl]
    simp [hstop]

theorem Kept.renderFrameProgress (h : Kept ide x) (event : LineProfile String) :
    Kept ide (x.settle ide (renderFrameProgress event)) := by
  unfold FrameProgressRenderer.renderFrameProgress
  split
  · exact h.deactivate
  · rw [settle, Posting.settle_andThen]
    exact kept_replace (visible_deactivate h) (currentLine event)

/-- The line of an event that is not a stop goes into the slot. -/
theorem slot_renderFrameProgress (ide : EditorState) (x : FrameProgress)
    {event : LineProfile String} (hstop : event.stop = false) :
    (x.settle ide (renderFrameProgress event)).1.highlighter =
      some (x.1.created, currentLine event) := by
  have hnot : ¬ event.stop = true := by simp [hstop]
  rw [FrameProgressRenderer.renderFrameProgress, if_neg hnot, settle, Posting.settle_andThen]
  show some ((x.settle ide deactivate).1.created, currentLine event) = _
  rw [slot_deactivate]

/-- **Switching off and on** shows the highlighter of the slot. -/
theorem visible_reactivate (h : Kept ide x) (ref : Nat) :
    ((x.settle ide deactivate).settle ide activate).visible ref = true ↔ x.Placed ide ref := by
  rw [visible_activate h.deactivate, Placed, slot_deactivate]
  rfl

end FrameProgress

end Reloadium.Profile
