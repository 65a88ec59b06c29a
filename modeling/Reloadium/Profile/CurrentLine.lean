import Reloadium.Profile.FrameProgressRenderer

namespace Reloadium.Profile

open Reloadium.Lib Reloadium.Highlights

/-!
# Profile — the current line along a run

A `FrameProgressRenderer` gets the events of a run and is switched on and off in between.
`MarkerRun` is the renderer with the history that tells which marker is right: the last event,
and whether the renderer is active.

The renderer does not know that history: a stop event hides the highlighter and leaves it in
the slot, and the next `activate` shows it again.  `follows_iff_meets` says that this is the
only thing that goes wrong.
-/

/-- A renderer, the last event it got, and whether it is active.  A new one is. -/
structure MarkerRun where
  renderer : FrameProgressRenderer
  lastEvent : Option (LineProfile String)
  active : Bool

/-- A call on the renderer. -/
inductive MarkerOp where
  | onFrameProgressEvent (event : LineProfile String)
  | activate
  | deactivate

namespace MarkerRun

/-- A new renderer. -/
def new : MarkerRun := ⟨.new, none, true⟩

/-- The renderer as a part of its run. -/
def rendererPart (ide : EditorState) :
    Component (FrameProgressRenderer.exec ide) (FrameProgressRenderer.exec ide) MarkerRun
      FrameProgressRenderer where
  get := renderer
  set s renderer := { s with renderer }
  view := id
  put _ devices := devices
  post := id
  view_put _ _ := rfl
  put_view _ := rfl
  put_put _ _ _ := rfl
  exec_post _ _ := rfl

/-- One call. -/
def perform (ide : EditorState) : MarkerOp → Posting MarkerRun FrameProgressTask
  | .onFrameProgressEvent event =>
    ((rendererPart ide).lift (FrameProgressRenderer.renderFrameProgress event)).andThen
      (Posting.modify fun s => { s with lastEvent := some event })
  | .activate =>
    ((rendererPart ide).lift FrameProgressRenderer.activate).andThen
      (Posting.modify fun s => { s with active := true })
  | .deactivate =>
    ((rendererPart ide).lift FrameProgressRenderer.deactivate).andThen
      (Posting.modify fun s => { s with active := false })

/-- A new renderer with the tasks of the UI thread in any interleaving. -/
def machine (ide : EditorState) :
    Lts (Deferred MarkerRun (Nat → Bool) FrameProgressTask) (Turn MarkerOp) :=
  Deferred.machine (perform ide) (FrameProgressRenderer.exec ide) (.new, fun _ => false)

/-- The renderer and its devices. -/
def marker (x : MarkerRun × (Nat → Bool)) : FrameProgress := (x.1.renderer, x.2)

/-- The marker follows the last event. -/
structure Follows (ide : EditorState) (x : MarkerRun × (Nat → Bool)) : Prop where
  /-- At most one highlighter is visible. -/
  unique : ∀ ref ref', (marker x).visible ref = true → (marker x).visible ref' = true →
    ref = ref'
  /-- After a stop event none is visible. -/
  stopped : ∀ event, x.1.lastEvent = some event → event.stop = true →
    ∀ ref, (marker x).visible ref = false
  /-- After another event the one that is visible on an active renderer is that of the event's
      line, and it is visible if the document has the line. -/
  shown : ∀ event, x.1.lastEvent = some event → event.stop = false → x.1.active = true →
    (∀ ref, (marker x).visible ref = true →
      x.1.renderer.highlighter = some (ref, currentLine event)) ∧
    ((currentLine event).fits ide = true → ∃ ref, (marker x).visible ref = true)

/-- The call does not bring back the marker of a stopped program. -/
def StaysOff (ide : EditorState) (s : MarkerRun) : MarkerOp → Prop
  | .activate => ∀ event, s.lastEvent = some event → event.stop = true →
      ∀ ref h, s.renderer.highlighter = some (ref, h) → h.fits ide = false
  | _ => True

variable {ide : EditorState} {x : MarkerRun × (Nat → Bool)}

/-! ### The settled calls -/

theorem settle_event (event : LineProfile String) (x : MarkerRun × (Nat → Bool)) :
    (perform ide (.onFrameProgressEvent event)).settle (FrameProgressRenderer.exec ide) x =
      ({ x.1 with
          renderer := ((marker x).settle ide
            (FrameProgressRenderer.renderFrameProgress event)).1
          lastEvent := some event },
        ((marker x).settle ide (FrameProgressRenderer.renderFrameProgress event)).2) := by
  rw [perform, Posting.settle_andThen, Component.settle_lift]
  rfl

theorem settle_activate (x : MarkerRun × (Nat → Bool)) :
    (perform ide .activate).settle (FrameProgressRenderer.exec ide) x =
      ({ x.1 with renderer := x.1.renderer, active := true },
        ((marker x).settle ide FrameProgressRenderer.activate).2) := by
  have hslot : ((marker x).settle ide FrameProgressRenderer.activate).1 = x.1.renderer :=
    FrameProgress.slot_activate (marker x)
  rw [perform, Posting.settle_andThen, Component.settle_lift, ← hslot]
  rfl

theorem settle_deactivate (x : MarkerRun × (Nat → Bool)) :
    (perform ide .deactivate).settle (FrameProgressRenderer.exec ide) x =
      ({ x.1 with renderer := x.1.renderer, active := false },
        ((marker x).settle ide FrameProgressRenderer.deactivate).2) := by
  have hslot : ((marker x).settle ide FrameProgressRenderer.deactivate).1 = x.1.renderer :=
    FrameProgress.slot_deactivate (marker x)
  rw [perform, Posting.settle_andThen, Component.settle_lift, ← hslot]
  rfl

/-! ### What every call keeps -/

/-- The renderer keeps its invariant; after an event that is not a stop its line is in the
    slot, and shown while the renderer is active. -/
structure Tracks (ide : EditorState) (x : MarkerRun × (Nat → Bool)) : Prop where
  kept : (marker x).Kept ide
  slot : ∀ event, x.1.lastEvent = some event → event.stop = false →
    ∃ ref, x.1.renderer.highlighter = some (ref, currentLine event)
  lit : ∀ event, x.1.lastEvent = some event → event.stop = false → x.1.active = true →
    ∀ ref, (marker x).Placed ide ref → (marker x).visible ref = true

theorem tracks_new : Tracks ide (.new, fun _ => false) where
  kept := FrameProgress.kept_new
  slot := fun _ hlast => by cases hlast
  lit := fun _ hlast => by cases hlast

/-- **Step lemma.** -/
theorem Tracks.perform (h : Tracks ide x) (op : MarkerOp) :
    Tracks ide ((perform ide op).settle (FrameProgressRenderer.exec ide) x) := by
  cases op with
  | onFrameProgressEvent event =>
    have hkept := h.kept.renderFrameProgress event
    rw [settle_event]
    refine ⟨hkept, fun e hlast hstop => ?_, fun e hlast hstop _ ref hplaced => ?_⟩
    · cases hlast
      exact ⟨_, FrameProgress.slot_renderFrameProgress ide (marker x) hstop⟩
    · cases hlast
      obtain ⟨hl, hslot, hfits⟩ := hplaced
      have hslot' := FrameProgress.slot_renderFrameProgress ide (marker x) hstop
      cases hslot.symm.trans hslot'
      exact (FrameProgress.visible_renderFrameProgress h.kept event _).mpr ⟨hstop, rfl, hfits⟩
  | activate =>
    have hkept : ((marker x).settle ide FrameProgressRenderer.activate).Kept ide :=
      h.kept.activate
    have hvis := FrameProgress.visible_activate h.kept
    have hslot : ((marker x).settle ide FrameProgressRenderer.activate).1 = x.1.renderer :=
      FrameProgress.slot_activate (marker x)
    rw [settle_activate]
    refine ⟨?_, h.slot, fun _ _ _ _ ref hplaced => (hvis ref).mpr hplaced⟩
    rw [marker, ← hslot]
    exact hkept
  | deactivate =>
    have hkept : ((marker x).settle ide FrameProgressRenderer.deactivate).Kept ide :=
      h.kept.deactivate
    have hslot : ((marker x).settle ide FrameProgressRenderer.deactivate).1 = x.1.renderer :=
      FrameProgress.slot_deactivate (marker x)
    rw [settle_deactivate]
    refine ⟨?_, h.slot, fun _ _ _ hactive => by cases hactive⟩
    rw [marker, ← hslot]
    exact hkept

/-- What is left of the claim on the marker: it is gone after a stop event. -/
theorem Tracks.follows_iff (h : Tracks ide x) :
    Follows ide x ↔ ∀ event, x.1.lastEvent = some event → event.stop = true →
      ∀ ref, (marker x).visible ref = false := by
  refine ⟨Follows.stopped, fun hstopped => ⟨fun ref ref' hvis hvis' => ?_, hstopped,
    fun event hlast hstop hactive => ?_⟩⟩
  · obtain ⟨_, hslot, -⟩ := h.kept.placed ref hvis
    obtain ⟨_, hslot', -⟩ := h.kept.placed ref' hvis'
    cases hslot.symm.trans hslot'
    rfl
  · obtain ⟨r, hr⟩ := h.slot event hlast hstop
    refine ⟨fun ref hvis => ?_, fun hfits => ?_⟩
    · obtain ⟨_, hslot, -⟩ := h.kept.placed ref hvis
      cases hslot.symm.trans hr
      exact hr
    · exact ⟨r, h.lit event hlast hstop hactive r ⟨_, hr, hfits⟩⟩

/-- **Step lemma.** A call keeps the marker right exactly when it meets the condition. -/
theorem follows_perform_iff (h : Tracks ide x) (op : MarkerOp) :
    Follows ide ((perform ide op).settle (FrameProgressRenderer.exec ide) x) ↔
      StaysOff ide x.1 op := by
  rw [(h.perform op).follows_iff]
  cases op with
  | onFrameProgressEvent event =>
    refine iff_of_true (fun e hlast hstop ref => ?_) trivial
    rw [settle_event] at hlast ⊢
    obtain rfl := Option.some.inj hlast
    rw [← Bool.not_eq_true]
    intro hvis
    have hshown := (FrameProgress.visible_renderFrameProgress h.kept event ref).mp hvis
    rw [hstop] at hshown
    cases hshown.1
  | activate =>
    have hvis := FrameProgress.visible_activate h.kept
    rw [settle_activate, StaysOff]
    apply Iff.intro
    · intro hgone event hlast hstop ref hl hslot
      rw [← Bool.not_eq_true]
      intro hfits
      have hlit := (hvis ref).mpr ⟨hl, hslot, hfits⟩
      have hdark : ((marker x).settle ide FrameProgressRenderer.activate).visible ref = false :=
        hgone event hlast hstop ref
      rw [hdark] at hlit
      cases hlit
    · intro hgone event hlast hstop ref
      rw [← Bool.not_eq_true]
      intro hlit
      obtain ⟨hl, hslot, hfits⟩ := (hvis ref).mp hlit
      rw [hgone event hlast hstop ref hl hslot] at hfits
      cases hfits
  | deactivate =>
    rw [settle_deactivate]
    exact iff_of_true (fun _ _ _ => FrameProgress.visible_deactivate h.kept) trivial

/-! ### Runs -/

/-- The renderer in a run, with the devices that its UI queue leads to once it is drained. -/
def drained (ide : EditorState) (c : Deferred MarkerRun (Nat → Bool) FrameProgressTask) :
    MarkerRun × (Nat → Bool) :=
  c.settled (FrameProgressRenderer.exec ide)

/-- The condition on a turn of a run: running a task needs none. -/
def TurnStaysOff (ide : EditorState) (c : Deferred MarkerRun (Nat → Bool) FrameProgressTask) :
    Turn MarkerOp → Prop
  | .call op => StaysOff ide c.state op
  | .task => True

/-- **The marker follows the last event** all along a run, with the UI queue drained, exactly
    when no call of `activate` finds a stopped program whose last line its document has. -/
theorem follows_iff_meets (ide : EditorState) (turns : List (Turn MarkerOp)) :
    (machine ide).Always (fun c => Follows ide (drained ide c)) (machine ide).init turns ↔
      (machine ide).Meets (TurnStaysOff ide) (machine ide).init turns := by
  refine @Lts.always_iff_meets_of_invariant _ _ (machine ide) (TurnStaysOff ide)
    (fun c => Tracks ide (drained ide c)) (fun c => Follows ide (drained ide c))
    (fun c turn c' h hstep => ?_) (fun c turn c' h hfollows hstep => ?_)
    (fun c turn hnone => ?_) _ tracks_new
    (tracks_new.follows_iff.mpr fun _ hlast => by cases hlast) turns
  · rw [drained, Deferred.settled_step hstep]
    cases turn with
    | call op => exact h.perform op
    | task => exact h
  · rw [drained, Deferred.settled_step hstep]
    cases turn with
    | call op => exact follows_perform_iff h op
    | task => exact iff_of_true hfollows trivial
  · cases turn with
    | call op => cases hnone
    | task => trivial

/-- An editor in which every line can be marked. -/
def allLines : EditorState := ⟨some, fun _ _ => true, fun _ _ _ => true, fun _ _ => true,
  fun _ => [0], fun _ => []⟩

/-- **Counterexample.** A line is reached, the program stops, and the renderer is switched on
    again: the marker is back. -/
theorem marker_after_stop :
    ¬ ∀ (ide : EditorState) (turns : List (Turn MarkerOp))
      (c : Deferred MarkerRun (Nat → Bool) FrameProgressTask),
      (machine ide).run (machine ide).init turns = some c → c.queue = [] →
        Follows ide (c.state, c.screen) := by
  intro h
  have hfollows := h allLines
    [.call (.onFrameProgressEvent ⟨"main.py", false, [], [], 1, none, 1⟩), .task,
      .call (.onFrameProgressEvent ⟨"main.py", true, [], [], 1, none, 1⟩), .task,
      .call .activate, .task] _ rfl rfl
  have hgone := hfollows.stopped _ rfl rfl 0
  cases hgone

end MarkerRun

end Reloadium.Profile
