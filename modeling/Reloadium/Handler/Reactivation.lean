import Reloadium.Handler.InactiveHandler

namespace Reloadium.Handler

open Reloadium.Lib Reloadium.Highlights Reloadium.Frames Reloadium.Profile Reloadium.Debugger

/-!
# Handler — switching a handler off and on

`deactivate` hides the highlights of six renderers and `activate` asks five of them to show
theirs again: the error highlights stay hidden.  The others are shown from their own
bookkeeping, whatever was visible before: of the thread errors the one of the selected
thread, of the current lines the one in the slot, even if a stop event had hidden it, and
the gutters of the present values.

`reactivate_iff` says when nothing changes on the screen: exactly when what was visible is
what these renderers show (`Restorable`).  Suggestions and traced functions always come
back.
-/

/-- What is visible is what an activation shows. -/
structure Restorable (ide : EditorState) (x : Shown) : Prop where
  /-- No error highlight is visible. -/
  errors : ∀ ref, x.2.errors.visible ref = false
  /-- Of the thread errors of the map that have a place, the selected thread's is active and
      no other. -/
  threadErrors : ∀ ref te, x.1.threadErrors.errors[ref]? = some te →
    ref ∈ x.1.threadErrors.values → te.highlighter.placeable ide = true →
      (te.active = true ↔ some te.threadId = x.1.debugThread)
  /-- The current line in the slot is visible, if it has a place. -/
  frameProgress : ∀ ref, x.frameProgress.Placed ide ref → x.frameProgress.visible ref = true
  /-- The gutters that are visible are those of the present values. -/
  gutters : ∀ g, g ∈ (x.preview x.1.activeProfiler).gutters ↔
    g ∈ (fileTimings x.1.profilers x.1.activeProfiler).filterMap (Preview.gutterOf ide)

variable {ide : EditorState} {x : Shown}

/-- A handler that has been deactivated and activated, with its tasks done. -/
def reactivated (ide : EditorState) (x : Shown) : Shown :=
  (activate ide).settle (Screen.exec ide) ((deactivate ide).settle (Screen.exec ide) x)

/-! ### The parts of the screen -/

theorem visible_reactivated_error (hkept : Kept ide x) (ref : Nat) :
    (reactivated ide x).2.errors.visible ref = false := by
  rw [reactivated, settle_activate, settle_deactivate]
  exact ErrorHighlightManager.not_visible_deactivate hkept.errors ref

theorem visible_reactivated_solution (hkept : Kept ide x) (hactive : x.1.active = true)
    (ref : Nat) : (reactivated ide x).solutions.visible ref = x.solutions.visible ref := by
  rw [reactivated, settle_activate, settle_deactivate]
  exact Solutions.visible_reactivate hkept.solutions (hkept.solutionsShown hactive) ref

theorem visible_reactivated_fastDebug (hkept : Kept ide x) (hactive : x.1.active = true)
    (i : Nat) : (reactivated ide x).2.fastDebug.visible i = x.2.fastDebug.visible i := by
  rw [reactivated, settle_activate, settle_deactivate]
  exact FastDebug.visible_reactivate hkept.fastDebug (hkept.fastDebugShown hactive) i

theorem visible_reactivated_frameProgress (hkept : Kept ide x) (ref : Nat) :
    (reactivated ide x).frameProgress.visible ref = true ↔ x.frameProgress.Placed ide ref := by
  rw [reactivated, settle_activate, settle_deactivate]
  exact FrameProgress.visible_reactivate hkept.frameProgress ref

theorem visible_reactivated_threadError (hkept : Kept ide x) {ref : Nat} {te : ThreadError}
    (hte : x.1.threadErrors.errors[ref]? = some te) :
    (reactivated ide x).threadErrors.visible ref =
      if ref ∈ x.1.threadErrors.values then
        decide (some te.threadId = x.1.debugThread) && te.highlighter.placeable ide
      else te.lit ide := by
  have hthread : x.1.threadOnActivate = x.1.debugThread := by
    rw [RunConfHandler.threadOnActivate, if_pos hkept.session]
  rw [reactivated, settle_activate, settle_deactivate, ← hthread]
  exact ThreadHighlights.visible_reactivate hkept.threadErrors x.1.threadOnActivate hte

/-- There is no highlight of an error that does not exist. -/
theorem not_visible_threadError {v : Shown} (hkept : Kept ide v) {ref : Nat}
    (hnone : v.1.threadErrors.errors[ref]? = none) : v.threadErrors.visible ref = false := by
  rw [hkept.threadErrors.lit ref]
  show v.1.threadErrors.errors[ref]?.any _ = false
  rw [hnone]
  rfl

theorem errors_reactivated_none {ref : Nat} (hnone : x.1.threadErrors.errors[ref]? = none) :
    (reactivated ide x).1.threadErrors.errors[ref]? = none := by
  rw [reactivated, settle_activate, settle_deactivate]
  exact ThreadHighlights.errors_step_none (fun _ hop => by cases hop)
    (ThreadHighlights.errors_step_none (fun _ hop => by cases hop) hnone)

/-- After an activation the active profiler shows its present values, and no other shows
    any. -/
theorem gutters_activate {y : Shown} (hkept : Kept ide y) (p : ProfilerType) :
    (Shown.preview ((activate ide).settle (Screen.exec ide) y) p).gutters =
      if p = y.1.activeProfiler then
        (fileTimings y.1.profilers y.1.activeProfiler).filterMap (Preview.gutterOf ide)
      else [] := by
  have hpreview := kept_activatedPreview ide y.1.profilers y.1.activeProfiler
    (hkept.previews.kept y.1.activeProfiler) fun hp => hkept.previews.idle _ (Or.inr hp)
  rw [settle_activate]
  show Preview.gutters (Function.update y.1.previews _ _ p, Function.update y.2.gutters _ _ p) = _
  by_cases hp : p = y.1.activeProfiler
  · subst hp
    rw [if_pos rfl, Function.update_self, Function.update_self]
    exact hpreview.2
  · rw [if_neg hp, Function.update_of_ne hp, Function.update_of_ne hp]
    exact hkept.previews.idle p (Or.inl hp)

theorem gutters_reactivated (hkept : Kept ide x) (p : ProfilerType) :
    ((reactivated ide x).preview p).gutters =
      if p = x.1.activeProfiler then
        (fileTimings x.1.profilers x.1.activeProfiler).filterMap (Preview.gutterOf ide)
      else [] := by
  rw [reactivated, gutters_activate hkept.deactivate, settle_deactivate]

/-- **What a reactivation restores**, in the settled handler. -/
theorem visible_reactivated_iff (hkept : Kept ide x) (hactive : x.1.active = true) :
    (∀ highlight, Visible (reactivated ide x) highlight ↔ Visible x highlight) ↔
      Restorable ide x := by
  apply Iff.intro
  · intro h
    refine ⟨fun ref => ?_, fun ref te hte hmem hplace => ?_, fun ref hplaced => ?_, fun g => ?_⟩
    · rw [← Bool.not_eq_true]
      intro hvis
      have hvis' : (reactivated ide x).2.errors.visible ref = true := (h (.error ref)).mpr hvis
      rw [visible_reactivated_error hkept] at hvis'
      cases hvis'
    · have hiff : (reactivated ide x).threadErrors.visible ref = true ↔
          x.threadErrors.visible ref = true := h (.threadError ref)
      rw [visible_reactivated_threadError hkept hte, if_pos hmem, hkept.threadErrors.lit ref,
        show x.threadErrors.1.errors[ref]? = some te from hte, Option.any_some,
        ThreadError.lit, hplace, Bool.and_true, Bool.and_true, decide_eq_true_iff] at hiff
      exact hiff.symm
    · exact (h (.frameProgress ref)).mp
        ((visible_reactivated_frameProgress hkept ref).mpr hplaced)
    · have hiff : g ∈ ((reactivated ide x).preview x.1.activeProfiler).gutters ↔
          g ∈ (x.preview x.1.activeProfiler).gutters := h (.gutter x.1.activeProfiler g)
      rw [gutters_reactivated hkept, if_pos rfl] at hiff
      exact hiff.symm
  · intro h highlight
    cases highlight with
    | error ref =>
      show (reactivated ide x).2.errors.visible ref = true ↔ x.2.errors.visible ref = true
      rw [visible_reactivated_error hkept, h.errors]
    | solution ref =>
      show (reactivated ide x).solutions.visible ref = true ↔ x.solutions.visible ref = true
      rw [visible_reactivated_solution hkept hactive]
    | threadError ref =>
      show (reactivated ide x).threadErrors.visible ref = true ↔
        x.threadErrors.visible ref = true
      cases hte : x.1.threadErrors.errors[ref]? with
      | none =>
        have hkept' : Kept ide (reactivated ide x) := hkept.deactivate.activate
        rw [not_visible_threadError hkept' (errors_reactivated_none hte),
          not_visible_threadError hkept hte]
      | some te =>
        rw [visible_reactivated_threadError hkept hte, hkept.threadErrors.lit ref,
          show x.threadErrors.1.errors[ref]? = some te from hte, Option.any_some]
        split
        · next hmem =>
          rw [ThreadError.lit, Bool.and_eq_true, Bool.and_eq_true, decide_eq_true_iff]
          exact and_congr_left fun hplace => (h.threadErrors ref te hte hmem hplace).symm
        · rfl
    | gutter p g =>
      show g ∈ ((reactivated ide x).preview p).gutters ↔ g ∈ (x.preview p).gutters
      rw [gutters_reactivated hkept]
      split
      · next hp =>
        subst hp
        exact (h.gutters g).symm
      · next hp =>
        have hidle : (x.preview p).gutters = [] := hkept.previews.idle p (Or.inl hp)
        rw [hidle]
    | frameProgress ref =>
      show (reactivated ide x).frameProgress.visible ref = true ↔
        x.frameProgress.visible ref = true
      rw [visible_reactivated_frameProgress hkept]
      exact ⟨h.frameProgress ref, hkept.frameProgress.placed ref⟩
    | fastDebug i =>
      show (reactivated ide x).2.fastDebug.visible i = true ↔ x.2.fastDebug.visible i = true
      rw [visible_reactivated_fastDebug hkept hactive]

/-! ### Runs -/

/-- A deactivation and an activation, with tasks running in between and afterwards. -/
def offAndOn (m n : Nat) : List (Turn HandlerOp) :=
  .call .deactivate :: List.replicate m .task ++ .call .activate :: List.replicate n .task

/-- **Switching away and back** restores the screen of an active handler, in every reachable
    state with a drained UI queue, exactly when what is visible there is what an activation
    shows. -/
theorem reactivate_iff {profiler : ProfilerType} {cumulateType : CumulateType}
    {turns : List (Turn HandlerOp)} {c c' : Deferred RunConfHandler Screen UiTask}
    (hrun : (machine ide profiler cumulateType).run (machine ide profiler cumulateType).init
      turns = some c) (hqueue : c.queue = []) (hactive : c.state.active = true) {m n : Nat}
    (hrun' : (machine ide profiler cumulateType).run c (offAndOn m n) = some c')
    (hqueue' : c'.queue = []) :
    (∀ highlight, Visible (c'.state, c'.screen) highlight ↔
        Visible (c.state, c.screen) highlight) ↔ Restorable ide (c.state, c.screen) := by
  have hsettled := Deferred.settled_run hrun'
  rw [offAndOn, List.foldl_append, List.foldl_cons, List.foldl_cons,
    Deferred.foldl_settle_tasks, Deferred.foldl_settle_tasks,
    Deferred.settled_of_queue_nil hqueue, Deferred.settled_of_queue_nil hqueue'] at hsettled
  have hkept := kept_run hrun
  rw [drained, Deferred.settled_of_queue_nil hqueue] at hkept
  rw [hsettled]
  exact visible_reactivated_iff hkept hactive

/-- The marker of a current line comes back. -/
theorem reactivate_marker :
    ∃ c c', (machine openEditor .NONE .ADD).run (machine openEditor .NONE .ADD).init
        [.call (.engine lateLineProfile), .task] = some c ∧
      (machine openEditor .NONE .ADD).run c (offAndOn 3 2) = some c' ∧
      Visible (c.state, c.screen) (.frameProgress 0) ∧
      ∀ highlight, Visible (c'.state, c'.screen) highlight ↔
        Visible (c.state, c.screen) highlight := by
  refine ⟨_, _, rfl, rfl, rfl, ?_⟩
  refine (@reactivate_iff openEditor .NONE .ADD [.call (.engine lateLineProfile), .task] _ _
    rfl rfl rfl 3 2 rfl rfl).mpr ⟨fun ref => rfl, fun ref te hte => ?_, fun ref hplaced => ?_,
      fun g => Iff.rfl⟩
  · cases hte
  · obtain ⟨hl, hslot, -⟩ := hplaced
    cases hslot
    rfl

/-- **Counterexample.** An error highlight is hidden with the handler and does not come
    back. -/
theorem error_highlight_lost :
    ¬ ∀ (ide : EditorState) (profiler : ProfilerType) (cumulateType : CumulateType)
      (turns : List (Turn HandlerOp)) (c c' : Deferred RunConfHandler Screen UiTask)
      (m n : Nat),
      (machine ide profiler cumulateType).run (machine ide profiler cumulateType).init turns =
        some c → c.queue = [] → c.state.active = true →
      (machine ide profiler cumulateType).run c (offAndOn m n) = some c' → c'.queue = [] →
      ∀ highlight, Visible (c'.state, c'.screen) highlight ↔
        Visible (c.state, c.screen) highlight := by
  intro h
  have hiff := h openEditor .NONE .ADD
    [.call (.engine (.userError "main.py" 1 "NameError")), .task] _ _ 2 1 rfl rfl rfl rfl rfl
    (.error 0)
  have hlost := hiff.mpr rfl
  cases hlost

end Reloadium.Handler
