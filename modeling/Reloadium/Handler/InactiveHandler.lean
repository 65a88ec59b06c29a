import Reloadium.Handler.RunConfHandler

namespace Reloadium.Handler

open Reloadium.Lib Reloadium.Highlights Reloadium.Frames Reloadium.Profile Reloadium.Debugger

/-!
# Handler — what an inactive handler shows

`deactivate` hides what the renderers show, but the events that come afterwards are rendered
as if the handler were active: no renderer asks for `active`.

* `EngineEvent.Shows` — the event puts something on the screen;
* `HandlerOp.StaysDark` — the operation puts nothing on the screen of an inactive handler,
  and a deactivation finds no visible thread error that has been replaced in the map;
* `dark_perform_iff` — this is exact for each operation;
* `dark_iff_meets` — and therefore for runs.
-/

/-- Nothing of the handler is visible. -/
def Dark (x : Shown) : Prop := ∀ highlight, ¬ Visible x highlight

/-- Some file of the profiler has values in a range that its document has. -/
def HasGutter (ide : EditorState) (profilers : Profilers String) (profiler : ProfilerType) : Prop :=
  ∃ e ∈ fileTimings profilers profiler, Preview.gutterOf ide e ≠ none

/-- The event puts something on the screen. -/
def EngineEvent.Shows (ide : EditorState) (h : RunConfHandler) : EngineEvent → Prop
  | .lineProfile event =>
    (event.stop = false ∧ (currentLine event).fits ide = true) ∨
      HasGutter ide (event.handle h.profilers) h.activeProfiler
  | .lineProfileClear _ => False
  | .threadError event path prediction =>
    (∃ file, event.file = some file ∧
      (⟨file, event.line, event.msg⟩ : ErrorHighlighter).placeable ide = true) ∨
    ∃ res, predictFix ide event path prediction = some res ∧
      ∃ solution, SolutionHighlightManager.newHighlighter ide path event.line event.msg res =
        some solution ∧ solution.placeable ide = true
  | .clearThreadError _ => False
  | .userError file line msg =>
    0 ≤ line ∧ (⟨file, line, msg⟩ : ErrorHighlighter).placeable ide = true
  | .clearErrors _ => False
  | .functionTraced event =>
    ∃ highlighter, FastDebug.traced ide event = some highlighter ∧ highlighter.fits ide = true

/-- The selected thread is another one than was notified last, and it has an error. -/
def SwitchShows (ide : EditorState) (h : RunConfHandler) : Prop :=
  h.sessionStarted = true ∧
    ¬ (h.threadErrors.lastThreadId ≠ none ∧ h.threadErrors.lastThreadId = h.activeThread) ∧
    ∃ ref te, h.threadErrors.errors[ref]? = some te ∧ ref ∈ h.threadErrors.values ∧
      some te.threadId = h.activeThread ∧ te.highlighter.placeable ide = true

/-- The operation leaves an inactive handler dark. -/
def HandlerOp.StaysDark (ide : EditorState) (h : RunConfHandler) : HandlerOp → Prop
  | .engine event => h.active = false → ¬ event.Shows ide h
  | .quickConfig profiler _ => h.active = false → ¬ HasGutter ide h.profilers profiler
  | .activate => True
  | .deactivate =>
    ∀ ref te, h.threadErrors.errors[ref]? = some te → te.lit ide = true →
      ref ∈ h.threadErrors.values
  | .selectThread _ => True
  | .stackFrameChanged => h.active = false → ¬ SwitchShows ide h

variable {ide : EditorState} {x : Shown}

/-! ### The parts of the screen -/

theorem dark_iff : Dark x ↔
    (∀ r, x.2.errors.visible r = false) ∧ (∀ r, x.solutions.visible r = false) ∧
      (∀ r, x.threadErrors.visible r = false) ∧ (∀ p, (x.preview p).gutters = []) ∧
      (∀ r, x.frameProgress.visible r = false) ∧ ∀ i, x.2.fastDebug.visible i = false := by
  simp only [← Bool.not_eq_true]
  apply Iff.intro
  · intro h
    exact ⟨fun r => h (.error r), fun r => h (.solution r), fun r => h (.threadError r),
      fun p => List.eq_nil_iff_forall_not_mem.mpr fun g => h (.gutter p g),
      fun r => h (.frameProgress r), fun i => h (.fastDebug i)⟩
  · rintro ⟨herror, hsolution, hthread, hgutter, hframe, hfast⟩ highlight
    cases highlight with
    | error ref => exact herror ref
    | solution ref => exact hsolution ref
    | threadError ref => exact hthread ref
    | gutter p g => exact List.eq_nil_iff_forall_not_mem.mp (hgutter p) g
    | frameProgress ref => exact hframe ref
    | fastDebug i => exact hfast i

/-- The gutters of a profiler. -/
theorem filterMap_gutterOf_eq_nil_iff {profilers : Profilers String} {p : ProfilerType} :
    (fileTimings profilers p).filterMap (Preview.gutterOf ide) = [] ↔
      ¬ HasGutter ide profilers p := by
  simp [List.filterMap_eq_nil_iff, HasGutter]

/-- Replacing one preview of a dark screen. -/
theorem gutters_update_iff {previews : ProfilerType → ProfilePreviewRenderer}
    {gutters : ProfilerType → GutterMarkup} {p : ProfilerType} {v : Preview}
    (h : ∀ q, q ≠ p → Preview.gutters (previews q, gutters q) = []) :
    (∀ q, Preview.gutters (Function.update previews p v.1 q, Function.update gutters p v.2 q) =
      []) ↔ v.gutters = [] := by
  apply Iff.intro
  · intro hall
    have hp := hall p
    rwa [Function.update_self, Function.update_self] at hp
  · intro hv q
    by_cases hq : q = p
    · subst hq
      rw [Function.update_self, Function.update_self]
      exact hv
    · rw [Function.update_of_ne hq, Function.update_of_ne hq]
      exact h q hq

/-! ### What each operation shows -/

theorem dark_lineProfile_iff (hkept : Kept ide x) (hdark : Dark x) (event : LineProfile String) :
    Dark ((EngineEvent.handle ide (.lineProfile event)).settle (Screen.exec ide) x) ↔
      ¬ (EngineEvent.lineProfile event).Shows ide x.1 := by
  obtain ⟨herror, hsolution, hthread, hgutter, -, hfast⟩ := dark_iff.mp hdark
  have hframe := fun r => FrameProgress.visible_renderFrameProgress hkept.frameProgress event r
  have hpreview := (Preview.settle_update ide
    (fileTimings (event.handle x.1.profilers) x.1.activeProfiler)
    (hkept.previews.kept x.1.activeProfiler)).2
  rw [settle_lineProfile, dark_iff, EngineEvent.Shows, not_or, ← filterMap_gutterOf_eq_nil_iff,
    ← hpreview]
  apply Iff.intro
  · rintro ⟨-, -, -, hgutter', hframe', -⟩
    refine ⟨fun hshown => ?_, (gutters_update_iff fun q _ => hgutter q).mp hgutter'⟩
    have hvis := (hframe x.1.frameProgress.created).mpr ⟨hshown.1, rfl, hshown.2⟩
    exact absurd hvis (by rw [Bool.not_eq_true]; exact hframe' _)
  · rintro ⟨hshown, hgutter'⟩
    refine ⟨herror, hsolution, hthread, (gutters_update_iff fun q _ => hgutter q).mpr hgutter',
      fun r => ?_, hfast⟩
    rw [← Bool.not_eq_true]
    intro hvis
    obtain ⟨hstop, -, hfits⟩ := (hframe r).mp hvis
    exact hshown ⟨hstop, hfits⟩

/-- The suggestions of a dark screen after a thread error. -/
theorem visible_suggestFix_iff {v : Solutions} (hkept : v.Kept ide)
    (hdark : ∀ r, v.visible r = false) (event : ThreadErrorEvent) (path : String)
    (prediction : Option String) :
    (∀ r, (v.settle (suggestFix ide event path prediction)).visible r = false) ↔
      ¬ ∃ res, predictFix ide event path prediction = some res ∧
        ∃ solution, SolutionHighlightManager.newHighlighter ide path event.line event.msg res =
          some solution ∧ solution.placeable ide = true := by
  unfold suggestFix
  cases predictFix ide event path prediction with
  | none => simpa using hdark
  | some res =>
    rw [Solutions.settle, Posting.settle_andThen]
    have hclear := SolutionHighlightManager.visible_clearAll hkept
    have hvis := SolutionHighlightManager.visible_add ide path event.line event.msg res
      (v.settle SolutionHighlightManager.clearAll)
    simp only [hclear, Bool.false_or] at hvis
    simp only [Solutions.settle] at hvis
    simp only [hvis, Option.some.injEq, exists_eq_left', Bool.and_eq_false_imp,
      decide_eq_true_eq, forall_eq]
    cases SolutionHighlightManager.newHighlighter ide path event.line event.msg res <;> simp

/-- The thread errors of a dark screen after a thread error. -/
theorem visible_onThreadError_iff {v : ThreadHighlights} (hkept : v.Kept ide)
    (hdark : ∀ r, v.visible r = false) (event : ThreadErrorEvent) :
    (∀ r, (v.settle ide (.onThreadError event)).visible r = false) ↔
      ¬ ∃ file, event.file = some file ∧
        (⟨file, event.line, event.msg⟩ : ErrorHighlighter).placeable ide = true := by
  simp only [ThreadHighlights.visible_onThreadError hkept, hdark, Bool.false_or,
    Bool.and_eq_false_imp, decide_eq_true_eq, forall_eq]
  cases event.file <;> simp

theorem dark_threadError_iff (hkept : Kept ide x) (hdark : Dark x) (event : ThreadErrorEvent)
    (path : String) (prediction : Option String) :
    Dark ((EngineEvent.handle ide (.threadError event path prediction)).settle
        (Screen.exec ide) x) ↔
      ¬ (EngineEvent.threadError event path prediction).Shows ide x.1 := by
  obtain ⟨herror, hsolution, hthread, hgutter, hframe, hfast⟩ := dark_iff.mp hdark
  rw [settle_threadError, dark_iff, EngineEvent.Shows, not_or,
    ← visible_suggestFix_iff hkept.solutions hsolution event path prediction,
    ← visible_onThreadError_iff hkept.threadErrors hthread event]
  exact ⟨fun h => ⟨h.2.2.1, h.2.1⟩,
    fun h => ⟨herror, h.2, h.1, hgutter, hframe, hfast⟩⟩

/-- What an operation of the thread errors alone shows. -/
theorem dark_threadOp_iff (hdark : Dark x) (op : ThreadOp) :
    Dark (((threadErrorsPart ide).lift (ThreadErrorManager.posting op)).settle
        (Screen.exec ide) x) ↔
      ∀ r, (x.threadErrors.settle ide op).visible r = false := by
  obtain ⟨herror, hsolution, -, hgutter, hframe, hfast⟩ := dark_iff.mp hdark
  rw [settle_threadErrors, dark_iff]
  exact ⟨fun h => h.2.2.1, fun h => ⟨herror, hsolution, h, hgutter, hframe, hfast⟩⟩

/-- The flags that an operation sets. -/
theorem visible_threadOp_iff {v : ThreadHighlights} (hkept : v.Kept ide) {op : ThreadOp}
    (hop : ∀ event, op ≠ .onThreadError event) :
    (∀ r, (v.settle ide op).visible r = false) ↔
      ∀ ref te, v.1.errors[ref]? = some te →
        (if ref ∈ v.1.values then
          op.flag v.1.lastThreadId te.threadId te.active && te.highlighter.placeable ide
        else te.lit ide) = false := by
  apply Iff.intro
  · intro h ref te hte
    rw [← ThreadHighlights.visible_settle hkept hte op]
    exact h ref
  · intro h ref
    cases hte : v.1.errors[ref]? with
    | some te =>
      rw [ThreadHighlights.visible_settle hkept hte op]
      exact h ref te hte
    | none =>
      rw [(hkept.step op).lit ref]
      show (v.1.step op).errors[ref]?.any _ = false
      rw [ThreadHighlights.errors_step_none hop hte]
      rfl

/-- In a dark screen no error is lit. -/
theorem not_lit {v : ThreadHighlights} (hkept : v.Kept ide) (hdark : ∀ r, v.visible r = false)
    {ref : Nat} {te : ThreadError} (hte : v.1.errors[ref]? = some te) : te.lit ide = false := by
  have hlit := hkept.lit ref
  rw [hdark ref, hte] at hlit
  exact hlit.symm

theorem dark_clearThreadError (hkept : Kept ide x) (hdark : Dark x) (threadId : String) :
    Dark ((EngineEvent.handle ide (.clearThreadError threadId)).settle (Screen.exec ide) x) := by
  have hthread := (dark_iff.mp hdark).2.2.1
  rw [EngineEvent.handle, dark_threadOp_iff hdark,
    visible_threadOp_iff hkept.threadErrors fun _ hop => by cases hop]
  intro ref te hte
  have hlit := not_lit hkept.threadErrors hthread hte
  unfold ThreadError.lit at hlit ⊢
  split
  · rw [ThreadOp.flag, Bool.and_right_comm, hlit, Bool.false_and]
  · exact hlit

theorem dark_stackFrameChanged_iff (hkept : Kept ide x) (hdark : Dark x) :
    Dark ((perform ide .stackFrameChanged).settle (Screen.exec ide) x) ↔
      ¬ SwitchShows ide x.1 := by
  have hthread := (dark_iff.mp hdark).2.2.1
  rw [perform, Posting.settle_reading, SwitchShows]
  by_cases hstarted : x.1.sessionStarted = true
  · rw [if_pos hstarted, dark_threadOp_iff hdark,
      visible_threadOp_iff hkept.threadErrors fun _ hop => by cases hop]
    simp only [ThreadOp.flag]
    apply Iff.intro
    · rintro h ⟨-, hexit, ref, te, hte, hmem, hid, hplace⟩
      have hfalse := h ref te hte
      have hmem' : ref ∈ x.threadErrors.1.values := hmem
      have hexit' : ¬ (x.threadErrors.1.lastThreadId ≠ none ∧
        x.threadErrors.1.lastThreadId = x.1.activeThread) := hexit
      rw [if_pos hmem', if_neg hexit', hplace] at hfalse
      simp [hid] at hfalse
    · intro h ref te hte
      have hlit := not_lit hkept.threadErrors hthread hte
      split
      · next hmem =>
        split
        · exact hlit
        · next hexit =>
          rw [← Bool.not_eq_true, Bool.and_eq_true, decide_eq_true_iff]
          rintro ⟨hid, hplace⟩
          exact h ⟨hstarted, hexit, ref, te, hte, hmem, hid, hplace⟩
      · exact hlit
  · rw [if_neg hstarted]
    exact iff_of_true hdark fun h => hstarted h.1

theorem dark_engine_iff (hkept : Kept ide x) (hdark : Dark x) (event : EngineEvent) :
    Dark ((event.handle ide).settle (Screen.exec ide) x) ↔ ¬ event.Shows ide x.1 := by
  obtain ⟨herror, hsolution, hthread, hgutter, hframe, hfast⟩ := dark_iff.mp hdark
  cases event with
  | lineProfile event => exact dark_lineProfile_iff hkept hdark event
  | lineProfileClear event =>
    refine iff_of_true ?_ id
    exact dark_iff.mpr ⟨herror, hsolution, hthread, hgutter, hframe, hfast⟩
  | threadError event path prediction =>
    exact dark_threadError_iff hkept hdark event path prediction
  | clearThreadError threadId =>
    exact iff_of_true (dark_clearThreadError hkept hdark threadId) id
  | userError file line msg =>
    rw [EngineEvent.handle, Posting.settle_post, dark_iff, EngineEvent.Shows]
    have hvis : (∀ r, (x.2.errors.add ide file line msg).visible r = false) ↔
        ¬ (0 ≤ line ∧ (⟨file, line, msg⟩ : ErrorHighlighter).placeable ide = true) := by
      simp only [ErrorHighlightManager.visible_add, herror]
      by_cases hline : 0 ≤ line <;> simp [hline]
    exact ⟨fun h => hvis.mp h.1,
      fun h => ⟨hvis.mpr h, hsolution, hthread, hgutter, hframe, hfast⟩⟩
  | clearErrors file =>
    refine iff_of_true ?_ id
    rw [EngineEvent.handle, Posting.settle_post, dark_iff]
    refine ⟨fun r => ?_, hsolution, hthread, hgutter, hframe, hfast⟩
    show (x.2.errors.clearFile file).visible r = false
    rw [ErrorHighlightManager.visible_clearFile, herror, ite_self]
  | functionTraced event =>
    rw [EngineEvent.handle, Posting.settle_post, dark_iff, EngineEvent.Shows]
    have hvis : (∀ i, (FastDebug.onFunctionTracedEvent ide x.2.fastDebug event).visible i = false) ↔
        ¬ ∃ hl, FastDebug.traced ide event = some hl ∧ hl.fits ide = true := by
      simp only [FastDebug.visible_onFunctionTracedEvent, hfast, Bool.false_or,
        Bool.and_eq_false_imp, decide_eq_true_eq, forall_eq]
      cases FastDebug.traced ide event <;> simp
    exact ⟨fun h => hvis.mp h.2.2.2.2.2,
      fun h => ⟨herror, hsolution, hthread, hgutter, hframe, hvis.mpr h⟩⟩

theorem dark_onQuickConfigChange_iff (hkept : Kept ide x) (hdark : Dark x)
    (profiler : ProfilerType) (cumulateType : CumulateType) :
    Dark ((onQuickConfigChange ide profiler cumulateType).settle (Screen.exec ide) x) ↔
      ¬ HasGutter ide x.1.profilers profiler := by
  obtain ⟨herror, hsolution, hthread, hgutter, hframe, hfast⟩ := dark_iff.mp hdark
  obtain ⟨previews, gutters, v, hv, hpreviews, hgutters, heq⟩ :=
    settle_onQuickConfigChange ide profiler cumulateType x
  have hpreview := hkept.previews.kept x.1.activeProfiler
  have hdeactivated := Preview.gutters_deactivate ide hpreview
  -- the old gutters are gone, and the old previews keep their invariant
  have hold : ∀ q, Preview.gutters (previews q, gutters q) = [] := by
    subst hpreviews hgutters
    exact (gutters_update_iff fun q _ => hgutter q).mpr hdeactivated
  have hkept' : Preview.Kept (previews profiler, gutters profiler) := by
    subst hpreviews hgutters
    exact (hkept.previews.update (hpreview.deactivate ide) fun _ => hdeactivated).kept profiler
  have hnew := (kept_activatedPreview ide { x.1.profilers with cumulateType } profiler hkept'
    fun _ => hold profiler).2
  have hsame : fileTimings { x.1.profilers with cumulateType } profiler =
      fileTimings x.1.profilers profiler := by
    cases profiler <;> rfl
  rw [← hv, hsame] at hnew
  rw [heq, dark_iff, ← filterMap_gutterOf_eq_nil_iff, ← hnew]
  exact ⟨fun h => (gutters_update_iff fun q _ => hold q).mp h.2.2.2.1,
    fun h => ⟨herror, hsolution, hthread, (gutters_update_iff fun q _ => hold q).mpr h,
      hframe, hfast⟩⟩

/-- A deactivation leaves the visible thread errors that have been replaced in the map. -/
theorem dark_deactivate_iff (hkept : Kept ide x) :
    Dark ((deactivate ide).settle (Screen.exec ide) x) ↔
      ∀ ref te, x.1.threadErrors.errors[ref]? = some te → te.lit ide = true →
        ref ∈ x.1.threadErrors.values := by
  have hpreview := hkept.previews.kept x.1.activeProfiler
  have hthread : (∀ r, (x.threadErrors.settle ide .deactivate).visible r = false) ↔
      ∀ ref te, x.1.threadErrors.errors[ref]? = some te → te.lit ide = true →
        ref ∈ x.1.threadErrors.values := by
    simp only [ThreadHighlights.visible_deactivate hkept.threadErrors, hkept.threadErrors.lit]
    apply Iff.intro
    · intro h ref te hte hlit
      have hfalse := h ref
      rw [show x.threadErrors.1.errors[ref]? = some te from hte, Option.any_some, hlit,
        Bool.true_and, decide_eq_false_iff_not, not_not] at hfalse
      exact hfalse
    · intro h ref
      cases hte : x.threadErrors.1.errors[ref]? with
      | none => rfl
      | some te =>
        cases hlit : te.lit ide with
        | false => simp [hlit]
        | true =>
          have hmem : ref ∈ x.threadErrors.1.values := h ref te hte hlit
          simp [hmem]
  rw [settle_deactivate, dark_iff, ← hthread]
  refine ⟨fun h => h.2.2.1, fun h => ⟨?_, ?_, h, ?_, ?_, ?_⟩⟩
  · exact ErrorHighlightManager.not_visible_deactivate hkept.errors
  · exact Solutions.visible_deactivate hkept.solutions
  · exact (gutters_update_iff fun q hq => hkept.previews.idle q (Or.inl hq)).mpr
      (Preview.gutters_deactivate ide hpreview)
  · exact FrameProgress.visible_deactivate hkept.frameProgress
  · exact FastDebug.visible_deactivate ide x.2.fastDebug

/-! ### Every operation and every run -/

/-- No event of the engine makes a handler active or inactive. -/
theorem active_engine (event : EngineEvent) (x : Shown) :
    ((event.handle ide).settle (Screen.exec ide) x).1.active = x.1.active := by
  cases event with
  | lineProfile event => rw [settle_lineProfile]
  | lineProfileClear event => rfl
  | threadError event path prediction => rw [settle_threadError]
  | clearThreadError threadId => rfl
  | userError file line msg => rfl
  | clearErrors file => rfl
  | functionTraced event => rfl

/-- **Step lemma.** Once its tasks have run, an operation leaves an inactive handler dark
    exactly when it meets the condition. -/
theorem dark_perform_iff (hkept : Kept ide x) (hdark : x.1.active = false → Dark x)
    (op : HandlerOp) :
    (((perform ide op).settle (Screen.exec ide) x).1.active = false →
        Dark ((perform ide op).settle (Screen.exec ide) x)) ↔ op.StaysDark ide x.1 := by
  cases op with
  | engine event =>
    rw [perform, active_engine, HandlerOp.StaysDark]
    exact imp_congr_right fun hactive => dark_engine_iff hkept (hdark hactive) event
  | quickConfig profiler cumulateType =>
    obtain ⟨_, _, _, -, -, -, heq⟩ :=
      settle_onQuickConfigChange ide profiler cumulateType x
    have hsame : ((perform ide (.quickConfig profiler cumulateType)).settle
        (Screen.exec ide) x).1.active = x.1.active := by
      rw [perform, heq]
    rw [hsame, HandlerOp.StaysDark]
    exact imp_congr_right fun hactive =>
      dark_onQuickConfigChange_iff hkept (hdark hactive) profiler cumulateType
  | activate =>
    rw [perform, settle_activate]
    exact iff_of_true (fun hactive => by cases hactive) trivial
  | deactivate =>
    rw [HandlerOp.StaysDark, ← dark_deactivate_iff hkept, perform]
    refine ⟨fun h => h ?_, fun h _ => h⟩
    rw [settle_deactivate]
  | selectThread thread =>
    refine iff_of_true (fun hactive => ?_) trivial
    exact dark_iff.mpr (dark_iff.mp (hdark hactive))
  | stackFrameChanged =>
    have hsame : ((perform ide .stackFrameChanged).settle (Screen.exec ide) x).1.active =
        x.1.active := by
      rw [perform, Posting.settle_reading]
      split <;> rfl
    rw [hsame, HandlerOp.StaysDark]
    exact imp_congr_right fun hactive => dark_stackFrameChanged_iff hkept (hdark hactive)

/-- The condition on a turn of a run: running a task needs none. -/
def StaysDark (ide : EditorState) (c : Deferred RunConfHandler Screen UiTask) :
    Turn HandlerOp → Prop
  | .call op => op.StaysDark ide c.state
  | .task => True

/-- **An inactive handler shows nothing** once its UI queue is drained, all along a run,
    exactly when every call of the run meets the condition. -/
theorem dark_iff_meets (ide : EditorState) (profiler : ProfilerType) (cumulateType : CumulateType)
    (turns : List (Turn HandlerOp)) :
    (machine ide profiler cumulateType).Always
        (fun c => c.state.active = false → Dark (drained ide c))
        (machine ide profiler cumulateType).init turns ↔
      (machine ide profiler cumulateType).Meets (StaysDark ide)
        (machine ide profiler cumulateType).init turns := by
  refine Lts.always_iff_meets_of_invariant (fun _ _ _ hkept hstep => kept_step hkept hstep)
    (fun c turn c' hkept hdark hstep => ?_) (fun c turn hnone => ?_) kept_new
    (fun hactive => by cases hactive) turns
  · have hsettled := Deferred.settled_step hstep
    cases turn with
    | call op =>
      rw [drained, hsettled, show c'.state.active =
        ((perform ide op).settle (Screen.exec ide) (drained ide c)).1.active from
          congrArg (fun x => x.1.active) hsettled]
      exact dark_perform_iff hkept hdark op
    | task =>
      rw [drained, hsettled, show c'.state.active = c.state.active from
        congrArg (fun x => x.1.active) hsettled]
      exact iff_of_true hdark trivial
  · cases turn with
    | call op => cases hnone
    | task => trivial

/-- A line profile event for an inactive handler. -/
def lateLineProfile : EngineEvent :=
  .lineProfile ⟨"main.py", false, [], [], 1, none, 1⟩

/-- An editor that finds every line. -/
def openEditor : EditorState := ⟨some, fun _ _ => true, fun _ _ _ => true, fun _ _ => true,
  fun _ => [0], fun _ => []⟩

/-- **Counterexample.** A handler is deactivated, and then a line is reported: with the UI
    queue drained the marker of the current line is visible. -/
theorem late_line_profile_visible :
    ¬ ∀ (ide : EditorState) (profiler : ProfilerType) (cumulateType : CumulateType)
      (turns : List (Turn HandlerOp)) (c : Deferred RunConfHandler Screen UiTask),
      (machine ide profiler cumulateType).run (machine ide profiler cumulateType).init turns =
        some c → c.queue = [] → c.state.active = false → Dark (c.state, c.screen) := by
  intro h
  exact h openEditor .NONE .ADD
    [.call .deactivate, .task, .task, .call (.engine lateLineProfile), .task] _ rfl rfl rfl
    (.frameProgress 0) rfl

end Reloadium.Handler
