import Reloadium.Debugger.FastDebug
import Reloadium.Frames.ThreadHighlights
import Reloadium.Highlights.SolutionHighlightManager
import Reloadium.Profile.FrameProgressRenderer
import Reloadium.Profile.ProfilePreviewRenderer

namespace Reloadium.Handler

open Reloadium.Lib Reloadium.Highlights Reloadium.Frames Reloadium.Profile Reloadium.Debugger

/-!
# Handler — the renderers of a run

Model of the part of `rw.handler.RunConfHandler` that shows something in the editor: its six
renderers, the engine's events that feed them, and `activate`, `deactivate` and
`onQuickConfigChange`.  The operations run on the threads of their callers and change a
`RunConfHandler`; what they post runs on the UI thread and changes a `Screen`.

* `perform` — the operations, with what they post in the order they post it;
* `Visible` — what is on the screen;
* `Kept`, `Kept.perform` — the invariants of the renderers hold after every operation, once
  its tasks have run.
-/

/-- `ProfilerType`. -/
inductive ProfilerType where
  | TIME
  | MEMORY
  | NONE
  deriving DecidableEq, Repr

/-- `getFileTimings` of a profiler.  The one for `NONE` never has any. -/
def fileTimings (s : Profilers String) : ProfilerType → List (String × FileStore)
  | .TIME => s.timeProfiler.values
  | .MEMORY => s.memoryProfiler.values
  | .NONE => []

/-- `RunConfHandler`.  `sessionStarted` says that the thread errors know the debug session,
    and `debugThread` is the thread that session has suspended and selected. -/
structure RunConfHandler where
  active : Bool
  firstActivate : Bool
  activeProfiler : ProfilerType
  profilers : Profilers String
  previews : ProfilerType → ProfilePreviewRenderer
  threadErrors : ThreadErrorManager
  sessionStarted : Bool
  debugThread : Option String
  solutions : SolutionHighlightManager
  frameProgress : FrameProgressRenderer

/-- What the tasks of the UI thread work on. -/
structure Screen where
  threadErrors : Nat → Marks
  errors : ErrorHighlightManager
  solutions : Nat → List Inlay
  frameProgress : Nat → Bool
  fastDebug : FastDebug
  gutters : ProfilerType → GutterMarkup

/-- What the renderers post. -/
inductive UiTask where
  | threadError (task : ThreadTask)
  | error (task : ErrorTask)
  | solution (task : SolutionTask)
  | frameProgress (task : FrameProgressTask)
  | fastDebug (task : FastDebugTask)
  | gutter (profiler : ProfilerType) (task : GutterTask)

/-- One task. -/
def Screen.exec (ide : EditorState) (u : Screen) : UiTask → Screen
  | .threadError task =>
    { u with threadErrors := ThreadErrorManager.exec ide u.threadErrors task }
  | .error task => { u with errors := u.errors.exec ide task }
  | .solution task => { u with solutions := SolutionHighlightManager.exec u.solutions task }
  | .frameProgress task =>
    { u with frameProgress := FrameProgressRenderer.exec ide u.frameProgress task }
  | .fastDebug task => { u with fastDebug := FastDebug.exec ide u.fastDebug task }
  | .gutter profiler task =>
    { u with
      gutters := Function.update u.gutters profiler
        (ProfilePreviewRenderer.exec ide (u.gutters profiler) task) }

/-! ### The renderers as parts of the handler -/

/-- `threadErrorManager`. -/
def threadErrorsPart (ide : EditorState) :
    Component (Screen.exec ide) (ThreadErrorManager.exec ide) RunConfHandler
      ThreadErrorManager where
  get := RunConfHandler.threadErrors
  set h threadErrors := { h with threadErrors }
  view := Screen.threadErrors
  put u threadErrors := { u with threadErrors }
  post := UiTask.threadError
  view_put _ _ := rfl
  put_view _ := rfl
  put_put _ _ _ := rfl
  exec_post _ _ := rfl

/-- `solutionHighlightManager`. -/
def solutionsPart (ide : EditorState) :
    Component (Screen.exec ide) SolutionHighlightManager.exec RunConfHandler
      SolutionHighlightManager where
  get := RunConfHandler.solutions
  set h solutions := { h with solutions }
  view := Screen.solutions
  put u solutions := { u with solutions }
  post := UiTask.solution
  view_put _ _ := rfl
  put_view _ := rfl
  put_put _ _ _ := rfl
  exec_post _ _ := rfl

/-- `frameProgressRenderer`. -/
def frameProgressPart (ide : EditorState) :
    Component (Screen.exec ide) (FrameProgressRenderer.exec ide) RunConfHandler
      FrameProgressRenderer where
  get := RunConfHandler.frameProgress
  set h frameProgress := { h with frameProgress }
  view := Screen.frameProgress
  put u frameProgress := { u with frameProgress }
  post := UiTask.frameProgress
  view_put _ _ := rfl
  put_view _ := rfl
  put_put _ _ _ := rfl
  exec_post _ _ := rfl

/-- The preview renderer of a profiler. -/
def previewPart (ide : EditorState) (profiler : ProfilerType) :
    Component (Screen.exec ide) (ProfilePreviewRenderer.exec ide) RunConfHandler
      ProfilePreviewRenderer where
  get h := h.previews profiler
  set h preview := { h with previews := Function.update h.previews profiler preview }
  view u := u.gutters profiler
  put u gutters := { u with gutters := Function.update u.gutters profiler gutters }
  post := UiTask.gutter profiler
  view_put u gutters := Function.update_self profiler gutters u.gutters
  put_view u := by rw [Function.update_eq_self]
  put_put u v w := by rw [Function.update_idem]
  exec_post _ _ := rfl

namespace RunConfHandler

/-- The handler its constructor builds, with the profiler and the cumulate type of its quick
    config. -/
def new (profiler : ProfilerType) (cumulateType : CumulateType) : RunConfHandler where
  active := true
  firstActivate := true
  activeProfiler := profiler
  profilers := .new cumulateType
  previews _ := .new
  threadErrors := .new
  sessionStarted := false
  debugThread := none
  solutions := .new
  frameProgress := .new

/-- `getActiveThread`. -/
def activeThread (h : RunConfHandler) : Option String :=
  if h.sessionStarted then h.debugThread else none

end RunConfHandler

/-- Nothing is on the screen. -/
def Screen.new : Screen where
  threadErrors _ := .new
  errors := .new
  solutions _ := []
  frameProgress _ := false
  fastDebug := []
  gutters _ := ⟨0, [], fun _ => none⟩

/-! ### The operations -/

section Operations

variable (ide : EditorState)

/-- `LineProfiler.activate`; `NoneProfiler` overrides it to do nothing. -/
def activateProfiler (profiler : ProfilerType) : Posting RunConfHandler UiTask :=
  if profiler = .NONE then Posting.skip
  else Posting.reading fun h =>
    (previewPart ide profiler).lift
      (ProfilePreviewRenderer.activate (fileTimings h.profilers profiler))

/-- `LineProfiler.deactivate`. -/
def deactivateProfiler (profiler : ProfilerType) : Posting RunConfHandler UiTask :=
  (previewPart ide profiler).lift ProfilePreviewRenderer.deactivate

/-- `LineProfiler.update`. -/
def updateProfiler (profiler : ProfilerType) : Posting RunConfHandler UiTask :=
  Posting.reading fun h =>
    (previewPart ide profiler).lift
      (ProfilePreviewRenderer.update (fileTimings h.profilers profiler))

/-- `RunConfHandler.activate`. -/
def activate : Posting RunConfHandler UiTask :=
  Posting.sequence
    [Posting.reading fun h => activateProfiler ide h.activeProfiler,
      (solutionsPart ide).lift (SolutionHighlightManager.activate ide),
      (frameProgressPart ide).lift FrameProgressRenderer.activate,
      -- in `onFirstActivate` the thread errors get to know the debug session
      Posting.modify fun h => { h with sessionStarted := h.sessionStarted || h.firstActivate },
      Posting.reading fun h =>
        (threadErrorsPart ide).lift (ThreadErrorManager.posting (.activate h.activeThread)),
      Posting.post (.fastDebug .activate),
      Posting.modify fun h => { h with active := true, firstActivate := false }]

/-- `RunConfHandler.deactivate`. -/
def deactivate : Posting RunConfHandler UiTask :=
  Posting.sequence
    [Posting.post (.error .deactivate),
      (solutionsPart ide).lift SolutionHighlightManager.deactivate,
      (threadErrorsPart ide).lift (ThreadErrorManager.posting .deactivate),
      Posting.reading fun h => deactivateProfiler ide h.activeProfiler,
      (frameProgressPart ide).lift FrameProgressRenderer.deactivate,
      Posting.post (.fastDebug .deactivate),
      Posting.modify fun h => { h with active := false }]

/-- `RunConfHandler.onQuickConfigChange`, on the two settings that the renderers depend on. -/
def onQuickConfigChange (profiler : ProfilerType) (cumulateType : CumulateType) :
    Posting RunConfHandler UiTask :=
  Posting.sequence
    [Posting.reading fun h => deactivateProfiler ide h.activeProfiler,
      Posting.modify fun h =>
        { h with activeProfiler := profiler, profilers := { h.profilers with cumulateType } },
      Posting.reading fun h => activateProfiler ide h.activeProfiler]

/-- The fix that `ThreadErrorEvent.handle` gets: the line of the error is read from the
    document, and the completion service predicts one for it.  `prediction` is none if the
    service throws. -/
def predictFix (event : ThreadErrorEvent) (path : String) (prediction : Option String) :
    Option String :=
  (ide.virtualFile path).bind fun file =>
    if ide.hasOffsets file (event.line - 1) then prediction else none

/-- The rest of `ThreadErrorEvent.handle`: the fix is suggested. -/
def suggestFix (event : ThreadErrorEvent) (path : String) (prediction : Option String) :
    Posting SolutionHighlightManager SolutionTask :=
  match predictFix ide event path prediction with
  -- an exception on the way to the fix ends the handling of the event
  | none => Posting.skip
  | some res =>
    SolutionHighlightManager.clearAll.andThen
      (SolutionHighlightManager.add ide path event.line event.msg res)

end Operations

/-- The events of the engine that the renderers are fed with. -/
inductive EngineEvent where
  | lineProfile (event : LineProfile String)
  | lineProfileClear (event : LineProfileClear String)
  | threadError (event : ThreadErrorEvent) (path : String) (prediction : Option String)
  | clearThreadError (threadId : String)
  | userError (file : String) (line : Int) (msg : String)
  | clearErrors (file : String)
  | functionTraced (event : FunctionTraced)

/-- `Event.handle`. -/
def EngineEvent.handle (ide : EditorState) : EngineEvent → Posting RunConfHandler UiTask
  | .lineProfile event =>
    Posting.sequence
      [(frameProgressPart ide).lift (FrameProgressRenderer.renderFrameProgress event),
        Posting.modify fun h => { h with profilers := event.handle h.profilers },
        Posting.reading fun h => updateProfiler ide h.activeProfiler]
  | .lineProfileClear event =>
    Posting.modify fun h => { h with profilers := event.handle h.profilers }
  | .threadError event path prediction =>
    Posting.sequence
      [(threadErrorsPart ide).lift (ThreadErrorManager.posting (.onThreadError event)),
        (solutionsPart ide).lift (suggestFix ide event path prediction)]
  | .clearThreadError threadId =>
    (threadErrorsPart ide).lift (ThreadErrorManager.posting (.onThreadErrorClear threadId))
  | .userError file line msg => Posting.post (.error (.add file line msg))
  | .clearErrors file => Posting.post (.error (.clearFile file))
  | .functionTraced event => Posting.post (.fastDebug (.onFunctionTracedEvent event))

/-- What happens to a handler.  The debugger selects a thread, and it notifies the listener
    that the first activation has added. -/
inductive HandlerOp where
  | engine (event : EngineEvent)
  | quickConfig (profiler : ProfilerType) (cumulateType : CumulateType)
  | activate
  | deactivate
  | selectThread (thread : Option String)
  | stackFrameChanged

/-- One operation. -/
def perform (ide : EditorState) : HandlerOp → Posting RunConfHandler UiTask
  | .engine event => event.handle ide
  | .quickConfig profiler cumulateType => onQuickConfigChange ide profiler cumulateType
  | .activate => activate ide
  | .deactivate => deactivate ide
  | .selectThread thread => Posting.modify fun h => { h with debugThread := thread }
  | .stackFrameChanged =>
    Posting.reading fun h =>
      if h.sessionStarted then
        (threadErrorsPart ide).lift (ThreadErrorManager.posting (.onThreadChanged h.activeThread))
      else Posting.skip

/-- A new handler with the tasks of its renderers in any interleaving. -/
def machine (ide : EditorState) (profiler : ProfilerType) (cumulateType : CumulateType) :
    Lts (Deferred RunConfHandler Screen UiTask) (Turn HandlerOp) :=
  Deferred.machine (perform ide) (Screen.exec ide) (.new profiler cumulateType, .new)

/-! ### What is on the screen -/

/-- A handler and its screen. -/
abbrev Shown := RunConfHandler × Screen

namespace Shown

def threadErrors (x : Shown) : ThreadHighlights := (x.1.threadErrors, x.2.threadErrors)

def solutions (x : Shown) : Solutions := (x.1.solutions, x.2.solutions)

def frameProgress (x : Shown) : FrameProgress := (x.1.frameProgress, x.2.frameProgress)

def preview (x : Shown) (profiler : ProfilerType) : Preview :=
  (x.1.previews profiler, x.2.gutters profiler)

end Shown

/-- The highlights of a handler: those of its renderers by number, the gutters by their
    lines. -/
inductive Highlight where
  | error (ref : Nat)
  | solution (ref : Nat)
  | threadError (ref : Nat)
  | gutter (profiler : ProfilerType) (gutter : Gutter)
  | frameProgress (ref : Nat)
  | fastDebug (i : Nat)

/-- The highlight is visible. -/
def Visible (x : Shown) : Highlight → Prop
  | .error ref => x.2.errors.visible ref = true
  | .solution ref => x.solutions.visible ref = true
  | .threadError ref => x.threadErrors.visible ref = true
  | .gutter profiler gutter => gutter ∈ (x.preview profiler).gutters
  | .frameProgress ref => x.frameProgress.visible ref = true
  | .fastDebug i => x.2.fastDebug.visible i = true

/-- The previews keep their invariant, and none that is idle has a gutter: neither one of a
    profiler that is not the active one, nor the one without values. -/
structure PreviewsKept (activeProfiler : ProfilerType)
    (previews : ProfilerType → ProfilePreviewRenderer)
    (gutters : ProfilerType → GutterMarkup) : Prop where
  kept : ∀ p, Preview.Kept (previews p, gutters p)
  idle : ∀ p, p ≠ activeProfiler ∨ p = .NONE → Preview.gutters (previews p, gutters p) = []

/-- What every operation keeps: the invariants of the renderers, in an active handler no
    hidden suggestion or traced function, and the debug session known as soon as a first
    activation has been. -/
structure Kept (ide : EditorState) (x : Shown) : Prop where
  threadErrors : x.threadErrors.Kept ide
  errors : x.2.errors.Owned
  solutions : x.solutions.Kept ide
  frameProgress : x.frameProgress.Kept ide
  fastDebug : x.2.fastDebug.Kept ide
  previews : PreviewsKept x.1.activeProfiler x.1.previews x.2.gutters
  solutionsShown : x.1.active = true → x.solutions.Shown ide
  fastDebugShown : x.1.active = true → x.2.fastDebug.Shown ide
  session : (x.1.sessionStarted || x.1.firstActivate) = true

/-! ### The settled operations -/

variable {ide : EditorState} {x : Shown}

/-- The preview of a profiler after its `activate`. -/
def activatedPreview (ide : EditorState) (profilers : Profilers String) (profiler : ProfilerType)
    (v : Preview) : Preview :=
  if profiler = .NONE then v
  else v.settle ide (ProfilePreviewRenderer.activate (fileTimings profilers profiler))

/-- An operation of the solutions changes them only. -/
theorem settle_solutions (o : Posting SolutionHighlightManager SolutionTask) (x : Shown) :
    ((solutionsPart ide).lift o).settle (Screen.exec ide) x =
      ({ x.1 with solutions := (x.solutions.settle o).1 },
        { x.2 with solutions := (x.solutions.settle o).2 }) :=
  (solutionsPart ide).settle_lift o x

/-- An operation of the thread errors changes them only. -/
theorem settle_threadErrors (op : ThreadOp) (x : Shown) :
    ((threadErrorsPart ide).lift (ThreadErrorManager.posting op)).settle (Screen.exec ide) x =
      ({ x.1 with threadErrors := (x.threadErrors.settle ide op).1 },
        { x.2 with threadErrors := (x.threadErrors.settle ide op).2 }) :=
  (threadErrorsPart ide).settle_lift _ x

/-- An operation of the frame progress changes it only. -/
theorem settle_frameProgress (o : Posting FrameProgressRenderer FrameProgressTask) (x : Shown) :
    ((frameProgressPart ide).lift o).settle (Screen.exec ide) x =
      ({ x.1 with frameProgress := (x.frameProgress.settle ide o).1 },
        { x.2 with frameProgress := (x.frameProgress.settle ide o).2 }) :=
  (frameProgressPart ide).settle_lift o x

/-- An operation of a preview changes that one only. -/
theorem settle_preview (profiler : ProfilerType) (o : Posting ProfilePreviewRenderer GutterTask)
    (x : Shown) :
    ((previewPart ide profiler).lift o).settle (Screen.exec ide) x =
      ({ x.1 with
          previews := Function.update x.1.previews profiler ((x.preview profiler).settle ide o).1 },
        { x.2 with
          gutters := Function.update x.2.gutters profiler ((x.preview profiler).settle ide o).2 }) :=
  (previewPart ide profiler).settle_lift o x

theorem settle_activateProfiler (profiler : ProfilerType) (x : Shown) :
    (activateProfiler ide profiler).settle (Screen.exec ide) x =
      ({ x.1 with
          previews := Function.update x.1.previews profiler
            (activatedPreview ide x.1.profilers profiler (x.preview profiler)).1 },
        { x.2 with
          gutters := Function.update x.2.gutters profiler
            (activatedPreview ide x.1.profilers profiler (x.preview profiler)).2 }) := by
  unfold activateProfiler activatedPreview
  split
  · simp [Shown.preview]
  · rw [Posting.settle_reading, settle_preview]

theorem settle_deactivate (x : Shown) :
    (deactivate ide).settle (Screen.exec ide) x =
      ({ x.1 with
          solutions := (x.solutions.settle SolutionHighlightManager.deactivate).1
          threadErrors := (x.threadErrors.settle ide .deactivate).1
          previews := Function.update x.1.previews x.1.activeProfiler
            ((x.preview x.1.activeProfiler).settle ide ProfilePreviewRenderer.deactivate).1
          frameProgress := (x.frameProgress.settle ide FrameProgressRenderer.deactivate).1
          active := false },
        { threadErrors := (x.threadErrors.settle ide .deactivate).2
          errors := x.2.errors.deactivate
          solutions := (x.solutions.settle SolutionHighlightManager.deactivate).2
          frameProgress := (x.frameProgress.settle ide FrameProgressRenderer.deactivate).2
          fastDebug := x.2.fastDebug.exec ide .deactivate
          gutters := Function.update x.2.gutters x.1.activeProfiler
            ((x.preview x.1.activeProfiler).settle ide ProfilePreviewRenderer.deactivate).2 }) := by
  simp only [deactivate, deactivateProfiler, Posting.settle_sequence_cons,
    Posting.settle_sequence_nil, Posting.settle_post, Posting.settle_modify,
    Posting.settle_reading, settle_solutions, settle_threadErrors, settle_frameProgress,
    settle_preview]
  rfl

/-- The thread that the first activation makes known. -/
def RunConfHandler.threadOnActivate (h : RunConfHandler) : Option String :=
  if h.sessionStarted || h.firstActivate then h.debugThread else none

theorem settle_activate (x : Shown) :
    (activate ide).settle (Screen.exec ide) x =
      ({ x.1 with
          previews := Function.update x.1.previews x.1.activeProfiler
            (activatedPreview ide x.1.profilers x.1.activeProfiler
              (x.preview x.1.activeProfiler)).1
          solutions := (x.solutions.settle (SolutionHighlightManager.activate ide)).1
          frameProgress := (x.frameProgress.settle ide FrameProgressRenderer.activate).1
          threadErrors := (x.threadErrors.settle ide (.activate x.1.threadOnActivate)).1
          sessionStarted := x.1.sessionStarted || x.1.firstActivate
          active := true
          firstActivate := false },
        { x.2 with
          gutters := Function.update x.2.gutters x.1.activeProfiler
            (activatedPreview ide x.1.profilers x.1.activeProfiler
              (x.preview x.1.activeProfiler)).2
          solutions := (x.solutions.settle (SolutionHighlightManager.activate ide)).2
          frameProgress := (x.frameProgress.settle ide FrameProgressRenderer.activate).2
          threadErrors := (x.threadErrors.settle ide (.activate x.1.threadOnActivate)).2
          fastDebug := x.2.fastDebug.exec ide .activate }) := by
  simp only [activate, Posting.settle_sequence_cons, Posting.settle_sequence_nil,
    Posting.settle_post, Posting.settle_modify, Posting.settle_reading, settle_solutions,
    settle_threadErrors, settle_frameProgress, settle_activateProfiler]
  rfl

theorem settle_lineProfile (event : LineProfile String) (x : Shown) :
    (EngineEvent.handle ide (.lineProfile event)).settle (Screen.exec ide) x =
      ({ x.1 with
          frameProgress :=
            (x.frameProgress.settle ide (FrameProgressRenderer.renderFrameProgress event)).1
          profilers := event.handle x.1.profilers
          previews := Function.update x.1.previews x.1.activeProfiler
            ((x.preview x.1.activeProfiler).settle ide (ProfilePreviewRenderer.update
              (fileTimings (event.handle x.1.profilers) x.1.activeProfiler))).1 },
        { x.2 with
          frameProgress :=
            (x.frameProgress.settle ide (FrameProgressRenderer.renderFrameProgress event)).2
          gutters := Function.update x.2.gutters x.1.activeProfiler
            ((x.preview x.1.activeProfiler).settle ide (ProfilePreviewRenderer.update
              (fileTimings (event.handle x.1.profilers) x.1.activeProfiler))).2 }) := by
  simp only [EngineEvent.handle, updateProfiler, Posting.settle_sequence_cons,
    Posting.settle_sequence_nil, Posting.settle_modify, Posting.settle_reading,
    settle_frameProgress, settle_preview]
  rfl

theorem settle_threadError (event : ThreadErrorEvent) (path : String)
    (prediction : Option String) (x : Shown) :
    (EngineEvent.handle ide (.threadError event path prediction)).settle (Screen.exec ide) x =
      ({ x.1 with
          threadErrors := (x.threadErrors.settle ide (.onThreadError event)).1
          solutions := (x.solutions.settle (suggestFix ide event path prediction)).1 },
        { x.2 with
          threadErrors := (x.threadErrors.settle ide (.onThreadError event)).2
          solutions := (x.solutions.settle (suggestFix ide event path prediction)).2 }) := by
  simp only [EngineEvent.handle, Posting.settle_sequence_cons, Posting.settle_sequence_nil,
    settle_threadErrors, settle_solutions]
  rfl

/-- The previews after a change of the profiler: the old one is deactivated first. -/
theorem settle_onQuickConfigChange (ide : EditorState) (profiler : ProfilerType)
    (cumulateType : CumulateType) (x : Shown) :
    ∃ previews gutters v,
      v = activatedPreview ide { x.1.profilers with cumulateType } profiler
        (previews profiler, gutters profiler) ∧
      previews = Function.update x.1.previews x.1.activeProfiler
        ((x.preview x.1.activeProfiler).settle ide ProfilePreviewRenderer.deactivate).1 ∧
      gutters = Function.update x.2.gutters x.1.activeProfiler
        ((x.preview x.1.activeProfiler).settle ide ProfilePreviewRenderer.deactivate).2 ∧
      (onQuickConfigChange ide profiler cumulateType).settle (Screen.exec ide) x =
        ({ x.1 with
            activeProfiler := profiler
            profilers := { x.1.profilers with cumulateType }
            previews := Function.update previews profiler v.1 },
          { x.2 with gutters := Function.update gutters profiler v.2 }) := by
  refine ⟨_, _, _, rfl, rfl, rfl, ?_⟩
  simp only [onQuickConfigChange, deactivateProfiler, Posting.settle_sequence_cons,
    Posting.settle_sequence_nil, Posting.settle_modify, Posting.settle_reading,
    settle_preview, settle_activateProfiler]
  rfl

/-! ### What every operation keeps -/

theorem kept_suggestFix {v : Solutions} (h : v.Kept ide) (event : ThreadErrorEvent)
    (path : String) (prediction : Option String) :
    (v.settle (suggestFix ide event path prediction)).Kept ide := by
  unfold suggestFix
  cases predictFix ide event path prediction with
  | none => exact h
  | some res =>
    rw [Solutions.settle, Posting.settle_andThen]
    exact h.clearAll.add path event.line event.msg res

theorem shown_suggestFix {v : Solutions} (h : v.Shown ide) (event : ThreadErrorEvent)
    (path : String) (prediction : Option String) :
    (v.settle (suggestFix ide event path prediction)).Shown ide := by
  unfold suggestFix
  cases predictFix ide event path prediction with
  | none => exact h
  | some res =>
    rw [Solutions.settle, Posting.settle_andThen]
    exact (Solutions.shown_clearAll v).add path event.line event.msg res

namespace PreviewsKept

variable {activeProfiler p : ProfilerType} {previews : ProfilerType → ProfilePreviewRenderer}
  {gutters : ProfilerType → GutterMarkup}

/-- A new preview of the active profiler. -/
theorem update (h : PreviewsKept activeProfiler previews gutters) {v : Preview} (hv : v.Kept)
    (hnone : activeProfiler = .NONE → v.gutters = []) :
    PreviewsKept activeProfiler (Function.update previews activeProfiler v.1)
      (Function.update gutters activeProfiler v.2) := by
  refine ⟨fun p => ?_, fun p hp => ?_⟩
  · by_cases hactive : p = activeProfiler
    · subst hactive
      rw [Function.update_self, Function.update_self]
      exact hv
    · rw [Function.update_of_ne hactive, Function.update_of_ne hactive]
      exact h.kept p
  · by_cases hactive : p = activeProfiler
    · subst hactive
      rw [Function.update_self, Function.update_self]
      exact hnone (hp.resolve_left fun hne => hne rfl)
    · rw [Function.update_of_ne hactive, Function.update_of_ne hactive]
      exact h.idle p (Or.inl hactive)

/-- Another profiler becomes the active one, where the old one has no gutter. -/
theorem switch (h : PreviewsKept activeProfiler previews gutters)
    (hempty : Preview.gutters (previews activeProfiler, gutters activeProfiler) = [])
    (activeProfiler' : ProfilerType) : PreviewsKept activeProfiler' previews gutters := by
  refine ⟨h.kept, fun p _ => ?_⟩
  by_cases hactive : p = activeProfiler
  · exact hactive ▸ hempty
  · exact h.idle p (Or.inl hactive)

end PreviewsKept

/-- The preview of the active profiler, activated. -/
theorem kept_activatedPreview (ide : EditorState) (profilers : Profilers String) (p : ProfilerType)
    {v : Preview} (hv : v.Kept) (hnone : p = .NONE → v.gutters = []) :
    (activatedPreview ide profilers p v).Kept ∧
      (activatedPreview ide profilers p v).gutters =
        (fileTimings profilers p).filterMap (Preview.gutterOf ide) := by
  unfold activatedPreview
  split
  · next hp =>
    subst hp
    exact ⟨hv, hnone rfl⟩
  · exact Preview.settle_activate ide _ hv

theorem gutters_none (profilers : Profilers String) {p : ProfilerType} (hp : p = .NONE) :
    (fileTimings profilers p).filterMap (Preview.gutterOf ide) = [] := by
  rw [hp]
  rfl

theorem Kept.deactivate (h : Kept ide x) :
    Kept ide ((deactivate ide).settle (Screen.exec ide) x) := by
  rw [settle_deactivate]
  have hpreview := h.previews.kept x.1.activeProfiler
  exact
    { threadErrors := h.threadErrors.step .deactivate
      errors := h.errors.exec ide .deactivate
      solutions := h.solutions.deactivate
      frameProgress := h.frameProgress.deactivate
      fastDebug := h.fastDebug.exec .deactivate
      previews := h.previews.update (hpreview.deactivate ide)
        fun _ => Preview.gutters_deactivate ide hpreview
      solutionsShown := fun hactive => by cases hactive
      fastDebugShown := fun hactive => by cases hactive
      session := h.session }

theorem Kept.activate (h : Kept ide x) :
    Kept ide ((activate ide).settle (Screen.exec ide) x) := by
  rw [settle_activate]
  have hpreview := kept_activatedPreview ide x.1.profilers x.1.activeProfiler
    (h.previews.kept x.1.activeProfiler) fun hp => h.previews.idle _ (Or.inr hp)
  exact
    { threadErrors := h.threadErrors.step (.activate x.1.threadOnActivate)
      errors := h.errors
      solutions := h.solutions.activate
      frameProgress := h.frameProgress.activate
      fastDebug := h.fastDebug.exec .activate
      previews := h.previews.update hpreview.1 fun hp => hpreview.2.trans (gutters_none _ hp)
      solutionsShown := fun _ => Solutions.shown_activate x.solutions
      fastDebugShown := fun _ => FastDebug.shown_activate x.2.fastDebug
      session := (Bool.or_false _).trans h.session }

theorem Kept.onQuickConfigChange (h : Kept ide x) (profiler : ProfilerType)
    (cumulateType : CumulateType) :
    Kept ide ((onQuickConfigChange ide profiler cumulateType).settle (Screen.exec ide) x) := by
  obtain ⟨previews, gutters, v, hv, hpreviews, hgutters, heq⟩ :=
    settle_onQuickConfigChange ide profiler cumulateType x
  have hpreview := h.previews.kept x.1.activeProfiler
  have hold : PreviewsKept profiler previews gutters := by
    subst hpreviews hgutters
    refine (h.previews.update (hpreview.deactivate ide)
      fun _ => Preview.gutters_deactivate ide hpreview).switch ?_ profiler
    rw [Function.update_self, Function.update_self]
    exact Preview.gutters_deactivate ide hpreview
  have hnew := kept_activatedPreview ide { x.1.profilers with cumulateType } profiler
    (hold.kept profiler) fun hp => hold.idle _ (Or.inr hp)
  rw [← hv] at hnew
  rw [heq]
  exact
    { threadErrors := h.threadErrors
      errors := h.errors
      solutions := h.solutions
      frameProgress := h.frameProgress
      fastDebug := h.fastDebug
      previews := hold.update hnew.1 fun hp => by rw [hnew.2, gutters_none _ hp]
      solutionsShown := h.solutionsShown
      fastDebugShown := h.fastDebugShown
      session := h.session }

theorem Kept.engine (h : Kept ide x) (event : EngineEvent) :
    Kept ide ((event.handle ide).settle (Screen.exec ide) x) := by
  cases event with
  | lineProfile event =>
    rw [settle_lineProfile]
    have hpreview := Preview.settle_update ide
      (fileTimings (event.handle x.1.profilers) x.1.activeProfiler)
      (h.previews.kept x.1.activeProfiler)
    exact
      { h with
        frameProgress := h.frameProgress.renderFrameProgress event
        previews := h.previews.update hpreview.1 fun hp =>
          hpreview.2.trans (gutters_none _ hp) }
  | lineProfileClear event => exact { h with }
  | threadError event path prediction =>
    rw [settle_threadError]
    exact
      { h with
        threadErrors := h.threadErrors.step (.onThreadError event)
        solutions := kept_suggestFix h.solutions event path prediction
        solutionsShown := fun hactive =>
          shown_suggestFix (h.solutionsShown hactive) event path prediction }
  | clearThreadError threadId =>
    rw [EngineEvent.handle, settle_threadErrors]
    exact { h with threadErrors := h.threadErrors.step (.onThreadErrorClear threadId) }
  | userError file line msg => exact { h with errors := h.errors.exec ide (.add file line msg) }
  | clearErrors file => exact { h with errors := h.errors.exec ide (.clearFile file) }
  | functionTraced event =>
    exact
      { h with
        fastDebug := h.fastDebug.exec (.onFunctionTracedEvent event)
        fastDebugShown := fun hactive =>
          (h.fastDebugShown hactive).onFunctionTracedEvent event }

/-- **Step lemma.** Every operation keeps the invariants, once its tasks have run. -/
theorem Kept.perform (h : Kept ide x) (op : HandlerOp) :
    Kept ide ((perform ide op).settle (Screen.exec ide) x) := by
  cases op with
  | engine event => exact h.engine event
  | quickConfig profiler cumulateType => exact h.onQuickConfigChange profiler cumulateType
  | activate => exact h.activate
  | deactivate => exact h.deactivate
  | selectThread thread => exact { h with }
  | stackFrameChanged =>
    rw [Handler.perform, Posting.settle_reading]
    split
    · rw [settle_threadErrors]
      exact { h with threadErrors := h.threadErrors.step (.onThreadChanged x.1.activeThread) }
    · exact h

/-! ### Runs -/

variable {profiler : ProfilerType} {cumulateType : CumulateType}
  {c c' : Deferred RunConfHandler Screen UiTask}

/-- A handler in a run, with the screen that its UI queue leads to once it is drained. -/
def drained (ide : EditorState) (c : Deferred RunConfHandler Screen UiTask) : Shown :=
  c.settled (Screen.exec ide)

theorem kept_new : Kept ide (.new profiler cumulateType, .new) where
  threadErrors := ThreadHighlights.kept_new
  errors := ErrorHighlightManager.owned_new
  solutions := Solutions.kept_new
  frameProgress := FrameProgress.kept_new
  fastDebug := fun e he => by cases he
  previews := ⟨fun _ => Preview.kept_new, fun _ _ => rfl⟩
  solutionsShown := fun _ r hr => by cases hr
  fastDebugShown := fun _ e he => by cases he
  session := rfl

theorem kept_step {turn : Turn HandlerOp} (h : Kept ide (drained ide c))
    (hstep : (machine ide profiler cumulateType).step c turn = some c') :
    Kept ide (drained ide c') := by
  rw [drained, Deferred.settled_step hstep]
  cases turn with
  | call op => exact h.perform op
  | task => exact h

/-- **Run lemma.** The invariants hold in every state that a run reaches. -/
theorem kept_run {turns : List (Turn HandlerOp)}
    (hrun : (machine ide profiler cumulateType).run (machine ide profiler cumulateType).init
      turns = some c) : Kept ide (drained ide c) :=
  Lts.invariant_of_run 
    (fun _ _ _ hkept hstep => kept_step hkept hstep) kept_new hrun

end Reloadium.Handler
