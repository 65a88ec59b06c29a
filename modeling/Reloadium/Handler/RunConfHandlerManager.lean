import Reloadium.Handler.BeforeRun
import Reloadium.Handler.InactiveHandler
import Reloadium.Lib.Assoc
import Reloadium.Lib.Family
import Reloadium.Lib.Since

namespace Reloadium.Handler

open Reloadium.Lib Reloadium.Highlights Reloadium.Frames Reloadium.Profile Reloadium.Debugger

/-!
# Handler — the handlers of all runs

Model of `RunConfHandlerManager`, of what `WithReloaderBase.getEnvironment` registers with it, of
the listeners by which each handler learns that a tab of the debugger has been selected or that its
process has ended, and of `IconPatcher`, which marks the files that the active handlers watch.

A run is numbered when it is started, and its handler and the environment that is built for it have
that number.  All handlers share the UI thread, and their tasks share its queue.

* `RunConfHandlerManager.calls` — the operations of handlers that an event leads to;
* `perform`, `managerMachine` — events and tasks in any interleaving;
* `Registered.mem_calls_iff` — what an event calls;
* `Kept`, `perform_kept` — the invariants of all handlers;
* `getAllActiveHandlers_iff_since` — which handlers are active, from the events alone;
* `getIcon_iff_since` — which files are marked;
* `allDark_iff_meets` — when the inactive handlers show nothing;
* `selected_of_visible` — what a project then shows once one of its debug tabs has been selected.
-/

namespace Manager

/-- What a run is started with.  `localFile` is the file at a path of the engine, which
    `convertPathToLocal` converts first. -/
structure Run (Project File : Type) where
  project : Project
  runType : RunType
  localFile : String → File

/-- `RunConfHandlerManager`, with the handlers it has registered.  `all` maps the environment of a
    run to its handler. -/
structure RunConfHandlerManager (Project File : Type) where
  all : List (Nat × Nat)
  runs : List (Run Project File)
  handlers : Nat → RunConfHandler
  watchedFiles : Nat → List File

/-- What happens to one handler besides its activation. -/
inductive RunEvent where
  | engine (event : EngineEvent)
  | quickConfig (profiler : ProfilerType) (cumulateType : CumulateType)
  | selectThread (thread : Option String)
  | stackFrameChanged

/-- The operation of the handler. -/
def RunEvent.op : RunEvent → HandlerOp
  | .engine event => .engine event
  | .quickConfig profiler cumulateType => .quickConfig profiler cumulateType
  | .selectThread thread => .selectThread thread
  | .stackFrameChanged => .stackFrameChanged

/-- What happens.  `session` is the environment of the debug session that is current in the
    project, if there is one. -/
inductive Event (Project File : Type) where
  | getEnvironment (run : Run Project File) (profiler : ProfilerType)
      (cumulateType : CumulateType)
  | contentSelected (project : Project) (session : Option Nat)
  | processTerminated (i : Nat)
  | handler (i : Nat) (event : RunEvent)
  | watchingPaths (i : Nat) (paths : List String)

namespace RunConfHandlerManager

variable {Project File : Type}

/-- The manager its constructor builds. -/
def new : RunConfHandlerManager Project File := ⟨[], [], fun _ => .new .NONE .ADD, fun _ => []⟩

/-- `WithReloaderBase.getEnvironment`: a handler is built and registered, and `beforeRun` sets its
    run type. -/
def getEnvironment (m : RunConfHandlerManager Project File) (run : Run Project File)
    (profiler : ProfilerType) (cumulateType : CumulateType) : RunConfHandlerManager Project File :=
  let i := m.runs.length
  { m with
    all := Assoc.put m.all i i
    runs := m.runs ++ [run]
    handlers := Function.update m.handlers i (.new profiler cumulateType) }

/-- `isActive` of a handler. -/
def isActive (m : RunConfHandlerManager Project File) (i : Nat) : Bool := (m.handlers i).active

/-- `getCurrentDebugHandler`, of a project with that session. -/
def getCurrentDebugHandler (m : RunConfHandlerManager Project File) (session : Option Nat) :
    Option Nat :=
  session.bind fun environment => m.all.lookup environment

/-- `contentSelected` of the listener of the `i`-th handler. -/
def contentSelected (m : RunConfHandlerManager Project File) (session : Option Nat) (i : Nat)
    (run : Run Project File) : Option HandlerOp :=
  if run.runType ≠ .DEBUG then none
  else
    match m.getCurrentDebugHandler session with
    | none => some .deactivate
    | some handler => if handler = i then some .activate else some .deactivate

/-- `WatchingPaths.handle` of the `i`-th handler. -/
def addWatched (m : RunConfHandlerManager Project File) (i : Nat) (paths : List String) :
    RunConfHandlerManager Project File :=
  match m.runs[i]? with
  | none => m
  | some run =>
    let files := m.watchedFiles i ++ paths.map run.localFile
    { m with watchedFiles := Function.update m.watchedFiles i files }

/-- What an event changes besides. -/
def register (m : RunConfHandlerManager Project File) :
    Event Project File → RunConfHandlerManager Project File
  | .getEnvironment run profiler cumulateType => m.getEnvironment run profiler cumulateType
  | .watchingPaths i paths => m.addWatched i paths
  | _ => m

/-- `isWatched` of a handler. -/
def isWatched [DecidableEq File] (m : RunConfHandlerManager Project File) (i : Nat)
    (file : File) : Bool :=
  file ∈ m.watchedFiles i

variable [DecidableEq Project]

/-- `getAllActiveHandlers`. -/
def getAllActiveHandlers (m : RunConfHandlerManager Project File) (project : Option Project) :
    List Nat :=
  (m.all.map Prod.snd).filter fun i =>
    (project.isNone || (m.runs[i]?.map Run.project == project)) && m.isActive i

/-- The listeners of a project's message bus. -/
def publish (m : RunConfHandlerManager Project File) (project : Project) (session : Option Nat)
    (i : Nat) : Option (Nat × HandlerOp) :=
  m.runs[i]?.bind fun run =>
    if run.project = project then (m.contentSelected session i run).map (Prod.mk i) else none

/-- The operations of handlers that an event leads to. -/
def calls (m : RunConfHandlerManager Project File) : Event Project File → List (Nat × HandlerOp)
  | .getEnvironment _ _ _ => []
  | .contentSelected project session =>
    (List.range m.runs.length).filterMap (m.publish project session)
  | .processTerminated i => if i < m.runs.length then [(i, .deactivate)] else []
  | .handler i event => if i < m.runs.length then [(i, event.op)] else []
  | .watchingPaths _ _ => []

end RunConfHandlerManager

/-- The icons that are laid over those of the files. -/
inductive ReloadableIcon where
  | ReloadableDir
  | ReloadableFile
  deriving DecidableEq, Repr

/-- `IconPatcher.getIcon`: what is laid over the icon, if anything. -/
def getIcon {Project File : Type} [DecidableEq Project] [DecidableEq File]
    (m : RunConfHandlerManager Project File) (markReloadable : Bool) (project : Project)
    (file : File) (isDirectory : Bool) : Option ReloadableIcon :=
  if !markReloadable then none
  else
    ((m.getAllActiveHandlers (some project)).find? fun h => m.isWatched h file).map fun _ =>
      if isDirectory then .ReloadableDir else .ReloadableFile

/-! ### The machine -/

section Machine

variable {Project File : Type} (ide : EditorState)

/-- A task of a handler. -/
abbrev exec : (Nat → Screen) → Nat × UiTask → Nat → Screen := Family.exec (Screen.exec ide)

/-- The handlers as a part of the manager. -/
def handlersPart :
    Component (exec ide) (exec ide) (RunConfHandlerManager Project File)
      (Nat → RunConfHandler) where
  get := RunConfHandlerManager.handlers
  set m handlers := { m with handlers }
  view u := u
  put _ u := u
  post t := t
  view_put _ _ := rfl
  put_view _ := rfl
  put_put _ _ _ := rfl
  exec_post _ _ := rfl

variable [DecidableEq Project]

/-- An event. -/
def perform (event : Event Project File) :
    Posting (RunConfHandlerManager Project File) (Nat × UiTask) :=
  Posting.reading fun m =>
    ((handlersPart ide).lift
        (Family.calls (Screen.exec ide) (Handler.perform ide) (m.calls event))).andThen
      (Posting.modify fun m => m.register event)

/-- The manager with the events and the tasks in any interleaving. -/
def managerMachine :
    Lts (Deferred (RunConfHandlerManager Project File) (Nat → Screen) (Nat × UiTask))
      (Turn (Event Project File)) :=
  Deferred.machine (perform ide) (exec ide) (.new, fun _ => .new)

end Machine

/-! ### The operations an event leads to -/

section Calls

variable {Project File : Type} {m : RunConfHandlerManager Project File}

/-- Every run is registered, under its own number. -/
def Registered (m : RunConfHandlerManager Project File) : Prop :=
  m.all = (List.range m.runs.length).map fun i => (i, i)

theorem Registered.lookup (h : Registered m) (i j : Nat) :
    m.all.lookup i = some j ↔ i = j ∧ i < m.runs.length := by
  have hkeys : (m.all.map Prod.fst).Nodup := by
    rw [h, List.map_map]
    exact (List.map_id _).symm ▸ List.nodup_range
  rw [Assoc.lookup_eq_some_iff hkeys, h, List.mem_map]
  apply Iff.intro
  · rintro ⟨k, hk, heq⟩
    obtain ⟨rfl, rfl⟩ := Prod.mk.inj heq
    exact ⟨rfl, List.mem_range.mp hk⟩
  · rintro ⟨rfl, hi⟩
    exact ⟨i, List.mem_range.mpr hi, rfl⟩

theorem Registered.getCurrentDebugHandler_eq (h : Registered m) (session : Option Nat) (i : Nat) :
    m.getCurrentDebugHandler session = some i ↔ session = some i ∧ i < m.runs.length := by
  rw [RunConfHandlerManager.getCurrentDebugHandler, Option.bind_eq_some_iff]
  simp only [h.lookup]
  apply Iff.intro
  · rintro ⟨_, hs, rfl, hi⟩
    exact ⟨hs, hi⟩
  · rintro ⟨hs, hi⟩
    exact ⟨i, hs, rfl, hi⟩

/-- What the listener of a handler does. -/
theorem Registered.contentSelected_eq (h : Registered m) (session : Option Nat) {i : Nat}
    {run : Run Project File} (hrun : m.runs[i]? = some run) :
    m.contentSelected session i run =
      if run.runType = .DEBUG then some (if session = some i then .activate else .deactivate)
      else none := by
  have hi : i < m.runs.length := (List.getElem?_eq_some_iff.mp hrun).1
  have hcurrent := h.getCurrentDebugHandler_eq session i
  rw [and_iff_left hi] at hcurrent
  unfold RunConfHandlerManager.contentSelected
  by_cases hdebug : run.runType = .DEBUG
  · rw [if_neg (not_not.mpr hdebug), if_pos hdebug]
    cases hhandler : m.getCurrentDebugHandler session with
    | none => rw [if_neg fun hs => by simp [hcurrent.mpr hs] at hhandler]
    | some handler =>
      rw [hhandler, Option.some.injEq] at hcurrent
      simp only [hcurrent]
      split <;> rfl
  · rw [if_pos hdebug, if_neg hdebug]

variable [DecidableEq Project]

/-- The operation of the `i`-th handler that an event leads to. -/
def Event.callOf (i : Nat) (run : Run Project File) : Event Project File → Option HandlerOp
  | .getEnvironment _ _ _ => none
  | .contentSelected project session =>
    if run.project = project ∧ run.runType = .DEBUG then
      some (if session = some i then .activate else .deactivate)
    else none
  | .processTerminated j => if j = i then some .deactivate else none
  | .handler j event => if j = i then some event.op else none
  | .watchingPaths _ _ => none

/-- An event calls every handler at most once. -/
theorem nodup_calls (m : RunConfHandlerManager Project File) (event : Event Project File) :
    ((m.calls event).map Prod.fst).Nodup := by
  cases event with
  | contentSelected project session =>
    rw [RunConfHandlerManager.calls, List.map_filterMap]
    refine List.Nodup.filterMap (fun i j k hi hj => ?_) List.nodup_range
    have hfst : ∀ a b, b ∈ (m.publish project session a).map Prod.fst → b = a := by
      intro a b hb
      simp only [RunConfHandlerManager.publish, Option.mem_def, Option.map_eq_some_iff,
        Option.bind_eq_some_iff] at hb
      obtain ⟨c, ⟨run, -, hc⟩, rfl⟩ := hb
      split at hc
      · obtain ⟨_, -, rfl⟩ := Option.map_eq_some_iff.mp hc
        rfl
      · cases hc
    rw [← hfst i k hi, hfst j k hj]
  | processTerminated i =>
    rw [RunConfHandlerManager.calls]
    split
    · exact List.nodup_singleton i
    · exact List.nodup_nil
  | handler i event =>
    rw [RunConfHandlerManager.calls]
    split
    · exact List.nodup_singleton i
    · exact List.nodup_nil
  | _ => exact List.nodup_nil

omit [DecidableEq Project] in
theorem getElem?_isSome_iff (i : Nat) : (∃ run, m.runs[i]? = some run) ↔ i < m.runs.length := by
  apply Iff.intro
  · rintro ⟨run, hrun⟩
    exact (List.getElem?_eq_some_iff.mp hrun).1
  · intro hi
    exact ⟨_, List.getElem?_eq_getElem hi⟩

omit [DecidableEq Project] in
/-- The call of a single handler. -/
theorem mem_single_iff (i j : Nat) (op op' : HandlerOp) :
    (i, op) ∈ (if j < m.runs.length then [(j, op')] else []) ↔
      ∃ run, m.runs[i]? = some run ∧ (if j = i then some op' else none) = some op := by
  rw [exists_and_right, getElem?_isSome_iff]
  by_cases hj : j = i
  · subst hj
    simp [eq_comm]
  · have hi : ¬ i = j := fun h => hj (Eq.symm h)
    simp [hj, hi]

/-- **Inversion lemma.** The calls of an event. -/
theorem Registered.mem_calls_iff (h : Registered m) (event : Event Project File)
    (i : Nat) (op : HandlerOp) :
    (i, op) ∈ m.calls event ↔ ∃ run, m.runs[i]? = some run ∧ event.callOf i run = some op := by
  cases event with
  | getEnvironment run profiler cumulateType =>
    simp [RunConfHandlerManager.calls, Event.callOf]
  | watchingPaths j paths => simp [RunConfHandlerManager.calls, Event.callOf]
  | contentSelected project session =>
    simp only [RunConfHandlerManager.calls, List.mem_filterMap, List.mem_range,
      RunConfHandlerManager.publish, Event.callOf, Option.bind_eq_some_iff]
    apply Iff.intro
    · rintro ⟨j, -, run, hrun, hop⟩
      rw [h.contentSelected_eq session hrun] at hop
      split at hop
      · next hproject =>
        obtain ⟨op', hop', heq⟩ := Option.map_eq_some_iff.mp hop
        obtain ⟨rfl, rfl⟩ := Prod.mk.inj heq
        refine ⟨run, hrun, ?_⟩
        split at hop'
        · next hdebug => rw [if_pos ⟨hproject, hdebug⟩, hop']
        · cases hop'
      · cases hop
    · rintro ⟨run, hrun, hop⟩
      refine ⟨i, (getElem?_isSome_iff i).mp ⟨run, hrun⟩, run, hrun, ?_⟩
      rw [h.contentSelected_eq session hrun]
      split at hop
      · next hboth => rw [if_pos hboth.1, if_pos hboth.2, hop, Option.map_some]
      · cases hop
  | processTerminated j => exact mem_single_iff i j op .deactivate
  | handler j event => exact mem_single_iff i j op event.op

end Calls

/-! ### One event -/

section Events

variable {Project File : Type} {ide : EditorState}
  {x : RunConfHandlerManager Project File × (Nat → Screen)}

/-- The `i`-th handler and its screen. -/
def shown (x : RunConfHandlerManager Project File × (Nat → Screen)) (i : Nat) : Shown :=
  (x.1.handlers i, x.2 i)

/-- What every event keeps: the runs are registered, the handlers keep their invariants, and those
    that are not built yet show nothing. -/
structure Kept (ide : EditorState) (x : RunConfHandlerManager Project File × (Nat → Screen)) :
    Prop where
  registered : Registered x.1
  kept : ∀ i, Handler.Kept ide (shown x i)
  fresh : ∀ i, x.1.runs.length ≤ i → shown x i = (.new .NONE .ADD, .new)

theorem kept_new : Kept ide ((.new, fun _ => .new) :
    RunConfHandlerManager Project File × (Nat → Screen)) where
  registered := rfl
  kept _ := Handler.kept_new
  fresh _ _ := rfl

variable [DecidableEq Project]

/-- The handlers and their screens after the calls of an event. -/
def called (ide : EditorState) (x : RunConfHandlerManager Project File × (Nat → Screen))
    (event : Event Project File) : (Nat → RunConfHandler) × (Nat → Screen) :=
  (Family.calls (Screen.exec ide) (Handler.perform ide) (x.1.calls event)).settle (exec ide)
    (x.1.handlers, x.2)

theorem settle_perform (event : Event Project File)
    (x : RunConfHandlerManager Project File × (Nat → Screen)) :
    (perform ide event).settle (exec ide) x =
      (RunConfHandlerManager.register { x.1 with handlers := (called ide x event).1 } event,
        (called ide x event).2) := by
  rw [perform, Posting.settle_reading, Posting.settle_andThen, Component.settle_lift,
    Posting.settle_modify]
  rfl

/-- A handler that the event calls. -/
theorem pick_called_of_call (h : Registered x.1) {event : Event Project File} {i : Nat}
    {run : Run Project File} {op : HandlerOp} (hrun : x.1.runs[i]? = some run)
    (hop : event.callOf i run = some op) :
    Family.pick (called ide x event) i =
      (Handler.perform ide op).settle (Screen.exec ide) (shown x i) := by
  have hmem := (h.mem_calls_iff event i op).mpr ⟨run, hrun, hop⟩
  exact Family.pick_settle_calls_of_mem (nodup_calls x.1 event) hmem

/-- A handler that the event does not call. -/
theorem pick_called_of_none (h : Registered x.1) {event : Event Project File} {i : Nat}
    (hnone : ∀ run, x.1.runs[i]? = some run → event.callOf i run = none) :
    Family.pick (called ide x event) i = shown x i := by
  refine Family.pick_settle_calls_of_not_mem fun hmem => ?_
  obtain ⟨⟨j, op⟩, hc, rfl⟩ := List.mem_map.mp hmem
  obtain ⟨run, hrun, hop⟩ := (h.mem_calls_iff event j op).mp hc
  rw [hnone run hrun] at hop
  cases hop

/-- The handlers that an event does not build. -/
theorem shown_perform (event : Event Project File) {i : Nat}
    (hi : (∃ run profiler cumulateType, event = .getEnvironment run profiler cumulateType) →
      i ≠ x.1.runs.length) :
    shown ((perform ide event).settle (exec ide) x) i = Family.pick (called ide x event) i := by
  rw [settle_perform]
  cases event with
  | getEnvironment run profiler cumulateType =>
    have hne := hi ⟨run, profiler, cumulateType, rfl⟩
    exact Prod.ext (Function.update_of_ne hne _ _) rfl
  | watchingPaths j paths =>
    show ((RunConfHandlerManager.addWatched _ j paths).handlers i, _) = _
    unfold RunConfHandlerManager.addWatched
    split <;> rfl
  | _ => rfl

/-- The runs after an event. -/
theorem runs_perform (event : Event Project File) :
    ((perform ide event).settle (exec ide) x).1.runs =
      match event with
      | .getEnvironment run _ _ => x.1.runs ++ [run]
      | _ => x.1.runs := by
  rw [settle_perform]
  cases event with
  | watchingPaths j paths =>
    show (RunConfHandlerManager.addWatched _ j paths).runs = _
    unfold RunConfHandlerManager.addWatched
    split <;> rfl
  | _ => rfl

theorem kept_called (h : Kept ide x) (event : Event Project File) (i : Nat) :
    Handler.Kept ide (Family.pick (called ide x event) i) := by
  by_cases hcall : ∃ run, x.1.runs[i]? = some run ∧ ∃ op, event.callOf i run = some op
  · obtain ⟨run, hrun, op, hop⟩ := hcall
    rw [pick_called_of_call h.registered hrun hop]
    exact (h.kept i).perform op
  · rw [pick_called_of_none h.registered fun run hrun => ?_]
    · exact h.kept i
    · cases hop : event.callOf i run with
      | none => rfl
      | some op => exact absurd ⟨run, hrun, op, hop⟩ hcall

theorem registered_perform (h : Registered x.1) (event : Event Project File) :
    Registered ((perform ide event).settle (exec ide) x).1 := by
  rw [Registered, runs_perform, settle_perform]
  cases event with
  | getEnvironment run profiler cumulateType =>
    show Assoc.put x.1.all x.1.runs.length x.1.runs.length = _
    have hnew : x.1.runs.length ∉ x.1.all.map Prod.fst := by
      rw [h, List.map_map]
      intro hmem
      obtain ⟨i, hi, heq⟩ := List.mem_map.mp hmem
      exact absurd (List.mem_range.mp hi) (heq ▸ lt_irrefl _)
    rw [Assoc.put, if_neg fun hany => hnew (Assoc.any_key_iff.mp hany), List.length_append,
      List.length_singleton, List.range_succ, List.map_append, ← h]
    rfl
  | watchingPaths j paths =>
    show (RunConfHandlerManager.addWatched _ j paths).all = _
    unfold RunConfHandlerManager.addWatched
    split <;> exact h
  | _ => exact h

/-- A handler that is not built is not called. -/
theorem pick_called_fresh (h : Kept ide x) (event : Event Project File) {i : Nat}
    (hi : x.1.runs.length ≤ i) :
    Family.pick (called ide x event) i = (.new .NONE .ADD, .new) := by
  rw [← h.fresh i hi]
  refine pick_called_of_none h.registered fun run hrun => ?_
  exact absurd (List.getElem?_eq_some_iff.mp hrun).1 (not_lt.mpr hi)

/-- The handler that is built. -/
theorem shown_getEnvironment (h : Kept ide x) (run : Run Project File) (profiler : ProfilerType)
    (cumulateType : CumulateType) :
    shown ((perform ide (.getEnvironment run profiler cumulateType)).settle (exec ide) x)
      x.1.runs.length = (.new profiler cumulateType, .new) := by
  have hfresh := pick_called_fresh h (.getEnvironment run profiler cumulateType) le_rfl
  have hscreen : (called ide x (.getEnvironment run profiler cumulateType)).2 x.1.runs.length =
      .new := congrArg (fun y : Shown => y.2) hfresh
  rw [settle_perform]
  exact Prod.ext (Function.update_self _ _ _) hscreen

/-- **Step lemma.** Every event keeps the invariants. -/
theorem perform_kept (h : Kept ide x) (event : Event Project File) :
    Kept ide ((perform ide event).settle (exec ide) x) := by
  refine ⟨registered_perform h.registered event, fun i => ?_, fun i hi => ?_⟩
  · by_cases hnew : (∃ run profiler cumulateType,
        event = .getEnvironment run profiler cumulateType) ∧ i = x.1.runs.length
    · obtain ⟨⟨run, profiler, cumulateType, rfl⟩, rfl⟩ := hnew
      rw [shown_getEnvironment h]
      exact Handler.kept_new
    · rw [shown_perform event fun hstart heq => hnew ⟨hstart, heq⟩]
      exact kept_called h event i
  · rw [runs_perform] at hi
    cases event with
    | getEnvironment run profiler cumulateType =>
      rw [List.length_append, List.length_singleton] at hi
      rw [shown_perform _ fun _ => by omega]
      exact pick_called_fresh h _ (by omega)
    | _ =>
      rw [shown_perform _ fun ⟨_, _, _, hstart⟩ => by cases hstart]
      exact pick_called_fresh h _ hi

end Events

/-! ### Which handlers are active -/

section Active

variable {Project File : Type} [DecidableEq Project] {ide : EditorState}
  {x : RunConfHandlerManager Project File × (Nat → Screen)}

/-- The runs that a history has started. -/
def runsOf (h : List (Event Project File)) : List (Run Project File) :=
  h.filterMap fun
    | .getEnvironment run _ _ => some run
    | _ => none

/-- The event makes the handler of the `i`-th run active: the run is started, or the tab of its
    debug session is selected. -/
def Event.Activates (i : Nat) (run : Run Project File) (h : List (Event Project File)) :
    Event Project File → Prop
  | .getEnvironment run' _ _ => (runsOf h).length = i ∧ run' = run
  | .contentSelected project session =>
    run.runType = .DEBUG ∧ run.project = project ∧ session = some i
  | _ => False

/-- The event makes the handler of the `i`-th run inactive: its process ends, or the tab of
    another debug session of the project is selected. -/
def Event.Deactivates (i : Nat) (run : Run Project File) : Event Project File → Prop
  | .processTerminated j => j = i
  | .contentSelected project session =>
    run.runType = .DEBUG ∧ run.project = project ∧ session ≠ some i
  | _ => False

omit [DecidableEq Project] in
/-- No other operation makes a handler active or inactive. -/
theorem active_event (event : RunEvent) (y : Shown) :
    ((Handler.perform ide event.op).settle (Screen.exec ide) y).1.active = y.1.active := by
  cases event with
  | engine event => exact active_engine event y
  | quickConfig profiler cumulateType =>
    obtain ⟨_, _, _, -, -, -, heq⟩ := settle_onQuickConfigChange ide profiler cumulateType y
    rw [RunEvent.op, Handler.perform, heq]
  | selectThread thread => rfl
  | stackFrameChanged =>
    rw [RunEvent.op, Handler.perform, Posting.settle_reading]
    split <;> rfl

theorem active_activate (y : Shown) :
    ((Handler.perform ide .activate).settle (Screen.exec ide) y).1.active = true := by
  rw [Handler.perform, settle_activate]

theorem active_deactivate (y : Shown) :
    ((Handler.perform ide .deactivate).settle (Screen.exec ide) y).1.active = false := by
  rw [Handler.perform, settle_deactivate]

/-- Whether a handler that is built already is active after an event. -/
theorem isActive_perform_eq (h : Kept ide x) (event : Event Project File) {i : Nat}
    {run : Run Project File} (hrun : x.1.runs[i]? = some run) :
    ((perform ide event).settle (exec ide) x).1.isActive i =
      match event.callOf i run with
      | none => x.1.isActive i
      | some op => ((Handler.perform ide op).settle (Screen.exec ide) (shown x i)).1.active := by
  have hi : i < x.1.runs.length := (List.getElem?_eq_some_iff.mp hrun).1
  have hshown : ((perform ide event).settle (exec ide) x).1.isActive i =
      (Family.pick (called ide x event) i).1.active :=
    congrArg (fun y : Shown => y.1.active) (shown_perform event fun _ => hi.ne)
  rw [hshown]
  cases hop : event.callOf i run with
  | none =>
    rw [pick_called_of_none h.registered fun run' hrun' => ?_]
    · rfl
    · rw [hrun, Option.some.injEq] at hrun'
      exact hrun' ▸ hop
  | some op => rw [pick_called_of_call h.registered hrun hop]

/-- **Step lemma.** An event and a handler that is built already. -/
theorem isActive_perform (h : Kept ide x) (event : Event Project File) {i : Nat}
    {run : Run Project File} (hrun : x.1.runs[i]? = some run) {hist : List (Event Project File)}
    (hhist : x.1.runs = runsOf hist) :
    ((perform ide event).settle (exec ide) x).1.isActive i = true ↔
      event.Activates i run hist ∨ (x.1.isActive i = true ∧ ¬ event.Deactivates i run) := by
  have hi : i < x.1.runs.length := (List.getElem?_eq_some_iff.mp hrun).1
  rw [isActive_perform_eq h event hrun]
  cases event with
  | getEnvironment run' profiler cumulateType =>
    have hne : (runsOf hist).length ≠ i := by rw [← hhist]; exact hi.ne'
    simp [Event.callOf, Event.Activates, Event.Deactivates, hne]
  | watchingPaths j paths => simp [Event.callOf, Event.Activates, Event.Deactivates]
  | contentSelected project session =>
    simp only [Event.callOf, Event.Activates, Event.Deactivates]
    by_cases hboth : run.project = project ∧ run.runType = .DEBUG
    · rw [if_pos hboth]
      by_cases hsession : session = some i
      · simp [hboth, hsession, active_activate]
      · simp [hboth, hsession, active_deactivate]
    · rw [if_neg hboth]
      rw [and_comm] at hboth
      simp [← and_assoc, hboth]
  | processTerminated j =>
    simp only [Event.callOf, Event.Activates, Event.Deactivates]
    by_cases hj : j = i
    · simp [hj, active_deactivate]
    · simp [hj]
  | handler j event =>
    simp only [Event.callOf, Event.Activates, Event.Deactivates]
    by_cases hj : j = i
    · subst hj
      rw [if_pos rfl]
      simp only [active_event]
      simp [shown, RunConfHandlerManager.isActive]
    · simp [hj]

/-- What is known of the settled manager after a history. -/
structure After (ide : EditorState) (hist : List (Event Project File))
    (x : RunConfHandlerManager Project File × (Nat → Screen)) : Prop where
  kept : Kept ide x
  runs : x.1.runs = runsOf hist
  active : ∀ i run, x.1.runs[i]? = some run →
    (x.1.isActive i = true ↔
      Since (fun event => ¬ event.Deactivates i run) (Event.Activates i run) hist)

/-- The run of a handler after an event: it is built already, or by the event. -/
theorem runs_perform_cases {event : Event Project File} {i : Nat} {run : Run Project File}
    (hrun : ((perform ide event).settle (exec ide) x).1.runs[i]? = some run) :
    x.1.runs[i]? = some run ∨
      ∃ profiler cumulateType, event = .getEnvironment run profiler cumulateType ∧
        i = x.1.runs.length := by
  rw [runs_perform] at hrun
  cases event with
  | getEnvironment run' profiler cumulateType =>
    rcases lt_or_ge i x.1.runs.length with hi | hi
    · exact Or.inl ((List.getElem?_append_left hi).symm.trans hrun)
    · rw [List.getElem?_append_right hi, List.getElem?_singleton] at hrun
      split at hrun
      · next hzero =>
        obtain rfl := Option.some.inj hrun
        exact Or.inr ⟨profiler, cumulateType, rfl, by omega⟩
      · cases hrun
  | _ => exact Or.inl hrun

/-- **Step lemma.** -/
theorem After.perform {hist : List (Event Project File)} (h : After ide hist x)
    (event : Event Project File) :
    After ide (hist ++ [event]) ((perform ide event).settle (exec ide) x) := by
  refine ⟨perform_kept h.kept event, ?_, fun i run hrun => ?_⟩
  · rw [runs_perform, h.runs, runsOf, runsOf, List.filterMap_append]
    cases event <;> simp
  · rw [since_append_singleton]
    rcases runs_perform_cases hrun with hold | ⟨profiler, cumulateType, rfl, rfl⟩
    · rw [isActive_perform h.kept event hold h.runs, h.active i run hold]
    · refine iff_of_true ?_ (Or.inl ⟨(congrArg List.length h.runs).symm, rfl⟩)
      exact congrArg (fun y : Shown => y.1.active)
        (shown_getEnvironment h.kept run profiler cumulateType)

omit [DecidableEq Project] in
theorem after_new : After ide [] ((.new, fun _ => .new) :
    RunConfHandlerManager Project File × (Nat → Screen)) where
  kept := kept_new
  runs := rfl
  active i run hrun := by cases hrun

variable {turns : List (Turn (Event Project File))}
  {c : Deferred (RunConfHandlerManager Project File) (Nat → Screen) (Nat × UiTask)}

/-- **Run lemma.** -/
theorem after_run (hrun : (managerMachine ide).run (managerMachine ide).init turns = some c) :
    After ide (Deferred.history turns) (c.settled (exec ide)) :=
  Deferred.history_rule after_new (fun _ _ event h => h.perform event) hrun

theorem mem_getAllActiveHandlers {m : RunConfHandlerManager Project File} (h : Registered m)
    (project : Option Project) (i : Nat) :
    i ∈ m.getAllActiveHandlers project ↔
      ∃ run, m.runs[i]? = some run ∧ (∀ p, project = some p → run.project = p) ∧
        m.isActive i = true := by
  rw [RunConfHandlerManager.getAllActiveHandlers, List.mem_filter, h, List.map_map,
    show (Prod.snd ∘ fun i : Nat => (i, i)) = id from rfl, List.map_id, List.mem_range,
    ← getElem?_isSome_iff, Bool.and_eq_true, ← exists_and_right]
  refine exists_congr fun run => and_congr_right fun hrun => and_congr_left fun _ => ?_
  rw [hrun]
  cases project <;> simp

/-- **Which handlers are active**, in every state that a run reaches and whatever tasks are left:
    those whose run has been started, or whose debug tab has been selected, with neither the end
    of the process nor the selection of another debug tab of the project afterwards. -/
theorem getAllActiveHandlers_iff_since
    (hrun : (managerMachine ide).run (managerMachine ide).init turns = some c)
    (project : Option Project) (i : Nat) :
    i ∈ c.state.getAllActiveHandlers project ↔
      ∃ run, c.state.runs[i]? = some run ∧ (∀ p, project = some p → run.project = p) ∧
        Since (fun event => ¬ event.Deactivates i run) (Event.Activates i run)
          (Deferred.history turns) := by
  have hafter := after_run hrun
  have hregistered : Registered c.state := hafter.kept.registered
  rw [mem_getAllActiveHandlers hregistered]
  refine exists_congr fun run => and_congr_right fun hi => and_congr_right fun _ => ?_
  exact hafter.active i run hi

/-- A debug run of a project. -/
def debugRun : Run Unit String := ⟨(), .DEBUG, id⟩

/-- A debug run is started, its tab is selected, and its engine reports a line. -/
def selectedRun : List (Turn (Event Unit String)) :=
  [.call (.getEnvironment debugRun .NONE .ADD), .call (.contentSelected () (some 0)), .task,
    .call (.handler 0 (.engine lateLineProfile)), .task]

theorem getAllActiveHandlers_selectedRun :
    ∃ c, (managerMachine openEditor).run (managerMachine openEditor).init selectedRun = some c ∧
      c.state.getAllActiveHandlers (some ()) = [0] ∧
      (0 ∈ c.state.getAllActiveHandlers (some ()) ↔
        ∃ run, c.state.runs[0]? = some run ∧ (∀ p, some () = some p → run.project = p) ∧
          Since (fun event => ¬ event.Deactivates 0 run) (Event.Activates 0 run)
            (Deferred.history selectedRun)) :=
  ⟨_, rfl, rfl, getAllActiveHandlers_iff_since rfl (some ()) 0⟩

/-- A run of the project is started with the debugger, or a debug tab of it is selected. -/
def Event.Changes (project : Project) : Event Project File → Prop
  | .getEnvironment run _ _ => run.project = project ∧ run.runType = .DEBUG
  | .contentSelected project' _ => project' = project
  | _ => False

omit [DecidableEq Project] in
/-- **At most one debug run is active**: the one whose tab has been selected last. -/
theorem selected_of_since {hist : List (Event Project File)} {project : Project}
    {session : Option Nat} {i : Nat} {run : Run Project File} (hproject : run.project = project)
    (hdebug : run.runType = .DEBUG)
    (hselected : Since (fun event => ¬ event.Changes project)
      (fun _ event => event = .contentSelected project session) hist)
    (hactive : Since (fun event => ¬ event.Deactivates i run) (Event.Activates i run) hist) :
    session = some i := by
  revert hactive
  refine since_induction (R := fun hist => Since (fun event => ¬ event.Deactivates i run)
    (Event.Activates i run) hist → session = some i) ?_ ?_ hselected
  · rintro hist event rfl hactive
    rcases (since_append_singleton hist _).mp hactive with hon | ⟨-, hoff⟩
    · exact hon.2.2
    · by_contra hne
      exact hoff ⟨hdebug, hproject, hne⟩
  · intro hist event ih hunchanged hactive
    rcases (since_append_singleton hist _).mp hactive with hon | ⟨hbefore, -⟩
    · cases event with
      | getEnvironment run' profiler cumulateType =>
        exact absurd ⟨hon.2 ▸ hproject, hon.2 ▸ hdebug⟩ hunchanged
      | contentSelected project' session' =>
        exact absurd (hon.2.1.symm.trans hproject) hunchanged
      | _ => cases hon
    · exact ih hbefore

end Active

/-! ### Which files are marked -/

section Watched

variable {Project File : Type} [DecidableEq Project] [DecidableEq File] {ide : EditorState}
  {x : RunConfHandlerManager Project File × (Nat → Screen)}
  {turns : List (Turn (Event Project File))}
  {c : Deferred (RunConfHandlerManager Project File) (Nat → Screen) (Nat × UiTask)}

/-- The engine of the `i`-th run reports a path of the file. -/
def Event.Reports (i : Nat) (run : Run Project File) (file : File)
    (h : List (Event Project File)) : Event Project File → Prop
  | .watchingPaths j paths => j = i ∧ i < (runsOf h).length ∧ file ∈ paths.map run.localFile
  | _ => False

omit [DecidableEq Project] [DecidableEq File] in
theorem watchedFiles_addWatched (m : RunConfHandlerManager Project File) (i j : Nat)
    (paths : List String) :
    (m.addWatched j paths).watchedFiles i =
      if i = j then m.watchedFiles i ++ (m.runs[j]?.elim [] fun run => paths.map run.localFile)
      else m.watchedFiles i := by
  unfold RunConfHandlerManager.addWatched
  by_cases hi : i = j
  · subst hi
    cases m.runs[i]? with
    | none => exact (if_pos rfl).symm ▸ (List.append_nil _).symm
    | some run => rw [if_pos rfl]; exact Function.update_self _ _ _
  · rw [if_neg hi]
    cases m.runs[j]? with
    | none => rfl
    | some run => exact Function.update_of_ne hi _ _

omit [DecidableEq File] in
theorem watchedFiles_perform (event : Event Project File) (i : Nat) :
    ((perform ide event).settle (exec ide) x).1.watchedFiles i =
      match event with
      | .watchingPaths j paths => (x.1.addWatched j paths).watchedFiles i
      | _ => x.1.watchedFiles i := by
  rw [settle_perform]
  cases event with
  | watchingPaths j paths =>
    show (RunConfHandlerManager.addWatched _ j paths).watchedFiles i =
      (x.1.addWatched j paths).watchedFiles i
    rw [watchedFiles_addWatched, watchedFiles_addWatched]
  | _ => rfl

omit [DecidableEq File] in
/-- **Step lemma.** -/
theorem watchedFiles_perform_iff {hist : List (Event Project File)} (hhist : x.1.runs = runsOf hist)
    (event : Event Project File) {i : Nat} {run : Run Project File}
    (hrun : x.1.runs[i]? = some run) (file : File) :
    file ∈ ((perform ide event).settle (exec ide) x).1.watchedFiles i ↔
      event.Reports i run file hist ∨ file ∈ x.1.watchedFiles i := by
  have hi : i < (runsOf hist).length := hhist ▸ (List.getElem?_eq_some_iff.mp hrun).1
  rw [watchedFiles_perform]
  cases event with
  | watchingPaths j paths =>
    simp only [Event.Reports, watchedFiles_addWatched]
    by_cases hj : j = i
    · subst hj
      rw [if_pos rfl, hrun, List.mem_append, or_comm]
      simp [hi]
    · rw [if_neg fun h => hj (Eq.symm h)]
      simp [hj]
  | _ => simp [Event.Reports]

omit [DecidableEq Project] [DecidableEq File] in
/-- Only the engines of runs that have been started report files. -/
theorem lt_of_reports {hist : List (Event Project File)} {i : Nat} {run : Run Project File}
    {file : File} (h : Since (fun _ => True) (Event.Reports i run file) hist) :
    i < (runsOf hist).length := by
  refine since_induction (R := fun hist => i < (runsOf hist).length) ?_ ?_ h
  · intro hist event hreports
    rw [runsOf, List.filterMap_append, List.length_append]
    cases event with
    | watchingPaths j paths => exact Nat.lt_add_right _ hreports.2.1
    | _ => cases hreports
  · intro hist event hlt _
    rw [runsOf, List.filterMap_append, List.length_append]
    exact Nat.lt_add_right _ hlt

/-- The files of a handler after a history. -/
structure Watched (ide : EditorState) (hist : List (Event Project File))
    (x : RunConfHandlerManager Project File × (Nat → Screen)) : Prop where
  after : After ide hist x
  fresh : ∀ i, x.1.runs.length ≤ i → x.1.watchedFiles i = []
  watched : ∀ i run file, x.1.runs[i]? = some run →
    (file ∈ x.1.watchedFiles i ↔ Since (fun _ => True) (Event.Reports i run file) hist)

omit [DecidableEq File] in
/-- **Step lemma.** -/
theorem Watched.perform {hist : List (Event Project File)} (h : Watched ide hist x)
    (event : Event Project File) :
    Watched ide (hist ++ [event]) ((perform ide event).settle (exec ide) x) := by
  have hfresh : ∀ i, x.1.runs.length ≤ i →
      ((Manager.perform ide event).settle (exec ide) x).1.watchedFiles i = [] := by
    intro i hi
    rw [watchedFiles_perform]
    cases event with
    | watchingPaths j paths =>
      simp only [watchedFiles_addWatched, h.fresh i hi]
      split
      · next hij =>
        subst hij
        rw [List.getElem?_eq_none hi]
        rfl
      · rfl
    | _ => exact h.fresh i hi
  refine ⟨h.after.perform event, fun i hi => hfresh i ?_, fun i run file hrun => ?_⟩
  · rw [runs_perform] at hi
    cases event with
    | getEnvironment run profiler cumulateType =>
      rw [List.length_append] at hi
      omega
    | _ => exact hi
  · rw [since_append_singleton, and_true]
    rcases runs_perform_cases hrun with hold | ⟨profiler, cumulateType, rfl, rfl⟩
    · rw [watchedFiles_perform_iff h.after.runs event hold, h.watched i run file hold]
    · rw [hfresh _ le_rfl]
      refine iff_of_false List.not_mem_nil ?_
      rintro (hreports | hbefore)
      · exact hreports
      · exact absurd (lt_of_reports hbefore) (by rw [h.after.runs]; exact lt_irrefl _)

/-- **Which files are marked**, in every state that a run reaches: with the preference set, those
    that the engine of an active run of the project has reported. -/
theorem getIcon_iff_since
    (hrun : (managerMachine ide).run (managerMachine ide).init turns = some c)
    (markReloadable : Bool) (project : Project) (file : File) (isDirectory : Bool) :
    (getIcon c.state markReloadable project file isDirectory).isSome ↔
      markReloadable = true ∧ ∃ i run, c.state.runs[i]? = some run ∧ run.project = project ∧
        Since (fun event => ¬ event.Deactivates i run) (Event.Activates i run)
          (Deferred.history turns) ∧
        Since (fun _ => True) (Event.Reports i run file) (Deferred.history turns) := by
  have hwatched : Watched ide (Deferred.history turns) (c.settled (exec ide)) :=
    Deferred.history_rule ⟨after_new, fun _ _ => rfl, fun i run file hi => by cases hi⟩
      (fun _ _ event h => h.perform event) hrun
  have hregistered : Registered c.state := hwatched.after.kept.registered
  unfold getIcon
  cases markReloadable with
  | false => simp
  | true =>
    rw [if_neg (by simp), Option.isSome_map, List.find?_isSome]
    simp only [mem_getAllActiveHandlers hregistered, Option.some.injEq, forall_eq', true_and,
      RunConfHandlerManager.isWatched, decide_eq_true_eq]
    refine exists_congr fun i => ?_
    rw [← exists_and_right]
    refine exists_congr fun run => ?_
    rw [and_assoc, and_assoc]
    refine and_congr_right fun hi => and_congr_right fun _ => ?_
    exact and_congr (hwatched.after.active i run hi) (hwatched.watched i run file hi)

/-- A debug run is started, and its engine watches a file. -/
def watchingRun : List (Turn (Event Unit String)) :=
  [.call (.getEnvironment debugRun .NONE .ADD), .call (.watchingPaths 0 ["main.py"])]

theorem getIcon_watchingRun :
    ∃ c, (managerMachine openEditor).run (managerMachine openEditor).init watchingRun = some c ∧
      getIcon c.state true () "main.py" false = some .ReloadableFile ∧
      ((getIcon c.state true () "main.py" false).isSome ↔
        true = true ∧ ∃ i run, c.state.runs[i]? = some run ∧ run.project = () ∧
          Since (fun event => ¬ event.Deactivates i run) (Event.Activates i run)
            (Deferred.history watchingRun) ∧
          Since (fun _ => True) (Event.Reports i run "main.py") (Deferred.history watchingRun)) :=
  ⟨_, rfl, rfl, getIcon_iff_since rfl true () "main.py" false⟩

end Watched

/-! ### What the inactive handlers show -/

section Dark

variable {Project File : Type} [DecidableEq Project] {ide : EditorState}
  {x : RunConfHandlerManager Project File × (Nat → Screen)}
  {turns : List (Turn (Event Project File))}
  {c : Deferred (RunConfHandlerManager Project File) (Nat → Screen) (Nat × UiTask)}

/-- Every call of the event leaves its handler dark if it is inactive. -/
def StaysDark (ide : EditorState)
    (c : Deferred (RunConfHandlerManager Project File) (Nat → Screen) (Nat × UiTask)) :
    Turn (Event Project File) → Prop
  | .call event =>
    ∀ call ∈ c.state.calls event, HandlerOp.StaysDark ide (c.state.handlers call.1) call.2
  | .task => True

/-- No inactive handler shows anything. -/
def AllDark (x : RunConfHandlerManager Project File × (Nat → Screen)) : Prop :=
  ∀ i, x.1.isActive i = false → Dark (shown x i)

/-- **Step lemma.** -/
theorem allDark_perform_iff (h : Kept ide x) (hdark : AllDark x) (event : Event Project File) :
    AllDark ((perform ide event).settle (exec ide) x) ↔
      ∀ call ∈ x.1.calls event, HandlerOp.StaysDark ide (x.1.handlers call.1) call.2 := by
  have hcalls : (∀ i, (Family.pick (called ide x event) i).1.active = false →
        Dark (Family.pick (called ide x event) i)) ↔
      ∀ call ∈ x.1.calls event, HandlerOp.StaysDark ide (x.1.handlers call.1) call.2 :=
    Family.forall_settle_calls_iff (P := fun y : Shown => y.1.active = false → Dark y)
      (x := (x.1.handlers, x.2)) (nodup_calls x.1 event) hdark
      fun call _ => dark_perform_iff (h.kept call.1) (hdark call.1) call.2
  rw [← hcalls]
  refine forall_congr' fun i => ?_
  by_cases hnew : (∃ run profiler cumulateType,
      event = .getEnvironment run profiler cumulateType) ∧ i = x.1.runs.length
  · -- the handler that is built is active, and the place it takes was
    obtain ⟨⟨run, profiler, cumulateType, rfl⟩, rfl⟩ := hnew
    have hfresh := pick_called_fresh h (.getEnvironment run profiler cumulateType) le_rfl
    have hbuilt := shown_getEnvironment h run profiler cumulateType
    refine iff_of_true (fun hoff => ?_) fun hoff => ?_
    · have hon : ((perform ide (.getEnvironment run profiler cumulateType)).settle (exec ide)
          x).1.isActive x.1.runs.length = true := congrArg (fun y : Shown => y.1.active) hbuilt
      rw [hon] at hoff
      cases hoff
    · rw [hfresh] at hoff
      cases hoff
  · have hshown : shown ((perform ide event).settle (exec ide) x) i =
        Family.pick (called ide x event) i :=
      shown_perform event fun hstart heq => hnew ⟨hstart, heq⟩
    rw [← hshown]
    rfl

theorem kept_step {turn : Turn (Event Project File)}
    {c' : Deferred (RunConfHandlerManager Project File) (Nat → Screen) (Nat × UiTask)}
    (h : Kept ide (c.settled (exec ide))) (hstep : (managerMachine ide).step c turn = some c') :
    Kept ide (c'.settled (exec ide)) := by
  rw [Deferred.settled_step hstep]
  cases turn with
  | call event => exact perform_kept h event
  | task => exact h

theorem allDark_step_iff {turn : Turn (Event Project File)}
    {c' : Deferred (RunConfHandlerManager Project File) (Nat → Screen) (Nat × UiTask)}
    (h : Kept ide (c.settled (exec ide))) (hdark : AllDark (c.settled (exec ide)))
    (hstep : (managerMachine ide).step c turn = some c') :
    AllDark (c'.settled (exec ide)) ↔ StaysDark ide c turn := by
  rw [Deferred.settled_step hstep]
  cases turn with
  | call event => exact allDark_perform_iff h hdark event
  | task => exact iff_of_true hdark trivial

omit [DecidableEq Project] in
theorem allDark_new : AllDark ((.new, fun _ => .new) :
    RunConfHandlerManager Project File × (Nat → Screen)) := by
  intro i hoff
  cases hoff

/-- **Which inactive handlers show nothing.** With the tasks that are left done, no handler that
    is inactive has a visible highlight, all along a run, exactly when every call of the run leaves
    its handler dark. -/
theorem allDark_iff_meets (ide : EditorState) (turns : List (Turn (Event Project File))) :
    (managerMachine ide).Always (fun c => AllDark (c.settled (exec ide)))
        (managerMachine ide).init turns ↔
      (managerMachine ide).Meets (StaysDark ide) (managerMachine ide).init turns := by
  refine Lts.always_iff_meets_of_invariant (fun _ _ _ hkept hstep => kept_step hkept hstep)
    (fun _ _ _ hkept hdark hstep => allDark_step_iff hkept hdark hstep) (fun c turn hnone => ?_)
    kept_new allDark_new turns
  cases turn with
  | call event => cases hnone
  | task => trivial

/-- A visible highlight belongs to a run that is active. -/
theorem isActive_of_visible
    (hrun : (managerMachine ide).run (managerMachine ide).init turns = some c)
    (hqueue : c.queue = [])
    (hdark : (managerMachine ide).Meets (StaysDark ide) (managerMachine ide).init turns) {i : Nat}
    {highlight : Highlight} (hvisible : Visible (c.state.handlers i, c.screen i) highlight) :
    c.state.isActive i = true := by
  have hstep : ∀ (c : Deferred (RunConfHandlerManager Project File) (Nat → Screen) (Nat × UiTask))
      turn c', Kept ide (c.settled (exec ide)) ∧ AllDark (c.settled (exec ide)) →
      StaysDark ide c turn → (managerMachine ide).step c turn = some c' →
      Kept ide (c'.settled (exec ide)) ∧ AllDark (c'.settled (exec ide)) :=
    fun _ _ _ h hdark hstep =>
      ⟨kept_step h.1 hstep, (allDark_step_iff h.1 h.2 hstep).mpr hdark⟩
  have hend := Lts.invariant_of_meets hstep ⟨kept_new, allDark_new⟩ hdark hrun
  rw [Deferred.settled_of_queue_nil hqueue] at hend
  by_contra hoff
  exact hend.2 i (Bool.eq_false_iff.mpr hoff) highlight hvisible

/-- **What is visible in a project.** When the tasks are done and every call of the run has left
    its handler dark if it was inactive, a highlight that a debug run of the project shows belongs
    to the session whose tab has been selected last, unless another debug run of the project was
    started afterwards. -/
theorem selected_of_visible
    (hrun : (managerMachine ide).run (managerMachine ide).init turns = some c)
    (hqueue : c.queue = [])
    (hdark : (managerMachine ide).Meets (StaysDark ide) (managerMachine ide).init turns)
    {project : Project} {session : Option Nat}
    (hselected : Since (fun event => ¬ event.Changes project)
      (fun _ event => event = .contentSelected project session) (Deferred.history turns)) :
    ∀ i run highlight, c.state.runs[i]? = some run → run.project = project →
      run.runType = .DEBUG → Visible (c.state.handlers i, c.screen i) highlight →
        session = some i := by
  intro i run highlight hi hproject hdebug hvisible
  have hactive := isActive_of_visible hrun hqueue hdark hvisible
  refine selected_of_since hproject hdebug hselected ?_
  exact ((after_run hrun).active i run hi).mp hactive

/-- The selected run is the one that is seen. -/
theorem selected_selectedRun :
    ∃ c, (managerMachine openEditor).run (managerMachine openEditor).init selectedRun = some c ∧
      Visible (c.state.handlers 0, c.screen 0) (.frameProgress 0) ∧
      ∀ i run highlight, c.state.runs[i]? = some run → run.project = () →
        run.runType = .DEBUG → Visible (c.state.handlers i, c.screen i) highlight →
          some 0 = some i := by
  refine ⟨_, rfl, rfl, ?_⟩
  refine @selected_of_visible Unit String _ openEditor selectedRun _ rfl rfl ?_ () (some 0) ?_
  · refine Lts.meets_cons rfl (fun _ h => by cases h) (Lts.meets_cons rfl ?_
      (Lts.meets_cons rfl trivial (Lts.meets_cons rfl ?_ (Lts.meets_cons rfl trivial trivial))))
    · intro call hcall
      obtain rfl := List.mem_singleton.mp hcall
      trivial
    · intro call hcall
      obtain rfl := List.mem_singleton.mp hcall
      intro hoff
      cases hoff
  · refine ⟨[.getEnvironment debugRun .NONE .ADD], _, _, rfl, rfl, ?_⟩
    intro event hevent
    obtain rfl := List.mem_singleton.mp hevent
    exact id

end Dark

end Manager

end Reloadium.Handler
