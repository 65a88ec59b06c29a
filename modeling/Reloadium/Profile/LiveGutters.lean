import Reloadium.Profile.ProfilePreviewRenderer

namespace Reloadium.Profile

open Reloadium.Lib Reloadium.Highlights

/-!
# Profile — the gutters along a run

A `LineProfiler` and its `ProfilePreviewRenderer`: values are recorded and cleared, the
renderer is activated, deactivated and updated in between, and the tasks of the UI thread run
whenever they like.  `GutterRun` is the two with the history that tells which gutters are
right: the values that the last `activate` or `update` found.

Once the UI queue is drained there is one gutter for each of those files, where it has values
and its document has their lines, and no other (`liveGutters_of_run`).
-/

/-- `FileValues.clear()`. -/
def FileStore.clear (s : FileStore) : FileStore where
  toFileValues := s.toFileValues.clear
  lines := s.lines
  listed l h := by
    rw [FileStore.add_eq, line_clear] at h
    cases h

/-- `LineProfiler.clearFile`. -/
def LineProfiler.clearFile {File : Type} [DecidableEq File] (p : LineProfiler File) (file : File) :
    LineProfiler File :=
  match p.values.lookup file with
  | none => p
  | some fileValues => ⟨Assoc.put p.values file fileValues.clear⟩

/-- A profiler, its renderer, and the values that the last call of `activate` or `update` has
    found: none if there was no call, or the last one was `deactivate`. -/
structure GutterRun where
  profiler : LineProfiler String
  renderer : ProfilePreviewRenderer
  drawn : List (String × FileStore)

/-- A call on the profiler or on its renderer; `values` are the samples of the profiler's own
    kind. -/
inductive GutterOp where
  | onLineProfileEvent (event : LineProfile String) (values : List (Int × Int64))
      (cumulateType : CumulateType)
  | clearFile (file : String)
  | clearLines (file : String) (start stop : Int)
  | activate
  | deactivate
  | update

namespace GutterRun

/-- A new profiler with its renderer. -/
def new : GutterRun := ⟨.new, .new, []⟩

/-- The renderer as a part of its run. -/
def rendererPart (ide : EditorState) :
    Component (ProfilePreviewRenderer.exec ide) (ProfilePreviewRenderer.exec ide) GutterRun
      ProfilePreviewRenderer where
  get := renderer
  set s renderer := { s with renderer }
  view := id
  put _ markup := markup
  post := id
  view_put _ _ := rfl
  put_view _ := rfl
  put_put _ _ _ := rfl
  exec_post _ _ := rfl

/-- A call that draws the present values. -/
def draw (ide : EditorState)
    (o : List (String × FileStore) → Posting ProfilePreviewRenderer GutterTask) :
    Posting GutterRun GutterTask :=
  Posting.reading fun s =>
    ((rendererPart ide).lift (o s.profiler.values)).andThen
      (Posting.modify fun s' => { s' with drawn := s.profiler.values })

/-- One call. -/
def perform (ide : EditorState) : GutterOp → Posting GutterRun GutterTask
  | .onLineProfileEvent event values cumulateType =>
    Posting.modify fun s => { s with profiler := s.profiler.onSamples event values cumulateType }
  | .clearFile file => Posting.modify fun s => { s with profiler := s.profiler.clearFile file }
  | .clearLines file start stop =>
    Posting.modify fun s => { s with profiler := s.profiler.clearLines file start stop }
  | .activate => draw ide ProfilePreviewRenderer.activate
  | .update => draw ide ProfilePreviewRenderer.update
  | .deactivate =>
    ((rendererPart ide).lift ProfilePreviewRenderer.deactivate).andThen
      (Posting.modify fun s => { s with drawn := [] })

/-- A new profiler with the tasks of the UI thread in any interleaving. -/
def machine (ide : EditorState) : Lts (Deferred GutterRun GutterMarkup GutterTask) (Turn GutterOp) :=
  Deferred.machine (perform ide) (ProfilePreviewRenderer.exec ide) (.new, ⟨0, [], fun _ => none⟩)

/-- The renderer and the markup. -/
def preview (x : GutterRun × GutterMarkup) : Preview := (x.1.renderer, x.2)

/-- Every file has the one gutter that its drawn values give it, and no other. -/
def LiveGutters (ide : EditorState) (x : GutterRun × GutterMarkup) : Prop :=
  ∀ file, ((preview x).gutters.filter fun g => g.file = file) =
    ((x.1.drawn.lookup file).bind fun fileValues =>
      Preview.gutterOf ide (file, fileValues)).toList

variable {ide : EditorState} {x : GutterRun × GutterMarkup}

/-! ### The files of a profiler -/

theorem nodup_onSamples {p : LineProfiler String} (h : (p.values.map Prod.fst).Nodup)
    (event : LineProfile String) (values : List (Int × Int64)) (cumulateType : CumulateType) :
    ((p.onSamples event values cumulateType).values.map Prod.fst).Nodup :=
  Assoc.nodup_put h

theorem nodup_clearFile {p : LineProfiler String} (h : (p.values.map Prod.fst).Nodup)
    (file : String) : ((p.clearFile file).values.map Prod.fst).Nodup := by
  unfold LineProfiler.clearFile
  split
  · exact h
  · exact Assoc.nodup_put h

theorem nodup_clearLines {p : LineProfiler String} (h : (p.values.map Prod.fst).Nodup)
    (file : String) (start stop : Int) :
    ((p.clearLines file start stop).values.map Prod.fst).Nodup := by
  unfold LineProfiler.clearLines
  split
  · exact h
  · exact Assoc.nodup_put h

/-- A gutter is of the file whose values it shows. -/
theorem file_of_gutterOf {e : String × FileStore} {g : Gutter}
    (h : Preview.gutterOf ide e = some g) : g.file = e.1 := by
  obtain ⟨hmap, -⟩ := Option.filter_eq_some_iff.mp h
  obtain ⟨range, -, rfl⟩ := Option.map_eq_some_iff.mp hmap
  rfl

/-- The gutters of one file among those of all files. -/
theorem filter_filterMap_gutterOf {values : List (String × FileStore)}
    (h : (values.map Prod.fst).Nodup) (file : String) :
    ((values.filterMap (Preview.gutterOf ide)).filter fun g => g.file = file) =
      ((values.lookup file).bind fun fileValues =>
        Preview.gutterOf ide (file, fileValues)).toList := by
  induction values with
  | nil => rfl
  | cons e values ih =>
    obtain ⟨f, fileValues⟩ := e
    rw [List.map_cons, List.nodup_cons] at h
    have hrest := ih h.2
    by_cases hf : f = file
    · -- no other file of the map is this one
      subst hf
      have hnone : values.lookup f = none := Assoc.lookup_eq_none_iff.mpr h.1
      rw [hnone, Option.bind_none, Option.toList_none] at hrest
      rw [List.lookup_cons_self, Option.bind_some, List.filterMap_cons]
      cases hg : Preview.gutterOf ide (f, fileValues) with
      | none => exact hrest
      | some g =>
        have hfile : g.file = f := file_of_gutterOf hg
        simp [hfile, hrest]
    · rw [Assoc.lookup_cons_of_ne (Ne.symm hf), ← hrest, List.filterMap_cons]
      cases hg : Preview.gutterOf ide (f, fileValues) with
      | none => rfl
      | some g =>
        have hfile : g.file = f := file_of_gutterOf hg
        simp [hfile, hf]

/-! ### What every call keeps -/

/-- The gutters in the markup are those of the drawn values. -/
structure Drawn (ide : EditorState) (x : GutterRun × GutterMarkup) : Prop where
  kept : (preview x).Kept
  gutters : (preview x).gutters = x.1.drawn.filterMap (Preview.gutterOf ide)
  nodup : (x.1.drawn.map Prod.fst).Nodup
  files : (x.1.profiler.values.map Prod.fst).Nodup

theorem drawn_new : Drawn ide (.new, ⟨0, [], fun _ => none⟩) where
  kept := Preview.kept_new
  gutters := rfl
  nodup := List.nodup_nil
  files := List.nodup_nil

/-- A call that leaves the gutters of the present values. -/
theorem Drawn.draw (h : Drawn ide x)
    {o : List (String × FileStore) → Posting ProfilePreviewRenderer GutterTask}
    (ho : ((preview x).settle ide (o x.1.profiler.values)).Kept ∧
      ((preview x).settle ide (o x.1.profiler.values)).gutters =
        x.1.profiler.values.filterMap (Preview.gutterOf ide)) :
    Drawn ide ((draw ide o).settle (ProfilePreviewRenderer.exec ide) x) := by
  rw [GutterRun.draw, Posting.settle_reading, Posting.settle_andThen, Component.settle_lift]
  exact ⟨ho.1, ho.2, h.files, h.files⟩

/-- **Step lemma.** -/
theorem Drawn.perform (h : Drawn ide x) (op : GutterOp) :
    Drawn ide ((perform ide op).settle (ProfilePreviewRenderer.exec ide) x) := by
  cases op with
  | onLineProfileEvent event values cumulateType =>
    exact { h with files := nodup_onSamples h.files event values cumulateType }
  | clearFile file => exact { h with files := nodup_clearFile h.files file }
  | clearLines file start stop => exact { h with files := nodup_clearLines h.files file start stop }
  | activate => exact h.draw (Preview.settle_activate ide x.1.profiler.values h.kept)
  | update => exact h.draw (Preview.settle_update ide x.1.profiler.values h.kept)
  | deactivate =>
    rw [GutterRun.perform, Posting.settle_andThen, Component.settle_lift]
    exact ⟨h.kept.deactivate ide, Preview.gutters_deactivate ide h.kept, List.nodup_nil, h.files⟩

/-! ### Runs -/

/-- **Run lemma.** -/
theorem drawn_of_run {turns : List (Turn GutterOp)} {c : Deferred GutterRun GutterMarkup GutterTask}
    (hrun : (machine ide).run (machine ide).init turns = some c) :
    Drawn ide (c.settled (ProfilePreviewRenderer.exec ide)) := by
  refine @Lts.invariant_of_run _ _ (machine ide)
    (fun c => Drawn ide (c.settled (ProfilePreviewRenderer.exec ide)))
    (fun c turn c' h hstep => ?_) _ _ _ drawn_new hrun
  rw [Deferred.settled_step hstep]
  cases turn with
  | call op => exact h.perform op
  | task => exact h

/-- **No gutter is leaked.** Whatever the calls and the interleaving with the UI tasks, with
    the queue drained the gutters are one for each file that had values at the last `activate`
    or `update` and whose document has their lines. -/
theorem liveGutters_of_run {turns : List (Turn GutterOp)}
    {c : Deferred GutterRun GutterMarkup GutterTask}
    (hrun : (machine ide).run (machine ide).init turns = some c) (hqueue : c.queue = []) :
    LiveGutters ide (c.state, c.screen) := by
  have hdrawn := drawn_of_run hrun
  rw [Deferred.settled_of_queue_nil hqueue] at hdrawn
  intro file
  rw [hdrawn.gutters]
  exact filter_filterMap_gutterOf hdrawn.nodup file

/-- An editor whose documents have every line. -/
def longDocuments : EditorState := ⟨some, fun _ _ => true, fun _ _ _ => true, fun _ _ => true,
  fun _ => [], fun _ => []⟩

/-- A sample is recorded and drawn, cleared and drawn again before the first gutter is in the
    markup. -/
def clearedEarly : List (Turn GutterOp) :=
  [.call (.onLineProfileEvent ⟨"main.py", false, [], [], 1, none, 1⟩ [(1, 5)] .ADD),
    .call .activate, .call (.clearFile "main.py"), .call .update, .task, .task, .task, .task,
    .task]

/-- In the end no gutter of the file is left. -/
theorem liveGutters_clearedEarly :
    ∃ c, (machine longDocuments).run (machine longDocuments).init clearedEarly = some c ∧
      c.queue = [] ∧ LiveGutters longDocuments (c.state, c.screen) :=
  ⟨_, rfl, rfl, @liveGutters_of_run longDocuments clearedEarly _ rfl rfl⟩

end GutterRun

end Reloadium.Profile
