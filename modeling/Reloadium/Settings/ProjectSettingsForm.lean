import Reloadium.Lib.AddNew
import Reloadium.Handler.BeforeRun
import Reloadium.Settings.PreferencesForm

namespace Reloadium.Settings

open Reloadium.Lib
open Reloadium.Handler (ProjectState)

/-!
# Settings — the project's settings

Model of `RwPathEditor`, `ProjectSettingsForm` and `ProjectSettingsConfigurable`.  The editor holds
files, so a path that none is found for is left out, and a file is named by its own path; the
platform's editor adds no file twice.

* `ProjectState.equals_eq` — the comparison is that of all fields;
* `PathPlatform` — the platform's files and its path editor, and what it documents of them;
* `getPaths_addPaths` — the paths an editor gives back;
* `projectSettings_kept_iff` — when opening and applying the settings changes nothing;
* `settingsKept_iff` — the same for both pages.
-/

/-! ### The state -/

/-- `ProjectState.equals`. -/
def ProjectState.equals (this that : ProjectState) : Bool :=
  this.reloadiumPath = that.reloadiumPath && this.reloadiumIgnore = that.reloadiumIgnore &&
    this.cache = that.cache && this.watchCwd = that.watchCwd &&
    this.printLogo = that.printLogo && this.verbose = that.verbose &&
    this.watchSourceRoots = that.watchSourceRoots &&
    this.watchFilesWithBreakpoints = that.watchFilesWithBreakpoints &&
    this.watchOpenFiles = that.watchOpenFiles

/-- The comparison leaves out no field. -/
theorem ProjectState.equals_eq (this that : ProjectState) :
    ProjectState.equals this that = decide (this = that) := by
  obtain ⟨⟩ := this
  obtain ⟨⟩ := that
  rw [Bool.eq_iff_iff, ProjectState.equals]
  simp only [Bool.and_eq_true, decide_eq_true_eq, Handler.ProjectState.mk.injEq]
  tauto

/-! ### Paths in an editor -/

/-- The platform: the file of a path (`VirtualFileWrapper.getVirtualFile(false)`, null if there is
    none), the path of a file (`toNioPath().toString()`), and the operations of `PathEditor`. -/
structure PathPlatform (VirtualFile Editor : Type*) where
  getVirtualFile : String → Option VirtualFile
  nioPath : VirtualFile → String
  clearList : Editor → Editor
  addPaths : Editor → Option VirtualFile → Editor
  getRoots : Editor → List VirtualFile

variable {VirtualFile Editor : Type*}

/-- What is documented of `PathEditor`: an element is added only if it is not added yet, and null is
    none. -/
structure PathPlatform.Documented [DecidableEq VirtualFile]
    (platform : PathPlatform VirtualFile Editor) : Prop where
  getRoots_clearList : ∀ editor, platform.getRoots (platform.clearList editor) = []
  getRoots_addPaths : ∀ editor file, platform.getRoots (platform.addPaths editor (some file)) =
    addNew (platform.getRoots editor) file
  getRoots_addPaths_null : ∀ editor, platform.getRoots (platform.addPaths editor none) =
    platform.getRoots editor

namespace RwPathEditor

variable (platform : PathPlatform VirtualFile Editor)

/-- `addPaths`. -/
def addPaths (editor : Editor) (paths : List String) : Editor :=
  paths.foldl (fun editor path => platform.addPaths editor (platform.getVirtualFile path))
    (platform.clearList editor)

/-- `getPaths`. -/
def getPaths (editor : Editor) : List String := (platform.getRoots editor).map platform.nioPath

end RwPathEditor

/-- The paths are those of files that there are, as their files name them, and none comes twice. -/
def PathPlatform.Restores (platform : PathPlatform VirtualFile Editor) (paths : List String) :
    Prop :=
  paths.Nodup ∧ ∀ path ∈ paths, ∃ file,
    platform.getVirtualFile path = some file ∧ platform.nioPath file = path

/-! ### The form -/

/-- `ProjectSettingsForm`, under the names of its components. -/
structure ProjectSettingsForm (Editor : Type*) where
  reloadiumPath : Editor
  reloadiumIgnore : Editor
  addCurrentWorkingDirectoryCB : Bool
  watchSourceRootsCB : Bool
  watchFilesWithBreakpointsCB : Bool
  watchOpenFilesCB : Bool
  printLogoCB : Bool
  cacheEnabledCB : Bool
  verboseCB : Bool

namespace ProjectSettingsForm

variable (platform : PathPlatform VirtualFile Editor)

/-- `getState`. -/
def getState (form : ProjectSettingsForm Editor) : ProjectState where
  reloadiumPath := RwPathEditor.getPaths platform form.reloadiumPath
  reloadiumIgnore := RwPathEditor.getPaths platform form.reloadiumIgnore
  watchCwd := form.addCurrentWorkingDirectoryCB
  watchSourceRoots := form.watchSourceRootsCB
  watchFilesWithBreakpoints := form.watchFilesWithBreakpointsCB
  watchOpenFiles := form.watchOpenFilesCB
  printLogo := form.printLogoCB
  cache := form.cacheEnabledCB
  verbose := form.verboseCB

/-- `setState`. -/
def setState (form : ProjectSettingsForm Editor) (state : ProjectState) :
    ProjectSettingsForm Editor where
  reloadiumPath := RwPathEditor.addPaths platform form.reloadiumPath state.reloadiumPath
  reloadiumIgnore := RwPathEditor.addPaths platform form.reloadiumIgnore state.reloadiumIgnore
  addCurrentWorkingDirectoryCB := state.watchCwd
  watchSourceRootsCB := state.watchSourceRoots
  watchFilesWithBreakpointsCB := state.watchFilesWithBreakpoints
  watchOpenFilesCB := state.watchOpenFiles
  printLogoCB := state.printLogo
  cacheEnabledCB := state.cache
  verboseCB := state.verbose

end ProjectSettingsForm

/-- `ProjectSettingsConfigurable`.  `ProjectSettings.loadState` copies every field. -/
def projectSettingsConfigurable (platform : PathPlatform VirtualFile Editor) :
    Configurable (ProjectSettingsForm Editor) ProjectState where
  setState form state := some (form.setState platform state)
  getState form := some (form.getState platform)
  equals this that := some (ProjectState.equals this that)
  loadState state _ := state

theorem projectSettingsConfigurable_lawful (platform : PathPlatform VirtualFile Editor) :
    (projectSettingsConfigurable platform).Lawful where
  equals_self _ state _ := by
    have hequals := ProjectState.equals_eq state state
    exact congrArg some (hequals.trans (decide_eq_true rfl))
  loadState_eq _ _ := rfl

/-! ### What the editors give back -/

variable [DecidableEq VirtualFile] {platform : PathPlatform VirtualFile Editor}

/-- The loop adds the files that are found, each once. -/
theorem getRoots_foldl (h : platform.Documented) (editor : Editor) (paths : List String) :
    platform.getRoots (paths.foldl (fun editor path =>
        platform.addPaths editor (platform.getVirtualFile path)) editor) =
      addAllNew platform.getVirtualFile (platform.getRoots editor) paths := by
  induction paths generalizing editor with
  | nil => rfl
  | cons path paths ih =>
    rw [List.foldl_cons, ih, addAllNew]
    cases platform.getVirtualFile path with
    | none => rw [h.getRoots_addPaths_null, Option.elim_none]
    | some file => rw [h.getRoots_addPaths, Option.elim_some]

/-- **Spec lemma.** The editor gives back the paths of the files that are found. -/
theorem getPaths_addPaths (h : platform.Documented) (editor : Editor) (paths : List String) :
    RwPathEditor.getPaths platform (RwPathEditor.addPaths platform editor paths) =
      (addAllNew platform.getVirtualFile [] paths).map platform.nioPath := by
  rw [RwPathEditor.getPaths, RwPathEditor.addPaths, getRoots_foldl h, h.getRoots_clearList]

theorem getPaths_addPaths_eq_iff (h : platform.Documented) (editor : Editor)
    (paths : List String) :
    RwPathEditor.getPaths platform (RwPathEditor.addPaths platform editor paths) = paths ↔
      platform.Restores paths := by
  have hnames := @map_addAllNew_eq_iff _ _ _ platform.getVirtualFile platform.nioPath [] paths
  rw [List.map_nil, List.nil_append] at hnames
  rw [getPaths_addPaths h, hnames, PathPlatform.Restores]
  simp only [List.not_mem_nil, not_false_eq_true, and_true]

/-- **Project settings.** Opening and applying them changes nothing just if both editors give back
    their paths. -/
theorem projectSettings_kept_iff (h : platform.Documented) (form : ProjectSettingsForm Editor)
    (state : ProjectState) :
    (projectSettingsConfigurable platform).Kept form state ↔
      platform.Restores state.reloadiumPath ∧ platform.Restores state.reloadiumIgnore := by
  rw [Configurable.kept_iff (projectSettingsConfigurable_lawful platform),
    ← getPaths_addPaths_eq_iff h form.reloadiumPath,
    ← getPaths_addPaths_eq_iff h form.reloadiumIgnore]
  show some ((form.setState platform state).getState platform) = some state ↔ _
  rw [Option.some.injEq]
  constructor
  · intro heq
    exact ⟨congrArg ProjectState.reloadiumPath heq, congrArg ProjectState.reloadiumIgnore heq⟩
  · rintro ⟨hpath, hignore⟩
    rw [ProjectSettingsForm.getState, ProjectSettingsForm.setState]
    simp only [hpath, hignore]

/-- **Settings.** Opening and applying both pages changes nothing just if the default frame scope is
    set, the colour map is one there is, and the paths of both lists are those of files that there
    are, as their files name them, and none comes twice. -/
theorem settingsKept_iff (h : platform.Documented) (preferencesForm : PreferencesForm)
    (preferences : PreferencesState) (projectForm : ProjectSettingsForm Editor)
    (project : ProjectState) :
    (preferencesConfigurable.Kept preferencesForm preferences ∧
        (projectSettingsConfigurable platform).Kept projectForm project) ↔
      (preferences.defaultFrameScope = true ∧
        ∃ colorMap ∈ ColorMaps.getAll, preferences.timingColorMap = some colorMap.name) ∧
      platform.Restores project.reloadiumPath ∧ platform.Restores project.reloadiumIgnore :=
  and_congr (preferences_kept_iff preferencesForm preferences)
    (projectSettings_kept_iff h projectForm project)

/-! ### A path that is not there -/

/-- A machine with these files, each named by its path. -/
def machineWith (files : List String) : PathPlatform String (List String) where
  getVirtualFile path := if path ∈ files then some path else none
  nioPath file := file
  clearList _ := []
  addPaths roots file := file.elim roots (addNew roots)
  getRoots roots := roots

theorem machineWith_documented (files : List String) : (machineWith files).Documented where
  getRoots_clearList _ := rfl
  getRoots_addPaths _ _ := rfl
  getRoots_addPaths_null _ := rfl

/-- The preferences' form as it is created. -/
def newForm : PreferencesForm where
  blinkDuration := 0
  timingColormap := some .inferno
  markReloadable := true
  defaultProfiler := some .DEFAULT
  defaultCumulateType := some .DEFAULT
  errorHandlingMode := some .DEFAULT
  alwaysCollectMemory := false
  runtimeCompletion := true

/-- The project's form as it is created. -/
def emptyForm : ProjectSettingsForm (List String) where
  reloadiumPath := []
  reloadiumIgnore := []
  addCurrentWorkingDirectoryCB := false
  watchSourceRootsCB := false
  watchFilesWithBreakpointsCB := false
  watchOpenFilesCB := false
  printLogoCB := false
  cacheEnabledCB := false
  verboseCB := false

/-- A project with one path. -/
def projectWithLib : ProjectState := { reloadiumPath := ["/home/user/lib"] }

/-- New preferences are kept, and so is a path whose file is there. -/
theorem settingsKept_of_file :
    preferencesConfigurable.Kept newForm .new ∧
      (projectSettingsConfigurable (machineWith ["/home/user/lib"])).Kept emptyForm
        projectWithLib := by
  refine (settingsKept_iff (machineWith_documented _) newForm .new emptyForm projectWithLib).mpr
    ⟨⟨rfl, ColorMaps.viridis, by decide, rfl⟩, ⟨List.nodup_singleton _, ?_⟩,
      List.nodup_nil, fun _ h => absurd h List.not_mem_nil⟩
  intro path hpath
  rw [List.mem_singleton.mp hpath]
  exact ⟨"/home/user/lib", rfl, rfl⟩

/-- Preferences without frame scope get it back, and a path without a file is lost. -/
theorem settings_lost :
    ¬ preferencesConfigurable.Kept newForm
        { PreferencesState.new with defaultFrameScope := false } ∧
      ¬ (projectSettingsConfigurable (machineWith [])).Kept emptyForm projectWithLib := by
  constructor
  · intro hkept
    cases ((preferences_kept_iff _ _).mp hkept).1
  · intro hkept
    obtain ⟨⟨-, hfound⟩, -⟩ :=
      (projectSettings_kept_iff (machineWith_documented []) _ _).mp hkept
    obtain ⟨file, hfile, -⟩ := hfound "/home/user/lib" List.mem_cons_self
    cases hfile

end Reloadium.Settings
