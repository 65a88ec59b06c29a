import Reloadium.Lib.PMap
import Reloadium.Lib.JString

namespace Reloadium.Handler

open Reloadium.Lib

/-!
# Handler — the environment of a run

Model of `PythonRunConfHandler.beforeRun`, of what `RemoteRunConfHandler` and
`DockerRunConfHandler` add to it, and of the conversion of paths to the remote machine.
The path mappings are the platform's: `PathMappingSettings` is its `convertToRemote`,
which replaces a mapped local prefix by its remote prefix and throws nothing, so the
`catch` of `getRemotePaths` has nothing to catch.

The source roots and the fallback are converted when they are added to the watched paths
and once more by `getRemotePaths`.  `watchedPaths_iff` says when the entries of
`RELOADIUMPATH` are converted exactly once all the same.
-/

/-- `RunType`. -/
inductive RunType where
  | RUN
  | DEBUG
deriving DecidableEq, Repr

/-- `Stage`. -/
inductive Stage where
  | LOCAL
  | CI
  | STAGE
  | PROD
deriving DecidableEq, Repr

/-- `Stage.value`. -/
def Stage.value : Stage → String
  | .LOCAL => "local"
  | .CI => "ci"
  | .STAGE => "stage"
  | .PROD => "prod"

/-- The constants of `Const` that `beforeRun` reads. -/
structure Const where
  launcherName : String
  version : String
  pycharm : String
  stage : Stage

/-- `ProjectState`; the defaults are those of its constructor. -/
structure ProjectState where
  reloadiumPath : List String := []
  reloadiumIgnore : List String := []
  watchCwd : Bool := true
  watchSourceRoots : Bool := true
  watchFilesWithBreakpoints : Bool := true
  watchOpenFiles : Bool := true
  printLogo : Bool := true
  cache : Bool := true
  verbose : Bool := true
deriving DecidableEq, Repr

/-- A source root of the module: `toNioPath().toString()`, and whether its file system is a
    `TempFileSystem`. -/
structure SourceRoot where
  path : String
  temp : Bool
deriving DecidableEq, Repr

/-- A file open in the editor. -/
structure OpenFile where
  path : String
  extension : Option String

/-- `PathMappingSettings`, by its `convertToRemote`. -/
structure PathMappingSettings where
  convertToRemote : String → String

/-- What `beforeRun` reads and writes of the run configuration.  `sourceRoots` is `none`
    where `getModule()` is null. -/
structure RunConf where
  interpreterOptions : String
  envs : PMap String String
  workingDirectory : String
  sourceRoots : Option (List SourceRoot)
  mappingSettings : Option PathMappingSettings

/-- What `beforeRun` reads elsewhere: the application, the project, the session, the user's
    configuration and its own environment.  `extraEnvsSetter` is `none` where it is null. -/
structure Ide where
  const : Const
  fullApplicationName : String
  fullVersion : String
  pathSep : String
  port : Int
  quickConfigPayload : String
  userUuid : String
  pythonpath : Option String
  basePath : Option String
  openFiles : List OpenFile
  extraEnvsSetter : Option (PMap String String → PMap String String)

/-- `EnvUtils.boolToEnv`. -/
def boolToEnv (value : Bool) : String := if value then "True" else "False"

/-- `String.join`. -/
def join (separator : String) (parts : List String) : String := separator.intercalate parts

/-- `RemoteRunConfHandler.convertPathToRemote`, with `warnMissing` false. -/
def convertPathToRemote (runConf : RunConf) (localPath : String) : String :=
  match runConf.mappingSettings with
  | none => localPath
  | some mappings => mappings.convertToRemote localPath

/-- `getRemotePaths`. -/
def getRemotePaths (runConf : RunConf) (paths : List String) : List String :=
  paths.map (convertPathToRemote runConf)

/-- The source roots `beforeRun` watches: none if they are disabled or there is no module,
    and none that lives in a temporary file system. -/
def watchedRoots (state : ProjectState) (runConf : RunConf) : List String :=
  if state.watchSourceRoots then
    match runConf.sourceRoots with
    | none => []
    | some sourceRoots => (sourceRoots.filter fun f => !f.temp).map SourceRoot.path
  else []

/-- The local variable `reloadiumPath` of `beforeRun`, complete.  The roots and the base
    path are converted as they are added. -/
def reloadiumPath (ide : Ide) (state : ProjectState) (runConf : RunConf) : List String :=
  let reloadiumPath := state.reloadiumPath ++
    (watchedRoots state runConf).map (convertPathToRemote runConf)
  if reloadiumPath.isEmpty && runConf.workingDirectory.isEmpty then
    match ide.basePath with
    | none => reloadiumPath
    | some basePath => reloadiumPath ++ [convertPathToRemote runConf basePath]
  else reloadiumPath

/-- `reloadiumPathRemote`: the entries of `RELOADIUMPATH`. -/
def reloadiumPathRemote (ide : Ide) (state : ProjectState) (runConf : RunConf) :
    List String := getRemotePaths runConf (reloadiumPath ide state runConf)

/-- The open Python files, converted. -/
def openPythonFiles (ide : Ide) (runConf : RunConf) : List String :=
  (ide.openFiles.filter fun f => f.extension = some "py").map fun f =>
    convertPathToRemote runConf f.path

/-- `RemoteRunConfHandler.getPackagesRootDir`. -/
def getPackagesRootDir (const : Const) : String :=
  if const.stage ≠ .PROD then "/root/.reloadium/package_" ++ const.stage.value
  else "/root/.reloadium/package"

/-- `String.isBlank`. -/
def isBlank (s : String) : Bool := (JString.ofString s).isBlank

/-- The `PYTHONPATH` of the run.  `String.format` prints a null argument as `null`. -/
def pythonpath (ide : Ide) (envs : PMap String String) (launcherPath : String) : String :=
  let pythonpath := envs.getOrDefault "PYTHONPATH" ""
  let pythonpath :=
    if isBlank pythonpath then ide.pythonpath.getD ""
    else pythonpath ++ ide.pathSep ++ ide.pythonpath.getD "null"
  if isBlank pythonpath then launcherPath else launcherPath ++ ide.pathSep ++ pythonpath

/-- `PythonRunConfHandler.beforeRun`, called on a remote handler. -/
def PythonRunConfHandler.beforeRun (ide : Ide) (state : ProjectState) (runConf : RunConf)
    (runType : RunType) : RunConf :=
  let command := if runType = .DEBUG then "pydev_proxy" else "run"
  let envs := runConf.envs
    |>.put "RW_IDE_NAME" ide.fullApplicationName
    |>.put "RW_IDE_PLUGINVERSION" ide.const.version
    |>.put "RW_IDE_VERSION" ide.fullVersion
    |>.put "RW_IDE_TYPE" ide.const.pycharm
    |>.put "RW_VERBOSE" (boolToEnv state.verbose)
    |>.put "RW_CACHE" (boolToEnv state.cache)
    |>.put "RW_PRINTLOGO" (boolToEnv state.printLogo)
    |>.put "RW_WATCHCWD" (boolToEnv state.watchCwd)
    |>.put "RW_WATCHFILESWITHBREAKPOINTS" (boolToEnv state.watchFilesWithBreakpoints)
    |>.put "RW_IDE_SERVERPORT" (toString ide.port)
    |>.put "PYDEVD_USE_CYTHON" "NO"
    |>.put "RW_STAGE" ide.const.stage.value
  let envs :=
    match ide.extraEnvsSetter with
    | none => envs
    | some setEnvs => setEnvs envs
  let envs := envs.put "RW_QUICKCONFIG" ide.quickConfigPayload
  let envs :=
    if state.watchOpenFiles then
      envs.put "RW_EXTRAWATCHEDFILES" (join ide.pathSep (openPythonFiles ide runConf))
    else envs
  let envs := envs
    |>.put "RW_WATCHFILESWITHBREAKPOINTS" (boolToEnv state.watchFilesWithBreakpoints)
    |>.put "RELOADIUMPATH" (join ide.pathSep (reloadiumPathRemote ide state runConf))
    |>.put "RELOADIUMIGNORE" (join ide.pathSep (getRemotePaths runConf state.reloadiumIgnore))
  { runConf with
    interpreterOptions := "-m " ++ ide.const.launcherName ++ " " ++ command
    envs := envs.put "PYTHONPATH" (pythonpath ide envs (getPackagesRootDir ide.const)) }

/-- `RemoteRunConfHandler.beforeRun`, which is that of `SshRunConfHandler` too. -/
def RemoteRunConfHandler.beforeRun (ide : Ide) (state : ProjectState) (runConf : RunConf)
    (runType : RunType) : RunConf :=
  let runConf := PythonRunConfHandler.beforeRun ide state runConf runType
  { runConf with
    envs := runConf.envs.put "RW_USERID" ide.userUuid |>.put "RW_REMOTE" "True" }

/-- `DockerRunConfHandler.beforeRun`. -/
def DockerRunConfHandler.beforeRun (ide : Ide) (state : ProjectState) (runConf : RunConf)
    (runType : RunType) : RunConf :=
  let runConf := RemoteRunConfHandler.beforeRun ide state runConf runType
  { runConf with envs := runConf.envs.put "RW_DOCKER" "True" }

/-! ### The entries of RELOADIUMPATH -/

/-- The base path, where it is used: no path is configured or watched, and the run has no
    working directory. -/
def fallback (ide : Ide) (state : ProjectState) (runConf : RunConf) : List String :=
  if state.reloadiumPath = [] ∧ watchedRoots state runConf = [] ∧
      runConf.workingDirectory = "" then ide.basePath.toList
  else []

/-- What the entries should be: every configured path, every watched root and the fallback,
    converted once. -/
def watchedPaths (ide : Ide) (state : ProjectState) (runConf : RunConf) : List String :=
  (state.reloadiumPath ++ watchedRoots state runConf ++ fallback ide state runConf).map
    (convertPathToRemote runConf)

/-- `beforeRun` puts the entries, joined, into the environment. -/
theorem beforeRun_RELOADIUMPATH (ide : Ide) (state : ProjectState) (runConf : RunConf)
    (runType : RunType) :
    (RemoteRunConfHandler.beforeRun ide state runConf runType).envs "RELOADIUMPATH" =
        some (join ide.pathSep (reloadiumPathRemote ide state runConf)) ∧
      (DockerRunConfHandler.beforeRun ide state runConf runType).envs "RELOADIUMPATH" =
        some (join ide.pathSep (reloadiumPathRemote ide state runConf)) := by
  -- every variable put later has another name
  simp [DockerRunConfHandler.beforeRun, RemoteRunConfHandler.beforeRun,
    PythonRunConfHandler.beforeRun, PMap.put_apply]

/-- The watched paths before `getRemotePaths`. -/
theorem reloadiumPath_eq (ide : Ide) (state : ProjectState) (runConf : RunConf) :
    reloadiumPath ide state runConf = state.reloadiumPath ++
      (watchedRoots state runConf ++ fallback ide state runConf).map
        (convertPathToRemote runConf) := by
  unfold reloadiumPath fallback
  by_cases hempty : state.reloadiumPath = [] ∧ watchedRoots state runConf = [] ∧
      runConf.workingDirectory = ""
  · rw [if_pos hempty]
    obtain ⟨hpath, hroots, hdir⟩ := hempty
    rw [hpath, hroots, hdir]
    cases ide.basePath <;> rfl
  · rw [if_neg hempty, List.append_nil]
    have hcond : ((state.reloadiumPath ++
        (watchedRoots state runConf).map (convertPathToRemote runConf)).isEmpty &&
        runConf.workingDirectory.isEmpty) = false := by
      rw [Bool.and_eq_false_iff]
      by_contra hnot
      simp only [not_or, Bool.not_eq_false, List.isEmpty_iff, List.append_eq_nil_iff,
        List.map_eq_nil_iff, String.isEmpty_iff] at hnot
      exact hempty ⟨hnot.1.1, hnot.1.2, hnot.2⟩
    rw [if_neg (by simp only [hcond, Bool.false_eq_true, not_false_eq_true])]

/-- **Watched paths.** `RELOADIUMPATH` is set to its entries, and these are converted
    exactly once exactly when every watched root and the fallback, once converted, is left
    as it is by another conversion. -/
theorem watchedPaths_iff (ide : Ide) (state : ProjectState) (runConf : RunConf)
    (runType : RunType) :
    ((RemoteRunConfHandler.beforeRun ide state runConf runType).envs "RELOADIUMPATH" =
          some (join ide.pathSep (reloadiumPathRemote ide state runConf)) ∧
        (DockerRunConfHandler.beforeRun ide state runConf runType).envs "RELOADIUMPATH" =
          some (join ide.pathSep (reloadiumPathRemote ide state runConf))) ∧
      (reloadiumPathRemote ide state runConf = watchedPaths ide state runConf ↔
        ∀ p ∈ watchedRoots state runConf ++ fallback ide state runConf,
          convertPathToRemote runConf (convertPathToRemote runConf p) =
            convertPathToRemote runConf p) := by
  refine ⟨beforeRun_RELOADIUMPATH ide state runConf runType, ?_⟩
  rw [reloadiumPathRemote, reloadiumPath_eq, getRemotePaths, watchedPaths, List.append_assoc]
  -- the configured paths agree anyway
  generalize watchedRoots state runConf ++ fallback ide state runConf = early
  rw [List.map_append, List.map_append, List.append_cancel_left_eq, List.map_map,
    List.map_inj_left]
  rfl

/-! ### A mapping into the mapped directory -/

/-- Replace one mapped local prefix, at the end of a path component, by its remote
    prefix. -/
def prefixMapping (localRoot remoteRoot : String) : PathMappingSettings where
  convertToRemote path :=
    let rest := path.toList.drop localRoot.length
    if localRoot.toList <+: path.toList ∧ (rest = [] ∨ rest.head? = some '/') then
      remoteRoot ++ String.ofList rest
    else path

/-- A remote run of a project with one source root, whose root is mapped below itself. -/
def mappedBelowItself : RunConf where
  interpreterOptions := ""
  envs := PMap.empty
  workingDirectory := ""
  sourceRoots := some [⟨"/app", false⟩]
  mappingSettings := some (prefixMapping "/app" "/app/src")

/-- An application with no file open. -/
def idle : Ide where
  const := ⟨"reloadium_launcher", "1.2.0", "PyCharm", .LOCAL⟩
  fullApplicationName := "PyCharm"
  fullVersion := "2023.2"
  pathSep := ":"
  port := 4000
  quickConfigPayload := "\x7b\x7d"
  userUuid := ""
  pythonpath := none
  basePath := some "/app"
  openFiles := []
  extraEnvsSetter := none

/-- **Counterexample.** A source root mapped below itself is converted twice. -/
theorem source_root_converted_twice :
    ¬ ∀ (ide : Ide) (state : ProjectState) (runConf : RunConf),
      reloadiumPathRemote ide state runConf = watchedPaths ide state runConf := by
  intro h
  exact absurd (h idle {} mappedBelowItself) (by decide)

end Reloadium.Handler
