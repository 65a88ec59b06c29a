import Reloadium.Lib.Lts
import Reloadium.Pkg.NativeInstall

namespace Reloadium.Pkg

open Reloadium.Lib

/-!
# Pkg — crash consistency of the installer

Model of `InstallTask.runTask`, run again and again by plugins of any versions, each run
possibly failing in any step.

* `Fault`, `Fault.run` — a run of steps that is interrupted;
* `tasks` — the system of all sequences of such runs;
* `Consistent` — a version is recorded only where it is completely installed;
* `Clean` — the condition on a run: it is not interrupted while `version.txt` still names
  the version whose files it has begun to replace, and if it gets through it is faithful;
* `consistent_of_clean` — sequences of clean runs keep the installation consistent.
-/

/-! ### Interrupted runs -/

/-- How a run goes: what its operations reach, its temporary directories, and the step that
    it fails in, with the part of its region that this step has reached (`none`: it gets
    through).  A failure to write the version ends the run, so that it is such a step. -/
structure Fault (home : Path) where
  outcome : Outcome
  dirs : TempDirs
  stop : Option (Nat × (Path → Bool))
  apart : ∀ i, Apart (dirs.tmpdir i) (getPackagesRootDir home)
  opens_version : outcome.opens (currentVersionFile home) = true
  writes_version : outcome.writes (currentVersionFile home) = true

variable {home : Path}

/-- Execute steps up to the one that fails. -/
def Fault.run (f : Fault home) (fs : FileSystem) (steps : List Step) (w : World) : World :=
  match f.stop with
  | none => runSteps fs f.outcome.part steps w
  | some (k, part) =>
    let w' := runSteps fs f.outcome.part (steps.take k) w
    match steps[k]? with
    | none => w'
    -- the step that fails has reached a part of its region
    | some s => s.effect fs part w'

/-- The plugin of each version. -/
structure Releases where
  plugin : Version → Plugin
  builtinVersion_eq : ∀ v, (plugin v).builtinVersion = v

variable (releases : Releases) (machine : Machine)

/-- `InstallTask.runTask` of the plugin of a version. -/
def runTask (v : Version) (f : Fault home) (w : World) : World :=
  match shouldInstall (releases.plugin v) (.native home) w with
  | .ok true =>
    match getWheels (releases.plugin v).content machine with
    | some wheels => f.run (.native home) (install (releases.plugin v) (.native home) f.dirs wheels) w
    -- an unknown name in `content.txt`: `getWheels` throws
    | none => w
  -- the recorded version is this plugin's, or reading it throws
  | _ => w

/-- All sequences of runs. -/
def tasks (home : Path) (init : World) : Lts World (Version × Fault home) where
  init := init
  step w a := some (runTask releases machine a.1 a.2 w)

/-! ### Consistent installations -/

/-- `version.txt` names a version. -/
def Recorded (home : Path) (w : World) (v : Version) : Prop :=
  getCurrentVersion (.native home) w = .ok (some v.text)

/-- All accepted wheels and the launcher of a version are installed (and nothing else). -/
def CompletelyInstalled (strict : Prop) (home : Path) (w : World) (v : Version) : Prop :=
  ∃ wheels, getWheels (releases.plugin v).content machine = some wheels ∧
    ExactlyInstalled strict (releases.plugin v) home wheels w

/-- A version that is recorded, or that needs no installation, is completely installed. -/
structure Consistent (strict : Prop) (home : Path) (w : World) : Prop where
  of_recorded : ∀ v, Recorded home w v → CompletelyInstalled releases machine strict home w v
  of_shouldInstall : ∀ v, shouldInstall (releases.plugin v) (.native home) w = .ok false →
    CompletelyInstalled releases machine strict home w v

/-! ### Clean runs -/

/-- How far a run has come. -/
inductive Progress where
  /-- Its files are in temporary directories only. -/
  | fetched
  /-- It may have changed wheels and launcher, but not the version. -/
  | changed
  /-- It has emptied `version.txt`. -/
  | emptied
  /-- It has written the version. -/
  | written

/-- How far a run has come that opens `version.txt` in the step of index `n`. -/
def Fault.progress (f : Fault home) (n : Nat) : Progress :=
  match f.stop with
  | none => .written
  | some (k, part) =>
    if k < 2 then .fetched
    else if k < n then .changed
    else if k = n then if part (currentVersionFile home) then .emptied else .changed
    -- the content of the small file is there or not
    else if k = n + 1 then if part (currentVersionFile home) then .written else .emptied
    else .written

/-- A run that installs is clean: it fails in a temporary directory; or before it empties
    `version.txt`, which names no version; or before it writes the version; or it gets
    through, faithfully. -/
def Clean (strict : Prop) (w : World) (a : Version × Fault home) : Prop :=
  ∀ wheels, shouldInstall (releases.plugin a.1) (.native home) w = .ok true →
    getWheels (releases.plugin a.1).content machine = some wheels → wheels ≠ [] →
    match a.2.progress (7 * wheels.length + 2) with
    | .fetched => True
    | .changed => ∀ v, ¬ Recorded home w v
    | .emptied => True
    | .written => Faithful strict (releases.plugin a.1) home a.2.outcome wheels w

/-! ### What an interrupted run reaches -/

variable {releases machine} {strict : Prop} {f : Fault home} {fs : FileSystem} {w : World}
  {part : Path → Bool} {k : Nat}

theorem Fault.run_of_complete (h : f.stop = none) (steps : List Step) :
    f.run fs steps w = runSteps fs f.outcome.part steps w := by
  rw [Fault.run, h]

/-- A run that fails in the step after `before`. -/
theorem Fault.run_of_stop {before after : List Step} {s : Step}
    (h : f.stop = some (before.length, part)) :
    f.run fs (before ++ s :: after) w =
      s.effect fs part (runSteps fs f.outcome.part before w) := by
  simp [Fault.run, h]

/-- A run that would only fail later gets through. -/
theorem Fault.run_of_le {steps : List Step} (h : f.stop = some (k, part))
    (hle : steps.length ≤ k) : f.run fs steps w = runSteps fs f.outcome.part steps w := by
  simp [Fault.run, h, List.take_of_length_le hle, List.getElem?_eq_none hle]

/-- What the steps that a run comes to leave alone, it leaves alone. -/
theorem Fault.run_frame {steps : List Step} {q : Path} (h : f.stop = some (k, part))
    (hframe : ∀ s ∈ steps.take (k + 1), ¬ s.localScope fs q) :
    (f.run fs steps w).localFiles q = w.localFiles q := by
  have hbefore : (runSteps fs f.outcome.part (steps.take k) w).localFiles q = w.localFiles q :=
    runSteps_local_frame w fun s hs =>
      hframe s (List.mem_of_mem_take (by rwa [List.take_take, Nat.min_eq_left (Nat.le_succ k)]))
  simp only [Fault.run, h]
  cases hs : steps[k]? with
  | none => exact hbefore
  | some s =>
    have hmem : s ∈ steps.take (k + 1) := by
      rw [List.take_add_one, hs]
      exact List.mem_append_right _ List.mem_cons_self
    exact (Step.local_frame _ _ (hframe s hmem)).trans hbefore

/-! ### What a run does to the version -/

variable {plugin : Plugin} {wheels : List BaseWheel}

theorem length_installWheels (plugin : Plugin) (dirs : TempDirs) (i : Nat)
    (wheels : List BaseWheel) : (installWheels plugin fs dirs i wheels).length = 7 * wheels.length := by
  induction wheels generalizing i with
  | nil => rfl
  | cons wh rest ih =>
    rw [installWheels, List.length_append, ih, List.length_cons, Nat.mul_succ, Nat.add_comm]
    rfl

/-- The step that opens `version.txt`. -/
theorem length_beforeVersion (plugin : Plugin) (home : Path) (dirs : TempDirs) (wheels : List BaseWheel) :
    (beforeVersion plugin home dirs wheels).length = 7 * wheels.length + 2 := by
  rw [beforeVersion, List.length_append, length_installWheels]
  rfl

/-- The first two steps stay in the temporary directory of the first wheel. -/
theorem fetched_frame (plugin : Plugin) (f : Fault home) (hne : wheels ≠ []) (name : Text) (r : Path) :
    ∀ s ∈ (install plugin (.native home) f.dirs wheels).take 2,
      ¬ s.localScope (.native home) (getPackagesRootDir home ++ name :: r) := by
  have hnot : ¬ f.dirs.tmpdir 0 <+: getPackagesRootDir home ++ name :: r :=
    Apart.not_prefix (f.apart 0) (List.prefix_append _ _)
  cases wheels with
  | nil => exact absurd rfl hne
  | cons wh rest =>
    intro s hs
    rcases List.mem_pair.mp hs with rfl | rfl
    · exact fun heq => hnot (heq ▸ List.prefix_rfl)
    · exact fun heq => hnot (heq ▸ List.prefix_append _ _)

theorem openFile_version (part : Path → Bool) (w : World) :
    ((Step.openFile (currentVersionFile home)).effect (.native home) part w).localFiles
        (currentVersionFile home) =
      if part (currentVersionFile home) then some (.file [])
      else w.localFiles (currentVersionFile home) := by
  split
  case isTrue h => exact putFile_self _ _ _ _ h
  case isFalse h => exact putFile_of_not _ _ _ (by simpa using h)

theorem writeFile_version (bytes : Bytes) (part : Path → Bool) (w : World) :
    ((Step.writeFile (currentVersionFile home) bytes).effect (.native home) part w).localFiles
        (currentVersionFile home) =
      if part (currentVersionFile home) then some (.file bytes)
      else w.localFiles (currentVersionFile home) := by
  split
  case isTrue h => exact putFile_self _ _ _ _ h
  case isFalse h => exact putFile_of_not _ _ _ (by simpa using h)

/-- The version is written, over what the steps before that have done. -/
def VersionWritten (plugin : Plugin) (f : Fault home) (wheels : List BaseWheel)
    (w w' : World) : Prop :=
  w'.localFiles (currentVersionFile home) =
      some (.file (Utf8.encode plugin.builtinVersion.text)) ∧
    ∀ q, q ≠ currentVersionFile home → w'.localFiles q =
      (runSteps (.native home) f.outcome.part (beforeVersion plugin home f.dirs wheels)
        w).localFiles q

theorem versionWritten_of_runSteps (hne : wheels ≠ []) (f : Fault home) (w : World) :
    VersionWritten plugin f wheels w
      (runSteps (.native home) f.outcome.part (install plugin (.native home) f.dirs wheels) w) := by
  rw [install_eq _ _ _ hne, runSteps_append]
  exact ⟨native_writeString f.opens_version f.writes_version,
    fun q hq => runSteps_local_frame _ (writeString_local_frame hq _)⟩

/-- A run that fails in opening `version.txt`. -/
theorem run_stopped_opening (hwheels : getWheels plugin.content machine = some wheels)
    (hne : wheels ≠ [])
    (h : f.stop = some ((beforeVersion plugin home f.dirs wheels).length, part)) :
    (f.run (.native home) (install plugin (.native home) f.dirs wheels) w).localFiles
        (currentVersionFile home) =
      if part (currentVersionFile home) then some (.file [])
      else w.localFiles (currentVersionFile home) := by
  rw [install_eq _ _ _ hne, writeString, Fault.run_of_stop h, openFile_version,
    runSteps_local_frame w (beforeVersion_version_frame hwheels f.apart)]

/-- A run that fails in writing to it. -/
theorem run_stopped_writing (hne : wheels ≠ [])
    (h : f.stop = some ((beforeVersion plugin home f.dirs wheels).length + 1, part)) :
    let w' := f.run (.native home) (install plugin (.native home) f.dirs wheels) w
    if part (currentVersionFile home) then VersionWritten plugin f wheels w w'
    else w'.localFiles (currentVersionFile home) = some (.file []) := by
  intro w'
  have hsteps : install plugin (.native home) f.dirs wheels =
      (beforeVersion plugin home f.dirs wheels ++ [.openFile (currentVersionFile home)]) ++
        [.writeFile (currentVersionFile home) (Utf8.encode plugin.builtinVersion.text)] := by
    rw [install_eq _ _ _ hne, writeString, List.append_assoc]
    rfl
  have hrun : w' = (Step.writeFile (currentVersionFile home)
      (Utf8.encode plugin.builtinVersion.text)).effect (.native home) part
        (runSteps (.native home) f.outcome.part
          (beforeVersion plugin home f.dirs wheels ++ [.openFile (currentVersionFile home)]) w) := by
    show f.run _ _ w = _
    rw [hsteps]
    refine Fault.run_of_stop (h.trans ?_)
    rw [List.length_append, List.length_singleton]
  rw [runSteps_append] at hrun
  split
  case isTrue hpart =>
    refine ⟨?_, fun q hq => ?_⟩
    · rw [hrun, writeFile_version, if_pos hpart]
    · have hopen : ¬ (Step.openFile (currentVersionFile home)).localScope (.native home) q := hq
      have hwrite : ¬ (Step.writeFile (currentVersionFile home)
          (Utf8.encode plugin.builtinVersion.text)).localScope (.native home) q := hq
      rw [hrun, Step.local_frame _ _ hwrite]
      exact Step.local_frame _ _ hopen
  case isFalse hpart =>
    rw [hrun, writeFile_version, if_neg hpart, runSteps, runSteps, openFile_version,
      Outcome.part_openFile, if_pos f.opens_version]

/-- **How far a run comes**, in terms of what it does to the packages directory. -/
theorem run_progress (hwheels : getWheels plugin.content machine = some wheels)
    (hne : wheels ≠ []) (f : Fault home) (w : World) :
    let w' := f.run (.native home) (install plugin (.native home) f.dirs wheels) w
    match f.progress (7 * wheels.length + 2) with
    | .fetched => ∀ name r, w'.localFiles (getPackagesRootDir home ++ name :: r) =
        w.localFiles (getPackagesRootDir home ++ name :: r)
    | .changed => w'.localFiles (currentVersionFile home) = w.localFiles (currentVersionFile home)
    | .emptied => w'.localFiles (currentVersionFile home) = some (.file [])
    | .written => VersionWritten plugin f wheels w w' := by
  intro w'
  rw [← length_beforeVersion plugin home f.dirs wheels]
  cases hstop : f.stop with
  | none =>
    simp only [Fault.progress, hstop]
    rw [show w' = _ from Fault.run_of_complete hstop _]
    exact versionWritten_of_runSteps hne f w
  | some stop =>
    obtain ⟨k, part⟩ := stop
    have hlen := length_beforeVersion plugin home f.dirs wheels
    have hsteps := install_eq plugin home f.dirs hne
    simp only [Fault.progress, hstop]
    by_cases hk : k < 2
    · -- still in the first temporary directory
      rw [if_pos hk]
      refine fun name r => Fault.run_frame hstop fun s hs =>
        fetched_frame plugin f hne name r s ?_
      exact List.take_subset_take_left _ (by omega) hs
    rw [if_neg hk]
    rcases Nat.lt_trichotomy k (beforeVersion plugin home f.dirs wheels).length with
      hlt | rfl | hgt
    · -- wheels and launcher: no step has the version in its scope
      rw [if_pos hlt]
      refine Fault.run_frame hstop fun s hs => ?_
      rw [hsteps, List.take_append_of_le_length (by omega)] at hs
      exact beforeVersion_version_frame hwheels f.apart s (List.mem_of_mem_take hs)
    · have hopening := run_stopped_opening (w := w) hwheels hne hstop
      rw [if_neg (Nat.lt_irrefl _), if_pos rfl]
      split at hopening <;> rename_i hpart
      · rw [if_pos hpart]
        exact hopening
      · rw [if_neg hpart]
        exact hopening
    · rw [if_neg (by omega), if_neg (by omega)]
      by_cases heq : k = (beforeVersion plugin home f.dirs wheels).length + 1
      · subst heq
        have hwriting := run_stopped_writing (w := w) hne hstop
        rw [if_pos rfl]
        split at hwriting <;> rename_i hpart
        · rw [if_pos hpart]
          exact hwriting
        · rw [if_neg hpart]
          exact hwriting
      · -- the step that would fail does not exist
        have hle : (install plugin (.native home) f.dirs wheels).length ≤ k := by
          rw [hsteps, List.length_append]
          show _ + 2 ≤ k
          omega
        rw [if_neg heq, show w' = _ from Fault.run_of_le hstop hle]
        exact versionWritten_of_runSteps hne f w

/-! ### One run -/

/-- Whether an installation is consistent depends on the packages directory alone. -/
theorem Consistent.congr {w' : World} (h : Consistent releases machine strict home w)
    (hw : ∀ name r, w'.localFiles (getPackagesRootDir home ++ name :: r) =
      w.localFiles (getPackagesRootDir home ++ name :: r)) :
    Consistent releases machine strict home w' := by
  have hversion : getCurrentVersion (.native home) w' = getCurrentVersion (.native home) w :=
    getCurrentVersion_congr (hw _ _)
  have hinstalled (v : Version) (hv : CompletelyInstalled releases machine strict home w v) :
      CompletelyInstalled releases machine strict home w' v := by
    obtain ⟨wheels, hwheels, hexact⟩ := hv
    refine ⟨wheels, hwheels, ?_, (hw _ _).trans hexact.launcher, ?_⟩
    · intro wh hwh r
      rw [wheelDir_append, hw, ← wheelDir_append]
      exact hexact.installed wh hwh r
    · intro hstrict name r hq
      rw [hw] at hq
      exact hexact.nothing_else hstrict name r hq
  refine ⟨fun v hv => hinstalled v (h.of_recorded v ?_), fun v hv => hinstalled v (h.of_shouldInstall v ?_)⟩
  · rwa [Recorded, hversion] at hv
  · rwa [shouldInstall, hversion] at hv

/-- Only the recorded version needs no installation. -/
theorem recorded_of_shouldInstall {v : Version}
    (h : shouldInstall (releases.plugin v) (.native home) w = .ok false) : Recorded home w v := by
  rw [shouldInstall] at h
  cases hcurrent : getCurrentVersion (.native home) w with
  | error e => rw [hcurrent] at h; cases h
  | ok current =>
    cases current with
    | none => rw [hcurrent] at h; cases h
    | some text =>
      simp only [hcurrent, Except.ok.injEq, decide_eq_false_iff_not, not_not] at h
      rw [Recorded, hcurrent, ← h, releases.builtinVersion_eq]

/-- It is enough to look at the recorded version. -/
theorem Consistent.of_recorded_imp
    (h : ∀ v, Recorded home w v → CompletelyInstalled releases machine strict home w v) :
    Consistent releases machine strict home w :=
  ⟨h, fun v hv => h v (recorded_of_shouldInstall hv)⟩

/-- Where no version is recorded, there is nothing to be consistent with. -/
theorem Consistent.of_not_recorded (h : ∀ v, ¬ Recorded home w v) :
    Consistent releases machine strict home w :=
  .of_recorded_imp fun v hv => absurd hv (h v)

/-- An empty `version.txt` names no version. -/
theorem not_recorded_of_empty
    (h : w.localFiles (currentVersionFile home) = some (.file [])) (v : Version) :
    ¬ Recorded home w v := by
  have hempty : getCurrentVersion (.native home) w = .ok (some (JString.strip [])) :=
    getCurrentVersion_of_content (s := []) rfl h
  rw [Recorded, hempty]
  intro hv
  exact v.ne_nil (Option.some.inj (Except.ok.inj hv)).symm

/-- A version file with the text of a version names that version alone. -/
theorem eq_of_recorded {v v' : Version}
    (h : w.localFiles (currentVersionFile home) = some (.file (Utf8.encode v.text)))
    (hv' : Recorded home w v') : v' = v := by
  rw [Recorded, getCurrentVersion_of_content v.wellFormed h, v.strip_eq] at hv'
  exact Version.ext (Option.some.inj (Except.ok.inj hv')).symm

/-- A run of no steps does nothing. -/
theorem Fault.run_nil (f : Fault home) (fs : FileSystem) (w : World) : f.run fs [] w = w := by
  cases h : f.stop with
  | none => exact Fault.run_of_complete h []
  | some stop =>
    obtain ⟨k, part⟩ := stop
    exact Fault.run_of_le h (Nat.zero_le _)

/-- **One run.**  A clean run keeps an installation consistent. -/
theorem runTask_consistent (h : Consistent releases machine strict home w) {v : Version}
    (hclean : Clean releases machine strict w (v, f)) :
    Consistent releases machine strict home (runTask releases machine v f w) := by
  rw [runTask]
  split
  case h_2 => exact h
  case h_1 hshould =>
    split
    case h_2 => exact h
    case h_1 wheels hwheels =>
      by_cases hne : wheels = []
      · subst hne
        exact (Fault.run_nil f (.native home) w).symm ▸ h
      have hcond := hclean wheels hshould hwheels hne
      have hrun := run_progress hwheels hne f w
      cases hprogress : f.progress (7 * wheels.length + 2) with
      | fetched =>
        simp only [hprogress] at hrun
        exact h.congr hrun
      | changed =>
        -- the version file is as it was, and names no version
        simp only [hprogress] at hrun hcond
        refine .of_not_recorded fun v' hv' => hcond v' ?_
        rwa [Recorded, getCurrentVersion_congr hrun] at hv'
      | emptied =>
        simp only [hprogress] at hrun
        exact .of_not_recorded (not_recorded_of_empty hrun)
      | written =>
        simp only [hprogress] at hrun hcond
        -- the version file names this plugin's version, whose files have just been installed
        obtain ⟨hversion, hrest⟩ := hrun
        refine .of_recorded_imp fun v' hv' => ?_
        rw [releases.builtinVersion_eq] at hversion
        obtain rfl := eq_of_recorded hversion hv'
        exact ⟨wheels, hwheels, beforeVersion_exact hwheels f.apart hcond hrest⟩

/-- **Crash consistency.**  On a machine where no version is recorded at first, after any
    sequence of clean runs, a version that is recorded, or needs no installation, has all
    its wheels and its launcher installed; and nothing else, if the runs that get through
    also found nothing else. -/
theorem consistent_of_clean {init : World} {as : List (Version × Fault home)}
    (hinit : ∀ v, ¬ Recorded home init v)
    (hrun : (tasks releases machine home init).run init as = some w) :
    ((tasks releases machine home init).Meets (Clean releases machine False) init as →
      Consistent releases machine False home w) ∧
    ((tasks releases machine home init).Meets (Clean releases machine True) init as →
      Consistent releases machine True home w) := by
  have hstep (strict : Prop) (s : World) (a : Version × Fault home) (s' : World)
      (hs : Consistent releases machine strict home s) (hclean : Clean releases machine strict s a)
      (hs' : (tasks releases machine home init).step s a = some s') :
      Consistent releases machine strict home s' := by
    obtain rfl := Option.some.inj hs'
    exact runTask_consistent hs hclean
  exact ⟨fun hmeets => Lts.invariant_of_meets (hstep False) (.of_not_recorded hinit) hmeets hrun,
    fun hmeets => Lts.invariant_of_meets (hstep True) (.of_not_recorded hinit) hmeets hrun⟩

/-! ### An upgrade -/

/-- Releases with one wheel each. -/
def linuxReleases : Releases where
  plugin := linuxRelease
  builtinVersion_eq _ := rfl

/-- A run that is stopped somewhere, or not at all. -/
def linuxRun (stop : Option (Nat × (Path → Bool))) : Fault ["root".toList] where
  outcome := .success
  dirs := someDirs
  stop := stop
  apart i := by
    have hne : "tmp".toList ≠ "root".toList := by decide
    exact ⟨fun h => hne (List.cons_prefix_cons.mp h).1, fun h => hne (List.cons_prefix_cons.mp h).1.symm⟩
  opens_version := rfl
  writes_version := rfl

/-- A machine without files. -/
def emptyWorld : World where
  localFiles _ := none
  remoteFiles _ := none

theorem not_recorded_emptyWorld (v : Version) : ¬ Recorded home emptyWorld v :=
  fun h => nomatch h

/-- Over an exact installation of another version, a successful run is faithful. -/
theorem faithful_of_exactlyInstalled {v v' : Version}
    (h : ExactlyInstalled True (linuxRelease v) home [linuxWheel] w) :
    Faithful True (linuxRelease v') home .success [linuxWheel] w where
  same_dir wh hwh wh' hwh' _ := by
    rw [List.mem_singleton.mp hwh, List.mem_singleton.mp hwh']
  clearable wh hwh := by
    refine ⟨?_, fun r _ _ => rfl⟩
    have hdir := h.installed wh hwh []
    rw [List.append_nil, unpacked_nil] at hdir
    rw [hdir]
    rfl
  launcher := .inl ⟨rfl, rfl⟩
  nothing_else := h.nothing_else

/-- So is one on a machine without files. -/
theorem faithful_emptyWorld (v : Version) :
    Faithful True (linuxRelease v) home .success [linuxWheel] emptyWorld where
  same_dir wh hwh wh' hwh' _ := by
    rw [List.mem_singleton.mp hwh, List.mem_singleton.mp hwh']
  clearable _ _ := ⟨rfl, fun _ _ _ => rfl⟩
  launcher := .inl ⟨rfl, rfl⟩
  nothing_else _ _ _ h := absurd rfl h

/-- The accepted wheels of a release. -/
theorem eq_linuxWheel {v : Version} {wheels : List BaseWheel}
    (h : getWheels (linuxReleases.plugin v).content linuxMachine = some wheels) :
    wheels = [linuxWheel] :=
  Option.some.inj (h.symm.trans (getWheels_linuxRelease v))

/-- The first installation. -/
theorem clean_emptyWorld :
    Clean linuxReleases linuxMachine True emptyWorld (v0_9_10, linuxRun none) := by
  intro wheels _ hwheels _
  obtain rfl := eq_linuxWheel hwheels
  exact faithful_emptyWorld v0_9_10

/-- The upgrade after it. -/
theorem clean_upgrade :
    Clean linuxReleases linuxMachine True
      (runTask linuxReleases linuxMachine v0_9_10 (linuxRun none) emptyWorld)
      (v1_2_0, linuxRun none) := by
  have hrecorded : Recorded ["root".toList]
      (runTask linuxReleases linuxMachine v0_9_10 (linuxRun none) emptyWorld) v0_9_10 := by
    rw [Recorded]
    decide +kernel
  obtain ⟨wheels, hwheels, hexact⟩ :=
    (runTask_consistent (.of_not_recorded not_recorded_emptyWorld) clean_emptyWorld).of_recorded
      v0_9_10 hrecorded
  intro wheels' _ hwheels' _
  obtain rfl := eq_linuxWheel hwheels
  obtain rfl := eq_linuxWheel hwheels'
  exact faithful_of_exactlyInstalled hexact

/-- Upgrading from `0.9.10` to `1.2.0`, with nothing going wrong. -/
theorem consistent_of_clean_upgrade :
    ∃ w, (tasks linuxReleases linuxMachine ["root".toList] emptyWorld).run emptyWorld
        [(v0_9_10, linuxRun none), (v1_2_0, linuxRun none)] = some w ∧
      Recorded ["root".toList] w v1_2_0 ∧
      Consistent linuxReleases linuxMachine True ["root".toList] w := by
  have hrun : (tasks linuxReleases linuxMachine ["root".toList] emptyWorld).run emptyWorld
      [(v0_9_10, linuxRun none), (v1_2_0, linuxRun none)] = some _ := rfl
  refine ⟨_, hrun, by rw [Recorded]; decide +kernel, ?_⟩
  refine (consistent_of_clean not_recorded_emptyWorld hrun).2 ?_
  exact Lts.meets_cons rfl clean_emptyWorld (Lts.meets_cons rfl clean_upgrade trivial)

/-- When the upgrade from `0.9.10` to `1.2.0` crashes after the wheel has been replaced,
    `version.txt` still says `0.9.10`. -/
theorem upgrade_crashes :
    ∃ w, (tasks linuxReleases linuxMachine ["root".toList] emptyWorld).run emptyWorld
        [(v0_9_10, linuxRun none), (v1_2_0, linuxRun (some (6, fun _ => true)))] = some w ∧
      Recorded ["root".toList] w v0_9_10 ∧
      shouldInstall (linuxRelease v0_9_10) (.native ["root".toList]) w = .ok false ∧
      ¬ CompletelyInstalled linuxReleases linuxMachine False ["root".toList] w v0_9_10 := by
  refine ⟨_, rfl, by rw [Recorded]; decide +kernel, by decide +kernel, ?_⟩
  rintro ⟨wheels, hwheels, hexact⟩
  obtain rfl := eq_linuxWheel hwheels
  -- the wheel file in the package directory is the one of `1.2.0`
  have hfile := hexact.installed linuxWheel List.mem_cons_self [linuxWheel.filename.getD []]
  revert hfile
  decide +kernel

end Reloadium.Pkg
