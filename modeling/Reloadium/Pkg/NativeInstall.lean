import Reloadium.Pkg.PackageManager

namespace Reloadium.Pkg

open Reloadium.Lib

/-!
# Pkg — what a complete native installation leaves behind

* `Installed`, `ExactlyInstalled` — the wheels, the launcher, and nothing else in the
  packages directory;
* `Faithful` — what an installation needs to find and to achieve for that;
* `unpack_installed` — unpacking one wheel;
* `beforeVersion_exact` — a faithful installation installs exactly what the plugin carries.
-/

variable {plugin : Plugin} {home : Path} {o : Outcome} {dirs : TempDirs} {w : World}

/-! ### What is installed -/

/-- The package directory of a wheel holds what the wheel unpacks to. -/
def Installed (plugin : Plugin) (home : Path) (w : World) (wh : BaseWheel) : Prop :=
  ∀ r, w.localFiles (wheelDir home wh ++ r) = unpacked plugin wh r

/-- What is in the packages directory: package directories of the wheels, the launcher and
    the version. -/
def OnlyHolds (home : Path) (wheels : List BaseWheel) (w : World) : Prop :=
  ∀ name r, w.localFiles (getPackagesRootDir home ++ name :: r) ≠ none →
    (∃ wh ∈ wheels, wh.getDstDirName.getD [] = name) ∨
      getPackagesRootDir home ++ name :: r = launcherFile home ∨
      getPackagesRootDir home ++ name :: r = currentVersionFile home

/-- The wheels and the launcher are installed and, if that is asked for, nothing else. -/
structure ExactlyInstalled (strict : Prop) (plugin : Plugin) (home : Path)
    (wheels : List BaseWheel) (w : World) : Prop where
  installed : ∀ wh ∈ wheels, Installed plugin home w wh
  launcher : w.localFiles (launcherFile home) = some (.file (Utf8.encode plugin.launcher))
  nothing_else : strict → OnlyHolds home wheels w

/-! ### What an installation needs -/

/-- What a wheel does not overwrite in its package directory is deleted. -/
structure Clearable (plugin : Plugin) (home : Path) (o : Outcome) (w : World)
    (wh : BaseWheel) : Prop where
  not_file : isFile (w.localFiles (wheelDir home wh)) = false
  deletes : ∀ r, unpacked plugin wh r = none → w.localFiles (wheelDir home wh ++ r) ≠ none →
    o.deletes (wheelDir home wh) (wheelDir home wh ++ r) = true

/-- An installation that gets through is faithful: wheels for one directory unpack to the
    same files, what the wheels do not overwrite is deleted, and the launcher is written (or
    was there, and is left alone). -/
structure Faithful (strict : Prop) (plugin : Plugin) (home : Path) (o : Outcome)
    (wheels : List BaseWheel) (w : World) : Prop where
  same_dir : ∀ wh ∈ wheels, ∀ wh' ∈ wheels, wh.getDstDirName.getD [] = wh'.getDstDirName.getD [] →
    unpacked plugin wh = unpacked plugin wh'
  clearable : ∀ wh ∈ wheels, Clearable plugin home o w wh
  launcher : o.opens (launcherFile home) = true ∧ o.writes (launcherFile home) = true ∨
    o.opens (launcherFile home) = false ∧
      w.localFiles (launcherFile home) = some (.file (Utf8.encode plugin.launcher))
  nothing_else : strict → OnlyHolds home wheels w

/-! ### One wheel -/

/-- A wheel's own paths. -/
theorem wheelDir_append (home : Path) (wh : BaseWheel) (r : Path) :
    wheelDir home wh ++ r = getPackagesRootDir home ++ wh.getDstDirName.getD [] :: r := by
  rw [wheelDir, packageVersionDir, List.append_assoc, List.singleton_append]

theorem unpacked_nil (wh : BaseWheel) : unpacked plugin wh [] = some .dir := by
  rw [unpacked, if_pos rfl]

/-- What a wheel does not overwrite is strictly below its directory. -/
theorem not_prefix_of_unpacked {wh : BaseWheel} {r : Path} (hr : unpacked plugin wh r = none)
    (d : Path) : ¬ d ++ r <+: d := by
  refine not_append_prefix ?_
  rintro rfl
  rw [unpacked_nil] at hr
  cases hr

theorem Clearable.congr {wh : BaseWheel} {w' : World} (h : Clearable plugin home o w wh)
    (hw : ∀ r, w'.localFiles (wheelDir home wh ++ r) = w.localFiles (wheelDir home wh ++ r)) :
    Clearable plugin home o w' wh where
  not_file := by
    have hdir := hw []
    rw [List.append_nil] at hdir
    rw [hdir]
    exact h.not_file
  deletes := fun r hr hq => h.deletes r hr (hw r ▸ hq)

/-- Deleting the package directory and making it anew leaves nothing that the wheel does
    not overwrite. -/
theorem clear_leaves {wh : BaseWheel} (h : Clearable plugin home o w wh) {r : Path}
    (hr : unpacked plugin wh r = none) :
    (runSteps (.native home) o.part
      [.deleteDirectory (wheelDir home wh), .mkdirs (wheelDir home wh)] w).localFiles
        (wheelDir home wh ++ r) = none := by
  have hmkdirs : ¬ (Step.mkdirs (wheelDir home wh)).localScope (.native home)
      (wheelDir home wh ++ r) := not_prefix_of_unpacked hr _
  rw [runSteps, runSteps, runSteps, Step.local_frame _ _ hmkdirs,
    Step.deleteDirectory_effect _ h.not_file, Outcome.part_deleteDirectory]
  by_cases hq : w.localFiles (wheelDir home wh ++ r) = none
  · exact Tree.delete_eq_none hq
  · exact Tree.delete_apply (h.deletes r hr hq)

/-- A native `putDirectory`. -/
theorem putDirectory_apply {src : Files} {dst r : Path} {trash : Option Path}
    {part : Path → Bool} (hpart : part (dst ++ r) = true) :
    ((Step.putDirectory src dst trash).effect (.native home) part w).localFiles (dst ++ r) =
      (src r).or (w.localFiles.mkdirs dst part (dst ++ r)) :=
  Tree.copy_apply hpart

/-- **Unpacking a wheel** installs it. -/
theorem unpack_installed {wh : BaseWheel} {tmpdir : Path} (trash : Option Text)
    (htmp : Apart tmpdir (getPackagesRootDir home)) (h : Clearable plugin home o w wh) :
    Installed plugin home
      (runSteps (.native home) o.part (unpack plugin (.native home) tmpdir trash wh) w) wh := by
  intro r
  have hroot (r : Path) : getPackagesRootDir home <+: wheelDir home wh ++ r := by
    rw [wheelDir_append]
    exact List.prefix_append _ _
  have hnot (r : Path) : ¬ tmpdir <+: wheelDir home wh ++ r := Apart.not_prefix htmp (hroot r)
  -- up to here everything happens in the temporary directory
  generalize hw₁ : runSteps (.native home) o.part
    [.createTempDirectory tmpdir, .copyInputStreamToFile (tmpdir ++ [wh.filename.getD []])
      (plugin.wheelFile (wh.filename.getD []))] w = w₁
  have hframe (r : Path) : w₁.localFiles (wheelDir home wh ++ r) =
      w.localFiles (wheelDir home wh ++ r) := by
    rw [← hw₁]
    refine runSteps_local_frame w ?_
    simp only [List.forall_mem_cons, Step.localScope, List.not_mem_nil, false_imp_iff,
      implies_true, and_true]
    exact ⟨fun heq => hnot r (heq ▸ List.prefix_rfl),
      fun heq => hnot r (heq ▸ List.prefix_append tmpdir _)⟩
  have hclear : Clearable plugin home o w₁ wh := h.congr hframe
  have hsteps : unpack plugin (.native home) tmpdir trash wh =
      [.createTempDirectory tmpdir, .copyInputStreamToFile (tmpdir ++ [wh.filename.getD []])
        (plugin.wheelFile (wh.filename.getD []))] ++
      ([.deleteDirectory (wheelDir home wh), .mkdirs (wheelDir home wh)] ++
        [.extractAll tmpdir (plugin.extracted (wh.filename.getD [])),
          .putDirectory (unpacked plugin wh) (wheelDir home wh)
            (trash.map fun uuid => ["tmp".toList, uuid]),
          .deleteFile (tmpdir ++ [wh.filename.getD []])]) := rfl
  rw [hsteps, runSteps_append, hw₁, runSteps_append]
  generalize hw₂ : runSteps (.native home) o.part
    [.deleteDirectory (wheelDir home wh), .mkdirs (wheelDir home wh)] w₁ = w₂
  have hextract : ¬ (Step.extractAll tmpdir (plugin.extracted (wh.filename.getD []))).localScope
      (.native home) (wheelDir home wh ++ r) := hnot r
  have hdelete : ¬ (Step.deleteFile (tmpdir ++ [wh.filename.getD []])).localScope
      (.native home) (wheelDir home wh ++ r) :=
    fun hpre => hnot r ((List.prefix_append _ _).trans hpre)
  rw [runSteps, runSteps, runSteps, runSteps, Step.local_frame _ _ hdelete,
    putDirectory_apply rfl]
  -- a file of the wheel is copied; anything else has been cleared away before
  cases hr : unpacked plugin wh r with
  | some node => rfl
  | none =>
    rw [Option.none_or, Tree.mkdirs_frame (not_prefix_of_unpacked hr _),
      Step.local_frame _ _ hextract, ← hw₂, clear_leaves hclear hr]

/-! ### All wheels -/

/-- A wheel stays installed when nothing in its directory is touched. -/
theorem Installed.frame {wh : BaseWheel} {steps : List Step} (h : Installed plugin home w wh)
    (hframe : ∀ r, ∀ s ∈ steps, ¬ s.localScope (.native home) (wheelDir home wh ++ r)) :
    Installed plugin home (runSteps (.native home) o.part steps w) wh := by
  intro r
  rw [runSteps_local_frame w (hframe r)]
  exact h r

/-- Other package directories are untouched while wheels are installed. -/
theorem installWheels_frame (htmp : ∀ i, Apart (dirs.tmpdir i) (getPackagesRootDir home))
    {wheels : List BaseWheel} {wh : BaseWheel}
    (hne : ∀ wh' ∈ wheels, wh'.getDstDirName.getD [] ≠ wh.getDstDirName.getD []) (i : Nat)
    (r : Path) : ∀ s ∈ installWheels plugin (.native home) dirs i wheels,
      ¬ s.localScope (.native home) (wheelDir home wh ++ r) := by
  rw [wheelDir_append]
  exact installWheels_local_frame htmp hne i r

/-- What is installed can be installed again. -/
theorem Installed.clearable {wh wh' : BaseWheel} (h : Installed plugin home w wh)
    (hdir : wheelDir home wh = wheelDir home wh')
    (hsame : unpacked plugin wh = unpacked plugin wh') : Clearable plugin home o w wh' where
  not_file := by
    have hroot := h []
    rw [List.append_nil, unpacked_nil] at hroot
    rw [← hdir, hroot]
    rfl
  deletes := by
    intro r hr hq
    rw [← hdir, h r, hsame] at hq
    exact absurd hr hq

theorem installWheels_installed (htmp : ∀ i, Apart (dirs.tmpdir i) (getPackagesRootDir home))
    {wheels : List BaseWheel}
    (hsame : ∀ wh ∈ wheels, ∀ wh' ∈ wheels,
      wh.getDstDirName.getD [] = wh'.getDstDirName.getD [] → unpacked plugin wh = unpacked plugin wh')
    (hclear : ∀ wh ∈ wheels, Clearable plugin home o w wh) (i : Nat) :
    ∀ wh ∈ wheels, Installed plugin home
      (runSteps (.native home) o.part (installWheels plugin (.native home) dirs i wheels) w) wh := by
  -- wheel by wheel; the state after the first is again one that the rest can be installed in
  induction wheels generalizing w i with
  | nil => exact fun wh hwh => absurd hwh List.not_mem_nil
  | cons wh rest ih =>
    have hself := unpack_installed (dirs.trash i) (htmp i) (hclear wh List.mem_cons_self)
    have hframe (wh' : BaseWheel) (hne : wh.getDstDirName.getD [] ≠ wh'.getDstDirName.getD [])
        (r : Path) :
        (runSteps (.native home) o.part
          (unpack plugin (.native home) (dirs.tmpdir i) (dirs.trash i) wh) w).localFiles
            (getPackagesRootDir home ++ wh'.getDstDirName.getD [] :: r) =
          w.localFiles (getPackagesRootDir home ++ wh'.getDstDirName.getD [] :: r) :=
      runSteps_local_frame w (unpack_local_frame (htmp i) hne r)
    rw [installWheels, runSteps_append]
    generalize runSteps (.native home) o.part
      (unpack plugin (.native home) (dirs.tmpdir i) (dirs.trash i) wh) w = w₁ at hself hframe ⊢
    have hrest := ih (w := w₁) (i := i + 1)
      (fun wh₁ h₁ wh₂ h₂ => hsame wh₁ (List.mem_cons_of_mem _ h₁) wh₂ (List.mem_cons_of_mem _ h₂)) ?_
    · intro wh' hwh'
      rcases List.mem_cons.mp hwh' with rfl | hmem
      · -- the wheel itself, unless a later one has the same directory
        by_cases hlater : ∃ wh'' ∈ rest, wh''.getDstDirName.getD [] = wh'.getDstDirName.getD []
        · obtain ⟨wh'', hmem, hdst⟩ := hlater
          intro r
          rw [wheelDir_append, ← hdst, ← wheelDir_append, hrest wh'' hmem r,
            hsame wh'' (List.mem_cons_of_mem _ hmem) wh' hwh' hdst]
        · exact hself.frame (installWheels_frame htmp
            (fun wh'' hmem hdst => hlater ⟨wh'', hmem, hdst⟩) (i + 1))
      · exact hrest wh' hmem
    · intro wh' hmem
      have hmem' := List.mem_cons_of_mem wh hmem
      by_cases hdst : wh.getDstDirName.getD [] = wh'.getDstDirName.getD []
      · refine hself.clearable ?_ (hsame wh List.mem_cons_self wh' hmem' hdst)
        rw [wheelDir, wheelDir, hdst]
      · refine (hclear wh' hmem').congr fun r => ?_
        rw [wheelDir_append]
        exact hframe wh' hdst r

/-! ### The launcher and the version -/

theorem writeString_local_frame {path q : Path} (hq : q ≠ path) (s : JString) :
    ∀ s' ∈ writeString path s, ¬ s'.localScope (.native home) q := by
  intro s' hs'
  rcases List.mem_pair.mp hs' with rfl | rfl
  · exact hq
  · exact hq

/-- A native `writeString`. -/
theorem native_writeString {path : Path} {s : JString} (hopens : o.opens path = true)
    (hwrites : o.writes path = true) :
    (runSteps (.native home) o.part (writeString path s) w).localFiles path =
      some (.file (Utf8.encode s)) := by
  have hpart : (o.opens path && o.writes path) = true := by rw [hopens, hwrites]; rfl
  exact putFile_self _ _ _ (fun _ => o.opens path && o.writes path) hpart

/-- A native `writeString` that fails to open the file. -/
theorem native_writeString_of_not_open {path : Path} (s : JString)
    (hopens : o.opens path = false) :
    (runSteps (.native home) o.part (writeString path s) w).localFiles path =
      w.localFiles path := by
  simp only [writeString, runSteps, Step.effect, Outcome.part_openFile, Outcome.part_writeFile,
    hopens, Bool.false_and, putFile, Tree.copy, Bool.false_eq_true, and_false, if_false]

/-! ### The whole installation -/

/-- The steps of an installation up to the writing of the version. -/
def beforeVersion (plugin : Plugin) (home : Path) (dirs : TempDirs) (wheels : List BaseWheel) :
    List Step :=
  installWheels plugin (.native home) dirs 0 wheels ++
    writeString (launcherFile home) plugin.launcher

theorem install_eq (plugin : Plugin) (home : Path) (dirs : TempDirs) {wheels : List BaseWheel}
    (hne : wheels ≠ []) :
    install plugin (.native home) dirs wheels =
      beforeVersion plugin home dirs wheels ++
        writeString (currentVersionFile home) plugin.builtinVersion.text := by
  cases wheels with
  | nil => exact absurd rfl hne
  | cons => rfl

theorem launcherFile_ne (home : Path) : launcherFile home ≠ currentVersionFile home := by
  intro h
  -- two files of one directory
  have hname : "reloadium_launcher.py".toList = "version.txt".toList :=
    (List.cons.inj (List.append_cancel_left h)).1
  revert hname
  decide

/-- The launcher and the version are in no package directory. -/
theorem wheelDir_append_ne {wh : BaseWheel} {name : Text} (hne : wh.getDstDirName.getD [] ≠ name)
    (r : Path) : wheelDir home wh ++ r ≠ getPackagesRootDir home ++ [name] := by
  rw [wheelDir_append]
  exact fun h => hne (List.cons.inj (List.append_cancel_left h)).1

variable {machine : Machine} {wheels : List BaseWheel}

/-- What is neither in a package directory nor the launcher stays as it is until the version
    is written. -/
theorem beforeVersion_frame (htmp : ∀ i, Apart (dirs.tmpdir i) (getPackagesRootDir home))
    {name : Text} {r : Path} (hname : ∀ wh ∈ wheels, wh.getDstDirName.getD [] ≠ name)
    (hlauncher : getPackagesRootDir home ++ name :: r ≠ launcherFile home) :
    ∀ s ∈ beforeVersion plugin home dirs wheels,
      ¬ s.localScope (.native home) (getPackagesRootDir home ++ name :: r) := by
  intro s hs
  rcases List.mem_append.mp hs with hs | hs
  · exact installWheels_local_frame htmp hname 0 r s hs
  · exact writeString_local_frame hlauncher _ s hs

/-- So does the version. -/
theorem beforeVersion_version_frame (hwheels : getWheels plugin.content machine = some wheels)
    (htmp : ∀ i, Apart (dirs.tmpdir i) (getPackagesRootDir home)) :
    ∀ s ∈ beforeVersion plugin home dirs wheels,
      ¬ s.localScope (.native home) (currentVersionFile home) :=
  beforeVersion_frame htmp (getDstDirName_ne hwheels _ (by decide)) (launcherFile_ne home).symm

/-- **A faithful installation** installs exactly what the plugin carries, whatever it does
    to the version in the end. -/
theorem beforeVersion_exact {strict : Prop}
    (hwheels : getWheels plugin.content machine = some wheels)
    (htmp : ∀ i, Apart (dirs.tmpdir i) (getPackagesRootDir home))
    (h : Faithful strict plugin home o wheels w) {w' : World}
    (hw' : ∀ q, q ≠ currentVersionFile home → w'.localFiles q =
      (runSteps (.native home) o.part (beforeVersion plugin home dirs wheels) w).localFiles q) :
    ExactlyInstalled strict plugin home wheels w' := by
  have hversion := getDstDirName_ne hwheels "version.txt".toList (by decide)
  have hlauncher := getDstDirName_ne hwheels "reloadium_launcher.py".toList (by decide)
  have hrun : runSteps (.native home) o.part (beforeVersion plugin home dirs wheels) w =
      runSteps (.native home) o.part (writeString (launcherFile home) plugin.launcher)
        (runSteps (.native home) o.part (installWheels plugin (.native home) dirs 0 wheels) w) :=
    runSteps_append _ _ _ _
  refine ⟨?_, ?_, ?_⟩
  · intro wh hwh r
    rw [hw' _ (wheelDir_append_ne (hversion wh hwh) r), hrun]
    exact (installWheels_installed htmp h.same_dir h.clearable 0 wh hwh).frame
      (fun r => writeString_local_frame (wheelDir_append_ne (hlauncher wh hwh) r) _) r
  · rw [hw' _ (launcherFile_ne home), hrun]
    rcases h.launcher with ⟨hopens, hwrites⟩ | ⟨hopens, hthere⟩
    · exact native_writeString hopens hwrites
    · rw [native_writeString_of_not_open _ hopens, ← hthere]
      exact runSteps_local_frame w (installWheels_local_frame htmp hlauncher 0 [])
  · intro hstrict name r hq
    -- what is left over was there before: no step has its path in its scope
    by_contra hnot
    simp only [not_or, not_exists, not_and] at hnot
    obtain ⟨hname, hL, hV⟩ := hnot
    rw [hw' _ hV, runSteps_local_frame w (beforeVersion_frame htmp hname hL)] at hq
    rcases h.nothing_else hstrict name r hq with ⟨wh, hwh, hdst⟩ | hL' | hV'
    · exact hname wh hwh hdst
    · exact hL hL'
    · exact hV hV'

/-! ### The version that is read -/

theorem nativeRead_encode {s : JString} (h : Utf8.WellFormed s) :
    nativeRead (Utf8.encode s) = .ok s := by
  have hdecode : Utf8.decode (Utf8.encode s) = s := by rw [Utf8.decode_encode, h]
  simp only [nativeRead, hdecode, if_true]

theorem getCurrentVersion_of_content {s : JString} (hs : Utf8.WellFormed s)
    (h : w.localFiles (currentVersionFile home) = some (.file (Utf8.encode s))) :
    getCurrentVersion (.native home) w = .ok (some s.strip) := by
  have hread : (FileSystem.native home).readString w
      (currentVersionFile (FileSystem.native home).getHome) = .ok s := by
    rw [FileSystem.readString, FileSystem.files, FileSystem.getHome, h]
    exact nativeRead_encode hs
  rw [getCurrentVersion, hread]

/-- The version that is read depends on the version file alone. -/
theorem getCurrentVersion_congr {w' : World}
    (h : w'.localFiles (currentVersionFile home) = w.localFiles (currentVersionFile home)) :
    getCurrentVersion (.native home) w' = getCurrentVersion (.native home) w := by
  rw [getCurrentVersion, getCurrentVersion, FileSystem.readString, FileSystem.readString,
    FileSystem.files, FileSystem.files, FileSystem.getHome, h]

end Reloadium.Pkg
