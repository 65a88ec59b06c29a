import Reloadium.Pkg.FileSystem

namespace Reloadium.Pkg

open Reloadium.Lib

/-!
# Pkg — installing the package

Model of `rw.pkg.PackageManager` and of `BaseWheel.unpack` as the sequence of the
operations they perform on the two machines.

* `Plugin` — what a version of the plugin carries in its resources;
* `Step` — one operation; its `effect` takes the part of its region that it reaches;
* `unpack`, `install` — the steps in the source's order;
* `runSteps` — their execution.

`unpack` clears the package directory with `java.io.File` and `FileUtils`, whichever file
system it is given.
-/

/-! ### The plugin -/

/-- The text of `version.txt` among the resources, which the constructor has stripped. -/
structure Version where
  text : JString
  strip_eq : text.strip = text
  ne_nil : text ≠ []
  wellFormed : Utf8.WellFormed text

theorem Version.ext {v v' : Version} (h : v.text = v'.text) : v = v' := by
  cases v
  cases v'
  cases h
  rfl

/-- The resources of a plugin: its version, `content.txt`, the wheel file of a name with
    the files it extracts to, and the launcher. -/
structure Plugin where
  builtinVersion : Version
  content : Text
  wheelFile : Text → Bytes
  extracted : Text → Files
  launcher : JString

variable (plugin : Plugin) (fs : FileSystem)

/-- `getCurrentVersion`. -/
def getCurrentVersion (w : World) : Except Exc (Option JString) :=
  match fs.readString w (currentVersionFile fs.getHome) with
  | .ok s => .ok (some s.strip)
  -- the `IOException` is caught, and no version is current
  | .error .io => .ok none
  -- a `NegativeArraySizeException` is not
  | .error .runtime => .error .runtime

/-- `shouldInstall`. -/
def shouldInstall (w : World) : Except Exc Bool :=
  match getCurrentVersion fs w with
  | .error e => .error e
  | .ok none => .ok true
  | .ok (some current) => .ok (plugin.builtinVersion.text ≠ current)

/-! ### Steps -/

/-- An operation of `unpack` or `install`. -/
inductive Step where
  | createTempDirectory (tmpdir : Path)
  | copyInputStreamToFile (file : Path) (bytes : Bytes)
  | deleteDirectory (dir : Path)
  | mkdirs (dir : Path)
  | extractAll (tmpdir : Path) (extracted : Files)
  /-- `trash` is where the remote directory is renamed to (`none`: that fails). -/
  | putDirectory (src : Files) (dst : Path) (trash : Option Path)
  | deleteFile (file : Path)
  | openFile (path : Path)
  | writeFile (path : Path) (bytes : Bytes)

/-- Copy a single file. -/
def putFile (files : Files) (path : Path) (bytes : Bytes) (part : Path → Bool) : Files :=
  files.copy path (.single (.file bytes)) part

theorem putFile_self (files : Files) (path : Path) (bytes : Bytes) (part : Path → Bool)
    (h : part path = true) : putFile files path bytes part path = some (.file bytes) :=
  Tree.copy_single_self _ h

theorem putFile_of_not (files : Files) (path : Path) (bytes : Bytes) {part : Path → Bool}
    (h : part path = false) : putFile files path bytes part path = files path := by
  rw [putFile, Tree.copy, if_neg]
  rintro ⟨-, hpart⟩
  rw [h] at hpart
  cases hpart

/-- There is a regular file. -/
def isFile : Option (Node Bytes) → Bool
  | some (.file _) => true
  | _ => false

/-- A step, as far as it gets. -/
def Step.effect (s : Step) (part : Path → Bool) (w : World) : World :=
  match s with
  | createTempDirectory tmpdir =>
    { w with localFiles := w.localFiles.copy tmpdir (.single .dir) part }
  | copyInputStreamToFile file bytes =>
    { w with localFiles := putFile w.localFiles file bytes part }
  | deleteDirectory dir =>
    match w.localFiles dir with
    -- not a directory: an `IllegalArgumentException`
    | some (.file _) => w
    | _ => { w with localFiles := w.localFiles.delete dir part }
  | mkdirs dir => { w with localFiles := w.localFiles.mkdirs dir part }
  | extractAll tmpdir extracted =>
    { w with localFiles := w.localFiles.copy tmpdir extracted part }
  | putDirectory src dst trash =>
    match fs with
    | .native _ =>
      -- `FileUtils.copyDirectory` merges into what is left of the directory
      { w with localFiles := (w.localFiles.mkdirs dst part).copy dst src part }
    | .remote =>
      -- the old directory is moved away; that it may be missing or stay is ignored
      let renamed := trash.elim w.remoteFiles (w.remoteFiles.move dst)
      { w with remoteFiles := (renamed.mkdirs dst part).copy dst src part }
  | deleteFile file => { w with localFiles := w.localFiles.delete file part }
  | openFile path =>
    match fs with
    | .native _ => { w with localFiles := putFile w.localFiles path [] part }
    | .remote =>
      -- opened with `WRITE` and `CREAT`: no truncation
      if w.remoteFiles path = none then
        { w with remoteFiles := putFile w.remoteFiles path [] part }
      else w
  | writeFile path bytes =>
    match fs with
    | .native _ => { w with localFiles := putFile w.localFiles path bytes part }
    | .remote =>
      match w.remoteFiles path with
      | some (.file old) =>
        -- the tail of a longer old content stays
        { w with remoteFiles := putFile w.remoteFiles path (overwrite old bytes) part }
      | _ => w

/-- Deleting a directory. -/
theorem Step.deleteDirectory_effect {dir : Path} {w : World}
    (h : isFile (w.localFiles dir) = false) (part : Path → Bool) :
    (Step.deleteDirectory dir).effect fs part w =
      { w with localFiles := w.localFiles.delete dir part } := by
  rw [Step.effect]
  split
  case h_1 content hfile =>
    rw [hfile] at h
    cases h
  case h_2 => rfl

/-- Execute the steps one after the other. -/
def runSteps (part : Step → World → Path → Bool) : List Step → World → World
  | [], w => w
  | s :: rest, w => runSteps part rest (s.effect fs (part s w) w)

/-- What the operations whose failure is not noticed, or not by all callers, reach: deleting
    `dir` deletes `deletes dir`, `mkdirs` makes the directories `creates dir`, and the file
    at `path` is opened (and emptied), and then written. -/
structure Outcome where
  deletes : Path → Path → Bool
  creates : Path → Path → Bool
  opens : Path → Bool
  writes : Path → Bool

/-- All other operations reach all of their region. -/
def Outcome.part (o : Outcome) : Step → World → Path → Bool
  | .deleteDirectory dir, _, q => o.deletes dir q
  | .deleteFile file, _, q => o.deletes file q
  | .mkdirs dir, _, q => o.creates dir q
  | .openFile path, _, _ => o.opens path
  | .writeFile path _, _, _ => o.opens path && o.writes path
  | _, _, _ => true

@[simp]
theorem Outcome.part_deleteDirectory (o : Outcome) (dir : Path) (w : World) :
    o.part (.deleteDirectory dir) w = o.deletes dir := rfl

@[simp]
theorem Outcome.part_mkdirs (o : Outcome) (dir : Path) (w : World) :
    o.part (.mkdirs dir) w = o.creates dir := rfl

@[simp]
theorem Outcome.part_openFile (o : Outcome) (path : Path) (w : World) :
    o.part (.openFile path) w = fun _ => o.opens path := rfl

@[simp]
theorem Outcome.part_writeFile (o : Outcome) (path : Path) (bytes : Bytes) (w : World) :
    o.part (.writeFile path bytes) w = fun _ => o.opens path && o.writes path := rfl

/-- Everything succeeds. -/
def Outcome.success : Outcome where
  deletes _ _ := true
  creates _ _ := true
  opens _ := true
  writes _ := true

/-! ### The steps of an installation -/

/-- The directories an installation makes up: the temporary directory of the wheel of an
    index, and the UUID that its remote directory is renamed to (`none`: renaming fails). -/
structure TempDirs where
  tmpdir : Nat → Path
  trash : Nat → Option Text

/-- What the temporary directory holds in the end: the wheel file and what it extracts to. -/
def unpacked (w : BaseWheel) : Files := fun r =>
  let filename := w.filename.getD []
  if r = [] then some .dir
  else (plugin.extracted filename r).or
    (if r = [filename] then some (.file (plugin.wheelFile filename)) else none)

/-- The package directory of a wheel. -/
def wheelDir (home : Path) (w : BaseWheel) : Path :=
  packageVersionDir home (w.getDstDirName.getD [])

/-- `BaseWheel.unpack`. -/
def unpack (tmpdir : Path) (trash : Option Text) (w : BaseWheel) : List Step :=
  let filename := w.filename.getD []
  let dir := wheelDir fs.getHome w
  -- the steps on `dir` before `putDirectory` are `java.io.File`'s, on the local machine
  [.createTempDirectory tmpdir,
    .copyInputStreamToFile (tmpdir ++ [filename]) (plugin.wheelFile filename),
    .deleteDirectory dir,
    .mkdirs dir,
    .extractAll tmpdir (plugin.extracted filename),
    .putDirectory (unpacked plugin w) dir (trash.map fun uuid => ["tmp".toList, uuid]),
    .deleteFile (tmpdir ++ [filename])]

/-- `installWheels`, from the wheel of index `i` on. -/
def installWheels (dirs : TempDirs) (i : Nat) : List BaseWheel → List Step
  | [] => []
  | w :: rest =>
    unpack plugin fs (dirs.tmpdir i) (dirs.trash i) w ++ installWheels dirs (i + 1) rest

/-- `writeString`. -/
def writeString (path : Path) (s : JString) : List Step :=
  [.openFile path, .writeFile path (Utf8.encode s)]

/-- `install`, for the wheels that are accepted. -/
def install (dirs : TempDirs) (wheels : List BaseWheel) : List Step :=
  -- nothing to install: the version is not written either
  if wheels.isEmpty then []
  else
    installWheels plugin fs dirs 0 wheels ++
      writeString (launcherFile fs.getHome) plugin.launcher ++
      -- the version comes last
      writeString (currentVersionFile fs.getHome) plugin.builtinVersion.text

/-! ### Frame rules -/

variable {fs}

/-- The local paths that a step may change. -/
def Step.localScope (fs : FileSystem) (s : Step) (q : Path) : Prop :=
  match s, fs with
  | createTempDirectory tmpdir, _ => q = tmpdir
  | copyInputStreamToFile file _, _ => q = file
  | deleteDirectory dir, _ => dir <+: q
  | mkdirs dir, _ => q <+: dir
  | extractAll tmpdir _, _ => tmpdir <+: q
  | putDirectory _ dst _, .native _ => dst <+: q ∨ q <+: dst
  | deleteFile file, _ => file <+: q
  | openFile path, .native _ => q = path
  | writeFile path _, .native _ => q = path
  | _, .remote => False

/-- The remote paths that a step of a remote installation may change. -/
def Step.remoteScope (s : Step) (q : Path) : Prop :=
  match s with
  | putDirectory _ dst trash => dst <+: q ∨ q <+: dst ∨ ∃ t ∈ trash, t <+: q
  | openFile path => q = path
  | writeFile path _ => q = path
  | _ => False

theorem Step.local_frame {s : Step} {q : Path} (part : Path → Bool) (w : World)
    (h : ¬ s.localScope fs q) : (s.effect fs part w).localFiles q = w.localFiles q := by
  cases s with
  | createTempDirectory tmpdir => exact Tree.copy_single_frame h
  | copyInputStreamToFile file bytes => exact Tree.copy_single_frame h
  | deleteDirectory dir =>
    simp only [Step.effect]
    split
    · rfl
    · exact Tree.delete_frame h
  | mkdirs dir => exact Tree.mkdirs_frame h
  | extractAll tmpdir extracted => exact Tree.copy_frame h
  | putDirectory src dst trash =>
    cases fs with
    | native home =>
      obtain ⟨hcopy, hmkdirs⟩ := not_or.mp h
      exact (Tree.copy_frame hcopy).trans (Tree.mkdirs_frame hmkdirs)
    | remote => rfl
  | deleteFile file => exact Tree.delete_frame h
  | openFile path =>
    cases fs with
    | native home => exact Tree.copy_single_frame h
    | remote =>
      simp only [Step.effect]
      split <;> rfl
  | writeFile path bytes =>
    cases fs with
    | native home => exact Tree.copy_single_frame h
    | remote =>
      simp only [Step.effect]
      split <;> rfl

theorem Step.remote_frame {s : Step} {q : Path} (part : Path → Bool) (w : World)
    (h : ¬ s.remoteScope q) :
    (s.effect .remote part w).remoteFiles q = w.remoteFiles q := by
  cases s with
  | createTempDirectory tmpdir => rfl
  | copyInputStreamToFile file bytes => rfl
  | deleteDirectory dir =>
    simp only [Step.effect]
    split <;> rfl
  | mkdirs dir => rfl
  | extractAll tmpdir extracted => rfl
  | putDirectory src dst trash =>
    simp only [Step.remoteScope, not_or, not_exists, not_and] at h
    obtain ⟨hcopy, hmkdirs, htrash⟩ := h
    refine (Tree.copy_frame hcopy).trans ((Tree.mkdirs_frame hmkdirs).trans ?_)
    cases trash with
    | none => rfl
    | some t => exact Tree.move_frame hcopy (htrash t rfl)
  | deleteFile file => rfl
  | openFile path =>
    simp only [Step.effect]
    split
    · exact Tree.copy_single_frame h
    · rfl
  | writeFile path bytes =>
    simp only [Step.effect]
    split
    · exact Tree.copy_single_frame h
    · rfl

theorem runSteps_append {fs : FileSystem} (part : Step → World → Path → Bool) (steps rest : List Step)
    (w : World) :
    runSteps fs part (steps ++ rest) w = runSteps fs part rest (runSteps fs part steps w) := by
  induction steps generalizing w with
  | nil => rfl
  | cons s steps ih => exact ih _

theorem runSteps_local_frame {part : Step → World → Path → Bool} {steps : List Step}
    {q : Path} (w : World) (h : ∀ s ∈ steps, ¬ s.localScope fs q) :
    (runSteps fs part steps w).localFiles q = w.localFiles q := by
  induction steps generalizing w with
  | nil => rfl
  | cons s steps ih =>
    rw [runSteps, ih _ fun s' hs' => h s' (List.mem_cons_of_mem _ hs'),
      Step.local_frame _ _ (h s List.mem_cons_self)]

theorem runSteps_remote_frame {part : Step → World → Path → Bool} {steps : List Step}
    {q : Path} (w : World) (h : ∀ s ∈ steps, ¬ s.remoteScope q) :
    (runSteps .remote part steps w).remoteFiles q = w.remoteFiles q := by
  induction steps generalizing w with
  | nil => rfl
  | cons s steps ih =>
    rw [runSteps, ih _ fun s' hs' => h s' (List.mem_cons_of_mem _ hs'),
      Step.remote_frame _ _ (h s List.mem_cons_self)]

/-! ### What an installation leaves alone -/

/-- Of the paths in the packages directory, only those of its own name are below a package
    directory. -/
theorem packageVersionDir_prefix_iff (home : Path) (dir name : Text) (r : Path) :
    packageVersionDir home dir <+: getPackagesRootDir home ++ name :: r ↔ dir = name := by
  rw [packageVersionDir, List.prefix_append_right_inj, List.cons_prefix_cons,
    and_iff_left List.nil_prefix]

theorem prefix_packageVersionDir {home : Path} {dir name : Text} {r : Path}
    (h : getPackagesRootDir home ++ name :: r <+: packageVersionDir home dir) : name = dir := by
  rw [packageVersionDir, List.prefix_append_right_inj, List.cons_prefix_cons] at h
  exact h.1

variable {plugin}

/-- Unpacking a wheel remotely touches nothing else in the packages directory. -/
theorem unpack_remote_frame {w : BaseWheel} {tmpdir : Path} {trash : Option Text} {name : Text}
    (hname : w.getDstDirName.getD [] ≠ name) (r : Path) :
    ∀ s ∈ unpack plugin .remote tmpdir trash w,
      ¬ s.remoteScope (getPackagesRootDir FileSystem.remote.getHome ++ name :: r) := by
  simp only [unpack, List.forall_mem_cons, Step.remoteScope, not_false_eq_true, true_and,
    List.not_mem_nil, false_imp_iff, implies_true, and_true, not_or]
  refine ⟨?_, ?_, ?_⟩
  · exact fun h => hname ((packageVersionDir_prefix_iff _ _ _ _).mp h)
  · exact fun h => hname (prefix_packageVersionDir h).symm
  · rintro ⟨t, ht, hprefix⟩
    obtain ⟨uuid, -, rfl⟩ := Option.map_eq_some_iff.mp ht
    have hroot : "tmp".toList = "root".toList := (List.cons_prefix_cons.mp hprefix).1
    revert hroot
    decide

/-- So does unpacking several. -/
theorem installWheels_remote_frame {wheels : List BaseWheel} {name : Text}
    (hname : ∀ w ∈ wheels, w.getDstDirName.getD [] ≠ name) (dirs : TempDirs) (i : Nat)
    (r : Path) :
    ∀ s ∈ installWheels plugin .remote dirs i wheels,
      ¬ s.remoteScope (getPackagesRootDir FileSystem.remote.getHome ++ name :: r) := by
  induction wheels generalizing i with
  | nil => exact fun s hs => absurd hs List.not_mem_nil
  | cons w rest ih =>
    intro s hs
    rcases List.mem_append.mp hs with hs | hs
    · exact unpack_remote_frame (hname w List.mem_cons_self) r s hs
    · exact ih (fun w' hw' => hname w' (List.mem_cons_of_mem _ hw')) (i + 1) s hs

/-- Unpacking a wheel natively touches nothing else in the packages directory either. -/
theorem unpack_local_frame {w : BaseWheel} {home tmpdir : Path} {trash : Option Text}
    {name : Text} (htmp : Apart tmpdir (getPackagesRootDir home))
    (hname : w.getDstDirName.getD [] ≠ name) (r : Path) :
    ∀ s ∈ unpack plugin (.native home) tmpdir trash w,
      ¬ s.localScope (.native home) (getPackagesRootDir home ++ name :: r) := by
  have hnot : ¬ tmpdir <+: getPackagesRootDir home ++ name :: r :=
    Apart.not_prefix htmp (List.prefix_append _ _)
  have hdir : ¬ wheelDir home w <+: getPackagesRootDir home ++ name :: r :=
    fun h => hname ((packageVersionDir_prefix_iff _ _ _ _).mp h)
  have hdir' : ¬ getPackagesRootDir home ++ name :: r <+: wheelDir home w :=
    fun h => hname (prefix_packageVersionDir h).symm
  simp only [unpack, List.forall_mem_cons, Step.localScope, List.not_mem_nil, false_imp_iff,
    implies_true, and_true]
  refine ⟨?_, ?_, hdir, hdir', hnot, not_or.mpr ⟨hdir, hdir'⟩, ?_⟩
  · rintro rfl
    exact hnot List.prefix_rfl
  · exact fun h => hnot (h ▸ List.prefix_append _ _)
  · exact fun h => hnot ((List.prefix_append _ _).trans h)

theorem installWheels_local_frame {wheels : List BaseWheel} {home : Path} {name : Text}
    {dirs : TempDirs} (htmp : ∀ i, Apart (dirs.tmpdir i) (getPackagesRootDir home))
    (hname : ∀ w ∈ wheels, w.getDstDirName.getD [] ≠ name) (i : Nat) (r : Path) :
    ∀ s ∈ installWheels plugin (.native home) dirs i wheels,
      ¬ s.localScope (.native home) (getPackagesRootDir home ++ name :: r) := by
  induction wheels generalizing i with
  | nil => exact fun s hs => absurd hs List.not_mem_nil
  | cons w rest ih =>
    intro s hs
    rcases List.mem_append.mp hs with hs | hs
    · exact unpack_local_frame (htmp i) (hname w List.mem_cons_self) r s hs
    · exact ih (fun w' hw' => hname w' (List.mem_cons_of_mem _ hw')) (i + 1) s hs

/-- The directory of an accepted wheel is neither `version.txt` nor the launcher. -/
theorem getDstDirName_ne {content : Text} {machine : Machine} {wheels : List BaseWheel}
    (h : getWheels content machine = some wheels) (name : Text)
    (hname : name.head? ≠ some '3') : ∀ w ∈ wheels, w.getDstDirName.getD [] ≠ name := by
  rintro w hw rfl
  obtain ⟨⟨n, -, hfac⟩, hacc⟩ := (getWheels_mem h w).mp hw
  obtain ⟨rest, hdst⟩ := getDstDirName_of_accepts hfac hacc
  rw [hdst] at hname
  exact hname rfl

/-! ### Releases with one wheel -/

/-- A wheel for Linux. -/
def linuxWheel : BaseWheel where
  cls := .UnixWheel
  input := "reloadium-1.2.0-cp310-cp310-manylinux1_x86_64.whl".toList
  pythonVersion := some "3.10".toList
  filename := some "reloadium-1.2.0-cp310-cp310-manylinux1_x86_64.whl".toList
  version := some "1.2.0".toList

/-- A Linux computer. -/
def linuxMachine : Machine where
  osType := .Linux
  architecture := .X64

/-- The versions `1.2.0` and `0.9.10`. -/
def v1_2_0 : Version where
  text := JString.ofString "1.2.0"
  strip_eq := by decide +kernel
  ne_nil := by decide
  wellFormed := by decide +kernel

@[inherit_doc v1_2_0]
def v0_9_10 : Version where
  text := JString.ofString "0.9.10"
  strip_eq := by decide +kernel
  ne_nil := by decide
  wellFormed := by decide +kernel

/-- A release whose wheel and launcher say which version they are of. -/
def linuxRelease (v : Version) : Plugin where
  builtinVersion := v
  content := linuxWheel.input
  wheelFile _ := Utf8.encode v.text
  extracted _ := Tree.single .dir
  launcher := v.text

/-- Temporary directories for an installation. -/
def someDirs : TempDirs where
  tmpdir i := ["tmp".toList, "reloadium".toList ++ Nat.toDigits 10 i]
  trash i := some (Nat.toDigits 16 i)

theorem getWheels_linuxRelease (v : Version) :
    getWheels (linuxRelease v).content linuxMachine = some [linuxWheel] := by
  show getWheels linuxWheel.input linuxMachine = _
  decide

end Reloadium.Pkg
