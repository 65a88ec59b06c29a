import Reloadium.Pkg.PackageManager
import Reloadium.Pkg.WheelName

namespace Reloadium.Pkg

open Reloadium.Lib

/-!
# Pkg — the directories of the wheels of a release

The names of a `content.txt`, the wheels that a machine accepts of them, and where these are
installed.  The directory of a wheel is made of its Python version, with a mark for an arm64
macOS wheel, so it does not tell two wheels for one Python apart that differ in the tag only.

* `Release` — the names of a release, each a wheel name of its version;
* `getWheels_release` — the accepted wheels;
* `getDstDirName_eq_iff` — when two wheels have one directory;
* `installWheels_present` — wheels with directories of their own are all there in the end;
* `Release.keepsApart_iff` — when a release keeps its wheels apart.
-/

/-! ### Lines -/

/-- The lines of names that are joined by newlines, with one at the end or without. -/
theorem splitLines_intercalate {names : List Text} (hne : names ≠ [])
    (hnames : ∀ s ∈ names, s ≠ [] ∧ '\n' ∉ s) (newline : Bool) :
    splitLines (['\n'].intercalate names ++ if newline then ['\n'] else []) = names := by
  have hdrop : names.reverse.dropWhile List.isEmpty = names.reverse := by
    rw [List.dropWhile_eq_self_iff]
    intro hlen hempty
    have hlast := List.mem_reverse.mp (List.getElem_mem hlen)
    exact (hnames _ hlast).1 (List.isEmpty_iff.mp hempty)
  cases newline with
  | false =>
    rw [if_neg Bool.false_ne_true, List.append_nil, splitLines,
      List.splitOn_intercalate _ (fun s hs => (hnames s hs).2) hne, hdrop, List.reverse_reverse,
      ite_self]
  | true =>
    -- the newline at the end is one before an empty line
    have hjoin : ['\n'].intercalate names ++ ['\n'] = ['\n'].intercalate (names ++ [[]]) := by
      clear hnames hdrop
      induction names with
      | nil => exact absurd rfl hne
      | cons s rest ih =>
        cases rest with
        | nil => simp
        | cons s' rest => simpa using ih (List.cons_ne_nil s' rest)
    have hlines : (['\n'].intercalate (names ++ [[]])).splitOn '\n' = names ++ [[]] := by
      refine List.splitOn_intercalate _ ?_ (by simp)
      simp only [List.mem_append, List.mem_singleton]
      rintro s (hs | rfl)
      · exact (hnames s hs).2
      · exact List.not_mem_nil
    have hlen : ¬ (names ++ [[]]).length = 1 := by
      have hpos := List.length_pos_of_ne_nil hne
      rw [List.length_append, List.length_singleton]
      omega
    rw [if_pos rfl, hjoin, splitLines, hlines, if_neg hlen, List.reverse_append,
      List.reverse_singleton, List.singleton_append, List.dropWhile_cons_of_pos rfl, hdrop,
      List.reverse_reverse]

/-! ### Names of a release -/

/-- A name in `content.txt`: of a binary wheel, or of the one without a platform. -/
inductive WheelFile where
  | binary (w : WheelName)
  | noneAny (x y z : Text) (isNumber : IsNumber x ∧ IsNumber y ∧ IsNumber z)

/-- `reloadium-X.Y.Z-py3-none-any.whl`. -/
def noneAnyText (x y z : Text) : Text :=
  "reloadium".toList ++ '-' :: (x ++ '.' :: y ++ '.' :: z) ++ "-py3-none-any.whl".toList

namespace WheelFile

/-- `X.Y.Z`. -/
def version : WheelFile → Text
  | binary w => w.version
  | noneAny x y z _ => x ++ '.' :: y ++ '.' :: z

/-- The name. -/
def text : WheelFile → Text
  | binary w => w.text
  | noneAny x y z _ => noneAnyText x y z

end WheelFile

/-- The names of the wheels of one version, as `content.txt` has them. -/
structure Release where
  files : List WheelFile
  version : Text
  version_eq : ∀ f ∈ files, f.version = version
  nodup : (files.map WheelFile.text).Nodup
  /-- The last line is ended, too. -/
  endsWithNewline : Bool

/-- The text of `content.txt`. -/
def Release.content (r : Release) : Text :=
  ['\n'].intercalate (r.files.map WheelFile.text) ++ if r.endsWithNewline then ['\n'] else []

/-! ### Accepted wheels -/

/-- The wheel of a name. -/
def WheelFile.wheel : WheelFile → BaseWheel
  | binary w => w.wheel
  | f => {
    cls := .NoneAnyWheel, input := f.text
    pythonVersion := none, filename := none, version := none }

/-- None of the platforms occurs in the name without one. -/
theorem contains_noneAny {x y z : Text} (h : IsNumber x ∧ IsNumber y ∧ IsNumber z) {sub : String}
    (hsub : IsPlatformWord sub) (hrest : ¬ sub.toList <:+: "py3-none-any.whl".toList) :
    contains (WheelFile.noneAny x y z h).text sub = false := by
  obtain ⟨c, hc, hforeign⟩ := hsub.foreign
  have hversion : c ∉ x ++ '.' :: y ++ '.' :: z := by
    intro hmem
    rcases mem_numbers h.1 h.2.1 h.2.2 hmem with rfl | hdigit
    · exact absurd hforeign (by decide)
    · simp [isForeign, hdigit] at hforeign
  have hend : "-py3-none-any.whl".toList = '-' :: "py3-none-any.whl".toList := by decide
  have htext : (WheelFile.noneAny x y z h).text = ("reloadium".toList ++ '-' ::
      (x ++ '.' :: y ++ '.' :: z)) ++ '-' :: "py3-none-any.whl".toList := congrArg (_ ++ ·) hend
  rw [← Bool.not_eq_true, contains_iff, htext, infix_append_cons_iff hsub.no_dash,
    infix_append_cons_iff hsub.no_dash]
  rintro ((hoccurs | hoccurs) | hoccurs)
  · exact hsub.not_reloadium hoccurs
  · exact not_infix_of_notMem hc hversion hoccurs
  · exact hrest hoccurs

theorem factory_text (f : WheelFile) : factory f.text = some f.wheel := by
  cases f with
  | binary w => exact factory_wheelName w
  | noneAny x y z h =>
    have hnoneAny : contains (WheelFile.noneAny x y z h).text "none-any" = true := by
      rw [contains_iff]
      exact List.IsInfix.trans (by decide) (List.suffix_append _ _).isInfix
    rw [factory, contains_noneAny h isPlatformWord_linux (by decide),
      contains_noneAny h isPlatformWord_macos (by decide),
      contains_noneAny h isPlatformWord_win (by decide), hnoneAny]
    rfl

/-- A name is one line. -/
theorem text_isLine (f : WheelFile) : f.text ≠ [] ∧ '\n' ∉ f.text := by
  have hreloadium : '\n' ∉ "reloadium".toList := by decide
  cases f with
  | binary w =>
    have hname : '\n' ∉ "reloadium-".toList := by decide
    have hwhl : '\n' ∉ ".whl".toList := by decide
    have hne : "reloadium-".toList ≠ [] := by decide
    show w.text ≠ [] ∧ '\n' ∉ w.text
    rw [w.text_eq_name]
    refine ⟨List.append_ne_nil_of_left_ne_nil hne _, fun h => ?_⟩
    rcases List.mem_append.mp h with h | h
    · exact hname h
    · rcases List.mem_append.mp h with h | h
      · rcases mem_tags h with h | h <;> exact absurd h (by decide)
      · exact hwhl h
  | noneAny x y z hxyz =>
    have hend : '\n' ∉ "-py3-none-any.whl".toList := by decide
    have hne : "-py3-none-any.whl".toList ≠ [] := by decide
    show noneAnyText x y z ≠ [] ∧ '\n' ∉ noneAnyText x y z
    refine ⟨List.append_ne_nil_of_right_ne_nil _ hne, fun h => ?_⟩
    rcases List.mem_append.mp h with h | h
    · rcases List.mem_append.mp h with h | h
      · exact hreloadium h
      · rcases List.mem_cons.mp h with h | h
        · exact absurd h (by decide)
        · rcases mem_numbers hxyz.1 hxyz.2.1 hxyz.2.2 h with h | h <;> exact absurd h (by decide)
    · exact hend h

/-- The accepted wheels are those of the names. -/
theorem getWheels_release (r : Release) (hne : r.files ≠ []) (machine : Machine) :
    getWheels r.content machine =
      some ((r.files.map WheelFile.wheel).filter (·.accepts machine)) := by
  have hlines : splitLines r.content = r.files.map WheelFile.text := by
    refine splitLines_intercalate (fun h => hne (List.map_eq_nil_iff.mp h)) ?_ r.endsWithNewline
    simp only [List.forall_mem_map]
    exact fun f _ => text_isLine f
  have hall : (r.files.map WheelFile.text).mapM factory = some (r.files.map WheelFile.wheel) := by
    generalize r.files = files
    induction files with
    | nil => rfl
    | cons f files ih => simp [factory_text, ih]
  rw [getWheels, hlines, hall, Option.map_some]

/-- A release without names has no wheels. -/
theorem getWheels_of_nil {r : Release} (h : r.files = []) {machine : Machine}
    {wheels : List BaseWheel} (hwheels : getWheels r.content machine = some wheels) :
    wheels = [] := by
  rw [Release.content, h] at hwheels
  cases hnewline : r.endsWithNewline with
  | false =>
    -- the one line is empty, and no name
    have hnone : (splitLines []).mapM factory = none := by decide
    have hempty : ['\n'].intercalate (List.map WheelFile.text []) ++
        (if false = true then ['\n'] else []) = [] := rfl
    rw [hnewline, hempty, getWheels, hnone] at hwheels
    cases hwheels
  | true =>
    rw [hnewline] at hwheels
    exact (Option.some.inj hwheels).symm

theorem wheels_release {r : Release} {machine : Machine} {wheels : List BaseWheel}
    (h : getWheels r.content machine = some wheels) :
    wheels = (r.files.map WheelFile.wheel).filter (·.accepts machine) := by
  by_cases hne : r.files = []
  · rw [getWheels_of_nil hne h, hne, List.map_nil, List.filter_nil]
  · rw [getWheels_release r hne] at h
    exact (Option.some.inj h).symm

/-- An accepted wheel is a binary one. -/
theorem mem_wheels_release {r : Release} {machine : Machine} {wheels : List BaseWheel}
    (h : getWheels r.content machine = some wheels) (wh : BaseWheel) :
    wh ∈ wheels ↔ ∃ w, .binary w ∈ r.files ∧ w.wheel = wh ∧ w.wheel.accepts machine = true := by
  rw [wheels_release h, List.mem_filter, List.mem_map]
  constructor
  · rintro ⟨⟨f, hf, rfl⟩, hacc⟩
    cases f with
    | binary w => exact ⟨w, hf, rfl, hacc⟩
    | noneAny x y z hxyz => exact absurd (osType_of_accepts hacc) (by exact nofun)
  · rintro ⟨w, hw, rfl, hacc⟩
    exact ⟨⟨_, hw, rfl⟩, hacc⟩

/-! ### Directories -/

/-- **One directory.**  The directory shows the Python version and whether the wheel is one for
    arm64 macOS, and nothing else. -/
theorem getDstDirName_eq_iff (w w' : WheelName) :
    w.wheel.getDstDirName = w'.wheel.getDstDirName ↔
      w.n = w'.n ∧ (w.wheelClass = .M1Wheel ↔ w'.wheelClass = .M1Wheel) := by
  have hdst (w : WheelName) : w.wheel.getDstDirName =
      some ("3.".toList ++ w.n ++ if w.wheelClass = .M1Wheel then "_arm64".toList else []) := by
    unfold BaseWheel.getDstDirName WheelName.wheel
    split
    case h_1 hcls => rw [if_pos hcls, Option.map_some]
    case h_2 hcls => rw [if_neg hcls, List.append_nil]
  -- the mark is no digit
  have hmark : '_' ∈ "_arm64".toList := by decide
  have hdigits (w : WheelName) : '_' ∉ w.n := fun h => absurd (w.isNumber_n.2 _ h) (by decide)
  rw [hdst, hdst, Option.some_inj, List.append_assoc, List.append_assoc, List.append_right_inj]
  by_cases hw : w.wheelClass = .M1Wheel
  · by_cases hw' : w'.wheelClass = .M1Wheel
    · rw [if_pos hw, if_pos hw', List.append_left_inj, and_iff_left (iff_of_true hw hw')]
    · rw [if_pos hw, if_neg hw', List.append_nil]
      refine iff_of_false (fun h => hdigits w' ?_) fun h => hw' (h.2.mp hw)
      exact h ▸ List.mem_append_right _ hmark
  · by_cases hw' : w'.wheelClass = .M1Wheel
    · rw [if_neg hw, if_pos hw', List.append_nil]
      refine iff_of_false (fun h => hdigits w ?_) fun h => hw (h.2.mpr hw')
      exact h ▸ List.mem_append_right _ hmark
    · rw [if_neg hw, if_neg hw', List.append_left_inj, and_iff_left (iff_of_false hw hw')]

/-! ### Presence -/

/-- Everything that the wheel unpacks to is in its directory. -/
def Present (plugin : Plugin) (fs : FileSystem) (world : World) (wh : BaseWheel) : Prop :=
  ∀ r node, unpacked plugin wh r = some node →
    fs.files world (wheelDir fs.getHome wh ++ r) = some node

/-- The temporary directories of a native installation are not in the packages directory, nor
    the other way round. -/
def DirsApart (fs : FileSystem) (dirs : TempDirs) : Prop :=
  match fs with
  | .native home => ∀ i, Apart (dirs.tmpdir i) (getPackagesRootDir home)
  | .remote => True

variable {plugin : Plugin} {fs : FileSystem} {dirs : TempDirs} {o : Outcome}

/-- An installation of other wheels leaves a package directory alone. -/
theorem installWheels_frame_files (hdirs : DirsApart fs dirs) {wheels : List BaseWheel} {name : Text}
    (hname : ∀ wh ∈ wheels, wh.getDstDirName.getD [] ≠ name) (i : Nat) (r : Path)
    (world : World) :
    fs.files (runSteps fs o.part (installWheels plugin fs dirs i wheels) world)
        (getPackagesRootDir fs.getHome ++ name :: r) =
      fs.files world (getPackagesRootDir fs.getHome ++ name :: r) := by
  cases fs with
  | native home =>
    exact runSteps_local_frame world (installWheels_local_frame hdirs hname i r)
  | remote => exact runSteps_remote_frame world (installWheels_remote_frame hname dirs i r)

/-- `putDirectory` copies everything. -/
theorem putDirectory_files {src : Files} {dst r : Path} {trash : Option Path} {part : Path → Bool}
    {node : Node Bytes} (hpart : part (dst ++ r) = true) (hsrc : src r = some node)
    (world : World) :
    fs.files ((Step.putDirectory src dst trash).effect fs part world) (dst ++ r) = some node := by
  cases fs <;> exact (Tree.copy_apply hpart).trans (by rw [hsrc, Option.some_or])

/-- **Unpacking a wheel** puts everything into its directory, whatever is deleted before. -/
theorem unpack_present (hdirs : DirsApart fs dirs) (i : Nat) (wh : BaseWheel) (world : World) :
    Present plugin fs
      (runSteps fs o.part (unpack plugin fs (dirs.tmpdir i) (dirs.trash i) wh) world) wh := by
  intro r node hnode
  have hsteps : ∃ before, unpack plugin fs (dirs.tmpdir i) (dirs.trash i) wh = before ++
      [.putDirectory (unpacked plugin wh) (wheelDir fs.getHome wh)
        ((dirs.trash i).map fun uuid => ["tmp".toList, uuid]),
        .deleteFile (dirs.tmpdir i ++ [wh.filename.getD []])] := ⟨[_, _, _, _, _], rfl⟩
  obtain ⟨before, hsteps⟩ := hsteps
  rw [hsteps, runSteps_append]
  generalize runSteps fs o.part before world = world₁
  -- the file that is deleted last is a temporary one
  have hdelete (world : World) (part : Path → Bool) :
      fs.files ((Step.deleteFile (dirs.tmpdir i ++ [wh.filename.getD []])).effect fs part world)
          (wheelDir fs.getHome wh ++ r) =
        fs.files world (wheelDir fs.getHome wh ++ r) := by
    cases fs with
    | native home =>
      refine Step.local_frame part world fun hpre => ?_
      have hroot : getPackagesRootDir home <+: wheelDir home wh ++ r :=
        (List.prefix_append _ _).trans (List.prefix_append _ r)
      exact Apart.not_prefix (hdirs i) hroot ((List.prefix_append _ _).trans hpre)
    | remote => rfl
  rw [runSteps, runSteps, runSteps, hdelete]
  exact putDirectory_files rfl hnode world₁

/-- **Directories of their own** keep the wheels of an installation. -/
theorem installWheels_present (hdirs : DirsApart fs dirs) {wheels : List BaseWheel}
    (hdst : wheels.Pairwise fun wh wh' => wh.getDstDirName.getD [] ≠ wh'.getDstDirName.getD [])
    (i : Nat) (world : World) : ∀ wh ∈ wheels,
      Present plugin fs (runSteps fs o.part (installWheels plugin fs dirs i wheels) world) wh := by
  induction wheels generalizing i world with
  | nil => exact fun wh hwh => absurd hwh List.not_mem_nil
  | cons wh rest ih =>
    obtain ⟨hwh, hrest⟩ := List.pairwise_cons.mp hdst
    rw [installWheels, runSteps_append, List.forall_mem_cons]
    refine ⟨fun r node hnode => ?_, ih hrest (i + 1) _⟩
    have hself := unpack_present (o := o) hdirs i wh world r node hnode
    -- the later wheels have other directories
    rw [wheelDir, packageVersionDir, List.append_assoc, List.singleton_append] at hself ⊢
    rw [installWheels_frame_files hdirs (fun wh' hwh' => (hwh wh' hwh').symm), hself]

/-! ### Releases -/

/-- Distinct accepted wheels have distinct directories, so that after every installation of
    them everything that they unpack to is there. -/
structure Release.KeepsApart (r : Release) (machine : Machine) : Prop where
  distinct : ∀ wheels, getWheels r.content machine = some wheels →
    ∀ wh ∈ wheels, ∀ wh' ∈ wheels, wh ≠ wh' → wh.getDstDirName ≠ wh'.getDstDirName
  present : ∀ wheels, getWheels r.content machine = some wheels →
    ∀ (plugin : Plugin) (fs : FileSystem) (dirs : TempDirs) (o : Outcome) (world : World),
      DirsApart fs dirs → ∀ wh ∈ wheels,
        Present plugin fs (runSteps fs o.part (installWheels plugin fs dirs 0 wheels) world) wh

/-- No two names that the machine accepts are for the same Python 3.N, and both for arm64 macOS
    or both not. -/
def Release.Separated (r : Release) (machine : Machine) : Prop :=
  ∀ w w', .binary w ∈ r.files → .binary w' ∈ r.files →
    w.wheel.accepts machine = true → w'.wheel.accepts machine = true →
      w.n = w'.n → (w.wheelClass = .M1Wheel ↔ w'.wheelClass = .M1Wheel) → w.text = w'.text

theorem Release.Separated.getDstDirName_ne {r : Release} {machine : Machine}
    (hr : r.Separated machine) {wheels : List BaseWheel}
    (hwheels : getWheels r.content machine = some wheels) {wh wh' : BaseWheel}
    (hwh : wh ∈ wheels) (hwh' : wh' ∈ wheels) (hne : wh.input ≠ wh'.input) :
    wh.getDstDirName ≠ wh'.getDstDirName := by
  obtain ⟨w, hw, rfl, hacc⟩ := (mem_wheels_release hwheels wh).mp hwh
  obtain ⟨w', hw', rfl, hacc'⟩ := (mem_wheels_release hwheels wh').mp hwh'
  intro hdst
  obtain ⟨hn, hclass⟩ := (getDstDirName_eq_iff w w').mp hdst
  exact hne (hr w w' hw hw' hacc hacc' hn hclass)

theorem input_wheel (f : WheelFile) : f.wheel.input = f.text := by
  cases f <;> rfl

/-- The wheels of a release are in the order of its names, and have different ones. -/
theorem pairwise_input {r : Release} {machine : Machine} {wheels : List BaseWheel}
    (h : getWheels r.content machine = some wheels) :
    wheels.Pairwise fun wh wh' => wh.input ≠ wh'.input := by
  have hnames : (r.files.map WheelFile.wheel).Pairwise fun wh wh' => wh.input ≠ wh'.input := by
    rw [List.pairwise_map]
    refine (List.pairwise_map.mp r.nodup).imp fun {f f'} hne => ?_
    rwa [input_wheel, input_wheel]
  rw [wheels_release h]
  exact hnames.filter _

/-- The directory of an accepted wheel has a name. -/
theorem getD_getDstDirName_inj {r : Release} {machine : Machine} {wheels : List BaseWheel}
    (h : getWheels r.content machine = some wheels) {wh wh' : BaseWheel} (hwh : wh ∈ wheels)
    (hwh' : wh' ∈ wheels) (hdst : wh.getDstDirName.getD [] = wh'.getDstDirName.getD []) :
    wh.getDstDirName = wh'.getDstDirName := by
  have hsome {wh : BaseWheel} (hwh : wh ∈ wheels) : ∃ name, wh.getDstDirName = some name := by
    obtain ⟨⟨name, -, hfac⟩, hacc⟩ := (getWheels_mem h wh).mp hwh
    obtain ⟨rest, hname⟩ := getDstDirName_of_accepts hfac hacc
    exact ⟨_, hname⟩
  obtain ⟨name, hname⟩ := hsome hwh
  obtain ⟨name', hname'⟩ := hsome hwh'
  rw [hname, hname', Option.getD_some, Option.getD_some] at hdst
  rw [hname, hname', hdst]

/-- **When a release keeps its wheels apart.** -/
theorem Release.keepsApart_iff (r : Release) (machine : Machine) :
    r.KeepsApart machine ↔ r.Separated machine := by
  constructor
  · rintro hr w w' hw hw' hacc hacc' hn hclass
    have hwheels := getWheels_release r (List.ne_nil_of_mem hw) machine
    by_contra hne
    refine hr.distinct _ hwheels w.wheel ?_ w'.wheel ?_ ?_ ((getDstDirName_eq_iff w w').mpr ⟨hn, hclass⟩)
    · exact (mem_wheels_release hwheels _).mpr ⟨w, hw, rfl, hacc⟩
    · exact (mem_wheels_release hwheels _).mpr ⟨w', hw', rfl, hacc'⟩
    · exact fun h => hne (congrArg BaseWheel.input h)
  · intro hr
    refine ⟨fun wheels hwheels wh hwh wh' hwh' hne => ?_,
      fun wheels hwheels plugin fs dirs o world hdirs => installWheels_present hdirs ?_ 0 world⟩
    · refine hr.getDstDirName_ne hwheels hwh hwh' fun hinput => hne ?_
      -- the name determines the wheel
      obtain ⟨w, -, rfl, -⟩ := (mem_wheels_release hwheels wh).mp hwh
      obtain ⟨w', -, rfl, -⟩ := (mem_wheels_release hwheels wh').mp hwh'
      have hfactory := factory_wheelName w
      have htext : w.text = w'.text := hinput
      rw [htext, factory_wheelName w'] at hfactory
      exact (Option.some.inj hfactory).symm
    · refine (pairwise_input hwheels).imp_of_mem fun {wh wh'} hwh hwh' hne hdst => ?_
      exact hr.getDstDirName_ne hwheels hwh hwh' hne (getD_getDstDirName_inj hwheels hwh hwh' hdst)

/-! ### Two wheels for Intel -/

/-- A wheel of the version `1.2.0` for the Python 3.11 of macOS. -/
def macWheelName (tag : Text) (htag : ∀ c ∈ tag, isTagChar c = true)
    (hmacos : contains tag "linux" = false ∧ contains tag "macos" = true ∧
      contains tag "win" = false) (hwhl : contains tag ".whl" = false) : WheelName where
  x := ['1']
  y := ['2']
  z := ['0']
  n := ['1', '1']
  m := false
  tag := tag
  isNumber_x := by decide
  isNumber_y := by decide
  isNumber_z := by decide
  isNumber_n := by decide
  isTagChar_tag := htag
  platform := Or.inr (Or.inl hmacos)
  no_inner_whl := hwhl

/-- The wheel for macOS 10.9 and later, and the one for macOS 11 and later. -/
def universal2_10_9 : WheelName :=
  macWheelName "macosx_10_9_universal2".toList (List.all_eq_true.mp (by decide)) (by decide)
    (by decide)

@[inherit_doc universal2_10_9]
def universal2_11_0 : WheelName :=
  macWheelName "macosx_11_0_universal2".toList (List.all_eq_true.mp (by decide)) (by decide)
    (by decide)

/-- A release with the two of them. -/
def universal2Release : Release where
  files := [.binary universal2_10_9, .binary universal2_11_0]
  version := "1.2.0".toList
  version_eq := by
    simp only [List.forall_mem_cons, List.not_mem_nil, false_imp_iff, implies_true, and_true]
    exact ⟨by decide, by decide⟩
  nodup := by
    have hne : universal2_10_9.text ≠ universal2_11_0.text := by decide
    exact List.pairwise_pair.mpr hne
  endsWithNewline := false

/-- A Mac with an Intel processor. -/
def intelMac : Machine where
  osType := .MacOS
  architecture := .X64

/-- The machine accepts both, and the second is installed over the first, whose own file is gone
    then. -/
theorem universal2_overwritten :
    ¬ universal2Release.KeepsApart intelMac ∧
    getWheels universal2Release.content intelMac =
      some [universal2_10_9.wheel, universal2_11_0.wheel] ∧
    universal2_10_9.wheel.getDstDirName = universal2_11_0.wheel.getDstDirName ∧
    (runSteps (.native []) Outcome.success.part
      (installWheels (linuxRelease v1_2_0) (.native []) someDirs 0
        [universal2_10_9.wheel, universal2_11_0.wheel])
      { localFiles _ := none, remoteFiles _ := none }).localFiles
        (wheelDir [] universal2_10_9.wheel ++ [universal2_10_9.text]) = none := by
  have haccepted : [universal2_10_9.wheel, universal2_11_0.wheel].filter (·.accepts intelMac) =
      [universal2_10_9.wheel, universal2_11_0.wheel] := by decide
  have hwheels : getWheels universal2Release.content intelMac =
      some [universal2_10_9.wheel, universal2_11_0.wheel] :=
    (getWheels_release universal2Release (List.cons_ne_nil _ _) intelMac).trans
      (congrArg some haccepted)
  have hdst : universal2_10_9.wheel.getDstDirName = universal2_11_0.wheel.getDstDirName := by
    decide
  have hne : universal2_10_9.wheel ≠ universal2_11_0.wheel := by decide +kernel
  refine ⟨fun h => ?_, hwheels, hdst, by decide⟩
  exact h.distinct _ hwheels _ List.mem_cons_self _ (List.mem_cons_of_mem _ List.mem_cons_self)
    hne hdst

end Reloadium.Pkg
