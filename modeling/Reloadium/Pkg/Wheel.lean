import Mathlib.Data.List.Basic

namespace Reloadium.Pkg

/-!
# Pkg — wheels and machines

Model of `rw.pkg.wheel` and of the detection of the machine (`rw.util.OsType`,
`rw.util.Architecture`).

* `OsType`, `Architecture`, `Computer` — what the plugin detects of the computer it runs
  on;
* `parsePythonVersion`, `parseFilename`, `parseVersion` — the three regular expressions of
  `BaseWheel.parse`, each as the function of the text that its leftmost match is;
* `BaseWheel`, `factory`, `accepts`, `getDstDirName` — the wheel classes;
* `getWheels` — the accepted wheels of a `content.txt`.
-/

/-- The characters of a text. -/
abbrev Text := List Char

/-- `String.contains`. -/
def contains (s : Text) (sub : String) : Bool := s.tails.any (sub.toList.isPrefixOf ·)

/-- `String.startsWith`. -/
def startsWith (s : Text) (pre : String) : Bool := pre.toList.isPrefixOf s

/-- What follows `pre`, if the text starts with it. -/
def stripPrefix (s : Text) (pre : String) : Option Text :=
  if startsWith s pre then some (s.drop pre.toList.length) else none

/-! ### The machine -/

inductive OsType where
  | Windows
  | MacOS
  | Linux
  | Other
  deriving DecidableEq

inductive Architecture where
  | X64
  | ARM64
  deriving DecidableEq

/-- `OsType.DETECTED`, from the system property `os.name`. -/
def OsType.detect (osName : Text) : OsType :=
  let OS := osName.map Char.toLower
  if contains OS "mac" || contains OS "darwin" then .MacOS
  else if contains OS "win" then .Windows
  else if contains OS "nux" then .Linux
  else .Other

/-- What the plugin can ask the computer it runs on.  `brand` is the output of
    `sysctl -n machdep.cpu.brand_string` (`none`: it cannot be run), `rosetta` whether
    `/usr/libexec/rosetta/` exists, `machine` is `platform.machine()` in a Python there. -/
structure Computer where
  osName : Text
  brand : Option Text
  rosetta : Bool
  osArch : Text
  machine : Text
  deriving DecidableEq

/-- A `Machine`: what the wheels are accepted by. -/
structure Machine where
  osType : OsType
  architecture : Architecture
  deriving DecidableEq

/-- `Architecture.DETECTED`. -/
def Computer.architecture (c : Computer) : Architecture :=
  if OsType.detect c.osName = .MacOS then
    match c.brand with
    | some brand =>
      if contains brand "M1" || contains brand "M2" || contains brand "M3" then .ARM64 else .X64
    | none => if c.rosetta || contains c.osArch "arm" then .ARM64 else .X64
  else .X64

/-- `NativeMachine`. -/
def Computer.native (c : Computer) : Machine where
  osType := OsType.detect c.osName
  architecture := c.architecture

/-! ### Names of wheels -/

/-- A character that `.` does not match. -/
def isLineTerminator (c : Char) : Bool :=
  c = '\n' || c = '\r' || c = '\u0085' || c = '\u2028' || c = '\u2029'

/-- The leftmost match of a pattern, given its match at the start of a text. -/
def find {α : Type} (matchAt : Text → Option α) (s : Text) : Option α := s.tails.findSome? matchAt

/-- The group of `(.*?)m?-`. -/
def lazyToDash : Text → Option Text
  | [] => none
  -- the lazy group ends before the `m` in front of the dash
  | 'm' :: '-' :: _ => some []
  | '-' :: _ => some []
  | c :: rest => if isLineTerminator c then none else (lazyToDash rest).map (c :: ·)

/-- The match of `.*?\.whl`. -/
def lazyToWhl : Text → Option Text
  | [] => none
  | c :: rest =>
    if startsWith (c :: rest) ".whl" then some ".whl".toList
    else if isLineTerminator c then none
    else (lazyToWhl rest).map (c :: ·)

/-- The match of `\d+`, and what follows it. -/
def digits (s : Text) : Option (Text × Text) :=
  let ds := s.takeWhile Char.isDigit
  if ds.isEmpty then none else some (ds, s.drop ds.length)

/-- The match of `\d+\.\d+\.\d+`. -/
def threeNumbers (s : Text) : Option Text := do
  let (x, s) ← digits s
  let s ← stripPrefix s "."
  let (y, s) ← digits s
  let s ← stripPrefix s "."
  let (z, _) ← digits s
  return x ++ ['.'] ++ y ++ ['.'] ++ z

/-- `3.` and group 1 of `-cp3(.*?)m?-`. -/
def parsePythonVersion (input : Text) : Option Text :=
  (find (fun s => (stripPrefix s "-cp3").bind lazyToDash) input).map ("3.".toList ++ ·)

/-- The match of `reloadium-.*?\.whl`. -/
def parseFilename (input : Text) : Option Text :=
  find (fun s => ((stripPrefix s "reloadium-").bind lazyToWhl).map ("reloadium-".toList ++ ·))
    input

/-- Group 1 of `reloadium-(\d+\.\d+\.\d+)`. -/
def parseVersion (input : Text) : Option Text :=
  find (fun s => (stripPrefix s "reloadium-").bind threeNumbers) input

/-! ### The wheel classes -/

/-- The subclasses of `BaseWheel`. -/
inductive WheelClass where
  | UnixWheel
  | M1Wheel
  | MacWheel
  | WinWheel
  | NoneAnyWheel
  | TarWheel
  deriving DecidableEq

namespace WheelClass

/-- The class overrides `parse` with nothing: its wheels have no parsed fields. -/
def unparsed : WheelClass → Bool
  | NoneAnyWheel => true
  | TarWheel => true
  | _ => false

def osType : WheelClass → Option OsType
  | UnixWheel => some .Linux
  | M1Wheel => some .MacOS
  | MacWheel => some .MacOS
  | WinWheel => some .Windows
  | NoneAnyWheel => none
  | TarWheel => none

def architecture : WheelClass → Option Architecture
  | UnixWheel => some .X64
  | M1Wheel => some .ARM64
  | MacWheel => some .X64
  | WinWheel => some .X64
  | NoneAnyWheel => none
  | TarWheel => none

end WheelClass

/-- A `BaseWheel`, with the class it is an instance of. -/
structure BaseWheel where
  cls : WheelClass
  input : Text
  pythonVersion : Option Text
  filename : Option Text
  version : Option Text
  deriving DecidableEq

namespace BaseWheel

/-- The constructor with `parse`; `none` when it throws. -/
def new (cls : WheelClass) (input : Text) : Option BaseWheel :=
  if cls.unparsed then
    some { cls, input, pythonVersion := none, filename := none, version := none }
  else do
    let pythonVersion ← parsePythonVersion input
    let filename ← parseFilename input
    let version ← parseVersion input
    return {
      cls, input
      pythonVersion := some pythonVersion
      filename := some filename
      version := some version }

/-- `accepts`, which `MacWheel` overrides. -/
def accepts (w : BaseWheel) (machine : Machine) : Bool :=
  match w.cls with
  -- a wheel for Intel runs on either architecture
  | .MacWheel => w.cls.osType = some machine.osType
  | _ => w.cls.osType = some machine.osType && some machine.architecture = w.cls.architecture

/-- `getDstDirName`, which `M1Wheel` overrides. -/
def getDstDirName (w : BaseWheel) : Option Text :=
  match w.cls with
  | .M1Wheel => w.pythonVersion.map (· ++ "_arm64".toList)
  | _ => w.pythonVersion

end BaseWheel

/-- `WheelFactory.factory`; `none` when it throws. -/
def factory (input : Text) : Option BaseWheel :=
  if contains input "linux" then BaseWheel.new .UnixWheel input
  else if contains input "macos" then
    if contains input "arm64" then BaseWheel.new .M1Wheel input else BaseWheel.new .MacWheel input
  -- a name with `darwin` and without `macos` counts as Windows
  else if contains input "win" then BaseWheel.new .WinWheel input
  else if contains input "none-any" then BaseWheel.new .NoneAnyWheel input
  else if contains input "tar.gz" then BaseWheel.new .TarWheel input
  else none

/-- `split("\n")`: trailing empty strings are left out, unless nothing was split. -/
def splitLines (s : Text) : List Text :=
  let lines := s.splitOn '\n'
  if lines.length = 1 then lines else (lines.reverse.dropWhile List.isEmpty).reverse

/-- `PackageManager.getWheels`, for the text of `content.txt`; `none` when it throws. -/
def getWheels (content : Text) (machine : Machine) : Option (List BaseWheel) :=
  ((splitLines content).mapM factory).map (·.filter (·.accepts machine))

/-! ### Accepted wheels -/

theorem mem_mapM_iff {α β : Type} {f : α → Option β} {xs : List α} {ys : List β}
    (h : xs.mapM f = some ys) (y : β) : y ∈ ys ↔ ∃ x ∈ xs, f x = some y := by
  induction xs generalizing ys with
  | nil =>
    obtain rfl : [] = ys := by simpa using h
    simp
  | cons x xs ih =>
    simp only [List.mapM_cons, Option.bind_eq_bind, Option.bind_eq_some_iff, Option.pure_def,
      Option.some.injEq] at h
    obtain ⟨z, hz, zs, hzs, rfl⟩ := h
    rw [List.mem_cons, ih hzs]
    simp only [List.exists_mem_cons_iff, hz, Option.some.injEq, eq_comm]

/-- The accepted wheels are those of the names that parse to an accepted wheel. -/
theorem getWheels_mem {content : Text} {machine : Machine} {wheels : List BaseWheel}
    (h : getWheels content machine = some wheels) (w : BaseWheel) :
    w ∈ wheels ↔ (∃ name ∈ splitLines content, factory name = some w) ∧
      w.accepts machine = true := by
  obtain ⟨all, hall, rfl⟩ := Option.map_eq_some_iff.mp h
  rw [List.mem_filter, mem_mapM_iff hall]

/-- Every accepted wheel is for the machine's system. -/
theorem osType_of_accepts {w : BaseWheel} {machine : Machine} (h : w.accepts machine = true) :
    w.cls.osType = some machine.osType := by
  unfold BaseWheel.accepts at h
  split at h
  · simpa using h
  · simp only [Bool.and_eq_true, decide_eq_true_eq] at h
    exact h.1

theorem factory_eq_some {name : Text} {w : BaseWheel} (h : factory name = some w) :
    BaseWheel.new w.cls name = some w := by
  -- a wheel keeps the class it is constructed with
  have hcls {cls : WheelClass} (hnew : BaseWheel.new cls name = some w) :
      BaseWheel.new w.cls name = some w := by
    have hw : w.cls = cls := by
      unfold BaseWheel.new at hnew
      split at hnew
      · cases hnew
        rfl
      · simp only [Option.bind_eq_bind, Option.bind_eq_some_iff, Option.pure_def,
          Option.some.injEq] at hnew
        obtain ⟨_, -, _, -, _, -, rfl⟩ := hnew
        rfl
    rwa [hw]
  unfold factory at h
  repeat' split at h
  all_goals first | exact hcls h | cases h

/-- The package directory of an accepted wheel is named after a Python 3. -/
theorem getDstDirName_of_accepts {name : Text} {w : BaseWheel} {machine : Machine}
    (h : factory name = some w) (hacc : w.accepts machine = true) :
    ∃ rest, w.getDstDirName = some ('3' :: '.' :: rest) := by
  have hos := osType_of_accepts hacc
  -- the classes without parsed fields have no system to accept
  have hparsed : w.cls.unparsed = false := by
    cases hc : w.cls <;> simp_all [WheelClass.osType, WheelClass.unparsed]
  have hnew := factory_eq_some h
  unfold BaseWheel.new at hnew
  rw [hparsed] at hnew
  simp only [Bool.false_eq_true, if_false, Option.bind_eq_bind, Option.bind_eq_some_iff,
    Option.pure_def, Option.some.injEq] at hnew
  obtain ⟨python, hpython, _, -, _, -, hw⟩ := hnew
  obtain ⟨group, -, rfl⟩ := Option.map_eq_some_iff.mp hpython
  have hversion : w.pythonVersion = some ("3.".toList ++ group) := by rw [← hw]
  unfold BaseWheel.getDstDirName
  rw [hversion]
  split
  · exact ⟨group ++ "_arm64".toList, rfl⟩
  · exact ⟨group, rfl⟩

end Reloadium.Pkg
