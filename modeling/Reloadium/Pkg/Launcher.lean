import Reloadium.Pkg.FileSystem

namespace Reloadium.Pkg

/-!
# Pkg — the launcher's package directory

`reloadium_launcher.set_path` computes the package directory once more, from the running
Python, and not from the machine the plugin detected.

* `exists_M1Wheel_iff`, `exists_not_M1Wheel_iff` — which classes of wheels a computer
  accepts for a Python version;
* `launcher_agrees_iff` — the launcher's directory is that of an accepted wheel exactly
  when an `arm`/`aarch` Python runs on a Mac detected as `ARM64` with an arm64 wheel, or
  any other Python runs anywhere but on a Mac without a wheel of its own.
-/

/-! ### The two directories -/

/-- `3.N`. -/
def pythonName (minor : Nat) : Text := "3.".toList ++ Nat.toDigits 10 minor

/-- `platform.machine()` makes the launcher take the arm64 directory. -/
def armNamed (machine : Text) : Bool := startsWith machine "arm" || startsWith machine "aarch"

/-- `package_dir` of `set_path` in Python 3.`minor`. -/
def packageDir (minor : Nat) (machine : Text) : Path :=
  ["package_local".toList,
    if armNamed machine then pythonName minor ++ "_arm64".toList else pythonName minor]

/-- The two entries that `set_path` puts at the front of `sys.path`: the package under the
    home directory, and the one of a remote installation. -/
def setPath (home : Path) (minor : Nat) (machine : Text) : Path × Path :=
  (home ++ [".reloadium".toList] ++ packageDir minor machine,
    ["root".toList, ".reloadium".toList] ++ packageDir minor machine)

/-! ### The accepted wheels -/

/-- The wheel is for Python 3.`minor`. -/
def BaseWheel.IsFor (w : BaseWheel) (minor : Nat) : Prop :=
  w.pythonVersion = some (pythonName minor)

instance (w : BaseWheel) (minor : Nat) : Decidable (w.IsFor minor) :=
  inferInstanceAs (Decidable (_ = _))

/-- The content list has a wheel of the class for Python 3.`minor`. -/
def Ships (content : Text) (cls : WheelClass) (minor : Nat) : Prop :=
  ∃ name ∈ splitLines content, ∃ w, factory name = some w ∧ w.cls = cls ∧ w.IsFor minor

/-- The package directory under the home directory is that of an accepted wheel. -/
def LauncherAgrees (home : Path) (wheels : List BaseWheel) (minor : Nat) (machine : Text) :
    Prop :=
  ∃ w ∈ wheels, w.IsFor minor ∧ ∃ dst, w.getDstDirName = some dst ∧
    (setPath home minor machine).1 = packageVersionDir home dst

/-- A machine that accepts an arm64 wheel is a Mac detected as `ARM64`. -/
theorem accepts_M1Wheel_iff {w : BaseWheel} (hcls : w.cls = .M1Wheel) (machine : Machine) :
    w.accepts machine = true ↔ machine.osType = .MacOS ∧ machine.architecture = .ARM64 := by
  simp [BaseWheel.accepts, hcls, WheelClass.osType, WheelClass.architecture,
    eq_comm (a := machine.osType)]

/-- A Mac accepts its own wheels whatever its architecture. -/
theorem accepts_MacWheel_iff {w : BaseWheel} (hcls : w.cls = .MacWheel) (machine : Machine) :
    w.accepts machine = true ↔ machine.osType = .MacOS := by
  simp [BaseWheel.accepts, hcls, WheelClass.osType, eq_comm (a := machine.osType)]

/-- Only the two Mac classes are for a Mac. -/
theorem class_of_mac {cls : WheelClass} (h : cls.osType = some .MacOS) :
    cls = .M1Wheel ∨ cls = .MacWheel := by
  cases cls <;> simp_all [WheelClass.osType]

/-! ### The launcher's directory -/

/-- For the right Python, the launcher's directory is the wheel's exactly when both or
    neither take the arm64 directory. -/
theorem setPath_eq_iff (home : Path) {w : BaseWheel} {minor : Nat} (machine : Text)
    (hw : w.IsFor minor) :
    (∃ dst, w.getDstDirName = some dst ∧
      (setPath home minor machine).1 = packageVersionDir home dst) ↔
      (armNamed machine = true ↔ w.cls = .M1Wheel) := by
  have hpath (dst : Text) : (setPath home minor machine).1 = packageVersionDir home dst ↔
      (if armNamed machine then pythonName minor ++ "_arm64".toList else pythonName minor) =
        dst := by
    simp only [setPath, packageDir, packageVersionDir, getPackagesRootDir, List.append_assoc,
      List.append_cancel_left_eq, List.cons_append, List.nil_append, List.cons.injEq, true_and,
      and_true]
  -- the two names of a version are never the same directory
  have hsuffix : pythonName minor ++ "_arm64".toList ≠ pythonName minor := by
    intro h
    have hlen := congrArg List.length h
    rw [List.length_append] at hlen
    exact absurd (Nat.add_eq_left.mp hlen) (by decide)
  by_cases hm1 : w.cls = .M1Wheel
  · have hdst : w.getDstDirName = some (pythonName minor ++ "_arm64".toList) := by
      rw [BaseWheel.getDstDirName, hm1, hw]
      rfl
    by_cases harm : armNamed machine = true
    · simp only [hdst, hpath, harm, hm1, if_true, Option.some.injEq, exists_eq_left']
    · simp only [hdst, hpath, harm, hm1, Bool.false_eq_true, if_false, Option.some.injEq,
        exists_eq_left', hsuffix.symm, iff_true]
  · have hdst : w.getDstDirName = some (pythonName minor) := by
      unfold BaseWheel.getDstDirName
      split
      case h_1 h => exact absurd h hm1
      case h_2 => exact hw
    by_cases harm : armNamed machine = true
    · simp only [hdst, hpath, harm, hm1, if_true, Option.some.injEq, exists_eq_left', hsuffix,
        iff_false, not_true]
    · simp only [hdst, hpath, harm, hm1, Bool.false_eq_true, if_false, Option.some.injEq,
        exists_eq_left']

variable {content : Text} {computer : Computer} {wheels : List BaseWheel} {minor : Nat}

/-- An arm64 wheel for the Python is accepted exactly on a Mac detected as `ARM64` whose
    content list has one. -/
theorem exists_M1Wheel_iff (h : getWheels content computer.native = some wheels) :
    (∃ w ∈ wheels, w.IsFor minor ∧ w.cls = .M1Wheel) ↔
      OsType.detect computer.osName = .MacOS ∧ computer.architecture = .ARM64 ∧
        Ships content .M1Wheel minor := by
  constructor
  · rintro ⟨w, hw, hfor, hcls⟩
    obtain ⟨⟨name, hname, hfac⟩, hacc⟩ := (getWheels_mem h w).mp hw
    obtain ⟨hos, harch⟩ := (accepts_M1Wheel_iff hcls _).mp hacc
    exact ⟨hos, harch, name, hname, w, hfac, hcls, hfor⟩
  · rintro ⟨hos, harch, name, hname, w, hfac, hcls, hfor⟩
    exact ⟨w, (getWheels_mem h w).mpr ⟨⟨name, hname, hfac⟩,
      (accepts_M1Wheel_iff hcls _).mpr ⟨hos, harch⟩⟩, hfor, hcls⟩

/-- Where a wheel for the Python is accepted, one that is no arm64 wheel is accepted
    exactly unless the computer is a Mac whose content list has no other wheel for it. -/
theorem exists_not_M1Wheel_iff (h : getWheels content computer.native = some wheels)
    (haccepted : ∃ w ∈ wheels, w.IsFor minor) :
    (∃ w ∈ wheels, w.IsFor minor ∧ w.cls ≠ .M1Wheel) ↔
      (OsType.detect computer.osName = .MacOS → Ships content .MacWheel minor) := by
  constructor
  · rintro ⟨w, hw, hfor, hcls⟩ hos
    obtain ⟨⟨name, hname, hfac⟩, hacc⟩ := (getWheels_mem h w).mp hw
    have hmac : w.cls.osType = some .MacOS := hos ▸ osType_of_accepts hacc
    exact ⟨name, hname, w, hfac, (class_of_mac hmac).resolve_left hcls, hfor⟩
  · intro hships
    by_cases hos : OsType.detect computer.osName = .MacOS
    · obtain ⟨name, hname, w, hfac, hcls, hfor⟩ := hships hos
      refine ⟨w, (getWheels_mem h w).mpr ⟨⟨name, hname, hfac⟩,
        (accepts_MacWheel_iff hcls _).mpr hos⟩, hfor, ?_⟩
      rw [hcls]
      decide
    · obtain ⟨w, hw, hfor⟩ := haccepted
      refine ⟨w, hw, hfor, fun hcls => hos ?_⟩
      obtain ⟨-, hacc⟩ := (getWheels_mem h w).mp hw
      exact ((accepts_M1Wheel_iff hcls _).mp hacc).1

/-- **When launcher and installer agree.**  Where a wheel for Python 3.`minor` is accepted,
    the launcher's package directory is that of such a wheel exactly when, for a Python
    whose machine is named `arm…` or `aarch…`, the computer is a Mac detected as `ARM64`
    with an arm64 wheel in the content list, and, for any other Python, it is no Mac or a
    Mac with another wheel in the list. -/
theorem launcher_agrees_iff (home : Path)
    (h : getWheels content computer.native = some wheels)
    (haccepted : ∃ w ∈ wheels, w.IsFor minor) :
    LauncherAgrees home wheels minor computer.machine ↔
      if armNamed computer.machine then
        OsType.detect computer.osName = .MacOS ∧ computer.architecture = .ARM64 ∧
          Ships content .M1Wheel minor
      else OsType.detect computer.osName = .MacOS → Ships content .MacWheel minor := by
  have hagrees : LauncherAgrees home wheels minor computer.machine ↔
      ∃ w ∈ wheels, w.IsFor minor ∧ (armNamed computer.machine = true ↔ w.cls = .M1Wheel) := by
    constructor
    · rintro ⟨w, hw, hfor, hdst⟩
      exact ⟨w, hw, hfor, (setPath_eq_iff home computer.machine hfor).mp hdst⟩
    · rintro ⟨w, hw, hfor, hcls⟩
      exact ⟨w, hw, hfor, (setPath_eq_iff home computer.machine hfor).mpr hcls⟩
  rw [hagrees]
  split
  case isTrue harm =>
    -- an arm Python looks for the arm64 directory, which only an arm64 wheel fills
    simp only [harm, true_iff]
    exact exists_M1Wheel_iff h
  case isFalse harm =>
    simp only [harm, Bool.false_eq_true, false_iff]
    exact exists_not_M1Wheel_iff h haccepted

/-! ### Two Macs -/

/-- A wheel for Intel Macs. -/
def intelWheel : BaseWheel where
  cls := .MacWheel
  input := "reloadium-1.2.0-cp310-cp310-macosx_11_0_x86_64.whl".toList
  pythonVersion := some "3.10".toList
  filename := some "reloadium-1.2.0-cp310-cp310-macosx_11_0_x86_64.whl".toList
  version := some "1.2.0".toList

/-- A wheel for arm64 Macs. -/
def arm64Wheel : BaseWheel where
  cls := .M1Wheel
  input := "reloadium-1.2.0-cp310-cp310-macosx_12_0_arm64.whl".toList
  pythonVersion := some "3.10".toList
  filename := some "reloadium-1.2.0-cp310-cp310-macosx_12_0_arm64.whl".toList
  version := some "1.2.0".toList

/-- The content list of the two. -/
def macContent : Text := intelWheel.input ++ ['\n'] ++ arm64Wheel.input ++ ['\n']

/-- An Apple computer with a native Python. -/
def appleComputer (brand : String) : Computer where
  osName := "Mac OS X".toList
  brand := some brand.toList
  rosetta := true
  osArch := "aarch64".toList
  machine := "arm64".toList

theorem launcher_agrees_iff_M2 :
    LauncherAgrees ["Users".toList] [intelWheel, arm64Wheel] 10 "arm64".toList ↔
      if armNamed "arm64".toList then
        OsType.detect "Mac OS X".toList = .MacOS ∧
          (appleComputer "Apple M2").architecture = .ARM64 ∧ Ships macContent .M1Wheel 10
      else OsType.detect "Mac OS X".toList = .MacOS → Ships macContent .MacWheel 10 :=
  @launcher_agrees_iff macContent (appleComputer "Apple M2") _ _ _ (by decide)
    ⟨intelWheel, List.mem_cons_self, by decide⟩

/-- On an Apple M4 the installer takes the computer for an `X64` one and installs the Intel
    wheel, while the launcher looks for the arm64 directory. -/
theorem apple_M4_disagrees :
    getWheels macContent (appleComputer "Apple M4").native = some [intelWheel] ∧
      intelWheel.IsFor 10 ∧
      ¬ LauncherAgrees ["Users".toList] [intelWheel] 10 (appleComputer "Apple M4").machine := by
  refine ⟨by decide, by decide, ?_⟩
  rintro ⟨w, hw, hfor, hdst⟩
  -- the one wheel that is accepted is not the one the launcher goes by
  obtain rfl := List.mem_singleton.mp hw
  have harm : armNamed (appleComputer "Apple M4").machine = true := by decide
  have hcls := ((setPath_eq_iff _ _ hfor).mp hdst).mp harm
  cases hcls

end Reloadium.Pkg
