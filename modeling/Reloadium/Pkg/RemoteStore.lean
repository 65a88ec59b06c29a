import Reloadium.Pkg.PackageManager

namespace Reloadium.Pkg

open Reloadium.Lib

/-!
# Pkg — the remote file system as a string store

`RemoteFileSystem.writeString` opens the file without truncating it, so that what was
longer than the new content stays behind it.

* `remote_writeString` — what is in the file after a write;
* `remoteRead_overwrite_iff` — reading gives the string back exactly when only its own bytes
  are read (or when a file size of 2 GiB and more cuts a replacement character at its end);
* `strip_remoteRead_iff` — the version read back is the one written exactly when what is
  left behind it is blank;
* `install_version` — an installation writes the version over what was there before;
* `remoteStore_iff` — both results, for the file system and the installer.
-/

/-! ### Writing -/

/-- A remote `writeString` succeeds: the file is opened and written, the path is not a
    directory's, and an array can hold the bytes. -/
structure WriteSucceeds (o : Outcome) (w : World) (path : Path) (s : JString) : Prop where
  opens : o.opens path = true
  writes : o.writes path = true
  not_dir : w.remoteFiles path ≠ some .dir
  length_lt : (Utf8.encode s).length < 0x80000000

/-- A remote file after a `writeString`: the new content lies over the old one. -/
theorem remote_writeString {o : Outcome} {w : World} {path : Path} {s : JString}
    (h : WriteSucceeds o w path s) :
    (runSteps .remote o.part (writeString path s) w).remoteFiles path =
      some (.file (overwrite (contentAt w.remoteFiles path) (Utf8.encode s))) := by
  have hwrites : (o.opens path && o.writes path) = true := by rw [h.opens, h.writes]; rfl
  have hnot := h.not_dir
  unfold contentAt
  cases hold : w.remoteFiles path with
  | none =>
    -- a new file: opening it makes it empty, and it is then overwritten
    have hopen := putFile_self w.remoteFiles path [] (fun _ => o.opens path) h.opens
    have heffect : (Step.openFile path).effect .remote (o.part (.openFile path) w) w =
        { w with remoteFiles := putFile w.remoteFiles path [] fun _ => o.opens path } :=
      if_pos hold
    rw [writeString, runSteps, runSteps, runSteps, heffect]
    simp only [Step.effect, hopen]
    exact putFile_self _ _ _ (fun _ => o.opens path && o.writes path) hwrites
  | some node =>
    cases node with
    | dir => exact absurd hold hnot
    | file old =>
      -- an old file is not touched by opening it
      simp only [writeString, runSteps, Step.effect, reduceCtorEq, if_false, hold]
      exact putFile_self _ _ _ (fun _ => o.opens path && o.writes path) hwrites

/-! ### Reading back -/

/-- How many bytes are read after `s` has been written over `old`. -/
def readSize (old : Bytes) (s : JString) : Int :=
  castSize (max (Utf8.encode s).length old.length)

/-- What was behind the bytes of `s` in `old`, as far as it is read. -/
def leftover (old : Bytes) (s : JString) : Bytes :=
  let n := (Utf8.encode s).length
  (old.drop n).take ((readSize old s).toNat - n)

/-- Only a replacement character at the end of `s` is cut short by reading `k` bytes. -/
def CutsReplacement (s : JString) (k : Int) : Prop :=
  k < (Utf8.encode s).length ∧
    ∃ s₁, s = s₁ ++ [Utf8.repl] ∧ ((Utf8.encode s₁).length : Int) < k

variable {old : Bytes} {s : JString}

theorem castSize_of_lt {n : Nat} (h : n < 0x80000000) : castSize n = n := by
  unfold castSize
  exact Int.bmod_eq_of_le (by omega) (by omega)

theorem length_overwrite (old bytes : Bytes) :
    (overwrite old bytes).length = max bytes.length old.length := by
  rw [overwrite, List.length_append, List.length_drop]
  omega

/-- Nothing is left behind a string exactly when its own bytes are read. -/
theorem leftover_eq_nil_iff (hlt : (Utf8.encode s).length < 0x80000000)
    (hle : (Utf8.encode s).length ≤ readSize old s) :
    leftover old s = [] ↔ readSize old s = (Utf8.encode s).length := by
  rw [leftover, List.take_eq_nil_iff, List.drop_eq_nil_iff]
  constructor
  · rintro (h | h)
    · omega
    · rw [readSize, Nat.max_eq_left h, castSize_of_lt hlt]
  · intro h
    left
    omega

/-- Reading at least the bytes of `s`. -/
theorem remoteRead_of_le (hle : (Utf8.encode s).length ≤ readSize old s) :
    remoteRead (overwrite old (Utf8.encode s)) =
      .ok (Utf8.decode (Utf8.encode s ++ leftover old s)) := by
  have hnonneg : ¬ readSize old s < 0 := by omega
  have htake : (Utf8.encode s).take (readSize old s).toNat = Utf8.encode s :=
    List.take_of_length_le (by omega)
  rw [remoteRead, length_overwrite]
  show (if readSize old s < 0 then _ else _) = _
  rw [if_neg hnonneg]
  show Except.ok (Utf8.decode ((overwrite _ _).take (readSize old s).toNat)) = _
  rw [overwrite, List.take_append, htake, leftover]

/-- Reading fewer. -/
theorem remoteRead_of_lt (hnonneg : 0 ≤ readSize old s)
    (hlt : readSize old s < (Utf8.encode s).length) :
    remoteRead (overwrite old (Utf8.encode s)) =
      .ok (Utf8.decode ((Utf8.encode s).take (readSize old s).toNat)) := by
  rw [remoteRead, length_overwrite]
  show (if readSize old s < 0 then _ else _) = _
  rw [if_neg (by omega)]
  show Except.ok (Utf8.decode ((overwrite _ _).take (readSize old s).toNat)) = _
  rw [overwrite, List.take_append_of_le_length (by omega)]

theorem remoteRead_of_neg (hneg : readSize old s < 0) :
    remoteRead (overwrite old (Utf8.encode s)) = .error .runtime := by
  rw [remoteRead, length_overwrite]
  exact if_pos hneg

/-- Reading a part of `s` gives `s` only if it cuts a replacement character. -/
theorem decode_take_eq_iff (hnonneg : 0 ≤ readSize old s)
    (hlt : readSize old s < (Utf8.encode s).length) :
    Utf8.decode ((Utf8.encode s).take (readSize old s).toNat) = s ↔
      Utf8.WellFormed s ∧ CutsReplacement s (readSize old s) := by
  obtain ⟨k, hk⟩ := Int.eq_ofNat_of_zero_le hnonneg
  rw [hk] at hlt ⊢
  rw [Int.toNat_natCast, Utf8.decode_take_encode_eq_self_iff (by omega), CutsReplacement,
    and_iff_right hlt]
  simp only [Int.ofNat_lt]

/-- **Reading a string back.** -/
theorem remoteRead_overwrite_iff (hn : (Utf8.encode s).length < 0x80000000) :
    remoteRead (overwrite old (Utf8.encode s)) = .ok s ↔
      Utf8.WellFormed s ∧
        (readSize old s = (Utf8.encode s).length ∨ CutsReplacement s (readSize old s)) := by
  -- three cases by the cast size: negative, less than the bytes of `s`, and the rest
  rcases Int.lt_or_le (readSize old s) 0 with hneg | hnonneg
  · rw [remoteRead_of_neg hneg]
    constructor
    · intro h
      cases h
    · rintro ⟨-, heq | ⟨-, s₁, -, hcut⟩⟩ <;> omega
  · rcases Int.lt_or_le (readSize old s) (Utf8.encode s).length with hlt | hle
    · rw [remoteRead_of_lt hnonneg hlt, Except.ok.injEq, decode_take_eq_iff hnonneg hlt,
        or_iff_right (by omega)]
    · have hcut : ¬ CutsReplacement s (readSize old s) := fun h => absurd h.1 (by omega)
      rw [remoteRead_of_le hle, Except.ok.injEq, Utf8.decode_encode_append_eq_self_iff,
        leftover_eq_nil_iff hn hle, or_iff_left hcut]

/-- A file of less than 2 GiB gives a string back exactly when it was not longer before. -/
theorem readSize_eq_iff (hold : old.length < 0x80000000)
    (hs : (Utf8.encode s).length < 0x80000000) :
    readSize old s = (Utf8.encode s).length ↔ old.length ≤ (Utf8.encode s).length := by
  rw [readSize, castSize_of_lt (by omega)]
  omega

/-! ### The version -/

/-- What is read of a cut string is not longer than the string. -/
theorem length_decode_take_le {k : Nat} (hk : k < (Utf8.encode s).length) :
    (Utf8.decode ((Utf8.encode s).take k)).length ≤ s.length := by
  obtain ⟨s₁, s₂, hs, hne, hcut⟩ := Utf8.isCut_of_lt_length hk
  have hpos : 0 < s₂.length := List.length_pos_iff.mpr hne
  have hlen := congrArg List.length hs
  rw [List.length_append] at hlen
  rcases hcut with hcut | ⟨-, hcut⟩
  · rw [hcut, Utf8.length_sanitize]
    omega
  · rw [hcut, List.length_append, Utf8.length_sanitize, List.length_singleton]
    omega

/-- Stripping does not help to read a version that is cut short. -/
theorem strip_eq_iff_of_length_le {v : Version} {x : JString} (h : x.length ≤ v.text.length) :
    x.strip = v.text ↔ x = v.text := by
  constructor
  · intro heq
    rw [← JString.strip_eq_self (s := x) (by rw [heq]; exact h), heq]
  · intro heq
    rw [heq, v.strip_eq]

/-- The version read from a file in which `v` was written over `old` is `v`. -/
def VersionRestored (old : Bytes) (v : Version) : Prop :=
  (((Utf8.encode v.text).length : Int) ≤ readSize old v.text ∧
      JString.isBlank (Utf8.decode (leftover old v.text)) = true) ∨
    CutsReplacement v.text (readSize old v.text)

/-- **Reading a version back.** -/
theorem strip_remoteRead_iff (old : Bytes) (v : Version) :
    (∃ s, remoteRead (overwrite old (Utf8.encode v.text)) = .ok s ∧ s.strip = v.text) ↔
      VersionRestored old v := by
  -- the same three cases; here a blank rest does no harm
  rcases Int.lt_or_le (readSize old v.text) 0 with hneg | hnonneg
  · rw [remoteRead_of_neg hneg]
    constructor
    · rintro ⟨s, h, -⟩
      cases h
    · rintro (⟨hle, -⟩ | ⟨-, s₁, -, hcut⟩) <;> omega
  · rcases Int.lt_or_le (readSize old v.text) (Utf8.encode v.text).length with hlt | hle
    · have hk : (readSize old v.text).toNat < (Utf8.encode v.text).length := by omega
      rw [remoteRead_of_lt hnonneg hlt, VersionRestored, or_iff_right fun h => absurd h.1 (by omega)]
      simp only [Except.ok.injEq, exists_eq_left']
      -- what is read is too short for a blank to be stripped from it
      rw [strip_eq_iff_of_length_le (length_decode_take_le hk), decode_take_eq_iff hnonneg hlt,
        and_iff_right v.wellFormed]
    · have hcut : ¬ CutsReplacement v.text (readSize old v.text) :=
        fun h => absurd h.1 (by omega)
      rw [remoteRead_of_le hle, VersionRestored, or_iff_left hcut, and_iff_right hle]
      simp only [Except.ok.injEq, exists_eq_left']
      rw [Utf8.decode_encode_append, v.wellFormed, JString.strip_append_eq_iff v.strip_eq v.ne_nil]

/-! ### An installation -/

variable {plugin : Plugin} {o : Outcome} {w : World}

/-- Nothing but the last step of an installation touches `version.txt`. -/
theorem version_frame {machine : Machine} {wheels : List BaseWheel}
    (hwheels : getWheels plugin.content machine = some wheels) (dirs : TempDirs) :
    ∀ s ∈ installWheels plugin .remote dirs 0 wheels ++
        writeString (launcherFile FileSystem.remote.getHome) plugin.launcher,
      ¬ s.remoteScope (currentVersionFile FileSystem.remote.getHome) := by
  intro s hs
  rcases List.mem_append.mp hs with hs | hs
  · have hname := getDstDirName_ne hwheels "version.txt".toList (by decide)
    exact installWheels_remote_frame hname dirs 0 [] s hs
  · -- the launcher is another file of the same directory
    have hne : currentVersionFile FileSystem.remote.getHome ≠
        launcherFile FileSystem.remote.getHome := by decide
    rcases List.mem_pair.mp hs with rfl | rfl
    · exact hne
    · exact hne

/-- **The version after an installation** lies over what was in the file before. -/
theorem install_version {machine : Machine} {wheels : List BaseWheel}
    (hwheels : getWheels plugin.content machine = some wheels) (hne : wheels ≠ [])
    (dirs : TempDirs)
    (h : WriteSucceeds o w (currentVersionFile FileSystem.remote.getHome)
      plugin.builtinVersion.text) :
    (runSteps .remote o.part (install plugin .remote dirs wheels) w).remoteFiles
        (currentVersionFile FileSystem.remote.getHome) =
      some (.file (overwrite
        (contentAt w.remoteFiles (currentVersionFile FileSystem.remote.getHome))
        (Utf8.encode plugin.builtinVersion.text))) := by
  have hnonempty : wheels.isEmpty = false := by
    cases wheels with
    | nil => exact absurd rfl hne
    | cons => rfl
  -- what comes before leaves the old version where it is, to be written over
  have hframe : (runSteps .remote o.part (installWheels plugin .remote dirs 0 wheels ++
      writeString (launcherFile FileSystem.remote.getHome) plugin.launcher) w).remoteFiles
        (currentVersionFile FileSystem.remote.getHome) =
      w.remoteFiles (currentVersionFile FileSystem.remote.getHome) :=
    runSteps_remote_frame w (version_frame hwheels dirs)
  rw [install, hnonempty, if_neg Bool.false_ne_true, runSteps_append]
  rw [remote_writeString ⟨h.opens, h.writes, hframe ▸ h.not_dir, h.length_lt⟩]
  rw [contentAt, contentAt, hframe]

/-- What `getCurrentVersion` returns, from what is in the file. -/
theorem getCurrentVersion_eq_iff {content : Bytes} {x : JString}
    (h : w.remoteFiles (currentVersionFile FileSystem.remote.getHome) = some (.file content)) :
    getCurrentVersion .remote w = .ok (some x) ↔
      ∃ s, remoteRead content = .ok s ∧ s.strip = x := by
  have hread : FileSystem.remote.readString w
      (currentVersionFile FileSystem.remote.getHome) = remoteRead content := by
    rw [FileSystem.readString, FileSystem.files, h]
  rw [getCurrentVersion, hread]
  cases remoteRead content with
  | ok s => simp
  | error e => cases e <;> simp

/-- Nothing is installed over the plugin's own version. -/
theorem shouldInstall_of_current {fs : FileSystem}
    (h : getCurrentVersion fs w = .ok (some plugin.builtinVersion.text)) :
    shouldInstall plugin fs w = .ok false := by
  rw [shouldInstall, h]
  simp

/-- **When the remote file system stores strings faithfully.**  After a successful write,
    `readString` gives the string exactly when it has no unpaired surrogate and as many
    bytes are read as it has (or the reading cuts a replacement character at its end); after
    an installation the version is the plugin's, and needs no installation, exactly when
    all its bytes are read and what is read behind them is blank (or likewise). -/
theorem remoteStore_iff (o : Outcome) (w : World) :
    (∀ path s, WriteSucceeds o w path s →
      (FileSystem.remote.readString
          (runSteps .remote o.part (writeString path s) w) path = .ok s ↔
        Utf8.WellFormed s ∧
          (readSize (contentAt w.remoteFiles path) s = (Utf8.encode s).length ∨
            CutsReplacement s (readSize (contentAt w.remoteFiles path) s)))) ∧
    ∀ (plugin : Plugin) (machine : Machine) (dirs : TempDirs) (wheels : List BaseWheel),
      getWheels plugin.content machine = some wheels → wheels ≠ [] →
      WriteSucceeds o w (currentVersionFile FileSystem.remote.getHome)
        plugin.builtinVersion.text →
      let w' := runSteps .remote o.part (install plugin .remote dirs wheels) w
      (getCurrentVersion .remote w' = .ok (some plugin.builtinVersion.text) ∧
          shouldInstall plugin .remote w' = .ok false ↔
        VersionRestored
          (contentAt w.remoteFiles (currentVersionFile FileSystem.remote.getHome))
          plugin.builtinVersion) := by
  constructor
  · intro path s h
    rw [FileSystem.readString, FileSystem.files, remote_writeString h]
    exact remoteRead_overwrite_iff h.length_lt
  · intro plugin machine dirs wheels hwheels hne h
    have hcurrent := getCurrentVersion_eq_iff (x := plugin.builtinVersion.text)
      (install_version hwheels hne dirs h)
    rw [strip_remoteRead_iff] at hcurrent
    refine Iff.trans ⟨And.left, fun hv => ⟨hv, shouldInstall_of_current hv⟩⟩ hcurrent

/-! ### A shorter version after a longer one -/

/-- A remote machine with a `version.txt`. -/
def remoteWith (content : Bytes) : World where
  localFiles _ := none
  remoteFiles :=
    putFile (Tree.mkdirs (fun _ => none) (getPackagesRootDir FileSystem.remote.getHome) fun _ => true)
      (currentVersionFile FileSystem.remote.getHome) content fun _ => true

theorem remoteWith_version (content : Bytes) :
    (remoteWith content).remoteFiles (currentVersionFile FileSystem.remote.getHome) =
      some (.file content) := by
  simp only [remoteWith]
  exact putFile_self _ _ _ (fun _ => true) rfl

/-- The version `1.2.0` can be written over any other. -/
theorem writeSucceeds_v1_2_0 (content : Bytes) :
    WriteSucceeds .success (remoteWith content) (currentVersionFile FileSystem.remote.getHome)
      v1_2_0.text where
  opens := rfl
  writes := rfl
  not_dir := by rw [remoteWith_version]; exact nofun
  length_lt := by decide

/-- The version `1.2.0` over `1.1.9`. -/
theorem remoteStore_iff_sameLength :
    let w := remoteWith (Utf8.encode (JString.ofString "1.1.9"))
    let path := currentVersionFile FileSystem.remote.getHome
    let w' := runSteps .remote Outcome.success.part
      (install (linuxRelease v1_2_0) .remote someDirs [linuxWheel]) w
    FileSystem.remote.readString
        (runSteps .remote Outcome.success.part (writeString path v1_2_0.text) w) path =
          .ok v1_2_0.text ∧
      getCurrentVersion .remote w' = .ok (some v1_2_0.text) ∧
      shouldInstall (linuxRelease v1_2_0) .remote w' = .ok false := by
  intro w path w'
  have hold : contentAt w.remoteFiles path = Utf8.encode (JString.ofString "1.1.9") := by
    rw [contentAt, remoteWith_version]
  have hsize : readSize (contentAt w.remoteFiles path) v1_2_0.text =
      (Utf8.encode v1_2_0.text).length := by
    rw [hold]
    exact (readSize_eq_iff (by decide) (by decide)).mpr (by decide)
  have hle := Int.le_of_eq hsize.symm
  have hsucceeds := writeSucceeds_v1_2_0 (Utf8.encode (JString.ofString "1.1.9"))
  obtain ⟨hstring, hversion⟩ := remoteStore_iff .success w
  refine ⟨(hstring path _ hsucceeds).mpr ⟨v1_2_0.wellFormed, .inl hsize⟩,
    (hversion (linuxRelease v1_2_0) linuxMachine someDirs [linuxWheel]
      (getWheels_linuxRelease v1_2_0) (List.cons_ne_nil _ _) hsucceeds).mpr (.inl ⟨hle, ?_⟩)⟩
  have hleft : leftover (contentAt w.remoteFiles path) v1_2_0.text = [] :=
    (leftover_eq_nil_iff hsucceeds.length_lt hle).mpr hsize
  show JString.isBlank (Utf8.decode (leftover (contentAt w.remoteFiles path) v1_2_0.text)) = true
  rw [hleft]
  decide +kernel

/-- The version `1.2.0` over `0.9.10` reads as `1.2.00`, and is installed again and again. -/
theorem longer_version_stays :
    let w := remoteWith (Utf8.encode v0_9_10.text)
    let w' := runSteps .remote Outcome.success.part
      (install (linuxRelease v1_2_0) .remote someDirs [linuxWheel]) w
    getCurrentVersion .remote w' = .ok (some (JString.ofString "1.2.00")) ∧
      shouldInstall (linuxRelease v1_2_0) .remote w' = .ok true := by
  intro w w'
  have hfile := install_version (getWheels_linuxRelease v1_2_0) (List.cons_ne_nil linuxWheel [])
    someDirs (writeSucceeds_v1_2_0 (Utf8.encode v0_9_10.text))
  rw [contentAt, remoteWith_version] at hfile
  have hcurrent : getCurrentVersion .remote w' = .ok (some (JString.ofString "1.2.00")) :=
    (getCurrentVersion_eq_iff hfile).mpr
      ⟨JString.ofString "1.2.00", by decide +kernel, by decide +kernel⟩
  refine ⟨hcurrent, ?_⟩
  rw [shouldInstall, hcurrent]
  decide

end Reloadium.Pkg
