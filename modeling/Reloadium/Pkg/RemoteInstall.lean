import Reloadium.Pkg.PackageManager

namespace Reloadium.Pkg

open Reloadium.Lib

/-!
# Pkg — what a remote installation does to the local machine

`BaseWheel.unpack` clears `packageVersionDir` with `java.io.File`, that is, on the machine
the plugin runs on, also when it installs on a remote one.

* `clearAt` — what clearing a package directory does at one path;
* `installWheels_tracks` — outside the temporary directories, an installation that gets as
  far as the first wheels does locally what clearing their directories does;
* `foldl_eq_self_iff` — a path that a clearing has changed is not changed back by another;
* `localFiles_unchanged_iff` — hence the local files are as they were exactly when every
  directory reached is `Inert`.
-/

/-! ### Maps that stick -/

/-- Where a change by one of the maps is kept by all of them, the value is kept in the end
    exactly when each map keeps it. -/
theorem foldl_eq_self_iff {α β : Type} {f : α → β → α} {v : α} {l : List β}
    (h : ∀ b ∈ l, ∀ b' ∈ l, f v b ≠ v → f (f v b) b' = f v b) :
    l.foldl f v = v ↔ ∀ b ∈ l, f v b = v := by
  induction l with
  | nil => simp
  | cons b rest ih =>
    rw [List.foldl_cons, List.forall_mem_cons]
    have hrest : ∀ b ∈ rest, ∀ b' ∈ rest, f v b ≠ v → f (f v b) b' = f v b :=
      fun b hb b' hb' => h b (List.mem_cons_of_mem _ hb) b' (List.mem_cons_of_mem _ hb')
    by_cases hb : f v b = v
    · rw [hb, ih hrest, and_iff_right rfl]
    · -- `b` has changed the value, and nothing after it changes it again
      have hkept : rest.foldl f (f v b) = f v b := by
        have hstick : ∀ b' ∈ rest, f (f v b) b' = f v b := fun b' hb' =>
          h b List.mem_cons_self b' (List.mem_cons_of_mem _ hb') hb
        clear ih hrest h
        induction rest with
        | nil => rfl
        | cons b' rest ih =>
          rw [List.foldl_cons, hstick b' List.mem_cons_self]
          exact ih fun b'' hb'' => hstick b'' (List.mem_cons_of_mem _ hb'')
      rw [hkept]
      exact ⟨fun heq => absurd heq hb, fun heq => absurd heq.1 hb⟩

/-! ### Clearing a directory -/

/-- What deleting the directory `d` and making it anew does at the path `q`, where `v` is.
    A file at `d` in `t` is not deleted. -/
def clearAt (o : Outcome) (t : Files) (q : Path) (v : Option (Node Bytes)) (d : Path) :
    Option (Node Bytes) :=
  let kept := if d <+: q ∧ isFile (t d) = false ∧ o.deletes d q then none else v
  if q <+: d ∧ kept = none ∧ o.creates d q then some .dir else kept

variable {o : Outcome} {t : Files} {d d' q : Path} {v : Option (Node Bytes)}

/-- Elsewhere nothing happens. -/
theorem clearAt_of_apart (h : ¬ d <+: q) (h' : ¬ q <+: d) : clearAt o t q v d = v := by
  rw [clearAt, if_neg fun hk => h' hk.1, if_neg fun hk => h hk.1]

/-- Clearing a directory again changes nothing more. -/
theorem clearAt_idem : clearAt o t q (clearAt o t q v d) d = clearAt o t q v d := by
  simp only [clearAt]
  by_cases hdel : d <+: q ∧ isFile (t d) = false ∧ o.deletes d q
  · simp only [hdel, and_self, if_true]
  · simp only [hdel, if_false]
    by_cases hcre : q <+: d ∧ v = none ∧ o.creates d q
    · simp only [hcre, and_self, if_true, reduceCtorEq, false_and, and_false, if_false]
    · simp only [hcre, if_false]

/-- **No clearing undoes another**: directories of one depth are at different places. -/
theorem clearAt_clearAt (hlen : d'.length = d.length) (hne : clearAt o t q v d ≠ v) :
    clearAt o t q (clearAt o t q v d) d' = clearAt o t q v d := by
  by_cases heq : d' = d
  · rw [heq, clearAt_idem]
  by_cases hdq : d <+: q
  · -- below `d`, where another directory of its depth does not reach
    have hapart : ¬ d' <+: d ∧ ¬ d <+: d' :=
      ⟨fun h => heq (h.eq_of_length hlen), fun h => heq (h.eq_of_length hlen.symm).symm⟩
    have hd'q : ¬ d' <+: q := Apart.not_prefix hapart hdq
    exact clearAt_of_apart hd'q fun h => hapart.2 (hdq.trans h)
  · -- at an ancestor of `d`, which was created
    have hqd : q <+: d := by
      by_contra hqd
      exact hne (clearAt_of_apart hdq hqd)
    have hd'q : ¬ d' <+: q := fun h => heq ((h.trans hqd).eq_of_length hlen)
    have hkept : clearAt o t q v d = if q <+: d ∧ v = none ∧ o.creates d q then some .dir else v := by
      -- a missing ancestor of `d` can only be created
      simp only [clearAt, hdq, false_and, if_false]
    rw [hkept] at hne ⊢
    split at hne
    case isFalse => exact absurd rfl hne
    case isTrue hcre =>
      simp only [if_pos hcre, clearAt, hd'q, false_and, if_false, reduceCtorEq, and_false]

/-- Clearing neither deletes a file at a package directory nor makes one. -/
theorem isFile_clearAt (hlen : d'.length = d.length) (hv : isFile v = isFile (t d)) :
    isFile (clearAt o t d v d') = isFile (t d) := by
  have hkept : isFile (if d' <+: d ∧ isFile (t d') = false ∧ o.deletes d' d then none else v) =
      isFile (t d) := by
    split
    case isTrue h =>
      obtain rfl := h.1.eq_of_length hlen
      exact h.2.1.symm
    case isFalse => exact hv
  have hmake (kept : Option (Node Bytes)) (hk : isFile kept = isFile (t d)) :
      isFile (if d <+: d' ∧ kept = none ∧ o.creates d' d then some .dir else kept) =
        isFile (t d) := by
    split
    case isTrue h => rw [← hk, h.2.1]; rfl
    case isFalse => exact hk
  exact hmake _ hkept

/-! ### The local effect of an installation -/

/-- The temporary directories of an installation are new, and named as
    `Files.createTempDirectory` names them. -/
structure FreshDirs (dirs : TempDirs) (t : Files) : Prop where
  fresh : ∀ i r, t (dirs.tmpdir i ++ r) = none
  named : ∀ i, ∃ parent name, dirs.tmpdir i = parent ++ ["reloadium".toList ++ name]

/-- Outside the temporary directories. -/
def Outside (dirs : TempDirs) (q : Path) : Prop := ∀ i, ¬ dirs.tmpdir i <+: q

variable {plugin : Plugin} {dirs : TempDirs}

/-- The package directory of an accepted wheel. -/
theorem wheelDir_eq {machine : Machine} {wheels : List BaseWheel}
    (hwheels : getWheels plugin.content machine = some wheels) (home : Path) {wh : BaseWheel}
    (hw : wh ∈ wheels) : ∃ rest, wheelDir home wh = packageVersionDir home ('3' :: '.' :: rest) := by
  obtain ⟨⟨name, -, hfac⟩, hacc⟩ := (getWheels_mem hwheels wh).mp hw
  obtain ⟨rest, hdst⟩ := getDstDirName_of_accepts hfac hacc
  exact ⟨rest, by rw [wheelDir, hdst, Option.getD_some]⟩

theorem length_wheelDir (home : Path) (wh : BaseWheel) :
    (wheelDir home wh).length = (getPackagesRootDir home).length + 1 := by
  rw [wheelDir, packageVersionDir, List.length_append, List.length_singleton]

/-- No temporary directory is an ancestor of a package directory. -/
theorem FreshDirs.outside {machine : Machine} {wheels : List BaseWheel}
    (hdirs : FreshDirs dirs t) (hwheels : getWheels plugin.content machine = some wheels)
    {wh : BaseWheel} (hw : wh ∈ wheels) (hq : q <+: wheelDir FileSystem.remote.getHome wh) :
    Outside dirs q := by
  intro i htmp
  obtain ⟨parent, name, htmpdir⟩ := hdirs.named i
  obtain ⟨rest, hdir⟩ := wheelDir_eq hwheels FileSystem.remote.getHome hw
  -- no component of a package directory under `/root` starts with `reloadium`
  have hmem : "reloadium".toList ++ name ∈ wheelDir FileSystem.remote.getHome wh := by
    refine (htmp.trans hq).subset ?_
    rw [htmpdir]
    exact List.mem_append_right _ List.mem_cons_self
  rw [hdir, packageVersionDir, getPackagesRootDir, FileSystem.getHome] at hmem
  simp at hmem

/-- What the local files are outside the temporary directories after `ds` are cleared. -/
def Tracks (o : Outcome) (dirs : TempDirs) (t : Files) (ds : List Path) (w : World) : Prop :=
  ∀ q, Outside dirs q → w.localFiles q = ds.foldl (clearAt o t q) (t q)

/-- Deleting and making a package directory, as `unpack` does, is clearing it. -/
theorem runSteps_clear {w : World} (hfile : isFile (w.localFiles d) = isFile (t d)) (q : Path) :
    (runSteps .remote o.part [.deleteDirectory d, .mkdirs d] w).localFiles q =
      clearAt o t q (w.localFiles q) d := by
  simp only [runSteps, Step.effect, Outcome.part_deleteDirectory, Outcome.part_mkdirs, clearAt,
    ← hfile]
  cases hd : w.localFiles d with
  | none =>
    simp only [isFile, Tree.mkdirs, Tree.delete, true_and]
    rfl
  | some node =>
    cases node with
    | dir =>
      simp only [isFile, Tree.mkdirs, Tree.delete, true_and]
      rfl
    | file content => simp only [isFile, Tree.mkdirs, reduceCtorEq, false_and, and_false, if_false]

/-- The other steps of `unpack` stay in the temporary directory. -/
theorem unpack_eq (plugin : Plugin) (tmpdir : Path) (trash : Option Text) (wh : BaseWheel) :
    ∃ before after,
      unpack plugin .remote tmpdir trash wh =
          before ++ [.deleteDirectory (wheelDir FileSystem.remote.getHome wh),
            .mkdirs (wheelDir FileSystem.remote.getHome wh)] ++ after ∧
        before.length = 2 ∧ after.length = 3 ∧
        ∀ s ∈ before ++ after, ∀ q, s.localScope .remote q → tmpdir <+: q := by
  refine ⟨[_, _], [_, _, _], rfl, rfl, rfl, ?_⟩
  simp only [List.cons_append, List.nil_append, List.forall_mem_cons, Step.localScope,
    List.not_mem_nil, false_imp_iff, implies_true, and_true, true_and]
  refine ⟨?_, ?_, ?_, ?_⟩
  · rintro q rfl
    exact List.prefix_rfl
  · rintro q rfl
    exact List.prefix_append _ _
  · exact fun q h => h
  · exact fun q h => (List.prefix_append _ _).trans h

/-- Steps in a temporary directory change nothing outside. -/
theorem Tracks.frame {ds : List Path} {w : World} {steps : List Step} {i : Nat}
    (h : Tracks o dirs t ds w)
    (hscope : ∀ s ∈ steps, ∀ q, s.localScope .remote q → dirs.tmpdir i <+: q) :
    Tracks o dirs t ds (runSteps .remote o.part steps w) := by
  intro q hq
  rw [runSteps_local_frame w fun s hs hscoped => hq i (hscope s hs q hscoped)]
  exact h q hq

theorem isFile_foldl {ds : List Path} (hds : ∀ d' ∈ ds, d'.length = d.length)
    (hv : isFile v = isFile (t d)) : isFile (ds.foldl (clearAt o t d) v) = isFile (t d) := by
  induction ds generalizing v with
  | nil => exact hv
  | cons d' rest ih =>
    exact ih (fun d'' hd'' => hds d'' (List.mem_cons_of_mem _ hd''))
      (isFile_clearAt (hds d' List.mem_cons_self) hv)

/-- Clearing one more directory. -/
theorem Tracks.clear {ds : List Path} {w : World} (h : Tracks o dirs t ds w)
    (hds : ∀ d' ∈ ds, d'.length = d.length) (hd : Outside dirs d) :
    Tracks o dirs t (ds ++ [d])
      (runSteps .remote o.part [.deleteDirectory d, .mkdirs d] w) := by
  have hfile : isFile (w.localFiles d) = isFile (t d) := by
    rw [h d hd]
    exact isFile_foldl hds rfl
  intro q hq
  rw [runSteps_clear hfile, h q hq, List.foldl_append, List.foldl_cons, List.foldl_nil]

/-- The first `n` steps of unpacking a wheel; its directory is made right after it is
    deleted. -/
theorem unpack_tracks (plugin : Plugin) {ds : List Path} {w : World} {wh : BaseWheel} (h : Tracks o dirs t ds w)
    (hds : ∀ d' ∈ ds, d'.length = (wheelDir FileSystem.remote.getHome wh).length)
    (hd : Outside dirs (wheelDir FileSystem.remote.getHome wh)) (i : Nat) {n : Nat}
    (hn : n ≠ 3) :
    Tracks o dirs t (if 4 ≤ n then ds ++ [wheelDir FileSystem.remote.getHome wh] else ds)
      (runSteps .remote o.part
        ((unpack plugin .remote (dirs.tmpdir i) (dirs.trash i) wh).take n) w) := by
  obtain ⟨before, after, heq, hbefore, hafter, hscope⟩ :=
    unpack_eq plugin (dirs.tmpdir i) (dirs.trash i) wh
  rw [heq]
  split
  case isTrue hle =>
    rw [List.take_append, List.take_of_length_le (by simp [hbefore, hle]), runSteps_append,
      runSteps_append]
    refine Tracks.frame (i := i) (Tracks.clear (Tracks.frame (i := i) h ?_) hds hd) ?_
    · exact fun s hs => hscope s (List.mem_append_left _ hs)
    · exact fun s hs => hscope s (List.mem_append_right _ (List.mem_of_mem_take hs))
  case isFalse hlt =>
    rw [List.append_assoc, List.take_append_of_le_length (by omega)]
    exact Tracks.frame (i := i) h fun s hs =>
      hscope s (List.mem_append_left _ (List.mem_of_mem_take hs))

/-- **The local effect.**  After `n` steps of an installation, the package directories of
    the first wheels have been cleared. -/
theorem installWheels_tracks (plugin : Plugin) {wheels : List BaseWheel}
    (hdirs : ∀ wh ∈ wheels, Outside dirs (wheelDir FileSystem.remote.getHome wh))
    {ds : List Path} {w : World} (h : Tracks o dirs t ds w)
    (hds : ∀ d ∈ ds, d.length = (getPackagesRootDir FileSystem.remote.getHome).length + 1)
    (i : Nat) {n : Nat} (hn : n % 7 ≠ 3) :
    Tracks o dirs t
      (ds ++ (wheels.take ((n + 3) / 7)).map (wheelDir FileSystem.remote.getHome))
      (runSteps .remote o.part ((installWheels plugin .remote dirs i wheels).take n) w) := by
  induction wheels generalizing ds w i n with
  | nil =>
    simp only [installWheels, List.take_nil, List.map_nil, List.append_nil, runSteps]
    exact h
  | cons wh rest ih =>
    have hlen : (unpack plugin .remote (dirs.tmpdir i) (dirs.trash i) wh).length = 7 := rfl
    have hdsw : ∀ d ∈ ds, d.length = (wheelDir FileSystem.remote.getHome wh).length := by
      intro d hd
      rw [hds d hd, length_wheelDir]
    have hw := unpack_tracks plugin h hdsw (hdirs wh List.mem_cons_self) i
      (n := n) (by omega)
    rw [installWheels, List.take_append, hlen, runSteps_append]
    rcases Nat.lt_or_ge n 7 with hlt | hge
    · rw [Nat.sub_eq_zero_of_le (by omega), List.take_zero, runSteps]
      split at hw
      case isTrue hle =>
        -- from the fourth step on, the directory of this wheel has been cleared
        rw [show (n + 3) / 7 = 1 by omega]
        exact hw
      case isFalse hle =>
        rw [show (n + 3) / 7 = 0 by omega, List.take_zero, List.map_nil, List.append_nil]
        exact hw
    · rw [if_pos (by omega)] at hw
      have hrest := ih (fun wh' hwh' => hdirs wh' (List.mem_cons_of_mem _ hwh')) hw
        (n := n - 7) (i := i + 1) ?_ (by omega)
      · rw [show (n + 3) / 7 = (n - 7 + 3) / 7 + 1 by omega, List.take_succ_cons, List.map_cons,
          List.append_cons]
        exact hrest
      · intro d hd
        rcases List.mem_append.mp hd with hd | hd
        · exact hds d hd
        · rw [List.mem_singleton.mp hd, length_wheelDir]

/-! ### When nothing changes -/

/-- Clearing `d` leaves the files of `t` as they are: if `d` is there, nothing in it is
    deleted, and it is made anew when it is itself deleted; and none of the directories that
    are missing among it and its ancestors is created. -/
structure Inert (o : Outcome) (t : Files) (d : Path) : Prop where
  kept : t d = some .dir → ∀ r ≠ [], t (d ++ r) ≠ none → o.deletes d (d ++ r) = false
  remade : t d = some .dir → o.deletes d d = true → o.creates d d = true
  not_made : ∀ q, q <+: d → t q = none → o.creates d q = false

theorem Inert.of_clearAt (h : ∀ q, clearAt o t q (t q) d = t q) : Inert o t d where
  kept := by
    intro hd r hr hq
    have hnot : ¬ d ++ r <+: d := not_append_prefix hr
    by_contra hdel
    rw [Bool.not_eq_false] at hdel
    -- deleted, and not made anew: the path is strictly below `d`
    have hdeleted := h (d ++ r)
    rw [clearAt, if_neg fun hc => hnot hc.1,
      if_pos ⟨List.prefix_append _ _, by rw [hd]; rfl, hdel⟩] at hdeleted
    exact hq hdeleted.symm
  remade := by
    intro hd hdel
    by_contra hcre
    have hdeleted := h d
    rw [clearAt, if_neg fun hc => hcre hc.2.2, if_pos ⟨List.prefix_rfl, by rw [hd]; rfl, hdel⟩,
      hd] at hdeleted
    cases hdeleted
  not_made := by
    intro q hq hnone
    by_contra hcre
    rw [Bool.not_eq_false] at hcre
    have hmade := h q
    simp only [clearAt, hnone, ite_self, hq, hcre, and_self, if_true] at hmade
    cases hmade

theorem Inert.clearAt_eq (hclosed : Tree.Closed t) (h : Inert o t d) (q : Path) :
    clearAt o t q (t q) d = t q := by
  have hkept (hq : t q ≠ none) (hdel : d <+: q ∧ isFile (t d) = false ∧ o.deletes d q) :
      q = d ∧ t d = some .dir := by
    obtain ⟨⟨r, rfl⟩, hfile, hdel⟩ := hdel
    have hdir : t d = some .dir := by
      cases hd : t d with
      | none => exact absurd hd (hclosed d _ (List.prefix_append d r) hq)
      | some node =>
        cases node with
        | dir => rfl
        | file content => rw [hd] at hfile; cases hfile
    by_cases hr : r = []
    · exact ⟨by rw [hr, List.append_nil], hdir⟩
    · rw [h.kept hdir r hr hq] at hdel
      cases hdel
  have hmade (hq : q <+: d) (hnone : t q = none) : ¬ o.creates d q = true := by
    rw [h.not_made q hq hnone]
    exact Bool.false_ne_true
  by_cases hdel : d <+: q ∧ isFile (t d) = false ∧ o.deletes d q
  · by_cases hq : t q = none
    · rw [clearAt, if_pos hdel, if_neg fun hc => hmade hc.1 hq hc.2.2, hq]
    · obtain ⟨rfl, hdir⟩ := hkept hq hdel
      rw [clearAt, if_pos hdel, if_pos ⟨List.prefix_rfl, rfl, h.remade hdir hdel.2.2⟩, hdir]
  · rw [clearAt, if_neg hdel, if_neg fun hc => hmade hc.1 hc.2.1 hc.2.2]

/-- What clearing changes is outside the temporary directories. -/
theorem clearAt_eq_of_not_outside (hdirs : FreshDirs dirs t) (hd : ∀ q, q <+: d → Outside dirs q)
    (hq : ¬ Outside dirs q) : clearAt o t q (t q) d = t q := by
  have hnot : ¬ q <+: d := fun hpre => hq (hd q hpre)
  obtain ⟨i, hi⟩ := not_forall.mp hq
  obtain ⟨r, rfl⟩ := not_not.mp hi
  rw [clearAt, if_neg fun hc => hnot hc.1, hdirs.fresh, ite_self]

/-- **When a remote installation leaves the local machine alone.**  After any number of its
    steps (a package directory is made right after it is deleted), all local paths outside
    its temporary directories are as they were exactly when each package directory that it
    has reached is inert. -/
theorem localFiles_unchanged_iff {machine : Machine} {wheels : List BaseWheel} {w : World}
    {n : Nat} (hwheels : getWheels plugin.content machine = some wheels)
    (hclosed : Tree.Closed w.localFiles) (hdirs : FreshDirs dirs w.localFiles)
    (hn : n % 7 ≠ 3) :
    (∀ q, Outside dirs q →
        (runSteps .remote o.part ((installWheels plugin .remote dirs 0 wheels).take n)
          w).localFiles q = w.localFiles q) ↔
      ∀ wh ∈ wheels.take ((n + 3) / 7),
        Inert o w.localFiles (wheelDir FileSystem.remote.getHome wh) := by
  have houtside (wh : BaseWheel) (hw : wh ∈ wheels) (q : Path)
      (hq : q <+: wheelDir FileSystem.remote.getHome wh) : Outside dirs q :=
    hdirs.outside hwheels hw hq
  have htracks : Tracks o dirs w.localFiles [] w := fun q _ => rfl
  -- the local files outside are a fold of clearings, which is the identity where each one is
  have hrun := installWheels_tracks plugin
    (fun wh hw => houtside wh hw _ List.prefix_rfl) htracks (fun d hd => absurd hd List.not_mem_nil)
    0 hn
  rw [List.nil_append] at hrun
  have hfold (q : Path) :
      ((wheels.take ((n + 3) / 7)).map (wheelDir FileSystem.remote.getHome)).foldl
          (clearAt o w.localFiles q) (w.localFiles q) = w.localFiles q ↔
        ∀ wh ∈ wheels.take ((n + 3) / 7), clearAt o w.localFiles q (w.localFiles q)
          (wheelDir FileSystem.remote.getHome wh) = w.localFiles q := by
    rw [foldl_eq_self_iff, List.forall_mem_map]
    simp only [List.forall_mem_map]
    intro wh _ wh' _ hne
    exact clearAt_clearAt (by rw [length_wheelDir, length_wheelDir]) hne
  constructor
  · intro h wh hwh
    refine Inert.of_clearAt fun q => ?_
    by_cases hq : Outside dirs q
    · exact (hfold q).mp ((hrun q hq).symm.trans (h q hq)) wh hwh
    · exact clearAt_eq_of_not_outside hdirs (houtside wh (List.mem_of_mem_take hwh)) hq
  · intro h q hq
    rw [hrun q hq, (hfold q).mpr fun wh hwh => (h wh hwh).clearAt_eq hclosed q]

/-! ### A local installation under the same path -/

/-- A file of a package that is installed locally under `/root`. -/
def localFile : Path :=
  packageVersionDir FileSystem.remote.getHome "3.10".toList ++ ["corium.py".toList]

/-- A local machine with that file. -/
def localWorld : World where
  localFiles :=
    putFile (Tree.mkdirs (fun _ => none)
      (packageVersionDir FileSystem.remote.getHome "3.10".toList) fun _ => true)
      localFile [] fun _ => true
  remoteFiles _ := none

/-- On a machine without files, for a user who may create none under `/root`. -/
theorem localFiles_unchanged_iff_forbidden :
    let o : Outcome := { Outcome.success with creates := fun _ _ => false }
    let w : World := { localFiles := fun _ => none, remoteFiles := fun _ => none }
    ∀ q, Outside someDirs q →
      (runSteps .remote o.part
        ((installWheels (linuxRelease v1_2_0) .remote someDirs 0 [linuxWheel]).take 7)
        w).localFiles q = none := by
  intro o w
  refine (localFiles_unchanged_iff (getWheels_linuxRelease v1_2_0) (fun _ _ _ h => absurd rfl h)
    ⟨fun _ _ => rfl, fun i => ⟨["tmp".toList], Nat.toDigits 10 i, rfl⟩⟩ (by decide)).mpr ?_
  intro wh _
  exact ⟨nofun, nofun, fun _ _ _ => rfl⟩

/-- For a user who may delete it, the local package is deleted. -/
theorem local_package_deleted :
    Outside someDirs localFile ∧ localWorld.localFiles localFile = some (.file []) ∧
      (runSteps .remote Outcome.success.part
        (installWheels (linuxRelease v1_2_0) .remote someDirs 0 [linuxWheel])
        localWorld).localFiles localFile = none := by
  refine ⟨?_, by decide, by decide⟩
  rintro i ⟨r, hr⟩
  have hroot : "tmp".toList = "root".toList := (List.cons.inj hr).1
  revert hroot
  decide

end Reloadium.Pkg
