import Mathlib.Data.List.Dedup
import Reloadium.Lib.Fallible
import Reloadium.Lib.PMap

namespace Reloadium.Watchdog.DirSnapshot

open Lib

/-!
# Directory snapshots

Model of `DirectorySnapshot` and `DirectorySnapshotDiff`.  A path is the list of names that lead to
it from the watched directory; what `stat` and `scandir` find is a tree, in which two entries of a
directory have different names.

* `inv_takeSnapshot` — what a snapshot keeps of the inodes and the paths agrees;
* `mem_created_iff`, `mem_deleted_iff` — a path is created or deleted when its inode is new or gone;
* `diff_iff` — **the difference** of two snapshots is what became of each inode, if the later one
  has no hard links.
-/

abbrev Path := List String

/-! ### File trees -/

/-- What is used of `os.stat_result`. -/
structure Stat where
  ino : Nat
  dev : Nat
  isDir : Bool
  mtime : Int
  size : Nat
deriving DecidableEq

def Stat.id (st : Stat) : Nat × Nat := (st.ino, st.dev)

/-- What `scandir` raises: `ENOENT`, `ENOTDIR` or `EINVAL`, `PermissionError`, or anything else. -/
inductive OSError
  | gone
  | permission
  | other
deriving DecidableEq

mutual

/-- A path and what `scandir` says of it. -/
inductive Node
  | listed (st : Stat) (entries : Entries)
  | unlisted (st : Stat) (error : OSError)

/-- The entries of a directory; of some, `stat` fails. -/
inductive Entries
  | nil
  | cons (name : String) (node : Node) (rest : Entries)
  | failed (name : String) (rest : Entries)

end

def Node.st : Node → Stat
  | .listed st _ => st
  | .unlisted st _ => st

def Entries.names : Entries → List String
  | .nil => []
  | .cons name _ rest => name :: rest.names
  | .failed name rest => name :: rest.names

mutual

def Node.Distinct : Node → Prop
  | .listed _ entries => entries.Distinct
  | .unlisted .. => True

def Entries.Distinct : Entries → Prop
  | .nil => True
  | .cons name node rest => name ∉ rest.names ∧ node.Distinct ∧ rest.Distinct
  | .failed name rest => name ∉ rest.names ∧ rest.Distinct

end

/-- A tree in which no directory has two entries of one name. -/
structure Tree where
  node : Node
  distinct : node.Distinct

/-! ### Snapshots -/

/-- The first loop of `walk`. -/
def Entries.stats (root : Path) : Entries → List (Path × Stat)
  | .nil => []
  | .cons name node rest => (root ++ [name], node.st) :: rest.stats root
  | .failed _ rest => rest.stats root

/-- `except PermissionError: pass` -/
def passPermission : Except OSError (List (Path × Stat)) → Except OSError (List (Path × Stat))
  | .error .permission => .ok []
  | walked => walked

mutual

/-- `walk` -/
def Node.walk (recursive : Bool) (root : Path) : Node → Except OSError (List (Path × Stat))
  | .unlisted _ error => if error = .gone then .ok [] else .error error
  | .listed _ entries =>
    if recursive then (entries.walk root).map (entries.stats root ++ ·)
    else .ok (entries.stats root)

/-- The second loop of `walk`. -/
def Entries.walk (root : Path) : Entries → Except OSError (List (Path × Stat))
  | .nil => .ok []
  | .cons name node rest => do
    let below ←
      passPermission (if node.st.isDir then node.walk true (root ++ [name]) else .ok [])
    let others ← rest.walk root
    return below ++ others
  | .failed _ rest => rest.walk root

end

/-- `paths` are the keys of `_stat_info`. -/
structure DirectorySnapshot where
  paths : List Path
  statInfo : PMap Path Stat
  inodeToPath : PMap (Nat × Nat) Path

namespace DirectorySnapshot

variable (s : DirectorySnapshot)

def empty : DirectorySnapshot := ⟨[], PMap.empty, PMap.empty⟩

def add (entry : Path × Stat) : DirectorySnapshot where
  paths := if (s.statInfo entry.1).isSome then s.paths else s.paths ++ [entry.1]
  statInfo := s.statInfo.put entry.1 entry.2
  inodeToPath := s.inodeToPath.put entry.2.id entry.1

def path (id : Nat × Nat) : Option Path := s.inodeToPath id

def inode (path : Path) : Option (Nat × Nat) := (s.statInfo path).map Stat.id

def isdir (path : Path) : Bool := (s.statInfo path).any Stat.isDir

def mtime (path : Path) : Option Int := (s.statInfo path).map Stat.mtime

def size (path : Path) : Option Nat := (s.statInfo path).map Stat.size

end DirectorySnapshot

/-- `DirectorySnapshot(path, recursive)` -/
def takeSnapshot (recursive : Bool) (tree : Tree) : Except OSError DirectorySnapshot := do
  let walked ← tree.node.walk recursive []
  return walked.foldl DirectorySnapshot.add (.add .empty ([], tree.node.st))

/-! ### Differences -/

section Diff

variable (ignoreDevice : Bool) (ref snapshot : DirectorySnapshot)

def getInode (directory : DirectorySnapshot) (path : Path) : Option (Nat × Nat) :=
  (directory.inode path).map fun id => if ignoreDevice then (id.1, 0) else id

/-- The paths of both with different inodes. -/
def replaced : List Path :=
  ref.paths.filter fun path =>
    path ∈ snapshot.paths ∧ getInode ignoreDevice ref path ≠ getInode ignoreDevice snapshot path

def createdPaths : List Path :=
  snapshot.paths.filter (· ∉ ref.paths) ++ replaced ignoreDevice ref snapshot

def deletedPaths : List Path :=
  ref.paths.filter (· ∉ snapshot.paths) ++ replaced ignoreDevice ref snapshot

/-- Where the inode of a path is in the other snapshot. -/
def newPath (path : Path) : Option Path := (ref.inode path).bind snapshot.path

def created : List Path :=
  (createdPaths ignoreDevice ref snapshot).filter fun path => newPath snapshot ref path = none

def deleted : List Path :=
  (deletedPaths ignoreDevice ref snapshot).filter fun path => newPath ref snapshot path = none

def moved : List (Path × Path) :=
  ((deletedPaths ignoreDevice ref snapshot).filterMap (fun path =>
      (newPath ref snapshot path).map fun new => (path, new)) ++
    (createdPaths ignoreDevice ref snapshot).filterMap fun path =>
      (newPath snapshot ref path).map fun old => (old, path)).dedup

/-- The time or the size differs. -/
def differs (oldPath newPath : Path) : Bool :=
  ref.mtime oldPath ≠ snapshot.mtime newPath ∨ ref.size oldPath ≠ snapshot.size newPath

def modified : List Path :=
  (ref.paths.filter (fun path =>
      path ∈ snapshot.paths ∧
        getInode ignoreDevice ref path = getInode ignoreDevice snapshot path ∧
        differs ref snapshot path path) ++
    ((moved ignoreDevice ref snapshot).filter fun m => differs ref snapshot m.1 m.2).map
      Prod.fst).dedup

end Diff

structure DirectorySnapshotDiff where
  filesCreated : List Path
  filesDeleted : List Path
  filesModified : List Path
  filesMoved : List (Path × Path)
  dirsCreated : List Path
  dirsDeleted : List Path
  dirsModified : List Path
  dirsMoved : List (Path × Path)

/-- `DirectorySnapshotDiff(ref, snapshot, ignore_device)` -/
def diff (ignoreDevice : Bool) (ref snapshot : DirectorySnapshot) : DirectorySnapshotDiff where
  filesCreated := (created ignoreDevice ref snapshot).filter fun path => !snapshot.isdir path
  filesDeleted := (deleted ignoreDevice ref snapshot).filter fun path => !ref.isdir path
  filesModified := (modified ignoreDevice ref snapshot).filter fun path => !ref.isdir path
  filesMoved := (moved ignoreDevice ref snapshot).filter fun m => !ref.isdir m.1
  dirsCreated := (created ignoreDevice ref snapshot).filter fun path => snapshot.isdir path
  dirsDeleted := (deleted ignoreDevice ref snapshot).filter fun path => ref.isdir path
  dirsModified := (modified ignoreDevice ref snapshot).filter fun path => ref.isdir path
  dirsMoved := (moved ignoreDevice ref snapshot).filter fun m => ref.isdir m.1

/-! ### Walks -/

theorem mem_stats {root p : Path} (entries : Entries) (h : p ∈ (entries.stats root).map Prod.fst) :
    ∃ name ∈ entries.names, p = root ++ [name] := by
  cases entries with
  | nil => exact absurd h List.not_mem_nil
  | cons name node rest =>
    rcases List.mem_cons.mp h with rfl | h
    · exact ⟨name, List.mem_cons_self, rfl⟩
    · obtain ⟨other, hother, hp⟩ := mem_stats rest h
      exact ⟨other, List.mem_cons_of_mem _ hother, hp⟩
  | failed name rest =>
    obtain ⟨other, hother, hp⟩ := mem_stats rest h
    exact ⟨other, List.mem_cons_of_mem _ hother, hp⟩

theorem nodup_stats {root : Path} (entries : Entries) (hdistinct : entries.Distinct) :
    ((entries.stats root).map Prod.fst).Nodup := by
  cases entries with
  | nil => exact List.nodup_nil
  | cons name node rest =>
    obtain ⟨hname, -, hrest⟩ := hdistinct
    refine List.nodup_cons.mpr ⟨fun hmem => ?_, nodup_stats rest hrest⟩
    obtain ⟨other, hother, heq⟩ := mem_stats rest hmem
    obtain rfl := List.singleton_inj.mp (List.append_cancel_left heq)
    exact hname hother
  | failed name rest => exact nodup_stats rest hdistinct.2

/-- What is walked below a directory, each path once. -/
structure Below (root : Path) (walked : List (Path × Stat)) : Prop where
  nodup : (walked.map Prod.fst).Nodup
  below : ∀ p ∈ walked.map Prod.fst, ∃ name rest, p = root ++ name :: rest

/-- What is walked below entries of the given names. -/
structure BelowEntries (root : Path) (names : List String) (walked : List (Path × Stat)) :
    Prop where
  nodup : (walked.map Prod.fst).Nodup
  below : ∀ p ∈ walked.map Prod.fst,
    ∃ name ∈ names, ∃ next rest, p = root ++ name :: next :: rest

theorem below_nil (root : Path) : Below root [] :=
  ⟨List.nodup_nil, fun _ hp => absurd hp List.not_mem_nil⟩

theorem below_stats {root : Path} {entries : Entries} (hdistinct : entries.Distinct) :
    Below root (entries.stats root) := by
  refine ⟨nodup_stats entries hdistinct, fun p hp => ?_⟩
  obtain ⟨name, -, hp⟩ := mem_stats entries hp
  exact ⟨name, [], hp⟩

/-- The two loops of `walk`. -/
theorem BelowEntries.append_stats {root : Path} {entries : Entries} {walked : List (Path × Stat)}
    (h : BelowEntries root entries.names walked) (hdistinct : entries.Distinct) :
    Below root (entries.stats root ++ walked) := by
  refine ⟨?_, fun p hp => ?_⟩
  · rw [List.map_append, List.nodup_append]
    refine ⟨nodup_stats entries hdistinct, h.nodup, fun p hp q hq heq => ?_⟩
    obtain ⟨name, -, rfl⟩ := mem_stats entries hp
    obtain ⟨name', -, next, rest, rfl⟩ := h.below q hq
    exact absurd (List.cons.inj (List.append_cancel_left heq)).2 (List.cons_ne_nil _ _).symm
  · rw [List.map_append] at hp
    rcases List.mem_append.mp hp with hp | hp
    · exact (below_stats hdistinct).below p hp
    · obtain ⟨name, -, next, rest, rfl⟩ := h.below p hp
      exact ⟨name, next :: rest, rfl⟩

/-- One entry more. -/
theorem BelowEntries.cons {root : Path} {name : String} {names : List String}
    {below others : List (Path × Stat)} (hname : name ∉ names)
    (hbelow : Below (root ++ [name]) below) (hothers : BelowEntries root names others) :
    BelowEntries root (name :: names) (below ++ others) := by
  refine ⟨?_, fun p hp => ?_⟩
  · rw [List.map_append, List.nodup_append]
    refine ⟨hbelow.nodup, hothers.nodup, fun p hp q hq heq => ?_⟩
    obtain ⟨next, rest, rfl⟩ := hbelow.below p hp
    obtain ⟨other, hother, next', rest', rfl⟩ := hothers.below q hq
    rw [List.append_assoc] at heq
    obtain rfl := (List.cons.inj (List.append_cancel_left heq)).1
    exact hname hother
  · rw [List.map_append] at hp
    rcases List.mem_append.mp hp with hp | hp
    · obtain ⟨next, rest, rfl⟩ := hbelow.below p hp
      exact ⟨name, List.mem_cons_self, next, rest, List.append_assoc _ _ _⟩
    · obtain ⟨other, hother, hp⟩ := hothers.below p hp
      exact ⟨other, List.mem_cons_of_mem _ hother, hp⟩

theorem below_passPermission {root : Path} {walked : List (Path × Stat)}
    {result : Except OSError (List (Path × Stat))} (h : passPermission result = .ok walked)
    (hresult : ∀ walked, result = .ok walked → Below root walked) : Below root walked := by
  rw [passPermission.eq_def] at h
  split at h
  · rw [← Except.ok.inj h]
    exact below_nil root
  · exact hresult walked h

mutual

/-- Each path is found once, below the directory. -/
theorem below_walk {recursive : Bool} {root : Path} {walked : List (Path × Stat)} (node : Node)
    (hdistinct : node.Distinct) (h : node.walk recursive root = .ok walked) :
    Below root walked := by
  cases node with
  | unlisted st error =>
    rw [Node.walk] at h
    split at h
    · rw [← Except.ok.inj h]
      exact below_nil root
    · exact nomatch h
  | listed st entries =>
    rw [Node.Distinct] at hdistinct
    rw [Node.walk] at h
    split at h
    · obtain ⟨below, hwalk, rfl⟩ := map_eq_ok_iff.mp h
      exact (belowEntries_walk entries hdistinct hwalk).append_stats hdistinct
    · rw [← Except.ok.inj h]
      exact below_stats hdistinct

theorem belowEntries_walk {root : Path} {walked : List (Path × Stat)} (entries : Entries)
    (hdistinct : entries.Distinct) (h : entries.walk root = .ok walked) :
    BelowEntries root entries.names walked := by
  cases entries with
  | nil =>
    rw [Entries.walk] at h
    rw [← Except.ok.inj h]
    exact ⟨List.nodup_nil, fun p hp => absurd hp List.not_mem_nil⟩
  | cons name node rest =>
    obtain ⟨hname, hnode, hrest⟩ := hdistinct
    rw [Entries.walk] at h
    obtain ⟨below, hbelow, h⟩ := bind_eq_ok_iff.mp h
    obtain ⟨others, hothers, h⟩ := bind_eq_ok_iff.mp h
    rw [← Except.ok.inj h]
    refine .cons hname (below_passPermission hbelow fun walked hwalk => ?_)
      (belowEntries_walk rest hrest hothers)
    split at hwalk
    · exact below_walk node hnode hwalk
    · rw [← Except.ok.inj hwalk]
      exact below_nil _
  | failed name rest =>
    rw [Entries.walk] at h
    have hwalked := belowEntries_walk rest hdistinct.2 h
    refine ⟨hwalked.nodup, fun p hp => ?_⟩
    obtain ⟨other, hother, hp⟩ := hwalked.below p hp
    exact ⟨other, List.mem_cons_of_mem _ hother, hp⟩

end

/-! ### What a snapshot keeps -/

namespace DirectorySnapshot

variable {s : DirectorySnapshot} {id : Nat × Nat} {p q : Path}

theorem inode_add (s : DirectorySnapshot) (entry : Path × Stat) (p : Path) :
    (s.add entry).inode p = if p = entry.1 then some entry.2.id else s.inode p := by
  show ((s.statInfo.put entry.1 entry.2) p).map Stat.id = _
  rw [PMap.put_apply]
  split
  · rfl
  · rfl

theorem path_add (s : DirectorySnapshot) (entry : Path × Stat) (id : Nat × Nat) :
    (s.add entry).path id = if id = entry.2.id then some entry.1 else s.path id :=
  PMap.put_apply _ _ _ _

theorem inode_eq_none_iff : s.inode p = none ↔ s.statInfo p = none := by
  rw [inode, Option.map_eq_none_iff]

/-- What the snapshot keeps of the inodes and of the paths agrees. -/
structure Inv (s : DirectorySnapshot) : Prop where
  mem_paths_iff : ∀ p, p ∈ s.paths ↔ ∃ id, s.inode p = some id
  inode_of_path : ∀ id p, s.path id = some p → s.inode p = some id
  path_of_inode : ∀ id p, s.inode p = some id → s.path id ≠ none

theorem Inv.notMem_paths_iff (hs : s.Inv) : p ∉ s.paths ↔ s.inode p = none := by
  rw [hs.mem_paths_iff, Option.eq_none_iff_forall_ne_some, not_exists]

theorem inv_empty : empty.Inv where
  mem_paths_iff _ := iff_of_false List.not_mem_nil fun ⟨_, h⟩ => nomatch h
  inode_of_path _ _ h := nomatch h
  path_of_inode _ _ h := nomatch h

theorem inv_add {entry : Path × Stat} (hs : s.Inv) (hfresh : s.inode entry.1 = none) :
    (s.add entry).Inv := by
  refine ⟨fun p => ?_, fun id p h => ?_, fun id p h => ?_⟩
  · rw [inode_add, add, inode_eq_none_iff.mp hfresh]
    show p ∈ s.paths ++ [entry.1] ↔ _
    rw [List.mem_append, List.mem_singleton, hs.mem_paths_iff]
    split
    case isTrue hp => exact iff_of_true (Or.inr hp) ⟨_, rfl⟩
    case isFalse hp => exact or_iff_left hp
  · rw [path_add] at h
    rw [inode_add]
    split at h
    case isTrue hid =>
      rw [if_pos (Option.some.inj h).symm, hid]
    case isFalse hid =>
      have hp := hs.inode_of_path id p h
      have hne : p ≠ entry.1 := by
        rintro rfl
        rw [hfresh] at hp
        exact nomatch hp
      rw [if_neg hne, hp]
  · rw [inode_add] at h
    rw [path_add]
    split at h
    case isTrue hp =>
      rw [if_pos (Option.some.inj h).symm]
      exact Option.some_ne_none _
    case isFalse hp =>
      split
      · exact Option.some_ne_none _
      · exact hs.path_of_inode id p h

theorem inv_foldl_add {walked : List (Path × Stat)} (hs : s.Inv)
    (hnodup : (walked.map Prod.fst).Nodup)
    (hfresh : ∀ p ∈ walked.map Prod.fst, s.inode p = none) : (walked.foldl add s).Inv := by
  induction walked generalizing s with
  | nil => exact hs
  | cons entry walked ih =>
    obtain ⟨hentry, hnodup⟩ := List.nodup_cons.mp hnodup
    obtain ⟨hfirst, hrest⟩ := List.forall_mem_cons.mp hfresh
    refine ih (inv_add hs hfirst) hnodup fun p hp => ?_
    have hne : p ≠ entry.1 := by
      rintro rfl
      exact hentry hp
    rw [inode_add, if_neg hne]
    exact hrest p hp

end DirectorySnapshot

open DirectorySnapshot

/-- **Snapshots** of the file system keep inodes and paths that agree. -/
theorem inv_takeSnapshot {recursive : Bool} {tree : Tree} {s : DirectorySnapshot}
    (h : takeSnapshot recursive tree = .ok s) : s.Inv := by
  obtain ⟨walked, hwalk, h⟩ := bind_eq_ok_iff.mp h
  rw [← Except.ok.inj h]
  have hbelow := below_walk tree.node tree.distinct hwalk
  apply inv_foldl_add
  · exact inv_add inv_empty rfl
  · exact hbelow.nodup
  · intro p hp
    obtain ⟨name, rest, rfl⟩ := hbelow.below p hp
    rw [inode_add, List.nil_append, if_neg (List.cons_ne_nil _ _)]
    rfl

/-! ### What became of each inode -/

section Diff

variable {ref snapshot : DirectorySnapshot} {p q : Path}

theorem newPath_eq_none_iff (hs : snapshot.Inv) {id : Nat × Nat} (hp : ref.inode p = some id) :
    newPath ref snapshot p = none ↔ ∀ q, snapshot.inode q ≠ some id := by
  rw [newPath, hp, Option.bind_some]
  refine ⟨fun h q hq => hs.path_of_inode id q hq h, fun h => ?_⟩
  cases hpath : snapshot.path id with
  | none => rfl
  | some q => exact absurd (hs.inode_of_path id q hpath) (h q)

theorem getInode_false (directory : DirectorySnapshot) (p : Path) :
    getInode false directory p = directory.inode p := by
  rw [getInode]
  exact Option.map_id_apply

theorem mem_replaced_iff :
    p ∈ replaced false ref snapshot ↔
      p ∈ ref.paths ∧ p ∈ snapshot.paths ∧ ref.inode p ≠ snapshot.inode p := by
  rw [replaced, List.mem_filter, decide_eq_true_eq, getInode_false, getInode_false]

/-- A path that the other snapshot does not have, or has with another inode. -/
theorem mem_deletedPaths_iff (hr : ref.Inv) (hs : snapshot.Inv) :
    p ∈ deletedPaths false ref snapshot ↔
      (∃ id, ref.inode p = some id) ∧ ref.inode p ≠ snapshot.inode p := by
  rw [deletedPaths, List.mem_append, List.mem_filter, decide_eq_true_eq, mem_replaced_iff,
    hr.mem_paths_iff, ← and_or_left, hs.notMem_paths_iff, hs.mem_paths_iff]
  apply and_congr_right
  rintro ⟨id, hp⟩
  rw [hp]
  cases snapshot.inode p with
  | none => exact iff_of_true (Or.inl rfl) (Option.some_ne_none id)
  | some id' =>
    rw [or_iff_right (Option.some_ne_none id')]
    exact and_iff_right ⟨id', rfl⟩

theorem mem_createdPaths_iff (hr : ref.Inv) (hs : snapshot.Inv) :
    p ∈ createdPaths false ref snapshot ↔
      (∃ id, snapshot.inode p = some id) ∧ ref.inode p ≠ snapshot.inode p := by
  rw [createdPaths, List.mem_append, List.mem_filter, decide_eq_true_eq, mem_replaced_iff,
    hs.mem_paths_iff, ← and_left_comm, ← and_or_left, hr.notMem_paths_iff, hr.mem_paths_iff]
  apply and_congr_right
  rintro ⟨id, hp⟩
  rw [hp]
  cases ref.inode p with
  | none => exact iff_of_true (Or.inl rfl) (Option.some_ne_none id).symm
  | some id' =>
    rw [or_iff_right (Option.some_ne_none id')]
    exact and_iff_right ⟨id', rfl⟩

/-- **A path is deleted** when its inode is gone. -/
theorem mem_deleted_iff (hr : ref.Inv) (hs : snapshot.Inv) :
    p ∈ deleted false ref snapshot ↔
      ∃ id, ref.inode p = some id ∧ ∀ q, snapshot.inode q ≠ some id := by
  rw [deleted, List.mem_filter, decide_eq_true_eq, mem_deletedPaths_iff hr hs]
  constructor
  · rintro ⟨⟨⟨id, hp⟩, -⟩, hnone⟩
    exact ⟨id, hp, (newPath_eq_none_iff hs hp).mp hnone⟩
  · rintro ⟨id, hp, hgone⟩
    exact ⟨⟨⟨id, hp⟩, hp ▸ (hgone p).symm⟩, (newPath_eq_none_iff hs hp).mpr hgone⟩

/-- **A path is created** when its inode is new. -/
theorem mem_created_iff (hr : ref.Inv) (hs : snapshot.Inv) :
    p ∈ created false ref snapshot ↔
      ∃ id, snapshot.inode p = some id ∧ ∀ q, ref.inode q ≠ some id := by
  rw [created, List.mem_filter, decide_eq_true_eq, mem_createdPaths_iff hr hs]
  constructor
  · rintro ⟨⟨⟨id, hp⟩, -⟩, hnone⟩
    exact ⟨id, hp, (newPath_eq_none_iff hr hp).mp hnone⟩
  · rintro ⟨id, hp, hnew⟩
    exact ⟨⟨⟨id, hp⟩, hp ▸ hnew p⟩, (newPath_eq_none_iff hr hp).mpr hnew⟩

/-- No inode has two paths. -/
def DirectorySnapshot.Unique (s : DirectorySnapshot) : Prop :=
  ∀ p q id, s.inode p = some id → s.inode q = some id → p = q

theorem newPath_eq_some (hs : snapshot.Inv) (h : newPath ref snapshot p = some q) :
    ∃ id, ref.inode p = some id ∧ snapshot.inode q = some id := by
  obtain ⟨id, hp, hpath⟩ := Option.bind_eq_some_iff.mp h
  exact ⟨id, hp, hs.inode_of_path id q hpath⟩

/-- **A path is moved** when its inode has another path. -/
theorem mem_moved_iff (hr : ref.Inv) (hs : snapshot.Inv) (hunique : snapshot.Unique) :
    (p, q) ∈ moved false ref snapshot ↔
      p ≠ q ∧ ∃ id, ref.inode p = some id ∧ snapshot.inode q = some id := by
  rw [moved, List.mem_dedup, List.mem_append, List.mem_filterMap, List.mem_filterMap]
  constructor
  · rintro (⟨p', hmem, h⟩ | ⟨q', hmem, h⟩)
    · obtain ⟨q', hnew, heq⟩ := Option.map_eq_some_iff.mp h
      obtain ⟨rfl, rfl⟩ := Prod.mk.inj heq
      obtain ⟨id, hp, hq⟩ := newPath_eq_some hs hnew
      refine ⟨?_, id, hp, hq⟩
      rintro rfl
      exact ((mem_deletedPaths_iff hr hs).mp hmem).2 (hp.trans hq.symm)
    · obtain ⟨p', hold, heq⟩ := Option.map_eq_some_iff.mp h
      obtain ⟨rfl, rfl⟩ := Prod.mk.inj heq
      obtain ⟨id, hq, hp⟩ := newPath_eq_some hr hold
      refine ⟨?_, id, hp, hq⟩
      rintro rfl
      exact ((mem_createdPaths_iff hr hs).mp hmem).2 (hp.trans hq.symm)
  · rintro ⟨hne, id, hp, hq⟩
    refine Or.inl ⟨p, (mem_deletedPaths_iff hr hs).mpr ⟨⟨id, hp⟩, fun heq => ?_⟩, ?_⟩
    · exact hne (hunique p q id (heq ▸ hp) hq)
    · obtain ⟨q', hpath⟩ := Option.ne_none_iff_exists'.mp (hs.path_of_inode id q hq)
      rw [newPath, hp, Option.bind_some, hpath, hunique q' q id (hs.inode_of_path id q' hpath) hq]
      rfl

/-- **A path is modified** when the file that was there has another time or size. -/
theorem mem_modified_iff (hr : ref.Inv) (hs : snapshot.Inv) (hunique : snapshot.Unique) :
    p ∈ modified false ref snapshot ↔
      ∃ q id, ref.inode p = some id ∧ snapshot.inode q = some id ∧
        differs ref snapshot p q = true := by
  rw [modified, List.mem_dedup, List.mem_append, List.mem_filter, decide_eq_true_eq, List.mem_map,
    getInode_false, getInode_false]
  constructor
  · rintro (⟨hmem, -, hsame, hdiffers⟩ | ⟨⟨p', q⟩, hmem, rfl⟩)
    · obtain ⟨id, hp⟩ := (hr.mem_paths_iff p).mp hmem
      exact ⟨p, id, hp, hsame ▸ hp, hdiffers⟩
    · obtain ⟨hmoved, hdiffers⟩ := List.mem_filter.mp hmem
      obtain ⟨-, id, hp, hq⟩ := (mem_moved_iff hr hs hunique).mp hmoved
      exact ⟨q, id, hp, hq, hdiffers⟩
  · rintro ⟨q, id, hp, hq, hdiffers⟩
    by_cases hpq : p = q
    · rw [← hpq] at hq hdiffers
      exact Or.inl ⟨(hr.mem_paths_iff p).mpr ⟨id, hp⟩, (hs.mem_paths_iff p).mpr ⟨id, hq⟩,
        hp.trans hq.symm, hdiffers⟩
    · refine Or.inr ⟨(p, q), List.mem_filter.mpr ⟨?_, hdiffers⟩, rfl⟩
      exact (mem_moved_iff hr hs hunique).mpr ⟨hpq, id, hp, hq⟩

end Diff

/-! ### The difference -/

namespace DirectorySnapshotDiff

variable (d : DirectorySnapshotDiff)

def created (isDir : Bool) : List Path := if isDir then d.dirsCreated else d.filesCreated

def deleted (isDir : Bool) : List Path := if isDir then d.dirsDeleted else d.filesDeleted

def modified (isDir : Bool) : List Path := if isDir then d.dirsModified else d.filesModified

def moved (isDir : Bool) : List (Path × Path) := if isDir then d.dirsMoved else d.filesMoved

end DirectorySnapshotDiff

/-- Telling directories and files apart. -/
theorem mem_kind_iff {α : Type} (l : List α) (kind : α → Bool) (isDir : Bool) (a : α) :
    (a ∈ if isDir then l.filter kind else l.filter fun a => !kind a) ↔ a ∈ l ∧ kind a = isDir := by
  cases isDir with
  | false =>
    show a ∈ l.filter (fun a => !kind a) ↔ _
    rw [List.mem_filter, Bool.not_eq_true']
  | true =>
    show a ∈ l.filter kind ↔ _
    rw [List.mem_filter]

section Members

variable {ref snapshot : DirectorySnapshot} {p q : Path} {isDir : Bool}

theorem mem_created_diff_iff (hr : ref.Inv) (hs : snapshot.Inv) :
    p ∈ (diff false ref snapshot).created isDir ↔
      (∃ id, snapshot.inode p = some id ∧ ∀ q, ref.inode q ≠ some id) ∧
        snapshot.isdir p = isDir := by
  rw [← mem_created_iff hr hs]
  exact mem_kind_iff (created false ref snapshot) snapshot.isdir isDir p

theorem mem_deleted_diff_iff (hr : ref.Inv) (hs : snapshot.Inv) :
    p ∈ (diff false ref snapshot).deleted isDir ↔
      (∃ id, ref.inode p = some id ∧ ∀ q, snapshot.inode q ≠ some id) ∧ ref.isdir p = isDir := by
  rw [← mem_deleted_iff hr hs]
  exact mem_kind_iff (deleted false ref snapshot) ref.isdir isDir p

theorem mem_moved_diff_iff (hr : ref.Inv) (hs : snapshot.Inv) (hunique : snapshot.Unique) :
    (p, q) ∈ (diff false ref snapshot).moved isDir ↔
      (p ≠ q ∧ ∃ id, ref.inode p = some id ∧ snapshot.inode q = some id) ∧
        ref.isdir p = isDir := by
  rw [← mem_moved_iff hr hs hunique]
  exact mem_kind_iff (moved false ref snapshot) (fun m => ref.isdir m.1) isDir (p, q)

theorem mem_modified_diff_iff (hr : ref.Inv) (hs : snapshot.Inv) (hunique : snapshot.Unique) :
    p ∈ (diff false ref snapshot).modified isDir ↔
      (∃ q id, ref.inode p = some id ∧ snapshot.inode q = some id ∧
        differs ref snapshot p q = true) ∧ ref.isdir p = isDir := by
  rw [← mem_modified_iff hr hs hunique]
  exact mem_kind_iff (modified false ref snapshot) ref.isdir isDir p

end Members

/-- **The difference** of two snapshots, of which the later one has no hard links, is what became
of each inode: new, gone, under another path, or with another time or size. -/
theorem diff_iff {recursive : Bool} {before after : Tree} {ref snapshot : DirectorySnapshot}
    (href : takeSnapshot recursive before = .ok ref)
    (hsnapshot : takeSnapshot recursive after = .ok snapshot) (hunique : snapshot.Unique)
    (isDir : Bool) (p q : Path) :
    (p ∈ (diff false ref snapshot).created isDir ↔
        (∃ id, snapshot.inode p = some id ∧ ∀ q, ref.inode q ≠ some id) ∧
          snapshot.isdir p = isDir) ∧
      (p ∈ (diff false ref snapshot).deleted isDir ↔
        (∃ id, ref.inode p = some id ∧ ∀ q, snapshot.inode q ≠ some id) ∧ ref.isdir p = isDir) ∧
      ((p, q) ∈ (diff false ref snapshot).moved isDir ↔
        (p ≠ q ∧ ∃ id, ref.inode p = some id ∧ snapshot.inode q = some id) ∧
          ref.isdir p = isDir) ∧
      (p ∈ (diff false ref snapshot).modified isDir ↔
        (∃ q id, ref.inode p = some id ∧ snapshot.inode q = some id ∧
          differs ref snapshot p q = true) ∧ ref.isdir p = isDir) := by
  have hr := inv_takeSnapshot href
  have hs := inv_takeSnapshot hsnapshot
  exact ⟨mem_created_diff_iff hr hs, mem_deleted_diff_iff hr hs, mem_moved_diff_iff hr hs hunique,
    mem_modified_diff_iff hr hs hunique⟩

/-- A snapshot has no hard links if none of its own paths are. -/
theorem unique_of_mem_paths {s : DirectorySnapshot} (hs : s.Inv)
    (h : ∀ p ∈ s.paths, ∀ q ∈ s.paths, s.inode p = s.inode q → p = q) : s.Unique := by
  intro p q id hp hq
  exact h p ((hs.mem_paths_iff p).mpr ⟨id, hp⟩) q ((hs.mem_paths_iff q).mpr ⟨id, hq⟩)
    (hp.trans hq.symm)

/-- Two files of the given inodes. -/
def twoFiles (a b : Nat) : Tree where
  node := .listed ⟨1, 0, true, 0, 0⟩
    (.cons "a" (.unlisted ⟨a, 0, false, 0, 0⟩ .gone)
      (.cons "b" (.unlisted ⟨b, 0, false, 0, 0⟩ .gone) .nil))
  distinct := ⟨show "a" ∉ ["b"] by decide, trivial, List.not_mem_nil, trivial, trivial⟩

theorem diff_twoFiles :
    ∃ ref snapshot, takeSnapshot true (twoFiles 2 3) = .ok ref ∧
      takeSnapshot true (twoFiles 3 2) = .ok snapshot ∧
      (["a"], ["b"]) ∈ (diff false ref snapshot).moved false := by
  obtain ⟨ref, href⟩ : ∃ ref, takeSnapshot true (twoFiles 2 3) = .ok ref := ⟨_, rfl⟩
  obtain ⟨snapshot, hsnapshot⟩ : ∃ snapshot, takeSnapshot true (twoFiles 3 2) = .ok snapshot :=
    ⟨_, rfl⟩
  have hunique : snapshot.Unique :=
    unique_of_mem_paths (inv_takeSnapshot hsnapshot) (Except.ok.inj hsnapshot ▸ by decide)
  refine ⟨ref, snapshot, href, hsnapshot, ?_⟩
  refine (diff_iff href hsnapshot hunique false ["a"] ["b"]).2.2.1.mpr ?_
  rw [← Except.ok.inj href, ← Except.ok.inj hsnapshot]
  exact ⟨⟨by decide, (2, 0), rfl, rfl⟩, rfl⟩

end Reloadium.Watchdog.DirSnapshot
