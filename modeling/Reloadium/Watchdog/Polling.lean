import Reloadium.Watchdog.DirSnapshot

namespace Reloadium.Watchdog.DirSnapshot

open Lib

/-!
# The polling emitter

Model of `PollingEmitter`: at each poll it takes a snapshot and queues what has changed since the
one before; when none can be taken it reports the watched directory as deleted, and stops.

* `applyBatch` — what a listener makes of the events of one poll, taken together;
* `mem_applyBatch_iff` — one poll: from the paths of one snapshot to those of the next;
* `view_run` — **what a listener has seen** after any polls are the paths that the emitter saw last.

The events of a poll cannot be taken one after another: two files that have changed places would
leave one.
-/

/-- `isDirectory` tells the classes for directories from those for files. -/
inductive FileSystemEvent
  | deleted (isDirectory : Bool) (srcPath : Path)
  | modified (isDirectory : Bool) (srcPath : Path)
  | created (isDirectory : Bool) (srcPath : Path)
  | moved (isDirectory : Bool) (srcPath destPath : Path)
deriving DecidableEq

structure PollingEmitter where
  recursive : Bool
  snapshot : DirectorySnapshot
  stopped : Bool

/-- `on_thread_start` -/
def PollingEmitter.start (recursive : Bool) (tree : Tree) : Except OSError PollingEmitter :=
  (takeSnapshot recursive tree).map fun snapshot => ⟨recursive, snapshot, false⟩

/-- The events of one kind, in the order in which they are queued. -/
def DirectorySnapshotDiff.events (d : DirectorySnapshotDiff) (isDirectory : Bool) :
    List FileSystemEvent :=
  (d.deleted isDirectory).map (.deleted isDirectory) ++
    (d.modified isDirectory).map (.modified isDirectory) ++
    (d.created isDirectory).map (.created isDirectory) ++
    (d.moved isDirectory).map fun m => .moved isDirectory m.1 m.2

/-- `queue_events`, when the path of the watch is or is not there: the events it queues. -/
def PollingEmitter.queueEvents (e : PollingEmitter) (tree : Option Tree) :
    PollingEmitter × List FileSystemEvent :=
  if e.stopped then (e, [])
  else
    match tree.elim (.error .gone) (takeSnapshot e.recursive) with
    | .error _ => ({ e with stopped := true }, [.deleted true []])
    | .ok newSnapshot =>
      let events := diff false e.snapshot newSnapshot
      ({ e with snapshot := newSnapshot }, events.events false ++ events.events true)

/-- The events of some polls, poll by poll. -/
def PollingEmitter.run (e : PollingEmitter) : List (Option Tree) →
    PollingEmitter × List (List FileSystemEvent)
  | [] => (e, [])
  | tree :: polls =>
    let (e', batch) := e.queueEvents tree
    let (e'', batches) := e'.run polls
    (e'', batch :: batches)

/-! ### A listener -/

/-- The path that is no longer there. -/
def FileSystemEvent.source : FileSystemEvent → Option Path
  | .deleted _ srcPath => some srcPath
  | .moved _ srcPath _ => some srcPath
  | _ => none

/-- The path that is there now. -/
def FileSystemEvent.target : FileSystemEvent → Option Path
  | .created _ srcPath => some srcPath
  | .moved _ _ destPath => some destPath
  | _ => none

/-- What a listener makes of the events of one poll. -/
def applyBatch (view : List Path) (batch : List FileSystemEvent) : List Path :=
  view.filter (fun p => !(batch.filterMap FileSystemEvent.source).contains p) ++
    batch.filterMap FileSystemEvent.target

theorem mem_applyBatch_append_iff {view : List Path} {batch batch' : List FileSystemEvent}
    {p : Path} :
    p ∈ applyBatch view (batch ++ batch') ↔
      (p ∈ view ∧ p ∉ batch.filterMap FileSystemEvent.source ∧
          p ∉ batch'.filterMap FileSystemEvent.source) ∨
        p ∈ batch.filterMap FileSystemEvent.target ∨
        p ∈ batch'.filterMap FileSystemEvent.target := by
  rw [applyBatch, List.mem_append, List.mem_filter, Bool.not_eq_true', ← Bool.not_eq_true,
    List.contains_iff_mem, List.filterMap_append, List.filterMap_append, List.mem_append,
    List.mem_append, not_or]

section Poll

variable {d : DirectorySnapshotDiff} {isDirectory : Bool} {p : Path}

theorem mem_sources_iff :
    p ∈ (d.events isDirectory).filterMap FileSystemEvent.source ↔
      p ∈ d.deleted isDirectory ∨ ∃ q, (p, q) ∈ d.moved isDirectory := by
  rw [DirectorySnapshotDiff.events]
  simp [FileSystemEvent.source]

theorem mem_targets_iff :
    p ∈ (d.events isDirectory).filterMap FileSystemEvent.target ↔
      p ∈ d.created isDirectory ∨ ∃ q, (q, p) ∈ d.moved isDirectory := by
  rw [DirectorySnapshotDiff.events]
  simp [FileSystemEvent.target]

end Poll

/-! ### One poll -/

section Poll

variable {ref snapshot : DirectorySnapshot} {p : Path}

/-- The events of a poll. -/
def batchOf (ref snapshot : DirectorySnapshot) : List FileSystemEvent :=
  (diff false ref snapshot).events false ++ (diff false ref snapshot).events true

/-- A path is a source when its inode is no longer there. -/
theorem exists_mem_sources_iff (hr : ref.Inv) (hs : snapshot.Inv) (hunique : snapshot.Unique) :
    (∃ isDirectory, p ∈ ((diff false ref snapshot).events isDirectory).filterMap
        FileSystemEvent.source) ↔
      ∃ id, ref.inode p = some id ∧ snapshot.inode p ≠ some id := by
  constructor
  · rintro ⟨isDirectory, h⟩
    rcases mem_sources_iff.mp h with h | ⟨q, h⟩
    · obtain ⟨⟨id, hp, hgone⟩, -⟩ := (mem_deleted_diff_iff hr hs).mp h
      exact ⟨id, hp, hgone p⟩
    · obtain ⟨⟨hne, id, hp, hq⟩, -⟩ := (mem_moved_diff_iff hr hs hunique).mp h
      exact ⟨id, hp, fun hp' => hne (hunique p q id hp' hq)⟩
  · rintro ⟨id, hp, hne⟩
    refine ⟨ref.isdir p, mem_sources_iff.mpr ?_⟩
    by_cases hgone : ∀ q, snapshot.inode q ≠ some id
    · exact Or.inl ((mem_deleted_diff_iff hr hs).mpr ⟨⟨id, hp, hgone⟩, rfl⟩)
    · obtain ⟨q, hq⟩ := not_forall_not.mp hgone
      have hpq : p ≠ q := by
        rintro rfl
        exact hne hq
      exact Or.inr ⟨q, (mem_moved_diff_iff hr hs hunique).mpr ⟨⟨hpq, id, hp, hq⟩, rfl⟩⟩

theorem inode_of_mem_targets (hr : ref.Inv) (hs : snapshot.Inv) (hunique : snapshot.Unique)
    {isDirectory : Bool} (h : p ∈ ((diff false ref snapshot).events isDirectory).filterMap
      FileSystemEvent.target) : ∃ id, snapshot.inode p = some id := by
  rcases mem_targets_iff.mp h with h | ⟨q, h⟩
  · obtain ⟨⟨id, hp, -⟩, -⟩ := (mem_created_diff_iff hr hs).mp h
    exact ⟨id, hp⟩
  · obtain ⟨⟨-, id, -, hp⟩, -⟩ := (mem_moved_diff_iff hr hs hunique).mp h
    exact ⟨id, hp⟩

/-- A path is a target when its inode was not there. -/
theorem exists_mem_targets (hr : ref.Inv) (hs : snapshot.Inv) (hunique : snapshot.Unique)
    {id : Nat × Nat} (hp : snapshot.inode p = some id) (hne : ref.inode p ≠ some id) :
    ∃ isDirectory, p ∈ ((diff false ref snapshot).events isDirectory).filterMap
      FileSystemEvent.target := by
  by_cases hnew : ∀ q, ref.inode q ≠ some id
  · exact ⟨snapshot.isdir p, mem_targets_iff.mpr
      (Or.inl ((mem_created_diff_iff hr hs).mpr ⟨⟨id, hp, hnew⟩, rfl⟩))⟩
  · obtain ⟨q, hq⟩ := not_forall_not.mp hnew
    have hqp : q ≠ p := by
      rintro rfl
      exact hne hq
    exact ⟨ref.isdir q, mem_targets_iff.mpr
      (Or.inr ⟨q, (mem_moved_diff_iff hr hs hunique).mpr ⟨⟨hqp, id, hq, hp⟩, rfl⟩⟩)⟩

/-- **One poll** takes a listener from the paths of one snapshot to those of the next. -/
theorem mem_applyBatch_iff (hr : ref.Inv) (hs : snapshot.Inv) (hunique : snapshot.Unique)
    {view : List Path} (hview : ∀ p, p ∈ view ↔ p ∈ ref.paths) :
    p ∈ applyBatch view (batchOf ref snapshot) ↔ p ∈ snapshot.paths := by
  rw [batchOf, mem_applyBatch_append_iff, hview, hs.mem_paths_iff, ← not_or, ← Bool.exists_bool
    (p := fun isDirectory => p ∈ ((diff false ref snapshot).events isDirectory).filterMap
      FileSystemEvent.source), ← Bool.exists_bool
    (p := fun isDirectory => p ∈ ((diff false ref snapshot).events isDirectory).filterMap
      FileSystemEvent.target), exists_mem_sources_iff hr hs hunique, hr.mem_paths_iff]
  constructor
  · rintro (⟨⟨id, hp⟩, hkept⟩ | ⟨isDirectory, h⟩)
    · exact ⟨id, by_contra fun hne => hkept ⟨id, hp, hne⟩⟩
    · exact inode_of_mem_targets hr hs hunique h
  · rintro ⟨id, hp⟩
    by_cases hsame : ref.inode p = some id
    · refine Or.inl ⟨⟨id, hsame⟩, ?_⟩
      rintro ⟨id', hp', hne⟩
      rw [hsame] at hp'
      exact hne (hp' ▸ hp)
    · exact Or.inr (exists_mem_targets hr hs hunique hp hsame)

end Poll

/-! ### Any polls -/

/-- What a listener has seen: the paths of the last snapshot, and after the end not the watched
directory itself. -/
def Seen (e : PollingEmitter) (view : List Path) : Prop :=
  ∀ p, p ∈ view ↔ p ∈ e.snapshot.paths ∧ (e.stopped = true → p ≠ [])

theorem recursive_queueEvents (e : PollingEmitter) (tree : Option Tree) :
    (e.queueEvents tree).1.recursive = e.recursive := by
  rw [PollingEmitter.queueEvents]
  split
  · rfl
  split
  · rfl
  · rfl

/-- One more poll. -/
theorem seen_queueEvents {e : PollingEmitter} {view : List Path} {tree : Option Tree}
    (hsnapshot : e.snapshot.Inv) (hseen : Seen e view)
    (hunique : ∀ t ∈ tree, ∀ s, takeSnapshot e.recursive t = .ok s → s.Unique) :
    (e.queueEvents tree).1.snapshot.Inv ∧
      Seen (e.queueEvents tree).1 (applyBatch view (e.queueEvents tree).2) := by
  rw [PollingEmitter.queueEvents]
  split
  case isTrue hstopped =>
    refine ⟨hsnapshot, fun p => ?_⟩
    rw [applyBatch, ← hseen p]
    simp
  case isFalse hrunning =>
    have hview (p : Path) : p ∈ view ↔ p ∈ e.snapshot.paths := by
      rw [hseen p]
      exact and_iff_left fun h => absurd h hrunning
    split
    case h_1 error _ =>
      refine ⟨hsnapshot, fun p => ?_⟩
      rw [applyBatch, ← hview p]
      simp [FileSystemEvent.source, FileSystemEvent.target]
    case h_2 newSnapshot htake =>
      cases tree with
      | none => exact nomatch htake
      | some t =>
        have hnew := inv_takeSnapshot htake
        refine ⟨hnew, fun p => ?_⟩
        refine (mem_applyBatch_iff hsnapshot hnew (hunique t rfl newSnapshot htake) hview).trans ?_
        exact (and_iff_left fun h => absurd h hrunning).symm

theorem seen_run {e : PollingEmitter} {view : List Path} {polls : List (Option Tree)}
    (hsnapshot : e.snapshot.Inv) (hseen : Seen e view)
    (hunique : ∀ t, some t ∈ polls → ∀ s, takeSnapshot e.recursive t = .ok s → s.Unique) :
    Seen (e.run polls).1 ((e.run polls).2.foldl applyBatch view) := by
  induction polls generalizing e view with
  | nil => exact hseen
  | cons tree polls ih =>
    obtain ⟨hsnapshot', hseen'⟩ := seen_queueEvents hsnapshot hseen fun t ht =>
      hunique t (Option.mem_def.mp ht ▸ List.mem_cons_self)
    show Seen ((e.queueEvents tree).1.run polls).1
      (((e.queueEvents tree).1.run polls).2.foldl applyBatch
        (applyBatch view (e.queueEvents tree).2))
    apply ih hsnapshot' hseen'
    intro t ht s hs
    rw [recursive_queueEvents] at hs
    exact hunique t (List.mem_cons_of_mem _ ht) s hs

/-- **What a listener has seen**, after any polls of trees without hard links, are the paths that
the emitter saw last. -/
theorem view_run {recursive : Bool} {tree : Tree} {e : PollingEmitter}
    (h : PollingEmitter.start recursive tree = .ok e) (polls : List (Option Tree))
    (hunique : ∀ t, some t ∈ polls → ∀ s, takeSnapshot recursive t = .ok s → s.Unique)
    (p : Path) :
    p ∈ (e.run polls).2.foldl applyBatch e.snapshot.paths ↔
      p ∈ (e.run polls).1.snapshot.paths ∧ ((e.run polls).1.stopped = true → p ≠ []) := by
  obtain ⟨snapshot, htake, rfl⟩ := map_eq_ok_iff.mp h
  refine seen_run (inv_takeSnapshot htake) (fun p => ?_) hunique p
  exact (and_iff_left fun h => absurd h Bool.false_ne_true).symm

theorem view_twoFiles :
    ∃ e, PollingEmitter.start true (twoFiles 2 3) = .ok e ∧
      ["a"] ∈ (e.run [some (twoFiles 3 2)]).2.foldl applyBatch e.snapshot.paths := by
  obtain ⟨e, hstart⟩ : ∃ e, PollingEmitter.start true (twoFiles 2 3) = .ok e := ⟨_, rfl⟩
  refine ⟨e, hstart, (view_run hstart _ (fun t ht s hs => ?_) ["a"]).mpr ?_⟩
  · obtain rfl := Option.some.inj (List.mem_singleton.mp ht)
    exact unique_of_mem_paths (inv_takeSnapshot hs) (Except.ok.inj hs ▸ by decide)
  · rw [← Except.ok.inj hstart]
    exact ⟨by decide, fun h => nomatch h⟩

end Reloadium.Watchdog.DirSnapshot
