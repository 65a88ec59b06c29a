import Reloadium.Lib.Simulation
import Reloadium.Pkg.CrashConsistency

namespace Reloadium.Pkg

open Reloadium.Lib

/-!
# Pkg — the service that keeps the package installed

Model of `rw.service.Service`, `PackageManager.run` and `InstallTask` as they run concurrently: the
service submits an installation when it is initialized, a job of the scheduler looks every ten
minutes whether another one is needed and submits it, and the background tasks install, one file
operation after the other.  The IDE can be closed and started again at any time, with another
version of the plugin.

The flag `installing` is set by `run`, before the task is submitted, and reset by the task.

* `Service`, `ServiceEvent`, `Service.lts` — the system;
* `Exclusive`, `exclusive_run` — at most one task is there at a time, and the flag tells;
* `Refines`, `refines_run` — the system simulates that of `CrashConsistency`, in which the tasks
  run one after the other;
* `stuck_run` — a task that ends without resetting the flag is the last one of its process.
-/

variable {home : Path}

/-- A background task: submitted, or installing, with `k` of its steps done. -/
inductive InstallTask (home : Path) where
  | submitted
  | installing (f : Fault home) (wheels : List BaseWheel) (k : Nat)

/-- Where the job of the scheduler stands. -/
inductive Check where
  | idle
  /-- `shouldInstall` was true -/
  | needed
  /-- `isInstalling` was false -/
  | free
  /-- `run` has set the flag -/
  | flagged
  deriving DecidableEq, Repr

/-- `Service`, with its package manager, the background tasks and the files. -/
structure Service (home : Path) where
  version : Version
  installing : Bool
  check : Check
  tasks : List (InstallTask home)
  world : World

/-- What happens. -/
inductive ServiceEvent (home : Path) where
  /-- the job goes on by one statement -/
  | check
  /-- the `i`-th task begins; `f` is how it will go -/
  | runTask (i : Nat) (f : Fault home)
  /-- the `i`-th task goes on by one file operation, or ends -/
  | step (i : Nat)
  /-- the `i`-th task is cancelled before it begins -/
  | onCancel (i : Nat)
  /-- the IDE is closed, in an operation that has reached `part`, and starts with a version of the
      plugin -/
  | restart (version : Version) (part : Path → Bool)

namespace Service

variable (releases : Releases) (machine : Machine)

/-- `Service.init` of a new process. -/
def init (version : Version) (world : World) : Service home where
  version := version
  installing := true
  check := .idle
  tasks := [.submitted]
  world := world

/-- `checkIfStillGood` and, at its end, `PackageManager.run`. -/
def checkIfStillGood (s : Service home) : Service home :=
  match s.check with
  | .idle =>
    match shouldInstall (releases.plugin s.version) (.native home) s.world with
    | .ok true => { s with check := .needed }
    -- nothing to do, or an exception
    | _ => s
  | .needed => { s with check := if s.installing then .idle else .free }
  | .free => { s with check := .flagged, installing := true }
  | .flagged => { s with check := .idle, tasks := s.tasks ++ [.submitted] }

/-- The `i`-th task has ended; `installing` is the flag afterwards. -/
def finish (s : Service home) (i : Nat) (installing : Bool) : Service home :=
  { s with tasks := s.tasks.eraseIdx i, installing }

/-- `InstallTask.runTask`, up to the first step of `install`. -/
def runTask (s : Service home) (i : Nat) (f : Fault home) : Service home :=
  match shouldInstall (releases.plugin s.version) (.native home) s.world with
  | .ok true =>
    match getWheels (releases.plugin s.version).content machine with
    | some wheels => { s with tasks := s.tasks.set i (.installing f wheels 0) }
    -- `install` throws
    | none => s.finish i false
  | .ok false => s.finish i false
  -- `shouldInstall` throws, which is not caught
  | .error _ => s.finish i s.installing

/-- The step of a task that has done `k` of them. -/
def stepOf (s : Service home) (f : Fault home) (wheels : List BaseWheel) (k : Nat) : Option Step :=
  (install (releases.plugin s.version) (.native home) f.dirs wheels)[k]?

/-- One file operation of a task, or its end. -/
def stepTask (s : Service home) (i : Nat) (f : Fault home) (wheels : List BaseWheel) (k : Nat) :
    Service home :=
  match s.stepOf releases f wheels k with
  | none => s.finish i false
  | some step =>
    match f.stop with
    | none =>
      { s with
        world := step.effect (.native home) (f.outcome.part step s.world) s.world
        tasks := s.tasks.set i (.installing f wheels (k + 1)) }
    | some (last, part) =>
      if last = k then
        -- the step fails
        { s.finish i false with world := step.effect (.native home) part s.world }
      else
        { s with
          world := step.effect (.native home) (f.outcome.part step s.world) s.world
          tasks := s.tasks.set i (.installing f wheels (k + 1)) }

/-- The files when the IDE is closed in the middle of a step. -/
def closed (s : Service home) (part : Path → Bool) : World :=
  s.tasks.foldl
    (fun w task =>
      match task with
      | .submitted => w
      | .installing f wheels k =>
        match s.stepOf releases f wheels k with
        | none => w
        | some step => step.effect (.native home) part w)
    s.world

/-- One step of the system. -/
def next (s : Service home) : ServiceEvent home → Option (Service home)
  | .check => some (s.checkIfStillGood releases)
  | .runTask i f =>
    match s.tasks[i]? with
    | some .submitted => some (s.runTask releases machine i f)
    | _ => none
  | .step i =>
    match s.tasks[i]? with
    | some (.installing f wheels k) => some (s.stepTask releases i f wheels k)
    | _ => none
  | .onCancel i =>
    match s.tasks[i]? with
    -- `onCancel` tells the listener, and there is none
    | some .submitted => some (s.finish i s.installing)
    | _ => none
  | .restart version part => some (init version (s.closed releases part))

/-- The service, from its first start. -/
def lts (version : Version) (world : World) : Lts (Service home) (ServiceEvent home) where
  init := init version world
  step := next releases machine

/-! ### At most one task -/

/-- The flag and the tasks: one at most, the flag set for it, and the job only between the two when
    no task is there. -/
structure Exclusive (s : Service home) : Prop where
  length : s.tasks.length ≤ 1
  flag : s.tasks ≠ [] → s.installing = true
  free : s.check = .free → s.tasks = [] ∧ s.installing = false
  flagged : s.check = .flagged → s.tasks = [] ∧ s.installing = true

variable {releases machine} {s s' : Service home}

theorem exclusive_init (version : Version) (world : World) :
    Exclusive (init version world : Service home) where
  length := le_rfl
  flag _ := rfl
  free h := by cases h
  flagged h := by cases h

/-- A single task. -/
theorem Exclusive.tasks_eq (h : Exclusive s) {i : Nat} {task : InstallTask home}
    (hi : s.tasks[i]? = some task) : i = 0 ∧ s.tasks = [task] := by
  obtain ⟨hlt, heq⟩ := List.getElem?_eq_some_iff.mp hi
  have hlength := h.length
  obtain rfl : i = 0 := by omega
  obtain ⟨task', htask⟩ := List.length_eq_one_iff.mp (show s.tasks.length = 1 by omega)
  simp only [htask, List.getElem_cons_zero] at heq
  exact ⟨rfl, heq ▸ htask⟩

/-- When there is a task, the job is before or after its decision. -/
theorem Exclusive.check_of_task (h : Exclusive s) {task : InstallTask home}
    (htask : s.tasks = [task]) : s.check ≠ .free ∧ s.check ≠ .flagged := by
  refine ⟨fun hfree => ?_, fun hflagged => ?_⟩
  · rw [(h.free hfree).1] at htask
    cases htask
  · rw [(h.flagged hflagged).1] at htask
    cases htask

/-- The only task is replaced. -/
theorem Exclusive.set (h : Exclusive s) {task task' : InstallTask home} (htask : s.tasks = [task])
    (world : World) : Exclusive { s with world, tasks := s.tasks.set 0 task' } := by
  obtain ⟨hfree, hflagged⟩ := h.check_of_task htask
  have hflag := h.flag (by rw [htask]; exact List.cons_ne_nil _ _)
  refine ⟨?_, fun _ => hflag, fun h' => absurd h' hfree, fun h' => absurd h' hflagged⟩
  show (s.tasks.set 0 task').length ≤ 1
  rw [htask]
  exact le_rfl

/-- The only task ends. -/
theorem Exclusive.finish (h : Exclusive s) {task : InstallTask home} (htask : s.tasks = [task])
    (installing : Bool) (world : World) :
    Exclusive { s.finish 0 installing with world } := by
  obtain ⟨hfree, hflagged⟩ := h.check_of_task htask
  have hnil : (s.finish 0 installing).tasks = [] := by
    rw [Service.finish, htask]
    rfl
  refine ⟨?_, fun hne => absurd hnil hne, fun h' => absurd h' hfree, fun h' => absurd h' hflagged⟩
  show (s.finish 0 installing).tasks.length ≤ 1
  rw [hnil]
  exact Nat.zero_le 1

theorem Exclusive.checkIfStillGood (h : Exclusive s) :
    Exclusive (s.checkIfStillGood releases) := by
  unfold Service.checkIfStillGood
  cases hcheck : s.check with
  | idle =>
    simp only
    split
    · exact ⟨h.length, h.flag, fun h' => (nomatch h'), fun h' => (nomatch h')⟩
    · exact h
  | needed =>
    show Exclusive { s with check := if s.installing then .idle else .free }
    split
    · exact ⟨h.length, h.flag, fun h' => (nomatch h'), fun h' => (nomatch h')⟩
    · next hflag =>
      have hnil : s.tasks = [] := by
        by_contra hne
        exact hflag (h.flag hne)
      exact ⟨h.length, h.flag, fun _ => ⟨hnil, Bool.eq_false_iff.mpr hflag⟩,
        fun h' => (nomatch h')⟩
  | free =>
    have hnil := (h.free hcheck).1
    exact ⟨h.length, fun _ => rfl, fun h' => (nomatch h'), fun _ => ⟨hnil, rfl⟩⟩
  | flagged =>
    obtain ⟨hnil, hflag⟩ := h.flagged hcheck
    refine ⟨?_, fun _ => hflag, fun h' => (nomatch h'), fun h' => (nomatch h')⟩
    show (s.tasks ++ [InstallTask.submitted]).length ≤ 1
    rw [hnil]
    exact le_rfl

theorem Exclusive.runTask (h : Exclusive s) (htask : s.tasks = [.submitted]) (f : Fault home) :
    Exclusive (s.runTask releases machine 0 f) := by
  unfold Service.runTask
  split
  · split
    · exact h.set htask s.world
    · exact h.finish htask false s.world
  · exact h.finish htask false s.world
  · exact h.finish htask s.installing s.world

theorem Exclusive.stepTask (h : Exclusive s) {f : Fault home} {wheels : List BaseWheel} {k : Nat}
    (htask : s.tasks = [.installing f wheels k]) :
    Exclusive (s.stepTask releases 0 f wheels k) := by
  unfold Service.stepTask
  split
  · exact h.finish htask false s.world
  · split
    · exact h.set htask _
    · split
      · exact h.finish htask false _
      · exact h.set htask _

/-- **Step lemma.** -/
theorem Exclusive.next (h : Exclusive s) {e : ServiceEvent home}
    (hstep : Service.next releases machine s e = some s') : Exclusive s' := by
  cases e with
  | check =>
    obtain rfl := Option.some.inj hstep
    exact h.checkIfStillGood
  | runTask i f =>
    rw [Service.next] at hstep
    split at hstep
    · next htask =>
      obtain ⟨rfl, htasks⟩ := h.tasks_eq htask
      obtain rfl := Option.some.inj hstep
      exact h.runTask htasks f
    · cases hstep
  | step i =>
    rw [Service.next] at hstep
    split at hstep
    · next f wheels k htask =>
      obtain ⟨rfl, htasks⟩ := h.tasks_eq htask
      obtain rfl := Option.some.inj hstep
      exact h.stepTask htasks
    · cases hstep
  | onCancel i =>
    rw [Service.next] at hstep
    split at hstep
    · next htask =>
      obtain ⟨rfl, htasks⟩ := h.tasks_eq htask
      obtain rfl := Option.some.inj hstep
      exact h.finish htasks s.installing s.world
    · cases hstep
  | restart version part =>
    obtain rfl := Option.some.inj hstep
    exact exclusive_init version (s.closed releases part)

/-- **At most one installation.** In every state that the system reaches, at most one task is
    submitted or installs, the flag is set while one does, and the job submits none then. -/
theorem exclusive_run {version : Version} {world : World} {events : List (ServiceEvent home)}
    (hrun : (lts releases machine version world).run (init version world) events = some s) :
    Exclusive s :=
  Lts.invariant_of_run (fun _ _ _ h hstep => h.next hstep) (exclusive_init version world) hrun

/-! ### The tasks one after the other -/

/-- The files, as those that the tasks so far have left and the steps of the one that is
    installing. -/
def Refines (releases : Releases) (machine : Machine) (s : Service home) (w : World) : Prop :=
  match s.tasks with
  | [.installing f wheels k] =>
    shouldInstall (releases.plugin s.version) (.native home) w = .ok true ∧
      getWheels (releases.plugin s.version).content machine = some wheels ∧
      s.world = runSteps (.native home) f.outcome.part
        ((install (releases.plugin s.version) (.native home) f.dirs wheels).take k) w ∧
      ∀ last part, f.stop = some (last, part) → k ≤ last
  | _ => s.world = w

theorem refines_of_nil {w : World} (h : s.tasks = []) :
    Refines releases machine s w ↔ s.world = w := by
  rw [Refines, h]

theorem refines_of_submitted {w : World} (h : s.tasks = [.submitted]) :
    Refines releases machine s w ↔ s.world = w := by
  rw [Refines, h]

theorem refines_of_installing {w : World} {f : Fault home} {wheels : List BaseWheel} {k : Nat}
    (h : s.tasks = [.installing f wheels k]) :
    Refines releases machine s w ↔
      shouldInstall (releases.plugin s.version) (.native home) w = .ok true ∧
        getWheels (releases.plugin s.version).content machine = some wheels ∧
        s.world = runSteps (.native home) f.outcome.part
          ((install (releases.plugin s.version) (.native home) f.dirs wheels).take k) w ∧
        ∀ last part, f.stop = some (last, part) → k ≤ last := by
  rw [Refines, h]

/-- A step that fails, or that is the last one of the process, after `k` others. -/
theorem run_of_getElem? {f : Fault home} {fs : FileSystem} {steps : List Step} {k : Nat}
    {part : Path → Bool} {step : Step} (hstop : f.stop = some (k, part))
    (hstep : steps[k]? = some step) (w : World) :
    f.run fs steps w = step.effect fs part (runSteps fs f.outcome.part (steps.take k) w) := by
  simp only [Fault.run, hstop, hstep]

/-- A task that has come to its end. -/
theorem run_of_getElem?_none {f : Fault home} {fs : FileSystem} {steps : List Step} {k : Nat}
    (hstep : steps[k]? = none) (hstop : ∀ last part, f.stop = some (last, part) → k ≤ last)
    (w : World) : f.run fs steps w = runSteps fs f.outcome.part (steps.take k) w := by
  have hlength := List.getElem?_eq_none_iff.mp hstep
  rw [List.take_of_length_le hlength]
  cases hcase : f.stop with
  | none => exact Fault.run_of_complete hcase steps
  | some stop =>
    obtain ⟨last, part⟩ := stop
    exact Fault.run_of_le hcase (hlength.trans (hstop last part hcase))

/-- One step more. -/
theorem runSteps_take_succ {fs : FileSystem} {part : Step → World → Path → Bool}
    {steps : List Step} {k : Nat} {step : Step} (hstep : steps[k]? = some step) (w : World) :
    runSteps fs part (steps.take (k + 1)) w =
      step.effect fs (part step (runSteps fs part (steps.take k) w))
        (runSteps fs part (steps.take k) w) := by
  rw [List.take_add_one, hstep, runSteps_append]
  rfl

/-- The task of the sequential system. -/
theorem runTask_of_needed {w₀ w : World} {version : Version} {f : Fault home}
    {wheels : List BaseWheel}
    (hneeded : shouldInstall (releases.plugin version) (.native home) w = .ok true)
    (hwheels : getWheels (releases.plugin version).content machine = some wheels) :
    (Pkg.tasks releases machine home w₀).run w [(version, f)] =
      some (f.run (.native home) (install (releases.plugin version) (.native home) f.dirs wheels)
        w) := by
  rw [Lts.run_singleton]
  show some (Pkg.runTask releases machine version f w) = _
  rw [Pkg.runTask, hneeded, hwheels]

variable {w₀ w : World}

theorem world_checkIfStillGood (s : Service home) :
    (s.checkIfStillGood releases).world = s.world := by
  unfold Service.checkIfStillGood
  cases s.check with
  | idle =>
    simp only
    split <;> rfl
  | _ => rfl

/-- The job changes no file, and no task that is there. -/
theorem Refines.checkIfStillGood (h : Exclusive s) (href : Refines releases machine s w) :
    Refines releases machine (s.checkIfStillGood releases) w := by
  cases hcheck : s.check with
  | flagged =>
    have hnil := (h.flagged hcheck).1
    have htasks : (s.checkIfStillGood releases).tasks = [.submitted] := by
      simp only [Service.checkIfStillGood, hcheck, hnil]
      rfl
    rw [refines_of_submitted htasks, world_checkIfStillGood]
    exact (refines_of_nil hnil).mp href
  | idle =>
    simp only [Service.checkIfStillGood, hcheck]
    split <;> exact href
  | needed =>
    simp only [Service.checkIfStillGood, hcheck]
    exact href
  | free =>
    simp only [Service.checkIfStillGood, hcheck]
    exact href

/-- A task that ends leaves the files as they are. -/
theorem refines_finish {task : InstallTask home} (htask : s.tasks = [task]) (installing : Bool)
    (world : World) : Refines releases machine { s.finish 0 installing with world } world := by
  refine (refines_of_nil ?_).mpr rfl
  show s.tasks.eraseIdx 0 = []
  rw [htask]
  rfl

theorem Refines.runTask (htask : s.tasks = [.submitted]) (href : Refines releases machine s w)
    (f : Fault home) : Refines releases machine (s.runTask releases machine 0 f) w := by
  obtain rfl := (refines_of_submitted htask).mp href
  unfold Service.runTask
  split
  · next hneeded =>
    split
    · next wheels hwheels =>
      have htasks : s.tasks.set 0 (.installing f wheels 0) = [.installing f wheels 0] := by
        rw [htask]
        rfl
      refine (refines_of_installing htasks).mpr ⟨hneeded, hwheels, rfl, ?_⟩
      exact fun _ _ _ => Nat.zero_le _
    · exact refines_finish htask false s.world
  · exact refines_finish htask false s.world
  · exact refines_finish htask s.installing s.world

/-- A file operation after which the task goes on. -/
theorem Refines.advance {f : Fault home} {wheels : List BaseWheel} {k : Nat} {step : Step}
    (htask : s.tasks = [.installing f wheels k]) (href : Refines releases machine s w)
    (hstep : s.stepOf releases f wheels k = some step)
    (hstop : ∀ last part, f.stop = some (last, part) → k ≠ last) :
    Refines releases machine
      { s with
        world := step.effect (.native home) (f.outcome.part step s.world) s.world
        tasks := s.tasks.set 0 (.installing f wheels (k + 1)) } w := by
  obtain ⟨hneeded, hwheels, hworld, hle⟩ := (refines_of_installing htask).mp href
  have htasks : s.tasks.set 0 (.installing f wheels (k + 1)) = [.installing f wheels (k + 1)] := by
    rw [htask]
    rfl
  refine (refines_of_installing htasks).mpr ⟨hneeded, hwheels, ?_, fun last part h => ?_⟩
  · show Step.effect (.native home) step (f.outcome.part step s.world) s.world = _
    rw [runSteps_take_succ hstep, ← hworld]
  · have hk := hle last part h
    have hne := hstop last part h
    omega

/-- One file operation: the task goes on, or it ends and has been a task of the sequential
    system. -/
theorem Refines.stepTask {f : Fault home} {wheels : List BaseWheel} {k : Nat}
    (htask : s.tasks = [.installing f wheels k]) (href : Refines releases machine s w) :
    ∃ as w', (Pkg.tasks releases machine home w₀).run w as = some w' ∧
      Refines releases machine (s.stepTask releases 0 f wheels k) w' := by
  obtain ⟨hneeded, hwheels, hworld, hle⟩ := (refines_of_installing htask).mp href
  unfold Service.stepTask
  split
  · next hnone =>
    refine ⟨[(s.version, f)], _, runTask_of_needed hneeded hwheels, ?_⟩
    rw [run_of_getElem?_none hnone hle, ← hworld]
    exact refines_finish htask false s.world
  · next step hstep =>
    split
    · next hstop =>
      refine ⟨[], w, rfl, href.advance htask hstep fun last part h => ?_⟩
      rw [hstop] at h
      cases h
    · next last part hstop =>
      split
      · next hlast =>
        subst hlast
        refine ⟨[(s.version, f)], _, runTask_of_needed hneeded hwheels, ?_⟩
        rw [run_of_getElem? hstop hstep, ← hworld]
        exact refines_finish htask false _
      · next hlast =>
        refine ⟨[], w, rfl, href.advance htask hstep fun last' part' h => ?_⟩
        rw [hstop, Option.some.injEq, Prod.mk.injEq] at h
        exact fun heq => hlast (h.1.trans (Eq.symm heq))

/-- When the IDE is closed, the task that installs has been one that is interrupted. -/
theorem Refines.closed (h : Exclusive s) (href : Refines releases machine s w)
    (part : Path → Bool) :
    ∃ as, (Pkg.tasks releases machine home w₀).run w as = some (s.closed releases part) := by
  cases htasks : s.tasks with
  | nil =>
    refine ⟨[], ?_⟩
    rw [Lts.run_nil, Service.closed, htasks, ← (refines_of_nil htasks).mp href]
    rfl
  | cons task rest =>
    have hi : s.tasks[0]? = some task := by rw [htasks]; rfl
    have htask := (h.tasks_eq hi).2
    cases task with
    | submitted =>
      refine ⟨[], ?_⟩
      rw [Lts.run_nil, Service.closed, htask, ← (refines_of_submitted htask).mp href]
      rfl
    | installing f wheels k =>
      obtain ⟨hneeded, hwheels, hworld, hle⟩ := (refines_of_installing htask).mp href
      -- the fault of this process
      let f' : Fault home := { f with stop := some (k, part) }
      refine ⟨[(s.version, f')], (runTask_of_needed hneeded hwheels).trans ?_⟩
      rw [Option.some.injEq, Service.closed, htask, List.foldl_cons, List.foldl_nil]
      cases hstep : s.stepOf releases f wheels k with
      | none =>
        have hle' : ∀ last part', f'.stop = some (last, part') → k ≤ last := by
          intro last part' hstop
          obtain ⟨rfl, -⟩ := Prod.mk.inj (Option.some.inj hstop)
          exact le_rfl
        simp only [hstep]
        rw [run_of_getElem?_none hstep hle', hworld]
      | some step =>
        have hstop : f'.stop = some (k, part) := rfl
        simp only [hstep]
        rw [run_of_getElem? hstop hstep, hworld]

/-- **Step lemma.** -/
theorem Refines.next (h : Exclusive s) (href : Refines releases machine s w)
    {e : ServiceEvent home} (hstep : Service.next releases machine s e = some s') :
    ∃ as w', (Pkg.tasks releases machine home w₀).run w as = some w' ∧
      Refines releases machine s' w' := by
  cases e with
  | check =>
    obtain rfl := Option.some.inj hstep
    exact ⟨[], w, rfl, href.checkIfStillGood h⟩
  | runTask i f =>
    rw [Service.next] at hstep
    split at hstep
    · next htask =>
      obtain ⟨rfl, htasks⟩ := h.tasks_eq htask
      obtain rfl := Option.some.inj hstep
      exact ⟨[], w, rfl, href.runTask htasks f⟩
    · cases hstep
  | step i =>
    rw [Service.next] at hstep
    split at hstep
    · next f wheels k htask =>
      obtain ⟨rfl, htasks⟩ := h.tasks_eq htask
      obtain rfl := Option.some.inj hstep
      exact href.stepTask htasks
    · cases hstep
  | onCancel i =>
    rw [Service.next] at hstep
    split at hstep
    · next htask =>
      obtain ⟨rfl, htasks⟩ := h.tasks_eq htask
      obtain rfl := Option.some.inj hstep
      obtain rfl := (refines_of_submitted htasks).mp href
      exact ⟨[], _, rfl, refines_finish htasks s.installing s.world⟩
    · cases hstep
  | restart version part =>
    obtain rfl := Option.some.inj hstep
    obtain ⟨as, hrun⟩ := href.closed h part
    exact ⟨as, _, hrun, (refines_of_submitted rfl).mpr rfl⟩

/-- **The concurrent system simulates the sequential one.** In every state that the system reaches,
    the files are those that a sequence of tasks, each run alone, has left, changed by the steps
    done so far of the task that is installing, if there is one. -/
theorem refines_run {version : Version} {world : World} {events : List (ServiceEvent home)}
    (hrun : (lts releases machine version world).run (init version world) events = some s) :
    ∃ as w, (Pkg.tasks releases machine home world).run world as = some w ∧
      Refines releases machine s w := by
  have hsim := Lts.simulation (M := lts releases machine version world)
    (A := Pkg.tasks releases machine home world)
    (R := fun s w => Exclusive s ∧ Refines releases machine s w)
    (fun s w e s' h hstep => by
      obtain ⟨as, w', has, href⟩ := h.2.next h.1 hstep
      exact ⟨as, w', has, h.1.next hstep, href⟩)
    ⟨exclusive_init version world, (refines_of_submitted rfl).mpr rfl⟩ hrun
  obtain ⟨as, w, has, -, href⟩ := hsim
  exact ⟨as, w, has, href⟩

/-! ### Tasks that leave the flag set -/

/-- The event ends a task without resetting the flag: it is cancelled before it begins, or reading
    the current version throws. -/
def Aborts (releases : Releases) (s : Service home) : ServiceEvent home → Prop
  | .onCancel _ => True
  | .runTask _ _ =>
    ∃ e, shouldInstall (releases.plugin s.version) (.native home) s.world = .error e
  | _ => False

/-- The event belongs to the process that is running. -/
def SameProcess (_ : Service home) : ServiceEvent home → Prop
  | .restart _ _ => False
  | _ => True

/-- The flag is set and nobody will reset it. -/
structure Stuck (world : World) (s : Service home) : Prop where
  tasks : s.tasks = []
  installing : s.installing = true
  check : s.check ≠ .free ∧ s.check ≠ .flagged
  world : s.world = world

/-- A task that is aborted leaves the service stuck. -/
theorem stuck_of_aborts (h : Exclusive s) {e : ServiceEvent home} (haborts : Aborts releases s e)
    (hstep : next releases machine s e = some s') : Stuck s.world s' := by
  have hfinish : ∀ i, s.tasks[i]? = some .submitted →
      Stuck s.world (s.finish i s.installing) := by
    intro i hi
    obtain ⟨rfl, htask⟩ := h.tasks_eq hi
    refine ⟨?_, h.flag (by rw [htask]; exact List.cons_ne_nil _ _), h.check_of_task htask, rfl⟩
    show s.tasks.eraseIdx 0 = []
    rw [htask]
    rfl
  cases e with
  | onCancel i =>
    rw [next] at hstep
    split at hstep
    · next hi =>
      obtain rfl := Option.some.inj hstep
      exact hfinish i hi
    · cases hstep
  | runTask i f =>
    obtain ⟨exc, hexc⟩ := haborts
    rw [next] at hstep
    split at hstep
    · next hi =>
      obtain rfl := Option.some.inj hstep
      rw [Service.runTask, hexc]
      exact hfinish i hi
    · cases hstep
  | _ => cases haborts

/-- **Step lemma.** -/
theorem Stuck.next {world : World} (h : Stuck world s) {e : ServiceEvent home}
    (hsame : SameProcess s e) (hstep : Service.next releases machine s e = some s') :
    Stuck world s' := by
  have hnone : ∀ i : Nat, s.tasks[i]? = none := by
    intro i
    rw [h.tasks]
    rfl
  cases e with
  | check =>
    obtain rfl := Option.some.inj hstep
    unfold Service.checkIfStillGood
    cases hcheck : s.check with
    | idle =>
      simp only
      split
      · exact ⟨h.tasks, h.installing, ⟨fun h' => (nomatch h'), fun h' => (nomatch h')⟩,
          h.world⟩
      · exact h
    | needed =>
      show Stuck world { s with check := if s.installing then .idle else .free }
      rw [if_pos h.installing]
      exact ⟨h.tasks, h.installing, ⟨fun h' => (nomatch h'), fun h' => (nomatch h')⟩,
        h.world⟩
    | free => exact absurd hcheck h.check.1
    | flagged => exact absurd hcheck h.check.2
  | restart version part => cases hsame
  | runTask i f =>
    rw [Service.next, hnone] at hstep
    cases hstep
  | step i =>
    rw [Service.next, hnone] at hstep
    cases hstep
  | onCancel i =>
    rw [Service.next, hnone] at hstep
    cases hstep

/-- **No installation after an aborted one.** Once a task has been cancelled before it began, or
    has failed to read the current version, the process neither submits another one nor changes a
    file, whatever happens until the IDE is started again. -/
theorem stuck_run {version : Version} {world : World} {events events' : List (ServiceEvent home)}
    (hrun : (lts releases machine version world).run (init version world) events = some s)
    {e : ServiceEvent home} (haborts : Aborts releases s e)
    (hsame : ∀ e' ∈ events', SameProcess s e') {s'' : Service home}
    (hrun' : (lts releases machine version world).run s (e :: events') = some s'') :
    s''.tasks = [] ∧ s''.installing = true ∧ s''.world = s.world := by
  obtain ⟨s', hstep, hrest⟩ := Lts.run_cons_eq_some.mp hrun'
  have hstuck : Stuck s.world s' := stuck_of_aborts (exclusive_run hrun) haborts hstep
  have hmeets : (lts releases machine version world).Meets SameProcess s' events' :=
    Lts.meets_of_mem (fun e' he' _ => hsame e' he') s'
  have hend : Stuck s.world s'' :=
    Lts.invariant_of_meets (fun _ _ _ h hC hstep => h.next hC hstep) hstuck hmeets hrest
  exact ⟨hend.tasks, hend.installing, hend.world⟩

/-! ### An installation -/

/-- The service starts on a machine without files, and its job runs beside the task. -/
def linuxEvents : List (ServiceEvent ["root".toList]) :=
  [.check, .runTask 0 (linuxRun none), .check, .step 0, .step 0]

theorem exclusive_linuxEvents :
    ∃ s, (lts linuxReleases linuxMachine v1_2_0 emptyWorld).run (init v1_2_0 emptyWorld)
        linuxEvents = some s ∧ Exclusive s :=
  ⟨_, rfl, @exclusive_run ["root".toList] linuxReleases linuxMachine _ v1_2_0 emptyWorld linuxEvents
    rfl⟩

theorem refines_linuxEvents :
    ∃ s, (lts linuxReleases linuxMachine v1_2_0 emptyWorld).run (init v1_2_0 emptyWorld)
        linuxEvents = some s ∧
      ∃ as w, (Pkg.tasks linuxReleases linuxMachine ["root".toList] emptyWorld).run emptyWorld as =
        some w ∧ Refines linuxReleases linuxMachine s w :=
  ⟨_, rfl, @refines_run ["root".toList] linuxReleases linuxMachine _ v1_2_0 emptyWorld linuxEvents
    rfl⟩

/-- The first task is cancelled, and the job looks in vain. -/
theorem stuck_linuxEvents :
    ∃ s'' : Service ["root".toList],
      (lts linuxReleases linuxMachine v1_2_0 emptyWorld).run (init v1_2_0 emptyWorld)
        [.onCancel 0, .check, .check, .check] = some s'' ∧
      s''.tasks = [] ∧ s''.installing = true ∧ s''.world = emptyWorld := by
  refine ⟨_, rfl, ?_⟩
  refine @stuck_run ["root".toList] linuxReleases linuxMachine _ v1_2_0 emptyWorld []
    [.check, .check, .check] rfl (.onCancel 0) trivial ?_ _ rfl
  intro e he
  simp only [List.mem_cons, List.not_mem_nil, or_false, or_self] at he
  rw [he]
  trivial

end Service

end Reloadium.Pkg
