import Reloadium.Frames.ThreadErrors
import Reloadium.Lib.Since

namespace Reloadium.Frames

open Reloadium.Lib

/-!
# Frames — the error that is shown and the selected thread

`onThreadChanged` reconciles the errors with the thread it is told, unless it was told the
same thread before.  What was raised, shown or hidden between two notifications of one
thread is then left as it is.

* `hasError_iff`, `selected_iff` — the map and the remembered thread, from the history;
* `shownBeside_iff`, `hiddenSince_iff` — the errors that are shown beside the selected
  thread's, and when the selected thread's is not;
* `showsOnly_iff` — the exact condition on the operations before a notification for its
  thread's error to be the one shown.
-/

/-! ### Histories -/

/-- The operation raises an error of thread `k`. -/
def ThreadOp.Raises (k : String) : ThreadOp → Prop
  | .onThreadError event => event.file ≠ none ∧ event.threadId = k
  | _ => False

/-- The operation notifies no thread but `t`. -/
def ThreadOp.KeepsThread (t : String) : ThreadOp → Prop
  | .onThreadChanged threadId => threadId = some t
  | _ => True

/-- Thread `k` has an error: one was raised and not cleared since. -/
def HasError (k : String) (ops : List ThreadOp) : Prop :=
  Since (· ≠ .onThreadErrorClear k) (fun _ op => op.Raises k) ops

/-- Thread `t` is the one notified last. -/
def Selected (t : String) (ops : List ThreadOp) : Prop :=
  Since (ThreadOp.KeepsThread t) (fun _ op => op = .onThreadChanged (some t)) ops

/-- The operation shows an error of thread `k`: it raises one, or it activates the one there
    is. -/
def Shows (k : String) (before : List ThreadOp) (op : ThreadOp) : Prop :=
  op.Raises k ∨ (op = .activate (some k) ∧ HasError k before)

/-- While `t` was selected the error of `k` was shown, and it has not been cleared or
    deactivated since. -/
def ShownBeside (t k : String) (ops : List ThreadOp) : Prop :=
  Since (fun op => op.KeepsThread t ∧ op ≠ .onThreadErrorClear k ∧ op ≠ .deactivate)
    (fun before op => Selected t before ∧ Shows k before op) ops

/-- While `t` was selected the errors were deactivated, and none of `t` was raised or
    activated since. -/
def HiddenSince (t : String) (ops : List ThreadOp) : Prop :=
  Since (fun op => op.KeepsThread t ∧ ¬ op.Raises t ∧ op ≠ .activate (some t))
    (fun before op => Selected t before ∧ op = .deactivate) ops

namespace ThreadErrorManager

/-- Of the errors of the map, those of the thread `t` are active and no other. -/
def ShowsOnly (m : ThreadErrorManager) (t : Option String) : Prop :=
  ∀ k te, m.errorOf k = some te → (te.active = true ↔ some k = t)

theorem showsOnly_iff_status {m : ThreadErrorManager} {t : Option String} :
    m.ShowsOnly t ↔ ∀ k active, m.status k = some active → (active = true ↔ some k = t) := by
  apply Iff.intro
  · intro h k active hk
    obtain ⟨te, hte, rfl⟩ := Option.map_eq_some_iff.mp hk
    exact h k te hte
  · intro h k te hte
    exact h k te.active (Option.map_eq_some_iff.mpr ⟨te, hte, rfl⟩)

end ThreadErrorManager

open ThreadErrorManager

variable {ops : List ThreadOp} {op : ThreadOp} {t k : String}

/-! ### What an operation does to one thread -/

variable {last : Option String} {s : PMap String Bool}

theorem effect_of_raises (h : op.Raises k) : op.effect last s k = some true := by
  cases op with
  | onThreadError event =>
    obtain ⟨hfile, rfl⟩ := h
    rw [ThreadOp.effect, if_neg hfile, PMap.put_self]
  | onThreadErrorClear threadId => cases h
  | onThreadChanged threadId => cases h
  | activate activeThread => cases h
  | deactivate => cases h

theorem effect_of_not_raises {event : ThreadErrorEvent}
    (h : ¬ (ThreadOp.onThreadError event).Raises k) :
    (ThreadOp.onThreadError event).effect last s k = s k := by
  rw [ThreadOp.effect]
  split
  · rfl
  · next hfile => exact PMap.put_of_ne _ _ fun hk => h ⟨hfile, hk.symm⟩

theorem effect_clear (threadId : String) :
    (ThreadOp.onThreadErrorClear threadId).effect last s k =
      if k = threadId then none else s k := PMap.remove_apply ..

theorem effect_activate (activeThread : Option String) :
    (ThreadOp.activate activeThread).effect last s k =
      (s k).map fun active => active || decide (some k = activeThread) := rfl

theorem effect_deactivate : ThreadOp.deactivate.effect last s k = (s k).map fun _ => false := rfl

/-! ### The map and the remembered thread -/

theorem status_append_singleton (ops : List ThreadOp) (op : ThreadOp) :
    (afterOps (ops ++ [op])).status =
      op.effect (afterOps ops).lastThreadId (afterOps ops).status := by
  rw [afterOps_append_singleton, status_step (keyed_afterOps ops)]

theorem status_nil (k : String) : (afterOps []).status k = none := rfl

/-- The map binds the threads that have an error. -/
theorem hasError_iff (ops : List ThreadOp) (k : String) :
    HasError k ops ↔ ((afterOps ops).status k).isSome := by
  induction ops using List.reverseRecOn with
  | nil => simp [HasError, status_nil]
  | append_singleton ops op ih =>
    rw [status_append_singleton, HasError, since_append_singleton, ← HasError, ih]
    cases op with
    | onThreadError event =>
      by_cases hraises : (ThreadOp.onThreadError event).Raises k
      · simp [effect_of_raises hraises, hraises]
      · simp [effect_of_not_raises hraises, hraises]
    | onThreadErrorClear threadId =>
      rw [effect_clear]
      by_cases hk : k = threadId
      · simp [ThreadOp.Raises, hk]
      · simp [ThreadOp.Raises, hk, Ne.symm hk]
    | onThreadChanged threadId => simp [ThreadOp.Raises, ThreadOp.effect]
    | activate activeThread => simp [ThreadOp.Raises, ThreadOp.effect]
    | deactivate => simp [ThreadOp.Raises, ThreadOp.effect]

/-- The manager remembers the thread notified last. -/
theorem selected_iff (ops : List ThreadOp) (t : String) :
    Selected t ops ↔ (afterOps ops).lastThreadId = some t := by
  induction ops using List.reverseRecOn with
  | nil => simp [Selected, afterOps, new]
  | append_singleton ops op ih =>
    rw [afterOps_append_singleton, lastThreadId_step, Selected, since_append_singleton,
      ← Selected, ih]
    cases op with
    | onThreadChanged threadId => simp [ThreadOp.KeepsThread]
    | onThreadError event => simp [ThreadOp.KeepsThread]
    | onThreadErrorClear threadId => simp [ThreadOp.KeepsThread]
    | activate activeThread => simp [ThreadOp.KeepsThread]
    | deactivate => simp [ThreadOp.KeepsThread]

/-! ### What is shown while a thread is selected -/

/-- A thread stays selected until another one is notified. -/
theorem Selected.append_singleton (hsel : Selected t ops) (hop : op.KeepsThread t) :
    Selected t (ops ++ [op]) := (since_append_singleton ops op).mpr (Or.inr ⟨hsel, hop⟩)

theorem Shows.keepsThread (h : Shows k ops op) : op.KeepsThread t := by
  cases op with
  | onThreadChanged threadId => simp [Shows, ThreadOp.Raises] at h
  | onThreadError event => trivial
  | onThreadErrorClear threadId => trivial
  | activate activeThread => trivial
  | deactivate => trivial

/-- An error is shown beside `t`'s only while `t` is selected. -/
theorem ShownBeside.selected (h : ShownBeside t k ops) : Selected t ops := by
  refine since_induction (fun ops op hshown => ?_) (fun ops op hsel hkeeps => ?_) h
  · exact hshown.1.append_singleton hshown.2.keepsThread
  · exact hsel.append_singleton hkeeps.1

theorem HiddenSince.selected (h : HiddenSince t ops) : Selected t ops := by
  refine since_induction (fun ops op hhidden => ?_) (fun ops op hsel hkeeps => ?_) h
  · obtain ⟨hsel, rfl⟩ := hhidden
    exact hsel.append_singleton trivial
  · exact hsel.append_singleton hkeeps.1

theorem Selected.of_append_singleton (hsel : Selected t (ops ++ [op]))
    (hop : ∀ threadId, op ≠ .onThreadChanged threadId) : Selected t ops := by
  rcases (since_append_singleton ops op).mp hsel with heq | ⟨hsel, -⟩
  · exact absurd heq (hop _)
  · exact hsel

/-- The selected thread is the one of the last notification. -/
theorem Selected.eq_of_changed {threadId : Option String}
    (hsel : Selected t (ops ++ [.onThreadChanged threadId])) : threadId = some t := by
  rcases (since_append_singleton ops _).mp hsel with heq | ⟨-, hkeeps⟩
  · exact ThreadOp.onThreadChanged.inj heq
  · exact hkeeps

/-- A notification of the thread that is selected changes no status. -/
theorem effect_of_selected (hsel : Selected t ops) :
    (ThreadOp.onThreadChanged (some t)).effect (afterOps ops).lastThreadId (afterOps ops).status =
      (afterOps ops).status := by
  rw [(selected_iff ops t).mp hsel]
  funext k
  simp [ThreadOp.effect, ThreadOp.flag]

/-- A notification of another thread reconciles all statuses. -/
theorem effect_of_not_selected (hsel : ¬ Selected t ops) (k : String) :
    (ThreadOp.onThreadChanged (some t)).effect (afterOps ops).lastThreadId (afterOps ops).status k =
      ((afterOps ops).status k).map fun _ => decide (k = t) := by
  have hlast := mt (selected_iff ops t).mpr hsel
  simp [ThreadOp.effect, ThreadOp.flag, hlast]

/-- While `t` is selected, the active errors of other threads are those shown beside it. -/
theorem shownBeside_iff (hk : k ≠ t) (hsel : Selected t ops) :
    (afterOps ops).status k = some true ↔ ShownBeside t k ops := by
  induction ops using List.reverseRecOn with
  | nil => exact absurd hsel not_since_nil
  | append_singleton ops op ih =>
    rw [status_append_singleton, ShownBeside, since_append_singleton, ← ShownBeside]
    cases op with
    | onThreadChanged threadId =>
      obtain rfl := hsel.eq_of_changed
      by_cases hsel' : Selected t ops
      · rw [effect_of_selected hsel', ih hsel']
        simp [Shows, ThreadOp.Raises, ThreadOp.KeepsThread]
      · -- the notification is the one that selects `t`: nothing is left beside it
        rw [effect_of_not_selected hsel']
        have hbeside : ¬ ShownBeside t k ops := fun h => hsel' h.selected
        simp [hbeside, hsel', hk]
    | onThreadError event =>
      have hsel' := hsel.of_append_singleton (by simp)
      specialize ih hsel'
      by_cases hraises : (ThreadOp.onThreadError event).Raises k
      · simp [effect_of_raises hraises, Shows, hraises, hsel']
      · simp [effect_of_not_raises hraises, Shows, hraises, ih, ThreadOp.KeepsThread]
    | onThreadErrorClear threadId =>
      specialize ih (hsel.of_append_singleton (by simp))
      rw [effect_clear]
      by_cases hid : k = threadId
      · simp [Shows, ThreadOp.Raises, hid]
      · simp [Shows, ThreadOp.Raises, ThreadOp.KeepsThread, hid, Ne.symm hid, ih]
    | activate activeThread =>
      have hsel' := hsel.of_append_singleton (by simp)
      specialize ih hsel'
      rw [effect_activate, ← ih]
      by_cases hid : some k = activeThread
      · subst hid
        -- activating an error shows it whether it was hidden or shown
        cases hstatus : (afterOps ops).status k <;>
          simp [Shows, ThreadOp.Raises, ThreadOp.KeepsThread, hsel', hasError_iff, hstatus]
      · simp [Shows, ThreadOp.Raises, ThreadOp.KeepsThread, hid, Ne.symm hid]
    | deactivate => simp [effect_deactivate, Shows, ThreadOp.Raises]

/-- While `t` is selected, its error is active unless it was hidden since. -/
theorem hiddenSince_iff (hsel : Selected t ops) (hhas : HasError t ops) :
    (afterOps ops).status t = some true ↔ ¬ HiddenSince t ops := by
  induction ops using List.reverseRecOn with
  | nil => exact absurd hsel not_since_nil
  | append_singleton ops op ih =>
    rw [HasError, since_append_singleton, ← HasError] at hhas
    rw [status_append_singleton, HiddenSince, since_append_singleton, ← HiddenSince]
    cases op with
    | onThreadChanged threadId =>
      obtain rfl := hsel.eq_of_changed
      have hhas : HasError t ops := by simpa [ThreadOp.Raises] using hhas
      by_cases hsel' : Selected t ops
      · rw [effect_of_selected hsel', ih hsel' hhas]
        simp [ThreadOp.Raises, ThreadOp.KeepsThread]
      · -- the notification is the one that selects `t`: it activates the error
        obtain ⟨active, hactive⟩ := Option.isSome_iff_exists.mp ((hasError_iff ops t).mp hhas)
        have hhidden : ¬ HiddenSince t ops := fun h => hsel' h.selected
        rw [effect_of_not_selected hsel', hactive]
        simp [hhidden]
    | onThreadError event =>
      have hsel' := hsel.of_append_singleton (by simp)
      by_cases hraises : (ThreadOp.onThreadError event).Raises t
      · simp [effect_of_raises hraises, hraises]
      · have hhas : HasError t ops := by simpa [hraises] using hhas
        simp [effect_of_not_raises hraises, hraises, ih hsel' hhas, ThreadOp.KeepsThread]
    | onThreadErrorClear threadId =>
      have hsel' := hsel.of_append_singleton (by simp)
      obtain ⟨hhas, hid⟩ : HasError t ops ∧ ¬ threadId = t := by
        simpa [ThreadOp.Raises] using hhas
      rw [effect_clear, if_neg (Ne.symm hid), ih hsel' hhas]
      simp [ThreadOp.Raises, ThreadOp.KeepsThread]
    | activate activeThread =>
      have hsel' := hsel.of_append_singleton (by simp)
      have hhas : HasError t ops := by simpa [ThreadOp.Raises] using hhas
      obtain ⟨active, hactive⟩ := Option.isSome_iff_exists.mp ((hasError_iff ops t).mp hhas)
      by_cases hid : activeThread = some t
      · simp [effect_activate, hactive, hid]
      · specialize ih hsel' hhas
        simp [effect_activate, hid, Ne.symm hid, ih, ThreadOp.Raises, ThreadOp.KeepsThread]
    | deactivate =>
      have hsel' := hsel.of_append_singleton (by simp)
      simp [effect_deactivate, hsel']

/-- The statuses of a manager that remembers `t` already. -/
theorem showsOnly_of_selected (hsel : Selected t ops) :
    (∀ k active, (afterOps ops).status k = some active → (active = true ↔ some k = some t)) ↔
      (∀ k ≠ t, ¬ ShownBeside t k ops) ∧ (HasError t ops → ¬ HiddenSince t ops) := by
  apply Iff.intro
  · intro h
    refine ⟨fun k hk hbeside => ?_, fun hhas => ?_⟩
    · have hkt := (h k true ((shownBeside_iff hk hsel).mpr hbeside)).mp rfl
      exact hk (Option.some.inj hkt)
    · obtain ⟨active, hactive⟩ := Option.isSome_iff_exists.mp ((hasError_iff ops t).mp hhas)
      obtain rfl : active = true := (h t active hactive).mpr rfl
      exact (hiddenSince_iff hsel hhas).mp hactive
  · rintro ⟨hbeside, hhidden⟩ k active hk
    by_cases hkt : k = t
    · subst hkt
      have hhas := (hasError_iff ops k).mpr (by rw [hk]; rfl)
      rw [(hiddenSince_iff hsel hhas).mpr (hhidden hhas), Option.some.injEq] at hk
      simp [hk.symm]
    · have hinactive : active ≠ true := by
        rintro rfl
        exact hbeside k hkt ((shownBeside_iff hkt hsel).mp hk)
      simp [hinactive, hkt]

/-- **The error shown is the selected thread's**, after a notification of the thread `t`:
    exactly when `t` is no thread, or no other thread's error was shown while `t` was
    selected already without being hidden again, and `t`'s own error, if there is one, was
    not hidden without being shown again. -/
theorem showsOnly_iff (ops : List ThreadOp) (t : Option String) :
    (afterOps (ops ++ [.onThreadChanged t])).ShowsOnly t ↔
      ∀ threadId, t = some threadId →
        (∀ k ≠ threadId, ¬ ShownBeside threadId k ops) ∧
          (HasError threadId ops → ¬ HiddenSince threadId ops) := by
  rw [showsOnly_iff_status, status_append_singleton]
  cases t with
  | none =>
    -- a null thread is never the remembered one: all errors are deactivated
    have hall : ∀ k active, (ThreadOp.onThreadChanged none).effect (afterOps ops).lastThreadId
        (afterOps ops).status k = some active → active = false := by
      intro k active hk
      obtain ⟨_, _, rfl⟩ := Option.map_eq_some_iff.mp hk
      simp [ThreadOp.flag]
    refine iff_of_true (fun k active hk => ?_) (by simp)
    simp [hall k active hk]
  | some t =>
    refine Iff.trans ?_ ⟨fun h threadId ht => Option.some.inj ht ▸ h, fun h => h t rfl⟩
    by_cases hsel : Selected t ops
    · rw [effect_of_selected hsel]
      exact showsOnly_of_selected hsel
    · -- the notification reconciles, and nothing happened since `t` was selected
      refine iff_of_true (fun k active hk => ?_)
        ⟨fun k _ h => hsel h.selected, fun _ h => hsel h.selected⟩
      rw [effect_of_not_selected hsel] at hk
      obtain ⟨_, _, rfl⟩ := Option.map_eq_some_iff.mp hk
      simp

/-- Selecting a thread that was selected before an error of another thread came up: that
    error stays on the screen. -/
theorem other_error_shown :
    ¬ (afterOps [.onThreadChanged (some "1"), .onThreadError ⟨"2", some "a.py", "NameError", 3⟩,
      .onThreadChanged (some "1")]).ShowsOnly (some "1") := by
  intro h
  have hactive := h "2" ⟨"2", "a.py", "NameError", 3, true⟩ (by decide)
  revert hactive
  decide

end Reloadium.Frames
