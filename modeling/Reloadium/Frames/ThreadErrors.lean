import Reloadium.Lib.PMap
import Reloadium.Lib.Refs
import Mathlib.Data.List.AList
import Mathlib.Data.List.Induction

namespace Reloadium.Frames

open Reloadium.Lib

/-!
# Frames — the errors of the threads

Model of `rw.stack.ThreadErrorManager` and `rw.stack.ThreadError`.  The errors are shared
objects: `errors` lists every error ever created, and the map `threadErrors` binds a thread
to the number of its error.  Every operation is `synchronized`, so it is one step.

* `Keyed` — an error is bound to the thread it was created for;
* `status`, `status_step` — what each operation does to the status of the threads (no
  error, a hidden one, a shown one).
-/

/-- `ThreadError`.  `active` is the flag that `activate` and `deactivate` set together with
    showing and hiding the highlight. -/
structure ThreadError where
  threadId : String
  file : String
  msg : String
  line : Int
  active : Bool
  deriving DecidableEq, Repr

namespace ThreadError

def activate (te : ThreadError) : ThreadError := { te with active := true }

def deactivate (te : ThreadError) : ThreadError := { te with active := false }

/-- Activating an error unless it is active already activates it. -/
theorem activate_if (te : ThreadError) : (if te.active then te else te.activate) = te.activate := by
  obtain ⟨_, _, _, _, active⟩ := te
  cases active <;> rfl

/-- Visiting an error twice does what visiting it once does. -/
theorem deactivate_if_twice (p : ThreadError → Bool) (te : ThreadError) :
    (if p (if p te then te.deactivate else te) then (if p te then te.deactivate else te).deactivate
      else if p te then te.deactivate else te) = if p te then te.deactivate else te := by
  by_cases hp : p te <;> simp [hp, deactivate]

end ThreadError

/-- `ThreadErrorEvent`.  `getFile` is null when the file system has no such file. -/
structure ThreadErrorEvent where
  threadId : String
  file : Option String
  msg : String
  line : Int
  deriving DecidableEq, Repr

/-- `ThreadErrorManager`, and the errors created so far. -/
structure ThreadErrorManager where
  errors : List ThreadError
  threadErrors : AList fun _ : String => Nat
  lastThreadId : Option String

namespace ThreadErrorManager

/-- The manager its constructor builds. -/
def new : ThreadErrorManager where
  errors := []
  threadErrors := ∅
  lastThreadId := none

/-- `threadErrors.values()`. -/
def values (m : ThreadErrorManager) : List Nat := m.threadErrors.entries.map Sigma.snd

/-- The error bound to a thread, `threadErrors.get(threadId)`. -/
def errorOf (m : ThreadErrorManager) (threadId : String) : Option ThreadError :=
  (m.threadErrors.lookup threadId).bind (m.errors[·]?)

/-- `threadErrors.values().stream().filter(p).forEach(ThreadError::deactivate)`. -/
def deactivateWhere (m : ThreadErrorManager) (p : ThreadError → Bool) : ThreadErrorManager :=
  { m with
    errors := m.values.foldl
      (fun errors ref => errors.modify ref fun te => if p te then te.deactivate else te)
      m.errors }

/-- The error bound to a thread, if there is one, goes through `f`. -/
def onErrorOf (m : ThreadErrorManager) (threadId : Option String)
    (f : ThreadError → ThreadError) : ThreadErrorManager :=
  match threadId.bind fun id => m.threadErrors.lookup id with
  | none => m
  | some ref => { m with errors := m.errors.modify ref f }

def onThreadError (m : ThreadErrorManager) (event : ThreadErrorEvent) : ThreadErrorManager :=
  match event.file with
  | none => m
  | some file =>
    let threadError : ThreadError :=
      { threadId := event.threadId, file, msg := event.msg, line := event.line,
        active := false }
    -- the error that was bound to the thread before is left as it is
    { m with
      errors := m.errors ++ [threadError.activate]
      threadErrors := m.threadErrors.insert event.threadId m.errors.length }

def onThreadErrorClear (m : ThreadErrorManager) (threadId : String) : ThreadErrorManager :=
  -- removing the key of a thread without an error does nothing
  { m.onErrorOf (some threadId) ThreadError.deactivate with
    threadErrors := m.threadErrors.erase threadId }

def onThreadChanged (m : ThreadErrorManager) (threadId : Option String) :
    ThreadErrorManager :=
  if m.lastThreadId ≠ none ∧ m.lastThreadId = threadId then m
  else
    let m := { m with lastThreadId := threadId }
    let m := m.deactivateWhere fun te => some te.threadId ≠ threadId
    m.onErrorOf threadId fun te => if te.active then te else te.activate

/-- `activate`, with the session's active thread as `getActiveThread` finds it. -/
def activate (m : ThreadErrorManager) (activeThread : Option String) : ThreadErrorManager :=
  m.onErrorOf activeThread ThreadError.activate

def deactivate (m : ThreadErrorManager) : ThreadErrorManager :=
  m.deactivateWhere fun _ => true

end ThreadErrorManager

/-- The operations of the manager. -/
inductive ThreadOp where
  | onThreadError (event : ThreadErrorEvent)
  | onThreadErrorClear (threadId : String)
  | onThreadChanged (threadId : Option String)
  | activate (activeThread : Option String)
  | deactivate
  deriving DecidableEq, Repr

namespace ThreadErrorManager

def step (m : ThreadErrorManager) : ThreadOp → ThreadErrorManager
  | .onThreadError event => m.onThreadError event
  | .onThreadErrorClear threadId => m.onThreadErrorClear threadId
  | .onThreadChanged threadId => m.onThreadChanged threadId
  | .activate activeThread => m.activate activeThread
  | .deactivate => m.deactivate

/-- The manager after a sequence of operations. -/
def afterOps (ops : List ThreadOp) : ThreadErrorManager := ops.foldl step new

theorem afterOps_append_singleton (ops : List ThreadOp) (op : ThreadOp) :
    afterOps (ops ++ [op]) = (afterOps ops).step op := by
  rw [afterOps, List.foldl_append]
  rfl

/-! ### The loop over the values -/

theorem mem_values (m : ThreadErrorManager) (ref : Nat) :
    ref ∈ m.values ↔ ∃ k, m.threadErrors.lookup k = some ref := mem_valuesOf

theorem getElem?_deactivateWhere (m : ThreadErrorManager) (p : ThreadError → Bool) (i : Nat) :
    (m.deactivateWhere p).errors[i]? =
      m.errors[i]?.map fun te => if i ∈ m.values ∧ p te then te.deactivate else te := by
  have hloop := @getElem?_modifyAll _ (fun te => if p te then te.deactivate else te)
    (ThreadError.deactivate_if_twice p) m.values m.errors i
  simp only [ite_and]
  exact hloop

/-! ### The map and the errors -/

/-- Every thread of the map is bound to an error that was created for it. -/
def Keyed (m : ThreadErrorManager) : Prop :=
  ∀ k ref, m.threadErrors.lookup k = some ref → ∃ te, m.errors[ref]? = some te ∧ te.threadId = k

/-- Two threads of the map are not bound to the same error. -/
theorem Keyed.inj {m : ThreadErrorManager} (h : m.Keyed) {k k' : String} {ref : Nat}
    (hk : m.threadErrors.lookup k = some ref) (hk' : m.threadErrors.lookup k' = some ref) :
    k = k' := by
  obtain ⟨te, hte, rfl⟩ := h k ref hk
  obtain ⟨te', hte', rfl⟩ := h k' ref hk'
  rw [hte, Option.some.injEq] at hte'
  exact congrArg ThreadError.threadId hte'

/-- An error of the map is the one bound to its own thread. -/
theorem Keyed.lookup_eq_iff {m : ThreadErrorManager} (h : m.Keyed) {ref : Nat} {te : ThreadError}
    (hte : m.errors[ref]? = some te) (k : String) :
    m.threadErrors.lookup k = some ref ↔ ref ∈ m.values ∧ te.threadId = k := by
  apply Iff.intro
  · intro hk
    obtain ⟨te', hte', hkey⟩ := h k ref hk
    rw [hte, Option.some.injEq] at hte'
    exact ⟨(m.mem_values ref).mpr ⟨k, hk⟩, hte' ▸ hkey⟩
  · rintro ⟨hmem, rfl⟩
    obtain ⟨k', hk'⟩ := (m.mem_values ref).mp hmem
    obtain ⟨te', hte', rfl⟩ := h k' ref hk'
    rw [hte, Option.some.injEq] at hte'
    exact hte' ▸ hk'

/-! ### What a step does -/

end ThreadErrorManager

/-- What an operation makes of the flag of the error bound to thread `k`, when the manager
    remembers the thread `last`. -/
def ThreadOp.flag (last : Option String) (k : String) (active : Bool) : ThreadOp → Bool
  | .onThreadError _ => active
  | .onThreadErrorClear threadId => active && k ≠ threadId
  | .onThreadChanged threadId =>
    if last ≠ none ∧ last = threadId then active else some k = threadId
  | .activate activeThread => active || some k = activeThread
  | .deactivate => false

namespace ThreadErrorManager

variable {m : ThreadErrorManager}

@[simp] theorem threadErrors_onErrorOf (m : ThreadErrorManager) (threadId : Option String)
    (f : ThreadError → ThreadError) :
    (m.onErrorOf threadId f).threadErrors = m.threadErrors := by
  unfold onErrorOf
  split <;> rfl

@[simp] theorem lastThreadId_onErrorOf (m : ThreadErrorManager) (threadId : Option String)
    (f : ThreadError → ThreadError) :
    (m.onErrorOf threadId f).lastThreadId = m.lastThreadId := by
  unfold onErrorOf
  split <;> rfl

/-- `onErrorOf` on an error that is in the manager. -/
theorem getElem?_onErrorOf (h : m.Keyed) (f : ThreadError → ThreadError)
    (threadId : Option String) {i : Nat} {te : ThreadError} (hi : m.errors[i]? = some te) :
    (m.onErrorOf threadId f).errors[i]? =
      some (if i ∈ m.values ∧ some te.threadId = threadId then f te else te) := by
  cases threadId with
  | none => simpa [onErrorOf] using hi
  | some k =>
    have hkey := h.lookup_eq_iff hi k
    simp only [onErrorOf, Option.bind_some, Option.some.injEq]
    cases hk : m.threadErrors.lookup k with
    | none =>
      have hnot : ¬ (i ∈ m.values ∧ te.threadId = k) := fun hik => by simp [hkey.mpr hik] at hk
      rw [if_neg hnot]
      exact hi
    | some ref =>
      rw [hk, Option.some.injEq] at hkey
      show (m.errors.modify ref f)[i]? = _
      rw [List.getElem?_modify, hi]
      by_cases href : ref = i
      · rw [if_pos (hkey.mp href)]
        simp [href]
      · rw [if_neg fun hik => href (hkey.mpr hik)]
        simp [href]

/-- `onErrorOf` creates no error. -/
theorem getElem?_onErrorOf_none (f : ThreadError → ThreadError) (threadId : Option String)
    {i : Nat} (hi : m.errors[i]? = none) : (m.onErrorOf threadId f).errors[i]? = none := by
  unfold onErrorOf
  split
  · exact hi
  · simpa using hi

/-- Setting flags keeps the map keyed. -/
theorem Keyed.deactivateWhere (h : m.Keyed) (p : ThreadError → Bool) :
    (m.deactivateWhere p).Keyed := by
  intro k ref hk
  obtain ⟨te, hte, rfl⟩ := h k ref hk
  rw [getElem?_deactivateWhere, hte]
  refine ⟨_, rfl, ?_⟩
  show (ite _ te.deactivate te).threadId = te.threadId
  split <;> rfl

/-- **What a step does to the errors there are.** An error outside the map is out of reach;
    the flag of one in the map changes as `ThreadOp.flag` says. -/
theorem getElem?_step (h : m.Keyed) (op : ThreadOp) {i : Nat} {te : ThreadError}
    (hi : m.errors[i]? = some te) :
    (m.step op).errors[i]? = some
      (if i ∈ m.values then { te with active := op.flag m.lastThreadId te.threadId te.active }
        else te) := by
  cases op with
  | onThreadError event =>
    have hlt : i < m.errors.length := (List.getElem?_eq_some_iff.mp hi).1
    rw [step, onThreadError]
    cases event.file with
    | none => simp [hi, ThreadOp.flag]
    | some file => simp [List.getElem?_append_left hlt, hi, ThreadOp.flag]
  | onThreadErrorClear threadId =>
    show (m.onErrorOf (some threadId) ThreadError.deactivate).errors[i]? = _
    rw [getElem?_onErrorOf h _ _ hi]
    by_cases hmem : i ∈ m.values <;> by_cases hid : te.threadId = threadId <;>
      simp [hmem, hid, ThreadOp.flag, ThreadError.deactivate]
  | onThreadChanged threadId =>
    rw [step, onThreadChanged, ThreadOp.flag]
    by_cases hexit : m.lastThreadId ≠ none ∧ m.lastThreadId = threadId
    · rw [if_pos hexit, if_pos hexit, hi, ite_self]
    · rw [if_neg hexit, if_neg hexit]
      have hmap := getElem?_deactivateWhere { m with lastThreadId := threadId }
        (fun te => some te.threadId ≠ threadId) i
      have hkeyed : ({ m with lastThreadId := threadId } : ThreadErrorManager).Keyed := h
      rw [hi, Option.map_some] at hmap
      rw [getElem?_onErrorOf (hkeyed.deactivateWhere _) _ _ hmap]
      have hvalues : ({ m with lastThreadId := threadId } : ThreadErrorManager).values =
          m.values := rfl
      show some (ite (i ∈ m.values ∧ _) _ _) = _
      simp only [hvalues, ThreadError.activate_if]
      by_cases hmem : i ∈ m.values <;> by_cases hid : some te.threadId = threadId <;>
        simp [hmem, hid, ThreadError.activate, ThreadError.deactivate]
  | activate activeThread =>
    show (m.onErrorOf activeThread ThreadError.activate).errors[i]? = _
    rw [getElem?_onErrorOf h _ _ hi]
    by_cases hmem : i ∈ m.values <;> by_cases hid : some te.threadId = activeThread <;>
      simp [hmem, hid, ThreadOp.flag, ThreadError.activate]
  | deactivate =>
    rw [step, deactivate, getElem?_deactivateWhere, hi]
    simp [ThreadOp.flag, ThreadError.deactivate]

/-- **What a step does to the map.** -/
theorem lookup_step (m : ThreadErrorManager) (op : ThreadOp) (k : String) :
    (m.step op).threadErrors.lookup k =
      match op with
      | .onThreadError event =>
        if event.file ≠ none ∧ k = event.threadId then some m.errors.length
        else m.threadErrors.lookup k
      | .onThreadErrorClear threadId =>
        if k = threadId then none else m.threadErrors.lookup k
      | _ => m.threadErrors.lookup k := by
  cases op with
  | onThreadError event =>
    rw [step, onThreadError]
    cases hfile : event.file with
    | none => simp [hfile]
    | some file =>
      show AList.lookup k (m.threadErrors.insert event.threadId m.errors.length) = _
      by_cases hk : k = event.threadId
      · subst hk
        rw [AList.lookup_insert]
        simp [hfile]
      · rw [AList.lookup_insert_ne hk]
        simp [hk]
  | onThreadErrorClear threadId =>
    show AList.lookup k (m.threadErrors.erase threadId) = _
    by_cases hk : k = threadId
    · subst hk
      rw [AList.lookup_erase]
      simp
    · rw [AList.lookup_erase_ne hk]
      simp [hk]
  | onThreadChanged threadId =>
    rw [step, onThreadChanged]
    split
    · rfl
    · rw [threadErrors_onErrorOf]
      rfl
  | activate activeThread => rw [step, activate, threadErrors_onErrorOf]
  | deactivate => rfl

/-- **What a step does to the remembered thread.** -/
theorem lastThreadId_step (m : ThreadErrorManager) (op : ThreadOp) :
    (m.step op).lastThreadId =
      match op with
      | .onThreadChanged threadId => threadId
      | _ => m.lastThreadId := by
  cases op with
  | onThreadError event =>
    rw [step, onThreadError]
    split <;> rfl
  | onThreadErrorClear threadId => exact lastThreadId_onErrorOf ..
  | onThreadChanged threadId =>
    rw [step, onThreadChanged]
    split
    · next hexit => exact hexit.2
    · rw [lastThreadId_onErrorOf]
      rfl
  | activate activeThread => exact lastThreadId_onErrorOf ..
  | deactivate => rfl

/-- A step keeps the map keyed. -/
theorem Keyed.step (h : m.Keyed) (op : ThreadOp) : (m.step op).Keyed := by
  intro k ref hk
  -- an error that was in the map before keeps its thread
  have hold : ∀ ref', m.threadErrors.lookup k = some ref' →
      ∃ te, (m.step op).errors[ref']? = some te ∧ te.threadId = k := by
    intro ref' hk'
    obtain ⟨te, hte, rfl⟩ := h k ref' hk'
    refine ⟨_, getElem?_step h op hte, ?_⟩
    split <;> rfl
  rw [lookup_step] at hk
  cases op with
  | onThreadError event =>
    dsimp only at hk
    by_cases hnew : event.file ≠ none ∧ k = event.threadId
    · rw [if_pos hnew, Option.some.injEq] at hk
      obtain ⟨file, hfile⟩ := Option.ne_none_iff_exists'.mp hnew.1
      subst hk
      rw [ThreadErrorManager.step, onThreadError, hfile]
      exact ⟨_, List.getElem?_concat_length, hnew.2.symm⟩
    · rw [if_neg hnew] at hk
      exact hold ref hk
  | onThreadErrorClear threadId =>
    dsimp only at hk
    by_cases hid : k = threadId
    · rw [if_pos hid] at hk
      cases hk
    · rw [if_neg hid] at hk
      exact hold ref hk
  | onThreadChanged threadId => exact hold ref hk
  | activate activeThread => exact hold ref hk
  | deactivate => exact hold ref hk

theorem keyed_new : new.Keyed := fun k ref hk => by
  simp [new, AList.lookup_empty] at hk

/-- The map is keyed after every sequence of operations. -/
theorem keyed_afterOps (ops : List ThreadOp) : (afterOps ops).Keyed := by
  induction ops using List.reverseRecOn with
  | nil => exact keyed_new
  | append_singleton ops op ih =>
    rw [afterOps_append_singleton]
    exact ih.step op

/-! ### The status of the threads -/

/-- The status of the threads: no error, or one that is shown or not. -/
def status (m : ThreadErrorManager) : PMap String Bool :=
  fun k => (m.errorOf k).map ThreadError.active

end ThreadErrorManager

/-- What an operation does to the status of the threads. -/
def ThreadOp.effect (last : Option String) (s : PMap String Bool) (op : ThreadOp) :
    PMap String Bool :=
  match op with
  | .onThreadError event => if event.file = none then s else s.put event.threadId true
  | .onThreadErrorClear threadId => s.remove threadId
  | _ => fun k => (s k).map fun active => op.flag last k active

namespace ThreadErrorManager

variable {m : ThreadErrorManager}

/-- The status of a thread whose entry a step leaves alone. -/
theorem status_step_of_lookup (h : m.Keyed) (op : ThreadOp) {k : String}
    (hk : (m.step op).threadErrors.lookup k = m.threadErrors.lookup k) :
    (m.step op).status k = (m.status k).map fun active => op.flag m.lastThreadId k active := by
  rw [status, status, errorOf, errorOf, hk]
  cases href : m.threadErrors.lookup k with
  | none => rfl
  | some ref =>
    obtain ⟨te, hte, rfl⟩ := h k ref href
    have hmem : ref ∈ m.values := (m.mem_values ref).mpr ⟨_, href⟩
    rw [Option.bind_some, Option.bind_some, getElem?_step h op hte, if_pos hmem, hte]
    rfl

/-- **The manager refines the table of statuses.** -/
theorem status_step (h : m.Keyed) (op : ThreadOp) :
    (m.step op).status = op.effect m.lastThreadId m.status := by
  funext k
  have hlookup := lookup_step m op k
  cases op with
  | onThreadError event =>
    dsimp only at hlookup
    by_cases hnew : event.file ≠ none ∧ k = event.threadId
    · obtain ⟨hfile, rfl⟩ := hnew
      obtain ⟨file, hfile⟩ := Option.ne_none_iff_exists'.mp hfile
      rw [status, errorOf, hlookup, if_pos ⟨by simp [hfile], rfl⟩]
      simp [step, onThreadError, ThreadOp.effect, hfile, ThreadError.activate]
    · rw [if_neg hnew] at hlookup
      rw [status_step_of_lookup h _ hlookup, ThreadOp.effect]
      have hflag : (m.status k).map (ThreadOp.flag m.lastThreadId k · (.onThreadError event)) =
          m.status k := Option.map_id'
      rw [hflag]
      split
      · rfl
      · next hfile => rw [PMap.put_of_ne _ _ fun hk => hnew ⟨hfile, hk⟩]
  | onThreadErrorClear threadId =>
    dsimp only at hlookup
    rw [ThreadOp.effect, PMap.remove_apply]
    by_cases hid : k = threadId
    · rw [if_pos hid] at hlookup
      rw [status, errorOf, hlookup, if_pos hid]
      rfl
    · rw [if_neg hid] at hlookup
      rw [status_step_of_lookup h _ hlookup, if_neg hid]
      cases m.status k <;> simp [ThreadOp.flag, hid]
  | onThreadChanged threadId => exact status_step_of_lookup h _ hlookup
  | activate activeThread => exact status_step_of_lookup h _ hlookup
  | deactivate => exact status_step_of_lookup h _ hlookup

end ThreadErrorManager

end Reloadium.Frames
