import Reloadium.Lib.PMap
import Reloadium.Watchdog.SkipRepeatsQueue

namespace Reloadium.Watchdog.Observer

open Lib

/-!
# The observer

Model of `BaseObserver`: its watches, their handlers and their emitters, under the calls of its
users and of its handlers, and with the emitters' events and their dispatch in between.  A call holds
the lock, but for `start`, which is taken to have no other call beside it; during a dispatch, which
holds the lock too, the calls are those of the handlers.  Whether the start of an emitter succeeds is
up to the platform.

* `BaseObserver.Inv` — emitters and the watches they are kept under go together;
* `inv_step` — every step keeps that, also a call that raises half-way;
* `Same` — what happens between the calls leaves the emitters alone.
-/

structure ObservedWatch where
  path : String
  isRecursive : Bool
deriving DecidableEq

/-- An emitter object; `id` tells it from the others. -/
structure EventEmitter where
  id : Nat
  watch : ObservedWatch
deriving DecidableEq

/-- The observer's own thread. -/
inductive ThreadState
  | new
  | alive
  | ended
deriving DecidableEq

inductive Error
  | keyError
  /-- what the start of an emitter raised -/
  | startError
  | runtimeError
deriving DecidableEq

variable {ε η : Type} [DecidableEq ε] [DecidableEq η]

/-- `handlers` and `emitterForWatch` are dictionaries; the other collections are sets.  `started`
are the emitters whose thread has been started, `dispatching` is the event that has been taken, with
the handlers that are left once the lock is held, and `calls` what the handlers were told. -/
structure BaseObserver (ε η : Type) where
  watches : List ObservedWatch
  handlers : PMap ObservedWatch (List η)
  emitters : List EventEmitter
  emitterForWatch : PMap ObservedWatch EventEmitter
  started : List Nat
  created : Nat
  thread : ThreadState
  stopped : Bool
  queue : QueueState (ε × ObservedWatch)
  dispatching : Option ((ε × ObservedWatch) × Option (List η))
  calls : List (η × ε)
  raised : Option Error

namespace BaseObserver

def new : BaseObserver ε η where
  watches := []
  handlers := PMap.empty
  emitters := []
  emitterForWatch := PMap.empty
  started := []
  created := 0
  thread := .new
  stopped := false
  queue := .init
  dispatching := none
  calls := []
  raised := none

variable (s : BaseObserver ε η)

/-- `_add_emitter` -/
def addEmitter (emitter : EventEmitter) : BaseObserver ε η :=
  { s with
    emitterForWatch := s.emitterForWatch.put emitter.watch emitter
    emitters := emitter :: s.emitters }

/-- `_remove_emitter`, of one that is kept. -/
def removeEmitter (emitter : EventEmitter) : BaseObserver ε η :=
  { s with
    emitterForWatch := s.emitterForWatch.remove emitter.watch
    emitters := s.emitters.filter (· ≠ emitter) }

/-- `_add_handler_for_watch` -/
def addHandler (handler : η) (watch : ObservedWatch) : BaseObserver ε η :=
  { s with
    handlers := s.handlers.put watch ((s.handlers.getOrDefault watch []).insert handler) }

/-- The emitter that `schedule` makes. -/
def newEmitter (watch : ObservedWatch) : EventEmitter := ⟨s.created, watch⟩

/-- `schedule` -/
def schedule (handler : η) (watch : ObservedWatch) (starts : Bool) : BaseObserver ε η :=
  let s : BaseObserver ε η := s.addHandler handler watch
  if s.emitterForWatch watch = none then
    let emitter := s.newEmitter watch
    let s : BaseObserver ε η := { s.addEmitter emitter with created := s.created + 1 }
    if s.thread = .alive then
      if starts then
        { s with
          started := emitter.id :: s.started
          watches := s.watches.insert watch
          raised := none }
      else { s with raised := some .startError }
    else { s with watches := s.watches.insert watch, raised := none }
  else { s with watches := s.watches.insert watch, raised := none }

/-- `remove_handler_for_watch` -/
def removeHandlerForWatch (handler : η) (watch : ObservedWatch) : BaseObserver ε η :=
  match s.handlers watch with
  | none => { s with raised := some .keyError }
  | some handlers =>
    if handler ∈ handlers then
      { s with handlers := s.handlers.put watch (handlers.filter (· ≠ handler)), raised := none }
    else { s with raised := some .keyError }

/-- `unschedule`; what raises leaves behind what was done before. -/
def unschedule (watch : ObservedWatch) : BaseObserver ε η :=
  match s.emitterForWatch watch with
  | none => { s with raised := some .keyError }
  | some emitter =>
    if s.handlers watch = none then { s with raised := some .keyError }
    else
      let s : BaseObserver ε η :=
        ({ s with handlers := s.handlers.remove watch } : BaseObserver ε η).removeEmitter emitter
      if watch ∈ s.watches then { s with watches := s.watches.filter (· ≠ watch), raised := none }
      else { s with raised := some .keyError }

/-- `unschedule_all` -/
def unscheduleAll : BaseObserver ε η :=
  { s with
    handlers := PMap.empty
    emitters := []
    emitterForWatch := PMap.empty
    watches := []
    raised := none }

/-- The loop of `start`: the thread of an emitter can be started once. -/
def startEmitters (starts : EventEmitter → Bool) : List EventEmitter → BaseObserver ε η →
    BaseObserver ε η
  | [], s => { s with raised := none }
  | emitter :: rest, s =>
    if starts emitter ∧ emitter.id ∉ s.started then
      startEmitters starts rest { s with started := emitter.id :: s.started }
    else { s.removeEmitter emitter with raised := some .startError }

/-- `start`, which goes over the emitters in some order. -/
def start (order : List EventEmitter) (starts : EventEmitter → Bool) : BaseObserver ε η :=
  let s : BaseObserver ε η := startEmitters starts order s
  if s.raised = none then
    if s.thread = .new then { s with thread := .alive } else { s with raised := some .runtimeError }
  else s

/-- `stop` -/
def stop : BaseObserver ε η := ({ s with stopped := true } : BaseObserver ε η).unscheduleAll

end BaseObserver

inductive Act (ε η : Type)
  | schedule (handler : η) (watch : ObservedWatch) (starts : Bool)
  | addHandlerForWatch (handler : η) (watch : ObservedWatch)
  | removeHandlerForWatch (handler : η) (watch : ObservedWatch)
  | unschedule (watch : ObservedWatch)
  | unscheduleAll
  | start (order : List EventEmitter) (starts : EventEmitter → Bool)
  | stop
  /-- `queue_event`, on the thread of an emitter -/
  | queueEvent (emitter : EventEmitter) (event : ε)
  /-- `dispatch_events` takes an event -/
  | get
  /-- it takes the lock, and the handlers of the event -/
  | lock
  /-- the next handler, if it is still there; what it raises ends `run` -/
  | dispatch (raises : Bool)
  /-- `task_done` -/
  | done
  /-- `run` is left -/
  | finish

namespace BaseObserver

def step (s : BaseObserver ε η) : Act ε η → Option (BaseObserver ε η)
  | .schedule handler watch starts => some (s.schedule handler watch starts)
  | .addHandlerForWatch handler watch => some { s.addHandler handler watch with raised := none }
  | .removeHandlerForWatch handler watch => some (s.removeHandlerForWatch handler watch)
  | .unschedule watch => some (s.unschedule watch)
  | .unscheduleAll => some s.unscheduleAll
  | .start order starts =>
    if order.Perm s.emitters then some (s.start order starts) else none
  | .stop => some s.stop
  | .queueEvent emitter event =>
    if emitter ∈ s.emitters ∧ emitter.id ∈ s.started then
      (s.queue.step (.put (event, emitter.watch))).map fun queue => { s with queue := queue }
    else none
  | .get =>
    if s.thread = .alive ∧ s.dispatching = none then
      match s.queue.waiting with
      | [] => none
      | item :: _ =>
        (s.queue.step .get).map fun queue =>
          { s with queue := queue, dispatching := some (item, none) }
    else none
  | .lock =>
    match s.dispatching with
    | some (item, none) =>
      some { s with dispatching := some (item, some (s.handlers.getOrDefault item.2 [])) }
    | _ => none
  | .dispatch raises =>
    match s.dispatching with
    | some (item, some (handler :: rest)) =>
      if handler ∈ s.handlers.getOrDefault item.2 [] then
        let calls := s.calls ++ [(handler, item.1)]
        if raises then some { s with calls := calls, dispatching := none, thread := .ended }
        else some { s with calls := calls, dispatching := some (item, some rest) }
      else some { s with dispatching := some (item, some rest) }
    | _ => none
  | .done =>
    match s.dispatching with
    | some (_, some []) =>
      (s.queue.step .taskDone).map fun queue => { s with queue := queue, dispatching := none }
    | _ => none
  | .finish =>
    if s.thread = .alive ∧ s.stopped = true ∧ s.dispatching = none then
      some { s with thread := .ended }
    else none

end BaseObserver

def observerLts : Lts (BaseObserver ε η) (Act ε η) where
  init := .new
  step := BaseObserver.step

/-! ### Invariant -/

namespace BaseObserver

variable {s t : BaseObserver ε η} {watch : ObservedWatch}

/-- Emitters go with the watches they are kept under. -/
structure Inv (s : BaseObserver ε η) : Prop where
  emitter_iff : ∀ watch emitter,
    s.emitterForWatch watch = some emitter ↔ emitter ∈ s.emitters ∧ emitter.watch = watch
  handlers : ∀ watch, s.emitterForWatch watch ≠ none → s.handlers watch ≠ none
  nodup : (s.emitters.map EventEmitter.id).Nodup
  fresh : ∀ emitter ∈ s.emitters, emitter.id < s.created
  fresh_started : ∀ id ∈ s.started, id < s.created

omit [DecidableEq ε] [DecidableEq η] in
theorem inv_new : (new : BaseObserver ε η).Inv where
  emitter_iff _ _ := iff_of_false (fun h => nomatch h) fun h => absurd h.1 List.not_mem_nil
  handlers _ h := absurd rfl h
  nodup := List.nodup_nil
  fresh _ h := absurd h List.not_mem_nil
  fresh_started _ h := absurd h List.not_mem_nil

omit [DecidableEq ε] [DecidableEq η] in
/-- The invariant is about the emitters and what they are kept under. -/
theorem Inv.congr (hs : s.Inv) (hemitterForWatch : t.emitterForWatch = s.emitterForWatch)
    (hhandlers : t.handlers = s.handlers) (hemitters : t.emitters = s.emitters)
    (hcreated : t.created = s.created) (hstarted : t.started = s.started) : t.Inv where
  emitter_iff := by rw [hemitterForWatch, hemitters]; exact hs.emitter_iff
  handlers := by rw [hemitterForWatch, hhandlers]; exact hs.handlers
  nodup := by rw [hemitters]; exact hs.nodup
  fresh := by rw [hemitters, hcreated]; exact hs.fresh
  fresh_started := by rw [hstarted, hcreated]; exact hs.fresh_started

omit [DecidableEq ε] in
theorem Inv.addHandler (hs : s.Inv) (handler : η) (watch : ObservedWatch) :
    (s.addHandler handler watch).Inv where
  emitter_iff := hs.emitter_iff
  handlers other h := by
    show (s.handlers.put watch _) other ≠ none
    rw [PMap.put_apply]
    split
    · exact Option.some_ne_none _
    · exact hs.handlers other h
  nodup := hs.nodup
  fresh := hs.fresh
  fresh_started := hs.fresh_started

omit [DecidableEq ε] [DecidableEq η] in
/-- A new emitter, for a watch without one. -/
theorem Inv.addEmitter (hs : s.Inv) (hnone : s.emitterForWatch watch = none)
    (hhandlers : s.handlers watch ≠ none) :
    ({ s.addEmitter (s.newEmitter watch) with created := s.created + 1 } :
      BaseObserver ε η).Inv where
  emitter_iff other emitter := by
    show (s.emitterForWatch.put watch (s.newEmitter watch)) other = some emitter ↔
      emitter ∈ s.newEmitter watch :: s.emitters ∧ emitter.watch = other
    rw [PMap.put_apply, List.mem_cons]
    split
    case isTrue hwatch =>
      rw [hwatch, Option.some.injEq]
      constructor
      · rintro rfl
        exact ⟨Or.inl rfl, rfl⟩
      · rintro ⟨rfl | hmem, hemitter⟩
        · rfl
        · rw [(hs.emitter_iff watch emitter).mpr ⟨hmem, hemitter⟩] at hnone
          exact nomatch hnone
    case isFalse hwatch =>
      rw [hs.emitter_iff]
      refine and_congr_left fun hemitter => (or_iff_right ?_).symm
      rintro rfl
      exact hwatch hemitter.symm
  handlers other h := by
    by_cases hother : other = watch
    · exact hother ▸ hhandlers
    · apply hs.handlers
      intro hother'
      apply h
      show (s.emitterForWatch.put watch (s.newEmitter watch)) other = none
      rw [PMap.put_of_ne _ _ hother, hother']
  nodup := by
    refine List.nodup_cons.mpr ⟨fun hmem => ?_, hs.nodup⟩
    obtain ⟨emitter, hemitter, hid⟩ := List.mem_map.mp hmem
    exact absurd hid (Nat.ne_of_lt (hs.fresh emitter hemitter))
  fresh := by
    refine List.forall_mem_cons.mpr ⟨Nat.lt_succ_self _, fun emitter hemitter => ?_⟩
    exact Nat.lt_succ_of_lt (hs.fresh emitter hemitter)
  fresh_started id hid := Nat.lt_succ_of_lt (hs.fresh_started id hid)

omit [DecidableEq ε] [DecidableEq η] in
theorem Inv.removeEmitter (hs : s.Inv) {emitter : EventEmitter} (hemitter : emitter ∈ s.emitters) :
    (s.removeEmitter emitter).Inv where
  emitter_iff other e := by
    show (s.emitterForWatch.remove emitter.watch) other = some e ↔
      e ∈ s.emitters.filter (· ≠ emitter) ∧ e.watch = other
    rw [PMap.remove_apply, List.mem_filter, decide_eq_true_eq]
    have hkept := (hs.emitter_iff emitter.watch emitter).mpr ⟨hemitter, rfl⟩
    split
    case isTrue hother =>
      refine iff_of_false (fun h => nomatch h) ?_
      rintro ⟨⟨hmem, hne⟩, hwatch⟩
      rw [(hs.emitter_iff _ e).mpr ⟨hmem, hwatch.trans hother⟩] at hkept
      exact hne (Option.some.inj hkept)
    case isFalse hother =>
      rw [hs.emitter_iff]
      refine and_congr_left fun hwatch => (and_iff_left ?_).symm
      rintro rfl
      exact hother hwatch.symm
  handlers other h := by
    apply hs.handlers
    intro hnone
    apply h
    show (s.emitterForWatch.remove emitter.watch) other = none
    rw [PMap.remove_apply, hnone, ite_self]
  nodup := hs.nodup.sublist (List.filter_sublist.map _)
  fresh e he := hs.fresh e (List.mem_of_mem_filter he)
  fresh_started := hs.fresh_started

omit [DecidableEq ε] [DecidableEq η] in
theorem Inv.started (hs : s.Inv) {ids : List Nat} (hids : ∀ id ∈ ids, id < s.created) :
    ({ s with started := ids } : BaseObserver ε η).Inv where
  emitter_iff := hs.emitter_iff
  handlers := hs.handlers
  nodup := hs.nodup
  fresh := hs.fresh
  fresh_started := hids

omit [DecidableEq ε] in
/-- `schedule`, of a watch that has an emitter. -/
theorem schedule_of_ne_none {handler : η} {starts : Bool}
    (h : s.emitterForWatch watch ≠ none) :
    s.schedule handler watch starts =
      { s.addHandler handler watch with watches := s.watches.insert watch, raised := none } :=
  if_neg h

omit [DecidableEq ε] in
/-- `schedule`, of a watch that has none. -/
theorem schedule_of_eq_none {handler : η} {starts : Bool} (h : s.emitterForWatch watch = none) :
    s.schedule handler watch starts =
      if s.thread = .alive then
        if starts then
          { (s.addHandler handler watch).addEmitter (s.newEmitter watch) with
            created := s.created + 1
            started := s.created :: s.started
            watches := s.watches.insert watch
            raised := none }
        else
          { (s.addHandler handler watch).addEmitter (s.newEmitter watch) with
            created := s.created + 1
            raised := some .startError }
      else
        { (s.addHandler handler watch).addEmitter (s.newEmitter watch) with
          created := s.created + 1
          watches := s.watches.insert watch
          raised := none } :=
  if_pos h

omit [DecidableEq ε] in
theorem inv_schedule (hs : s.Inv) (handler : η) (watch : ObservedWatch) (starts : Bool) :
    (s.schedule handler watch starts).Inv := by
  have hadd := hs.addHandler handler watch
  by_cases h : s.emitterForWatch watch = none
  · have hhandlers : (s.addHandler handler watch).handlers watch ≠ none := by
      show (s.handlers.put watch _) watch ≠ none
      rw [PMap.put_self]
      exact Option.some_ne_none _
    have hnew := hadd.addEmitter h hhandlers
    rw [schedule_of_eq_none h]
    split
    · split
      · have hids : ∀ id ∈ s.created :: s.started, id < s.created + 1 :=
          List.forall_mem_cons.mpr ⟨Nat.lt_succ_self _, hnew.fresh_started⟩
        exact (hnew.started hids).congr rfl rfl rfl rfl rfl
      · exact hnew.congr rfl rfl rfl rfl rfl
    · exact hnew.congr rfl rfl rfl rfl rfl
  · rw [schedule_of_ne_none h]
    exact hadd.congr rfl rfl rfl rfl rfl

omit [DecidableEq ε] [DecidableEq η] in
theorem Inv.setHandlers (hs : s.Inv) {handlers : PMap ObservedWatch (List η)}
    (h : ∀ watch, s.emitterForWatch watch ≠ none → handlers watch ≠ none) :
    ({ s with handlers := handlers } : BaseObserver ε η).Inv where
  emitter_iff := hs.emitter_iff
  handlers := h
  nodup := hs.nodup
  fresh := hs.fresh
  fresh_started := hs.fresh_started

omit [DecidableEq ε] in
theorem inv_removeHandlerForWatch (hs : s.Inv) (handler : η) (watch : ObservedWatch) :
    (s.removeHandlerForWatch handler watch).Inv := by
  rw [removeHandlerForWatch]
  split
  · exact hs.congr rfl rfl rfl rfl rfl
  split
  · refine (hs.setHandlers fun other h => ?_).congr rfl rfl rfl rfl rfl
    rw [PMap.put_apply]
    split
    · exact Option.some_ne_none _
    · exact hs.handlers other h
  · exact hs.congr rfl rfl rfl rfl rfl

/-- What is left when a watch has been unscheduled. -/
def withoutWatch (s : BaseObserver ε η) (watch : ObservedWatch) (emitter : EventEmitter) :
    BaseObserver ε η :=
  { s.removeEmitter emitter with handlers := s.handlers.remove watch }

omit [DecidableEq ε] [DecidableEq η] in
theorem Inv.withoutWatch (hs : s.Inv) {emitter : EventEmitter}
    (h : s.emitterForWatch watch = some emitter) : (s.withoutWatch watch emitter).Inv := by
  obtain ⟨hmem, hwatch⟩ := (hs.emitter_iff watch emitter).mp h
  refine (hs.removeEmitter hmem).setHandlers fun other hother => ?_
  rw [show (s.removeEmitter emitter).emitterForWatch other =
    (s.emitterForWatch.remove emitter.watch) other from rfl, PMap.remove_apply, hwatch] at hother
  rw [PMap.remove_apply]
  split
  case isTrue heq => exact absurd (if_pos heq) hother
  case isFalse hne =>
    rw [if_neg hne] at hother
    exact hs.handlers other hother

omit [DecidableEq ε] [DecidableEq η] in
/-- `unschedule`, of a watch that has an emitter. -/
theorem unschedule_of_eq_some (hs : s.Inv) {emitter : EventEmitter}
    (h : s.emitterForWatch watch = some emitter) :
    s.unschedule watch =
      if watch ∈ s.watches then
        { s.withoutWatch watch emitter with
          watches := s.watches.filter (· ≠ watch)
          raised := none }
      else { s.withoutWatch watch emitter with raised := some .keyError } := by
  have hhandlers := hs.handlers watch (h ▸ Option.some_ne_none emitter)
  rw [unschedule, h]
  exact if_neg hhandlers

omit [DecidableEq ε] [DecidableEq η] in
theorem inv_unschedule (hs : s.Inv) (watch : ObservedWatch) : (s.unschedule watch).Inv := by
  cases h : s.emitterForWatch watch with
  | none =>
    rw [unschedule, h]
    exact hs.congr rfl rfl rfl rfl rfl
  | some emitter =>
    rw [unschedule_of_eq_some hs h]
    split
    · exact (hs.withoutWatch h).congr rfl rfl rfl rfl rfl
    · exact (hs.withoutWatch h).congr rfl rfl rfl rfl rfl

omit [DecidableEq ε] [DecidableEq η] in
theorem inv_unscheduleAll (hs : s.Inv) : s.unscheduleAll.Inv where
  emitter_iff _ _ := iff_of_false (fun h => nomatch h) fun h => absurd h.1 List.not_mem_nil
  handlers _ h := absurd rfl h
  nodup := List.nodup_nil
  fresh _ h := absurd h List.not_mem_nil
  fresh_started := hs.fresh_started

/-! ### Starting -/

omit [DecidableEq ε] [DecidableEq η] in
/-- All the emitters are started. -/
theorem startEmitters_of_forall {starts : EventEmitter → Bool} {emitters : List EventEmitter}
    (hnodup : (emitters.map EventEmitter.id).Nodup)
    (h : ∀ emitter ∈ emitters, starts emitter = true ∧ emitter.id ∉ s.started) :
    startEmitters starts emitters s =
      { s with
        started := (emitters.map EventEmitter.id).reverse ++ s.started
        raised := none } := by
  induction emitters generalizing s with
  | nil => rfl
  | cons emitter rest ih =>
    obtain ⟨hemitter, hrest⟩ := List.forall_mem_cons.mp h
    obtain ⟨hid, hnodup'⟩ := List.nodup_cons.mp hnodup
    rw [startEmitters, if_pos hemitter, ih hnodup']
    · rw [List.map_cons, List.reverse_cons, List.append_assoc, List.singleton_append]
    · refine fun other hother => ⟨(hrest other hother).1, ?_⟩
      rw [List.mem_cons, not_or]
      refine ⟨fun heq => ?_, (hrest other hother).2⟩
      exact hid (heq ▸ List.mem_map.mpr ⟨other, hother, rfl⟩)

omit [DecidableEq ε] [DecidableEq η] in
/-- One emitter fails to start, and is removed. -/
theorem startEmitters_of_not_forall {starts : EventEmitter → Bool} {emitters : List EventEmitter}
    (hnodup : (emitters.map EventEmitter.id).Nodup)
    (h : ¬ ∀ emitter ∈ emitters, starts emitter = true ∧ emitter.id ∉ s.started) :
    ∃ emitter ∈ emitters, ∃ ids, (∀ id ∈ ids, id ∈ s.started ∨ id ∈ emitters.map EventEmitter.id) ∧
      startEmitters starts emitters s =
        { s.removeEmitter emitter with started := ids, raised := some .startError } := by
  induction emitters generalizing s with
  | nil => exact absurd (fun _ h => absurd h List.not_mem_nil) h
  | cons emitter rest ih =>
    obtain ⟨hid, hnodup'⟩ := List.nodup_cons.mp hnodup
    by_cases hemitter : starts emitter = true ∧ emitter.id ∉ s.started
    · have hrest : ¬ ∀ other ∈ rest, starts other = true ∧ other.id ∉ emitter.id :: s.started := by
        intro hall
        refine h (List.forall_mem_cons.mpr ⟨hemitter, fun other hother => ?_⟩)
        exact ⟨(hall other hother).1, List.not_mem_of_not_mem_cons (hall other hother).2⟩
      obtain ⟨failed, hfailed, ids, hids, heq⟩ :=
        ih (s := { s with started := emitter.id :: s.started }) hnodup' hrest
      refine ⟨failed, List.mem_cons_of_mem _ hfailed, ids, fun id hmem => ?_, ?_⟩
      · rcases hids id hmem with hstarted | hrest
        · rcases List.mem_cons.mp hstarted with rfl | hstarted
          · exact Or.inr List.mem_cons_self
          · exact Or.inl hstarted
        · exact Or.inr (List.mem_cons_of_mem _ hrest)
      · rw [startEmitters, if_pos hemitter, heq]
        rfl
    · refine ⟨emitter, List.mem_cons_self, s.started, fun id hmem => Or.inl hmem, ?_⟩
      rw [startEmitters, if_neg hemitter]
      rfl

omit [DecidableEq ε] [DecidableEq η] in
theorem Inv.nodup_of_perm (hs : s.Inv) {order : List EventEmitter} (horder : order.Perm s.emitters) :
    (order.map EventEmitter.id).Nodup :=
  (horder.map EventEmitter.id).nodup_iff.mpr hs.nodup

omit [DecidableEq ε] [DecidableEq η] in
theorem inv_start (hs : s.Inv) {order : List EventEmitter} (horder : order.Perm s.emitters)
    (starts : EventEmitter → Bool) : (s.start order starts).Inv := by
  have hids : ∀ id ∈ order.map EventEmitter.id, id < s.created := by
    intro id hmem
    obtain ⟨emitter, hemitter, rfl⟩ := List.mem_map.mp hmem
    exact hs.fresh emitter (horder.mem_iff.mp hemitter)
  have hnodup := hs.nodup_of_perm horder
  rw [start]
  by_cases h : ∀ emitter ∈ order, starts emitter = true ∧ emitter.id ∉ s.started
  · rw [startEmitters_of_forall hnodup h, if_pos rfl]
    have hstarted : ∀ id ∈ (order.map EventEmitter.id).reverse ++ s.started,
        id < s.created := by
      intro id hmem
      rcases List.mem_append.mp hmem with hmem | hmem
      · exact hids id (List.mem_reverse.mp hmem)
      · exact hs.fresh_started id hmem
    split
    · exact (hs.started hstarted).congr rfl rfl rfl rfl rfl
    · exact (hs.started hstarted).congr rfl rfl rfl rfl rfl
  · obtain ⟨emitter, hemitter, ids, hmem, heq⟩ := startEmitters_of_not_forall hnodup h
    rw [heq, if_neg (Option.some_ne_none _)]
    have hstarted : ∀ id ∈ ids, id < s.created := by
      intro id hid
      rcases hmem id hid with hid | hid
      · exact hs.fresh_started id hid
      · exact hids id hid
    have hremoved := hs.removeEmitter (horder.mem_iff.mp hemitter)
    exact (hremoved.started hstarted).congr rfl rfl rfl rfl rfl

theorem start_of_step {order : List EventEmitter} {starts : EventEmitter → Bool}
    (h : s.step (.start order starts) = some t) :
    order.Perm s.emitters ∧ s.start order starts = t := by
  rw [step] at h
  split at h
  case isTrue horder => exact ⟨horder, Option.some.inj h⟩
  case isFalse => cases h

/-- A step that is none of the calls leaves the emitters and what they are kept under. -/
structure Same (s t : BaseObserver ε η) : Prop where
  watches : t.watches = s.watches
  handlers : t.handlers = s.handlers
  emitters : t.emitters = s.emitters
  emitterForWatch : t.emitterForWatch = s.emitterForWatch
  started : t.started = s.started
  created : t.created = s.created
  thread : t.thread = .alive → s.thread = .alive

theorem same_queueEvent {emitter : EventEmitter} {event : ε}
    (h : s.step (.queueEvent emitter event) = some t) : s.Same t := by
  rw [step] at h
  split at h
  · obtain ⟨queue, -, rfl⟩ := Option.map_eq_some_iff.mp h
    exact ⟨rfl, rfl, rfl, rfl, rfl, rfl, id⟩
  · cases h

theorem same_get (h : s.step .get = some t) : s.Same t := by
  rw [step] at h
  split at h
  · split at h
    · cases h
    · obtain ⟨queue, -, rfl⟩ := Option.map_eq_some_iff.mp h
      exact ⟨rfl, rfl, rfl, rfl, rfl, rfl, id⟩
  · cases h

theorem same_lock (h : s.step .lock = some t) : s.Same t ∧ t.queue = s.queue := by
  rw [step] at h
  split at h
  · obtain rfl := Option.some.inj h
    exact ⟨⟨rfl, rfl, rfl, rfl, rfl, rfl, id⟩, rfl⟩
  · cases h

theorem same_dispatch {raises : Bool} (h : s.step (.dispatch raises) = some t) :
    s.Same t ∧ t.queue = s.queue := by
  rw [step] at h
  split at h
  · split at h
    · cases raises with
      | true =>
        obtain rfl := Option.some.inj h
        exact ⟨⟨rfl, rfl, rfl, rfl, rfl, rfl, ThreadState.noConfusion⟩, rfl⟩
      | false =>
        obtain rfl := Option.some.inj h
        exact ⟨⟨rfl, rfl, rfl, rfl, rfl, rfl, id⟩, rfl⟩
    · obtain rfl := Option.some.inj h
      exact ⟨⟨rfl, rfl, rfl, rfl, rfl, rfl, id⟩, rfl⟩
  · cases h

theorem same_done (h : s.step .done = some t) : s.Same t := by
  rw [step] at h
  split at h
  · obtain ⟨queue, -, rfl⟩ := Option.map_eq_some_iff.mp h
    exact ⟨rfl, rfl, rfl, rfl, rfl, rfl, id⟩
  · cases h

theorem same_finish (h : s.step .finish = some t) : s.Same t ∧ t.queue = s.queue := by
  rw [step] at h
  split at h
  · obtain rfl := Option.some.inj h
    exact ⟨⟨rfl, rfl, rfl, rfl, rfl, rfl, ThreadState.noConfusion⟩, rfl⟩
  · cases h

omit [DecidableEq ε] [DecidableEq η] in
theorem Inv.of_same (hs : s.Inv) (h : s.Same t) : t.Inv :=
  hs.congr h.emitterForWatch h.handlers h.emitters h.created h.started

theorem inv_step (s : BaseObserver ε η) (a : Act ε η) (t : BaseObserver ε η) (hs : s.Inv)
    (h : s.step a = some t) : t.Inv := by
  cases a with
  | schedule handler watch starts => exact Option.some.inj h ▸ inv_schedule hs handler watch starts
  | addHandlerForWatch handler watch =>
    rw [← Option.some.inj h]
    exact (hs.addHandler handler watch).congr rfl rfl rfl rfl rfl
  | removeHandlerForWatch handler watch =>
    exact Option.some.inj h ▸ inv_removeHandlerForWatch hs handler watch
  | unschedule watch => exact Option.some.inj h ▸ inv_unschedule hs watch
  | unscheduleAll => exact Option.some.inj h ▸ inv_unscheduleAll hs
  | start order starts =>
    obtain ⟨horder, hstart⟩ := start_of_step h
    exact hstart ▸ inv_start hs horder starts
  | stop =>
    rw [← Option.some.inj h]
    exact (inv_unscheduleAll hs).congr rfl rfl rfl rfl rfl
  | queueEvent => exact hs.of_same (same_queueEvent h)
  | get => exact hs.of_same (same_get h)
  | lock => exact hs.of_same (same_lock h).1
  | dispatch => exact hs.of_same (same_dispatch h).1
  | done => exact hs.of_same (same_done h)
  | finish => exact hs.of_same (same_finish h).1

end BaseObserver

end Reloadium.Watchdog.Observer
