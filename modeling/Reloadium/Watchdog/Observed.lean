import Reloadium.Lib.Lts
import Reloadium.Watchdog.BaseObserver

namespace Reloadium.Watchdog.Observer

open Lib

/-!
# The observer — what is observed

* `observed_iff_meets` — **the watches are the ones with an emitter**, each started once the
  observer is, all along a run exactly if no emitter fails to start;
* `unobserved_run` — **a watch whose emitter has failed to start** stays without events, however
  often it is scheduled again.
-/

variable {ε η : Type} [DecidableEq ε] [DecidableEq η]

namespace BaseObserver

variable {s t : BaseObserver ε η} {watch : ObservedWatch}

/-! ### What is observed -/

/-- The watches are the ones with an emitter, and it is started once the observer is. -/
structure Observed (s : BaseObserver ε η) : Prop where
  watches : ∀ watch, watch ∈ s.watches ↔ s.emitterForWatch watch ≠ none
  started : s.thread = .alive → ∀ emitter ∈ s.emitters, emitter.id ∈ s.started

/-- No emitter fails to start. -/
def NoFailure (s : BaseObserver ε η) : Act ε η → Prop
  | .schedule _ watch starts =>
    s.thread = .alive → s.emitterForWatch watch = none → starts = true
  | .start order starts => order.Perm s.emitters →
    ∀ emitter ∈ s.emitters, starts emitter = true ∧ emitter.id ∉ s.started
  | _ => True

omit [DecidableEq ε] [DecidableEq η] in
theorem observed_new : (new : BaseObserver ε η).Observed where
  watches _ := iff_of_false List.not_mem_nil fun h => h rfl
  started _ _ h := absurd h List.not_mem_nil

omit [DecidableEq ε] [DecidableEq η] in
theorem Observed.of_same (hs : s.Observed) (h : s.Same t) : t.Observed where
  watches := by rw [h.watches, h.emitterForWatch]; exact hs.watches
  started halive := by rw [h.emitters, h.started]; exact hs.started (h.thread halive)

omit [DecidableEq ε] in
theorem observed_schedule (hs : s.Observed) (handler : η) (watch : ObservedWatch)
    (starts : Bool) :
    (s.schedule handler watch starts).Observed ↔ s.NoFailure (.schedule handler watch starts) := by
  by_cases hnone : s.emitterForWatch watch = none
  · have hkept (other : ObservedWatch) : other ∈ s.watches.insert watch ↔
        (s.emitterForWatch.put watch (s.newEmitter watch)) other ≠ none := by
      rw [List.mem_insert_iff, PMap.put_apply, hs.watches]
      split
      case isTrue h => exact iff_of_true (Or.inl h) (Option.some_ne_none _)
      case isFalse h => exact or_iff_right h
    rw [schedule_of_eq_none hnone]
    split
    case isTrue halive =>
      split
      case isTrue hstarts =>
        refine iff_of_true ⟨hkept, fun _ => ?_⟩ fun _ _ => hstarts
        refine List.forall_mem_cons.mpr ⟨List.mem_cons_self, fun emitter hemitter => ?_⟩
        exact List.mem_cons_of_mem _ (hs.started halive emitter hemitter)
      case isFalse hstarts =>
        refine iff_of_false (fun hobserved => ?_) fun h => hstarts (h halive hnone)
        have hwatch : watch ∈ s.watches := by
          apply (hobserved.watches watch).mpr
          show (s.emitterForWatch.put watch (s.newEmitter watch)) watch ≠ none
          rw [PMap.put_self]
          exact Option.some_ne_none _
        exact (hs.watches watch).mp hwatch hnone
    case isFalse hdead =>
      exact iff_of_true ⟨hkept, fun halive => absurd halive hdead⟩ fun halive =>
        absurd halive hdead
  · rw [schedule_of_ne_none hnone]
    refine iff_of_true ⟨fun other => ?_, hs.started⟩ fun _ h => absurd h hnone
    show other ∈ s.watches.insert watch ↔ s.emitterForWatch other ≠ none
    rw [List.mem_insert_iff, hs.watches, or_iff_right_of_imp]
    rintro rfl
    exact hnone

omit [DecidableEq ε] [DecidableEq η] in
theorem observed_unschedule (hs : s.Inv) (hobserved : s.Observed) (watch : ObservedWatch) :
    (s.unschedule watch).Observed := by
  cases h : s.emitterForWatch watch with
  | none =>
    rw [unschedule, h]
    exact ⟨hobserved.watches, hobserved.started⟩
  | some emitter =>
    have hwatch : watch ∈ s.watches :=
      (hobserved.watches watch).mpr (h ▸ Option.some_ne_none emitter)
    rw [unschedule_of_eq_some hs h, if_pos hwatch]
    refine ⟨fun other => ?_, fun halive e he => ?_⟩
    · show other ∈ s.watches.filter (· ≠ watch) ↔
        (s.emitterForWatch.remove emitter.watch) other ≠ none
      rw [List.mem_filter, decide_eq_true_eq, PMap.remove_apply, hobserved.watches,
        ((hs.emitter_iff watch emitter).mp h).2]
      split
      case isTrue heq => exact iff_of_false (fun h => h.2 heq) fun h => h rfl
      case isFalse hne => exact and_iff_left hne
    · exact hobserved.started halive e (List.mem_of_mem_filter he)

omit [DecidableEq ε] [DecidableEq η] in
theorem observed_start (hs : s.Inv) (hobserved : s.Observed) {order : List EventEmitter}
    (horder : order.Perm s.emitters) (starts : EventEmitter → Bool) :
    (s.start order starts).Observed ↔ s.NoFailure (.start order starts) := by
  have hnodup := hs.nodup_of_perm horder
  have hall : s.NoFailure (.start order starts) ↔
      ∀ emitter ∈ order, starts emitter = true ∧ emitter.id ∉ s.started :=
    (imp_iff_right horder).trans (forall_congr' fun emitter => imp_congr_left horder.mem_iff.symm)
  rw [start, hall]
  by_cases h : ∀ emitter ∈ order, starts emitter = true ∧ emitter.id ∉ s.started
  · rw [startEmitters_of_forall hnodup h, if_pos rfl]
    have hstarted : ∀ emitter ∈ s.emitters,
        emitter.id ∈ (order.map EventEmitter.id).reverse ++ s.started := by
      intro emitter hmem
      apply List.mem_append_left
      rw [List.mem_reverse]
      exact List.mem_map.mpr ⟨emitter, horder.mem_iff.mpr hmem, rfl⟩
    refine iff_of_true ?_ h
    split
    · exact ⟨hobserved.watches, fun _ => hstarted⟩
    · exact ⟨hobserved.watches, fun _ => hstarted⟩
  · obtain ⟨emitter, hemitter, ids, -, heq⟩ := startEmitters_of_not_forall hnodup h
    rw [heq, if_neg (Option.some_ne_none _)]
    refine iff_of_false (fun hafter => ?_) h
    have hkept :=
      (hs.emitter_iff emitter.watch emitter).mpr ⟨horder.mem_iff.mp hemitter, rfl⟩
    have hwatch := (hobserved.watches emitter.watch).mpr (hkept ▸ Option.some_ne_none emitter)
    apply (hafter.watches emitter.watch).mp hwatch
    show (s.emitterForWatch.remove emitter.watch) emitter.watch = none
    rw [PMap.remove_apply, if_pos rfl]

omit [DecidableEq ε] [DecidableEq η] in
theorem observed_unscheduleAll : s.unscheduleAll.Observed where
  watches _ := iff_of_false List.not_mem_nil fun h => h rfl
  started _ _ h := absurd h List.not_mem_nil

theorem observed_step (s : BaseObserver ε η) (a : Act ε η) (t : BaseObserver ε η) (hs : s.Inv)
    (hobserved : s.Observed) (h : s.step a = some t) : t.Observed ↔ s.NoFailure a := by
  cases a with
  | schedule handler watch starts =>
    exact Option.some.inj h ▸ observed_schedule hobserved handler watch starts
  | addHandlerForWatch handler watch =>
    rw [← Option.some.inj h]
    exact iff_of_true ⟨hobserved.watches, hobserved.started⟩ trivial
  | removeHandlerForWatch handler watch =>
    rw [← Option.some.inj h, removeHandlerForWatch]
    refine iff_of_true ?_ trivial
    split
    · exact ⟨hobserved.watches, hobserved.started⟩
    split
    · exact ⟨hobserved.watches, hobserved.started⟩
    · exact ⟨hobserved.watches, hobserved.started⟩
  | unschedule watch =>
    rw [← Option.some.inj h]
    exact iff_of_true (observed_unschedule hs hobserved watch) trivial
  | unscheduleAll =>
    rw [← Option.some.inj h]
    exact iff_of_true observed_unscheduleAll trivial
  | start order starts =>
    obtain ⟨horder, hstart⟩ := start_of_step h
    exact hstart ▸ observed_start hs hobserved horder starts
  | stop =>
    rw [← Option.some.inj h]
    exact iff_of_true observed_unscheduleAll trivial
  | queueEvent => exact iff_of_true (hobserved.of_same (same_queueEvent h)) trivial
  | get => exact iff_of_true (hobserved.of_same (same_get h)) trivial
  | lock => exact iff_of_true (hobserved.of_same (same_lock h).1) trivial
  | dispatch => exact iff_of_true (hobserved.of_same (same_dispatch h).1) trivial
  | done => exact iff_of_true (hobserved.of_same (same_done h)) trivial
  | finish => exact iff_of_true (hobserved.of_same (same_finish h).1) trivial

end BaseObserver

open BaseObserver

variable {s t : BaseObserver ε η} {watch : ObservedWatch}

/-- **The watches** are the ones with an emitter, started once the observer is, all along a run
exactly if no emitter fails to start. -/
theorem observed_iff_meets (as : List (Act ε η)) :
    observerLts.Always Observed .new as ↔ observerLts.Meets NoFailure .new as := by
  refine Lts.always_iff_meets_of_invariant inv_step observed_step ?_ inv_new observed_new as
  intro s a h
  cases a with
  | schedule => cases h
  | start order starts =>
    intro horder
    have hstart : s.step (.start order starts) = some (s.start order starts) := if_pos horder
    exact absurd (hstart.symm.trans h) (Option.some_ne_none _)
  | _ => trivial

/-! ### An emitter that has failed to start -/

/-- The watch is kept with an emitter that has not been started. -/
def Unobserved (watch : ObservedWatch) (s : BaseObserver ε η) : Prop :=
  ∃ emitter, s.emitterForWatch watch = some emitter ∧ emitter.id ∉ s.started

/-- Not a call that unschedules the watch, nor one that starts the observer. -/
def Keeps (watch : ObservedWatch) : Act ε η → Prop
  | .unschedule other => other ≠ watch
  | .unscheduleAll => False
  | .stop => False
  | .start .. => False
  | _ => True

/-- The events of a watch that have been queued. -/
def queued (watch : ObservedWatch) (s : BaseObserver ε η) : List (ε × ObservedWatch) :=
  s.queue.puts.filter fun item => item.2 = watch

omit [DecidableEq ε] in
theorem unobserved_schedule (hs : s.Inv) (h : Unobserved watch s) (handler : η)
    (other : ObservedWatch) (starts : Bool) :
    Unobserved watch (s.schedule handler other starts) := by
  obtain ⟨emitter, hemitter, hid⟩ := h
  by_cases hnone : s.emitterForWatch other = none
  · have hne : watch ≠ other := by
      rintro rfl
      rw [hnone] at hemitter
      exact nomatch hemitter
    have hkept : (s.emitterForWatch.put other (s.newEmitter other)) watch = some emitter := by
      rw [PMap.put_of_ne _ _ hne, hemitter]
    rw [schedule_of_eq_none hnone]
    split
    · split
      · refine ⟨emitter, hkept, ?_⟩
        rw [List.mem_cons, not_or]
        have hlt := hs.fresh emitter ((hs.emitter_iff watch emitter).mp hemitter).1
        exact ⟨Nat.ne_of_lt hlt, hid⟩
      · exact ⟨emitter, hkept, hid⟩
    · exact ⟨emitter, hkept, hid⟩
  · rw [schedule_of_ne_none hnone]
    exact ⟨emitter, hemitter, hid⟩

omit [DecidableEq ε] [DecidableEq η] in
theorem unobserved_unschedule (hs : s.Inv) (h : Unobserved watch s) {other : ObservedWatch}
    (hother : other ≠ watch) : Unobserved watch (s.unschedule other) := by
  obtain ⟨emitter, hemitter, hid⟩ := h
  cases hnone : s.emitterForWatch other with
  | none =>
    rw [unschedule, hnone]
    exact ⟨emitter, hemitter, hid⟩
  | some removed =>
    have hkept : (s.emitterForWatch.remove removed.watch) watch = some emitter := by
      rw [PMap.remove_apply, ((hs.emitter_iff other removed).mp hnone).2, if_neg hother.symm,
        hemitter]
    rw [unschedule_of_eq_some hs hnone]
    split
    · exact ⟨emitter, hkept, hid⟩
    · exact ⟨emitter, hkept, hid⟩

omit [DecidableEq ε] [DecidableEq η] in
theorem Unobserved.of_same (h : Unobserved watch s) (hsame : s.Same t) : Unobserved watch t := by
  rw [Unobserved, hsame.emitterForWatch, hsame.started]
  exact h

/-- No events of the watch are queued, as its emitter does not run. -/
theorem queued_queueEvent (hs : s.Inv) (h : Unobserved watch s) {emitter : EventEmitter}
    {event : ε} (hstep : s.step (.queueEvent emitter event) = some t) :
    queued watch t = queued watch s := by
  obtain ⟨kept, hkept, hid⟩ := h
  rw [BaseObserver.step] at hstep
  split at hstep
  case isFalse => cases hstep
  case isTrue henabled =>
    have hne : emitter.watch ≠ watch := by
      rintro rfl
      rw [(hs.emitter_iff emitter.watch emitter).mpr ⟨henabled.1, rfl⟩] at hkept
      exact hid (Option.some.inj hkept ▸ henabled.2)
    obtain ⟨queue, hput, rfl⟩ := Option.map_eq_some_iff.mp hstep
    obtain rfl := Option.some.inj hput
    show (s.queue.puts ++ [(event, emitter.watch)]).filter _ = _
    rw [List.filter_append, List.filter_singleton, decide_eq_false hne]
    exact List.append_nil _

omit [DecidableEq ε] in
theorem queue_schedule (s : BaseObserver ε η) (handler : η) (watch : ObservedWatch)
    (starts : Bool) : (s.schedule handler watch starts).queue = s.queue := by
  by_cases h : s.emitterForWatch watch = none
  · rw [schedule_of_eq_none h]
    split
    · split
      · rfl
      · rfl
    · rfl
  · rw [schedule_of_ne_none h]
    rfl

omit [DecidableEq ε] [DecidableEq η] in
theorem queue_unschedule (hs : s.Inv) (watch : ObservedWatch) :
    (s.unschedule watch).queue = s.queue := by
  cases h : s.emitterForWatch watch with
  | none => rw [unschedule, h]
  | some emitter =>
    rw [unschedule_of_eq_some hs h]
    split
    · rfl
    · rfl

theorem puts_get (h : s.step .get = some t) : t.queue.puts = s.queue.puts := by
  rw [BaseObserver.step] at h
  split at h
  · split at h
    · cases h
    · obtain ⟨queue, hget, rfl⟩ := Option.map_eq_some_iff.mp h
      obtain ⟨⟨item, q⟩, -, rfl⟩ := Option.map_eq_some_iff.mp hget
      rfl
  · cases h

theorem puts_done (h : s.step .done = some t) : t.queue.puts = s.queue.puts := by
  rw [BaseObserver.step] at h
  split at h
  · obtain ⟨queue, hdone, rfl⟩ := Option.map_eq_some_iff.mp h
    obtain ⟨q, -, rfl⟩ := Option.map_eq_some_iff.mp hdone
    rfl
  · cases h

/-- A step that keeps the watch. -/
theorem unobserved_step {a : Act ε η} (hs : s.Inv) (h : Unobserved watch s) (ha : Keeps watch a)
    (hstep : s.step a = some t) : Unobserved watch t ∧ queued watch t = queued watch s := by
  cases a with
  | schedule handler other starts =>
    rw [← Option.some.inj hstep, queued, queue_schedule]
    exact ⟨unobserved_schedule hs h handler other starts, rfl⟩
  | addHandlerForWatch handler other =>
    rw [← Option.some.inj hstep]
    exact ⟨h, rfl⟩
  | removeHandlerForWatch handler other =>
    rw [← Option.some.inj hstep, removeHandlerForWatch]
    split
    · exact ⟨h, rfl⟩
    split
    · exact ⟨h, rfl⟩
    · exact ⟨h, rfl⟩
  | unschedule other =>
    rw [← Option.some.inj hstep, queued, queue_unschedule hs]
    exact ⟨unobserved_unschedule hs h ha, rfl⟩
  | unscheduleAll => exact absurd ha id
  | start order starts => exact absurd ha id
  | stop => exact absurd ha id
  | queueEvent emitter event =>
    exact ⟨h.of_same (same_queueEvent hstep), queued_queueEvent hs h hstep⟩
  | get => exact ⟨h.of_same (same_get hstep), congrArg (List.filter _) (puts_get hstep)⟩
  | lock =>
    obtain ⟨hsame, hqueue⟩ := same_lock hstep
    rw [queued, hqueue]
    exact ⟨h.of_same hsame, rfl⟩
  | dispatch =>
    obtain ⟨hsame, hqueue⟩ := same_dispatch hstep
    rw [queued, hqueue]
    exact ⟨h.of_same hsame, rfl⟩
  | done => exact ⟨h.of_same (same_done hstep), congrArg (List.filter _) (puts_done hstep)⟩
  | finish =>
    obtain ⟨hsame, hqueue⟩ := same_finish hstep
    rw [queued, hqueue]
    exact ⟨h.of_same hsame, rfl⟩

theorem unobserved_after {as : List (Act ε η)} (hs : s.Inv) (h : Unobserved watch s)
    (has : ∀ a ∈ as, Keeps watch a) (hrun : observerLts.run s as = some t) :
    Unobserved watch t ∧ queued watch t = queued watch s := by
  induction as generalizing s with
  | nil =>
    rw [Lts.run_nil, Option.some.injEq] at hrun
    exact ⟨hrun ▸ h, hrun ▸ rfl⟩
  | cons a as ih =>
    obtain ⟨ha, has'⟩ := List.forall_mem_cons.mp has
    obtain ⟨s', hstep, hrun'⟩ := Lts.run_cons_eq_some.mp hrun
    obtain ⟨h', hqueued⟩ := unobserved_step hs h ha hstep
    obtain ⟨ht, hqueued'⟩ := ih (inv_step s a s' hs hstep) h' has' hrun'
    exact ⟨ht, hqueued'.trans hqueued⟩

/-- **A watch whose emitter has failed to start** gets no events, and scheduling it again, which
raises nothing, does not start it. -/
theorem unobserved_run {before after : List (Act ε η)} {handler : η}
    (hbefore : observerLts.run .new before = some s) (halive : s.thread = .alive)
    (hnone : s.emitterForWatch watch = none)
    (hafter : ∀ a ∈ after, Keeps watch a)
    (hrun : observerLts.run s (.schedule handler watch false :: after) = some t) :
    queued watch t = queued watch s ∧
      ∀ handler starts, (t.schedule handler watch starts).raised = none := by
  obtain ⟨s', hstep, hrun'⟩ := Lts.run_cons_eq_some.mp hrun
  have hs : s.Inv := Lts.invariant_of_run inv_step inv_new hbefore
  obtain rfl := Option.some.inj hstep
  have hfailed : Unobserved watch (s.schedule handler watch false) := by
    rw [schedule_of_eq_none hnone, if_pos halive]
    refine ⟨s.newEmitter watch, PMap.put_self _ _ _, fun hmem => ?_⟩
    exact absurd (hs.fresh_started _ hmem) (Nat.lt_irrefl _)
  obtain ⟨⟨emitter, hemitter, -⟩, hqueued⟩ :=
    unobserved_after (inv_schedule hs handler watch false) hfailed hafter hrun'
  refine ⟨hqueued.trans (congrArg (List.filter _) (congrArg QueueState.puts
    (queue_schedule s handler watch false))), fun handler starts => ?_⟩
  rw [schedule_of_ne_none (hemitter ▸ Option.some_ne_none emitter)]

/-- The watch is scheduled twice while its directory cannot be read at first. -/
theorem unobserved_twice :
    ∃ t : BaseObserver Nat Nat,
      observerLts.run .new [.start [] fun _ => true, .schedule 0 ⟨"src", true⟩ false,
        .schedule 0 ⟨"src", true⟩ true] = some t ∧ queued ⟨"src", true⟩ t = [] := by
  have hafter : ∀ a ∈ ([.schedule 0 ⟨"src", true⟩ true] : List (Act Nat Nat)),
      Keeps ⟨"src", true⟩ a := List.forall_mem_singleton.mpr trivial
  have hbefore : observerLts.run (.new : BaseObserver Nat Nat) [.start [] fun _ => true] =
      some { BaseObserver.new with thread := .alive } := rfl
  obtain ⟨t, hrun⟩ : ∃ t : BaseObserver Nat Nat, observerLts.run { new with thread := .alive }
      [.schedule 0 ⟨"src", true⟩ false, .schedule 0 ⟨"src", true⟩ true] = some t := ⟨_, rfl⟩
  exact ⟨t, hrun, (unobserved_run hbefore rfl rfl hafter hrun).1⟩

end Reloadium.Watchdog.Observer
