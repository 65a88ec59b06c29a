import Reloadium.Lib.Ring
import Reloadium.Ai.ContextManager

namespace Reloadium.Ai

open Reloadium.Lib

/-!
# Ai — walking around the contexts

`setPreviousContextToCurrent` looks the current context up in the list and takes the one
before it, or the last one.  Contexts are told apart by the number they were built under, so
that the look-up finds the one place of the current context.

* `Numbered` — every context of the list has a number of its own, below the next one;
* `numbered_run` — so it is in every reachable state;
* `iterate_setPreviousContextToCurrent` — where a walk is after some steps;
* `contextCycle` — a round comes by every context once and ends where it started.
-/

namespace ContextManager

/-! ### Numbers -/

/-- The contexts of the list have numbers of their own, below the next one. -/
structure Numbered (s : ContextManager) : Prop where
  nodup : (s.contexts.map Context.id).Nodup
  lt : ∀ c ∈ s.contexts, c.id < s.nextId

theorem Numbered.nodup_contexts {s : ContextManager} (h : Numbered s) : s.contexts.Nodup :=
  List.Nodup.of_map _ h.nodup

theorem map_id_objects (nextId : Nat) (contexts : List ContextData) :
    (objects nextId contexts).map Context.id = List.range' nextId contexts.length := by
  induction contexts generalizing nextId with
  | nil => rfl
  | cons data rest ih =>
    rw [objects, List.map_cons, ih]
    rfl

theorem numbered_onContextsChanged (s : ContextManager) (contexts : List ContextData) :
    Numbered (s.onContextsChanged contexts) := by
  have hids : (s.onContextsChanged contexts).contexts.map Context.id =
      List.range' s.nextId (contexts.length + 1) := by
    show Context.id ⟨s.nextId, .none⟩ :: (objects (s.nextId + 1) contexts).map Context.id = _
    rw [map_id_objects]
    rfl
  refine ⟨hids ▸ List.nodup_range', fun c hc => ?_⟩
  have hmem := List.mem_map_of_mem (f := Context.id) hc
  rw [hids, List.mem_range'_1] at hmem
  have hnext : (s.onContextsChanged contexts).nextId = s.nextId + 1 + contexts.length := rfl
  omega

theorem numbered_reset (s : ContextManager) : Numbered s.reset :=
  ⟨List.nodup_singleton _, fun c hc => by
    obtain rfl := List.mem_singleton.mp hc
    exact Nat.lt_succ_self _⟩

/-- A new context takes the next number, whether it replaces one or is appended. -/
theorem numbered_setSelectionContext {s : ContextManager} (h : Numbered s)
    (data : ContextData) : Numbered (s.setSelectionContext data) := by
  have hnew : s.nextId ∉ s.contexts.map Context.id := by
    intro hmem
    obtain ⟨c, hc, hid⟩ := List.mem_map.mp hmem
    exact absurd (h.lt c hc) (by omega)
  by_cases hlast : s.contexts.getLast?.map Context.getType = some .SELECTION
  · have hcontexts : (s.setSelectionContext data).contexts =
        s.contexts.set (s.contexts.length - 1) ⟨s.nextId, data⟩ := if_pos hlast
    refine ⟨?_, fun c hc => ?_⟩
    · rw [hcontexts, List.map_set]
      exact h.nodup.set hnew
    · rw [hcontexts] at hc
      rcases List.mem_or_eq_of_mem_set hc with hc | rfl
      · exact Nat.lt_succ_of_lt (h.lt c hc)
      · exact Nat.lt_succ_self _
  · have hcontexts : (s.setSelectionContext data).contexts =
        s.contexts ++ [⟨s.nextId, data⟩] := if_neg hlast
    refine ⟨?_, fun c hc => ?_⟩
    · rw [hcontexts, List.map_append, List.map_singleton]
      exact List.nodup_append.mpr ⟨h.nodup, List.nodup_singleton _, fun a ha b hb heq => by
        obtain rfl := List.mem_singleton.mp hb
        rw [heq] at ha
        exact hnew ha⟩
    · rw [hcontexts] at hc
      rcases List.mem_append.mp hc with hc | hc
      · exact Nat.lt_succ_of_lt (h.lt c hc)
      · obtain rfl := List.mem_singleton.mp hc
        exact Nat.lt_succ_self _

theorem numbered_setCurrentIndex {s : ContextManager} (h : Numbered s) (i : Nat) :
    Numbered (s.setCurrentIndex i) := by
  unfold setCurrentIndex
  cases s.contexts[i]? with
  | none => exact h
  | some c => exact ⟨h.nodup, h.lt⟩

/-- **Step lemma.** -/
theorem numbered_step {s : ContextManager} (h : Numbered s) (event : ContextEvent) :
    Numbered (s.step event) := by
  have hcaret (caret : CaretEvent) : Numbered (s.caretPositionChanged caret) := by
    cases caret with
    | none => exact h
    | some found => exact numbered_onContextsChanged s _
  cases event with
  | caretPositionChanged event => exact hcaret event
  | selectionChanged event =>
    cases event with
    | empty caret => exact hcaret caret
    | range file code firstLine lastLine =>
      show Numbered (if code.isBlank then s else s.setSelectionContext _)
      split
      · exact h
      · exact numbered_setSelectionContext h _
  | reset => exact numbered_reset s
  | setPreviousContextToCurrent => exact numbered_setCurrentIndex h _
  | setCurrentContextToNone => exact numbered_setCurrentIndex h 0
  | pick prompt item =>
    show Numbered (s.pick prompt item)
    unfold pick
    cases s.popupMenus[prompt]?.bind (·[item]?) with
    | none => exact h
    | some c => exact ⟨h.nodup, h.lt⟩
  | addPrompt => exact ⟨h.nodup, h.lt⟩

/-- **Run lemma.** -/
theorem numbered_run (events : List ContextEvent) : Numbered (run events) := by
  induction events using List.reverseRecOn with
  | nil => exact numbered_reset _
  | append_singleton events event ih =>
    rw [run, List.foldl_append]
    exact numbered_step ih event

/-! ### The walk -/

/-- **Spec lemma.** From the context at an index to the one before it. -/
theorem setPreviousContextToCurrent_spec {s : ContextManager} (hnodup : s.contexts.Nodup)
    {i : Nat} (hi : s.contexts[i]? = some s.currentContext) :
    s.setPreviousContextToCurrent.contexts = s.contexts ∧
      s.contexts[Ring.before s.contexts.length i]? =
        some s.setPreviousContextToCurrent.currentContext := by
  obtain ⟨hlt, hget⟩ := List.getElem?_eq_some_iff.mp hi
  have hidx : s.contexts.idxOf s.currentContext = i := by
    rw [← hget]
    exact hnodup.idxOf_getElem i hlt
  have hprevious : s.previousIndex = Ring.before s.contexts.length i := by
    unfold previousIndex Ring.before
    simp only [hidx, hlt, and_true]
  have hbefore := Ring.before_lt hlt
  unfold setPreviousContextToCurrent setCurrentIndex
  rw [hprevious, List.getElem?_eq_getElem hbefore]
  exact ⟨rfl, rfl⟩

/-- **The walk.** The list stays, and the index goes down step by step. -/
theorem iterate_setPreviousContextToCurrent {s : ContextManager} (hnodup : s.contexts.Nodup)
    {i : Nat} (hi : s.contexts[i]? = some s.currentContext) {k : Nat}
    (hk : k ≤ s.contexts.length) :
    (setPreviousContextToCurrent^[k] s).contexts = s.contexts ∧
      s.contexts[Ring.walk s.contexts.length i k]? =
        some (setPreviousContextToCurrent^[k] s).currentContext := by
  have hlt := (List.getElem?_eq_some_iff.mp hi).1
  induction k with
  | zero => exact ⟨rfl, hi⟩
  | succ k ih =>
    obtain ⟨hcontexts, hcurrent⟩ := ih (by omega)
    rw [Function.iterate_succ_apply']
    generalize setPreviousContextToCurrent^[k] s = t at hcontexts hcurrent ⊢
    rw [← hcontexts] at hcurrent hnodup
    have hstep := setPreviousContextToCurrent_spec hnodup hcurrent
    rw [hcontexts, Ring.before_walk hlt (by omega)] at hstep
    exact hstep

/-- **A full cycle.** From every reachable state, as many steps as there are contexts make
    every context current exactly once, and lead back to the context that was current; the
    list, of which no context is listed twice, stays as it is at every step. -/
theorem contextCycle (events : List ContextEvent) :
    (run events).contexts.Nodup ∧
    (∀ k ≤ (run events).contexts.length,
      (setPreviousContextToCurrent^[k] (run events)).contexts = (run events).contexts) ∧
    (∀ c ∈ (run events).contexts, ∃! k, (1 ≤ k ∧ k ≤ (run events).contexts.length) ∧
      (setPreviousContextToCurrent^[k] (run events)).currentContext = c) ∧
    (setPreviousContextToCurrent^[(run events).contexts.length] (run events)).currentContext =
      (run events).currentContext := by
  have hnodup := (numbered_run events).nodup_contexts
  have hmem := (contextManager_inv events).current_mem
  generalize run events = s at hnodup hmem ⊢
  obtain ⟨i, hi⟩ := List.mem_iff_getElem?.mp hmem
  have hlt := (List.getElem?_eq_some_iff.mp hi).1
  have hwalk {k : Nat} (hk : k ≤ s.contexts.length) :=
    iterate_setPreviousContextToCurrent hnodup hi hk
  refine ⟨hnodup, fun k hk => (hwalk hk).1, fun c hc => ?_, ?_⟩
  · -- the steps that lead to the context are those that lead to its index
    obtain ⟨j, hj⟩ := List.mem_iff_getElem?.mp hc
    have hj' := (List.getElem?_eq_some_iff.mp hj).1
    have hiff {k : Nat} (hk : k ≤ s.contexts.length) :
        (setPreviousContextToCurrent^[k] s).currentContext = c ↔
          Ring.walk s.contexts.length i k = j := by
      have hcurrent := (hwalk hk).2
      have hlt' := (List.getElem?_eq_some_iff.mp hcurrent).1
      rw [← Option.some.injEq, ← hcurrent, ← hj]
      exact List.getElem?_inj hlt' hnodup
    obtain ⟨k, ⟨hk, hj⟩, hunique⟩ := Ring.existsUnique_walk hlt hj'
    exact ⟨k, ⟨hk, (hiff hk.2).mpr hj⟩, fun k' hk' =>
      hunique k' ⟨hk'.1, (hiff hk'.1.2).mp hk'.2⟩⟩
  · have hround := (hwalk (Nat.le_refl _)).2
    rw [Ring.walk_round hlt, hi, Option.some.injEq] at hround
    exact hround.symm

end ContextManager

end Reloadium.Ai
