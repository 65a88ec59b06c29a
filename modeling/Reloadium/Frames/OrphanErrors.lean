import Reloadium.Frames.ThreadErrors

namespace Reloadium.Frames

/-!
# Frames — active errors outside the map

An active error that no thread of the map is bound to stays on the screen: neither a clear of
its thread nor a deactivation reaches it.

* `NoOrphan` — every active error is a value of the map;
* `noOrphan_step_iff` — the one step that makes an orphan is an error raised for a thread
  whose last error is still shown, and no step removes one;
* `noOrphan_afterOps_iff` — what follows for sequences of operations.
-/

namespace ThreadErrorManager

/-- Every error ever created that is active is a value of the map. -/
def NoOrphan (m : ThreadErrorManager) : Prop :=
  ∀ ref te, m.errors[ref]? = some te → te.active = true → ref ∈ m.values

/-- The operation creates no error for a thread whose error is active. -/
def ReplacesHidden (m : ThreadErrorManager) : ThreadOp → Prop
  | .onThreadError event =>
    event.file ≠ none → ∀ te, m.errorOf event.threadId = some te → te.active = false
  | _ => True

variable {m : ThreadErrorManager} {op : ThreadOp} {ref : Nat} {te : ThreadError}

/-- Only `onThreadError` creates an error. -/
theorem created_of_step (hnone : m.errors[ref]? = none) (hte : (m.step op).errors[ref]? = some te) :
    ∃ event, op = .onThreadError event ∧ event.file ≠ none ∧ ref = m.errors.length := by
  cases op with
  | onThreadError event =>
    rw [step, onThreadError] at hte
    cases hfile : event.file with
    | none => simp [hfile, hnone] at hte
    | some file =>
      rw [hfile] at hte
      have hlt := (List.getElem?_eq_some_iff.mp hte).1
      rw [List.getElem?_eq_none_iff] at hnone
      rw [List.length_append, List.length_singleton] at hlt
      exact ⟨event, rfl, by simp [hfile], by omega⟩
  | onThreadErrorClear threadId =>
    have hte : (m.onErrorOf (some threadId) ThreadError.deactivate).errors[ref]? = some te := hte
    simp [getElem?_onErrorOf_none _ _ hnone] at hte
  | onThreadChanged threadId =>
    rw [step, onThreadChanged] at hte
    split at hte
    · simp [hnone] at hte
    · rw [getElem?_onErrorOf_none] at hte
      · cases hte
      · rw [getElem?_deactivateWhere]
        simpa using hnone
  | activate activeThread =>
    rw [step, activate, getElem?_onErrorOf_none _ _ hnone] at hte
    cases hte
  | deactivate =>
    rw [step, deactivate, getElem?_deactivateWhere, hnone] at hte
    cases hte

/-- An error outside the map stays outside. -/
theorem mem_values_of_step (hte : m.errors[ref]? = some te) (hmem : ref ∈ (m.step op).values) :
    ref ∈ m.values := by
  have hlt : ref < m.errors.length := (List.getElem?_eq_some_iff.mp hte).1
  obtain ⟨k, hk⟩ := (mem_values _ ref).mp hmem
  rw [lookup_step] at hk
  refine (mem_values m ref).mpr ⟨k, ?_⟩
  cases op with
  | onThreadError event =>
    dsimp only at hk
    split at hk
    · -- the new error has a number of its own
      rw [Option.some.injEq] at hk
      omega
    · exact hk
  | onThreadErrorClear threadId =>
    dsimp only at hk
    split at hk
    · cases hk
    · exact hk
  | onThreadChanged threadId => exact hk
  | activate activeThread => exact hk
  | deactivate => exact hk

/-- An error of the map whose flag a step leaves set stays in the map, unless an error is
    raised for its thread. -/
theorem mem_values_step (h : m.Keyed) (hte : m.errors[ref]? = some te) (hmem : ref ∈ m.values)
    (hflag : op.flag m.lastThreadId te.threadId te.active = true)
    (hop : ∀ event, op = .onThreadError event → event.file ≠ none → te.threadId ≠ event.threadId) :
    ref ∈ (m.step op).values := by
  have hk := (h.lookup_eq_iff hte te.threadId).mpr ⟨hmem, rfl⟩
  refine (mem_values _ ref).mpr ⟨te.threadId, ?_⟩
  rw [lookup_step]
  cases op with
  | onThreadError event =>
    show (if _ then _ else _) = _
    rw [if_neg fun hnew => hop event rfl hnew.1 hnew.2]
    exact hk
  | onThreadErrorClear threadId =>
    have hne : te.threadId ≠ threadId := by
      simp only [ThreadOp.flag, Bool.and_eq_true, decide_eq_true_eq] at hflag
      exact hflag.2
    show (if _ then _ else _) = _
    rw [if_neg hne]
    exact hk
  | onThreadChanged threadId => exact hk
  | activate activeThread => exact hk
  | deactivate => exact hk

/-- An orphan stays one, whatever is done. -/
theorem noOrphan_of_step (h : m.Keyed) (hstep : (m.step op).NoOrphan) : m.NoOrphan := by
  intro ref te hte hactive
  by_contra hout
  have hte' := getElem?_step h op hte
  rw [if_neg hout] at hte'
  exact hout (mem_values_of_step hte (hstep ref te hte' hactive))

/-- The error that is replaced is not in the map any more. -/
theorem replacesHidden_of_step (h : m.Keyed) (hstep : (m.step op).NoOrphan) :
    m.ReplacesHidden op := by
  cases op with
  | onThreadError event =>
    intro hfile te hte
    obtain ⟨ref, hk, hte⟩ := Option.bind_eq_some_iff.mp hte
    by_contra hactive
    rw [Bool.not_eq_false] at hactive
    have hte' := getElem?_step h (.onThreadError event) hte
    have hmem := hstep ref _ hte' (by split <;> exact hactive)
    obtain ⟨k, hk'⟩ := (mem_values _ ref).mp hmem
    have hlt : ref < m.errors.length := (List.getElem?_eq_some_iff.mp hte).1
    rw [lookup_step] at hk'
    dsimp only at hk'
    split at hk'
    · rw [Option.some.injEq] at hk'
      omega
    · next hnew => exact hnew ⟨hfile, h.inj hk' hk⟩
  | onThreadErrorClear threadId => trivial
  | onThreadChanged threadId => trivial
  | activate activeThread => trivial
  | deactivate => trivial

/-- Apart from such a replacement, every step keeps all active errors in the map. -/
theorem NoOrphan.step (hno : m.NoOrphan) (h : m.Keyed) (hop : m.ReplacesHidden op) :
    (m.step op).NoOrphan := by
  intro ref te' hte' hactive
  cases hte : m.errors[ref]? with
  | none =>
    obtain ⟨event, rfl, hfile, rfl⟩ := created_of_step hte hte'
    refine (mem_values _ _).mpr ⟨event.threadId, ?_⟩
    rw [lookup_step]
    exact if_pos ⟨hfile, rfl⟩
  | some te =>
    rw [getElem?_step h op hte, Option.some.injEq] at hte'
    subst hte'
    by_cases hmem : ref ∈ m.values
    · rw [if_pos hmem] at hactive
      refine mem_values_step h hte hmem hactive fun event hevent hfile hid => ?_
      -- the error that is replaced is this one, and it is active
      subst hevent
      have hk := (h.lookup_eq_iff hte event.threadId).mpr ⟨hmem, hid⟩
      have hinactive := hop hfile te (Option.bind_eq_some_iff.mpr ⟨ref, hk, hte⟩)
      exact absurd hactive (by simp [ThreadOp.flag, hinactive])
    · rw [if_neg hmem] at hactive
      exact absurd (hno ref te hte hactive) hmem

theorem noOrphan_step_iff (h : m.Keyed) :
    (m.step op).NoOrphan ↔ m.NoOrphan ∧ m.ReplacesHidden op :=
  ⟨fun hstep => ⟨noOrphan_of_step h hstep, replacesHidden_of_step h hstep⟩,
    fun ⟨hno, hop⟩ => hno.step h hop⟩

/-- **No orphan**, after a sequence of operations: exactly when no error of the sequence was
    raised for a thread whose error was still active. -/
theorem noOrphan_afterOps_iff (ops : List ThreadOp) :
    (afterOps ops).NoOrphan ↔
      ∀ before op, before ++ [op] <+: ops → (afterOps before).ReplacesHidden op := by
  induction ops using List.reverseRecOn with
  | nil =>
    apply Iff.intro
    · intro _ before op hprefix
      simp at hprefix
    · intro _ ref te hte _
      simp [afterOps, new] at hte
  | append_singleton ops op ih =>
    rw [afterOps_append_singleton, noOrphan_step_iff (keyed_afterOps ops), ih]
    apply Iff.intro
    · rintro ⟨hops, hop⟩ before op' hprefix
      rcases List.prefix_concat_iff.mp hprefix with heq | hprefix
      · obtain ⟨rfl, hlast⟩ := List.append_inj' heq rfl
        rw [List.singleton_inj] at hlast
        exact hlast ▸ hop
      · exact hops before op' hprefix
    · intro hall
      refine ⟨fun before op' hprefix => hall before op' ?_, hall ops op (List.prefix_refl _)⟩
      exact hprefix.trans (List.prefix_append _ _)

/-- Two errors of one thread in a row: the first one stays active outside the map. -/
theorem orphan_of_two_errors :
    ¬ (afterOps [.onThreadError ⟨"1", some "a.py", "NameError", 3⟩,
      .onThreadError ⟨"1", some "a.py", "TypeError", 4⟩]).NoOrphan := by
  intro h
  have hmem := h 0 ⟨"1", "a.py", "NameError", 3, true⟩ rfl rfl
  revert hmem
  decide

end ThreadErrorManager

end Reloadium.Frames
