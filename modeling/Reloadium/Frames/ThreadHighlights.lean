import Reloadium.Frames.OrphanErrors
import Reloadium.Highlights.Highlighter
import Reloadium.Lib.Refs
import Reloadium.Lib.Deferred

namespace Reloadium.Frames

open Reloadium.Lib Reloadium.Highlights

/-!
# Frames — the highlights of the thread errors

A `ThreadError` owns an `ErrorHighlighter`; its `activate` and `deactivate` set the flag at
once and post the showing and the hiding of the highlight to the UI thread.

`Kept` says that the highlights follow the flags once the tasks have run, and `Kept.step`
that every operation keeps it so.  What is visible after a deactivation are then the active
errors that are not in the map any more (`visible_deactivate`).
-/

/-- What the errors post, each by its number. -/
inductive ThreadTask where
  | «show» (ref : Nat) (highlighter : ErrorHighlighter)
  | hide (ref : Nat)
  deriving DecidableEq, Repr

/-- The highlighter that the constructor creates. -/
def ThreadError.highlighter (te : ThreadError) : ErrorHighlighter := ⟨te.file, te.line, te.msg⟩

/-- The error that a task is about. -/
def ThreadTask.ref : ThreadTask → Nat
  | .show ref _ => ref
  | .hide ref => ref

/-- The error is active and its highlight can be placed. -/
def ThreadError.lit (ide : EditorState) (te : ThreadError) : Bool :=
  te.active && te.highlighter.placeable ide

namespace ThreadErrorManager

/-- What `ThreadError.activate` posts. -/
def postShow (m : ThreadErrorManager) (ref : Nat) : List ThreadTask :=
  match m.errors[ref]? with
  | none => []
  | some te => [.show ref te.highlighter]

/-- The error bound to a thread, if there is one, posts. -/
def postOf (m : ThreadErrorManager) (threadId : Option String)
    (posted : Nat → List ThreadTask) : List ThreadTask :=
  match threadId.bind fun id => m.threadErrors.lookup id with
  | none => []
  | some ref => posted ref

/-- What an operation posts. -/
def posts (m : ThreadErrorManager) : ThreadOp → List ThreadTask
  | .onThreadError event =>
    match event.file with
    | none => []
    | some file => [.show m.errors.length ⟨file, event.line, event.msg⟩]
  | .onThreadErrorClear threadId => m.postOf (some threadId) fun ref => [.hide ref]
  | .onThreadChanged threadId =>
    if m.lastThreadId ≠ none ∧ m.lastThreadId = threadId then []
    else
      (m.values.filter fun ref =>
        m.errors[ref]?.any fun te => some te.threadId ≠ threadId).map .hide ++
      -- the error of the thread itself is not among those that were deactivated
      m.postOf threadId fun ref =>
        if m.errors[ref]?.any (·.active) then [] else m.postShow ref
  | .activate activeThread => m.postOf activeThread m.postShow
  | .deactivate => m.values.map .hide

/-- An operation with what it posts. -/
def posting (op : ThreadOp) : Posting ThreadErrorManager ThreadTask := fun m =>
  (m.step op, m.posts op)

/-- One task, on the marks of the highlighters. -/
def exec (ide : EditorState) (marks : Nat → Marks) : ThreadTask → Nat → Marks
  | .show ref highlighter => Function.update marks ref (highlighter.show ide (marks ref))
  | .hide ref => Function.update marks ref (ErrorHighlighter.hide (marks ref))

end ThreadErrorManager

/-- The manager and the marks of the highlighters. -/
abbrev ThreadHighlights := ThreadErrorManager × (Nat → Marks)

namespace ThreadHighlights

open ThreadErrorManager

/-- Whether the highlight of an error is visible, by the number of the error. -/
def visible (x : ThreadHighlights) (ref : Nat) : Bool := (x.2 ref).visible

/-- The highlights follow the flags. -/
structure Kept (ide : EditorState) (x : ThreadHighlights) : Prop where
  keyed : x.1.Keyed
  lit : ∀ ref, x.visible ref = x.1.errors[ref]?.any (·.lit ide)

variable {ide : EditorState} {x : ThreadHighlights} {ref : Nat} {te : ThreadError}

/-- An operation after its tasks. -/
abbrev settle (ide : EditorState) (op : ThreadOp) (x : ThreadHighlights) : ThreadHighlights :=
  (posting op).settle (ThreadErrorManager.exec ide) x

theorem kept_new : Kept ide (.new, fun _ => .new) := by
  refine ⟨keyed_new, fun ref => ?_⟩
  simp [visible, ThreadErrorManager.new]

/-! ### The tasks -/

/-- Hiding a list of errors. -/
theorem visible_foldl_hide (refs : List Nat) (marks : Nat → Marks) (r : Nat) :
    ((refs.map ThreadTask.hide).foldl (exec ide) marks r).visible =
      (decide (r ∉ refs) && (marks r).visible) := by
  induction refs generalizing marks with
  | nil => simp
  | cons ref refs ih =>
    rw [List.map_cons, List.foldl_cons, ih, exec]
    by_cases h : r = ref
    · subst h
      simp
    · simp [h]

/-- Showing an error. -/
theorem visible_foldl_postShow (m : ThreadErrorManager) (marks : Nat → Marks) (r : Nat) :
    ((m.postShow r).foldl (exec ide) marks ref).visible =
      ((marks ref).visible ||
        (decide (r = ref) && m.errors[ref]?.any (·.highlighter.placeable ide))) := by
  unfold postShow
  cases hr : m.errors[r]? with
  | none =>
    by_cases h : r = ref
    · subst h
      simp [hr]
    · simp [h]
  | some te =>
    by_cases h : r = ref
    · subst h
      simp [hr, exec, ErrorHighlighter.visible_show]
    · simp [exec, h, Function.update_of_ne (Ne.symm h)]

/-- What the error of a thread posts reaches that error only. -/
theorem visible_foldl_postOf (hkeyed : x.1.Keyed) (hte : x.1.errors[ref]? = some te)
    {marks : Nat → Marks} {posted : Nat → List ThreadTask} (shown : Bool)
    (hposted : ∀ r, ((posted r).foldl (exec ide) marks ref).visible =
      if r = ref then shown else (marks ref).visible) (threadId : Option String) :
    ((x.1.postOf threadId posted).foldl (exec ide) marks ref).visible =
      if ref ∈ x.1.values ∧ some te.threadId = threadId then shown else (marks ref).visible := by
  unfold postOf
  cases threadId with
  | none => simp
  | some k =>
    have hkey := hkeyed.lookup_eq_iff hte k
    simp only [Option.bind_some, Option.some.injEq, ← hkey]
    cases hk : x.1.threadErrors.lookup k with
    | none => simp
    | some r => simp [hposted]

theorem any_errors (hte : x.1.errors[ref]? = some te) (p : ThreadError → Bool) :
    x.1.errors[ref]?.any p = p te := by rw [hte, Option.any_some]

/-- What an operation makes of the highlight of an error: hidden or shown as its flag says. -/
theorem visible_settle (h : Kept ide x) (hte : x.1.errors[ref]? = some te) (op : ThreadOp) :
    (x.settle ide op).visible ref =
      if ref ∈ x.1.values then
        op.flag x.1.lastThreadId te.threadId te.active && te.highlighter.placeable ide
      else te.lit ide := by
  have hvis : (x.2 ref).visible = (te.active && te.highlighter.placeable ide) := by
    rw [← ThreadError.lit, ← any_errors hte (·.lit ide)]
    exact h.lit ref
  have hlt : ref < x.1.errors.length := (List.getElem?_eq_some_iff.mp hte).1
  have hshow : ∀ marks : Nat → Marks, ∀ r,
      ((x.1.postShow r).foldl (exec ide) marks ref).visible =
        if r = ref then (marks ref).visible || te.highlighter.placeable ide
        else (marks ref).visible := by
    intro marks r
    rw [visible_foldl_postShow, any_errors hte]
    by_cases hr : r = ref <;> simp [hr]
  show (((x.1.posts op).foldl (exec ide) x.2) ref).visible = _
  unfold ThreadError.lit
  cases op with
  | onThreadError event =>
    have hframe : (((x.1.posts (.onThreadError event)).foldl (exec ide) x.2) ref).visible =
        (x.2 ref).visible := by
      rw [posts]
      cases event.file with
      | none => rfl
      | some file => simp [exec, Function.update_of_ne (Nat.ne_of_lt hlt)]
    rw [hframe, hvis, ThreadOp.flag, ite_self]
  | onThreadErrorClear threadId =>
    rw [posts, visible_foldl_postOf h.keyed hte false fun r => ?_, hvis]
    · by_cases hmem : ref ∈ x.1.values <;> by_cases hid : te.threadId = threadId <;>
        simp [hmem, hid, ThreadOp.flag]
    · by_cases hr : r = ref
      · subst hr
        simp [exec]
      · simp [exec, hr, Function.update_of_ne (Ne.symm hr)]
  | onThreadChanged threadId =>
    rw [posts, ThreadOp.flag]
    by_cases hexit : x.1.lastThreadId ≠ none ∧ x.1.lastThreadId = threadId
    · rw [if_pos hexit, if_pos hexit, List.foldl_nil, hvis, ite_self]
    · rw [if_neg hexit, if_neg hexit, List.foldl_append]
      -- the errors of the other threads are hidden first
      have hhide : (((x.1.values.filter fun ref =>
          x.1.errors[ref]?.any fun te => some te.threadId ≠ threadId).map
            ThreadTask.hide).foldl (exec ide) x.2 ref).visible =
          (decide (ref ∉ x.1.values ∨ some te.threadId = threadId) && (x.2 ref).visible) := by
        rw [visible_foldl_hide]
        congr 2
        simp only [List.mem_filter, any_errors hte, decide_eq_true_eq, not_and_or, not_not]
      generalize ((x.1.values.filter fun ref =>
        x.1.errors[ref]?.any fun te => some te.threadId ≠ threadId).map
          ThreadTask.hide).foldl (exec ide) x.2 = marks at hhide ⊢
      rw [visible_foldl_postOf h.keyed hte
        ((decide (ref ∉ x.1.values ∨ some te.threadId = threadId) && (x.2 ref).visible) ||
          (!te.active && te.highlighter.placeable ide)) fun r => ?_, hhide, hvis]
      · by_cases hmem : ref ∈ x.1.values <;> by_cases hid : some te.threadId = threadId <;>
          cases te.active <;> simp [hmem, hid]
      · rw [hhide]
        by_cases hr : r = ref
        · subst hr
          rw [if_pos rfl, any_errors hte]
          cases te.active with
          | true => simpa using hhide
          | false => simp [hshow, hhide]
        · rw [if_neg hr]
          split
          · exact hhide
          · rw [hshow, if_neg hr, hhide]
  | activate activeThread =>
    rw [posts, visible_foldl_postOf h.keyed hte _ (hshow x.2), hvis]
    by_cases hmem : ref ∈ x.1.values <;> by_cases hid : some te.threadId = activeThread <;>
      cases te.active <;> simp [hmem, hid, ThreadOp.flag]
  | deactivate =>
    rw [posts, visible_foldl_hide, hvis]
    by_cases hmem : ref ∈ x.1.values <;> simp [hmem, ThreadOp.flag]

/-! ### What every operation keeps -/

/-- Tasks about other errors. -/
theorem foldl_exec_of_ne {ts : List ThreadTask} (h : ∀ t ∈ ts, t.ref ≠ ref)
    (marks : Nat → Marks) : ts.foldl (exec ide) marks ref = marks ref := by
  induction ts generalizing marks with
  | nil => rfl
  | cons t ts ih =>
    have hne : ref ≠ t.ref := Ne.symm (h t List.mem_cons_self)
    rw [List.foldl_cons, ih fun t ht => h t (List.mem_cons_of_mem _ ht)]
    cases t with
    | «show» r highlighter => exact Function.update_of_ne hne _ _
    | hide r => exact Function.update_of_ne hne _ _

/-- What the error of a thread posts is about an error that exists. -/
theorem exists_of_mem_postOf (h : x.1.Keyed) {threadId : Option String}
    {posted : Nat → List ThreadTask} (hposted : ∀ r, ∀ t ∈ posted r, t.ref = r) {t : ThreadTask}
    (ht : t ∈ x.1.postOf threadId posted) : x.1.errors[t.ref]? ≠ none := by
  unfold postOf at ht
  cases hr : threadId.bind fun id => x.1.threadErrors.lookup id with
  | none => simp [hr] at ht
  | some r =>
    rw [hr] at ht
    obtain ⟨k, _, hk⟩ := Option.bind_eq_some_iff.mp hr
    obtain ⟨te, hte, _⟩ := h k r hk
    rw [hposted r t ht, hte]
    simp

theorem ref_of_mem_postShow {m : ThreadErrorManager} {r : Nat} {t : ThreadTask}
    (ht : t ∈ m.postShow r) : t.ref = r := by
  unfold postShow at ht
  cases hr : m.errors[r]? with
  | none => simp [hr] at ht
  | some te =>
    rw [hr, List.mem_singleton] at ht
    rw [ht]
    rfl

/-- An operation that raises no error posts about errors that exist. -/
theorem exists_of_mem_posts (h : x.1.Keyed) {op : ThreadOp}
    (hop : ∀ event, op ≠ .onThreadError event) {t : ThreadTask} (ht : t ∈ x.1.posts op) :
    x.1.errors[t.ref]? ≠ none := by
  have hvalues : ∀ r ∈ x.1.values, x.1.errors[r]? ≠ none := by
    intro r hr
    obtain ⟨k, hk⟩ := (x.1.mem_values r).mp hr
    obtain ⟨te, hte, _⟩ := h k r hk
    simp [hte]
  cases op with
  | onThreadError event => exact absurd rfl (hop event)
  | onThreadErrorClear threadId =>
    refine exists_of_mem_postOf h (fun r t ht => ?_) ht
    rw [List.mem_singleton.mp ht]
    rfl
  | onThreadChanged threadId =>
    rw [posts] at ht
    split at ht
    · cases ht
    · rcases List.mem_append.mp ht with ht | ht
      · obtain ⟨r, hr, rfl⟩ := List.mem_map.mp ht
        exact hvalues r (List.mem_filter.mp hr).1
      · refine exists_of_mem_postOf h (fun r t ht => ?_) ht
        split at ht
        · cases ht
        · exact ref_of_mem_postShow ht
  | activate activeThread => exact exists_of_mem_postOf h (fun r t ht => ref_of_mem_postShow ht) ht
  | deactivate =>
    obtain ⟨r, hr, rfl⟩ := List.mem_map.mp ht
    exact hvalues r hr

/-- Only raising an error creates one. -/
theorem errors_step_none {m : ThreadErrorManager} {op : ThreadOp}
    (hop : ∀ event, op ≠ .onThreadError event) (hnone : m.errors[ref]? = none) :
    (m.step op).errors[ref]? = none := by
  rw [← Option.not_isSome_iff_eq_none, Option.isSome_iff_exists]
  rintro ⟨te, hte⟩
  obtain ⟨event, rfl, _⟩ := created_of_step hnone hte
  exact hop event rfl

/-- **Step lemma.** -/
theorem Kept.step (h : Kept ide x) (op : ThreadOp) : Kept ide (x.settle ide op) := by
  refine ⟨h.keyed.step op, fun ref => ?_⟩
  cases hte : x.1.errors[ref]? with
  | some te =>
    rw [visible_settle h hte]
    show _ = (x.1.step op).errors[ref]?.any _
    rw [getElem?_step h.keyed op hte, Option.any_some]
    split <;> rfl
  | none =>
    have hdark : (x.2 ref).visible = false := by
      have hlit := h.lit ref
      rwa [hte] at hlit
    show ((x.1.posts op).foldl (exec ide) x.2 ref).visible = (x.1.step op).errors[ref]?.any _
    by_cases hop : ∀ event, op ≠ .onThreadError event
    · rw [errors_step_none hop hte, foldl_exec_of_ne fun t ht href => ?_, hdark]
      · rfl
      · exact exists_of_mem_posts h.keyed hop ht (href ▸ hte)
    · simp only [ne_eq, not_forall, not_not] at hop
      obtain ⟨event, rfl⟩ := hop
      rw [posts, ThreadErrorManager.step, onThreadError]
      cases event.file with
      | none => simp [hte, hdark]
      | some file =>
        have hle : x.1.errors.length ≤ ref := List.getElem?_eq_none_iff.mp hte
        show (Function.update x.2 _ _ ref).visible = _
        by_cases href : ref = x.1.errors.length
        · subst href
          rw [Function.update_self, ErrorHighlighter.visible_show, hdark,
            List.getElem?_concat_length]
          rfl
        · have hout : x.1.errors.length + 1 ≤ ref := by omega
          rw [Function.update_of_ne href, hdark, List.getElem?_eq_none (by simpa using hout)]
          rfl

/-- Raising an error shows the new one, and no other. -/
theorem visible_onThreadError (h : Kept ide x) (event : ThreadErrorEvent) (ref : Nat) :
    (x.settle ide (.onThreadError event)).visible ref =
      (x.visible ref || (decide (ref = x.1.errors.length) && event.file.any fun file =>
        (⟨file, event.line, event.msg⟩ : ErrorHighlighter).placeable ide)) := by
  rw [(h.step (.onThreadError event)).lit ref, h.lit ref]
  show (x.1.onThreadError event).errors[ref]?.any _ = _
  unfold onThreadError
  cases event.file with
  | none => simp
  | some file =>
    simp only [getElem?_concat, Option.any_some]
    split
    · next href => simp [href, ThreadError.lit, ThreadError.activate, ThreadError.highlighter]
    · next href => simp [href]

/-- What is visible after a deactivation: the active errors outside the map. -/
theorem visible_deactivate (h : Kept ide x) (ref : Nat) :
    (x.settle ide .deactivate).visible ref =
      (x.visible ref && decide (ref ∉ x.1.values)) := by
  cases hte : x.1.errors[ref]? with
  | none =>
    have hlit := (h.step .deactivate).lit ref
    have hnone : (x.1.step .deactivate).errors[ref]? = none :=
      errors_step_none (fun _ hop => by cases hop) hte
    rw [hlit, h.lit ref, hte]
    show (x.1.step .deactivate).errors[ref]?.any _ = _
    rw [hnone]
    rfl
  | some te =>
    rw [visible_settle h hte, h.lit ref, any_errors hte]
    by_cases hmem : ref ∈ x.1.values <;> simp [hmem, ThreadOp.flag]

/-- **Switching off and on**, with the session's active thread: of the errors of the map,
    that thread's is shown. -/
theorem visible_reactivate (h : Kept ide x) (activeThread : Option String)
    (hte : x.1.errors[ref]? = some te) :
    ((x.settle ide .deactivate).settle ide (.activate activeThread)).visible ref =
      if ref ∈ x.1.values then
        decide (some te.threadId = activeThread) && te.highlighter.placeable ide
      else te.lit ide := by
  have hte' := getElem?_step h.keyed .deactivate hte
  rw [visible_settle (h.step .deactivate) hte']
  show (if ref ∈ x.1.values then _ else _) = _
  by_cases hmem : ref ∈ x.1.values
  · simp only [hmem, if_true, ThreadOp.flag, Bool.false_or]
    rfl
  · simp only [hmem, if_false]

end ThreadHighlights

end Reloadium.Frames
