import Reloadium.Highlights.Highlighter
import Reloadium.Lib.Deferred
import Reloadium.Profile.LineProfiler
import Mathlib.Data.List.MinMax

namespace Reloadium.Profile

open Reloadium.Lib Reloadium.Highlights

/-!
# Profile — the gutters of a profiler

Model of `rw.profile.ProfilePreviewRenderer` and its `FileValuesRenderer`.  For every file
with values a renderer of its own is created at each activation: the range of the gutter is
taken from the values at once, the gutter is put into the markup and taken out again in
tasks of the UI thread.  The list of renderers is cleared while such tasks are still posted.

Once the tasks have run, every gutter in the markup belongs to a renderer of the list
(`Kept`).  So `deactivate` leaves none (`highlighters_deactivate`), and `activate` leaves the
gutters of the present values (`settle_activate`).
-/

/-- The lines that the gutter of a file covers. -/
structure Gutter where
  file : String
  minLine : Int
  maxLine : Int
  deriving DecidableEq, Repr

/-- `Collections.min` and `Collections.max` of the keys of the default map; none if
    `isEmpty`. -/
def FileStore.lineRange (s : FileStore) : Option (Int × Int) :=
  match s.lines.filter fun l => (s.values .DEFAULT l).isSome with
  | [] => none
  | l :: ls => some (ls.foldl min l, ls.foldl max l)

/-- A file without a range is one without values. -/
theorem FileStore.lineRange_eq_none_iff (s : FileStore) :
    s.lineRange = none ↔ s.toFileValues.isEmpty := by
  have hempty : s.toFileValues.isEmpty ↔
      (s.lines.filter fun l => (s.values .DEFAULT l).isSome) = [] := by
    rw [FileValues.isEmpty, Set.eq_empty_iff_forall_notMem, List.filter_eq_nil_iff]
    exact ⟨fun h l _ => h l, fun h l hl => h l (s.listed l hl) hl⟩
  rw [hempty, lineRange]
  cases s.lines.filter fun l => (s.values .DEFAULT l).isSome <;> simp

/-- `ProfilePreviewRenderer`: the numbers of its renderers, and how many were created. -/
structure ProfilePreviewRenderer where
  created : Nat
  fileValuesRenderers : List Nat
  deriving DecidableEq, Repr

/-- What the renderers post, each by its number. -/
inductive GutterTask where
  | add (ref : Nat) (gutter : Gutter)
  | remove (ref : Nat)
  deriving DecidableEq, Repr

/-- The gutters in the markup by number, how many were created, and which of them the
    renderers have as their devices. -/
structure GutterMarkup where
  created : Nat
  highlighters : List (Nat × Gutter)
  device : Nat → Option Nat

namespace ProfilePreviewRenderer

/-- The renderer its constructor builds. -/
def new : ProfilePreviewRenderer := ⟨0, []⟩

/-- The task of `FileValuesRenderer.activate`. -/
def add (ide : EditorState) (m : GutterMarkup) (ref : Nat) (gutter : Gutter) : GutterMarkup :=
  if ide.hasRange gutter.file (gutter.minLine - 1) gutter.maxLine then
    { created := m.created + 1
      highlighters := m.highlighters ++ [(m.created, gutter)]
      device := Function.update m.device ref (some m.created) }
  else m

/-- The task of `FileValuesRenderer.deactivate`. -/
def remove (m : GutterMarkup) (ref : Nat) : GutterMarkup :=
  match m.device ref with
  | none => m
  | some id =>
    { m with
      highlighters := m.highlighters.filter fun e => e.1 ≠ id
      device := Function.update m.device ref none }

/-- One task. -/
def exec (ide : EditorState) (m : GutterMarkup) : GutterTask → GutterMarkup
  | .add ref gutter => add ide m ref gutter
  | .remove ref => remove m ref

/-- `new FileValuesRenderer`, added to the list, and its `activate`. -/
def addRenderer (e : String × FileStore) : Posting ProfilePreviewRenderer GutterTask := fun s =>
  (⟨s.created + 1, s.fileValuesRenderers ++ [s.created]⟩,
    .remove s.created ::
      match e.2.lineRange with
      | none => []
      | some range => [.add s.created ⟨e.1, range.1, range.2⟩])

/-- `deactivate`. -/
def deactivate : Posting ProfilePreviewRenderer GutterTask := fun s =>
  (s, s.fileValuesRenderers.map .remove)

/-- `activate`; `values` are the files of the profiler with their values. -/
def activate (values : List (String × FileStore)) : Posting ProfilePreviewRenderer GutterTask :=
  deactivate.andThen
    ((Posting.modify fun s => { s with fileValuesRenderers := [] }).andThen
      (Posting.sequence (values.map addRenderer)))

/-- `update`. -/
def update (values : List (String × FileStore)) : Posting ProfilePreviewRenderer GutterTask :=
  deactivate.andThen (activate values)

end ProfilePreviewRenderer

/-- The renderer and the markup. -/
abbrev Preview := ProfilePreviewRenderer × GutterMarkup

namespace Preview

open ProfilePreviewRenderer

/-- The gutters that are visible. -/
def gutters (x : Preview) : List Gutter := x.2.highlighters.map Prod.snd

/-- The gutter of a file, where its values have a range and the document has the lines. -/
def gutterOf (ide : EditorState) (e : String × FileStore) : Option Gutter :=
  (e.2.lineRange.map fun range => ⟨e.1, range.1, range.2⟩).filter fun g =>
    ide.hasRange g.file (g.minLine - 1) g.maxLine

/-- Every gutter in the markup is the device of a renderer of the list. -/
structure Kept (x : Preview) : Prop where
  owned : ∀ e ∈ x.2.highlighters, ∃ ref ∈ x.1.fileValuesRenderers, x.2.device ref = some e.1
  fresh : ∀ ref id, x.2.device ref = some id → ref < x.1.created

variable {ide : EditorState} {x : Preview}

/-- An operation after its tasks. -/
abbrev settle (ide : EditorState) (o : Posting ProfilePreviewRenderer GutterTask) (x : Preview) :
    Preview := o.settle (ProfilePreviewRenderer.exec ide) x

theorem kept_new : Kept (new, ⟨0, [], fun _ => none⟩) := by
  refine ⟨fun e he => ?_, fun ref id h => ?_⟩
  · cases he
  · cases h

/-! ### Deactivation -/

/-- A removal leaves no device and takes its gutter out. -/
theorem device_remove (m : GutterMarkup) (ref r : Nat) :
    (remove m ref).device r = if r = ref then none else m.device r := by
  unfold remove
  cases hdev : m.device ref with
  | none =>
    show m.device r = _
    split
    · next h => rw [h, hdev]
    · rfl
  | some id => exact Function.update_apply m.device ref none r

theorem mem_highlighters_remove {m : GutterMarkup} {ref : Nat} {e : Nat × Gutter} :
    e ∈ (remove m ref).highlighters ↔ e ∈ m.highlighters ∧ m.device ref ≠ some e.1 := by
  unfold remove
  cases hdev : m.device ref with
  | none => simp
  | some id =>
    show e ∈ m.highlighters.filter (fun e => e.1 ≠ id) ↔ _
    simp only [List.mem_filter, decide_eq_true_eq, ne_eq, Option.some.injEq]
    exact and_congr_right fun _ => not_congr eq_comm

/-- The removals of a list of renderers. -/
theorem foldl_remove (refs : List Nat) (m : GutterMarkup) :
    (∀ r id, ((refs.map GutterTask.remove).foldl (exec ide) m).device r = some id →
        m.device r = some id) ∧
      ∀ e ∈ ((refs.map GutterTask.remove).foldl (exec ide) m).highlighters,
        e ∈ m.highlighters ∧ ∀ ref ∈ refs, m.device ref ≠ some e.1 := by
  induction refs generalizing m with
  | nil => exact ⟨fun _ _ h => h, fun e he => ⟨he, by simp⟩⟩
  | cons ref refs ih =>
    obtain ⟨hdev, hmem⟩ := ih (remove m ref)
    rw [List.map_cons, List.foldl_cons]
    refine ⟨fun r id h => ?_, fun e he => ?_⟩
    · have h' := hdev r id h
      rw [device_remove] at h'
      split at h'
      · cases h'
      · exact h'
    · obtain ⟨he, hrest⟩ := hmem e he
      obtain ⟨he, hne⟩ := mem_highlighters_remove.mp he
      refine ⟨he, fun r hr => ?_⟩
      rcases List.mem_cons.mp hr with rfl | hr
      · exact hne
      · by_cases h : r = ref
        · exact h ▸ hne
        · have h' := hrest r hr
          rwa [device_remove, if_neg h] at h'

/-- `deactivate` takes every gutter out. -/
theorem highlighters_deactivate (ide : EditorState) (h : Kept x) :
    (x.settle ide deactivate).2.highlighters = [] := by
  rw [List.eq_nil_iff_forall_not_mem]
  intro e he
  obtain ⟨hmem, hdev⟩ := (foldl_remove x.1.fileValuesRenderers x.2).2 e he
  obtain ⟨ref, href, hsome⟩ := h.owned e hmem
  exact hdev ref href hsome

theorem gutters_deactivate (ide : EditorState) (h : Kept x) :
    (x.settle ide deactivate).gutters = [] := by
  rw [gutters, highlighters_deactivate ide h, List.map_nil]

theorem Kept.deactivate (ide : EditorState) (h : Kept x) : Kept (x.settle ide deactivate) := by
  refine ⟨fun e he => ?_, fun ref id hdev => ?_⟩
  · rw [highlighters_deactivate ide h] at he
    cases he
  · exact h.fresh ref id ((foldl_remove x.1.fileValuesRenderers x.2).1 ref id hdev)

/-! ### Activation -/

/-- Clearing the list where nothing is in the markup. -/
theorem kept_clear (h : Kept x) (hx : x.2.highlighters = []) :
    Kept ({ x.1 with fileValuesRenderers := [] }, x.2) := by
  refine ⟨fun e he => ?_, h.fresh⟩
  rw [show ({ x.1 with fileValuesRenderers := [] }, x.2).2.highlighters = [] from hx] at he
  cases he

/-- The removal that a new renderer starts with does nothing. -/
theorem remove_fresh (h : Kept x) :
    remove x.2 x.1.created = x.2 := by
  have hnone : x.2.device x.1.created = none := by
    cases hdev : x.2.device x.1.created with
    | none => rfl
    | some id => exact absurd (h.fresh _ id hdev) (Nat.lt_irrefl _)
  rw [remove, hnone]

/-- **Step lemma**: one more renderer adds the gutter of its file. -/
theorem settle_addRenderer (ide : EditorState) (h : Kept x) (e : String × FileStore) :
    Kept (x.settle ide (addRenderer e)) ∧
      (x.settle ide (addRenderer e)).gutters = x.gutters ++ (gutterOf ide e).toList := by
  -- the old gutters keep their renderers
  have hkept : ∀ s : ProfilePreviewRenderer, s.created = x.1.created + 1 →
      s.fileValuesRenderers = x.1.fileValuesRenderers ++ [x.1.created] → Kept (s, x.2) := by
    intro s hcreated hrefs
    refine ⟨fun e he => ?_, fun ref id hdev => ?_⟩
    · obtain ⟨ref, href, hdev⟩ := h.owned e he
      exact ⟨ref, hrefs ▸ List.mem_append_left _ href, hdev⟩
    · have hlt := h.fresh ref id hdev
      show ref < s.created
      omega
  unfold settle Posting.settle addRenderer gutterOf
  cases e.2.lineRange with
  | none =>
    simp only [List.foldl_cons, List.foldl_nil, exec, remove_fresh h]
    exact ⟨hkept _ rfl rfl, by simp [gutters]⟩
  | some range =>
    simp only [List.foldl_cons, List.foldl_nil, exec, remove_fresh h, Option.map_some]
    by_cases hfits : ide.hasRange e.1 (range.1 - 1) range.2 = true
    · simp only [add, hfits, if_true, Option.filter_some, Option.toList_some]
      refine ⟨⟨fun e' he => ?_, fun ref id hdev => ?_⟩, by simp [gutters]⟩
      · rcases List.mem_append.mp he with he | he
        · obtain ⟨ref, href, hdev⟩ := h.owned e' he
          have hne : ref ≠ x.1.created := Nat.ne_of_lt (h.fresh ref _ hdev)
          refine ⟨ref, List.mem_append_left _ href, ?_⟩
          show Function.update x.2.device x.1.created (some x.2.created) ref = some e'.1
          rwa [Function.update_of_ne hne]
        · rw [List.mem_singleton] at he
          subst he
          exact ⟨x.1.created, List.mem_append_right _ List.mem_cons_self, by simp⟩
      · show ref < x.1.created + 1
        by_cases href : ref = x.1.created
        · omega
        · have hdev' : x.2.device ref = some id := by
            simpa only [Function.update_of_ne href] using hdev
          have hlt := h.fresh ref id hdev'
          omega
    · simp only [add, hfits, Bool.false_eq_true, if_false, Option.filter_some]
      exact ⟨hkept _ rfl rfl, by simp [gutters]⟩

/-- **Run lemma** of the loop over the files. -/
theorem settle_addRenderers (ide : EditorState) (values : List (String × FileStore)) (h : Kept x) :
    Kept (x.settle ide (Posting.sequence (values.map addRenderer))) ∧
      (x.settle ide (Posting.sequence (values.map addRenderer))).gutters =
        x.gutters ++ values.filterMap (gutterOf ide) := by
  induction values generalizing x with
  | nil => exact ⟨h, by simp⟩
  | cons e values ih =>
    obtain ⟨hkept, hgutters⟩ := settle_addRenderer ide h e
    obtain ⟨hkept', hgutters'⟩ := ih hkept
    simp only [settle, List.map_cons, Posting.settle_sequence_cons] at hkept' hgutters' ⊢
    refine ⟨hkept', ?_⟩
    rw [hgutters', hgutters, List.append_assoc]
    cases hg : gutterOf ide e <;> simp [hg]

/-- `activate` leaves the gutters of the values, and no other. -/
theorem settle_activate (ide : EditorState) (values : List (String × FileStore)) (h : Kept x) :
    Kept (x.settle ide (activate values)) ∧
      (x.settle ide (activate values)).gutters = values.filterMap (gutterOf ide) := by
  have hempty := highlighters_deactivate ide h
  obtain ⟨hkept, hgutters⟩ := settle_addRenderers ide values
    (kept_clear (h.deactivate ide) hempty)
  simp only [settle, activate, Posting.settle_andThen, Posting.settle_modify]
  refine ⟨hkept, ?_⟩
  rw [hgutters]
  show (x.settle ide deactivate).gutters ++ _ = _
  rw [gutters_deactivate ide h, List.nil_append]

/-- So does `update`. -/
theorem settle_update (ide : EditorState) (values : List (String × FileStore)) (h : Kept x) :
    Kept (x.settle ide (update values)) ∧
      (x.settle ide (update values)).gutters = values.filterMap (gutterOf ide) := by
  rw [settle, update, Posting.settle_andThen]
  exact settle_activate ide values (h.deactivate ide)

end Preview

end Reloadium.Profile
