import Reloadium.Highlights.ErrorHighlightManager

namespace Reloadium.Highlights

open Reloadium.Lib

/-!
# Highlights — the suggested fixes

Model of `rw.highlights.SolutionHighlightManager` and `rw.highlights.SolutionHighlighter`.
The manager works on the caller's thread and sets the devices at once; the inlays of a
suggestion come and go in tasks of the UI thread.

Once the tasks have run, `Kept` holds after every operation: the visible suggestions are
among those of `all`, each where it can be placed.  `deactivate` hides them, `activate`
shows all of them again.
-/

/-- `SolutionHighlighter`, without its device and its inlays; `file` is the file that `path`
    stands for. -/
structure SolutionHighlighter where
  path : String
  file : String
  line : Int
  msg : String
  fixSuggestion : String
  deriving DecidableEq, Repr

namespace SolutionHighlighter

/-- Its line highlighter. -/
def highlighter (h : SolutionHighlighter) : Highlighter := ⟨h.file, h.line, h.line⟩

/-- Showing the suggestion puts something on the screen. -/
def placeable (ide : EditorState) (h : SolutionHighlighter) : Bool :=
  h.highlighter.fits ide || !(ide.editors h.file).isEmpty

end SolutionHighlighter

/-- `SolutionHighlightManager`, and the highlighters created so far with their devices. -/
structure SolutionHighlightManager where
  highlighters : List (SolutionHighlighter × Bool)
  all : AList fun _ : String => List Nat

/-- What the highlighters post. -/
inductive SolutionTask where
  | addInlay (ref : Nat) (editor : Nat)
  | dispose (ref : Nat)
  deriving DecidableEq, Repr

namespace SolutionHighlightManager

/-- The manager its constructor builds. -/
def new : SolutionHighlightManager := ⟨[], ∅⟩

/-- The numbers of the highlighters of all files. -/
def refs (m : SolutionHighlightManager) : List Nat := (valuesOf m.all).flatten

/-- One task, on the inlays of the highlighters. -/
def exec (inlays : Nat → List Inlay) : SolutionTask → Nat → List Inlay
  | .addInlay ref editor => Function.update inlays ref (inlays ref ++ [⟨editor, false⟩])
  | .dispose ref => Function.update inlays ref (Highlights.dispose (inlays ref))

/-- `SolutionHighlighter.show`. -/
def «show» (ide : EditorState) (ref : Nat) :
    Posting SolutionHighlightManager SolutionTask := fun m =>
  match m.highlighters[ref]? with
  | none => (m, [])
  | some (h, device) =>
    ({ m with highlighters := m.highlighters.set ref (h, h.highlighter.show ide device) },
      (ide.editors h.file).map (.addInlay ref))

/-- `SolutionHighlighter.hide`. -/
def hide (ref : Nat) : Posting SolutionHighlightManager SolutionTask := fun m =>
  ({ m with highlighters := m.highlighters.modify ref fun e => (e.1, Highlighter.hide e.2) },
    [.dispose ref])

/-- `add`. -/
def add (ide : EditorState) (path : String) (line : Int) (msg fixSuggestion : String) :
    Posting SolutionHighlightManager SolutionTask := fun m =>
  let m := { m with all := withKey m.all path }
  if line < 0 then (m, [])
  else
    match ide.virtualFile path with
    -- the constructor does not take a path without a file
    | none => (m, [])
    | some file =>
      let highlighter : SolutionHighlighter := ⟨path, file, line, msg, fixSuggestion⟩
      «show» ide m.highlighters.length
        { highlighters := m.highlighters ++ [(highlighter, false)]
          all := m.all.insert path (listAt m.all path ++ [m.highlighters.length]) }

/-- `clearFile`. -/
def clearFile (path : String) : Posting SolutionHighlightManager SolutionTask :=
  Posting.reading fun m =>
    match m.all.lookup path with
    | none => Posting.skip
    | some highlighters =>
      (Posting.sequence (highlighters.map hide)).andThen
        (Posting.modify fun m => { m with all := m.all.insert path [] })

/-- `clearAll`. -/
def clearAll : Posting SolutionHighlightManager SolutionTask :=
  Posting.andThen (Posting.reading fun m => Posting.sequence (m.all.keys.map clearFile))
    (Posting.modify fun m => { m with all := ∅ })

/-- `activate`. -/
def activate (ide : EditorState) : Posting SolutionHighlightManager SolutionTask :=
  Posting.reading fun m => Posting.sequence (m.refs.map («show» ide))

/-- `deactivate`. -/
def deactivate : Posting SolutionHighlightManager SolutionTask :=
  Posting.reading fun m => Posting.sequence (m.refs.map hide)

end SolutionHighlightManager

/-- The manager and the inlays of its highlighters. -/
abbrev Solutions := SolutionHighlightManager × (Nat → List Inlay)

namespace Solutions

/-- Whether a highlighter has its device. -/
def device (x : Solutions) (ref : Nat) : Bool :=
  (x.1.highlighters[ref]?.map Prod.snd).getD false

/-- Whether a highlighter is visible, by its number. -/
def visible (x : Solutions) (ref : Nat) : Bool := x.device ref || live (x.2 ref)

/-- A highlighter, by its number. -/
def created (x : Solutions) (ref : Nat) : Option SolutionHighlighter :=
  x.1.highlighters[ref]?.map Prod.fst

/-- The highlighter exists and can be placed. -/
def placeable (ide : EditorState) (x : Solutions) (ref : Nat) : Bool :=
  (x.created ref).any (·.placeable ide)

/-- The visible suggestions are among those of `all`, each where it can be placed. -/
def Kept (ide : EditorState) (x : Solutions) : Prop :=
  ∀ ref, x.visible ref = true → ref ∈ x.1.refs ∧ x.placeable ide ref = true

/-- All suggestions of `all` are visible that can be placed. -/
def Shown (ide : EditorState) (x : Solutions) : Prop :=
  ∀ ref ∈ x.1.refs, x.placeable ide ref = true → x.visible ref = true

/-- An operation after its tasks. -/
abbrev settle (o : Posting SolutionHighlightManager SolutionTask) (x : Solutions) : Solutions :=
  o.settle SolutionHighlightManager.exec x

end Solutions

namespace SolutionHighlightManager

open Solutions

variable {ide : EditorState} {x : Solutions} {ref r : Nat}

theorem mem_refs {m : SolutionHighlightManager} :
    ref ∈ m.refs ↔ ∃ path, ref ∈ listAt m.all path := mem_flatten_valuesOf

/-! ### One highlighter -/

/-- The inlays that `show` adds. -/
theorem foldl_exec_addInlay (editors : List Nat) (inlays : Nat → List Inlay) (r : Nat) :
    live ((editors.map (SolutionTask.addInlay ref)).foldl exec inlays r) =
      (live (inlays r) || (decide (r = ref) && !editors.isEmpty)) := by
  induction editors generalizing inlays with
  | nil => simp
  | cons editor editors ih =>
    rw [List.map_cons, List.foldl_cons, ih, exec]
    by_cases h : r = ref
    · subst h
      simp [live]
    · simp [h]

theorem created_show (ide : EditorState) (ref r : Nat) (x : Solutions) :
    (x.settle («show» ide ref)).created r = x.created r := by
  unfold settle Posting.settle «show» created
  cases href : x.1.highlighters[ref]? with
  | none => rfl
  | some e =>
    by_cases h : ref = r
    · subst h
      have hlt : ref < x.1.highlighters.length := (List.getElem?_eq_some_iff.mp href).1
      simp [href, List.getElem?_set_self hlt]
    · simp [List.getElem?_set_ne h]

theorem placeable_show (ide : EditorState) (ref r : Nat) (x : Solutions) :
    placeable ide (x.settle («show» ide ref)) r = x.placeable ide r := by
  rw [placeable, placeable, created_show]

theorem all_show (ide : EditorState) (ref : Nat) (x : Solutions) :
    (x.settle («show» ide ref)).1.all = x.1.all := by
  unfold settle Posting.settle «show»
  cases x.1.highlighters[ref]? <;> rfl

theorem visible_show (ide : EditorState) (ref r : Nat) (x : Solutions) :
    (x.settle («show» ide ref)).visible r =
      (x.visible r || (decide (r = ref) && x.placeable ide r)) := by
  unfold settle Posting.settle «show» visible device placeable created
  cases href : x.1.highlighters[ref]? with
  | none =>
    by_cases h : r = ref
    · subst h
      simp [href]
    · simp [h]
  | some e =>
    simp only [foldl_exec_addInlay]
    by_cases h : r = ref
    · subst h
      have hlt : r < x.1.highlighters.length := (List.getElem?_eq_some_iff.mp href).1
      simp only [List.getElem?_set_self hlt, href, Option.map_some, Option.getD_some,
        Option.any_some, decide_true, Bool.true_and, SolutionHighlighter.placeable,
        Highlighter.show_eq]
      cases e.2 <;> cases live (x.2 r) <;> simp
    · simp [List.getElem?_set_ne (Ne.symm h), h]

theorem created_hide (ref r : Nat) (x : Solutions) :
    (x.settle (hide ref)).created r = x.created r := by
  unfold settle Posting.settle hide created
  rw [List.getElem?_modify, Option.map_eq_map, Option.map_map]
  congr 1
  funext e
  show Prod.fst (if ref = r then _ else e) = e.1
  split <;> rfl

theorem visible_hide (ref r : Nat) (x : Solutions) :
    (x.settle (hide ref)).visible r = (decide (r ≠ ref) && x.visible r) := by
  unfold settle Posting.settle hide visible device
  by_cases h : r = ref
  · subst h
    cases hr : x.1.highlighters[r]? <;> simp [exec, Highlighter.hide, hr]
  · simp [exec, h, List.getElem?_modify_ne _ _ (Ne.symm h)]

/-! ### The loops -/

theorem settle_showAll (ide : EditorState) (refs : List Nat) (x : Solutions) :
    (x.settle (Posting.sequence (refs.map («show» ide)))).1.all = x.1.all ∧
      ∀ r, (x.settle (Posting.sequence (refs.map («show» ide)))).created r = x.created r ∧
        (x.settle (Posting.sequence (refs.map («show» ide)))).visible r =
          (x.visible r || (decide (r ∈ refs) && x.placeable ide r)) := by
  induction refs generalizing x with
  | nil => exact ⟨rfl, fun r => ⟨rfl, by simp⟩⟩
  | cons ref refs ih =>
    obtain ⟨hall, hvis⟩ := ih (x.settle («show» ide ref))
    simp only [settle, List.map_cons, Posting.settle_sequence_cons] at hall hvis ⊢
    refine ⟨hall.trans (all_show ide ref x), fun r => ⟨?_, ?_⟩⟩
    · exact (hvis r).1.trans (created_show ide ref r x)
    · rw [(hvis r).2, visible_show, placeable_show]
      by_cases h : r = ref <;> cases x.placeable ide r <;> simp [h]

theorem settle_hideAll (refs : List Nat) (x : Solutions) :
    (x.settle (Posting.sequence (refs.map hide))).1.all = x.1.all ∧
      ∀ r, (x.settle (Posting.sequence (refs.map hide))).created r = x.created r ∧
        (x.settle (Posting.sequence (refs.map hide))).visible r =
          (decide (r ∉ refs) && x.visible r) := by
  induction refs generalizing x with
  | nil => exact ⟨rfl, fun r => ⟨rfl, by simp⟩⟩
  | cons ref refs ih =>
    obtain ⟨hall, hvis⟩ := ih (x.settle (hide ref))
    simp only [settle, List.map_cons, Posting.settle_sequence_cons] at hall hvis ⊢
    refine ⟨hall, fun r => ⟨?_, ?_⟩⟩
    · exact (hvis r).1.trans (created_hide ref r x)
    · rw [(hvis r).2, visible_hide]
      by_cases h : r = ref <;> simp [h]

/-- `clearFile` takes the highlighters of a file away. -/
theorem settle_clearFile (path : String) (x : Solutions) :
    (∀ p, listAt (x.settle (clearFile path)).1.all p =
        if p = path then [] else listAt x.1.all p) ∧
      ∀ r, (x.settle (clearFile path)).created r = x.created r ∧
        (x.settle (clearFile path)).visible r =
          (decide (r ∉ listAt x.1.all path) && x.visible r) := by
  cases hpath : x.1.all.lookup path with
  | none =>
    have hskip : x.settle (clearFile path) = x := by
      rw [settle, clearFile, Posting.settle_reading, hpath]
      rfl
    have hempty : listAt x.1.all path = [] := by rw [listAt, hpath, Option.getD_none]
    rw [hskip, hempty]
    refine ⟨fun p => ?_, fun r => ⟨rfl, by simp⟩⟩
    split
    · next h => rw [h, hempty]
    · rfl
  | some refs =>
    have hseq : x.settle (clearFile path) =
        (x.settle (Posting.sequence (refs.map hide))).settle
          (Posting.modify fun m => { m with all := m.all.insert path [] }) := by
      rw [settle, clearFile, Posting.settle_reading, hpath]
      exact Posting.settle_andThen _ _ x
    obtain ⟨hall, hvis⟩ := settle_hideAll refs x
    have hrefs : listAt x.1.all path = refs := by rw [listAt, hpath, Option.getD_some]
    rw [hseq, hrefs]
    refine ⟨fun p => ?_, hvis⟩
    rw [← hall]
    exact listAt_insert _ path p []

/-- The loop of `clearAll`. -/
theorem settle_clearFiles (paths : List String) (x : Solutions) :
    ∀ r, (x.settle (Posting.sequence (paths.map clearFile))).created r = x.created r ∧
      (x.settle (Posting.sequence (paths.map clearFile))).visible r =
        (decide (∀ p ∈ paths, r ∉ listAt x.1.all p) && x.visible r) := by
  induction paths generalizing x with
  | nil => exact fun r => ⟨rfl, by simp⟩
  | cons path paths ih =>
    intro r
    have hrest := ih (x.settle (clearFile path)) r
    obtain ⟨hlist, hvis⟩ := settle_clearFile path x
    simp only [settle, List.map_cons, Posting.settle_sequence_cons] at hrest hlist hvis ⊢
    refine ⟨hrest.1.trans (hvis r).1, ?_⟩
    rw [hrest.2, (hvis r).2, ← Bool.and_assoc, ← Bool.decide_and]
    congr 2
    rw [eq_iff_iff]
    simp only [hlist, List.forall_mem_cons]
    apply Iff.intro
    · rintro ⟨hpaths, hpath⟩
      refine ⟨hpath, fun p hp hmem => ?_⟩
      by_cases h : p = path
      · exact hpath (h ▸ hmem)
      · exact hpaths p hp (by rwa [if_neg h])
    · rintro ⟨hpath, hpaths⟩
      refine ⟨fun p hp hmem => ?_, hpath⟩
      split at hmem
      · cases hmem
      · exact hpaths p hp hmem

/-! ### The operations -/

/-- The highlighter that `add` creates, if it gets that far. -/
def newHighlighter (ide : EditorState) (path : String) (line : Int) (msg fixSuggestion : String) :
    Option SolutionHighlighter :=
  if line < 0 then none
  else (ide.virtualFile path).map fun file => ⟨path, file, line, msg, fixSuggestion⟩

/-- `clearAll` hides every suggestion. -/
theorem visible_clearAll (h : Kept ide x) (r : Nat) : (x.settle clearAll).visible r = false := by
  have hvis := (settle_clearFiles x.1.all.keys x r).2
  have hseq : (x.settle clearAll).visible r =
      (x.settle (Posting.sequence (x.1.all.keys.map clearFile))).visible r := by
    rw [settle, clearAll, Posting.settle_andThen]
    rfl
  rw [hseq, hvis, ← Bool.not_eq_true, Bool.and_eq_true, decide_eq_true_iff]
  rintro ⟨hpaths, hr⟩
  obtain ⟨path, hmem⟩ := mem_refs.mp (h r hr).1
  refine hpaths path ?_ hmem
  by_contra hkey
  have hnone : x.1.all.lookup path = none := AList.lookup_eq_none.mpr hkey
  rw [listAt, hnone] at hmem
  cases hmem

@[simp] theorem refs_clearAll (x : Solutions) : (x.settle clearAll).1.refs = [] := by
  rw [settle, clearAll, Posting.settle_andThen]
  rfl

/-- A call of `add` that creates no highlighter. -/
theorem settle_add_none {path : String} {line : Int} {msg fixSuggestion : String}
    (h : newHighlighter ide path line msg fixSuggestion = none) (x : Solutions) :
    x.settle (add ide path line msg fixSuggestion) =
      ({ x.1 with all := withKey x.1.all path }, x.2) := by
  unfold newHighlighter at h
  by_cases hline : line < 0
  · simp only [settle, Posting.settle, add, if_pos hline]
    rfl
  · rw [if_neg hline, Option.map_eq_none_iff] at h
    simp only [settle, Posting.settle, add, if_neg hline, h]
    rfl

/-- A call of `add` that creates a highlighter shows it. -/
theorem settle_add_some {path : String} {line : Int} {msg fixSuggestion : String}
    {h : SolutionHighlighter} (hnew : newHighlighter ide path line msg fixSuggestion = some h)
    (x : Solutions) :
    ∃ all, (∀ p, listAt all p = if p = path then listAt x.1.all p ++ [x.1.highlighters.length]
        else listAt x.1.all p) ∧
      x.settle (add ide path line msg fixSuggestion) =
        settle («show» ide x.1.highlighters.length)
          (⟨x.1.highlighters ++ [(h, false)], all⟩, x.2) := by
  unfold newHighlighter at hnew
  by_cases hline : line < 0
  · simp [hline] at hnew
  · rw [if_neg hline, Option.map_eq_some_iff] at hnew
    obtain ⟨file, hfile, rfl⟩ := hnew
    refine ⟨(withKey x.1.all path).insert path (listAt (withKey x.1.all path) path ++
      [x.1.highlighters.length]), fun p => ?_, ?_⟩
    · rw [listAt_insert, listAt_withKey, listAt_withKey]
      split
      · next h => rw [h]
      · rfl
    · simp only [settle, Posting.settle, add, if_neg hline, hfile]

/-- A new highlighter without marks. -/
theorem created_append (x : Solutions) (h : SolutionHighlighter)
    (all : AList fun _ : String => List Nat) (r : Nat) :
    created (⟨x.1.highlighters ++ [(h, false)], all⟩, x.2) r =
      if r = x.1.highlighters.length then some h else x.created r := by
  unfold created
  simp only [getElem?_concat]
  split
  · rfl
  · rfl

theorem visible_append (x : Solutions) (h : SolutionHighlighter)
    (all : AList fun _ : String => List Nat) (r : Nat) :
    visible (⟨x.1.highlighters ++ [(h, false)], all⟩, x.2) r = x.visible r := by
  unfold visible device
  simp only [getElem?_concat]
  split
  · next hr => simp [hr]
  · rfl

/-- `add` shows the highlighter that it creates, and no other. -/
theorem visible_add (ide : EditorState) (path : String) (line : Int)
    (msg fixSuggestion : String) (x : Solutions) (r : Nat) :
    (x.settle (add ide path line msg fixSuggestion)).visible r =
      (x.visible r || (decide (r = x.1.highlighters.length) &&
        (newHighlighter ide path line msg fixSuggestion).any (·.placeable ide))) := by
  cases hnew : newHighlighter ide path line msg fixSuggestion with
  | none =>
    rw [settle_add_none hnew, Option.any_none, Bool.and_false, Bool.or_false]
    rfl
  | some h =>
    obtain ⟨all, -, heq⟩ := settle_add_some hnew x
    rw [heq, visible_show, visible_append, placeable, created_append]
    by_cases hr : r = x.1.highlighters.length <;> simp [hr]

end SolutionHighlightManager

/-! ### What the operations keep -/

namespace Solutions

open SolutionHighlightManager

variable {ide : EditorState} {x : Solutions} {r : Nat}

theorem kept_new : Kept ide (new, fun _ => []) := fun ref h => by
  simp [visible, device, new, live] at h

/-- A visible highlighter has been created. -/
theorem Kept.not_visible_length (h : Kept ide x) : x.visible x.1.highlighters.length = false := by
  rw [← Bool.not_eq_true]
  intro hvis
  have hplace := (h _ hvis).2
  simp [placeable, created] at hplace

/-- **Step lemma** of `add`. -/
theorem Kept.add (h : Kept ide x) (path : String) (line : Int) (msg fixSuggestion : String) :
    Kept ide (x.settle (add ide path line msg fixSuggestion)) := by
  cases hnew : newHighlighter ide path line msg fixSuggestion with
  | none =>
    rw [settle_add_none hnew]
    intro r hr
    refine ⟨mem_refs.mpr ?_, (h r hr).2⟩
    obtain ⟨p, hp⟩ := mem_refs.mp (h r hr).1
    exact ⟨p, (listAt_withKey x.1.all path p).symm ▸ hp⟩
  | some hl =>
    intro r hr
    obtain ⟨all, hall, heq⟩ := settle_add_some hnew x
    rw [visible_add, hnew, Option.any_some] at hr
    rw [heq, placeable, created_show, created_append, mem_refs, all_show]
    simp only [hall]
    by_cases hlen : r = x.1.highlighters.length
    · subst hlen
      rw [h.not_visible_length, Bool.false_or, Bool.and_eq_true] at hr
      refine ⟨⟨path, ?_⟩, by simpa using hr.2⟩
      rw [if_pos rfl]
      exact List.mem_append_right _ List.mem_cons_self
    · simp only [hlen, decide_false, Bool.false_and, Bool.or_false] at hr
      obtain ⟨p, hp⟩ := mem_refs.mp (h r hr).1
      refine ⟨⟨p, ?_⟩, by simpa [hlen, placeable] using (h r hr).2⟩
      split
      · exact List.mem_append_left _ hp
      · exact hp

/-- An operation that hides everything. -/
theorem kept_of_not_visible (h : ∀ r, x.visible r = false) : Kept ide x := fun r hr => by
  rw [h r] at hr
  cases hr

theorem Kept.clearAll (h : Kept ide x) : Kept ide (x.settle clearAll) :=
  kept_of_not_visible (visible_clearAll h)

/-- With all suggestions of `all` visible, a new one is too. -/
theorem Shown.add (h : Shown ide x) (path : String) (line : Int) (msg fixSuggestion : String) :
    Shown ide (x.settle (add ide path line msg fixSuggestion)) := by
  cases hnew : newHighlighter ide path line msg fixSuggestion with
  | none =>
    rw [settle_add_none hnew]
    intro r hr hplace
    obtain ⟨p, hp⟩ := mem_refs.mp hr
    exact h r (mem_refs.mpr ⟨p, listAt_withKey x.1.all path p ▸ hp⟩) hplace
  | some hl =>
    intro r hr hplace
    obtain ⟨all, hall, heq⟩ := settle_add_some hnew x
    rw [heq, mem_refs, all_show] at hr
    simp only [hall] at hr
    rw [heq, placeable, created_show, created_append] at hplace
    rw [visible_add, hnew, Option.any_some]
    by_cases hlen : r = x.1.highlighters.length
    · simpa [hlen] using Or.inr hplace
    · obtain ⟨p, hp⟩ := hr
      have hmem : r ∈ listAt x.1.all p := by
        split at hp
        · simpa [hlen] using hp
        · exact hp
      rw [if_neg hlen] at hplace
      rw [h r (mem_refs.mpr ⟨p, hmem⟩) hplace, Bool.true_or]

theorem shown_clearAll (x : Solutions) : Shown ide (x.settle clearAll) := fun r hr => by
  rw [refs_clearAll] at hr
  cases hr

/-! ### Activation -/

theorem refs_congr {m m' : SolutionHighlightManager} (h : m.all = m'.all) : m.refs = m'.refs := by
  rw [refs, refs, h]

theorem settle_deactivate (x : Solutions) :
    (x.settle deactivate).1.refs = x.1.refs ∧
      ∀ r, placeable ide (x.settle deactivate) r = placeable ide x r ∧
        (x.settle deactivate).visible r = (decide (r ∉ x.1.refs) && x.visible r) := by
  obtain ⟨hall, hvis⟩ := settle_hideAll x.1.refs x
  refine ⟨refs_congr hall, fun r => ⟨?_, (hvis r).2⟩⟩
  exact congrArg (Option.any (·.placeable ide)) (hvis r).1

theorem settle_activate (ide : EditorState) (x : Solutions) :
    (x.settle (activate ide)).1.refs = x.1.refs ∧
      ∀ r, placeable ide (x.settle (activate ide)) r = placeable ide x r ∧
        (x.settle (activate ide)).visible r =
          (x.visible r || (decide (r ∈ x.1.refs) && x.placeable ide r)) := by
  obtain ⟨hall, hvis⟩ := settle_showAll ide x.1.refs x
  refine ⟨refs_congr hall, fun r => ⟨?_, (hvis r).2⟩⟩
  exact congrArg (Option.any (·.placeable ide)) (hvis r).1

/-- `deactivate` hides every suggestion. -/
theorem visible_deactivate (h : Kept ide x) (r : Nat) :
    (x.settle deactivate).visible r = false := by
  rw [((@settle_deactivate ide x).2 r).2, ← Bool.not_eq_true, Bool.and_eq_true,
    decide_eq_true_iff]
  exact fun hr => hr.1 (h r hr.2).1

theorem Kept.deactivate (h : Kept ide x) : Kept ide (x.settle deactivate) :=
  kept_of_not_visible (visible_deactivate h)

theorem Kept.activate (h : Kept ide x) : Kept ide (x.settle (activate ide)) := by
  intro r hr
  obtain ⟨hrefs, hvis⟩ := settle_activate ide x
  rw [(hvis r).2, Bool.or_eq_true, Bool.and_eq_true, decide_eq_true_iff] at hr
  rw [hrefs, (hvis r).1]
  rcases hr with hr | hr
  · exact h r hr
  · exact hr

/-- `activate` shows every suggestion of `all`. -/
theorem shown_activate (x : Solutions) : Shown ide (x.settle (activate ide)) := by
  intro r hr hplace
  obtain ⟨hrefs, hvis⟩ := settle_activate ide x
  rw [hrefs] at hr
  rw [(hvis r).1] at hplace
  rw [(hvis r).2, Bool.or_eq_true, Bool.and_eq_true, decide_eq_true_iff]
  exact Or.inr ⟨hr, hplace⟩

/-- **Switching off and on** shows the suggestions that were visible before. -/
theorem visible_reactivate (hkept : Kept ide x) (hshown : Shown ide x) (r : Nat) :
    ((x.settle deactivate).settle (activate ide)).visible r = x.visible r := by
  obtain ⟨hrefs, hvis⟩ := @settle_deactivate ide x
  rw [((settle_activate ide _).2 r).2, visible_deactivate hkept, hrefs, (hvis r).1,
    Bool.false_or, Bool.eq_iff_iff, Bool.and_eq_true, decide_eq_true_iff]
  exact ⟨fun h => hshown r h.1 h.2, hkept r⟩

end Solutions

end Reloadium.Highlights
