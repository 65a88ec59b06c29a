import Reloadium.Highlights.ErrorHighlightManager
import Reloadium.Lib.Lts

namespace Reloadium.Highlights

open Reloadium.Lib

/-!
# Highlights — clearing all errors along a run

`ErrorHighlightManager.clearAll` is the one operation that changes `all` on the caller's own
thread: it posts a `clearFile` for every file, one after the other, and then empties the map,
while the UI thread goes on with the tasks that are posted.  `ErrorHighlights` is the manager
with that loop, the UI queue, and whether the last call was `clearAll`.

The posted `clearFile` tasks look the files up when they run, and by then the map is empty.  So
the highlighters that are visible at that moment stay for good (`not_owned_of_cleared`), and
those that are still to be added appear later.  `owned_of_meets` says that nothing else goes
wrong.
-/

/-- The loop of `clearAll`: the files that it still has to go through, and whether the map has
    got a new file since the loop began. -/
structure ClearLoop where
  rest : List String
  modified : Bool
  deriving DecidableEq, Repr

/-- The manager, the tasks that have not run yet, the loop of a `clearAll` that is not over,
    and whether the last call was `clearAll`. -/
structure ErrorHighlights where
  manager : ErrorHighlightManager
  queue : List ErrorTask
  clearing : Option ClearLoop
  clearedLast : Bool

/-- A turn: one of the operations that post their task, the start of `clearAll` with the order
    in which the map lists its files, a step of its loop, or the oldest task. -/
inductive ErrorTurn where
  | call (task : ErrorTask)
  | clearAll (files : List String)
  | next
  | task
  deriving DecidableEq, Repr

namespace ErrorHighlights

/-- A new manager. -/
def new : ErrorHighlights := ⟨.new, [], none, false⟩

/-- The task puts a new file into the map. -/
def putsFile (m : ErrorHighlightManager) : ErrorTask → Bool
  | .add file _ _ => file ∉ m.all
  | _ => false

/-- A step of the loop of `clearAll`. -/
def next (c : ErrorHighlights) (loop : ClearLoop) : ErrorHighlights :=
  match loop.rest with
  | [] => { c with manager := { c.manager with all := ∅ }, clearing := none }
  | file :: rest =>
    -- `ConcurrentModificationException`
    if loop.modified then { c with clearing := none }
    else { c with queue := c.queue ++ [.clearFile file], clearing := some { loop with rest } }

/-- One turn.  The operations are `synchronized`, the tasks are not. -/
def step (ide : EditorState) (c : ErrorHighlights) : ErrorTurn → Option ErrorHighlights
  | .call t =>
    if c.clearing.isSome then none
    else some { c with queue := c.queue ++ [t], clearedLast := false }
  | .clearAll files =>
    if c.clearing.isSome ∨ ¬ files.Perm c.manager.all.keys then none
    else some { c with clearing := some ⟨files, false⟩, clearedLast := true }
  | .next => c.clearing.map c.next
  | .task =>
    match c.queue with
    | [] => none
    | t :: rest =>
      some { c with
        manager := c.manager.exec ide t
        queue := rest
        clearing := c.clearing.map fun loop =>
          { loop with modified := loop.modified || putsFile c.manager t } }

/-- A new manager with its calls and tasks in any interleaving. -/
def machine (ide : EditorState) : Lts ErrorHighlights ErrorTurn := ⟨new, step ide⟩

/-! ### What a turn does -/

section Turns

variable {ide : EditorState} {c c' : ErrorHighlights}

theorem step_call {t : ErrorTask} (hstep : (machine ide).step c (.call t) = some c') :
    c' = { c with queue := c.queue ++ [t], clearedLast := false } := by
  change (if c.clearing.isSome then none else some _) = some c' at hstep
  split at hstep
  · cases hstep
  · cases hstep
    rfl

theorem step_clearAll {files : List String}
    (hstep : (machine ide).step c (.clearAll files) = some c') :
    c' = { c with clearing := some ⟨files, false⟩, clearedLast := true } := by
  change (if _ then none else some _) = some c' at hstep
  split at hstep
  · cases hstep
  · cases hstep
    rfl

theorem step_next (hstep : (machine ide).step c .next = some c') :
    ∃ loop, c.clearing = some loop ∧ c' = c.next loop := by
  obtain ⟨loop, hloop, rfl⟩ := Option.map_eq_some_iff.mp hstep
  exact ⟨loop, hloop, rfl⟩

theorem step_task (hstep : (machine ide).step c .task = some c') :
    ∃ t rest, c.queue = t :: rest ∧ c' =
      { c with
        manager := c.manager.exec ide t
        queue := rest
        clearing := c.clearing.map fun loop =>
          { loop with modified := loop.modified || putsFile c.manager t } } := by
  change (match c.queue with | [] => none | t :: rest => some _) = some c' at hstep
  cases hqueue : c.queue with
  | nil =>
    rw [hqueue] at hstep
    cases hstep
  | cons t rest =>
    rw [hqueue] at hstep
    cases hstep
    exact ⟨t, rest, rfl, rfl⟩

end Turns

/-! ### What the posted tasks leave of a highlighter -/

/-- A highlighter of the manager is shown or hidden, or it has been dropped from its list. -/
inductive Fate where
  | shown
  | hidden
  | dropped
  deriving DecidableEq, Repr

/-- What a task does to a highlighter of a file. -/
def fate (file : String) : Fate → ErrorTask → Fate
  | .dropped, _ => .dropped
  | s, .add _ _ _ => s
  | s, .clearFile f => if f = file then .dropped else s
  | _, .activate => .shown
  | _, .deactivate => .hidden

/-- The tasks do not leave a highlighter of the file shown. -/
def TakenAway (file : String) (s : Fate) (queue : List ErrorTask) : Prop :=
  queue.foldl (fate file) s ≠ .shown

/-- Whatever the tasks add and show, later ones take away. -/
def PendingTakenAway (ide : EditorState) : List ErrorTask → Prop
  | [] => True
  | .add file line msg :: rest =>
    (0 ≤ line → (⟨file, line, msg⟩ : ErrorHighlighter).placeable ide = true →
      TakenAway file .shown rest) ∧ PendingTakenAway ide rest
  | _ :: rest => PendingTakenAway ide rest

/-- Showing a highlighter puts something on the screen, by its number. -/
def placeable (ide : EditorState) (m : ErrorHighlightManager) (ref : Nat) : Bool :=
  (m.highlighters[ref]?.map fun e => e.1.placeable ide).getD false

/-- Whether a highlighter is shown. -/
def fateOf (m : ErrorHighlightManager) (ref : Nat) : Fate :=
  if m.visible ref then .shown else .hidden

/-- The tasks leave no highlighter visible. -/
structure Empties (ide : EditorState) (m : ErrorHighlightManager) (queue : List ErrorTask) :
    Prop where
  owned : ∀ file, ∀ ref ∈ listAt m.all file, m.visible ref = true ∨ placeable ide m ref = true →
    TakenAway file (fateOf m ref) queue
  pending : PendingTakenAway ide queue

/-- The condition on a turn of a run.  When `clearAll` is over, nothing is visible that it takes
    out of the map, and the tasks that are posted by then leave nothing visible. -/
def ClearsAll (ide : EditorState) (c : ErrorHighlights) : ErrorTurn → Prop
  | .next =>
    match c.clearing with
    | some ⟨[], _⟩ => (∀ ref, c.manager.visible ref = false) ∧
        Empties ide { c.manager with all := ∅ } c.queue
    | some ⟨_ :: _, true⟩ => Empties ide c.manager c.queue
    | _ => True
  | _ => True

variable {ide : EditorState} {m : ErrorHighlightManager} {queue : List ErrorTask} {ref : Nat}
  {file : String}

theorem fate_dropped (file : String) (queue : List ErrorTask) :
    queue.foldl (fate file) .dropped = .dropped := by
  induction queue with
  | nil => rfl
  | cons t queue ih => exact ih

/-- The first task leaves the rest to take away what it leaves. -/
theorem TakenAway.of_cons {s s' : Fate} {t : ErrorTask} (h : TakenAway file s (t :: queue))
    (hfate : fate file s t = s') : TakenAway file s' queue := by
  rwa [TakenAway, List.foldl_cons, hfate] at h

/-- Only clearing its own file, showing and hiding do something to a highlighter. -/
theorem fate_fateOf_add (f : String) (line : Int) (msg : String) :
    fate file (fateOf m ref) (.add f line msg) = fateOf m ref := by
  unfold fateOf
  split <;> rfl

theorem fate_fateOf_clearFile {f : String} (hf : f ≠ file) :
    fate file (fateOf m ref) (.clearFile f) = fateOf m ref := by
  unfold fateOf
  split <;> simp only [fate, if_neg hf]

theorem fate_fateOf_activate : fate file (fateOf m ref) .activate = .shown := by
  unfold fateOf
  split <;> rfl

theorem fate_fateOf_deactivate : fate file (fateOf m ref) .deactivate = .hidden := by
  unfold fateOf
  split <;> rfl

/-- What is taken away when it is shown is taken away when it is not. -/
theorem TakenAway.of_shown (h : TakenAway file .shown queue) (s : Fate) :
    TakenAway file s queue := by
  unfold TakenAway at h ⊢
  induction queue generalizing s with
  | nil => exact absurd rfl h
  | cons t queue ih =>
    cases s with
    | shown => exact h
    | dropped =>
      rw [fate_dropped]
      nofun
    | hidden =>
      rw [List.foldl_cons] at h ⊢
      cases t with
      | add f line msg => exact ih h .hidden
      | clearFile f =>
        by_cases hf : f = file
        · simpa only [fate, if_pos hf] using h
        · simp only [fate, if_neg hf] at h ⊢
          exact ih h .hidden
      | activate => exact h
      | deactivate => exact h

/-- Less is left of a highlighter that is shown no more. -/
theorem TakenAway.mono {m' : ErrorHighlightManager} (h : TakenAway file (fateOf m ref) queue)
    (hvisible : m'.visible ref = true → m.visible ref = true) :
    TakenAway file (fateOf m' ref) queue := by
  unfold fateOf at h ⊢
  cases hvis : m.visible ref with
  | true =>
    rw [hvis, if_pos rfl] at h
    exact h.of_shown _
  | false =>
    have hvis' : m'.visible ref = false := by
      rw [← Bool.not_eq_true]
      intro h'
      rw [hvisible h'] at hvis
      cases hvis
    rw [hvis] at h
    rwa [hvis']

/-! ### What a task leaves placeable -/

theorem placeable_modifyAll_hide (m : ErrorHighlightManager) (refs : List Nat) (ref : Nat) :
    (((modifyAll ErrorHighlightManager.hide refs m.highlighters)[ref]?.map fun e =>
      e.1.placeable ide).getD false) = placeable ide m ref := by
  rw [@map_getElem?_modifyAll _ _ ErrorHighlightManager.hide (fun e => e.1.placeable ide) id
    (fun _ => rfl) (fun _ => rfl)]
  simp only [id_eq, ite_self]
  rfl

theorem placeable_clearFile (m : ErrorHighlightManager) (file : String) (ref : Nat) :
    placeable ide (m.clearFile file) ref = placeable ide m ref := by
  unfold ErrorHighlightManager.clearFile
  cases m.all.lookup file with
  | none => rfl
  | some refs => exact placeable_modifyAll_hide m refs ref

theorem placeable_deactivate (m : ErrorHighlightManager) (ref : Nat) :
    placeable ide m.deactivate ref = placeable ide m ref :=
  placeable_modifyAll_hide m m.refs ref

theorem placeable_add (m : ErrorHighlightManager) (file : String) (line : Int) (msg : String)
    (ref : Nat) :
    placeable ide (m.add ide file line msg) ref =
      if 0 ≤ line ∧ ref = m.highlighters.length then
        (⟨file, line, msg⟩ : ErrorHighlighter).placeable ide
      else placeable ide m ref := by
  unfold placeable ErrorHighlightManager.add
  by_cases hline : line < 0
  · have hnot : ¬ 0 ≤ line := by omega
    simp [hline, hnot]
  · have hline' : 0 ≤ line := by omega
    simp only [if_neg hline, hline', true_and, getElem?_concat]
    split <;> rfl

/-- Showing a highlighter once, and what it leaves of any highlighter. -/
theorem modify_show (hs : List (ErrorHighlighter × Marks)) (r ref : Nat) :
    (((hs.modify r (ErrorHighlightManager.show ide))[ref]?.map fun e =>
        e.1.placeable ide).getD false) = ((hs[ref]?.map fun e => e.1.placeable ide).getD false) ∧
      ((((hs.modify r (ErrorHighlightManager.show ide))[ref]?.map fun e =>
        e.2.visible).getD false) = true →
        ((hs[ref]?.map fun e => e.2.visible).getD false) = true ∨
          ((hs[ref]?.map fun e => e.1.placeable ide).getD false) = true) := by
  rw [List.getElem?_modify]
  cases hs[ref]? with
  | none => simp
  | some e =>
    by_cases hr : r = ref
    · simp [hr, ErrorHighlightManager.show, ErrorHighlighter.visible_show]
    · simp only [if_neg hr, Option.map_eq_map, Option.map_some, Option.getD_some]
      exact ⟨trivial, Or.inl⟩

/-- The loop of `activate`, and what it leaves of any highlighter. -/
theorem showAll_spec (refs : List Nat) (hs : List (ErrorHighlighter × Marks)) (ref : Nat) :
    (((ErrorHighlightManager.showAll ide refs hs)[ref]?.map fun e =>
        e.1.placeable ide).getD false) = ((hs[ref]?.map fun e => e.1.placeable ide).getD false) ∧
      ((((ErrorHighlightManager.showAll ide refs hs)[ref]?.map fun e =>
        e.2.visible).getD false) = true →
        ((hs[ref]?.map fun e => e.2.visible).getD false) = true ∨
          ((hs[ref]?.map fun e => e.1.placeable ide).getD false) = true) := by
  induction refs generalizing hs with
  | nil => exact ⟨rfl, Or.inl⟩
  | cons r refs ih =>
    have hfirst := @modify_show ide hs r ref
    rw [ErrorHighlightManager.showAll]
    split
    · obtain ⟨hplace, hvis⟩ := ih (hs.modify r (ErrorHighlightManager.show ide))
      refine ⟨hplace.trans hfirst.1, fun h => ?_⟩
      rcases hvis h with h | h
      · exact hfirst.2 h
      · exact Or.inr (hfirst.1 ▸ h)
    · exact hfirst

theorem placeable_activate (m : ErrorHighlightManager) (ref : Nat) :
    placeable ide (m.activate ide) ref = placeable ide m ref :=
  (showAll_spec m.refs m.highlighters ref).1

/-- A highlighter that `activate` shows was visible or can be placed. -/
theorem visible_activate (h : (m.activate ide).visible ref = true) :
    m.visible ref = true ∨ placeable ide m ref = true :=
  (showAll_spec m.refs m.highlighters ref).2 h

/-! ### What a task leaves to take away -/

/-- The highlighters of the map have been created. -/
def Bounded (m : ErrorHighlightManager) : Prop :=
  ∀ file, ∀ ref ∈ listAt m.all file, ref < m.highlighters.length

theorem length_showAll (refs : List Nat) (hs : List (ErrorHighlighter × Marks)) :
    (ErrorHighlightManager.showAll ide refs hs).length = hs.length := by
  induction refs generalizing hs with
  | nil => rfl
  | cons r refs ih =>
    rw [ErrorHighlightManager.showAll]
    split
    · rw [ih, List.length_modify]
    · rw [List.length_modify]

/-- **Step lemma.** -/
theorem Bounded.exec (h : Bounded m) (ide : EditorState) (t : ErrorTask) :
    Bounded (m.exec ide t) := by
  intro f ref hmem
  cases t with
  | add file line msg =>
    rw [ErrorHighlightManager.exec, ErrorHighlightManager.listAt_add] at hmem
    rw [ErrorHighlightManager.exec, ErrorHighlightManager.add]
    by_cases hline : line < 0
    · have hnot : ¬ (0 ≤ line ∧ f = file) := by omega
      rw [if_neg hnot] at hmem
      rw [if_pos hline]
      exact h f ref hmem
    · rw [if_neg hline]
      show ref < (m.highlighters ++ [_]).length
      rw [List.length_append, List.length_singleton]
      split at hmem
      · rcases List.mem_append.mp hmem with hmem | hmem
        · have hlt := h f ref hmem
          omega
        · rw [List.mem_singleton] at hmem
          omega
      · have hlt := h f ref hmem
        omega
  | clearFile file =>
    rw [ErrorHighlightManager.exec, ErrorHighlightManager.listAt_clearFile] at hmem
    have hlength : (m.clearFile file).highlighters.length = m.highlighters.length := by
      unfold ErrorHighlightManager.clearFile
      cases m.all.lookup file with
      | none => rfl
      | some refs => exact length_modifyAll _ refs m.highlighters
    rw [ErrorHighlightManager.exec, hlength]
    split at hmem
    · cases hmem
    · exact h f ref hmem
  | activate =>
    show ref < (ErrorHighlightManager.showAll ide m.refs m.highlighters).length
    rw [length_showAll]
    exact h f ref hmem
  | deactivate =>
    show ref < (modifyAll ErrorHighlightManager.hide m.refs m.highlighters).length
    rw [length_modifyAll]
    exact h f ref hmem

/-- A new highlighter is a pending one no more; the others are as they were. -/
theorem Empties.add {f : String} {line : Int} {msg : String}
    (h : Empties ide m (.add f line msg :: queue)) (hbounded : Bounded m) :
    Empties ide (m.add ide f line msg) queue := by
  refine ⟨fun file ref hmem hlit => ?_, h.pending.2⟩
  rw [ErrorHighlightManager.listAt_add] at hmem
  rw [ErrorHighlightManager.visible_add, placeable_add] at hlit
  by_cases hnew : 0 ≤ line ∧ ref = m.highlighters.length
  · rw [if_pos hnew, if_pos hnew, or_self] at hlit
    have hfile : file = f := by
      by_contra hne
      rw [if_neg fun hand => hne hand.2] at hmem
      have hlt := hbounded file ref hmem
      omega
    have htaken := h.pending.1 hnew.1 hlit
    rw [hfile]
    exact htaken.of_shown _
  · rw [if_neg hnew, if_neg hnew] at hlit
    have hold : ref ∈ listAt m.all file := by
      split at hmem
      · next hand =>
        refine (List.mem_append.mp hmem).resolve_right fun hlast => ?_
        exact hnew ⟨hand.1, List.mem_singleton.mp hlast⟩
      · exact hmem
    have htaken := (h.owned file ref hold hlit).of_cons (fate_fateOf_add f line msg)
    refine htaken.mono fun hvis => ?_
    rwa [ErrorHighlightManager.visible_add, if_neg hnew] at hvis

/-- The highlighters of the file are in no list any more. -/
theorem Empties.clearFile {f : String} (h : Empties ide m (.clearFile f :: queue)) :
    Empties ide (m.clearFile f) queue := by
  refine ⟨fun file ref hmem hlit => ?_, h.pending⟩
  rw [ErrorHighlightManager.listAt_clearFile] at hmem
  have hvisible : (m.clearFile f).visible ref = true → m.visible ref = true := by
    rw [ErrorHighlightManager.visible_clearFile]
    split
    · exact fun hfalse => absurd hfalse Bool.false_ne_true
    · exact id
  by_cases hf : file = f
  · rw [if_pos hf] at hmem
    cases hmem
  · rw [if_neg hf] at hmem
    rw [placeable_clearFile] at hlit
    have htaken := (h.owned file ref hmem (hlit.imp_left hvisible)).of_cons
      (fate_fateOf_clearFile (Ne.symm hf))
    exact htaken.mono hvisible

/-- What `activate` shows was visible or could be placed. -/
theorem Empties.activate (h : Empties ide m (.activate :: queue)) :
    Empties ide (m.activate ide) queue := by
  refine ⟨fun file ref hmem hlit => ?_, h.pending⟩
  rw [placeable_activate] at hlit
  have hbefore : m.visible ref = true ∨ placeable ide m ref = true := by
    rcases hlit with hvis | hplace
    · exact visible_activate hvis
    · exact Or.inr hplace
  have htaken := (h.owned file ref hmem hbefore).of_cons fate_fateOf_activate
  exact htaken.of_shown _

/-- `deactivate` hides every highlighter of the map. -/
theorem Empties.deactivate (h : Empties ide m (.deactivate :: queue)) :
    Empties ide m.deactivate queue := by
  refine ⟨fun file ref hmem hlit => ?_, h.pending⟩
  have hmem' : ref ∈ listAt m.all file := hmem
  have hrefs : ref ∈ m.refs := ErrorHighlightManager.mem_refs.mpr ⟨file, hmem'⟩
  have hdark : m.deactivate.visible ref = false := by
    rw [ErrorHighlightManager.visible_deactivate, if_pos hrefs]
  have hnow : fateOf m.deactivate ref = .hidden := by
    rw [fateOf, hdark]
    rfl
  rw [hdark, placeable_deactivate] at hlit
  have hplace := hlit.resolve_left Bool.false_ne_true
  rw [hnow]
  exact (h.owned file ref hmem' (Or.inr hplace)).of_cons fate_fateOf_deactivate

/-- **Step lemma.** A task leaves it to the later ones to take away what is left. -/
theorem Empties.exec {t : ErrorTask} (h : Empties ide m (t :: queue)) (hbounded : Bounded m) :
    Empties ide (m.exec ide t) queue := by
  cases t with
  | add f line msg => exact h.add hbounded
  | clearFile f => exact h.clearFile
  | activate => exact h.activate
  | deactivate => exact h.deactivate

/-! ### What is lost for good -/

/-- A highlighter is visible, and no file of the map has it. -/
def Lost (m : ErrorHighlightManager) (ref : Nat) : Prop := m.visible ref = true ∧ ref ∉ m.refs

/-- The loop of `activate` leaves the other highlighters as they are. -/
theorem getElem?_showAll_of_notMem (refs : List Nat) (hs : List (ErrorHighlighter × Marks))
    (h : ref ∉ refs) : (ErrorHighlightManager.showAll ide refs hs)[ref]? = hs[ref]? := by
  induction refs generalizing hs with
  | nil => rfl
  | cons r refs ih =>
    rw [List.mem_cons, not_or] at h
    have hfirst : (hs.modify r (ErrorHighlightManager.show ide))[ref]? = hs[ref]? :=
      List.getElem?_modify_ne _ hs (Ne.symm h.1)
    rw [ErrorHighlightManager.showAll]
    split
    · rw [ih _ h.2, hfirst]
    · exact hfirst

/-- **Step lemma.** No task finds it. -/
theorem Lost.exec (h : Lost m ref) (ide : EditorState) (t : ErrorTask) :
    Lost (m.exec ide t) ref := by
  obtain ⟨hvis, hrefs⟩ := h
  have hlists : ∀ f, ref ∉ listAt m.all f := fun f hmem =>
    hrefs (ErrorHighlightManager.mem_refs.mpr ⟨f, hmem⟩)
  cases t with
  | add file line msg =>
    -- the new highlighter has another number
    have hne : ref ≠ m.highlighters.length := by
      rintro rfl
      simp [ErrorHighlightManager.visible] at hvis
    refine ⟨?_, fun hmem => ?_⟩
    · rw [ErrorHighlightManager.exec, ErrorHighlightManager.visible_add,
        if_neg fun hand => hne hand.2]
      exact hvis
    · obtain ⟨f, hmem⟩ := ErrorHighlightManager.mem_refs.mp hmem
      rw [ErrorHighlightManager.exec, ErrorHighlightManager.listAt_add] at hmem
      split at hmem
      · rcases List.mem_append.mp hmem with hmem | hmem
        · exact hlists f hmem
        · exact hne (List.mem_singleton.mp hmem)
      · exact hlists f hmem
  | clearFile file =>
    refine ⟨?_, fun hmem => ?_⟩
    · rw [ErrorHighlightManager.exec, ErrorHighlightManager.visible_clearFile,
        if_neg (hlists file)]
      exact hvis
    · obtain ⟨f, hmem⟩ := ErrorHighlightManager.mem_refs.mp hmem
      rw [ErrorHighlightManager.exec, ErrorHighlightManager.listAt_clearFile] at hmem
      split at hmem
      · cases hmem
      · exact hlists f hmem
  | activate =>
    refine ⟨?_, hrefs⟩
    show ((ErrorHighlightManager.showAll ide m.refs m.highlighters)[ref]?.map
      fun e => e.2.visible).getD false = true
    rw [getElem?_showAll_of_notMem m.refs m.highlighters hrefs]
    exact hvis
  | deactivate =>
    refine ⟨?_, hrefs⟩
    rw [ErrorHighlightManager.exec, ErrorHighlightManager.visible_deactivate, if_neg hrefs]
    exact hvis

/-- **Step lemma.** No turn finds it. -/
theorem Lost.step {c c' : ErrorHighlights} {turn : ErrorTurn} (h : Lost c.manager ref)
    (hstep : (machine ide).step c turn = some c') : Lost c'.manager ref := by
  cases turn with
  | call t =>
    rw [step_call hstep]
    exact h
  | clearAll files =>
    rw [step_clearAll hstep]
    exact h
  | next =>
    obtain ⟨⟨rest, modified⟩, -, rfl⟩ := step_next hstep
    cases rest with
    | nil => exact ⟨h.1, List.not_mem_nil⟩
    | cons file rest =>
      cases modified with
      | false => exact h
      | true => exact h
  | task =>
    obtain ⟨t, rest, -, rfl⟩ := step_task hstep
    exact h.exec ide t

/-- So a highlighter that is visible when `clearAll` empties the map has no owner in any later
    state, whatever is done there. -/
theorem not_owned_of_cleared {c c' : ErrorHighlights} {modified : Bool} {turns : List ErrorTurn}
    (hclearing : c.clearing = some ⟨[], modified⟩) (hvis : c.manager.visible ref = true)
    (hrun : (machine ide).run c (.next :: turns) = some c') : ¬ c'.manager.Owned := by
  obtain ⟨cleared, hnext, hrest⟩ := Lts.run_cons_eq_some.mp hrun
  obtain ⟨loop, hloop, rfl⟩ := step_next hnext
  cases hclearing.symm.trans hloop
  have hlost : Lost (c.next ⟨[], modified⟩).manager ref := ⟨hvis, List.not_mem_nil⟩
  have hlater := @Lts.invariant_of_run _ _ (machine ide) (fun c => Lost c.manager ref)
    (fun _ _ _ h hstep => h.step hstep) _ _ _ hlost hrest
  exact fun howned => hlater.2 (howned ref hlater.1)

/-! ### Runs -/

/-- What holds all along a run that meets the condition. -/
structure Inv (ide : EditorState) (c : ErrorHighlights) : Prop where
  owned : c.manager.Owned
  bounded : Bounded c.manager
  emptied : c.clearing = none → c.clearedLast = true → Empties ide c.manager c.queue

theorem inv_new : Inv ide new where
  owned := ErrorHighlightManager.owned_new
  bounded _ _ h := by cases h
  emptied _ h := by cases h

/-- The end of `clearAll`, by the map's `clear`. -/
theorem Inv.cleared {c : ErrorHighlights} (hhidden : ∀ ref, c.manager.visible ref = false)
    (hempties : Empties ide { c.manager with all := ∅ } c.queue) :
    Inv ide { c with manager := { c.manager with all := ∅ }, clearing := none } where
  owned ref h := by
    have hdark : c.manager.visible ref = true := h
    rw [hhidden ref] at hdark
    cases hdark
  bounded _ _ h := by cases h
  emptied _ _ := hempties

/-- **Step lemma.** -/
theorem Inv.step {c c' : ErrorHighlights} {turn : ErrorTurn} (h : Inv ide c)
    (hclears : ClearsAll ide c turn) (hstep : (machine ide).step c turn = some c') :
    Inv ide c' := by
  cases turn with
  | call t =>
    rw [step_call hstep]
    exact ⟨h.owned, h.bounded, nofun⟩
  | clearAll files =>
    rw [step_clearAll hstep]
    exact ⟨h.owned, h.bounded, nofun⟩
  | next =>
    obtain ⟨⟨rest, modified⟩, hloop, rfl⟩ := step_next hstep
    rw [ClearsAll, hloop] at hclears
    cases rest with
    | nil => exact Inv.cleared hclears.1 hclears.2
    | cons file rest =>
      cases modified with
      | false => exact ⟨h.owned, h.bounded, nofun⟩
      | true => exact ⟨h.owned, h.bounded, fun _ _ => hclears⟩
  | task =>
    obtain ⟨t, rest, hqueue, rfl⟩ := step_task hstep
    refine ⟨h.owned.exec ide t, h.bounded.exec ide t, fun hclearing hlast => ?_⟩
    have hempties := h.emptied (Option.map_eq_none_iff.mp hclearing) hlast
    rw [hqueue] at hempties
    exact hempties.exec h.bounded

/-- **Run lemma.** -/
theorem inv_of_meets {turns : List ErrorTurn} {c : ErrorHighlights}
    (hmeets : (machine ide).Meets (ClearsAll ide) (machine ide).init turns)
    (hrun : (machine ide).run (machine ide).init turns = some c) : Inv ide c :=
  Lts.invariant_of_meets (fun _ _ _ h hclears hstep => Inv.step h hclears hstep) inv_new hmeets
    hrun

/-- **Error highlights are owned.** In a run in which every `clearAll` leaves nothing visible
    behind, neither by itself nor by the tasks that are posted, with the queue drained and no
    call under way every visible highlighter is one of the map, and none is visible if the last
    call was `clearAll`. -/
theorem owned_of_meets {turns : List ErrorTurn} {c : ErrorHighlights}
    (hmeets : (machine ide).Meets (ClearsAll ide) (machine ide).init turns)
    (hrun : (machine ide).run (machine ide).init turns = some c) (hclearing : c.clearing = none)
    (hqueue : c.queue = []) :
    c.manager.Owned ∧ (c.clearedLast = true → ∀ ref, c.manager.visible ref = false) := by
  have hinv := inv_of_meets hmeets hrun
  refine ⟨hinv.owned, fun hlast ref => ?_⟩
  have hempties := hinv.emptied hclearing hlast
  rw [hqueue] at hempties
  rw [← Bool.not_eq_true]
  intro hvis
  obtain ⟨file, hmem⟩ := ErrorHighlightManager.mem_refs.mp (hinv.owned ref hvis)
  have htaken := hempties.owned file ref hmem (Or.inl hvis)
  rw [fateOf, hvis, if_pos rfl] at htaken
  exact htaken rfl

/-- An editor in which every line can be marked. -/
def everyLine : EditorState := ⟨some, fun _ _ => true, fun _ _ _ => true, fun _ _ => true,
  fun _ => [0], fun _ => []⟩

/-- An error is added and cleared before all errors are. -/
def clearedFirst : List ErrorTurn :=
  [.call (.add "main.py" 1 "boom"), .task, .call (.clearFile "main.py"), .task,
    .clearAll ["main.py"], .next, .next, .task]

/-- Then `clearAll` finds nothing visible. -/
theorem meets_clearedFirst :
    (machine everyLine).Meets (ClearsAll everyLine) (machine everyLine).init clearedFirst := by
  refine Lts.meets_cons rfl trivial (Lts.meets_cons rfl trivial (Lts.meets_cons rfl trivial
    (Lts.meets_cons rfl trivial (Lts.meets_cons rfl trivial (Lts.meets_cons rfl trivial
      (Lts.meets_cons rfl ⟨fun ref => ?_, ⟨nofun, trivial⟩⟩
        (Lts.meets_cons rfl trivial trivial)))))))
  cases ref <;> rfl

/-- Nothing is left. -/
theorem owned_clearedFirst :
    ∃ c, (machine everyLine).run (machine everyLine).init clearedFirst = some c ∧
      c.manager.Owned ∧ (c.clearedLast = true → ∀ ref, c.manager.visible ref = false) :=
  ⟨_, rfl, @owned_of_meets everyLine clearedFirst _ meets_clearedFirst rfl rfl rfl⟩

/-- **Counterexample.** The highlighter of an error stays when all errors are cleared, and is
    out of the map. -/
theorem shown_after_clearAll :
    ¬ ∀ (ide : EditorState) (turns : List ErrorTurn) (c : ErrorHighlights),
      (machine ide).run (machine ide).init turns = some c → c.clearing = none → c.queue = [] →
        c.manager.Owned ∧
          (c.clearedLast = true → ∀ ref, c.manager.visible ref = false) := by
  intro h
  have hgone := (h everyLine [.call (.add "main.py" 1 "boom"), .task, .clearAll ["main.py"],
    .next, .next, .task] _ rfl rfl rfl).2 rfl 0
  cases hgone

end ErrorHighlights

end Reloadium.Highlights
