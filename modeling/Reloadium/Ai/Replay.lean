import Reloadium.Ai.ShownMessages

namespace Reloadium.Ai

open Reloadium.Lib

/-!
# Ai — reloading a dialog against what was shown

`loadMessages` prints the messages of the model from the empty context, and leaves out the
`AiMessage`s when their history cannot be computed.  The live component is the print from
the context that was current when it was emptied.

* `foldl_loadMessage_output` — what a fresh dialog shows after loading;
* `shown_eq_items` — what the live dialog shows;
* `replays_iff` — the two agree exactly when the first user message is separated in both or
  in neither, and no `AiMessage` is left out.
-/

/-! ### Loading -/

/-- The context that a message is separated by. -/
def MessageModel.seed (m : MessageModel) : Option JString :=
  match m.type with
  | .USER => m.context
  | _ => none

/-- The separators of a dialog's component. -/
def outputSections : Sections JString MessageModel OutputItem where
  separator := .contextSeparator
  entry := .message
  named := MessageModel.seed

/-- An item of the component is a separator or a message. -/
def OutputItem.isMessage : OutputItem → Bool
  | .contextSeparator _ => false
  | .message _ => true

/-- A view can be built for every model with a context, a text and parts numbered from 0. -/
def Toolkit.BuildsViews (kit : Toolkit) : Prop :=
  ∀ m : MessageModel, m.context.isSome → m.rawContent.isSome →
    (∃ vs, m.content = some (numbered vs)) → kit.viewFails m = false

/-- A model that is loaded as it is, as far as it is the message's own matter. -/
structure MessageModel.Loads (kit : Toolkit) (m : MessageModel) : Prop where
  view : kit.viewFails m = false
  rebuilt : m.rebuilt = m
  type : m.type ≠ .RE
  context : m.context.isSome = true

/-- An `AiMessage` is left out when the history of the dialog cannot be computed. -/
def DialogModel.keeps (kit : Toolkit) (d : DialogModel) (m : MessageModel) : Bool :=
  m.type != .AI || (d.getAcceptedMessages kit).isSome

variable {kit : Toolkit} {m : MessageModel} {d : Dialog}

/-- Showing a message after the change of the context that it brings prints it. -/
theorem showMessage_output (d : Dialog) (m : MessageModel) :
    ((d.trackContextChange (outputSections.after d.currentContext m)).showMessage m).output =
      d.output ++ outputSections.print d.currentContext m := by
  rw [Sections.print, Dialog.trackContextChange]
  by_cases heq : d.currentContext = outputSections.after d.currentContext m
  · rw [if_pos heq, if_pos heq.symm]
    rfl
  · rw [if_neg heq, if_neg (Ne.symm heq), ← List.append_assoc]
    rfl

theorem showMessage_context (d : Dialog) (m : MessageModel) :
    ((d.trackContextChange (outputSections.after d.currentContext m)).showMessage m).currentContext
      = outputSections.after d.currentContext m := by
  rw [Dialog.trackContextChange]
  split
  · assumption
  · rfl

/-- **One message.** It is printed, or left out with the history. -/
theorem loadMessage_eq (h : m.Loads kit) (d : Dialog) :
    d.loadMessage kit (some m) =
      if d.model.keeps kit m then
        (d.trackContextChange (outputSections.after d.currentContext m)).showMessage m
      else d := by
  obtain ⟨context, hcontext⟩ := Option.isSome_iff_exists.mp h.context
  -- a message that names no context changes none
  have hnone : m.seed = none →
      d.trackContextChange (outputSections.after d.currentContext m) = d := by
    intro hseed
    rw [Dialog.trackContextChange, if_pos]
    show d.currentContext = (m.seed).getD d.currentContext
    rw [hseed, Option.getD_none]
  rw [loadMessage_of_view h.view]
  cases htype : m.type with
  | USER =>
    have hafter : outputSections.after d.currentContext m = context := by
      show (m.seed).getD d.currentContext = context
      rw [MessageModel.seed, htype, hcontext]
      rfl
    rw [hafter, hcontext, DialogModel.keeps, htype]
    rfl
  | AI =>
    rw [hnone (by rw [MessageModel.seed, htype]), DialogModel.keeps, htype]
    cases d.model.getAcceptedMessages kit <;> rfl
  | RE => exact absurd htype h.type
  | RE_BAD_KEY | RE_EXCEEDED_QUOTA | RE_TMP_CHAT | RE_STAR_REPO =>
    rw [hnone (by rw [MessageModel.seed, htype]), DialogModel.keeps, htype, h.rebuilt]
    rfl

/-- **What is shown after loading** messages that load. -/
theorem foldl_loadMessage_output {models : List MessageModel} (h : ∀ m ∈ models, m.Loads kit)
    (d : Dialog) :
    ((models.map some).foldl (Dialog.loadMessage kit) d).output =
      d.output ++ outputSections.items d.currentContext (models.filter (d.model.keeps kit)) := by
  induction models generalizing d with
  | nil => simp
  | cons m rest ih =>
    have hrest := fun m' hm' => h m' (List.mem_cons_of_mem m hm')
    rw [List.map_cons, List.foldl_cons, ih hrest, loadMessage_eq (h m List.mem_cons_self)]
    by_cases hkeep : d.model.keeps kit m = true
    · rw [if_pos hkeep, showMessage_output, showMessage_context,
        show (Dialog.showMessage _ m).model = d.model from (trackContextChange_frame d _).1,
        List.filter_cons_of_pos hkeep, Sections.items_cons, List.append_assoc]
    · rw [if_neg hkeep, List.filter_cons_of_neg hkeep]

/-! ### The live dialog -/

/-- An item of a live component, with the model of its message. -/
def LiveItem.shown (objects : List LiveMessage) : LiveItem → Option OutputItem
  | .contextSeparator context => some (.contextSeparator context)
  | .message ref => (objects[ref]?).map fun m => .message m.model

namespace Live

/-- What the live component shows. -/
def shown (s : Live) : List OutputItem := s.output.filterMap (LiveItem.shown s.objects)

/-- The models of the model's messages. -/
def messageModels (s : Live) : List MessageModel :=
  s.modelMessages.filterMap fun ref => (s.objects[ref]?).map LiveMessage.model

/-- Whether the history of the dialog's model can be computed. -/
def historyFails (env : LiveEnv) (s : Live) : Bool :=
  (s.model.getAcceptedMessages env.toToolkit).isNone

/-- Reloading the dialog's model in a fresh dialog replays what the live one shows. -/
def Replays (env : LiveEnv) (s : Live) : Prop :=
  ((Dialog.new s.id (some s.model)).loadMessages env.toToolkit).1.output = s.shown

instance (env : LiveEnv) (s : Live) : Decidable (s.Replays env) :=
  inferInstanceAs (Decidable (_ = _))

end Live

variable {env : LiveEnv} {base : JString} {s : Live}

theorem seed_model (m : LiveMessage) : m.model.seed = m.seed := rfl

/-- **What the live dialog shows.** -/
theorem shown_eq_items (h : ShownFrom base s) :
    s.shown = outputSections.items base s.messageModels := by
  rw [Live.shown, h.output]
  refine Sections.items_filterMap (g := LiveItem.shown s.objects) (T := outputSections)
    (fun context => rfl) (fun ref hmem => ?_) base
  have hlt := h.bound ref hmem
  have hget := List.getElem?_eq_getElem hlt
  refine ⟨s.objects[ref].model, ?_, ?_, ?_⟩
  · rw [hget, Option.map_some]
  · show (s.objects[ref]?).map _ = _
    rw [hget, Option.map_some]
    rfl
  · show (s.objects[ref]?).bind _ = MessageModel.seed _
    rw [hget, seed_model]
    rfl

/-- The model holds these models. -/
theorem model_messages (h : ShownFrom base s) :
    s.model.messages = some (s.messageModels.map some) := by
  have hmap : ∀ refs : List Nat, (∀ ref ∈ refs, ref < s.objects.length) →
      refs.map (fun ref => (s.objects[ref]?).map LiveMessage.model) =
        (refs.filterMap fun ref => (s.objects[ref]?).map LiveMessage.model).map some := by
    intro refs hbound
    induction refs with
    | nil => rfl
    | cons ref rest ih =>
      have hget := List.getElem?_eq_getElem (hbound ref List.mem_cons_self)
      simp only [List.map_cons, List.filterMap_cons, hget, Option.map_some]
      rw [ih fun r hr => hbound r (List.mem_cons_of_mem ref hr)]
  exact congrArg some (hmap s.modelMessages h.bound)

/-- The messages of a live dialog load. -/
theorem loads_of_shownFrom (hviews : env.BuildsViews) (h : ShownFrom base s) :
    ∀ m ∈ s.messageModels, m.Loads env.toToolkit := by
  intro m hm
  obtain ⟨ref, -, hget⟩ := List.mem_filterMap.mp hm
  obtain ⟨m', hm', rfl⟩ := Option.map_eq_some_iff.mp hget
  have hsound := h.sound ref m' hm'
  obtain ⟨vs, hvs⟩ := savedContent_numbered hsound.counted
  exact ⟨hviews _ rfl rfl ⟨vs, congrArg some hvs⟩, hsound.rebuilt, hsound.type, rfl⟩

/-- **Reloading replays what was shown**, after every sequence of operations on a new dialog:
    exactly when the first user message is sent under the empty context and under the one
    that was current at the last clear, or under neither of them; and the history of the
    model can be computed, if it holds an `AiMessage`. -/
theorem replays_iff (env : LiveEnv) (hviews : env.BuildsViews)
    (hparser : env.parser.ReadsBundle) (id : Int32) (ops : List DialogOp) (s : Shown)
    (hrun : (shownLts env id).run (shownLts env id).init ops = some s) :
    s.live.Replays env ↔
      (∀ seed, s.live.messageModels.findSome? MessageModel.seed = some seed →
        (seed = [] ↔ seed = s.cleared)) ∧
      ((∃ m ∈ s.live.messageModels, m.type = .AI) → s.live.historyFails env = false) := by
  have hshown := shownFrom_of_run hparser hrun
  have hloaded : ((Dialog.new s.live.id (some s.live.model)).loadMessages env.toToolkit).1.output =
      outputSections.items [] (s.live.messageModels.filter
        (s.live.model.keeps env.toToolkit)) := by
    have hfold := foldl_loadMessage_output (loads_of_shownFrom hviews hshown)
      (Dialog.new s.live.id (some s.live.model))
    unfold Dialog.loadMessages
    rw [show (Dialog.new s.live.id (some s.live.model)).model = s.live.model from rfl,
      model_messages hshown]
    dsimp only
    split <;> exact hfold
  rw [Live.Replays, hloaded, shown_eq_items hshown,
    @Sections.items_filter_iff _ _ _ _ outputSections OutputItem.isMessage (fun _ => rfl)
      (fun _ => rfl)]
  have hkeeps : (∀ m ∈ s.live.messageModels, s.live.model.keeps env.toToolkit m = true) ↔
      ((∃ m ∈ s.live.messageModels, m.type = .AI) → s.live.historyFails env = false) := by
    cases hfails : s.live.historyFails env with
    | false =>
      refine iff_of_true (fun m _ => ?_) fun _ => rfl
      rw [Live.historyFails, Option.isNone_eq_false_iff] at hfails
      simp [DialogModel.keeps, hfails]
    | true =>
      rw [Live.historyFails, Option.isNone_iff_eq_none] at hfails
      simp [DialogModel.keeps, hfails]
  rw [hkeeps, and_comm]
  rfl

/-- One message is one paragraph with the bundle's text. -/
theorem plainEnv_readsBundle : plainEnv.parser.ReadsBundle := by
  intro type text htext
  have hne : text ≠ [] := by
    rintro rfl
    cases type <;> cases htext
  show visitNodes (combineParagraphs (if text = [] then [] else [.paragraph text])) = _
  rw [if_neg hne]
  rfl

/-- A dialog used under one context, with a Re message. -/
theorem replays_one_context :
    ∃ s, (shownLts plainEnv 0).run (shownLts plainEnv 0).init
        [.addUserMessage (.ofString "Hello") (.ofString "x") false, .addReMessage .RE_TMP_CHAT]
          = some s ∧ s.live.Replays plainEnv := by
  have hrun : ((shownLts plainEnv 0).run (shownLts plainEnv 0).init
      [.addUserMessage (.ofString "Hello") (.ofString "x") false, .addReMessage .RE_TMP_CHAT]).map
        (fun s => (s.live.messageModels.findSome? MessageModel.seed, s.cleared,
          s.live.historyFails plainEnv)) = some (some (.ofString "x"), [], false) := by
    decide
  obtain ⟨s, hs, heq⟩ := Option.map_eq_some_iff.mp hrun
  simp only [Prod.mk.injEq] at heq
  obtain ⟨hseed, hcleared, hhistory⟩ := heq
  refine ⟨s, hs, (replays_iff plainEnv (fun _ _ _ _ => rfl) plainEnv_readsBundle 0 _ s hs).mpr ?_⟩
  apply And.intro
  · intro seed _
    rw [hcleared]
  · exact fun _ => hhistory

/-- A message under a context, a clear, and one more under the same context: the live dialog
    shows no separator, the reloaded one does. -/
theorem separator_after_clear :
    ∃ s, (shownLts plainEnv 0).run (shownLts plainEnv 0).init
        [.addUserMessage (.ofString "Hello") (.ofString "x") false, .event .clear,
          .addUserMessage (.ofString "Hello") (.ofString "x") false] = some s ∧
      ¬ s.live.Replays plainEnv := by
  have hrun : ((shownLts plainEnv 0).run (shownLts plainEnv 0).init
      [.addUserMessage (.ofString "Hello") (.ofString "x") false, .event .clear,
        .addUserMessage (.ofString "Hello") (.ofString "x") false]).map
        (fun s => decide (s.live.Replays plainEnv)) = some false := by
    decide
  obtain ⟨s, hs, heq⟩ := Option.map_eq_some_iff.mp hrun
  exact ⟨s, hs, of_decide_eq_false heq⟩

end Reloadium.Ai
