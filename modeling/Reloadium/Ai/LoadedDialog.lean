import Reloadium.Ai.ChatEvents

namespace Reloadium.Ai

open Reloadium.Lib

/-!
# Ai — when the messages of a dialog can be loaded

`loadMessages` catches what a single message throws, and throws itself in two cases: the
list of messages is null, or a message is held while the history cannot be computed.

* `Dialog.Loadable` — neither is the case, read off the dialog before;
* `loadMessages_returns_iff` — this is exact;
* `loadMessages_model` — the models are built once more, which is idempotent
  (`rebuildModel_rebuildModel`).
-/

variable {kit : Toolkit}

/-! ### Building a message once more -/

@[simp] theorem rebuilt_type (m : MessageModel) : m.rebuilt.type = m.type := by
  unfold MessageModel.rebuilt
  split <;> rfl

/-- What a message tells the model is not touched: a Re message tells it nothing. -/
theorem getAiContent_rebuilt (m : MessageModel) : m.rebuilt.getAiContent = m.getAiContent := by
  cases htext : m.type.bundleText with
  | none => rw [MessageModel.rebuilt, htext]
  | some text =>
    unfold MessageModel.getAiContent
    rw [rebuilt_type]
    cases htype : m.type <;> rw [htype] at htext <;> first | rfl | cases htext

/-- The parts of a Re message after its text is set. -/
def setPartText (text : JString) (parts : List (Int32 × MessagePartType × Option JString)) :
    List (Int32 × MessagePartType × Option JString) :=
  if parts.any (·.1 == 0) then
    parts.map fun p => if p.1 = 0 then (0, p.2.1, some text) else p
  else parts ++ [(0, .MARKDOWN, some text)]

theorem setPartText_setPartText (text : JString)
    (parts : List (Int32 × MessagePartType × Option JString)) :
    setPartText text (setPartText text parts) = setPartText text parts := by
  have hmap : ∀ l : List (Int32 × MessagePartType × Option JString), l.any (·.1 == 0) = true →
      setPartText text l = l.map fun p => if p.1 = 0 then (0, p.2.1, some text) else p :=
    fun l hany => by rw [setPartText, if_pos hany]
  -- part 0 is there by now, whether it was before or not
  have hany : (setPartText text parts).any (·.1 == 0) = true := by
    unfold setPartText
    split
    · next hany =>
      obtain ⟨p, hp, hzero⟩ := List.any_eq_true.mp hany
      refine List.any_eq_true.mpr ⟨_, List.mem_map_of_mem hp, ?_⟩
      rw [if_pos (by simpa using hzero)]
      rfl
    · simp
  rw [hmap _ hany]
  refine (List.map_congr_left fun p hp => ?_).trans (List.map_id _)
  split
  · next hzero =>
    -- a part 0 has the text already
    unfold setPartText at hp
    split at hp
    · obtain ⟨q, -, rfl⟩ := List.mem_map.mp hp
      split
      · rfl
      · next hq =>
        rw [if_neg hq] at hzero
        exact absurd hzero hq
    · next hany =>
      rcases List.mem_append.mp hp with hp | hp
      · exact absurd (List.any_eq_true.mpr ⟨p, hp, by simpa using hzero⟩) hany
      · rw [List.mem_singleton.mp hp]
        rfl
  · rfl

/-- **Building a message once more changes nothing** after the first time. -/
theorem rebuilt_rebuilt (m : MessageModel) : m.rebuilt.rebuilt = m.rebuilt := by
  cases htext : m.type.bundleText with
  | none => rw [MessageModel.rebuilt, rebuilt_type, htext]
  | some text =>
    have hrebuilt : ∀ m' : MessageModel, m'.type.bundleText = some text →
        m'.rebuilt =
          { m' with rawContent := some text, content := m'.content.map (setPartText text) } := by
      intro m' hm'
      unfold MessageModel.rebuilt
      rw [hm']
      rfl
    rw [hrebuilt m.rebuilt (by rw [rebuilt_type]; exact htext), hrebuilt m htext]
    have hparts : ∀ content : Option (List (Int32 × MessagePartType × Option JString)),
        (content.map (setPartText text)).map (setPartText text) =
          content.map (setPartText text) := by
      intro content
      cases content with
      | none => rfl
      | some parts => exact congrArg some (setPartText_setPartText text parts)
    simp only [hparts]

/-- The model of a message after the loop that builds the messages. -/
def rebuildMessage (kit : Toolkit) (m : MessageModel) : MessageModel :=
  if kit.viewFails m then m else m.rebuilt

theorem rebuildMessage_rebuildMessage (m : MessageModel) :
    rebuildMessage kit (rebuildMessage kit m) = rebuildMessage kit m := by
  unfold rebuildMessage
  cases hview : kit.viewFails m with
  | true => simp [hview]
  | false => simp [rebuilt_rebuilt]

/-- A model that is built once more as it is stays as it is. -/
theorem rebuildMessage_of_rebuilt {m : MessageModel} (h : m.rebuilt = m) :
    rebuildMessage kit m = m := by
  rw [rebuildMessage, h, ite_self]

theorem rebuildModel_eq (d : DialogModel) :
    Dialog.rebuildModel kit d =
      { d with messages := d.messages.map (·.map (·.map (rebuildMessage kit))) } := rfl

/-- **Loading the messages once more changes no model.** -/
theorem rebuildModel_rebuildModel (d : DialogModel) :
    Dialog.rebuildModel kit (Dialog.rebuildModel kit d) = Dialog.rebuildModel kit d := by
  have hmessage : ∀ m : Option MessageModel,
      (m.map (rebuildMessage kit)).map (rebuildMessage kit) = m.map (rebuildMessage kit) := by
    intro m
    cases m with
    | none => rfl
    | some m => exact congrArg some (rebuildMessage_rebuildMessage m)
  rw [rebuildModel_eq, rebuildModel_eq]
  cases d.messages with
  | none => rfl
  | some messages =>
    have hmap : (messages.map (·.map (rebuildMessage kit))).map (·.map (rebuildMessage kit)) =
        messages.map (·.map (rebuildMessage kit)) := by
      rw [List.map_map]
      exact List.map_congr_left fun m _ => hmessage m
    simp only [Option.map_some, hmap]

/-! ### The history -/

/-- Whether the history can be computed is a matter of what the messages tell the model. -/
theorem acceptMessages_isSome_map {f : MessageModel → MessageModel}
    (hf : ∀ m, (f m).getAiContent = m.getAiContent) (messages : List (Option MessageModel))
    (tokenCounter : Int32) (messageCounter : Nat) :
    (acceptMessages kit tokenCounter messageCounter (messages.map (·.map f))).isSome =
      (acceptMessages kit tokenCounter messageCounter messages).isSome := by
  induction messages generalizing tokenCounter messageCounter with
  | nil => rfl
  | cons m rest ih =>
    cases m with
    | none => rfl
    | some m =>
      simp only [List.map_cons, Option.map_some, acceptMessages, hf]
      cases m.getAiContent.bind kit.countTokens with
      | none => rfl
      | some tokens =>
        simp only [Option.bind_some]
        split
        · rfl
        · split
          · rfl
          · rw [Option.isSome_map, Option.isSome_map]
            exact ih ..

theorem getAcceptedMessages_rebuildModel (d : DialogModel) :
    ((Dialog.rebuildModel kit d).getAcceptedMessages kit).isSome =
      (d.getAcceptedMessages kit).isSome := by
  have hcontent : ∀ m, (rebuildMessage kit m).getAiContent = m.getAiContent := by
    intro m
    unfold rebuildMessage
    split
    · rfl
    · exact getAiContent_rebuilt m
  rw [rebuildModel_eq]
  unfold DialogModel.getAcceptedMessages
  cases kit.countTokens SYSTEM_MSG with
  | none => rfl
  | some systemTokens =>
    cases d.messages with
    | none => rfl
    | some messages =>
      simp only [Option.bind_some, Option.map_some, Option.isSome_map, ← List.map_reverse]
      exact acceptMessages_isSome_map hcontent ..

/-! ### The loop -/

/-- The message is held after the loop, given whether the history can be computed. -/
def MessageModel.Shows (kit : Toolkit) (history : Bool) (m : MessageModel) : Prop :=
  kit.viewFails m = false ∧
    match m.type with
    | .USER => m.context.isSome = true
    | .AI => history = true
    | .RE => False
    | _ => True

/-- **When the messages can be loaded**: there is a list of them, and the history can be
    computed or no message is held. -/
def Dialog.Loadable (kit : Toolkit) (d : Dialog) : Prop :=
  ∃ messages, d.model.messages = some messages ∧
    ((d.model.getAcceptedMessages kit).isSome = true ∨
      (d.messages = [] ∧ ∀ m, some m ∈ messages → ¬ m.Shows kit false))

/-- One message: the model is not touched, and the message is held if it shows. -/
theorem loadMessage_spec (d : Dialog) (m : Option MessageModel) :
    (d.loadMessage kit m).model = d.model ∧ (d.loadMessage kit m).loaded = d.loaded ∧
      ((d.loadMessage kit m).messages = [] ↔
        d.messages = [] ∧
          ∀ m', m = some m' → ¬ m'.Shows kit (d.model.getAcceptedMessages kit).isSome) := by
  cases m with
  | none => simp [Dialog.loadMessage]
  | some m =>
    simp only [Option.some.injEq, forall_eq', MessageModel.Shows]
    cases hview : kit.viewFails m with
    | true => simp [Dialog.loadMessage, hview]
    | false =>
      rw [loadMessage_of_view hview]
      cases m.type with
      | USER =>
        cases m.context with
        | none => simp
        | some context =>
          obtain ⟨hmodel, hloaded⟩ := trackContextChange_frame d context
          simp [Dialog.showMessage, hmodel, hloaded]
      | AI => cases d.model.getAcceptedMessages kit <;> simp [Dialog.showMessage]
      | RE => simp
      | RE_BAD_KEY | RE_EXCEEDED_QUOTA | RE_TMP_CHAT | RE_STAR_REPO =>
        simp [Dialog.showMessage]

/-- The whole loop. -/
theorem foldl_loadMessage_spec (messages : List (Option MessageModel)) (d : Dialog) :
    (messages.foldl (Dialog.loadMessage kit) d).model = d.model ∧
      (messages.foldl (Dialog.loadMessage kit) d).loaded = d.loaded ∧
      ((messages.foldl (Dialog.loadMessage kit) d).messages = [] ↔
        d.messages = [] ∧
          ∀ m, some m ∈ messages → ¬ m.Shows kit (d.model.getAcceptedMessages kit).isSome) := by
  induction messages generalizing d with
  | nil => simp
  | cons m rest ih =>
    obtain ⟨hmodel, hloaded, hheld⟩ := @loadMessage_spec kit d m
    obtain ⟨hmodel', hloaded', hheld'⟩ := ih (d.loadMessage kit m)
    rw [List.foldl_cons]
    refine ⟨hmodel'.trans hmodel, hloaded'.trans hloaded, ?_⟩
    rw [hheld', hheld, hmodel, and_assoc]
    simp only [List.mem_cons, or_imp, forall_and, eq_comm]

/-! ### Loading -/

/-- The dialog after the loop, with the models of its messages built once more. -/
def Dialog.afterLoop (kit : Toolkit) (d : Dialog) (messages : List (Option MessageModel)) :
    Dialog :=
  { messages.foldl (Dialog.loadMessage kit) d with
    model := Dialog.rebuildModel kit (messages.foldl (Dialog.loadMessage kit) d).model }

theorem loadMessages_eq {d : Dialog} {messages : List (Option MessageModel)}
    (h : d.model.messages = some messages) :
    d.loadMessages kit =
      if (d.afterLoop kit messages).allowedFails kit then (d.afterLoop kit messages, false)
      else ({ d.afterLoop kit messages with loaded := true }, true) := by
  unfold Dialog.loadMessages
  rw [h]
  rfl

/-- A dialog without a list of messages throws. -/
theorem loadMessages_none {d : Dialog} (h : d.model.messages = none) :
    d.loadMessages kit = (d, false) := by
  unfold Dialog.loadMessages
  rw [h]

theorem afterLoop_model (d : Dialog) (messages : List (Option MessageModel)) :
    (d.afterLoop kit messages).model = Dialog.rebuildModel kit d.model :=
  congrArg (Dialog.rebuildModel kit) (foldl_loadMessage_spec messages d).1

/-- The messages that are held are asked whether they are in the history. -/
theorem allowedFails_afterLoop (d : Dialog) (messages : List (Option MessageModel)) :
    (d.afterLoop kit messages).allowedFails kit = true ↔
      (messages.foldl (Dialog.loadMessage kit) d).messages ≠ [] ∧
        (d.model.getAcceptedMessages kit).isSome = false := by
  rw [Dialog.allowedFails, Bool.and_eq_true, Bool.not_eq_true', List.isEmpty_eq_false_iff,
    afterLoop_model, ← Option.not_isSome, getAcceptedMessages_rebuildModel, Bool.not_eq_true']
  rfl

/-- Loading the messages builds their models once more, whether it throws or not. -/
theorem loadMessages_model (d : Dialog) :
    (d.loadMessages kit).1.model = Dialog.rebuildModel kit d.model := by
  cases hmessages : d.model.messages with
  | none =>
    rw [loadMessages_none hmessages, rebuildModel_eq, hmessages, Option.map_none, ← hmessages]
  | some messages =>
    rw [loadMessages_eq hmessages]
    split <;> exact afterLoop_model d messages

/-- Loading leaves a dialog loaded when it returns. -/
theorem loadMessages_loaded (d : Dialog) :
    (d.loadMessages kit).1.loaded = (d.loaded || (d.loadMessages kit).2) := by
  cases hmessages : d.model.messages with
  | none =>
    rw [loadMessages_none hmessages]
    simp
  | some messages =>
    have hloaded : (d.afterLoop kit messages).loaded = d.loaded :=
      (foldl_loadMessage_spec messages d).2.1
    rw [loadMessages_eq hmessages]
    split <;> simp [hloaded]

/-- **Loading the messages returns** exactly when they can be loaded. -/
theorem loadMessages_returns_iff (d : Dialog) :
    (d.loadMessages kit).2 = true ↔ d.Loadable kit := by
  unfold Dialog.Loadable
  cases hmessages : d.model.messages with
  | none =>
    rw [loadMessages_none hmessages]
    simp
  | some messages =>
    have hheld := (@foldl_loadMessage_spec kit messages d).2.2
    have hreturns : (d.loadMessages kit).2 = true ↔
        ¬ (d.afterLoop kit messages).allowedFails kit = true := by
      rw [loadMessages_eq hmessages]
      split <;> simp [*]
    rw [hreturns, allowedFails_afterLoop]
    cases hhistory : (d.model.getAcceptedMessages kit).isSome with
    | true => simp
    | false =>
      rw [hhistory] at hheld
      simp [hheld]

end Reloadium.Ai
