import Reloadium.Ai.DialogStates

namespace Reloadium.Ai

open Reloadium.Lib

/-!
# Ai — what a file keeps of the models

Writing a chat as UTF-8 replaces every unpaired surrogate of its texts.  `sanitize` is what
is left of a model, and a model is well formed when that is all of it.

* `sanitize_rebuilt` — building a message and writing it commute;
* `wellFormed_of_restored` — a model that is read back and loaded as it was is well formed.
-/

/-- The message with the unpaired surrogates of its texts replaced. -/
def MessageModel.sanitize (m : MessageModel) : MessageModel :=
  { m with
    context := m.context.map Utf8.sanitize
    rawContent := m.rawContent.map Utf8.sanitize
    content := m.content.map fun parts => parts.map fun p => (p.1, p.2.1, p.2.2.map Utf8.sanitize) }

def DialogModel.sanitize (d : DialogModel) : DialogModel :=
  { d with
    name := d.name.map Utf8.sanitize
    messages := d.messages.map fun messages => messages.map (·.map MessageModel.sanitize) }

def FileContent.sanitize (c : FileContent) : FileContent :=
  { c with
    version := c.version.map Utf8.sanitize
    dialogs := c.dialogs.map fun dialogs => dialogs.map (·.map DialogModel.sanitize) }

/-- No text of the model has an unpaired surrogate. -/
def DialogModel.WellFormed (d : DialogModel) : Prop := d.sanitize = d

variable {kit : Toolkit}

/-! ### Messages -/

theorem sanitize_sanitize_text (text : Option JString) :
    (text.map Utf8.sanitize).map Utf8.sanitize = text.map Utf8.sanitize := by
  cases text with
  | none => rfl
  | some s => exact congrArg some (Utf8.wellFormed_sanitize s)

theorem MessageModel.sanitize_sanitize (m : MessageModel) : m.sanitize.sanitize = m.sanitize := by
  have hparts : ∀ parts : List (Int32 × MessagePartType × Option JString),
      (parts.map fun p => (p.1, p.2.1, p.2.2.map Utf8.sanitize)).map
          (fun p => (p.1, p.2.1, p.2.2.map Utf8.sanitize)) =
        parts.map fun p => (p.1, p.2.1, p.2.2.map Utf8.sanitize) := by
    intro parts
    rw [List.map_map]
    refine List.map_congr_left fun p _ => ?_
    simp only [Function.comp, sanitize_sanitize_text]
  unfold MessageModel.sanitize
  simp only [sanitize_sanitize_text]
  cases m.content with
  | none => rfl
  | some parts => simp only [Option.map_some, hparts]

/-- The texts of the Re messages are plain. -/
theorem sanitize_bundleText {type : MessageType} {text : JString}
    (h : type.bundleText = some text) : Utf8.sanitize text = text := by
  cases type <;> cases h <;> exact Utf8.wellFormed_ofString _

/-- **Building a message** from what was written of it. -/
theorem sanitize_rebuilt (m : MessageModel) : m.rebuilt.sanitize = m.sanitize.rebuilt := by
  have htype : m.sanitize.type = m.type := rfl
  cases htext : m.type.bundleText with
  | none =>
    rw [MessageModel.rebuilt, MessageModel.rebuilt, htype, htext]
  | some text =>
    have hplain := sanitize_bundleText htext
    have hpart : ∀ parts : List (Int32 × MessagePartType × Option JString),
        (setPartText text parts).map (fun p => (p.1, p.2.1, p.2.2.map Utf8.sanitize)) =
          setPartText text (parts.map fun p => (p.1, p.2.1, p.2.2.map Utf8.sanitize)) := by
      intro parts
      have hany : (parts.map fun p => (p.1, p.2.1, p.2.2.map Utf8.sanitize)).any (·.1 == 0) =
          parts.any (·.1 == 0) := by rw [List.any_map]; rfl
      unfold setPartText
      rw [hany]
      split
      · rw [List.map_map, List.map_map]
        refine List.map_congr_left fun p _ => ?_
        by_cases hp : p.1 = 0
        · simp [Function.comp, hp, hplain]
        · simp [Function.comp, hp]
      · simp [hplain]
    rw [MessageModel.rebuilt, MessageModel.rebuilt, htype, htext]
    unfold MessageModel.sanitize
    dsimp only
    rw [Option.map_some, hplain]
    cases m.content with
    | none => rfl
    | some parts =>
      exact congrArg (fun content => MessageModel.mk _ _ _ (some content)) (hpart parts)

/-- What loading makes of a written message is well formed. -/
theorem sanitize_rebuildMessage_sanitize (m : MessageModel) :
    (rebuildMessage kit m.sanitize).sanitize = rebuildMessage kit m.sanitize := by
  unfold rebuildMessage
  split
  · exact m.sanitize_sanitize
  · rw [sanitize_rebuilt, m.sanitize_sanitize]

/-! ### Models -/

/-- **A model that comes back** from its file, or from loading what was written of it, has
    only well-formed texts. -/
theorem wellFormed_of_restored {d : DialogModel}
    (h : Dialog.rebuildModel kit d.sanitize = d) : d.WellFormed := by
  have hname : d.name.map Utf8.sanitize = d.name := congrArg DialogModel.name h
  have hmessages : (d.messages.map (·.map (·.map MessageModel.sanitize))).map
      (·.map (·.map (rebuildMessage kit))) = d.messages := congrArg DialogModel.messages h
  -- a rebuilt message has nothing left to replace
  have hrebuilt : ∀ messages : Option (List (Option MessageModel)),
      ((messages.map (·.map (·.map MessageModel.sanitize))).map
          (·.map (·.map (rebuildMessage kit)))).map (·.map (·.map MessageModel.sanitize)) =
        (messages.map (·.map (·.map MessageModel.sanitize))).map
          (·.map (·.map (rebuildMessage kit))) := by
    intro messages
    cases messages with
    | none => rfl
    | some messages =>
      simp only [Option.map_some, List.map_map]
      refine congrArg some (List.map_congr_left fun m _ => ?_)
      cases m with
      | none => rfl
      | some m => exact congrArg some (sanitize_rebuildMessage_sanitize m)
  have hback := hrebuilt d.messages
  rw [hmessages] at hback
  show { d with name := d.name.map Utf8.sanitize,
                messages := d.messages.map (·.map (·.map MessageModel.sanitize)) } = d
  rw [hname, hback]

end Reloadium.Ai
