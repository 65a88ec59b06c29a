import Reloadium.Ai.Message

namespace Reloadium.Ai

open Reloadium.Lib

/-!
# Ai — a dialog and its messages

Model of `rw.ai.dialog.Dialog`, its `Model` and the message models, as far as loading and
saving a chat file reach: the models as Jackson may leave them (with null fields), the
budgeted history, and the replay of a model's messages into the dialog's component.

Counting tokens is a library's, which refuses texts with special tokens; building the Swing
view of a message may throw, which is caught message by message.  Both are given by the
`Toolkit`.
-/

/-! ### Message models -/

inductive MessageType where
  | USER
  | AI
  | RE_BAD_KEY
  | RE_EXCEEDED_QUOTA
  | RE_TMP_CHAT
  | RE_STAR_REPO
  | RE
  deriving DecidableEq

/-- A `MessageModel`.  `context` is the prompt seed of its context (`none`: there is no
    context, or it has no seed). -/
structure MessageModel where
  type : MessageType
  context : Option JString
  rawContent : Option JString
  content : Option (List (Int32 × MessagePartType × Option JString))
  deriving DecidableEq

/-- `MessageModel.getAiContent`, as it is overridden by the user's and the Re messages;
    `none` when it throws or is null. -/
def MessageModel.getAiContent (m : MessageModel) : Option JString :=
  match m.type with
  | .USER => m.context.map fun seed =>
      seed ++ .ofString "Don't add line numbers to your code blocks" ++
        m.rawContent.getD (.ofString "null")
  | .AI => m.rawContent
  | _ => some []

/-- The text of `AiBundle.properties` that the constructor of a Re message sets. -/
def MessageType.bundleText : MessageType → Option JString
  | .RE_BAD_KEY => some (.ofString "Bad API")
  | .RE_EXCEEDED_QUOTA => some (.ofString "Quota exceeded")
  | .RE_TMP_CHAT => some (.ofString "Tmp Chat")
  | .RE_STAR_REPO => some (.ofString "Star repo")
  | _ => none

/-- The model after a message has been built from it: a Re message sets its text once more,
    and that text is one paragraph, which goes into part 0. -/
def MessageModel.rebuilt (m : MessageModel) : MessageModel :=
  match m.type.bundleText with
  | none => m
  | some text =>
    { m with
      rawContent := some text
      content := m.content.map fun parts =>
        if parts.any (·.1 == 0) then
          parts.map fun p => if p.1 = 0 then (0, p.2.1, some text) else p
        else parts ++ [(0, .MARKDOWN, some text)] }

/-- `Dialog.Model`. -/
structure DialogModel where
  name : Option JString
  id : Int32
  messages : Option (List (Option MessageModel))
  deriving DecidableEq

/-- `Model.NEW_CHAT_NAME`. -/
def NEW_CHAT_NAME : JString := .ofString "New chat"

/-- `new Dialog.Model(id)`. -/
def DialogModel.new (id : Int32) : DialogModel where
  name := some NEW_CHAT_NAME
  id := id
  messages := some []

/-- `Model.getClone`; `none` when it throws. -/
def DialogModel.getClone (m : DialogModel) : Option DialogModel :=
  m.messages.map fun messages => { m with messages := some messages }

/-! ### The history -/

/-- What the dialogs take from the libraries around them: the token count of a text (`none`
    when counting throws), and whether building the view of a message throws. -/
structure Toolkit where
  countTokens : JString → Option Int32
  viewFails : MessageModel → Bool

/-- `MessageUtils.SYSTEM_MSG`. -/
def SYSTEM_MSG : JString := .ofString <|
  "You'll be helping with Python programming\n" ++
  "Answer as concisely as possible\n" ++
  "ALWAYS Add sources, follow numeric style like [1], add markdown urls [<url>](<url>) " ++
  "at the bottom\n" ++
  "ALWAYS format urls or links using markdown hyperlink format [<url>](<url>)\n" ++
  "ALWAYS add language name to markdown code info\n" ++
  "Include code language in markdown snippets whenever possible"

/-- The loop of `getAcceptedMessages`, from the last message back; `none` when it throws. -/
def acceptMessages (kit : Toolkit) (tokenCounter : Int32) (messageCounter : Nat) :
    List (Option MessageModel) → Option (List MessageModel)
  | [] => some []
  -- a null message in the saved list: the call on it throws
  | none :: _ => none
  | some message :: rest =>
    (message.getAiContent.bind kit.countTokens).bind fun tokens =>
      -- an `int`, which wraps around
      let tokenCounter := tokenCounter + tokens
      -- the budget is checked before the count of messages, as the source breaks
      if 3000 ≤ tokenCounter then some []
      else if 12 ≤ messageCounter then some []
      else (acceptMessages kit tokenCounter (messageCounter + 1) rest).map (message :: ·)

/-- `Model.getAcceptedMessages`; `none` when it throws. -/
def DialogModel.getAcceptedMessages (kit : Toolkit) (m : DialogModel) :
    Option (List MessageModel) :=
  (kit.countTokens SYSTEM_MSG).bind fun systemTokens =>
    m.messages.bind fun messages =>
      (acceptMessages kit (1000 + systemTokens) 1 messages.reverse).map (·.reverse)

/-! ### The dialog -/

/-- What a dialog's component shows. -/
inductive OutputItem where
  | contextSeparator (context : JString)
  | message (model : MessageModel)
  deriving DecidableEq

/-- A `Dialog`: its model, the models of the messages it holds, what its component shows,
    the context of the last user message, and whether its model has been replayed. -/
structure Dialog where
  model : DialogModel
  messages : List MessageModel
  output : List OutputItem
  currentContext : JString
  loaded : Bool
  deriving DecidableEq

namespace Dialog

/-- `new Dialog(…, id, model, …)`. -/
def new (id : Int32) (model : Option DialogModel) : Dialog where
  model := model.getD (.new id)
  messages := []
  output := []
  currentContext := []
  loaded := model.isNone

/-- `trackContextChange`. -/
def trackContextChange (d : Dialog) (newContext : JString) : Dialog :=
  if d.currentContext = newContext then d
  else { d with
    currentContext := newContext
    output := d.output ++ [.contextSeparator newContext] }

/-- The end of `loadMessage`: the message is shown and kept. -/
def showMessage (d : Dialog) (m : MessageModel) : Dialog :=
  { d with messages := d.messages ++ [m], output := d.output ++ [.message m] }

/-- `loadMessage`, whose exceptions are caught by its caller. -/
def loadMessage (kit : Toolkit) (d : Dialog) : Option MessageModel → Dialog
  | none => d
  | some m =>
    -- the exception of one message is caught, and the loop goes on
    if kit.viewFails m then d
    else
      match m.type with
      | .USER =>
        match m.context with
        | none => d
        | some context => (d.trackContextChange context).showMessage m
      | .AI =>
        match d.model.getAcceptedMessages kit with
        | none => d
        -- the history is computed for the new `AiMessage`; only its failure matters here
        | some _ => d.showMessage m
      -- the `default` of the switch: it throws
      | .RE => d
      | _ => d.showMessage m.rebuilt

/-- `updateAllowedMessages` throws: it asks for the history once for every message. -/
def allowedFails (kit : Toolkit) (d : Dialog) : Bool :=
  !d.messages.isEmpty && (d.model.getAcceptedMessages kit).isNone

/-- The models after the messages have been built from them. -/
def rebuildModel (kit : Toolkit) (m : DialogModel) : DialogModel :=
  { m with
    messages := m.messages.map fun messages => messages.map fun model =>
      -- the model of a message that could not be built stays as it is
      model.map fun m => if kit.viewFails m then m else m.rebuilt }

/-- `loadMessages`, and whether it returns (else it throws). -/
def loadMessages (kit : Toolkit) (d : Dialog) : Dialog × Bool :=
  match d.model.messages with
  | none => (d, false)
  | some messages =>
    let d' := messages.foldl (loadMessage kit) d
    let d' := { d' with model := rebuildModel kit d'.model }
    if d'.allowedFails kit then (d', false) else ({ d' with loaded := true }, true)

end Dialog

/-! ### Loading one message -/

/-- A separator is output only. -/
theorem trackContextChange_frame (d : Dialog) (newContext : JString) :
    (d.trackContextChange newContext).model = d.model ∧
      (d.trackContextChange newContext).loaded = d.loaded := by
  unfold Dialog.trackContextChange
  split <;> exact ⟨rfl, rfl⟩

/-- Loading a message whose view can be built goes by its type. -/
theorem loadMessage_of_view {kit : Toolkit} {d : Dialog} {m : MessageModel}
    (hview : kit.viewFails m = false) :
    d.loadMessage kit (some m) =
      match m.type with
      | .USER =>
        match m.context with
        | none => d
        | some context => (d.trackContextChange context).showMessage m
      | .AI =>
        match d.model.getAcceptedMessages kit with
        | none => d
        | some _ => d.showMessage m
      | .RE => d
      | _ => d.showMessage m.rebuilt := by
  rw [Dialog.loadMessage, hview]
  rfl

end Reloadium.Ai
