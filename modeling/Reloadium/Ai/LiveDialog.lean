import Mathlib.Data.List.Infix
import Reloadium.Lib.Lts
import Reloadium.Ai.Dialog

namespace Reloadium.Ai

open Reloadium.Lib

/-!
# Ai — a dialog while it is used

Model of `rw.ai.dialog.Dialog`, `rw.ai.messages.ai.AiMessage` and of the prompt of
`rw.ai.chat.prompt.Prompt` in use: the user submits, cancels, clears and renames on one
thread, the streams of the answers call back on others.

* `Live` — the dialog with all messages it ever created; the message lists, the component
  and the stream callbacks refer to a message by its number in that list;
* `AiState` — where the stream of an `AiMessage` stands;
* `DialogEvent`, `Live.step` — one user operation, or one step of a stream.  A callback that
  calls the dialog's listener is a step up to each of these calls.

What the listener of the dialog does belongs to the chat.  Branches for unit tests are left
out.  `epoch`, `userName`, `namedBy` and `completed` are ghost: no operation reads them.
-/

/-! ### Messages -/

/-- The chat clients a stream may run through: OkHttp's event source behind
    `OpenAiStreamChatCompletionClientWrapper`, or `YouStreamChatCompletionClientAdapter`,
    whose event source cancels nothing. -/
inductive Adapter where
  | OpenAi
  | You
  deriving DecidableEq

/-- Where the stream of an `AiMessage` stands. -/
inductive Phase where
  /-- `start` has executed the worker, which has not called the client yet -/
  | queued
  /-- the client is called; its terminal callback is still to come -/
  | streaming
  /-- in `onError`, before `messageListener.onFailure` -/
  | failing
  /-- in `onError`, before `messageListener.onComplete` -/
  | failed
  /-- in `onComplete`, before `messageListener.onComplete` -/
  | completing
  /-- no stream yet, or none any more -/
  | closed
  deriving DecidableEq

/-- What an `AiMessage` has besides a message, and how far its stream has come. -/
structure AiState where
  generating : Bool
  phase : Phase
  /-- the client the worker called -/
  client : Option Adapter
  /-- the field `call`, by the client it comes from -/
  call : Option Adapter
  /-- OkHttp's event source has been cancelled -/
  cancelled : Bool
  /-- `messageListener.onComplete` has been called -/
  completed : Bool
  deriving DecidableEq

/-- The fields at the end of the constructor. -/
def AiState.new : AiState where
  generating := false
  phase := .closed
  client := none
  call := none
  cancelled := false
  completed := false

/-- A message of the dialog with its model; `ai` is of use to an `AiMessage` only. -/
structure LiveMessage where
  type : MessageType
  /-- the prompt seed of the model's context -/
  context : JString
  body : Message
  ai : AiState

/-- The saved parts of a message, in the order of their indices. -/
def Message.savedContent (m : Message) : List (Int32 × MessagePartType × Option JString) :=
  (List.range m.created).filterMap fun i =>
    (m.view i).map fun v => (Int32.ofNat i, v.1, some v.2)

/-- The message's model. -/
def LiveMessage.model (m : LiveMessage) : MessageModel where
  type := m.type
  context := some m.context
  rawContent := some m.body.rawContent
  content := some m.body.savedContent

/-- `getRole() != null`. -/
def MessageType.hasRole : MessageType → Bool
  | .USER => true
  | .AI => true
  | _ => false

/-- What a live dialog takes from the libraries around it.  `capitalizeWords` is
    `StringUtil.capitalizeWords(_, true)`. -/
structure LiveEnv extends Toolkit where
  parser : Parser
  capitalizeWords : JString → JString

/-! ### The dialog -/

/-- What the component of a live dialog shows. -/
inductive LiveItem where
  | contextSeparator (context : JString)
  | message (ref : Nat)
  deriving DecidableEq

/-- `SubmitButton.State`. -/
inductive SubmitState where
  | SUBMIT
  | STOP
  deriving DecidableEq

/-- A name proposal that was requested, with the number of clears before the request. -/
structure Proposal where
  epoch : Nat
  completed : Bool
  deriving DecidableEq

/-- A `Dialog` with its model, its component and the prompt. -/
structure Live where
  id : Int32
  name : JString
  objects : List LiveMessage
  messages : List Nat
  /-- `model.messages` -/
  modelMessages : List Nat
  output : List LiveItem
  currentContext : JString
  submitButton : SubmitState
  proposals : List Proposal
  /-- how often the dialog has been cleared -/
  epoch : Nat
  /-- the name the user chose last since the last clear -/
  userName : Option JString
  /-- the epoch of the proposal that named the dialog, if one did -/
  namedBy : Option Nat

namespace Live

/-- `new Dialog(…, id, null, …)`. -/
def new (id : Int32) : Live where
  id := id
  name := NEW_CHAT_NAME
  objects := []
  messages := []
  modelMessages := []
  output := []
  currentContext := []
  submitButton := .SUBMIT
  proposals := []
  epoch := 0
  userName := none
  namedBy := none

/-- The dialog's model. -/
def model (s : Live) : DialogModel where
  name := some s.name
  id := s.id
  messages := some (s.modelMessages.map fun ref => (s.objects[ref]?).map LiveMessage.model)

/-- An assignment to fields of a message. -/
def modify (s : Live) (ref : Nat) (f : LiveMessage → LiveMessage) : Live :=
  { s with objects := s.objects.modify ref f }

/-- An assignment to fields of an `AiMessage`. -/
def modifyAi (s : Live) (ref : Nat) (f : AiState → AiState) : Live :=
  s.modify ref fun m => { m with ai := f m.ai }

/-- The state of the `AiMessage` of this number. -/
def aiState (s : Live) (ref : Nat) : AiState := (s.objects[ref]?).elim .new LiveMessage.ai

/-- `trackContextChange`. -/
def trackContextChange (s : Live) (newContext : JString) : Live :=
  if s.currentContext = newContext then s
  else { s with
    currentContext := newContext
    output := s.output ++ [.contextSeparator newContext] }

/-- `addMessage`. -/
def addMessage (s : Live) (m : LiveMessage) : Live :=
  let ref := s.objects.length
  { s with
    objects := s.objects ++ [m]
    modelMessages := s.modelMessages ++ [ref]
    output := s.output ++ [.message ref]
    messages := s.messages ++ [ref] }

/-- The four methods `addReMessage…`: a new message with the text of its constructor. -/
def addReMessage (env : LiveEnv) (s : Live) (type : MessageType) : Live :=
  match type.bundleText with
  | none => s
  | some text =>
    match Message.fresh.setRawContent env.parser text with
    | .error _ => s
    | .ok body => s.addMessage { type, context := s.currentContext, body, ai := .new }

/-! ### The answer's stream -/

/-- `AiMessage.append`, and whether it returns (else it throws). -/
def append (env : LiveEnv) (s : Live) (ref : Nat) (chunk : JString) : Live × Bool :=
  match s.objects[ref]? with
  | none => (s, false)
  | some m =>
    match m.body.append env.parser chunk with
    | .ok body => (s.modify ref fun m => { m with body }, true)
    | .error body => (s.modify ref fun m => { m with body }, false)

/-- `aiMessageListener.onFailure`. -/
def onFailure (env : LiveEnv) (s : Live) (ref : Nat) : Live :=
  let rawContent := (s.objects[ref]?).elim [] fun m => m.body.rawContent
  let s :=
    if JString.ofString "Incorrect API key provided" <:+: rawContent then
      s.addReMessage env .RE_BAD_KEY
    else if JString.ofString "You exceeded your current quota" <:+: rawContent then
      s.addReMessage env .RE_EXCEEDED_QUOTA
    else s
  -- `Prompt.onMessageCompleted`: the prompt is free before the callback is over
  { s.modifyAi ref fun a => { a with phase := .failed } with submitButton := .SUBMIT }

/-- `aiMessageListener.onComplete`. -/
def onComplete (s : Live) (ref : Nat) : Live :=
  { s.modifyAi ref fun a => { a with phase := .closed, completed := true } with
    submitButton := .SUBMIT }

/-- `AiMessage.start`, and whether it returns. -/
def start (env : LiveEnv) (s : Live) (ref : Nat) (history : List MessageModel) : Live × Bool :=
  if (history.filter (·.type.hasRole)).isEmpty then
    match s.append env ref (.ofString "Ai Message too long") with
    | (s, false) => (s, false)
    | (s, true) => (s.onComplete ref, true)
  else (s.modifyAi ref fun a => { a with generating := true, phase := .queued }, true)

/-- The callback `onError` up to the first call of the listener, and whether it gets there:
    the error's message, which may be null, is appended before the message is done. -/
def onStreamError (env : LiveEnv) (s : Live) (ref : Nat) (message : Option JString) :
    Live × Bool :=
  let (s, returns) :=
    match message with
    | none => (s, false)
    | some text => s.append env ref text
  if returns then
    (s.modifyAi ref fun a => { a with generating := false, phase := .failing }, true)
  else (s.modifyAi ref fun a => { a with phase := .closed }, false)

/-- The callback `onComplete` up to the call of the listener. -/
def onStreamComplete (s : Live) (ref : Nat) : Live :=
  s.modifyAi ref fun a => { a with generating := false, phase := .completing }

/-! ### The user's operations -/

/-- `onProposedName`; the calls of the dialog's listener belong to the chat. -/
def onProposedName (s : Live) (name : JString) : Live := { s with name }

/-- `proposeName`, and whether it returns: telling the listener of the name, or requesting
    a proposal, may throw. -/
def proposeName (env : LiveEnv) (s : Live) (content : JString) (throws : Bool) : Live × Bool :=
  if content.length ≤ 20 then
    -- "Content too short": the name is set before the listener is told
    ({ s.onProposedName (env.capitalizeWords content) with namedBy := none }, !throws)
  else if throws then (s, false)
  else ({ s with proposals := s.proposals ++ [⟨s.epoch, false⟩] }, true)

/-- `addAiMessage`, and whether it returns. -/
def addAiMessage (env : LiveEnv) (s : Live) : Live × Bool :=
  match s.model.getAcceptedMessages env.toToolkit with
  | none => (s, false)
  | some history =>
    let m : LiveMessage :=
      { type := .AI, context := s.currentContext, body := .fresh, ai := .new }
    (s.addMessage m).start env s.objects.length history

/-- `addUserMessage`, and whether it returns.  `newContext` is the seed of the current
    context; `throws` says whether proposing a name throws. -/
def addUserMessage (env : LiveEnv) (s : Live) (content newContext : JString)
    (throws : Bool) : Live × Bool :=
  match Message.fresh.setRawContent env.parser content with
  | .error _ => (s, false)
  | .ok body =>
    -- `isNameBlank`
    match if s.name = NEW_CHAT_NAME then s.proposeName env content throws else (s, true) with
    | (s, false) => (s, false)
    | (s, true) =>
      let s := s.trackContextChange newContext
      let s := s.addMessage { type := .USER, context := newContext, body, ai := .new }
      -- `updateAllowedMessages` asks for the history, too
      match s.model.getAcceptedMessages env.toToolkit with
      | none => (s, false)
      | some _ => s.addAiMessage env

/-- `Prompt.submit`: the Enter key, or the button in state `SUBMIT`. -/
def submit (env : LiveEnv) (s : Live) (prompt newContext : JString) (throws : Bool) : Live :=
  if s.submitButton = .STOP then s
  else
    let prompt := prompt.strip
    if prompt.isEmpty then s
    else ({ s with submitButton := .STOP }.addUserMessage env prompt newContext throws).1

/-- `cancel`, and whether it returns: on an empty list it throws. -/
def cancel (s : Live) : Live × Bool :=
  match s.messages.getLast? with
  | none => (s, false)
  | some ref =>
    -- a message that is no `AiMessage` has no call
    (s.modifyAi ref fun a => { a with cancelled := a.cancelled || a.call = some .OpenAi }, true)

/-- `clear`. -/
def clear (s : Live) : Live :=
  { s with
    messages := []
    name := NEW_CHAT_NAME
    modelMessages := []
    output := []
    epoch := s.epoch + 1
    userName := none
    namedBy := none }

/-- `getModel().setName`, from the side panel. -/
def rename (s : Live) (newName : JString) : Live :=
  { s with name := newName, userName := some newName, namedBy := none }

/-- A name as a proposal is cleaned: stripped, without quotation marks and full stops. -/
def cleanName (answer : JString) : JString :=
  answer.strip.filter fun u => u ≠ 0x22 && u ≠ 0x2E

/-- The callback `onComplete` of a name proposal. -/
def nameProposed (s : Live) (p : Nat) (epoch : Nat) (answer : JString) : Live :=
  let predicted := cleanName answer
  let s := { s with proposals := s.proposals.modify p ({ · with completed := true }) }
  if predicted.isBlank then s else { s.onProposedName predicted with namedBy := some epoch }

end Live

/-! ### The steps -/

/-- A user operation, or a step of a stream. -/
inductive DialogEvent where
  | submit (prompt newContext : JString) (throws : Bool)
  | cancel
  | clear
  | rename (newName : JString)
  /-- `client.stream` in the worker; `none`: it throws -/
  | makeCall (ref : Nat) (client : Option Adapter)
  /-- the assignment of `call`, when `client.stream` has returned -/
  | storeCall (ref : Nat)
  | onMessage (ref : Nat) (chunk : JString)
  | onError (ref : Nat) (message : Option JString)
  | onComplete (ref : Nat)
  | listenerOnFailure (ref : Nat)
  | listenerOnComplete (ref : Nat)
  | nameProposed (p : Nat) (answer : JString)
  | nameFailed (p : Nat)

namespace Live

/-- One step; `none` when the event cannot happen. -/
def step (env : LiveEnv) (s : Live) : DialogEvent → Option Live
  | .submit prompt newContext throws => some (s.submit env prompt newContext throws)
  | .cancel => some s.cancel.1
  | .clear => some s.clear
  | .rename newName => some (s.rename newName)
  | .makeCall ref client =>
    if (s.aiState ref).phase = .queued then
      match client with
      -- the exception ends the worker
      | none => some (s.modifyAi ref fun a => { a with phase := .closed })
      | some adapter =>
        some (s.modifyAi ref fun a => { a with phase := .streaming, client := some adapter })
    else none
  | .storeCall ref => some (s.modifyAi ref fun a => { a with call := a.client })
  | .onMessage ref chunk =>
    -- a cancelled event source makes no callback
    if (s.aiState ref).phase = .streaming ∧ (s.aiState ref).cancelled = false then
      some (s.append env ref chunk).1
    else none
  -- that a cancelled event source is silent here, too, is not made use of
  | .onError ref message =>
    if (s.aiState ref).phase = .streaming then some (s.onStreamError env ref message).1 else none
  | .onComplete ref =>
    if (s.aiState ref).phase = .streaming then some (s.onStreamComplete ref) else none
  | .listenerOnFailure ref =>
    if (s.aiState ref).phase = .failing then some (s.onFailure env ref) else none
  | .listenerOnComplete ref =>
    if (s.aiState ref).phase = .failed ∨ (s.aiState ref).phase = .completing then
      some (s.onComplete ref)
    else none
  | .nameProposed p answer =>
    match s.proposals[p]? with
    | some ⟨epoch, false⟩ => some (s.nameProposed p epoch answer)
    | _ => none
  | .nameFailed p =>
    match s.proposals[p]? with
    | some ⟨_, false⟩ =>
      some { s with proposals := s.proposals.modify p ({ · with completed := true }) }
    | _ => none

end Live

/-- The dialog as a transition system. -/
def dialogLts (env : LiveEnv) (id : Int32) : Lts Live DialogEvent where
  init := .new id
  step := Live.step env

/-- Short plain texts: each is one paragraph with its capitals in place, and has at most the
    hundred tokens of the system message. -/
def plainEnv : LiveEnv where
  countTokens _ := some 100
  viewFails _ := false
  parser :=
    { parse := fun text => if text = [] then [] else [.paragraph text]
      parse_nil := rfl }
  capitalizeWords := id

/-- A new dialog after its first message. -/
def greeted : Live := (Live.new 0).submit plainEnv (.ofString "Hello") [] false

end Reloadium.Ai
