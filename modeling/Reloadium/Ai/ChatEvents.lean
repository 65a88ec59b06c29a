import Reloadium.Lib.Lts
import Reloadium.Ai.Chat

namespace Reloadium.Ai

open Reloadium.Lib

/-!
# Ai — a chat while it is used

Model of the side panel's listener in `rw.ai.chat.Chat`, of `rw.ai.chat.SidePanel` and
`DialogButton`, and of `deleteDialog` in `rw.ai.dialog.DialogManager`.

An operation tells, with the chat it leaves, whether it returns; where it throws, the chat
is left as it is by then.  What a dialog does on its own (messages, answers) is one event,
which changes the dialog as far as such operations may; a completed proposal of a name is
an event of its own, since it calls the chat's side panel.

Branches for unit tests and for a chat without a file on disk are left out.
-/

namespace Dialog

/-- `clear`. -/
def clear (d : Dialog) : Dialog := { d with messages := [], model := .new d.model.id, output := [] }

/-- `getModel().setName`. -/
def setName (d : Dialog) (name : JString) : Dialog :=
  { d with model := { d.model with name := some name } }

/-- What a dialog's own operations may make of it: each message is one that it had, or one
    that is built once more as it is. -/
def MayBecome (d d' : Dialog) : Prop :=
  d'.model.id = d.model.id ∧ d'.model.name = d.model.name ∧ d'.loaded = d.loaded ∧
    match d.model.messages, d'.model.messages with
    | some old, some messages =>
      ∀ m ∈ messages, m ∈ old ∨ (m.isSome = true ∧ m.map MessageModel.rebuilt = m)
    | _, _ => False

instance (d d' : Dialog) : Decidable (d.MayBecome d') := by
  unfold MayBecome
  cases d.model.messages <;> cases d'.model.messages <;> exact instDecidableAnd

end Dialog

namespace DialogManager

/-- An assignment to fields of a dialog. -/
def modify (m : DialogManager) (ref : Nat) (f : Dialog → Dialog) : DialogManager :=
  { m with objects := m.objects.modify ref f }

/-- The dialog of an id. -/
def dialogOf (m : DialogManager) (id : Int32) : Option Dialog :=
  (m.getDialog id).bind (m.objects[·]?)

/-- `deleteDialog`, and whether it returns. -/
def deleteDialog (env : Env) (m : DialogManager) (dialog : Dialog) : DialogManager × Bool :=
  let m := { m with dialogs := m.dialogs.filter (·.1 ≠ dialog.model.id) }
  -- the last of the map's values, in the map's order
  match (env.order m.dialogs).getLast? with
  | none => (m, false)
  | some e => m.setActiveDialog env (some e.2)

end DialogManager

namespace Chat

/-! ### The side panel -/

/-- `SidePanel.setOpen`, which tells the listener. -/
def setOpen (c : Chat) (isOpen : Bool) : Chat := { c with sidePanelOpen := isOpen }.save

/-- `DialogButton.setText`. -/
def setText (c : Chat) (id : Int32) (text : JString) : Chat :=
  { c with buttons := c.buttons.map fun b => if b.id = id then { b with text } else b }

/-- `SidePanel.onDialogRenamed`, with the dialog's id and name; a dialog without a button
    makes it throw. -/
def onDialogRenamed (c : Chat) (id : Int32) (name : JString) : Chat × Bool :=
  if c.buttons.any (·.id == id) then (c.setText id name, true) else (c, false)

/-- `SidePanel.onDialogDeleted`. -/
def onDialogDeleted (c : Chat) (id : Int32) : Chat :=
  { c with buttons := c.buttons.filter (·.id ≠ id) }

/-- `closeSidePanelIfNeeded`. -/
def closeSidePanelIfNeeded (c : Chat) (narrow : Bool) : Chat :=
  if narrow then c.setOpen false else c

/-! ### Which operations return -/

/-- `newDialog` returns: the messages of the active dialog are asked whether they are empty. -/
def newDialogReturns (c : Chat) : Bool :=
  match c.manager.activeDialog.bind (c.manager.objects[·]?) with
  | some active => active.model.messages.isSome
  | none => true

/-- `load` returns. -/
def loadReturns (env : Env) (c : Chat) (file : Bytes) : Bool :=
  match c.manager.load env file with
  | (manager, none) => newDialogReturns { c with manager }
  | (manager, some fileContent) =>
    ({ c with manager }.addButtons (env.order manager.dialogs)).2 && fileContent.uiState.isSome

/-! ### The listener of the side panel -/

/-- `onNewDialogPressed`, and whether it returns. -/
def onNewDialogPressed (env : Env) (c : Chat) (narrow : Bool) : Chat × Bool :=
  if c.newDialogReturns then ((c.newDialog env).closeSidePanelIfNeeded narrow, true)
  else (c.newDialog env, false)

/-- `DialogButton.doRename`, with `onRenameDialog` in it, and whether it returns. -/
def doRename (c : Chat) (id : Int32) (newName : JString) : Chat × Bool :=
  match c.manager.getDialog id with
  | none => (c, false)
  | some ref =>
    let c := { c with manager := c.manager.modify ref (·.setName newName) }.save
    (c.setText id newName, true)

/-- `onDeleteDialog`, and whether it returns. -/
def onDeleteDialog (env : Env) (c : Chat) (id : Int32) : Chat × Bool :=
  match c.manager.getDialog id with
  | none => (c, false)
  | some ref =>
    match c.manager.objects[ref]? with
    | none => (c, false)
    | some dialog =>
      -- the last dialog is cleared
      if c.manager.dialogs.length = 1 then
        let c := { c with manager := c.manager.modify ref .clear }
        match c.onDialogRenamed dialog.model.id NEW_CHAT_NAME with
        | (c, false) => (c, false)
        | (c, true) => (c.save, true)
      else
        let c := c.onDialogDeleted dialog.model.id
        match c.manager.deleteDialog env dialog with
        | (manager, false) => ({ c with manager }, false)
        | (manager, true) =>
          match manager.activeDialog with
          | none => ({ c with manager }, false)
          | some ref =>
            match manager.objects[ref]? with
            | none => ({ c with manager }, false)
            | some active => (({ c with manager }.onActiveDialogChanged ref active).save, true)

/-- `onDialogPressed`, and whether it returns. -/
def onDialogPressed (env : Env) (c : Chat) (id : Int32) (narrow : Bool) : Chat × Bool :=
  match c.manager.getDialog id with
  | none => (c, false)
  | some ref =>
    match c.manager.objects[ref]? with
    | none => (c, false)
    | some dialog =>
      let c := c.onActiveDialogChanged ref dialog
      -- the panel shows the dialog before its messages are loaded
      match c.manager.setActiveDialog env (some ref) with
      | (manager, false) => ({ c with manager }, false)
      | (manager, true) => (({ c with manager }.closeSidePanelIfNeeded narrow).save, true)

/-! ### The listeners of the dialogs -/

/-- `Dialog.onProposedName`, and whether it returns. -/
def onProposedName (c : Chat) (ref : Nat) (name : JString) : Chat × Bool :=
  match c.manager.objects[ref]? with
  | none => (c, false)
  | some dialog =>
    let c := { c with manager := c.manager.modify ref (·.setName name) }
    match c.onDialogRenamed dialog.model.id name with
    | (c, false) => (c, false)
    | (c, true) => (c.save, true)

end Chat

/-! ### The steps -/

/-- An operation of the user, or what a dialog does on its own. -/
inductive ChatEvent where
  | load (file : Bytes)
  | newDialogPressed (narrow : Bool)
  | doRename (id : Int32) (newName : JString)
  | deleteDialog (id : Int32)
  | dialogPressed (id : Int32) (narrow : Bool)
  | setOpen (isOpen : Bool)
  | proposedName (ref : Nat) (name : JString)
  | used (ref : Nat) (dialog : Dialog)

namespace Chat

/-- The event can happen: its button is there, or its dialog has been created. -/
def enabled (c : Chat) : ChatEvent → Bool
  | .doRename id _ => c.buttons.any (·.id == id)
  | .deleteDialog id => c.buttons.any (·.id == id)
  | .dialogPressed id _ => c.buttons.any (·.id == id)
  | .proposedName ref _ => ref < c.manager.objects.length
  | .used ref dialog => (c.manager.objects[ref]?).any fun d => d.MayBecome dialog
  | _ => true

/-- The chat after an event, and whether its operation returns. -/
def exec (env : Env) (c : Chat) : ChatEvent → Chat × Bool
  | .load file => (c.load env file, c.loadReturns env file)
  | .newDialogPressed narrow => c.onNewDialogPressed env narrow
  | .doRename id newName => c.doRename id newName
  | .deleteDialog id => c.onDeleteDialog env id
  | .dialogPressed id narrow => c.onDialogPressed env id narrow
  | .setOpen isOpen => (c.setOpen isOpen, true)
  | .proposedName ref name => c.onProposedName ref name
  | .used ref dialog =>
    ({ c with manager := c.manager.modify ref fun _ => dialog }.save, true)

end Chat

/-- A chat, and whether any of its operations has thrown. -/
structure ChatRun where
  chat : Chat
  threw : Bool
  deriving DecidableEq

/-- One event; `none` when it cannot happen. -/
def ChatRun.step (env : Env) (s : ChatRun) (e : ChatEvent) : Option ChatRun :=
  if s.chat.enabled e then
    some { chat := (s.chat.exec env e).1, threw := s.threw || !(s.chat.exec env e).2 }
  else none

/-- The chat as a transition system.  Its constructor ends with a `load`. -/
def chatLts (env : Env) : Lts ChatRun ChatEvent where
  init := ⟨.new, false⟩
  step := ChatRun.step env

end Reloadium.Ai
