import Reloadium.Lib.Utf8
import Reloadium.Ai.Dialog

namespace Reloadium.Ai

open Reloadium.Lib

/-!
# Ai — the dialog manager, the chat and its file

Model of `rw.ai.dialog.DialogManager` and of `rw.ai.chat.Chat` over a file on disk.

A dialog is referred to by its number in the list `objects` of all dialogs created, so
that the map `dialogs` and the field `activeDialog` share it as the program does.  The
queue of saves holds no data: a queued save writes what the chat is when it runs.

Jackson is a parameter: what it reads in a text and what it writes for a `FileContent`.
So is the order in which a `HashMap` lists its entries.
-/

/-! ### The file's content -/

/-- `DialogManager.FileContent`, with the fields Jackson may leave null. -/
structure FileContent where
  version : Option JString
  activeDialogId : Option Int32
  /-- `uiState.sidePanelOpen` -/
  uiState : Option Bool
  dialogs : Option (List (Option DialogModel))
  deriving DecidableEq

/-- `FILE_VERSION`. -/
def FILE_VERSION : JString := .ofString "0.2.0"

/-- What surrounds a chat.  `readVersion` is `readTree(s).get("version").asText()`; the
    three functions of Jackson are `none` where it throws. -/
structure Env extends Toolkit where
  readVersion : JString → Option JString
  readValue : JString → Option FileContent
  writeValue : FileContent → Option JString
  /-- The order of a map's entries. -/
  order : List (Int32 × Nat) → List (Int32 × Nat)
  order_perm : ∀ entries, (order entries).Perm entries
  /-- The file can be opened for writing. -/
  writable : Bool

/-! ### The manager -/

structure DialogManager where
  objects : List Dialog
  dialogs : List (Int32 × Nat)
  idCounter : Int32
  activeDialog : Option Nat
  deriving DecidableEq

namespace DialogManager

/-- `new DialogManager(…)`. -/
def new : DialogManager where
  objects := []
  dialogs := []
  idCounter := -1
  activeDialog := none

/-- `dialogs.get(id)`. -/
def getDialog (m : DialogManager) (id : Int32) : Option Nat := m.dialogs.lookup id

/-- A new dialog object, put into the map under `id`. -/
def putDialog (m : DialogManager) (id : Int32) (dialog : Dialog) : DialogManager :=
  let ref := m.objects.length
  { m with
    objects := m.objects ++ [dialog]
    dialogs :=
      if m.dialogs.any (·.1 == id) then
        m.dialogs.map fun e => if e.1 = id then (id, ref) else e
      else m.dialogs ++ [(id, ref)] }

/-- `setActiveDialog`, and whether it returns (else it throws). -/
def setActiveDialog (env : Env) (m : DialogManager) (dialog : Option Nat) :
    DialogManager × Bool :=
  -- the field is assigned before the dialog is asked whether it is loaded
  let m := { m with activeDialog := dialog }
  match dialog with
  | none => (m, false)
  | some ref =>
    match m.objects[ref]? with
    | none => (m, false)
    | some d =>
      if d.loaded then (m, true)
      else
        let (d', returns) := d.loadMessages env.toToolkit
        ({ m with objects := m.objects.set ref d' }, returns)

/-- The body of the loop of `load`, whose exceptions are caught: a null model has no id. -/
def loadDialog (m : DialogManager) : Option DialogModel → DialogManager
  | none => m
  | some d =>
    -- a second entry of the same id replaces the first in the map
    let m := m.putDialog d.id (.new d.id (some d))
    if d.id ≤ m.idCounter then m else { m with idCounter := d.id }

/-- The first half of `load`: the content of the file and its list of dialogs, unless an
    exception or another version ends it. -/
def readContent (env : Env) (jsonString : JString) :
    Option (FileContent × List (Option DialogModel)) := do
  let version ← env.readVersion jsonString
  -- the return of null for another version, and not an exception
  if version ≠ FILE_VERSION then none
  let fileContent ← env.readValue jsonString
  -- a null list is dereferenced by the `for`
  let models ← fileContent.dialogs
  return (fileContent, models)

/-- `load`; `none` is the null of a file that is blank or rejected. -/
def load (env : Env) (m : DialogManager) (file : Bytes) : DialogManager × Option FileContent :=
  let jsonString := Utf8.decode file
  if jsonString.isBlank then (m, none)
  else
    match readContent env jsonString with
    | none => (m, none)
    | some (fileContent, models) =>
      -- from here on the dialogs are in the manager, whatever follows
      let m := models.foldl loadDialog m
      match m.setActiveDialog env (fileContent.activeDialogId.bind m.getDialog) with
      -- a null active dialog, or one that cannot be loaded: the exception is caught here
      | (m, false) => (m, none)
      | (m, true) => (m, some fileContent)

/-- `newDialog`, and the number of the new dialog. -/
def newDialog (m : DialogManager) : DialogManager × Nat :=
  let id := m.idCounter + 1
  let ref := m.objects.length
  -- the counter wraps around after the greatest id
  ({ m.putDialog id (.new id none) with idCounter := id, activeDialog := some ref }, ref)

/-- The content `doSave` writes; `none` when it throws before it writes. -/
def fileContent (env : Env) (m : DialogManager) (uiState : Bool) : Option FileContent := do
  let active ← m.objects[← m.activeDialog]?
  let models ← (env.order m.dialogs).mapM fun e =>
    m.objects[e.2]?.bind fun d => d.model.getClone
  return {
    version := some FILE_VERSION
    activeDialogId := some active.model.id
    uiState := some uiState
    dialogs := some (models.map some) }

/-- `doSave`: the file after it. -/
def doSave (env : Env) (m : DialogManager) (uiState : Bool) (file : Bytes) : Bytes :=
  match (m.fileContent env uiState).bind env.writeValue with
  | none => file
  | some jsonString => if env.writable then Utf8.encode jsonString else file

end DialogManager

/-! ### The chat -/

/-- A dialog's button in the side panel. -/
structure DialogButton where
  id : Int32
  text : JString
  active : Bool
  deriving DecidableEq

/-- A `Chat`: its manager, the side panel (open or not, and its buttons), the dialog in the
    main panel and the number of saves in the queue. -/
structure Chat where
  manager : DialogManager
  sidePanelOpen : Bool
  buttons : List DialogButton
  mainPanel : Option Nat
  saves : Nat
  deriving DecidableEq

namespace Chat

/-- The chat at the start of its constructor. -/
def new : Chat where
  manager := .new
  sidePanelOpen := true
  buttons := []
  mainPanel := none
  saves := 0

/-- `save`. -/
def save (c : Chat) : Chat := { c with saves := c.saves + 1 }

/-- `ChatComponent.onNewDialog`, and whether it returns: a null name has no button. -/
def onNewDialog (c : Chat) (dialog : Dialog) : Chat × Bool :=
  match dialog.model.name with
  | none => (c, false)
  | some name =>
    let button : DialogButton := { id := dialog.model.id, text := name, active := false }
    ({ c with buttons := c.buttons.filter (·.id ≠ button.id) ++ [button] }, true)

/-- `ChatComponent.onActiveDialogChanged`. -/
def onActiveDialogChanged (c : Chat) (ref : Nat) (dialog : Dialog) : Chat :=
  { c with
    mainPanel := some ref
    buttons := c.buttons.map fun b => { b with active := b.id = dialog.model.id } }

/-- `newDialog`; its exceptions end the constructor. -/
def newDialog (env : Env) (c : Chat) : Chat :=
  match c.manager.activeDialog.bind (c.manager.objects[·]?) with
  | some active =>
    match active.model.messages with
    | none => c
    -- the active dialog is still empty: no second new one
    | some [] => c
    | some _ => addDialog c
  | none => addDialog c
where
  /-- The rest of `newDialog`, after its early return. -/
  addDialog (c : Chat) : Chat :=
    let (manager, ref) := c.manager.newDialog
    let dialog : Dialog := .new manager.idCounter none
    -- a new dialog has a name, so this returns
    let (c, _) := onNewDialog { c with manager } dialog
    let c := c.onActiveDialogChanged ref dialog
    let (manager, returns) := c.manager.setActiveDialog env (some ref)
    if returns then { c with manager }.save else { c with manager }

/-- The buttons of the loaded dialogs; it stops at the first that throws. -/
def addButtons (c : Chat) : List (Int32 × Nat) → Chat × Bool
  | [] => (c, true)
  | e :: rest =>
    match c.manager.objects[e.2]? with
    | none => (c, false)
    | some dialog =>
      match c.onNewDialog dialog with
      | (c, false) => (c, false)
      | (c, true) => addButtons c rest

/-- `load`, the end of the constructor. -/
def load (env : Env) (c : Chat) (file : Bytes) : Chat :=
  match c.manager.load env file with
  -- blank and rejected alike
  | (manager, none) => newDialog env { c with manager }
  | (manager, some fileContent) =>
    match { c with manager }.addButtons (env.order manager.dialogs) with
    | (c, false) => c
    | (c, true) =>
      match manager.activeDialog with
      | none => c
      | some ref =>
        match manager.objects[ref]? with
        | none => c
        | some dialog =>
          let c := c.onActiveDialogChanged ref dialog
          match fileContent.uiState with
          | none => c
          -- setting the panel's state calls `onOpenChanged`, which saves
          | some sidePanelOpen => { c with sidePanelOpen }.save

/-- The file after `n` queued saves have run. -/
def drain (env : Env) (c : Chat) : Nat → Bytes → Bytes
  | 0, file => file
  | n + 1, file => drain env c n (c.manager.doSave env c.sidePanelOpen file)

/-- The file after the chat has been constructed over it and the queue is drained. -/
def openFile (env : Env) (file : Bytes) : Bytes :=
  let c := Chat.new.load env file
  c.drain env c.saves file

end Chat

end Reloadium.Ai
