import Reloadium.Ai.Chat

namespace Reloadium.Ai

open Reloadium.Lib

/-!
# Ai — opening a rejected chat file

`DialogManager.load` answers null for a blank file and for every file it rejects alike, and
the chat answers null with a new dialog and a save.

* `fresh_of_noDialogIn` — a rejected file without a single dialog entry leaves the manager
  as it was; any entry that is read stays in the manager (`load_dialogs_ne_nil`);
* `openFile_of_fresh` — from there the save writes the content of a new chat;
* `unharmed_iff` — hence a rejected file survives exactly when it cannot be written and has
  no dialog entry.
-/

/-- The chat file is rejected: it is not blank, and loading it answers null. -/
structure Rejected (env : Env) (file : Bytes) : Prop where
  not_blank : (Utf8.decode file).isBlank = false
  load_eq_none : (DialogManager.new.load env file).2 = none

/-- Opening the file leaves its content, and loading it leaves the manager. -/
structure Unharmed (env : Env) (file : Bytes) : Prop where
  file_eq : Chat.openFile env file = file
  dialogs_eq : (DialogManager.new.load env file).1.dialogs = DialogManager.new.dialogs
  idCounter_eq : (DialogManager.new.load env file).1.idCounter = DialogManager.new.idCounter
  activeDialog_eq :
    (DialogManager.new.load env file).1.activeDialog = DialogManager.new.activeDialog

/-- No dialog entry is read from the file: if its version is the right one and Jackson
    reads a list of dialogs in it, all entries of the list are null. -/
def NoDialogIn (env : Env) (file : Bytes) : Prop :=
  ∀ fileContent models,
    DialogManager.readContent env (Utf8.decode file) = some (fileContent, models) →
      ∀ d ∈ models, d = none

/-- The content of a chat whose only dialog is a new one. -/
def newChatContent : FileContent where
  version := some FILE_VERSION
  activeDialogId := some 0
  uiState := some true
  dialogs := some [some (.new 0)]

/-- Jackson writes the content of a new chat, and reads it back from the file. -/
def Env.ReadsBackNewChat (env : Env) : Prop :=
  ∃ jsonString, env.writeValue newChatContent = some jsonString ∧
    (Utf8.decode (Utf8.encode jsonString)).isBlank = false ∧
    env.readVersion (Utf8.decode (Utf8.encode jsonString)) = some FILE_VERSION ∧
    env.readValue (Utf8.decode (Utf8.encode jsonString)) = some newChatContent

variable {env : Env} {file : Bytes}

/-! ### Reading the dialogs -/

theorem foldl_loadDialog_of_null {models : List (Option DialogModel)} (m : DialogManager)
    (h : ∀ d ∈ models, d = none) : models.foldl DialogManager.loadDialog m = m := by
  induction models with
  | nil => rfl
  | cons d rest ih =>
    rw [h d List.mem_cons_self, List.foldl_cons, DialogManager.loadDialog]
    exact ih fun d' hd' => h d' (List.mem_cons_of_mem _ hd')

theorem putDialog_dialogs_ne_nil (m : DialogManager) (id : Int32) (dialog : Dialog) :
    (m.putDialog id dialog).dialogs ≠ [] := by
  unfold DialogManager.putDialog
  split
  case isTrue hany =>
    obtain ⟨e, he, -⟩ := List.any_eq_true.mp hany
    exact List.ne_nil_of_mem (List.mem_map_of_mem he)
  case isFalse => simp

/-- Whatever entries follow, a dialog that has been read stays in the manager. -/
theorem foldl_loadDialog_dialogs_ne_nil {models : List (Option DialogModel)}
    {m : DialogManager} (h : m.dialogs ≠ [] ∨ ∃ d ∈ models, d ≠ none) :
    (models.foldl DialogManager.loadDialog m).dialogs ≠ [] := by
  -- over the entries, from any manager: either it has a dialog or one is still to come
  induction models generalizing m with
  | nil => simpa using h
  | cons d rest ih =>
    rw [List.foldl_cons]
    cases d with
    | none =>
      have hrest : m.dialogs ≠ [] ∨ ∃ d ∈ rest, d ≠ none := by simpa using h
      exact ih hrest
    | some model =>
      refine ih (.inl ?_)
      unfold DialogManager.loadDialog
      have hne := putDialog_dialogs_ne_nil m model.id (.new model.id (some model))
      dsimp only
      split <;> exact hne

theorem setActiveDialog_dialogs (m : DialogManager) (dialog : Option Nat) :
    (m.setActiveDialog env dialog).1.dialogs = m.dialogs := by
  unfold DialogManager.setActiveDialog
  cases dialog with
  | none => rfl
  | some ref =>
    dsimp only
    split
    · rfl
    · split <;> rfl

/-! ### Loading -/

theorem load_of_not_read (m : DialogManager)
    (h : DialogManager.readContent env (Utf8.decode file) = none) :
    m.load env file = (m, none) := by
  simp only [DialogManager.load, h, ite_self]

/-- Once the list of dialogs is read, its dialogs are in the manager. -/
theorem load_dialogs_of_read {m : DialogManager} {fileContent : FileContent}
    {models : List (Option DialogModel)} (hblank : (Utf8.decode file).isBlank = false)
    (h : DialogManager.readContent env (Utf8.decode file) = some (fileContent, models)) :
    (m.load env file).1.dialogs = (models.foldl DialogManager.loadDialog m).dialogs := by
  unfold DialogManager.load
  simp only [hblank, Bool.false_eq_true, if_false, h]
  -- the active dialog is set after the map is filled, and never touches the map
  rw [← @setActiveDialog_dialogs env (models.foldl DialogManager.loadDialog m)
    (fileContent.activeDialogId.bind (models.foldl DialogManager.loadDialog m).getDialog)]
  split
  all_goals simp only [*]

/-- **A rejected file without a dialog entry leaves the manager as it was.** -/
theorem fresh_of_noDialogIn (hno : NoDialogIn env file) (hrej : Rejected env file) :
    DialogManager.new.load env file = (.new, none) := by
  cases hread : DialogManager.readContent env (Utf8.decode file) with
  | none => exact load_of_not_read _ hread
  | some r =>
    obtain ⟨fileContent, models⟩ := r
    unfold DialogManager.load
    simp only [hrej.not_blank, Bool.false_eq_true, if_false, hread,
      foldl_loadDialog_of_null _ (hno fileContent models hread)]
    -- the map is empty, so there is no dialog to activate
    have hactive : fileContent.activeDialogId.bind DialogManager.new.getDialog = none := by
      cases fileContent.activeDialogId <;> rfl
    rw [hactive]
    rfl

/-- An entry that is read leaves the manager's map changed. -/
theorem load_dialogs_ne_nil (hrej : Rejected env file) (hno : ¬ NoDialogIn env file) :
    (DialogManager.new.load env file).1.dialogs ≠ [] := by
  simp only [NoDialogIn, not_forall] at hno
  obtain ⟨fileContent, models, hread, d, hd, hne⟩ := hno
  rw [load_dialogs_of_read hrej.not_blank hread]
  exact foldl_loadDialog_dialogs_ne_nil (.inr ⟨d, hd, hne⟩)

/-! ### Saving a new chat -/

/-- The chat after a rejected file that left the manager as it was. -/
def newChat : Chat where
  manager := DialogManager.new.newDialog.1
  sidePanelOpen := true
  buttons := [{ id := 0, text := NEW_CHAT_NAME, active := true }]
  mainPanel := some 0
  saves := 1

theorem load_of_fresh (h : DialogManager.new.load env file = (.new, none)) :
    Chat.new.load env file = newChat := by
  unfold Chat.load
  simp only [Chat.new, h]
  rfl

theorem fileContent_newChat :
    newChat.manager.fileContent env newChat.sidePanelOpen = some newChatContent := by
  -- the one entry has only one order
  have horder : env.order newChat.manager.dialogs = [((0 : Int32), 0)] :=
    List.perm_singleton.mp (env.order_perm newChat.manager.dialogs)
  unfold DialogManager.fileContent
  rw [horder]
  rfl

/-- What is saved after such a file is the content of a new chat. -/
theorem openFile_of_fresh (h : DialogManager.new.load env file = (.new, none)) :
    Chat.openFile env file =
      match env.writeValue newChatContent with
      | none => file
      | some jsonString => if env.writable then Utf8.encode jsonString else file := by
  simp only [Chat.openFile, load_of_fresh h]
  show newChat.manager.doSave env newChat.sidePanelOpen file = _
  rw [DialogManager.doSave, fileContent_newChat]
  rfl

/-- A new chat's content is accepted. -/
theorem not_rejected_of_readsBack {jsonString : JString}
    (hblank : (Utf8.decode (Utf8.encode jsonString)).isBlank = false)
    (hversion : env.readVersion (Utf8.decode (Utf8.encode jsonString)) = some FILE_VERSION)
    (hvalue : env.readValue (Utf8.decode (Utf8.encode jsonString)) = some newChatContent) :
    ¬ Rejected env (Utf8.encode jsonString) := by
  intro hrej
  have hread : DialogManager.readContent env (Utf8.decode (Utf8.encode jsonString)) =
      some (newChatContent, [some (.new 0)]) := by
    unfold DialogManager.readContent
    rw [hversion, hvalue]
    rfl
  have hnull := hrej.load_eq_none
  unfold DialogManager.load at hnull
  simp only [hblank, Bool.false_eq_true, if_false, hread] at hnull
  cases hnull

/-- **When a rejected chat file survives.**  If Jackson reads back the new chat it writes, a
    rejected file is left unchanged, and with it the manager, exactly when the file cannot
    be written and no dialog entry is read from it. -/
theorem unharmed_iff (hback : env.ReadsBackNewChat) (hrej : Rejected env file) :
    Unharmed env file ↔ env.writable = false ∧ NoDialogIn env file := by
  obtain ⟨jsonString, hwrite, hblank, hversion, hvalue⟩ := hback
  -- without a dialog entry the save decides; with one the manager is changed already
  by_cases hno : NoDialogIn env file
  · have hload := fresh_of_noDialogIn hno hrej
    have hfile := openFile_of_fresh hload
    simp only [hwrite] at hfile
    cases hwritable : env.writable with
    | false =>
      simp only [hwritable, Bool.false_eq_true, if_false] at hfile
      exact ⟨fun _ => ⟨rfl, hno⟩, fun _ => ⟨hfile, by rw [hload], by rw [hload], by rw [hload]⟩⟩
    | true =>
      simp only [hwritable, if_true] at hfile
      refine ⟨fun h => ?_, fun h => by cases h.1⟩
      -- a file that is unchanged by the save is a new chat, which is not rejected
      have hsame : Utf8.encode jsonString = file := hfile ▸ h.file_eq
      exact absurd (hsame ▸ hrej) (not_rejected_of_readsBack hblank hversion hvalue)
  · exact ⟨fun h => absurd h.dialogs_eq (load_dialogs_ne_nil hrej hno), fun h => absurd h.2 hno⟩

/-! ### A file of an older version -/

/-- A new chat as it is written, after its first line. -/
def newChatLines : String :=
  "  \"version\" : \"0.2.0\",\n  \"activeDialogId\" : 0,\n" ++
  "  \"uiState\" : \x7b\n    \"sidePanelOpen\" : true\n  \x7d,\n" ++
  "  \"dialogs\" : [ \x7b\n    \"name\" : \"New chat\",\n    \"id\" : 0,\n" ++
  "    \"messages\" : [ ]\n  \x7d ]\n\x7d"

def newChatJson : JString := .ofString ("\x7b\n" ++ newChatLines)

/-- A chat file of an older version. -/
def oldChatJson : JString := .ofString "\x7b\"version\":\"0.1.0\",\"dialogs\":[]\x7d"

/-- Jackson on these two texts. -/
def twoFilesEnv : Env where
  countTokens s := some (Int32.ofNat s.length)
  viewFails _ := false
  readVersion s :=
    if s = newChatJson then some FILE_VERSION
    else if s = oldChatJson then some (.ofString "0.1.0")
    else none
  readValue s := if s = newChatJson then some newChatContent else none
  writeValue c := if c = newChatContent then some newChatJson else none
  order := id
  order_perm _ := .refl _
  writable := true

theorem decode_newChatJson : Utf8.decode (Utf8.encode newChatJson) = newChatJson :=
  Utf8.decode_encode_ofString _

theorem decode_oldChatJson : Utf8.decode (Utf8.encode oldChatJson) = oldChatJson :=
  Utf8.decode_encode_ofString _

theorem newChatJson_not_blank : newChatJson.isBlank = false := by
  have hbrace : (JString.ofString "\x7b\n").isBlank = false := by decide
  -- the first line decides, so that the whole text is never evaluated
  rw [newChatJson, JString.ofString_append, JString.isBlank_append, hbrace, Bool.false_and]

theorem oldChatJson_ne : oldChatJson ≠ newChatJson := by
  intro h
  have hfirst := congrArg (List.take 2) h
  -- the two texts differ in their second character
  rw [newChatJson, JString.ofString_append, List.take_left' (by decide)] at hfirst
  revert hfirst
  decide

theorem twoFilesEnv_readsBack : twoFilesEnv.ReadsBackNewChat := by
  refine ⟨newChatJson, ?_, ?_, ?_, ?_⟩
  · simp only [twoFilesEnv, if_true]
  · rw [decode_newChatJson, newChatJson_not_blank]
  · simp only [decode_newChatJson, twoFilesEnv, if_true]
  · simp only [decode_newChatJson, twoFilesEnv, if_true]

theorem load_oldChat :
    DialogManager.new.load twoFilesEnv (Utf8.encode oldChatJson) = (.new, none) := by
  have hversion : twoFilesEnv.readVersion oldChatJson = some (.ofString "0.1.0") := by
    simp only [twoFilesEnv, oldChatJson_ne, if_false, if_true]
  have hread : DialogManager.readContent twoFilesEnv oldChatJson = none := by
    rw [DialogManager.readContent, hversion]
    rfl
  exact load_of_not_read _ (by rw [decode_oldChatJson, hread])

theorem oldChat_rejected : Rejected twoFilesEnv (Utf8.encode oldChatJson) where
  not_blank := by
    rw [decode_oldChatJson]
    decide
  load_eq_none := by rw [load_oldChat]

theorem unharmed_iff_oldChat :
    Unharmed twoFilesEnv (Utf8.encode oldChatJson) ↔
      twoFilesEnv.writable = false ∧ NoDialogIn twoFilesEnv (Utf8.encode oldChatJson) :=
  unharmed_iff twoFilesEnv_readsBack oldChat_rejected

/-- Opening a chat of an older version replaces it by a new chat. -/
theorem older_version_overwritten :
    twoFilesEnv.ReadsBackNewChat ∧ Rejected twoFilesEnv (Utf8.encode oldChatJson) ∧
      Chat.openFile twoFilesEnv (Utf8.encode oldChatJson) ≠ Utf8.encode oldChatJson := by
  refine ⟨twoFilesEnv_readsBack, oldChat_rejected, ?_⟩
  have hwrite : twoFilesEnv.writeValue newChatContent = some newChatJson := by
    simp only [twoFilesEnv, if_true]
  rw [openFile_of_fresh load_oldChat, hwrite]
  intro hsame
  have hdecode := congrArg Utf8.decode hsame
  simp only [twoFilesEnv, if_true, decode_newChatJson, decode_oldChatJson] at hdecode
  exact oldChatJson_ne hdecode.symm

end Reloadium.Ai
