import Reloadium.Ai.DialogKeys

namespace Reloadium.Ai

open Reloadium.Lib

/-!
# Ai — what each operation of the chat does

One equation or case lemma for each operation, where the map of the dialogs is keyed; all
invariants of the chat are derived from these.

* `newDialog_eq`, `exec_load`, `doRename_eq`, `onDeleteDialog_last`,
  `onDeleteDialog_many`, `onDialogPressed_eq`, `onProposedName_eq`;
* `ManagerMove`, `managerMove_of_exec` — what they do to the manager.
-/

namespace Chat

variable {env : Env} {c : Chat} {id : Int32} {ref : Nat} {dialog : Dialog}

/-! ### New dialogs -/

/-- `newDialog` creates a dialog, and does not return early. -/
def creates (c : Chat) : Bool :=
  match c.manager.activeDialog.bind (c.manager.objects[·]?) with
  | some active =>
    match active.model.messages with
    | none => false
    | some [] => false
    | some _ => true
  | none => true

/-- The buttons after a new dialog: its own is the last, and active. -/
def newButtons (c : Chat) (id : Int32) : List DialogButton :=
  let button : DialogButton := { id, text := NEW_CHAT_NAME, active := false }
  (c.buttons.filter (·.id ≠ id) ++ [button]).map fun b => { b with active := b.id = id }

/-- The chat after a new dialog. -/
theorem addDialog_eq (c : Chat) :
    newDialog.addDialog env c =
      { manager := c.manager.newDialog.1
        sidePanelOpen := c.sidePanelOpen
        buttons := c.newButtons (c.manager.idCounter + 1)
        mainPanel := some c.manager.objects.length
        saves := c.saves + 1 } := by
  have hactive : c.manager.newDialog.1.setActiveDialog env (some c.manager.objects.length) =
      (c.manager.newDialog.1, true) := DialogManager.setActiveDialog_newDialog c.manager
  -- activating the new dialog once more returns, so the chat is saved
  let shown (manager : DialogManager) : Chat :=
    { manager
      sidePanelOpen := c.sidePanelOpen
      buttons := c.newButtons (c.manager.idCounter + 1)
      mainPanel := some c.manager.objects.length
      saves := c.saves }
  show (fun r : DialogManager × Bool => if r.2 then (shown r.1).save else shown r.1)
    (c.manager.newDialog.1.setActiveDialog env (some c.manager.objects.length)) = _
  rw [hactive]
  rfl

/-- **A new dialog**, unless the active one is empty or has no list of messages. -/
theorem newDialog_eq (c : Chat) :
    c.newDialog env = if c.creates then newDialog.addDialog env c else c := by
  cases hactive : c.manager.activeDialog.bind (c.manager.objects[·]?) with
  | none => simp only [newDialog, creates, hactive, if_true]
  | some active =>
    rcases hmessages : active.model.messages with _ | (_ | ⟨m, rest⟩) <;>
      simp only [newDialog, creates, hactive, hmessages, if_true, Bool.false_eq_true, if_false]

theorem manager_newDialog (c : Chat) :
    (c.newDialog env).manager = if c.creates then c.manager.newDialog.1 else c.manager := by
  rw [newDialog_eq]
  split
  · rw [addDialog_eq]
  · rfl

/-! ### Loading -/

theorem manager_addButtons (c : Chat) (entries : List (Int32 × Nat)) :
    (c.addButtons entries).1.manager = c.manager := by
  induction entries generalizing c with
  | nil => rfl
  | cons e rest ih =>
    rw [addButtons]
    cases c.manager.objects[e.2]? with
    | none => rfl
    | some dialog =>
      dsimp only
      unfold onNewDialog
      cases dialog.model.name with
      | none => rfl
      | some name => exact ih _

/-- `load`, after the manager has loaded the file, and whether it returns. -/
def loadWith (env : Env) (c : Chat) (loaded : DialogManager × Option FileContent) :
    Chat × Bool :=
  match loaded with
  | (manager, none) =>
    (newDialog env { c with manager }, newDialogReturns { c with manager })
  | (manager, some fileContent) =>
    match { c with manager }.addButtons (env.order manager.dialogs) with
    | (c, false) => (c, false)
    | (c, true) =>
      match manager.activeDialog with
      | none => (c, fileContent.uiState.isSome)
      | some ref =>
        match manager.objects[ref]? with
        | none => (c, fileContent.uiState.isSome)
        | some dialog =>
          let c := c.onActiveDialogChanged ref dialog
          match fileContent.uiState with
          | none => (c, false)
          | some sidePanelOpen => ({ c with sidePanelOpen }.save, true)

/-- **Loading** a file is loading it in the manager, and showing what is loaded. -/
theorem exec_load (c : Chat) (file : Bytes) :
    c.exec env (.load file) = c.loadWith env (c.manager.load env file) := by
  show (c.load env file, c.loadReturns env file) = _
  unfold load loadReturns loadWith
  rcases c.manager.load env file with ⟨manager, _ | fileContent⟩
  · rfl
  · dsimp only
    rcases addButtons { c with manager } (env.order manager.dialogs) with ⟨c', _ | _⟩
    · rfl
    · dsimp only
      cases manager.activeDialog with
      | none => rfl
      | some ref =>
        dsimp only
        cases manager.objects[ref]? with
        | none => rfl
        | some dialog => cases fileContent.uiState <;> rfl

/-- **Loading** a file that the manager does not accept. -/
theorem load_of_none {file : Bytes} (h : (c.manager.load env file).2 = none) :
    c.load env file = newDialog env { c with manager := (c.manager.load env file).1 } := by
  unfold load
  rcases hload : c.manager.load env file with ⟨manager, _ | fileContent⟩
  · rfl
  · rw [hload] at h
    cases h

/-- An accepted file changes the manager in the manager's own load only. -/
theorem manager_load_of_some {file : Bytes} (h : (c.manager.load env file).2.isSome) :
    (c.load env file).manager = (c.manager.load env file).1 := by
  unfold load
  rcases hload : c.manager.load env file with ⟨manager, _ | fileContent⟩
  · rw [hload] at h
    cases h
  · have hbuttons := manager_addButtons { c with manager } (env.order manager.dialogs)
    dsimp only
    split
    · next heq =>
      rw [heq] at hbuttons
      exact hbuttons
    · next heq =>
      rw [heq] at hbuttons
      split
      · exact hbuttons
      · split
        · exact hbuttons
        · split <;> exact hbuttons

/-! ### The listener of the side panel -/

theorem doRename_eq (hget : c.manager.getDialog id = some ref) (newName : JString) :
    c.doRename id newName =
      (setText { c with manager := c.manager.modify ref (·.setName newName),
                        saves := c.saves + 1 } id newName, true) := by
  unfold doRename
  rw [hget]
  rfl

/-- **Deleting the last dialog** clears it. -/
theorem onDeleteDialog_last (hget : c.manager.getDialog id = some ref)
    (hdialog : c.manager.objects[ref]? = some dialog) (hid : dialog.model.id = id)
    (hlen : c.manager.dialogs.length = 1) :
    c.onDeleteDialog env id =
      if c.buttons.any (·.id == id) then
        (save (setText { c with manager := c.manager.modify ref .clear } id NEW_CHAT_NAME), true)
      else ({ c with manager := c.manager.modify ref .clear }, false) := by
  unfold onDeleteDialog
  simp only [hget, hdialog, hlen, if_true, hid]
  by_cases hbutton : c.buttons.any (·.id == id) = true
  · simp only [onDialogRenamed, if_pos hbutton]
  · simp only [onDialogRenamed, if_neg hbutton]

/-- **Deleting one of several dialogs**: another one is activated, and shown if that
    returns. -/
theorem onDeleteDialog_many (hkeyed : c.manager.Keyed)
    (hget : c.manager.getDialog id = some ref) (hlen : c.manager.dialogs.length ≠ 1) :
    ∃ e active, (env.order (Assoc.remove c.manager.dialogs id)).getLast? = some e ∧
      (c.manager.without id).getDialog e.1 = some e.2 ∧
      active.model.id = e.1 ∧
      c.onDeleteDialog env id =
        if ((c.manager.without id).setActiveDialog env (some e.2)).2 then
          (save (onActiveDialogChanged
            { c.onDialogDeleted id with
              manager := ((c.manager.without id).setActiveDialog env (some e.2)).1 }
            e.2 active), true)
        else
          ({ c.onDialogDeleted id with
              manager := ((c.manager.without id).setActiveDialog env (some e.2)).1 }, false) := by
  obtain ⟨dialog, hdialog, hid⟩ := hkeyed.dialog hget
  have hkey : dialog.model.id ∈ c.manager.dialogs.map Prod.fst := by
    rw [hid]
    exact DialogManager.mem_keys_iff.mpr (by rw [hget]; rfl)
  obtain ⟨e, he, helect, hdelete⟩ := DialogManager.deleteDialog_cases env hkeyed hkey hlen
  rw [hid] at he helect hdelete
  -- the dialog that is activated is there, with the id of its key
  obtain ⟨-, -, hactive, -, -⟩ :=
    @DialogManager.setActiveDialog_frame env (c.manager.without id) (some e.2)
  have hkeyed' : ((c.manager.without id).setActiveDialog env (some e.2)).1.Keyed :=
    (hkeyed.remove id).setActiveDialog _
  have helect' : ((c.manager.without id).setActiveDialog env (some e.2)).1.getDialog e.1 =
      some e.2 := by
    rw [DialogManager.getDialog, (@DialogManager.setActiveDialog_frame env _ _).1]
    exact helect
  obtain ⟨active, hobject, hidActive⟩ := hkeyed'.dialog helect'
  refine ⟨e, active, he, helect, hidActive, ?_⟩
  unfold onDeleteDialog
  simp only [hget, hdialog, hlen, if_false, hid]
  rw [show (c.onDialogDeleted id).manager = c.manager from rfl, hdelete]
  rcases hset : (c.manager.without id).setActiveDialog env (some e.2) with ⟨manager, _ | _⟩
  · rfl
  · rw [hset] at hactive hobject
    dsimp only at hactive hobject
    simp only [hactive, hobject, if_true]

/-- **Pressing a dialog**: it is shown, and then activated. -/
theorem onDialogPressed_eq (hget : c.manager.getDialog id = some ref)
    (hdialog : c.manager.objects[ref]? = some dialog) (narrow : Bool) :
    c.onDialogPressed env id narrow =
      if (c.manager.setActiveDialog env (some ref)).2 then
        (save (closeSidePanelIfNeeded
          { c.onActiveDialogChanged ref dialog with
            manager := (c.manager.setActiveDialog env (some ref)).1 } narrow), true)
      else
        ({ c.onActiveDialogChanged ref dialog with
            manager := (c.manager.setActiveDialog env (some ref)).1 }, false) := by
  unfold onDialogPressed
  simp only [hget, hdialog]
  rw [show (c.onActiveDialogChanged ref dialog).manager = c.manager from rfl]
  rcases c.manager.setActiveDialog env (some ref) with ⟨manager, _ | _⟩ <;> rfl

/-- **A completed proposal** renames the dialog, and its button if it has one. -/
theorem onProposedName_eq (hdialog : c.manager.objects[ref]? = some dialog) (name : JString) :
    c.onProposedName ref name =
      if c.buttons.any (·.id == dialog.model.id) then
        (save (setText { c with manager := c.manager.modify ref (·.setName name) }
          dialog.model.id name), true)
      else ({ c with manager := c.manager.modify ref (·.setName name) }, false) := by
  unfold onProposedName
  simp only [hdialog]
  by_cases hbutton : c.buttons.any (·.id == dialog.model.id) = true
  · simp only [onDialogRenamed, if_pos hbutton]
  · simp only [onDialogRenamed, if_neg hbutton]

end Chat

/-! ### The manager -/

/-- What renaming, clearing or using a dialog changes of it: neither its id nor whether it is
    loaded, and no model that loading its messages once more would change. -/
structure Dialog.Changes (d d' : Dialog) : Prop where
  id : d'.model.id = d.model.id
  loaded : d'.loaded = d.loaded
  messages : d.model.messages.isSome = true → d'.model.messages.isSome = true
  settled : ∀ kit, Dialog.rebuildModel kit d.model = d.model →
    Dialog.rebuildModel kit d'.model = d'.model

theorem Dialog.changes_setName (d : Dialog) (name : JString) : d.Changes (d.setName name) := by
  refine ⟨rfl, rfl, fun hsome => hsome, fun kit hsettled => ?_⟩
  have hmessages := congrArg DialogModel.messages hsettled
  rw [rebuildModel_eq] at hmessages ⊢
  exact congrArg (fun messages => { (d.setName name).model with messages }) hmessages

theorem Dialog.changes_clear (d : Dialog) : d.Changes d.clear :=
  ⟨rfl, rfl, fun _ => rfl, fun _ _ => rfl⟩

/-- A used dialog: each of its messages is an old one, or one that is rebuilt as it is. -/
theorem Dialog.changes_of_mayBecome {d d' : Dialog} (h : d.MayBecome d') : d.Changes d' := by
  obtain ⟨hid, -, hloaded, hmatch⟩ := h
  cases hold : d.model.messages with
  | none => simp [hold] at hmatch
  | some old =>
    cases hnew : d'.model.messages with
    | none => simp [hold, hnew] at hmatch
    | some messages =>
      simp only [hold, hnew] at hmatch
      refine ⟨hid, hloaded, fun _ => by rw [hnew]; rfl, fun kit hsettled => ?_⟩
      have hfixed := congrArg DialogModel.messages hsettled
      rw [rebuildModel_eq, hold, Option.map_some, Option.some.injEq] at hfixed
      have hmap : messages.map (·.map (rebuildMessage kit)) = messages := by
        refine (List.map_congr_left fun m hm => ?_).trans messages.map_id
        rcases hmatch m hm with hmem | ⟨hsome, hrebuilt⟩
        · exact List.map_eq_map_iff.mp (hfixed.trans old.map_id.symm) m hmem
        · obtain ⟨model, rfl⟩ := Option.isSome_iff_exists.mp hsome
          exact congrArg some (rebuildMessage_of_rebuilt (Option.some.inj hrebuilt))
      rw [rebuildModel_eq, hnew, Option.map_some, hmap, ← hnew]

/-- What an operation that neither loads nor creates dialogs does to the manager. -/
inductive ManagerMove (env : Env) (m : DialogManager) : DialogManager → Prop
  | stay : ManagerMove env m m
  /-- a dialog is renamed, cleared or used -/
  | change (ref : Nat) (f : Dialog → Dialog)
      (hf : ∀ d, m.objects[ref]? = some d → d.Changes (f d)) :
      ManagerMove env m (m.modify ref f)
  | activate {id : Int32} {ref : Nat} (hget : m.getDialog id = some ref) :
      ManagerMove env m (m.setActiveDialog env (some ref)).1
  | delete {id id' : Int32} {ref : Nat} (hget : (m.without id).getDialog id' = some ref) :
      ManagerMove env m ((m.without id).setActiveDialog env (some ref)).1

namespace Chat

variable {env : Env} {c : Chat}

theorem manager_closeSidePanelIfNeeded (c : Chat) (narrow : Bool) :
    (c.closeSidePanelIfNeeded narrow).manager = c.manager := by
  cases narrow <;> rfl

theorem manager_onNewDialogPressed (c : Chat) (narrow : Bool) :
    (c.onNewDialogPressed env narrow).1.manager =
      if c.creates then c.manager.newDialog.1 else c.manager := by
  unfold onNewDialogPressed
  split
  · rw [manager_closeSidePanelIfNeeded, manager_newDialog]
  · exact manager_newDialog c

/-- **Every operation but a load and a new dialog** makes a move of the manager. -/
theorem managerMove_of_exec {e : ChatEvent} (hkeyed : c.manager.Keyed) (henabled : c.enabled e)
    (hload : ∀ file, e ≠ .load file) (hnew : ∀ narrow, e ≠ .newDialogPressed narrow) :
    ManagerMove env c.manager (c.exec env e).1.manager := by
  cases e with
  | load file => exact absurd rfl (hload file)
  | newDialogPressed narrow => exact absurd rfl (hnew narrow)
  | doRename id newName =>
    show ManagerMove env c.manager (c.doRename id newName).1.manager
    cases hget : c.manager.getDialog id with
    | none =>
      simp only [doRename, hget]
      exact .stay
    | some ref =>
      rw [doRename_eq hget]
      exact .change _ _ fun d _ => d.changes_setName newName
  | deleteDialog id =>
    show ManagerMove env c.manager (c.onDeleteDialog env id).1.manager
    cases hget : c.manager.getDialog id with
    | none =>
      simp only [onDeleteDialog, hget]
      exact .stay
    | some ref =>
      by_cases hlen : c.manager.dialogs.length = 1
      · obtain ⟨dialog, hdialog, hid⟩ := hkeyed.dialog hget
        rw [onDeleteDialog_last hget hdialog hid hlen]
        split <;> exact .change _ _ fun d _ => d.changes_clear
      · obtain ⟨e, active, -, helect, -, heq⟩ := @onDeleteDialog_many env _ _ _ hkeyed hget hlen
        rw [heq]
        split <;> exact .delete helect
  | dialogPressed id narrow =>
    show ManagerMove env c.manager (c.onDialogPressed env id narrow).1.manager
    cases hget : c.manager.getDialog id with
    | none =>
      simp only [onDialogPressed, hget]
      exact .stay
    | some ref =>
      obtain ⟨dialog, hdialog, -⟩ := hkeyed.dialog hget
      rw [onDialogPressed_eq hget hdialog]
      split
      · show ManagerMove env c.manager (closeSidePanelIfNeeded _ narrow).manager
        rw [manager_closeSidePanelIfNeeded]
        exact .activate hget
      · exact .activate hget
  | setOpen isOpen => exact .stay
  | proposedName ref name =>
    show ManagerMove env c.manager (c.onProposedName ref name).1.manager
    cases hdialog : c.manager.objects[ref]? with
    | none =>
      simp only [onProposedName, hdialog]
      exact .stay
    | some dialog =>
      rw [onProposedName_eq hdialog]
      split <;> exact .change _ _ fun d _ => d.changes_setName name
  | used ref dialog =>
    refine .change ref _ fun d hd => ?_
    rw [enabled, hd] at henabled
    exact Dialog.changes_of_mayBecome (of_decide_eq_true henabled)

end Chat

end Reloadium.Ai
