import Reloadium.Ai.SidePanel

namespace Reloadium.Ai

open Reloadium.Lib

/-!
# Ai — the side panel in step with the dialogs

Each operation updates the map of the dialogs and the buttons of the side panel by separate
calls.  They stay in step, and nothing throws, as long as

* the file that is opened is blank or not read, or has no dialog, or names an active dialog
  that can be loaded, a state of the panel, and a name for every dialog;
* every dialog that is pressed, or re-elected by a delete, can be loaded;
* a proposed name arrives for a dialog that is still in the map.

`Chat.KeepsStep` is this condition for one event, `mirrored_exec` the step, and
`panelMirrors_of_run` the run.  `proposal_after_delete` breaks the last part of it.
-/

/-- Activating the dialog returns: its messages are loaded, or can be loaded. -/
def Dialog.Opens (kit : Toolkit) (d : Dialog) : Prop := d.loaded = true ∨ d.Loadable kit

/-- The dialog of an id once the entries of a file have been put into the map. -/
def DialogManager.entryOf (m : DialogManager) (models : List (Option DialogModel))
    (id : Int32) : Option Dialog :=
  ((lastModel id models).map fun d => Dialog.new id (some d)).or (m.dialogOf id)

namespace Chat

/-- A file that keeps the panel in step. -/
def KeepsStepOpening (env : Env) (c : Chat) (file : Bytes) : Prop :=
  (Utf8.decode file).isBlank = false → ∀ fileContent models,
    DialogManager.readContent env (Utf8.decode file) = some (fileContent, models) →
      match fileContent.activeDialogId.bind (c.manager.entryOf models) with
      | none => ∀ d ∈ models, d = none
      | some d =>
        d.Opens env.toToolkit ∧ fileContent.uiState.isSome = true ∧
          ∀ id d, c.manager.entryOf models id = some d → d.model.name.isSome = true

/-- An event that keeps the panel in step. -/
def KeepsStep (env : Env) (c : Chat) : ChatEvent → Prop
  | .load file => c.KeepsStepOpening env file
  | .deleteDialog id =>
    c.manager.dialogs.length ≠ 1 →
      ∀ e, (env.order (Assoc.remove c.manager.dialogs id)).getLast? = some e →
        ∀ d, c.manager.objects[e.2]? = some d → d.Opens env.toToolkit
  | .dialogPressed id _ => ∀ d, c.manager.dialogOf id = some d → d.Opens env.toToolkit
  | .proposedName ref _ => ∃ id, c.manager.getDialog id = some ref
  | _ => True

variable {env : Env} {c : Chat} {id : Int32} {ref : Nat}

/-! ### New dialogs -/

theorem mirrored_addDialog (hkeyed : c.manager.Keyed) (hready : c.manager.Ready)
    (hlisted : c.Listed) : (newDialog.addDialog env c).Mirrored := by
  obtain ⟨f, hrecords, hnamed⟩ := hlisted
  rw [addDialog_eq]
  have hkeyed' : c.manager.newDialog.1.Keyed := hkeyed.newDialog
  refine ⟨hkeyed', hready.newDialog, ?_, ?_⟩
  · have hput := hrecords.put
      { id := c.manager.idCounter + 1, text := NEW_CHAT_NAME, active := false }
    have hnamed' := @DialogManager.Named.putDialog _ (c.manager.idCounter + 1) NEW_CHAT_NAME _
      hnamed hkeyed (.new (c.manager.idCounter + 1) none) rfl
    exact ⟨_, hput.map (fun _ => rfl) fun _ => rfl, hnamed'.congr rfl rfl⟩
  · refine marked_of_buttons hkeyed' rfl ?_ rfl
    have hget := DialogManager.getDialog_putDialog c.manager (c.manager.idCounter + 1)
      (c.manager.idCounter + 1) (.new (c.manager.idCounter + 1) none)
    rw [if_pos rfl] at hget
    exact hget

theorem mirrored_newDialog (h : c.Mirrored) : (c.newDialog env).Mirrored := by
  rw [newDialog_eq]
  split
  · exact mirrored_addDialog h.keyed h.ready h.listed
  · exact h

theorem mirrored_onNewDialogPressed (h : c.Mirrored) (narrow : Bool) :
    (c.onNewDialogPressed env narrow).1.Mirrored ∧
      (c.onNewDialogPressed env narrow).2 = true := by
  have hnew : (c.newDialog env).Mirrored := mirrored_newDialog h
  rw [onNewDialogPressed, if_pos h.ready.newDialogReturns]
  refine ⟨?_, rfl⟩
  cases narrow with
  | true => exact ⟨hnew.keyed, hnew.ready, hnew.listed, hnew.marked⟩
  | false => exact hnew

/-! ### Names -/

/-- **Renaming** a dialog of the map together with its button. -/
theorem mirrored_setText (h : c.Mirrored) (hget : c.manager.getDialog id = some ref)
    {g : Dialog → Dialog} {text : JString} {saves : Nat}
    (hg : ∀ d, c.manager.objects[ref]? = some d → d.Changes (g d))
    (hname : ∀ d, (g d).model.name = some text) :
    (setText { c with manager := c.manager.modify ref g, saves } id text).Mirrored := by
  obtain ⟨f, hrecords, hnamed⟩ := h.listed
  have hsome : (f id).isSome = true := (hnamed.mem_keys_iff h.keyed).mp
    (DialogManager.mem_keys_iff.mpr (by rw [hget]; rfl))
  refine ⟨h.keyed.modify fun d hd => (hg d hd).id, h.ready.modify hg, ?_, ?_⟩
  · exact ⟨_, records_setText hrecords hsome text, hnamed.modify h.keyed hget hname⟩
  · refine h.marked.congr rfl rfl fun b hb => ?_
    obtain ⟨b', hb', rfl⟩ := List.mem_map.mp hb
    refine ⟨b', hb', ?_⟩
    split <;> exact ⟨rfl, rfl⟩

theorem mirrored_doRename (h : c.Mirrored) (hbutton : c.buttons.any (·.id == id) = true)
    (newName : JString) :
    (c.doRename id newName).1.Mirrored ∧ (c.doRename id newName).2 = true := by
  obtain ⟨ref, hget⟩ := h.getDialog hbutton
  rw [doRename_eq hget]
  exact ⟨mirrored_setText h hget (fun d _ => d.changes_setName newName) fun _ => rfl, rfl⟩

/-- **A proposal** for a dialog of the map. -/
theorem mirrored_onProposedName (h : c.Mirrored) (hget : c.manager.getDialog id = some ref)
    (name : JString) :
    (c.onProposedName ref name).1.Mirrored ∧ (c.onProposedName ref name).2 = true := by
  obtain ⟨dialog, hdialog, hid⟩ := h.keyed.dialog hget
  have hbutton : c.buttons.any (·.id == dialog.model.id) = true := by
    rw [any_button_iff, hid, h.mem_ids_iff, DialogManager.mem_keys_iff, hget]
    rfl
  rw [onProposedName_eq hdialog, if_pos hbutton, hid]
  have hset := @mirrored_setText _ id ref h hget (·.setName name) name c.saves
    (fun d _ => d.changes_setName name) fun _ => rfl
  exact ⟨⟨hset.keyed, hset.ready, hset.listed, hset.marked⟩, rfl⟩

/-! ### Activating -/

/-- The panel after a dialog has been activated and shown. -/
theorem mirrored_activate (hkeyed : c.manager.Keyed) (hready : c.manager.Ready)
    (hlisted : c.Listed) (hget : c.manager.getDialog id = some ref)
    (hreturns : (c.manager.setActiveDialog env (some ref)).2 = true) {c' : Chat}
    (hmanager : c'.manager = (c.manager.setActiveDialog env (some ref)).1)
    (hbuttons : c'.buttons = c.buttons.map fun b => { b with active := b.id = id }) :
    c'.Mirrored := by
  obtain ⟨f, hrecords, hnamed⟩ := hlisted
  obtain ⟨hdialogs, -, hactive, -, -⟩ :=
    @DialogManager.setActiveDialog_frame env c.manager (some ref)
  have hkeyed' : c'.manager.Keyed := hmanager ▸ hkeyed.setActiveDialog _
  refine ⟨hkeyed', hmanager ▸ hready.setActiveDialog hreturns, ⟨f, ?_, ?_⟩, ?_⟩
  · rw [hbuttons]
    exact hrecords.map (fun _ => rfl) fun _ => rfl
  · rw [hmanager]
    exact hnamed.setActiveDialog _
  · refine marked_of_buttons hkeyed' hbuttons ?_ (hmanager ▸ hactive)
    rw [hmanager, DialogManager.getDialog, hdialogs]
    exact hget

theorem mirrored_onDialogPressed (h : c.Mirrored) (hbutton : c.buttons.any (·.id == id) = true)
    (hopens : ∀ d, c.manager.dialogOf id = some d → d.Opens env.toToolkit) (narrow : Bool) :
    (c.onDialogPressed env id narrow).1.Mirrored ∧ (c.onDialogPressed env id narrow).2 = true := by
  obtain ⟨ref, hget⟩ := h.getDialog hbutton
  obtain ⟨dialog, hdialog, hid⟩ := h.keyed.dialog hget
  have hdialogOf : c.manager.dialogOf id = some dialog := by
    rw [DialogManager.dialogOf, hget, Option.bind_some, hdialog]
  have hreturns : (c.manager.setActiveDialog env (some ref)).2 = true :=
    (DialogManager.setActiveDialog_returns_iff _ _).mpr ⟨dialog, hdialog, hopens _ hdialogOf⟩
  rw [onDialogPressed_eq hget hdialog, if_pos hreturns]
  refine ⟨mirrored_activate h.keyed h.ready h.listed hget hreturns ?_ ?_, rfl⟩
  · show (closeSidePanelIfNeeded _ narrow).manager = _
    rw [manager_closeSidePanelIfNeeded]
  · rw [← hid]
    cases narrow <;> rfl

/-! ### Deleting -/

theorem mirrored_onDeleteDialog (h : c.Mirrored) (hbutton : c.buttons.any (·.id == id) = true)
    (hopens : c.KeepsStep env (.deleteDialog id)) :
    (c.onDeleteDialog env id).1.Mirrored ∧ (c.onDeleteDialog env id).2 = true := by
  obtain ⟨ref, hget⟩ := h.getDialog hbutton
  by_cases hlen : c.manager.dialogs.length = 1
  · -- the last dialog is cleared
    obtain ⟨dialog, hdialog, hid⟩ := h.keyed.dialog hget
    rw [onDeleteDialog_last hget hdialog hid hlen, if_pos hbutton]
    have hset := @mirrored_setText _ id ref h hget .clear NEW_CHAT_NAME c.saves
      (fun d _ => d.changes_clear) fun _ => rfl
    exact ⟨⟨hset.keyed, hset.ready, hset.listed, hset.marked⟩, rfl⟩
  · obtain ⟨e, active, hlast, helect, hactive, heq⟩ :=
      @onDeleteDialog_many env _ _ _ h.keyed hget hlen
    have hkeyed : (c.manager.without id).Keyed := h.keyed.remove id
    obtain ⟨d, hd, -⟩ := hkeyed.dialog helect
    have hreturns : ((c.manager.without id).setActiveDialog env (some e.2)).2 = true :=
      (DialogManager.setActiveDialog_returns_iff _ _).mpr ⟨d, hd, hopens hlen e hlast d hd⟩
    -- the panel and the map without the dialog
    let without : Chat := { c.onDialogDeleted id with manager := c.manager.without id }
    have hready : without.manager.Ready := h.ready.congr rfl rfl
    have hlisted : without.Listed := by
      obtain ⟨f, hrecords, hnamed⟩ := h.listed
      exact ⟨_, hrecords.remove id, hnamed.without id⟩
    rw [heq, if_pos hreturns]
    refine ⟨?_, rfl⟩
    exact @mirrored_activate env without e.1 e.2 hkeyed hready hlisted helect hreturns _ rfl
      (by rw [← hactive]; rfl)

/-! ### Loading -/

/-- **The buttons of the entries**: every entry gets a button under its dialog's name, and
    the buttons of other ids stay. -/
theorem records_addButtons {entries : List (Int32 × Nat)} {f : Int32 → Option JString}
    (hrecords : Records DialogButton.id DialogButton.text c.buttons f)
    (hnodup : (entries.map Prod.fst).Nodup)
    (hentries : ∀ e ∈ entries, ∃ d, c.manager.objects[e.2]? = some d ∧ d.model.id = e.1 ∧
      d.model.name.isSome = true) :
    (c.addButtons entries).2 = true ∧ ∃ g,
      Records DialogButton.id DialogButton.text (c.addButtons entries).1.buttons g ∧
        (∀ id, id ∉ entries.map Prod.fst → g id = f id) ∧
        ∀ e ∈ entries, c.manager.names[e.2]? = (g e.1).map some := by
  -- entry by entry, from any buttons
  induction entries generalizing c f with
  | nil => exact ⟨rfl, f, hrecords, fun _ _ => rfl, fun e he => by cases he⟩
  | cons e rest ih =>
    obtain ⟨d, hd, hid, hsome⟩ := hentries e List.mem_cons_self
    obtain ⟨name, hname⟩ := Option.isSome_iff_exists.mp hsome
    rw [List.map_cons, List.nodup_cons] at hnodup
    let button : DialogButton := { id := d.model.id, text := name, active := false }
    have hstep : c.addButtons (e :: rest) =
        addButtons { c with buttons := c.buttons.filter (·.id ≠ button.id) ++ [button] } rest := by
      rw [addButtons, hd]
      simp only [onNewDialog, hname]
      rfl
    obtain ⟨hreturns, g, hg, hother, hnames⟩ :=
      @ih { c with buttons := c.buttons.filter (·.id ≠ button.id) ++ [button] } _
        (hrecords.put button) hnodup.2 fun e' he' => hentries e' (List.mem_cons_of_mem _ he')
    have hbutton : g e.1 = some name := by
      rw [hother e.1 hnodup.1, ← hid]
      exact Function.update_self ..
    rw [hstep]
    refine ⟨hreturns, g, hg, fun id hnot => ?_, fun e' he' => ?_⟩
    · rw [List.map_cons, List.mem_cons, not_or] at hnot
      rw [hother id hnot.2]
      exact Function.update_of_ne (by rw [show button.id = e.1 from hid]; exact hnot.1) ..
    · rcases List.mem_cons.mp he' with rfl | hrest
      · rw [hbutton, DialogManager.getElem?_names, hd, Option.map_some, hname]
        rfl
      · exact hnames e' hrest

/-- The panel lists the dialogs of the map once each of them has been given its button. -/
theorem listed_addButtons (hkeyed : c.manager.Keyed) {f : Int32 → Option JString}
    (hrecords : Records DialogButton.id DialogButton.text c.buttons f)
    (hf : ∀ id, id ∉ c.manager.dialogs.map Prod.fst → f id = none)
    (hnames : ∀ id, c.manager.nameOf id ≠ some none) :
    (c.addButtons (env.order c.manager.dialogs)).2 = true ∧
      (c.addButtons (env.order c.manager.dialogs)).1.Listed := by
  have hperm := env.order_perm c.manager.dialogs
  have hget : ∀ e ∈ env.order c.manager.dialogs, c.manager.getDialog e.1 = some e.2 := fun e he =>
    (Assoc.lookup_eq_some_iff hkeyed.nodup).mpr (hperm.mem_iff.mp he)
  have hkeys : ∀ id, id ∈ (env.order c.manager.dialogs).map Prod.fst ↔
      id ∈ c.manager.dialogs.map Prod.fst := fun id => (hperm.map Prod.fst).mem_iff
  obtain ⟨hreturns, g, hg, hother, hnamed⟩ := records_addButtons hrecords
    ((hperm.map Prod.fst).nodup_iff.mpr hkeyed.nodup) fun e he => by
      obtain ⟨d, hd, hid⟩ := hkeyed.dialog (hget e he)
      have hname := hnames e.1
      rw [DialogManager.nameOf, hget e he, Option.bind_some, DialogManager.getElem?_names, hd,
        Option.map_some, ne_eq, Option.some.injEq] at hname
      exact ⟨d, hd, hid, Option.isSome_iff_ne_none.mpr hname⟩
  refine ⟨hreturns, g, hg, fun id => ?_⟩
  rw [manager_addButtons, DialogManager.nameOf]
  cases hid : c.manager.getDialog id with
  | none =>
    have hnot : id ∉ c.manager.dialogs.map Prod.fst := Assoc.lookup_eq_none_iff.mp hid
    rw [hother id fun hmem => hnot ((hkeys id).mp hmem), hf id hnot]
    rfl
  | some ref =>
    exact hnamed (id, ref) (hperm.mem_iff.mpr (Assoc.mem_of_lookup hid))

/-- Opening a file without a dialog leaves the manager without an active one. -/
theorem mirrored_load_none (h : c.Mirrored) :
    (c.loadWith env ({ c.manager with activeDialog := none }, none)).1.Mirrored ∧
      (c.loadWith env ({ c.manager with activeDialog := none }, none)).2 = true := by
  let blank : Chat := { c with manager := { c.manager with activeDialog := none } }
  have hkeyed : blank.manager.Keyed := h.keyed.congr rfl rfl
  have hready : blank.manager.Ready := h.ready.deactivate env
  have hlisted : blank.Listed := by
    obtain ⟨f, hrecords, hnamed⟩ := h.listed
    exact ⟨f, hrecords, hnamed.congr rfl rfl⟩
  have hcreates : blank.creates = true := creates_of_active_none rfl
  refine ⟨?_, hready.newDialogReturns⟩
  show (newDialog env blank).Mirrored
  rw [newDialog_eq, if_pos hcreates]
  exact mirrored_addDialog hkeyed hready hlisted

/-- Showing an accepted file: its dialogs get their buttons, and the active one is marked. -/
theorem mirrored_load_some {manager : DialogManager} {fileContent : FileContent}
    {f : Int32 → Option JString}
    (hrecords : Records DialogButton.id DialogButton.text c.buttons f)
    (hkeyed : manager.Keyed) (hready : manager.Ready)
    (hf : ∀ id, id ∉ manager.dialogs.map Prod.fst → f id = none)
    (hnames : ∀ id, manager.nameOf id ≠ some none)
    (hget : manager.getDialog id = some ref) (hactive : manager.activeDialog = some ref)
    (hui : fileContent.uiState.isSome = true) :
    (c.loadWith env (manager, some fileContent)).1.Mirrored ∧
      (c.loadWith env (manager, some fileContent)).2 = true := by
  obtain ⟨isOpen, hopen⟩ := Option.isSome_iff_exists.mp hui
  obtain ⟨d, hd, hid⟩ := hkeyed.dialog hget
  obtain ⟨hreturns, hlisted⟩ :=
    @listed_addButtons env { c with manager } hkeyed f hrecords hf hnames
  have hmanager := manager_addButtons { c with manager } (env.order manager.dialogs)
  rcases hadd : addButtons { c with manager } (env.order manager.dialogs) with ⟨c', returns⟩
  rw [hadd] at hreturns hlisted hmanager
  dsimp only at hreturns hlisted hmanager
  have hload : c.loadWith env (manager, some fileContent) =
      (save { c'.onActiveDialogChanged ref d with sidePanelOpen := isOpen }, true) := by
    simp only [loadWith, hadd, hreturns, hactive, hd, hopen]
  rw [hload]
  obtain ⟨g, hg, hnamed⟩ := hlisted
  refine ⟨⟨hmanager ▸ hkeyed, hmanager ▸ hready, ⟨g, ?_, hnamed⟩, ?_⟩, rfl⟩
  · exact hg.map (fun _ => rfl) fun _ => rfl
  · refine @marked_of_buttons _ id ref c'.buttons (hmanager ▸ hkeyed) ?_ (hmanager ▸ hget)
      (hmanager ▸ hactive)
    rw [← hid]
    rfl

/-- **Opening** a file that keeps the panel in step. -/
theorem mirrored_load {file : Bytes} (h : c.Mirrored) (hfile : c.KeepsStepOpening env file) :
    (c.exec env (.load file)).1.Mirrored ∧ (c.exec env (.load file)).2 = true := by
  rw [exec_load]
  rcases DialogManager.load_cases env c.manager file with
    hload | ⟨fileContent, models, hblank, hread, hload⟩
  · rw [hload]
    exact ⟨mirrored_newDialog h, h.ready.newDialogReturns⟩
  · rw [hload]
    have hcond := hfile hblank fileContent models hread
    have hentry : c.manager.entryOf models = (c.manager.filled models).dialogOf :=
      funext fun id => (DialogManager.dialogOf_filled h.keyed models id).symm
    rw [hentry] at hcond
    have hkeyed : (c.manager.filled models).Keyed := h.keyed.filled models
    cases hget : fileContent.activeDialogId.bind (c.manager.filled models).getDialog with
    | none =>
      have hnone : fileContent.activeDialogId.bind (c.manager.filled models).dialogOf = none := by
        cases hid : fileContent.activeDialogId with
        | none => rfl
        | some id =>
          rw [hid, Option.bind_some] at hget
          rw [Option.bind_some, DialogManager.dialogOf, hget]
          rfl
      rw [hnone] at hcond
      rw [show c.manager.filled models = c.manager from foldl_loadDialog_of_null _ hcond]
      exact mirrored_load_none h
    | some ref =>
      obtain ⟨id, hactiveId, hid⟩ := Option.bind_eq_some_iff.mp hget
      obtain ⟨d, hd, hidd⟩ := hkeyed.dialog hid
      have hdialogOf : (c.manager.filled models).dialogOf id = some d := by
        rw [DialogManager.dialogOf, hid, Option.bind_some, hd]
      rw [hactiveId, Option.bind_some, hdialogOf] at hcond
      obtain ⟨hopens, hui, hnames⟩ := hcond
      have hreturns : ((c.manager.filled models).setActiveDialog env (some ref)).2 = true :=
        (DialogManager.setActiveDialog_returns_iff _ _).mpr ⟨d, hd, hopens⟩
      obtain ⟨hdialogs, -, hactive, -, hallNames⟩ :=
        @DialogManager.setActiveDialog_frame env (c.manager.filled models) (some ref)
      obtain ⟨f, hrecords, hnamed⟩ := h.listed
      rw [hreturns, if_pos rfl]
      refine @mirrored_load_some env c id ref _ fileContent f hrecords (hkeyed.setActiveDialog _)
        ((h.ready.filled models).setActiveDialog hreturns) ?_ ?_ ?_ hactive hui
      · -- the dialogs that the chat had are still in the map
        intro id' hnot
        rw [hdialogs, DialogManager.mem_keys_iff_dialogOf hkeyed,
          DialogManager.dialogOf_filled h.keyed] at hnot
        rw [← Option.not_isSome_iff_eq_none, ← hnamed.mem_keys_iff h.keyed,
          DialogManager.mem_keys_iff_dialogOf h.keyed]
        intro hsome
        apply hnot
        rw [Option.isSome_or, hsome, Bool.or_true]
      · intro id' hnone
        rw [DialogManager.nameOf_congr hdialogs hallNames, DialogManager.nameOf_eq_dialogOf,
          Option.map_eq_some_iff] at hnone
        obtain ⟨d', hd', hname⟩ := hnone
        have hsome := hnames id' d' hd'
        rw [hname] at hsome
        cases hsome
      · rw [DialogManager.getDialog, hdialogs]
        exact hid

/-! ### Every operation -/

/-- Whatever a dialog does on its own, its id and its name stay. -/
theorem mirrored_used (h : c.Mirrored) {dialog : Dialog}
    (henabled : (c.manager.objects[ref]?).any (fun d => d.MayBecome dialog) = true) :
    (save { c with manager := c.manager.modify ref fun _ => dialog }).Mirrored := by
  have hmay : ∀ d, c.manager.objects[ref]? = some d → d.MayBecome dialog := by
    intro d hd
    rw [hd] at henabled
    exact of_decide_eq_true henabled
  obtain ⟨f, hrecords, hnamed⟩ := h.listed
  refine ⟨h.keyed.modify fun d hd => (hmay d hd).1,
    h.ready.modify fun d hd => Dialog.changes_of_mayBecome (hmay d hd), ?_, h.marked⟩
  exact ⟨f, hrecords, hnamed.modify_same fun d hd => (hmay d hd).2.1⟩

/-- **One operation** that keeps the panel in step returns, and leaves the panel so. -/
theorem mirrored_exec {e : ChatEvent} (h : c.Mirrored) (henabled : c.enabled e)
    (hstep : c.KeepsStep env e) : (c.exec env e).1.Mirrored ∧ (c.exec env e).2 = true := by
  cases e with
  | load file => exact mirrored_load h hstep
  | newDialogPressed narrow => exact mirrored_onNewDialogPressed h narrow
  | doRename id newName => exact mirrored_doRename h henabled newName
  | deleteDialog id => exact mirrored_onDeleteDialog h henabled hstep
  | dialogPressed id narrow => exact mirrored_onDialogPressed h henabled hstep narrow
  | setOpen isOpen => exact ⟨⟨h.keyed, h.ready, h.listed, h.marked⟩, rfl⟩
  | proposedName ref name =>
    obtain ⟨id, hget⟩ := hstep
    exact mirrored_onProposedName h hget name
  | used ref dialog => exact ⟨mirrored_used h henabled, rfl⟩

/-- A chat at the start of its constructor has no dialogs and no buttons. -/
theorem mirrored_new : Chat.new.Mirrored where
  keyed := keyed_new
  ready := ⟨fun ref d hd => (by cases hd), fun ref hactive => (by cases hactive)⟩
  listed := ⟨_, Records.nil, fun _ => rfl⟩
  marked := fun b hb => by cases hb

end Chat

/-! ### Runs -/

/-- **The side panel mirrors the dialogs** in every state of a run whose events keep it in
    step, and none of them throws. -/
theorem panelMirrors_of_run (env : Env) (file : Bytes) (events : List ChatEvent) (s : ChatRun)
    (hmeets : (chatLts env).Meets (fun s e => s.chat.KeepsStep env e) (chatLts env).init
      (.load file :: events))
    (hrun : (chatLts env).run (chatLts env).init (.load file :: events) = some s) :
    s.threw = false ∧ s.chat.PanelMirrors := by
  have hinv : ∀ (s : ChatRun) (e : ChatEvent) (s' : ChatRun),
      s.threw = false ∧ s.chat.Mirrored → s.chat.KeepsStep env e →
        (chatLts env).step s e = some s' → s'.threw = false ∧ s'.chat.Mirrored := by
    rintro s e s' ⟨hthrew, hmirrored⟩ hcond hstep
    obtain ⟨henabled, hchat, hthrew'⟩ := chatRun_step hstep
    obtain ⟨hmirrored', hreturns⟩ := Chat.mirrored_exec hmirrored henabled hcond
    rw [hthrew', hchat, hthrew, hreturns]
    exact ⟨rfl, hmirrored'⟩
  have hinit : (chatLts env).init.threw = false ∧ (chatLts env).init.chat.Mirrored :=
    ⟨rfl, Chat.mirrored_new⟩
  obtain ⟨hthrew, hmirrored⟩ := @Lts.invariant_of_meets _ _ _ _
    (fun s : ChatRun => s.threw = false ∧ s.chat.Mirrored) hinv _ _ _ hinit hmeets hrun
  obtain ⟨-, hactive⟩ := keyed_of_run hrun
  exact ⟨hthrew, hmirrored.panelMirrors hactive⟩

/-- A blank file, a message, and a new dialog. -/
theorem panelMirrors_of_two_dialogs :
    ∃ s, (chatLts twoFilesEnv).run (chatLts twoFilesEnv).init (.load [] :: askAndCreate) =
        some s ∧ s.threw = false ∧ s.chat.PanelMirrors := by
  have hopen := @step_load_blank twoFilesEnv [] Utf8.isBlank_decode_nil
  have hrest : ((chatLts twoFilesEnv).run ⟨newChat, false⟩ askAndCreate).isSome = true := by
    decide
  obtain ⟨s, hs⟩ := Option.isSome_iff_exists.mp hrest
  have hrun := Lts.run_cons_eq_some.mpr ⟨_, hopen, hs⟩
  refine ⟨s, hrun, panelMirrors_of_run twoFilesEnv [] askAndCreate s ?_ hrun⟩
  refine Lts.meets_cons hopen (fun hnot => ?_) ⟨trivial, fun _ _ => ⟨trivial, fun _ _ => trivial⟩⟩
  rw [Utf8.isBlank_decode_nil] at hnot
  cases hnot

/-- **A proposal for a deleted dialog.**  The name arrives after the dialog has lost its
    button: the side panel throws. -/
theorem proposal_after_delete :
    ∃ s, (chatLts twoFilesEnv).run (chatLts twoFilesEnv).init
        (.load [] :: askAndCreate ++
          [.deleteDialog 0, .proposedName 0 (.ofString "Reading files in Python")]) = some s ∧
      s.threw = true := by
  have hrest : ((chatLts twoFilesEnv).run ⟨newChat, false⟩ (askAndCreate ++
      [.deleteDialog 0, .proposedName 0 (.ofString "Reading files in Python")])).any
        (·.threw) = true := by
    decide
  obtain ⟨s, hs⟩ := Option.isSome_iff_exists.mp (Option.isSome_of_any hrest)
  rw [hs] at hrest
  exact ⟨s, Lts.run_cons_eq_some.mpr ⟨_, step_load_blank Utf8.isBlank_decode_nil, hs⟩, hrest⟩

end Reloadium.Ai
