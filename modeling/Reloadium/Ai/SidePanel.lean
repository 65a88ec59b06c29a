import Reloadium.Lib.Records
import Reloadium.Ai.DialogStates

namespace Reloadium.Ai

open Reloadium.Lib

/-!
# Ai — the buttons of the side panel

The map of the dialogs and the buttons of the side panel are two stores of one partial
function, from the ids to the names.

* `DialogManager.Named` — the map holds dialogs of these names;
* `Chat.Listed` — the panel's buttons represent the same function;
* `Chat.Marked` — the active buttons are those of the active dialog;
* `Chat.Mirrored` — all of these, and `Chat.panelMirrors` what they say of the panel.
-/

namespace DialogManager

variable {env : Env} {m m' : DialogManager} {id : Int32} {ref : Nat} {text : JString}
  {f : Int32 → Option JString}

/-- The name of the dialog of an id. -/
def nameOf (m : DialogManager) (id : Int32) : Option (Option JString) :=
  (m.getDialog id).bind (m.names[·]?)

/-- The dialogs of the map have the names `f`; none of them is null. -/
def Named (m : DialogManager) (f : Int32 → Option JString) : Prop :=
  ∀ id, m.nameOf id = (f id).map some

theorem nameOf_eq_dialogOf (m : DialogManager) (id : Int32) :
    m.nameOf id = (m.dialogOf id).map fun d => d.model.name := by
  rw [nameOf, dialogOf]
  cases m.getDialog id with
  | none => rfl
  | some ref => exact getElem?_names

theorem nameOf_congr (hdialogs : m'.dialogs = m.dialogs) (hnames : m'.names = m.names)
    (id : Int32) : m'.nameOf id = m.nameOf id := by
  rw [nameOf, getDialog, hdialogs, hnames]
  rfl

theorem Named.congr (h : m.Named f) (hdialogs : m'.dialogs = m.dialogs)
    (hnames : m'.names = m.names) : m'.Named f := by
  intro id
  rw [nameOf_congr hdialogs hnames]
  exact h id

/-- The ids that have a name are the keys. -/
theorem Named.mem_keys_iff (h : m.Named f) (hkeyed : m.Keyed) :
    id ∈ m.dialogs.map Prod.fst ↔ (f id).isSome = true := by
  have hname := congrArg Option.isSome (h id)
  rw [nameOf_eq_dialogOf, Option.isSome_map, Option.isSome_map] at hname
  rw [← hname, mem_keys_iff_dialogOf hkeyed]

theorem Named.putDialog (h : m.Named f) (hkeyed : m.Keyed) {dialog : Dialog}
    (hname : dialog.model.name = some text) :
    (m.putDialog id dialog).Named (Function.update f id (some text)) := by
  have hnames : (m.putDialog id dialog).names = m.names ++ [dialog.model.name] :=
    List.map_append
  have hlen : m.objects.length = m.names.length := (List.length_map _).symm
  intro id'
  rw [nameOf, getDialog_putDialog, hnames, Function.update_apply]
  split
  · rw [Option.bind_some, hlen, List.getElem?_concat_length, hname]
    rfl
  · rw [← h id', nameOf]
    -- the dialogs that were there keep their numbers
    cases hget : m.getDialog id' with
    | none => rfl
    | some ref =>
      obtain ⟨d, hd, -⟩ := hkeyed.dialog hget
      have hlt := (List.getElem?_eq_some_iff.mp hd).1
      rw [hlen] at hlt
      rw [Option.bind_some, Option.bind_some, List.getElem?_append_left hlt]

theorem names_modify (m : DialogManager) (ref : Nat) (g : Dialog → Dialog) (k : Nat) :
    (m.modify ref g).names[k]? =
      (m.objects[k]?).map fun d => if ref = k then (g d).model.name else d.model.name := by
  rw [getElem?_names]
  show ((m.objects.modify ref g)[k]?).map _ = _
  rw [List.getElem?_modify]
  cases m.objects[k]? with
  | none => rfl
  | some d =>
    by_cases hk : ref = k
    · simp [hk]
    · simp [hk]

/-- Assigning to the name of a dialog of the map. -/
theorem Named.modify (h : m.Named f) (hkeyed : m.Keyed) (hget : m.getDialog id = some ref)
    {g : Dialog → Dialog} (hname : ∀ d, (g d).model.name = some text) :
    (m.modify ref g).Named (Function.update f id (some text)) := by
  intro id'
  rw [nameOf, show (m.modify ref g).getDialog id' = m.getDialog id' from rfl,
    Function.update_apply]
  split
  · next heq =>
    subst heq
    obtain ⟨d, hd, -⟩ := hkeyed.dialog hget
    rw [hget, Option.bind_some, names_modify, hd, Option.map_some, if_pos rfl, hname]
    rfl
  · next hne =>
    rw [← h id', nameOf]
    cases hget' : m.getDialog id' with
    | none => rfl
    | some ref' =>
      -- another key has another dialog
      have href : ref ≠ ref' := fun heq => hne (hkeyed.inj hget' (heq ▸ hget))
      rw [Option.bind_some, Option.bind_some, names_modify, getElem?_names]
      simp only [href, if_false]

theorem Named.modify_same (h : m.Named f) {g : Dialog → Dialog}
    (hname : ∀ d, m.objects[ref]? = some d → (g d).model.name = d.model.name) :
    (m.modify ref g).Named f := by
  refine h.congr rfl (List.ext_getElem? fun k => ?_)
  rw [names_modify, getElem?_names]
  cases hk : m.objects[k]? with
  | none => rfl
  | some d =>
    by_cases heq : ref = k
    · subst heq
      simp [hname d hk]
    · simp [heq]

theorem Named.without (h : m.Named f) (id : Int32) :
    (m.without id).Named (Function.update f id none) := by
  intro id'
  have hget : (m.without id).getDialog id' = if id' = id then none else m.getDialog id' :=
    Assoc.lookup_remove ..
  rw [nameOf, hget, Function.update_apply]
  split
  · rfl
  · exact h id'

theorem Named.setActiveDialog (h : m.Named f) (dialog : Option Nat) :
    (m.setActiveDialog env dialog).1.Named f := by
  obtain ⟨hdialogs, -, -, -, hnames⟩ := @setActiveDialog_frame env m dialog
  exact h.congr hdialogs hnames

end DialogManager

/-! ### The panel -/

namespace Chat

variable {env : Env} {c c' : Chat} {id : Int32} {ref : Nat} {text : JString}

/-- The buttons list the dialogs of the map, under their names. -/
def Listed (c : Chat) : Prop :=
  ∃ f, Records DialogButton.id DialogButton.text c.buttons f ∧ c.manager.Named f

/-- A button is active when its dialog is. -/
def Marked (c : Chat) : Prop :=
  ∀ b ∈ c.buttons, (b.active = true ↔ c.manager.activeDialog = c.manager.getDialog b.id)

/-- The panel is in step with the manager. -/
structure Mirrored (c : Chat) : Prop where
  keyed : c.manager.Keyed
  ready : c.manager.Ready
  listed : c.Listed
  marked : c.Marked

/-- **The side panel mirrors the dialogs.** -/
structure PanelMirrors (c : Chat) : Prop where
  ids : (c.buttons.map (·.id)).Perm (c.manager.dialogs.map Prod.fst)
  text : ∀ b ∈ c.buttons, ∃ d, c.manager.dialogOf b.id = some d ∧ d.model.name = some b.text
  active : ∃ b ref, c.buttons.filter (·.active) = [b] ∧ c.manager.getDialog b.id = some ref ∧
    c.manager.activeDialog = some ref

/-- The button of an id is there when its dialog is in the map. -/
theorem Mirrored.mem_ids_iff (h : c.Mirrored) :
    id ∈ c.buttons.map (·.id) ↔ id ∈ c.manager.dialogs.map Prod.fst := by
  obtain ⟨f, hrecords, hnamed⟩ := h.listed
  rw [hrecords.mem_keys_iff, hnamed.mem_keys_iff h.keyed]

theorem any_button_iff : c.buttons.any (·.id == id) = true ↔ id ∈ c.buttons.map (·.id) := by
  simp only [List.any_eq_true, beq_iff_eq, List.mem_map]

/-- The dialog of a button. -/
theorem Mirrored.getDialog (h : c.Mirrored) (hbutton : c.buttons.any (·.id == id) = true) :
    ∃ ref, c.manager.getDialog id = some ref := by
  have hkey := h.mem_ids_iff.mp (any_button_iff.mp hbutton)
  exact Option.isSome_iff_exists.mp (DialogManager.mem_keys_iff.mp hkey)

theorem Mirrored.panelMirrors (h : c.Mirrored) (hactive : c.manager.ActiveIn) :
    c.PanelMirrors := by
  obtain ⟨f, hrecords, hnamed⟩ := h.listed
  refine ⟨?_, fun b hb => ?_, ?_⟩
  · refine (List.perm_ext_iff_of_nodup hrecords.nodup h.keyed.nodup).mpr fun id => ?_
    exact h.mem_ids_iff
  · have hname := hnamed b.id
    rw [hrecords.of_mem hb, DialogManager.nameOf_eq_dialogOf] at hname
    exact Option.map_eq_some_iff.mp hname
  · obtain ⟨id, ref, hget, href⟩ := hactive
    have hkey : id ∈ c.manager.dialogs.map Prod.fst :=
      DialogManager.mem_keys_iff.mpr (by rw [hget]; rfl)
    obtain ⟨b, hb, rfl⟩ := List.mem_map.mp (h.mem_ids_iff.mpr hkey)
    refine ⟨b, ref, ?_, hget, href⟩
    -- two active buttons have the same dialog, hence the same id
    have hnodup : c.buttons.Nodup := List.Nodup.of_map _ hrecords.nodup
    refine List.perm_singleton.mp
      ((List.perm_ext_iff_of_nodup (hnodup.filter _) (List.nodup_singleton b)).mpr fun b' => ?_)
    rw [List.mem_filter, List.mem_singleton]
    apply Iff.intro
    · rintro ⟨hb', hact⟩
      have hget' := (h.marked b' hb').mp hact
      rw [href] at hget'
      exact List.inj_on_of_nodup_map hrecords.nodup hb' hb (h.keyed.inj hget'.symm hget)
    · rintro rfl
      exact ⟨hb, (h.marked b' hb).mpr (by rw [hget, href])⟩

/-! ### Marking the active dialog -/

/-- The buttons after `onActiveDialogChanged`. -/
theorem marked_of_buttons {buttons : List DialogButton} (hkeyed : c.manager.Keyed)
    (hbuttons : c.buttons = buttons.map fun b => { b with active := b.id = id })
    (hget : c.manager.getDialog id = some ref) (hactive : c.manager.activeDialog = some ref) :
    c.Marked := by
  intro b hb
  rw [hbuttons] at hb
  obtain ⟨b', -, rfl⟩ := List.mem_map.mp hb
  show decide (b'.id = id) = true ↔ c.manager.activeDialog = c.manager.getDialog b'.id
  rw [decide_eq_true_iff, hactive]
  apply Iff.intro
  · intro heq
    rw [heq, hget]
  · exact fun hget' => hkeyed.inj hget'.symm hget

/-- Where neither the ids of the buttons nor the dialogs change, the marks stay right. -/
theorem Marked.congr (h : c.Marked) (hdialogs : c'.manager.dialogs = c.manager.dialogs)
    (hactive : c'.manager.activeDialog = c.manager.activeDialog)
    (hbuttons : ∀ b ∈ c'.buttons, ∃ b' ∈ c.buttons, b'.id = b.id ∧ b'.active = b.active) :
    c'.Marked := by
  intro b hb
  obtain ⟨b', hb', hid, hact⟩ := hbuttons b hb
  have hiff := h b' hb'
  rw [hid, hact] at hiff
  rw [hactive, DialogManager.getDialog, hdialogs]
  exact hiff

/-! ### Texts -/

theorem records_setText {f : Int32 → Option JString}
    (h : Records DialogButton.id DialogButton.text c.buttons f) (hid : (f id).isSome = true)
    (text : JString) :
    Records DialogButton.id DialogButton.text (c.setText id text).buttons
      (Function.update f id (some text)) := by
  refine h.set hid (fun b => ?_) fun b => ?_ <;> split <;> rfl

end Chat

end Reloadium.Ai
