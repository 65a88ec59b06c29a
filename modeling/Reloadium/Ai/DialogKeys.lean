import Mathlib.Data.List.Induction
import Reloadium.Lib.Assoc
import Reloadium.Ai.LoadedDialog

namespace Reloadium.Ai

open Reloadium.Lib

/-!
# Ai — the map of the dialogs, operation by operation

What the operations of the dialog manager do to its map, to the pointer to the active
dialog, and to the ids and names of the dialogs.

* `DialogManager.Keyed` — the keys are distinct, and each is the id of its dialog;
* `DialogManager.ActiveIn` — the active dialog is a value of the map;
* `setActiveDialog_frame`, `setActiveDialog_returns_iff` — activating a dialog;
* `load_cases`, `Keyed.load` — loading a file, also when it is rejected half-way.
-/

namespace DialogManager

variable {env : Env} {m m' : DialogManager} {id : Int32} {ref : Nat} {file : Bytes}

/-- The ids of all dialogs created. -/
def ids (m : DialogManager) : List Int32 := m.objects.map (·.model.id)

/-- The names of all dialogs created. -/
def names (m : DialogManager) : List (Option JString) := m.objects.map (·.model.name)

/-- The keys of the map are distinct, and each is the id of its dialog. -/
structure Keyed (m : DialogManager) : Prop where
  nodup : (m.dialogs.map Prod.fst).Nodup
  key : ∀ id ref, m.getDialog id = some ref → m.ids[ref]? = some id

/-- The active dialog is a value of the map. -/
def ActiveIn (m : DialogManager) : Prop :=
  ∃ id ref, m.getDialog id = some ref ∧ m.activeDialog = some ref

theorem getElem?_ids : m.ids[ref]? = (m.objects[ref]?).map fun d => d.model.id :=
  List.getElem?_map

theorem getElem?_names : m.names[ref]? = (m.objects[ref]?).map fun d => d.model.name :=
  List.getElem?_map

/-- The dialog of a key. -/
theorem Keyed.dialog (h : m.Keyed) (hget : m.getDialog id = some ref) :
    ∃ d, m.objects[ref]? = some d ∧ d.model.id = id := by
  have hkey := h.key id ref hget
  rw [getElem?_ids] at hkey
  exact Option.map_eq_some_iff.mp hkey

/-- A dialog has one key. -/
theorem Keyed.inj (h : m.Keyed) {id' : Int32} (hget : m.getDialog id = some ref)
    (hget' : m.getDialog id' = some ref) : id = id' :=
  Option.some.inj ((h.key id ref hget).symm.trans (h.key id' ref hget'))

theorem Keyed.congr (h : m.Keyed) (hdialogs : m'.dialogs = m.dialogs) (hids : m'.ids = m.ids) :
    m'.Keyed := by
  refine ⟨by rw [hdialogs]; exact h.nodup, fun id ref hget => ?_⟩
  rw [hids]
  rw [getDialog, hdialogs] at hget
  exact h.key id ref hget

theorem mem_keys_iff : id ∈ m.dialogs.map Prod.fst ↔ (m.getDialog id).isSome = true := by
  rw [← not_iff_not, ← Assoc.lookup_eq_none_iff, getDialog, Option.not_isSome_iff_eq_none]

/-! ### Assignments to a dialog -/

theorem ids_modify {f : Dialog → Dialog}
    (hf : ∀ d, m.objects[ref]? = some d → (f d).model.id = d.model.id) :
    (m.modify ref f).ids = m.ids := by
  refine List.ext_getElem? fun k => ?_
  rw [getElem?_ids, getElem?_ids]
  show ((m.objects.modify ref f)[k]?).map _ = _
  rw [List.getElem?_modify]
  cases hk : m.objects[k]? with
  | none => rfl
  | some d =>
    by_cases heq : ref = k
    · subst heq
      simp [hf d hk]
    · simp [heq]

theorem Keyed.modify (h : m.Keyed) {f : Dialog → Dialog}
    (hf : ∀ d, m.objects[ref]? = some d → (f d).model.id = d.model.id) :
    (m.modify ref f).Keyed :=
  h.congr rfl (ids_modify hf)

/-! ### The active dialog -/

/-- What a dialog has in common with the one in its place is the same for all dialogs. -/
theorem map_set_of_eq {α : Type} {objects : List Dialog} {d d' : Dialog} {f : Dialog → α}
    (hget : objects[ref]? = some d) (h : f d' = f d) :
    (objects.set ref d').map f = objects.map f := by
  refine List.ext_getElem? fun k => ?_
  rw [List.getElem?_map, List.getElem?_map, List.getElem?_set]
  split
  · next heq =>
    subst heq
    rw [if_pos (List.getElem?_eq_some_iff.mp hget).1, hget, Option.map_some, Option.map_some, h]
  · rfl

/-- Activating a dialog changes neither the map nor an id or a name. -/
theorem setActiveDialog_frame (m : DialogManager) (dialog : Option Nat) :
    (m.setActiveDialog env dialog).1.dialogs = m.dialogs ∧
      (m.setActiveDialog env dialog).1.idCounter = m.idCounter ∧
      (m.setActiveDialog env dialog).1.activeDialog = dialog ∧
      (m.setActiveDialog env dialog).1.ids = m.ids ∧
      (m.setActiveDialog env dialog).1.names = m.names := by
  unfold setActiveDialog
  cases dialog with
  | none => exact ⟨rfl, rfl, rfl, rfl, rfl⟩
  | some ref =>
    dsimp only
    cases hget : m.objects[ref]? with
    | none => exact ⟨rfl, rfl, rfl, rfl, rfl⟩
    | some d =>
      dsimp only
      split
      · exact ⟨rfl, rfl, rfl, rfl, rfl⟩
      · have hmodel := @loadMessages_model env.toToolkit d
        refine ⟨rfl, rfl, rfl, map_set_of_eq hget ?_, map_set_of_eq hget ?_⟩ <;>
          simp only [hmodel, Dialog.rebuildModel]

/-- **Activating a dialog returns** when its messages are loaded or can be loaded. -/
theorem setActiveDialog_returns_iff (m : DialogManager) (ref : Nat) :
    (m.setActiveDialog env (some ref)).2 = true ↔
      ∃ d, m.objects[ref]? = some d ∧ (d.loaded = true ∨ d.Loadable env.toToolkit) := by
  unfold setActiveDialog
  dsimp only
  cases m.objects[ref]? with
  | none => simp
  | some d =>
    dsimp only
    simp only [← loadMessages_returns_iff, Option.some.injEq, exists_eq_left']
    split
    · next hloaded => simp [hloaded]
    · next hloaded => simp [hloaded]

theorem Keyed.setActiveDialog (h : m.Keyed) (dialog : Option Nat) :
    (m.setActiveDialog env dialog).1.Keyed := by
  obtain ⟨hdialogs, -, -, hids, -⟩ := @setActiveDialog_frame env m dialog
  exact h.congr hdialogs hids

/-- A value of the map that is activated. -/
theorem activeIn_setActiveDialog (hget : m.getDialog id = some ref) :
    (m.setActiveDialog env (some ref)).1.ActiveIn := by
  obtain ⟨hdialogs, -, hactive, -, -⟩ := @setActiveDialog_frame env m (some ref)
  refine ⟨id, ref, ?_, hactive⟩
  rw [getDialog, hdialogs]
  exact hget

/-! ### A new entry -/

theorem ids_putDialog (m : DialogManager) (id : Int32) (dialog : Dialog) :
    (m.putDialog id dialog).ids = m.ids ++ [dialog.model.id] := List.map_append

theorem getDialog_putDialog (m : DialogManager) (id id' : Int32) (dialog : Dialog) :
    (m.putDialog id dialog).getDialog id' =
      if id' = id then some m.objects.length else m.getDialog id' :=
  Assoc.lookup_put ..

theorem Keyed.putDialog (h : m.Keyed) {dialog : Dialog} (hid : dialog.model.id = id) :
    (m.putDialog id dialog).Keyed := by
  refine ⟨Assoc.nodup_put h.nodup, fun id' ref hget => ?_⟩
  rw [getDialog_putDialog] at hget
  rw [ids_putDialog]
  split at hget
  · next heq =>
    cases hget
    rw [show m.objects.length = m.ids.length from (List.length_map _).symm,
      List.getElem?_concat_length, hid, heq]
  · have hkey := h.key id' ref hget
    have hlt : ref < m.ids.length := (List.getElem?_eq_some_iff.mp hkey).1
    rw [List.getElem?_append_left hlt]
    exact hkey

/-! ### Loading -/

theorem loadDialog_some (m : DialogManager) (d : DialogModel) :
    m.loadDialog (some d) =
      { m.putDialog d.id (.new d.id (some d)) with
        idCounter := if d.id ≤ m.idCounter then m.idCounter else d.id } := by
  unfold loadDialog
  dsimp only
  have hcounter : (m.putDialog d.id (.new d.id (some d))).idCounter = m.idCounter := rfl
  rw [hcounter]
  split
  · rw [← hcounter]
  · rfl

theorem Keyed.loadDialog (h : m.Keyed) (d : Option DialogModel) : (m.loadDialog d).Keyed := by
  cases d with
  | none => exact h
  | some d =>
    rw [loadDialog_some]
    have hput : (m.putDialog d.id (.new d.id (some d))).Keyed := h.putDialog rfl
    exact hput.congr rfl rfl

/-- The manager after the loop of `load`. -/
def filled (m : DialogManager) (models : List (Option DialogModel)) : DialogManager :=
  models.foldl loadDialog m

theorem Keyed.filled (h : m.Keyed) (models : List (Option DialogModel)) :
    (m.filled models).Keyed := by
  induction models generalizing m with
  | nil => exact h
  | cons d rest ih => exact ih (h.loadDialog d)

/-- The last entry of an id. -/
def lastModel (id : Int32) (models : List (Option DialogModel)) : Option DialogModel :=
  models.reverse.findSome? fun d => d.filter (·.id = id)

theorem dialogOf_loadDialog (h : m.Keyed) (d : Option DialogModel) (id : Int32) :
    (m.loadDialog d).dialogOf id =
      ((d.filter (·.id = id)).map fun d => Dialog.new id (some d)).or (m.dialogOf id) := by
  cases d with
  | none => rfl
  | some d =>
    rw [loadDialog_some]
    show ((m.putDialog d.id (.new d.id (some d))).getDialog id).bind
      ((m.objects ++ [.new d.id (some d)])[·]?) = _
    rw [getDialog_putDialog]
    by_cases hid : d.id = id
    · subst hid
      rw [if_pos rfl, Option.bind_some, List.getElem?_concat_length, Option.filter_some,
        if_pos (decide_eq_true rfl)]
      rfl
    · rw [if_neg (Ne.symm hid)]
      simp only [Option.filter_some, hid, decide_false, Bool.false_eq_true, if_false,
        Option.map_none, Option.none_or]
      -- the dialogs that were there keep their numbers
      rw [dialogOf]
      cases hget : m.getDialog id with
      | none => rfl
      | some ref =>
        obtain ⟨d', hd', -⟩ := h.dialog hget
        have hlt : ref < m.objects.length := (List.getElem?_eq_some_iff.mp hd').1
        rw [Option.bind_some, Option.bind_some, List.getElem?_append_left hlt]

/-- The dialogs after the loop of `load`: the last entry of an id, or the dialog it had. -/
theorem dialogOf_filled (h : m.Keyed) (models : List (Option DialogModel)) (id : Int32) :
    (m.filled models).dialogOf id =
      ((lastModel id models).map fun d => Dialog.new id (some d)).or (m.dialogOf id) := by
  induction models using List.reverseRecOn with
  | nil => rfl
  | append_singleton models d ih =>
    have hfilled : m.filled (models ++ [d]) = (m.filled models).loadDialog d := by
      rw [filled, List.foldl_append]
      rfl
    have hlast : lastModel id (models ++ [d]) =
        (d.filter (·.id = id)).or (lastModel id models) := by
      rw [lastModel, List.reverse_append]
      show (d :: models.reverse).findSome? _ = _
      rw [List.findSome?_cons]
      cases d.filter (·.id = id) <;> rfl
    rw [hfilled, dialogOf_loadDialog (h.filled models), ih, hlast]
    cases d.filter (·.id = id) <;> rfl

/-- A file that is read. -/
theorem load_of_read {fileContent : FileContent} {models : List (Option DialogModel)}
    (hblank : (Utf8.decode file).isBlank = false)
    (hread : readContent env (Utf8.decode file) = some (fileContent, models)) :
    m.load env file =
      (((m.filled models).setActiveDialog env
          (fileContent.activeDialogId.bind (m.filled models).getDialog)).1,
        if ((m.filled models).setActiveDialog env
          (fileContent.activeDialogId.bind (m.filled models).getDialog)).2
        then some fileContent else none) := by
  simp only [load, hblank, Bool.false_eq_true, if_false, hread]
  rw [show models.foldl loadDialog m = m.filled models from rfl]
  rcases (m.filled models).setActiveDialog env
    (fileContent.activeDialogId.bind (m.filled models).getDialog) with ⟨m₁, _ | _⟩ <;> rfl

/-- A file that is blank or not read. -/
theorem load_of_not_readable
    (h : (Utf8.decode file).isBlank = true ∨ readContent env (Utf8.decode file) = none) :
    m.load env file = (m, none) := by
  rcases h with h | h <;> simp [load, h]

/-- **Loading**: the file is blank or not read; or its dialogs are put into the map, and then
    one of them is activated. -/
theorem load_cases (env : Env) (m : DialogManager) (file : Bytes) :
    m.load env file = (m, none) ∨
      ∃ fileContent models, (Utf8.decode file).isBlank = false ∧
        readContent env (Utf8.decode file) = some (fileContent, models) ∧
        m.load env file =
          (((m.filled models).setActiveDialog env
              (fileContent.activeDialogId.bind (m.filled models).getDialog)).1,
            if ((m.filled models).setActiveDialog env
              (fileContent.activeDialogId.bind (m.filled models).getDialog)).2
            then some fileContent else none) := by
  cases hblank : (Utf8.decode file).isBlank with
  | true => exact Or.inl (load_of_not_readable (Or.inl hblank))
  | false =>
    cases hread : readContent env (Utf8.decode file) with
    | none => exact Or.inl (load_of_not_readable (Or.inr hread))
    | some r => exact Or.inr ⟨r.1, r.2, rfl, rfl, load_of_read hblank hread⟩

theorem Keyed.load (h : m.Keyed) : (m.load env file).1.Keyed := by
  rcases load_cases env m file with hload | ⟨fileContent, models, -, -, hload⟩
  · rw [hload]
    exact h
  · rw [hload]
    exact (h.filled models).setActiveDialog _

/-- Loading leaves no active dialog, or one in the map; an accepted file leaves one. -/
theorem activeIn_load (h : m.activeDialog = none ∨ m.ActiveIn) :
    ((m.load env file).1.activeDialog = none ∧ (m.load env file).2 = none) ∨
      ((m.load env file).1.ActiveIn) := by
  rcases load_cases env m file with hload | ⟨fileContent, models, -, -, hload⟩
  · rw [hload]
    exact h.imp_left fun hnone => ⟨hnone, rfl⟩
  · rw [hload]
    cases hget : fileContent.activeDialogId.bind (m.filled models).getDialog with
    | none => exact Or.inl ⟨rfl, rfl⟩
    | some ref =>
      obtain ⟨id, -, hid⟩ := Option.bind_eq_some_iff.mp hget
      exact Or.inr (activeIn_setActiveDialog hid)

/-! ### New and deleted dialogs -/

/-- A new dialog is loaded, and active already. -/
theorem setActiveDialog_newDialog (m : DialogManager) :
    m.newDialog.1.setActiveDialog env (some m.newDialog.2) = (m.newDialog.1, true) := by
  have hget : m.newDialog.1.objects[m.objects.length]? =
      some (.new (m.idCounter + 1) none) := List.getElem?_concat_length
  have hget' : m.newDialog.1.objects[m.newDialog.2]? = _ := hget
  simp only [setActiveDialog, hget']
  rfl

theorem Keyed.newDialog (h : m.Keyed) : m.newDialog.1.Keyed := by
  have hput : (m.putDialog (m.idCounter + 1) (.new (m.idCounter + 1) none)).Keyed :=
    h.putDialog rfl
  exact hput.congr rfl rfl

theorem activeIn_newDialog (m : DialogManager) : m.newDialog.1.ActiveIn := by
  refine ⟨m.idCounter + 1, m.objects.length, ?_, rfl⟩
  have hget := getDialog_putDialog m (m.idCounter + 1) (m.idCounter + 1)
    (.new (m.idCounter + 1) none)
  rw [if_pos rfl] at hget
  exact hget

/-- The manager without the dialog of an id in its map. -/
def without (m : DialogManager) (id : Int32) : DialogManager :=
  { m with dialogs := Assoc.remove m.dialogs id }

/-- The map without one of its dialogs. -/
theorem Keyed.remove (h : m.Keyed) (id : Int32) : (m.without id).Keyed := by
  refine ⟨Assoc.nodup_remove h.nodup, fun id' ref hget => ?_⟩
  have hlookup : (Assoc.remove m.dialogs id).lookup id' = some ref := hget
  rw [Assoc.lookup_remove] at hlookup
  split at hlookup
  · cases hlookup
  · exact h.key id' ref hlookup

/-- **Deleting** one of several dialogs: it leaves the map, and one of the others, the last
    in the map's order, is activated. -/
theorem deleteDialog_cases (env : Env) (h : m.Keyed) {dialog : Dialog}
    (hkey : dialog.model.id ∈ m.dialogs.map Prod.fst) (hlen : m.dialogs.length ≠ 1) :
    ∃ e, (env.order (Assoc.remove m.dialogs dialog.model.id)).getLast? = some e ∧
      (m.without dialog.model.id).getDialog e.1 = some e.2 ∧
      m.deleteDialog env dialog =
        (m.without dialog.model.id).setActiveDialog env (some e.2) := by
  have hperm := env.order_perm (Assoc.remove m.dialogs dialog.model.id)
  -- another entry is left
  have hne : env.order (Assoc.remove m.dialogs dialog.model.id) ≠ [] := by
    intro hnil
    rw [hnil, List.nil_perm] at hperm
    have hkeys : ∀ k ∈ m.dialogs.map Prod.fst, k = dialog.model.id := by
      intro k hk
      by_contra hne
      have hmem := Assoc.mem_keys_remove.mpr ⟨hk, hne⟩
      rw [hperm] at hmem
      cases hmem
    -- distinct keys that are all the same are one
    have hone : m.dialogs.map Prod.fst = [dialog.model.id] := by
      cases hlist : m.dialogs.map Prod.fst with
      | nil =>
        rw [hlist] at hkey
        cases hkey
      | cons k rest =>
        have hnodup := h.nodup
        rw [hlist] at hkeys hnodup
        cases rest with
        | nil => rw [hkeys k List.mem_cons_self]
        | cons k' rest =>
          have hk := hkeys k List.mem_cons_self
          have hk' := hkeys k' (List.mem_cons_of_mem _ List.mem_cons_self)
          rw [hk, hk', List.nodup_cons] at hnodup
          exact absurd List.mem_cons_self hnodup.1
    apply hlen
    rw [← List.length_map Prod.fst, hone]
    rfl
  refine ⟨(env.order (Assoc.remove m.dialogs dialog.model.id)).getLast hne,
    List.getLast?_eq_some_getLast hne, ?_, ?_⟩
  · refine (Assoc.lookup_eq_some_iff (Assoc.nodup_remove h.nodup)).mpr ?_
    exact hperm.mem_iff.mp (List.getLast_mem hne)
  · have hlast := List.getLast?_eq_some_getLast hne
    unfold Assoc.remove at hlast
    simp only [deleteDialog, hlast]
    rfl

end DialogManager

end Reloadium.Ai
