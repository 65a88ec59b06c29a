import Reloadium.Ai.SavedText

namespace Reloadium.Ai

open Reloadium.Lib

/-!
# Ai — saving a chat and loading it again

`doSave` writes the models of all dialogs and the id of the active one, and `load` puts them
into a new manager, where it activates that dialog.

* `fileContent_of_messages` — what is written, when every dialog has a list of messages;
* `load_saved` — what is loaded: every model as it was written, and the active one rebuilt,
  unless that dialog cannot be loaded;
* `roundTrips_iff` — hence, in every run, the file gives back the dialogs exactly when they
  have messages, well-formed texts, and an active one that can be loaded.
-/

namespace DialogManager

/-- The model of the dialog of an id. -/
def modelOf (m : DialogManager) (id : Int32) : Option DialogModel :=
  (m.dialogOf id).map (·.model)

/-- The id of the active dialog. -/
def activeId (m : DialogManager) : Option Int32 :=
  (m.activeDialog.bind (m.objects[·]?)).map (·.model.id)

/-- The same dialogs, with the same names and messages, and the same one active. -/
structure RestoredFrom (reloaded saved : DialogManager) : Prop where
  keys : ∀ id, id ∈ reloaded.dialogs.map Prod.fst ↔ id ∈ saved.dialogs.map Prod.fst
  model : ∀ id, reloaded.modelOf id = saved.modelOf id
  activeId : reloaded.activeId = saved.activeId

end DialogManager

/-- Loading the file that the chat writes, whatever was in it before, succeeds and gives back
    its dialogs. -/
def Chat.RoundTrips (env : Env) (c : Chat) : Prop :=
  ∀ before : Bytes,
    (DialogManager.new.load env (c.manager.doSave env c.sidePanelOpen before)).2.isSome = true ∧
      (DialogManager.new.load env
        (c.manager.doSave env c.sidePanelOpen before)).1.RestoredFrom c.manager

/-- Jackson writes the content, and reads it back from the file, where every unpaired
    surrogate has been replaced. -/
def Env.ReadsBack (env : Env) (content : FileContent) : Prop :=
  ∃ jsonString, env.writeValue content = some jsonString ∧
    (Utf8.sanitize jsonString).isBlank = false ∧
    env.readVersion (Utf8.sanitize jsonString) = content.version.map Utf8.sanitize ∧
    env.readValue (Utf8.sanitize jsonString) = some content.sanitize

namespace DialogManager

variable {env : Env} {m : DialogManager} {id a : Int32} {ref : Nat} {uiState : Bool}

/-! ### What is written -/

/-- The models in the order in which they are written. -/
def savedModels (env : Env) (m : DialogManager) : List DialogModel :=
  (env.order m.dialogs).filterMap fun e => m.modelOf e.1

theorem Keyed.modelOf (h : m.Keyed) (hmem : id ∈ m.dialogs.map Prod.fst) :
    ∃ model, m.modelOf id = some model ∧ model.id = id := by
  obtain ⟨d, hd, hid⟩ := h.dialogOf hmem
  exact ⟨d.model, by rw [DialogManager.modelOf, hd]; rfl, hid⟩

theorem mem_keys_order {e : Int32 × Nat} (he : e ∈ env.order m.dialogs) :
    e.1 ∈ m.dialogs.map Prod.fst :=
  List.mem_map_of_mem ((env.order_perm m.dialogs).mem_iff.mp he)

theorem mem_savedModels (h : m.Keyed) {model : DialogModel} :
    model ∈ m.savedModels env ↔ m.modelOf model.id = some model := by
  rw [savedModels, List.mem_filterMap]
  apply Iff.intro
  · rintro ⟨e, he, hmodel⟩
    obtain ⟨model', hmodel', hid⟩ := h.modelOf (mem_keys_order he)
    rw [hmodel, Option.some.injEq] at hmodel'
    subst hmodel'
    rw [hid]
    exact hmodel
  · intro hmodel
    have hkey : model.id ∈ m.dialogs.map Prod.fst := by
      rw [mem_keys_iff_dialogOf h, ← Option.isSome_map (f := Dialog.model)]
      exact Option.isSome_of_eq_some hmodel
    obtain ⟨e, he, hid⟩ := List.mem_map.mp hkey
    refine ⟨e, (env.order_perm m.dialogs).mem_iff.mpr he, ?_⟩
    show m.modelOf e.1 = some model
    rw [hid]
    exact hmodel

/-- The models are written under distinct ids. -/
theorem nodup_savedModels (h : m.Keyed) : ((m.savedModels env).map (·.id)).Nodup := by
  have hids : ∀ entries : List (Int32 × Nat), (∀ e ∈ entries, e.1 ∈ m.dialogs.map Prod.fst) →
      (entries.filterMap fun e => m.modelOf e.1).map (·.id) = entries.map Prod.fst := by
    intro entries hentries
    induction entries with
    | nil => rfl
    | cons e rest ih =>
      obtain ⟨model, hmodel, hid⟩ := h.modelOf (hentries e List.mem_cons_self)
      simp only [List.filterMap_cons, hmodel, List.map_cons, hid]
      rw [ih fun e' he' => hentries e' (List.mem_cons_of_mem _ he')]
  rw [savedModels, hids _ fun e he => mem_keys_order he]
  exact (((env.order_perm m.dialogs).map Prod.fst).nodup_iff).mpr h.nodup

/-- The content that is written, with this dialog active. -/
def savedContent (env : Env) (m : DialogManager) (a : Int32) (uiState : Bool) : FileContent where
  version := some FILE_VERSION
  activeDialogId := some a
  uiState := some uiState
  dialogs := some ((m.savedModels env).map some)

/-- A model is cloned when it has a list of messages. -/
theorem getClone_eq (d : DialogModel) :
    d.getClone = if d.messages.isSome then some d else none := by
  unfold DialogModel.getClone
  cases hmessages : d.messages with
  | none => rfl
  | some messages =>
    show some { d with messages := some messages } = some d
    rw [← hmessages]

/-- The clones of the entries: all of them, or none when one has no messages. -/
theorem mapM_getClone (h : m.Keyed) (entries : List (Int32 × Nat))
    (hentries : ∀ e ∈ entries, m.getDialog e.1 = some e.2) :
    (entries.mapM fun e => m.objects[e.2]?.bind fun d => d.model.getClone) =
      if ∀ e ∈ entries, (m.modelOf e.1).all (·.messages.isSome) = true
      then some (entries.filterMap fun e => m.modelOf e.1) else none := by
  induction entries with
  | nil => rfl
  | cons e rest ih =>
    have hrest := ih fun e' he' => hentries e' (List.mem_cons_of_mem _ he')
    have hget := hentries e List.mem_cons_self
    obtain ⟨d, hd, -⟩ := h.dialog hget
    have hmodel : m.modelOf e.1 = some d.model := by
      rw [modelOf, dialogOf, hget, Option.bind_some, hd]
      rfl
    rw [List.mapM_cons, hrest, hd, Option.bind_some, getClone_eq]
    simp only [List.forall_mem_cons, List.filterMap_cons, hmodel, Option.all_some]
    cases d.model.messages.isSome with
    | false => simp
    | true =>
      simp only [if_true, true_and]
      split <;> rfl

/-- Every dialog of the map has a list of messages. -/
def HaveMessages (m : DialogManager) : Prop :=
  ∀ id model, m.modelOf id = some model → model.messages.isSome = true

theorem haveMessages_iff (h : m.Keyed) : m.HaveMessages ↔
    ∀ e ∈ env.order m.dialogs, (m.modelOf e.1).all (·.messages.isSome) = true := by
  apply Iff.intro
  · intro hall e he
    obtain ⟨model, hmodel, -⟩ := h.modelOf (mem_keys_order he)
    rw [hmodel]
    exact hall e.1 model hmodel
  · intro hall id model hmodel
    obtain ⟨d, hd, rfl⟩ := Option.map_eq_some_iff.mp hmodel
    have hkey : id ∈ m.dialogs.map Prod.fst :=
      (mem_keys_iff_dialogOf h).mpr (Option.isSome_of_eq_some hd)
    obtain ⟨e, he, rfl⟩ := List.mem_map.mp hkey
    have hmessages := hall e ((env.order_perm m.dialogs).mem_iff.mpr he)
    rw [hmodel] at hmessages
    exact hmessages

/-- What is written, if anything is. -/
theorem fileContent_eq (h : m.Keyed) (hget : m.getDialog a = some ref)
    (hactive : m.activeDialog = some ref) (uiState : Bool) :
    m.fileContent env uiState =
      if ∀ e ∈ env.order m.dialogs, (m.modelOf e.1).all (·.messages.isSome) = true
      then some (m.savedContent env a uiState) else none := by
  obtain ⟨d, hd, hid⟩ := h.dialog hget
  have hclones := @mapM_getClone m h (env.order m.dialogs) fun e he =>
    (Assoc.lookup_eq_some_iff h.nodup).mpr ((env.order_perm m.dialogs).mem_iff.mp he)
  unfold fileContent
  rw [hactive]
  simp only [Option.bind_eq_bind, Option.bind_some, hd, hclones]
  split
  · rw [Option.bind_some, hid]
    rfl
  · rfl

/-- **What is written**: all models, unless one of them has no list of messages. -/
theorem fileContent_of_messages (h : m.Keyed) (hget : m.getDialog a = some ref)
    (hactive : m.activeDialog = some ref) (hmessages : m.HaveMessages) (uiState : Bool) :
    m.fileContent env uiState = some (m.savedContent env a uiState) := by
  rw [fileContent_eq h hget hactive, if_pos ((haveMessages_iff h).mp hmessages)]

theorem fileContent_of_not_messages (h : m.Keyed) (hget : m.getDialog a = some ref)
    (hactive : m.activeDialog = some ref) (hmessages : ¬ m.HaveMessages) (uiState : Bool) :
    m.fileContent env uiState = none := by
  rw [fileContent_eq h hget hactive, if_neg fun hall => hmessages ((haveMessages_iff h).mpr hall)]

/-! ### What is loaded -/

/-- Among models of distinct ids, the last one of an id is the one. -/
theorem lastModel_eq_some_iff {models : List DialogModel} (hnodup : (models.map (·.id)).Nodup)
    {d : DialogModel} : lastModel id (models.map some) = some d ↔ d ∈ models ∧ d.id = id := by
  have hlast : ∀ d, lastModel id (models.map some) = some d → d ∈ models ∧ d.id = id := by
    intro d hd
    obtain ⟨d', hmem, hd'⟩ := List.exists_of_findSome?_eq_some hd
    rw [List.mem_reverse] at hmem
    obtain ⟨model, hmodel, rfl⟩ := List.mem_map.mp hmem
    rw [Option.filter_some] at hd'
    split at hd'
    · next hid =>
      cases hd'
      exact ⟨hmodel, of_decide_eq_true hid⟩
    · cases hd'
  refine ⟨hlast d, ?_⟩
  rintro ⟨hmem, hid⟩
  have hsome : (lastModel id (models.map some)).isSome = true := by
    rw [lastModel, List.findSome?_isSome_iff]
    refine ⟨some d, List.mem_reverse.mpr (List.mem_map_of_mem hmem), ?_⟩
    rw [Option.filter_some, if_pos (decide_eq_true hid)]
    rfl
  obtain ⟨d', hd'⟩ := Option.isSome_iff_exists.mp hsome
  obtain ⟨hmem', hid'⟩ := hlast d' hd'
  rw [hd', List.inj_on_of_nodup_map hnodup hmem' hmem (hid'.trans hid.symm)]

/-- The model of an id, as it is read from the file. -/
theorem lastModel_saved (h : m.Keyed) (id : Int32) :
    lastModel id ((m.savedModels env).map fun d => some d.sanitize) =
      (m.modelOf id).map DialogModel.sanitize := by
  have hmap : ((m.savedModels env).map fun d => some d.sanitize) =
      ((m.savedModels env).map DialogModel.sanitize).map some := (List.map_map ..).symm
  have hnodup : (((m.savedModels env).map DialogModel.sanitize).map (·.id)).Nodup := by
    rw [List.map_map]
    exact nodup_savedModels h
  refine Option.ext fun d => ?_
  rw [hmap, lastModel_eq_some_iff hnodup, List.mem_map, Option.map_eq_some_iff]
  apply Iff.intro
  · rintro ⟨⟨model, hmem, rfl⟩, hid⟩
    exact ⟨model, hid ▸ (mem_savedModels h).mp hmem, rfl⟩
  · rintro ⟨model, hmodel, rfl⟩
    obtain ⟨d, hd, rfl⟩ := Option.map_eq_some_iff.mp hmodel
    obtain ⟨model', hmodel', hid⟩ := h.modelOf
      ((mem_keys_iff_dialogOf h).mpr (Option.isSome_of_eq_some hd))
    rw [hmodel, Option.some.injEq] at hmodel'
    subst hmodel'
    exact ⟨⟨d.model, (mem_savedModels h).mpr (by rw [hid]; exact hmodel), rfl⟩, hid⟩

/-- Activating a dialog that is not loaded rebuilds its model, and no other. -/
theorem modelOf_setActiveDialog (h : m.Keyed) (hget : m.getDialog a = some ref) {d : Dialog}
    (hd : m.objects[ref]? = some d) (hloaded : d.loaded = false) (id : Int32) :
    (m.setActiveDialog env (some ref)).1.modelOf id =
      (m.modelOf id).map fun model =>
        if id = a then Dialog.rebuildModel env.toToolkit model else model := by
  have hset : (m.setActiveDialog env (some ref)).1.dialogOf id =
      (m.getDialog id).bind ((m.objects.set ref (d.loadMessages env.toToolkit).1)[·]?) := by
    unfold setActiveDialog
    simp only [hd, hloaded]
    rfl
  rw [modelOf, hset, modelOf, dialogOf]
  cases hid : m.getDialog id with
  | none => rfl
  | some ref' =>
    rw [Option.bind_some, Option.bind_some, List.getElem?_set]
    by_cases href : ref = ref'
    · subst href
      rw [if_pos rfl, if_pos (List.getElem?_eq_some_iff.mp hd).1, hd, Option.map_some,
        Option.map_some, Option.map_some, loadMessages_model, if_pos (h.inj hid hget)]
    · -- another dialog has another key
      have hne : id ≠ a := fun heq => href (Option.some.inj (hget.symm.trans (heq ▸ hid)))
      simp only [href, if_false, hne, Option.map_map]
      rfl

/-- The first half of loading what was written. -/
theorem readContent_saved {jsonString : JString} (hback : env.writeValue
      (m.savedContent env a uiState) = some jsonString ∧
    env.readVersion (Utf8.sanitize jsonString) = some FILE_VERSION ∧
    env.readValue (Utf8.sanitize jsonString) = some (m.savedContent env a uiState).sanitize) :
    readContent env (Utf8.decode (Utf8.encode jsonString)) =
      some ((m.savedContent env a uiState).sanitize,
        (m.savedModels env).map fun d => some d.sanitize) := by
  obtain ⟨-, hversion, hvalue⟩ := hback
  rw [Utf8.decode_encode]
  simp [readContent, hversion, hvalue, FileContent.sanitize, savedContent, Function.comp_def]

/-- **What is loaded** from the file that is written: each model as the file keeps it, and
    that of the active dialog rebuilt; loading succeeds when that dialog can be loaded. -/
theorem load_saved (h : m.Keyed) (hget : m.getDialog a = some ref)
    (hactive : m.activeDialog = some ref) (hmessages : m.HaveMessages)
    (hwritable : env.writable = true)
    (hback : env.ReadsBack (m.savedContent env a uiState)) (before : Bytes) :
    ∃ loaded : DialogManager × Option FileContent,
      DialogManager.new.load env (m.doSave env uiState before) = loaded ∧ loaded.1.Keyed ∧
        (∀ id, loaded.1.modelOf id = (m.modelOf id).map fun d =>
          if id = a then Dialog.rebuildModel env.toToolkit d.sanitize else d.sanitize) ∧
        loaded.1.activeId = some a ∧
        ∀ d, m.modelOf a = some d → (loaded.2.isSome = true ↔
          (Dialog.new a (some d.sanitize)).Loadable env.toToolkit) := by
  obtain ⟨jsonString, hwrite, hblank, hversion, hvalue⟩ := hback
  have hfile : m.doSave env uiState before = Utf8.encode jsonString := by
    rw [doSave, fileContent_of_messages h hget hactive hmessages, Option.bind_some, hwrite]
    exact if_pos hwritable
  have hplain : (m.savedContent env a uiState).version.map Utf8.sanitize = some FILE_VERSION :=
    congrArg some (Utf8.wellFormed_ofString _)
  have hread := readContent_saved ⟨hwrite, hversion.trans hplain, hvalue⟩
  have hnotBlank : (Utf8.decode (Utf8.encode jsonString)).isBlank = false := by
    rw [Utf8.decode_encode]
    exact hblank
  -- the map after the loop of `load`
  let filled := DialogManager.new.filled ((m.savedModels env).map fun d => some d.sanitize)
  have hkeyed : filled.Keyed := keyed_new.filled _
  have hdialogOf : ∀ id, filled.dialogOf id =
      (m.modelOf id).map fun d => Dialog.new id (some d.sanitize) := by
    intro id
    rw [dialogOf_filled keyed_new, lastModel_saved h, Option.map_map]
    exact Option.or_none
  have hmodelOf : ∀ id, filled.modelOf id = (m.modelOf id).map DialogModel.sanitize := by
    intro id
    rw [modelOf, hdialogOf, Option.map_map]
    rfl
  -- the dialog that is activated
  obtain ⟨active, hmodel, -⟩ := h.modelOf (mem_keys_iff.mpr (Option.isSome_of_eq_some hget))
  have hfresh : filled.dialogOf a = some (.new a (some active.sanitize)) := by
    rw [hdialogOf, hmodel]
    rfl
  obtain ⟨r, hgetr, hr⟩ := Option.bind_eq_some_iff.mp hfresh
  have htarget : (m.savedContent env a uiState).sanitize.activeDialogId.bind filled.getDialog =
      some r := hgetr
  have hload := @load_of_read env .new _ _ _ hnotBlank hread
  rw [htarget] at hload
  obtain ⟨-, -, hactive', hids, -⟩ := @setActiveDialog_frame env filled (some r)
  refine ⟨_, (congrArg (DialogManager.new.load env) hfile).trans hload,
    hkeyed.setActiveDialog _, fun id => ?_, ?_, fun d hd => ?_⟩
  · rw [modelOf_setActiveDialog hkeyed hgetr hr rfl, hmodelOf, Option.map_map]
    rfl
  · show ((filled.setActiveDialog env (some r)).1.activeDialog.bind _).map _ = _
    rw [hactive', Option.bind_some, ← getElem?_ids, hids]
    exact hkeyed.key a r hgetr
  · rw [hmodel, Option.some.injEq] at hd
    subst hd
    have hreturns : (filled.setActiveDialog env (some r)).2 = true ↔
        (Dialog.new a (some active.sanitize)).Loadable env.toToolkit := by
      rw [setActiveDialog_returns_iff, hr]
      apply Iff.intro
      · rintro ⟨d, hd, hopens⟩
        rw [Option.some.injEq] at hd
        subst hd
        -- a dialog of the file is not loaded
        rcases hopens with hloaded | hloadable
        · cases hloaded
        · exact hloadable
      · exact fun hloadable => ⟨_, rfl, Or.inr hloadable⟩
    rw [← hreturns]
    cases (filled.setActiveDialog env (some r)).2 <;> simp

/-- The dialogs come back from their file: they have messages and well-formed texts, and the
    active one can be loaded. -/
structure Restorable (env : Env) (m : DialogManager) : Prop where
  messages : ∀ id d, m.dialogOf id = some d → d.model.messages.isSome = true
  wellFormed : ∀ id d, m.dialogOf id = some d → d.model.WellFormed
  active : ∀ ref d, m.activeDialog = some ref → m.objects[ref]? = some d →
    (Dialog.new d.model.id (some d.model)).Loadable env.toToolkit

end DialogManager

section Saved

variable {env : Env} {c : Chat} {a : Int32} {ref : Nat} {active : Dialog}

/-- Where a dialog has no list of messages nothing is written, and the file may be empty. -/
theorem Chat.not_roundTrips_of_messages (h : c.manager.Keyed)
    (hget : c.manager.getDialog a = some ref) (hactive : c.manager.activeDialog = some ref)
    (hmessages : ¬ c.manager.HaveMessages) : ¬ c.RoundTrips env := by
  intro hround
  obtain ⟨hsome, -⟩ := hround []
  have hfile : c.manager.doSave env c.sidePanelOpen [] = [] := by
    rw [DialogManager.doSave,
      DialogManager.fileContent_of_not_messages h hget hactive hmessages]
    rfl
  rw [hfile, DialogManager.load_of_not_readable (Or.inl Utf8.isBlank_decode_nil)] at hsome
  cases hsome

theorem DialogManager.modelOf_of_dialogOf {m : DialogManager} {d : Dialog}
    (h : m.dialogOf a = some d) : m.modelOf a = some d.model := by
  rw [modelOf, h]
  rfl

theorem DialogManager.restorable_messages {m : DialogManager} (h : m.Restorable env) :
    m.HaveMessages := by
  intro id model hmodel
  obtain ⟨d, hd, rfl⟩ := Option.map_eq_some_iff.mp hmodel
  exact h.messages id d hd

/-- What comes back was restorable. -/
theorem Chat.restorable_of_roundTrips (h : c.manager.Keyed)
    (hget : c.manager.getDialog a = some ref) (hactive : c.manager.activeDialog = some ref)
    (hmessages : c.manager.HaveMessages) (hwritable : env.writable = true)
    (hback : env.ReadsBack (c.manager.savedContent env a c.sidePanelOpen))
    (hround : c.RoundTrips env) : c.manager.Restorable env := by
  obtain ⟨loaded, hload, -, hmodels, -, hloadable⟩ :=
    DialogManager.load_saved h hget hactive hmessages hwritable hback []
  obtain ⟨hsome, -, hsame, -⟩ := hround []
  rw [hload] at hsome hsame
  have hwellFormed : ∀ id d, c.manager.dialogOf id = some d → d.model.WellFormed := by
    intro id d hdialog
    have hmodel := hsame id
    rw [hmodels, DialogManager.modelOf_of_dialogOf hdialog, Option.map_some,
      Option.some.injEq] at hmodel
    split at hmodel
    · exact wellFormed_of_restored hmodel
    · exact hmodel
  refine ⟨fun id d hdialog => ?_, hwellFormed, fun ref' d hactive' hd => ?_⟩
  · exact hmessages id d.model (DialogManager.modelOf_of_dialogOf hdialog)
  · rw [hactive, Option.some.injEq] at hactive'
    subst hactive'
    have hdialog : c.manager.dialogOf a = some d := by
      rw [DialogManager.dialogOf, hget, Option.bind_some, hd]
    have hopens := (hloadable d.model (DialogManager.modelOf_of_dialogOf hdialog)).mp hsome
    obtain ⟨d', hd', hid⟩ := h.dialog hget
    rw [hd, Option.some.injEq] at hd'
    rw [← hd'] at hid
    rw [hwellFormed a d hdialog] at hopens
    rw [hid]
    exact hopens

/-- What is restorable comes back. -/
theorem Chat.roundTrips_of_restorable (h : c.manager.Keyed)
    (hget : c.manager.getDialog a = some ref) (hactive : c.manager.activeDialog = some ref)
    (hsettled : c.manager.Settled env.toToolkit) (hwritable : env.writable = true)
    (hback : env.ReadsBack (c.manager.savedContent env a c.sidePanelOpen))
    (hrest : c.manager.Restorable env) : c.RoundTrips env := by
  obtain ⟨active, hd, hid⟩ := h.dialog hget
  have hdialog : c.manager.dialogOf a = some active := by
    rw [DialogManager.dialogOf, hget, Option.bind_some, hd]
  have hmodel := DialogManager.modelOf_of_dialogOf hdialog
  have hfixed : Dialog.rebuildModel env.toToolkit active.model = active.model := by
    obtain ⟨d, hd', hfixed⟩ := hsettled.active ref hactive
    rw [hd, Option.some.injEq] at hd'
    exact hd' ▸ hfixed
  intro before
  obtain ⟨loaded, hload, hkeyed, hmodels, hactiveId, hloadable⟩ :=
    DialogManager.load_saved h hget hactive (DialogManager.restorable_messages hrest) hwritable
      hback before
  rw [hload]
  have hsame : ∀ id, loaded.1.modelOf id = c.manager.modelOf id := by
    intro id
    rw [hmodels]
    cases hmodelOf : c.manager.modelOf id with
    | none => rfl
    | some model =>
      obtain ⟨d, hd', rfl⟩ := Option.map_eq_some_iff.mp hmodelOf
      rw [Option.map_some, hrest.wellFormed id d hd']
      split
      · next heq =>
        subst heq
        rw [hmodel, Option.some.injEq] at hmodelOf
        rw [← hmodelOf, hfixed]
      · rfl
  refine ⟨?_, fun id => ?_, hsame, ?_⟩
  · rw [hloadable active.model hmodel, hrest.wellFormed a active hdialog, ← hid]
    exact hrest.active ref active hactive hd
  · have hkeys := congrArg Option.isSome (hsame id)
    rw [DialogManager.modelOf, DialogManager.modelOf, Option.isSome_map,
      Option.isSome_map] at hkeys
    rw [DialogManager.mem_keys_iff_dialogOf hkeyed, DialogManager.mem_keys_iff_dialogOf h, hkeys]
  · rw [hactiveId, DialogManager.activeId, hactive, Option.bind_some, hd, Option.map_some, hid]

end Saved

/-! ### Runs -/

/-- **The round trip of a chat**, in every state of every run of a chat from its constructor,
    over every file: the file that it writes gives back the dialogs exactly when all of them
    have a list of messages and well-formed texts, and the active one can be loaded. -/
theorem roundTrips_iff (env : Env) (file : Bytes) (events : List ChatEvent) (s : ChatRun)
    (hrun : (chatLts env).run (chatLts env).init (.load file :: events) = some s)
    (hwritable : env.writable = true)
    (hback : ∀ content,
      s.chat.manager.fileContent env s.chat.sidePanelOpen = some content →
        env.ReadsBack content) :
    s.chat.RoundTrips env ↔ s.chat.manager.Restorable env := by
  obtain ⟨hkeyed, a, ref, hget, hactive⟩ := keyed_of_run hrun
  have hsettled := settled_of_run hrun
  by_cases hmessages : s.chat.manager.HaveMessages
  · have hsaved := hback _
      (DialogManager.fileContent_of_messages hkeyed hget hactive hmessages s.chat.sidePanelOpen)
    exact ⟨Chat.restorable_of_roundTrips hkeyed hget hactive hmessages hwritable hsaved,
      Chat.roundTrips_of_restorable hkeyed hget hactive hsettled hwritable hsaved⟩
  · exact iff_of_false (Chat.not_roundTrips_of_messages hkeyed hget hactive hmessages)
      fun hrest => hmessages (DialogManager.restorable_messages hrest)

/-- A new chat comes back. -/
theorem roundTrips_newChat :
    ∃ s, (chatLts twoFilesEnv).run (chatLts twoFilesEnv).init [.load []] = some s ∧
      s.chat.RoundTrips twoFilesEnv := by
  have hrun : (chatLts twoFilesEnv).run (chatLts twoFilesEnv).init [.load []] =
      some ⟨newChat, false⟩ :=
    Lts.run_cons_eq_some.mpr ⟨_, step_load_blank Utf8.isBlank_decode_nil, rfl⟩
  refine ⟨_, hrun, (roundTrips_iff twoFilesEnv [] [] _ hrun rfl fun content hcontent => ?_).mpr ?_⟩
  · rw [show newChat.manager.fileContent twoFilesEnv newChat.sidePanelOpen = some newChatContent
      from fileContent_newChat, Option.some.injEq] at hcontent
    subst hcontent
    obtain ⟨jsonString, hwrite, hnotBlank, hversion, hvalue⟩ := twoFilesEnv_readsBack
    rw [Utf8.decode_encode] at hnotBlank hversion hvalue
    exact ⟨jsonString, hwrite, hnotBlank, hversion, hvalue⟩
  · -- its only dialog is a new one
    have honly : ∀ id d, newChat.manager.dialogOf id = some d → d = .new 0 none := by
      intro id d hd
      obtain ⟨ref, -, hget⟩ := Option.bind_eq_some_iff.mp hd
      exact List.mem_singleton.mp (List.mem_of_getElem? hget)
    refine ⟨fun id d hd => ?_, fun id d hd => ?_, fun ref d _ hd => ?_⟩
    · rw [honly id d hd]
      rfl
    · rw [honly id d hd]
      show DialogModel.sanitize _ = _
      decide
    · rw [List.mem_singleton.mp (List.mem_of_getElem? hd)]
      exact ⟨[], rfl, Or.inl rfl⟩

/-! ### A text that cannot be counted -/

def specialQuestion : JString := .ofString "What does <|endoftext|> mean?"

/-- Plain texts, except that a prompt with that question cannot be counted: it has the special
    token of the end of a text. -/
def specialEnv : LiveEnv :=
  { plainEnv with
    countTokens := fun s =>
      if s = .ofString "Don't add line numbers to your code blocks" ++ specialQuestion then none
      else some 100 }

/-- The message with that question. -/
def specialMessage : LiveMessage where
  type := .USER
  context := []
  body :=
    match Message.fresh.setRawContent specialEnv.parser specialQuestion with
    | .ok body => body
    | .error body => body
  ai := .new

/-- A new dialog after the question has been submitted. -/
def specialLive : Live :=
  { Live.new 0 with submitButton := .STOP, proposals := [⟨0, false⟩] }.addMessage specialMessage

def specialDialog : Dialog := .ofLive specialLive

/-- The model of the message, and of the dialog. -/
def specialMessageModel : MessageModel where
  type := .USER
  context := some []
  rawContent := some specialQuestion
  content := some [(0, .MARKDOWN, some specialQuestion)]

def specialModel : DialogModel where
  name := some NEW_CHAT_NAME
  id := 0
  messages := some [some specialMessageModel]

theorem specialLive_model : specialLive.model = specialModel := by decide

/-- Its history cannot be computed, whatever the system message counts. -/
theorem getAcceptedMessages_specialModel :
    specialModel.getAcceptedMessages specialEnv.toToolkit = none := by
  have hfails : specialMessageModel.getAiContent.bind specialEnv.countTokens = none := by
    decide
  have hloop : ∀ tokens, acceptMessages specialEnv.toToolkit tokens 1
      [some specialMessageModel] = none := by
    intro tokens
    rw [acceptMessages, hfails, Option.bind_none]
  unfold DialogModel.getAcceptedMessages
  cases specialEnv.countTokens SYSTEM_MSG with
  | none => rfl
  | some systemTokens =>
    rw [Option.bind_some, show specialModel.messages = some [some specialMessageModel] from rfl,
      Option.bind_some, List.reverse_singleton, hloop, Option.map_none]

/-- A first message after which the history cannot be computed: no answer is started. -/
theorem addUserMessage_uncounted {env : LiveEnv} {s named : Live} {content newContext : JString}
    {throws : Bool} {body : Message}
    (hbody : Message.fresh.setRawContent env.parser content = .ok body)
    (hname : s.name = NEW_CHAT_NAME) (hpropose : s.proposeName env content throws = (named, true))
    (hhistory : ((named.trackContextChange newContext).addMessage
      { type := .USER, context := newContext, body, ai := .new }).model.getAcceptedMessages
        env.toToolkit = none) :
    s.addUserMessage env content newContext throws =
      ((named.trackContextChange newContext).addMessage
        { type := .USER, context := newContext, body, ai := .new }, false) := by
  unfold Live.addUserMessage
  rw [hbody]
  simp only [hname, if_true, hpropose, hhistory]

/-- Submitting the question makes the dialog so. -/
theorem submit_specialQuestion :
    (Live.new 0).submit specialEnv specialQuestion [] false = specialLive := by
  have hstrip : specialQuestion.strip = specialQuestion := by decide
  have hlong : ¬ specialQuestion.length ≤ 20 := by decide
  have hpropose : { Live.new 0 with submitButton := .STOP }.proposeName specialEnv specialQuestion
      false = ({ Live.new 0 with submitButton := .STOP, proposals := [⟨0, false⟩] }, true) := by
    unfold Live.proposeName
    rw [if_neg hlong]
    rfl
  have hadd := @addUserMessage_uncounted specialEnv _ _ specialQuestion [] false
    specialMessage.body rfl rfl hpropose
    ((congrArg _ specialLive_model).trans getAcceptedMessages_specialModel)
  unfold Live.submit
  rw [if_neg (by decide)]
  simp only [hstrip]
  rw [if_neg (by decide), hadd]
  rfl

/-- The content of its chat, and the text that is written. -/
def specialContent : FileContent where
  version := some FILE_VERSION
  activeDialogId := some 0
  uiState := some true
  dialogs := some [some specialModel]

def specialLines : String :=
  "  \"version\" : \"0.2.0\",\n  \"activeDialogId\" : 0,\n" ++
  "  \"uiState\" : \x7b\n    \"sidePanelOpen\" : true\n  \x7d,\n" ++
  "  \"dialogs\" : [ \x7b\n    \"name\" : \"New chat\",\n    \"id\" : 0,\n" ++
  "    \"messages\" : [ \x7b\n      \"type\" : \"USER\",\n" ++
  "      \"context\" : \x7b\n        \"type\" : \"NONE\"\n      \x7d,\n" ++
  "      \"rawContent\" : \"What does <|endoftext|> mean?\",\n" ++
  "      \"content\" : \x7b\n        \"0\" : \x7b\n          \"type\" : \"MARKDOWN\",\n" ++
  "          \"content\" : \"What does <|endoftext|> mean?\"\n        \x7d\n      \x7d\n" ++
  "    \x7d ]\n  \x7d ]\n\x7d"

def specialJson : String := "\x7b\n" ++ specialLines

def specialChatEnv : Env := oneFileEnv specialEnv.toToolkit (.ofString specialJson) specialContent

/-- The chat with that dialog. -/
def specialChat : Chat :=
  Chat.save { newChat with manager := newChat.manager.modify 0 fun _ => specialDialog }

theorem specialChat_run :
    (chatLts specialChatEnv).run (chatLts specialChatEnv).init
      [.load [], .used 0 specialDialog] = some ⟨specialChat, false⟩ := by
  have hused : (chatLts specialChatEnv).step ⟨newChat, false⟩ (.used 0 specialDialog) =
      some ⟨specialChat, false⟩ := chatRun_step_of_enabled (by decide)
  exact Lts.run_cons_eq_some.mpr ⟨_, step_load_blank Utf8.isBlank_decode_nil,
    Lts.run_cons_eq_some.mpr ⟨_, hused, rfl⟩⟩

theorem specialChatEnv_readsBack : specialChatEnv.ReadsBack specialContent := by
  have hplain : Utf8.sanitize (.ofString specialJson) = .ofString specialJson :=
    Utf8.wellFormed_ofString _
  have hcontent : specialContent.sanitize = specialContent := by decide
  refine ⟨.ofString specialJson, ?_, ?_, ?_, ?_⟩
  · simp only [specialChatEnv, oneFileEnv, if_true]
  · -- the first line decides, so that the whole text is never evaluated
    have hbrace : (JString.ofString "\x7b\n").isBlank = false := by decide
    rw [hplain, specialJson, JString.ofString_append, JString.isBlank_append, hbrace,
      Bool.false_and]
  · rw [hplain]
    simp only [specialChatEnv, oneFileEnv, if_true]
    exact congrArg some (Utf8.wellFormed_ofString _).symm
  · rw [hplain, hcontent]
    simp only [specialChatEnv, oneFileEnv, if_true]

/-- The messages of that dialog cannot be loaded: one is held, and cannot be counted. -/
theorem specialModel_not_loadable :
    ¬ (Dialog.new 0 (some specialModel.sanitize)).Loadable specialEnv.toToolkit := by
  have hplain : specialModel.sanitize = specialModel := by decide
  rw [hplain]
  rintro ⟨messages, hmessages, hsome | ⟨-, hnone⟩⟩
  · rw [show (Dialog.new 0 (some specialModel)).model = specialModel from rfl,
      getAcceptedMessages_specialModel] at hsome
    cases hsome
  · cases hmessages
    exact hnone _ List.mem_cons_self ⟨rfl, rfl⟩

/-- **A chat that is lost**: its file is rejected, since the only message cannot be counted. -/
theorem special_token_rejected :
    ∃ s, (chatLts specialChatEnv).run (chatLts specialChatEnv).init
        [.load [], .used 0 (.ofLive
          ((Live.new 0).submit specialEnv specialQuestion [] false))] = some s ∧
      s.chat.manager.fileContent specialChatEnv s.chat.sidePanelOpen = some specialContent ∧
      specialChatEnv.ReadsBack specialContent ∧ specialChatEnv.writable = true ∧
      ¬ s.chat.RoundTrips specialChatEnv := by
  obtain ⟨hkeyed, -⟩ := keyed_of_run specialChat_run
  have hcontent : specialChat.manager.savedContent specialChatEnv 0 specialChat.sidePanelOpen =
      specialContent := by
    decide
  have hmodel : specialChat.manager.modelOf 0 = some specialModel := congrArg some specialLive_model
  have hmessages : specialChat.manager.HaveMessages := by
    intro id model hid
    obtain ⟨d, hd, rfl⟩ := Option.map_eq_some_iff.mp hid
    obtain ⟨ref, -, hget⟩ := Option.bind_eq_some_iff.mp hd
    rw [List.mem_singleton.mp (List.mem_of_getElem? hget)]
    rfl
  have hfile := @DialogManager.fileContent_of_messages specialChatEnv _ _ _ hkeyed
    (show specialChat.manager.getDialog 0 = some 0 from rfl) rfl hmessages specialChat.sidePanelOpen
  rw [hcontent] at hfile
  rw [submit_specialQuestion]
  refine ⟨_, specialChat_run, hfile, specialChatEnv_readsBack, rfl, fun hround => ?_⟩
  obtain ⟨loaded, hload, -, -, -, hloadable⟩ := @DialogManager.load_saved specialChatEnv _ 0 0 _
    hkeyed rfl rfl hmessages rfl (hcontent ▸ specialChatEnv_readsBack) []
  obtain ⟨hsome, -⟩ := hround []
  rw [hload] at hsome
  exact specialModel_not_loadable ((hloadable _ hmodel).mp hsome)

end Reloadium.Ai
