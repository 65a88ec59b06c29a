import Reloadium.Ai.PanelMirror

namespace Reloadium.Ai

open Reloadium.Lib

/-!
# Ai — deleting another dialog

`DialogManager.deleteDialog` activates the last of the dialogs that remain, in the order of its
hash map, whichever dialog was active before.  So deleting a dialog that is not the active one
may still switch the conversation: `keepsConversation_iff` says that it does not exactly when
the active dialog is that last one, and is the one that is shown.
-/

namespace Chat

variable {env : Env} {c : Chat} {id : Int32} {ref : Nat}

/-- `c'` is the chat without the dialog of an id: the dialog and its button are gone, and the
    other ones, the active dialog, the main panel and the active button are as they were. -/
structure KeepsConversation (c c' : Chat) (id : Int32) : Prop where
  dialogs : ∀ id', c'.manager.getDialog id' = if id' = id then none else c.manager.getDialog id'
  buttons : c'.buttons = c.buttons.filter (·.id ≠ id)
  active : c'.manager.activeDialog = c.manager.activeDialog
  mainPanel : c'.mainPanel = c.mainPanel

/-- The active dialog is the last one of those that remain; and if it can be activated, it is in
    the main panel, and of the other buttons its own is the active one. -/
structure StaysActive (env : Env) (c : Chat) (id : Int32) : Prop where
  elected : ∃ e, (env.order (Assoc.remove c.manager.dialogs id)).getLast? = some e ∧
    c.manager.activeDialog = some e.2
  shown : ∀ ref d, c.manager.activeDialog = some ref → c.manager.objects[ref]? = some d →
    d.Opens env.toToolkit → c.mainPanel = some ref ∧
      ∀ b ∈ c.buttons, b.id ≠ id → b.active = decide (b.id = d.model.id)

/-- Where there is an active dialog besides, a dialog is not the only one. -/
theorem length_ne_one (hactive : c.manager.ActiveIn) (hget : c.manager.getDialog id = some ref)
    (hother : c.manager.activeDialog ≠ some ref) : c.manager.dialogs.length ≠ 1 := by
  intro hlen
  obtain ⟨e, he⟩ := List.length_eq_one_iff.mp hlen
  obtain ⟨id', ref', hget', href⟩ := hactive
  have hmem := Assoc.mem_of_lookup hget
  have hmem' := Assoc.mem_of_lookup hget'
  rw [he, List.mem_singleton] at hmem hmem'
  have heq := hmem.trans hmem'.symm
  rw [href] at hother
  exact hother (by rw [(Prod.mk.inj heq).2])

/-- Marking the buttons leaves them as they are if they are marked right already. -/
theorem map_active_eq_self_iff {buttons : List DialogButton} {active : Int32} :
    (buttons.map fun b => { b with active := decide (b.id = active) }) = buttons ↔
      ∀ b ∈ buttons, b.active = decide (b.id = active) := by
  induction buttons with
  | nil => simp
  | cons b buttons ih =>
    rw [List.map_cons, List.cons.injEq, ih, List.forall_mem_cons]
    refine and_congr_left fun _ => ?_
    obtain ⟨bid, text, marked⟩ := b
    simp only [DialogButton.mk.injEq, true_and]
    exact eq_comm

/-- `e` is the last of the dialogs that remain, and `d` is that dialog: it is active after the
    deletion, and if it can be activated it is also shown. -/
structure Elects (env : Env) (c : Chat) (id : Int32) (e : Int32 × Nat) (d : Dialog) : Prop where
  last : (env.order (Assoc.remove c.manager.dialogs id)).getLast? = some e
  dialog : c.manager.objects[e.2]? = some d
  id_eq : d.model.id = e.1
  dialogs : ∀ id', (c.onDeleteDialog env id).1.manager.getDialog id' =
    if id' = id then none else c.manager.getDialog id'
  active : (c.onDeleteDialog env id).1.manager.activeDialog = some e.2
  opened : d.Opens env.toToolkit → (c.onDeleteDialog env id).1.mainPanel = some e.2 ∧
    (c.onDeleteDialog env id).1.buttons =
      (c.buttons.filter (·.id ≠ id)).map fun b => { b with active := decide (b.id = e.1) }
  refused : ¬ d.Opens env.toToolkit → (c.onDeleteDialog env id).1.mainPanel = c.mainPanel ∧
    (c.onDeleteDialog env id).1.buttons = c.buttons.filter (·.id ≠ id)

/-- Deleting one of several dialogs elects another one. -/
theorem exists_elects (env : Env) (hkeyed : c.manager.Keyed)
    (hget : c.manager.getDialog id = some ref) (hlen : c.manager.dialogs.length ≠ 1) :
    ∃ e d, Elects env c id e d := by
  obtain ⟨e, active, hlast, helect, hid, hdelete⟩ := @onDeleteDialog_many env _ _ _ hkeyed hget hlen
  obtain ⟨hdialogs, -, hnow, -, -⟩ :=
    @DialogManager.setActiveDialog_frame env (c.manager.without id) (some e.2)
  obtain ⟨d, hd, hdid⟩ := (hkeyed.remove id).dialog helect
  have hreturns : ((c.manager.without id).setActiveDialog env (some e.2)).2 = true ↔
      d.Opens env.toToolkit := by
    rw [DialogManager.setActiveDialog_returns_iff, hd]
    simp only [Option.some.injEq, exists_eq_left', Dialog.Opens]
  -- the manager is the same whether it returns or not
  have hmanager : (c.onDeleteDialog env id).1.manager =
      ((c.manager.without id).setActiveDialog env (some e.2)).1 := by
    rw [hdelete]
    split <;> rfl
  refine ⟨e, d, hlast, hd, hdid, fun id' => ?_, ?_, fun hopens => ?_, fun hrefused => ?_⟩
  · rw [hmanager, DialogManager.getDialog, hdialogs]
    exact Assoc.lookup_remove ..
  · rw [hmanager]
    exact hnow
  · rw [if_pos (hreturns.mpr hopens)] at hdelete
    rw [hdelete, ← hid]
    exact ⟨rfl, rfl⟩
  · rw [if_neg (mt hreturns.mp hrefused)] at hdelete
    rw [hdelete]
    exact ⟨rfl, rfl⟩

/-- The main panel and the buttons stay as they are exactly when what can be activated is
    shown. -/
theorem Elects.shown_iff {e : Int32 × Nat} {d : Dialog} (h : Elects env c id e d) :
    ((c.onDeleteDialog env id).1.mainPanel = c.mainPanel ∧
      (c.onDeleteDialog env id).1.buttons = c.buttons.filter (·.id ≠ id)) ↔
      (d.Opens env.toToolkit → c.mainPanel = some e.2 ∧
        ∀ b ∈ c.buttons, b.id ≠ id → b.active = decide (b.id = e.1)) := by
  by_cases hopens : d.Opens env.toToolkit
  · obtain ⟨hpanel, hbuttons⟩ := h.opened hopens
    have hmarked : (∀ b ∈ c.buttons, b.id ≠ id → b.active = decide (b.id = e.1)) ↔
        ∀ b ∈ c.buttons.filter (·.id ≠ id), b.active = decide (b.id = e.1) := by
      simp only [List.mem_filter, decide_eq_true_eq, and_imp, ne_eq]
    rw [hpanel, hbuttons, map_active_eq_self_iff, ← hmarked, eq_comm]
    exact ⟨fun hshown _ => hshown, fun hshown => hshown hopens⟩
  · exact iff_of_true (h.refused hopens) fun h' => absurd h' hopens

/-- **Deleting another dialog** keeps the conversation exactly when the active dialog is
    elected and shown. -/
theorem keepsConversation_iff (hkeyed : c.manager.Keyed) (hactive : c.manager.ActiveIn)
    (hget : c.manager.getDialog id = some ref) (hother : c.manager.activeDialog ≠ some ref) :
    c.KeepsConversation (c.onDeleteDialog env id).1 id ↔ c.StaysActive env id := by
  obtain ⟨e, d, helects⟩ := exists_elects env hkeyed hget (length_ne_one hactive hget hother)
  apply Iff.intro
  · intro h
    have hsame : c.manager.activeDialog = some e.2 := by rw [← h.active, helects.active]
    refine ⟨⟨e, helects.last, hsame⟩, fun ref' d' href hd hopens => ?_⟩
    cases href.symm.trans hsame
    cases hd.symm.trans helects.dialog
    rw [helects.id_eq]
    exact helects.shown_iff.mp ⟨h.mainPanel, h.buttons⟩ hopens
  · intro h
    obtain ⟨e', hlast, hsame⟩ := h.elected
    cases helects.last.symm.trans hlast
    have hshown := h.shown e.2 d hsame helects.dialog
    rw [helects.id_eq] at hshown
    obtain ⟨hpanel, hbuttons⟩ := helects.shown_iff.mpr hshown
    exact ⟨helects.dialogs, hbuttons, by rw [helects.active, hsame], hpanel⟩

end Chat

/-- **Deleting another dialog**, in every state of every run of a chat from its constructor,
    keeps the conversation exactly when the active dialog is the last one of those that remain,
    in the map's order, and is shown if it can be. -/
theorem deleteDialog_keeps_iff (env : Env) (file : Bytes) (events : List ChatEvent) (s : ChatRun)
    (hrun : (chatLts env).run (chatLts env).init (.load file :: events) = some s) (id : Int32)
    (ref : Nat) (hget : s.chat.manager.getDialog id = some ref)
    (hother : s.chat.manager.activeDialog ≠ some ref) :
    s.chat.KeepsConversation (s.chat.onDeleteDialog env id).1 id ↔ s.chat.StaysActive env id := by
  obtain ⟨hkeyed, hactive⟩ := keyed_of_run hrun
  exact Chat.keepsConversation_iff hkeyed hactive hget hother

/-- The chat with two dialogs, the second of them active. -/
def twoDialogs : Chat :=
  ((newChat.exec twoFilesEnv (.used 0 (asked 0))).1.exec twoFilesEnv (.newDialogPressed false)).1

theorem run_askAndCreate :
    (chatLts twoFilesEnv).run (chatLts twoFilesEnv).init (.load [] :: askAndCreate) =
      some ⟨twoDialogs, false⟩ := by
  have hrest : (chatLts twoFilesEnv).run ⟨newChat, false⟩ askAndCreate =
      some ⟨twoDialogs, false⟩ := by
    decide
  exact Lts.run_cons_eq_some.mpr ⟨_, step_load_blank Utf8.isBlank_decode_nil, hrest⟩

/-- The first one is deleted: the second stays active. -/
theorem deleteDialog_keeps_twoDialogs :
    twoDialogs.KeepsConversation (twoDialogs.onDeleteDialog twoFilesEnv 0).1 0 := by
  refine (deleteDialog_keeps_iff twoFilesEnv [] askAndCreate _ run_askAndCreate 0 0
    (by decide) (by decide)).mpr ⟨⟨(1, 1), by decide, by decide⟩,
      fun ref d href hd _ => ?_⟩
  have hactive : twoDialogs.manager.activeDialog = some 1 := by decide
  have hdialog : twoDialogs.manager.objects[1]? = some (.new 1 none) := by decide
  cases hactive.symm.trans href
  cases hdialog.symm.trans hd
  exact ⟨by decide, by decide⟩

/-- Three dialogs, the first of them active. -/
def backToFirst : List ChatEvent :=
  askAndCreate ++ [.used 1 (asked 1), .newDialogPressed false, .dialogPressed 0 false]

/-- **Counterexample.** The second of three dialogs is deleted while the first is active: the
    third becomes active. -/
theorem delete_switches_dialog :
    ¬ ∀ (env : Env) (file : Bytes) (events : List ChatEvent) (s : ChatRun),
      (chatLts env).run (chatLts env).init (.load file :: events) = some s →
      2 ≤ s.chat.manager.dialogs.length → ∀ (id : Int32) (ref : Nat),
        s.chat.manager.getDialog id = some ref → s.chat.manager.activeDialog ≠ some ref →
          s.chat.KeepsConversation (s.chat.onDeleteDialog env id).1 id := by
  intro h
  have hrest : ((chatLts twoFilesEnv).run ⟨newChat, false⟩ backToFirst).any (fun s =>
      2 ≤ s.chat.manager.dialogs.length ∧ s.chat.manager.getDialog 1 = some 1 ∧
        s.chat.manager.activeDialog = some 0 ∧
        (s.chat.onDeleteDialog twoFilesEnv 1).1.manager.activeDialog = some 2) = true := by
    decide
  obtain ⟨s, hs⟩ := Option.isSome_iff_exists.mp (Option.isSome_of_any hrest)
  rw [hs] at hrest
  obtain ⟨hlen, hget, hactive, hafter⟩ := of_decide_eq_true hrest
  have hrun := Lts.run_cons_eq_some.mpr
    ⟨_, @step_load_blank twoFilesEnv [] Utf8.isBlank_decode_nil, hs⟩
  have hkept := h twoFilesEnv [] backToFirst s hrun hlen 1 1 hget (by rw [hactive]; decide)
  have hsame := hkept.active
  rw [hafter, hactive] at hsame
  cases hsame

end Reloadium.Ai
