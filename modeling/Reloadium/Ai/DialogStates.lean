import Reloadium.Ai.Identity

namespace Reloadium.Ai

open Reloadium.Lib

/-!
# Ai — what holds of every dialog, and of the active one

Two invariants of the dialogs themselves, and the rule they share.

* `DialogManager.Dialogs P Q` — every dialog created satisfies `P`, and the active one
  satisfies `Q`; one lemma for each thing that the manager does;
* `DialogManager.Ready` — the active dialog is loaded, and loaded dialogs have messages: as
  long as nothing throws;
* `DialogManager.Settled` — loading the messages of the active dialog, or of a loaded one,
  once more would change no model: in every run (`settled_of_run`).
-/

namespace DialogManager

variable {env : Env} {m m' : DialogManager} {id : Int32} {ref : Nat} {file : Bytes}
  {P Q : Dialog → Prop} {d : Dialog}

/-- Every dialog created satisfies `P`, and the active one is there and satisfies `Q`. -/
structure Dialogs (P Q : Dialog → Prop) (m : DialogManager) : Prop where
  all : ∀ (ref : Nat) (d : Dialog), m.objects[ref]? = some d → P d
  active : ∀ ref, m.activeDialog = some ref → ∃ d : Dialog, m.objects[ref]? = some d ∧ Q d

namespace Dialogs

/-- The map and the counter do not matter. -/
theorem congr (h : m.Dialogs P Q) (hobjects : m'.objects = m.objects)
    (hactive : m'.activeDialog = m.activeDialog) : m'.Dialogs P Q :=
  ⟨fun ref d hd => h.all ref d (hobjects ▸ hd),
    fun ref href => hobjects ▸ h.active ref (hactive ▸ href)⟩

theorem modify (h : m.Dialogs P Q) {g : Dialog → Dialog}
    (hP : ∀ d, m.objects[ref]? = some d → P d → P (g d))
    (hQ : ∀ d, m.objects[ref]? = some d → Q d → Q (g d)) : (m.modify ref g).Dialogs P Q := by
  have hget : ∀ k, (m.modify ref g).objects[k]? =
      (m.objects[k]?).map fun d => if ref = k then g d else d :=
    fun k => List.getElem?_modify g ref m.objects k
  refine ⟨fun k d hd => ?_, fun k hactive => ?_⟩
  · rw [hget] at hd
    obtain ⟨d', hd', rfl⟩ := Option.map_eq_some_iff.mp hd
    split
    · next heq =>
      subst heq
      exact hP d' hd' (h.all ref d' hd')
    · exact h.all k d' hd'
  · obtain ⟨d, hd, hQd⟩ := h.active k hactive
    refine ⟨_, by rw [hget, hd]; rfl, ?_⟩
    split
    · next heq =>
      subst heq
      exact hQ d hd hQd
    · exact hQd

theorem putDialog (h : m.Dialogs P Q) (id : Int32) {dialog : Dialog} (hP : P dialog) :
    (m.putDialog id dialog).Dialogs P Q := by
  refine ⟨fun k d hd => ?_, fun k hactive => ?_⟩
  · rcases List.mem_append.mp (List.mem_of_getElem? hd) with hmem | hmem
    · obtain ⟨k', hk'⟩ := List.mem_iff_getElem?.mp hmem
      exact h.all k' d hk'
    · exact (List.mem_singleton.mp hmem) ▸ hP
  · obtain ⟨d, hd, hQd⟩ := h.active k hactive
    refine ⟨d, ?_, hQd⟩
    show (m.objects ++ [dialog])[k]? = some d
    rw [List.getElem?_append_left (List.getElem?_eq_some_iff.mp hd).1, hd]

theorem newDialog (h : m.Dialogs P Q) (hP : P (.new (m.idCounter + 1) none))
    (hQ : Q (.new (m.idCounter + 1) none)) : m.newDialog.1.Dialogs P Q := by
  have hput := h.putDialog (m.idCounter + 1) hP
  refine ⟨hput.all, fun k hactive => ?_⟩
  cases hactive
  exact ⟨_, List.getElem?_concat_length, hQ⟩

theorem filled (h : m.Dialogs P Q) (hP : ∀ d : DialogModel, P (.new d.id (some d)))
    (models : List (Option DialogModel)) : (m.filled models).Dialogs P Q := by
  induction models generalizing m with
  | nil => exact h
  | cons d rest ih =>
    refine @ih (m.loadDialog d) ?_
    cases d with
    | none => exact h
    | some d =>
      rw [loadDialog_some]
      exact (h.putDialog d.id (hP d)).congr rfl rfl

/-- No dialog is active. -/
theorem deactivate (env : Env) (h : m.Dialogs P Q) : (m.setActiveDialog env none).1.Dialogs P Q :=
  ⟨h.all, fun ref hactive => by cases hactive⟩

/-- **Activating a dialog**, whether that returns or not. -/
theorem setActiveDialog (h : m.Dialogs P Q) (hd : m.objects[ref]? = some d)
    (hloaded : d.loaded = true → P d → Q d)
    (hload : d.loaded = false → P (d.loadMessages env.toToolkit).1 ∧
      Q (d.loadMessages env.toToolkit).1) :
    (m.setActiveDialog env (some ref)).1.Dialogs P Q := by
  have hP := h.all ref d hd
  unfold DialogManager.setActiveDialog
  simp only [hd]
  cases hl : d.loaded with
  | true =>
    refine ⟨h.all, fun k hactive => ?_⟩
    cases hactive
    exact ⟨d, hd, hloaded hl hP⟩
  | false =>
    obtain ⟨hP', hQ'⟩ := hload hl
    refine ⟨fun k d' hd' => ?_, fun k hactive => ?_⟩
    · -- the dialog is the loaded one, or one that was there
      have hset : (m.objects.set ref (d.loadMessages env.toToolkit).1)[k]? = some d' := hd'
      rw [List.getElem?_set] at hset
      by_cases hk : ref = k
      · rw [if_pos hk, if_pos (List.getElem?_eq_some_iff.mp hd).1, Option.some.injEq] at hset
        exact hset ▸ hP'
      · rw [if_neg hk] at hset
        exact h.all k d' hset
    · cases hactive
      exact ⟨_, List.getElem?_set_self (List.getElem?_eq_some_iff.mp hd).1, hQ'⟩

end Dialogs

/-! ### Loaded dialogs -/

/-- A loaded dialog has its messages, and the active dialog is loaded. -/
def Ready (m : DialogManager) : Prop :=
  m.Dialogs (fun d => d.loaded = true → d.model.messages.isSome = true) fun d => d.loaded = true

/-- The messages of the active dialog can be asked whether they are empty. -/
theorem Ready.newDialogReturns {c : Chat} (h : c.manager.Ready) :
    c.newDialogReturns = true := by
  unfold Chat.newDialogReturns
  cases hactive : c.manager.activeDialog with
  | none => rfl
  | some ref =>
    obtain ⟨d, hd, hloaded⟩ := h.active ref hactive
    rw [Option.bind_some, hd]
    exact h.all ref d hd hloaded

theorem Ready.modify (h : m.Ready) {g : Dialog → Dialog}
    (hg : ∀ d, m.objects[ref]? = some d → d.Changes (g d)) : (m.modify ref g).Ready := by
  refine Dialogs.modify h (fun d hd hmessages hloaded => ?_) fun d hd hloaded => ?_
  · rw [(hg d hd).loaded] at hloaded
    exact (hg d hd).messages (hmessages hloaded)
  · rw [(hg d hd).loaded]
    exact hloaded

/-- Activating a dialog, when that returns. -/
theorem Ready.setActiveDialog (h : m.Ready)
    (hreturns : (m.setActiveDialog env (some ref)).2 = true) :
    (m.setActiveDialog env (some ref)).1.Ready := by
  obtain ⟨d, hd, hopens⟩ := (setActiveDialog_returns_iff m ref).mp hreturns
  refine Dialogs.setActiveDialog h hd (fun hloaded _ => hloaded) fun hnot => ?_
  have hloadable : d.Loadable env.toToolkit := hopens.resolve_left (by simp [hnot])
  obtain ⟨messages, hmessages, -⟩ := id hloadable
  simp only [loadMessages_loaded, hnot, Bool.false_or, loadMessages_model, rebuildModel_eq,
    hmessages]
  exact ⟨fun _ => rfl, (loadMessages_returns_iff d).mpr hloadable⟩

theorem Ready.newDialog (h : m.Ready) : m.newDialog.1.Ready :=
  Dialogs.newDialog h (fun _ => rfl) rfl

theorem Ready.filled (h : m.Ready) (models : List (Option DialogModel)) :
    (m.filled models).Ready :=
  -- a dialog of the file is not loaded
  Dialogs.filled h (fun _ hloaded => by cases hloaded) models

/-! ### Settled models -/

/-- Loading the messages once more would not change the model. -/
def Fixed (kit : Toolkit) (d : Dialog) : Prop := Dialog.rebuildModel kit d.model = d.model

/-- The model of the active dialog, and of every loaded one, is as loading would leave it. -/
def Settled (kit : Toolkit) (m : DialogManager) : Prop :=
  m.Dialogs (fun d => d.loaded = true → Fixed kit d) (Fixed kit)

/-- Loading a dialog settles its model, also when it throws. -/
theorem fixed_loadMessages (kit : Toolkit) (d : Dialog) : Fixed kit (d.loadMessages kit).1 := by
  rw [Fixed, loadMessages_model, rebuildModel_rebuildModel]

theorem Settled.modify {kit : Toolkit} (h : m.Settled kit) {g : Dialog → Dialog}
    (hg : ∀ d, m.objects[ref]? = some d → d.Changes (g d)) : (m.modify ref g).Settled kit := by
  refine Dialogs.modify h (fun d hd hfixed hloaded => ?_) fun d hd hfixed => ?_
  · rw [(hg d hd).loaded] at hloaded
    exact (hg d hd).settled kit (hfixed hloaded)
  · exact (hg d hd).settled kit hfixed

theorem Settled.activate (h : m.Settled env.toToolkit) (hkeyed : m.Keyed)
    (hget : m.getDialog id = some ref) :
    (m.setActiveDialog env (some ref)).1.Settled env.toToolkit := by
  obtain ⟨d, hd, -⟩ := hkeyed.dialog hget
  refine Dialogs.setActiveDialog h hd (fun hloaded hfixed => hfixed hloaded) fun _ => ?_
  exact ⟨fun _ => fixed_loadMessages _ d, fixed_loadMessages _ d⟩

theorem Settled.newDialog {kit : Toolkit} (h : m.Settled kit) : m.newDialog.1.Settled kit :=
  Dialogs.newDialog h (fun _ => rfl) rfl

theorem Settled.move (h : m.Settled env.toToolkit) (hkeyed : m.Keyed)
    (hmove : ManagerMove env m m') : m'.Settled env.toToolkit := by
  cases hmove with
  | stay => exact h
  | change ref f hf => exact h.modify hf
  | activate hget => exact h.activate hkeyed hget
  | delete hget =>
    exact Settled.activate (Dialogs.congr h rfl rfl) (hkeyed.remove _) hget

theorem Settled.load (h : m.Settled env.toToolkit) (hkeyed : m.Keyed) :
    (m.load env file).1.Settled env.toToolkit := by
  rcases load_cases env m file with hload | ⟨fileContent, models, -, -, hload⟩
  · rw [hload]
    exact h
  · rw [hload]
    have hfilled : (m.filled models).Settled env.toToolkit :=
      Dialogs.filled h (fun _ hloaded => by cases hloaded) models
    cases hget : fileContent.activeDialogId.bind (m.filled models).getDialog with
    | none => exact Dialogs.deactivate env hfilled
    | some ref =>
      obtain ⟨id, -, hid⟩ := Option.bind_eq_some_iff.mp hget
      exact hfilled.activate (hkeyed.filled models) hid

end DialogManager

/-! ### Runs -/

variable {env : Env} {s : ChatRun}

/-- **One operation** leaves the models settled. -/
theorem Chat.settled_exec {c : Chat} {e : ChatEvent} (h : c.manager.Settled env.toToolkit)
    (hkeyed : c.manager.Keyed) (henabled : c.enabled e) :
    (c.exec env e).1.manager.Settled env.toToolkit := by
  cases e with
  | load file =>
    have hload : (c.manager.load env file).1.Settled env.toToolkit := h.load hkeyed
    show (c.load env file).manager.Settled env.toToolkit
    cases hcontent : (c.manager.load env file).2 with
    | some fileContent =>
      rw [Chat.manager_load_of_some (by rw [hcontent]; rfl)]
      exact hload
    | none =>
      rw [Chat.load_of_none hcontent, Chat.manager_newDialog]
      split
      · exact hload.newDialog
      · exact hload
  | newDialogPressed narrow =>
    show (c.onNewDialogPressed env narrow).1.manager.Settled env.toToolkit
    rw [Chat.manager_onNewDialogPressed]
    split
    · exact h.newDialog
    · exact h
  | _ =>
    have hmove := @Chat.managerMove_of_exec env _ _ hkeyed henabled (fun _ => by simp)
      fun _ => by simp
    exact h.move hkeyed hmove

/-- **In every run** the models are settled. -/
theorem settled_of_run {events : List ChatEvent}
    (hrun : (chatLts env).run (chatLts env).init events = some s) :
    s.chat.manager.Settled env.toToolkit := by
  have hinv : ∀ (s : ChatRun) (e : ChatEvent) (s' : ChatRun),
      s.chat.manager.Keyed ∧ s.chat.manager.Settled env.toToolkit →
        (chatLts env).step s e = some s' →
          s'.chat.manager.Keyed ∧ s'.chat.manager.Settled env.toToolkit := by
    rintro s e s' ⟨hkeyed, hsettled⟩ hstep
    obtain ⟨henabled, hchat, -⟩ := chatRun_step hstep
    rw [hchat]
    exact ⟨Chat.keyed_exec hkeyed henabled, Chat.settled_exec hsettled hkeyed henabled⟩
  have hinit : DialogManager.new.Keyed ∧ DialogManager.new.Settled env.toToolkit :=
    ⟨keyed_new, fun ref d hd => (by cases hd), fun ref hactive => (by cases hactive)⟩
  exact (@Lts.invariant_of_run _ _ _ (fun s : ChatRun => _ ∧ _) hinv _ _ _ hinit hrun).2

end Reloadium.Ai
