import Reloadium.Ai.RejectedFile
import Reloadium.Ai.UsedDialog

namespace Reloadium.Ai

open Reloadium.Lib

/-!
# Ai — the identity of the dialogs

Under every sequence of operations of the chat, also those that throw, every key of the map
is the id of its dialog, the map is not empty, and the active dialog is in it.  The counter
is an upper bound of the ids until it wraps around.

* `Identified`, `keyed_exec`, `activeIn_exec` — the first three facts, after every operation;
* `Numbered`, `bounded_exec` — the counter is an upper bound, so that the next id is new, as
  long as no dialog is created at the greatest id;
* `identity_of_run` — hence both for every run.
-/

namespace DialogManager

/-- The keys are the ids of the dialogs, there is one at least, and the active dialog is one
    of them. -/
structure Identified (m : DialogManager) : Prop where
  nodup : (m.dialogs.map Prod.fst).Nodup
  key : ∀ id ∈ m.dialogs.map Prod.fst, ∃ d, m.dialogOf id = some d ∧ d.model.id = id
  nonempty : m.dialogs ≠ []
  active : ∃ id ref, m.getDialog id = some ref ∧ m.activeDialog = some ref

/-- The counter is at least every id, so that the next dialog replaces none. -/
structure Numbered (m : DialogManager) : Prop where
  le : ∀ id ∈ m.dialogs.map Prod.fst, id ≤ m.idCounter
  fresh : m.idCounter ≠ Int32.maxValue → m.getDialog (m.idCounter + 1) = none

variable {env : Env} {m m' : DialogManager} {id : Int32} {file : Bytes}

theorem Keyed.dialogOf (h : m.Keyed) (hmem : id ∈ m.dialogs.map Prod.fst) :
    ∃ d, m.dialogOf id = some d ∧ d.model.id = id := by
  obtain ⟨ref, hget⟩ := Option.isSome_iff_exists.mp (mem_keys_iff.mp hmem)
  obtain ⟨d, hd, hid⟩ := h.dialog hget
  exact ⟨d, by rw [DialogManager.dialogOf, hget, Option.bind_some, hd], hid⟩

theorem mem_keys_iff_dialogOf (hkeyed : m.Keyed) :
    id ∈ m.dialogs.map Prod.fst ↔ (m.dialogOf id).isSome = true := by
  apply Iff.intro
  · intro hmem
    obtain ⟨d, hd, -⟩ := hkeyed.dialogOf hmem
    rw [hd]
    rfl
  · rw [DialogManager.mem_keys_iff, DialogManager.dialogOf]
    cases m.getDialog id with
    | none => exact fun hsome => hsome
    | some ref => exact fun _ => rfl

theorem identified_of_keyed (h : m.Keyed) (hactive : m.ActiveIn) : m.Identified := by
  refine ⟨h.nodup, fun id hmem => h.dialogOf hmem, ?_, hactive⟩
  obtain ⟨id, ref, hget, -⟩ := hactive
  exact List.ne_nil_of_mem (Assoc.mem_of_lookup hget)

/-! ### Keys and the active dialog -/

theorem Keyed.move (h : m.Keyed) (hmove : ManagerMove env m m') : m'.Keyed := by
  cases hmove with
  | stay => exact h
  | change ref f hf => exact h.modify fun d hd => (hf d hd).id
  | activate hget => exact h.setActiveDialog _
  | delete hget => exact (h.remove _).setActiveDialog _

theorem ActiveIn.move (h : m.ActiveIn) (hmove : ManagerMove env m m') : m'.ActiveIn := by
  cases hmove with
  | stay => exact h
  | change ref f hf => exact h
  | activate hget => exact activeIn_setActiveDialog hget
  | delete hget => exact activeIn_setActiveDialog hget

/-! ### The counter -/

/-- The counter is at least every id. -/
def Bounded (m : DialogManager) : Prop := ∀ id ∈ m.dialogs.map Prod.fst, id ≤ m.idCounter

theorem lt_succ_of_ne_max {i : Int32} (h : i ≠ Int32.maxValue) : i < i + 1 := by
  have hne : i.toInt ≠ 2 ^ 31 - 1 := by
    rw [← Int32.toInt_maxValue]
    exact fun heq => h (Int32.toInt_inj.mp heq)
  have hle := Int32.le_toInt i
  have hlt := Int32.toInt_lt i
  rw [Int32.lt_iff_toInt_lt, Int32.toInt_add, Int32.toInt_one, Int.bmod_eq_of_le] <;> omega

theorem Bounded.numbered (h : m.Bounded) : m.Numbered := by
  refine ⟨h, fun hne => ?_⟩
  rw [getDialog, Assoc.lookup_eq_none_iff]
  intro hmem
  have hle := Int32.le_iff_toInt_le.mp (h _ hmem)
  have hlt := Int32.lt_iff_toInt_lt.mp (lt_succ_of_ne_max hne)
  omega

theorem Bounded.loadDialog (h : m.Bounded) (d : Option DialogModel) :
    (m.loadDialog d).Bounded := by
  cases d with
  | none => exact h
  | some d =>
    rw [loadDialog_some]
    intro id hmem
    show id ≤ if d.id ≤ m.idCounter then m.idCounter else d.id
    have hid : id = d.id ∨ id ≤ m.idCounter := (Assoc.mem_keys_put.mp hmem).imp_right (h id)
    split
    · next hle =>
      rcases hid with rfl | hid
      · exact hle
      · exact hid
    · next hgt =>
      have hlt := Int32.lt_iff_toInt_lt.mp (Int32.not_le.mp hgt)
      rcases hid with rfl | hid
      · exact Int32.le_iff_toInt_le.mpr (Int.le_refl _)
      · have hle := Int32.le_iff_toInt_le.mp hid
        exact Int32.le_iff_toInt_le.mpr (by omega)

theorem Bounded.load (h : m.Bounded) : (m.load env file).1.Bounded := by
  have hfilled : ∀ (models : List (Option DialogModel)) (m : DialogManager), m.Bounded →
      (m.filled models).Bounded := by
    intro models
    induction models with
    | nil => exact fun m h => h
    | cons d rest ih => exact fun m h => ih _ (h.loadDialog d)
  rcases load_cases env m file with hload | ⟨fileContent, models, -, -, hload⟩
  · rw [hload]
    exact h
  · rw [hload]
    obtain ⟨hdialogs, hcounter, -⟩ := @setActiveDialog_frame env (m.filled models)
      (fileContent.activeDialogId.bind (m.filled models).getDialog)
    intro id hmem
    rw [hdialogs] at hmem
    rw [hcounter]
    exact hfilled models m h id hmem

theorem Bounded.newDialog (h : m.Bounded) (hne : m.idCounter ≠ Int32.maxValue) :
    m.newDialog.1.Bounded := by
  intro id hmem
  show id ≤ m.idCounter + 1
  rcases Assoc.mem_keys_put.mp hmem with rfl | hmem
  · exact Int32.le_iff_toInt_le.mpr (Int.le_refl _)
  · have hle := Int32.le_iff_toInt_le.mp (h id hmem)
    have hlt := Int32.lt_iff_toInt_lt.mp (lt_succ_of_ne_max hne)
    exact Int32.le_iff_toInt_le.mpr (by omega)

theorem Bounded.setActiveDialog (h : m.Bounded) (dialog : Option Nat) :
    (m.setActiveDialog env dialog).1.Bounded := by
  obtain ⟨hdialogs, hcounter, -⟩ := @setActiveDialog_frame env m dialog
  intro id hmem
  rw [hdialogs] at hmem
  rw [hcounter]
  exact h id hmem

theorem Bounded.without (h : m.Bounded) (id : Int32) : (m.without id).Bounded :=
  fun _ hmem => h _ (Assoc.mem_keys_remove.mp hmem).1

theorem Bounded.move (h : m.Bounded) (hmove : ManagerMove env m m') : m'.Bounded := by
  cases hmove with
  | stay => exact h
  | change ref f hf => exact h
  | activate hget => exact h.setActiveDialog _
  | delete hget => exact (h.without _).setActiveDialog _

end DialogManager

/-! ### The chat -/

/-- No dialog is created while the counter is at the greatest id. -/
def NoWrap (env : Env) (s : ChatRun) : ChatEvent → Prop
  | .load file =>
    (s.chat.manager.load env file).2 = none →
      Chat.creates { s.chat with manager := (s.chat.manager.load env file).1 } = true →
        (s.chat.manager.load env file).1.idCounter ≠ Int32.maxValue
  | .newDialogPressed _ =>
    s.chat.creates = true → s.chat.manager.idCounter ≠ Int32.maxValue
  | _ => True

namespace Chat

variable {env : Env} {c : Chat} {e : ChatEvent} {file : Bytes}

/-- A chat without an active dialog creates one. -/
theorem creates_of_active_none (h : c.manager.activeDialog = none) : c.creates = true := by
  rw [creates, h]
  rfl

/-- **Loading** any file leaves the map keyed, and the active dialog in it. -/
theorem keyed_load (hkeyed : c.manager.Keyed) : (c.load env file).manager.Keyed := by
  have hkeyed' : (c.manager.load env file).1.Keyed := hkeyed.load
  cases hload : (c.manager.load env file).2 with
  | some fileContent =>
    rw [manager_load_of_some (by rw [hload]; rfl)]
    exact hkeyed'
  | none =>
    rw [load_of_none hload, manager_newDialog]
    split
    · exact hkeyed'.newDialog
    · exact hkeyed'

theorem activeIn_load (hactive : c.manager.activeDialog = none ∨ c.manager.ActiveIn) :
    (c.load env file).manager.ActiveIn := by
  have hactive' := @DialogManager.activeIn_load env _ file hactive
  cases hload : (c.manager.load env file).2 with
  | some fileContent =>
    rw [manager_load_of_some (by rw [hload]; rfl)]
    refine hactive'.resolve_left fun h => ?_
    rw [hload] at h
    cases h.2
  | none =>
    rw [load_of_none hload, manager_newDialog]
    split
    · exact DialogManager.activeIn_newDialog _
    · next hcreates => exact hactive'.resolve_left fun h => hcreates (creates_of_active_none h.1)

/-- **One operation** keeps the map keyed. -/
theorem keyed_exec (hkeyed : c.manager.Keyed) (henabled : c.enabled e) :
    (c.exec env e).1.manager.Keyed := by
  cases e with
  | load file => exact keyed_load hkeyed
  | newDialogPressed narrow =>
    show (c.onNewDialogPressed env narrow).1.manager.Keyed
    rw [manager_onNewDialogPressed]
    split
    · exact hkeyed.newDialog
    · exact hkeyed
  | _ =>
    have hmove := @managerMove_of_exec env _ _ hkeyed henabled (fun _ => by simp) fun _ => by simp
    exact hkeyed.move hmove

/-- **One operation** keeps the active dialog in the map. -/
theorem activeIn_exec (hkeyed : c.manager.Keyed) (hactive : c.manager.ActiveIn)
    (henabled : c.enabled e) : (c.exec env e).1.manager.ActiveIn := by
  cases e with
  | load file => exact activeIn_load (Or.inr hactive)
  | newDialogPressed narrow =>
    show (c.onNewDialogPressed env narrow).1.manager.ActiveIn
    rw [manager_onNewDialogPressed]
    split
    · exact DialogManager.activeIn_newDialog _
    · exact hactive
  | _ =>
    have hmove := @managerMove_of_exec env _ _ hkeyed henabled (fun _ => by simp) fun _ => by simp
    exact hactive.move hmove

/-- **One operation** that creates no dialog at the greatest id. -/
theorem bounded_exec {threw : Bool} (hkeyed : c.manager.Keyed) (hbounded : c.manager.Bounded)
    (henabled : c.enabled e) (hwrap : NoWrap env ⟨c, threw⟩ e) :
    (c.exec env e).1.manager.Bounded := by
  cases e with
  | load file =>
    have hload : (c.manager.load env file).1.Bounded := hbounded.load
    show (c.load env file).manager.Bounded
    cases hcontent : (c.manager.load env file).2 with
    | some fileContent =>
      rw [manager_load_of_some (by rw [hcontent]; rfl)]
      exact hload
    | none =>
      rw [load_of_none hcontent, manager_newDialog]
      split
      · next hcreates => exact hload.newDialog (hwrap hcontent hcreates)
      · exact hload
  | newDialogPressed narrow =>
    show (c.onNewDialogPressed env narrow).1.manager.Bounded
    rw [manager_onNewDialogPressed]
    split
    · next hcreates => exact hbounded.newDialog (hwrap hcreates)
    · exact hbounded
  | _ =>
    have hmove := @managerMove_of_exec env _ _ hkeyed henabled (fun _ => by simp) fun _ => by simp
    exact hbounded.move hmove

end Chat

/-! ### Runs -/

variable {env : Env} {s s' : ChatRun} {e : ChatEvent}

/-- A step executes an event that is enabled. -/
theorem chatRun_step (hstep : (chatLts env).step s e = some s') :
    s.chat.enabled e = true ∧ s'.chat = (s.chat.exec env e).1 ∧
      s'.threw = (s.threw || !(s.chat.exec env e).2) := by
  have hstep' : (if s.chat.enabled e then
      some { chat := (s.chat.exec env e).1, threw := s.threw || !(s.chat.exec env e).2 }
    else none) = some s' := hstep
  split at hstep'
  · next henabled =>
    cases hstep'
    exact ⟨henabled, rfl, rfl⟩
  · cases hstep'

/-- An event that is enabled. -/
theorem chatRun_step_of_enabled (h : s.chat.enabled e = true) :
    (chatLts env).step s e =
      some ⟨(s.chat.exec env e).1, s.threw || !(s.chat.exec env e).2⟩ := if_pos h

theorem keyed_new : DialogManager.new.Keyed := ⟨List.nodup_nil, fun _ _ hget => by cases hget⟩

/-- **In every run** the map is keyed, with the active dialog in it. -/
theorem keyed_of_run {file : Bytes} {events : List ChatEvent}
    (hrun : (chatLts env).run (chatLts env).init (.load file :: events) = some s) :
    s.chat.manager.Keyed ∧ s.chat.manager.ActiveIn := by
  obtain ⟨opened, hopened, hrest⟩ := Lts.run_cons_eq_some.mp hrun
  obtain ⟨-, hchat, -⟩ := chatRun_step hopened
  have hopen : opened.chat.manager.Keyed ∧ opened.chat.manager.ActiveIn := by
    rw [hchat]
    exact ⟨Chat.keyed_load keyed_new, Chat.activeIn_load (Or.inl rfl)⟩
  have hinv : ∀ (s : ChatRun) (e : ChatEvent) (s' : ChatRun),
      s.chat.manager.Keyed ∧ s.chat.manager.ActiveIn → (chatLts env).step s e = some s' →
        s'.chat.manager.Keyed ∧ s'.chat.manager.ActiveIn := by
    rintro s e s' ⟨hkeyed, hactive⟩ hstep
    obtain ⟨henabled, hchat, -⟩ := chatRun_step hstep
    rw [hchat]
    exact ⟨Chat.keyed_exec hkeyed henabled, Chat.activeIn_exec hkeyed hactive henabled⟩
  exact @Lts.invariant_of_run _ _ _ (fun s : ChatRun => _ ∧ _) hinv _ _ _ hopen hrest

/-- **In every run** that creates no dialog at the greatest id, the counter is a bound. -/
theorem bounded_of_run {events : List ChatEvent}
    (hmeets : (chatLts env).Meets (NoWrap env) (chatLts env).init events)
    (hrun : (chatLts env).run (chatLts env).init events = some s) :
    s.chat.manager.Bounded := by
  have hinv : ∀ (s : ChatRun) (e : ChatEvent) (s' : ChatRun),
      s.chat.manager.Keyed ∧ s.chat.manager.Bounded → NoWrap env s e →
        (chatLts env).step s e = some s' → s'.chat.manager.Keyed ∧ s'.chat.manager.Bounded := by
    rintro s e s' ⟨hkeyed, hbounded⟩ hwrap hstep
    obtain ⟨henabled, hchat, -⟩ := chatRun_step hstep
    rw [hchat]
    exact ⟨Chat.keyed_exec hkeyed henabled, Chat.bounded_exec hkeyed hbounded henabled hwrap⟩
  have hinit : DialogManager.new.Keyed ∧ DialogManager.new.Bounded :=
    ⟨keyed_new, fun id hmem => by cases hmem⟩
  exact (@Lts.invariant_of_meets _ _ _ _ (fun s : ChatRun => _ ∧ _) hinv _ _ _ hinit hmeets hrun).2

/-- **The identity of the dialogs**, in every run of a chat from its constructor, over every
    file: the keys are the ids of the dialogs, there is one at least, and the active dialog is
    one of them; and the counter is at least every id, so that a new dialog replaces none, as
    long as no dialog is created while the counter is at the greatest id. -/
theorem identity_of_run (env : Env) (file : Bytes) (events : List ChatEvent) (s : ChatRun)
    (hrun : (chatLts env).run (chatLts env).init (.load file :: events) = some s) :
    s.chat.manager.Identified ∧
      ((chatLts env).Meets (NoWrap env) (chatLts env).init (.load file :: events) →
        s.chat.manager.Numbered) := by
  obtain ⟨hkeyed, hactive⟩ := keyed_of_run hrun
  refine ⟨DialogManager.identified_of_keyed hkeyed hactive, fun hmeets => ?_⟩
  exact (bounded_of_run hmeets hrun).numbered

/-! ### Chats over one file -/

/-- Opening a blank file: a new chat. -/
theorem step_load_blank {file : Bytes} (hblank : (Utf8.decode file).isBlank = true) :
    (chatLts env).step (chatLts env).init (.load file) = some ⟨newChat, false⟩ := by
  have hload : DialogManager.new.load env file = (.new, none) :=
    DialogManager.load_of_not_readable (Or.inl hblank)
  have hexec : Chat.new.exec env (.load file) = (newChat, true) := by
    rw [Chat.exec_load, show Chat.new.manager = .new from rfl, hload]
    rfl
  show some (ChatRun.mk (Chat.new.exec env (.load file)).1
    (false || !(Chat.new.exec env (.load file)).2)) = _
  rw [hexec]
  rfl

/-- Two uses of a new chat: a message, and a new dialog. -/
def askAndCreate : List ChatEvent := [.used 0 (asked 0), .newDialogPressed false]

theorem identity_of_two_dialogs :
    ∃ s, (chatLts twoFilesEnv).run (chatLts twoFilesEnv).init (.load [] :: askAndCreate) =
        some s ∧
      s.chat.manager.Identified ∧ s.chat.manager.Numbered := by
  have hopen := @step_load_blank twoFilesEnv [] Utf8.isBlank_decode_nil
  have hrest : ((chatLts twoFilesEnv).run ⟨newChat, false⟩ askAndCreate).isSome = true := by
    decide
  obtain ⟨s, hs⟩ := Option.isSome_iff_exists.mp hrest
  have hrun := Lts.run_cons_eq_some.mpr ⟨_, hopen, hs⟩
  obtain ⟨hidentified, hnumbered⟩ := identity_of_run twoFilesEnv [] askAndCreate s hrun
  refine ⟨s, hrun, hidentified, hnumbered (Lts.meets_cons hopen ?_ ?_)⟩
  · have hload : DialogManager.new.load twoFilesEnv [] = (.new, none) :=
      DialogManager.load_of_not_readable (Or.inl Utf8.isBlank_decode_nil)
    intro _ _
    show (DialogManager.new.load twoFilesEnv []).1.idCounter ≠ Int32.maxValue
    rw [hload]
    decide
  · -- a message leaves the counter at 0
    refine ⟨trivial, fun used hused => ⟨fun _ => ?_, fun _ _ => trivial⟩⟩
    obtain ⟨-, hchat, -⟩ := chatRun_step hused
    rw [hchat]
    decide

theorem id_perm (entries : List (Int32 × Nat)) : (id entries).Perm entries := .refl entries

/-- Jackson on one text. -/
def oneFileEnv (kit : Toolkit) (jsonString : JString) (content : FileContent) : Env where
  toToolkit := kit
  readVersion s := if s = jsonString then content.version else none
  readValue s := if s = jsonString then some content else none
  writeValue c := if c = content then some jsonString else none
  order := id
  order_perm := id_perm
  writable := true

/-- Reading that text. -/
theorem readContent_oneFile {kit : Toolkit} {text : String} {content : FileContent}
    {models : List (Option DialogModel)} (hversion : content.version = some FILE_VERSION)
    (hdialogs : content.dialogs = some models) :
    DialogManager.readContent (oneFileEnv kit (.ofString text) content)
      (Utf8.decode (Utf8.encode (.ofString text))) = some (content, models) := by
  rw [Utf8.decode_encode_ofString]
  simp [DialogManager.readContent, oneFileEnv, hversion, hdialogs]

/-! ### The counter wraps around -/

/-- A chat whose dialog has an id just below the greatest. -/
def highIdJson : String :=
  "\x7b\"version\":\"0.2.0\",\"activeDialogId\":2147483646," ++
  "\"uiState\":\x7b\"sidePanelOpen\":true\x7d,\"dialogs\":" ++
  "[\x7b\"name\":\"New chat\",\"id\":2147483646,\"messages\":[]\x7d]\x7d"

def highIdContent : FileContent where
  version := some FILE_VERSION
  activeDialogId := some 2147483646
  uiState := some true
  dialogs := some [some (.new 2147483646)]

def highIdEnv : Env :=
  oneFileEnv { countTokens := fun s => some (Int32.ofNat s.length), viewFails := fun _ => false }
    (.ofString highIdJson) highIdContent

def highIdFile : Bytes := Utf8.encode (.ofString highIdJson)

/-- The chat over that file. -/
def highIdChat : Chat :=
  (Chat.new.loadWith highIdEnv
    (((DialogManager.new.filled [some (.new 2147483646)]).setActiveDialog highIdEnv (some 0)).1,
      some highIdContent)).1

/-- Two new dialogs, each after a message in the one before. -/
def createTwice : List ChatEvent :=
  [.used 0 (asked 2147483646), .newDialogPressed false,
    .used 1 (asked 2147483647), .newDialogPressed false]

theorem step_load_highId :
    (chatLts highIdEnv).step (chatLts highIdEnv).init (.load highIdFile) =
      some ⟨highIdChat, false⟩ := by
  have hread : DialogManager.readContent highIdEnv (Utf8.decode highIdFile) =
      some (highIdContent, [some (.new 2147483646)]) := readContent_oneFile rfl rfl
  have hblank : (Utf8.decode highIdFile).isBlank = false := by
    rw [highIdFile, Utf8.decode_encode_ofString]
    decide +kernel
  have hload := @DialogManager.load_of_read highIdEnv .new _ _ _ hblank hread
  show some (ChatRun.mk (Chat.new.exec highIdEnv (.load highIdFile)).1
    (false || !(Chat.new.exec highIdEnv (.load highIdFile)).2)) = _
  rw [Chat.exec_load, show Chat.new.manager = .new from rfl, hload]
  decide

/-- A file with no id at the greatest, and two new dialogs: the counter is below every id. -/
theorem counter_wraps :
    (∀ model ∈ highIdContent.dialogs.getD [], ∀ d ∈ model, d.id < Int32.maxValue) ∧
      ∃ s, (chatLts highIdEnv).run (chatLts highIdEnv).init (.load highIdFile :: createTwice) =
          some s ∧
        ¬ s.chat.manager.Numbered := by
  refine ⟨by decide, ?_⟩
  have hrest : ((chatLts highIdEnv).run ⟨highIdChat, false⟩ createTwice).any (fun s =>
      s.chat.manager.idCounter = Int32.minValue ∧
        2147483646 ∈ s.chat.manager.dialogs.map Prod.fst) = true := by
    decide
  obtain ⟨s, hs⟩ := Option.isSome_iff_exists.mp (Option.isSome_of_any hrest)
  rw [hs] at hrest
  obtain ⟨hcounter, hmem⟩ := of_decide_eq_true hrest
  refine ⟨s, Lts.run_cons_eq_some.mpr ⟨_, step_load_highId, hs⟩, fun h => ?_⟩
  have hle := h.le _ hmem
  rw [hcounter] at hle
  revert hle
  decide

end Reloadium.Ai
