import Reloadium.Ai.FailedPass
import Reloadium.Ai.LiveDialog

namespace Reloadium.Ai

open Reloadium.Lib

/-!
# Ai — the name of a dialog

A name proposal is requested when a long text is submitted in a dialog without a name; when
it completes it names the dialog, whatever has happened meanwhile.  A short text names such
a dialog at once.

* `NameKept` — the name is the user's choice, and no proposal from before a clear;
* `nameKept_step_iff` — the exact condition for one step;
* `nameKept_iff` — hence for all states of a run.
-/

/-- Once the user has chosen a name, the dialog has it; and a proposal that named the dialog
    was requested since the last clear. -/
structure NameKept (s : Live) : Prop where
  user : ∀ newName, s.userName = some newName → s.name = newName
  recent : ∀ epoch, s.namedBy = some epoch → epoch = s.epoch

/-- The step gives no name, or none that the user or a clear stands against: a proposal that
    completes was requested since the last clear, and proposes the user's choice if there is
    one; so does a short text that is submitted while the dialog is called "New chat". -/
def NamesRightly (env : LiveEnv) (s : Live) : DialogEvent → Prop
  | .nameProposed p answer =>
    ∀ epoch, s.proposals[p]? = some ⟨epoch, false⟩ →
      (Live.cleanName answer).isBlank = false →
        (∀ newName, s.userName = some newName → Live.cleanName answer = newName) ∧
          epoch = s.epoch
  | .submit prompt _ _ =>
    s.submitButton = .SUBMIT → prompt.strip ≠ [] → s.name = NEW_CHAT_NAME →
      prompt.strip.length ≤ 20 →
        ∀ newName, s.userName = some newName → env.capitalizeWords prompt.strip = newName
  | _ => True

namespace Live

/-- What naming is about. -/
def naming (s : Live) : JString × Nat × Option JString × Option Nat :=
  (s.name, s.epoch, s.userName, s.namedBy)

end Live

/-- The property is one of these fields. -/
theorem NameKept.congr {s s' : Live} (h : NameKept s) (heq : s'.naming = s.naming) :
    NameKept s' := by
  simp only [Live.naming, Prod.mk.injEq] at heq
  obtain ⟨hname, hepoch, huser, hnamed⟩ := heq
  refine ⟨fun n hn => ?_, fun e he => ?_⟩
  · rw [hname]
    exact h.user n (huser ▸ hn)
  · rw [hepoch]
    exact h.recent e (hnamed ▸ he)

namespace Live

variable {env : LiveEnv}

/-! ### What does not name the dialog -/

theorem naming_append (s : Live) (ref : Nat) (chunk : JString) :
    (s.append env ref chunk).1.naming = s.naming := by
  unfold append
  split
  · rfl
  · split <;> rfl

theorem naming_addReMessage (s : Live) (type : MessageType) :
    (s.addReMessage env type).naming = s.naming := by
  unfold addReMessage
  split
  · rfl
  · split <;> rfl

theorem naming_onFailure (s : Live) (ref : Nat) : (s.onFailure env ref).naming = s.naming := by
  unfold onFailure
  dsimp only
  split
  · exact naming_addReMessage ..
  · split
    · exact naming_addReMessage ..
    · rfl

theorem naming_onStreamError (s : Live) (ref : Nat) (message : Option JString) :
    (s.onStreamError env ref message).1.naming = s.naming := by
  unfold onStreamError
  cases message with
  | none => rfl
  | some text =>
    dsimp only
    split <;> exact naming_append ..

theorem naming_start (s : Live) (ref : Nat) (history : List MessageModel) :
    (s.start env ref history).1.naming = s.naming := by
  have happend := @naming_append env s ref (.ofString "Ai Message too long")
  unfold start
  split
  · split
    · next heq =>
      rw [heq] at happend
      exact happend
    · next heq =>
      rw [heq] at happend
      exact happend
  · rfl

theorem naming_addAiMessage (s : Live) : (s.addAiMessage env).1.naming = s.naming := by
  unfold addAiMessage
  split
  · rfl
  · exact naming_start ..

theorem naming_trackContextChange (s : Live) (newContext : JString) :
    (s.trackContextChange newContext).naming = s.naming := by
  unfold trackContextChange
  split <;> rfl

/-! ### What names it -/

/-- The user's text is set without an exception. -/
theorem exists_fresh_setRawContent (parser : Parser) (text : JString) :
    ∃ body, Message.fresh.setRawContent parser text = .ok body := by
  have hset := setRawContent_eq_refill parser text shows_fresh
  cases hleaves : parser.leaves text with
  | nil =>
    simp only [hleaves, refill] at hset
    exact ⟨_, hset.choose_spec.1⟩
  | cons n rest =>
    simp only [hleaves, refill] at hset
    exact ⟨_, hset.choose_spec.1⟩

/-- A user message names the dialog as `proposeName` does, and nothing else in it does. -/
theorem naming_addUserMessage (s : Live) (content newContext : JString) (throws : Bool) :
    (s.addUserMessage env content newContext throws).1.naming =
      if s.name = NEW_CHAT_NAME ∧ content.length ≤ 20 then
        (env.capitalizeWords content, s.epoch, s.userName, none)
      else s.naming := by
  obtain ⟨body, hbody⟩ := exists_fresh_setRawContent env.parser content
  -- what `proposeName` does to the name, whether it throws or not
  have hpropose : (if s.name = NEW_CHAT_NAME then s.proposeName env content throws
      else (s, true)).1.naming =
      if s.name = NEW_CHAT_NAME ∧ content.length ≤ 20 then
        (env.capitalizeWords content, s.epoch, s.userName, none)
      else s.naming := by
    by_cases hname : s.name = NEW_CHAT_NAME <;> by_cases hlen : content.length ≤ 20 <;>
      simp only [hname, hlen, proposeName, if_true, if_false, and_self, and_false, false_and]
    · rfl
    · cases throws <;> simp [naming, hname]
  unfold addUserMessage
  rw [hbody]
  dsimp only
  split
  · next heq =>
    rw [heq] at hpropose
    exact hpropose
  · next s₁ heq =>
    rw [heq] at hpropose
    refine Eq.trans ?_ hpropose
    split
    · exact naming_trackContextChange ..
    · exact (naming_addAiMessage _).trans (naming_trackContextChange ..)

end Live

/-! ### One step -/

variable {env : LiveEnv} {s s' : Live}

/-- A submission. -/
theorem nameKept_submit_iff (h : NameKept s) (prompt newContext : JString) (throws : Bool) :
    NameKept (s.submit env prompt newContext throws) ↔
      NamesRightly env s (.submit prompt newContext throws) := by
  unfold Live.submit
  by_cases hstop : s.submitButton = .STOP
  · rw [if_pos hstop]
    exact iff_of_true h fun hsubmit => by rw [hstop] at hsubmit; cases hsubmit
  · rw [if_neg hstop]
    dsimp only
    split
    · next hempty =>
      exact iff_of_true h fun _ hprompt => absurd (List.isEmpty_iff.mp hempty) hprompt
    · next hempty =>
      have hsubmit : s.submitButton = .SUBMIT := by
        cases hb : s.submitButton with
        | SUBMIT => rfl
        | STOP => exact absurd hb hstop
      have hprompt : prompt.strip ≠ [] := fun heq => hempty (List.isEmpty_iff.mpr heq)
      have hnaming := @Live.naming_addUserMessage env
        { s with submitButton := .STOP } prompt.strip newContext throws
      by_cases hshort : s.name = NEW_CHAT_NAME ∧ prompt.strip.length ≤ 20
      · -- the short text names the dialog
        rw [if_pos hshort] at hnaming
        simp only [Live.naming, Prod.mk.injEq] at hnaming
        obtain ⟨hname, _, huser, hnamed⟩ := hnaming
        refine ⟨fun h' _ _ _ _ n hn => ?_, fun hcond => ⟨fun n hn => ?_, fun e he => ?_⟩⟩
        · rw [← hname]
          exact h'.user n (huser.trans hn)
        · rw [hname]
          exact hcond hsubmit hprompt hshort.1 hshort.2 n (huser.symm.trans hn)
        · rw [hnamed] at he
          cases he
      · rw [if_neg hshort] at hnaming
        exact iff_of_true (h.congr hnaming) fun _ _ hname hlen => absurd ⟨hname, hlen⟩ hshort

/-- The completion of a proposal. -/
theorem nameKept_nameProposed_iff (h : NameKept s) {p epoch : Nat} (answer : JString)
    (hp : s.proposals[p]? = some ⟨epoch, false⟩) :
    NameKept (s.nameProposed p epoch answer) ↔ NamesRightly env s (.nameProposed p answer) := by
  unfold Live.nameProposed
  dsimp only
  by_cases hblank : (Live.cleanName answer).isBlank = true
  · rw [if_pos hblank]
    refine iff_of_true (h.congr rfl) fun e _ hno => ?_
    rw [hblank] at hno
    cases hno
  · rw [if_neg hblank]
    apply Iff.intro
    · intro h' e he _
      obtain rfl : epoch = e := by
        rw [hp, Option.some.injEq, Proposal.mk.injEq] at he
        exact he.1
      exact ⟨fun n hn => h'.user n hn, h'.recent epoch rfl⟩
    · intro hcond
      obtain ⟨huser, hepoch⟩ := hcond epoch hp (by simpa using hblank)
      refine ⟨huser, fun e he => ?_⟩
      obtain rfl := Option.some.inj he
      exact hepoch

/-- **One step keeps the user's name exactly when it names rightly.** -/
theorem nameKept_step_iff (e : DialogEvent) (h : NameKept s) (hstep : s.step env e = some s') :
    NameKept s' ↔ NamesRightly env s e := by
  -- the steps that leave the name alone
  have hsame : s'.naming = s.naming → NamesRightly env s e →
      (NameKept s' ↔ NamesRightly env s e) := fun heq he => iff_of_true (h.congr heq) he
  cases e with
  | submit prompt newContext throws =>
    cases hstep
    exact nameKept_submit_iff h prompt newContext throws
  | cancel =>
    cases hstep
    refine hsame ?_ trivial
    unfold Live.cancel
    split <;> rfl
  | clear =>
    cases hstep
    refine iff_of_true ⟨fun n hn => ?_, fun e he => ?_⟩ trivial
    · cases hn
    · cases he
  | rename newName =>
    cases hstep
    refine iff_of_true ⟨fun n hn => Option.some.inj hn, fun e he => ?_⟩ trivial
    cases he
  | makeCall ref client =>
    simp only [Live.step] at hstep
    split at hstep
    · cases client <;> cases hstep <;> exact hsame rfl trivial
    · cases hstep
  | storeCall ref =>
    cases hstep
    exact hsame rfl trivial
  | onMessage ref chunk =>
    simp only [Live.step] at hstep
    split at hstep <;> cases hstep
    exact hsame (Live.naming_append ..) trivial
  | onError ref message =>
    simp only [Live.step] at hstep
    split at hstep <;> cases hstep
    exact hsame (Live.naming_onStreamError ..) trivial
  | onComplete ref =>
    simp only [Live.step] at hstep
    split at hstep <;> cases hstep
    exact hsame rfl trivial
  | listenerOnFailure ref =>
    simp only [Live.step] at hstep
    split at hstep <;> cases hstep
    exact hsame (Live.naming_onFailure ..) trivial
  | listenerOnComplete ref =>
    simp only [Live.step] at hstep
    split at hstep <;> cases hstep
    exact hsame rfl trivial
  | nameProposed p answer =>
    simp only [Live.step] at hstep
    split at hstep
    · next epoch hp =>
      cases hstep
      exact nameKept_nameProposed_iff h answer hp
    · cases hstep
  | nameFailed p =>
    simp only [Live.step] at hstep
    split at hstep <;> cases hstep
    exact hsame rfl trivial

/-- A step that cannot be taken names nothing. -/
theorem namesRightly_of_none (e : DialogEvent) (hstep : s.step env e = none) :
    NamesRightly env s e := by
  cases e with
  | submit prompt newContext throws => cases hstep
  | nameProposed p answer =>
    intro epoch hp
    simp only [Live.step, hp] at hstep
    cases hstep
  | _ => trivial

/-- **A user's rename is never lost**, in the states of a run from a new dialog: exactly when
    every step of the run names rightly. -/
theorem nameKept_iff (env : LiveEnv) (id : Int32) (events : List DialogEvent) :
    (dialogLts env id).Always NameKept (.new id) events ↔
      (dialogLts env id).Meets (NamesRightly env) (.new id) events := by
  refine Lts.always_iff_meets (fun s e s' h hstep => nameKept_step_iff e h hstep)
    (fun s e hstep => namesRightly_of_none e hstep) ⟨fun n hn => ?_, fun e he => ?_⟩ events
  · cases hn
  · cases he

/-- A proposal is requested, the user renames the dialog, the proposal completes. -/
def lateProposal : List DialogEvent :=
  [.submit (.ofString "How do I read a file line by line?") [] false,
    .rename (.ofString "Files"), .nameProposed 0 (.ofString "Reading files")]

/-- The proposal replaces the user's name. -/
theorem rename_lost :
    ∃ s, (dialogLts plainEnv 0).run (.new 0) lateProposal = some s ∧ ¬ NameKept s := by
  have hrun : ((dialogLts plainEnv 0).run (.new 0) lateProposal).map
      (fun s => (s.userName, s.name)) =
        some (some (.ofString "Files"), .ofString "Reading files") := by
    decide
  obtain ⟨s, hs, heq⟩ := Option.map_eq_some_iff.mp hrun
  rw [Prod.mk.injEq] at heq
  refine ⟨s, hs, fun h => ?_⟩
  have hname := (h.user _ heq.1).symm.trans heq.2
  revert hname
  decide

end Reloadium.Ai
