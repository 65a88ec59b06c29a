import Reloadium.Ai.LiveDialog
import Reloadium.Ai.FailedPass
import Reloadium.Lib.Refs

namespace Reloadium.Ai

open Reloadium.Lib

/-!
# Ai — what the operations of a live dialog do to the streams

Two things of a live dialog matter to a stream: the state of its message (`Live.aiState`)
and the submit button.  This module says, operation by operation, how they change:

* `aiState_modifyAi`, `aiState_addMessage`, `aiState_append` — the assignments;
* `addUserMessage_adds` — a user message brings at most one new stream;
* `Moves`, `moves_of_step` — every way in which the state of one message changes in a step.
-/

namespace Live

variable {env : LiveEnv} {s : Live} {ref k : Nat}

/-! ### Assignments -/

/-- A message that is not there yet has no stream. -/
theorem aiState_of_le (h : s.objects.length ≤ k) : s.aiState k = .new := by
  rw [aiState, List.getElem?_eq_none h]
  rfl

theorem aiState_modifyAi (s : Live) (ref k : Nat) (f : AiState → AiState) :
    (s.modifyAi ref f).aiState k =
      if k = ref ∧ ref < s.objects.length then f (s.aiState ref) else s.aiState k := by
  unfold modifyAi modify aiState
  rw [List.getElem?_modify]
  by_cases hk : k = ref
  · subst hk
    by_cases hlt : k < s.objects.length
    · rw [if_pos ⟨rfl, hlt⟩, List.getElem?_eq_getElem hlt]
      simp
    · rw [if_neg fun h => hlt h.2, List.getElem?_eq_none (Nat.le_of_not_lt hlt)]
      rfl
  · rw [if_neg fun h => hk h.1]
    simp [Ne.symm hk]

theorem aiState_onComplete (s : Live) (ref k : Nat) :
    (s.onComplete ref).aiState k =
      if k = ref ∧ ref < s.objects.length then
        { s.aiState ref with phase := .closed, completed := true }
      else s.aiState k :=
  aiState_modifyAi s ref k fun a => { a with phase := .closed, completed := true }

theorem aiState_onStreamComplete (s : Live) (ref k : Nat) :
    (s.onStreamComplete ref).aiState k =
      if k = ref ∧ ref < s.objects.length then
        { s.aiState ref with generating := false, phase := .completing }
      else s.aiState k :=
  aiState_modifyAi ..

theorem aiState_modify_body (s : Live) (ref k : Nat) (body : Message) :
    (s.modify ref fun m => { m with body }).aiState k = s.aiState k := by
  unfold modify aiState
  rw [List.getElem?_modify]
  cases s.objects[k]? with
  | none => rfl
  | some m => by_cases hk : ref = k <;> simp [hk]

theorem aiState_addMessage (s : Live) (m : LiveMessage) (k : Nat) :
    (s.addMessage m).aiState k = if k = s.objects.length then m.ai else s.aiState k := by
  unfold addMessage aiState
  simp only [getElem?_concat]
  split
  · rfl
  · rfl

/-- A new message without a stream changes no state. -/
theorem aiState_addMessage_new {m : LiveMessage} (hm : m.ai = .new) (k : Nat) :
    (s.addMessage m).aiState k = s.aiState k := by
  rw [aiState_addMessage]
  split
  · next hk => rw [hm, aiState_of_le (Nat.le_of_eq hk.symm)]
  · rfl

/-- Appending changes no state, whether it throws or not. -/
theorem aiState_append (s : Live) (ref k : Nat) (chunk : JString) :
    (s.append env ref chunk).1.aiState k = s.aiState k := by
  unfold append
  split
  · rfl
  · split <;> exact aiState_modify_body ..

theorem objects_append (s : Live) (ref : Nat) (chunk : JString) :
    (s.append env ref chunk).1.objects[ref]? =
      (s.objects[ref]?).map fun m => { m with body := left (m.body.append env.parser chunk) } := by
  unfold Live.append
  cases hm : s.objects[ref]? with
  | none => simpa using hm
  | some m =>
    cases happend : m.body.append env.parser chunk with
    | ok body => simp [Live.modify, hm, left, happend]
    | error body => simp [Live.modify, hm, left, happend]

theorem length_append (s : Live) (ref : Nat) (chunk : JString) :
    (s.append env ref chunk).1.objects.length = s.objects.length := by
  unfold append
  split
  · rfl
  · split <;> exact List.length_modify ..

theorem submitButton_append (s : Live) (ref : Nat) (chunk : JString) :
    (s.append env ref chunk).1.submitButton = s.submitButton := by
  unfold append
  split
  · rfl
  · split <;> rfl

theorem aiState_addReMessage (s : Live) (type : MessageType) (k : Nat) :
    (s.addReMessage env type).aiState k = s.aiState k := by
  unfold addReMessage
  split
  · rfl
  · split
    · rfl
    · exact aiState_addMessage_new rfl k

theorem length_addReMessage_le (s : Live) (type : MessageType) :
    s.objects.length ≤ (s.addReMessage env type).objects.length := by
  unfold addReMessage
  split
  · exact Nat.le_refl _
  · split
    · exact Nat.le_refl _
    · simp [addMessage]

theorem aiState_onFailure (s : Live) (hlt : ref < s.objects.length) :
    (s.onFailure env ref).aiState ref = { s.aiState ref with phase := .failed } := by
  -- whatever Re message comes in between, this one is changed once
  have hmodify : ∀ t : Live, s.objects.length ≤ t.objects.length →
      t.aiState ref = s.aiState ref →
      (t.modifyAi ref fun a => { a with phase := .failed }).aiState ref =
        { s.aiState ref with phase := .failed } := by
    intro t hlen hai
    rw [aiState_modifyAi, if_pos ⟨rfl, Nat.lt_of_lt_of_le hlt hlen⟩, hai]
  unfold onFailure
  dsimp only
  split
  · exact hmodify _ (length_addReMessage_le ..) (aiState_addReMessage ..)
  · split
    · exact hmodify _ (length_addReMessage_le ..) (aiState_addReMessage ..)
    · exact hmodify s (Nat.le_refl _) rfl

theorem length_onFailure_le (s : Live) (ref : Nat) :
    s.objects.length ≤ (s.onFailure env ref).objects.length := by
  have hmodify : ∀ t : Live, s.objects.length ≤ t.objects.length →
      s.objects.length ≤ (t.modifyAi ref fun a => { a with phase := .failed }).objects.length := by
    intro t hlen
    simpa [modifyAi, modify] using hlen
  unfold onFailure
  dsimp only
  split
  · exact hmodify _ (length_addReMessage_le ..)
  · split
    · exact hmodify _ (length_addReMessage_le ..)
    · exact hmodify s (Nat.le_refl _)

/-! ### A user message -/

/-- `s'` is `s` with at most one new stream: none, one that ended at once because the message
    was too long, or one that is queued. -/
def Adds (s s' : Live) : Prop :=
  (s'.submitButton = s.submitButton ∧ ∀ k, s'.aiState k = s.aiState k) ∨
    ∃ n, s.objects.length ≤ n ∧ (∀ k, k ≠ n → s'.aiState k = s.aiState k) ∧
      ((s'.submitButton = .SUBMIT ∧ s'.aiState n = { AiState.new with completed := true }) ∨
        (s'.submitButton = s.submitButton ∧
          s'.aiState n = { AiState.new with generating := true, phase := .queued }))

/-- What was done before that touches no stream does not matter. -/
theorem Adds.of_same {s₀ s s' : Live} (h : Adds s s') (hlen : s₀.objects.length ≤ s.objects.length)
    (hbutton : s.submitButton = s₀.submitButton) (hai : ∀ k, s.aiState k = s₀.aiState k) :
    Adds s₀ s' := by
  rcases h with ⟨hb, hk⟩ | ⟨n, hn, hother, hnew⟩
  · exact Or.inl ⟨hb.trans hbutton, fun k => (hk k).trans (hai k)⟩
  · refine Or.inr ⟨n, Nat.le_trans hlen hn, fun k hk => (hother k hk).trans (hai k), ?_⟩
    rw [hbutton] at hnew
    exact hnew

theorem Adds.refl (s : Live) : Adds s s := Or.inl ⟨rfl, fun _ => rfl⟩

/-- `start` on a message of the dialog. -/
theorem start_adds (hai : s.aiState ref = .new) (hlt : ref < s.objects.length)
    {s₀ : Live} (hlen : s₀.objects.length ≤ ref) (hbutton : s.submitButton = s₀.submitButton)
    (hsame : ∀ k, s.aiState k = s₀.aiState k) (history : List MessageModel) :
    Adds s₀ (s.start env ref history).1 := by
  unfold start
  split
  · -- the text that says so is appended first
    have hai' : ∀ k, (s.append env ref (.ofString "Ai Message too long")).1.aiState k =
        s₀.aiState k := fun k => (aiState_append s ref k _).trans (hsame k)
    have hbutton' := (@submitButton_append env s ref (.ofString "Ai Message too long")).trans
      hbutton
    have hlt' : ref < (s.append env ref (.ofString "Ai Message too long")).1.objects.length := by
      rw [length_append]
      exact hlt
    split
    · next happend =>
      rw [happend] at hai' hbutton'
      exact Or.inl ⟨hbutton', hai'⟩
    · next happend =>
      rw [happend] at hai' hlt'
      refine Or.inr ⟨ref, hlen, fun k hk => ?_, Or.inl ⟨rfl, ?_⟩⟩
      · rw [aiState_onComplete, if_neg fun h => hk h.1]
        exact hai' k
      · rw [aiState_onComplete, if_pos ⟨rfl, hlt'⟩, show Live.aiState _ ref = _ from hai' ref,
          ← hsame, hai]
        rfl
  · refine Or.inr ⟨ref, hlen, fun k hk => ?_, Or.inr ⟨hbutton, ?_⟩⟩
    · rw [aiState_modifyAi, if_neg fun h => hk h.1]
      exact hsame k
    · rw [aiState_modifyAi, if_pos ⟨rfl, hlt⟩, hai]

theorem addAiMessage_adds (s : Live) : Adds s (s.addAiMessage env).1 := by
  unfold addAiMessage
  split
  · exact Adds.refl s
  · next history _ =>
    apply start_adds
    · rw [aiState_addMessage, if_pos rfl]
    · simp [addMessage]
    · exact Nat.le_refl _
    · rfl
    · exact fun k => aiState_addMessage_new rfl k

theorem proposeName_same (s : Live) (content : JString) (throws : Bool) :
    (s.proposeName env content throws).1.objects = s.objects ∧
      (s.proposeName env content throws).1.submitButton = s.submitButton := by
  unfold proposeName
  split
  · exact ⟨rfl, rfl⟩
  · split <;> exact ⟨rfl, rfl⟩

theorem trackContextChange_same (s : Live) (newContext : JString) :
    (s.trackContextChange newContext).objects = s.objects ∧
      (s.trackContextChange newContext).submitButton = s.submitButton := by
  unfold trackContextChange
  split <;> exact ⟨rfl, rfl⟩

/-- The state of the streams is a matter of the messages. -/
theorem aiState_congr {s s' : Live} (h : s'.objects = s.objects) (k : Nat) :
    s'.aiState k = s.aiState k := by rw [aiState, aiState, h]

/-- **A user message brings at most one new stream.** -/
theorem addUserMessage_adds (s : Live) (content newContext : JString) (throws : Bool) :
    Adds s (s.addUserMessage env content newContext throws).1 := by
  unfold addUserMessage
  split
  · exact Adds.refl s
  · next body _ =>
    have hname : (if s.name = NEW_CHAT_NAME then s.proposeName env content throws
          else (s, true)).1.objects = s.objects ∧
        (if s.name = NEW_CHAT_NAME then s.proposeName env content throws
          else (s, true)).1.submitButton = s.submitButton := by
      split
      · exact proposeName_same ..
      · exact ⟨rfl, rfl⟩
    split
    · next s₁ heq =>
      rw [heq] at hname
      exact Or.inl ⟨hname.2, aiState_congr hname.1⟩
    · next s₁ heq =>
      rw [heq] at hname
      obtain ⟨htrack, hbutton⟩ := trackContextChange_same s₁ newContext
      -- the user's message itself has no stream
      have hai : ∀ k, ((s₁.trackContextChange newContext).addMessage
          { type := .USER, context := newContext, body, ai := .new }).aiState k = s.aiState k := by
        intro k
        rw [aiState_addMessage_new rfl]
        exact aiState_congr (htrack.trans hname.1) k
      have hbutton := hbutton.trans hname.2
      dsimp only
      split
      · exact Or.inl ⟨hbutton, hai⟩
      · refine (addAiMessage_adds _).of_same ?_ hbutton hai
        simp [addMessage, htrack, show s₁.objects = s.objects from hname.1]

/-- `Prompt.submit` on a free prompt with something to submit, or without effect. -/
theorem submit_cases (s : Live) (prompt newContext : JString) (throws : Bool) :
    s.submit env prompt newContext throws = s ∨
      (s.submitButton = .SUBMIT ∧ prompt.strip ≠ [] ∧
        Adds { s with submitButton := .STOP } (s.submit env prompt newContext throws)) := by
  unfold submit
  split
  · exact Or.inl rfl
  · next hbutton =>
    dsimp only
    split
    · exact Or.inl rfl
    · next hempty =>
      refine Or.inr ⟨?_, by simpa using hempty, addUserMessage_adds ..⟩
      cases hb : s.submitButton with
      | SUBMIT => rfl
      | STOP => exact absurd hb hbutton

/-! ### All other steps -/

end Live

/-- The ways in which a step other than a submission changes the state of one message.  The
    flag tells whether the step frees the prompt. -/
inductive AiMove : AiState → Bool → AiState → Prop
  | stay (a) : AiMove a false a
  | cancel (a) (c : Bool) (h : a.cancelled = true → c = true) :
      AiMove a false { a with cancelled := c }
  | makeCall (a) (adapter) (h : a.phase = .queued) :
      AiMove a false { a with phase := .streaming, client := some adapter }
  | callThrows (a) (h : a.phase = .queued) : AiMove a false { a with phase := .closed }
  | storeCall (a) : AiMove a false { a with call := a.client }
  | error (a) (h : a.phase = .streaming) :
      AiMove a false { a with generating := false, phase := .failing }
  | errorThrows (a) (h : a.phase = .streaming) : AiMove a false { a with phase := .closed }
  | complete (a) (h : a.phase = .streaming) :
      AiMove a false { a with generating := false, phase := .completing }
  | failure (a) (h : a.phase = .failing) : AiMove a true { a with phase := .failed }
  | done (a) (h : a.phase = .failed ∨ a.phase = .completing) :
      AiMove a true { a with phase := .closed, completed := true }

namespace Live

variable {env : LiveEnv} {s : Live} {ref : Nat}

/-- One message moves, and the prompt is freed by some of the moves. -/
def Moves (s s' : Live) : Prop :=
  ∃ ref frees, AiMove (s.aiState ref) frees (s'.aiState ref) ∧
    (∀ k, k ≠ ref → s'.aiState k = s.aiState k) ∧
    s'.submitButton = if frees then .SUBMIT else s.submitButton

theorem Moves.of_same {s s' : Live} (hobjects : s'.objects = s.objects)
    (hbutton : s'.submitButton = s.submitButton) : Moves s s' := by
  refine ⟨0, false, ?_, fun k _ => aiState_congr hobjects k, hbutton⟩
  rw [aiState_congr hobjects]
  exact AiMove.stay _

/-- A message with a stream is a message of the dialog. -/
theorem lt_of_phase (h : (s.aiState ref).phase ≠ .closed) : ref < s.objects.length := by
  by_contra hle
  rw [aiState_of_le (Nat.le_of_not_lt hle)] at h
  exact h rfl

/-- An assignment to a message with a stream is a move of that message. -/
theorem moves_modifyAi {s' t : Live} (f : AiState → AiState) (frees : Bool)
    (hphase : (s.aiState ref).phase ≠ .closed) (hai : ∀ k, t.aiState k = s.aiState k)
    (hlen : s.objects.length ≤ t.objects.length)
    (hs' : s'.objects = (t.modifyAi ref f).objects)
    (hmove : AiMove (s.aiState ref) frees (f (s.aiState ref)))
    (hbutton : s'.submitButton = if frees then .SUBMIT else s.submitButton) : Moves s s' := by
  have hlt : ref < t.objects.length := Nat.lt_of_lt_of_le (lt_of_phase hphase) hlen
  refine ⟨ref, frees, ?_, fun k hk => ?_, hbutton⟩
  · rw [aiState_congr hs', aiState_modifyAi, if_pos ⟨rfl, hlt⟩, hai]
    exact hmove
  · rw [aiState_congr hs', aiState_modifyAi, if_neg fun h => hk h.1, hai]

/-- An assignment that changes nothing in a state without a stream. -/
theorem moves_of_quiet {s' : Live} (f : AiState → AiState) (hs' : s' = s.modifyAi ref f)
    (hmove : AiMove (s.aiState ref) false (f (s.aiState ref))) : Moves s s' := by
  subst hs'
  by_cases hlt : ref < s.objects.length
  · refine ⟨ref, false, ?_, fun k hk => ?_, rfl⟩
    · rw [aiState_modifyAi, if_pos ⟨rfl, hlt⟩]
      exact hmove
    · rw [aiState_modifyAi, if_neg fun h => hk h.1]
  · refine ⟨ref, false, ?_, fun k hk => ?_, rfl⟩
    · rw [aiState_modifyAi, if_neg fun h => hlt h.2]
      exact AiMove.stay _
    · rw [aiState_modifyAi, if_neg fun h => hk h.1]

theorem cancel_moves (s : Live) : Moves s s.cancel.1 := by
  unfold cancel
  split
  · exact Moves.of_same rfl rfl
  · apply moves_of_quiet _ rfl
    apply AiMove.cancel
    intro hcancelled
    rw [hcancelled, Bool.true_or]

theorem onStreamError_moves (hphase : (s.aiState ref).phase = .streaming)
    (message : Option JString) : Moves s (s.onStreamError env ref message).1 := by
  have hne : (s.aiState ref).phase ≠ .closed := by rw [hphase]; decide
  unfold onStreamError
  cases message with
  | none =>
    exact moves_modifyAi _ false hne (fun _ => rfl) (Nat.le_refl _) rfl
      (.errorThrows _ hphase) rfl
  | some text =>
    have hai := fun k => @aiState_append env s ref k text
    have hlen := Nat.le_of_eq (@length_append env s ref text).symm
    have hbutton := @submitButton_append env s ref text
    dsimp only
    split
    · exact moves_modifyAi _ false hne hai hlen rfl (.error _ hphase) hbutton
    · exact moves_modifyAi _ false hne hai hlen rfl (.errorThrows _ hphase) hbutton

theorem onFailure_moves (hphase : (s.aiState ref).phase = .failing) :
    Moves s (s.onFailure env ref) := by
  have hne : (s.aiState ref).phase ≠ .closed := by rw [hphase]; decide
  unfold onFailure
  dsimp only
  -- a Re message may be added on the way
  split
  · exact moves_modifyAi (fun a => { a with phase := .failed }) true hne
      (aiState_addReMessage s _) (length_addReMessage_le s _) rfl (.failure _ hphase) rfl
  · split
    · exact moves_modifyAi (fun a => { a with phase := .failed }) true hne
        (aiState_addReMessage s _) (length_addReMessage_le s _) rfl (.failure _ hphase) rfl
    · exact moves_modifyAi (fun a => { a with phase := .failed }) true hne
        (fun _ => rfl) (Nat.le_refl _) rfl (.failure _ hphase) rfl

theorem nameProposed_same (s : Live) (p epoch : Nat) (answer : JString) :
    (s.nameProposed p epoch answer).objects = s.objects ∧
      (s.nameProposed p epoch answer).submitButton = s.submitButton := by
  unfold nameProposed
  dsimp only
  split <;> exact ⟨rfl, rfl⟩

/-- **What a step other than a submission does to the streams.** -/
theorem moves_of_step {s' : Live} {e : DialogEvent} (h : s.step env e = some s')
    (he : ∀ prompt newContext throws, e ≠ .submit prompt newContext throws) : Moves s s' := by
  cases e with
  | submit prompt newContext throws => exact absurd rfl (he _ _ _)
  | cancel =>
    cases h
    exact cancel_moves s
  | clear =>
    cases h
    exact Moves.of_same rfl rfl
  | rename newName =>
    cases h
    exact Moves.of_same rfl rfl
  | makeCall ref client =>
    simp only [step] at h
    split at h
    · next hphase =>
      have hne : (s.aiState ref).phase ≠ .closed := by rw [hphase]; decide
      cases client with
      | none =>
        cases h
        exact moves_modifyAi _ false hne (fun _ => rfl) (Nat.le_refl _) rfl
          (.callThrows _ hphase) rfl
      | some adapter =>
        cases h
        exact moves_modifyAi _ false hne (fun _ => rfl) (Nat.le_refl _) rfl
          (.makeCall _ adapter hphase) rfl
    · cases h
  | storeCall ref =>
    cases h
    exact moves_of_quiet _ rfl (AiMove.storeCall _)
  | onMessage ref chunk =>
    simp only [step] at h
    split at h
    · cases h
      refine ⟨ref, false, ?_, fun k _ => aiState_append .., submitButton_append ..⟩
      rw [aiState_append]
      exact AiMove.stay _
    · cases h
  | onError ref message =>
    simp only [step] at h
    split at h
    · next hphase =>
      have hne : (s.aiState ref).phase ≠ .closed := by rw [hphase]; decide
      cases h
      exact onStreamError_moves hphase message
    · cases h
  | onComplete ref =>
    simp only [step] at h
    split at h
    · next hphase =>
      have hne : (s.aiState ref).phase ≠ .closed := by rw [hphase]; decide
      cases h
      exact moves_modifyAi _ false hne (fun _ => rfl) (Nat.le_refl _) rfl
        (.complete _ hphase) rfl
    · cases h
  | listenerOnFailure ref =>
    simp only [step] at h
    split at h
    · next hphase =>
      cases h
      exact onFailure_moves hphase
    · cases h
  | listenerOnComplete ref =>
    simp only [step] at h
    split at h
    · next hphase =>
      have hne : (s.aiState ref).phase ≠ .closed := by
        rcases hphase with hphase | hphase <;> rw [hphase] <;> decide
      cases h
      exact moves_modifyAi (fun a => { a with phase := .closed, completed := true }) true hne
        (fun _ => rfl) (Nat.le_refl _) rfl (.done _ hphase) rfl
    · cases h
  | nameProposed p answer =>
    simp only [step] at h
    split at h
    · next epoch _ =>
      cases h
      obtain ⟨hobjects, hbutton⟩ := nameProposed_same s p epoch answer
      exact Moves.of_same hobjects hbutton
    · cases h
  | nameFailed p =>
    simp only [step] at h
    split at h
    · cases h
      exact Moves.of_same rfl rfl
    · cases h

end Live

end Reloadium.Ai
