import Reloadium.Ai.SubmitLock

namespace Reloadium.Ai

open Reloadium.Lib

/-!
# Ai — cancelling an answer

`Dialog.cancel` looks at the last message of the dialog only, and can stop a stream only
through a handle that is stored already and that OkHttp made.

* `AiState.Muted` — no chunk can be delivered to the message any more;
* `silenced_step` — a message that was started and is mute stays mute;
* `cancelStops_iff` — when cancelling returns and makes a generating message mute.
-/

/-- No chunk is delivered to the message any more: its stream is over, or OkHttp's event
    source is cancelled. -/
def AiState.Muted (a : AiState) : Prop :=
  (a.phase ≠ .queued ∧ a.phase ≠ .streaming) ∨ a.cancelled = true

/-- The message has been started at some time. -/
def AiState.Used (a : AiState) : Prop :=
  a.generating = true ∨ a.completed = true ∨ a.phase.Ended

/-- Cancelling returns, and no chunk that is delivered after it changes the content of the
    message. -/
structure CancelStops (env : LiveEnv) (s : Live) (ref : Nat) : Prop where
  returns : s.cancel.2 = true
  silent : ∀ events s₁ chunk s₂, (dialogLts env s.id).run s.cancel.1 events = some s₁ →
    s₁.step env (.onMessage ref chunk) = some s₂ →
      (s₂.objects[ref]?).map LiveMessage.body = (s₁.objects[ref]?).map LiveMessage.body

/-! ### Mute messages stay mute -/

variable {a a' : AiState} {frees : Bool}

theorem AiMove.used (h : AiMove a frees a') (ha : a.Used) : a'.Used := by
  cases h with
  | stay => exact ha
  | cancel c hc => exact ha
  | makeCall adapter hphase => simpa [AiState.Used, Phase.Ended, hphase] using ha
  | callThrows hphase => simpa [AiState.Used, Phase.Ended, hphase] using ha
  | storeCall => exact ha
  | error hphase => exact Or.inr (Or.inr (Or.inl rfl))
  | errorThrows hphase => simpa [AiState.Used, Phase.Ended, hphase] using ha
  | complete hphase => exact Or.inr (Or.inr (Or.inr (Or.inr rfl)))
  | failure hphase => exact Or.inr (Or.inr (Or.inr (Or.inl rfl)))
  | done hphase => exact Or.inr (Or.inl rfl)

theorem AiMove.muted (h : AiMove a frees a') (ha : a.Muted) : a'.Muted := by
  cases h with
  | stay => exact ha
  | cancel c hc => exact ha.imp_right hc
  | makeCall adapter hphase =>
    -- a queued stream is mute only when it is cancelled
    simp only [AiState.Muted, hphase] at ha
    exact Or.inr (by simpa using ha)
  | callThrows hphase => exact Or.inl (by simp)
  | storeCall => exact ha
  | error hphase => exact Or.inl (by simp)
  | errorThrows hphase => exact Or.inl (by simp)
  | complete hphase => exact Or.inl (by simp)
  | failure hphase => exact Or.inl (by simp)
  | done hphase => exact Or.inl (by simp)

variable {env : LiveEnv} {s s' : Live} {ref : Nat}

theorem not_used_new : ¬ AiState.new.Used := by
  simp [AiState.Used, AiState.new, Phase.Ended]

/-- A message that has been started is a message of the dialog. -/
theorem lt_of_used (h : (s.aiState ref).Used) : ref < s.objects.length := by
  by_contra hle
  rw [Live.aiState_of_le (Nat.le_of_not_lt hle)] at h
  exact not_used_new h

/-- A message that was started and is mute. -/
def Silenced (ref : Nat) (s : Live) : Prop := (s.aiState ref).Used ∧ (s.aiState ref).Muted

theorem silenced_step {e : DialogEvent} (h : Silenced ref s) (hstep : s.step env e = some s') :
    Silenced ref s' := by
  by_cases hsubmit : ∃ prompt newContext throws, e = .submit prompt newContext throws
  · obtain ⟨prompt, newContext, throws, rfl⟩ := hsubmit
    cases hstep
    -- a submission leaves every message there is as it was
    have hsame : (s.submit env prompt newContext throws).aiState ref = s.aiState ref := by
      rcases s.submit_cases prompt newContext throws with heq | ⟨_, _, hadds⟩
      · rw [heq]
      · rcases hadds with ⟨_, hsame⟩ | ⟨n, hn, hother, _⟩
        · exact hsame ref
        · have hlt := lt_of_used h.1
          exact hother ref (Nat.ne_of_lt (Nat.lt_of_lt_of_le hlt hn))
    rw [Silenced, hsame]
    exact h
  · obtain ⟨r, frees, hmove, hother, _⟩ :=
      Live.moves_of_step hstep fun p c t heq => hsubmit ⟨p, c, t, heq⟩
    by_cases href : ref = r
    · subst href
      exact ⟨hmove.used h.1, hmove.muted h.2⟩
    · rw [Silenced, hother ref href]
      exact h

/-! ### A chunk changes the content -/

/-- A chunk that is not empty changes the content, also when it throws. -/
theorem content_ne_of_append (hlt : ref < s.objects.length) (u : UInt16) (chunk : JString) :
    ((s.append env ref (u :: chunk)).1.objects[ref]?).map LiveMessage.body ≠
      (s.objects[ref]?).map LiveMessage.body := by
  rw [Live.objects_append, List.getElem?_eq_getElem hlt]
  intro heq
  rw [Option.map_some, Option.map_some, Option.map_some, Option.some.injEq] at heq
  have htext := congrArg (fun b : Message => b.rawContent.length) heq
  simp [append_rawContent] at htext

/-! ### Cancelling -/

theorem aiState_cancel (s : Live) (hlt : ref < s.objects.length) :
    s.cancel.1.aiState ref =
      if s.messages.getLast? = some ref then
        { s.aiState ref with
          cancelled := (s.aiState ref).cancelled || (s.aiState ref).call = some .OpenAi }
      else s.aiState ref := by
  unfold Live.cancel
  cases hlast : s.messages.getLast? with
  | none => simp
  | some last =>
    show (s.modifyAi last fun a =>
      { a with cancelled := a.cancelled || a.call = some .OpenAi }).aiState ref = _
    rw [Live.aiState_modifyAi]
    by_cases href : ref = last
    · subst href
      simp [hlt]
    · simp [href, Ne.symm href]

theorem cancel_returns (s : Live) : s.cancel.2 = true ↔ s.messages ≠ [] := by
  unfold Live.cancel
  cases hlast : s.messages.getLast? with
  | none => simpa using hlast
  | some last =>
    have hne : s.messages ≠ [] := by
      rintro heq
      rw [heq] at hlast
      cases hlast
    simp [hne]

/-- A chunk can still come to a message that is not mute, whichever client it uses. -/
theorem not_silent_of_not_muted {id : Int32} (hlt : ref < s.objects.length)
    (hmuted : ¬ (s.aiState ref).Muted) :
    ∃ events s₁ chunk s₂, (dialogLts env id).run s events = some s₁ ∧
      s₁.step env (.onMessage ref chunk) = some s₂ ∧
        (s₂.objects[ref]?).map LiveMessage.body ≠ (s₁.objects[ref]?).map LiveMessage.body := by
  obtain ⟨hphase, hcancelled⟩ := not_or.mp hmuted
  rw [Bool.not_eq_true] at hcancelled
  by_cases hstreaming : (s.aiState ref).phase = .streaming
  · -- the next chunk does it
    refine ⟨[], s, [0x78], (s.append env ref [0x78]).1, rfl, ?_, content_ne_of_append hlt 0x78 []⟩
    exact if_pos ⟨hstreaming, hcancelled⟩
  · have hqueued : (s.aiState ref).phase = .queued := by
      by_contra hne
      exact hphase ⟨hne, hstreaming⟩
    -- first the worker calls the client
    let s₁ := s.modifyAi ref fun a => { a with phase := .streaming, client := some .You }
    have hlt₁ : ref < s₁.objects.length := by
      simpa [s₁, Live.modifyAi, Live.modify] using hlt
    have hai : s₁.aiState ref =
        { s.aiState ref with phase := .streaming, client := some .You } := by
      rw [Live.aiState_modifyAi, if_pos ⟨rfl, hlt⟩]
    refine ⟨[.makeCall ref (some .You)], s₁, [0x78], (s₁.append env ref [0x78]).1, ?_, ?_,
      content_ne_of_append hlt₁ 0x78 []⟩
    · refine Lts.run_cons_eq_some.mpr ⟨s₁, ?_, rfl⟩
      exact if_pos hqueued
    · refine if_pos ?_
      rw [hai]
      exact ⟨rfl, hcancelled⟩

/-- **Cancel stops the answer**: for a message that is generating, exactly when the dialog
    has messages, and either the message is mute already or it is the last one and its call
    is stored and OkHttp's. -/
theorem cancelStops_iff (hgen : (s.aiState ref).generating = true) :
    CancelStops env s ref ↔
      s.messages ≠ [] ∧ ((s.aiState ref).Muted ∨
        (s.messages.getLast? = some ref ∧ (s.aiState ref).call = some .OpenAi)) := by
  have hused : (s.aiState ref).Used := Or.inl hgen
  have hlt := lt_of_used hused
  have hcancel := aiState_cancel s hlt
  have hlen : ref < s.cancel.1.objects.length := by
    unfold Live.cancel
    split
    · exact hlt
    · simpa [Live.modifyAi, Live.modify] using hlt
  apply Iff.intro
  · rintro ⟨hreturns, hsilent⟩
    refine ⟨(cancel_returns s).mp hreturns, ?_⟩
    by_contra hcond
    obtain ⟨hmuted, hhandle⟩ := not_or.mp hcond
    -- cancelling has left the message as it was
    have hsame : ¬ (s.cancel.1.aiState ref).Muted := by
      rw [hcancel]
      split
      · next hlast =>
        have hcall : ¬ (s.aiState ref).call = some .OpenAi := fun hcall => hhandle ⟨hlast, hcall⟩
        simpa [hcall] using hmuted
      · exact hmuted
    obtain ⟨events, s₁, chunk, s₂, hrun, hstep, hne⟩ := not_silent_of_not_muted hlen hsame
    exact hne (hsilent events s₁ chunk s₂ hrun hstep)
  · rintro ⟨hmessages, hcond⟩
    refine ⟨(cancel_returns s).mpr hmessages, fun events s₁ chunk s₂ hrun hstep => ?_⟩
    have hsilenced : Silenced ref s.cancel.1 := by
      rw [Silenced, hcancel]
      rcases hcond with hmuted | ⟨hlast, hcall⟩
      · split
        · exact ⟨hused, hmuted.imp_right fun h => by simp [h]⟩
        · exact ⟨hused, hmuted⟩
      · rw [if_pos hlast]
        exact ⟨hused, Or.inr (by simp [hcall])⟩
    have hinv : ∀ t e t', Silenced ref t → (dialogLts env s.id).step t e = some t' →
        Silenced ref t' := fun t e t' ht hstep => silenced_step ht hstep
    have hafter := Lts.invariant_of_run hinv hsilenced hrun
    -- so that the chunk cannot be delivered at all
    have henabled : (s₁.aiState ref).phase = .streaming ∧ (s₁.aiState ref).cancelled = false := by
      by_contra hno
      rw [show s₁.step env (.onMessage ref chunk) = none from if_neg hno] at hstep
      cases hstep
    rcases hafter.2 with hphase | hcancelled
    · exact absurd henabled.1 hphase.2
    · rw [henabled.2] at hcancelled
      cases hcancelled

theorem cancelStops_iff_greeted :
    CancelStops plainEnv greeted 1 ↔
      greeted.messages ≠ [] ∧ ((greeted.aiState 1).Muted ∨
        (greeted.messages.getLast? = some 1 ∧ (greeted.aiState 1).call = some .OpenAi)) :=
  cancelStops_iff (by decide)

/-- After the dialog has been cleared, cancelling throws, and the answer goes on. -/
theorem cancel_after_clear :
    ∃ s, (dialogLts plainEnv 0).run (.new 0) [.submit (.ofString "Hello") [] false, .clear] =
        some s ∧ (s.aiState 1).generating = true ∧ ¬ CancelStops plainEnv s 1 := by
  have hgen : (greeted.clear.aiState 1).generating = true := by decide
  exact ⟨greeted.clear, rfl, hgen, fun h => (cancel_returns _).mp h.returns rfl⟩

end Reloadium.Ai
