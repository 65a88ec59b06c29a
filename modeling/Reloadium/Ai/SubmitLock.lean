import Reloadium.Ai.LiveStreams

namespace Reloadium.Ai

open Reloadium.Lib

/-!
# Ai — one generation at a time

The submit button is the only lock of a dialog: a submission sets it, and the listener of a
stream's terminal callback releases it.  `onError` calls the listener twice, and the first
call releases the button already.

* `OneAtATime` — what the button is there for;
* `Locked`, `locked_step` — the invariant: at most one stream is open, and while the prompt
  is free it stands between the two calls of its `onError`;
* `oneAtATime_of_run` — no submission in that gap, and the property holds in every run.
-/

/-- The message is generating, or its stream is not over. -/
def AiState.IsOpen (a : AiState) : Prop := a.generating = true ∨ a.phase ≠ .closed

/-- At most one message is generating, and none is while the prompt is free. -/
structure OneAtATime (s : Live) : Prop where
  atMostOne : ∀ j k, (s.aiState j).generating = true → (s.aiState k).generating = true → j = k
  free : s.submitButton = .SUBMIT → ∀ k, (s.aiState k).generating = false

/-- The event is no submission, on a free prompt, while some stream stands between the two
    calls of the listener that its `onError` makes. -/
def OutsideGap (s : Live) : DialogEvent → Prop
  | .submit prompt _ _ =>
    s.submitButton = .SUBMIT → prompt.strip ≠ [] → ∀ k, (s.aiState k).phase ≠ .failed
  | _ => True

/-- No message of the dialog has a stream: it is new, or was loaded. -/
def Quiet (s : Live) : Prop := ∀ k, ¬ (s.aiState k).IsOpen

/-- A terminal callback has come, and the listener has not been told yet. -/
def Phase.Ended (p : Phase) : Prop := p = .failing ∨ p = .failed ∨ p = .completing

/-- The invariant of the lock. -/
structure Locked (s : Live) : Prop where
  one_open : ∀ j k, (s.aiState j).IsOpen → (s.aiState k).IsOpen → j = k
  ended : ∀ k, (s.aiState k).phase.Ended → (s.aiState k).generating = false
  free : s.submitButton = .SUBMIT → ∀ k, (s.aiState k).IsOpen → (s.aiState k).phase = .failed

theorem Locked.of_quiet {s : Live} (h : Quiet s) : Locked s where
  one_open j _ hj _ := absurd hj (h j)
  ended k hk := by
    by_contra hgen
    exact h k (Or.inl (by simpa using hgen))
  free _ k hk := absurd hk (h k)

theorem Locked.oneAtATime {s : Live} (h : Locked s) : OneAtATime s where
  atMostOne j k hj hk := h.one_open j k (Or.inl hj) (Or.inl hk)
  free hbutton k := by
    by_contra hgen
    have hopen : (s.aiState k).generating = true := by simpa using hgen
    have hfailed := h.free hbutton k (Or.inl hopen)
    exact hgen (h.ended k (Or.inr (Or.inl hfailed)))

/-! ### One move -/

variable {a a' : AiState} {frees : Bool}

/-- No move opens a stream. -/
theorem AiMove.isOpen (h : AiMove a frees a') (hopen : a'.IsOpen) : a.IsOpen := by
  cases h with
  | stay => exact hopen
  | cancel c hc => exact hopen
  | makeCall adapter hphase => exact Or.inr (by rw [hphase]; decide)
  | callThrows hphase => exact Or.inr (by rw [hphase]; decide)
  | storeCall => exact hopen
  | error hphase => exact Or.inr (by rw [hphase]; decide)
  | errorThrows hphase => exact Or.inr (by rw [hphase]; decide)
  | complete hphase => exact Or.inr (by rw [hphase]; decide)
  | failure hphase => exact Or.inr (by rw [hphase]; decide)
  | done hphase => exact Or.inr (by rcases hphase with h | h <;> rw [h] <;> decide)

theorem AiMove.ended (h : AiMove a frees a') (ha : a.phase.Ended → a.generating = false)
    (hended : a'.phase.Ended) : a'.generating = false := by
  cases h with
  | stay => exact ha hended
  | cancel c hc => exact ha hended
  | makeCall adapter hphase => simp [Phase.Ended] at hended
  | callThrows hphase => simp [Phase.Ended] at hended
  | storeCall => exact ha hended
  | error hphase => rfl
  | errorThrows hphase => simp [Phase.Ended] at hended
  | complete hphase => rfl
  | failure hphase => exact ha (Or.inl hphase)
  | done hphase => simp [Phase.Ended] at hended

/-- A move that frees the prompt is one of an open stream, which is then over or between the
    calls of its `onError`. -/
theorem AiMove.of_frees (h : AiMove a true a') (ha : a.phase.Ended → a.generating = false) :
    a.IsOpen ∧ (a'.IsOpen → a'.phase = .failed) := by
  cases h with
  | failure hphase => exact ⟨Or.inr (by rw [hphase]; decide), fun _ => rfl⟩
  | done hphase =>
    have hgen : a.generating = false := ha (Or.inr hphase)
    refine ⟨Or.inr (by rcases hphase with h | h <;> rw [h] <;> decide), fun hopen => ?_⟩
    simp [AiState.IsOpen, hgen] at hopen

/-- A move that does not free the prompt leaves a stream where its `onError` stands. -/
theorem AiMove.failed (h : AiMove a false a') (ha : a.phase = .failed) : a'.phase = .failed := by
  cases h with
  | stay => exact ha
  | cancel c hc => exact ha
  | makeCall adapter hphase => simp [ha] at hphase
  | callThrows hphase => simp [ha] at hphase
  | storeCall => exact ha
  | error hphase => simp [ha] at hphase
  | errorThrows hphase => simp [ha] at hphase
  | complete hphase => simp [ha] at hphase

/-! ### One step -/

variable {env : LiveEnv} {s s' : Live}

/-- A step that is no submission keeps the lock. -/
theorem Locked.moves (h : Locked s) (hmoves : Live.Moves s s') : Locked s' := by
  obtain ⟨ref, frees, hmove, hother, hbutton⟩ := hmoves
  -- every stream that is open after the step was open before it
  have hopen : ∀ k, (s'.aiState k).IsOpen → (s.aiState k).IsOpen := by
    intro k hk
    by_cases href : k = ref
    · subst href
      exact hmove.isOpen hk
    · rw [hother k href] at hk
      exact hk
  refine ⟨fun j k hj hk => h.one_open j k (hopen j hj) (hopen k hk), fun k hk => ?_,
    fun hsubmit k hk => ?_⟩
  · by_cases href : k = ref
    · subst href
      exact hmove.ended (h.ended k) hk
    · rw [hother k href] at hk ⊢
      exact h.ended k hk
  · cases frees with
    | true =>
      obtain ⟨hwas, hfailed⟩ := hmove.of_frees (h.ended ref)
      -- the stream that moves is the only open one
      obtain rfl := h.one_open k ref (hopen k hk) hwas
      exact hfailed hk
    | false =>
      have hsubmit : s.submitButton = .SUBMIT := hbutton.symm.trans hsubmit
      have hfailed := h.free hsubmit k (hopen k hk)
      by_cases href : k = ref
      · subst href
        exact hmove.failed hfailed
      · rw [hother k href]
        exact hfailed

/-- A submission while no stream is open keeps the lock. -/
theorem locked_of_adds (hquiet : Quiet s) (hadds : Live.Adds s s')
    (hbutton : s.submitButton = .STOP) : Locked s' := by
  rcases hadds with ⟨_, hsame⟩ | ⟨n, _, hother, hnew⟩
  · exact Locked.of_quiet fun k => by
      rw [hsame k]
      exact hquiet k
  · rcases hnew with ⟨_, hdone⟩ | ⟨hstop, hqueued⟩
    · refine Locked.of_quiet fun k => ?_
      by_cases hk : k = n
      · rw [hk, hdone]
        simp [AiState.IsOpen, AiState.new]
      · rw [hother k hk]
        exact hquiet k
    · have honly : ∀ k, (s'.aiState k).IsOpen → k = n := by
        intro k hk
        by_contra hne
        rw [hother k hne] at hk
        exact hquiet k hk
      refine ⟨fun j k hj hk => (honly j hj).trans (honly k hk).symm, fun k hk => ?_,
        fun hsubmit => ?_⟩
      · have hkn : k = n := honly k (Or.inr (by
          rcases hk with h | h | h <;> rw [h] <;> decide))
        rw [hkn, hqueued] at hk
        simp [Phase.Ended] at hk
      · rw [hstop, hbutton] at hsubmit
        cases hsubmit

/-- **Every step outside the gap keeps the lock.** -/
theorem locked_step {e : DialogEvent} (h : Locked s) (he : OutsideGap s e)
    (hstep : s.step env e = some s') : Locked s' := by
  by_cases hsubmit : ∃ prompt newContext throws, e = .submit prompt newContext throws
  · obtain ⟨prompt, newContext, throws, rfl⟩ := hsubmit
    cases hstep
    rcases s.submit_cases prompt newContext throws with heq | ⟨hbutton, hprompt, hadds⟩
    · rw [heq]
      exact h
    · -- an open stream on a free prompt would stand in the gap
      have hquiet : Quiet { s with submitButton := .STOP } := fun k hk =>
        he hbutton hprompt k (h.free hbutton k hk)
      exact locked_of_adds hquiet hadds rfl
  · exact h.moves (Live.moves_of_step hstep fun p c t heq => hsubmit ⟨p, c, t, heq⟩)

/-- **One generation at a time**, in every run of a dialog whose messages have no stream at
    first, as long as nothing is submitted between the two listener calls of an `onError`. -/
theorem oneAtATime_of_run {id : Int32} {s₀ : Live} {events : List DialogEvent}
    (hquiet : Quiet s₀) (hmeets : (dialogLts env id).Meets OutsideGap s₀ events)
    (hrun : (dialogLts env id).run s₀ events = some s) : OneAtATime s := by
  have hinv : ∀ s e s', Locked s → OutsideGap s e → (dialogLts env id).step s e = some s' →
      Locked s' := fun s e s' hs he hstep => locked_step hs he hstep
  exact (Lts.invariant_of_meets hinv (Locked.of_quiet hquiet) hmeets hrun).oneAtATime

theorem quiet_new (id : Int32) : Quiet (.new id) := by
  intro k
  simp [Live.aiState, Live.new, AiState.IsOpen, AiState.new]

theorem oneAtATime_greeted : OneAtATime greeted := by
  have hmeets : (dialogLts plainEnv 0).Meets OutsideGap (.new 0)
      [.submit (.ofString "Hello") [] false] := by
    refine ⟨fun _ _ k => ?_, fun _ _ => trivial⟩
    simp [Live.aiState, Live.new, AiState.new]
  exact oneAtATime_of_run (quiet_new 0) hmeets rfl

/-- A failed answer whose prompt is used before the callback is over. -/
def gapEvents : List DialogEvent :=
  [.submit (.ofString "Hello") [] false, .makeCall 1 (some .OpenAi),
    .onError 1 (some (.ofString "Timeout")), .listenerOnFailure 1,
    .submit (.ofString "Again") [] false, .listenerOnComplete 1]

/-- The second call of the listener frees the prompt of the next answer. -/
theorem freed_while_generating :
    ∃ s, (dialogLts plainEnv 0).run (.new 0) gapEvents = some s ∧ ¬ OneAtATime s := by
  have hrun : ((dialogLts plainEnv 0).run (.new 0) gapEvents).map
      (fun s => (s.submitButton, (s.aiState 3).generating)) = some (.SUBMIT, true) := by
    decide
  obtain ⟨s, hs, heq⟩ := Option.map_eq_some_iff.mp hrun
  rw [Prod.mk.injEq] at heq
  refine ⟨s, hs, fun h => ?_⟩
  have hfree := h.free heq.1 3
  rw [heq.2] at hfree
  cases hfree

end Reloadium.Ai
