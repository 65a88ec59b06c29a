import Reloadium.Session.Client

namespace Reloadium.Session

open Reloadium.Lib

/-!
# Session — which line a returned value was built from

`ingestLine` takes every line that arrives while `cmdReturnId` is set for the reply, and
both shared fields belong to whichever call wrote them last.  So `send` hands out the
engine's answer to *its* command only in disciplined runs:

* `Disciplined` — a call starts only when no other call is in progress and the receiving
  thread is not storing a line; a line that arrives while a call is in progress and
  `cmdReturnId` is set is the reply to that call's command, which has been printed;
* `CallOk` — the invariant, one clause per statement a call can stand at;
* `replies_of_disciplined` — in every disciplined run, every non-null value returned by a
  call of `send` is the parse of the engine's reply to that very call.

Without the discipline this fails already for one call and one event line
(`event_returned_as_reply`).
-/

variable {fromJson : FromJson}

/-! ### What a call should return -/

/-- `st` is what `ingestLine` makes of the reply to the `k`-th call, whose command is
    `cmd`: the object `returnFactory` builds from it, or the empty return it stands in
    for a `null`. -/
def IsReply (fromJson : FromJson) (k : Nat) (cmd : Cmd) (st : Stored) : Prop :=
  st.source.origin = .reply k ∧
    (returnFactory fromJson st.source.text (some cmd.id) = .ok (some st.value) ∨
      returnFactory fromJson st.source.text (some cmd.id) = .ok none ∧ st.value = .empty)

/-- Every non-null value a call of `send` has returned is the parse of the reply to that
    very call. -/
def Answers (fromJson : FromJson) (s : Client) : Prop :=
  ∀ k cmd st, s.calls k = .returned cmd (some st) → IsReply fromJson k cmd st

/-! ### The discipline -/

/-- The call has started and not yet ended. -/
def Call.running : Call → Bool
  | .notCalled | .returned _ _ | .thrown _ => false
  | _ => true

/-- The call is in progress and its payload has been printed. -/
def Call.sent : Call → Bool
  | .test _ _ | .sleep _ _ | .clearId _ | .readReturn _ => true
  | _ => false

/-- The receiving thread is not between the test of `cmdReturnId` and its last store. -/
def Receiver.idle : Receiver → Bool
  | .readLine | .handle _ => true
  | _ => false

/-- The condition on a step under which the client's bookkeeping works. -/
def Disciplined (s : Client) : Action → Prop
  | .call _ _ => (∀ j, (s.calls j).running = false) ∧ s.receiver.idle = true
  | .receive line => s.cmdReturnId ≠ none →
      ∀ j, (s.calls j).running = true → (s.calls j).sent = true ∧ line.origin = .reply j
  | _ => True

/-! ### The invariant -/

/-- A value waiting in `cmdReturn` belongs to the call. -/
def SlotOk (fromJson : FromJson) (s : Client) (k : Nat) (cmd : Cmd) : Prop :=
  ∀ st, s.cmdReturn = some st → IsReply fromJson k cmd st

/-- The line the receiving thread is storing is the reply to the call, and what it has
    built from it so far is right. -/
def ReceiverOk (fromJson : FromJson) (s : Client) (k : Nat) (cmd : Cmd) : Prop :=
  match s.receiver with
  | .readLine | .handle _ => True
  | .parse line => line.origin = .reply k
  | .store line ret => line.origin = .reply k ∧
      returnFactory fromJson line.text (some cmd.id) = .ok ret
  | .testNull line => line.origin = .reply k ∧
      (s.cmdReturn = none → returnFactory fromJson line.text (some cmd.id) = .ok none)
  | .storeEmpty line => line.origin = .reply k ∧
      returnFactory fromJson line.text (some cmd.id) = .ok none

/-- What holds while the `k`-th call stands at a given statement. -/
def CallOk (fromJson : FromJson) (s : Client) (k : Nat) : Call → Prop
  | .notCalled | .thrown _ => True
  | .clearReturn _ => s.receiver.idle = true
  | .setId cmd => s.receiver.idle = true ∧ SlotOk fromJson s k cmd
  | .println cmd => s.receiver.idle = true ∧ SlotOk fromJson s k cmd ∧
      s.cmdReturnId = some cmd.id
  | .test cmd _ | .sleep cmd _ | .clearId cmd => ReceiverOk fromJson s k cmd ∧
      SlotOk fromJson s k cmd ∧ s.cmdReturnId = some cmd.id
  | .readReturn cmd => ReceiverOk fromJson s k cmd ∧ SlotOk fromJson s k cmd ∧
      s.cmdReturnId = none
  | .returned cmd ret => ∀ st, ret = some st → IsReply fromJson k cmd st

/-- The invariant of disciplined runs: at most one call is in progress, and every call is
    where it should be. -/
structure Inv (fromJson : FromJson) (s : Client) : Prop where
  single : ∀ i j, (s.calls i).running = true → (s.calls j).running = true → i = j
  callOk : ∀ k, CallOk fromJson s k (s.calls k)

theorem inv_new : Inv fromJson .new where
  single := by intro i j hi; simp [Client.new, Call.running] at hi
  callOk := by intro k; simp [Client.new, CallOk]

/-- A call that is not in progress does not look at the shared fields. -/
theorem callOk_of_not_running {s t : Client} {k : Nat} {call : Call}
    (hrun : call.running = false) (h : CallOk fromJson s k call) : CallOk fromJson t k call := by
  cases call <;> simp_all [Call.running, CallOk]

/-- An idle receiver satisfies the receiver's clause for any call. -/
theorem receiverOk_of_idle {s : Client} {k : Nat} {cmd : Cmd} (h : s.receiver.idle = true) :
    ReceiverOk fromJson s k cmd := by
  unfold ReceiverOk
  cases hr : s.receiver <;> simp_all [Receiver.idle]

/-! ### Steps of a call -/

/-- **Frame rule for a call's step.** Only the call in progress moves and writes shared
    fields, so the invariant is restored once the moved call satisfies its own clause. -/
theorem inv_setCall {s t : Client} {k : Nat} {call : Call} (h : Inv fromJson s)
    (hk : (s.calls k).running = true) (hcalls : t.calls = s.calls)
    (hok : CallOk fromJson (t.setCall k call) k call) : Inv fromJson (t.setCall k call) := by
  have hother : ∀ j, j ≠ k → (s.calls j).running = false := by
    intro j hj
    by_contra hne
    exact hj (h.single j k (by simpa using hne) hk)
  have hget : ∀ j, j ≠ k → (t.setCall k call).calls j = s.calls j := by
    intro j hj
    rw [Client.setCall, ← hcalls]
    exact Function.update_of_ne hj _ _
  constructor
  · intro i j hi hj
    by_cases hik : i = k
    · by_cases hjk : j = k
      · rw [hik, hjk]
      · rw [hget j hjk, hother j hjk] at hj
        exact absurd hj (by simp)
    · rw [hget i hik, hother i hik] at hi
      exact absurd hi (by simp)
  · intro j
    by_cases hjk : j = k
    · subst hjk
      simpa [Client.setCall] using hok
    · rw [hget j hjk]
      exact callOk_of_not_running (hother j hjk) (h.callOk j)

/-- Every statement of `send` keeps the invariant. -/
theorem inv_sendStep {s t : Client} {k : Nat} (h : Inv fromJson s)
    (hstep : sendStep s k = some t) : Inv fromJson t := by
  have hok := h.callOk k
  have hrun : (s.calls k).running = true := by
    cases hc : s.calls k <;> simp_all [sendStep, Call.running]
  cases hc : s.calls k with
  | notCalled => simp [sendStep, hc] at hstep
  | returned cmd ret => simp [sendStep, hc] at hstep
  | thrown cmd => simp [sendStep, hc] at hstep
  | clearReturn cmd =>
    simp only [sendStep, hc, Option.some.injEq] at hstep
    simp only [hc, CallOk] at hok
    subst hstep
    -- the slot has just been cleared
    refine inv_setCall h hrun rfl ⟨hok, ?_⟩
    intro st hst
    simp [Client.setCall] at hst
  | setId cmd =>
    simp only [sendStep, hc, Option.some.injEq] at hstep
    simp only [hc, CallOk] at hok
    subst hstep
    exact inv_setCall h hrun rfl ⟨hok.1, hok.2, rfl⟩
  | println cmd =>
    simp only [sendStep, hc, Option.some.injEq] at hstep
    simp only [hc, CallOk] at hok
    subst hstep
    exact inv_setCall h hrun rfl ⟨receiverOk_of_idle hok.1, hok.2.1, hok.2.2⟩
  | test cmd timeout =>
    simp only [hc, CallOk] at hok
    simp only [sendStep, hc] at hstep
    split at hstep <;> (rw [Option.some.injEq] at hstep; subst hstep)
    -- sleep again, or leave the loop: the shared fields stay
    · exact inv_setCall h hrun rfl hok
    · exact inv_setCall h hrun rfl hok
  | sleep cmd timeout =>
    simp only [sendStep, hc, Option.some.injEq] at hstep
    simp only [hc, CallOk] at hok
    subst hstep
    exact inv_setCall h hrun rfl hok
  | clearId cmd =>
    simp only [sendStep, hc, Option.some.injEq] at hstep
    simp only [hc, CallOk] at hok
    subst hstep
    exact inv_setCall h hrun rfl ⟨hok.1, hok.2.1, rfl⟩
  | readReturn cmd =>
    simp only [sendStep, hc, Option.some.injEq] at hstep
    simp only [hc, CallOk] at hok
    subst hstep
    exact inv_setCall h hrun rfl hok.2.1

/-- A call starts in a state where nothing else can interfere with it. -/
theorem inv_call {s t : Client} {k : Nat} {cmd : Cmd} (h : Inv fromJson s)
    (hd : Disciplined s (.call k cmd)) (hstep : clientStep fromJson s (.call k cmd) = some t) :
    Inv fromJson t := by
  obtain ⟨hnone, hidle⟩ := hd
  have ht : t = s.setCall k (.clearReturn cmd) := by
    simp only [clientStep] at hstep
    split at hstep <;> simp_all
  subst ht
  have hget : ∀ j, j ≠ k → (s.setCall k (.clearReturn cmd)).calls j = s.calls j :=
    fun j hj => Function.update_of_ne hj _ _
  constructor
  -- no other call is in progress
  · intro i j hi hj
    have hik : i = k := by
      by_contra hik
      rw [hget i hik, hnone i] at hi
      exact absurd hi (by simp)
    have hjk : j = k := by
      by_contra hjk
      rw [hget j hjk, hnone j] at hj
      exact absurd hj (by simp)
    rw [hik, hjk]
  · intro j
    by_cases hjk : j = k
    · subst hjk
      simpa [Client.setCall, CallOk] using hidle
    · rw [hget j hjk]
      exact callOk_of_not_running (hnone j) (h.callOk j)

/-- A call that dies of an exception leaves nothing to prove about it. -/
theorem inv_throw {s t : Client} {k : Nat} (h : Inv fromJson s)
    (hstep : clientStep fromJson s (.throw k) = some t) : Inv fromJson t := by
  simp only [clientStep] at hstep
  -- exceptions come from `println` (no connection) and from `checkCanceled` alone
  cases hc : s.calls k <;> simp only [hc, Option.some.injEq, reduceCtorEq] at hstep
  case println cmd =>
    subst hstep
    exact inv_setCall h (by simp [hc, Call.running]) rfl trivial
  case sleep cmd timeout =>
    subst hstep
    exact inv_setCall h (by simp [hc, Call.running]) rfl trivial

/-! ### Steps of the receiving thread -/

/-- **Frame rule for the receiving thread.** It moves no call, so it is enough to restore
    the clause of a call in progress. -/
theorem inv_receiver {s t : Client} (h : Inv fromJson s) (hcalls : t.calls = s.calls)
    (hok : ∀ k, (s.calls k).running = true → CallOk fromJson t k (s.calls k)) :
    Inv fromJson t := by
  constructor
  · rw [hcalls]
    exact h.single
  · intro k
    rw [hcalls]
    cases hr : (s.calls k).running with
    | true => exact hok k hr
    | false => exact callOk_of_not_running hr (h.callOk k)

/-- Reading a line: with `cmdReturnId` set the line enters the reply branch, where the
    discipline makes it the reply to the call in progress. -/
theorem inv_receive {s t : Client} {line : Line} (h : Inv fromJson s)
    (hd : Disciplined s (.receive line))
    (hstep : clientStep fromJson s (.receive line) = some t) : Inv fromJson t := by
  simp only [clientStep] at hstep
  split at hstep
  · split at hstep <;> (rw [Option.some.injEq] at hstep; subst hstep)
    -- without `cmdReturnId` the line is handled as an event
    · refine inv_receiver h rfl fun k _ => ?_
      have hok := h.callOk k
      cases hc : s.calls k <;>
        simp_all [CallOk, Receiver.idle, ReceiverOk, SlotOk]
    -- with it the line is taken for the reply, which it is by discipline
    · rename_i hid
      refine inv_receiver h rfl fun k hk => ?_
      have hok := h.callOk k
      obtain ⟨hsent, horigin⟩ := hd hid k hk
      cases hc : s.calls k <;>
        simp_all [CallOk, Call.sent, Call.running, ReceiverOk, SlotOk]
  · exact absurd hstep (by simp)

/-- Inside the reply branch the call in progress has been sent: before that the receiver
    is idle. -/
theorem sent_of_not_idle {s : Client} {k : Nat} (h : Inv fromJson s)
    (hk : (s.calls k).running = true) (hidle : s.receiver.idle = false) :
    (s.calls k).sent = true := by
  have hok := h.callOk k
  cases hc : s.calls k <;> simp_all [CallOk, Call.running, Call.sent]

/-- A call that has been sent carries a command, for which the receiver's and the slot's
    clauses hold; to restore its own clause it is enough to restore these two. -/
theorem callOk_of_sent {s t : Client} {k : Nat} (hsent : (s.calls k).sent = true)
    (h : CallOk fromJson s k (s.calls k)) (hid : t.cmdReturnId = s.cmdReturnId)
    (hok : ∀ cmd, ReceiverOk fromJson s k cmd → SlotOk fromJson s k cmd →
      (∀ id, s.cmdReturnId = some id → id = cmd.id) →
      ReceiverOk fromJson t k cmd ∧ SlotOk fromJson t k cmd) :
    CallOk fromJson t k (s.calls k) := by
  cases hc : s.calls k <;> simp only [hc, Call.sent, CallOk, Bool.false_eq_true] at hsent h ⊢
  case readReturn cmd =>
    obtain ⟨hr, hs⟩ := hok cmd h.1 h.2.1 (by simp [h.2.2])
    exact ⟨hr, hs, hid.trans h.2.2⟩
  all_goals
    obtain ⟨hr, hs⟩ := hok _ h.1 h.2.1 (by simp [h.2.2])
    exact ⟨hr, hs, hid.trans h.2.2⟩

/-- **Frame rule inside the reply branch.** It is enough to restore the clauses of the
    receiver and of the slot, for the command of the call in progress. -/
theorem inv_replyBranch {s t : Client} (h : Inv fromJson s) (hidle : s.receiver.idle = false)
    (hcalls : t.calls = s.calls) (hid : t.cmdReturnId = s.cmdReturnId)
    (hok : ∀ k cmd, ReceiverOk fromJson s k cmd → SlotOk fromJson s k cmd →
      (∀ id, s.cmdReturnId = some id → id = cmd.id) →
      ReceiverOk fromJson t k cmd ∧ SlotOk fromJson t k cmd) : Inv fromJson t :=
  inv_receiver h hcalls fun k hk =>
    callOk_of_sent (sent_of_not_idle h hk hidle) (h.callOk k) hid (hok k)

/-- Every statement of `ingestLine` keeps the invariant. -/
theorem inv_ingestStep {s t : Client} (h : Inv fromJson s)
    (hstep : ingestStep fromJson s = some t) : Inv fromJson t := by
  cases hrecv : s.receiver with
  | readLine => simp [ingestStep, hrecv] at hstep
  | parse line =>
    have hidle : s.receiver.idle = false := by simp [hrecv, Receiver.idle]
    simp only [ingestStep, hrecv] at hstep
    split at hstep <;> (rw [Option.some.injEq] at hstep; subst hstep)
    -- `returnFactory` threw: the line is dropped
    · refine inv_replyBranch h hidle rfl rfl ?_
      intro k cmd _ hslot _
      exact ⟨trivial, hslot⟩
    · rename_i ret hparse
      refine inv_replyBranch h hidle rfl rfl ?_
      intro k cmd hline hslot hid
      simp only [ReceiverOk, hrecv] at hline
      refine ⟨⟨hline, ?_⟩, hslot⟩
      -- `returnFactory` threw on a null id, so the id it read was the call's own
      cases hcid : s.cmdReturnId with
      | none => simp [hcid, returnFactory] at hparse
      | some id => rw [← hid id hcid, ← hcid]; exact hparse
  | store line ret =>
    have hidle : s.receiver.idle = false := by simp [hrecv, Receiver.idle]
    simp only [ingestStep, hrecv, Option.some.injEq] at hstep
    subst hstep
    refine inv_replyBranch h hidle rfl rfl ?_
    intro k cmd hline _ _
    simp only [ReceiverOk, hrecv] at hline
    obtain ⟨horigin, hparse⟩ := hline
    refine ⟨⟨horigin, ?_⟩, ?_⟩
    · intro hnull
      rw [Option.map_eq_none_iff] at hnull
      exact hnull ▸ hparse
    · intro st hst
      obtain ⟨value, rfl, rfl⟩ := Option.map_eq_some_iff.mp hst
      exact ⟨horigin, Or.inl hparse⟩
  | testNull line =>
    have hidle : s.receiver.idle = false := by simp [hrecv, Receiver.idle]
    simp only [ingestStep, hrecv] at hstep
    split at hstep <;> (rw [Option.some.injEq] at hstep; subst hstep)
    · rename_i hnull
      refine inv_replyBranch h hidle rfl rfl ?_
      intro k cmd hline hslot _
      simp only [ReceiverOk, hrecv] at hline
      exact ⟨⟨hline.1, hline.2 hnull⟩, hslot⟩
    · refine inv_replyBranch h hidle rfl rfl ?_
      intro k cmd _ hslot _
      exact ⟨trivial, hslot⟩
  | storeEmpty line =>
    have hidle : s.receiver.idle = false := by simp [hrecv, Receiver.idle]
    simp only [ingestStep, hrecv, Option.some.injEq] at hstep
    subst hstep
    refine inv_replyBranch h hidle rfl rfl ?_
    intro k cmd hline _ _
    simp only [ReceiverOk, hrecv] at hline
    refine ⟨trivial, ?_⟩
    intro st hst
    rw [Option.some.injEq] at hst
    exact hst ▸ ⟨hline.1, Or.inr ⟨hline.2, rfl⟩⟩
  | handle line =>
    simp only [ingestStep, hrecv, Option.some.injEq] at hstep
    subst hstep
    refine inv_receiver h rfl fun k _ => ?_
    have hok := h.callOk k
    cases hc : s.calls k <;> simp_all [CallOk, Receiver.idle, ReceiverOk, SlotOk]

/-! ### Runs -/

/-- **Step lemma.** A disciplined step keeps the invariant. -/
theorem inv_clientStep (s : Client) (a : Action) (t : Client) (h : Inv fromJson s)
    (hd : Disciplined s a) (hstep : clientStep fromJson s a = some t) : Inv fromJson t := by
  cases a with
  | call k cmd => exact inv_call h hd hstep
  | advance k => exact inv_sendStep h hstep
  | throw k => exact inv_throw h hstep
  | receive line => exact inv_receive h hd hstep
  | ingest => exact inv_ingestStep h hstep

/-- **Replies of a disciplined run.** Whatever Gson does, in every state a disciplined run
    reaches, every non-null value returned by a call of `send` is the parse of the reply
    the engine produced for that call. -/
theorem replies_of_disciplined (fromJson : FromJson) (as : List Action) (s : Client)
    (hd : (clientLts fromJson).Meets Disciplined .new as)
    (hrun : (clientLts fromJson).run .new as = some s) : Answers fromJson s := by
  have hinv : Inv fromJson s := Lts.invariant_of_meets inv_clientStep inv_new hd hrun
  intro k cmd st hret
  have hok := hinv.callOk k
  rw [hret] at hok
  exact hok st rfl

/-! ### One call and one line -/

/-- The schedule in which one call of `send(cmd)` prints its command, `line` arrives and is
    stored, and the call leaves its loop and returns. -/
def answeredBy (cmd : Cmd) (line : Line) : List Action :=
  [.call 0 cmd, .advance 0, .advance 0, .advance 0, .receive line, .ingest, .ingest,
    .advance 0, .advance 0, .advance 0]

/-- Whatever line arrives while the command is pending, its parse is what `send`
    returns. -/
theorem answeredBy_returns (cmd : Cmd) (line : Line) (value : Return)
    (hparse : returnFactory fromJson line.text (some cmd.id) = .ok (some value)) :
    ∃ s, (clientLts fromJson).run .new (answeredBy cmd line) = some s ∧
      s.calls 0 = .returned cmd (some ⟨value, line⟩) := by
  simp [answeredBy, Lts.run, clientLts, clientStep, sendStep, ingestStep, Client.new,
    Client.setCall, hparse]

/-- A line that is the reply to the call keeps the schedule disciplined. -/
theorem answeredBy_disciplined (cmd : Cmd) (line : Line) (horigin : line.origin = .reply 0) :
    (clientLts fromJson).Meets Disciplined .new (answeredBy cmd line) := by
  -- when the line arrives, the only call in progress is call 0, at its loop test
  have hreply : ∀ j : Nat,
      (Function.update (fun _ => Call.notCalled) 0 (.test cmd 4000) j).running = true →
      (Function.update (fun _ => Call.notCalled) 0 (.test cmd 4000) j).sent = true ∧
        line.origin = .reply j := by
    intro j hrun
    by_cases hj : j = 0
    · subst hj
      exact ⟨rfl, horigin⟩
    · rw [Function.update_of_ne hj] at hrun
      exact absurd hrun (by simp [Call.running])
  simp only [answeredBy, Lts.Meets, clientLts, clientStep, sendStep, ingestStep, Client.new,
    Client.setCall, Disciplined, Receiver.idle]
  simpa using ⟨rfl, hreply⟩

/-- Gson on JSON objects that have no `suggestions` member. -/
def gsonWithoutSuggestions : FromJson :=
  fun _ returnClass => .ok (some (.completion returnClass none))

/-- The handshake event, as a line of its own. -/
def handshakeLine : Line where
  text := "\x7b\"ID\": \"Handshake\", \"version\": \"1.2.0\"\x7d"
  origin := .event

/-- A completion command of the editor. -/
def localCompletion : Cmd where
  id := "GetLocalCompletion"
  payload := "\x7b\"ID\": \"GetLocalCompletion\"\x7d"

/-- The engine's reply to the first call. -/
def replyLine : Line where
  text := "\x7b\"ID\": \"GetLocalCompletion\"\x7d"
  origin := .reply 0

/-- A disciplined run of one call and its reply. -/
theorem replies_of_disciplined_answered :
    ∃ s, (clientLts gsonWithoutSuggestions).run .new (answeredBy localCompletion replyLine)
        = some s ∧ Answers gsonWithoutSuggestions s := by
  obtain ⟨s, hrun, _⟩ :=
    @answeredBy_returns gsonWithoutSuggestions localCompletion replyLine
      (.completion .getCtxCompletion none) rfl
  exact ⟨s, hrun, replies_of_disciplined gsonWithoutSuggestions _ s
    (answeredBy_disciplined localCompletion replyLine rfl) hrun⟩

/-- **Counterexample.** An event line that arrives while a completion is pending is
    returned as its reply. -/
theorem event_returned_as_reply :
    ¬ ∀ (fromJson : FromJson) (as : List Action) (s : Client),
      (clientLts fromJson).run .new as = some s → Answers fromJson s := by
  intro h
  obtain ⟨s, hrun, hret⟩ :=
    @answeredBy_returns gsonWithoutSuggestions localCompletion handshakeLine
      (.completion .getCtxCompletion none) rfl
  have horigin := (h _ _ s hrun 0 _ _ hret).1
  exact absurd horigin (by decide)

end Reloadium.Session
