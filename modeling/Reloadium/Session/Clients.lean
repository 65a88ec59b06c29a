import Reloadium.Session.Replies

namespace Reloadium.Session

open Reloadium.Lib

/-!
# Session — one command for all clients

Model of `rw.session.Session`: the list of its clients, which the accepting thread extends
and nobody shortens, and `Session.send`, which copies the list and runs `Client.send` on
one client of the copy after the other.  The local variable `ret` of `send` is overwritten
by every client, also by one that is silent because its process has ended.

The clients are those of `Session.Client`, and their threads interleave with the calls of
`send` as they like.  The `k`-th call of `Session.send` makes the `k`-th call of
`Client.send` on every client.

* `SendOk` — the invariant, one clause per place a call of `send` can stand at;
* `answerKept_iff` — a finished call has kept an answer exactly when the last client of
  its copy answered, or none did.
-/

set_option linter.dupNamespace false

variable {fromJson : FromJson}

/-- Where a call of `Session.send` stands; `n` is the length of its copy of the list. -/
inductive SendState where
  | notCalled
  /-- at the head of the loop, with `i` clients behind it -/
  | loop (cmd : Cmd) (n i : Nat) (ret : Option Stored)
  /-- inside `ret = c.send(cmd)` of the `i`-th client -/
  | inClient (cmd : Cmd) (n i : Nat)
  | returned (cmd : Cmd) (n : Nat) (ret : Option Stored)
  /-- an exception left `Client.send` and then `send` -/
  | thrown (cmd : Cmd) (n : Nat)
deriving DecidableEq, Repr

/-- `Session`. -/
structure Session where
  clients : List Client
  sends : Nat → SendState

namespace Session

/-- The object its constructor builds. -/
def new : Session := ⟨[], fun _ => .notCalled⟩

/-- Move the `k`-th call of `send`. -/
def setSend (s : Session) (k : Nat) (state : SendState) : Session :=
  { s with sends := Function.update s.sends k state }

/-- One step of the `c`-th client. -/
def stepClient (fromJson : FromJson) (s : Session) (c : Nat) (a : Action) :
    Option Session :=
  match s.clients[c]? with
  | none => none
  | some client =>
    (clientStep fromJson client a).map fun client => { s with clients := s.clients.set c client }

/-- Where the `c`-th client's `k`-th call of `Client.send` stands. -/
def callOf (s : Session) (c k : Nat) : Call :=
  match s.clients[c]? with
  | none => .notCalled
  | some client => client.calls k

end Session

/-- What a scheduler chooses. -/
inductive SessionAction where
  /-- `run` accepts a connection and adds its client -/
  | connect
  /-- some thread calls `send(cmd)`; `k` numbers the call -/
  | send (k : Nat) (cmd : Cmd)
  /-- the `k`-th call goes on to the next client of its copy, or leaves the loop -/
  | next (k : Nat)
  /-- `Client.send` has ended for the client the `k`-th call is in -/
  | collect (k : Nat)
  /-- a thread executes a statement of the `c`-th client; `send` alone calls `Client.send` -/
  | client (c : Nat) (a : Action)
deriving DecidableEq, Repr

/-- One step of the session or of one of its clients. -/
def sessionStep (fromJson : FromJson) (s : Session) : SessionAction → Option Session
  | .connect => some { s with clients := s.clients ++ [.new] }
  | .send k cmd =>
    match s.sends k with
    -- the copy keeps the clients there are now; `ret` starts as null
    | .notCalled => some (s.setSend k (.loop cmd s.clients.length 0 none))
    | _ => none
  | .next k =>
    match s.sends k with
    | .loop cmd n i ret =>
      if i < n then (s.stepClient fromJson i (.call k cmd)).map fun t =>
        t.setSend k (.inClient cmd n i)
      else some (s.setSend k (.returned cmd n ret))
    | _ => none
  | .collect k =>
    match s.sends k with
    | .inClient cmd n i =>
      match s.callOf i k with
      -- `ret` is overwritten, by a null as well
      | .returned _ ret => some (s.setSend k (.loop cmd n (i + 1) ret))
      | .thrown _ => some (s.setSend k (.thrown cmd n))
      | _ => none
    | _ => none
  | .client c a =>
    match a with
    | .call _ _ => none
    | a => s.stepClient fromJson c a

/-- The session as a transition system. -/
def sessionLts (fromJson : FromJson) : Lts Session SessionAction where
  init := .new
  step := sessionStep fromJson

/-! ### What a step of a client does to its calls -/

/-- The command of a call. -/
def Call.cmd? : Call → Option Cmd
  | .notCalled => none
  | .clearReturn cmd | .setId cmd | .println cmd | .test cmd _ | .sleep cmd _
  | .clearId cmd | .readReturn cmd | .returned cmd _ | .thrown cmd => some cmd

/-- The call has ended. -/
def Call.ended : Call → Bool
  | .returned _ _ | .thrown _ => true
  | _ => false

/-- What a step does to a call that it does not start: an ended call stays as it is, and
    any call keeps its command. -/
def Call.Continues (before after : Call) : Prop :=
  after.cmd? = before.cmd? ∧ (before.ended = true → after = before)

theorem Call.Continues.refl (call : Call) : call.Continues call := ⟨rfl, fun _ => rfl⟩

/-- A call that has not ended may move on. -/
theorem continues_setCall {s : Client} {j : Nat} {call : Call}
    (hcmd : call.cmd? = (s.calls j).cmd?) (hended : (s.calls j).ended = false) (k : Nat) :
    (s.calls k).Continues (Function.update s.calls j call k) := by
  by_cases hk : k = j
  · subst hk
    rw [Function.update_self]
    exact ⟨hcmd, fun h => absurd h (by simp [hended])⟩
  · rw [Function.update_of_ne hk]
    exact .refl _

/-- A statement of `Client.send` moves its own call only. -/
theorem continues_sendStep {s t : Client} {j : Nat} (hstep : sendStep s j = some t)
    (k : Nat) : (s.calls k).Continues (t.calls k) := by
  cases hc : s.calls j with
  | notCalled => simp [sendStep, hc] at hstep
  | returned cmd ret => simp [sendStep, hc] at hstep
  | thrown cmd => simp [sendStep, hc] at hstep
  | test cmd timeout =>
    simp only [sendStep, hc] at hstep
    -- one more sleep, or out of the loop
    split at hstep <;> (rw [Option.some.injEq] at hstep; subst hstep)
    · exact continues_setCall (by rw [hc]; rfl) (by rw [hc]; rfl) k
    · exact continues_setCall (by rw [hc]; rfl) (by rw [hc]; rfl) k
  | clearReturn cmd | setId cmd | println cmd | sleep cmd timeout | clearId cmd
  | readReturn cmd =>
    simp only [sendStep, hc, Option.some.injEq] at hstep
    subst hstep
    exact continues_setCall (by rw [hc]; rfl) (by rw [hc]; rfl) k

/-- The receiving thread moves no call. -/
theorem calls_ingestStep {s t : Client} (hstep : ingestStep fromJson s = some t) :
    t.calls = s.calls := by
  unfold ingestStep at hstep
  split at hstep
  · exact absurd hstep (by simp)
  · split at hstep <;> (rw [Option.some.injEq] at hstep; subst hstep; rfl)
  · rw [Option.some.injEq] at hstep
    subst hstep
    rfl
  · split at hstep <;> (rw [Option.some.injEq] at hstep; subst hstep; rfl)
  · rw [Option.some.injEq] at hstep
    subst hstep
    rfl
  · rw [Option.some.injEq] at hstep
    subst hstep
    rfl

/-- Whatever a thread of a client does, apart from starting it, a call continues. -/
theorem continues_clientStep {s t : Client} {a : Action} {k : Nat}
    (hstep : clientStep fromJson s a = some t) (ha : ∀ cmd, a ≠ .call k cmd) :
    (s.calls k).Continues (t.calls k) := by
  cases a with
  | call j cmd =>
    have hj : k ≠ j := by
      rintro rfl
      exact ha cmd rfl
    simp only [clientStep] at hstep
    split at hstep
    case h_1 =>
      rw [Option.some.injEq] at hstep
      subst hstep
      have hget : (s.setCall j (.clearReturn cmd)).calls k = s.calls k :=
        Function.update_of_ne hj ..
      rw [hget]
      exact .refl _
    case h_2 => exact absurd hstep (by simp)
  | advance j => exact continues_sendStep hstep k
  | throw j =>
    simp only [clientStep] at hstep
    cases hc : s.calls j <;> simp only [hc, Option.some.injEq, reduceCtorEq] at hstep
    case println cmd =>
      subst hstep
      exact continues_setCall (by rw [hc]; rfl) (by rw [hc]; rfl) k
    case sleep cmd timeout =>
      subst hstep
      exact continues_setCall (by rw [hc]; rfl) (by rw [hc]; rfl) k
  | receive line =>
    simp only [clientStep] at hstep
    split at hstep
    · split at hstep <;> (rw [Option.some.injEq] at hstep; subst hstep; exact .refl _)
    · exact absurd hstep (by simp)
  | ingest =>
    rw [calls_ingestStep hstep]
    exact .refl _

/-! ### The invariant -/

/-- The first `i` clients have ended the `k`-th call, and `ret` is what the last of them
    returned. -/
def Done (s : Session) (k : Nat) (cmd : Cmd) (i : Nat) (ret : Option Stored) : Prop :=
  (∀ c < i, ∃ r, s.callOf c k = .returned cmd r ∧ (c + 1 = i → ret = r)) ∧
    (i = 0 → ret = none)

/-- No client from the `i`-th on has started the `k`-th call. -/
def Fresh (s : Session) (k i : Nat) : Prop := ∀ c, i ≤ c → s.callOf c k = .notCalled

/-- What holds while the `k`-th call of `send` stands at a given place. -/
def SendOk (s : Session) (k : Nat) : SendState → Prop
  | .notCalled => Fresh s k 0
  | .loop cmd n i ret => i ≤ n ∧ Done s k cmd i ret ∧ Fresh s k i
  | .inClient cmd n i => i < n ∧ (∃ ret, Done s k cmd i ret) ∧
      (s.callOf i k).cmd? = some cmd ∧ Fresh s k (i + 1)
  | .returned cmd n ret => Done s k cmd n ret ∧ Fresh s k n
  | .thrown cmd n => ∃ i < n, s.callOf i k = .thrown cmd ∧ Fresh s k (i + 1)

/-- The invariant of a session. -/
def SendsOk (s : Session) : Prop := ∀ k, SendOk s k (s.sends k)

theorem sendsOk_new : SendsOk .new := fun _ _ _ => rfl

/-- **Frame rule.** A step under which the calls continue keeps every clause. -/
theorem sendOk_of_continues {s t : Session} {k : Nat} {state : SendState}
    (hcont : ∀ c, (s.callOf c k).Continues (t.callOf c k)) (h : SendOk s k state) :
    SendOk t k state := by
  have hended : ∀ c call, s.callOf c k = call → call.ended = true → t.callOf c k = call :=
    fun c call hcall he => by rw [(hcont c).2 (hcall ▸ he), hcall]
  have hfresh : ∀ i, Fresh s k i → Fresh t k i := by
    intro i hf c hc
    have hcmd := (hcont c).1
    rw [hf c hc] at hcmd
    cases htc : t.callOf c k <;> simp_all [Call.cmd?]
  have hdone : ∀ cmd i ret, Done s k cmd i ret → Done t k cmd i ret := by
    rintro cmd i ret ⟨hall, hzero⟩
    refine ⟨fun c hc => ?_, hzero⟩
    obtain ⟨r, hr, hlast⟩ := hall c hc
    exact ⟨r, hended c _ hr rfl, hlast⟩
  cases state with
  | notCalled => exact hfresh 0 h
  | loop cmd n i ret => exact ⟨h.1, hdone cmd i ret h.2.1, hfresh i h.2.2⟩
  | inClient cmd n i =>
    obtain ⟨hi, ⟨ret, hd⟩, hcmd, hf⟩ := h
    exact ⟨hi, ⟨ret, hdone cmd i ret hd⟩, (hcont i).1.trans hcmd, hfresh _ hf⟩
  | returned cmd n ret => exact ⟨hdone cmd n ret h.1, hfresh n h.2⟩
  | thrown cmd n =>
    obtain ⟨i, hi, hthrown, hf⟩ := h
    exact ⟨i, hi, hended i _ hthrown rfl, hfresh _ hf⟩

/-- Moving one call of `send` leaves the clients and the other calls as they are. -/
theorem sendsOk_setSend {s t : Session} {k : Nat} {state : SendState} (h : SendsOk s)
    (hsends : t.sends = s.sends)
    (hcont : ∀ j, j ≠ k → ∀ c, (s.callOf c j).Continues (t.callOf c j))
    (hok : SendOk t k state) : SendsOk (t.setSend k state) := by
  intro j
  by_cases hj : j = k
  · subst hj
    have hget : (t.setSend j state).sends j = state := Function.update_self ..
    rw [hget]
    exact hok
  · have hget : (t.setSend k state).sends j = s.sends j := by
      rw [Session.setSend, hsends]
      exact Function.update_of_ne hj _ _
    rw [hget]
    exact sendOk_of_continues (hcont j hj) (h j)

theorem callOf_eq {s : Session} {c : Nat} {client : Client} (h : s.clients[c]? = some client)
    (k : Nat) : s.callOf c k = client.calls k := by rw [Session.callOf, h]

/-- The calls of the clients after a step of one of them. -/
theorem callOf_stepClient {s t : Session} {c : Nat} {a : Action}
    (hstep : s.stepClient fromJson c a = some t) :
    ∃ client client', s.clients[c]? = some client ∧
      clientStep fromJson client a = some client' ∧ t.sends = s.sends ∧
      ∀ c' k, t.callOf c' k = if c' = c then client'.calls k else s.callOf c' k := by
  unfold Session.stepClient at hstep
  cases hc : s.clients[c]? with
  | none => simp [hc] at hstep
  | some client =>
    rw [hc] at hstep
    obtain ⟨client', hclient, rfl⟩ := Option.map_eq_some_iff.mp hstep
    refine ⟨client, client', rfl, hclient, rfl, fun c' k => ?_⟩
    simp only [Session.callOf, List.getElem?_set]
    have hlt : c < s.clients.length := (List.getElem?_eq_some_iff.mp hc).1
    by_cases hcc : c' = c
    · subst hcc
      simp [hlt]
    · simp [hcc, Ne.symm hcc]

/-- A step of a client lets the calls of all clients continue, except one that it starts. -/
theorem continues_stepClient {s t : Session} {c k : Nat} {a : Action}
    (hstep : s.stepClient fromJson c a = some t) (ha : ∀ cmd, a ≠ .call k cmd) (c' : Nat) :
    (s.callOf c' k).Continues (t.callOf c' k) := by
  obtain ⟨client, client', hclient, hcall, -, hcalls⟩ := callOf_stepClient hstep
  rw [hcalls]
  split
  case isTrue hc =>
    subst hc
    rw [callOf_eq hclient]
    exact continues_clientStep hcall ha
  case isFalse => exact .refl _

/-- A new client has made no call, and neither has one that is not there. -/
theorem callOf_connect (s : Session) (c k : Nat) :
    ({ s with clients := s.clients ++ [.new] } : Session).callOf c k = s.callOf c k := by
  simp only [Session.callOf, List.getElem?_append]
  by_cases hc : c < s.clients.length
  · rw [if_pos hc]
  · rw [if_neg hc, List.getElem?_eq_none (l := s.clients) (by omega)]
    cases hn : c - s.clients.length with
    | zero => rfl
    | succ m => rfl

/-- The next client of the loop starts its call. -/
theorem sendOk_startCall {s t : Session} {k n i : Nat} {cmd : Cmd} {ret : Option Stored}
    (h : SendOk s k (.loop cmd n i ret)) (hlt : i < n)
    (hstep : s.stepClient fromJson i (.call k cmd) = some t) : SendOk t k (.inClient cmd n i) := by
  obtain ⟨-, ⟨hall, hzero⟩, hfresh⟩ := h
  obtain ⟨client, client', hclient, hcall, -, hcalls⟩ := callOf_stepClient hstep
  have hnot : client.calls k = .notCalled := by
    have hf := hfresh i (Nat.le_refl i)
    rwa [callOf_eq hclient] at hf
  simp only [clientStep, hnot, Option.some.injEq] at hcall
  subst hcall
  refine ⟨hlt, ⟨ret, fun c hc => ?_, hzero⟩, ?_, fun c hc => ?_⟩
  · rw [hcalls, if_neg (by omega)]
    exact hall c hc
  · have hget : (client.setCall k (.clearReturn cmd)).calls k = .clearReturn cmd :=
      Function.update_self ..
    rw [hcalls, if_pos rfl, hget]
    rfl
  · rw [hcalls, if_neg (by omega)]
    exact hfresh c (by omega)

/-- The loop takes over what its client has returned. -/
theorem sendOk_collect {s : Session} {k n i : Nat} {cmd : Cmd} {ret : Option Stored}
    (h : SendOk s k (.inClient cmd n i)) (hret : s.callOf i k = .returned cmd ret) :
    SendOk s k (.loop cmd n (i + 1) ret) := by
  obtain ⟨hlt, ⟨_, hall, -⟩, -, hfresh⟩ := h
  refine ⟨hlt, ⟨fun c hc => ?_, by simp⟩, hfresh⟩
  -- the client the call was in is the last one so far
  by_cases hci : c = i
  · subst hci
    exact ⟨ret, hret, fun _ => rfl⟩
  · obtain ⟨r, hr, -⟩ := hall c (by omega)
    exact ⟨r, hr, fun hc' => absurd hc' (by omega)⟩

/-- **Step lemma.** Every step keeps the invariant. -/
theorem sendsOk_step (s : Session) (a : SessionAction) (t : Session) (h : SendsOk s)
    (hstep : sessionStep fromJson s a = some t) : SendsOk t := by
  cases a with
  | connect =>
    simp only [sessionStep, Option.some.injEq] at hstep
    subst hstep
    refine fun k => sendOk_of_continues (fun c => ?_) (h k)
    rw [callOf_connect]
    exact .refl _
  | send k cmd =>
    have hk := h k
    simp only [sessionStep] at hstep
    split at hstep
    case h_1 hnot =>
      rw [Option.some.injEq] at hstep
      subst hstep
      rw [hnot] at hk
      exact sendsOk_setSend h rfl (fun _ _ _ => .refl _)
        ⟨Nat.zero_le _, ⟨by simp, fun _ => rfl⟩, hk⟩
    case h_2 => exact absurd hstep (by simp)
  | next k =>
    have hk := h k
    simp only [sessionStep] at hstep
    split at hstep
    case h_1 cmd n i ret hloop =>
      rw [hloop] at hk
      split at hstep
      case isTrue hlt =>
        obtain ⟨u, hu, rfl⟩ := Option.map_eq_some_iff.mp hstep
        obtain ⟨_, _, -, -, hsends, -⟩ := callOf_stepClient hu
        refine sendsOk_setSend h hsends (fun j hj c => ?_) (sendOk_startCall hk hlt hu)
        refine continues_stepClient hu (fun cmd' hcall => ?_) c
        cases hcall
        exact hj rfl
      case isFalse hlt =>
        rw [Option.some.injEq] at hstep
        subst hstep
        have hi : i = n := by
          have hle := hk.1
          omega
        subst hi
        exact sendsOk_setSend h rfl (fun _ _ _ => .refl _) hk.2
    case h_2 => exact absurd hstep (by simp)
  | collect k =>
    have hk := h k
    simp only [sessionStep] at hstep
    split at hstep
    case h_1 cmd n i hin =>
      rw [hin] at hk
      have hcmd := hk.2.2.1
      split at hstep
      case h_1 cmd' ret' hret =>
        rw [hret] at hcmd
        cases hcmd
        rw [Option.some.injEq] at hstep
        subst hstep
        exact sendsOk_setSend h rfl (fun _ _ _ => .refl _) (sendOk_collect hk hret)
      case h_2 cmd' hthrown =>
        rw [hthrown] at hcmd
        cases hcmd
        rw [Option.some.injEq] at hstep
        subst hstep
        exact sendsOk_setSend h rfl (fun _ _ _ => .refl _) ⟨i, hk.1, hthrown, hk.2.2.2⟩
      case h_3 => exact absurd hstep (by simp)
    case h_2 => exact absurd hstep (by simp)
  | client c a =>
    have ha : ∀ j cmd, a ≠ .call j cmd := by
      rintro j cmd rfl
      simp [sessionStep] at hstep
    have hclientStep : s.stepClient fromJson c a = some t := by
      cases a with
      | call j cmd => exact absurd rfl (ha j cmd)
      | advance | throw | receive | ingest => exact hstep
    obtain ⟨_, _, -, -, hsends, -⟩ := callOf_stepClient hclientStep
    intro k
    rw [hsends]
    exact sendOk_of_continues (continues_stepClient hclientStep (ha k)) (h k)

/-! ### The answers -/

/-- The `c`-th client answered the `k`-th call with `st`. -/
def Answered (s : Session) (k c : Nat) (st : Stored) : Prop :=
  ∃ cmd, s.callOf c k = .returned cmd (some st)

/-- The call of `send` has ended; `n` is the length of its copy of the list. -/
def SendState.Finished (n : Nat) : SendState → Prop
  | .returned _ m _ | .thrown _ m => m = n
  | _ => False

/-- If a client answered the `k`-th call, then `send` has returned one of the answers. -/
def AnswerKept (s : Session) (k : Nat) : Prop :=
  (∃ c st, Answered s k c st) →
    ∃ c st cmd n, Answered s k c st ∧ s.sends k = .returned cmd n (some st)

/-- **Answers.** In every state a run reaches, a finished call of `send` has kept an answer
    exactly when no client answered it, or the last client of its copy did. -/
theorem answerKept_iff (fromJson : FromJson) (as : List SessionAction) (s : Session)
    (k n : Nat) (hrun : (sessionLts fromJson).run .new as = some s)
    (hfin : (s.sends k).Finished n) :
    AnswerKept s k ↔
      (∀ c st, ¬ Answered s k c st) ∨ ∃ st, 0 < n ∧ Answered s k (n - 1) st := by
  have hk : SendOk s k (s.sends k) :=
    Lts.invariant_of_run (M := sessionLts fromJson) sendsOk_step sendsOk_new hrun k
  cases hs : s.sends k with
  | notCalled | loop | inClient =>
    rw [hs] at hfin
    exact hfin.elim
  | returned cmd m ret =>
    rw [hs] at hk hfin
    cases hfin
    obtain ⟨⟨hall, hzero⟩, hfresh⟩ := hk
    constructor
    · intro hkept
      by_cases hany : ∃ c st, Answered s k c st
      -- what `send` returned is the last client's
      · obtain ⟨c, st, cmd', n', hans, hret⟩ := hkept hany
        rw [hs] at hret
        cases hret
        have hpos : 0 < n := by
          by_contra hm
          exact absurd (hzero (by omega)) (by simp)
        obtain ⟨r, hr, hlast⟩ := hall (n - 1) (by omega)
        exact Or.inr ⟨st, hpos, cmd, by rw [hr, ← hlast (by omega)]⟩
      · exact Or.inl fun c st hans => hany ⟨c, st, hans⟩
    · rintro (hnone | ⟨st, hpos, cmd', hans⟩)
      · rintro ⟨c, st, hans⟩
        exact absurd hans (hnone c st)
      · intro _
        obtain ⟨r, hr, hlast⟩ := hall (n - 1) (by omega)
        rw [hr] at hans
        cases hans
        exact ⟨n - 1, st, cmd, n, ⟨cmd, hr⟩, by rw [hs, hlast (by omega)]⟩
  | thrown cmd m =>
    rw [hs] at hk hfin
    cases hfin
    obtain ⟨i, hi, hthrown, hfresh⟩ := hk
    constructor
    · intro hkept
      refine Or.inl fun c st hans => ?_
      obtain ⟨_, _, _, _, _, hret⟩ := hkept ⟨c, st, hans⟩
      rw [hs] at hret
      cases hret
    · rintro (hnone | ⟨st, hpos, cmd', hans⟩)
      · rintro ⟨c, st, hans⟩
        exact absurd hans (hnone c st)
      -- the last client threw, or was never asked
      · by_cases hlast : n - 1 = i
        · rw [hlast, hthrown] at hans
          cases hans
        · rw [hfresh (n - 1) (by omega)] at hans
          cases hans

/-! ### Two schedules -/

/-- One client that connects, gets the command and answers it with `line`. -/
def answeredAlone (cmd : Cmd) (line : Line) : List SessionAction :=
  [.connect, .send 0 cmd, .next 0, .client 0 (.advance 0), .client 0 (.advance 0),
    .client 0 (.advance 0), .client 0 (.receive line), .client 0 .ingest, .client 0 .ingest,
    .client 0 (.advance 0), .client 0 (.advance 0), .client 0 (.advance 0), .collect 0,
    .next 0]

/-- A client that answers and, after it, one whose process has ended: its loop runs to the
    timeout. -/
def answeredThenSilent (cmd : Cmd) (line : Line) : List SessionAction :=
  [.connect, .connect, .send 0 cmd, .next 0, .client 0 (.advance 0), .client 0 (.advance 0),
    .client 0 (.advance 0), .client 0 (.receive line), .client 0 .ingest, .client 0 .ingest,
    .client 0 (.advance 0), .client 0 (.advance 0), .client 0 (.advance 0), .collect 0,
    .next 0] ++ List.replicate 88 (.client 1 (.advance 0)) ++ [.collect 0, .next 0]

/-- An answer of the only client is kept. -/
theorem answerKept_alone :
    ∃ s, (sessionLts gsonWithoutSuggestions).run .new
        (answeredAlone localCompletion replyLine) = some s ∧ AnswerKept s 0 := by
  obtain ⟨s, hrun, hsend, hcall⟩ : ∃ s, (sessionLts gsonWithoutSuggestions).run .new
      (answeredAlone localCompletion replyLine) = some s ∧
      s.sends 0 = .returned localCompletion 1
        (some ⟨.completion .getCtxCompletion none, replyLine⟩) ∧
      s.callOf 0 0 = .returned localCompletion
        (some ⟨.completion .getCtxCompletion none, replyLine⟩) := ⟨_, rfl, rfl, rfl⟩
  refine ⟨s, hrun, ?_⟩
  exact (answerKept_iff gsonWithoutSuggestions _ s 0 1 hrun (by rw [hsend]; rfl)).mpr
    (Or.inr ⟨_, Nat.one_pos, localCompletion, hcall⟩)

/-- **Counterexample.** A client answers and the one after it is silent: `send` returns
    null. -/
theorem silent_client_overwrites_answer :
    ¬ ∀ (fromJson : FromJson) (as : List SessionAction) (s : Session) (k n : Nat),
      (sessionLts fromJson).run .new as = some s → (s.sends k).Finished n →
      AnswerKept s k := by
  intro h
  obtain ⟨s, hrun, hsend, hcall⟩ : ∃ s, (sessionLts gsonWithoutSuggestions).run .new
      (answeredThenSilent localCompletion replyLine) = some s ∧
      s.sends 0 = .returned localCompletion 2 none ∧
      s.callOf 0 0 = .returned localCompletion
        (some ⟨.completion .getCtxCompletion none, replyLine⟩) := ⟨_, rfl, rfl, rfl⟩
  obtain ⟨_, _, _, _, _, hret⟩ := h _ _ s 0 2 hrun (by rw [hsend]; rfl)
    ⟨0, _, localCompletion, hcall⟩
  rw [hsend] at hret
  cases hret

end Reloadium.Session
