import Reloadium.Lib.Sections
import Reloadium.Ai.LiveStreams
import Reloadium.Ai.SavedParts

namespace Reloadium.Ai

open Reloadium.Lib

/-!
# Ai — what a live dialog shows

The component of a live dialog shows its messages in the order of the model, with a
separator before each user message that is sent under another context than the one before.
The context of the last user message outlives a clear; the model has no trace of it.

* `DialogOp`, `shownLts` — every way to use a dialog, with the context that was current
  when the component was emptied last;
* `LiveMessage.Sound` — what holds of every message a dialog creates;
* `ShownFrom` — the component is the print of the model's messages, from that context;
* `shownFrom_of_run` — so it is after every sequence of operations.
-/

/-! ### The operations -/

/-- A call of a public method of the dialog, or an event of its prompt and its streams. -/
inductive DialogOp where
  | addUserMessage (content newContext : JString) (throws : Bool)
  | addAiMessage
  | addReMessage (type : MessageType)
  | event (e : DialogEvent)

/-- A dialog, with the context that was current when its component was emptied last. -/
structure Shown where
  live : Live
  cleared : JString

/-- The context that was current when the component was emptied last, after an event. -/
def Live.clearedBy (s : Live) (cleared : JString) : DialogEvent → JString
  | .clear => s.currentContext
  | _ => cleared

/-- One operation; `none` when its event cannot happen. -/
def Shown.step (env : LiveEnv) (s : Shown) : DialogOp → Option Shown
  | .addUserMessage content newContext throws =>
    some { s with live := (s.live.addUserMessage env content newContext throws).1 }
  | .addAiMessage => some { s with live := (s.live.addAiMessage env).1 }
  | .addReMessage type => some { s with live := s.live.addReMessage env type }
  | .event e =>
    (s.live.step env e).map fun live => { live, cleared := s.live.clearedBy s.cleared e }

/-- A dialog under every sequence of operations. -/
def shownLts (env : LiveEnv) (id : Int32) : Lts Shown DialogOp where
  init := ⟨.new id, []⟩
  step := Shown.step env

/-! ### The messages -/

/-- The context that a message is separated by. -/
def LiveMessage.seed (m : LiveMessage) : Option JString :=
  match m.type with
  | .USER => some m.context
  | _ => none

/-- The separators of a live dialog's component. -/
def liveSections (objects : List LiveMessage) : Sections JString Nat LiveItem where
  separator := .contextSeparator
  entry := .message
  named ref := (objects[ref]?).bind LiveMessage.seed

/-- A message as the dialog creates and changes it: its parts are counted, building it once
    more from its model changes nothing, and only an `AiMessage` has a stream. -/
structure LiveMessage.Sound (m : LiveMessage) : Prop where
  counted : m.body.Counted
  rebuilt : m.model.rebuilt = m.model
  type : m.type ≠ .RE
  stream : m.ai.phase ≠ .closed → m.type = .AI

/-- **The component is the print of the model's messages**, from the context `base`. -/
structure ShownFrom (base : JString) (s : Live) : Prop where
  bound : ∀ ref ∈ s.modelMessages, ref < s.objects.length
  output : s.output = (liveSections s.objects).items base s.modelMessages
  current : s.currentContext = (liveSections s.objects).current base s.modelMessages
  sound : ∀ (ref : Nat) (m : LiveMessage), s.objects[ref]? = some m → m.Sound

variable {env : LiveEnv} {base : JString} {s : Live} {ref : Nat}

/-- A message whose type has no text of its own is built from its model as it is. -/
theorem rebuilt_of_bundleText {m : MessageModel} (h : m.type.bundleText = none) :
    m.rebuilt = m := by rw [MessageModel.rebuilt, h]

/-! ### Assignments -/

/-- The property is about four fields. -/
theorem ShownFrom.congr {s' : Live} (h : ShownFrom base s) (hobjects : s'.objects = s.objects)
    (hmessages : s'.modelMessages = s.modelMessages) (houtput : s'.output = s.output)
    (hcurrent : s'.currentContext = s.currentContext) : ShownFrom base s' := by
  refine ⟨?_, ?_, ?_, ?_⟩
  · rw [hobjects, hmessages]
    exact h.bound
  · rw [hobjects, hmessages, houtput]
    exact h.output
  · rw [hobjects, hmessages, hcurrent]
    exact h.current
  · rw [hobjects]
    exact h.sound

/-- More messages, or other ones that name the same contexts, print the model alike. -/
theorem ShownFrom.of_named {s' : Live} (h : ShownFrom base s)
    (hmessages : s'.modelMessages = s.modelMessages) (houtput : s'.output = s.output)
    (hcurrent : s'.currentContext = s.currentContext)
    (hlen : s.objects.length ≤ s'.objects.length)
    (hnamed : ∀ ref < s.objects.length,
      (liveSections s.objects).named ref = (liveSections s'.objects).named ref)
    (hsound : ∀ (ref : Nat) (m : LiveMessage), s'.objects[ref]? = some m → m.Sound) :
    ShownFrom base s' := by
  have hnamed' : ∀ ref ∈ s.modelMessages,
      (liveSections s.objects).named ref = (liveSections s'.objects).named ref :=
    fun ref hmem => hnamed ref (h.bound ref hmem)
  refine ⟨fun ref hmem => ?_, ?_, ?_, hsound⟩
  · rw [hmessages] at hmem
    exact Nat.lt_of_lt_of_le (h.bound ref hmem) hlen
  · rw [hmessages, houtput, h.output]
    exact Sections.items_congr (S := liveSections s.objects) (T := liveSections s'.objects)
      rfl rfl hnamed' base
  · rw [hmessages, hcurrent, h.current]
    exact Sections.current_congr (T := liveSections s'.objects) hnamed' base

/-- A change of one message that keeps it sound, and its context. -/
theorem ShownFrom.modify (h : ShownFrom base s) {f : LiveMessage → LiveMessage}
    (hf : ∀ m, s.objects[ref]? = some m → (f m).Sound ∧ (f m).seed = m.seed) :
    ShownFrom base (s.modify ref f) := by
  have hget : ∀ k, (s.modify ref f).objects[k]? =
      (s.objects[k]?).map fun m => if ref = k then f m else m := by
    intro k
    show (s.objects.modify ref f)[k]? = _
    rw [List.getElem?_modify]
    cases s.objects[k]? with
    | none => rfl
    | some m => by_cases hk : ref = k <;> simp [hk]
  refine h.of_named rfl rfl rfl (by simp [Live.modify]) (fun k _ => ?_) fun k m' hm' => ?_
  · show (s.objects[k]?).bind _ = ((s.modify ref f).objects[k]?).bind _
    rw [hget]
    cases hk : s.objects[k]? with
    | none => rfl
    | some m =>
      show m.seed = (if ref = k then f m else m).seed
      split
      · next heq =>
        subst heq
        exact (hf m hk).2.symm
      · rfl
  · rw [hget] at hm'
    obtain ⟨m, hk, rfl⟩ := Option.map_eq_some_iff.mp hm'
    split
    · next heq =>
      subst heq
      exact (hf m hk).1
    · exact h.sound k m hk

/-- A change of a stream, which only an `AiMessage` may have. -/
theorem ShownFrom.modifyAi (h : ShownFrom base s) {f : AiState → AiState}
    (hf : ∀ m, s.objects[ref]? = some m → (f m.ai).phase ≠ .closed → m.type = .AI) :
    ShownFrom base (s.modifyAi ref f) := by
  refine h.modify fun m hm => ⟨?_, rfl⟩
  have hsound := h.sound ref m hm
  exact ⟨hsound.counted, hsound.rebuilt, hsound.type, hf m hm⟩

/-- A change that keeps the phase, or closes the stream. -/
theorem ShownFrom.modifyAi_phase (h : ShownFrom base s) {f : AiState → AiState}
    (hf : ∀ a, (f a).phase ≠ .closed → a.phase ≠ .closed) :
    ShownFrom base (s.modifyAi ref f) :=
  h.modifyAi fun m hm hphase => (h.sound ref m hm).stream (hf m.ai hphase)

/-- A message whose stream is not over is an `AiMessage`. -/
theorem ShownFrom.type_of_phase (h : ShownFrom base s) (hphase : (s.aiState ref).phase ≠ .closed)
    {m : LiveMessage} (hm : s.objects[ref]? = some m) : m.type = .AI := by
  apply (h.sound ref m hm).stream
  rw [Live.aiState, hm] at hphase
  exact hphase

/-- Text appended to an `AiMessage`, whether it throws or not. -/
theorem ShownFrom.append (h : ShownFrom base s)
    (htype : ∀ m, s.objects[ref]? = some m → m.type = .AI) (chunk : JString) :
    ShownFrom base (s.append env ref chunk).1 := by
  have hset : ∀ m, s.objects[ref]? = some m →
      ShownFrom base (s.modify ref fun m' =>
        { m' with body := left (m.body.append env.parser chunk) }) := by
    intro m hm
    refine h.modify fun m' hm' => ⟨?_, rfl⟩
    have hsound := h.sound ref m' hm'
    have hcounted := (h.sound ref m hm).counted.setRawContent env.parser (m.body.rawContent ++ chunk)
    refine ⟨hcounted, ?_, hsound.type, hsound.stream⟩
    -- the type of an `AiMessage` has no text of its own
    apply rebuilt_of_bundleText
    show m'.type.bundleText = none
    rw [htype m' hm']
    rfl
  unfold Live.append
  cases hm : s.objects[ref]? with
  | none => exact h
  | some m =>
    have hset := hset m hm
    cases happend : m.body.append env.parser chunk with
    | ok body =>
      rw [happend] at hset
      simp only [happend]
      exact hset
    | error body =>
      rw [happend] at hset
      simp only [happend]
      exact hset

/-- The end of a stream. -/
theorem ShownFrom.onComplete (h : ShownFrom base s) (ref : Nat) :
    ShownFrom base (s.onComplete ref) := by
  have hclosed : ∀ a : AiState,
      ({ a with phase := .closed, completed := true } : AiState).phase ≠ .closed →
        a.phase ≠ .closed := fun a hphase => absurd rfl hphase
  exact (h.modifyAi_phase hclosed).congr rfl rfl rfl rfl

/-! ### New messages -/

/-- A new message, after the change of the context that a user's message brings. -/
theorem ShownFrom.addMessage (h : ShownFrom base s) {m : LiveMessage} (hm : m.Sound) :
    ShownFrom base ((s.trackContextChange (m.seed.getD s.currentContext)).addMessage m) := by
  -- the messages that were there print as before
  have hold : ∀ ref < s.objects.length, (liveSections s.objects).named ref =
      (liveSections (s.objects ++ [m])).named ref := by
    intro ref hlt
    show (s.objects[ref]?).bind _ = ((s.objects ++ [m])[ref]?).bind _
    rw [List.getElem?_append_left hlt]
  have hsound : ∀ (ref : Nat) (m' : LiveMessage),
      (s.objects ++ [m])[ref]? = some m' → m'.Sound := by
    intro ref m' hget
    rcases List.mem_append.mp (List.mem_of_getElem? hget) with hmem | hmem
    · obtain ⟨k, hk⟩ := List.mem_iff_getElem?.mp hmem
      exact h.sound k m' hk
    · rw [List.mem_singleton.mp hmem]
      exact hm
  have hwith : ShownFrom base { s with objects := s.objects ++ [m] } :=
    h.of_named rfl rfl rfl (by simp) hold hsound
  -- the new one names the context of its own
  have hnew : (liveSections (s.objects ++ [m])).named s.objects.length = m.seed := by
    show ((s.objects ++ [m])[s.objects.length]?).bind _ = _
    rw [List.getElem?_concat_length]
    rfl
  have hafter : (liveSections (s.objects ++ [m])).after s.currentContext s.objects.length =
      m.seed.getD s.currentContext := by rw [Sections.after, hnew]
  have houtput : (s.trackContextChange (m.seed.getD s.currentContext)).output ++
      [.message s.objects.length] =
      s.output ++ (liveSections (s.objects ++ [m])).print s.currentContext s.objects.length := by
    rw [Sections.print, hafter, Live.trackContextChange]
    by_cases heq : s.currentContext = m.seed.getD s.currentContext
    · rw [if_pos heq, if_pos heq.symm]
      rfl
    · rw [if_neg heq, if_neg (Ne.symm heq), ← List.append_assoc]
      rfl
  obtain ⟨hobjects, -⟩ := Live.trackContextChange_same s (m.seed.getD s.currentContext)
  have hmessages : (s.trackContextChange (m.seed.getD s.currentContext)).modelMessages =
      s.modelMessages := by
    unfold Live.trackContextChange
    split <;> rfl
  have hcontext : (s.trackContextChange (m.seed.getD s.currentContext)).currentContext =
      m.seed.getD s.currentContext := by
    unfold Live.trackContextChange
    split
    · assumption
    · rfl
  refine ⟨fun ref hmem => ?_, ?_, ?_, ?_⟩ <;>
    simp only [Live.addMessage, hobjects, hmessages, hcontext] at *
  · rcases List.mem_append.mp hmem with hmem | hmem
    · exact Nat.lt_of_lt_of_le (h.bound ref hmem) (by simp)
    · rw [List.mem_singleton.mp hmem]
      simp
  · rw [houtput, Sections.items_append, ← hwith.output, ← hwith.current]
    simp only [Sections.items_cons, Sections.items_nil, List.append_nil]
  · rw [Sections.current_append, ← hwith.current]
    exact hafter.symm
  · exact hsound

/-- A new message that is no user's message. -/
theorem ShownFrom.addMessage_other (h : ShownFrom base s) {m : LiveMessage} (hm : m.Sound)
    (hseed : m.seed = none) : ShownFrom base (s.addMessage m) := by
  have hadd := h.addMessage hm
  rw [hseed, Option.getD_none, Live.trackContextChange, if_pos rfl] at hadd
  exact hadd

/-- A new message with the text `text`. -/
theorem counted_fresh_setRawContent {parser : Parser} {text : JString} {body : Message}
    (hbody : Message.fresh.setRawContent parser text = .ok body) : body.Counted := by
  have hcounted := counted_fresh.setRawContent parser text
  rw [hbody] at hcounted
  exact hcounted

theorem ShownFrom.addReMessage (h : ShownFrom base s) (hparser : env.parser.ReadsBundle)
    (type : MessageType) : ShownFrom base (s.addReMessage env type) := by
  unfold Live.addReMessage
  split
  · exact h
  · next text htext =>
    split
    · exact h
    · next body hbody =>
      refine h.addMessage_other ⟨counted_fresh_setRawContent hbody, ?_, ?_, ?_⟩ ?_
      · exact rebuilt_reMessage hparser htext hbody _
      · show type ≠ .RE
        rintro rfl
        cases htext
      · exact fun hphase => absurd rfl hphase
      · show LiveMessage.seed _ = none
        unfold LiveMessage.seed
        split
        · next heq =>
          -- a user's message has no text of its own
          obtain rfl : type = .USER := heq
          cases htext
        · rfl

/-- `start` appends to its message, or queues its stream. -/
theorem ShownFrom.start (h : ShownFrom base s)
    (htype : ∀ m, s.objects[ref]? = some m → m.type = .AI) (history : List MessageModel) :
    ShownFrom base (s.start env ref history).1 := by
  unfold Live.start
  split
  · have happend := @ShownFrom.append env base s ref h htype (.ofString "Ai Message too long")
    split
    · next heq =>
      rw [heq] at happend
      exact happend
    · next heq =>
      rw [heq] at happend
      exact happend.onComplete ref
  · dsimp only
    exact h.modifyAi fun m hm _ => htype m hm

theorem ShownFrom.addAiMessage (h : ShownFrom base s) :
    ShownFrom base (s.addAiMessage env).1 := by
  unfold Live.addAiMessage
  split
  · exact h
  · next history _ =>
    refine ShownFrom.start (h.addMessage_other ?_ rfl) (fun m hm => ?_) history
    · exact ⟨counted_fresh, rebuilt_of_bundleText rfl, by simp, fun _ => rfl⟩
    · simp only [Live.addMessage, List.getElem?_concat_length, Option.some.injEq] at hm
      rw [← hm]

/-- `proposeName` is about other fields. -/
theorem ShownFrom.proposeName (h : ShownFrom base s) (content : JString) (throws : Bool) :
    ShownFrom base (s.proposeName env content throws).1 := by
  unfold Live.proposeName
  split
  · exact h.congr rfl rfl rfl rfl
  · split
    · exact h
    · exact h.congr rfl rfl rfl rfl

theorem ShownFrom.addUserMessage (h : ShownFrom base s) (content newContext : JString)
    (throws : Bool) : ShownFrom base (s.addUserMessage env content newContext throws).1 := by
  unfold Live.addUserMessage
  split
  · exact h
  · next body hbody =>
    have hname : ShownFrom base (if s.name = NEW_CHAT_NAME then s.proposeName env content throws
        else (s, true)).1 := by
      split
      · exact h.proposeName content throws
      · exact h
    split
    · next heq =>
      rw [heq] at hname
      exact hname
    · next s₁ heq =>
      rw [heq] at hname
      -- the message names the context that it is sent under
      have hadd : ShownFrom base ((s₁.trackContextChange newContext).addMessage
          ⟨.USER, newContext, body, .new⟩) := by
        refine hname.addMessage (m := ⟨.USER, newContext, body, .new⟩) ?_
        exact ⟨counted_fresh_setRawContent hbody, rebuilt_of_bundleText rfl, by simp,
          fun hphase => absurd rfl hphase⟩
      dsimp only
      split
      · exact hadd
      · exact hadd.addAiMessage

theorem ShownFrom.submit (h : ShownFrom base s) (prompt newContext : JString) (throws : Bool) :
    ShownFrom base (s.submit env prompt newContext throws) := by
  unfold Live.submit
  split
  · exact h
  · dsimp only
    split
    · exact h
    · have hstop : ShownFrom base { s with submitButton := .STOP } := h.congr rfl rfl rfl rfl
      exact hstop.addUserMessage ..

/-! ### The streams -/

theorem ShownFrom.cancel (h : ShownFrom base s) : ShownFrom base s.cancel.1 := by
  unfold Live.cancel
  split
  · exact h
  · dsimp only
    exact h.modifyAi_phase fun a hphase => hphase

theorem ShownFrom.onFailure (h : ShownFrom base s) (hparser : env.parser.ReadsBundle)
    (hphase : (s.aiState ref).phase ≠ .closed) :
    ShownFrom base (s.onFailure env ref) := by
  -- the message of the stream is still the one it was after the Re message
  have hfailed : ∀ t : Live, ShownFrom base t → t.aiState ref = s.aiState ref →
      ShownFrom base { t.modifyAi ref fun a => { a with phase := .failed } with
        submitButton := .SUBMIT } := by
    intro t ht hai
    have hmodify : ShownFrom base (t.modifyAi ref fun a => { a with phase := .failed }) := by
      refine ht.modifyAi fun m hm _ => ht.type_of_phase ?_ hm
      rw [hai]
      exact hphase
    exact hmodify.congr rfl rfl rfl rfl
  unfold Live.onFailure
  dsimp only
  split
  · exact hfailed _ (h.addReMessage hparser _) (Live.aiState_addReMessage ..)
  · split
    · exact hfailed _ (h.addReMessage hparser _) (Live.aiState_addReMessage ..)
    · exact hfailed s h rfl

theorem ShownFrom.onStreamError (h : ShownFrom base s)
    (htype : ∀ m, s.objects[ref]? = some m → m.type = .AI) (message : Option JString) :
    ShownFrom base (s.onStreamError env ref message).1 := by
  unfold Live.onStreamError
  cases message with
  | none =>
    show ShownFrom base (s.modifyAi ref fun a => { a with phase := .closed })
    exact h.modifyAi_phase fun a hphase => absurd rfl hphase
  | some text =>
    have happend := @ShownFrom.append env base s ref h htype text
    have htype' : ∀ m, (s.append env ref text).1.objects[ref]? = some m → m.type = .AI := by
      intro m hm
      rw [Live.objects_append] at hm
      obtain ⟨m', hm', rfl⟩ := Option.map_eq_some_iff.mp hm
      exact htype m' hm'
    dsimp only
    split <;> dsimp only
    · exact happend.modifyAi fun m hm _ => htype' m hm
    · exact happend.modifyAi_phase fun a hphase => absurd rfl hphase

/-! ### Every operation -/

/-- **One event.** Only a clear changes the context that the print begins with. -/
theorem ShownFrom.step (hparser : env.parser.ReadsBundle) (h : ShownFrom base s)
    {s' : Live} (e : DialogEvent) (hstep : s.step env e = some s') :
    ShownFrom (s.clearedBy base e) s' := by
  -- a stream that is not over belongs to an `AiMessage`
  have hopen : ∀ {ref phase}, (s.aiState ref).phase = phase → phase ≠ .closed →
      ∀ m, s.objects[ref]? = some m → m.type = .AI :=
    fun hphase hne m hm => h.type_of_phase (by rw [hphase]; exact hne) hm
  cases e with
  | submit prompt newContext throws =>
    cases hstep
    exact h.submit prompt newContext throws
  | cancel =>
    cases hstep
    exact h.cancel
  | clear =>
    cases hstep
    exact ⟨fun ref hmem => absurd hmem (List.not_mem_nil), rfl, rfl, h.sound⟩
  | rename newName =>
    cases hstep
    exact h.congr rfl rfl rfl rfl
  | makeCall ref client =>
    simp only [Live.step] at hstep
    split at hstep
    · next hphase =>
      cases client with
      | none =>
        cases hstep
        exact h.modifyAi_phase fun a hphase => absurd rfl hphase
      | some adapter =>
        cases hstep
        exact h.modifyAi fun m hm _ => hopen hphase (by simp) m hm
    · cases hstep
  | storeCall ref =>
    cases hstep
    exact h.modifyAi_phase fun a hphase => hphase
  | onMessage ref chunk =>
    simp only [Live.step] at hstep
    split at hstep <;> cases hstep
    next hphase => exact h.append (hopen hphase.1 (by simp)) chunk
  | onError ref message =>
    simp only [Live.step] at hstep
    split at hstep <;> cases hstep
    next hphase => exact h.onStreamError (hopen hphase (by simp)) message
  | onComplete ref =>
    simp only [Live.step] at hstep
    split at hstep <;> cases hstep
    next hphase => exact h.modifyAi fun m hm _ => hopen hphase (by simp) m hm
  | listenerOnFailure ref =>
    simp only [Live.step] at hstep
    split at hstep <;> cases hstep
    next hphase => exact h.onFailure hparser (by rw [hphase]; simp)
  | listenerOnComplete ref =>
    simp only [Live.step] at hstep
    split at hstep <;> cases hstep
    exact h.onComplete ref
  | nameProposed p answer =>
    simp only [Live.step] at hstep
    split at hstep
    · cases hstep
      unfold Live.nameProposed
      dsimp only
      split <;> exact h.congr rfl rfl rfl rfl
    · cases hstep
  | nameFailed p =>
    simp only [Live.step] at hstep
    split at hstep <;> cases hstep
    exact h.congr rfl rfl rfl rfl

/-- The print begins with the context that was current when the component was emptied. -/
theorem shownFrom_step (hparser : env.parser.ReadsBundle) {s s' : Shown}
    (h : ShownFrom s.cleared s.live) (op : DialogOp) (hstep : s.step env op = some s') :
    ShownFrom s'.cleared s'.live := by
  cases op with
  | addUserMessage content newContext throws =>
    cases hstep
    exact h.addUserMessage content newContext throws
  | addAiMessage =>
    cases hstep
    exact h.addAiMessage
  | addReMessage type =>
    cases hstep
    exact h.addReMessage hparser type
  | event e =>
    obtain ⟨live, hlive, rfl⟩ := Option.map_eq_some_iff.mp hstep
    exact h.step hparser e hlive

/-- **The component is the print of the model's messages** after every sequence of
    operations on a new dialog. -/
theorem shownFrom_of_run (hparser : env.parser.ReadsBundle) {id : Int32} {ops : List DialogOp}
    {s : Shown} (hrun : (shownLts env id).run (shownLts env id).init ops = some s) :
    ShownFrom s.cleared s.live := by
  have hstep : ∀ (s : Shown) (op : DialogOp) (s' : Shown), ShownFrom s.cleared s.live →
      (shownLts env id).step s op = some s' → ShownFrom s'.cleared s'.live :=
    fun s op s' h hstep => shownFrom_step hparser h op hstep
  refine @Lts.invariant_of_run _ _ _ (fun s : Shown => ShownFrom s.cleared s.live) hstep
    _ _ _ ?_ hrun
  exact ⟨fun ref hmem => absurd hmem List.not_mem_nil, rfl, rfl, fun ref m hm => by cases hm⟩

end Reloadium.Ai
