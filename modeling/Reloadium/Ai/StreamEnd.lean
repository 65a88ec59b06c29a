import Reloadium.Ai.LiveStreams

namespace Reloadium.Ai

open Reloadium.Lib

/-!
# Ai — the end of a stream

`onError` appends the text of the error to the message, and parses it with all that came
before, ahead of everything that frees the prompt.  A null text, or one that puts a fenced
code block where a markdown part stands, ends the callback there.

* `deliver`, `terminate` — the callbacks of a stream, one after the other; they are steps of
  the dialog (`run_deliver`);
* `freed_iff` — the prompt is freed exactly when the terminal callback gets that far.
-/

/-- The terminal callback of a stream. -/
inductive Terminal where
  | onError (message : Option JString)
  | onComplete

namespace Live

/-- The chunks of a stream; an exception ends the callback of its chunk only. -/
def deliver (env : LiveEnv) (s : Live) (ref : Nat) (chunks : List JString) : Live :=
  chunks.foldl (fun s chunk => (s.append env ref chunk).1) s

/-- A terminal callback from its first statement to its last, or to its exception. -/
def terminate (env : LiveEnv) (s : Live) (ref : Nat) : Terminal → Live
  | .onError message =>
    match s.onStreamError env ref message with
    | (s, false) => s
    | (s, true) => (s.onFailure env ref).onComplete ref
  | .onComplete => (s.onStreamComplete ref).onComplete ref

end Live

/-- The `AiMessage` is started: it is generating, its client is called, no chunk has come. -/
structure Started (s : Live) (ref : Nat) : Prop where
  fresh : (s.objects[ref]?).map LiveMessage.body = some .fresh
  generating : (s.aiState ref).generating = true
  streaming : (s.aiState ref).phase = .streaming
  not_cancelled : (s.aiState ref).cancelled = false

/-- The stream's end has been dealt with. -/
structure Freed (s : Live) (ref : Nat) : Prop where
  not_generating : (s.aiState ref).generating = false
  completed : (s.aiState ref).completed = true
  submit : s.submitButton = .SUBMIT

/-- The terminal callback appends nothing, or a text that is not null and whose parse, with
    the chunks before it, puts no fenced code block on a markdown part. -/
def Terminal.Appends (parser : Parser) (chunks : List JString) : Terminal → Prop
  | .onComplete => True
  | .onError none => False
  | .onError (some text) =>
    layout (kindsAfter parser [] [] chunks) true (parser.leaves (chunks.flatten ++ text)) ≠ none

variable {env : LiveEnv} {s : Live} {ref : Nat}

/-! ### The chunks -/

theorem Started.lt (h : Started s ref) : ref < s.objects.length := by
  apply Live.lt_of_phase
  rw [h.streaming]
  decide

/-- The chunks change the message's text and parts, and no state. -/
theorem aiState_deliver (s : Live) (ref k : Nat) (chunks : List JString) :
    (s.deliver env ref chunks).aiState k = s.aiState k := by
  induction chunks generalizing s with
  | nil => rfl
  | cons chunk rest ih => exact (ih _).trans (Live.aiState_append ..)

theorem objects_deliver (s : Live) (ref : Nat) (chunks : List JString) :
    ((s.deliver env ref chunks).objects[ref]?).map LiveMessage.body =
      ((s.objects[ref]?).map LiveMessage.body).map fun m => feed env.parser m chunks := by
  induction chunks generalizing s with
  | nil => exact Option.map_id'.symm
  | cons chunk rest ih =>
    refine (ih _).trans ?_
    rw [Live.objects_append]
    cases s.objects[ref]? <;> rfl

theorem length_deliver (s : Live) (ref : Nat) (chunks : List JString) :
    (s.deliver env ref chunks).objects.length = s.objects.length := by
  induction chunks generalizing s with
  | nil => rfl
  | cons chunk rest ih => exact (ih _).trans (Live.length_append ..)

/-- The chunks are steps of the dialog. -/
theorem run_deliver {id : Int32} (hphase : (s.aiState ref).phase = .streaming)
    (hcancelled : (s.aiState ref).cancelled = false) (chunks : List JString) :
    (dialogLts env id).run s (chunks.map (.onMessage ref)) = some (s.deliver env ref chunks) := by
  induction chunks generalizing s with
  | nil => rfl
  | cons chunk rest ih =>
    have hai := @Live.aiState_append env s ref ref chunk
    refine Lts.run_cons_eq_some.mpr ⟨(s.append env ref chunk).1, ?_, ?_⟩
    · exact if_pos ⟨hphase, hcancelled⟩
    · exact ih (by rw [hai, hphase]) (by rw [hai, hcancelled])

/-! ### The terminal callback -/

/-- Appending to a message of the dialog returns when the visit of the text does. -/
theorem append_returns_iff {body : Message} {vs : List View}
    (hbody : (s.objects[ref]?).map LiveMessage.body = some body) (hshows : Shows body vs)
    (text : JString) :
    (s.append env ref text).2 = true ↔
      layout (vs.map Prod.fst) true (env.parser.leaves (body.rawContent ++ text)) ≠ none := by
  obtain ⟨m, hm, rfl⟩ := Option.map_eq_some_iff.mp hbody
  obtain ⟨vs', _, happend⟩ := shows_append env.parser hshows text
  unfold Live.append
  rw [hm]
  dsimp only
  cases hlayout : layout (vs.map Prod.fst) true (env.parser.leaves (m.body.rawContent ++ text)) with
  | none =>
    rw [hlayout] at happend
    obtain ⟨⟨e, he⟩, _⟩ := happend
    simp [he]
  | some ks =>
    rw [hlayout] at happend
    obtain ⟨⟨m', hm'⟩, _⟩ := happend
    simp [hm']

/-- Whether the callback gets past the text of the error. -/
theorem onStreamError_returns_iff (h : Started s ref) (chunks : List JString)
    (message : Option JString) :
    ((s.deliver env ref chunks).onStreamError env ref message).2 = true ↔
      (Terminal.onError message).Appends env.parser chunks := by
  cases message with
  | none => simp [Live.onStreamError, Terminal.Appends]
  | some text =>
    obtain ⟨vs, hshows, hkinds, htext⟩ := shows_feed env.parser shows_fresh chunks
    have hbody := @objects_deliver env s ref chunks
    rw [h.fresh, Option.map_some] at hbody
    have hreturns := @append_returns_iff env _ ref _ vs hbody hshows text
    rw [hkinds, htext] at hreturns
    refine Iff.trans ?_ hreturns
    unfold Live.onStreamError
    dsimp only
    cases ((s.deliver env ref chunks).append env ref text).2 <;> simp

theorem length_onStreamError (s : Live) (ref : Nat) (message : Option JString) :
    (s.onStreamError env ref message).1.objects.length = s.objects.length := by
  unfold Live.onStreamError
  cases message with
  | none => exact List.length_modify ..
  | some text =>
    dsimp only
    split <;> exact (List.length_modify ..).trans (Live.length_append ..)

/-- The state of the message when `onError` comes to the listener, or has thrown before. -/
theorem aiState_onStreamError (hlt : ref < s.objects.length) (message : Option JString) :
    (s.onStreamError env ref message).1.aiState ref =
      if (s.onStreamError env ref message).2 then
        { s.aiState ref with generating := false, phase := .failing }
      else { s.aiState ref with phase := .closed } := by
  unfold Live.onStreamError
  cases message with
  | none => exact (Live.aiState_modifyAi ..).trans (if_pos ⟨rfl, hlt⟩)
  | some text =>
    have hlt' : ref < (s.append env ref text).1.objects.length := by
      rw [Live.length_append]
      exact hlt
    have hai := @Live.aiState_append env s ref ref text
    dsimp only
    split
    · rw [Live.aiState_modifyAi, if_pos ⟨rfl, hlt'⟩, hai]
      rfl
    · rw [Live.aiState_modifyAi, if_pos ⟨rfl, hlt'⟩, hai]
      rfl

/-- The callback `onError` frees the prompt when it gets past the text of the error, and only
    then. -/
theorem freed_onError_iff (hlt : ref < s.objects.length)
    (hgen : (s.aiState ref).generating = true) (message : Option JString) :
    Freed (s.terminate env ref (.onError message)) ref ↔
      (s.onStreamError env ref message).2 = true := by
  have hai := @aiState_onStreamError env s ref hlt message
  have hlen := @length_onStreamError env s ref message
  rw [Live.terminate]
  cases herror : s.onStreamError env ref message with
  | mk t returns =>
    rw [herror] at hai hlen
    cases returns with
    | false =>
      -- the exception leaves the message generating
      refine iff_of_false (fun h => ?_) Bool.false_ne_true
      have hstill := h.not_generating
      rw [show t.aiState ref = _ from hai] at hstill
      exact absurd (hgen.symm.trans hstill) (by decide)
    | true =>
      have hlt' : ref < t.objects.length := by
        rw [show t.objects.length = _ from hlen]
        exact hlt
      have hlt'' := Nat.lt_of_lt_of_le hlt' (@Live.length_onFailure_le env t ref)
      have hdone : ((t.onFailure env ref).onComplete ref).aiState ref =
          { t.aiState ref with phase := .closed, completed := true } := by
        rw [Live.aiState_onComplete, if_pos ⟨rfl, hlt''⟩, Live.aiState_onFailure t hlt']
      refine iff_of_true ⟨?_, ?_, rfl⟩ rfl
      · show (((t.onFailure env ref).onComplete ref).aiState ref).generating = false
        rw [hdone, show t.aiState ref = _ from hai]
        rfl
      · show (((t.onFailure env ref).onComplete ref).aiState ref).completed = true
        rw [hdone]

/-- The callback `onComplete` frees the prompt. -/
theorem freed_onComplete (hlt : ref < s.objects.length) :
    Freed (s.terminate env ref .onComplete) ref := by
  have hlt' : ref < (s.onStreamComplete ref).objects.length := by
    simpa [Live.onStreamComplete, Live.modifyAi, Live.modify] using hlt
  have hdone : (s.terminate env ref .onComplete).aiState ref =
      { (s.onStreamComplete ref).aiState ref with phase := .closed, completed := true } := by
    rw [Live.terminate, Live.aiState_onComplete, if_pos ⟨rfl, hlt'⟩]
  refine ⟨?_, ?_, rfl⟩
  · rw [hdone, Live.aiState_onStreamComplete, if_pos ⟨rfl, hlt⟩]
  · rw [hdone]

/-- **A finished stream frees the prompt**, on a started message: exactly when it ends with
    `onComplete`, or with an error whose text is not null and puts no fenced code block on a
    markdown part. -/
theorem freed_iff (h : Started s ref) (chunks : List JString) (terminal : Terminal) :
    Freed ((s.deliver env ref chunks).terminate env ref terminal) ref ↔
      terminal.Appends env.parser chunks := by
  have hlt : ref < (s.deliver env ref chunks).objects.length := by
    rw [length_deliver]
    exact h.lt
  cases terminal with
  | onComplete => exact iff_of_true (freed_onComplete hlt) trivial
  | onError message =>
    have hgen : ((s.deliver env ref chunks).aiState ref).generating = true := by
      rw [aiState_deliver]
      exact h.generating
    exact (freed_onError_iff hlt hgen message).trans (onStreamError_returns_iff h chunks message)

/-- A new dialog whose first answer is being streamed. -/
def answering : Live :=
  greeted.modifyAi 1 fun a => { a with phase := .streaming, client := some .OpenAi }

theorem started_answering : Started answering 1 where
  fresh := rfl
  generating := by decide
  streaming := by decide
  not_cancelled := by decide

theorem freed_iff_answering :
    Freed ((answering.deliver plainEnv 1 [.ofString "Hi"]).terminate plainEnv 1 .onComplete) 1 ↔
      Terminal.onComplete.Appends plainEnv.parser [.ofString "Hi"] :=
  freed_iff started_answering [.ofString "Hi"] .onComplete

/-- An error without a text leaves the message generating and the prompt taken. -/
theorem null_error_keeps_prompt :
    Started answering 1 ∧
      ¬ Freed ((answering.deliver plainEnv 1 [.ofString "Hi"]).terminate plainEnv 1
        (.onError none)) 1 := by
  refine ⟨started_answering, fun h => ?_⟩
  have hbutton := h.submit
  revert hbutton
  decide

end Reloadium.Ai
