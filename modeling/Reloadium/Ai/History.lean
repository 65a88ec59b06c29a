import Mathlib.Algebra.Ring.Int.Defs
import Mathlib.Algebra.Ring.Nat
import Reloadium.Lib.Longest
import Reloadium.Ai.FailedPass
import Reloadium.Ai.LiveDialog

namespace Reloadium.Ai

open Reloadium.Lib

/-!
# Ai — the history that is sent with a prompt

What `Dialog.Model.getAcceptedMessages` accepts, and the request that `AiMessage.start` makes
of it.  The loop walks the messages from the last one back and adds up their tokens in an
`int`, which starts with the tokens of the system message and of the completion.

* `FitsBudget` — the budget; `StaysInRange` — the sums that the `int` can hold;
* `acceptMessages_spec` — where the loop gets to;
* `request` — the messages of the request;
* `prompted` — the dialog when `addUserMessage` comes to `addAiMessage`.
-/

/-! ### The budget -/

section Budget

variable (count : JString → Int32)

/-- The tokens of a message. -/
def MessageModel.tokens (m : MessageModel) : Int := (count (m.getAiContent.getD [])).toInt

/-- What a history counts: the completion, the system message and the messages. -/
def historyTokens (s : List MessageModel) : Int :=
  1000 + (count SYSTEM_MSG).toInt + (s.map (·.tokens count)).sum

/-- A history that is accepted.  The empty one is, whatever the system message counts. -/
def FitsBudget (s : List MessageModel) : Prop :=
  s.length ≤ 11 ∧ (s = [] ∨ historyTokens count s < 3000)

/-- No sum that the loop comes to is above the greatest `int`: it comes to the messages before
    a history that is accepted, unless that history is full. -/
def StaysInRange (messages : List MessageModel) : Prop :=
  ∀ m s, m :: s <:+ messages → FitsBudget count s → s.length < 11 →
    historyTokens count (m :: s) < 2 ^ 31

end Budget

variable {kit : Toolkit} {count : JString → Int32}

theorem historyTokens_cons (m : MessageModel) (s : List MessageModel) :
    historyTokens count (m :: s) = historyTokens count s + m.tokens count := by
  simp only [historyTokens, List.map_cons, List.sum_cons]
  omega

theorem tokens_nonneg (hcount : ∀ t, 0 ≤ (count t).toInt) (m : MessageModel) :
    0 ≤ m.tokens count := hcount _

theorem le_historyTokens (hcount : ∀ t, 0 ≤ (count t).toInt) (s : List MessageModel) :
    1000 ≤ historyTokens count s := by
  induction s with
  | nil =>
    have hsystem := hcount SYSTEM_MSG
    simp only [historyTokens, List.map_nil, List.sum_nil]
    omega
  | cons m s ih =>
    have htokens := tokens_nonneg hcount m
    rw [historyTokens_cons]
    omega

theorem suffixClosed_fitsBudget (hcount : ∀ t, 0 ≤ (count t).toInt) :
    SuffixClosed (FitsBudget count) := by
  intro m s hfits
  obtain ⟨hlength, hbudget⟩ := hfits
  rw [List.length_cons] at hlength
  refine ⟨by omega, ?_⟩
  rcases hbudget with hnil | hbudget
  · cases hnil
  · rw [historyTokens_cons] at hbudget
    have htokens := tokens_nonneg hcount m
    exact Or.inr (by omega)

/-! ### The loop -/

/-- A sum of the loop is exact up to the greatest `int`; above it, it is negative or small. -/
theorem bmod_of_sum {n : Int} (hpos : 0 ≤ n) (hlt : n < 2 ^ 32 + 1000) :
    (n < 2 ^ 31 → n.bmod (2 ^ 32) = n) ∧ (2 ^ 31 ≤ n → n.bmod (2 ^ 32) < 3000) := by
  rw [Int.bmod_def]
  omega

/-- One message more is below the bound of such a sum. -/
theorem historyTokens_cons_lt {s : List MessageModel} (hfits : FitsBudget count s)
    (m : MessageModel) :
    historyTokens count (m :: s) < 2 ^ 32 + 1000 := by
  have htokens : m.tokens count < 2 ^ 31 := Int32.toInt_lt _
  have hsystem := Int32.toInt_lt (count SYSTEM_MSG)
  rw [historyTokens_cons]
  rcases hfits.2 with rfl | hbudget
  · simp only [historyTokens, List.map_nil, List.sum_nil]
    omega
  · omega

/-- The loop has gone beyond the greatest `int` with what it accepts. -/
def WrapsAround (count : JString → Int32) (r : List MessageModel) : Prop :=
  ∃ m s, m :: s <:+ r ∧ FitsBudget count s ∧ s.length < 11 ∧
    2 ^ 31 ≤ historyTokens count (m :: s)

/-- With every count known, the loop returns; it takes the last messages. -/
theorem acceptMessages_returns (hkit : ∀ t, kit.countTokens t = some (count t))
    {older : List MessageModel} (hcontent : ∀ m ∈ older, m.getAiContent ≠ none)
    (tokenCounter : Int32) (messageCounter : Nat) :
    ∃ r, acceptMessages kit tokenCounter messageCounter (older.map some) = some r ∧
      r <+: older := by
  induction older generalizing tokenCounter messageCounter with
  | nil => exact ⟨[], rfl, List.nil_prefix⟩
  | cons m older ih =>
    obtain ⟨text, htext⟩ := Option.ne_none_iff_exists'.mp (hcontent m List.mem_cons_self)
    obtain ⟨r, hr, hbegins⟩ := ih (fun m' hm' => hcontent m' (List.mem_cons_of_mem _ hm'))
      (tokenCounter + count text) (messageCounter + 1)
    simp only [List.map_cons, acceptMessages, htext, Option.bind_some, hkit]
    split
    · exact ⟨[], rfl, List.nil_prefix⟩
    · split
      · exact ⟨[], rfl, List.nil_prefix⟩
      · rw [hr]
        exact ⟨m :: r, rfl, List.cons_prefix_cons.mpr ⟨rfl, hbegins⟩⟩

/-- **Spec lemma.** From an accepted history `s`, with the messages before it still to come
    (the last one first), the loop stops at the longest history, unless the sum wraps around. -/
theorem acceptMessages_spec (hkit : ∀ t, kit.countTokens t = some (count t))
    (hcount : ∀ t, 0 ≤ (count t).toInt) {older s : List MessageModel}
    (hcontent : ∀ m ∈ older, m.getAiContent ≠ none) (hfits : FitsBudget count s)
    {tokenCounter : Int32}
    (htokens : tokenCounter.toInt = (historyTokens count s).bmod (2 ^ 32)) {r : List MessageModel}
    (hr : acceptMessages kit tokenCounter (s.length + 1) (older.map some) = some r) :
    IsLongestSuffix (FitsBudget count) (older.reverse ++ s) (r.reverse ++ s) ∧
        (∀ m s', m :: s' <:+ older.reverse ++ s → s <:+ s' → FitsBudget count s' → s'.length < 11 →
          historyTokens count (m :: s') < 2 ^ 31) ∨
      WrapsAround count (r.reverse ++ s) := by
  induction older generalizing s tokenCounter r with
  | nil =>
    obtain rfl := Option.some.inj hr
    refine Or.inl ⟨isLongestSuffix_self hfits, fun m s' hsuffix hle _ _ => ?_⟩
    -- nothing is left before `s`
    have hlength := (hsuffix.trans hle).length_le
    rw [List.length_cons] at hlength
    omega
  | cons m older ih =>
    obtain ⟨text, htext⟩ := Option.ne_none_iff_exists'.mp (hcontent m List.mem_cons_self)
    have hcontent' : ∀ m' ∈ older, m'.getAiContent ≠ none := fun m' hm' =>
      hcontent m' (List.mem_cons_of_mem _ hm')
    have hsplit : (m :: older).reverse ++ s = older.reverse ++ m :: s := by simp
    have hm : m :: s <:+ older.reverse ++ m :: s := List.suffix_append _ _
    -- the sum that the loop compares, and its bounds
    have hsum : (tokenCounter + count text).toInt =
        (historyTokens count (m :: s)).bmod (2 ^ 32) := by
      rw [Int32.toInt_add, htokens, Int.bmod_add_bmod, historyTokens_cons, MessageModel.tokens,
        htext, Option.getD_some]
    have hpos := le_historyTokens hcount (m :: s)
    obtain ⟨hexact, hwraps⟩ := bmod_of_sum (by omega) (historyTokens_cons_lt hfits m)
    rw [hsplit]
    -- what holds of `m :: s` alone, where the loop stops before it
    have hstop (hnot : ¬ FitsBudget count (m :: s))
        (hrange : s.length < 11 → historyTokens count (m :: s) < 2 ^ 31) :
        IsLongestSuffix (FitsBudget count) (older.reverse ++ m :: s) s ∧
          ∀ m' s', m' :: s' <:+ older.reverse ++ m :: s → s <:+ s' → FitsBudget count s' →
            s'.length < 11 → historyTokens count (m' :: s') < 2 ^ 31 := by
      refine ⟨isLongestSuffix_of_stop (suffixClosed_fitsBudget hcount) hfits hm hnot, ?_⟩
      intro m' s' hsuffix hle hfits' hlength
      rcases eq_or_cons_suffix hm ((List.suffix_cons m' s').trans hsuffix) hle with rfl | hmore
      · obtain rfl := cons_suffix_inj hsuffix hm
        exact hrange hlength
      · exact absurd ((suffixClosed_fitsBudget hcount).of_suffix hfits' hmore) hnot
    simp only [List.map_cons, acceptMessages, htext, Option.bind_some, hkit] at hr
    split at hr
    case isTrue hbudget =>
      obtain rfl := Option.some.inj hr
      rw [Int32.le_iff_toInt_le, hsum] at hbudget
      have hle : 3000 ≤ (historyTokens count (m :: s)).bmod (2 ^ 32) := hbudget
      have hrange : historyTokens count (m :: s) < 2 ^ 31 := by
        by_contra hge
        have hlt := hwraps (by omega)
        omega
      rw [hexact hrange] at hle
      refine Or.inl (hstop (fun hfits' => ?_) fun _ => hrange)
      rcases hfits'.2 with hnil | hbudget'
      · cases hnil
      · omega
    case isFalse hbudget =>
      split at hr
      case isTrue hfull =>
        obtain rfl := Option.some.inj hr
        refine Or.inl (hstop (fun hfits' => ?_) fun hlength => by omega)
        have hlength := hfits'.1
        rw [List.length_cons] at hlength
        omega
      case isFalse hfull =>
        obtain ⟨r', hr', rfl⟩ := Option.map_eq_some_iff.mp hr
        have hresult : (m :: r').reverse ++ s = r'.reverse ++ m :: s := by simp
        rw [Int32.le_iff_toInt_le, hsum] at hbudget
        have hlt : ¬ 3000 ≤ (historyTokens count (m :: s)).bmod (2 ^ 32) := hbudget
        rw [hresult]
        by_cases hrange : historyTokens count (m :: s) < 2 ^ 31
        · -- the message is accepted, and the loop goes on from it
          rw [hexact hrange] at hlt
          have hfits' : FitsBudget count (m :: s) :=
            ⟨by rw [List.length_cons]; omega, Or.inr (by omega)⟩
          rcases ih hcontent' hfits' hsum hr' with ⟨hlongest, hrest⟩ | hwraparound
          · refine Or.inl ⟨hlongest, ?_⟩
            intro m' s' hsuffix hle hfits'' hlength
            rcases eq_or_cons_suffix hm ((List.suffix_cons m' s').trans hsuffix) hle with
              rfl | hmore
            · obtain rfl := cons_suffix_inj hsuffix hm
              exact hrange
            · exact hrest m' s' hsuffix hmore hfits'' hlength
          · exact Or.inr hwraparound
        · -- the sum wraps around, and the message is accepted
          exact Or.inr ⟨m, s, List.suffix_append _ _, hfits, by omega, by omega⟩

/-! ### The history -/

theorem fitsBudget_nil : FitsBudget count [] := ⟨by decide, Or.inl rfl⟩

/-- A history is not the longest when the sum has wrapped around for it. -/
theorem not_isLongestSuffix_of_wraps (hcount : ∀ t, 0 ≤ (count t).toInt)
    {messages r : List MessageModel} (hwraps : WrapsAround count r) :
    ¬ IsLongestSuffix (FitsBudget count) messages r := by
  intro hlongest
  obtain ⟨m, s, hsuffix, -, -, hge⟩ := hwraps
  have hfits := (suffixClosed_fitsBudget hcount).of_suffix hlongest.holds hsuffix
  rcases hfits.2 with hnil | hbudget
  · cases hnil
  · omega

/-- **The history.** It is the longest one within the budget exactly when no sum that the loop
    comes to is above the greatest `int`. -/
theorem getAcceptedMessages_iff (hkit : ∀ t, kit.countTokens t = some (count t))
    (hcount : ∀ t, 0 ≤ (count t).toInt) {d : DialogModel} {messages : List MessageModel}
    (hmessages : d.messages = some (messages.map some))
    (hcontent : ∀ m ∈ messages, m.getAiContent ≠ none) :
    (∃ r, d.getAcceptedMessages kit = some r ∧ IsLongestSuffix (FitsBudget count) messages r) ↔
      StaysInRange count messages := by
  have hcontent' : ∀ m ∈ messages.reverse, m.getAiContent ≠ none := fun m hm =>
    hcontent m (List.mem_reverse.mp hm)
  have hstart : (1000 + count SYSTEM_MSG).toInt = (historyTokens count []).bmod (2 ^ 32) := by
    rw [Int32.toInt_add]
    simp [historyTokens]
  obtain ⟨r, hr, -⟩ := acceptMessages_returns hkit hcontent' (1000 + count SYSTEM_MSG) 1
  have hspec := acceptMessages_spec hkit hcount hcontent' fitsBudget_nil hstart hr
  rw [List.reverse_reverse, List.append_nil, List.append_nil] at hspec
  have hresult : d.getAcceptedMessages kit = some r.reverse := by
    rw [DialogModel.getAcceptedMessages, hkit, hmessages, Option.bind_some, Option.bind_some,
      ← List.map_reverse, hr, Option.map_some]
  apply Iff.intro
  · rintro ⟨r', hr', hlongest⟩
    rw [hresult, Option.some.injEq] at hr'
    subst hr'
    rcases hspec with ⟨-, hrange⟩ | hwraps
    · exact fun m s hsuffix hfits hlength => hrange m s hsuffix List.nil_suffix hfits hlength
    · exact absurd hlongest (not_isLongestSuffix_of_wraps hcount hwraps)
  · intro hrange
    rcases hspec with ⟨hlongest, -⟩ | hwraps
    · exact ⟨r.reverse, hresult, hlongest⟩
    · -- what has wrapped around is a part of the messages
      obtain ⟨r', hr', hbegins⟩ := acceptMessages_returns hkit hcontent' (1000 + count SYSTEM_MSG) 1
      obtain rfl := Option.some.inj (hr.symm.trans hr')
      obtain ⟨m, s, hsuffix, hfits, hlength, hge⟩ := hwraps
      have hmessages' : r.reverse <:+ messages := by
        rw [← List.reverse_reverse messages]
        exact List.reverse_suffix.mpr hbegins
      have hlt := hrange m s (hsuffix.trans hmessages') hfits hlength
      omega

/-! ### The request -/

/-- `getRole`. -/
def MessageType.getRole : MessageType → Option JString
  | .USER => some (.ofString "user")
  | .AI => some (.ofString "assistant")
  | _ => none

/-- A `ChatCompletionMessage`. -/
structure ChatCompletionMessage where
  role : JString
  content : Option JString
  deriving DecidableEq

/-- The messages of a history that have a role. -/
def chatMessages (history : List MessageModel) : List ChatCompletionMessage :=
  history.filterMap fun n => n.type.getRole.map fun role => ⟨role, n.getAiContent⟩

/-- The messages that `AiMessage.start` sends; none when it finds the prompt too long. -/
def request (history : List MessageModel) : Option (List ChatCompletionMessage) :=
  let messages := chatMessages history
  if messages.isEmpty then none
  else some (⟨.ofString "system", some SYSTEM_MSG⟩ :: messages)

theorem chatMessages_isEmpty (history : List MessageModel) :
    (chatMessages history).isEmpty = (history.filter (·.type.hasRole)).isEmpty := by
  induction history with
  | nil => rfl
  | cons m rest ih =>
    cases hm : m.type <;>
      simp_all [chatMessages, MessageType.getRole, MessageType.hasRole]

namespace Live

variable {env : LiveEnv}

/-- `start` sends the request, if there is one. -/
theorem start_eq (s : Live) (ref : Nat) (history : List MessageModel) :
    s.start env ref history =
      match request history with
      | none =>
        match s.append env ref (.ofString "Ai Message too long") with
        | (s, false) => (s, false)
        | (s, true) => (s.onComplete ref, true)
      | some _ =>
        (s.modifyAi ref fun a => { a with generating := true, phase := .queued }, true) := by
  unfold start request
  rw [← chatMessages_isEmpty]
  cases hempty : (chatMessages history).isEmpty <;> simp only [hempty] <;> rfl

/-- The dialog when `addUserMessage` comes to `addAiMessage`; none when it throws before. -/
def prompted (env : LiveEnv) (s : Live) (content newContext : JString) (throws : Bool) :
    Option Live :=
  match Message.fresh.setRawContent env.parser content with
  | .error _ => none
  | .ok body =>
    match if s.name = NEW_CHAT_NAME then s.proposeName env content throws else (s, true) with
    | (_, false) => none
    | (s, true) =>
      let s := s.trackContextChange newContext
      let s := s.addMessage { type := .USER, context := newContext, body, ai := .new }
      match s.model.getAcceptedMessages env.toToolkit with
      | none => none
      | some _ => some s

/-- The message `addAiMessage` makes. -/
def newAnswer (s : Live) : LiveMessage where
  type := .AI
  context := s.currentContext
  body := .fresh
  ai := .new

/-- The prompt as a message of the request. -/
def promptMessage (content newContext : JString) : ChatCompletionMessage where
  role := .ofString "user"
  content := some
    (newContext ++ .ofString "Don't add line numbers to your code blocks" ++ content)

/-- The model of a message that is added comes last. -/
theorem model_addMessage (s : Live) (m : LiveMessage) :
    ∃ older, (s.addMessage m).model.messages = some (older ++ [some m.model]) := by
  refine ⟨s.modelMessages.map fun ref => ((s.objects ++ [m])[ref]?).map LiveMessage.model, ?_⟩
  simp only [model, addMessage, List.map_append, List.map_singleton,
    List.getElem?_concat_length, Option.map_some]

/-- What is known of the dialog when the answer is asked for: its last message is the prompt,
    and its history can be computed. -/
theorem of_prompted {s s' : Live} {content newContext : JString} {throws : Bool}
    (h : s.prompted env content newContext throws = some s') :
    s.addUserMessage env content newContext throws = s'.addAiMessage env ∧
      (∃ history, s'.model.getAcceptedMessages env.toToolkit = some history) ∧
      ∃ older m, s'.model.messages = some (older ++ [some m]) ∧
        chatMessages [m] = [promptMessage content newContext] := by
  unfold prompted at h
  unfold addUserMessage
  cases hbody : Message.fresh.setRawContent env.parser content with
  | error e =>
    rw [hbody] at h
    cases h
  | ok body =>
    have hraw : body.rawContent = content := by
      have hleft := visit_rawContent { Message.fresh with rawContent := content } 0
        (env.parser.leaves content)
      rw [Message.setRawContent] at hbody
      rwa [hbody] at hleft
    rw [hbody] at h
    simp only at h ⊢
    -- the name is asked for
    generalize (if s.name = NEW_CHAT_NAME then s.proposeName env content throws else (s, true)) =
      named at h ⊢
    obtain ⟨named, returned⟩ := named
    cases returned with
    | false => cases h
    | true =>
      obtain ⟨older, holder⟩ := model_addMessage (named.trackContextChange newContext)
        { type := .USER, context := newContext, body, ai := .new }
      simp only at h ⊢
      generalize (named.trackContextChange newContext).addMessage
        { type := .USER, context := newContext, body, ai := .new } = s₂ at h holder ⊢
      cases hhistory : s₂.model.getAcceptedMessages env.toToolkit with
      | none =>
        rw [hhistory] at h
        cases h
      | some history =>
        rw [hhistory] at h
        obtain rfl := Option.some.inj h
        refine ⟨rfl, ⟨history, hhistory⟩, older, _, holder, ?_⟩
        simp only [chatMessages, promptMessage, LiveMessage.model, MessageModel.getAiContent, hraw,
          MessageType.getRole, List.filterMap_cons, List.filterMap_nil, Option.map_some,
          Option.getD_some]

end Live

/-! ### The history of a prompt -/

/-- A history that is not empty ends with the last message. -/
theorem getAcceptedMessages_last {d : DialogModel} {older : List (Option MessageModel)}
    {m : MessageModel} (hmessages : d.messages = some (older ++ [some m]))
    {history : List MessageModel} (h : d.getAcceptedMessages kit = some history) :
    history = [] ∨ ∃ earlier, history = earlier ++ [m] := by
  simp only [DialogModel.getAcceptedMessages, hmessages, Option.bind_some, List.reverse_append,
    List.reverse_singleton, List.singleton_append, Option.bind_eq_some_iff, acceptMessages] at h
  obtain ⟨systemTokens, -, h⟩ := h
  obtain ⟨r, hr, rfl⟩ := Option.map_eq_some_iff.mp h
  obtain ⟨tokens, -, hr⟩ := Option.bind_eq_some_iff.mp hr
  split at hr
  · exact Or.inl (by rw [← Option.some.inj hr, List.reverse_nil])
  · split at hr
    · exact Or.inl (by rw [← Option.some.inj hr, List.reverse_nil])
    · obtain ⟨r', -, rfl⟩ := Option.map_eq_some_iff.mp hr
      exact Or.inr ⟨r'.reverse, List.reverse_cons⟩

theorem chatMessages_append (s t : List MessageModel) :
    chatMessages (s ++ t) = chatMessages s ++ chatMessages t := List.filterMap_append

theorem request_of_ne_nil {history : List MessageModel} (h : chatMessages history ≠ []) :
    request history = some (⟨.ofString "system", some SYSTEM_MSG⟩ :: chatMessages history) := by
  unfold request
  rw [if_neg (by simpa using h)]

/-- **History budget.** With any counts of tokens, the history is the longest one within the
    budget exactly when no sum that the loop comes to is above the greatest `int`.  The request
    after a prompt is made of the history of the dialog with the prompt as its last message:
    none if that history is empty, and otherwise the system message and then the messages of
    the history that have a role, of which the last one is the prompt. -/
theorem historyBudget_iff {env : LiveEnv} (henv : ∀ t, env.countTokens t = some (count t))
    (hcount : ∀ t, 0 ≤ (count t).toInt) :
    (∀ (d : DialogModel) (messages : List MessageModel),
      d.messages = some (messages.map some) → (∀ m ∈ messages, m.getAiContent ≠ none) →
      ((∃ history, d.getAcceptedMessages env.toToolkit = some history ∧
          IsLongestSuffix (FitsBudget count) messages history) ↔
        StaysInRange count messages)) ∧
    ∀ (s s' : Live) (content newContext : JString) (throws : Bool),
      s.prompted env content newContext throws = some s' →
      ∃ history, s'.model.getAcceptedMessages env.toToolkit = some history ∧
        s.addUserMessage env content newContext throws =
          (s'.addMessage s'.newAnswer).start env s'.objects.length history ∧
        (history = [] ∧ request history = none ∨
          request history = some (⟨.ofString "system", some SYSTEM_MSG⟩ :: chatMessages history) ∧
            (chatMessages history).getLast? = some (Live.promptMessage content newContext)) := by
  refine ⟨fun d messages hmessages hcontent => getAcceptedMessages_iff henv hcount hmessages
    hcontent, ?_⟩
  intro s s' content newContext throws hprompted
  obtain ⟨hadd, ⟨history, hhistory⟩, older, m, hmessages, hm⟩ := Live.of_prompted hprompted
  refine ⟨history, hhistory, ?_, ?_⟩
  · rw [hadd, Live.addAiMessage, hhistory]
    rfl
  · rcases getAcceptedMessages_last hmessages hhistory with rfl | ⟨earlier, rfl⟩
    · exact Or.inl ⟨rfl, rfl⟩
    · have hlast : chatMessages (earlier ++ [m]) =
          chatMessages earlier ++ [Live.promptMessage content newContext] := by
        rw [chatMessages_append, hm]
      refine Or.inr ⟨request_of_ne_nil ?_, ?_⟩
      · rw [hlast]
        exact List.append_ne_nil_of_right_ne_nil _ (List.cons_ne_nil _ _)
      · rw [hlast, List.getLast?_append, List.getLast?_singleton, Option.some_or]

theorem historyTokens_hundred (s : List MessageModel) :
    historyTokens (fun _ => 100) s = 1100 + 100 * s.length := by
  induction s with
  | nil => rfl
  | cons m s ih =>
    rw [historyTokens_cons, ih, List.length_cons]
    show 1100 + 100 * (s.length : Int) + 100 = 1100 + 100 * ((s.length + 1 : Nat) : Int)
    omega

/-- Where every text has a hundred tokens, the history is within the budget, and a second
    prompt is sent with it. -/
theorem historyBudget_hundred :
    (∃ history, greeted.model.getAcceptedMessages plainEnv.toToolkit = some history ∧
      IsLongestSuffix (FitsBudget fun _ => 100)
        (greeted.modelMessages.filterMap fun ref => (greeted.objects[ref]?).map LiveMessage.model)
        history) ∧
    ∃ s' history, greeted.prompted plainEnv (.ofString "Why?") [] false = some s' ∧
      s'.model.getAcceptedMessages plainEnv.toToolkit = some history ∧
      (history = [] ∧ request history = none ∨
        request history = some (⟨.ofString "system", some SYSTEM_MSG⟩ :: chatMessages history) ∧
          (chatMessages history).getLast? = some (Live.promptMessage (.ofString "Why?") [])) := by
  have hbudget := @historyBudget_iff (fun _ => 100) plainEnv (fun _ => rfl) (fun _ => by decide)
  apply And.intro
  · refine (hbudget.1 greeted.model _ (by decide) (by decide)).mpr ?_
    intro m s _ _ hlength
    rw [historyTokens_hundred, List.length_cons]
    omega
  · have hsome : (greeted.prompted plainEnv (.ofString "Why?") [] false).isSome = true := by
      decide
    obtain ⟨s', hs'⟩ := Option.isSome_iff_exists.mp hsome
    obtain ⟨history, hhistory, -, hrequest⟩ := hbudget.2 greeted s' _ _ _ hs'
    exact ⟨s', history, hs', hhistory, hrequest⟩

/-- One text has as many tokens as an `int` can count. -/
def hugeCount (t : JString) : Int32 := if t = .ofString "Hello" then 2147483647 else 100

/-- The answer with that text. -/
def hugeAnswer : MessageModel where
  type := .AI
  context := some []
  rawContent := some (.ofString "Hello")
  content := some []

theorem hugeCount_SYSTEM_MSG : hugeCount SYSTEM_MSG = 100 := by
  refine if_neg fun h => ?_
  have hhead := congrArg List.head? h
  rw [SYSTEM_MSG] at hhead
  simp only [JString.ofString_append, List.append_assoc] at hhead
  exact absurd hhead (by decide)

/-- One message that is within the budget, as far as the `int` tells. -/
theorem getAcceptedMessages_singleton {name : JString} {id : Int32} {m : MessageModel}
    {systemTokens tokens : Int32} (hsystem : kit.countTokens SYSTEM_MSG = some systemTokens)
    (hm : m.getAiContent.bind kit.countTokens = some tokens)
    (hbudget : ¬ 3000 ≤ 1000 + systemTokens + tokens) :
    (DialogModel.mk (some name) id (some [some m])).getAcceptedMessages kit = some [m] := by
  rw [DialogModel.getAcceptedMessages, hsystem, Option.bind_some, Option.bind_some,
    List.reverse_singleton, acceptMessages, hm, Option.bind_some, if_neg hbudget,
    if_neg (by decide), acceptMessages]
  rfl

/-- The sum wraps around, and the message is accepted. -/
theorem huge_message_accepted :
    (∀ t, 0 ≤ (hugeCount t).toInt) ∧
    (DialogModel.mk (some NEW_CHAT_NAME) 0 (some [some hugeAnswer])).getAcceptedMessages
        { countTokens := fun t => some (hugeCount t), viewFails := fun _ => false } =
      some [hugeAnswer] ∧
    ¬ IsLongestSuffix (FitsBudget hugeCount) [hugeAnswer] [hugeAnswer] := by
  have hcount : hugeCount (.ofString "Hello") = 2147483647 := if_pos rfl
  refine ⟨fun t => ?_, ?_, fun hlongest => ?_⟩
  · unfold hugeCount
    split <;> decide
  · exact getAcceptedMessages_singleton (congrArg some hugeCount_SYSTEM_MSG)
      (congrArg some hcount) (by decide)
  · obtain hnil | hbudget := hlongest.holds.2
    · cases hnil
    · have hanswer : hugeAnswer.tokens hugeCount = 2147483647 := congrArg Int32.toInt hcount
      have hsystem : (100 : Int32).toInt = 100 := by decide
      rw [historyTokens, hugeCount_SYSTEM_MSG, hsystem, List.map_singleton, List.sum_singleton,
        hanswer] at hbudget
      omega

end Reloadium.Ai
