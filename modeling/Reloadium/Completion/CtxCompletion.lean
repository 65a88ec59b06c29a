import Reloadium.Lib.JString
import Reloadium.Lib.PMap

namespace Reloadium.Completion

open Reloadium.Lib

/-!
# Completion — runtime completions

Model of `CtxCompletionContributor.Provider`: the suggestions that the engine returns are shown,
and the results of the remaining contributors are passed on or left out.  The map from names to
tail texts is read by the loop over the suggestions and filled by the callback, which runs after
the loop.

What the platform knows of the place of the caret is an input (`Parameters`), and so are the
command that a subclass makes and the reply of the engine (`Provider`).

* `ObjectType` — the kinds of objects, with their icons;
* `Provider.getSuggestions` — the engine's suggestions, or an early return;
* `addSuggestion`, `passRemaining` — the loop and the callback;
* `Merges` — what the merged list should be;
* `addCompletions_iff` — when it is so.
-/

/-! ### Kinds of objects -/

inductive ObjectType where
  | MODULE
  | FUNCTION
  | BUILTIN_FUN
  | METHOD
  | METHOD_WRAPPER
  | TYPE
  | PACKAGE
  | Any
  deriving DecidableEq

inductive Icon where
  | PythonFile
  | Function
  | Method
  | Class
  | Package
  | Variable
  | Parameter
  deriving DecidableEq

namespace ObjectType

def name : ObjectType → JString
  | MODULE => .ofString "module"
  | FUNCTION => .ofString "function"
  | BUILTIN_FUN => .ofString "builtin_fun"
  | METHOD => .ofString "method"
  | METHOD_WRAPPER => .ofString "method-wrapper"
  | TYPE => .ofString "type"
  | PACKAGE => .ofString "package"
  | Any => .ofString "any"

/-- `values`. -/
def values : List ObjectType :=
  [ MODULE, FUNCTION, BUILTIN_FUN, METHOD, METHOD_WRAPPER, TYPE, PACKAGE, Any]

/-- `nameToType.getOrDefault`, with the default `Any`. -/
def ofName (pyType : Option JString) : ObjectType :=
  (values.find? fun objectType => some objectType.name = pyType).getD Any

/-- `callableTypes`. -/
def callableTypes : List ObjectType := [FUNCTION, BUILTIN_FUN, METHOD_WRAPPER, METHOD]

/-- `TYPE_TO_ICON.getOrDefault`, with the default `Variable`. -/
def icon : ObjectType → Icon
  | MODULE => .PythonFile
  | FUNCTION => .Function
  | BUILTIN_FUN => .Function
  | METHOD => .Method
  | METHOD_WRAPPER => .Method
  | TYPE => .Class
  | PACKAGE => .Package
  | Any => .Variable

end ObjectType

/-! ### Inputs -/

/-- `CompletionMode`. -/
inductive CompletionMode where
  | ATTRIBUTE
  | KEY
  deriving DecidableEq

/-- A `Suggestion` of the engine. -/
structure Suggestion where
  name : JString
  pyType : Option JString
  typeText : Option JString
  tailText : Option JString
  deriving DecidableEq

/-- A result of a remaining contributor, with the tail text that it renders. -/
structure CompletionResult where
  lookupString : JString
  tailText : Option JString
  deriving DecidableEq

/-- What the provider reads of the place of the caret.  `keyPosition` says of the original
    position (`none`: there is none) whether it is a key of a dictionary; `subscription` has the
    text of the qualifier of the subscription that the element is in, `prevSibling` the text of the
    element's sibling and that of the one before. -/
structure Parameters where
  keyPosition : Option Bool
  subscription : Option (Option JString)
  prevSibling : Option (JString × Option JString)
  elementText : JString
  /-- The offset of the caret, and the start of the string literal at the original position. -/
  offset : Nat
  literalStart : Option Nat
  fileText : JString

/-- `getMode`. -/
def Parameters.mode (p : Parameters) : CompletionMode :=
  match p.keyPosition with
  | some true => .KEY
  | _ => .ATTRIBUTE

/-- `parent`; `none` when that throws. -/
def Parameters.parent (p : Parameters) : Option (Option JString) :=
  match p.mode with
  | .KEY => do
    let qualifier ← p.subscription
    let text ← qualifier
    return some text
  | .ATTRIBUTE =>
    match p.prevSibling with
    | some (text, before) => if text = .ofString "." then before.map some else some none
    | none => some none

/-- `String.replace(target, "")`, when the next `skip` characters are in an occurrence. -/
def removeAll (target : JString) (skip : Nat) : JString → JString
  | [] => []
  | c :: s =>
    match skip with
    | skip + 1 => removeAll target skip s
    | 0 =>
      if target.isPrefixOf (c :: s) then removeAll target (target.length - 1) s
      else c :: removeAll target 0 s

/-- `DUMMY_IDENTIFIER_TRIMMED`, which the platform puts at the caret. -/
def dummyIdentifier : JString := .ofString "IntellijIdeaRulezzz"

/-- `prompt`. -/
def Parameters.prompt (p : Parameters) : JString := removeAll dummyIdentifier 0 p.elementText

/-- `findPrefix`. -/
def Parameters.findPrefix (p : Parameters) : JString :=
  match p.literalStart with
  | none => []
  | some start => (p.fileText.take p.offset).drop start

/-- What the engine replies to a command: suggestions (or `null`), or anything else. -/
inductive Reply where
  | completion (suggestions : Option (List Suggestion))
  | other

/-- A provider in its environment: the preference, the current handlers, `cmdFactory` of the
    subclass, and the session of a handler. -/
structure Provider (Handler Command : Type*) where
  runtimeCompletion : Bool
  currentDebugHandler : Option Handler
  currentRunHandler : Option Handler
  cmdFactory : JString → Handler → Option JString → CompletionMode → Option Command
  send : Handler → Command → Reply

/-- The suggestions of the engine: `none` for an exception, `some none` for an early return. -/
def Provider.getSuggestions {Handler Command : Type*} (provider : Provider Handler Command)
    (p : Parameters) : Option (Option (List Suggestion)) :=
  if provider.runtimeCompletion = false then some none
  else
    match provider.currentDebugHandler.or provider.currentRunHandler with
    | none => some none
    | some handler =>
      match p.parent with
      | none => none
      | some parent =>
        match provider.cmdFactory p.prompt handler parent p.mode with
        | none => some none
        | some cmd =>
          match provider.send handler cmd with
          | .completion suggestions => some suggestions
          | .other => some none

/-! ### The merged list -/

/-- The insert handlers: parentheses behind the name, and the end of a key. -/
inductive InsertHandler where
  | call
  | key
  deriving DecidableEq

/-- A lookup element for a suggestion; `prefixMatcher` and `priority` are those of a key. -/
structure Shown where
  lookupString : JString
  typeText : Option JString
  tailText : Option JString
  icon : Icon
  insertHandler : Option InsertHandler
  prefixMatcher : Option JString
  priority : Nat
  deriving DecidableEq

/-- The result set, with the local map. -/
structure Merge where
  added : List Shown
  passed : List CompletionResult
  nameToTailText : PMap JString JString

variable (p : Parameters) (suggestions : List Suggestion)

/-- The lookup element of a suggestion, with a tail text. -/
def lookupElement (s : Suggestion) (tailText : Option JString) : Shown :=
  let objectType := ObjectType.ofName s.pyType
  let callHandler := if objectType ∈ ObjectType.callableTypes then some InsertHandler.call else none
  match p.mode with
  | .KEY => {
    lookupString := s.name, typeText := s.typeText, tailText, icon := .Parameter
    -- this handler replaces the one for a call
    insertHandler := some .key, prefixMatcher := some p.findPrefix, priority := 1000000 }
  | .ATTRIBUTE => {
    lookupString := s.name, typeText := s.typeText, tailText, icon := objectType.icon
    insertHandler := callHandler, prefixMatcher := none, priority := 0 }

/-- The body of the loop. -/
def addSuggestion (m : Merge) (s : Suggestion) : Merge :=
  let tailText := match s.tailText with
    | some tailText => some tailText
    | none => m.nameToTailText s.name
  { m with added := m.added ++ [lookupElement p s tailText] }

/-- `startsWith("__")`. -/
def isDunder (s : JString) : Bool := (JString.ofString "__").isPrefixOf s

/-- The callback of `runRemainingContributors`. -/
def passRemaining (m : Merge) (r : CompletionResult) : Merge :=
  if !(isDunder r.lookupString && !isDunder p.prompt) then
    if suggestions.any (·.name = r.lookupString) then
      match r.tailText with
      | some tailText => { m with nameToTailText := m.nameToTailText.put r.lookupString tailText }
      | none => m
    else { m with passed := m.passed ++ [r] }
  else m

/-- The suggestions, and then the remaining results. -/
def mergeCompletions (remaining : List CompletionResult) : Merge :=
  remaining.foldl (passRemaining p suggestions)
    (suggestions.foldl (addSuggestion p) ⟨[], [], PMap.empty⟩)

/-- `addCompletions`; `none` when it throws, `some none` when it returns early and leaves the
    remaining contributors to the platform. -/
def Provider.addCompletions {Handler Command : Type*} (provider : Provider Handler Command)
    (remaining : List CompletionResult) : Option (Option Merge) :=
  (provider.getSuggestions p).map fun suggestions? =>
    suggestions?.map fun suggestions => mergeCompletions p suggestions remaining

/-! ### The loop and the callback -/

variable {p suggestions}

/-- Nothing has filled the map when the loop reads it. -/
theorem foldl_addSuggestion (ss : List Suggestion) {m : Merge} (hm : m.nameToTailText = PMap.empty) :
    ss.foldl (addSuggestion p) m =
      { m with added := m.added ++ ss.map fun s => lookupElement p s s.tailText } := by
  induction ss generalizing m with
  | nil => rw [List.foldl_nil, List.map_nil, List.append_nil]
  | cons s ss ih =>
    have htail : (match s.tailText with
        | some tailText => some tailText
        | none => m.nameToTailText s.name) = s.tailText := by
      rw [hm]
      cases s.tailText <;> rfl
    have hstep : addSuggestion p m s =
        { m with added := m.added ++ [lookupElement p s s.tailText] } := by
      rw [addSuggestion, htail]
    have hrest := ih (m := addSuggestion p m s) (by rw [hstep]; exact hm)
    rw [List.foldl_cons, hrest, hstep, List.map_cons, List.append_assoc, List.singleton_append]

/-- A remaining result that is passed on: neither a suggestion's name nor a dunder name that is
    not asked for. -/
def isPassed (p : Parameters) (suggestions : List Suggestion) (r : CompletionResult) : Bool :=
  !(isDunder r.lookupString && !isDunder p.prompt) && !suggestions.any (·.name = r.lookupString)

/-- The callback leaves the shown suggestions as they are. -/
theorem foldl_passRemaining (remaining : List CompletionResult) (m : Merge) :
    (remaining.foldl (passRemaining p suggestions) m).added = m.added ∧
      (remaining.foldl (passRemaining p suggestions) m).passed =
        m.passed ++ remaining.filter (isPassed p suggestions) := by
  induction remaining generalizing m with
  | nil => exact ⟨rfl, (List.append_nil _).symm⟩
  | cons r remaining ih =>
    have hstep : (passRemaining p suggestions m r).added = m.added ∧
        (passRemaining p suggestions m r).passed =
          m.passed ++ if isPassed p suggestions r then [r] else [] := by
      unfold passRemaining isPassed
      cases hdunder : !(isDunder r.lookupString && !isDunder p.prompt) with
      | false => exact ⟨rfl, (List.append_nil _).symm⟩
      | true =>
        cases hname : suggestions.any (·.name = r.lookupString) with
        | false => exact ⟨rfl, rfl⟩
        | true => cases r.tailText <;> exact ⟨rfl, (List.append_nil _).symm⟩
    obtain ⟨hadded, hpassed⟩ := ih (passRemaining p suggestions m r)
    rw [List.foldl_cons, hadded, hpassed, hstep.1, hstep.2, List.filter_cons, List.append_assoc]
    refine ⟨rfl, congrArg (m.passed ++ ·) ?_⟩
    cases isPassed p suggestions r <;> rfl

/-- **Spec lemma.** Each suggestion keeps its own tail text, or has none. -/
theorem mergeCompletions_spec (p : Parameters) (suggestions : List Suggestion)
    (remaining : List CompletionResult) :
    (mergeCompletions p suggestions remaining).added =
        suggestions.map (fun s => lookupElement p s s.tailText) ∧
      (mergeCompletions p suggestions remaining).passed =
        remaining.filter (isPassed p suggestions) := by
  have hloop : suggestions.foldl (addSuggestion p) ⟨[], [], PMap.empty⟩ =
      ⟨suggestions.map fun s => lookupElement p s s.tailText, [], PMap.empty⟩ :=
    foldl_addSuggestion suggestions rfl
  rw [mergeCompletions, hloop]
  exact foldl_passRemaining remaining _

/-! ### What is shown -/

/-- Every suggestion is shown, the remaining results are passed on that neither have its name nor
    are dunder names that are not asked for, and a suggestion without a tail text is shown with the
    one of a remaining result of its name, if there is one. -/
structure Merges (p : Parameters) (suggestions : List Suggestion)
    (remaining : List CompletionResult) (m : Merge) : Prop where
  shown : m.added.map (·.lookupString) = suggestions.map (·.name)
  passed : m.passed = remaining.filter (isPassed p suggestions)
  own_tail : ∀ pair ∈ suggestions.zip m.added, pair.1.tailText ≠ none →
    pair.2.tailText = pair.1.tailText
  tail : ∀ pair ∈ suggestions.zip m.added, pair.1.tailText = none →
    (∃ r ∈ remaining, r.lookupString = pair.1.name ∧ r.tailText ≠ none) →
      ∃ r ∈ remaining, r.lookupString = pair.1.name ∧ r.tailText ≠ none ∧
        pair.2.tailText = r.tailText

@[simp] theorem lookupElement_lookupString (s : Suggestion) (tailText : Option JString) :
    (lookupElement p s tailText).lookupString = s.name := by
  unfold lookupElement
  split <;> rfl

@[simp] theorem lookupElement_tailText (s : Suggestion) (tailText : Option JString) :
    (lookupElement p s tailText).tailText = tailText := by
  unfold lookupElement
  split <;> rfl

/-- **Runtime completions.**  Suggestions and remaining results are merged as they should be, just
    if no remaining result has a tail text for a suggestion without one. -/
theorem addCompletions_iff {Handler Command : Type*} (provider : Provider Handler Command)
    (p : Parameters) (suggestions : List Suggestion) (remaining : List CompletionResult)
    (h : provider.getSuggestions p = some (some suggestions)) :
    ∃ m, provider.addCompletions p remaining = some (some m) ∧
      (Merges p suggestions remaining m ↔
        ∀ s ∈ suggestions, s.tailText = none →
          ∀ r ∈ remaining, r.lookupString = s.name → r.tailText = none) := by
  refine ⟨mergeCompletions p suggestions remaining, ?_, ?_⟩
  · rw [Provider.addCompletions, h]
    rfl
  obtain ⟨hadded, hpassed⟩ := mergeCompletions_spec p suggestions remaining
  -- each suggestion stands beside its lookup element
  have hzip : suggestions.zip (mergeCompletions p suggestions remaining).added =
      suggestions.map fun s => (s, lookupElement p s s.tailText) := by
    rw [hadded, List.map_prod_left_eq_zip]
  constructor
  · intro hmerges s hs htail r hr hname
    by_contra hne
    have hpair := hmerges.tail (s, lookupElement p s s.tailText)
      (hzip ▸ List.mem_map_of_mem hs) htail ⟨r, hr, hname, hne⟩
    obtain ⟨r', -, -, hne', heq⟩ := hpair
    rw [lookupElement_tailText, htail] at heq
    exact hne' heq.symm
  · intro hnone
    refine ⟨?_, hpassed, ?_, ?_⟩
    · rw [hadded, List.map_map]
      exact congrArg (List.map · suggestions)
        (funext fun s => lookupElement_lookupString s s.tailText)
    · rw [hzip]
      simp only [List.forall_mem_map]
      exact fun s _ _ => lookupElement_tailText s s.tailText
    · rw [hzip]
      simp only [List.forall_mem_map]
      rintro s hs htail ⟨r, hr, hname, hne⟩
      exact absurd (hnone s hs htail r hr hname) hne

/-! ### A tail text that is not shown -/

/-- A place behind `a.`, at which nothing is typed. -/
def attributePlace : Parameters where
  keyPosition := some false
  subscription := none
  prevSibling := some (.ofString ".", some (.ofString "a"))
  elementText := dummyIdentifier
  offset := 2
  literalStart := none
  fileText := .ofString "a."

/-- A provider whose engine returns the suggestions. -/
def providerOf (suggestions : List Suggestion) : Provider Unit Unit where
  runtimeCompletion := true
  currentDebugHandler := none
  currentRunHandler := some ()
  cmdFactory _ _ _ _ := some ()
  send _ _ := .completion (some suggestions)

/-- A suggestion without a tail text. -/
def appendSuggestion : Suggestion where
  name := .ofString "append"
  pyType := some (.ofString "method")
  typeText := some (.ofString "method")
  tailText := none

theorem addCompletions_other :
    ∃ m, (providerOf [appendSuggestion]).addCompletions attributePlace
        [⟨.ofString "pop", some (.ofString "(self)")⟩] = some (some m) ∧
      (Merges attributePlace [appendSuggestion] [⟨.ofString "pop", some (.ofString "(self)")⟩] m ↔
        ∀ s ∈ [appendSuggestion], s.tailText = none →
          ∀ r ∈ [(⟨.ofString "pop", some (.ofString "(self)")⟩ : CompletionResult)],
            r.lookupString = s.name → r.tailText = none) :=
  addCompletions_iff (providerOf [appendSuggestion]) attributePlace [appendSuggestion]
    [⟨.ofString "pop", some (.ofString "(self)")⟩] rfl

/-- The remaining result of the same name has a tail text, which is not shown. -/
theorem tail_text_lost :
    ∃ m, (providerOf [appendSuggestion]).addCompletions attributePlace
        [⟨.ofString "append", some (.ofString "(self, object)")⟩] = some (some m) ∧
      m.added.map (·.tailText) = [none] ∧ m.passed = [] ∧
      ¬ Merges attributePlace [appendSuggestion]
        [⟨.ofString "append", some (.ofString "(self, object)")⟩] m := by
  refine ⟨_, rfl, by decide, by decide, fun h => ?_⟩
  have hzip : [appendSuggestion].zip (mergeCompletions attributePlace [appendSuggestion]
      [⟨.ofString "append", some (.ofString "(self, object)")⟩]).added =
        [(appendSuggestion, lookupElement attributePlace appendSuggestion none)] := by
    decide
  obtain ⟨r, -, -, hne, heq⟩ := h.tail
    (appendSuggestion, lookupElement attributePlace appendSuggestion none)
    (hzip ▸ List.mem_singleton_self _) rfl ⟨_, List.mem_singleton_self _, rfl, nofun⟩
  rw [lookupElement_tailText] at heq
  exact hne heq.symm

end Reloadium.Completion
