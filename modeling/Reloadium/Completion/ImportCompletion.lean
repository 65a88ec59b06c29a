import Reloadium.Lib.JavaText
import Reloadium.Lib.Replace
import Reloadium.Completion.CtxCompletion

namespace Reloadium.Completion

open Reloadium.Lib

/-!
# Completion — module names in import statements

Model of `ImportCompletionContributor.Provider`, which asks the engine for the modules below a
parent.  The parent is computed from the text of the first import element, whichever the caret is
in, or from the text of the import source, which the relative dots are no part of.

What PSI shows of a statement is an input (`PyImportStatementBase`); `ImportStatement` is a
statement as it is typed, and `psi` what PSI shows of it with the dummy identifier at the caret.

* `parentOf` — the parent of a text;
* `ImportProvider.command`, `addCompletions` — what is asked for, and what is shown;
* `DottedName.parent`, `ImportStatement.parentAt` — what should be asked for;
* `parentOf_text` — the parent of a dotted name's text;
* `asksForModule_iff` — when the module that is typed is asked for.
-/

/-! ### The provider -/

/-- An import statement at the caret, with its text and the texts of its parts. -/
inductive PyImportStatementBase where
  | PyImportStatement (text : JString) (importElements : List JString)
  | PyFromImportStatement (text : JString) (importSource : Option JString)

/-- `getText`. -/
def PyImportStatementBase.text : PyImportStatementBase → JString
  | PyImportStatement text _ => text
  | PyFromImportStatement text _ => text

/-- The text that the parent is computed from, less the dummy identifier; `none` when reading it
    throws. -/
def PyImportStatementBase.parentText : PyImportStatementBase → Option JString
  | PyFromImportStatement _ importSource => importSource.map (replace dummyIdentifier [])
  -- the first element, wherever the caret is
  | PyImportStatement _ importElements => importElements.head?.map (replace dummyIdentifier [])

/-- `.` -/
def dot : UInt16 := 46

/-- `parent`, computed from that text. -/
def parentOf (parent : JString) : Option JString :=
  if [dot] <:+ parent then some parent.dropLast
  else if dot ∈ parent then some ([dot].intercalate (JString.split dot parent).dropLast)
  else none

structure GetImportCompletion where
  parent : Option JString
  prompt : JString
  deriving DecidableEq

/-- What the provider reads of the place of the caret: the import statement around it, and whether
    that has a child. -/
structure ImportPlace where
  element : Option PyImportStatementBase
  hasLastChild : Bool

/-- The provider in its environment: the preference, the current debug handler, and the session of
    a handler, which returns a completion's suggestions (each possibly null). -/
structure ImportProvider (Handler : Type*) where
  runtimeCompletion : Bool
  currentDebugHandler : Option Handler
  send : Handler → GetImportCompletion → Option (Option (List Suggestion))

variable {Handler : Type*}

/-- The command that is sent, and to which handler: `none` for an exception, `some none` for an
    early return. -/
def ImportProvider.command (provider : ImportProvider Handler) (place : ImportPlace) :
    Option (Option (Handler × GetImportCompletion)) :=
  if provider.runtimeCompletion = false then some none
  else
    match place.element with
    | none => some none
    | some element =>
      match provider.currentDebugHandler with
      | none => some none
      | some handler =>
        if place.hasLastChild = false then some none
        else
          element.parentText.map fun parent => some (handler,
            { parent := parentOf parent, prompt := replace dummyIdentifier [] element.text })

/-- `removeDuplicates`: the remaining results that are passed on. -/
def removeDuplicates (suggestions : List Suggestion) (remaining : List CompletionResult) :
    List CompletionResult :=
  remaining.filter fun r => !suggestions.any (·.name = r.lookupString)

/-- The lookup element of a suggestion; `none` when looking up its icon throws. -/
def importLookup (s : Suggestion) : Option Shown :=
  s.pyType.map fun _ => {
    lookupString := s.name, typeText := none, tailText := none
    -- the keys of the map are kinds of objects, and no text is one
    icon := .PythonFile
    insertHandler := none, prefixMatcher := none, priority := 0 }

/-- `addCompletions`, as the elements it adds and the results it passes on; `none` when it throws,
    `some none` when it returns early. -/
def ImportProvider.addCompletions (provider : ImportProvider Handler) (place : ImportPlace)
    (remaining : List CompletionResult) : Option (Option (List Shown × List CompletionResult)) :=
  (provider.command place).bind fun
    | none => some none
    | some (handler, cmd) =>
      match provider.send handler cmd with
      | some (some suggestions) => (suggestions.mapM importLookup).map fun added =>
          some (added, removeDuplicates suggestions remaining)
      | _ => some none

/-! ### Statements as they are typed -/

/-- A name of components between dots. -/
structure DottedName where
  components : List JString
  ne_nil : components ≠ []
  no_dot : ∀ c ∈ components, dot ∉ c

namespace DottedName

def text (n : DottedName) : JString := [dot].intercalate n.components

/-- The name without its last component, if it has another. -/
def parent (n : DottedName) : Option JString :=
  if n.components.length = 1 then none else some ([dot].intercalate n.components.dropLast)

end DottedName

/-- A dotted name in an `import` statement, with what follows it in its element: nothing, or a
    name it is imported as. -/
structure ImportElement where
  name : DottedName
  rest : JString
  no_dot : dot ∉ rest

/-- The text of the element, when the caret is at the end of its name or not. -/
def ImportElement.text (e : ImportElement) (caret : Bool) : JString :=
  e.name.text ++ (if caret then dummyIdentifier else []) ++ e.rest

/-- An import statement.  That from a relative source has dots before the name. -/
inductive ImportStatement where
  | PyImportStatement (elements : List ImportElement)
  | PyFromImportStatement (relativeLevel : Nat) (importSource : DottedName) (rest : JString)

namespace ImportStatement

/-- How many dotted names the caret may be at the end of. -/
def names : ImportStatement → Nat
  | PyImportStatement elements => elements.length
  | PyFromImportStatement .. => 1

/-- What PSI shows of the statement with the caret at the end of its `i`-th dotted name.  The
    relative dots are leaves before the import source. -/
def psi (i : Nat) : ImportStatement → PyImportStatementBase
  | PyImportStatement elements =>
    let texts := elements.mapIdx fun k e => e.text (k = i)
    .PyImportStatement (.ofString "import " ++ (JString.ofString ", ").intercalate texts) texts
  | PyFromImportStatement relativeLevel importSource rest =>
    let source := importSource.text ++ dummyIdentifier
    .PyFromImportStatement
      (.ofString "from " ++ List.replicate relativeLevel dot ++ source ++ rest) (some source)

/-- The place of that caret. -/
def place (s : ImportStatement) (i : Nat) : ImportPlace where
  element := some (s.psi i)
  hasLastChild := true

/-- The `i`-th dotted name without its last component, or null if it has no dot. -/
def parentAt (i : Nat) : ImportStatement → Option JString
  | PyImportStatement elements => elements[i]?.bind fun e => e.name.parent
  | PyFromImportStatement relativeLevel importSource _ =>
    if relativeLevel = 0 then importSource.parent
    else some (List.replicate relativeLevel dot ++
      [dot].intercalate importSource.components.dropLast)

/-- The first name has the parent of the `i`-th, and no relative dots; what is read of it has no
    dummy identifier but the one at the caret. -/
def ReadsParent (i : Nat) : ImportStatement → Prop
  | PyImportStatement elements =>
    (elements.head?.bind fun e => e.name.parent).map (replace dummyIdentifier []) =
      elements[i]?.bind fun e => e.name.parent
  | PyFromImportStatement relativeLevel importSource _ =>
    relativeLevel = 0 ∧ ∀ p ∈ importSource.parent, ¬ dummyIdentifier <:+: p

end ImportStatement

/-! ### The parent of a dotted name -/

theorem dummyIdentifier_ne_nil : dummyIdentifier ≠ [] := by decide

theorem dot_notMem_dummyIdentifier : dot ∉ dummyIdentifier := by decide

/-- The parent of a text of one component. -/
theorem parentOf_of_notMem {s : JString} (h : dot ∉ s) : parentOf s = none := by
  have hend : ¬ [dot] <:+ s := fun hsuffix => h (hsuffix.subset List.mem_cons_self)
  rw [parentOf, if_neg hend, if_neg h]

/-- The parent of a text of more components; the last may be empty, behind a trailing dot. -/
theorem parentOf_intercalate_concat {ls : List JString} {l : JString} (hls : ls ≠ [])
    (hdot : ∀ c ∈ ls ++ [l], dot ∉ c) :
    parentOf ([dot].intercalate (ls ++ [l])) = some ([dot].intercalate ls) := by
  have htext := JString.intercalate_concat dot hls l
  by_cases hl : l = []
  · subst hl
    have hend : [dot] <:+ [dot].intercalate (ls ++ [[]]) := htext ▸ List.suffix_append _ _
    rw [parentOf, if_pos hend, htext, List.dropLast_concat]
  · -- the last component ends the text, and has no dot
    have hend : ¬ [dot] <:+ [dot].intercalate (ls ++ [l]) := by
      intro hsuffix
      have hdrop : l <:+ [dot].intercalate (ls ++ [l]) := by
        rw [htext]
        exact (List.suffix_cons dot l).trans (List.suffix_append _ _)
      have hle : [dot].length ≤ l.length := List.length_pos_of_ne_nil hl
      have hsub := List.suffix_of_suffix_length_le hsuffix hdrop hle
      exact hdot l (List.mem_append_right ls List.mem_cons_self)
        (hsub.subset List.mem_cons_self)
    have hmem : dot ∈ [dot].intercalate (ls ++ [l]) := by
      rw [htext]
      exact List.mem_append_right _ List.mem_cons_self
    rw [parentOf, if_neg hend, if_pos hmem, JString.split_intercalate hdot hl,
      List.dropLast_concat]

/-- Leaving out the dummy identifier makes no dot. -/
theorem dot_notMem_replace {s : JString} (hs : dot ∉ s) : dot ∉ replace dummyIdentifier [] s :=
  fun hmem => (mem_replace dummyIdentifier_ne_nil hmem).elim hs List.not_mem_nil

/-- The parent of such a text, less the dummy identifier. -/
theorem parentOf_replace_concat {ls : List JString} {l : JString} (hls : ls ≠ [])
    (hdot : ∀ c ∈ ls, dot ∉ c) (hl : dot ∉ l) :
    parentOf (replace dummyIdentifier [] ([dot].intercalate (ls ++ [l]))) =
      some (replace dummyIdentifier [] ([dot].intercalate ls)) := by
  have hdummy := dummyIdentifier_ne_nil
  have hsep := dot_notMem_dummyIdentifier
  have hcleaned : ∀ c ∈ ls.map (replace dummyIdentifier []) ++ [replace dummyIdentifier [] l],
      dot ∉ c := by
    intro c hc
    rw [List.mem_append, List.mem_map, List.mem_singleton] at hc
    rcases hc with ⟨c', hc', rfl⟩ | rfl
    · exact dot_notMem_replace (hdot c' hc')
    · exact dot_notMem_replace hl
  rw [replace_intercalate hdummy hsep, List.map_append, List.map_singleton,
    parentOf_intercalate_concat (mt List.map_eq_nil_iff.mp hls) hcleaned,
    replace_intercalate hdummy hsep]

/-- **Spec lemma.** The parent of a dotted name's text, less the dummy identifier, is the name's
    parent less the dummy identifier. -/
theorem parentOf_text (n : DottedName) {rest : JString} (hrest : dot ∉ rest) :
    parentOf (replace dummyIdentifier [] (n.text ++ rest)) =
      n.parent.map (replace dummyIdentifier []) := by
  obtain ⟨init, last, hcomponents⟩ : ∃ init last, n.components = init ++ [last] :=
    ⟨_, _, (List.dropLast_append_getLast n.ne_nil).symm⟩
  have hdot := hcomponents ▸ n.no_dot
  have hlast : dot ∉ last ++ rest := fun hmem => (List.mem_append.mp hmem).elim
    (hdot last (List.mem_append_right init List.mem_cons_self)) hrest
  rw [DottedName.text, DottedName.parent, hcomponents]
  by_cases hinit : init = []
  · subst hinit
    rw [List.nil_append, List.intercalate_singleton,
      parentOf_of_notMem (dot_notMem_replace hlast)]
    rfl
  · have hlength : (init ++ [last]).length ≠ 1 := by
      have hpos := List.length_pos_of_ne_nil hinit
      rw [List.length_append, List.length_singleton]
      omega
    -- what follows the name belongs to its last component
    have htext : [dot].intercalate (init ++ [last]) ++ rest =
        [dot].intercalate (init ++ [last ++ rest]) := by
      rw [JString.intercalate_concat dot hinit, JString.intercalate_concat dot hinit,
        List.append_assoc, List.cons_append]
    have hinits : ∀ c ∈ init, dot ∉ c := fun c hc => hdot c (List.mem_append_left _ hc)
    rw [if_neg hlength, htext, parentOf_replace_concat hinit hinits hlast, List.dropLast_concat,
      Option.map_some]

/-! ### What is asked for -/

/-- The name that the parent is computed from. -/
def ImportStatement.readName : ImportStatement → Option DottedName
  | PyImportStatement elements => elements.head?.map ImportElement.name
  | PyFromImportStatement _ importSource _ => some importSource

theorem ImportStatement.exists_readName {s : ImportStatement} {i : Nat} (hi : i < s.names) :
    ∃ n, s.readName = some n := by
  cases s with
  | PyImportStatement elements =>
    cases elements with
    | nil => exact absurd hi (Nat.not_lt_zero i)
    | cons e elements => exact ⟨e.name, rfl⟩
  | PyFromImportStatement relativeLevel importSource rest => exact ⟨importSource, rfl⟩

/-- The text that is read is that of the name, with more behind its last component. -/
theorem parentText_psi {s : ImportStatement} {n : DottedName} (hn : s.readName = some n) (i : Nat) :
    ∃ rest, dot ∉ rest ∧
      (s.psi i).parentText = some (replace dummyIdentifier [] (n.text ++ rest)) := by
  cases s with
  | PyImportStatement elements =>
    cases elements with
    | nil => cases hn
    | cons e elements =>
      cases hn
      refine ⟨(if decide (0 = i) then dummyIdentifier else []) ++ e.rest, ?_, ?_⟩
      · rw [List.mem_append, not_or]
        refine ⟨?_, e.no_dot⟩
        split
        · exact dot_notMem_dummyIdentifier
        · exact List.not_mem_nil
      · show (List.mapIdx _ (e :: elements)).head?.map _ = _
        rw [List.mapIdx_cons, List.head?_cons, Option.map_some, ← List.append_assoc]
        rfl
  | PyFromImportStatement relativeLevel importSource rest =>
    cases hn
    exact ⟨dummyIdentifier, dot_notMem_dummyIdentifier, rfl⟩

/-- The command at a caret asks for the parent of the name that is read. -/
theorem command_place (provider : ImportProvider Handler) {handler : Handler}
    (hcompletion : provider.runtimeCompletion = true)
    (hhandler : provider.currentDebugHandler = some handler) {s : ImportStatement}
    {n : DottedName} (hn : s.readName = some n) (i : Nat) :
    provider.command (s.place i) = some (some (handler,
      { parent := n.parent.map (replace dummyIdentifier [])
        prompt := replace dummyIdentifier [] (s.psi i).text })) := by
  obtain ⟨rest, hrest, htext⟩ := parentText_psi hn i
  have hon : ¬ provider.runtimeCompletion = false := by
    rw [hcompletion]
    exact Bool.true_eq_false.mp
  rw [ImportProvider.command, if_neg hon]
  simp only [ImportStatement.place, hhandler, htext, Option.map_some, parentOf_text n hrest]
  rfl

/-- Leaving out the dummy identifier keeps a parent that has none. -/
theorem map_replace_eq_self_iff (parent : Option JString) :
    parent.map (replace dummyIdentifier []) = parent ↔
      ∀ p ∈ parent, ¬ dummyIdentifier <:+: p := by
  cases parent with
  | none => simp
  | some p => simp [replace_nil_eq_self_iff dummyIdentifier_ne_nil]

/-- No relative dots are ever asked for. -/
theorem map_replace_ne_relative (n : DottedName) {relativeLevel : Nat} (h : relativeLevel ≠ 0) :
    n.parent.map (replace dummyIdentifier []) ≠
      some (List.replicate relativeLevel dot ++ [dot].intercalate n.components.dropLast) := by
  rw [DottedName.parent]
  split
  · exact (Option.some_ne_none _).symm
  · intro heq
    rw [Option.map_some, Option.some.injEq] at heq
    have hle := length_replace_nil_le dummyIdentifier_ne_nil
      ([dot].intercalate n.components.dropLast)
    rw [heq, List.length_append, List.length_replicate] at hle
    omega

/-- **Import completion.**  With the caret at the end of the `i`-th dotted name, the parent of that
    name is asked for just if the first name has the same parent (less a dummy identifier in it), or
    if the import source has no relative dots (and no dummy identifier before its last component). -/
theorem asksForModule_iff (provider : ImportProvider Handler) {handler : Handler}
    (hcompletion : provider.runtimeCompletion = true)
    (hhandler : provider.currentDebugHandler = some handler) (s : ImportStatement) {i : Nat}
    (hi : i < s.names) :
    ∃ cmd, provider.command (s.place i) = some (some (handler, cmd)) ∧
      (cmd.parent = s.parentAt i ↔ s.ReadsParent i) := by
  obtain ⟨n, hn⟩ := s.exists_readName hi
  refine ⟨_, command_place provider hcompletion hhandler hn i, ?_⟩
  show n.parent.map (replace dummyIdentifier []) = s.parentAt i ↔ s.ReadsParent i
  cases s with
  | PyImportStatement elements =>
    obtain ⟨e, he, rfl⟩ := Option.map_eq_some_iff.mp hn
    rw [ImportStatement.parentAt, ImportStatement.ReadsParent, he, Option.bind_some]
  | PyFromImportStatement relativeLevel importSource rest =>
    obtain rfl : importSource = n := Option.some.inj hn
    rw [ImportStatement.parentAt, ImportStatement.ReadsParent]
    split
    · next h => rw [map_replace_eq_self_iff, and_iff_right h]
    · next h =>
      exact ⟨fun heq => absurd heq (map_replace_ne_relative importSource h),
        fun hreads => absurd hreads.1 h⟩

/-! ### What is shown -/

/-- Each suggestion is shown under its name. -/
theorem mapM_importLookup {suggestions : List Suggestion} {added : List Shown}
    (h : suggestions.mapM importLookup = some added) :
    added.map (·.lookupString) = suggestions.map (·.name) := by
  induction suggestions generalizing added with
  | nil =>
    cases h
    rfl
  | cons s suggestions ih =>
    rw [List.mapM_cons] at h
    obtain ⟨shown, hshown, hrest⟩ := Option.bind_eq_some_iff.mp h
    obtain ⟨rest, hadded, heq⟩ := Option.bind_eq_some_iff.mp hrest
    obtain ⟨-, -, rfl⟩ := Option.map_eq_some_iff.mp hshown
    cases heq
    rw [List.map_cons, List.map_cons, ih hadded]

/-- The engine's suggestions are shown, and no result is passed on under the name of one. -/
theorem addCompletions_spec {provider : ImportProvider Handler} {place : ImportPlace}
    {remaining passed : List CompletionResult} {added : List Shown}
    (h : provider.addCompletions place remaining = some (some (added, passed))) :
    (∃ handler cmd suggestions, provider.command place = some (some (handler, cmd)) ∧
        provider.send handler cmd = some (some suggestions) ∧
        added.map (·.lookupString) = suggestions.map (·.name)) ∧
      ∀ r ∈ passed, r.lookupString ∉ added.map (·.lookupString) := by
  obtain ⟨sent, hsent, hreply⟩ := Option.bind_eq_some_iff.mp h
  cases sent with
  | none => cases hreply
  | some sent =>
    obtain ⟨handler, cmd⟩ := sent
    dsimp only at hreply
    split at hreply
    · next suggestions hsuggestions =>
      obtain ⟨added', hadded, heq⟩ := Option.map_eq_some_iff.mp hreply
      cases heq
      have hnames := mapM_importLookup hadded
      refine ⟨⟨handler, cmd, suggestions, hsent, hsuggestions, hnames⟩, fun r hr hmem => ?_⟩
      -- a result under a suggestion's name is left out
      rw [hnames, List.mem_map] at hmem
      obtain ⟨s, hs, hname⟩ := hmem
      have hkept := (List.mem_filter.mp hr).2
      rw [Bool.not_eq_true', List.any_eq_false] at hkept
      exact hkept s hs (decide_eq_true hname)
    · cases hreply

/-! ### The second name of an import statement -/

/-- A name of these components. -/
def dottedName (components : List String) (hne : components.map JString.ofString ≠ [])
    (hdot : ∀ c ∈ components.map JString.ofString, dot ∉ c) : DottedName where
  components := components.map JString.ofString
  ne_nil := hne
  no_dot := hdot

/-- `import os.path, xml.dom`. -/
def importPathAndDom : ImportStatement :=
  .PyImportStatement [⟨dottedName ["os", "path"] (by decide) (by decide), [], List.not_mem_nil⟩,
    ⟨dottedName ["xml", "dom"] (by decide) (by decide), [], List.not_mem_nil⟩]

/-- A provider with a handler, whose session returns nothing. -/
def silentProvider : ImportProvider Unit where
  runtimeCompletion := true
  currentDebugHandler := some ()
  send _ _ := none

theorem asksForModule_first :
    ∃ cmd, silentProvider.command (importPathAndDom.place 0) = some (some ((), cmd)) ∧
      (cmd.parent = importPathAndDom.parentAt 0 ↔ importPathAndDom.ReadsParent 0) :=
  asksForModule_iff silentProvider rfl rfl importPathAndDom (by decide)

/-- Behind `xml.dom` the engine is asked for the modules of `os`. -/
theorem second_asks_for_first :
    ∃ cmd, silentProvider.command (importPathAndDom.place 1) = some (some ((), cmd)) ∧
      cmd.parent = some (.ofString "os") ∧
      importPathAndDom.parentAt 1 = some (.ofString "xml") ∧
      cmd.parent ≠ importPathAndDom.parentAt 1 :=
  ⟨_, command_place silentProvider rfl rfl rfl 1, by decide, by decide, by decide⟩

end Reloadium.Completion
