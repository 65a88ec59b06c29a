import Reloadium.Lib.Infixes
import Reloadium.Lib.JsonString
import Reloadium.Lib.Replace

namespace Reloadium.Chat

open Reloadium.Lib

/-!
# Chat — the two readers of an answer of the chat service

Model of `YouChatClient`.  `complete` waits for the whole response, searches its text for tokens
with a regular expression, and undoes three escapes in what it has found.
`completeAsyncMessages` gets the events of the response one by one and reads them as JSON.

The JSON and event-stream libraries are parameters (`Libraries`), the server's events are
`ResponseEvent`.

* `findTokens` — the regular expression, as one scan; `findTokens_line` — a match is within a
  line;
* `findTokens_responseText` — the groups are those of the tokens (`group`);
* `infix_responseText_iff` — a response without tokens is refused;
* `carries_of_events` — `complete` finds the search results in a response that begins with them.
-/

/-- `\n`, which ends the lines of a response. -/
def newline : UInt16 := 10

def youChatToken : JString := .ofString "youChatToken"

/-! ### The client -/

/-- `CompletionException`, and the `IllegalStateException` of a matcher that has found nothing. -/
inductive ChatException where
  | completion (message : JString)
  | noMatchFound
  deriving DecidableEq

/-- `CompletionResponse`, where a map is a list of keys and values, a value its text. -/
structure CompletionResponse where
  formattedText : JString
  extra : List (JString × List (JString × JString))
  links : Option (List JString)

/-- What the client uses of Jackson and OkHttp: a JSON object as a map, and the `data` of the
    events of a response. -/
structure Libraries where
  readValue : JString → Option (List (JString × JString))
  events : JString → List JString

/-- The characters that `.` does not match. -/
def isTerminator (c : UInt16) : Bool :=
  c == 0x0A || c == 0x0D || c == 0x85 || c == 0x2028 || c == 0x2029

/-- `(.*\n)*?(?=event: )` at the beginning of a text. -/
def searchResults : JString → Option JString
  | s =>
    if JString.ofString "event: " <+: s then some []
    else lines s
where
  /-- The rest of a line, and the lines behind it. -/
  lines : JString → Option JString
  | [] => none
  | c :: s =>
    if c = newline then
      (if JString.ofString "event: " <+: s then some [] else lines s).map (c :: ·)
    else if isTerminator c = true then none
    else (lines s).map (c :: ·)

/-- What stands in front of the search results of a type. -/
def searchHead (type : JString) : JString :=
  JString.ofString "event: " ++ type ++ JString.ofString "\ndata:"

/-- The first match of `(?<=event: TYPE\ndata:)(.*\n)*?(?=event: )`. -/
def findSearchResults (type : JString) : JString → Option JString
  | [] => none
  | c :: s =>
    if searchHead type <+: c :: s then
      (searchResults ((c :: s).drop (searchHead type).length)).or (findSearchResults type s)
    else findSearchResults type s

/-- What a match of the token pattern begins with. -/
def tokenHead : JString := .ofString "\x7b\"youChatToken\": \""

/-- What it ends with. -/
def tokenTail : JString := .ofString "\"\x7d"

/-- `(.*?)` in front of the end of a match. -/
def lazyGroup : JString → Option JString
  | [] => none
  | c :: s =>
    if tokenTail <+: c :: s then some []
    else if isTerminator c = true then none
    else (lazyGroup s).map (c :: ·)

/-- The group of a match at the beginning of a text. -/
def tokenMatch (s : JString) : Option JString :=
  if tokenHead <+: s then lazyGroup (s.drop tokenHead.length) else none

/-- The groups, when the next `skip` characters are in a match. -/
def findFrom (skip : Nat) : JString → List JString
  | [] => []
  | c :: s =>
    match skip with
    | skip + 1 => findFrom skip s
    | 0 =>
      match tokenMatch (c :: s) with
      | some g => g :: findFrom (tokenHead.length + g.length + tokenTail.length - 1) s
      | none => findFrom 0 s

/-- The groups of all matches of `\{"youChatToken": "(.*?)"\}`. -/
def findTokens (s : JString) : List JString := findFrom 0 s

/-- `result.replace("\\n", "\n").replace("\\\\", "\\").replace("\\\"", "\"")`. -/
def format (result : JString) : JString :=
  replace [92, 34] [34] (replace [92, 92] [92] (replace [92, 110] [10] result))

/-- `complete`, from the text of the response. -/
def complete (lib : Libraries) (responseText : JString) :
    Except ChatException CompletionResponse :=
  if ¬ youChatToken <:+: responseText then
    .error (.completion
      (.ofString "Response didn't contain any completion results: " ++ responseText))
  else
    match findSearchResults (.ofString "youChatSerpResults") responseText,
      findSearchResults (.ofString "thirdPartySearchResults") responseText with
    | some youChatSerpResults, some _ =>
      match lib.readValue youChatSerpResults with
      | some value =>
        .ok
          { formattedText := format (findTokens responseText).flatten
            extra := [(.ofString "youChatSerpResults", value)]
            links := none }
      | none => .error (.completion (.ofString "Failed to process completion"))
    | _, _ => .error .noMatchFound

/-- What the emitter of `completeAsyncMessages` gets. -/
structure Emitted where
  next : List JString
  error : Bool

/-- `onEvent` for the events of the response, until reading one fails. -/
def onEvents (lib : Libraries) : List JString → Emitted
  | [] => { next := [], error := false }
  | data :: rest =>
    if youChatToken <:+: data then
      match lib.readValue data with
      | some value =>
        let emitted := onEvents lib rest
        -- `toString` of no value
        { emitted with
          next := (value.lookup youChatToken).getD (.ofString "null") :: emitted.next }
      | none => { next := [], error := true }
    else onEvents lib rest

def completeAsyncMessages (lib : Libraries) (responseText : JString) : Emitted :=
  onEvents lib (lib.events responseText)

/-! ### The server -/

/-- The JSON object of a token. -/
def tokenData (t : List JsonChar) : JString := tokenHead ++ rawString t ++ tokenTail

/-- An event without the word that both readers look for. -/
structure OtherEvent where
  type : JString
  data : JString
  lines : newline ∉ type ∧ newline ∉ data
  noToken : ¬ youChatToken <:+: type ∧ ¬ youChatToken <:+: data

/-- An event of a response. -/
inductive ResponseEvent where
  | token (t : List JsonChar)
  | other (e : OtherEvent)

namespace ResponseEvent

def type : ResponseEvent → JString
  | token _ => youChatToken
  | other e => e.type

def data : ResponseEvent → JString
  | token t => tokenData t
  | other e => e.data

/-- The lines of an event; an empty line ends it. -/
def text (e : ResponseEvent) : JString :=
  JString.ofString "event: " ++ e.type ++ newline ::
    (JString.ofString "data: " ++ e.data ++ newline :: [newline])

def token? : ResponseEvent → Option (List JsonChar)
  | token t => some t
  | other _ => none

end ResponseEvent

/-- The text of a response. -/
def responseText (events : List ResponseEvent) : JString := events.flatMap ResponseEvent.text

/-- The tokens of a response. -/
def tokens (events : List ResponseEvent) : List (List JsonChar) :=
  events.filterMap ResponseEvent.token?

/-- `complete` finds the two search results, and can read the first. -/
structure CarriesSearchResults (lib : Libraries) (responseText : JString) : Prop where
  youChatSerpResults : ∃ s,
    findSearchResults (.ofString "youChatSerpResults") responseText = some s ∧
      (lib.readValue s).isSome
  thirdPartySearchResults :
    (findSearchResults (.ofString "thirdPartySearchResults") responseText).isSome

variable {c : UInt16} {s l g : JString} {t : List JsonChar} {events : List ResponseEvent}

/-! ### Matches of tokens -/

theorem tokenHead_eq : tokenHead = 123 :: tokenHead.tail := by decide

theorem tokenTail_eq : tokenTail = [34, 125] := by decide

theorem event_eq : JString.ofString "event: " = 101 :: (JString.ofString "event: ").tail := by
  decide

theorem newline_notMem_tokenHead : newline ∉ tokenHead := by decide

theorem newline_notMem_tokenTail : newline ∉ tokenTail := by decide

/-- A match ends in front of the end of its line. -/
theorem lazyGroup_line (l s : JString) : lazyGroup (l ++ newline :: s) = lazyGroup l := by
  induction l with
  | nil =>
    have hbegins : ¬ tokenTail <+: newline :: s := fun h =>
      absurd ((prefix_append_cons_iff (s := []) newline_notMem_tokenTail).mp h)
        (by decide)
    show lazyGroup (newline :: s) = none
    rw [lazyGroup, if_neg hbegins, if_pos (by decide)]
  | cons c l ih =>
    have hiff : tokenTail <+: c :: (l ++ newline :: s) ↔ tokenTail <+: c :: l :=
      prefix_append_cons_iff (s := c :: l) newline_notMem_tokenTail
    rw [List.cons_append, lazyGroup, lazyGroup, ih]
    simp only [hiff]

theorem lazyGroup_length (h : lazyGroup l = some g) : g.length + tokenTail.length ≤ l.length := by
  induction l generalizing g with
  | nil => cases h
  | cons c l ih =>
    rw [lazyGroup] at h
    split at h
    · next hbegins =>
      obtain rfl := Option.some.inj h
      rw [List.length_nil, Nat.zero_add]
      exact hbegins.length_le
    · split at h
      · cases h
      · obtain ⟨g', hg', rfl⟩ := Option.map_eq_some_iff.mp h
        have hle := ih hg'
        rw [List.length_cons, List.length_cons]
        omega

theorem tokenMatch_line (l s : JString) : tokenMatch (l ++ newline :: s) = tokenMatch l := by
  rw [tokenMatch, tokenMatch]
  simp only [prefix_append_cons_iff newline_notMem_tokenHead]
  split
  · next h => rw [List.drop_append_of_le_length h.length_le, lazyGroup_line]
  · rfl

theorem tokenMatch_length (h : tokenMatch l = some g) :
    tokenHead.length + g.length + tokenTail.length ≤ l.length := by
  rw [tokenMatch] at h
  split at h
  · next hbegins =>
    have hle := lazyGroup_length h
    have hhead := hbegins.length_le
    rw [List.length_drop] at hle
    omega
  · cases h

theorem findTokens_cons (h : tokenMatch (c :: s) = none) :
    findTokens (c :: s) = findTokens s := by
  rw [findTokens, findFrom]
  simp only [h]
  rfl

theorem findFrom_line {skip : Nat} (hskip : skip ≤ l.length) (s : JString) :
    findFrom skip (l ++ newline :: s) = findFrom skip l ++ findTokens s := by
  induction l generalizing skip with
  | nil =>
    obtain rfl : skip = 0 := Nat.le_zero.mp hskip
    have hnone : tokenMatch (newline :: s) = none := by
      rw [show newline :: s = [] ++ newline :: s from rfl, tokenMatch_line]
      decide
    exact findTokens_cons hnone
  | cons c l ih =>
    rw [List.length_cons] at hskip
    match skip with
    | skip + 1 => exact ih (by omega)
    | 0 =>
      have hline := tokenMatch_line (c :: l) s
      rw [List.cons_append] at hline
      rw [List.cons_append, findFrom, findFrom]
      simp only [hline]
      split
      · next g hg =>
        have hlen := tokenMatch_length hg
        rw [List.length_cons] at hlen
        rw [ih (by omega), List.cons_append]
      · exact ih (Nat.zero_le _)

/-- **Lines.**  A match is within a line. -/
theorem findTokens_line (l s : JString) :
    findTokens (l ++ newline :: s) = findTokens l ++ findTokens s :=
  findFrom_line (Nat.zero_le _) s

theorem findTokens_eq_nil (h : ¬ tokenHead <:+: s) : findTokens s = [] := by
  induction s with
  | nil => rfl
  | cons c s ih =>
    rw [List.infix_cons_iff, not_or] at h
    rw [findTokens_cons (if_neg h.1), ih h.2]

/-- A text that a match does not begin in. -/
theorem findTokens_append {u : JString} (hu : 123 ∉ u) (s : JString) :
    findTokens (u ++ s) = findTokens s := by
  induction u with
  | nil => rfl
  | cons c u ih =>
    rw [List.mem_cons, not_or] at hu
    have hbegins : ¬ tokenHead <+: c :: (u ++ s) := by
      intro h
      rw [tokenHead_eq, List.cons_prefix_cons] at h
      exact hu.1 h.1
    rw [List.cons_append, findTokens_cons (if_neg hbegins), ih hu.2]

/-! ### The tokens of a response -/

/-- What is found of a token: nothing behind an escaped quote that stands in front of a brace, and
    nothing at all when `.` does not match a character. -/
def group : List JsonChar → Option JString
  | [] => some []
  | x :: t =>
    if x = .escape .quote ∧ (rawString t).head? = some 125 then some [92]
    else if x.raw.any isTerminator = true then none
    else (group t).map (x.raw ++ ·)

theorem lazyGroup_cons (hc : c ≠ 34) (s : JString) :
    lazyGroup (c :: s) = if isTerminator c = true then none else (lazyGroup s).map (c :: ·) := by
  rw [lazyGroup, if_neg]
  intro h
  rw [tokenTail_eq, List.cons_prefix_cons] at h
  exact hc h.1.symm

theorem isTerminator_hexDigit (d : HexDigit) : isTerminator d.1 = false := by
  simp only [isTerminator, Bool.or_eq_false_iff, beq_eq_false_iff_ne]
  exact ⟨⟨⟨⟨d.ne (by decide), d.ne (by decide)⟩, d.ne (by decide)⟩, d.ne (by decide)⟩,
    d.ne (by decide)⟩

theorem any_raw_escape (e : Escape) : (JsonChar.escape e).raw.any isTerminator = false := by
  cases e <;> decide

theorem any_raw_unicode (a b d e : HexDigit) :
    (JsonChar.unicode a b d e).raw.any isTerminator = false := by
  have hbackslash : isTerminator 92 = false := by decide
  have hu : isTerminator 117 = false := by decide
  simp only [JsonChar.raw, List.any_cons, List.any_nil, hbackslash, hu, isTerminator_hexDigit,
    Bool.or_false]

theorem head?_rawString_append (t : List JsonChar) :
    (rawString t ++ tokenTail).head? = some 125 ↔ (rawString t).head? = some 125 := by
  cases t with
  | nil => decide
  | cons x t =>
    obtain ⟨u, r, hraw, -⟩ := x.raw_eq
    rw [rawString_cons, hraw]
    exact Iff.rfl

/-- **The group** of a token. -/
theorem lazyGroup_raw (t : List JsonChar) : lazyGroup (rawString t ++ tokenTail) = group t := by
  induction t with
  | nil => decide
  | cons x t ih =>
    have hhead := head?_rawString_append t
    rw [rawString_cons, List.append_assoc, group]
    generalize rawString t ++ tokenTail = r at ih hhead
    cases x with
    | plain u h =>
      rw [if_neg (fun hc => by cases hc.1)]
      show lazyGroup (u :: r) = if (isTerminator u || false) = true then none else _
      rw [lazyGroup_cons (isPlain_ne h).1, ih, Bool.or_false]
      rfl
    | escape e =>
      have hletter : isTerminator e.letter = false := by cases e <;> decide
      show lazyGroup (92 :: e.letter :: r) = _
      rw [lazyGroup_cons (by decide), if_neg (by decide), any_raw_escape]
      by_cases hquote : e = .quote
      · subst hquote
        have hbegins : tokenTail <+: 34 :: r ↔ (rawString t).head? = some 125 := by
          rw [tokenTail_eq, List.cons_prefix_cons, ← hhead]
          cases r <;> simp [eq_comm]
        rw [show Escape.quote.letter = 34 from rfl, lazyGroup, ih]
        simp only [hbegins, true_and]
        split
        · rfl
        · cases group t <;> rfl
      · have hne : e.letter ≠ 34 := by
          cases e <;> first | exact absurd rfl hquote | decide
        rw [lazyGroup_cons hne, hletter, if_neg Bool.false_ne_true, ih,
          if_neg (fun hc => hquote (JsonChar.escape.inj hc.1)), if_neg Bool.false_ne_true]
        cases group t <;> rfl
    | unicode a b d e =>
      rw [if_neg (fun hc => by cases hc.1), any_raw_unicode]
      show lazyGroup (92 :: 117 :: a.1 :: b.1 :: d.1 :: e.1 :: r) = _
      rw [lazyGroup_cons (by decide), lazyGroup_cons (by decide), lazyGroup_cons (a.ne (by decide)),
        lazyGroup_cons (b.ne (by decide)), lazyGroup_cons (d.ne (by decide)),
        lazyGroup_cons (e.ne (by decide)), ih]
      simp only [isTerminator_hexDigit]
      cases group t <;> rfl

/-- No match begins in a token: a quote in it has a backslash in front of it. -/
theorem not_infix_raw (t : List JsonChar) : ¬ tokenHead <:+: rawString t ++ tokenTail := by
  have hstart : [123, 34, 121] <+: tokenHead := by decide
  suffices h : ¬ [123, 34, 121] <:+: rawString t ++ tokenTail from
    fun hc => h (hstart.isInfix.trans hc)
  induction t with
  | nil => decide
  | cons x t ih =>
    rw [rawString_cons, List.append_assoc]
    cases x with
    | plain u h =>
      show ¬ [123, 34, 121] <:+: u :: (rawString t ++ tokenTail)
      rw [List.infix_cons_iff, not_or]
      refine ⟨fun hc => ?_, ih⟩
      have hquote := (List.cons_prefix_cons.mp hc).2
      cases t with
      | nil => exact absurd hquote (by decide)
      | cons y t =>
        obtain ⟨v, r, hraw, hne⟩ := y.raw_eq
        rw [rawString_cons, hraw, List.append_assoc, List.cons_append] at hquote
        exact hne (List.cons_prefix_cons.mp hquote).1.symm
    | escape e =>
      rw [infix_append_iff_of_notMem (by cases e <;> decide)]
      exact ih
    | unicode a b d e =>
      rw [infix_append_iff_of_notMem]
      · exact ih
      · simp only [JsonChar.raw, List.mem_cons, not_or, List.not_mem_nil, not_false_eq_true,
          and_true]
        exact ⟨by decide, by decide, (a.ne (by decide)).symm, (b.ne (by decide)).symm,
          (d.ne (by decide)).symm, (e.ne (by decide)).symm⟩

theorem findFrom_eq_nil (skip : Nat) (h : ¬ tokenHead <:+: s) : findFrom skip s = [] := by
  induction s generalizing skip with
  | nil => rfl
  | cons c s ih =>
    have hs : ¬ tokenHead <:+: s := fun hc => h (hc.trans (List.suffix_cons c s).isInfix)
    match skip with
    | skip + 1 => exact ih skip hs
    | 0 => exact findTokens_eq_nil h

theorem findTokens_tokenData (t : List JsonChar) : findTokens (tokenData t) = (group t).toList := by
  have hrest : ¬ tokenHead <:+: tokenHead.tail ++ (rawString t ++ tokenTail) := by
    rw [tokenHead_eq, infix_append_iff_of_notMem (by decide), ← tokenHead_eq]
    exact not_infix_raw t
  have hmatch : tokenMatch (tokenData t) = group t := by
    rw [tokenMatch, tokenData, List.append_assoc, if_pos (List.prefix_append _ _),
      List.drop_left, lazyGroup_raw]
  have hdata : tokenData t = 123 :: (tokenHead.tail ++ (rawString t ++ tokenTail)) := by
    rw [tokenData, List.append_assoc, ← List.cons_append, ← tokenHead_eq]
  rw [hdata] at hmatch ⊢
  rw [findTokens, findFrom]
  simp only [hmatch, findFrom_eq_nil _ hrest]
  cases group t <;> rfl

theorem not_infix_tokenHead (h : ¬ youChatToken <:+: s) : ¬ tokenHead <:+: s := by
  have hword : youChatToken <:+: tokenHead := by decide
  exact fun hc => h (hword.trans hc)

theorem responseText_cons (e : ResponseEvent) (events : List ResponseEvent) :
    responseText (e :: events) =
      (JString.ofString "event: " ++ e.type) ++ newline ::
        ((JString.ofString "data: " ++ e.data) ++ newline ::
          ([] ++ newline :: responseText events)) := by
  rw [responseText, List.flatMap_cons, ResponseEvent.text]
  simp only [List.append_assoc, List.cons_append, List.nil_append]
  rfl

/-- **What is found in a response.** -/
theorem findTokens_responseText (events : List ResponseEvent) :
    findTokens (responseText events) = (tokens events).filterMap group := by
  induction events with
  | nil => rfl
  | cons e events ih =>
    rw [responseText_cons, findTokens_line, findTokens_line, findTokens_line, ih,
      findTokens_append (by decide), findTokens_append (by decide)]
    cases e with
    | token t =>
      have htype : findTokens youChatToken = [] :=
        findTokens_eq_nil (by decide)
      show findTokens youChatToken ++ (findTokens (tokenData t) ++ (_ ++ _)) = _
      have htokens : tokens (.token t :: events) = t :: tokens events := rfl
      rw [htype, findTokens_tokenData, htokens, List.filterMap_cons]
      cases group t <;> rfl
    | other e =>
      show findTokens e.type ++ (findTokens e.data ++ (_ ++ _)) = _
      rw [findTokens_eq_nil (not_infix_tokenHead e.noToken.1),
        findTokens_eq_nil (not_infix_tokenHead e.noToken.2)]
      rfl

/-- A response without tokens is refused, and no other. -/
theorem infix_responseText_iff (events : List ResponseEvent) :
    youChatToken <:+: responseText events ↔ tokens events ≠ [] := by
  have hnewline : newline ∉ youChatToken := by decide
  have hword : youChatToken = 121 :: youChatToken.tail := by decide
  have hevent (s : JString) :
      youChatToken <:+: JString.ofString "event: " ++ s ↔ youChatToken <:+: s := by
    rw [hword]
    exact infix_append_iff_of_notMem (by decide)
  have hdata (s : JString) :
      youChatToken <:+: JString.ofString "data: " ++ s ↔ youChatToken <:+: s := by
    rw [hword]
    exact infix_append_iff_of_notMem (by decide)
  induction events with
  | nil =>
    refine iff_of_false (fun h => ?_) (not_not.mpr rfl)
    rw [hword] at h
    cases List.infix_nil.mp h
  | cons e events ih =>
    rw [responseText_cons, infix_append_cons_iff hnewline, infix_append_cons_iff hnewline,
      infix_append_cons_iff hnewline, hevent, hdata]
    cases e with
    | token t => exact iff_of_true (Or.inl (List.infix_refl _)) (List.cons_ne_nil _ _)
    | other e =>
      have hnil : ¬ youChatToken <:+: [] := by
        rw [hword]
        exact fun hc => by cases List.infix_nil.mp hc
      exact (or_iff_right e.noToken.1).trans ((or_iff_right e.noToken.2).trans
        ((or_iff_right hnil).trans ih))

/-! ### The search results of a response -/

/-- A line of search results that `.` matches. -/
theorem searchResults_lines (hl : ∀ c ∈ l, isTerminator c = false) (s : JString) :
    searchResults.lines (l ++ newline :: s) =
      (if JString.ofString "event: " <+: s then some [] else searchResults.lines s).map
        (l ++ newline :: ·) := by
  induction l with
  | nil =>
    rw [List.nil_append, searchResults.lines, if_pos rfl]
    rfl
  | cons c l ih =>
    obtain ⟨hc, hrest⟩ := List.forall_mem_cons.mp hl
    have hne : c ≠ newline := by
      rintro rfl
      exact absurd hc (by decide)
    rw [List.cons_append, searchResults.lines, if_neg hne, if_neg (by rw [hc]; decide), ih hrest,
      Option.map_map]
    rfl

/-- The search results of an event that another one follows. -/
theorem searchResults_event (hl : ∀ c ∈ l, isTerminator c = false)
    (hs : JString.ofString "event: " <+: s) :
    searchResults (32 :: l ++ newline :: newline :: s) =
      some (32 :: l ++ [newline, newline]) := by
  have hblank : ¬ JString.ofString "event: " <+: newline :: s := by
    rw [event_eq]
    exact fun h => absurd (List.cons_prefix_cons.mp h).1 (by decide)
  have hspace : ¬ JString.ofString "event: " <+: 32 :: l ++ newline :: newline :: s := by
    rw [event_eq]
    exact fun h => absurd (List.cons_prefix_cons.mp h).1 (by decide)
  have hl' : ∀ c ∈ 32 :: l, isTerminator c = false :=
    List.forall_mem_cons.mpr ⟨by decide, hl⟩
  have hempty := searchResults_lines (l := []) (by simp) s
  rw [List.nil_append, if_pos hs] at hempty
  rw [searchResults, if_neg hspace, searchResults_lines hl', if_neg hblank, hempty]
  rfl

theorem searchHead_eq (type : JString) : searchHead type = 101 :: (searchHead type).tail := by
  rw [searchHead, event_eq]
  rfl

theorem findSearchResults_head {r : JString} (type : JString) (h : searchResults s = some r) :
    findSearchResults type (searchHead type ++ s) = some r := by
  have hdrop : (searchHead type ++ s).drop (searchHead type).length = s := List.drop_left
  have hbegins := List.prefix_append (searchHead type) s
  generalize htext : searchHead type ++ s = u at hdrop hbegins
  rw [searchHead_eq type, List.cons_append] at htext
  subst htext
  rw [findSearchResults, if_pos hbegins, hdrop, h]
  rfl

theorem findSearchResults_append {type : JString}
    (h : (findSearchResults type s).isSome) (u : JString) :
    (findSearchResults type (u ++ s)).isSome := by
  induction u with
  | nil => exact h
  | cons c u ih =>
    rw [List.cons_append, findSearchResults]
    split
    · rw [Option.isSome_or, ih, Bool.or_true]
    · exact ih

theorem responseText_append (events events' : List ResponseEvent) :
    responseText (events ++ events') = responseText events ++ responseText events' :=
  List.flatMap_append

/-- An event of search results that another one follows. -/
theorem findSearchResults_event (e : OtherEvent) (hdata : ∀ c ∈ e.data, isTerminator c = false)
    (e' : ResponseEvent) (events : List ResponseEvent) :
    findSearchResults e.type (responseText (.other e :: e' :: events)) =
      some (32 :: e.data ++ [newline, newline]) := by
  have hbegins : JString.ofString "event: " <+: responseText (e' :: events) := by
    rw [responseText_cons, List.append_assoc]
    exact List.prefix_append _ _
  have hfound := findSearchResults_head e.type (searchResults_event hdata hbegins)
  have hspace : JString.ofString "data: " = JString.ofString "data:" ++ [32] := by decide
  have hline : JString.ofString "\ndata:" = newline :: JString.ofString "data:" := by
    decide
  rw [← hfound, responseText_cons, searchHead, hline, hspace]
  refine congrArg _ ?_
  show (JString.ofString "event: " ++ e.type) ++ newline ::
    ((JString.ofString "data:" ++ [32] ++ e.data) ++ _) = _
  simp only [List.append_assoc, List.cons_append, List.nil_append]

/-- **Search results** that begin the response, and others that something follows, are found. -/
theorem carries_of_events {lib : Libraries} {serp thirdParty : OtherEvent} {e : ResponseEvent}
    {events : List ResponseEvent} (hserp : serp.type = .ofString "youChatSerpResults")
    (hthirdParty : thirdParty.type = .ofString "thirdPartySearchResults")
    (hdata : ∀ c ∈ serp.data, isTerminator c = false)
    (hdata' : ∀ c ∈ thirdParty.data, isTerminator c = false)
    (hread : (lib.readValue (32 :: serp.data ++ [newline, newline])).isSome)
    (between : List ResponseEvent) :
    CarriesSearchResults lib
      (responseText (.other serp :: (between ++ .other thirdParty :: e :: events))) where
  youChatSerpResults := by
    obtain ⟨e', rest, hcons⟩ :=
      List.exists_cons_of_ne_nil (show between ++ .other thirdParty :: e :: events ≠ [] by simp)
    rw [hcons, ← hserp]
    exact ⟨_, findSearchResults_event serp hdata e' rest, hread⟩
  thirdPartySearchResults := by
    rw [← List.cons_append, responseText_append, ← hthirdParty]
    refine findSearchResults_append ?_ _
    rw [findSearchResults_event thirdParty hdata' e events]
    rfl

end Reloadium.Chat
