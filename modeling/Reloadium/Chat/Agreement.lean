import Reloadium.Chat.YouChatClient

namespace Reloadium.Chat

open Reloadium.Lib

/-!
# Chat — when the two readers of an answer agree

`complete` undoes `\n`, `\\` and `\"` by three replacements in the text of all tokens, one after
the other.  `shown` is what they make of JSON text: other escapes stay as they are written, and
`\\` in front of an `n` becomes a backslash and a line break.

A token that is not found whole cannot be made up for by the others: a cut loses a quote and a
missing token a character that `.` does not match, and the replacements add neither.

* `format_raw`, `shown_eq_iff` — the replacements on whole tokens;
* `group_eq_raw_iff`, `count_groups`, `group_isSome` — the tokens that are not whole;
* `Undone` — the tokens that `complete` reads right, `readers_agree_iff` — that it reads no
  others.
-/

variable {c : UInt16} {s g : JString} {x : JsonChar} {t : List JsonChar}
  {ts : List (List JsonChar)} {events : List ResponseEvent} {lib : Libraries}

/-! ### The three replacements -/

theorem format_cons (hc : c ≠ 92) (s : JString) : format (c :: s) = c :: format s := by
  rw [format, replace_cons_of_ne hc, replace_cons_of_ne hc, replace_cons_of_ne hc, format]

theorem format_newline (s : JString) : format (92 :: 110 :: s) = 10 :: format s := by
  rw [format, replace_pair, List.singleton_append, replace_cons_of_ne (by decide),
    replace_cons_of_ne (by decide), format]

theorem format_quote (s : JString) : format (92 :: 34 :: s) = 34 :: format s := by
  rw [format, replace_cons_of_head? (b := 110) (by simp), replace_cons_of_ne (c := 34) (by decide),
    replace_cons_of_head? (b := 92) (by simp), replace_cons_of_ne (c := 34) (by decide),
    replace_pair, List.singleton_append, format]

/-- Two backslashes. -/
theorem format_backslash (hquote : s.head? ≠ some 34) (hn : s.head? ≠ some 110) :
    format (92 :: 92 :: s) = 92 :: format s := by
  have hhead : (replace [92, 92] [92] (replace [92, 110] [10] s)).head? ≠ some 34 := by
    intro h
    have h' := (head?_replace (by simp) h).resolve_right (by decide)
    exact (head?_replace (by simp) h').elim hquote (by decide)
  rw [format, replace_cons_of_head? (b := 110) (by simp), replace_cons_of_head? hn, replace_pair,
    List.singleton_append, replace_cons_of_head? hhead, format]

/-- The second backslash is taken together with an `n` behind it. -/
theorem format_backslash_n (s : JString) :
    format (92 :: 92 :: 110 :: s) = 92 :: 10 :: format s := by
  rw [format, replace_cons_of_head? (b := 110) (by simp), replace_pair, List.singleton_append,
    replace_cons_of_head? (b := 92) (by simp), replace_cons_of_ne (c := 10) (by decide),
    replace_cons_of_head? (b := 34) (by simp), replace_cons_of_ne (c := 10) (by decide), format]

theorem format_other (hquote : c ≠ 34) (hbackslash : c ≠ 92) (hn : c ≠ 110) (s : JString) :
    format (92 :: c :: s) = 92 :: c :: format s := by
  rw [format, replace_cons_of_head? (b := 110) (by simpa using hn), replace_cons_of_ne hbackslash,
    replace_cons_of_head? (b := 92) (by simpa using hbackslash), replace_cons_of_ne hbackslash,
    replace_cons_of_head? (b := 34) (by simpa using hquote), replace_cons_of_ne hbackslash, format]

theorem count_format (s : JString) : (format s).count 34 = s.count 34 := by
  rw [format, count_replace (by simp) (by decide), count_replace (by simp) (by decide),
    count_replace (by simp) (by decide)]

theorem mem_format (h : c ∈ format s) : c ∈ s ∨ c = 10 ∨ c = 92 ∨ c = 34 := by
  rw [format] at h
  rcases mem_replace (by simp) h with h | h
  · rcases mem_replace (by simp) h with h | h
    · rcases mem_replace (by simp) h with h | h
      · exact Or.inl h
      · exact Or.inr (Or.inl (List.mem_singleton.mp h))
    · exact Or.inr (Or.inr (Or.inl (List.mem_singleton.mp h)))
  · exact Or.inr (Or.inr (Or.inr (List.mem_singleton.mp h)))

/-! ### JSON text -/

/-- What the replacements make of JSON text, behind an escaped backslash or not. -/
def shown (after : Bool) : List JsonChar → JString
  | [] => []
  | .plain u _ :: t => (if after = true ∧ u = 110 then 10 else u) :: shown false t
  | .escape .newline :: t => 10 :: shown false t
  | .escape .quote :: t => 34 :: shown false t
  | .escape .backslash :: t => 92 :: shown true t
  | .escape e :: t => 92 :: e.letter :: shown false t
  | .unicode a b c d :: t => (JsonChar.unicode a b c d).raw ++ shown false t

theorem head?_rawString_ne (t : List JsonChar) : (rawString t).head? ≠ some 34 := by
  cases t with
  | nil => exact nofun
  | cons x t =>
    obtain ⟨u, r, hraw, hne⟩ := x.raw_eq
    rw [rawString_cons, hraw]
    exact fun h => hne (Option.some.inj h)

/-- **The replacements** in JSON text. -/
theorem format_raw (t : List JsonChar) :
    format (rawString t) = shown false t ∧
      format (92 :: 92 :: rawString t) = 92 :: shown true t := by
  induction t with
  | nil => decide
  | cons x t ih =>
    obtain ⟨hone, htwo⟩ := ih
    cases x with
    | plain u h =>
      have hfalse : format (u :: rawString t) = u :: shown false t := by
        rw [format_cons (isPlain_ne h).2, hone]
      refine ⟨hfalse.trans (by rw [shown, if_neg (fun hc => by cases hc.1)]), ?_⟩
      show format (92 :: 92 :: u :: rawString t) = _
      rw [shown]
      by_cases hu : u = 110
      · rw [if_pos ⟨rfl, hu⟩, hu, format_backslash_n, hone]
      · rw [if_neg (fun hc => hu hc.2), format_backslash _ (by simpa using hu), hfalse]
        simpa using (isPlain_ne h).1
    | escape e =>
      have hfalse : format (rawString (.escape e :: t)) = shown false (.escape e :: t) := by
        show format (92 :: e.letter :: rawString t) = _
        cases e with
        | quote => exact (format_quote _).trans (congrArg (34 :: ·) hone)
        | backslash => exact htwo
        | newline => exact (format_newline _).trans (congrArg (10 :: ·) hone)
        | _ =>
          rw [format_other (by decide) (by decide) (by decide), hone]
          rfl
      have htrue : shown true (.escape e :: t) = shown false (.escape e :: t) := by
        cases e <;> rfl
      refine ⟨hfalse, ?_⟩
      rw [format_backslash (head?_rawString_ne _) (by simp [rawString_cons, JsonChar.raw]), hfalse,
        htrue]
    | unicode a b d e =>
      have hfalse : format (rawString (.unicode a b d e :: t)) =
          shown false (.unicode a b d e :: t) := by
        show format (92 :: 117 :: a.1 :: b.1 :: d.1 :: e.1 :: rawString t) = _
        rw [format_other (by decide) (by decide) (by decide), format_cons (a.ne (by decide)),
          format_cons (b.ne (by decide)), format_cons (d.ne (by decide)),
          format_cons (e.ne (by decide)), hone]
        rfl
      refine ⟨hfalse, ?_⟩
      rw [format_backslash (head?_rawString_ne _) (by simp [rawString_cons, JsonChar.raw]), hfalse]
      rfl

/-- The escapes that `complete` undoes. -/
def Replaced : JsonChar → Prop
  | .plain _ _ => True
  | .escape e => e = .newline ∨ e = .backslash ∨ e = .quote
  | .unicode .. => False

instance : DecidablePred Replaced
  | .plain _ _ => .isTrue trivial
  | .escape e => inferInstanceAs (Decidable (e = .newline ∨ e = .backslash ∨ e = .quote))
  | .unicode .. => .isFalse id

theorem length_shown (after : Bool) (t : List JsonChar) : t.length ≤ (shown after t).length := by
  induction t generalizing after with
  | nil => exact Nat.zero_le _
  | cons x t ih =>
    have hfalse := ih false
    have htrue := ih true
    cases x with
    | plain u h =>
      rw [shown, List.length_cons, List.length_cons]
      omega
    | escape e =>
      cases e <;> simp only [shown, List.length_cons] <;> omega
    | unicode a b c d =>
      simp only [shown, JsonChar.raw, List.length_append, List.length_cons]
      omega

/-- An escaped backslash, and the `n` that it is taken for an escape with. -/
def backslashN : List JsonChar := [.escape .backslash, .plain 110 (by decide)]

/-- **When the replacements are right.** -/
theorem shown_eq_iff (after : Bool) (t : List JsonChar) :
    shown after t = t.map JsonChar.value ↔ (∀ x ∈ t, Replaced x) ∧
      ¬ (after = true ∧ [.plain 110 (by decide)] <+: t) ∧ ¬ backslashN <:+: t := by
  induction t generalizing after with
  | nil => simp [shown, backslashN]
  | cons x t ih =>
    have hlength := length_shown false t
    rw [List.forall_mem_cons, List.infix_cons_iff, backslashN, List.cons_prefix_cons,
      List.cons_prefix_cons, ← backslashN, List.map_cons]
    cases x with
    | plain u h =>
      have hn : (JsonChar.plain 110 (by decide) = JsonChar.plain u h) ↔ u = 110 := by
        rw [JsonChar.plain.injEq, eq_comm]
      have hletter : (if after = true ∧ u = 110 then 10 else u) = u ↔
          ¬ (after = true ∧ u = 110) := by
        refine ⟨fun heq hc => ?_, fun hc => if_neg hc⟩
        rw [if_pos hc, hc.2] at heq
        exact absurd heq (by decide)
      rw [shown, List.cons_eq_cons, ih, JsonChar.value, hletter, hn]
      simp [Replaced, and_left_comm, List.nil_prefix]
    | escape e =>
      by_cases hreplaced : Replaced (.escape e)
      · rcases hreplaced with rfl | rfl | rfl
        · rw [shown, List.cons_eq_cons, ih]
          simp [Replaced, JsonChar.value, Escape.value]
        · rw [shown, List.cons_eq_cons, ih]
          simp [Replaced, JsonChar.value, Escape.value]
        · rw [shown, List.cons_eq_cons, ih]
          simp [Replaced, JsonChar.value, Escape.value]
      · refine iff_of_false (fun heq => ?_) (fun hc => hreplaced hc.1.1)
        have hlen := congrArg List.length heq
        rw [List.length_cons, List.length_map] at hlen
        cases e with
        | quote => exact hreplaced (Or.inr (Or.inr rfl))
        | backslash => exact hreplaced (Or.inr (Or.inl rfl))
        | newline => exact hreplaced (Or.inl rfl)
        | _ =>
          simp only [shown, List.length_cons] at hlen
          omega
    | unicode a b c d =>
      refine iff_of_false (fun heq => ?_) (fun hc => hc.1.1)
      have hlen := congrArg List.length heq
      simp only [shown, JsonChar.raw, List.length_append, List.length_cons, List.length_map] at hlen
      omega

/-! ### Tokens that are not found whole -/

/-- An escaped quote and the brace that makes it look like the end of a token. -/
def quoteBrace : List JsonChar := [.escape .quote, .plain 125 (by decide)]

theorem head?_rawString (t : List JsonChar) :
    (rawString t).head? = some 125 ↔ [.plain 125 (by decide)] <+: t := by
  cases t with
  | nil => simp [rawString]
  | cons x t =>
    rw [List.cons_prefix_cons, rawString_cons]
    cases x with
    | plain u h => simp [JsonChar.raw, List.nil_prefix, eq_comm]
    | escape e => simp [JsonChar.raw]
    | unicode a b c d => simp [JsonChar.raw]

theorem group_eq_raw_iff (t : List JsonChar) :
    group t = some (rawString t) ↔
      (∀ x ∈ t, x.raw.any isTerminator = false) ∧ ¬ quoteBrace <:+: t := by
  induction t with
  | nil => simp [group, rawString, quoteBrace]
  | cons x t ih =>
    have hbegins : quoteBrace <+: x :: t ↔
        x = .escape .quote ∧ (rawString t).head? = some 125 := by
      rw [head?_rawString, quoteBrace, List.cons_prefix_cons, eq_comm]
    rw [group, List.forall_mem_cons, List.infix_cons_iff, hbegins, rawString_cons]
    by_cases hcut : x = .escape .quote ∧ (rawString t).head? = some 125
    · rw [if_pos hcut, hcut.1]
      exact iff_of_false (by simp [JsonChar.raw]) fun hc => hc.2 (Or.inl ⟨rfl, hcut.2⟩)
    · rw [if_neg hcut, or_iff_right hcut]
      by_cases hterm : x.raw.any isTerminator = true
      · rw [if_pos hterm]
        exact iff_of_false (fun hc => by cases hc) fun hc => absurd hterm (by rw [hc.1.1]; decide)
      · rw [if_neg hterm, Option.map_eq_some_iff]
        rw [Bool.not_eq_true] at hterm
        simp only [List.append_cancel_left_eq, exists_eq_right, ih, hterm, true_and]

/-- A token of which nothing is found has a character that `.` does not match. -/
theorem exists_isTerminator (h : group t = none) :
    ∃ u hu, JsonChar.plain u hu ∈ t ∧ isTerminator u = true := by
  induction t with
  | nil => cases h
  | cons x t ih =>
    rw [group] at h
    split at h
    · cases h
    · split at h
      · next hterm =>
        cases x with
        | plain u hu => exact ⟨u, hu, List.mem_cons_self, by simpa [JsonChar.raw] using hterm⟩
        | escape e => rw [any_raw_escape] at hterm; cases hterm
        | unicode a b c d => rw [any_raw_unicode] at hterm; cases hterm
      · obtain ⟨u, hu, hmem, hterm⟩ := ih (Option.map_eq_none_iff.mp h)
        exact ⟨u, hu, List.mem_cons_of_mem _ hmem, hterm⟩

/-- What is found of a token ends in front of a quote, or begins with the first character. -/
theorem group_cons_cases (h : group (x :: t) = some g) :
    (x = .escape .quote ∧ g = [92]) ∨
      (x.raw.any isTerminator = false ∧ ∃ g', group t = some g' ∧ g = x.raw ++ g') := by
  rw [group] at h
  split at h
  · next hcut => exact Or.inl ⟨hcut.1, (Option.some.inj h).symm⟩
  · split at h
    · cases h
    · next hterm =>
      obtain ⟨g', hg', rfl⟩ := Option.map_eq_some_iff.mp h
      exact Or.inr ⟨Bool.not_eq_true _ ▸ hterm, g', hg', rfl⟩

/-- What is found has no such character. -/
theorem isTerminator_of_mem_group (h : group t = some g) (hc : c ∈ g) :
    isTerminator c = false := by
  induction t generalizing g with
  | nil =>
    obtain rfl := Option.some.inj h
    cases hc
  | cons x t ih =>
    obtain ⟨-, rfl⟩ | ⟨hterm, g', hg', rfl⟩ := group_cons_cases h
    · obtain rfl := List.mem_singleton.mp hc
      decide
    · rcases List.mem_append.mp hc with hc | hc
      · rw [List.any_eq_false] at hterm
        exact Bool.not_eq_true _ ▸ hterm c hc
      · exact ih hg' hc

theorem count_raw (x : JsonChar) : x.raw.count 34 ≤ [x.value].count 34 := by
  cases x with
  | plain u h => exact Nat.le_refl _
  | escape e => cases e <;> decide
  | unicode a b c d =>
    have hraw : (JsonChar.unicode a b c d).raw.count 34 = 0 := by
      rw [List.count_eq_zero]
      simp only [JsonChar.raw, List.mem_cons, not_or, List.not_mem_nil, not_false_eq_true, and_true]
      exact ⟨by decide, by decide, (a.ne (by decide)).symm, (b.ne (by decide)).symm,
        (c.ne (by decide)).symm, (d.ne (by decide)).symm⟩
    omega

/-- What is found of a token has no more quotes than the token, and as many only when it is found
    whole. -/
theorem count_group (h : group t = some g) :
    g.count 34 ≤ (t.map JsonChar.value).count 34 ∧
      (g.count 34 = (t.map JsonChar.value).count 34 → g = rawString t) := by
  induction t generalizing g with
  | nil =>
    obtain rfl := Option.some.inj h
    exact ⟨Nat.le_refl _, fun _ => rfl⟩
  | cons x t ih =>
    rw [List.map_cons, ← List.singleton_append, List.count_append]
    obtain ⟨rfl, rfl⟩ | ⟨-, g', hg', rfl⟩ := group_cons_cases h
    · have hnone : [(92 : UInt16)].count 34 = 0 := by decide
      have hquote : [(JsonChar.escape .quote).value].count 34 = 1 := by decide
      exact ⟨by omega, fun heq => by omega⟩
    · obtain ⟨hle, heq⟩ := ih hg'
      have hraw := count_raw x
      rw [List.count_append]
      refine ⟨by omega, fun hcount => ?_⟩
      rw [heq (by omega), rawString_cons]

/-- The same for all tokens. -/
theorem count_groups (hfound : ∀ t ∈ ts, (group t).isSome) :
    ((ts.filterMap group).flatten).count 34 ≤ (ts.flatten.map JsonChar.value).count 34 ∧
      (((ts.filterMap group).flatten).count 34 = (ts.flatten.map JsonChar.value).count 34 →
        ∀ t ∈ ts, group t = some (rawString t)) := by
  induction ts with
  | nil => exact ⟨Nat.le_refl _, nofun⟩
  | cons t ts ih =>
    obtain ⟨ht, hts⟩ := List.forall_mem_cons.mp hfound
    obtain ⟨g, hg⟩ := Option.isSome_iff_exists.mp ht
    obtain ⟨hle, heq⟩ := ih hts
    obtain ⟨hle', heq'⟩ := count_group hg
    rw [List.filterMap_cons_some hg, List.flatten_cons, List.flatten_cons, List.map_append,
      List.count_append, List.count_append]
    refine ⟨by omega, fun hcount => List.forall_mem_cons.mpr ⟨?_, heq (by omega)⟩⟩
    rw [hg, heq' (by omega)]

/-- Where the replacements are right, something is found of every token. -/
theorem group_isSome (heq : format (ts.filterMap group).flatten = ts.flatten.map JsonChar.value) :
    ∀ t ∈ ts, (group t).isSome := by
  intro t ht
  rw [Option.isSome_iff_ne_none]
  intro hnone
  obtain ⟨u, hu, hmem, hterm⟩ := exists_isTerminator hnone
  obtain ⟨hquote, hbackslash⟩ := isPlain_ne hu
  have hvalue : u ∈ ts.flatten.map JsonChar.value :=
    List.mem_map.mpr ⟨.plain u hu, List.mem_flatten.mpr ⟨t, ht, hmem⟩, rfl⟩
  rw [← heq] at hvalue
  rcases mem_format hvalue with hfound | rfl | rfl | rfl
  · obtain ⟨g, hg, hug⟩ := List.mem_flatten.mp hfound
    obtain ⟨t', -, hgroup⟩ := List.mem_filterMap.mp hg
    rw [isTerminator_of_mem_group hgroup hug] at hterm
    cases hterm
  · exact absurd hu (by decide)
  · exact hbackslash rfl
  · exact hquote rfl

theorem flatten_groups (h : ∀ t ∈ ts, group t = some (rawString t)) :
    (ts.filterMap group).flatten = rawString ts.flatten := by
  induction ts with
  | nil => rfl
  | cons t ts ih =>
    obtain ⟨ht, hts⟩ := List.forall_mem_cons.mp h
    rw [List.filterMap_cons_some ht, List.flatten_cons, List.flatten_cons, ih hts, rawString,
      rawString, rawString, List.flatMap_append]

/-! ### Agreement -/

/-- The tokens that `complete` reads right: there is one; `.` matches their characters, and none
    has an escaped quote in front of a brace; the only escapes are those that are undone, and no
    escaped backslash stands in front of an `n`, also not in the next token. -/
structure Undone (ts : List (List JsonChar)) : Prop where
  nonempty : ts ≠ []
  matched : ∀ t ∈ ts, ∀ x ∈ t, x.raw.any isTerminator = false
  uncut : ∀ t ∈ ts, ¬ quoteBrace <:+: t
  replaced : ∀ t ∈ ts, ∀ x ∈ t, Replaced x
  apart : ¬ backslashN <:+: ts.flatten

/-- The text of the tokens is what they stand for. -/
theorem format_groups_iff (hts : ts ≠ []) :
    format (ts.filterMap group).flatten = ts.flatten.map JsonChar.value ↔ Undone ts := by
  have hshown := shown_eq_iff false ts.flatten
  rw [← (format_raw ts.flatten).1] at hshown
  apply Iff.intro
  · intro heq
    have hcount := congrArg (List.count 34) heq
    rw [count_format] at hcount
    have hwhole := (count_groups (group_isSome heq)).2 hcount
    rw [flatten_groups hwhole, hshown] at heq
    obtain ⟨hreplaced, -, hapart⟩ := heq
    exact
      { nonempty := hts
        matched := fun t ht => ((group_eq_raw_iff t).mp (hwhole t ht)).1
        uncut := fun t ht => ((group_eq_raw_iff t).mp (hwhole t ht)).2
        replaced := fun t ht x hx => hreplaced x (List.mem_flatten.mpr ⟨t, ht, hx⟩)
        apart := hapart }
  · intro h
    have hwhole : ∀ t ∈ ts, group t = some (rawString t) := fun t ht =>
      (group_eq_raw_iff t).mpr ⟨h.matched t ht, h.uncut t ht⟩
    rw [flatten_groups hwhole, hshown]
    refine ⟨fun x hx => ?_, fun hc => Bool.false_ne_true hc.1, h.apart⟩
    obtain ⟨t, ht, hxt⟩ := List.mem_flatten.mp hx
    exact h.replaced t ht x hxt

/-- What is streamed: every token as it is. -/
theorem onEvents_data (events : List ResponseEvent)
    (hread : ∀ t ∈ tokens events,
      lib.readValue (tokenData t) = some [(youChatToken, t.map JsonChar.value)]) :
    (onEvents lib (events.map ResponseEvent.data)).next =
      (tokens events).map (List.map JsonChar.value) := by
  induction events with
  | nil => rfl
  | cons e events ih =>
    cases e with
    | token t =>
      have htokens : tokens (.token t :: events) = t :: tokens events := rfl
      rw [htokens] at hread ⊢
      obtain ⟨hhead, hrest⟩ := List.forall_mem_cons.mp hread
      have hword : youChatToken <:+: tokenData t := by
        have hoccurs : youChatToken <:+: tokenHead := by decide
        rw [tokenData, List.append_assoc]
        exact hoccurs.trans (List.prefix_append _ _).isInfix
      have hlookup :
          List.lookup youChatToken [(youChatToken, t.map JsonChar.value)] =
            some (t.map JsonChar.value) := by
        rw [List.lookup_cons_self]
      rw [List.map_cons, onEvents, ResponseEvent.data, if_pos hword]
      simp only [hhead, hlookup, ih hrest]
      rfl
    | other e =>
      rw [List.map_cons, onEvents, ResponseEvent.data, if_neg e.noToken.2]
      exact ih hread

/-- What `complete` answers to a response with tokens. -/
theorem complete_responseText (hsearch : CarriesSearchResults lib (responseText events)) :
    (complete lib (responseText events)).map CompletionResponse.formattedText =
      if tokens events = [] then
        .error (.completion (.ofString "Response didn't contain any completion results: " ++
          responseText events))
      else .ok (format ((tokens events).filterMap group).flatten) := by
  obtain ⟨s, hs, hread⟩ := hsearch.youChatSerpResults
  obtain ⟨s', hs'⟩ := Option.isSome_iff_exists.mp hsearch.thirdPartySearchResults
  obtain ⟨value, hvalue⟩ := Option.isSome_iff_exists.mp hread
  have hiff := infix_responseText_iff events
  by_cases hnil : tokens events = []
  · rw [if_pos hnil, complete, if_pos fun hc => hiff.mp hc hnil]
    rfl
  · rw [if_neg hnil, complete, if_neg (not_not.mpr (hiff.mpr hnil)), findTokens_responseText]
    simp only [hs, hs', hvalue]
    rfl

/-- **The two readers** agree on a response exactly when `complete` can undo its tokens. -/
theorem readers_agree_iff (lib : Libraries) (events : List ResponseEvent)
    (hevents : lib.events (responseText events) = events.map ResponseEvent.data)
    (hread : ∀ t ∈ tokens events,
      lib.readValue (tokenData t) = some [(youChatToken, t.map JsonChar.value)])
    (hsearch : CarriesSearchResults lib (responseText events)) :
    (complete lib (responseText events)).map CompletionResponse.formattedText =
        .ok (completeAsyncMessages lib (responseText events)).next.flatten ↔
      Undone (tokens events) := by
  rw [complete_responseText hsearch, completeAsyncMessages, hevents, onEvents_data events hread]
  split
  · next hnil => exact iff_of_false nofun fun h => h.nonempty hnil
  · next hne => rw [Except.ok.injEq, ← List.map_flatten, format_groups_iff hne]

/-- A JSON reader that knows the objects of tokens and the empty object, and an event source that
    looks for `data` lines. -/
def tokenLibraries : Libraries where
  readValue s :=
    if tokenHead <+: s then
      match readString (s.drop tokenHead.length) with
      | some (value, [125]) => some [(youChatToken, value)]
      | _ => none
    else if s.strip = .ofString "\x7b\x7d" then some []
    else none
  events s := (s.splitOn newline).filterMap fun line =>
    if JString.ofString "data: " <+: line then some (line.drop 6) else none

theorem readValue_tokenData (t : List JsonChar) :
    tokenLibraries.readValue (tokenData t) = some [(youChatToken, t.map JsonChar.value)] := by
  have hread := readString_raw t [125]
  rw [← tokenTail_eq] at hread
  rw [tokenLibraries, tokenData, List.append_assoc]
  simp only [List.prefix_append, if_true, List.drop_left, hread]

/-- Empty search results of a type. -/
def noResults (type : JString) (hline : newline ∉ type) (hword : ¬ youChatToken <:+: type) :
    OtherEvent where
  type := type
  data := .ofString "\x7b\x7d"
  lines := ⟨hline, by decide⟩
  noToken := ⟨hword, by decide⟩

theorem isTerminator_noResults (type : JString) (hline : newline ∉ type)
    (hword : ¬ youChatToken <:+: type) :
    ∀ c ∈ (noResults type hline hword).data, isTerminator c = false := by
  have hall : (JString.ofString "\x7b\x7d").all (fun c => !isTerminator c) = true := by decide
  intro c hc
  exact Bool.not_eq_eq_eq_not.mp (List.all_eq_true.mp hall c hc)

/-- A response with the tokens. -/
def responseOf (ts : List (List JsonChar)) : List ResponseEvent :=
  .other (noResults (.ofString "youChatSerpResults") (by decide) (by decide)) ::
    .other (noResults (.ofString "thirdPartySearchResults") (by decide)
      (by decide)) ::
    ts.map .token

theorem carries_responseOf (t : List JsonChar) (ts : List (List JsonChar)) :
    CarriesSearchResults tokenLibraries (responseText (responseOf (t :: ts))) :=
  carries_of_events rfl rfl (isTerminator_noResults _ _ _) (isTerminator_noResults _ _ _)
    (by decide) []

/-- The tokens `a\n` and `n`. -/
theorem readers_agree_newline :
    (complete tokenLibraries (responseText (responseOf
        [[.plain 97 rfl, .escape .newline], [.plain 110 rfl]]))).map
          CompletionResponse.formattedText =
      .ok (completeAsyncMessages tokenLibraries (responseText (responseOf
        [[.plain 97 rfl, .escape .newline], [.plain 110 rfl]]))).next.flatten :=
  (readers_agree_iff tokenLibraries
    (responseOf [[.plain 97 rfl, .escape .newline], [.plain 110 rfl]]) (by decide)
    (fun t _ => readValue_tokenData t) (carries_responseOf _ _)).mpr
    { nonempty := by decide
      matched := by decide
      uncut := by decide
      replaced := by decide
      apart := by decide }

/-- A tab is shown as the backslash and the `t` that it is written with. -/
theorem tab_shown_as_written :
    (complete tokenLibraries (responseText (responseOf [[.escape .tab]]))).map
        CompletionResponse.formattedText = .ok [92, 116] ∧
      (completeAsyncMessages tokenLibraries
        (responseText (responseOf [[.escape .tab]]))).next.flatten = [9] ∧
      (complete tokenLibraries (responseText (responseOf [[.escape .tab]]))).map
          CompletionResponse.formattedText ≠
        .ok (completeAsyncMessages tokenLibraries
          (responseText (responseOf [[.escape .tab]]))).next.flatten := by
  have hcomplete : (complete tokenLibraries (responseText (responseOf [[.escape .tab]]))).map
      CompletionResponse.formattedText = .ok [92, 116] := by
    rw [complete_responseText (carries_responseOf _ _)]
    rfl
  have hstream : (completeAsyncMessages tokenLibraries
      (responseText (responseOf [[.escape .tab]]))).next.flatten = [9] := by decide
  refine ⟨hcomplete, hstream, ?_⟩
  rw [hcomplete, hstream]
  exact fun h => absurd (Except.ok.inj h) (by decide)

end Reloadium.Chat
