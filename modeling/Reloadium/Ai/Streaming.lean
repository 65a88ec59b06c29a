import Mathlib.Data.List.Induction
import Reloadium.Ai.Message

namespace Reloadium.Ai

open Reloadium.Lib

/-!
# Ai — streaming against setting the whole text

`AiMessage.append` parses the whole text again and refills the parts by index; an index
keeps the part, and so the kind, it was given first.

* `refill`, `kept` — a pass over the parts as a list: existing parts are refilled without
  a look at the node's length, new ones are made for the nodes that are long enough;
* `visit_eq_refill` — the message's maps do just that;
* `refill_eq_kept_iff` — the pass yields the parts of a fresh message exactly when the
  parts it found fit the text's nodes (`Fits`);
* `chunkingIndependent_iff` — hence a streamed answer is the one set at once exactly when
  the kinds laid out by the earlier prefixes fit the nodes of the full text.
-/

/-- The kind and the content of a part. -/
abbrev View := MessagePartType × JString

/-! ### A pass over the parts as a list -/

/-- The parts that the nodes give from scratch: a short node has none, except the very
    first node. -/
def kept : Bool → List Leaf → List View
  | _, [] => []
  | first, n :: rest =>
    -- a short node leaves the next one on the same index
    if ¬ first ∧ n.isShort then kept first rest else (n.type, n.content) :: kept false rest

/-- The parts after the nodes have been visited over the parts `old`; `none` when a fenced
    code block meets a markdown part. -/
def refill : List View → Bool → List Leaf → Option (List View)
  | old, _, [] => some old
  | [], first, n :: rest => some (kept first (n :: rest))
  | v :: old, _, n :: rest =>
    if n.type = .CODE ∧ v.1 = .MARKDOWN then none
    else (refill old false rest).map ((v.1, n.content) :: ·)

/-- The message shows the list of parts, under the indices from 0. -/
def Shows (m : Message) (vs : List View) : Prop := ∀ i, m.view i = vs[i]?

theorem shows_fresh : Shows .fresh [] := fun _ => rfl

theorem Shows.parts_none {m : Message} {vs : List View} (h : Shows m vs) :
    m.parts vs.length = none := by
  have hv := h vs.length
  rw [List.getElem?_length] at hv
  exact Option.map_eq_none_iff.mp hv

theorem Shows.parts_some {m : Message} {done old : List View} {v : View}
    (h : Shows m (done ++ v :: old)) :
    ∃ part, m.parts done.length = some part ∧ (part.type, part.content) = v := by
  have hv := h done.length
  rw [List.getElem?_append_right (Nat.le_refl _), Nat.sub_self] at hv
  exact Option.map_eq_some_iff.mp hv

/-- Storing a part changes what is shown at its index. -/
theorem view_put {m m' : Message} {k : Nat} {part : MessagePart}
    (hm' : m'.parts = m.parts.put k part) (i : Nat) :
    m'.view i = if i = k then some (part.type, part.content) else m.view i := by
  rw [Message.view, hm', PMap.put_apply]
  split <;> rfl

/-- Storing a part at the index of a part replaces that part. -/
theorem Shows.put {m m' : Message} {done old : List View} {v : View} (part : MessagePart)
    (h : Shows m (done ++ v :: old)) (hm' : m'.parts = m.parts.put done.length part) :
    Shows m' (done ++ (part.type, part.content) :: old) := by
  intro i
  rw [view_put hm', h i]
  split
  case isTrue hi => simp [hi]
  case isFalse hi =>
    -- another index: the two lists agree before and after the replaced part
    rcases Nat.lt_or_gt_of_ne hi with hlt | hgt
    · rw [List.getElem?_append_left hlt, List.getElem?_append_left hlt]
    · obtain ⟨k, hk⟩ : ∃ k, i - done.length = k + 1 := ⟨i - done.length - 1, by omega⟩
      rw [List.getElem?_append_right (Nat.le_of_lt hgt),
        List.getElem?_append_right (Nat.le_of_lt hgt), hk,
        List.getElem?_cons_succ, List.getElem?_cons_succ]

/-- Storing a part at the next index appends it. -/
theorem Shows.put_end {m m' : Message} {done : List View} (part : MessagePart)
    (h : Shows m done) (hm' : m'.parts = m.parts.put done.length part) :
    Shows m' (done ++ [(part.type, part.content)]) := by
  intro i
  rw [view_put hm', h i]
  split
  case isTrue hi => simp [hi]
  case isFalse hi =>
    -- another index: the old list, or nothing on either side
    rcases Nat.lt_or_gt_of_ne hi with hlt | hgt
    · rw [List.getElem?_append_left hlt]
    · rw [List.getElem?_eq_none (by omega), List.getElem?_eq_none (by simp; omega)]

/-- The visitor with a part at its index. -/
theorem handle_of_part {m : Message} {done old : List View} {v : View} (n : Leaf)
    (h : Shows m (done ++ v :: old)) :
    if n.type = .CODE ∧ v.1 = .MARKDOWN then ∃ e, m.handle done.length n = .error e
    else ∃ m', m.handle done.length n = .ok (m', done.length + 1) ∧
      m'.rawContent = m.rawContent ∧ Shows m' (done ++ (v.1, n.content) :: old) := by
  obtain ⟨part, hpart, rfl⟩ := h.parts_some
  simp only [Message.handle, Message.getOrCreatePart, hpart]
  split
  case isTrue => exact ⟨_, rfl⟩
  case isFalse =>
    refine ⟨_, rfl, rfl, h.put { part with content := n.content } ?_⟩
    exact Function.update_idem ..

/-- The visitor beyond the parts: a short node is passed over, unless it is the first. -/
theorem handle_of_end {m : Message} {done : List View} (n : Leaf) (h : Shows m done) :
    if done ≠ [] ∧ n.isShort then m.handle done.length n = .ok (m, done.length)
    else ∃ m', m.handle done.length n = .ok (m', done.length + 1) ∧
      m'.rawContent = m.rawContent ∧ Shows m' (done ++ [(n.type, n.content)]) := by
  have hlen : done.length ≠ 0 ↔ done ≠ [] := not_congr List.length_eq_zero_iff
  simp only [Message.handle, Message.getOrCreatePart, h.parts_none, hlen]
  split
  case isTrue => rfl
  case isFalse =>
    -- a new part is made for its node, so that the cast succeeds
    have hclash : ¬ (n.type = .CODE ∧ n.type = .MARKDOWN) := by
      rintro ⟨hc, hm⟩
      rw [hc] at hm
      cases hm
    simp only [hclash, if_false]
    refine ⟨_, rfl, rfl, h.put_end ⟨m.created, n.type, n.language, n.content⟩ ?_⟩
    exact Function.update_idem ..

/-- Beyond the parts, the visit makes the parts that the nodes give from scratch. -/
theorem visit_of_end {m : Message} {done : List View} {first : Bool} (ns : List Leaf)
    (h : Shows m done) (hfirst : first = true ↔ done = []) :
    ∃ m', m.visit done.length ns = .ok m' ∧ m'.rawContent = m.rawContent ∧
      Shows m' (done ++ kept first ns) := by
  -- over the nodes; `done` grows by the part that was just made
  induction ns generalizing m done first with
  | nil => exact ⟨m, rfl, rfl, by simpa [kept] using h⟩
  | cons n rest ih =>
    have hn := handle_of_end n h
    simp only [Message.visit, kept, hfirst]
    by_cases hskip : done ≠ [] ∧ n.isShort
    · rw [if_pos hskip] at hn
      simp only [hn, if_pos hskip]
      exact ih h hfirst
    · rw [if_neg hskip] at hn
      simp only [if_neg hskip]
      obtain ⟨m', hm', hraw, hshows⟩ := hn
      have hlater : false = true ↔ done ++ [(n.type, n.content)] = [] := by simp
      obtain ⟨m'', hm'', hraw', hshows'⟩ := ih hshows hlater
      refine ⟨m'', ?_, hraw'.trans hraw, by simpa using hshows'⟩
      simpa [hm'] using hm''

/-- **The visit refills the parts**: it throws exactly when the pass over the list of parts
    does, and else shows the list that the pass yields. -/
theorem visit_eq_refill {m : Message} {done old : List View} {first : Bool} (ns : List Leaf)
    (h : Shows m (done ++ old)) (hfirst : first = true ↔ done = []) :
    match refill old first ns with
    | none => ∃ e, m.visit done.length ns = .error e
    | some vs => ∃ m', m.visit done.length ns = .ok m' ∧ m'.rawContent = m.rawContent ∧
        Shows m' (done ++ vs) := by
  -- over the nodes and the parts in step, until either runs out
  induction ns generalizing m done old first with
  | nil =>
    rw [refill]
    exact ⟨m, rfl, rfl, h⟩
  | cons n rest ih =>
    cases old with
    | nil => exact visit_of_end (n :: rest) (by simpa using h) hfirst
    | cons v old =>
      have hn := handle_of_part n h
      rw [refill]
      by_cases hclash : n.type = .CODE ∧ v.1 = .MARKDOWN
      · rw [if_pos hclash] at hn ⊢
        obtain ⟨e, he⟩ := hn
        exact ⟨e, by simp only [Message.visit, he]⟩
      · rw [if_neg hclash] at hn ⊢
        obtain ⟨m', hm', hraw, hshows⟩ := hn
        -- the rest of the visit starts with this part done
        have hlater : false = true ↔ done ++ [(v.1, n.content)] = [] := by simp
        have hdone : Shows m' (done ++ [(v.1, n.content)] ++ old) := by simpa using hshows
        have hrest := ih hdone hlater
        rw [List.length_append, List.length_singleton] at hrest
        simp only [Message.visit, hm']
        cases hr : refill old false rest with
        | none => simpa only [hr, Option.map_none] using hrest
        | some vs =>
          simp only [hr] at hrest
          obtain ⟨m'', hm'', hraw', hshows'⟩ := hrest
          exact ⟨m'', hm'', hraw'.trans hraw, by simpa using hshows'⟩

/-! ### When a pass yields the parts of a fresh message -/

/-- The parts' kinds `ks` fit the nodes: each part has a node of its kind, and of these
    only the very first may be short. -/
def Fits : List MessagePartType → Bool → List Leaf → Prop
  | [], _, _ => True
  | _ :: _, _, [] => False
  | k :: ks, first, n :: rest => n.type = k ∧ (first ∨ ¬ n.isShort) ∧ Fits ks false rest

/-- A pass never yields fewer parts than the nodes give from scratch. -/
theorem length_kept_le {old vs : List View} {ns : List Leaf}
    (h : refill old false ns = some vs) : (kept false ns).length ≤ vs.length := by
  induction ns generalizing old vs with
  | nil => simp [kept]
  | cons n rest ih =>
    cases old with
    | nil =>
      rw [refill, Option.some.injEq] at h
      exact Nat.le_of_eq (congrArg List.length h)
    | cons v old =>
      rw [refill] at h
      split at h
      case isTrue => cases h
      case isFalse =>
        obtain ⟨vs', hvs', rfl⟩ := Option.map_eq_some_iff.mp h
        have hle := ih hvs'
        rw [kept]
        split <;> simp only [List.length_cons] <;> omega

/-- **A pass yields the parts of a fresh message exactly when the kinds it found fit.** -/
theorem refill_eq_kept_iff (old : List View) (first : Bool) (ns : List Leaf) :
    refill old first ns = some (kept first ns) ↔ Fits (old.map Prod.fst) first ns := by
  -- over the parts found; beyond them both sides are `kept`
  induction old generalizing first ns with
  | nil => cases ns <;> simp [refill, kept, Fits]
  | cons v old ih =>
    cases ns with
    | nil => simp [refill, kept, Fits]
    | cons n rest =>
      rw [refill, List.map_cons, Fits, ← ih false rest]
      constructor
      · intro h
        split at h
        case isTrue => cases h
        case isFalse =>
          obtain ⟨vs, hvs, hcons⟩ := Option.map_eq_some_iff.mp h
          rw [kept] at hcons
          split at hcons
          case isTrue hskip =>
            -- the node would be passed over from scratch, so there is a part too many
            have hle := length_kept_le hvs
            have hlen := congrArg List.length hcons
            simp only [hskip.1, List.length_cons] at hlen
            omega
          case isFalse hlong =>
            rw [List.cons.injEq, Prod.mk.injEq] at hcons
            refine ⟨hcons.1.1.symm, ?_, hcons.2 ▸ hvs⟩
            by_cases hf : first
            · exact .inl hf
            · exact .inr fun hs => hlong ⟨hf, hs⟩
      · rintro ⟨htype, hlong, hrest⟩
        have hclash : ¬ (n.type = .CODE ∧ v.1 = .MARKDOWN) := by
          rintro ⟨hc, hm⟩
          rw [← htype, hc] at hm
          cases hm
        -- a node of the part's own kind does not clash, and a long one is kept
        rw [if_neg hclash, hrest, kept, if_neg, htype, Option.map_some]
        rintro ⟨hf, hs⟩
        exact hlong.elim hf (· hs)

/-! ### Chunk after chunk -/

/-- The kinds of the parts after a pass over parts of the kinds `ks`. -/
def layout : List MessagePartType → Bool → List Leaf → Option (List MessagePartType)
  | ks, _, [] => some ks
  | [], first, n :: rest => some ((kept first (n :: rest)).map Prod.fst)
  | k :: ks, _, n :: rest =>
    if n.type = .CODE ∧ k = .MARKDOWN then none else (layout ks false rest).map (k :: ·)

/-- The kinds that the prefixes `text ++ chunk₁`, `text ++ chunk₁ ++ chunk₂`, … lay out,
    one after the other, over parts of the kinds `ks`; `none` when at one of them a fenced
    code block falls on a markdown part. -/
def layoutAll (parser : Parser) (ks : List MessagePartType) (text : JString) :
    List JString → Option (List MessagePartType)
  | [] => some ks
  | chunk :: rest =>
    (layout ks true (parser.leaves (text ++ chunk))).bind fun ks' =>
      layoutAll parser ks' (text ++ chunk) rest

/-- The parts that the same passes leave. -/
def refillAll (parser : Parser) (vs : List View) (text : JString) :
    List JString → Option (List View)
  | [] => some vs
  | chunk :: rest =>
    (refill vs true (parser.leaves (text ++ chunk))).bind fun vs' =>
      refillAll parser vs' (text ++ chunk) rest

theorem refill_kinds (old : List View) (first : Bool) (ns : List Leaf) :
    (refill old first ns).map (·.map Prod.fst) = layout (old.map Prod.fst) first ns := by
  induction ns generalizing old first with
  | nil => simp [refill, layout]
  | cons n rest ih =>
    cases old with
    | nil => rfl
    | cons v old =>
      rw [refill, List.map_cons, layout, ← ih old false]
      split
      case isTrue => rfl
      case isFalse =>
        rw [Option.map_map, Option.map_map]
        rfl

theorem refillAll_kinds (parser : Parser) (vs : List View) (text : JString)
    (chunks : List JString) :
    (refillAll parser vs text chunks).map (·.map Prod.fst) =
      layoutAll parser (vs.map Prod.fst) text chunks := by
  induction chunks generalizing vs text with
  | nil => rfl
  | cons chunk rest ih =>
    rw [refillAll, layoutAll, ← refill_kinds, Option.map_bind, Option.bind_map]
    exact Option.bind_congr fun vs' _ => ih vs' (text ++ chunk)

theorem refillAll_concat (parser : Parser) (vs : List View) (text chunk : JString)
    (chunks : List JString) :
    refillAll parser vs text (chunks ++ [chunk]) =
      (refillAll parser vs text chunks).bind fun vs' =>
        refill vs' true (parser.leaves (text ++ (chunks ++ [chunk]).flatten)) := by
  induction chunks generalizing vs text with
  | nil => simp [refillAll]
  | cons c rest ih =>
    simp only [List.cons_append, refillAll, ih, Option.bind_assoc, List.flatten_cons,
      List.append_assoc]

theorem setRawContent_eq_refill (parser : Parser) {m : Message} {vs : List View}
    (text : JString) (h : Shows m vs) :
    match refill vs true (parser.leaves text) with
    | none => ∃ e, m.setRawContent parser text = .error e
    | some vs' => ∃ m', m.setRawContent parser text = .ok m' ∧ m'.rawContent = text ∧
        Shows m' vs' :=
  @visit_eq_refill { m with rawContent := text } [] vs true _ h (by simp)

/-- Streaming makes the passes over the growing prefixes. -/
theorem appendAll_eq_refillAll (parser : Parser) {m : Message} {vs : List View}
    (chunks : List JString) (h : Shows m vs) :
    match refillAll parser vs m.rawContent chunks with
    | none => ∃ e, m.appendAll parser chunks = .error e
    | some vs' => ∃ m', m.appendAll parser chunks = .ok m' ∧ Shows m' vs' := by
  induction chunks generalizing m vs with
  | nil => exact ⟨m, rfl, h⟩
  | cons chunk rest ih =>
    have hset := setRawContent_eq_refill parser (m.rawContent ++ chunk) h
    simp only [refillAll, Message.appendAll, Message.append]
    cases hr : refill vs true (parser.leaves (m.rawContent ++ chunk)) with
    | none =>
      simp only [hr] at hset
      obtain ⟨e, he⟩ := hset
      exact ⟨e, by simp only [he]⟩
    | some vs' =>
      simp only [hr] at hset
      obtain ⟨m', hm', hraw, hshows⟩ := hset
      have hrest := ih hshows
      rw [hraw] at hrest
      simpa only [hm', Option.bind_some] using hrest

/-! ### Streaming is setting the text at once -/

/-- No append throws, and in the end the parts are those of the whole text set at once. -/
def ChunkingIndependent (parser : Parser) (chunks : List JString) : Prop :=
  ∃ m m', Message.fresh.appendAll parser chunks = .ok m ∧
    Message.fresh.setRawContent parser chunks.flatten = .ok m' ∧ ∀ i, m.view i = m'.view i

theorem Shows.view_eq_iff {m m' : Message} {vs vs' : List View} (h : Shows m vs)
    (h' : Shows m' vs') : (∀ i, m.view i = m'.view i) ↔ vs = vs' := by
  constructor
  · intro hv
    exact List.ext_getElem? fun i => by rw [← h i, hv i, h' i]
  · rintro rfl i
    rw [h i, h' i]

theorem chunkingIndependent_iff_refillAll (parser : Parser) (chunks : List JString) :
    ChunkingIndependent parser chunks ↔
      refillAll parser [] [] chunks = some (kept true (parser.leaves chunks.flatten)) := by
  have hstream := appendAll_eq_refillAll parser chunks shows_fresh
  have hset := setRawContent_eq_refill parser chunks.flatten shows_fresh
  rw [(refill_eq_kept_iff [] true _).mpr trivial] at hset
  obtain ⟨m', hm', -, hshows'⟩ := hset
  -- a fresh message has no text and no parts
  change (match refillAll parser [] [] chunks with | none => _ | some vs' => _) at hstream
  cases hr : refillAll parser [] [] chunks with
  | none =>
    simp only [hr] at hstream
    obtain ⟨e, he⟩ := hstream
    constructor
    · rintro ⟨m, _, hm, -⟩
      rw [he] at hm
      cases hm
    · rintro ⟨⟩
  | some vs =>
    simp only [hr] at hstream
    obtain ⟨m, hm, hshows⟩ := hstream
    rw [Option.some.injEq, ← hshows.view_eq_iff hshows']
    constructor
    · rintro ⟨a, b, ha, hb, hv⟩
      rw [hm, Except.ok.injEq] at ha
      rw [hm', Except.ok.injEq] at hb
      exact ha ▸ hb ▸ hv
    · exact fun hv => ⟨m, m', hm, hm', hv⟩

/-- **Streaming against setting at once.**  A streamed answer is the one set at once
    exactly when the kinds laid out by all prefixes but the last (first come, first kept,
    and never a fenced code block on a markdown part) fit the nodes of the full text: there
    is a node for every part, of the part's kind and, except for the first, not short. -/
theorem chunkingIndependent_iff (parser : Parser) (chunks : List JString) :
    ChunkingIndependent parser chunks ↔
      ∃ ks, layoutAll parser [] [] chunks.dropLast = some ks ∧
        Fits ks true (parser.leaves chunks.flatten) := by
  rw [chunkingIndependent_iff_refillAll]
  induction chunks using List.reverseRecOn with
  | nil => simp [refillAll, layoutAll, kept, Fits]
  | append_singleton chunks chunk _ =>
    have hkinds := refillAll_kinds parser [] [] chunks
    rw [List.map_nil] at hkinds
    -- the last pass is over the whole text; all that came before left its kinds only
    rw [refillAll_concat, List.dropLast_concat, Option.bind_eq_some_iff, List.nil_append,
      ← hkinds]
    constructor
    · rintro ⟨vs, hvs, hfill⟩
      exact ⟨vs.map Prod.fst, by rw [hvs, Option.map_some],
        (refill_eq_kept_iff vs true _).mp hfill⟩
    · rintro ⟨ks, hks, hfits⟩
      obtain ⟨vs, hvs, rfl⟩ := Option.map_eq_some_iff.mp hks
      exact ⟨vs, hvs, (refill_eq_kept_iff vs true _).mpr hfits⟩

/-! ### A fence that arrives in two chunks -/

/-- What CommonMark says of two backticks and of the fenced block they may grow into. -/
structure Parser.CommonMark (parser : Parser) : Prop where
  two_backticks : parser.parse (.ofString "``") = [.paragraph (.ofString "``")]
  fence : parser.parse (.ofString "```\nfoo\n```") =
    [.fencedCodeBlock (.ofString "```\nfoo\n```") [] (.ofString "foo\n")]

/-- The parse of texts that are one fenced code block or one paragraph. -/
def oneBlockParser : Parser where
  parse text :=
    if text = [] then []
    else if text.take 3 = JString.ofString "```" then
      let lines := text.splitOn 0x0A
      let body := lines.tail.takeWhile (· ≠ JString.ofString "```")
      [.fencedCodeBlock text (lines.headD [] |>.drop 3) (body.flatMap (· ++ [0x0A]))]
    else [.paragraph text]
  parse_nil := rfl

theorem oneBlockParser_commonMark : oneBlockParser.CommonMark where
  two_backticks := by rfl
  fence := by rfl

/-- Under every such parser the second chunk throws: the fenced block falls on the part
    that was made for the two backticks. -/
theorem two_chunk_fence_throws {parser : Parser} (h : parser.CommonMark) :
    refillAll parser [] [] [.ofString "``", .ofString "`\nfoo\n```"] = none := by
  have hcut : JString.ofString "``" ++ .ofString "`\nfoo\n```" = .ofString "```\nfoo\n```" := by
    decide
  simp [refillAll, Parser.leaves, hcut, h.two_backticks, h.fence, combineParagraphs,
    combineSiblings, combineChildren, visitNodes, visitNode, refill, kept, Leaf.type]

theorem split_fence_throws :
    oneBlockParser.CommonMark ∧ ∀ parser : Parser, parser.CommonMark →
      ¬ ChunkingIndependent parser [.ofString "``", .ofString "`\nfoo\n```"] := by
  refine ⟨oneBlockParser_commonMark, fun parser h hind => ?_⟩
  rw [chunkingIndependent_iff_refillAll, two_chunk_fence_throws h] at hind
  cases hind

end Reloadium.Ai
