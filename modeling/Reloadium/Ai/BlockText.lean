import Reloadium.Ai.Streaming
import Reloadium.Lib.Spaced

namespace Reloadium.Ai

open Reloadium.Lib

/-!
# Ai — the text of a document in the parts of a message

A fresh message is given the text of its paragraphs and of its fenced code blocks.  A
paragraph takes in the blocks behind it, up to the next fenced code block, and that is the
only way the text of any other block gets into a part; and a paragraph of fewer than five
units is dropped, unless it makes the first part.

* `PrintsBlocks` — the parts print every top-level block's text once and in order, with
  line breaks only around them;
* `Keeps` — a scan of the blocks that looks for the two ways to lose text;
* `Parsed` — what the parser guarantees of the blocks: a block contains its children, and
  one that is neither a paragraph nor fenced code has a marker of its own;
* `printsBlocks_iff` — the text of a parsed document is printed exactly when the scan finds
  nothing.
-/

/-- A line break, the only thing that is put between blocks. -/
def isBreak (u : UInt16) : Bool := u == 0x0A

/-- The number of units that are no line breaks. -/
abbrev letters (s : JString) : Nat := weight isBreak s

/-- The text of a block: the code of a fenced code block, and all of any other block. -/
def Node.text : Node → JString
  | paragraph chars => chars
  | fencedCodeBlock _ _ childChars => childChars
  | other _ chars _ => chars

/-- The contents of the parts that a fresh message makes for the nodes, in index order. -/
def printed (first : Bool) (leaves : List Leaf) : JString :=
  ((kept first leaves).map Prod.snd).flatten

/-- Setting the text of a fresh message makes parts, listed by their index, whose contents
    are the texts of the top-level blocks, each once and in order, with line breaks only
    around them. -/
def PrintsBlocks (parser : Parser) (text : JString) : Prop :=
  ∃ m vs, Message.fresh.setRawContent parser text = .ok m ∧ Shows m vs ∧
    Spaced isBreak ((parser.parse text).map Node.text) (vs.map Prod.snd).flatten

/-- No text is lost: every block that is neither a paragraph nor fenced code stands behind
    a paragraph, with nothing but such blocks and paragraphs between them, and a paragraph
    with the blocks behind it has at least five units, unless no other part comes before
    it.  `first` says whether none does, and `some text` is the paragraph so far. -/
def Keeps : Bool → Option JString → List Node → Prop
  | _, none, [] => True
  | first, some text, [] => first ∨ 5 ≤ text.length
  | first, none, .paragraph chars :: rest => Keeps first (some chars) rest
  | _, none, .fencedCodeBlock .. :: rest => Keeps false none rest
  | _, none, .other .. :: _ => False
  | first, some text, .paragraph chars :: rest =>
    Keeps first (some (combineText text chars)) rest
  | first, some text, .fencedCodeBlock .. :: rest =>
    (first ∨ 5 ≤ text.length) ∧ Keeps false none rest
  -- a node that is no block, such as a link reference definition, is not taken in
  | first, some text, .other isBlock chars _ :: rest =>
    isBlock ∧ Keeps first (some (combineText text chars)) rest

/-! ### What the parser guarantees -/

/-- The parts of the source a node's children stand for lie within its own, and do not
    overlap. -/
inductive Nested : Node → Prop
  | paragraph (chars : JString) : Nested (.paragraph chars)
  | fencedCodeBlock (chars info childChars : JString) (h : letters childChars ≤ letters chars) :
      Nested (.fencedCodeBlock chars info childChars)
  | other (isBlock : Bool) (chars : JString) (children : List Node)
      (hchildren : ∀ c ∈ children, Nested c)
      (hsum : (children.map fun c => letters c.chars).sum ≤ letters chars) :
      Nested (.other isBlock chars children)

/-- The node has text outside its children (the marker of a heading, a quote or an item, a
    rule, the text of HTML or of indented code), or it is a list of such nodes. -/
inductive Marked : Node → Prop
  | own (isBlock : Bool) (chars : JString) (children : List Node)
      (h : (children.map fun c => letters c.chars).sum < letters chars) :
      Marked (.other isBlock chars children)
  | items (isBlock : Bool) (chars : JString) (children : List Node) (hne : children ≠ [])
      (h : ∀ c ∈ children, Marked c) : Marked (.other isBlock chars children)

/-- A top-level block as the parser makes it.  A paragraph is not blank, and fenced code
    that is not empty stands between a fence of three units and a line break, and after
    it. -/
def ParsedBlock : Node → Prop
  | .paragraph chars => 0 < letters chars
  | .fencedCodeBlock chars _ childChars => childChars = [] ∨ 5 ≤ chars.length
  | .other isBlock chars children =>
    Nested (.other isBlock chars children) ∧ Marked (.other isBlock chars children)

/-- The blocks are those of a parsed document. -/
def Parsed (blocks : List Node) : Prop := ∀ b ∈ blocks, ParsedBlock b

/-! ### Letters -/

/-- The letters in the leaves. -/
def leafLetters (leaves : List Leaf) : Nat := (leaves.map fun l => letters l.content).sum

@[simp] theorem leafLetters_nil : leafLetters [] = 0 := rfl

@[simp] theorem leafLetters_cons (l : Leaf) (rest : List Leaf) :
    leafLetters (l :: rest) = letters l.content + leafLetters rest := rfl

@[simp] theorem leafLetters_append (xs ys : List Leaf) :
    leafLetters (xs ++ ys) = leafLetters xs + leafLetters ys := by
  simp [leafLetters, List.sum_append]

theorem letters_append (s t : JString) : letters (s ++ t) = letters s + letters t :=
  weight_append s t

/-- Taking a block in adds line breaks only. -/
theorem combineText_eq (text next : JString) :
    ∃ gap, (∀ u ∈ gap, isBreak u) ∧ combineText text next = text ++ gap ++ next := by
  have hbreaks : JString.ofString "\n\n" = [0x0A, 0x0A] := by decide
  have hbreak : JString.ofString "\n" = [0x0A] := by decide
  rw [combineText, hbreaks, hbreak, JString.removeSuffix]
  split
  case isTrue h =>
    -- the break that is cut off comes back
    obtain ⟨front, rfl⟩ := h
    exact ⟨[0x0A], by simp [isBreak], by simp⟩
  case isFalse => exact ⟨[0x0A, 0x0A], by simp [isBreak], rfl⟩

theorem letters_combineText (text next : JString) :
    letters (combineText text next) = letters text + letters next := by
  obtain ⟨gap, hgap, heq⟩ := combineText_eq text next
  have hzero : letters gap = 0 := weight_gap hgap
  rw [heq, letters_append, letters_append, hzero, Nat.add_zero]

/-- The letters of the paragraph so far. -/
def openLetters : Option JString → Nat
  | none => 0
  | some text => letters text

/-- The letters of the blocks. -/
def blockLetters (blocks : List Node) : Nat := (blocks.map fun b => letters b.text).sum

@[simp] theorem blockLetters_cons (b : Node) (rest : List Node) :
    blockLetters (b :: rest) = letters b.text + blockLetters rest := rfl

/-- The leaves of combined siblings have no more letters than the siblings, if that is so
    for each of them on its own. -/
theorem leafLetters_combineSiblings {blocks : List Node} (current : Option JString)
    (h : ∀ b ∈ blocks, leafLetters (visitNode (combineChildren b)) ≤ letters b.text) :
    leafLetters (visitNodes (combineSiblings current blocks)) ≤
      openLetters current + blockLetters blocks := by
  induction blocks generalizing current with
  | nil =>
    cases current with
    | none => simp [combineSiblings, visitNodes]
    | some text => simp [combineSiblings, visitNodes, visitNode, Leaf.content, openLetters]
  | cons b rest ih =>
    have hrest : ∀ b ∈ rest, leafLetters (visitNode (combineChildren b)) ≤ letters b.text :=
      fun b' hb' => h b' (List.mem_cons_of_mem b hb')
    have hb := h b List.mem_cons_self
    have hnone := ih none hrest
    rw [blockLetters_cons]
    cases current with
    | none =>
      cases b with
      | paragraph chars =>
        have hsome := ih (some chars) hrest
        simp only [combineSiblings, openLetters, Node.text] at hsome ⊢
        omega
      | fencedCodeBlock | other =>
        simp only [combineSiblings, visitNodes, leafLetters_append, openLetters] at hnone ⊢
        omega
    | some text =>
      have hsome := ih (some (combineText text b.chars)) hrest
      simp only [openLetters, letters_combineText] at hnone hsome ⊢
      rw [combineSiblings]
      split
      case isTrue hcombined =>
        -- the text of a block that is taken in is all of it
        have htext : b.text = b.chars := by
          cases b with
          | fencedCodeBlock => simp [Node.isCombined] at hcombined
          | paragraph | other => rfl
        rw [htext]
        omega
      case isFalse =>
        simp only [visitNodes, visitNode, leafLetters_append, leafLetters_cons,
          leafLetters_nil, Leaf.content]
        omega

/-- The children of a nested node have no more letters than their parts of the source. -/
theorem blockLetters_le {children : List Node} (h : ∀ c ∈ children, Nested c) :
    blockLetters children ≤ (children.map fun c => letters c.chars).sum := by
  induction children with
  | nil => simp [blockLetters]
  | cons c rest ih =>
    have hc : letters c.text ≤ letters c.chars := by
      cases h c List.mem_cons_self with
      | paragraph => exact Nat.le_refl _
      | fencedCodeBlock chars info childChars hle => exact hle
      | other => exact Nat.le_refl _
    have hrest := ih fun c' hc' => h c' (List.mem_cons_of_mem c hc')
    rw [blockLetters_cons, List.map_cons, List.sum_cons]
    omega

/-- The leaves of a nested node have no more letters than its text. -/
theorem leafLetters_le {b : Node} (h : Nested b) :
    leafLetters (visitNode (combineChildren b)) ≤ letters b.text := by
  induction h with
  | paragraph chars => simp [combineChildren, visitNode, Leaf.content, Node.text]
  | fencedCodeBlock chars info childChars h =>
    simp [combineChildren, visitNode, Leaf.content, Node.text]
  | other isBlock chars children hchildren hsum ih =>
    rw [combineChildren, visitNode]
    have hle := leafLetters_combineSiblings none ih
    have hblocks := blockLetters_le hchildren
    simp only [openLetters, Node.text] at hle ⊢
    omega

theorem combineSiblings_other (isBlock : Bool) (chars : JString) (children rest : List Node) :
    combineSiblings none (.other isBlock chars children :: rest) =
      combineChildren (.other isBlock chars children) :: combineSiblings none rest := by
  simp [combineSiblings]

/-- Items are no paragraphs, so each is combined on its own; if each of them loses letters,
    so do they together. -/
theorem leafLetters_items {items : List Node} (hne : items ≠ [])
    (hmarked : ∀ c ∈ items, Marked c)
    (hlt : ∀ c ∈ items, leafLetters (visitNode (combineChildren c)) < letters c.text) :
    leafLetters (visitNodes (combineSiblings none items)) <
      (items.map fun c => letters c.chars).sum := by
  induction items with
  | nil => exact absurd rfl hne
  | cons c rest ih =>
    have hc := hlt c List.mem_cons_self
    obtain ⟨isBlock, chars, children, rfl⟩ : ∃ i s cs, c = .other i s cs := by
      cases hmarked c List.mem_cons_self <;> exact ⟨_, _, _, rfl⟩
    have htext : (Node.other isBlock chars children).text =
      (Node.other isBlock chars children).chars := rfl
    rw [htext] at hc
    rw [List.map_cons, List.sum_cons, combineSiblings_other, visitNodes, leafLetters_append]
    by_cases hrest : rest = []
    · subst hrest
      simp only [combineSiblings, visitNodes, leafLetters_nil, List.map_nil, List.sum_nil]
      omega
    · have hlt' := ih hrest (fun c' hc' => hmarked c' (List.mem_cons_of_mem _ hc'))
        fun c' hc' => hlt c' (List.mem_cons_of_mem _ hc')
      omega

/-- The leaves of a marked node have fewer letters than its text. -/
theorem leafLetters_lt {b : Node} (hmarked : Marked b) (hnested : Nested b) :
    leafLetters (visitNode (combineChildren b)) < letters b.text := by
  induction hmarked with
  | own isBlock chars children h =>
    obtain _ | _ | ⟨_, _, _, hchildren, _⟩ := hnested
    have hle := leafLetters_combineSiblings none fun c hc => leafLetters_le (hchildren c hc)
    have hblocks := blockLetters_le hchildren
    rw [combineChildren, visitNode]
    simp only [openLetters, Node.text] at hle ⊢
    omega
  | items isBlock chars children hne hitems ih =>
    obtain _ | _ | ⟨_, _, _, hchildren, hsum⟩ := hnested
    rw [combineChildren, visitNode]
    exact Nat.lt_of_lt_of_le
      (leafLetters_items hne hitems fun c hc => ih c hc (hchildren c hc)) hsum

/-- No block's leaves have more letters than the block. -/
theorem leafLetters_le_of_parsed {blocks : List Node} (h : Parsed blocks) :
    ∀ b ∈ blocks, leafLetters (visitNode (combineChildren b)) ≤ letters b.text := by
  intro b hb
  have hparsed := h b hb
  cases b with
  | paragraph | fencedCodeBlock => simp [combineChildren, visitNode, Leaf.content, Node.text]
  | other => exact leafLetters_le hparsed.1

/-! ### What the parts print -/

theorem printed_cons (first : Bool) (l : Leaf) (rest : List Leaf) :
    printed first (l :: rest) =
      if ¬ first ∧ l.isShort then printed first rest else l.content ++ printed false rest := by
  rw [printed, kept]
  split <;> rfl

/-- A leaf that comes after another one may be dropped, and no later leaf is the first. -/
theorem printed_append (first : Bool) (xs ys : List Leaf) :
    printed first (xs ++ ys) = printed first xs ++ printed (first && xs.isEmpty) ys := by
  induction xs generalizing first with
  | nil => simp [printed, kept]
  | cons l rest ih =>
    rw [List.cons_append, printed_cons, printed_cons, List.isEmpty_cons, Bool.and_false]
    split
    case isTrue h =>
      have hfirst : first = false := by simpa using h.1
      rw [ih, hfirst, Bool.false_and]
    case isFalse => rw [ih, Bool.false_and, List.append_assoc]

/-- Parts have no more letters than the leaves. -/
theorem letters_printed_le (first : Bool) (leaves : List Leaf) :
    letters (printed first leaves) ≤ leafLetters leaves := by
  induction leaves generalizing first with
  | nil => simp [printed, kept]
  | cons l rest ih =>
    rw [printed_cons, leafLetters_cons]
    split
    case isTrue =>
      have hrest := ih first
      omega
    case isFalse =>
      have hrest := ih false
      rw [letters_append]
      omega

theorem isShort_iff (l : Leaf) : l.isShort = true ↔ ¬ 5 ≤ l.chars.length := by
  rw [Leaf.isShort, decide_eq_true_eq]
  omega

/-- A short fenced block that is dropped had no text. -/
theorem printed_fencedCodeBlock {chars info childChars : JString}
    (h : ParsedBlock (.fencedCodeBlock chars info childChars)) (first : Bool)
    (rest : List Leaf) :
    printed first (.fencedCodeBlock chars info childChars :: rest) =
      childChars ++ printed false rest := by
  rw [printed_cons]
  split
  case isTrue hdropped =>
    have hfirst : first = false := by simpa using hdropped.1
    have hempty := h.resolve_right ((isShort_iff _).mp hdropped.2)
    rw [hempty, hfirst, List.nil_append]
  case isFalse => rfl

/-- A paragraph is printed when it is the first leaf or long enough. -/
theorem printed_paragraph {first : Bool} {text : JString} (h : first ∨ 5 ≤ text.length)
    (rest : List Leaf) :
    printed first (.paragraph text :: rest) = text ++ printed false rest := by
  rw [printed_cons, if_neg]
  · rfl
  · rintro ⟨hfirst, hshort⟩
    exact h.elim hfirst ((isShort_iff _).mp hshort)

/-- Any other paragraph is dropped. -/
theorem printed_short_paragraph {first : Bool} {text : JString}
    (h : ¬ (first ∨ 5 ≤ text.length)) (rest : List Leaf) :
    printed first (.paragraph text :: rest) = printed first rest := by
  rw [printed_cons, if_pos]
  rw [not_or] at h
  exact ⟨h.1, (isShort_iff _).mpr h.2⟩

/-- What the parts print of combined blocks. -/
def printedBlocks (first : Bool) (current : Option JString) (blocks : List Node) : JString :=
  printed first (visitNodes (combineSiblings current blocks))

theorem printedBlocks_nil (first : Bool) : printedBlocks first none [] = [] := by
  simp [printedBlocks, combineSiblings, visitNodes, printed, kept]

theorem printedBlocks_end (first : Bool) (text : JString) :
    printedBlocks first (some text) [] = printed first [.paragraph text] := by
  simp [printedBlocks, combineSiblings, visitNodes, visitNode]

/-- A paragraph is opened. -/
theorem printedBlocks_paragraph (first : Bool) (chars : JString) (rest : List Node) :
    printedBlocks first none (.paragraph chars :: rest) =
      printedBlocks first (some chars) rest := by
  simp [printedBlocks, combineSiblings]

/-- A fenced code block is printed. -/
theorem printedBlocks_fencedCodeBlock {chars info childChars : JString}
    (h : ParsedBlock (.fencedCodeBlock chars info childChars)) (first : Bool)
    (rest : List Node) :
    printedBlocks first none (.fencedCodeBlock chars info childChars :: rest) =
      childChars ++ printedBlocks false none rest := by
  rw [printedBlocks, printedBlocks, ← printed_fencedCodeBlock h first]
  simp [combineSiblings, combineChildren, visitNodes, visitNode]

/-- A block behind a paragraph is taken in. -/
theorem printedBlocks_combined {b : Node} (hb : b.isCombined = true) (first : Bool)
    (text : JString) (rest : List Node) :
    printedBlocks first (some text) (b :: rest) =
      printedBlocks first (some (combineText text b.chars)) rest := by
  rw [printedBlocks, combineSiblings, if_pos hb, printedBlocks]

/-- Any other node closes the paragraph. -/
theorem printedBlocks_closed {b : Node} (hb : b.isCombined = false) (first : Bool)
    (text : JString) (rest : List Node) :
    printedBlocks first (some text) (b :: rest) =
      printed first (.paragraph text :: visitNodes (combineSiblings none (b :: rest))) := by
  have hopen : combineSiblings (some text) (b :: rest) =
      .paragraph text :: combineChildren b :: combineSiblings none rest := by
    rw [combineSiblings, if_neg (by simp [hb])]
  have hnone : combineSiblings none (b :: rest) =
      combineChildren b :: combineSiblings none rest := by
    cases b with
    | paragraph => simp [Node.isCombined] at hb
    | fencedCodeBlock | other => simp [combineSiblings]
  rw [printedBlocks, hopen, hnone, visitNodes, visitNode, List.singleton_append]

theorem letters_printedBlocks_le {blocks : List Node} (h : Parsed blocks) (first : Bool)
    (current : Option JString) :
    letters (printedBlocks first current blocks) ≤ openLetters current + blockLetters blocks :=
  Nat.le_trans (letters_printed_le first _)
    (leafLetters_combineSiblings current (leafLetters_le_of_parsed h))

/-- A block that is visited on its own loses letters. -/
theorem letters_printedBlocks_other {isBlock : Bool} {chars : JString}
    {children rest : List Node} (h : Parsed (.other isBlock chars children :: rest))
    (first : Bool) :
    letters (printedBlocks first none (.other isBlock chars children :: rest)) <
      blockLetters (.other isBlock chars children :: rest) := by
  obtain ⟨hnested, hmarked⟩ := h _ List.mem_cons_self
  have hrest : Parsed rest := fun b hb => h b (List.mem_cons_of_mem _ hb)
  have hlt := leafLetters_lt hmarked hnested
  have hfront := letters_printed_le first
    (visitNode (combineChildren (.other isBlock chars children)))
  have hback := letters_printedBlocks_le hrest
    (first && (visitNode (combineChildren (.other isBlock chars children))).isEmpty) none
  rw [printedBlocks, combineSiblings_other, visitNodes, printed_append, letters_append,
    blockLetters_cons]
  rw [printedBlocks, openLetters] at hback
  omega

/-- A closed paragraph is printed with all its letters, or dropped with all of them. -/
theorem letters_printed_paragraph (first : Bool) (text : JString) (blocks : List Node) :
    ∃ first', letters (printed first
        (.paragraph text :: visitNodes (combineSiblings none blocks))) =
      (if first ∨ 5 ≤ text.length then letters text else 0) +
        letters (printedBlocks first' none blocks) := by
  split
  case isTrue h =>
    exact ⟨false, by rw [printed_paragraph h, letters_append, printedBlocks]⟩
  case isFalse h =>
    exact ⟨first, by rw [printed_short_paragraph h, Nat.zero_add, printedBlocks]⟩

/-! ### The scan is exact -/

/-- **What the scan finds is lost.** -/
theorem letters_lt_of_not_keeps {blocks : List Node} (h : Parsed blocks) {first : Bool}
    {current : Option JString} (hopen : ∀ text, current = some text → 0 < letters text)
    (hkeeps : ¬ Keeps first current blocks) :
    letters (printedBlocks first current blocks) <
      openLetters current + blockLetters blocks := by
  induction blocks generalizing first current with
  | nil =>
    cases current with
    | none => exact absurd trivial hkeeps
    | some text =>
      have hpos := hopen text rfl
      rw [printedBlocks_end, printed_short_paragraph hkeeps]
      simpa [printed, kept, openLetters, blockLetters] using hpos
  | cons b rest ih =>
    have hrest : Parsed rest := fun b' hb' => h b' (List.mem_cons_of_mem b hb')
    have hb := h b List.mem_cons_self
    cases current with
    | none =>
      cases b with
      | paragraph chars =>
        have hlt := ih hrest (fun text heq => by cases heq; exact hb) hkeeps
        rw [printedBlocks_paragraph]
        simp only [openLetters, blockLetters_cons, Node.text] at hlt ⊢
        omega
      | fencedCodeBlock chars info childChars =>
        have hlt := @ih hrest false none (by simp) hkeeps
        rw [printedBlocks_fencedCodeBlock hb, letters_append]
        simp only [openLetters, blockLetters_cons, Node.text] at hlt ⊢
        omega
      | other isBlock chars children =>
        have hlt := letters_printedBlocks_other h first
        rw [openLetters]
        omega
    | some text =>
      have hpos := hopen text rfl
      -- the paragraph that has taken in the block
      have htaken : ∀ chars, b.isCombined = true → b.text = chars → b.chars = chars →
          ¬ Keeps first (some (combineText text chars)) rest →
          letters (printedBlocks first (some text) (b :: rest)) <
            openLetters (some text) + blockLetters (b :: rest) := by
        rintro chars hcombined htext rfl hkeeps'
        have hlt := ih hrest (fun text' heq => by
          cases heq
          rw [letters_combineText]
          omega) hkeeps'
        rw [printedBlocks_combined hcombined, blockLetters_cons, htext]
        simp only [openLetters, letters_combineText] at hlt ⊢
        omega
      cases b with
      | paragraph chars => exact htaken chars rfl rfl rfl hkeeps
      | fencedCodeBlock chars info childChars =>
        obtain ⟨first', hletters⟩ := letters_printed_paragraph first text
          (.fencedCodeBlock chars info childChars :: rest)
        rw [printedBlocks_closed rfl, hletters, printedBlocks_fencedCodeBlock hb,
          letters_append]
        simp only [openLetters, blockLetters_cons, Node.text]
        split
        case isTrue hlong =>
          have hlt := @ih hrest false none (by simp) fun hk => hkeeps ⟨hlong, hk⟩
          rw [openLetters] at hlt
          omega
        case isFalse =>
          have hle := letters_printedBlocks_le hrest false none
          rw [openLetters] at hle
          omega
      | other isBlock chars children =>
        cases isBlock with
        | true => exact htaken chars rfl rfl rfl fun hk => hkeeps ⟨rfl, hk⟩
        | false =>
          obtain ⟨first', hletters⟩ := letters_printed_paragraph first text
            (.other false chars children :: rest)
          have hlt := letters_printedBlocks_other h first'
          rw [printedBlocks_closed rfl, hletters, openLetters]
          split <;> omega

/-- **What the scan passes is printed.** -/
theorem spaced_of_keeps {blocks : List Node} (h : Parsed blocks) {first : Bool}
    {current : Option JString} {pieces : List JString} (hkeeps : Keeps first current blocks)
    (hcurrent : Spaced isBreak pieces (current.getD [])) :
    Spaced isBreak (pieces ++ blocks.map Node.text) (printedBlocks first current blocks) := by
  induction blocks generalizing first current pieces with
  | nil =>
    rw [List.map_nil, List.append_nil]
    cases current with
    | none =>
      rw [printedBlocks_nil]
      exact hcurrent
    | some text =>
      rw [printedBlocks_end, printed_paragraph hkeeps]
      simpa [printed, kept] using hcurrent
  | cons b rest ih =>
    have hrest : Parsed rest := fun b' hb' => h b' (List.mem_cons_of_mem b hb')
    have hb := h b List.mem_cons_self
    have hcons : pieces ++ (b :: rest).map Node.text =
        pieces ++ [b.text] ++ rest.map Node.text := by simp
    cases current with
    | none =>
      cases b with
      | paragraph chars =>
        rw [printedBlocks_paragraph, hcons]
        exact ih hrest hkeeps (spaced_append hcurrent (spaced_singleton chars))
      | fencedCodeBlock chars info childChars =>
        rw [printedBlocks_fencedCodeBlock hb, hcons]
        have hlater := @ih hrest false none [] hkeeps (by simp [Spaced])
        exact spaced_append (spaced_append hcurrent (spaced_singleton childChars)) hlater
      | other isBlock chars children => exact hkeeps.elim
    | some text =>
      -- the paragraph that has taken in the block
      have htaken : ∀ chars, b.isCombined = true → b.text = chars → b.chars = chars →
          Keeps first (some (combineText text chars)) rest →
          Spaced isBreak (pieces ++ (b :: rest).map Node.text)
            (printedBlocks first (some text) (b :: rest)) := by
        rintro chars hcombined htext rfl hkeeps'
        rw [printedBlocks_combined hcombined, hcons, htext]
        refine ih hrest hkeeps' ?_
        obtain ⟨gap, hgap, heq⟩ := combineText_eq text b.chars
        rw [Option.getD_some, heq, List.append_assoc]
        exact spaced_append hcurrent (spaced_gap_append hgap (spaced_singleton b.chars))
      cases b with
      | paragraph chars => exact htaken chars rfl rfl rfl hkeeps
      | fencedCodeBlock chars info childChars =>
        obtain ⟨hlong, hlater⟩ := hkeeps
        rw [printedBlocks_closed rfl, printed_paragraph hlong, hcons, List.append_assoc]
        refine spaced_append hcurrent ?_
        rw [← printedBlocks, printedBlocks_fencedCodeBlock hb]
        exact spaced_append (spaced_singleton childChars)
          (@ih hrest false none [] hlater (by simp [Spaced]))
      | other isBlock chars children =>
        obtain ⟨rfl, hlater⟩ := hkeeps
        exact htaken chars rfl rfl rfl hlater

/-- The parts of a fresh message are those its leaves give from scratch. -/
theorem setRawContent_fresh (parser : Parser) (text : JString) :
    ∃ m, Message.fresh.setRawContent parser text = .ok m ∧
      Shows m (kept true (parser.leaves text)) := by
  have hset := setRawContent_eq_refill parser text shows_fresh
  rw [(refill_eq_kept_iff [] true _).mpr trivial] at hset
  obtain ⟨m, hm, -, hshows⟩ := hset
  exact ⟨m, hm, hshows⟩

/-- What the scan finds is missing from the parts. -/
theorem not_printsBlocks {parser : Parser} {text : JString} (h : Parsed (parser.parse text))
    (hkeeps : ¬ Keeps true none (parser.parse text)) : ¬ PrintsBlocks parser text := by
  rintro ⟨m', vs, hm', hshows', hspaced⟩
  obtain ⟨m, hm, hshows⟩ := setRawContent_fresh parser text
  rw [hm, Except.ok.injEq] at hm'
  subst hm'
  have hvs := (hshows.view_eq_iff hshows').mp fun _ => rfl
  -- the parts would print as many letters as the blocks have
  have hweight := weight_spaced hspaced
  rw [← hvs, List.map_map] at hweight
  have hprinted : letters (printedBlocks true none (parser.parse text)) =
    blockLetters (parser.parse text) := hweight
  have hlt := @letters_lt_of_not_keeps _ h true none (by simp) hkeeps
  rw [hprinted, openLetters] at hlt
  omega

/-- **The text of a message.** In the parts a fresh message makes for a parsed document
    every top-level block's text is printed once, in order and with line breaks only around
    it, exactly when the scan of the blocks finds no loss. -/
theorem printsBlocks_iff (parser : Parser) (text : JString)
    (h : Parsed (parser.parse text)) :
    PrintsBlocks parser text ↔ Keeps true none (parser.parse text) := by
  constructor
  · intro hprints
    by_contra hkeeps
    exact not_printsBlocks h hkeeps hprints
  · intro hkeeps
    obtain ⟨m, hm, hshows⟩ := setRawContent_fresh parser text
    have hspaced := @spaced_of_keeps _ h true none [] hkeeps (by simp [Spaced])
    exact ⟨m, _, hm, hshows, hspaced⟩

/-- A message of one paragraph is printed. -/
theorem printsBlocks_one_paragraph : PrintsBlocks oneBlockParser (.ofString "Hello") := by
  have hparse : oneBlockParser.parse (.ofString "Hello") = [.paragraph (.ofString "Hello")] :=
    rfl
  refine (printsBlocks_iff oneBlockParser (.ofString "Hello") ?_).mpr ?_
  · rw [hparse]
    intro b hb
    rw [List.mem_singleton.mp hb]
    show 0 < letters (.ofString "Hello")
    decide
  · rw [hparse]
    exact Or.inl rfl

/-! ### A heading in front -/

/-- The document `# A` with a paragraph after it. -/
def headed : List Node :=
  [.other true (.ofString "# A") [.other false (.ofString "A") []],
    .paragraph (.ofString "hello")]

/-- The parse of that document. -/
def headedParser : Parser where
  parse text := if text = JString.ofString "# A\nhello" then headed else []
  parse_nil := rfl

theorem parsed_headed : Parsed headed := by
  intro b hb
  rcases List.mem_cons.mp hb with rfl | hb
  · refine ⟨.other _ _ _ (fun c hc => ?_) (by decide), .own _ _ _ (by decide)⟩
    rw [List.mem_singleton.mp hc]
    exact .other _ _ _ (by simp) (by simp)
  · rw [List.mem_singleton.mp hb]
    show 0 < letters (.ofString "hello")
    decide

/-- **Counterexample.** A heading with no paragraph before it is lost. -/
theorem heading_lost :
    ¬ ∀ (parser : Parser) (text : JString), Parsed (parser.parse text) →
      PrintsBlocks parser text := by
  intro h
  have hparse : headedParser.parse (.ofString "# A\nhello") = headed := by
    simp [headedParser]
  have hparsed : Parsed (headedParser.parse (.ofString "# A\nhello")) :=
    hparse ▸ parsed_headed
  exact not_printsBlocks hparsed (by rw [hparse]; exact id) (h _ _ hparsed)

end Reloadium.Ai
