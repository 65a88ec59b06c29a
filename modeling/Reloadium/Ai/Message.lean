import Reloadium.Lib.PMap
import Reloadium.Lib.JString

namespace Reloadium.Ai

open Reloadium.Lib

/-!
# Ai — a chat message and its parts

Model of `rw.ai.messages.Message`, of the paragraph post-processor its parser is built
with and of `AiMessage.append`.  The markdown parser is a parameter: a function from text
to the children of the document node.

* `Node` — the parse tree, as far as the visitors tell its nodes apart;
* `combineParagraphs` — `CombineParagraphsPostProcessor`, run on every paragraph in
  document order;
* `Leaf`, `leaves` — the nodes that have a visit handler, in the order of the visit;
* `Message.setRawContent`, `Message.append` — parse the whole text again and refill the
  parts by index.

A part and its saved model are Java objects; a part carries the number of its own object,
and the saved content names the models by that number.  What only the user interface
reads (views, the previous part, the predicted extension) is left out.
-/

/-! ### The parse tree -/

/-- A node of the parsed document.  `other` is any node but a paragraph and a fenced code
    block; `isBlock` tells whether its class extends `Block`. -/
inductive Node where
  | paragraph (chars : JString)
  | fencedCodeBlock (chars info childChars : JString)
  | other (isBlock : Bool) (chars : JString) (children : List Node)

namespace Node

def chars : Node → JString
  | paragraph chars => chars
  | fencedCodeBlock chars _ _ => chars
  | other _ chars _ => chars

/-- `next instanceof Block && !(next instanceof FencedCodeBlock)`. -/
def isCombined : Node → Bool
  | paragraph _ => true
  | fencedCodeBlock .. => false
  | other isBlock _ _ => isBlock

end Node

/-- The text of a paragraph after it has taken in the block `next`. -/
def combineText (text next : JString) : JString :=
  text.removeSuffix (.ofString "\n") ++ .ofString "\n\n" ++ next

mutual

/-- `CombineParagraphsPostProcessor` on a list of siblings; `current` is the text of the
    paragraph that is taking in its next siblings, which are unlinked. -/
def combineSiblings : Option JString → List Node → List Node
  | none, [] => []
  | some text, [] => [.paragraph text]
  | none, .paragraph chars :: rest => combineSiblings (some chars) rest
  | none, node :: rest => combineChildren node :: combineSiblings none rest
  -- a block behind a paragraph is taken in; any other node ends the paragraph
  | some text, node :: rest =>
    if node.isCombined then combineSiblings (some (combineText text node.chars)) rest
    else .paragraph text :: combineChildren node :: combineSiblings none rest

/-- The post-processor below a node that is no paragraph. -/
def combineChildren : Node → Node
  -- a paragraph and a fenced code block have no blocks below them
  | .other isBlock chars children => .other isBlock chars (combineSiblings none children)
  | node => node

end

/-- The document's blocks after the post-processor. -/
def combineParagraphs (blocks : List Node) : List Node := combineSiblings none blocks

/-! ### The visit -/

inductive MessagePartType where
  | CODE
  | MARKDOWN
  deriving DecidableEq

/-- A node with a visit handler. -/
inductive Leaf where
  | paragraph (chars : JString)
  | fencedCodeBlock (chars info childChars : JString)

namespace Leaf

/-- The kind of the part that is made for the node. -/
def type : Leaf → MessagePartType
  | paragraph _ => .MARKDOWN
  | fencedCodeBlock .. => .CODE

def chars : Leaf → JString
  | paragraph chars => chars
  | fencedCodeBlock chars _ _ => chars

/-- What the node's handler puts into the part. -/
def content : Leaf → JString
  | paragraph chars => chars
  | fencedCodeBlock _ _ childChars => childChars

/-- The language a new code part is given. -/
def language : Leaf → Option JString
  | paragraph _ => none
  | fencedCodeBlock _ info _ => some info

/-- `node.getChars().length() < 5`. -/
def isShort (n : Leaf) : Bool := n.chars.length < 5

end Leaf

mutual

/-- The nodes with a handler, in the order `NodeVisitor` visits them: a node with a handler
    is not descended into, all others are. -/
def visitNode : Node → List Leaf
  | .paragraph chars => [.paragraph chars]
  | .fencedCodeBlock chars info childChars => [.fencedCodeBlock chars info childChars]
  | .other _ _ children => visitNodes children

def visitNodes : List Node → List Leaf
  | [] => []
  | node :: rest => visitNode node ++ visitNodes rest

end

/-- A markdown parser: the blocks of a text.  The empty text has none. -/
structure Parser where
  parse : JString → List Node
  parse_nil : parse [] = []

/-- The nodes of a text that have a handler. -/
def Parser.leaves (parser : Parser) (text : JString) : List Leaf :=
  visitNodes (combineParagraphs (parser.parse text))

@[simp] theorem Parser.leaves_nil (parser : Parser) : parser.leaves [] = [] := by
  simp [leaves, parser.parse_nil, combineParagraphs, combineSiblings, visitNodes]

/-! ### The message -/

/-- A `MessagePart`: a `CodeViewer` (`CODE`) or a `Markdown` (`MARKDOWN`), with the number
    of its model. -/
structure MessagePart where
  id : Nat
  type : MessagePartType
  language : Option JString
  content : JString
  deriving DecidableEq

structure Message where
  rawContent : JString
  parts : PMap Nat MessagePart
  /-- `model.content`: the number of the model saved for each index. -/
  content : PMap Nat Nat
  /-- How many parts have been created. -/
  created : Nat

namespace Message

/-- A message built from a model without content. -/
def fresh : Message where
  rawContent := []
  parts := .empty
  content := .empty
  created := 0

/-- `Message.getOrCreatePart`; `none` is the null of a short node without a part. -/
def getOrCreatePart (m : Message) (node : Leaf) (counter : Nat) :
    Option (Message × MessagePart) :=
  match m.parts counter with
  -- the part of the index is taken, whatever the kind of the node; it is stored once more
  | some part =>
    some ({ m with
      parts := m.parts.put counter part
      content := m.content.put counter part.id }, part)
  | none =>
    -- a short node makes no new part, unless it would be the first
    if counter ≠ 0 ∧ node.isShort then none
    else
      let part : MessagePart :=
        { id := m.created, type := node.type, language := node.language, content := [] }
      some ({ m with
        parts := m.parts.put counter part
        content := m.content.put counter part.id
        created := m.created + 1 }, part)

/-- `part.setContent`, on the part at an index. -/
def setContent (m : Message) (counter : Nat) (part : MessagePart) (content : JString) :
    Message :=
  { m with parts := m.parts.put counter { part with content } }

/-- A node's visit handler.  It throws, leaving the message as it is by then, when a fenced
    code block meets a markdown part (the cast to `CodeViewer`). -/
def handle (m : Message) (counter : Nat) (node : Leaf) : Except Message (Message × Nat) :=
  -- null: the handler returns, and the next node comes to the same index
  match m.getOrCreatePart node counter with
  | none => .ok (m, counter)
  | some (m', part) =>
    -- a paragraph is put into a code part without a cast
    if node.type = .CODE ∧ part.type = .MARKDOWN then .error m'
    else .ok (m'.setContent counter part node.content, counter + 1)

/-- The visit of the document. -/
def visit (m : Message) (counter : Nat) : List Leaf → Except Message Message
  | [] => .ok m
  | node :: rest =>
    match m.handle counter node with
    | .error e => .error e
    | .ok (m', counter') => visit m' counter' rest

/-- `Message.setRawContent`. -/
def setRawContent (parser : Parser) (m : Message) (rawContent : JString) :
    Except Message Message :=
  visit { m with rawContent } 0 (parser.leaves rawContent)

/-- `AiMessage.append`. -/
def append (parser : Parser) (m : Message) (chunk : JString) : Except Message Message :=
  m.setRawContent parser (m.rawContent ++ chunk)

/-- The chunks of an answer, appended one by one. -/
def appendAll (parser : Parser) (m : Message) : List JString → Except Message Message
  | [] => .ok m
  | chunk :: rest =>
    match m.append parser chunk with
    | .error e => .error e
    | .ok m' => appendAll parser m' rest

/-- What is seen of the part at an index: its kind and its content. -/
def view (m : Message) (i : Nat) : Option (MessagePartType × JString) :=
  (m.parts i).map fun part => (part.type, part.content)

end Message

end Reloadium.Ai
