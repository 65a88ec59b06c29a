import Reloadium.Ai.SavedParts

namespace Reloadium.Ai

open Reloadium.Lib

/-!
# Ai — parts and saved content in step

Model of the constructor of `rw.ai.messages.Message`, and of `setRawContent` when a call of a
visit handler throws: into the view of a part, into the container of the views or into the part
before.  The parts and the saved content are written through one counter.

* `Message.build` — a message over a model with content (`loadParts`) or without;
* `Fault`, `Message.setRawContentWith` — a pass in which any call may throw;
* `Message.InStep` — the indices of both maps are the same numbers from 0, and each index has the
  model of its own part saved;
* `Message.Stored` — the invariant behind it;
* `inStep_of_calls` — it holds after any passes, thrown or not.
-/

/-! ### A message over a saved model -/

/-- A saved part, with the fields of `MessagePart.Model` and `CodeViewer.Model`; `none` is null. -/
structure SavedPart where
  type : MessagePartType
  language : Option JString
  extension : Option JString
  content : Option JString
  deriving DecidableEq

/-- The part over a saved model; `none` when its constructor throws. -/
def SavedPart.part (saved : SavedPart) (id : Nat) : Option MessagePart :=
  match saved.type with
  -- the setters of the extension and of the content refuse null
  | .CODE => saved.extension.bind fun _ => saved.content.map fun content =>
      { id, type := .CODE, language := saved.language, content }
  | .MARKDOWN => saved.content.map fun content =>
      { id, type := .MARKDOWN, language := none, content }

namespace Message

/-- `loadParts`; `none` when it throws.  `components` is the number of views in the container, and
    the saved models are numbered from `ref` on. -/
def loadParts (components ref : Nat) (m : Message) : List (Nat × SavedPart) → Option Message
  | [] => some m
  | (id, saved) :: rest =>
    match saved.part ref with
    | none => none
    | some part =>
      -- `Container.add` throws behind the end; a markdown view is added twice at one place
      if components < id then none
      else loadParts (components + 1) (ref + 1) { m with parts := m.parts.put id part } rest

/-- The numbers of the models of a saved content. -/
def savedModels (saved : List (Nat × SavedPart)) : PMap Nat Nat := fun i =>
  if i ∈ saved.map Prod.fst then some ((saved.map Prod.fst).idxOf i) else none

/-- `new Message(project, model, view)`, for a model with these entries in its content. -/
def build (components : Nat) (rawContent : JString) (saved : List (Nat × SavedPart)) :
    Option Message :=
  loadParts components 0
    { rawContent, parts := .empty, content := savedModels saved, created := saved.length } saved

/-- A model without content. -/
theorem build_nil (components : Nat) : build components [] [] = some fresh := rfl

end Message

/-! ### Calls that throw -/

/-- Where a visit handler is ended by an exception of a call it makes. -/
inductive Fault where
  /-- while a new part is made, finished and shown -/
  | onCreate
  /-- in the part's `setContent`, after the part's model has its content or before -/
  | onSetContent (stored : Bool)
  deriving DecidableEq

/-- One call of `setRawContent`: its text, whether the parser throws, and which call throws in the
    handler of each node. -/
structure RawContentCall where
  rawContent : JString
  parserThrows : Bool
  fault : Nat → Option Fault

/-- A call in which nothing but the cast may throw. -/
def RawContentCall.plain (rawContent : JString) : RawContentCall where
  rawContent := rawContent
  parserThrows := false
  fault _ := none

namespace Message

/-- A node's visit handler, with a call that throws. -/
def handleWith (m : Message) (counter : Nat) (node : Leaf) (fault : Option Fault) :
    Except Message (Message × Nat) :=
  -- a new part is stored after the calls that make it
  if fault = some .onCreate ∧ m.parts counter = none ∧ ¬ (counter ≠ 0 ∧ node.isShort) then
    .error m
  else
    match m.getOrCreatePart node counter with
    | none => .ok (m, counter)
    | some (m', part) =>
      if node.type = .CODE ∧ part.type = .MARKDOWN then .error m'
      else
        match fault with
        | some (.onSetContent true) => .error (m'.setContent counter part node.content)
        | some (.onSetContent false) => .error m'
        | _ => .ok (m'.setContent counter part node.content, counter + 1)

/-- The visit of the document; `fault` counts the nodes from the first that is left. -/
def visitWith (m : Message) (counter : Nat) (fault : Nat → Option Fault) :
    List Leaf → Except Message Message
  | [] => .ok m
  | node :: rest =>
    match m.handleWith counter node (fault 0) with
    | .error e => .error e
    | .ok (m', counter') => visitWith m' counter' (fun k => fault (k + 1)) rest

/-- `setRawContent`, with the calls that throw. -/
def setRawContentWith (parser : Parser) (m : Message) (call : RawContentCall) :
    Except Message Message :=
  if call.parserThrows then .error { m with rawContent := call.rawContent }
  else visitWith { m with rawContent := call.rawContent } 0 call.fault
    (parser.leaves call.rawContent)

/-- The message after some calls, of which any may throw. -/
def afterCalls (parser : Parser) (m : Message) (calls : List RawContentCall) : Message :=
  calls.foldl (fun m call => left (m.setRawContentWith parser call)) m

end Message

/-! ### Without faults -/

variable {m m' : Message} {n : Leaf} {counter counter' : Nat} {part : MessagePart}

theorem handleWith_none (m : Message) (counter : Nat) (node : Leaf) :
    m.handleWith counter node none = m.handle counter node := by
  have hnew : ¬ (none = some Fault.onCreate ∧ m.parts counter = none ∧
      ¬ (counter ≠ 0 ∧ node.isShort)) := fun h => Option.some_ne_none _ h.1.symm
  refine (if_neg hnew).trans ?_
  unfold Message.handle
  cases m.getOrCreatePart node counter <;> rfl

theorem visitWith_none (m : Message) (counter : Nat) (ns : List Leaf) :
    m.visitWith counter (fun _ => none) ns = m.visit counter ns := by
  induction ns generalizing m counter with
  | nil => rfl
  | cons n rest ih =>
    rw [Message.visitWith, Message.visit, handleWith_none]
    cases m.handle counter n with
    | error e => rfl
    | ok r => exact ih r.1 r.2

/-- A call without a fault is `setRawContent`. -/
theorem setRawContentWith_plain (parser : Parser) (m : Message) (text : JString) :
    m.setRawContentWith parser (.plain text) = m.setRawContent parser text :=
  visitWith_none _ 0 _

/-! ### The invariant -/

/-- Both maps have the same indices, the numbers from 0 on, and what is saved for an index is the
    model of its part, which no other part has. -/
structure Message.InStep (m : Message) : Prop where
  indices : ∃ count, ∀ i, ((m.parts i).isSome = true ↔ i < count) ∧
    ((m.content i).isSome = true ↔ i < count)
  model : ∀ i part, m.parts i = some part → m.content i = some part.id
  own : ∀ i j p q, m.parts i = some p → m.parts j = some q → p.id = q.id → i = j

/-- The invariant of the passes: the parts are those below the count, the saved content is that of
    the parts, and their models are different ones of those that have been created. -/
structure Message.Stored (m : Message) : Prop where
  counted : m.Counted
  content_eq : ∀ i, m.content i = (m.parts i).map MessagePart.id
  id_lt : ∀ i p, m.parts i = some p → p.id < m.created
  own : ∀ i j p q, m.parts i = some p → m.parts j = some q → p.id = q.id → i = j

theorem Message.Stored.inStep (h : m.Stored) : m.InStep where
  indices := ⟨m.created, fun i => ⟨h.counted i, by
    rw [h.content_eq, Option.isSome_map]
    exact h.counted i⟩⟩
  model i part hpart := by rw [h.content_eq, hpart, Option.map_some]
  own := h.own

/-- A part with the model of the part at its index, stored there. -/
theorem Message.Stored.put {old : MessagePart} (h : m.Stored) (hold : m.parts counter = some old)
    (hid : part.id = old.id) (hparts : m'.parts = m.parts.put counter part)
    (hcontent : ∀ i, m'.content i = m.content i) (hcreated : m'.created = m.created) :
    m'.Stored := by
  -- every index has the model it had
  have hmodel : ∀ i, (m'.parts i).map MessagePart.id = (m.parts i).map MessagePart.id := by
    intro i
    rw [hparts, PMap.put_apply]
    split
    · next hi => rw [hi, hold, Option.map_some, Option.map_some, hid]
    · rfl
  have hsame : ∀ i p, m'.parts i = some p → ∃ q, m.parts i = some q ∧ q.id = p.id := by
    intro i p hp
    have hi := hmodel i
    rw [hp, Option.map_some] at hi
    exact Option.map_eq_some_iff.mp hi.symm
  refine ⟨fun i => ?_, fun i => ?_, fun i p hp => ?_, fun i j p q hp hq hpq => ?_⟩
  · rw [hcreated, ← Option.isSome_map (f := MessagePart.id), hmodel, Option.isSome_map]
    exact h.counted i
  · rw [hcontent, h.content_eq, hmodel]
  · obtain ⟨p', hp', hid'⟩ := hsame i p hp
    rw [hcreated, ← hid']
    exact h.id_lt i p' hp'
  · obtain ⟨p', hp', hpid⟩ := hsame i p hp
    obtain ⟨q', hq', hqid⟩ := hsame j q hq
    exact h.own i j p' q' hp' hq' (by rw [hpid, hqid, hpq])

/-- A part with a new model, stored at the index behind the last. -/
theorem Message.Stored.put_new (h : m.Stored) (hid : part.id = m.created)
    (hparts : m'.parts = m.parts.put m.created part)
    (hcontent : m'.content = m.content.put m.created part.id)
    (hcreated : m'.created = m.created + 1) : m'.Stored := by
  have hold : ∀ i p, i ≠ m.created → m'.parts i = some p → m.parts i = some p := by
    intro i p hi hp
    rwa [hparts, PMap.put_of_ne _ _ hi] at hp
  have hnew : ∀ p, m'.parts m.created = some p → p = part := by
    intro p hp
    rw [hparts, PMap.put_self] at hp
    exact (Option.some.inj hp).symm
  refine ⟨fun i => ?_, fun i => ?_, fun i p hp => ?_, fun i j p q hp hq hpq => ?_⟩
  · rw [hparts, hcreated, PMap.put_apply]
    split
    · next hi => simp [hi]
    · next hi =>
      rw [h.counted i]
      omega
  · rw [hparts, hcontent, PMap.put_apply, PMap.put_apply]
    split
    · rfl
    · exact h.content_eq i
  · rw [hcreated]
    by_cases hi : i = m.created
    · rw [hnew p (hi ▸ hp), hid]
      exact Nat.lt_succ_self _
    · exact Nat.lt_succ_of_lt (h.id_lt i p (hold i p hi hp))
  · by_cases hi : i = m.created <;> by_cases hj : j = m.created
    · rw [hi, hj]
    · -- the new model is none of the old ones
      have hlt := h.id_lt j q (hold j q hj hq)
      rw [← hpq, hnew p (hi ▸ hp), hid] at hlt
      exact absurd hlt (Nat.lt_irrefl _)
    · have hlt := h.id_lt i p (hold i p hi hp)
      rw [hpq, hnew q (hj ▸ hq), hid] at hlt
      exact absurd hlt (Nat.lt_irrefl _)
    · exact h.own i j p q (hold i p hi hp) (hold j q hj hq) hpq

/-! ### The passes keep it -/

theorem Message.Stored.getOrCreatePart (h : m.Stored) (hle : counter ≤ m.created)
    (hpart : m.getOrCreatePart n counter = some (m', part)) :
    m'.Stored ∧ counter < m'.created ∧ m'.parts counter = some part := by
  obtain ⟨-, hlt⟩ := h.counted.getOrCreatePart hle hpart
  unfold Message.getOrCreatePart at hpart
  split at hpart
  · next p hp =>
    cases hpart
    -- the part and its model are stored once more
    refine ⟨h.put hp rfl rfl (fun i => ?_) rfl, hlt, PMap.put_self _ _ _⟩
    show (m.content.put counter part.id) i = m.content i
    rw [PMap.put_apply]
    split
    · next hi => rw [hi, h.content_eq, hp, Option.map_some]
    · rfl
  · next hp =>
    split at hpart <;> cases hpart
    have hge : ¬ counter < m.created := fun hlt => by
      rw [← h.counted counter, hp] at hlt
      cases hlt
    obtain rfl : counter = m.created := by omega
    exact ⟨h.put_new rfl rfl rfl rfl, hlt, PMap.put_self _ _ _⟩

/-- `setContent` changes neither the model of the part nor what is saved. -/
theorem Message.Stored.setContent (h : m.Stored) (hpart : m.parts counter = some part)
    (content : JString) : (m.setContent counter part content).Stored := by
  have hid : ({ part with content } : MessagePart).id = part.id := rfl
  exact h.put hpart hid rfl (fun _ => rfl) rfl

/-- **Step lemma.** A handler keeps the invariant, whether it throws or not, and comes to an index
    that is not behind the next one. -/
theorem Message.Stored.handleWith (h : m.Stored) (hle : counter ≤ m.created) (n : Leaf)
    (fault : Option Fault) :
    match m.handleWith counter n fault with
    | .error e => e.Stored
    | .ok (m', counter') => m'.Stored ∧ counter' ≤ m'.created := by
  rw [Message.handleWith]
  by_cases hcreate : fault = some .onCreate ∧ m.parts counter = none ∧
      ¬ (counter ≠ 0 ∧ n.isShort)
  · rw [if_pos hcreate]
    exact h
  rw [if_neg hcreate]
  cases hpart : m.getOrCreatePart n counter with
  | none => exact ⟨h, hle⟩
  | some r =>
    obtain ⟨m', part⟩ := r
    obtain ⟨hstored, hlt, hget⟩ := h.getOrCreatePart hle hpart
    have hset := hstored.setContent hget n.content
    by_cases hcast : n.type = .CODE ∧ part.type = .MARKDOWN
    · simp only [if_pos hcast]
      exact hstored
    · simp only [if_neg hcast]
      match fault with
      | some (.onSetContent true) => exact hset
      | some (.onSetContent false) => exact hstored
      | some .onCreate => exact ⟨hset, hlt⟩
      | none => exact ⟨hset, hlt⟩

theorem Message.Stored.visitWith (h : m.Stored) (hle : counter ≤ m.created)
    (fault : Nat → Option Fault) (ns : List Leaf) :
    (left (m.visitWith counter fault ns)).Stored := by
  induction ns generalizing m counter fault with
  | nil => exact h
  | cons n rest ih =>
    have hstep := h.handleWith hle n (fault 0)
    rw [Message.visitWith]
    cases hn : m.handleWith counter n (fault 0) with
    | error e =>
      rw [hn] at hstep
      exact hstep
    | ok r =>
      rw [hn] at hstep
      exact ih hstep.1 hstep.2 _

/-- **Run lemma.** The invariant holds after any calls. -/
theorem Message.Stored.afterCalls (h : m.Stored) (parser : Parser) (calls : List RawContentCall) :
    (m.afterCalls parser calls).Stored := by
  induction calls generalizing m with
  | nil => exact h
  | cons call calls ih =>
    have hraw : Message.Stored { m with rawContent := call.rawContent } :=
      ⟨h.counted, h.content_eq, h.id_lt, h.own⟩
    refine ih (m := left (m.setRawContentWith parser call)) ?_
    rw [Message.setRawContentWith]
    split
    · exact hraw
    · exact hraw.visitWith (Nat.zero_le _) _ _

/-! ### The constructor establishes it -/

theorem SavedPart.part_id {saved : SavedPart} {id : Nat} (h : saved.part id = some part) :
    part.id = id := by
  unfold SavedPart.part at h
  split at h
  · obtain ⟨-, -, hcontent⟩ := Option.bind_eq_some_iff.mp h
    obtain ⟨-, -, rfl⟩ := Option.map_eq_some_iff.mp hcontent
    rfl
  · obtain ⟨-, -, rfl⟩ := Option.map_eq_some_iff.mp h
    rfl

/-- The loop leaves the model as it is, and makes for each key a part over the key's model. -/
theorem loadParts_spec {components ref : Nat} {saved : List (Nat × SavedPart)}
    (hkeys : (saved.map Prod.fst).Nodup) (hload : m.loadParts components ref saved = some m') :
    m'.content = m.content ∧ m'.created = m.created ∧
      (∀ i ∉ saved.map Prod.fst, m'.parts i = m.parts i) ∧
      ∀ i ∈ saved.map Prod.fst,
        (m'.parts i).map MessagePart.id = some (ref + (saved.map Prod.fst).idxOf i) := by
  induction saved generalizing m components ref with
  | nil =>
    cases hload
    exact ⟨rfl, rfl, fun _ _ => rfl, fun i hi => absurd hi List.not_mem_nil⟩
  | cons entry saved ih =>
    obtain ⟨id, s⟩ := entry
    rw [List.map_cons, List.nodup_cons] at hkeys
    rw [Message.loadParts] at hload
    cases hpart : s.part ref with
    | none =>
      rw [hpart] at hload
      cases hload
    | some part =>
      simp only [hpart] at hload
      split at hload
      · cases hload
      obtain ⟨hcontent, hcreated, hother, hkey⟩ := ih hkeys.2 hload
      refine ⟨hcontent, hcreated, fun i hi => ?_, fun i hi => ?_⟩
      · rw [List.map_cons, List.mem_cons, not_or] at hi
        rw [hother i hi.2]
        exact PMap.put_of_ne _ _ hi.1
      · by_cases heq : i = id
        · -- no later entry has the key
          subst heq
          have hput : m'.parts i = some part := (hother i hkeys.1).trans (PMap.put_self _ _ _)
          rw [hput, Option.map_some, SavedPart.part_id hpart, List.map_cons, List.idxOf_cons_self]
          rfl
        · rw [List.map_cons, List.mem_cons, or_iff_right heq] at hi
          rw [hkey i hi, List.map_cons, List.idxOf_cons_ne _ (Ne.symm heq), Nat.add_assoc,
            Nat.add_comm 1]

/-- A message over a saved content with the keys `0..n-1`, in any order. -/
theorem stored_build {components : Nat} {rawContent : JString} {saved : List (Nat × SavedPart)}
    (hkeys : (saved.map Prod.fst).Perm (List.range saved.length))
    (hbuild : Message.build components rawContent saved = some m) : m.Stored := by
  have hnodup : (saved.map Prod.fst).Nodup := hkeys.nodup_iff.mpr List.nodup_range
  obtain ⟨hcontent, hcreated, hother, hkey⟩ := loadParts_spec hnodup hbuild
  have hmodel : ∀ i, (m.parts i).map MessagePart.id = Message.savedModels saved i := by
    intro i
    rw [Message.savedModels]
    split
    · next hi => rw [hkey i hi, Nat.zero_add]
    · next hi =>
      rw [hother i hi]
      rfl
  -- the model of a part is the one saved under its key
  have hid : ∀ i p, m.parts i = some p →
      i ∈ saved.map Prod.fst ∧ (saved.map Prod.fst).idxOf i = p.id := by
    intro i p hp
    have hi := hmodel i
    rw [hp, Option.map_some, Message.savedModels] at hi
    split at hi
    · next hmem => exact ⟨hmem, (Option.some.inj hi).symm⟩
    · cases hi
  refine ⟨fun i => ?_, fun i => ?_, fun i p hp => ?_, fun i j p q hp hq hpq => ?_⟩
  · have hmem : i ∈ saved.map Prod.fst ↔ i < saved.length := by
      rw [hkeys.mem_iff, List.mem_range]
    rw [hcreated, ← Option.isSome_map (f := MessagePart.id), hmodel, Message.savedModels]
    split
    · next h => simpa using hmem.mp h
    · next h => simpa using mt hmem.mpr h
  · rw [hcontent, hmodel]
  · obtain ⟨hmem, hidx⟩ := hid i p hp
    rw [hcreated, ← hidx]
    exact (List.idxOf_lt_length_of_mem hmem).trans_eq (List.length_map _)
  · obtain ⟨hmem, hidx⟩ := hid i p hp
    obtain ⟨-, hidx'⟩ := hid j q hq
    exact (List.idxOf_inj hmem).mp (by rw [hidx, hidx', hpq])

/-- **Parts and saved content stay in step.**  After any calls of `setRawContent` on a message that
    was built over the keys `0..n-1`, whatever throws in them, the parts and the saved content have
    the same indices from 0 on, and each index has the model of its part saved. -/
theorem inStep_of_calls {components : Nat} {rawContent : JString}
    {saved : List (Nat × SavedPart)} {m : Message} (parser : Parser)
    (hkeys : (saved.map Prod.fst).Perm (List.range saved.length))
    (hbuild : Message.build components rawContent saved = some m) (calls : List RawContentCall) :
    (m.afterCalls parser calls).InStep :=
  ((stored_build hkeys hbuild).afterCalls parser calls).inStep

/-- A text and a code block, saved. -/
def savedAnswer : List (Nat × SavedPart) :=
  [(0, ⟨.MARKDOWN, none, none, some (.ofString "Try this")⟩),
    (1, ⟨.CODE, some (.ofString "python"), some (.ofString "py"), some (.ofString "foo\n")⟩)]

/-- A fenced code block falls on the text of the saved answer, which throws, and the view of that
    part refuses the text that is set next. -/
theorem inStep_savedAnswer :
    ∃ m, Message.build 0 [] savedAnswer = some m ∧
      (∃ e, m.setRawContentWith oneBlockParser (.plain (.ofString "```\nfoo\n```")) = .error e) ∧
      (m.afterCalls oneBlockParser [.plain (.ofString "```\nfoo\n```"),
        ⟨.ofString "Hello", false, fun _ => some (.onSetContent true)⟩]).InStep :=
  ⟨_, rfl, ⟨_, rfl⟩,
    @inStep_of_calls 0 [] savedAnswer _ oneBlockParser (List.Perm.refl _) rfl _⟩

end Reloadium.Ai
