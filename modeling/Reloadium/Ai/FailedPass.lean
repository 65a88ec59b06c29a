import Reloadium.Ai.Streaming

namespace Reloadium.Ai

open Reloadium.Lib

/-!
# Ai — what a pass leaves when it throws

An exception in the visit ends the pass at the node it is thrown at; the text is the new one
already, and the parts before that node are refilled.

* `visit_rawContent` — the text, whether the pass throws or not;
* `visit_error` — a pass that throws leaves the kinds of the parts as it found them;
* `kindsAfter`, `shows_feed` — the kinds after chunks of which any may throw.
-/

/-- What a visit leaves, whether it throws or not. -/
def left : Except Message Message → Message
  | .ok m => m
  | .error m => m

theorem getOrCreatePart_rawContent {m m' : Message} {n : Leaf} {counter : Nat}
    {part : MessagePart} (h : m.getOrCreatePart n counter = some (m', part)) :
    m'.rawContent = m.rawContent := by
  unfold Message.getOrCreatePart at h
  split at h
  · cases h
    rfl
  · split at h <;> cases h
    rfl

theorem handle_ok_rawContent {m m' : Message} {n : Leaf} {counter counter' : Nat}
    (h : m.handle counter n = .ok (m', counter')) : m'.rawContent = m.rawContent := by
  unfold Message.handle at h
  split at h
  · cases h
    rfl
  · next hpart =>
    split at h <;> cases h
    have hraw := getOrCreatePart_rawContent hpart
    exact hraw

theorem handle_error_rawContent {m e : Message} {n : Leaf} {counter : Nat}
    (h : m.handle counter n = .error e) : e.rawContent = m.rawContent := by
  unfold Message.handle at h
  split at h
  · cases h
  · next hpart =>
    split at h <;> cases h
    exact getOrCreatePart_rawContent hpart

theorem visit_rawContent (m : Message) (counter : Nat) (ns : List Leaf) :
    (left (m.visit counter ns)).rawContent = m.rawContent := by
  induction ns generalizing m counter with
  | nil => rfl
  | cons n rest ih =>
    rw [Message.visit]
    cases hh : m.handle counter n with
    | error e => exact handle_error_rawContent hh
    | ok r => exact (ih r.1 r.2).trans (handle_ok_rawContent hh)

/-- The text after a chunk is the longer one, also when the chunk throws. -/
theorem append_rawContent (parser : Parser) (m : Message) (chunk : JString) :
    (left (m.append parser chunk)).rawContent = m.rawContent ++ chunk :=
  visit_rawContent _ _ _

/-! ### The kinds after a pass that throws -/

/-- The visitor that throws has stored the part of its index once more, and nothing else. -/
theorem handle_of_clash {m : Message} {done old : List View} {v : View} (n : Leaf)
    (h : Shows m (done ++ v :: old)) (hclash : n.type = .CODE ∧ v.1 = .MARKDOWN) :
    ∃ e, m.handle done.length n = .error e ∧ Shows e (done ++ v :: old) := by
  obtain ⟨part, hpart, rfl⟩ := h.parts_some
  simp only [Message.handle, Message.getOrCreatePart, hpart, if_pos hclash]
  exact ⟨_, rfl, h.put part rfl⟩

/-- A pass that throws leaves the kinds of the parts as it found them. -/
theorem visit_error {m : Message} {done old : List View} {first : Bool} {ns : List Leaf}
    (h : Shows m (done ++ old)) (hnone : refill old first ns = none) :
    ∃ e vs, m.visit done.length ns = .error e ∧ Shows e (done ++ vs) ∧
      vs.map Prod.fst = old.map Prod.fst := by
  induction ns generalizing m done old first with
  | nil =>
    rw [refill] at hnone
    cases hnone
  | cons n rest ih =>
    cases old with
    | nil =>
      rw [refill] at hnone
      cases hnone
    | cons v old =>
      rw [refill] at hnone
      by_cases hclash : n.type = .CODE ∧ v.1 = .MARKDOWN
      · obtain ⟨e, he, hshows⟩ := handle_of_clash n h hclash
        exact ⟨e, v :: old, by simp only [Message.visit, he], hshows, rfl⟩
      · rw [if_neg hclash, Option.map_eq_none_iff] at hnone
        have hn := handle_of_part n h
        rw [if_neg hclash] at hn
        obtain ⟨m', hm', _, hshows⟩ := hn
        -- the node that throws comes later, with this part done
        have hdone : Shows m' (done ++ [(v.1, n.content)] ++ old) := by simpa using hshows
        obtain ⟨e, vs, he, hvs, hkinds⟩ := ih hdone hnone
        rw [List.length_append, List.length_singleton] at he
        refine ⟨e, (v.1, n.content) :: vs, by simp only [Message.visit, hm', he], ?_, ?_⟩
        · simpa using hvs
        · rw [List.map_cons, List.map_cons, hkinds]

/-! ### Chunks of which any may throw -/

variable (parser : Parser) {m : Message} {vs : List View}

/-- The message after chunks; the exception of a chunk ends that chunk only. -/
def feed (m : Message) (chunks : List JString) : Message :=
  chunks.foldl (fun m chunk => left (m.append parser chunk)) m

/-- The kinds that the growing prefixes of the chunks lay out over parts of the kinds `ks`;
    a prefix at which a fenced code block falls on a markdown part leaves them. -/
def kindsAfter (ks : List MessagePartType) (text : JString) :
    List JString → List MessagePartType
  | [] => ks
  | chunk :: rest =>
    kindsAfter ((layout ks true (parser.leaves (text ++ chunk))).getD ks) (text ++ chunk) rest

/-- One chunk, on the parts the message shows: whether it throws, and what it leaves. -/
theorem shows_append (h : Shows m vs) (chunk : JString) :
    ∃ vs', Shows (left (m.append parser chunk)) vs' ∧
      match layout (vs.map Prod.fst) true (parser.leaves (m.rawContent ++ chunk)) with
      | none => (∃ e, m.append parser chunk = .error e) ∧ vs'.map Prod.fst = vs.map Prod.fst
      | some ks => (∃ m', m.append parser chunk = .ok m') ∧ vs'.map Prod.fst = ks := by
  have hset := setRawContent_eq_refill parser (m.rawContent ++ chunk) h
  rw [← refill_kinds]
  cases hfill : refill vs true (parser.leaves (m.rawContent ++ chunk)) with
  | some vs' =>
    simp only [hfill] at hset
    obtain ⟨m', hm', _, hshows⟩ := hset
    rw [Message.append, hm']
    exact ⟨vs', hshows, ⟨m', rfl⟩, rfl⟩
  | none =>
    obtain ⟨e, vs', he, hshows, hkinds⟩ :=
      @visit_error { m with rawContent := m.rawContent ++ chunk } [] vs true _ h hfill
    have happend : m.append parser chunk = .error e := he
    rw [happend]
    exact ⟨vs', hshows, ⟨e, rfl⟩, hkinds⟩

/-- The parts after the chunks, and the text. -/
theorem shows_feed (h : Shows m vs) (chunks : List JString) :
    ∃ vs', Shows (feed parser m chunks) vs' ∧
      vs'.map Prod.fst = kindsAfter parser (vs.map Prod.fst) m.rawContent chunks ∧
      (feed parser m chunks).rawContent = m.rawContent ++ chunks.flatten := by
  induction chunks generalizing m vs with
  | nil => exact ⟨vs, h, rfl, by simp [feed]⟩
  | cons chunk rest ih =>
    obtain ⟨vs₁, hshows, hkinds⟩ := shows_append parser h chunk
    obtain ⟨vs₂, hshows₂, hkinds₂, htext⟩ := ih hshows
    rw [append_rawContent] at hkinds₂ htext
    refine ⟨vs₂, hshows₂, ?_, ?_⟩
    · rw [hkinds₂, kindsAfter]
      congr 1
      cases hlayout : layout (vs.map Prod.fst) true (parser.leaves (m.rawContent ++ chunk)) with
      | none =>
        rw [hlayout] at hkinds
        exact hkinds.2
      | some ks =>
        rw [hlayout] at hkinds
        exact hkinds.2
    · rw [List.flatten_cons, ← List.append_assoc]
      exact htext

end Reloadium.Ai
