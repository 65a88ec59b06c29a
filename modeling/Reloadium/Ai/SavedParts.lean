import Reloadium.Ai.FailedPass
import Reloadium.Ai.LiveDialog

namespace Reloadium.Ai

open Reloadium.Lib

/-!
# Ai — the parts a live message saves

The parts of a live message are numbered from 0 without a gap, and every one has a content,
so that a view can be built from the saved model.

* `Message.Counted` — the parts are those below the count, also after a pass that throws;
* `savedContent_numbered` — the saved content of such a message;
* `rebuilt_reMessage` — building a Re message once more changes nothing in its model.
-/

/-- The indices of the parts are the numbers below the count of parts. -/
def Message.Counted (m : Message) : Prop := ∀ i, (m.parts i).isSome = true ↔ i < m.created

/-- The content saved for parts numbered from 0. -/
def numbered (vs : List View) : List (Int32 × MessagePartType × Option JString) :=
  vs.mapIdx fun i v => (Int32.ofNat i, v.1, some v.2)

theorem counted_fresh : Message.fresh.Counted := fun i => by simp [Message.fresh]

/-! ### The visit keeps the count -/

variable {m m' : Message} {n : Leaf} {counter counter' : Nat} {part : MessagePart}

theorem Message.Counted.put (h : m.Counted) (hlt : counter < m.created) {m₁ : Message}
    (hparts : m₁.parts = m.parts.put counter part) (hcreated : m₁.created = m.created) :
    m₁.Counted := by
  intro i
  rw [hparts, hcreated, PMap.put_apply]
  split
  · next hi => simp [hi, hlt]
  · exact h i

/-- The part of an index, new or not, is one of the parts. -/
theorem Message.Counted.getOrCreatePart (h : m.Counted) (hle : counter ≤ m.created)
    (hpart : m.getOrCreatePart n counter = some (m', part)) :
    m'.Counted ∧ counter < m'.created := by
  unfold Message.getOrCreatePart at hpart
  split at hpart
  · next p hp =>
    cases hpart
    have hlt : counter < m.created := (h counter).mp (by rw [hp]; rfl)
    exact ⟨h.put hlt rfl rfl, hlt⟩
  · next hp =>
    split at hpart <;> cases hpart
    -- the index of a new part is the count itself
    have hge : ¬ counter < m.created := fun hlt => by
      have hsome := (h counter).mpr hlt
      rw [hp] at hsome
      cases hsome
    have heq : counter = m.created := by omega
    refine ⟨fun i => ?_, by show counter < m.created + 1; omega⟩
    show ((m.parts.put counter _) i).isSome = true ↔ i < m.created + 1
    rw [PMap.put_apply]
    split
    · next hi => simp [hi, heq]
    · next hi =>
      rw [h i]
      omega

theorem Message.Counted.handle_ok (h : m.Counted) (hle : counter ≤ m.created)
    (hn : m.handle counter n = .ok (m', counter')) : m'.Counted ∧ counter' ≤ m'.created := by
  unfold Message.handle at hn
  split at hn
  · cases hn
    exact ⟨h, hle⟩
  · next hpart =>
    split at hn <;> cases hn
    obtain ⟨hcounted, hlt⟩ := h.getOrCreatePart hle hpart
    exact ⟨hcounted.put hlt rfl rfl, hlt⟩

theorem Message.Counted.handle_error (h : m.Counted) (hle : counter ≤ m.created)
    (hn : m.handle counter n = .error m') : m'.Counted := by
  unfold Message.handle at hn
  split at hn
  · cases hn
  · next hpart =>
    split at hn <;> cases hn
    exact (h.getOrCreatePart hle hpart).1

theorem Message.Counted.visit (h : m.Counted) (hle : counter ≤ m.created) (ns : List Leaf) :
    (left (m.visit counter ns)).Counted := by
  induction ns generalizing m counter with
  | nil => exact h
  | cons n rest ih =>
    rw [Message.visit]
    cases hn : m.handle counter n with
    | error e => exact h.handle_error hle hn
    | ok r =>
      obtain ⟨hcounted, hle'⟩ := h.handle_ok hle hn
      exact ih hcounted hle'

/-- Setting a text keeps the count, whether it throws or not. -/
theorem Message.Counted.setRawContent (h : m.Counted) (parser : Parser) (text : JString) :
    (left (m.setRawContent parser text)).Counted :=
  @Message.Counted.visit { m with rawContent := text } 0 h (Nat.zero_le _) _

/-! ### The saved content -/

/-- **The saved content of a live message is numbered from 0.** -/
theorem savedContent_numbered (h : m.Counted) : ∃ vs, m.savedContent = numbered vs := by
  have hview : ∀ i ∈ List.range m.created, ∃ v, m.view i = some v := by
    intro i hi
    obtain ⟨p, hp⟩ := Option.isSome_iff_exists.mp ((h i).mpr (List.mem_range.mp hi))
    exact ⟨(p.type, p.content), by rw [Message.view, hp, Option.map_some]⟩
  refine ⟨(List.range m.created).map fun i => (m.view i).getD (.CODE, []), ?_⟩
  have hmap : m.savedContent = (List.range m.created).map fun i =>
      (Int32.ofNat i, ((m.view i).getD (.CODE, [])).1, some ((m.view i).getD (.CODE, [])).2) := by
    rw [Message.savedContent, ← List.filterMap_eq_map]
    refine List.filterMap_congr fun i hi => ?_
    obtain ⟨v, hv⟩ := hview i hi
    rw [Function.comp_apply, hv]
    rfl
  rw [hmap, numbered]
  refine List.ext_getElem? fun i => ?_
  by_cases hi : i < m.created <;> simp [hi]

/-! ### Re messages -/

/-- The texts of the Re messages are one paragraph for the parser. -/
def Parser.ReadsBundle (parser : Parser) : Prop :=
  ∀ type text, MessageType.bundleText type = some text →
    parser.leaves text = [.paragraph text]

/-- A text of one paragraph, set in a fresh message. -/
theorem savedContent_of_paragraph {parser : Parser} {text : JString} {body : Message}
    (hleaves : parser.leaves text = [.paragraph text])
    (hbody : Message.fresh.setRawContent parser text = .ok body) :
    body.rawContent = text ∧ body.savedContent = [(0, .MARKDOWN, some text)] := by
  rw [Message.setRawContent, hleaves] at hbody
  cases hbody
  exact ⟨rfl, rfl⟩

/-- **Building a Re message once more changes nothing in its model.** -/
theorem rebuilt_reMessage {parser : Parser} (hparser : parser.ReadsBundle) {type : MessageType}
    {text context : JString} (htext : type.bundleText = some text) {body : Message}
    (hbody : Message.fresh.setRawContent parser text = .ok body) (ai : AiState) :
    (LiveMessage.mk type context body ai).model.rebuilt =
      (LiveMessage.mk type context body ai).model := by
  obtain ⟨hraw, hsaved⟩ := savedContent_of_paragraph (hparser type text htext) hbody
  have hmodel : (LiveMessage.mk type context body ai).model =
      ⟨type, some context, some text, some [(0, .MARKDOWN, some text)]⟩ := by
    rw [LiveMessage.model, hraw, hsaved]
  rw [hmodel, MessageModel.rebuilt, htext]
  rfl

end Reloadium.Ai
