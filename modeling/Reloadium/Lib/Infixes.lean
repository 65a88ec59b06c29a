import Mathlib.Data.List.Infix
import Mathlib.Data.List.TakeWhile

namespace Reloadium.Lib

/-!
# Library — where a word can occur in a text

A word without the separator `c` occurs in a text that is cut at a `c` only on one side of it,
and a word occurs in no text that lacks one of its letters.  What a separator cuts a text into has
the letters of the text, without the separator (`mem_of_mem_splitOn`).
-/

variable {α : Type*} {c : α} {sub s t : List α}

theorem not_infix_of_notMem (hc : c ∈ sub) (hs : c ∉ s) : ¬ sub <:+: s :=
  fun h => hs (h.subset hc)

/-- A prefix without the separator ends before it. -/
theorem prefix_append_cons_iff (hc : c ∉ sub) : sub <+: s ++ c :: t ↔ sub <+: s := by
  refine ⟨fun h => ?_, fun h => h.trans (List.prefix_append _ _)⟩
  rcases List.prefix_or_prefix_of_prefix h (List.prefix_append s (c :: t)) with hle | hge
  · exact hle
  · obtain ⟨r, rfl⟩ := hge
    rw [List.prefix_append_right_inj] at h
    cases r with
    | nil => rw [List.append_nil]
    | cons a r =>
      have hac : a = c := (List.cons_prefix_cons.mp h).1
      exact absurd (List.mem_append_right s (hac ▸ List.mem_cons_self)) hc

/-- **Separators.** -/
theorem infix_append_cons_iff (hc : c ∉ sub) :
    sub <:+: s ++ c :: t ↔ sub <:+: s ∨ sub <:+: t := by
  induction s with
  | nil =>
    rw [List.nil_append, List.infix_cons_iff]
    refine or_congr ⟨fun h => ?_, fun h => ?_⟩ Iff.rfl
    · have hnil := (prefix_append_cons_iff (s := []) hc).mp h
      exact hnil.isInfix
    · rw [List.infix_nil.mp h]
      exact List.nil_prefix
  | cons a s ih =>
    rw [List.cons_append, List.infix_cons_iff, List.infix_cons_iff, ih, ← List.cons_append,
      prefix_append_cons_iff hc, or_assoc]

/-- Texts that are cut at their first separator. -/
theorem append_cons_inj {u v : List α} (hs : c ∉ s) (ht : c ∉ t) :
    s ++ c :: u = t ++ c :: v ↔ s = t ∧ u = v := by
  refine ⟨fun h => ?_, fun ⟨hst, huv⟩ => by rw [hst, huv]⟩
  induction s generalizing t with
  | nil =>
    cases t with
    | nil => exact ⟨rfl, (List.cons.inj h).2⟩
    | cons d t => exact absurd ((List.cons.inj h).1 ▸ List.mem_cons_self) ht
  | cons a s ih =>
    obtain ⟨-, hs⟩ := not_or.mp (mt List.mem_cons.mpr hs)
    cases t with
    | nil => exact absurd ((List.cons.inj h).1 ▸ List.mem_cons_self) ‹c ∉ a :: s›
    | cons d t =>
      obtain ⟨-, ht⟩ := not_or.mp (mt List.mem_cons.mpr ht)
      obtain ⟨had, h⟩ := List.cons.inj h
      obtain ⟨hst, huv⟩ := ih hs ht h
      exact ⟨by rw [had, hst], huv⟩

/-- A word does not begin in a text without its first letter. -/
theorem infix_append_iff_of_notMem (hc : c ∉ s) : c :: sub <:+: s ++ t ↔ c :: sub <:+: t := by
  induction s with
  | nil => rfl
  | cons a s ih =>
    obtain ⟨hca, hcs⟩ := not_or.mp (mt List.mem_cons.mpr hc)
    rw [List.cons_append, List.infix_cons_iff, ih hcs, List.cons_prefix_cons]
    exact or_iff_right fun h => hca h.1

/-- The characters of the pieces that a separator cuts a text into. -/
theorem mem_of_mem_splitOn [BEq α] [LawfulBEq α] {a sep : α} {l : List α}
    (hl : l ∈ s.splitOn sep) (ha : a ∈ l) : a ∈ s ∧ a ≠ sep := by
  induction s generalizing l with
  | nil =>
    obtain rfl := List.mem_singleton.mp hl
    exact absurd ha List.not_mem_nil
  | cons d s ih =>
    have hrest {l : List α} (hl : l ∈ s.splitOn sep) (ha : a ∈ l) :
        a ∈ d :: s ∧ a ≠ sep := ⟨List.mem_cons_of_mem d (ih hl ha).1, (ih hl ha).2⟩
    rw [List.splitOn_cons_eq_if_modifyHead] at hl
    split at hl
    · rcases List.mem_cons.mp hl with rfl | hl
      · exact absurd ha List.not_mem_nil
      · exact hrest hl ha
    · next hd =>
      obtain ⟨line, rest, hlines⟩ := List.exists_cons_of_ne_nil (List.splitOn_ne_nil sep s)
      rw [hlines, List.modifyHead_cons] at hl
      rcases List.mem_cons.mp hl with rfl | hl
      · rcases List.mem_cons.mp ha with rfl | ha
        · exact ⟨List.mem_cons_self, by simpa using hd⟩
        · exact hrest (hlines ▸ List.mem_cons_self) ha
      · exact hrest (hlines ▸ List.mem_cons_of_mem _ hl) ha

end Reloadium.Lib
