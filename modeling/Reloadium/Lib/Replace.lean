import Mathlib.Data.List.Infix
import Reloadium.Lib.Infixes

namespace Reloadium.Lib

/-!
# Library — replacing the occurrences of a word

`replace sub w s` puts `w` for every occurrence of `sub` in `s`, from left to right; the
occurrences do not overlap.

* `replace_append`, `replace_cons` — the two steps of the scan;
* `occurrences_induction` — induction along the scan;
* `count_replace`, `mem_replace`, `head?_replace` — what the replacement keeps;
* `replace_append_cons`, `replace_intercalate` — replacing between separators;
* `replace_nil_eq_self_iff` — when leaving out the occurrences changes nothing.
-/

variable {α : Type*} [DecidableEq α] {sub w s : List α} {a b c : α}

/-- What is left of a text when its next `skip` letters are in an occurrence. -/
def replaceFrom (sub w : List α) (skip : Nat) : List α → List α
  | [] => []
  | c :: s =>
    match skip with
    | skip + 1 => replaceFrom sub w skip s
    | 0 =>
      if sub <+: c :: s then w ++ replaceFrom sub w (sub.length - 1) s
      else c :: replaceFrom sub w 0 s

/-- The text with `w` for every occurrence of `sub`, which is not empty. -/
def replace (sub w s : List α) : List α := replaceFrom sub w 0 s

theorem replaceFrom_length (sub w t s : List α) :
    replaceFrom sub w t.length (t ++ s) = replace sub w s := by
  induction t with
  | nil => rfl
  | cons c t ih => exact ih

@[simp] theorem replace_nil (sub w : List α) : replace sub w [] = [] := rfl

/-- A letter at which no occurrence begins. -/
theorem replace_cons (h : ¬ sub <+: c :: s) : replace sub w (c :: s) = c :: replace sub w s := by
  rw [replace, replaceFrom, if_neg h]
  rfl

/-- An occurrence. -/
theorem replace_append (hsub : sub ≠ []) (w s : List α) :
    replace sub w (sub ++ s) = w ++ replace sub w s := by
  obtain ⟨c, t, rfl⟩ := List.exists_cons_of_ne_nil hsub
  have hbegins : c :: t <+: c :: (t ++ s) := List.prefix_append (c :: t) s
  rw [replace, List.cons_append, replaceFrom, if_pos hbegins, List.length_cons,
    Nat.add_sub_cancel, replaceFrom_length]

/-- **Induction along the scan.** -/
theorem occurrences_induction {P : List α → Prop} (hsub : sub ≠ []) (nil : P [])
    (found : ∀ s, P s → P (sub ++ s))
    (other : ∀ c s, ¬ sub <+: c :: s → P s → P (c :: s)) (s : List α) : P s := by
  induction hn : s.length using Nat.strong_induction_on generalizing s with
  | _ n ih =>
    match s with
    | [] => exact nil
    | c :: s =>
      rw [List.length_cons] at hn
      by_cases h : sub <+: c :: s
      · obtain ⟨t, ht⟩ := h
        have hpos := List.length_pos_of_ne_nil hsub
        have hlen := congrArg List.length ht
        rw [List.length_append, List.length_cons] at hlen
        rw [← ht]
        exact found t (ih t.length (by omega) t rfl)
      · exact other c s h (ih s.length (by omega) s rfl)

/-- A letter that the word and its replacement have equally often. -/
theorem count_replace (hsub : sub ≠ []) (hcount : w.count a = sub.count a) (s : List α) :
    (replace sub w s).count a = s.count a := by
  induction s using occurrences_induction hsub with
  | nil => rfl
  | found s ih => rw [replace_append hsub, List.count_append, List.count_append, ih, hcount]
  | other c s h ih => rw [replace_cons h, List.count_cons, List.count_cons, ih]

theorem mem_replace (hsub : sub ≠ []) (hmem : a ∈ replace sub w s) : a ∈ s ∨ a ∈ w := by
  induction s using occurrences_induction hsub with
  | nil => exact Or.inl hmem
  | found s ih =>
    rw [replace_append hsub, List.mem_append] at hmem
    rcases hmem with hw | hs
    · exact Or.inr hw
    · exact (ih hs).imp_left (List.mem_append_right sub)
  | other c s h ih =>
    rw [replace_cons h, List.mem_cons] at hmem
    rcases hmem with rfl | hs
    · exact Or.inl List.mem_cons_self
    · exact (ih hs).imp_left (List.mem_cons_of_mem c)

/-- The first letter stays, or is that of the replacement. -/
theorem head?_replace (hsub : sub ≠ []) (h : (replace sub (b :: w) s).head? = some a) :
    s.head? = some a ∨ a = b := by
  induction s using occurrences_induction hsub with
  | nil => exact Or.inl h
  | found s ih =>
    rw [replace_append hsub, List.cons_append, List.head?_cons, Option.some.injEq] at h
    exact Or.inr h.symm
  | other c s hc ih =>
    rw [replace_cons hc, List.head?_cons] at h
    exact Or.inl h

/-! ### Occurrences on both sides of a separator -/

/-- A letter that the word lacks splits the scan. -/
theorem replace_append_cons (hsub : sub ≠ []) (hc : c ∉ sub) (w s t : List α) :
    replace sub w (s ++ c :: t) = replace sub w s ++ c :: replace sub w t := by
  induction s using occurrences_induction hsub with
  | nil =>
    refine replace_cons fun h => ?_
    have hnil := (prefix_append_cons_iff (s := []) hc).mp h
    exact hsub (List.prefix_nil.mp hnil)
  | found s ih =>
    rw [List.append_assoc, replace_append hsub, replace_append hsub, ih, List.append_assoc]
  | other a s h ih =>
    have h' : ¬ sub <+: a :: (s ++ c :: t) := fun hpre =>
      h ((prefix_append_cons_iff (s := a :: s) hc).mp hpre)
    rw [List.cons_append, replace_cons h', replace_cons h, ih, List.cons_append]

theorem replace_intercalate (hsub : sub ≠ []) (hc : c ∉ sub) (w : List α) (ss : List (List α)) :
    replace sub w ([c].intercalate ss) = [c].intercalate (ss.map (replace sub w)) := by
  induction ss with
  | nil => rfl
  | cons s ss ih =>
    cases ss with
    | nil => rw [List.intercalate_singleton, List.map_singleton, List.intercalate_singleton]
    | cons s' ss =>
      rw [List.map_cons, List.map_cons, List.intercalate_cons_cons, List.intercalate_cons_cons,
        List.append_assoc, List.append_assoc, List.singleton_append, List.singleton_append,
        replace_append_cons hsub hc, ih, List.map_cons]

/-! ### Leaving out the occurrences -/

theorem replace_of_not_infix (h : ¬ sub <:+: s) : replace sub w s = s := by
  induction s with
  | nil => rfl
  | cons c s ih =>
    rw [List.infix_cons_iff, not_or] at h
    rw [replace_cons h.1, ih h.2]

theorem length_replace_nil_le (hsub : sub ≠ []) (s : List α) :
    (replace sub [] s).length ≤ s.length := by
  induction s using occurrences_induction hsub with
  | nil => exact Nat.le_refl _
  | found s ih =>
    rw [replace_append hsub, List.nil_append, List.length_append]
    omega
  | other c s h ih =>
    rw [replace_cons h, List.length_cons, List.length_cons]
    omega

/-- A text that stays as it is has no occurrence. -/
theorem replace_nil_eq_self_iff (hsub : sub ≠ []) : replace sub [] s = s ↔ ¬ sub <:+: s := by
  refine ⟨fun heq hinfix => ?_, replace_of_not_infix⟩
  induction s using occurrences_induction hsub with
  | nil => exact hsub (List.infix_nil.mp hinfix)
  | found s ih =>
    have hle := length_replace_nil_le hsub s
    have hpos := List.length_pos_of_ne_nil hsub
    have hlen := congrArg List.length heq
    rw [replace_append hsub, List.nil_append, List.length_append] at hlen
    omega
  | other c s h ih =>
    rw [replace_cons h] at heq
    exact ih (List.cons.inj heq).2 ((List.infix_cons_iff.mp hinfix).resolve_left h)

/-! ### Words of two letters -/

theorem replace_cons_of_ne (hne : c ≠ a) : replace [a, b] w (c :: s) = c :: replace [a, b] w s :=
  replace_cons fun h => hne (List.cons_prefix_cons.mp h).1.symm

theorem replace_cons_of_head? (hb : s.head? ≠ some b) :
    replace [a, b] w (c :: s) = c :: replace [a, b] w s := by
  refine replace_cons fun h => hb ?_
  obtain ⟨t, rfl⟩ := (List.cons_prefix_cons.mp h).2
  rfl

theorem replace_pair (a b : α) (w s : List α) :
    replace [a, b] w (a :: b :: s) = w ++ replace [a, b] w s :=
  replace_append (List.cons_ne_nil a [b]) w s

end Reloadium.Lib
