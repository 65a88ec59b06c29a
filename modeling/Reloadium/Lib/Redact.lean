import Reloadium.Lib.Regex
import Reloadium.Lib.Replace

namespace Reloadium.Lib

/-!
# Library — what is left when words have been replaced by a marker

`Redacted M w s s'` says that `s'` is `s` with the marker `w` for some of its stretches, and that
no word of `M` begins at a letter that was kept.  When the words lack the first and the last letter
of the marker and do not occur inside it, none of them is left.

* `Redacted.not_occurs` — **no word is left**;
* `Redacted.occurs_of_occurs` — no word appears that was not there;
* `redacted_replace`, `Regex.redacted_replaceAll` — replacing a word, and the matches of a
  regular expression;
* `not_infix_redactAll`, `redactAll_eq_self_iff` — one replacement after another: no word of any of
  them is left, and only a text with one of the words is changed.
-/

variable {α : Type*}

/-- `s'` is `s` with `w` for some of its stretches, all that begin with a word of `M` included. -/
inductive Redacted (M : List α → Prop) (w : List α) : List α → List α → Prop
  | nil : Redacted M w [] []
  | keep {s s' : List α} (c : α) (hkept : ∀ u, M u → ¬ u <+: c :: s) (h : Redacted M w s s') :
      Redacted M w (c :: s) (c :: s')
  | put {s s' : List α} (x : List α) (h : Redacted M w s s') : Redacted M w (x ++ s) (w ++ s')

variable {M : List α → Prop} {w s s' u v m : List α} {l z : α}

/-- The word occurs neither in the marker nor across its ends. -/
structure MarkApart (l : α) (m : List α) (z : α) (v : List α) : Prop where
  ne_nil : v ≠ []
  first : l ∉ v
  last : z ∉ v
  inside : ¬ v <:+: m

instance [DecidableEq α] (l : α) (m : List α) (z : α) (v : List α) : Decidable (MarkApart l m z v) :=
  decidable_of_iff (v ≠ [] ∧ l ∉ v ∧ z ∉ v ∧ ¬ v <:+: m)
    ⟨fun ⟨h₁, h₂, h₃, h₄⟩ => ⟨h₁, h₂, h₃, h₄⟩, fun h => ⟨h.1, h.2, h.3, h.4⟩⟩

theorem Redacted.starts_of_starts (h : Redacted M (l :: m ++ [z]) s s') (hl : l ∉ v)
    (hv : v <+: s') : v <+: s := by
  induction h generalizing v with
  | nil => exact hv
  | keep c _ _ ih =>
    cases v with
    | nil => exact List.nil_prefix
    | cons d v =>
      obtain ⟨rfl, htail⟩ := List.cons_prefix_cons.mp hv
      exact List.cons_prefix_cons.mpr ⟨rfl, ih (fun h => hl (List.mem_cons_of_mem d h)) htail⟩
  | put x _ _ =>
    cases v with
    | nil => exact List.nil_prefix
    | cons d v => exact absurd ((List.cons_prefix_cons.mp hv).1 ▸ List.mem_cons_self) hl

/-- What occurs after a marker occurs in the text that follows it. -/
theorem MarkApart.infix_of_infix_append (hv : MarkApart l m z v) (h : v <:+: l :: m ++ [z] ++ s') :
    v <:+: s' := by
  have hsplit : l :: m ++ [z] ++ s' = [] ++ l :: (m ++ z :: s') := by simp
  rw [hsplit, infix_append_cons_iff hv.first, infix_append_cons_iff hv.last] at h
  rcases h with h | h | h
  · exact absurd (List.infix_nil.mp h) hv.ne_nil
  · exact absurd h hv.inside
  · exact h

/-- No word appears that was not there. -/
theorem Redacted.occurs_of_occurs (h : Redacted M (l :: m ++ [z]) s s') (hv : MarkApart l m z v)
    (hmem : v <:+: s') : v <:+: s := by
  induction h with
  | nil => exact hmem
  | keep c hkept h ih =>
    rcases List.infix_cons_iff.mp hmem with hpre | hmem
    · exact ((Redacted.keep c hkept h).starts_of_starts hv.first hpre).isInfix
    · exact List.infix_cons (ih hmem)
  | put x _ ih =>
    exact (ih (hv.infix_of_infix_append hmem)).trans (List.suffix_append x _).isInfix

/-- **No word is left.** -/
theorem Redacted.not_occurs (h : Redacted M (l :: m ++ [z]) s s') (hv : MarkApart l m z v)
    (hword : M v) : ¬ v <:+: s' := by
  intro hmem
  induction h with
  | nil => exact hv.ne_nil (List.infix_nil.mp hmem)
  | keep c hkept h ih =>
    rcases List.infix_cons_iff.mp hmem with hpre | hmem
    · exact hkept v hword ((Redacted.keep c hkept h).starts_of_starts hv.first hpre)
    · exact ih hmem
  | put x _ ih => exact ih (hv.infix_of_infix_append hmem)

/-! ### Replacing a word -/

theorem redacted_replace [DecidableEq α] {sub : List α} (hsub : sub ≠ []) (w s : List α) :
    Redacted (· = sub) w s (replace sub w s) := by
  induction s using occurrences_induction hsub with
  | nil => exact Redacted.nil
  | found s ih =>
    rw [replace_append hsub]
    exact Redacted.put sub ih
  | other c s h ih =>
    rw [replace_cons h]
    exact Redacted.keep c (fun u hu => hu ▸ h) ih

/-! ### Replacing the matches of a regular expression -/

namespace Regex

/-- What is left of a text when its next `skip` letters are in a match; the match that is tried
first is taken. -/
def replaceAllFrom (r : Regex α) (w : List α) (skip : Nat) (b : List α) : List α → List α
  | [] => []
  | c :: s =>
    match skip with
    | skip + 1 => replaceAllFrom r w skip (b ++ [c]) s
    | 0 =>
      match (run r b (c :: s)).head? with
      | some (_ :: u, _) => w ++ replaceAllFrom r w u.length (b ++ [c]) s
      | _ => c :: replaceAllFrom r w 0 (b ++ [c]) s

/-- The text with `w` for the matches of `r`, from left to right, where `r` matches no empty
text. -/
def replaceAll (r : Regex α) (w s : List α) : List α := replaceAllFrom r w 0 [] s

theorem replaceAllFrom_length (r : Regex α) (w b t s : List α) :
    replaceAllFrom r w t.length b (t ++ s) = replaceAllFrom r w 0 (b ++ t) s := by
  induction t generalizing b with
  | nil => rw [List.append_nil]; rfl
  | cons c t ih =>
    have hstep := ih (b ++ [c])
    rw [List.append_assoc, List.singleton_append] at hstep
    exact hstep

theorem redacted_replaceAllFrom {r : Regex α} (hplain : r.Plain)
    (hne : ∀ u, Derives r [] u [] → u ≠ []) (w b s : List α) :
    Redacted (Derives r [] · []) w s (replaceAllFrom r w 0 b s) := by
  induction hn : s.length using Nat.strong_induction_on generalizing s b with
  | _ n ih =>
    match s with
    | [] => exact Redacted.nil
    | c :: s =>
      rw [List.length_cons] at hn
      have hmatch : ∀ {u t}, (u, t) ∈ run r b (c :: s) ↔ c :: s = u ++ t ∧ Derives r [] u [] :=
        fun {u t} => mem_run_iff.trans (and_congr_right fun _ => hplain.derives_iff)
      rw [replaceAllFrom]
      split
      next d u t hhead =>
        obtain ⟨heq, hd⟩ := hmatch.mp (List.mem_of_head? hhead)
        obtain ⟨rfl, hs⟩ := List.cons.inj heq
        have hs : s = u ++ t := hs
        subst hs
        have hlen : t.length < n := by
          rw [List.length_append] at hn
          omega
        rw [replaceAllFrom_length]
        exact Redacted.put (c :: u) (ih t.length hlen _ t rfl)
      next hother =>
        refine Redacted.keep c (fun u hu hpre => ?_) (ih s.length (by omega) _ s rfl)
        obtain ⟨t, ht⟩ := hpre
        -- the matcher finds something, and what it finds first is not empty
        have hmem : (u, t) ∈ run r b (c :: s) := hmatch.mpr ⟨ht.symm, hu⟩
        cases hhead : (run r b (c :: s)).head? with
        | none =>
          rw [List.head?_eq_none_iff.mp hhead] at hmem
          exact absurd hmem List.not_mem_nil
        | some found =>
          obtain ⟨v, t'⟩ := found
          have hv := (hmatch.mp (List.mem_of_head? hhead)).2
          cases v with
          | nil => exact hne [] hv rfl
          | cons d v => exact hother d v t' hhead

theorem redacted_replaceAll {r : Regex α} (hplain : r.Plain)
    (hne : ∀ u, Derives r [] u [] → u ≠ []) (w s : List α) :
    Redacted (Derives r [] · []) w s (replaceAll r w s) :=
  redacted_replaceAllFrom hplain hne w [] s

end Regex

/-! ### Texts that stay as they are -/

namespace Regex

theorem replaceAllFrom_of_not_infix {r : Regex α} (hplain : r.Plain) (w b : List α)
    (h : ∀ u, Derives r [] u [] → ¬ u <:+: s) : replaceAllFrom r w 0 b s = s := by
  induction s generalizing b with
  | nil => rfl
  | cons c s ih =>
    have hrest : ∀ u, Derives r [] u [] → ¬ u <:+: s := fun u hu hmem =>
      h u hu (List.infix_cons hmem)
    rw [replaceAllFrom]
    split
    next d u t hhead =>
      obtain ⟨heq, hd⟩ := mem_run_iff.mp (List.mem_of_head? hhead)
      exact absurd (heq ▸ List.prefix_append _ _).isInfix (h _ (hplain.derives hd [] []))
    next => rw [ih (b ++ [c]) hrest]

end Regex

/-! ### One replacement after another -/

/-- A replacement of the words `words` by a marker between `l` and `z`. -/
structure Redaction (α : Type*) (l z : α) where
  mark : List α
  words : List α → Prop
  apply : List α → List α
  redacted : ∀ s, Redacted words (l :: mark ++ [z]) s (apply s)
  /-- A text without such words stays as it is. -/
  apply_of_not_infix : ∀ s, (∀ v, words v → ¬ v <:+: s) → apply s = s

namespace Redaction

/-- A word is replaced. -/
def ofWord [DecidableEq α] (mark : List α) {sub : List α} (hsub : sub ≠ []) : Redaction α l z where
  mark := mark
  words := (· = sub)
  apply := replace sub (l :: mark ++ [z])
  redacted := redacted_replace hsub (l :: mark ++ [z])
  apply_of_not_infix := fun _ h => replace_of_not_infix (h sub rfl)

/-- The matches of a regular expression are replaced. -/
def ofRegex (mark : List α) {r : Regex α} (hplain : r.Plain)
    (hne : ∀ u, Regex.Derives r [] u [] → u ≠ []) : Redaction α l z where
  mark := mark
  words := (Regex.Derives r [] · [])
  apply := r.replaceAll (l :: mark ++ [z])
  redacted := Regex.redacted_replaceAll hplain hne (l :: mark ++ [z])
  apply_of_not_infix := fun _ h => Regex.replaceAllFrom_of_not_infix hplain _ [] h

end Redaction

def redactAll (steps : List (Redaction α l z)) (s : List α) : List α :=
  steps.foldl (fun s step => step.apply s) s

variable {steps before after : List (Redaction α l z)} {step : Redaction α l z}

theorem infix_of_infix_redactAll (hv : ∀ step ∈ steps, MarkApart l step.mark z v)
    (h : v <:+: redactAll steps s) : v <:+: s := by
  induction steps generalizing s with
  | nil => exact h
  | cons step steps ih =>
    obtain ⟨hstep, hsteps⟩ := List.forall_mem_cons.mp hv
    exact (step.redacted s).occurs_of_occurs hstep (ih hsteps h)

theorem redactAll_of_not_infix (h : ∀ step ∈ steps, ∀ v, step.words v → ¬ v <:+: s) :
    redactAll steps s = s := by
  induction steps with
  | nil => rfl
  | cons step steps ih =>
    obtain ⟨hstep, hsteps⟩ := List.forall_mem_cons.mp h
    rw [redactAll, List.foldl_cons, step.apply_of_not_infix s hstep]
    exact ih hsteps

/-- The words of each replacement are apart from the markers of its own and of those after it. -/
def MarkApartFromNext : List (Redaction α l z) → Prop
  | [] => True
  | step :: after =>
    (∀ v, step.words v → ∀ step' ∈ step :: after, MarkApart l step'.mark z v) ∧ MarkApartFromNext after

theorem MarkApartFromNext.split (h : MarkApartFromNext (before ++ step :: after)) (hword : step.words v) :
    ∀ step' ∈ step :: after, MarkApart l step'.mark z v := by
  induction before with
  | nil => exact h.1 v hword
  | cons first before ih => exact ih h.2

/-- **No word of a replacement is left** at the end. -/
theorem not_infix_redactAll (hapart : MarkApartFromNext steps) (hstep : step ∈ steps)
    (hword : step.words v) (s : List α) : ¬ v <:+: redactAll steps s := by
  obtain ⟨before, after, rfl⟩ := List.append_of_mem hstep
  obtain ⟨hown, hafter⟩ := List.forall_mem_cons.mp (hapart.split hword)
  intro h
  rw [redactAll, List.foldl_append, List.foldl_cons] at h
  exact (step.redacted _).not_occurs hown hword (infix_of_infix_redactAll hafter h)

/-- Only a text with one of the words is changed. -/
theorem redactAll_eq_self_iff (hapart : MarkApartFromNext steps) (s : List α) :
    redactAll steps s = s ↔ ∀ step ∈ steps, ∀ v, step.words v → ¬ v <:+: s := by
  refine ⟨fun heq step hstep v hword => ?_, redactAll_of_not_infix⟩
  rw [← heq]
  exact not_infix_redactAll hapart hstep hword s

end Reloadium.Lib
