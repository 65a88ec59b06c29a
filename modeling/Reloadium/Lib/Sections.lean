import Mathlib.Logic.Function.Basic
import Mathlib.Data.List.Basic

namespace Reloadium.Lib

/-!
# Library — a list with a separator before each new section

Some elements of a list name the section they stand in.  The list is printed one element
after the other, from a section that is open already, with a separator before each element
that names another section than the last one named.

* `Sections.items base xs` — what is printed for `xs` when the section `base` is open;
* `Sections.current base xs` — the section that is open after `xs`;
* `Sections.items_append`, `Sections.items_filterMap` — printing in two parts, and reading
  a print;
* `Sections.items_base_iff` — which parts of the open section can be seen in the print;
* `Sections.items_filter_iff` — nothing can be left out unseen.
-/

/-- How the sections are printed: the separator of a section, an element, and the section
    that an element names. -/
structure Sections (κ α ι : Type*) where
  separator : κ → ι
  entry : α → ι
  named : α → Option κ

namespace Sections

variable {κ α β ι : Type*} [DecidableEq κ] (S : Sections κ α ι)

/-- The section that is open after an element. -/
def after (base : κ) (x : α) : κ := (S.named x).getD base

/-- What is printed for an element. -/
def print (base : κ) (x : α) : List ι :=
  (if S.after base x = base then [] else [S.separator (S.after base x)]) ++ [S.entry x]

/-- The section that is open after the elements. -/
def current (base : κ) (xs : List α) : κ := xs.foldl S.after base

/-- What is printed for the elements. -/
def items (base : κ) : List α → List ι
  | [] => []
  | x :: xs => S.print base x ++ items (S.after base x) xs

@[simp] theorem items_nil (base : κ) : S.items base [] = [] := rfl

theorem items_cons (base : κ) (x : α) (xs : List α) :
    S.items base (x :: xs) = S.print base x ++ S.items (S.after base x) xs := rfl

omit [DecidableEq κ] in
theorem current_append (base : κ) (xs ys : List α) :
    S.current base (xs ++ ys) = S.current (S.current base xs) ys := by
  simp only [current, List.foldl_append]

/-- Printing in two parts. -/
theorem items_append (base : κ) (xs ys : List α) :
    S.items base (xs ++ ys) = S.items base xs ++ S.items (S.current base xs) ys := by
  induction xs generalizing base with
  | nil => rfl
  | cons x xs ih =>
    rw [List.cons_append, items_cons, items_cons, ih, List.append_assoc]
    rfl

/-! ### Changing the elements -/

variable {S}

omit [DecidableEq κ] in
/-- Only the sections that the elements name matter for the open one. -/
theorem current_congr {T : Sections κ α ι} {xs : List α}
    (h : ∀ x ∈ xs, S.named x = T.named x) (base : κ) : S.current base xs = T.current base xs := by
  induction xs generalizing base with
  | nil => rfl
  | cons x xs ih =>
    have hx : S.after base x = T.after base x := by
      rw [after, after, h x List.mem_cons_self]
    show S.current (S.after base x) xs = T.current (T.after base x) xs
    rw [hx]
    exact ih (fun y hy => h y (List.mem_cons_of_mem x hy)) _

/-- A print, read with `g`, is the print of the elements that `f` reads, when `f` reads all
    of them and keeps the sections that they name. -/
theorem items_filterMap {ι' : Type*} {T : Sections κ β ι'} {g : ι → Option ι'}
    {f : α → Option β} (hsep : ∀ k, g (S.separator k) = some (T.separator k)) {xs : List α}
    (h : ∀ x ∈ xs, ∃ y, f x = some y ∧ g (S.entry x) = some (T.entry y) ∧
      S.named x = T.named y) (base : κ) :
    (S.items base xs).filterMap g = T.items base (xs.filterMap f) := by
  induction xs generalizing base with
  | nil => rfl
  | cons x xs ih =>
    obtain ⟨y, hy, hentry, hnamed⟩ := h x List.mem_cons_self
    have hafter : S.after base x = T.after base y := by rw [after, after, hnamed]
    have hprint : (S.print base x).filterMap g = T.print base y := by
      rw [print, print, hafter]
      split <;> simp [hsep, hentry]
    rw [items_cons, List.filterMap_append, hprint, ih fun z hz => h z (List.mem_cons_of_mem x hz),
      List.filterMap_cons_some hy, items_cons, hafter]

/-- Only the sections that the printed elements name matter for the print. -/
theorem items_congr {T : Sections κ α ι} (hsep : S.separator = T.separator)
    (hentry : S.entry = T.entry) {xs : List α} (h : ∀ x ∈ xs, S.named x = T.named x) (base : κ) :
    S.items base xs = T.items base xs := by
  have hmap : (S.items base xs).filterMap some = T.items base (xs.filterMap some) :=
    items_filterMap (fun k => by rw [hsep]) (fun x hx => ⟨x, rfl, by rw [hentry], h x hx⟩) base
  simpa using hmap

/-! ### What a print tells -/

variable {isEntry : ι → Bool}

/-- The print has one entry for each element. -/
theorem countP_items (hsep : ∀ k, isEntry (S.separator k) = false)
    (hentry : ∀ x, isEntry (S.entry x) = true) (base : κ) (xs : List α) :
    (S.items base xs).countP isEntry = xs.length := by
  induction xs generalizing base with
  | nil => rfl
  | cons x xs ih =>
    have hprint : (S.print base x).countP isEntry = 1 := by
      unfold print
      split <;> simp [hsep, hentry]
    rw [items_cons, List.countP_append, ih, hprint, List.length_cons, Nat.add_comm]

/-- Whatever section is open, an element that names none is printed alone. -/
theorem print_of_named_none {x : α} (h : S.named x = none) (base : κ) :
    S.print base x = [S.entry x] := by simp [print, after, h]

/-- **Two open sections print alike** exactly when the first section named is both of them
    or neither. -/
theorem items_base_iff (hsep : ∀ k, isEntry (S.separator k) = false)
    (hentry : ∀ x, isEntry (S.entry x) = true) (base base' : κ) (xs : List α) :
    S.items base xs = S.items base' xs ↔
      ∀ k, xs.findSome? S.named = some k → (k = base ↔ k = base') := by
  induction xs with
  | nil => simp
  | cons x xs ih =>
    rw [items_cons, items_cons, List.findSome?_cons]
    cases hx : S.named x with
    | none =>
      have hafter : ∀ b, S.after b x = b := fun b => by rw [after, hx, Option.getD_none]
      rw [print_of_named_none hx, print_of_named_none hx, hafter, hafter]
      exact (List.append_right_inj _).trans ih
    | some k =>
      -- behind this element both have its section open
      have hafter : ∀ b, S.after b x = k := fun b => by rw [after, hx, Option.getD_some]
      have hne : S.separator k ≠ S.entry x := fun heq => by
        have hno := hsep k
        rw [heq, hentry] at hno
        cases hno
      simp only [print, hafter, List.append_left_inj, Option.some.injEq, forall_eq']
      by_cases hb : k = base <;> by_cases hb' : k = base' <;> simp [hb, hb']

/-- **Nothing is left out unseen**: a print of some of the elements, from whatever open
    section, is the print of all only when it leaves none out. -/
theorem items_filter_iff (hsep : ∀ k, isEntry (S.separator k) = false)
    (hentry : ∀ x, isEntry (S.entry x) = true) (base base' : κ) (xs : List α) (keep : α → Bool) :
    S.items base (xs.filter keep) = S.items base' xs ↔
      (∀ x ∈ xs, keep x = true) ∧
        ∀ k, xs.findSome? S.named = some k → (k = base ↔ k = base') := by
  apply Iff.intro
  · intro heq
    -- count the entries
    have hlen : (xs.filter keep).length = xs.length := by
      rw [← countP_items hsep hentry base, heq, countP_items hsep hentry]
    have hall := List.length_filter_eq_length_iff.mp hlen
    rw [List.filter_eq_self.mpr hall] at heq
    exact ⟨hall, (items_base_iff hsep hentry base base' xs).mp heq⟩
  · rintro ⟨hall, hbase⟩
    rw [List.filter_eq_self.mpr hall]
    exact (items_base_iff hsep hentry base base' xs).mpr hbase

end Sections

end Reloadium.Lib
