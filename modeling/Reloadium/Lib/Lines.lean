import Mathlib.Data.List.Basic
import Mathlib.Data.List.Count

namespace Reloadium.Lib

/-!
# Library — the lines of a text

A text is a list of units, one of which ends a line.  A line does not contain its newline, and
what follows the last newline is a line too, possibly an empty one.

* `Lines.cut` — the text around a line;
* `Lines.start`, `Lines.stop` — where a line starts and ends;
* `Lines.number` — the line an offset is in;
* `Lines.IsCut` — what `cut` leaves on either side: `isCut_of_cut`.
-/

namespace Lines

variable {α : Type*} [DecidableEq α] {nl : α} {s : List α} {n : Nat}

/-- A text cut at the ends of one of its lines. -/
structure Cut (α : Type*) where
  before : List α
  line : List α
  after : List α
  deriving DecidableEq, Repr

/-- Cut a text at the ends of its line `n`, counted from zero; none if it has fewer lines. -/
def cut (nl : α) : List α → Nat → Option (Cut α)
  | [], 0 => some ⟨[], [], []⟩
  | [], _ + 1 => none
  | a :: s, 0 =>
    if a = nl then some ⟨[], [], a :: s⟩
    else (cut nl s 0).map fun c => { c with line := a :: c.line }
  | a :: s, n + 1 =>
    (if a = nl then cut nl s n else cut nl s (n + 1)).map fun c =>
      { c with before := a :: c.before }

/-- The offset at which line `n` starts. -/
def start (nl : α) (s : List α) (n : Nat) : Option Nat :=
  (cut nl s n).map fun c => c.before.length

/-- The offset at which line `n` ends, which is that of its newline if it has one. -/
def stop (nl : α) (s : List α) (n : Nat) : Option Nat :=
  (cut nl s n).map fun c => c.before.length + c.line.length

/-- The line of an offset. -/
def number (nl : α) (s : List α) (offset : Nat) : Nat := (s.take offset).count nl

/-- The parts of a text around its line `n`. -/
structure IsCut (nl : α) (s : List α) (n : Nat) (c : Cut α) : Prop where
  append : c.before ++ c.line ++ c.after = s
  /-- `n` newlines come before the line. -/
  count : c.before.count nl = n
  /-- A line that is not the first comes right after a newline. -/
  last : ∀ a ∈ c.before.getLast?, a = nl
  /-- The line itself has none. -/
  notMem : nl ∉ c.line
  /-- It is the last one, or a newline ends it. -/
  head : ∀ a ∈ c.after.head?, a = nl

/-- The line after a unit that does not end it. -/
theorem isCut_cons_line {a : α} (ha : a ≠ nl) {d : Cut α} (h : IsCut nl s 0 d) :
    IsCut nl (a :: s) 0 { d with line := a :: d.line } := by
  -- no newline comes before the first line
  have hnil : d.before = [] := by
    cases hb : d.before.getLast? with
    | none => exact List.getLast?_eq_none_iff.mp hb
    | some b =>
      have hmem : nl ∈ d.before := h.last b hb ▸ List.mem_of_getLast? hb
      have hpos : 0 < d.before.count nl := List.count_pos_iff.mpr hmem
      rw [h.count] at hpos
      cases hpos
  have happend := h.append
  rw [hnil, List.nil_append] at happend
  refine ⟨?_, h.count, h.last, ?_, h.head⟩
  · rw [hnil, List.nil_append, List.cons_append, happend]
  · rw [List.mem_cons, not_or]
    exact ⟨Ne.symm ha, h.notMem⟩

/-- A later line after a unit more. -/
theorem isCut_cons_before {a : α} {m : Nat} {d : Cut α} (h : IsCut nl s m d)
    (hcount : (a :: d.before).count nl = n) (hlast : d.before = [] → a = nl) :
    IsCut nl (a :: s) n { d with before := a :: d.before } := by
  refine ⟨?_, hcount, fun b hb => ?_, h.notMem, h.head⟩
  · rw [List.cons_append, List.cons_append, h.append]
  · rw [List.getLast?_cons] at hb
    cases hl : d.before.getLast? with
    | none =>
      have hab : a = b := by simpa [hl] using hb
      rw [← hab]
      exact hlast (List.getLast?_eq_none_iff.mp hl)
    | some b' =>
      have hbb : b' = b := by simpa [hl] using hb
      exact h.last b (hbb ▸ hl)

/-- **Spec lemma.** -/
theorem isCut_of_cut {c : Cut α} (h : cut nl s n = some c) : IsCut nl s n c := by
  induction s generalizing n c with
  | nil =>
    cases n with
    | zero =>
      cases h
      exact ⟨rfl, rfl, nofun, List.not_mem_nil, nofun⟩
    | succ n => cases h
  | cons a s ih =>
    cases n with
    | zero =>
      rw [cut] at h
      by_cases ha : a = nl
      · rw [if_pos ha] at h
        cases h
        exact ⟨rfl, rfl, nofun, List.not_mem_nil, fun _ hb => (Option.some.inj hb) ▸ ha⟩
      · rw [if_neg ha] at h
        obtain ⟨d, hd, rfl⟩ := Option.map_eq_some_iff.mp h
        exact isCut_cons_line ha (ih hd)
    | succ n =>
      rw [cut] at h
      obtain ⟨d, hd, rfl⟩ := Option.map_eq_some_iff.mp h
      by_cases ha : a = nl
      · rw [if_pos ha] at hd
        have hcut := ih hd
        refine isCut_cons_before hcut ?_ fun _ => ha
        rw [ha, List.count_cons_self, hcut.count]
      · rw [if_neg ha] at hd
        have hcut := ih hd
        refine isCut_cons_before hcut ?_ fun hnil => ?_
        · rw [List.count_cons_of_ne ha, hcut.count]
        · -- a newline comes before the line
          have hcount := hcut.count
          rw [hnil] at hcount
          cases hcount

/-- The text up to a line, and the text from its end on. -/
theorem IsCut.take_drop {c : Cut α} (h : IsCut nl s n c) :
    s.take c.before.length = c.before ∧ s.drop (c.before.length + c.line.length) = c.after := by
  rw [← h.append]
  apply And.intro
  · rw [List.append_assoc, List.take_left]
  · rw [← List.length_append, List.drop_left]

/-- The newlines of a text are those before and after a line. -/
theorem IsCut.count_eq {c : Cut α} (h : IsCut nl s n c) :
    s.count nl = c.before.count nl + c.after.count nl := by
  rw [← h.append, List.count_append, List.count_append, List.count_eq_zero.mpr h.notMem,
    Nat.add_zero]

theorem number_mono {offset offset' : Nat} (h : offset ≤ offset') :
    number nl s offset ≤ number nl s offset' :=
  ((List.take_prefix_take_left h).sublist).count_le nl

/-- The newlines up to a later offset. -/
theorem number_add (offset k : Nat) :
    number nl s (offset + k) = number nl s offset + ((s.drop offset).take k).count nl := by
  rw [number, number, List.take_add, List.count_append]

/-- The lines are what the newlines cut the text into. -/
theorem map_line_cut (nl : α) (s : List α) (n : Nat) :
    (cut nl s n).map Cut.line = (s.splitOn nl)[n]? := by
  induction s generalizing n with
  | nil => cases n <;> rfl
  | cons a s ih =>
    obtain ⟨line, rest, hlines⟩ := List.exists_cons_of_ne_nil (List.splitOn_ne_nil nl s)
    have hbefore (c : Option (Cut α)) :
        (c.map fun c => { c with before := a :: c.before }).map Cut.line = c.map Cut.line := by
      rw [Option.map_map]
      rfl
    rw [List.splitOn_cons_eq_if_modifyHead, hlines]
    by_cases ha : a = nl
    · rw [if_pos (beq_iff_eq.mpr ha)]
      cases n with
      | zero =>
        rw [cut, if_pos ha]
        rfl
      | succ n =>
        rw [cut, if_pos ha, hbefore, ih, hlines]
        rfl
    · rw [if_neg (by simpa using ha)]
      have ih := ih n
      cases n with
      | zero =>
        rw [hlines] at ih
        rw [cut, if_neg ha]
        cases hcut : cut nl s 0 with
        | none =>
          rw [hcut] at ih
          cases ih
        | some c =>
          rw [hcut] at ih
          have hline : c.line = line := by simpa using ih
          simp [hline]
      | succ n =>
        rw [hlines] at ih
        rw [cut, if_neg ha, hbefore, ih]
        rfl

end Lines

end Reloadium.Lib
