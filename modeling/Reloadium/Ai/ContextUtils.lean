import Mathlib.Algebra.Ring.Int.Defs
import Mathlib.Algebra.Ring.Nat
import Reloadium.Lib.JavaText

namespace Reloadium.Ai

open Reloadium.Lib JString

/-!
# Ai — code with line numbers

Model of `ContextUtils`: the code of a prompt is shown with a number before each line, and the
numbers of a code block in an answer are stripped again.

* `getLineNumberedCode` — numbering; line numbers are `int`s;
* `stripLineNumbers` — the replacement of a regular expression, as one scan of the text;
* `stripLineNumbers_appendRows` — what is left of numbered rows;
* `stripLineNumbers_iff` — when stripping undoes numbering.
-/

/-! ### Numbering -/

/-- A line with its number. -/
def numberedRow (line : Int32) (content : JString) : JString :=
  ofInt32 line ++ ofString " " ++ ofString ": " ++ content

/-- The number of the line at `i`. -/
def lineNumber (firstLine : Int32) (i : Nat) : Int32 := firstLine + Int32.ofNat i + 1

/-- The lines from the one at `i` on, with their numbers. -/
def rows (firstLine : Int32) (i : Nat) : List JString → List JString
  | [] => []
  | content :: rest => numberedRow (lineNumber firstLine i) content :: rows firstLine (i + 1) rest

/-- The lines of the code that are shown. -/
def codeLines (code : JString) : List JString := split newline (stripIndent code)

/-- `getLineNumberedCode`; `none` when it throws. -/
def getLineNumberedCode (code : JString) (firstLine : Int32) : Option JString :=
  match codeLines code with
  -- `lines.get(0)` throws
  | [] => none
  -- a single line is not numbered
  | [content] => some content
  | lines => some ((rows firstLine 0 lines).flatMap (· ++ [newline]))

/-- Several lines are numbered. -/
theorem getLineNumberedCode_of_lines {code : JString} (hlines : 2 ≤ (codeLines code).length)
    (firstLine : Int32) :
    getLineNumberedCode code firstLine =
      some ((rows firstLine 0 (codeLines code)).flatMap (· ++ [newline])) := by
  rw [getLineNumberedCode]
  split
  · next h =>
    rw [h, List.length_nil] at hlines
    omega
  · next h =>
    rw [h, List.length_singleton] at hlines
    omega
  · rfl

/-! ### Stripping -/

/-- A character that ends a line for `(?m)^`. -/
def isLineEnd (c : UInt16) : Bool :=
  c = newline || c = carriageReturn || c = 0x85 || c = 0x2028 || c = 0x2029

/-- `(?m)^` matches between `prev` and `s`. -/
def caret (prev : Option UInt16) (s : JString) : Bool :=
  match prev, s with
  -- never at the end of the text
  | _, [] => false
  | none, _ => true
  | some p, c :: _ => isLineEnd p && !(p = carriageReturn && c = newline)

/-- `\s`. -/
def isSpace (c : UInt16) : Bool := c = 0x20 || (0x09 ≤ c.toNat && c.toNat ≤ 0x0D)

/-- The length of the match of `\d+\s*:\s` at the start of a text. -/
def matchNumber (s : JString) : Option Nat :=
  let digits := s.takeWhile isDigit
  let spaces := (s.drop digits.length).takeWhile isSpace
  match digits, s.drop (digits.length + spaces.length) with
  | [], _ => none
  -- `:` is 0x3A
  | _, colon :: c :: _ =>
    if colon = 0x3A ∧ isSpace c = true then some (digits.length + spaces.length + 2) else none
  | _, _ => none

/-- What is left of a text after `prev` when the next `skip` characters are in a match. -/
def replaceFrom (prev : Option UInt16) (skip : Nat) : JString → JString
  | [] => []
  | c :: s =>
    match skip with
    | skip + 1 => replaceFrom (some c) skip s
    | 0 =>
      match if caret prev (c :: s) then matchNumber (c :: s) else none with
      | some n => replaceFrom (some c) (n - 1) s
      | none => c :: replaceFrom (some c) 0 s

/-- `stripLineNumbers`: `replaceAll("(?m)^\\d+\\s*:\\s", "")`. -/
def stripLineNumbers (code : JString) : JString := replaceFrom none 0 code

/-! ### One row -/

variable {p c : UInt16} {prev : Option UInt16} {s t l : JString} {firstLine line : Int32} {i : Nat}

theorem caret_of_not (hp : isLineEnd p = false) (s : JString) : caret (some p) s = false := by
  cases s with
  | nil => rfl
  | cons c s => rw [caret, hp, Bool.false_and]

/-- The rest of a line is kept. -/
theorem replaceFrom_line (hp : isLineEnd p = false) (hl : ∀ c ∈ l, isLineEnd c = false)
    (t : JString) :
    replaceFrom (some p) 0 (l ++ newline :: t) =
      l ++ newline :: replaceFrom (some newline) 0 t := by
  induction l generalizing p with
  | nil =>
    rw [List.nil_append, replaceFrom, caret_of_not hp, if_neg Bool.false_ne_true, List.nil_append]
  | cons c l ih =>
    obtain ⟨hc, hrest⟩ := List.forall_mem_cons.mp hl
    rw [List.cons_append, replaceFrom, caret_of_not hp, if_neg Bool.false_ne_true]
    exact congrArg (c :: ·) (ih hc hrest)

/-- The rest of a match is skipped. -/
theorem replaceFrom_skip (prev : Option UInt16) (s : JString) (p : UInt16) (t : JString) :
    replaceFrom prev (s.length + 1) (s ++ p :: t) = replaceFrom (some p) 0 t := by
  induction s generalizing prev with
  | nil => rfl
  | cons c s ih => exact ih (some c)

theorem matchNumber_append (hne : s ≠ []) (hs : ∀ c ∈ s, isDigit c = true) (t : JString) :
    matchNumber (s ++ 0x20 :: 0x3A :: 0x20 :: t) = some (s.length + 3) := by
  have htake : (s ++ 0x20 :: 0x3A :: 0x20 :: t).takeWhile isDigit = s := by
    rw [List.takeWhile_append_of_pos hs, List.takeWhile_cons_of_neg (by decide), List.append_nil]
  have hspace : (0x20 :: 0x3A :: 0x20 :: t : JString).takeWhile isSpace = [0x20] := by
    rw [List.takeWhile_cons_of_pos (by decide), List.takeWhile_cons_of_neg (by decide)]
  have hdrop : (s ++ 0x20 :: 0x3A :: 0x20 :: t).drop (s.length + 1) = 0x3A :: 0x20 :: t := by
    rw [← List.drop_drop, List.drop_left, List.drop_one, List.tail_cons]
  obtain ⟨d, ds, rfl⟩ := List.exists_cons_of_ne_nil hne
  simp only [matchNumber, htake, List.drop_left, hspace, List.length_singleton, hdrop]
  rfl

/-- No number starts with a sign. -/
theorem matchNumber_sign (s : JString) : matchNumber (45 :: s) = none := by
  have htake : (45 :: s : JString).takeWhile isDigit = [] :=
    List.takeWhile_cons_of_neg (by decide)
  rw [matchNumber, htake]

theorem isLineEnd_of_isDigit (hc : isDigit c = true) : isLineEnd c = false := by
  by_contra hline
  simp only [isLineEnd, Bool.not_eq_false, Bool.or_eq_true, decide_eq_true_eq] at hline
  rcases hline with (((rfl | rfl) | rfl) | rfl) | rfl <;> revert hc <;> decide

/-- A row starts with the number, a space, a colon and a space. -/
theorem numbered_eq (line : Int32) (content : JString) :
    numberedRow line content = ofInt32 line ++ 0x20 :: 0x3A :: 0x20 :: content := by
  have hspace : ofString " " = [0x20] := by decide
  have hcolon : ofString ": " = [0x3A, 0x20] := by decide
  rw [numberedRow, hspace, hcolon, List.append_assoc, List.append_assoc]
  rfl

/-- **A row** loses its number, if that is not negative. -/
theorem replaceFrom_numbered (hprev : ∀ s, s ≠ [] → caret prev s = true)
    (hl : ∀ c ∈ l, isLineEnd c = false) (t : JString) :
    replaceFrom prev 0 (numberedRow line l ++ newline :: t) =
      (if 0 ≤ line.toInt then l else numberedRow line l) ++
        newline :: replaceFrom (some newline) 0 t := by
  rw [numbered_eq, List.append_assoc]
  split
  · next hline =>
    -- the match is up to the space in front of the line
    obtain ⟨d, ds, hds⟩ := List.exists_cons_of_ne_nil (decimal_ne_nil line.toInt.toNat)
    have hmatch := matchNumber_append (decimal_ne_nil line.toInt.toNat)
      (fun c hc => isDigit_of_mem_decimal hc) (l ++ newline :: t)
    have hassoc : ds ++ 0x20 :: 0x3A :: 0x20 :: (l ++ newline :: t) =
        (ds ++ [0x20, 0x3A]) ++ 0x20 :: (l ++ newline :: t) := by simp
    have hskip : ds.length + 3 = (ds ++ [0x20, 0x3A]).length + 1 := by simp
    rw [hds] at hmatch
    rw [ofInt32, if_pos hline, hds]
    simp only [List.cons_append, replaceFrom] at hmatch ⊢
    rw [hprev _ (List.cons_ne_nil _ _), if_pos rfl, hmatch]
    show replaceFrom (some d) (ds.length + 3) _ = _
    rw [hassoc, hskip, replaceFrom_skip, replaceFrom_line (by decide) hl]
  · next hline =>
    -- the sign is no digit
    have hrow : ∀ c ∈ decimal line.toInt.natAbs ++ 0x20 :: 0x3A :: 0x20 :: l,
        isLineEnd c = false := by
      intro c hc
      rcases List.mem_append.mp hc with hc | hc
      · exact isLineEnd_of_isDigit (isDigit_of_mem_decimal hc)
      · simp only [List.mem_cons] at hc
        rcases hc with rfl | rfl | rfl | hc
        · decide
        · decide
        · decide
        · exact hl c hc
    have hrest := replaceFrom_line (p := 45) (by decide) hrow t
    rw [List.append_assoc] at hrest
    rw [ofInt32, if_neg hline, List.cons_append, List.cons_append, replaceFrom,
      hprev _ (List.cons_ne_nil _ _), if_pos rfl, matchNumber_sign]
    exact congrArg (45 :: ·) hrest

/-! ### All rows -/

/-- What is left of the rows from the one at `i` on. -/
def strippedRows (firstLine : Int32) (i : Nat) : List JString → List JString
  | [] => []
  | content :: rest =>
    (if 0 ≤ (lineNumber firstLine i).toInt then content
      else numberedRow (lineNumber firstLine i) content) :: strippedRows firstLine (i + 1) rest

variable {ls : List JString}

/-- **Numbered rows** lose the numbers that are not negative. -/
theorem replaceFrom_rows (hprev : ∀ s, s ≠ [] → caret prev s = true)
    (hls : ∀ l ∈ ls, ∀ c ∈ l, isLineEnd c = false) (i : Nat) :
    replaceFrom prev 0 ((rows firstLine i ls).flatMap (· ++ [newline])) =
      (strippedRows firstLine i ls).flatMap (· ++ [newline]) := by
  induction ls generalizing prev i with
  | nil => rfl
  | cons l ls ih =>
    obtain ⟨hl, hrest⟩ := List.forall_mem_cons.mp hls
    have hnewline : ∀ s, s ≠ [] → caret (some newline) s = true := by
      intro s hs
      obtain ⟨c, s, rfl⟩ := List.exists_cons_of_ne_nil hs
      rfl
    rw [rows, strippedRows, List.flatMap_cons, List.flatMap_cons, List.append_assoc,
      List.append_assoc, List.singleton_append, List.singleton_append,
      replaceFrom_numbered hprev hl, ih hnewline hrest]

/-- A row is longer than its line. -/
theorem length_lt_numbered (line : Int32) (content : JString) :
    content.length < (numberedRow line content).length := by
  rw [numbered_eq, List.length_append]
  simp only [List.length_cons]
  omega

/-- All numbers are stripped just if none of them is negative. -/
theorem strippedRows_iff (firstLine : Int32) (ls : List JString) (i : Nat) :
    (strippedRows firstLine i ls).flatMap (· ++ [newline]) = ls.flatMap (· ++ [newline]) ↔
      ∀ j < ls.length, 0 ≤ (lineNumber firstLine (i + j)).toInt := by
  -- what is left is never shorter than the lines
  have hlength (i : Nat) (ls : List JString) : (ls.flatMap (· ++ [newline])).length ≤
      ((strippedRows firstLine i ls).flatMap (· ++ [newline])).length := by
    induction ls generalizing i with
    | nil => exact Nat.le_refl _
    | cons l ls ih =>
      have hrest := ih (i + 1)
      have hrow := length_lt_numbered (lineNumber firstLine i) l
      rw [strippedRows, List.flatMap_cons, List.flatMap_cons, List.length_append,
        List.length_append, List.length_append, List.length_append]
      split <;> omega
  induction ls generalizing i with
  | nil => exact iff_of_true rfl nofun
  | cons l ls ih =>
    have hforall : (∀ j < (l :: ls).length, 0 ≤ (lineNumber firstLine (i + j)).toInt) ↔
        0 ≤ (lineNumber firstLine i).toInt ∧
          ∀ j < ls.length, 0 ≤ (lineNumber firstLine (i + 1 + j)).toInt := by
      constructor
      · intro h
        refine ⟨h 0 (Nat.succ_pos _), fun j hj => ?_⟩
        rw [Nat.add_right_comm, Nat.add_assoc]
        exact h (j + 1) (Nat.succ_lt_succ hj)
      · rintro ⟨h0, h⟩ j hj
        cases j with
        | zero => exact h0
        | succ j =>
          rw [← Nat.add_assoc, Nat.add_right_comm]
          exact h j (Nat.lt_of_succ_lt_succ hj)
    rw [hforall, strippedRows, List.flatMap_cons, List.flatMap_cons]
    by_cases hline : 0 ≤ (lineNumber firstLine i).toInt
    · rw [if_pos hline, List.append_right_inj, and_iff_right hline]
      exact ih (i + 1)
    · rw [if_neg hline]
      refine iff_of_false (fun h => ?_) fun h => hline h.1
      have hlen := congrArg List.length h
      have hrest := hlength (i + 1) ls
      have hrow := length_lt_numbered (lineNumber firstLine i) l
      simp only [List.length_append] at hlen
      omega

/-! ### Numbers in range -/

theorem toInt_lineNumber (firstLine : Int32) (i : Nat) :
    (lineNumber firstLine i).toInt = (firstLine.toInt + i + 1).bmod (2 ^ 32) := by
  have hsize : Int32.size = 2 ^ 32 := rfl
  rw [lineNumber, Int32.toInt_add, Int32.toInt_add, Int32.toInt_ofNat', Int32.toInt_one, hsize,
    Int.add_bmod_bmod, Int.bmod_add_bmod]

/-- A number that is an `int` is not cut off. -/
theorem toInt_lineNumber_of_lt (h : 0 ≤ firstLine.toInt) (hi : firstLine.toInt + i + 1 < 2 ^ 31) :
    (lineNumber firstLine i).toInt = firstLine.toInt + i + 1 := by
  rw [toInt_lineNumber, Int.bmod_eq_of_le] <;> omega

/-- The numbers of `n` lines are not negative just if the last of them is an `int`. -/
theorem lineNumber_nonneg_iff (h : 0 ≤ firstLine.toInt) (n : Nat) :
    (∀ j < n, 0 ≤ (lineNumber firstLine (0 + j)).toInt) ↔ firstLine.toInt + n < 2 ^ 31 := by
  constructor
  · intro hnonneg
    by_contra hn
    -- the first number that is too great is the least `int`
    have hlt := firstLine.toInt_lt
    have hfirst := hnonneg (2 ^ 31 - 1 - firstLine.toInt).toNat (by omega)
    have hsum : firstLine.toInt + (0 + (2 ^ 31 - 1 - firstLine.toInt).toNat : Nat) + 1 = 2 ^ 31 := by
      omega
    rw [toInt_lineNumber, hsum] at hfirst
    revert hfirst
    decide
  · intro hn j hj
    rw [toInt_lineNumber_of_lt h (by omega)]
    omega

/-! ### The round trip -/

/-- The only line terminator of a text is the newline. -/
def OnlyNewlines (code : JString) : Prop := ∀ c ∈ code, isLineEnd c = true → c = newline

instance (code : JString) : Decidable (OnlyNewlines code) :=
  decidable_of_iff (code.all fun c => !isLineEnd c || c == newline) (by
    simp [OnlyNewlines, Classical.or_iff_not_imp_left])

/-- A line that is shown has no line terminator. -/
theorem OnlyNewlines.codeLines {code : JString} (h : OnlyNewlines code) :
    ∀ l ∈ codeLines code, ∀ c ∈ l, isLineEnd c = false := by
  intro l hl c hc
  have hret : carriageReturn ∉ code := fun hmem => absurd (h _ hmem rfl) (by decide)
  obtain ⟨n, hbegins⟩ := prefix_split_stripIndent hret
  obtain ⟨line, hline, rfl⟩ := List.mem_map.mp (hbegins.subset hl)
  obtain ⟨hmem, hnewline⟩ := mem_of_mem_splitOn hline (mem_of_mem_stripLine hc)
  exact Bool.not_eq_true _ ▸ fun hend => hnewline (h c hmem hend)

/-- **Stripping undoes numbering.** Code of several lines is numbered without an exception, and
    stripping gives exactly its lines, provided the number of the last one is an `int`. -/
theorem stripLineNumbers_iff (code : JString) (firstLine : Int32) (hcode : OnlyNewlines code)
    (hlines : 2 ≤ (codeLines code).length) (hfirst : 0 ≤ firstLine.toInt) :
    ∃ numbered, getLineNumberedCode code firstLine = some numbered ∧
      (stripLineNumbers numbered = (codeLines code).flatMap (· ++ [newline]) ↔
        firstLine.toInt + (codeLines code).length < 2 ^ 31) := by
  refine ⟨_, getLineNumberedCode_of_lines hlines firstLine, ?_⟩
  have hstart : ∀ s, s ≠ [] → caret none s = true := by
    intro s hs
    obtain ⟨c, s, rfl⟩ := List.exists_cons_of_ne_nil hs
    rfl
  rw [stripLineNumbers, replaceFrom_rows hstart hcode.codeLines, strippedRows_iff,
    lineNumber_nonneg_iff hfirst]

/-- An empty line, and one that looks like a row. -/
def rowLikeCode : JString := ofString "def f():\n\n12 : 13"

theorem stripLineNumbers_rowLikeCode :
    ∃ numbered, getLineNumberedCode rowLikeCode 6 = some numbered ∧
      (stripLineNumbers numbered = (codeLines rowLikeCode).flatMap (· ++ [newline]) ↔
        (6 : Int32).toInt + (codeLines rowLikeCode).length < 2 ^ 31) :=
  stripLineNumbers_iff rowLikeCode 6 (by decide) (by decide)
    (by decide)

/-- A number above the greatest `int` is negative, and stays. -/
theorem stripLineNumbers_greatest :
    ∃ numbered, getLineNumberedCode rowLikeCode 0x7FFFFFFF = some numbered ∧
      stripLineNumbers numbered =
        ofString "-2147483648 : def f():\n-2147483647 : \n-2147483646 : 12 : 13\n" ∧
      stripLineNumbers numbered ≠ (codeLines rowLikeCode).flatMap (· ++ [newline]) := by
  refine ⟨_, rfl, ?_, ?_⟩ <;> decide

end Reloadium.Ai
