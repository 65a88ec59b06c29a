import Mathlib.Data.List.DropRight
import Reloadium.Lib.Infixes
import Reloadium.Lib.JString
import Reloadium.Lib.Lines

namespace Reloadium.Lib

namespace JString

/-!
# Library — lines, indentation and numbers in Java strings

`String.lines`, `stripIndent`, `split` at a single character, and `Integer.toString`.

* `lines_append_newline` — the lines of a text that begins with a line;
* `splitOn_flatMap` — the lines of a text that begins with ended lines;
* `strip_stripLine` — stripping the indentation changes a line at its ends only;
* `strip_append` — what `strip` leaves of a text that begins with something to keep;
* `decimal_inj` — decimals tell numbers apart;
* `split_intercalate` — `split` undoes `String.join`.
-/

/-! ### Lines -/

/-- `\n`. -/
def newline : UInt16 := 10

/-- `\r`. -/
def carriageReturn : UInt16 := 13

/-- The lines of what follows, where `afterReturn` says that a `\r` has just ended one. -/
def linesAfter (afterReturn : Bool) : JString → List JString
  | [] => []
  | c :: s =>
    -- the second half of `\r\n`
    if c = newline ∧ afterReturn = true then linesAfter false s
    else if c = newline ∨ c = carriageReturn then [] :: linesAfter (c == carriageReturn) s
    else
      match linesAfter false s with
      | [] => [[c]]
      | line :: rest => (c :: line) :: rest

/-- `String.lines`: the end of the last line starts no other. -/
def lines (s : JString) : List JString := linesAfter false s

/-- `String.split` at a character: trailing empty strings are left out, unless nothing was
    split. -/
def split (sep : UInt16) (s : JString) : List JString :=
  let parts := s.splitOn sep
  if parts.length = 1 then parts else parts.rdropWhile List.isEmpty

/-- `String.stripTrailing`. -/
def stripTrailing (s : JString) : JString := s.rdropWhile isWhitespace

/-! ### Indentation -/

/-- `indexOfNonWhitespace`. -/
def indexOfNonWhitespace (s : JString) : Nat := (s.takeWhile isWhitespace).length

/-- `String.outdent`: the least indentation of a line that is not blank, or of the last. -/
def outdent (lines : List JString) : Nat :=
  let least := (lines.filter fun line => !isBlank line).foldl
    (fun least line => min least (indexOfNonWhitespace line)) 0x7FFFFFFF
  match lines.getLast? with
  | some last => if isBlank last then min least last.length else least
  | none => least

/-- A line without the indentation that all have, and without trailing whitespace. -/
def stripLine (outdent : Nat) (line : JString) : JString :=
  if isBlank line then []
  else (stripTrailing line).drop (min outdent (indexOfNonWhitespace line))

/-- The text ends with a line terminator: its indentation stays. -/
def optOut (s : JString) : Bool :=
  s.getLast? = some newline || s.getLast? = some carriageReturn

/-- `String.stripIndent`. -/
def stripIndent (s : JString) : JString :=
  if s = [] then []
  else
    let outdent := if optOut s then 0 else outdent (lines s)
    [newline].intercalate ((lines s).map (stripLine outdent)) ++
      if optOut s then [newline] else []

/-! ### Numbers -/

/-- The decimal digits of a number. -/
def decimal (n : Nat) : JString := (Nat.toDigits 10 n).map fun c => UInt16.ofNat c.toNat

/-- `Integer.toString`. -/
def ofInt32 (n : Int32) : JString :=
  if 0 ≤ n.toInt then decimal n.toInt.toNat else 45 :: decimal n.toInt.natAbs

/-- `\d`. -/
def isDigit (u : UInt16) : Bool := 48 ≤ u.toNat && u.toNat ≤ 57

theorem decimal_ne_nil (n : Nat) : decimal n ≠ [] :=
  fun h => Nat.toDigits_ne_nil (List.map_eq_nil_iff.mp h)

theorem isDigit_of_mem_decimal {n : Nat} {u : UInt16} (hu : u ∈ decimal n) : isDigit u = true := by
  obtain ⟨c, hc, rfl⟩ := List.mem_map.mp hu
  have hdigit := Nat.isDigit_of_mem_toDigits (by omega) (by omega) hc
  rw [Char.isDigit, Bool.and_eq_true, decide_eq_true_eq, decide_eq_true_eq] at hdigit
  have hlow : 48 ≤ c.toNat := hdigit.1
  have hhigh : c.toNat ≤ 57 := hdigit.2
  have hval : (UInt16.ofNat c.toNat).toNat = c.toNat := by
    rw [UInt16.toNat_ofNat']
    omega
  rw [isDigit, hval, Bool.and_eq_true, decide_eq_true_eq, decide_eq_true_eq]
  exact ⟨hlow, hhigh⟩

/-- **Decimals** tell numbers apart. -/
theorem decimal_inj {n m : Nat} (h : decimal n = decimal m) : n = m := by
  -- the digits are still there in the code units
  have hchar {c : Char} (hc : c ∈ Nat.toDigits 10 n ∨ c ∈ Nat.toDigits 10 m) :
      Char.ofNat (UInt16.ofNat c.toNat).toNat = c := by
    have hdigit : c.isDigit = true :=
      hc.elim (Nat.isDigit_of_mem_toDigits (by omega) (by omega))
        (Nat.isDigit_of_mem_toDigits (by omega) (by omega))
    rw [Char.isDigit, Bool.and_eq_true, decide_eq_true_eq, decide_eq_true_eq] at hdigit
    have hhigh : c.toNat ≤ 57 := hdigit.2
    rw [UInt16.toNat_ofNat', Nat.mod_eq_of_lt (by omega), Char.ofNat_toNat]
  have hchars (k : Nat) (hk : k = n ∨ k = m) :
      (decimal k).map (fun u => Char.ofNat u.toNat) = Nat.toDigits 10 k := by
    rw [decimal, List.map_map]
    refine Eq.trans (List.map_congr_left fun c hc => ?_) (List.map_id _)
    rcases hk with rfl | rfl
    · exact hchar (Or.inl hc)
    · exact hchar (Or.inr hc)
  have hdigits : Nat.toDigits 10 n = Nat.toDigits 10 m := by
    rw [← hchars n (Or.inl rfl), ← hchars m (Or.inr rfl), h]
  rw [← Nat.ofDigitChars_ten_toDigits (n := n), hdigits, Nat.ofDigitChars_ten_toDigits]

/-! ### Lines of a text -/

variable {s t l : JString} {ls : List JString} {c : UInt16}

theorem lines_cons_newline (s : JString) : lines (newline :: s) = [] :: lines s := by
  rw [lines, linesAfter, if_neg (by simp), if_pos (Or.inl rfl)]
  rfl

theorem lines_cons_of_ne (hc : c ≠ newline) (hc' : c ≠ carriageReturn) (s : JString) :
    lines (c :: s) = match lines s with
      | [] => [[c]]
      | line :: rest => (c :: line) :: rest := by
  rw [lines, linesAfter, if_neg (fun h => hc h.1), if_neg (not_or.mpr ⟨hc, hc'⟩)]
  rfl

/-- A line and what follows it. -/
theorem lines_append_newline (hl : newline ∉ l) (hl' : carriageReturn ∉ l) (s : JString) :
    lines (l ++ newline :: s) = l :: lines s := by
  induction l with
  | nil => exact lines_cons_newline s
  | cons c l ih =>
    rw [List.mem_cons, not_or] at hl hl'
    rw [List.cons_append, lines_cons_of_ne (Ne.symm hl.1) (Ne.symm hl'.1), ih hl.2 hl'.2]

/-- Lines that are ended, and what follows them. -/
theorem lines_flatMap (h : ∀ l ∈ ls, newline ∉ l ∧ carriageReturn ∉ l) (s : JString) :
    lines (ls.flatMap (· ++ [newline]) ++ s) = ls ++ lines s := by
  induction ls with
  | nil => rfl
  | cons l ls ih =>
    obtain ⟨hl, hrest⟩ := List.forall_mem_cons.mp h
    rw [List.flatMap_cons, List.append_assoc, List.append_assoc, List.singleton_append,
      lines_append_newline hl.1 hl.2, ih hrest, List.cons_append]

theorem splitOn_flatMap (h : ∀ l ∈ ls, newline ∉ l) (s : JString) :
    (ls.flatMap (· ++ [newline]) ++ s).splitOn newline = ls ++ s.splitOn newline := by
  induction ls with
  | nil => rfl
  | cons l ls ih =>
    obtain ⟨hl, hrest⟩ := List.forall_mem_cons.mp h
    rw [List.flatMap_cons, List.append_assoc, List.append_assoc, List.singleton_append,
      List.splitOn_append_cons_self_of_not_mem hl, ih hrest, List.cons_append]

theorem lines_ne_nil (hs : s ≠ []) : lines s ≠ [] := by
  obtain ⟨c, s, rfl⟩ := List.exists_cons_of_ne_nil hs
  rw [lines, linesAfter, if_neg (by simp)]
  split
  · exact List.cons_ne_nil _ _
  · split <;> exact List.cons_ne_nil _ _

/-- A text without `\r` has the lines that its newlines cut it into, but for an empty last one. -/
theorem splitOn_eq_lines (hs : carriageReturn ∉ s) :
    s.splitOn newline =
      lines s ++ if s.getLast?.getD newline = newline then [[]] else [] := by
  induction s with
  | nil => rfl
  | cons c s ih =>
    rw [List.mem_cons, not_or] at hs
    have ih := ih hs.2
    rw [List.splitOn_cons_eq_if_modifyHead]
    by_cases hc : c = newline
    · rw [hc, lines_cons_newline, if_pos (beq_self_eq_true _), ih]
      cases s <;> rfl
    · rw [lines_cons_of_ne hc (Ne.symm hs.1), if_neg (by simpa using hc), ih]
      cases s with
      | nil => simp [lines, linesAfter, hc]
      | cons d s =>
        obtain ⟨line, rest, hlines⟩ := List.exists_cons_of_ne_nil (lines_ne_nil (List.cons_ne_nil d s))
        rw [hlines, List.getLast?_cons_cons]
        rfl

/-- The characters of the lines. -/
theorem mem_of_mem_linesAfter {afterReturn : Bool} (hl : l ∈ linesAfter afterReturn s)
    (hc : c ∈ l) : c ∈ s ∧ c ≠ newline ∧ c ≠ carriageReturn := by
  induction s generalizing afterReturn l with
  | nil => exact absurd hl List.not_mem_nil
  | cons d s ih =>
    have hrest {b : Bool} {l : JString} (hl : l ∈ linesAfter b s) (hc : c ∈ l) :
        c ∈ d :: s ∧ c ≠ newline ∧ c ≠ carriageReturn := by
      obtain ⟨hs, hends⟩ := ih hl hc
      exact ⟨List.mem_cons_of_mem d hs, hends⟩
    rw [linesAfter] at hl
    split at hl
    · exact hrest hl hc
    · split at hl
      · rcases List.mem_cons.mp hl with rfl | hl
        · exact absurd hc List.not_mem_nil
        · exact hrest hl hc
      · next hd =>
        rw [not_or] at hd
        have hself : d ∈ d :: s ∧ d ≠ newline ∧ d ≠ carriageReturn := ⟨List.mem_cons_self, hd⟩
        split at hl
        · obtain rfl := List.mem_singleton.mp hl
          obtain rfl := List.mem_singleton.mp hc
          exact hself
        · next line rest hlines =>
          have hline {l : JString} (hl : l ∈ line :: rest) (hc : c ∈ l) :=
            hrest (b := false) (hlines ▸ hl) hc
          rcases List.mem_cons.mp hl with rfl | hl
          · rcases List.mem_cons.mp hc with rfl | hc
            · exact hself
            · exact hline List.mem_cons_self hc
          · exact hline (List.mem_cons_of_mem _ hl) hc

theorem mem_of_mem_lines (hl : l ∈ lines s) (hc : c ∈ l) :
    c ∈ s ∧ c ≠ newline ∧ c ≠ carriageReturn := mem_of_mem_linesAfter hl hc

/-! ### The lines without their indentation -/

theorem prefix_stripTrailing (s : JString) : stripTrailing s <+: s := List.rdropWhile_prefix _ _

theorem mem_of_mem_stripLine {n : Nat} (hc : c ∈ stripLine n l) : c ∈ l := by
  rw [stripLine] at hc
  split at hc
  · exact absurd hc List.not_mem_nil
  · exact (prefix_stripTrailing l).subset (List.mem_of_mem_drop hc)

theorem strip_eq (s : JString) : strip s = stripTrailing (s.dropWhile isWhitespace) := rfl

theorem strip_of_isBlank (h : isBlank s = true) : strip s = [] := by
  have hnil : s.dropWhile isWhitespace = [] :=
    List.dropWhile_eq_nil_iff.mpr (List.all_eq_true.mp h)
  rw [strip, hnil]
  rfl

/-- What is not blank keeps what is in front of it. -/
theorem stripTrailing_append (s : JString) (ht : isBlank t = false) :
    stripTrailing (s ++ t) = s ++ stripTrailing t := by
  have hne : t.reverse.dropWhile isWhitespace ≠ [] := by
    intro hnil
    have hall : t.all isWhitespace = true :=
      List.all_eq_true.mpr fun c hc =>
        List.dropWhile_eq_nil_iff.mp hnil c (List.mem_reverse.mpr hc)
    rw [isBlank, hall] at ht
    cases ht
  rw [stripTrailing, stripTrailing, List.rdropWhile, List.rdropWhile, List.reverse_append,
    List.dropWhile_append, if_neg (by simpa using hne), List.reverse_append, List.reverse_reverse]

/-- **Stripping** keeps the beginning of a text that starts with no whitespace, and has more that
    is not blank behind it. -/
theorem strip_append (hs : ∀ c ∈ s.head?, isWhitespace c = false) (hne : s ≠ [])
    (ht : isBlank t = false) : strip (s ++ t) = s ++ stripTrailing t := by
  obtain ⟨c, s, rfl⟩ := List.exists_cons_of_ne_nil hne
  have hc : isWhitespace c = false := hs c rfl
  rw [strip_eq, List.cons_append, List.dropWhile_cons_of_neg (by rw [hc]; exact Bool.false_ne_true),
    ← List.cons_append, stripTrailing_append _ ht]

theorem stripTrailing_idem (s : JString) : stripTrailing (stripTrailing s) = stripTrailing s :=
  List.rdropWhile_idempotent _ _

/-- A line that is not blank: its indentation, and what starts with no whitespace. -/
theorem exists_indent (h : isBlank l = false) :
    ∃ indent c rest, l = indent ++ c :: rest ∧ (∀ u ∈ indent, isWhitespace u = true) ∧
      isWhitespace c = false := by
  induction l with
  | nil => exact absurd h (by decide)
  | cons u l ih =>
    cases hu : isWhitespace u with
    | false => exact ⟨[], u, l, rfl, nofun, hu⟩
    | true =>
      rw [isBlank, List.all_cons, hu, Bool.true_and] at h
      obtain ⟨indent, c, rest, rfl, hindent, hc⟩ := ih h
      exact ⟨u :: indent, c, rest, rfl, List.forall_mem_cons.mpr ⟨hu, hindent⟩, hc⟩

theorem isBlank_cons_of_not (hc : isWhitespace c = false) (s : JString) :
    isBlank (c :: s) = false := by
  rw [isBlank, List.all_cons, hc, Bool.false_and]

/-- Stripping drops the indentation and the trailing whitespace. -/
theorem strip_indent {indent : JString} (hindent : ∀ u ∈ indent, isWhitespace u = true)
    (hc : isWhitespace c = false) (s : JString) :
    strip (indent ++ c :: s) = stripTrailing (c :: s) := by
  rw [strip_eq, List.dropWhile_append_of_pos hindent,
    List.dropWhile_cons_of_neg (by rw [hc]; exact Bool.false_ne_true)]

/-- Only whitespace is dropped from a line. -/
theorem strip_stripLine (n : Nat) (l : JString) : strip (stripLine n l) = strip l := by
  rw [stripLine]
  split
  · next h =>
    rw [strip_of_isBlank h]
    rfl
  · next h =>
    obtain ⟨indent, c, rest, rfl, hindent, hc⟩ := exists_indent (Bool.not_eq_true _ ▸ h)
    have hindex : indexOfNonWhitespace (indent ++ c :: rest) = indent.length := by
      rw [indexOfNonWhitespace, List.takeWhile_append_of_pos hindent,
        List.takeWhile_cons_of_neg (by rw [hc]; exact Bool.false_ne_true), List.append_nil]
    obtain ⟨kept, hkept⟩ : ∃ kept, stripTrailing (c :: rest) = c :: kept := by
      rcases List.prefix_cons_iff.mp (prefix_stripTrailing (c :: rest)) with hnil | ⟨kept, h, -⟩
      · have hall := List.rdropWhile_eq_nil_iff.mp hnil c List.mem_cons_self
        rw [hc] at hall
        cases hall
      · exact ⟨kept, h⟩
    rw [hindex, stripTrailing_append _ (isBlank_cons_of_not hc rest), hkept,
      List.drop_append_of_le_length (by omega),
      strip_indent (fun u hu => hindent u (List.mem_of_mem_drop hu)) hc,
      strip_indent hindent hc, ← hkept, stripTrailing_idem]

/-! ### Lines that are shown -/

/-- Without an indentation, only the end of a line is stripped. -/
theorem stripLine_zero (l : JString) : stripLine 0 l = stripTrailing l := by
  rw [stripLine, Nat.zero_min, List.drop_zero]
  split
  · next h =>
    have hnil : stripTrailing l = [] :=
      List.rdropWhile_eq_nil_iff.mpr (List.all_eq_true.mp h)
    rw [hnil]
  · rfl

/-- The lines of a stripped text, joined and ended. -/
theorem intercalate_append_newline (h : ls ≠ []) :
    [newline].intercalate ls ++ [newline] = ls.flatMap (· ++ [newline]) := by
  induction ls with
  | nil => exact absurd rfl h
  | cons l ls ih =>
    cases ls with
    | nil => simp
    | cons l' ls => simpa using ih (List.cons_ne_nil l' ls)

/-- The indentation of a text that ends with a newline stays. -/
theorem stripIndent_of_newline (s : JString) :
    stripIndent (s ++ [newline]) =
      ((lines (s ++ [newline])).map stripTrailing).flatMap (· ++ [newline]) := by
  have hne : s ++ [newline] ≠ [] := by simp
  have hopt : optOut (s ++ [newline]) = true := by simp [optOut]
  have hstrip : stripLine 0 = stripTrailing := funext stripLine_zero
  rw [stripIndent, if_neg hne, hopt]
  show [newline].intercalate ((lines (s ++ [newline])).map (stripLine 0)) ++ [newline] = _
  rw [hstrip, intercalate_append_newline fun h => lines_ne_nil hne (List.map_eq_nil_iff.mp h)]

/-- What is shown of the lines of a text: each at its place. -/
theorem prefix_split_stripIndent (hs : carriageReturn ∉ s) :
    ∃ n, split newline (stripIndent s) <+: (s.splitOn newline).map (stripLine n) := by
  have hpieces {parts : List JString} (h : (stripIndent s).splitOn newline = parts) :
      split newline (stripIndent s) <+: parts := by
    rw [split, h]
    split
    · exact List.prefix_rfl
    · exact List.rdropWhile_prefix _ _
  by_cases hne : s = []
  · exact ⟨0, hpieces (by rw [hne]; rfl)⟩
  generalize hn : (if optOut s then 0 else outdent (lines s)) = n
  refine ⟨n, hpieces ?_⟩
  have hlines : ∀ l ∈ (lines s).map (stripLine n), newline ∉ l := by
    simp only [List.forall_mem_map]
    exact fun l hl hmem => (mem_of_mem_lines hl (mem_of_mem_stripLine hmem)).2.1 rfl
  have hmap : (lines s).map (stripLine n) ≠ [] :=
    fun h => lines_ne_nil hne (List.map_eq_nil_iff.mp h)
  -- the last character decides whether there is an empty piece at the end
  obtain ⟨c, hc⟩ : ∃ c, s.getLast? = some c := ⟨_, List.getLast?_eq_some_getLast hne⟩
  have hret : c ≠ carriageReturn := fun h => hs (h ▸ List.mem_of_getLast? hc)
  rw [splitOn_eq_lines hs, stripIndent, if_neg hne, hn, optOut, hc]
  by_cases hnewline : c = newline
  · have hend := splitOn_flatMap hlines []
    rw [List.append_nil] at hend
    simp only [hnewline, decide_true, Bool.true_or, if_true, Option.getD_some]
    rw [intercalate_append_newline hmap, hend, List.map_append]
    rfl
  · simp only [Option.some.injEq, hnewline, hret, decide_false, Bool.or_false, Bool.false_eq_true,
      if_false, Option.getD_some, List.append_nil]
    exact List.splitOn_intercalate _ hlines hmap

/-! ### Words -/

/-- A space. -/
def space : UInt16 := 32

/-- The words of a text: what is between its spaces, and not empty. -/
def words (s : JString) : List JString := (s.splitOn space).filter fun word => !word.isEmpty

theorem words_append_space (s t : JString) : words (s ++ space :: t) = words s ++ words t := by
  rw [words, List.splitOn_append_cons_self, List.filter_append]
  rfl

theorem words_of_notMem (hs : space ∉ s) : words s = [s].filter fun word => !word.isEmpty := by
  rw [words, List.splitOn_eq_singleton hs]

/-- No piece has the separator. -/
theorem notMem_of_mem_split {sep : UInt16} (hl : l ∈ split sep s) : sep ∉ l := by
  have hpiece : l ∈ s.splitOn sep := by
    rw [split] at hl
    split at hl
    · exact hl
    · exact (List.rdropWhile_prefix _ _).subset hl
  exact fun hmem => (mem_of_mem_splitOn hpiece hmem).2 rfl

/-- `split` leaves out no word. -/
theorem filter_split (s : JString) : (split space s).filter (fun word => !word.isEmpty) = words s := by
  rw [split, words]
  split
  · rfl
  · have hdropped : ((s.splitOn space).rtakeWhile List.isEmpty).filter
        (fun word => !word.isEmpty) = [] := by
      refine List.filter_eq_nil_iff.mpr fun word hword => ?_
      rw [List.mem_rtakeWhile_imp hword]
      exact Bool.false_ne_true
    conv_rhs => rw [← List.rdropWhile_append_rtakeWhile (p := List.isEmpty) (l := s.splitOn space),
      List.filter_append, hdropped, List.append_nil]

/-! ### Joining -/

variable {sep : UInt16}

theorem intercalate_concat (sep : UInt16) (h : ls ≠ []) (l : JString) :
    [sep].intercalate (ls ++ [l]) = [sep].intercalate ls ++ sep :: l := by
  induction ls with
  | nil => exact absurd rfl h
  | cons l' ls ih =>
    cases ls with
    | nil => simp
    | cons l'' ls =>
      rw [List.cons_append, List.intercalate_cons_of_ne_nil (List.append_ne_nil_of_left_ne_nil
        (List.cons_ne_nil l'' ls) [l]), ih (List.cons_ne_nil l'' ls),
        List.intercalate_cons_cons, List.append_assoc _ _ (sep :: l)]

/-- `split` undoes `String.join`, if the last text is not empty. -/
theorem split_intercalate (hsep : ∀ l' ∈ ls ++ [l], sep ∉ l') (hl : l ≠ []) :
    split sep ([sep].intercalate (ls ++ [l])) = ls ++ [l] := by
  have hne : ls ++ [l] ≠ [] := List.append_ne_nil_of_right_ne_nil ls (List.cons_ne_nil l [])
  rw [split, List.splitOn_intercalate sep hsep hne]
  split
  · rfl
  · exact List.rdropWhile_concat_neg _ _ _ (by simpa using hl)

end JString

end Reloadium.Lib
