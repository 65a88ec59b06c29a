import Reloadium.Lib.JavaText

namespace Reloadium.Highlights

open Reloadium.Lib JString

/-!
# Highlights — the lines of an error text

Model of `ErrorRenderer.splitStringIntoLines`, which fills lines greedily.  The length test
counts a space before every word, also before the first one of a line, and closes the current
line even when that is empty.

* `LineFill` — the lines that are closed, and the current one;
* `LineFill.Wraps` — what holds after every word: all words are there, and no line of several
  words is too long;
* `NoEarlyClose` — the lengths of words that close no empty line;
* `splitStringIntoLines_iff` — the lines are as they should be just if the words are so.
-/

/-! ### Filling lines -/

/-- The local variables of the loop. -/
structure LineFill where
  lines : List JString
  currentLine : JString
  deriving DecidableEq

namespace LineFill

/-- The body of the loop. -/
def addWord (maxLineLength : Nat) (s : LineFill) (word : JString) : LineFill :=
  let s :=
    if s.currentLine.length + word.length + 1 > maxLineLength then
      { lines := s.lines ++ [s.currentLine], currentLine := [] }
    else s
  let currentLine :=
    if s.currentLine.length > 0 then s.currentLine ++ [space] else s.currentLine
  { s with currentLine := currentLine ++ word }

end LineFill

/-- `splitStringIntoLines`. -/
def splitStringIntoLines (input : JString) (maxLineLength : Nat) : List JString :=
  let s := (split space input).foldl (LineFill.addWord maxLineLength) ⟨[], []⟩
  if s.currentLine.length > 0 then s.lines ++ [s.currentLine] else s.lines

/-! ### Words and lengths -/

variable {width : Nat} {s : LineFill} {word : JString} {done rest : List JString}

/-- The words of `done` are those of the lines, and a line that is too long is a single word. -/
structure LineFill.Wraps (width : Nat) (done : List JString) (s : LineFill) : Prop where
  words : (s.lines ++ [s.currentLine]).flatMap JString.words =
    done.filter fun word => !word.isEmpty
  fits : ∀ line ∈ s.lines ++ [s.currentLine], line.length ≤ width ∨ space ∉ line

/-- **Step lemma.** -/
theorem LineFill.Wraps.addWord (h : s.Wraps width done) (hword : space ∉ word) :
    (s.addWord width word).Wraps width (done ++ [word]) := by
  obtain ⟨hwords, hfits⟩ := h
  have hsingle := words_of_notMem hword
  -- closing the current line changes neither the words nor the lengths
  have hclosed : ∃ lines currentLine,
      s.addWord width word = ⟨lines, (if currentLine.length > 0 then currentLine ++ [space]
        else currentLine) ++ word⟩ ∧
      (lines ++ [currentLine]).flatMap JString.words = done.filter (fun word => !word.isEmpty) ∧
      (∀ line ∈ lines, line.length ≤ width ∨ space ∉ line) ∧
      (currentLine.length > 0 → currentLine.length + word.length + 1 ≤ width) := by
    by_cases hlong : s.currentLine.length + word.length + 1 > width
    · refine ⟨s.lines ++ [s.currentLine], [], ?_, ?_, hfits, nofun⟩
      · rw [LineFill.addWord, if_pos hlong]
      · rw [List.flatMap_append, hwords]
        exact List.append_nil _
    · refine ⟨s.lines, s.currentLine, ?_, hwords,
        fun line hline => hfits line (List.mem_append_left _ hline), fun _ => by omega⟩
      rw [LineFill.addWord, if_neg hlong]
  obtain ⟨lines, currentLine, heq, hwords, hfits, hlen⟩ := hclosed
  rw [heq]
  rw [List.flatMap_append, List.flatMap_singleton] at hwords
  by_cases hempty : currentLine.length > 0
  · rw [if_pos hempty]
    refine ⟨?_, ?_⟩
    · rw [List.flatMap_append, List.flatMap_singleton, List.append_assoc, List.singleton_append,
        words_append_space, hsingle, ← List.append_assoc, hwords, List.filter_append]
    · simp only [List.mem_append, List.mem_singleton]
      rintro line (hline | rfl)
      · exact hfits line hline
      · left
        have hle := hlen hempty
        simp only [List.length_append, List.length_singleton]
        omega
  · obtain rfl : currentLine = [] := List.eq_nil_of_length_eq_zero (by omega)
    rw [if_neg hempty, List.nil_append]
    refine ⟨?_, ?_⟩
    · rw [List.flatMap_append, List.flatMap_singleton, hsingle, List.filter_append, ← hwords]
      exact congrArg (· ++ _) (List.append_nil _).symm
    · simp only [List.mem_append, List.mem_singleton]
      rintro line (hline | rfl)
      · exact hfits line hline
      · exact Or.inr hword

/-- **Run lemma.** -/
theorem LineFill.Wraps.foldl (h : s.Wraps width done) (hrest : ∀ word ∈ rest, space ∉ word) :
    (rest.foldl (LineFill.addWord width) s).Wraps width (done ++ rest) := by
  induction rest generalizing s done with
  | nil =>
    rw [List.append_nil]
    exact h
  | cons word rest ih =>
    obtain ⟨hword, hrest⟩ := List.forall_mem_cons.mp hrest
    rw [List.append_cons]
    exact ih (h.addWord hword) hrest

/-! ### Empty lines -/

/-- The length of the current line after a word more. -/
def nextColumn (width column length : Nat) : Nat :=
  if column + length + 1 > width then length
  else if column > 0 then column + 1 + length
  else length

/-- No word of these lengths closes a line that is empty: behind none of the columns that filling
    comes to is a word of the width or more at column 0. -/
def NoEarlyClose (width : Nat) : Nat → List Nat → Prop
  | _, [] => True
  | column, length :: rest =>
    (column = 0 → length < width) ∧ NoEarlyClose width (nextColumn width column length) rest

theorem length_addWord (width : Nat) (s : LineFill) (word : JString) :
    (s.addWord width word).currentLine.length =
      nextColumn width s.currentLine.length word.length := by
  rw [LineFill.addWord, nextColumn]
  by_cases hlong : s.currentLine.length + word.length + 1 > width
  · simp [hlong]
  · by_cases hempty : s.currentLine.length > 0
    · simp only [hlong, hempty, if_true, if_false, List.length_append, List.length_singleton]
    · have hzero : s.currentLine.length = 0 := by omega
      simp only [hlong, hempty, if_false, List.length_append]
      rw [hzero, Nat.zero_add]

/-- A line that is closed is empty just if the current one was. -/
theorem nil_mem_addWord (width : Nat) (s : LineFill) (word : JString) :
    [] ∉ (s.addWord width word).lines ↔
      [] ∉ s.lines ∧ (s.currentLine.length = 0 → word.length < width) := by
  rw [LineFill.addWord]
  by_cases hlong : s.currentLine.length + word.length + 1 > width
  · simp only [hlong, if_true, List.mem_append, List.mem_singleton, not_or]
    refine and_congr_right fun _ => ⟨fun hne hzero => ?_, fun h hnil => ?_⟩
    · exact absurd (List.eq_nil_of_length_eq_zero hzero).symm hne
    · have hzero := congrArg List.length hnil.symm
      rw [List.length_nil] at hzero
      have hlt := h hzero
      omega
  · rw [if_neg hlong]
    exact (and_iff_left fun hzero => by omega).symm

theorem nil_mem_foldl (width : Nat) (words : List JString) (s : LineFill) :
    [] ∉ (words.foldl (LineFill.addWord width) s).lines ↔
      [] ∉ s.lines ∧ NoEarlyClose width s.currentLine.length (words.map List.length) := by
  induction words generalizing s with
  | nil => exact (and_iff_left trivial).symm
  | cons word words ih =>
    rw [List.foldl_cons, ih, nil_mem_addWord, length_addWord, List.map_cons, NoEarlyClose, and_assoc]

/-- Where no word is empty, only the first can come to column 0. -/
theorem noEarlyClose_iff_of_pos {column : Nat} (hcolumn : 0 < column) {lengths : List Nat}
    (h : ∀ length ∈ lengths, 0 < length) : NoEarlyClose width column lengths := by
  induction lengths generalizing column with
  | nil => trivial
  | cons length rest ih =>
    obtain ⟨hlength, hrest⟩ := List.forall_mem_cons.mp h
    refine ⟨fun hzero => by omega, ih ?_ hrest⟩
    rw [nextColumn]
    split
    · exact hlength
    · omega

/-- Without leading or doubled spaces, the first word decides. -/
theorem noEarlyClose_singleSpaced {length : Nat} {rest : List Nat}
    (h : ∀ l ∈ length :: rest, 0 < l) :
    NoEarlyClose width 0 (length :: rest) ↔ length < width := by
  obtain ⟨hlength, hrest⟩ := List.forall_mem_cons.mp h
  refine (and_iff_left (noEarlyClose_iff_of_pos ?_ hrest)).trans (imp_iff_right rfl)
  rw [nextColumn]
  split
  · exact hlength
  · split <;> omega

/-! ### The lines of a message -/

/-- The lines of an error text: their words are those of the message, none is longer than the
    width unless it is a single word, and none is empty if the message has a word. -/
structure WellWrapped (message : JString) (width : Nat) (lines : List JString) : Prop where
  words : lines.flatMap JString.words = message.words
  fits : ∀ line ∈ lines, line.length ≤ width ∨ line.words = [line]
  no_empty : message.words ≠ [] → [] ∉ lines

/-- The lines, with the current one if it is not empty. -/
theorem splitStringIntoLines_spec (message : JString) (width : Nat) :
    (splitStringIntoLines message width).flatMap JString.words = message.words ∧
      (∀ line ∈ splitStringIntoLines message width, line.length ≤ width ∨ space ∉ line) ∧
      ([] ∉ splitStringIntoLines message width ↔
        NoEarlyClose width 0 ((split space message).map List.length)) := by
  have hstart : (LineFill.mk [] []).Wraps width [] :=
    ⟨rfl, fun line hline => Or.inl (by rw [List.mem_singleton.mp hline]; exact Nat.zero_le _)⟩
  have hall : ∀ word ∈ split space message, space ∉ word := fun _ => notMem_of_mem_split
  obtain ⟨hwords, hfits⟩ := hstart.foldl hall
  have hempty := nil_mem_foldl width (split space message) ⟨[], []⟩
  rw [List.nil_append, filter_split] at hwords
  rw [and_iff_right List.not_mem_nil] at hempty
  rw [splitStringIntoLines]
  generalize (split space message).foldl (LineFill.addWord width) ⟨[], []⟩ = s at hwords hfits hempty ⊢
  by_cases hlast : s.currentLine.length > 0
  · rw [if_pos hlast]
    refine ⟨hwords, hfits, Iff.trans ?_ hempty⟩
    have hne : s.currentLine ≠ [] := List.ne_nil_of_length_pos hlast
    rw [List.mem_append, List.mem_singleton, or_iff_left hne.symm]
  · obtain hnil : s.currentLine = [] := List.eq_nil_of_length_eq_zero (by omega)
    rw [if_neg hlast]
    rw [List.flatMap_append, hnil] at hwords
    exact ⟨(List.append_nil _).symm.trans hwords,
      fun line hline => hfits line (List.mem_append_left _ hline), hempty⟩

/-- A message without a word closes nothing. -/
theorem noEarlyClose_of_no_word {message : JString} (hwidth : 1 ≤ width)
    (h : message.words = []) :
    NoEarlyClose width 0 ((split space message).map List.length) := by
  have hzero : ∀ length ∈ (split space message).map List.length, length = 0 := by
    simp only [List.forall_mem_map]
    intro word hword
    rw [← filter_split, List.filter_eq_nil_iff] at h
    have hnil := h word hword
    rw [Bool.not_eq_true', Bool.not_eq_false, List.isEmpty_iff] at hnil
    rw [hnil, List.length_nil]
  generalize (split space message).map List.length = lengths at hzero ⊢
  induction lengths with
  | nil => trivial
  | cons length rest ih =>
    obtain ⟨rfl, hrest⟩ := List.forall_mem_cons.mp hzero
    have hcolumn : nextColumn width 0 0 = 0 := by simp [nextColumn]
    refine ⟨fun _ => hwidth, ?_⟩
    rw [hcolumn]
    exact ih hrest

/-- **Error text wrapping.**  The words and the lengths of the lines are always right; no line is
    empty just if no word of the width or more comes to an empty line. -/
theorem splitStringIntoLines_iff (message : JString) (width : Nat) (hwidth : 1 ≤ width) :
    WellWrapped message width (splitStringIntoLines message width) ↔
      NoEarlyClose width 0 ((split space message).map List.length) := by
  obtain ⟨hwords, hfits, hempty⟩ := splitStringIntoLines_spec message width
  constructor
  · intro h
    by_cases hword : message.words = []
    · exact noEarlyClose_of_no_word hwidth hword
    · exact hempty.mp (h.no_empty hword)
  · intro h
    refine ⟨hwords, fun line hline => ?_, fun _ => hempty.mpr h⟩
    rcases hfits line hline with hle | hspace
    · exact Or.inl hle
    · -- no line is empty, so one without a space is a word
      have hne : line ≠ [] := fun hnil => hempty.mpr h (hnil ▸ hline)
      rw [words_of_notMem hspace]
      cases line with
      | nil => exact absurd rfl hne
      | cons c line => exact Or.inr rfl

/-- A message that is wrapped well, with a run of spaces. -/
theorem splitStringIntoLines_wrapped :
    WellWrapped (ofString "ab  cd efghijk l") 7 (splitStringIntoLines (ofString "ab  cd efghijk l") 7) ↔
      NoEarlyClose 7 0 ((split space (ofString "ab  cd efghijk l")).map List.length) :=
  splitStringIntoLines_iff (ofString "ab  cd efghijk l") 7 (by decide)

/-- A first word of the width closes a line before it. -/
theorem empty_first_line :
    splitStringIntoLines (ofString "hello") 5 = [[], ofString "hello"] ∧
      ¬ WellWrapped (ofString "hello") 5 (splitStringIntoLines (ofString "hello") 5) := by
  have hlines : splitStringIntoLines (ofString "hello") 5 = [[], ofString "hello"] := by
    decide
  refine ⟨hlines, fun h => h.no_empty (by decide) ?_⟩
  rw [hlines]
  exact List.mem_cons_self

end Reloadium.Highlights
