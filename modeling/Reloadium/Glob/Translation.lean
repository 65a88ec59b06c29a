import Reloadium.Lib.RegexText
import Reloadium.Glob.PathUtils

namespace Reloadium.Glob

open Lib Lib.Regex Lib.RegexText

/-!
# Glob patterns — translation to regular expressions

`translateGlob` writes the text of a regular expression for a glob pattern, part by part, and
`compilePattern` compiles it.  What a pattern means is said by `Means`, in terms of the text of a
path: `*` and `?` stop at a separator, `**` stands for zero or more directories.

* `writes_join`, `compile_translateGlob` — the regular expression that the text is read as;
* `derives_join_iff` — what that expression matches;
* `compilePattern_means` — **the translation preserves the meaning**, for every pattern and path.
-/

/-! ### The translation -/

/-- `os_sep_class` -/
def osSepClass : Str := '[' :: escape '/' ++ [']']

/-- `double_start_re` -/
def doubleStartRe : Str := ".*((?<=(".toList ++ osSepClass ++ "))|(?<=(\\A)))".toList

/-- Where the class that begins before `pat` ends, if it does: `j` is past a leading `!` and a
leading `]`, then at the next `]`. -/
def classEnd (pat : Str) : Option Nat :=
  let j := if pat[0]? = some '!' then 1 else 0
  let j := if pat[j]? = some ']' then j + 1 else j
  let j := j + (pat.drop j).findIdx (· == ']')
  if j ≥ pat.length then none else some j

/-- The text of a class: `stuff` with its backslashes doubled, a leading `!` negates and a leading
`^` is a letter. -/
def translateClass (stuff : Str) : Str :=
  let stuff := stuff.flatMap fun c => if c = '\\' then ['\\', '\\'] else [c]
  let stuff :=
    if stuff.head? = some '!' then '^' :: stuff.tail
    else if stuff.head? = some '^' then '\\' :: stuff
    else stuff
  '[' :: stuff ++ [']']

/-- The loop over the characters of a part, the next `skip` of which are in a class. -/
def translateChars (skip : Nat) : Str → Str
  | [] => []
  | c :: pat =>
    match skip with
    | skip + 1 => translateChars skip pat
    | 0 =>
      if c = '*' then "[^/]*".toList ++ translateChars 0 pat
      else if c = '?' then "[^/]?".toList ++ translateChars 0 pat
      else if c = '[' then
        match classEnd pat with
        | none => "\\[".toList ++ translateChars 0 pat
        | some j => translateClass (pat.take j) ++ translateChars (j + 1) pat
      else escape c ++ translateChars 0 pat

/-- `translate_glob_part` -/
def translateGlobPart (pat : Str) : Str :=
  if pat = "**".toList then doubleStartRe else translateChars 0 pat

/-- `join_translated`: a separator follows each part but the last, save after `**`. -/
def joinTranslated (subentriesMatch : Bool) : List Str → Str
  | [] => []
  | [part] =>
    if part = doubleStartRe then ".+".toList ++ ('(' :: osSepClass ++ "?.*)?".toList)
    else if subentriesMatch then part ++ ('(' :: osSepClass ++ "?.*)?".toList)
    else part ++ (osSepClass ++ ['?'])
  | part :: parts =>
    (if part = doubleStartRe then part else part ++ osSepClass) ++
      joinTranslated subentriesMatch parts

/-- `translate_glob` -/
def translateGlob (pat : Str) (subentriesMatch : Bool) : Str :=
  "(?s:".toList ++
    (joinTranslated subentriesMatch ((iexplodePath pat).map translateGlobPart) ++ ")\\Z".toList)

/-- `compile_pattern`: the matcher of a pattern, or the error of a class. -/
def compilePattern (pat : Str) (subentriesMatch : Bool) : Option (Str → Bool) :=
  (compile (translateGlob pat subentriesMatch)).map fun r path => r.isMatch path

/-! ### What a pattern says -/

/-- What a part consists of; a class lists its letters as they stand, `-` between two of them
making a range. -/
inductive Piece
  | star
  | question
  | oneOf (neg : Bool) (letters : Str)
  | letter (c : Char)

/-- The letters between the brackets. -/
def Piece.ofClass (stuff : Str) : Piece :=
  if stuff.head? = some '!' then oneOf true stuff.tail else oneOf false stuff

/-- The pieces of a part, the next `skip` characters of which are in a class. -/
def pieces (skip : Nat) : Str → List Piece
  | [] => []
  | c :: pat =>
    match skip with
    | skip + 1 => pieces skip pat
    | 0 =>
      if c = '*' then .star :: pieces 0 pat
      else if c = '?' then .question :: pieces 0 pat
      else if c = '[' then
        match classEnd pat with
        | none => .letter '[' :: pieces 0 pat
        | some j => .ofClass (pat.take j) :: pieces (j + 1) pat
      else .letter c :: pieces 0 pat

/-- The ranges of a class. -/
def classRanges (letters : Str) : Option (List (Char × Char)) := ranges (letters.map .raw)

/-- The letters a class allows, if it has no descending range. -/
def Piece.Allows (neg : Bool) (letters : Str) (c : Char) : Prop :=
  ∃ rs, classRanges letters = some rs ∧ inClass neg rs c = true

def Piece.Means : Piece → Str → Prop
  | star, u => '/' ∉ u
  | question, u => u = [] ∨ ∃ c, c ≠ '/' ∧ u = [c]
  | oneOf neg letters, u => ∃ c, Piece.Allows neg letters c ∧ u = [c]
  | letter c, u => u = [c]

/-- Pieces one after the other. -/
def PiecesMean : List Piece → Str → Prop
  | [], u => u = []
  | piece :: ps, u => ∃ v w, u = v ++ w ∧ piece.Means v ∧ PiecesMean ps w

/-- No class has a descending range. -/
def Piece.WellFormed : Piece → Prop
  | oneOf _ letters => classRanges letters ≠ none
  | _ => True

/-- The parts of a pattern: `**`, or pieces. -/
inductive Part
  | deep
  | shallow (ps : List Piece)

def part (pat : Str) : Part :=
  if pat = "**".toList then .deep else .shallow (pieces 0 pat)

def Part.WellFormed : Part → Prop
  | deep => True
  | shallow ps => ∀ piece ∈ ps, piece.WellFormed

/-- Whether a text ends where a part of a path can begin. -/
def AtBegin (before : Str) : Prop := before = [] ∨ before.getLast? = some '/'

/-- What a pattern means for the text of a path, after what is `before` it.  With
`subentriesMatch`, anything may follow the last part. -/
def Means (subentriesMatch : Bool) : List Part → Str → Str → Prop
  | [], _, u => u = []
  | [.deep], _, u => u ≠ []
  | [.shallow ps], _, u =>
    ∃ v w, u = v ++ w ∧ PiecesMean ps v ∧ (subentriesMatch = false → w = [] ∨ w = ['/'])
  | .deep :: parts, before, u =>
    ∃ v w, u = v ++ w ∧ AtBegin (before ++ v) ∧ Means subentriesMatch parts (before ++ v) w
  | .shallow ps :: parts, before, u =>
    ∃ v w, u = v ++ '/' :: w ∧ PiecesMean ps v ∧
      Means subentriesMatch parts (before ++ v ++ ['/']) w

/-! ### Classes -/

theorem bracket_split {s : Str} (h : s.findIdx (· == ']') < s.length) :
    ∃ u v, s = u ++ ']' :: v ∧ u.length = s.findIdx (· == ']') ∧ ']' ∉ u := by
  induction s with
  | nil => exact absurd h (Nat.lt_irrefl 0)
  | cons c s ih =>
    rw [List.findIdx_cons] at h ⊢
    by_cases hc : c = ']'
    · exact ⟨[], s, by rw [hc, List.nil_append], by rw [hc]; rfl, List.not_mem_nil⟩
    · have hbeq : (c == ']') = false := beq_eq_false_iff_ne.mpr hc
      rw [hbeq, cond_false, List.length_cons] at h
      obtain ⟨u, v, rfl, hlen, hu⟩ := ih (by omega)
      refine ⟨c :: u, v, rfl, ?_, ?_⟩
      · rw [hbeq, cond_false, List.length_cons, hlen]
      · exact fun hmem => (List.mem_cons.mp hmem).elim (fun h => hc h.symm) hu

/-- Where the letters of a class end that begin `s`: a leading bracket is one of them. -/
def letterEnd (s : Str) : Nat :=
  if s[0]? = some ']' then 1 + (s.drop 1).findIdx (· == ']') else s.findIdx (· == ']')

theorem classEnd_cons_of_ne {c : Char} (hc : c ≠ '!') (s : Str) :
    classEnd (c :: s) =
      if letterEnd (c :: s) ≥ (c :: s).length then none else some (letterEnd (c :: s)) := by
  have hneg : ¬ (c :: s)[0]? = some '!' := fun h => hc (Option.some.inj h)
  rw [classEnd, if_neg hneg, letterEnd]
  by_cases hbracket : (c :: s)[0]? = some ']'
  · simp only [if_pos hbracket, Nat.zero_add]
  · simp only [if_neg hbracket, Nat.zero_add, List.drop_zero]

theorem classEnd_not (s : Str) :
    classEnd ('!' :: s) = if letterEnd s ≥ s.length then none else some (letterEnd s + 1) := by
  have hneg : ('!' :: s)[0]? = some '!' := rfl
  rw [classEnd, if_pos hneg, letterEnd]
  have hnext : ('!' :: s)[1]? = s[0]? := rfl
  by_cases hbracket : s[0]? = some ']'
  · simp only [hnext, if_pos hbracket, List.drop_succ_cons, List.length_cons]
    grind
  · simp only [hnext, if_neg hbracket, List.drop_succ_cons, List.length_cons, List.drop_zero]
    grind

theorem letterEnd_split {s : Str} (h : letterEnd s < s.length) :
    ∃ c cs rest, s = c :: cs ++ ']' :: rest ∧ (c :: cs).length = letterEnd s ∧ ']' ∉ cs := by
  rw [letterEnd] at h ⊢
  cases s with
  | nil => exact absurd h (Nat.not_lt_zero _)
  | cons c s =>
    by_cases hc : c = ']'
    · have hbracket : (c :: s)[0]? = some ']' := congrArg some hc
      rw [if_pos hbracket, List.drop_succ_cons, List.drop_zero, List.length_cons] at h
      rw [if_pos hbracket, List.drop_succ_cons, List.drop_zero]
      obtain ⟨u, v, hs, hlen, hu⟩ := bracket_split (s := s) (by omega)
      exact ⟨c, u, v, congrArg (c :: ·) hs, by rw [List.length_cons, hlen, Nat.add_comm], hu⟩
    · have hbracket : ¬ (c :: s)[0]? = some ']' := fun h => hc (Option.some.inj h)
      rw [if_neg hbracket] at h ⊢
      obtain ⟨u, v, hs, hlen, hu⟩ := bracket_split h
      cases u with
      | nil => exact absurd (List.cons.inj hs).1 hc
      | cons d u =>
        obtain ⟨rfl, -⟩ := List.cons.inj hs
        exact ⟨c, u, v, hs, hlen, fun hmem => hu (List.mem_cons_of_mem c hmem)⟩

/-- Where a class ends. -/
theorem classEnd_eq_some {pat : Str} {j : Nat} (h : classEnd pat = some j) :
    ∃ (neg : Bool) (c : Char) (cs rest : Str),
      pat = (if neg then ['!'] else []) ++ c :: cs ++ ']' :: rest ∧
      j = ((if neg then ['!'] else []) ++ c :: cs).length ∧ ']' ∉ cs ∧ (neg = false → c ≠ '!') := by
  cases pat with
  | nil => exact nomatch h
  | cons d s =>
    by_cases hd : d = '!'
    · rw [hd, classEnd_not] at h
      split at h
      case isTrue => exact nomatch h
      case isFalse hlt =>
        obtain ⟨c, cs, rest, hs, hlen, hcs⟩ := letterEnd_split (Nat.lt_of_not_le hlt)
        refine ⟨true, c, cs, rest, ?_, ?_, hcs, fun hneg => nomatch hneg⟩
        · rw [hd, hs]
          rfl
        · rw [← Option.some.inj h, ← hlen]
          rfl
    · rw [classEnd_cons_of_ne hd] at h
      split at h
      case isTrue => exact nomatch h
      case isFalse hlt =>
        obtain ⟨c, cs, rest, hs, hlen, hcs⟩ := letterEnd_split (Nat.lt_of_not_le hlt)
        refine ⟨false, c, cs, rest, hs, ?_, hcs, fun _ hc => hd ?_⟩
        · rw [← Option.some.inj h, ← hlen]
          rfl
        · exact (List.cons.inj hs).1.trans hc

/-! ### The text of a class -/

/-- A letter of a class as it is written. -/
def writtenLetter (c : Char) : ClassLetter := if c = '\\' then .escaped c else .raw c

/-- The first letter, which is no `^` unless a `^` stands before it. -/
def firstLetter (neg : Bool) (c : Char) : ClassLetter :=
  if neg = false ∧ c = '^' then .escaped c else writtenLetter c

theorem text_writtenLetter (c : Char) :
    (writtenLetter c).text = if c = '\\' then ['\\', '\\'] else [c] := by
  rw [writtenLetter]
  split
  case isTrue h => rw [h]; rfl
  case isFalse h => rfl

theorem translateClass_eq {neg : Bool} {c : Char} (cs : Str) (hc : neg = false → c ≠ '!') :
    translateClass ((if neg then ['!'] else []) ++ c :: cs) =
      classText neg (firstLetter neg c :: cs.map writtenLetter) := by
  have hwritten : (fun c => if c = '\\' then ['\\', '\\'] else [c]) =
      fun c => (writtenLetter c).text := funext fun c => (text_writtenLetter c).symm
  rw [translateClass, hwritten, classText, List.flatMap_cons, List.flatMap_map]
  cases neg with
  | true =>
    have hfirst : firstLetter true c = writtenLetter c := if_neg fun h => Bool.noConfusion h.1
    rw [hfirst]
    rfl
  | false =>
    have hc := hc rfl
    by_cases hcaret : c = '^'
    · subst hcaret
      rfl
    · have hfirst : firstLetter false c = writtenLetter c := if_neg fun h => hcaret h.2
      have hhead : ∀ d, d ≠ '\\' → c ≠ d →
          ((c :: cs).flatMap fun c => (writtenLetter c).text).head? ≠ some d := by
        intro d hd hcd
        rw [List.flatMap_cons, text_writtenLetter]
        split
        · exact fun h => hd (Option.some.inj h).symm
        · exact fun h => hcd (Option.some.inj h)
      have hempty : (if false = true then ['!'] else []) ++ c :: cs = c :: cs := rfl
      rw [hempty, if_neg (hhead '!' (by decide) hc), if_neg (hhead '^' (by decide) hcaret), hfirst,
        List.flatMap_cons]
      rfl

theorem ofClass_eq {neg : Bool} {c : Char} (cs : Str) (hc : neg = false → c ≠ '!') :
    Piece.ofClass ((if neg then ['!'] else []) ++ c :: cs) = .oneOf neg (c :: cs) := by
  cases neg with
  | true => rfl
  | false => exact if_neg fun h => hc rfl (Option.some.inj h)

theorem stands_writtenLetter {c : Char} {begins : Bool} (hc : c = ']' → begins = true) :
    (writtenLetter c).Stands begins := by
  rw [writtenLetter]
  split
  case isTrue h => rw [h]; rfl
  case isFalse h => exact ⟨h, hc⟩

/-- A backslash before a letter changes no range. -/
theorem ranges_map_raw {ls : List ClassLetter} (h : .escaped '-' ∉ ls) :
    ranges ls = ranges ((ls.map ClassLetter.char).map .raw) := by
  fun_induction ranges ls with
  | case1 => rfl
  | case2 lo hi ls hle ih =>
    have hls : ClassLetter.escaped '-' ∉ ls := fun hmem =>
      h (List.mem_cons_of_mem _ (List.mem_cons_of_mem _ (List.mem_cons_of_mem _ hmem)))
    rw [List.map_cons, List.map_cons, List.map_cons, List.map_cons, List.map_cons, List.map_cons,
      ih hls]
    exact (if_pos hle).symm
  | case3 lo hi ls hgt => exact (if_neg hgt).symm
  | case4 l ls hne ih =>
    have hls : ClassLetter.escaped '-' ∉ ls := fun hmem => h (List.mem_cons_of_mem _ hmem)
    rw [List.map_cons, List.map_cons, ranges, ih hls]
    · rfl
    · -- what follows is no `-` with a letter after it, escaped or not
      intro hi cs hcs
      match ls, hcs with
      | [], hcs => exact List.cons_ne_nil _ _ hcs.symm
      | [_], hcs => exact List.cons_ne_nil _ _ (List.cons.inj hcs).2.symm
      | .raw c :: next :: ls, hcs =>
        obtain ⟨hc, -⟩ := List.cons.inj hcs
        obtain rfl : c = '-' := ClassLetter.raw.inj hc
        exact hne next ls rfl
      | .escaped c :: next :: ls, hcs =>
        obtain ⟨hc, -⟩ := List.cons.inj hcs
        obtain rfl : c = '-' := ClassLetter.raw.inj hc
        exact h (List.mem_cons_of_mem _ List.mem_cons_self)

theorem char_writtenLetter (c : Char) : (writtenLetter c).char = c := by
  rw [writtenLetter]
  split
  · rfl
  · rfl

theorem char_firstLetter (neg : Bool) (c : Char) : (firstLetter neg c).char = c := by
  rw [firstLetter]
  split
  · rfl
  · exact char_writtenLetter c

theorem writtenLetter_ne (c : Char) : writtenLetter c ≠ .escaped '-' := by
  rw [writtenLetter]
  split
  case isTrue h =>
    rw [h]
    exact fun h => absurd (ClassLetter.escaped.inj h) (by decide)
  case isFalse => exact fun h => nomatch h

theorem firstLetter_ne (neg : Bool) (c : Char) : firstLetter neg c ≠ .escaped '-' := by
  rw [firstLetter]
  split
  case isTrue h =>
    rw [h.2]
    exact fun h => absurd (ClassLetter.escaped.inj h) (by decide)
  case isFalse => exact writtenLetter_ne c

theorem ranges_written (neg : Bool) (c : Char) (cs : Str) :
    ranges (firstLetter neg c :: cs.map writtenLetter) = classRanges (c :: cs) := by
  have hne : ClassLetter.escaped '-' ∉ firstLetter neg c :: cs.map writtenLetter := by
    intro h
    rcases List.mem_cons.mp h with h | h
    · exact firstLetter_ne neg c h.symm
    · obtain ⟨d, -, hd⟩ := List.mem_map.mp h
      exact writtenLetter_ne d hd
  have hchar : (cs.map writtenLetter).map ClassLetter.char = cs := by
    rw [List.map_map]
    exact (List.map_congr_left fun c _ => char_writtenLetter c).trans (List.map_id cs)
  rw [ranges_map_raw hne, List.map_cons, hchar, char_firstLetter, classRanges]

/-! ### What the texts match -/

/-- `[^/]` -/
def noSeparator : Regex Char := .letter (inClass true [('/', '/')])

/-- `[/]` -/
def separator : Regex Char := .letter (inClass false [('/', '/')])

theorem writes_slashClass (neg : Bool) :
    Writes true (classText neg [.raw '/']) (some [(.letter (inClass neg [('/', '/')]), true)]) :=
  writes_class ⟨by decide, fun _ => rfl⟩ (fun _ hl => absurd hl List.not_mem_nil)
    fun _ h => absurd (Option.some.inj h) (by decide)

theorem writes_separator : Writes true osSepClass (some [(separator, true)]) :=
  writes_slashClass false

/-- The items of a piece, unless its class has a descending range. -/
def Piece.items : Piece → Option (List (Regex Char × Bool))
  | star => some [(.star noSeparator, false)]
  | question => some [(.opt noSeparator, false)]
  | oneOf neg letters => (classRanges letters).map fun rs => [(.letter (inClass neg rs), true)]
  | letter c => some [(.letter (· == c), true)]

def itemsOf : List Piece → Option (List (Regex Char × Bool))
  | [] => some []
  | piece :: ps => piece.items.bind fun is => (itemsOf ps).map (is ++ ·)

theorem writes_class_of_classEnd {pat : Str} {j : Nat} (h : classEnd pat = some j) :
    Writes true (translateClass (pat.take j)) (Piece.ofClass (pat.take j)).items := by
  obtain ⟨neg, c, cs, rest, hpat, hj, hcs, hc⟩ := classEnd_eq_some h
  have htake : pat.take j = (if neg then ['!'] else []) ++ c :: cs := by
    rw [hpat, hj, List.take_left]
  have hneg : neg = false → (firstLetter neg c).text.head? ≠ some '^' := by
    intro hneg
    rw [firstLetter]
    split
    case isTrue => exact fun h => absurd (Option.some.inj h) (by decide)
    case isFalse hcaret =>
      rw [text_writtenLetter]
      split
      · exact fun h => absurd (Option.some.inj h) (by decide)
      · exact fun h => hcaret ⟨hneg, Option.some.inj h⟩
  have hfirst : (firstLetter neg c).Stands true := by
    rw [firstLetter]
    split
    case isTrue h => rw [h.2]; rfl
    case isFalse => exact stands_writtenLetter fun _ => rfl
  have hrest : ∀ l ∈ cs.map writtenLetter, l.Stands false := by
    intro l hl
    obtain ⟨d, hd, rfl⟩ := List.mem_map.mp hl
    exact stands_writtenLetter fun h => absurd (h ▸ hd) hcs
  have hclass := writes_class (d := true) hfirst hrest hneg
  rw [ranges_written] at hclass
  rw [htake, translateClass_eq cs hc, ofClass_eq cs hc]
  exact hclass

theorem writes_chars (skip : Nat) (pat : Str) :
    Writes true (translateChars skip pat) (itemsOf (pieces skip pat)) := by
  induction pat generalizing skip with
  | nil => exact writes_nil
  | cons c pat ih =>
    cases skip with
    | succ skip => exact ih skip
    | zero =>
      rw [translateChars, pieces]
      by_cases hstar : c = '*'
      · simp only [if_pos hstar]
        exact (writes_slashClass true).star.append (ih 0)
      · simp only [if_neg hstar]
        by_cases hquestion : c = '?'
        · simp only [if_pos hquestion]
          exact (writes_slashClass true).opt.append (ih 0)
        · simp only [if_neg hquestion]
          by_cases hclass : c = '['
          · simp only [if_pos hclass]
            cases hend : classEnd pat with
            | none => exact (writes_escape '[').append (ih 0)
            | some j => exact (writes_class_of_classEnd hend).append (ih (j + 1))
          · simp only [if_neg hclass]
            exact (writes_escape c).append (ih 0)

/-- `((?<=([/]))|(?<=(\A)))` -/
def atBegin : Regex Char :=
  .alt (seqOf [(.behind (seqOf [(seqOf [(separator, true)], true)]), true)])
    (seqOf [(.behind (seqOf [(seqOf [(.start, false)], true)]), true)])

theorem writes_doubleStartRe :
    Writes true doubleStartRe
      (some [(.star (.letter fun _ => true), false), (atBegin, true)]) := by
  have hgroup : Writes true ("((?<=(".toList ++ osSepClass ++ "))|(?<=(\\A)))".toList)
      (some [(atBegin, true)]) := by
    intro x hmode hd
    obtain ⟨mode, frame, outer⟩ := x
    obtain rfl : mode = .plain := hmode
    rfl
  exact writes_dot.star.append hgroup

/-- `([/]?.*)?` -/
def anything : Regex Char :=
  .opt (seqOf [(.opt separator, false), (.star (.letter fun _ => true), false)])

theorem writes_anything :
    Writes true ('(' :: osSepClass ++ "?.*)?".toList) (some [(anything, false)]) := by
  have hgroup : Writes true ('(' :: osSepClass ++ "?.*)".toList)
      (some [(seqOf [(.opt separator, false), (.star (.letter fun _ => true), false)], true)]) := by
    intro x hmode hd
    obtain ⟨mode, ⟨kind, dotall, alts, items⟩, outer⟩ := x
    obtain rfl : mode = .plain := hmode
    obtain rfl : dotall = true := hd
    rfl
  exact hgroup.opt

/-! ### Parts one after the other -/

/-- The items of the parts of a pattern. -/
def joinItems (subentriesMatch : Bool) : List Part → Option (List (Regex Char × Bool))
  | [] => some []
  | [.deep] => some [(.plus (.letter fun _ => true), false), (anything, false)]
  | [.shallow ps] =>
    (itemsOf ps).map (· ++ [if subentriesMatch then (anything, false) else (.opt separator, false)])
  | .deep :: parts =>
    (joinItems subentriesMatch parts).map
      ([(.star (.letter fun _ => true), false), (atBegin, true)] ++ ·)
  | .shallow ps :: parts =>
    (itemsOf ps).bind fun is =>
      (joinItems subentriesMatch parts).map (is ++ [(separator, true)] ++ ·)

/-- Only `**` is translated to what stands for zero or more directories. -/
theorem translateChars_ne (pat : Str) : translateChars 0 pat ≠ doubleStartRe := by
  have hdot : ∀ c w, escape c ++ w ≠ doubleStartRe := by
    intro c w
    rw [escape]
    split
    · exact fun h => absurd (List.cons.inj h).1 (by decide)
    case isFalse hc => exact fun h => hc ((List.cons.inj h).1 ▸ by decide)
  have hbracket : ∀ w, '[' :: w ≠ doubleStartRe := fun w h =>
    absurd (List.cons.inj h).1 (by decide)
  cases pat with
  | nil => exact (List.cons_ne_nil _ _).symm
  | cons c pat =>
    rw [translateChars]
    split
    · exact hbracket _
    split
    · exact hbracket _
    split
    · split
      · exact hdot '[' _
      · exact hbracket _
    · exact hdot c _

theorem translateGlobPart_eq_iff (pat : Str) :
    translateGlobPart pat = doubleStartRe ↔ pat = "**".toList := by
  rw [translateGlobPart]
  split
  case isTrue h => exact iff_of_true rfl h
  case isFalse h => exact iff_of_false (translateChars_ne pat) h

theorem writes_join (subentriesMatch : Bool) (pats : List Str) :
    Writes true (joinTranslated subentriesMatch (pats.map translateGlobPart))
      (joinItems subentriesMatch (pats.map part)) := by
  induction pats with
  | nil => exact writes_nil
  | cons pat pats ih =>
    by_cases hdeep : pat = "**".toList
    · have hpart : part pat = .deep := if_pos hdeep
      have htext : translateGlobPart pat = doubleStartRe := (translateGlobPart_eq_iff pat).mpr hdeep
      cases pats with
      | nil =>
        simp only [List.map_cons, List.map_nil, joinTranslated, joinItems, hpart, if_pos htext]
        exact writes_dot.plus.append writes_anything
      | cons next pats =>
        simp only [List.map_cons, joinTranslated, joinItems, hpart, if_pos htext]
        rw [htext]
        exact writes_doubleStartRe.append ih
    · have hpart : part pat = .shallow (pieces 0 pat) := if_neg hdeep
      have htext : translateGlobPart pat = translateChars 0 pat := if_neg hdeep
      have hpieces := writes_chars 0 pat
      cases pats with
      | nil =>
        simp only [List.map_cons, List.map_nil, joinTranslated, joinItems, hpart, htext,
          if_neg (translateChars_ne pat)]
        rw [Option.map_eq_bind]
        cases subentriesMatch with
        | true => exact hpieces.append writes_anything
        | false => exact hpieces.append writes_separator.opt
      | cons next pats =>
        simp only [List.map_cons, joinTranslated, joinItems, hpart, htext,
          if_neg (translateChars_ne pat)]
        have hboth := (hpieces.append writes_separator).append ih
        cases hitems : itemsOf (pieces 0 pat) with
        | none =>
          rw [hitems] at hboth
          exact hboth
        | some is =>
          rw [hitems] at hboth
          exact hboth

/-- The regular expression of a pattern, unless a class has a descending range. -/
theorem compile_translateGlob (pat : Str) (subentriesMatch : Bool) :
    compile (translateGlob pat subentriesMatch) =
      (joinItems subentriesMatch ((iexplodePath pat).map part)).map
        fun is => seqOf [(seqOf is, true), (.stop, false)] :=
  compile_eq (writes_join subentriesMatch (iexplodePath pat))

theorem itemsOf_eq_none_iff (ps : List Piece) :
    itemsOf ps = none ↔ ¬ ∀ piece ∈ ps, piece.WellFormed := by
  induction ps with
  | nil => exact iff_of_false (fun h => nomatch h) (not_not.mpr fun _ h => absurd h List.not_mem_nil)
  | cons piece ps ih =>
    have hpiece : piece.items = none ↔ ¬ piece.WellFormed := by
      cases piece with
      | oneOf neg letters =>
        rw [Piece.items, Option.map_eq_none_iff, Piece.WellFormed, not_not]
      | _ => exact iff_of_false (fun h => nomatch h) (not_not.mpr trivial)
    rw [itemsOf, List.forall_mem_cons, not_and_or, ← hpiece, ← ih]
    cases piece.items with
    | none => exact iff_of_true rfl (Or.inl rfl)
    | some is =>
      rw [Option.bind_some, Option.map_eq_none_iff]
      exact (or_iff_right fun h => nomatch h).symm

theorem joinItems_eq_none_iff (subentriesMatch : Bool) (parts : List Part) :
    joinItems subentriesMatch parts = none ↔ ¬ ∀ p ∈ parts, p.WellFormed := by
  induction parts with
  | nil => exact iff_of_false (fun h => nomatch h) (not_not.mpr fun _ h => absurd h List.not_mem_nil)
  | cons p parts ih =>
    rw [List.forall_mem_cons, not_and_or, ← ih]
    cases p with
    | deep =>
      have hdeep : ¬ ¬ Part.deep.WellFormed := not_not.mpr trivial
      cases parts with
      | nil => exact iff_of_false (fun h => nomatch h) (not_or.mpr ⟨hdeep, fun h => nomatch h⟩)
      | cons q parts =>
        rw [joinItems, Option.map_eq_none_iff]
        · exact (or_iff_right hdeep).symm
        · exact fun h => nomatch h
    | shallow ps =>
      have hitems : itemsOf ps = none ↔ ¬ (Part.shallow ps).WellFormed := itemsOf_eq_none_iff ps
      rw [← hitems]
      cases parts with
      | nil =>
        have hlast : joinItems subentriesMatch [.shallow ps] = none ↔ itemsOf ps = none :=
          Option.map_eq_none_iff
        rw [hlast]
        exact (or_iff_left fun h => nomatch h).symm
      | cons q parts =>
        rw [joinItems]
        · cases itemsOf ps with
          | none => exact iff_of_true rfl (Or.inl rfl)
          | some is =>
            rw [Option.bind_some, Option.map_eq_none_iff]
            exact (or_iff_right fun h => nomatch h).symm
        · exact fun h => nomatch h

/-! ### The meaning is preserved -/

theorem inClass_slash (neg : Bool) (c : Char) :
    inClass neg [('/', '/')] c = true ↔ (c = '/' ↔ neg = false) := by
  have hrange : (decide ('/' ≤ c) && decide (c ≤ '/')) = decide (c = '/') := by
    rw [← Bool.decide_and]
    exact decide_eq_decide.mpr ⟨fun h => Char.le_antisymm h.2 h.1,
      fun h => h ▸ ⟨Char.le_refl _, Char.le_refl _⟩⟩
  rw [inClass, List.any_cons, List.any_nil, Bool.or_false]
  show ((decide ('/' ≤ c) && decide (c ≤ '/')) != neg) = true ↔ _
  rw [hrange]
  cases neg <;> by_cases hc : c = '/' <;> simp [hc]

theorem derives_noSeparator_iff {b t a : Str} :
    Derives noSeparator b t a ↔ ∃ c, c ≠ '/' ∧ t = [c] := by
  rw [noSeparator, derives_letter_iff]
  refine exists_congr fun c => and_congr_left fun _ => ?_
  rw [inClass_slash]
  exact ⟨fun h hc => (nomatch h.mp hc), fun hc => iff_of_false hc fun h => nomatch h⟩

theorem derives_separator_iff {b t a : Str} : Derives separator b t a ↔ t = ['/'] := by
  rw [separator, derives_letter_iff]
  refine ⟨?_, fun h => ⟨'/', (inClass_slash false '/').mpr (iff_of_true rfl rfl), h⟩⟩
  rintro ⟨c, hc, rfl⟩
  rw [((inClass_slash false c).mp hc).mpr rfl]

theorem derives_piece_iff {piece : Piece} {is : List (Regex Char × Bool)}
    (h : piece.items = some is) {b t a : Str} : Derives (seqOf is) b t a ↔ piece.Means t := by
  cases piece with
  | star =>
    obtain rfl := Option.some.inj h
    rw [derives_seqOf_singleton_iff]
    refine derives_many_iff.trans ?_
    refine ⟨fun hall hmem => ?_, fun hnot c hc => ?_⟩
    · exact nomatch ((inClass_slash true '/').mp (hall '/' hmem)).mp rfl
    · exact (inClass_slash true c).mpr (iff_of_false (fun h => hnot (h ▸ hc)) fun h => nomatch h)
  | question =>
    obtain rfl := Option.some.inj h
    rw [derives_seqOf_singleton_iff, derives_opt_iff, derives_noSeparator_iff, or_comm]
    rfl
  | oneOf neg letters =>
    obtain ⟨rs, hrs, rfl⟩ := Option.map_eq_some_iff.mp h
    rw [derives_seqOf_singleton_iff, derives_letter_iff]
    refine exists_congr fun c => and_congr_left fun _ => ?_
    refine ⟨fun hc => ⟨rs, hrs, hc⟩, ?_⟩
    rintro ⟨rs', hrs', hc⟩
    rw [Option.some.inj (hrs.symm.trans hrs')]
    exact hc
  | letter c =>
    obtain rfl := Option.some.inj h
    rw [derives_seqOf_singleton_iff, derives_letter_iff]
    refine ⟨?_, fun ht => ⟨c, beq_self_eq_true c, ht⟩⟩
    rintro ⟨d, hd, rfl⟩
    rw [beq_iff_eq.mp hd]
    rfl

theorem derives_pieces_iff {ps : List Piece} {is : List (Regex Char × Bool)}
    (h : itemsOf ps = some is) {b t a : Str} : Derives (seqOf is) b t a ↔ PiecesMean ps t := by
  induction ps generalizing is b t with
  | nil =>
    obtain rfl := Option.some.inj h
    exact derives_seqOf_nil_iff
  | cons piece ps ih =>
    rw [itemsOf] at h
    obtain ⟨is, hpiece, h⟩ := Option.bind_eq_some_iff.mp h
    obtain ⟨js, hps, rfl⟩ := Option.map_eq_some_iff.mp h
    rw [derives_seqOf_append_iff, PiecesMean]
    refine exists_congr fun v => exists_congr fun w => and_congr_right fun _ => ?_
    rw [derives_piece_iff hpiece, ih hps]

/-- The assertion at the end of `**`. -/
theorem derives_atBegin_iff {b t a : Str} : Derives atBegin b t a ↔ t = [] ∧ AtBegin b := by
  rw [atBegin, derives_alt_iff, derives_seqOf_singleton_iff, derives_seqOf_singleton_iff,
    derives_behind_iff, derives_behind_iff, ← and_or_left]
  refine and_congr_right fun _ => ?_
  simp only [derives_seqOf_singleton_iff, derives_separator_iff, derives_start_iff]
  refine ⟨?_, ?_⟩
  · rintro (⟨pre, u, rfl, rfl⟩ | ⟨pre, u, rfl, rfl, rfl⟩)
    · exact Or.inr List.getLast?_concat
    · exact Or.inl rfl
  · rintro (rfl | hlast)
    · exact Or.inr ⟨[], [], rfl, rfl, rfl⟩
    · obtain ⟨pre, rfl⟩ := List.getLast?_eq_some_iff.mp hlast
      exact Or.inl ⟨pre, ['/'], rfl, rfl⟩

theorem derives_anyText (b t a : Str) : Derives (.star (.letter fun _ => true)) b t a :=
  derives_many_iff.mpr fun _ _ => rfl

/-- The separator before what may follow is optional, so that anything may. -/
theorem derives_anything (b t a : Str) : Derives anything b t a := by
  refine derives_opt_iff.mpr (Or.inl (derives_seqOf_cons_iff.mpr ⟨[], t, rfl, ?_, ?_⟩))
  · exact derives_opt_iff.mpr (Or.inr rfl)
  · exact derives_seqOf_singleton_iff.mpr (derives_anyText _ _ _)

theorem derives_anyText_plus {b t a : Str} :
    Derives (.plus (.letter fun _ => true)) b t a ↔ t ≠ [] := by
  rw [plus, derives_seq_iff]
  refine ⟨?_, fun h => ?_⟩
  · rintro ⟨u, v, rfl, hu, -⟩
    obtain ⟨c, -, rfl⟩ := derives_letter_iff.mp hu
    exact List.cons_ne_nil c v
  · obtain ⟨c, t, rfl⟩ := List.exists_cons_of_ne_nil h
    exact ⟨[c], t, rfl, derives_letter_iff.mpr ⟨c, rfl, rfl⟩, derives_anyText _ _ _⟩

/-- What the items of a pattern match is what the pattern means. -/
theorem derives_join_iff {subentriesMatch : Bool} {parts : List Part}
    {is : List (Regex Char × Bool)} (h : joinItems subentriesMatch parts = some is)
    {b t a : Str} : Derives (seqOf is) b t a ↔ Means subentriesMatch parts b t := by
  induction parts generalizing is b t with
  | nil =>
    obtain rfl := Option.some.inj h
    exact derives_seqOf_nil_iff
  | cons p parts ih =>
    cases p with
    | deep =>
      cases parts with
      | nil =>
        obtain rfl := Option.some.inj h
        rw [derives_seqOf_cons_iff, Means]
        simp only [derives_seqOf_singleton_iff, derives_anyText_plus]
        refine ⟨?_, fun hne => ⟨t, [], (List.append_nil t).symm, hne, derives_anything _ _ _⟩⟩
        rintro ⟨u, v, rfl, hne, -⟩
        exact List.append_ne_nil_of_left_ne_nil hne v
      | cons q parts =>
        obtain ⟨js, hjs, rfl⟩ := Option.map_eq_some_iff.mp h
        rw [List.cons_append, List.singleton_append, derives_seqOf_cons_iff, Means]
        · refine exists_congr fun v => exists_congr fun w => and_congr_right fun _ => ?_
          rw [derives_seqOf_cons_iff, and_iff_right (derives_anyText _ _ _)]
          refine ⟨?_, fun ⟨hbegin, hmeans⟩ => ⟨[], w, rfl, derives_atBegin_iff.mpr ⟨rfl, hbegin⟩, ?_⟩⟩
          · rintro ⟨u, w', rfl, hassert, hjoin⟩
            obtain ⟨rfl, hbegin⟩ := derives_atBegin_iff.mp hassert
            rw [List.append_nil] at hjoin
            exact ⟨hbegin, (ih hjs).mp hjoin⟩
          · rw [List.append_nil]
            exact (ih hjs).mpr hmeans
        · exact fun h => nomatch h
    | shallow ps =>
      cases parts with
      | nil =>
        obtain ⟨js, hjs, rfl⟩ := Option.map_eq_some_iff.mp h
        rw [derives_seqOf_append_iff, Means]
        refine exists_congr fun v => exists_congr fun w => and_congr_right fun _ => ?_
        rw [derives_pieces_iff hjs]
        refine and_congr_right fun _ => ?_
        cases subentriesMatch with
        | true =>
          exact iff_of_true (derives_seqOf_singleton_iff.mpr (derives_anything _ _ _))
            fun h => nomatch h
        | false =>
          refine derives_seqOf_singleton_iff.trans ?_
          rw [derives_opt_iff, derives_separator_iff, or_comm]
          exact ⟨fun h _ => h, fun h => h rfl⟩
      | cons q parts =>
        obtain ⟨js, hjs, h⟩ := Option.bind_eq_some_iff.mp h
        obtain ⟨ks, hks, rfl⟩ := Option.map_eq_some_iff.mp h
        rw [List.append_assoc, derives_seqOf_append_iff, Means]
        · refine ⟨?_, ?_⟩
          · rintro ⟨v, w, rfl, hv, hw⟩
            obtain ⟨u, w, rfl, hseparator, hjoin⟩ := derives_seqOf_cons_iff.mp hw
            obtain rfl := derives_separator_iff.mp hseparator
            exact ⟨v, w, rfl, (derives_pieces_iff hjs).mp hv, (ih hks).mp hjoin⟩
          · rintro ⟨v, w, rfl, hv, hw⟩
            exact ⟨v, '/' :: w, rfl, (derives_pieces_iff hjs).mpr hv,
              derives_seqOf_cons_iff.mpr ⟨['/'], w, rfl, derives_separator_iff.mpr rfl,
                (ih hks).mpr hw⟩⟩
        · exact fun h => nomatch h

/-- **The translation preserves the meaning.**  A pattern is refused when a class has a descending
range; otherwise its matcher accepts the paths that the pattern means. -/
theorem compilePattern_means (pat : Str) (subentriesMatch : Bool) :
    match compilePattern pat subentriesMatch with
    | none => ∃ p ∈ (iexplodePath pat).map part, ¬ p.WellFormed
    | some matcher => (∀ p ∈ (iexplodePath pat).map part, p.WellFormed) ∧
        ∀ path, matcher path = true ↔
          Means subentriesMatch ((iexplodePath pat).map part) [] path := by
  have hnone := joinItems_eq_none_iff subentriesMatch ((iexplodePath pat).map part)
  rw [compilePattern, compile_translateGlob, Option.map_map]
  cases hitems : joinItems subentriesMatch ((iexplodePath pat).map part) with
  | none =>
    obtain ⟨p, hp⟩ := not_forall.mp (hnone.mp hitems)
    exact ⟨p, Classical.not_imp.mp hp⟩
  | some is =>
    refine ⟨not_not.mp fun hbad => ?_, fun path => ?_⟩
    · exact nomatch hitems.symm.trans (hnone.mpr hbad)
    · rw [Function.comp_apply, isMatch_whole_iff, derives_join_iff hitems]

end Reloadium.Glob
