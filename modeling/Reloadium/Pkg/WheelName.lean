import Reloadium.Lib.Infixes
import Reloadium.Pkg.Wheel

namespace Reloadium.Pkg

open Reloadium.Lib

/-!
# Pkg — the grammar of wheel names

The names of the binary wheels, `reloadium-X.Y.Z-cp3N-cp3N[m]-TAG.whl`, and what
`WheelFactory.factory` makes of them.  The three regular expressions look for their matches in
the whole name: each is shown to match first where the grammar has the part it is for.

* `WheelName` — a name with its parts, which carry the conditions of the grammar;
* `contains_text_iff` — a platform occurs in the name just where it occurs in the tag;
* `factory_wheelName` — the wheel that the factory makes.
-/

/-! ### Names -/

/-- A non-empty string of digits. -/
def IsNumber (s : Text) : Prop := s ≠ [] ∧ ∀ c ∈ s, c.isDigit = true

instance (s : Text) : Decidable (IsNumber s) :=
  decidable_of_iff (s ≠ [] ∧ s.all Char.isDigit = true) (by rw [IsNumber, List.all_eq_true])

/-- A character of a platform tag. -/
def isTagChar (c : Char) : Bool := c.isLower || c.isDigit || c = '_' || c = '.'

/-- A name of a binary wheel. -/
structure WheelName where
  x : Text
  y : Text
  z : Text
  n : Text
  /-- The ABI tag has its `m`. -/
  m : Bool
  tag : Text
  isNumber_x : IsNumber x
  isNumber_y : IsNumber y
  isNumber_z : IsNumber z
  isNumber_n : IsNumber n
  isTagChar_tag : ∀ c ∈ tag, isTagChar c = true
  /-- Exactly one of the platforms occurs in the tag. -/
  platform :
    contains tag "linux" = true ∧ contains tag "macos" = false ∧ contains tag "win" = false ∨
    contains tag "linux" = false ∧ contains tag "macos" = true ∧ contains tag "win" = false ∨
    contains tag "linux" = false ∧ contains tag "macos" = false ∧ contains tag "win" = true
  no_inner_whl : contains tag ".whl" = false

namespace WheelName

/-- `X.Y.Z`. -/
def version (w : WheelName) : Text := w.x ++ '.' :: w.y ++ '.' :: w.z

/-- The tags for the Python and its ABI. -/
def pythonTag (w : WheelName) : Text := "cp3".toList ++ w.n

@[inherit_doc pythonTag]
def abiTag (w : WheelName) : Text := w.pythonTag ++ if w.m then ['m'] else []

/-- The name. -/
def text (w : WheelName) : Text :=
  "reloadium".toList ++ '-' :: w.version ++ '-' :: w.pythonTag ++ '-' :: w.abiTag ++
    '-' :: w.tag ++ ".whl".toList

theorem whl_eq : ".whl".toList = '.' :: "whl".toList := by decide

/-- The name, cut at the last full stop. -/
theorem text_eq (w : WheelName) :
    w.text = ("reloadium".toList ++ '-' :: w.version ++ '-' :: w.pythonTag ++ '-' :: w.abiTag ++
      '-' :: w.tag) ++ '.' :: "whl".toList := congrArg (_ ++ ·) whl_eq

/-- The class for the platform of the tag. -/
def wheelClass (w : WheelName) : WheelClass :=
  if contains w.tag "linux" then .UnixWheel
  else if contains w.tag "macos" then
    if contains w.tag "arm64" then .M1Wheel else .MacWheel
  else .WinWheel

/-- The wheel of the name. -/
def wheel (w : WheelName) : BaseWheel where
  cls := w.wheelClass
  input := w.text
  pythonVersion := some ("3.".toList ++ w.n)
  filename := some w.text
  version := some w.version

end WheelName

/-! ### Characters -/

theorem contains_iff (s : Text) (sub : String) : contains s sub = true ↔ sub.toList <:+: s := by
  simp only [contains, List.any_eq_true, List.mem_tails, List.isPrefixOf_iff_prefix]
  exact ⟨fun ⟨t, ht, hsub⟩ => hsub.isInfix.trans ht.isInfix, fun h => by
    obtain ⟨t, hsub, ht⟩ := List.infix_iff_prefix_suffix.mp h
    exact ⟨t, ht, hsub⟩⟩

theorem startsWith_iff (s : Text) (pre : String) : startsWith s pre = true ↔ pre.toList <+: s :=
  List.isPrefixOf_iff_prefix

/-- The characters of three numbers with full stops between them. -/
theorem mem_numbers {x y z : Text} (hx : IsNumber x) (hy : IsNumber y) (hz : IsNumber z) {c : Char}
    (hc : c ∈ x ++ '.' :: y ++ '.' :: z) : c = '.' ∨ c.isDigit = true := by
  simp only [List.mem_append, List.mem_cons] at hc
  rcases hc with (hc | rfl | hc) | rfl | hc
  · exact Or.inr (hx.2 c hc)
  · exact Or.inl rfl
  · exact Or.inr (hy.2 c hc)
  · exact Or.inl rfl
  · exact Or.inr (hz.2 c hc)

theorem mem_version {w : WheelName} {c : Char} (hc : c ∈ w.version) :
    c = '.' ∨ c.isDigit = true := mem_numbers w.isNumber_x w.isNumber_y w.isNumber_z hc

/-- The characters of the tags in front of the platform's. -/
theorem mem_abiTag {w : WheelName} {c : Char} (hc : c ∈ w.abiTag) :
    c = 'c' ∨ c = 'p' ∨ c = 'm' ∨ c.isDigit = true := by
  simp only [WheelName.abiTag, WheelName.pythonTag, List.mem_append] at hc
  rcases hc with (hc | hc) | hc
  · have hcp3 : c = 'c' ∨ c = 'p' ∨ c = '3' := by simpa using hc
    rcases hcp3 with rfl | rfl | rfl <;> simp
  · exact Or.inr (Or.inr (Or.inr (w.isNumber_n.2 c hc)))
  · split at hc <;> simp_all

theorem mem_abiTag_of_mem_pythonTag {w : WheelName} {c : Char} (hc : c ∈ w.pythonTag) :
    c ∈ w.abiTag := List.mem_append_left _ hc

/-- A letter that no version and no Python tag has. -/
def isForeign (c : Char) : Bool := !c.isDigit && c != '.' && c != 'c' && c != 'p' && c != 'm'

/-! ### The platform -/

/-- A word for a platform: it has no separator, a letter that is neither in a version nor in a
    Python tag, and a letter that is not in the extension. -/
structure IsPlatformWord (sub : String) : Prop where
  no_dash : '-' ∉ sub.toList
  no_dot : '.' ∉ sub.toList
  foreign : ∃ c ∈ sub.toList, isForeign c = true
  not_whl : ¬ sub.toList <:+: "whl".toList
  not_reloadium : ¬ sub.toList <:+: "reloadium".toList

/-- **The platform.** Such a word occurs in a name just where it occurs in the tag. -/
theorem contains_text_iff (w : WheelName) {sub : String} (hsub : IsPlatformWord sub) :
    contains w.text sub = contains w.tag sub := by
  obtain ⟨c, hc, hforeign⟩ := hsub.foreign
  simp only [isForeign, Bool.and_eq_true, Bool.not_eq_true', bne_iff_ne] at hforeign
  obtain ⟨⟨⟨⟨hdigit, hdot⟩, hcc⟩, hcp⟩, hcm⟩ := hforeign
  have hversion : ¬ sub.toList <:+: w.version := by
    refine not_infix_of_notMem hc fun hmem => ?_
    rcases mem_version hmem with h | h
    · exact hdot h
    · rw [hdigit] at h
      cases h
  have habi : c ∉ w.abiTag := fun hmem => by
    rcases mem_abiTag hmem with h | h | h | h
    · exact hcc h
    · exact hcp h
    · exact hcm h
    · rw [hdigit] at h
      cases h
  have hpython : ¬ sub.toList <:+: w.pythonTag :=
    not_infix_of_notMem hc fun hmem => habi (mem_abiTag_of_mem_pythonTag hmem)
  rw [Bool.eq_iff_iff, contains_iff, contains_iff, w.text_eq]
  rw [infix_append_cons_iff hsub.no_dot, infix_append_cons_iff hsub.no_dash,
    infix_append_cons_iff hsub.no_dash, infix_append_cons_iff hsub.no_dash,
    infix_append_cons_iff hsub.no_dash, or_iff_left hsub.not_whl, or_iff_right ?_]
  rintro (((h | h) | h) | h)
  · exact hsub.not_reloadium h
  · exact hversion h
  · exact hpython h
  · exact not_infix_of_notMem hc habi h

theorem isPlatformWord_linux : IsPlatformWord "linux" :=
  ⟨by decide, by decide, ⟨'l', by decide, by decide⟩, by decide, by decide⟩

theorem isPlatformWord_macos : IsPlatformWord "macos" :=
  ⟨by decide, by decide, ⟨'a', by decide, by decide⟩, by decide, by decide⟩

theorem isPlatformWord_win : IsPlatformWord "win" :=
  ⟨by decide, by decide, ⟨'w', by decide, by decide⟩, by decide, by decide⟩

theorem isPlatformWord_arm64 : IsPlatformWord "arm64" :=
  ⟨by decide, by decide, ⟨'a', by decide, by decide⟩, by decide, by decide⟩

/-! ### Leftmost matches -/

section Find

variable {α : Type} {matchAt : Text → Option α} {s pre : Text} {r : α}

theorem find_of_some (h : matchAt s = some r) : find matchAt s = some r := by
  cases s <;> rw [find, List.tails, List.findSome?_cons, h]

/-- No match starts in the first part of a text. -/
theorem find_append (h : ∀ c ∈ pre, ∀ t, matchAt (c :: t) = none) :
    find matchAt (pre ++ s) = find matchAt s := by
  induction pre with
  | nil => rfl
  | cons c pre ih =>
    rw [List.cons_append, find, List.tails, List.findSome?_cons, h c List.mem_cons_self]
    exact ih fun c' hc' => h c' (List.mem_cons_of_mem c hc')

end Find

theorem stripPrefix_append (pre : String) (s : Text) :
    stripPrefix (pre.toList ++ s) pre = some s := by
  rw [stripPrefix, if_pos ((startsWith_iff _ _).mpr (List.prefix_append _ _)), List.drop_left]

theorem stripPrefix_eq_none {pre : String} {s : Text} (h : ¬ pre.toList <+: s) :
    stripPrefix s pre = none := by
  rw [stripPrefix, if_neg fun hs => h ((startsWith_iff _ _).mp hs)]

/-! ### The Python version -/

/-- None of the characters of a name ends a line. -/
theorem isLineTerminator_eq_false {c : Char}
    (hc : isTagChar c = true ∨ c = '-') : isLineTerminator c = false := by
  by_contra hline
  simp only [isLineTerminator, Bool.not_eq_false, Bool.or_eq_true, decide_eq_true_eq] at hline
  rcases hline with (((rfl | rfl) | rfl) | rfl) | rfl <;> revert hc <;> decide

theorem isTagChar_of_isDigit {c : Char} (hc : c.isDigit = true) : isTagChar c = true := by
  rw [isTagChar, hc, Bool.or_true, Bool.true_or, Bool.true_or]

/-- A number ends at the dash behind it. -/
theorem lazyToDash_number {n : Text} (hn : ∀ c ∈ n, c.isDigit = true) (t : Text) :
    lazyToDash (n ++ '-' :: t) = some n := by
  induction n with
  | nil => rfl
  | cons c n ih =>
    have hc := hn c List.mem_cons_self
    have hm : c ≠ 'm' := by
      rintro rfl
      cases hc
    have hdash : c ≠ '-' := by
      rintro rfl
      cases hc
    rw [List.cons_append, lazyToDash.eq_4 c _ (fun _ h _ => hm h) hdash,
      isLineTerminator_eq_false (Or.inl (isTagChar_of_isDigit hc)),
      ih fun c' hc' => hn c' (List.mem_cons_of_mem c hc')]
    rfl

/-- The name, cut at the tag for the Python. -/
theorem WheelName.text_eq_python (w : WheelName) :
    w.text = "reloadium".toList ++ '-' :: (w.version ++ '-' :: ("cp3".toList ++ (w.n ++
      '-' :: (w.abiTag ++ '-' :: w.tag ++ ".whl".toList)))) := by
  have hcut (name cp3 whl : Text) :
      name ++ '-' :: w.version ++ '-' :: (cp3 ++ w.n) ++ '-' :: w.abiTag ++ '-' :: w.tag ++ whl =
        name ++ '-' :: (w.version ++ '-' :: (cp3 ++ (w.n ++
          '-' :: (w.abiTag ++ '-' :: w.tag ++ whl)))) := by
    simp only [List.append_assoc, List.cons_append]
  exact hcut _ _ _

/-- A version starts with a digit. -/
theorem version_eq_cons (w : WheelName) :
    ∃ c rest, w.version = c :: rest ∧ c.isDigit = true := by
  obtain ⟨hne, hdigits⟩ := w.isNumber_x
  obtain ⟨c, x, hx⟩ := List.exists_cons_of_ne_nil hne
  rw [WheelName.version, hx]
  exact ⟨c, _, rfl, hdigits c (hx ▸ List.mem_cons_self)⟩

theorem dash_notMem_version (w : WheelName) : '-' ∉ w.version := by
  intro hmem
  rcases mem_version hmem with h | h <;> cases h

/-- `-cp3(.*?)m?-` at the start of a text. -/
def matchCp3 (s : Text) : Option Text := (stripPrefix s "-cp3").bind lazyToDash

theorem cp3_eq : "-cp3".toList = '-' :: "cp3".toList := by decide

theorem matchCp3_cp3 (s : Text) : matchCp3 ('-' :: ("cp3".toList ++ s)) = lazyToDash s := by
  have hstrip : stripPrefix ('-' :: ("cp3".toList ++ s)) "-cp3" = some s :=
    (congrArg (fun dash => stripPrefix (dash ++ s) "-cp3") cp3_eq).symm.trans
      (stripPrefix_append "-cp3" s)
  rw [matchCp3, hstrip, Option.bind_some]

/-- The match is at a dash, -/
theorem matchCp3_cons_of_ne {c : Char} (hc : c ≠ '-') (t : Text) : matchCp3 (c :: t) = none := by
  rw [matchCp3, stripPrefix_eq_none, Option.bind_none]
  rw [cp3_eq, List.cons_prefix_cons]
  exact fun h => hc h.1.symm

/-- and no digit follows the dash. -/
theorem matchCp3_digit {c : Char} (hc : c.isDigit = true) (t : Text) :
    matchCp3 ('-' :: c :: t) = none := by
  have hcp3 : "-cp3".toList = ['-', 'c', 'p', '3'] := by decide
  rw [matchCp3, stripPrefix_eq_none, Option.bind_none]
  intro h
  have hbegins : ['-', 'c', 'p', '3'] <+: '-' :: c :: t := by rwa [hcp3] at h
  obtain rfl : 'c' = c := (List.cons_prefix_cons.mp (List.cons_prefix_cons.mp hbegins).2).1
  exact absurd hc (by decide)

theorem parsePythonVersion_text (w : WheelName) :
    parsePythonVersion w.text = some ("3.".toList ++ w.n) := by
  have hname : '-' ∉ "reloadium".toList := by decide
  -- the dash before the version is not followed by `cp3`
  have hdash (t : Text) : find matchCp3 ('-' :: (w.version ++ t)) =
      find matchCp3 (w.version ++ t) := by
    obtain ⟨c, rest, hversion, hdigit⟩ := version_eq_cons w
    rw [hversion, List.cons_append, find, List.tails, List.findSome?_cons,
      matchCp3_digit hdigit]
    rfl
  have hmatch (t : Text) : find matchCp3 ('-' :: ("cp3".toList ++ (w.n ++ '-' :: t))) =
      some w.n := by
    refine find_of_some ?_
    rw [matchCp3_cp3, lazyToDash_number w.isNumber_n.2]
  have hfind : find matchCp3 w.text = some w.n := by
    rw [w.text_eq_python,
      find_append fun c hc t => matchCp3_cons_of_ne (fun h => hname (h ▸ hc)) t, hdash,
      find_append fun c hc t => matchCp3_cons_of_ne (fun h => dash_notMem_version w (h ▸ hc)) t,
      hmatch]
  exact congrArg (Option.map ("3.".toList ++ ·)) hfind

/-! ### The file name -/

/-- The name, cut behind `reloadium-`. -/
theorem WheelName.text_eq_name (w : WheelName) :
    w.text = "reloadium-".toList ++ (w.version ++ '-' :: w.pythonTag ++ '-' :: w.abiTag ++
      '-' :: w.tag ++ ".whl".toList) := by
  have hname : "reloadium".toList ++ ['-'] = "reloadium-".toList := by decide
  have hcut (name whl : Text) :
      name ++ '-' :: w.version ++ '-' :: w.pythonTag ++ '-' :: w.abiTag ++ '-' :: w.tag ++ whl =
        (name ++ ['-']) ++ (w.version ++ '-' :: w.pythonTag ++ '-' :: w.abiTag ++
          '-' :: w.tag ++ whl) := by
    simp only [List.append_assoc, List.cons_append, List.nil_append]
  exact (hcut _ _).trans (congrArg (· ++ _) hname)

/-- The lazy match is the whole text when the extension is not earlier in it. -/
theorem lazyToWhl_append {s : Text} (hline : ∀ c ∈ s, isLineTerminator c = false)
    (hwhl : ¬ ".whl".toList <:+: s) :
    lazyToWhl (s ++ ".whl".toList) = some (s ++ ".whl".toList) := by
  induction s with
  | nil => decide
  | cons c s ih =>
    have hdot : '.' ∉ "whl".toList := by decide
    -- an occurrence that ends in the extension ends before its full stop
    have hstart : ¬ ".whl".toList <+: c :: (s ++ ".whl".toList) := by
      intro h
      have hcut : '.' :: "whl".toList <+: c :: (s ++ '.' :: "whl".toList) :=
        (congrArg (fun whl => whl <+: c :: (s ++ whl)) WheelName.whl_eq).mp h
      rw [List.cons_prefix_cons, prefix_append_cons_iff hdot] at hcut
      have hearly : '.' :: "whl".toList <+: c :: s := List.cons_prefix_cons.mpr hcut
      exact hwhl ((congrArg (· <+: c :: s) WheelName.whl_eq).mpr hearly).isInfix
    have hstart' : startsWith (c :: (s ++ ".whl".toList)) ".whl" = false := by
      rw [← Bool.not_eq_true, startsWith_iff]
      exact hstart
    rw [List.cons_append, lazyToWhl, hstart', hline c List.mem_cons_self,
      ih (fun c' hc' => hline c' (List.mem_cons_of_mem c hc'))
        fun h => hwhl (h.trans (List.suffix_cons c s).isInfix)]
    rfl

/-- The characters between `reloadium-` and the extension. -/
theorem mem_tags {w : WheelName} {c : Char}
    (hc : c ∈ w.version ++ '-' :: w.pythonTag ++ '-' :: w.abiTag ++ '-' :: w.tag) :
    isTagChar c = true ∨ c = '-' := by
  have hversion (h : c ∈ w.version) : isTagChar c = true := by
    rcases mem_version h with rfl | h
    · decide
    · exact isTagChar_of_isDigit h
  have habi (h : c ∈ w.abiTag) : isTagChar c = true := by
    rcases mem_abiTag h with rfl | rfl | rfl | h
    · decide
    · decide
    · decide
    · exact isTagChar_of_isDigit h
  simp only [List.mem_append, List.mem_cons] at hc
  rcases hc with ((h | h | h) | h | h) | h | h
  · exact Or.inl (hversion h)
  · exact Or.inr h
  · exact Or.inl (habi (mem_abiTag_of_mem_pythonTag h))
  · exact Or.inr h
  · exact Or.inl (habi h)
  · exact Or.inr h
  · exact Or.inl (w.isTagChar_tag c h)

/-- The extension is not in front of the end of the name. -/
theorem not_infix_whl (w : WheelName) :
    ¬ ".whl".toList <:+: w.version ++ '-' :: w.pythonTag ++ '-' :: w.abiTag ++ '-' :: w.tag := by
  have hdash : '-' ∉ ".whl".toList := by decide
  have hw : 'w' ∈ ".whl".toList := by decide
  have habi : 'w' ∉ w.abiTag := fun h => by
    rcases mem_abiTag h with h | h | h | h <;> exact absurd h (by decide)
  have hversion : 'w' ∉ w.version := fun h => by
    rcases mem_version h with h | h <;> exact absurd h (by decide)
  rw [infix_append_cons_iff hdash, infix_append_cons_iff hdash, infix_append_cons_iff hdash]
  rintro (((h | h) | h) | h)
  · exact not_infix_of_notMem hw hversion h
  · exact not_infix_of_notMem hw (fun hmem => habi (mem_abiTag_of_mem_pythonTag hmem)) h
  · exact not_infix_of_notMem hw habi h
  · exact absurd ((contains_iff w.tag ".whl").mpr h) (by rw [w.no_inner_whl]; decide)

theorem parseFilename_text (w : WheelName) : parseFilename w.text = some w.text := by
  refine find_of_some ?_
  have hstrip : stripPrefix w.text "reloadium-" = some (w.version ++ '-' :: w.pythonTag ++
      '-' :: w.abiTag ++ '-' :: w.tag ++ ".whl".toList) :=
    (congrArg (stripPrefix · "reloadium-") w.text_eq_name).trans (stripPrefix_append _ _)
  rw [hstrip, Option.bind_some, lazyToWhl_append
    (fun c hc => isLineTerminator_eq_false (mem_tags hc)) (not_infix_whl w), Option.map_some]
  exact congrArg some w.text_eq_name.symm

/-! ### The version -/

theorem digits_append {n : Text} (hn : IsNumber n) {c : Char} (hc : c.isDigit = false) (t : Text) :
    digits (n ++ c :: t) = some (n, c :: t) := by
  have htake : (n ++ c :: t).takeWhile Char.isDigit = n := by
    rw [List.takeWhile_append_of_pos hn.2, List.takeWhile_cons_of_neg (by rw [hc]; decide),
      List.append_nil]
  have hne : n.isEmpty = false := List.isEmpty_eq_false_iff.mpr hn.1
  rw [digits, htake, hne]
  simp

theorem threeNumbers_version (w : WheelName) (t : Text) :
    threeNumbers (w.version ++ '-' :: t) = some w.version := by
  have hdot : ".".toList = ['.'] := by decide
  have hstrip (s : Text) : stripPrefix ('.' :: s) "." = some s :=
    (congrArg (fun dot => stripPrefix (dot ++ s) ".") hdot).symm.trans (stripPrefix_append "." s)
  have hx := digits_append w.isNumber_x (by decide) (c := '.') (w.y ++ '.' :: (w.z ++ '-' :: t))
  have hy := digits_append w.isNumber_y (by decide) (c := '.') (w.z ++ '-' :: t)
  have hz := digits_append w.isNumber_z (by decide) (c := '-') t
  have hassoc : w.version ++ '-' :: t =
      w.x ++ '.' :: (w.y ++ '.' :: (w.z ++ '-' :: t)) := by
    simp only [WheelName.version, List.append_assoc, List.cons_append]
  rw [hassoc, threeNumbers, hx]
  simp only [Option.bind_eq_bind, Option.bind_some, hstrip, hy, hz, Option.pure_def]
  simp only [WheelName.version, List.append_assoc, List.cons_append, List.nil_append]

theorem parseVersion_text (w : WheelName) : parseVersion w.text = some w.version := by
  refine find_of_some ?_
  have hassoc : w.version ++ '-' :: w.pythonTag ++ '-' :: w.abiTag ++ '-' :: w.tag ++
      ".whl".toList = w.version ++ '-' :: (w.pythonTag ++ '-' :: w.abiTag ++ '-' :: w.tag ++
        ".whl".toList) := by
    simp only [List.append_assoc, List.cons_append]
  have hstrip : stripPrefix w.text "reloadium-" = some (w.version ++ '-' :: (w.pythonTag ++
      '-' :: w.abiTag ++ '-' :: w.tag ++ ".whl".toList)) :=
    (congrArg (stripPrefix · "reloadium-") w.text_eq_name).trans
      ((stripPrefix_append _ _).trans (congrArg some hassoc))
  rw [hstrip, Option.bind_some, threeNumbers_version]

/-! ### The wheel -/

theorem new_text (w : WheelName) {cls : WheelClass} (hcls : cls.unparsed = false) :
    BaseWheel.new cls w.text = some {
      cls, input := w.text
      pythonVersion := some ("3.".toList ++ w.n)
      filename := some w.text
      version := some w.version } := by
  rw [BaseWheel.new, if_neg (by rw [hcls]; decide), parsePythonVersion_text, parseFilename_text,
    parseVersion_text]
  rfl

theorem unparsed_wheelClass (w : WheelName) : w.wheelClass.unparsed = false := by
  unfold WheelName.wheelClass
  repeat' split
  all_goals rfl

/-- **Names of wheels.** The factory reads every part of a name where the grammar has it, and
    chooses the class for the platform. -/
theorem factory_wheelName (w : WheelName) : factory w.text = some w.wheel := by
  have hfactory : factory w.text = BaseWheel.new w.wheelClass w.text := by
    unfold factory WheelName.wheelClass
    rw [contains_text_iff w isPlatformWord_linux, contains_text_iff w isPlatformWord_macos,
      contains_text_iff w isPlatformWord_win, contains_text_iff w isPlatformWord_arm64]
    rcases w.platform with ⟨h, -, -⟩ | ⟨hlinux, hmacos, -⟩ | ⟨hlinux, hmacos, hwin⟩
    · rw [if_pos h, if_pos h]
    · simp only [hlinux, hmacos, if_true, Bool.false_eq_true, if_false]
      split <;> rfl
    · simp only [hlinux, hmacos, hwin, if_true, Bool.false_eq_true, if_false]
  rw [hfactory, new_text w (unparsed_wheelClass w)]
  rfl

end Reloadium.Pkg
