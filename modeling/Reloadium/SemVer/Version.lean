import Mathlib.Data.List.TakeWhile
import Reloadium.Lib.Decimal
import Reloadium.Lib.Infixes

namespace Reloadium.SemVer

open Lib

/-!
# Semantic versions — reading and writing

Model of `Version.parse` and `Version.__str__` of `semantic_version`, for versions that are not
partial.  `Unicode` is what `\d` and `int` know of decimal digits; the greedy groups of
`version_re` need no backtracking, since none of them can go on with what has to follow it.

* `Version.Valid` — what `parse` lets through;
* `versionRe_eq_some_iff` — what the regular expression matches;
* `parse_eq_ok_iff` — **reading and writing are inverse to each other**, on the texts of the
  version alphabet and the valid versions.

Outside that alphabet `parse` accepts a final newline and decimal digits of other scripts.
-/

abbrev Str := List Char

/-! ### The regular expression -/

/-- The decimal digits of Unicode with their values. -/
structure Unicode where
  decimal : Char → Option Nat
  decimal_of_ascii : ∀ c : Char, c.toNat < 128 →
    decimal c = if c.isDigit then some (c.toNat - 48) else none

/-- No decimal digits but those of ASCII. -/
instance : Inhabited Unicode :=
  ⟨{ decimal := fun c => if c.isDigit then some (c.toNat - 48) else none
     decimal_of_ascii := fun _ _ => rfl }⟩

/-- `\d` -/
def Unicode.isDecimal (u : Unicode) (c : Char) : Bool := (u.decimal c).isSome

/-- `[0-9a-zA-Z.-]` -/
def isIdentifiersChar (c : Char) : Bool := c.isAlphanum || c == '.' || c == '-'

/-- `\d+` -/
def digits (u : Unicode) (s : Str) : Option (Str × Str) :=
  if s.takeWhile u.isDecimal = [] then none
  else some (s.takeWhile u.isDecimal, s.dropWhile u.isDecimal)

/-- `\.` -/
def dot : Str → Option Str
  | '.' :: s => some s
  | _ => none

/-- An optional group of a sign and identifiers. -/
def signed (sign : Char) : Str → Option Str × Str
  | [] => (none, [])
  | c :: s =>
    if c = sign ∧ s.takeWhile isIdentifiersChar ≠ [] then
      (some (s.takeWhile isIdentifiersChar), s.dropWhile isIdentifiersChar)
    else (none, c :: s)

structure Groups where
  major : Str
  minor : Str
  patch : Str
  prerelease : Option Str
  build : Option Str

/-- `version_re.match` -/
def versionRe (u : Unicode) (s : Str) : Option Groups := do
  let (major, s) ← digits u s
  let s ← dot s
  let (minor, s) ← digits u s
  let s ← dot s
  let (patch, s) ← digits u s
  let (prerelease, s) := signed '-' s
  let (build, s) := signed '+' s
  -- `$` matches before a final newline
  if s = [] ∨ s = ['\n'] then some ⟨major, minor, patch, prerelease, build⟩ else none

/-! ### Versions -/

structure Version where
  major : Nat
  minor : Nat
  patch : Nat
  prerelease : List Str
  build : List Str
deriving DecidableEq

inductive Part
  | major
  | minor
  | patch
deriving DecidableEq

inductive ValueError
  | emptyVersionString
  | invalidVersionString
  | leadingZero (part : Part)
  | emptyIdentifier (identifiers : List Str)
  | leadingZeroInIdentifier (item : Str)
deriving DecidableEq

/-- `_has_leading_zero`, of digits -/
def hasLeadingZero (value : Str) : Bool := value.head? = some '0' && value != ['0']

/-- `int` -/
def int (u : Unicode) (s : Str) : Nat :=
  s.foldl (fun n c => 10 * n + (u.decimal c).getD 0) 0

/-- `_validate_identifiers` -/
def validateIdentifiers (allowLeadingZeroes : Bool) (identifiers : List Str) :
    List Str → Except ValueError Unit
  | [] => .ok ()
  | item :: items =>
    if item = [] then .error (.emptyIdentifier identifiers)
    else if hasLeadingZero item && item.all Char.isDigit && !allowLeadingZeroes then
      .error (.leadingZeroInIdentifier item)
    else validateIdentifiers allowLeadingZeroes identifiers items

/-- The identifiers of a group. -/
def identifiers (allowLeadingZeroes : Bool) : Option Str → Except ValueError (List Str)
  | none => .ok []
  | some text =>
    if text = [] then .ok []
    else (validateIdentifiers allowLeadingZeroes (text.splitOn '.') (text.splitOn '.')).map
      fun _ => text.splitOn '.'

/-- `Version.parse` -/
def parse (u : Unicode) (s : Str) : Except ValueError Version :=
  if s = [] then .error .emptyVersionString
  else
    match versionRe u s with
    | none => .error .invalidVersionString
    | some g =>
      if hasLeadingZero g.major then .error (.leadingZero .major)
      else if hasLeadingZero g.minor then .error (.leadingZero .minor)
      else if hasLeadingZero g.patch then .error (.leadingZero .patch)
      else do
        let prerelease ← identifiers false g.prerelease
        let build ← identifiers true g.build
        return ⟨int u g.major, int u g.minor, int u g.patch, prerelease, build⟩

/-- A sign and identifiers, if there are any. -/
def written (sign : Char) (identifiers : List Str) : Str :=
  if identifiers = [] then [] else sign :: ['.'].intercalate identifiers

/-- `Version.__str__` -/
def Version.str (v : Version) : Str :=
  Nat.toDigits 10 v.major ++ '.' :: Nat.toDigits 10 v.minor ++ '.' :: Nat.toDigits 10 v.patch ++
    written '-' v.prerelease ++ written '+' v.build

/-! ### What the regular expression matches -/

variable {u : Unicode} {s t w : Str} {p : Char → Bool} {g : Groups} {v : Version} {sign : Char}

theorem isDecimal_eq_false (u : Unicode) {c : Char} (hascii : c.toNat < 128)
    (hc : c.isDigit = false) : u.isDecimal c = false := by
  rw [Unicode.isDecimal, u.decimal_of_ascii c hascii, hc]
  rfl

theorem isDecimal_of_isDigit (u : Unicode) {c : Char} (hc : c.isDigit = true) :
    u.isDecimal c = true := by
  have hlt := (toNat_of_isDigit hc).2
  rw [Unicode.isDecimal, u.decimal_of_ascii c (by omega), if_pos hc]
  rfl

/-- The text does not go on with what the predicate is about. -/
def Stops (p : Char → Bool) (t : Str) : Prop := ∀ c, t.head? = some c → p c = false

theorem takeWhile_of_stops (h : Stops p t) : t.takeWhile p = [] ∧ t.dropWhile p = t := by
  cases t with
  | nil => exact ⟨rfl, rfl⟩
  | cons c t =>
    have hc := h c rfl
    rw [List.takeWhile_cons, List.dropWhile_cons, hc]
    exact ⟨rfl, rfl⟩

theorem takeWhile_append_of_stops (hw : ∀ c ∈ w, p c = true) (h : Stops p t) :
    (w ++ t).takeWhile p = w ∧ (w ++ t).dropWhile p = t := by
  obtain ⟨htake, hdrop⟩ := takeWhile_of_stops h
  rw [List.takeWhile_append_of_pos hw, List.dropWhile_append_of_pos hw, htake, hdrop,
    List.append_nil]
  exact ⟨rfl, rfl⟩

theorem stops_dropWhile (p : Char → Bool) (s : Str) : Stops p (s.dropWhile p) := by
  induction s with
  | nil => exact fun _ h => nomatch h
  | cons c s ih =>
    rw [List.dropWhile_cons]
    split
    · exact ih
    case isFalse hc =>
      intro d h
      rw [← Option.some.inj h]
      exact Bool.eq_false_iff.mpr hc

theorem digits_eq_some_iff :
    digits u s = some (w, t) ↔
      w ≠ [] ∧ (∀ c ∈ w, u.isDecimal c = true) ∧ s = w ++ t ∧ Stops u.isDecimal t := by
  rw [digits]
  constructor
  · intro h
    split at h
    · exact nomatch h
    case isFalse hne =>
      obtain ⟨rfl, rfl⟩ := Prod.mk.inj (Option.some.inj h)
      exact ⟨hne, fun c hc => List.mem_takeWhile_imp hc, (List.takeWhile_append_dropWhile).symm,
        stops_dropWhile _ s⟩
  · rintro ⟨hne, hw, rfl, hstops⟩
    obtain ⟨htake, hdrop⟩ := takeWhile_append_of_stops hw hstops
    rw [htake, hdrop, if_neg hne]

theorem dot_eq_some_iff : dot s = some t ↔ s = '.' :: t := by
  constructor
  · intro h
    rw [dot.eq_def] at h
    split at h
    · rw [Option.some.inj h]
    · exact nomatch h
  · rintro rfl
    rfl

/-- The text of an optional group. -/
def signText (sign : Char) (group : Option Str) : Str := group.elim [] (sign :: ·)

/-- A group that is there is not empty. -/
def FitsGroup (group : Option Str) : Prop :=
  ∀ w, group = some w → w ≠ [] ∧ ∀ c ∈ w, isIdentifiersChar c = true

theorem signed_spec (sign : Char) (s : Str) :
    s = signText sign (signed sign s).1 ++ (signed sign s).2 ∧ FitsGroup (signed sign s).1 := by
  cases s with
  | nil => exact ⟨rfl, fun _ h => nomatch h⟩
  | cons c s =>
    rw [signed]
    split
    case isTrue h =>
      refine ⟨?_, fun w hw => ?_⟩
      · rw [h.1]
        show sign :: s = sign :: (s.takeWhile isIdentifiersChar ++ s.dropWhile isIdentifiersChar)
        rw [List.takeWhile_append_dropWhile]
      · obtain rfl := Option.some.inj hw
        exact ⟨h.2, fun c hc => List.mem_takeWhile_imp hc⟩
    case isFalse => exact ⟨rfl, fun _ h => nomatch h⟩

theorem signed_signText {group : Option Str} (hgroup : FitsGroup group)
    (hstops : Stops isIdentifiersChar t) (ht : t.head? ≠ some sign) :
    signed sign (signText sign group ++ t) = (group, t) := by
  cases group with
  | none =>
    cases t with
    | nil => rfl
    | cons c t =>
      have hc : ¬ (c = sign ∧ t.takeWhile isIdentifiersChar ≠ []) := fun h => ht (h.1 ▸ rfl)
      exact if_neg hc
  | some w =>
    obtain ⟨hne, hw⟩ := hgroup w rfl
    obtain ⟨htake, hdrop⟩ := takeWhile_append_of_stops hw hstops
    show signed sign (sign :: (w ++ t)) = _
    rw [signed, htake, hdrop, if_pos ⟨rfl, hne⟩]

/-- The groups have the letters that the regular expression wants. -/
structure Groups.Fits (u : Unicode) (g : Groups) : Prop where
  major : g.major ≠ [] ∧ ∀ c ∈ g.major, u.isDecimal c = true
  minor : g.minor ≠ [] ∧ ∀ c ∈ g.minor, u.isDecimal c = true
  patch : g.patch ≠ [] ∧ ∀ c ∈ g.patch, u.isDecimal c = true
  prerelease : FitsGroup g.prerelease
  build : FitsGroup g.build

def Groups.text (g : Groups) : Str :=
  g.major ++ '.' :: (g.minor ++ '.' :: (g.patch ++
    (signText '-' g.prerelease ++ signText '+' g.build)))

/-- What may be left at `$`. -/
def AtEnd (t : Str) : Prop := t = [] ∨ t = ['\n']

theorem head_of_atEnd {c : Char} (ht : AtEnd t) (hc : t.head? = some c) : c = '\n' := by
  rcases ht with rfl | rfl
  · exact nomatch hc
  · exact (Option.some.inj hc).symm

/-- What may follow the identifiers of a prerelease. -/
theorem head_of_build {c : Char} {group : Option Str} (ht : AtEnd t)
    (hc : (signText '+' group ++ t).head? = some c) : c = '+' ∨ c = '\n' := by
  cases group with
  | none => exact Or.inr (head_of_atEnd ht hc)
  | some w => exact Or.inl (Option.some.inj hc).symm

/-- What may follow the three numbers. -/
theorem head_of_prerelease {c : Char} {group group' : Option Str} (ht : AtEnd t)
    (hc : (signText '-' group ++ (signText '+' group' ++ t)).head? = some c) :
    c = '-' ∨ c = '+' ∨ c = '\n' := by
  cases group with
  | none => exact Or.inr (head_of_build ht hc)
  | some w => exact Or.inl (Option.some.inj hc).symm

/-- What is matched is the text of fitting groups. -/
theorem fits_of_versionRe (h : versionRe u s = some g) :
    g.Fits u ∧ ∃ t, AtEnd t ∧ s = g.text ++ t := by
  obtain ⟨⟨major, s₁⟩, hmajor, h⟩ := Option.bind_eq_some_iff.mp h
  obtain ⟨s₂, hdot, h⟩ := Option.bind_eq_some_iff.mp h
  obtain ⟨⟨minor, s₃⟩, hminor, h⟩ := Option.bind_eq_some_iff.mp h
  obtain ⟨s₄, hdot', h⟩ := Option.bind_eq_some_iff.mp h
  obtain ⟨⟨patch, s₅⟩, hpatch, h⟩ := Option.bind_eq_some_iff.mp h
  dsimp only at h
  split at h
  case isFalse => exact nomatch h
  case isTrue hend =>
    obtain rfl := Option.some.inj h
    obtain ⟨hne, hdigits, rfl, -⟩ := digits_eq_some_iff.mp hmajor
    obtain rfl := dot_eq_some_iff.mp hdot
    obtain ⟨hne', hdigits', rfl, -⟩ := digits_eq_some_iff.mp hminor
    obtain rfl := dot_eq_some_iff.mp hdot'
    obtain ⟨hne'', hdigits'', rfl, -⟩ := digits_eq_some_iff.mp hpatch
    obtain ⟨hpre, hfits⟩ := signed_spec '-' s₅
    obtain ⟨hbuild, hfits'⟩ := signed_spec '+' (signed '-' s₅).2
    refine ⟨⟨⟨hne, hdigits⟩, ⟨hne', hdigits'⟩, ⟨hne'', hdigits''⟩, hfits, hfits'⟩,
      (signed '+' (signed '-' s₅).2).2, hend, ?_⟩
    rw [Groups.text, List.append_assoc, List.cons_append, List.append_assoc, List.cons_append,
      List.append_assoc, List.append_assoc, ← hbuild, ← hpre]

/-- The text of fitting groups is matched. -/
theorem versionRe_text (hfits : g.Fits u) (ht : AtEnd t) :
    versionRe u (g.text ++ t) = some g := by
  have hnewline : u.isDecimal '\n' = false := isDecimal_eq_false u (by decide) rfl
  have hdot : u.isDecimal '.' = false := isDecimal_eq_false u (by decide) rfl
  have hstops {s : Str} : Stops u.isDecimal ('.' :: s) := fun c hc => Option.some.inj hc ▸ hdot
  have hbuild : signed '+' (signText '+' g.build ++ t) = (g.build, t) := by
    apply signed_signText hfits.build
    · exact fun c hc => head_of_atEnd ht hc ▸ rfl
    · exact fun hc => absurd (head_of_atEnd ht hc) (by decide)
  have hpre : signed '-' (signText '-' g.prerelease ++ (signText '+' g.build ++ t)) =
      (g.prerelease, signText '+' g.build ++ t) := by
    apply signed_signText hfits.prerelease
    · intro c hc
      rcases head_of_build ht hc with rfl | rfl <;> rfl
    · exact fun hc => absurd (head_of_build ht hc) (by decide)
  have hrest : Stops u.isDecimal
      (signText '-' g.prerelease ++ (signText '+' g.build ++ t)) := by
    intro c hc
    rcases head_of_prerelease ht hc with rfl | rfl | rfl
    · exact isDecimal_eq_false u (by decide) rfl
    · exact isDecimal_eq_false u (by decide) rfl
    · exact hnewline
  rw [Groups.text, List.append_assoc, List.cons_append, List.append_assoc, List.cons_append,
    List.append_assoc, List.append_assoc]
  refine Option.bind_eq_some_iff.mpr ⟨_, digits_eq_some_iff.mpr
    ⟨hfits.major.1, hfits.major.2, rfl, hstops⟩, ?_⟩
  refine Option.bind_eq_some_iff.mpr ⟨_, dot_eq_some_iff.mpr rfl, ?_⟩
  refine Option.bind_eq_some_iff.mpr ⟨_, digits_eq_some_iff.mpr
    ⟨hfits.minor.1, hfits.minor.2, rfl, hstops⟩, ?_⟩
  refine Option.bind_eq_some_iff.mpr ⟨_, dot_eq_some_iff.mpr rfl, ?_⟩
  refine Option.bind_eq_some_iff.mpr ⟨_, digits_eq_some_iff.mpr
    ⟨hfits.patch.1, hfits.patch.2, rfl, hrest⟩, ?_⟩
  dsimp only
  rw [hpre]
  dsimp only
  rw [hbuild]
  exact if_pos ht

/-- **The regular expression** matches the texts of fitting groups, and nothing else but a final
newline. -/
theorem versionRe_eq_some_iff :
    versionRe u s = some g ↔ g.Fits u ∧ ∃ t, AtEnd t ∧ s = g.text ++ t := by
  constructor
  · exact fits_of_versionRe
  · rintro ⟨hfits, t, ht, rfl⟩
    exact versionRe_text hfits ht

/-! ### Identifiers -/

variable {allowLeadingZeroes : Bool} {all items : List Str} {item : Str}

/-- An item that `_validate_identifiers` would refuse for its zero. -/
def isPaddedNumber (item : Str) : Bool := hasLeadingZero item && item.all Char.isDigit

structure IsIdentifier (item : Str) : Prop where
  ne_nil : item ≠ []
  letters : ∀ c ∈ item, (c.isAlphanum || c == '-') = true

instance (item : Str) : Decidable (IsIdentifier item) :=
  decidable_of_iff (item ≠ [] ∧ item.all (fun c => c.isAlphanum || c == '-') = true)
    ⟨fun h => ⟨h.1, List.all_eq_true.mp h.2⟩, fun h => ⟨h.ne_nil, List.all_eq_true.mpr h.letters⟩⟩

theorem validateIdentifiers_eq_ok_iff :
    validateIdentifiers allowLeadingZeroes all items = .ok () ↔
      ∀ item ∈ items, item ≠ [] ∧ (allowLeadingZeroes = false → isPaddedNumber item = false) := by
  induction items with
  | nil => exact iff_of_true rfl fun _ h => absurd h List.not_mem_nil
  | cons item items ih =>
    rw [validateIdentifiers, List.forall_mem_cons, ← ih]
    split
    case isTrue h => exact iff_of_false (fun h => nomatch h) fun hall => hall.1.1 h
    case isFalse hne =>
      split
      case isTrue hzero =>
        rw [Bool.and_eq_true, Bool.not_eq_true'] at hzero
        refine iff_of_false (fun h => nomatch h) fun hall => ?_
        have hpadded := hall.1.2 hzero.2
        rw [isPaddedNumber, hzero.1] at hpadded
        exact nomatch hpadded
      case isFalse hzero =>
        refine (and_iff_right ⟨hne, fun hallow => ?_⟩).symm
        rw [hallow, Bool.not_false, Bool.and_true] at hzero
        exact Bool.eq_false_iff.mpr hzero

theorem isIdentifiersChar_iff {c : Char} :
    isIdentifiersChar c = true ↔ (c.isAlphanum || c == '-') = true ∨ c = '.' := by
  rw [isIdentifiersChar, Bool.or_eq_true, Bool.or_eq_true, Bool.or_eq_true, beq_iff_eq, beq_iff_eq]
  exact or_right_comm

/-- The identifiers that a group stands for. -/
structure Spells (allowLeadingZeroes : Bool) (sign : Char) (group : Option Str)
    (items : List Str) : Prop where
  text : signText sign group = written sign items
  items : ∀ item ∈ items, IsIdentifier item ∧
    (allowLeadingZeroes = false → isPaddedNumber item = false)

theorem identifiers_eq_ok_iff {group : Option Str} (sign : Char) (hgroup : FitsGroup group) :
    identifiers allowLeadingZeroes group = .ok items ↔
      Spells allowLeadingZeroes sign group items := by
  cases group with
  | none =>
    constructor
    · intro h
      obtain rfl := Except.ok.inj h
      exact ⟨rfl, fun _ h => absurd h List.not_mem_nil⟩
    · intro h
      have htext := h.text
      rw [written] at htext
      split at htext
      case isTrue hnil => rw [hnil]; rfl
      case isFalse => exact nomatch htext
  | some text =>
    obtain ⟨hne, htext⟩ := hgroup text rfl
    rw [identifiers, if_neg hne]
    constructor
    · intro h
      cases hvalid : validateIdentifiers allowLeadingZeroes (text.splitOn '.')
          (text.splitOn '.') with
      | error e => rw [hvalid] at h; exact nomatch h
      | ok =>
        rw [hvalid] at h
        obtain rfl := Except.ok.inj h
        refine ⟨?_, fun item hitem => ?_⟩
        · rw [written, if_neg (List.splitOn_ne_nil _ _), List.intercalate_splitOn]
          rfl
        · obtain ⟨hitem', hzero⟩ := validateIdentifiers_eq_ok_iff.mp hvalid item hitem
          refine ⟨⟨hitem', fun c hc => ?_⟩, hzero⟩
          obtain ⟨hmem, hdot⟩ := mem_of_mem_splitOn hitem hc
          exact (isIdentifiersChar_iff.mp (htext c hmem)).resolve_right hdot
    · intro h
      have hwritten := h.text
      rw [written] at hwritten
      split at hwritten
      case isTrue => exact nomatch hwritten
      case isFalse hitems =>
        obtain rfl := (List.cons.inj hwritten).2
        have hdot : ∀ item ∈ items, '.' ∉ item := fun item hitem hmem =>
          absurd ((h.items item hitem).1.letters '.' hmem) (by decide)
        have hvalid : validateIdentifiers allowLeadingZeroes items items = .ok () :=
          validateIdentifiers_eq_ok_iff.mpr fun item hitem =>
            ⟨(h.items item hitem).1.ne_nil, (h.items item hitem).2⟩
        rw [List.splitOn_intercalate '.' hdot hitems, hvalid]
        rfl

/-! ### Reading -/

structure Version.Valid (v : Version) : Prop where
  prerelease : ∀ item ∈ v.prerelease, IsIdentifier item ∧ isPaddedNumber item = false
  build : ∀ item ∈ v.build, IsIdentifier item

instance (v : Version) : Decidable v.Valid :=
  decidable_of_iff ((∀ item ∈ v.prerelease, IsIdentifier item ∧ isPaddedNumber item = false) ∧
    ∀ item ∈ v.build, IsIdentifier item)
    ⟨fun h => ⟨h.1, h.2⟩, fun h => ⟨h.prerelease, h.build⟩⟩

/-- A group of digits that stands for a number. -/
structure Counts (u : Unicode) (group : Str) (n : Nat) : Prop where
  zero : hasLeadingZero group = false
  value : int u group = n

/-- The version that fitting groups stand for. -/
structure Groups.Reads (u : Unicode) (g : Groups) (v : Version) : Prop where
  fits : g.Fits u
  major : Counts u g.major v.major
  minor : Counts u g.minor v.minor
  patch : Counts u g.patch v.patch
  prerelease : Spells false '-' g.prerelease v.prerelease
  build : Spells true '+' g.build v.build

theorem parse_eq_ok_iff_reads :
    parse u s = .ok v ↔ ∃ g : Groups, ∃ t, g.Reads u v ∧ AtEnd t ∧ s = g.text ++ t := by
  rw [parse]
  constructor
  · intro h
    split at h
    · exact nomatch h
    split at h
    · exact nomatch h
    case h_2 g hmatch =>
      obtain ⟨hfits, t, ht, rfl⟩ := versionRe_eq_some_iff.mp hmatch
      split at h
      · exact nomatch h
      case isFalse hmajor =>
        split at h
        · exact nomatch h
        case isFalse hminor =>
          split at h
          · exact nomatch h
          case isFalse hpatch =>
            cases hpre : identifiers false g.prerelease with
            | error e => rw [hpre] at h; exact nomatch h
            | ok prerelease =>
              cases hbuild : identifiers true g.build with
              | error e => rw [hpre, hbuild] at h; exact nomatch h
              | ok build =>
                rw [hpre, hbuild] at h
                obtain rfl := Except.ok.inj h
                exact ⟨g, t, ⟨hfits, ⟨Bool.eq_false_iff.mpr hmajor, rfl⟩,
                  ⟨Bool.eq_false_iff.mpr hminor, rfl⟩, ⟨Bool.eq_false_iff.mpr hpatch, rfl⟩,
                  (identifiers_eq_ok_iff '-' hfits.prerelease).mp hpre,
                  (identifiers_eq_ok_iff '+' hfits.build).mp hbuild⟩, ht, rfl⟩
  · rintro ⟨g, t, hreads, ht, rfl⟩
    have hne : g.text ++ t ≠ [] := by
      rw [Groups.text, List.append_assoc]
      exact List.append_ne_nil_of_left_ne_nil hreads.fits.major.1 _
    have hmatch := versionRe_eq_some_iff.mpr ⟨hreads.fits, t, ht, rfl⟩
    have hpre := (identifiers_eq_ok_iff '-' hreads.fits.prerelease).mpr hreads.prerelease
    have hbuild := (identifiers_eq_ok_iff '+' hreads.fits.build).mpr hreads.build
    rw [if_neg hne, hmatch]
    dsimp only
    rw [hreads.major.zero, hreads.minor.zero, hreads.patch.zero, hpre, hbuild, hreads.major.value,
      hreads.minor.value, hreads.patch.value]
    rfl

/-- What `parse` lets through. -/
theorem valid_of_parse (h : parse u s = .ok v) : v.Valid := by
  obtain ⟨g, t, hreads, -, -⟩ := parse_eq_ok_iff_reads.mp h
  refine ⟨fun item hitem => ?_, fun item hitem => (hreads.build.items item hitem).1⟩
  obtain ⟨hitem', hzero⟩ := hreads.prerelease.items item hitem
  exact ⟨hitem', hzero rfl⟩

/-! ### Writing -/

/-- The alphabet of version texts. -/
def isVersionChar (c : Char) : Bool := c.isAlphanum || c == '.' || c == '-' || c == '+'

theorem toNat_lt_of_isVersionChar {c : Char} (h : isVersionChar c = true) : c.toNat < 128 := by
  have hle {hi : UInt32} (h : c.val ≤ hi) : c.toNat ≤ hi.toNat := UInt32.le_iff_toNat_le.mp h
  rw [isVersionChar, Bool.or_eq_true, Bool.or_eq_true, Bool.or_eq_true, beq_iff_eq, beq_iff_eq,
    beq_iff_eq, Char.isAlphanum, Bool.or_eq_true] at h
  rcases h with ((((halpha | hdigit) | rfl) | rfl) | rfl)
  · rcases Bool.or_eq_true_iff.mp halpha with hupper | hlower
    · have hrange : 'A'.val ≤ c.val ∧ c.val ≤ 'Z'.val := of_decide_eq_true hupper
      exact Nat.lt_of_le_of_lt (hle hrange.2) (by decide)
    · obtain ⟨-, hz⟩ := Bool.and_eq_true_iff.mp hlower
      exact Nat.lt_of_le_of_lt (hle (of_decide_eq_true hz)) (by decide)
  · exact Nat.lt_trans (toNat_of_isDigit hdigit).2 (by decide)
  · decide
  · decide
  · decide

theorem int_of_isDigit {group : Str} (h : ∀ c ∈ group, c.isDigit = true) :
    int u group = Nat.ofDigitChars 10 group 0 := by
  rw [int, Nat.ofDigitChars_eq_foldl]
  apply List.foldl_ext
  intro n c hc
  have hlt := (toNat_of_isDigit (h c hc)).2
  rw [u.decimal_of_ascii c (by omega), if_pos (h c hc)]
  rfl

theorem hasLeadingZero_eq_false_iff {value : Str} :
    hasLeadingZero value = false ↔ (value.head? = some '0' → value = ['0']) := by
  rw [hasLeadingZero, Bool.and_eq_false_iff, decide_eq_false_iff_not, bne_eq_false_iff_eq]
  exact Decidable.imp_iff_not_or.symm

/-- A numeral counts what it says. -/
theorem counts_toDigits (u : Unicode) (n : Nat) : Counts u (Nat.toDigits 10 n) n := by
  have hnumeral := numeral_toDigits n
  refine ⟨hasLeadingZero_eq_false_iff.mpr hnumeral.zero, ?_⟩
  rw [int_of_isDigit hnumeral.isDigit, Nat.ofDigitChars_ten_toDigits]

/-- Digits of the version alphabet are written for what they count. -/
theorem toDigits_of_counts {group : Str} {n : Nat} (hne : group ≠ [])
    (hdigits : ∀ c ∈ group, u.isDecimal c = true) (hchars : ∀ c ∈ group, isVersionChar c = true)
    (h : Counts u group n) : Nat.toDigits 10 n = group := by
  have hascii : ∀ c ∈ group, c.isDigit = true := by
    intro c hc
    by_contra hnot
    have hdecimal :=
      isDecimal_eq_false u (toNat_lt_of_isVersionChar (hchars c hc)) (Bool.eq_false_iff.mpr hnot)
    rw [hdigits c hc] at hdecimal
    exact nomatch hdecimal
  rw [← h.value, int_of_isDigit hascii]
  exact toDigits_ofDigitChars ⟨hne, hascii, hasLeadingZero_eq_false_iff.mp h.zero⟩

/-- The letters of identifiers that are put together. -/
theorem letters_intercalate {P : Char → Prop} (hdot : P '.')
    (h : ∀ item ∈ items, ∀ c ∈ item, P c) : ∀ c ∈ ['.'].intercalate items, P c := by
  induction items with
  | nil => exact fun c hc => absurd hc List.not_mem_nil
  | cons item items ih =>
    obtain ⟨hitem, hitems⟩ := List.forall_mem_cons.mp h
    cases items with
    | nil =>
      rw [List.intercalate_singleton]
      exact hitem
    | cons next items =>
      rw [List.intercalate_cons_of_ne_nil (List.cons_ne_nil next items)]
      intro c hc
      rcases List.mem_append.mp hc with hc | hc
      · rcases List.mem_append.mp hc with hc | hc
        · exact hitem c hc
        · exact List.mem_singleton.mp hc ▸ hdot
      · exact ih hitems c hc

/-- The group that identifiers are written in. -/
def groupOf (items : List Str) : Option Str :=
  if items = [] then none else some (['.'].intercalate items)

theorem signText_groupOf (sign : Char) (items : List Str) :
    signText sign (groupOf items) = written sign items := by
  rw [groupOf, written]
  split
  · rfl
  · rfl

theorem fitsGroup_groupOf (h : ∀ item ∈ items, IsIdentifier item) : FitsGroup (groupOf items) := by
  intro w hw
  rw [groupOf] at hw
  split at hw
  · exact nomatch hw
  case isFalse hne =>
    obtain rfl := Option.some.inj hw
    refine ⟨?_, ?_⟩
    · obtain ⟨item, items, rfl⟩ := List.exists_cons_of_ne_nil hne
      have hitem := (h item List.mem_cons_self).ne_nil
      cases items with
      | nil =>
        rw [List.intercalate_singleton]
        exact hitem
      | cons next items =>
        rw [List.intercalate_cons_cons, List.append_assoc]
        exact List.append_ne_nil_of_left_ne_nil hitem _
    · have hdot : isIdentifiersChar '.' = true := rfl
      refine letters_intercalate hdot fun item hitem c hc => ?_
      exact isIdentifiersChar_iff.mpr (Or.inl ((h item hitem).letters c hc))

/-- The groups of a version. -/
def Version.groups (v : Version) : Groups where
  major := Nat.toDigits 10 v.major
  minor := Nat.toDigits 10 v.minor
  patch := Nat.toDigits 10 v.patch
  prerelease := groupOf v.prerelease
  build := groupOf v.build

theorem text_groups (v : Version) : v.groups.text = v.str := by
  rw [Groups.text, Version.str, Version.groups]
  dsimp only
  rw [signText_groupOf, signText_groupOf, List.append_assoc, List.append_assoc, List.append_assoc,
    List.cons_append, List.cons_append]

theorem reads_groups (u : Unicode) (hvalid : v.Valid) : v.groups.Reads u v := by
  have hdigits (n : Nat) : Nat.toDigits 10 n ≠ [] ∧
      ∀ c ∈ Nat.toDigits 10 n, u.isDecimal c = true :=
    ⟨Nat.toDigits_ne_nil, fun c hc => isDecimal_of_isDigit u ((numeral_toDigits n).isDigit c hc)⟩
  exact {
    fits :=
      { major := hdigits v.major
        minor := hdigits v.minor
        patch := hdigits v.patch
        prerelease := fitsGroup_groupOf fun item hitem => (hvalid.prerelease item hitem).1
        build := fitsGroup_groupOf hvalid.build }
    major := counts_toDigits u v.major
    minor := counts_toDigits u v.minor
    patch := counts_toDigits u v.patch
    prerelease := ⟨signText_groupOf '-' v.prerelease, fun item hitem =>
      ⟨(hvalid.prerelease item hitem).1, fun _ => (hvalid.prerelease item hitem).2⟩⟩
    build := ⟨signText_groupOf '+' v.build, fun item hitem =>
      ⟨hvalid.build item hitem, fun h => nomatch h⟩⟩ }

theorem isVersionChar_of_mem_toDigits {n : Nat} :
    ∀ c ∈ Nat.toDigits 10 n, isVersionChar c = true := by
  intro c hc
  rw [isVersionChar, Char.isAlphanum, (numeral_toDigits n).isDigit c hc, Bool.or_true]
  rfl

theorem isVersionChar_of_mem_signText {group : Option Str} (hsign : isVersionChar sign = true)
    (hgroup : FitsGroup group) : ∀ c ∈ signText sign group, isVersionChar c = true := by
  cases group with
  | none => exact fun c hc => absurd hc List.not_mem_nil
  | some w =>
    refine List.forall_mem_cons.mpr ⟨hsign, fun c hc => ?_⟩
    have hletter : isIdentifiersChar c = true := (hgroup w rfl).2 c hc
    show (isIdentifiersChar c || c == '+') = true
    rw [hletter, Bool.true_or]

/-- The letters of a version's text. -/
theorem isVersionChar_of_mem_str (hvalid : v.Valid) : ∀ c ∈ v.str, isVersionChar c = true := by
  have hprerelease : FitsGroup v.groups.prerelease :=
    fitsGroup_groupOf fun item hitem => (hvalid.prerelease item hitem).1
  have hbuild : FitsGroup v.groups.build := fitsGroup_groupOf hvalid.build
  rw [← text_groups, Groups.text, List.forall_mem_append, List.forall_mem_cons,
    List.forall_mem_append, List.forall_mem_cons, List.forall_mem_append, List.forall_mem_append]
  exact ⟨isVersionChar_of_mem_toDigits, rfl, isVersionChar_of_mem_toDigits, rfl,
    isVersionChar_of_mem_toDigits, isVersionChar_of_mem_signText rfl hprerelease,
    isVersionChar_of_mem_signText rfl hbuild⟩

/-- **Reading and writing.** Among the texts of the version alphabet, exactly those of valid
versions are accepted, and each is read as the version whose text it is. -/
theorem parse_eq_ok_iff (u : Unicode) (s : Str) (v : Version) :
    (parse u s = .ok v ∧ ∀ c ∈ s, isVersionChar c = true) ↔ v.Valid ∧ v.str = s := by
  constructor
  · rintro ⟨h, hchars⟩
    refine ⟨valid_of_parse h, ?_⟩
    obtain ⟨g, t, hreads, ht, rfl⟩ := parse_eq_ok_iff_reads.mp h
    rcases ht with rfl | rfl
    · rw [List.append_nil] at hchars ⊢
      rw [Groups.text, List.forall_mem_append, List.forall_mem_cons, List.forall_mem_append,
        List.forall_mem_cons, List.forall_mem_append] at hchars
      obtain ⟨hmajor, -, hminor, -, hpatch, -⟩ := hchars
      rw [Version.str, Groups.text,
        toDigits_of_counts hreads.fits.major.1 hreads.fits.major.2 hmajor hreads.major,
        toDigits_of_counts hreads.fits.minor.1 hreads.fits.minor.2 hminor hreads.minor,
        toDigits_of_counts hreads.fits.patch.1 hreads.fits.patch.2 hpatch hreads.patch,
        ← hreads.prerelease.text, ← hreads.build.text, List.append_assoc, List.append_assoc,
        List.append_assoc, List.cons_append, List.cons_append]
    · have hnewline := hchars '\n' (List.mem_append_right _ List.mem_cons_self)
      exact absurd hnewline (by decide)
  · rintro ⟨hvalid, rfl⟩
    refine ⟨parse_eq_ok_iff_reads.mpr ⟨v.groups, [], reads_groups u hvalid, Or.inl rfl, ?_⟩,
      isVersionChar_of_mem_str hvalid⟩
    rw [text_groups, List.append_nil]

end Reloadium.SemVer
