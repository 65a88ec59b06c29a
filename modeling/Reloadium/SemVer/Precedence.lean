import Mathlib.Data.Char
import Mathlib.Data.Prod.Lex
import Mathlib.Data.Sum.Order
import Mathlib.Order.WithBot
import Reloadium.Lib.TupleOrder
import Reloadium.SemVer.Version

namespace Reloadium.SemVer

open Lib

/-!
# Semantic versions — precedence

Model of the comparisons of `Version`, and of `next_major`, `next_minor` and `next_patch`.
`precedence` says what is meant: the three numbers, then the release after its prereleases, and
these by their identifiers, numbers before texts.

* `lt_iff`, `le_iff` — the comparisons of `precedence_key` are the lexicographic order;
* `precedence_iff` — **the order of valid versions**: it is total, and what it does not tell apart
  is what differs in the build alone;
* `next_least` — **the next version** is the least one of its level above the version.
-/

/-! ### Identifiers -/

inductive Identifier
  | numeric (value : Nat)
  | alpha (value : Str)
  | max
deriving DecidableEq

/-- `__lt__`; `MaxIdentifier` has none, and is compared by that of the other side. -/
def Identifier.lt : Identifier → Identifier → Bool
  | .max, _ => false
  | _, .max => true
  | .numeric _, .alpha _ => true
  | .numeric value, .numeric other => value < other
  | .alpha _, .numeric _ => false
  | .alpha value, .alpha other => value < other

/-- `__le__` of `total_ordering` -/
def Identifier.le (a b : Identifier) : Bool := a.lt b || a = b

/-- `__gt__` of `total_ordering` -/
def Identifier.gt (a b : Identifier) : Bool := !a.lt b && a != b

/-- `__ge__` of `total_ordering` -/
def Identifier.ge (a b : Identifier) : Bool := !a.lt b

/-- `re.match(r'^[0-9]+$', part)` -/
def isNumber (part : Str) : Bool :=
  part.takeWhile Char.isDigit ≠ [] ∧
    (part.dropWhile Char.isDigit = [] ∨ part.dropWhile Char.isDigit = ['\n'])

/-- `int`, of such a part -/
def number (part : Str) : Nat := Nat.ofDigitChars 10 (part.takeWhile Char.isDigit) 0

def identifierOf (part : Str) : Identifier :=
  if isNumber part then .numeric (number part) else .alpha part

/-! ### Versions -/

structure Key where
  major : Nat
  minor : Nat
  patch : Nat
  prerelease : List Identifier

/-- `precedence_key` -/
def Version.precedenceKey (v : Version) : Key where
  major := v.major
  minor := v.minor
  patch := v.patch
  prerelease := if v.prerelease ≠ [] then v.prerelease.map identifierOf else [.max]

/-- How tuples of this shape are compared. -/
def Key.compare (number : Nat → Nat → Bool) (item : Identifier → Identifier → Bool) (k l : Key) :
    Bool :=
  if k.major ≠ l.major then number k.major l.major
  else if k.minor ≠ l.minor then number k.minor l.minor
  else if k.patch ≠ l.patch then number k.patch l.patch
  else if k.prerelease ≠ l.prerelease then
    tupleCompare item number k.prerelease l.prerelease
  else number 4 4

/-- `__lt__` -/
def Version.lt (v w : Version) : Bool :=
  v.precedenceKey.compare (fun m n => decide (m < n)) Identifier.lt w.precedenceKey

/-- `__le__` -/
def Version.le (v w : Version) : Bool :=
  v.precedenceKey.compare (fun m n => decide (m ≤ n)) Identifier.le w.precedenceKey

/-- `__gt__` -/
def Version.gt (v w : Version) : Bool :=
  v.precedenceKey.compare (fun m n => decide (m > n)) Identifier.gt w.precedenceKey

/-- `__ge__` -/
def Version.ge (v w : Version) : Bool :=
  v.precedenceKey.compare (fun m n => decide (m ≥ n)) Identifier.ge w.precedenceKey

/-- `next_major` -/
def Version.nextMajor (v : Version) : Version :=
  if v.prerelease ≠ [] ∧ v.minor = 0 ∧ v.patch = 0 then ⟨v.major, 0, 0, [], []⟩
  else ⟨v.major + 1, 0, 0, [], []⟩

/-- `next_minor` -/
def Version.nextMinor (v : Version) : Version :=
  if v.prerelease ≠ [] ∧ v.patch = 0 then ⟨v.major, v.minor, 0, [], []⟩
  else ⟨v.major, v.minor + 1, 0, [], []⟩

/-- `next_patch` -/
def Version.nextPatch (v : Version) : Version :=
  if v.prerelease ≠ [] then ⟨v.major, v.minor, v.patch, [], []⟩
  else ⟨v.major, v.minor, v.patch + 1, [], []⟩

def Version.next (v : Version) : Part → Version
  | .major => v.nextMajor
  | .minor => v.nextMinor
  | .patch => v.nextPatch

/-! ### Precedence -/

/-- An identifier is its number or its text. -/
def numberOrText (part : Str) : Nat ⊕ₗ Str :=
  if isNumber part then toLex (.inl (number part)) else toLex (.inr part)

/-- A release comes after its prereleases. -/
def prereleasePrecedence (prerelease : List Str) : WithTop (List (Nat ⊕ₗ Str)) :=
  if prerelease = [] then ⊤ else ↑(prerelease.map numberOrText)

def Version.precedence (v : Version) : Nat ×ₗ Nat ×ₗ Nat ×ₗ WithTop (List (Nat ⊕ₗ Str)) :=
  toLex (v.major, toLex (v.minor, toLex (v.patch, prereleasePrecedence v.prerelease)))

/-- The versions differ in the build alone. -/
def Version.SameUpToBuild (v w : Version) : Prop := { v with build := w.build } = w

variable {v w : Version} {part : Str} {p q : List Str}

theorem represents_lt : Represents Identifier.lt identifierOf numberOrText where
  eq_iff i j := by
    rw [identifierOf, identifierOf, numberOrText, numberOrText]
    split <;> split <;> simp
  lt_iff i j hij := by
    rw [identifierOf, identifierOf, numberOrText, numberOrText]
    split <;> split
    · rw [Sum.Lex.inl_lt_inl_iff, Identifier.lt, decide_eq_true_eq]
    · exact iff_of_true rfl (Sum.Lex.inl_lt_inr _ _)
    · exact iff_of_false Bool.false_ne_true Sum.Lex.not_inr_lt_inl
    · rw [Sum.Lex.inr_lt_inr_iff, Identifier.lt, decide_eq_true_eq]

/-- `precedence_key`, of the prerelease -/
def prereleaseKey (p : List Str) : List Identifier :=
  if p ≠ [] then p.map identifierOf else [.max]

theorem identifierOf_ne_max (part : Str) : identifierOf part ≠ .max := by
  rw [identifierOf]
  split
  · exact Identifier.noConfusion
  · exact Identifier.noConfusion

theorem prereleaseKey_eq_iff :
    prereleaseKey p = prereleaseKey q ↔ prereleasePrecedence p = prereleasePrecedence q := by
  rw [prereleaseKey, prereleaseKey, prereleasePrecedence, prereleasePrecedence]
  have hmax (p : List Str) : p.map identifierOf ≠ [.max] := by
    intro h
    obtain ⟨part, -, hpart⟩ := List.mem_map.mp (h ▸ List.mem_singleton.mpr rfl)
    exact identifierOf_ne_max part hpart
  by_cases hp : p = []
  · by_cases hq : q = []
    · rw [hp, hq]
      exact iff_of_true rfl rfl
    · rw [hp, if_pos hq, if_neg hq]
      exact iff_of_false (hmax q).symm (WithTop.coe_ne_top).symm
  · by_cases hq : q = []
    · rw [hq, if_pos hp, if_neg hp]
      exact iff_of_false (hmax p) WithTop.coe_ne_top
    · rw [if_pos hp, if_pos hq, if_neg hp, if_neg hq, WithTop.coe_inj]
      exact represents_lt.map_eq_map_iff p q

theorem prereleaseKey_lt_iff :
    tupleCompare Identifier.lt (fun m n => decide (m < n)) (prereleaseKey p) (prereleaseKey q) =
      true ↔ prereleasePrecedence p < prereleasePrecedence q := by
  rw [prereleaseKey, prereleaseKey, prereleasePrecedence, prereleasePrecedence]
  by_cases hp : p = []
  · rw [hp, if_pos rfl]
    refine iff_of_false (fun h => ?_) not_top_lt
    by_cases hq : q = []
    · rw [hq] at h
      exact Bool.false_ne_true h
    · obtain ⟨part, q, rfl⟩ := List.exists_cons_of_ne_nil hq
      rw [if_pos hq, if_neg (not_not_intro rfl), List.map_cons, tupleCompare,
        if_neg (identifierOf_ne_max part).symm, Identifier.lt] at h
      exact Bool.false_ne_true h
  · by_cases hq : q = []
    · obtain ⟨part, p, rfl⟩ := List.exists_cons_of_ne_nil hp
      rw [hq, if_pos hp, if_neg (not_not_intro rfl), List.map_cons, tupleCompare,
        if_neg (identifierOf_ne_max part), if_neg hp, if_pos rfl]
      refine iff_of_true ?_ (WithTop.coe_lt_top _)
      rw [identifierOf]
      split <;> rfl
    · rw [if_pos hp, if_pos hq, if_neg hp, if_neg hq, WithTop.coe_lt_coe]
      exact tupleCompare_lt_iff represents_lt p q

/-- The comparisons of keys tell the first numbers that differ, and then the prereleases. -/
theorem compare_iff {number : Nat → Nat → Bool} {item : Identifier → Identifier → Bool}
    (hnumber : ∀ m n, m ≠ n → number m n = decide (m < n))
    (hitem : ∀ a b, a ≠ b → item a b = a.lt b) (v w : Version) :
    v.precedenceKey.compare number item w.precedenceKey = true ↔
      v.precedence < w.precedence ∨ v.precedence = w.precedence ∧ number 4 4 = true := by
  rw [Key.compare, Version.precedence, Version.precedence, Prod.Lex.toLex_lt_toLex,
    Prod.Lex.toLex_lt_toLex, Prod.Lex.toLex_lt_toLex, toLex_inj, Prod.mk.injEq, toLex_inj,
    Prod.mk.injEq, toLex_inj, Prod.mk.injEq]
  have hstep {m n : Nat} {same : Bool} {less eq : Prop}
      (hsame : same = true ↔ less ∨ eq ∧ number 4 4 = true) :
      (if m ≠ n then number m n else same) = true ↔
        (m < n ∨ m = n ∧ less) ∨ (m = n ∧ eq) ∧ number 4 4 = true := by
    by_cases hmn : m = n
    · rw [if_neg (not_not_intro hmn), hsame, hmn]
      simp
    · rw [if_pos hmn, hnumber m n hmn, decide_eq_true_eq]
      simp [hmn]
  refine hstep (hstep (hstep ?_))
  show (if prereleaseKey v.prerelease ≠ prereleaseKey w.prerelease then
      tupleCompare item number (prereleaseKey v.prerelease) (prereleaseKey w.prerelease)
    else number 4 4) = true ↔ _
  split
  case isTrue hne =>
    rw [tupleCompare_congr hitem hnumber hne]
    refine prereleaseKey_lt_iff.trans (or_iff_left fun heq => ?_).symm
    exact hne (prereleaseKey_eq_iff.mpr heq.1)
  case isFalse heq =>
    rw [prereleaseKey_eq_iff.mp (not_not.mp heq)]
    simp

theorem lt_iff (v w : Version) : v.lt w = true ↔ v.precedence < w.precedence := by
  refine (compare_iff (fun _ _ _ => rfl) (fun _ _ _ => rfl) v w).trans ?_
  exact or_iff_left fun h => Bool.false_ne_true h.2

theorem le_iff (v w : Version) : v.le w = true ↔ v.precedence ≤ w.precedence := by
  refine (compare_iff (fun m n hne => ?_) (fun a b hne => ?_) v w).trans ?_
  · exact decide_eq_decide.mpr ⟨fun h => lt_of_le_of_ne h hne, le_of_lt⟩
  · rw [Identifier.le, decide_eq_false hne, Bool.or_false]
  · refine Iff.trans ?_ le_iff_lt_or_eq.symm
    exact or_congr_right (and_iff_left (decide_eq_true le_rfl))

theorem compare_not (number : Nat → Nat → Bool) (item : Identifier → Identifier → Bool)
    (k l : Key) :
    k.compare (fun m n => !number m n) (fun a b => !item a b) l = !k.compare number item l := by
  rw [Key.compare, Key.compare, tupleCompare_not]
  split
  · rfl
  split
  · rfl
  split
  · rfl
  split
  · rfl
  · rfl

theorem gt_eq (v w : Version) : v.gt w = !v.le w := by
  rw [Version.le, ← compare_not, Version.gt]
  congr 1
  · funext m n
    rw [← decide_not]
    exact decide_eq_decide.mpr not_le.symm
  · funext a b
    rw [Identifier.gt, Identifier.le, Bool.not_or]
    rfl

theorem ge_eq (v w : Version) : v.ge w = !v.lt w := by
  rw [Version.lt, ← compare_not, Version.ge]
  congr 1
  funext m n
  rw [← decide_not]
  exact decide_eq_decide.mpr not_lt.symm

/-! ### Valid versions -/

/-- A number among the identifiers of a valid version is written for its value. -/
theorem numeral_of_isNumber (hpart : IsIdentifier part) (hpadded : isPaddedNumber part = false)
    (h : isNumber part = true) : part.takeWhile Char.isDigit = part ∧ Numeral part := by
  obtain ⟨-, hrest⟩ := of_decide_eq_true h
  have hnewline : part.dropWhile Char.isDigit ≠ ['\n'] := by
    intro heq
    have hmem : '\n' ∈ part :=
      (List.dropWhile_suffix Char.isDigit).mem (heq ▸ List.mem_singleton.mpr rfl)
    exact absurd (hpart.letters '\n' hmem) (by decide)
  have hsplit := List.takeWhile_append_dropWhile (p := Char.isDigit) (l := part)
  rw [hrest.resolve_right hnewline, List.append_nil] at hsplit
  have hdigits : ∀ c ∈ part, c.isDigit = true := by
    intro c hc
    exact List.mem_takeWhile_imp (hsplit ▸ hc)
  refine ⟨hsplit, hpart.ne_nil, hdigits, ?_⟩
  rw [isPaddedNumber, List.all_eq_true.mpr hdigits, Bool.and_true] at hpadded
  exact hasLeadingZero_eq_false_iff.mp hpadded

/-- The identifiers of valid prereleases. -/
def IsPrerelease (p : List Str) : Prop :=
  ∀ part ∈ p, IsIdentifier part ∧ isPaddedNumber part = false

theorem numberOrText_inj {part' : Str} (hpart : IsIdentifier part ∧ isPaddedNumber part = false)
    (hpart' : IsIdentifier part' ∧ isPaddedNumber part' = false)
    (h : numberOrText part = numberOrText part') : part = part' := by
  rw [numberOrText, numberOrText] at h
  split at h
  case isTrue hnumber =>
    split at h
    case isTrue hnumber' =>
      obtain ⟨htake, hnumeral⟩ := numeral_of_isNumber hpart.1 hpart.2 hnumber
      obtain ⟨htake', hnumeral'⟩ := numeral_of_isNumber hpart'.1 hpart'.2 hnumber'
      have hvalue := Sum.inl.inj (toLex_inj.mp h)
      rw [number, number, htake, htake'] at hvalue
      rw [← toDigits_ofDigitChars hnumeral, hvalue, toDigits_ofDigitChars hnumeral']
    case isFalse => exact absurd (toLex_inj.mp h) Sum.inl_ne_inr
  case isFalse =>
    split at h
    case isTrue => exact absurd (toLex_inj.mp h) Sum.inr_ne_inl
    case isFalse => exact Sum.inr.inj (toLex_inj.mp h)

theorem map_numberOrText_inj (hp : IsPrerelease p) (hq : IsPrerelease q)
    (h : p.map numberOrText = q.map numberOrText) : p = q := by
  induction p generalizing q with
  | nil => exact (List.map_eq_nil_iff.mp h.symm).symm
  | cons part p ih =>
    cases q with
    | nil => exact absurd h (List.cons_ne_nil _ _)
    | cons part' q =>
      obtain ⟨hpart, hp⟩ := List.forall_mem_cons.mp hp
      obtain ⟨hpart', hq⟩ := List.forall_mem_cons.mp hq
      obtain ⟨hhead, htail⟩ := List.cons.inj h
      rw [numberOrText_inj hpart hpart' hhead, ih hp hq htail]

theorem precedence_eq_iff (hv : v.Valid) (hw : w.Valid) :
    v.precedence = w.precedence ↔ v.SameUpToBuild w := by
  rw [Version.precedence, Version.precedence, toLex_inj, Prod.mk.injEq, toLex_inj, Prod.mk.injEq,
    toLex_inj, Prod.mk.injEq]
  constructor
  · rintro ⟨hmajor, hminor, hpatch, hprerelease⟩
    have heq : v.prerelease = w.prerelease := by
      rw [prereleasePrecedence, prereleasePrecedence] at hprerelease
      split at hprerelease
      case isTrue hnil =>
        split at hprerelease
        case isTrue hnil' => rw [hnil, hnil']
        case isFalse => exact absurd hprerelease WithTop.top_ne_coe
      case isFalse =>
        split at hprerelease
        case isTrue => exact absurd hprerelease WithTop.coe_ne_top
        case isFalse =>
          exact map_numberOrText_inj hv.prerelease hw.prerelease (WithTop.coe_inj.mp hprerelease)
    rw [Version.SameUpToBuild, hmajor, hminor, hpatch, heq]
  · intro h
    rw [← h]
    exact ⟨rfl, rfl, rfl, rfl⟩

/-- **The order of valid versions** is that of their precedence, which tells apart whatever
differs in more than the build. -/
theorem precedence_iff (hv : v.Valid) (hw : w.Valid) :
    (v.lt w = true ↔ v.precedence < w.precedence) ∧
      (v.le w = true ↔ v.precedence ≤ w.precedence) ∧
      (v.gt w = true ↔ w.precedence < v.precedence) ∧
      (v.ge w = true ↔ w.precedence ≤ v.precedence) ∧
      (v.le w = true ∧ v.ge w = true ↔ v.SameUpToBuild w) := by
  have hge : v.ge w = true ↔ w.precedence ≤ v.precedence := by
    rw [ge_eq, Bool.not_eq_true', ← Bool.not_eq_true, lt_iff, not_lt]
  refine ⟨lt_iff v w, le_iff v w, ?_, hge, ?_⟩
  · rw [gt_eq, Bool.not_eq_true', ← Bool.not_eq_true, le_iff, not_le]
  · rw [le_iff, hge, ← le_antisymm_iff, precedence_eq_iff hv hw]

/-- Numbers are compared as numbers. -/
theorem precedence_twoTen :
    let two : Version := ⟨1, 0, 0, [['2']], []⟩
    let ten : Version := ⟨1, 0, 0, [['1', '0']], [['b']]⟩
    two.precedence < ten.precedence ∧ ¬ two.SameUpToBuild ten := by
  obtain ⟨hlt, -, -, -, hsame⟩ := precedence_iff
    (v := ⟨1, 0, 0, [['2']], []⟩) (w := ⟨1, 0, 0, [['1', '0']], [['b']]⟩) (by decide) (by decide)
  exact ⟨hlt.mp (by decide), fun h => absurd (hsame.mpr h) (by decide)⟩

/-! ### The next version -/

/-- A release of the level. -/
def Part.Aligned : Part → Version → Prop
  | .major, w => w.prerelease = [] ∧ w.minor = 0 ∧ w.patch = 0
  | .minor, w => w.prerelease = [] ∧ w.patch = 0
  | .patch, w => w.prerelease = []

theorem lt_release_iff (v : Version) (hw : w.prerelease = []) :
    v.lt w = true ↔ v.major < w.major ∨ v.major = w.major ∧
      (v.minor < w.minor ∨ v.minor = w.minor ∧
        (v.patch < w.patch ∨ v.patch = w.patch ∧ v.prerelease ≠ [])) := by
  have hprerelease : prereleasePrecedence v.prerelease < prereleasePrecedence w.prerelease ↔
      v.prerelease ≠ [] := by
    rw [hw, prereleasePrecedence, prereleasePrecedence, if_pos rfl, lt_top_iff_ne_top]
    split
    case isTrue hnil => exact iff_of_false (fun h => h rfl) (not_not_intro hnil)
    case isFalse hne => exact iff_of_true WithTop.coe_ne_top hne
  rw [lt_iff, Version.precedence, Version.precedence, Prod.Lex.toLex_lt_toLex,
    Prod.Lex.toLex_lt_toLex, Prod.Lex.toLex_lt_toLex, hprerelease]

theorem release_le_iff (hv : v.prerelease = []) (hw : w.prerelease = []) :
    v.le w = true ↔ v.major < w.major ∨ v.major = w.major ∧
      (v.minor < w.minor ∨ v.minor = w.minor ∧ v.patch ≤ w.patch) := by
  have hnot : v.le w = true ↔ ¬ w.lt v = true := by rw [le_iff, lt_iff, not_lt]
  have hlt := lt_release_iff w hv
  rw [hnot, hlt, iff_false_intro fun h : w.patch = v.patch ∧ w.prerelease ≠ [] => h.2 hw,
    or_false]
  omega

theorem aligned_next (level : Part) (v : Version) : level.Aligned (v.next level) := by
  cases level with
  | major =>
    rw [Version.next, Version.nextMajor]
    split
    · exact ⟨rfl, rfl, rfl⟩
    · exact ⟨rfl, rfl, rfl⟩
  | minor =>
    rw [Version.next, Version.nextMinor]
    split
    · exact ⟨rfl, rfl⟩
    · exact ⟨rfl, rfl⟩
  | patch =>
    rw [Version.next, Version.nextPatch]
    split
    · rfl
    · rfl

theorem prerelease_of_aligned {level : Part} (h : level.Aligned w) : w.prerelease = [] := by
  cases level with
  | major => exact h.1
  | minor => exact h.1
  | patch => exact h

theorem next_le_iff {level : Part} (v : Version) (h : level.Aligned w) :
    v.lt w = true ↔ (v.next level).le w = true := by
  have hw := prerelease_of_aligned h
  rw [lt_release_iff v hw, release_le_iff (prerelease_of_aligned (aligned_next level v)) hw]
  cases level with
  | major =>
    obtain ⟨-, hminor, hpatch⟩ := h
    rw [Version.next, Version.nextMajor, hminor, hpatch]
    by_cases hpre : v.prerelease = []
    · simp only [hpre, ne_eq, not_true, true_and, false_and, and_false, or_false,
        if_false]
      omega
    · simp only [hpre, ne_eq, not_false_iff, true_and, and_true]
      split <;> dsimp only <;> omega
  | minor =>
    obtain ⟨-, hpatch⟩ := h
    rw [Version.next, Version.nextMinor, hpatch]
    by_cases hpre : v.prerelease = []
    · simp only [hpre, ne_eq, not_true, false_and, and_false, or_false, if_false]
      omega
    · simp only [hpre, ne_eq, not_false_iff, true_and, and_true]
      split <;> dsimp only <;> omega
  | patch =>
    rw [Version.next, Version.nextPatch]
    by_cases hpre : v.prerelease = []
    · simp only [hpre, ne_eq, not_true, and_false, or_false, if_false]
      omega
    · simp only [hpre, ne_eq, not_false_iff, and_true, if_true]
      omega

/-- **The next version** of a level is the least release of that level above the version. -/
theorem next_least (level : Part) (v : Version) :
    level.Aligned (v.next level) ∧ v.lt (v.next level) = true ∧
      ∀ w, level.Aligned w → (v.lt w = true ↔ (v.next level).le w = true) := by
  have halign := aligned_next level v
  refine ⟨halign, ?_, fun w h => next_le_iff v h⟩
  exact (next_le_iff v halign).mpr ((le_iff _ _).mpr le_rfl)

end Reloadium.SemVer
