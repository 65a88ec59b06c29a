import Mathlib.Data.List.Basic
import Mathlib.Data.List.TakeWhile

namespace Reloadium.Lib

/-!
# Library — strings of UTF-16 code units

A Java string is a sequence of 16-bit code units: its length counts units, and it can be
cut anywhere, also inside a surrogate pair.  `JString` is that sequence.
-/

/-- A string, as its UTF-16 code units. -/
abbrev JString := List UInt16

namespace JString

/-- The code units of one Unicode scalar: itself, or a surrogate pair. -/
def ofChar (c : Char) : JString :=
  if c.toNat < 0x10000 then [UInt16.ofNat c.toNat]
  else
    [UInt16.ofNat (0xD800 + (c.toNat - 0x10000) / 0x400),
      UInt16.ofNat (0xDC00 + (c.toNat - 0x10000) % 0x400)]

/-- The code units of a Unicode string. -/
def ofString (s : String) : JString := s.toList.flatMap ofChar

theorem ofString_append (s t : String) : ofString (s ++ t) = ofString s ++ ofString t := by
  rw [ofString, String.toList_append, List.flatMap_append]
  rfl

/-- `Character.isWhitespace`.  All code points with the property are single units. -/
def isWhitespace (u : UInt16) : Bool :=
  let n := u.toNat
  (9 ≤ n && n ≤ 13) || (0x1C ≤ n && n ≤ 0x20) || n == 0x1680 || (0x2000 ≤ n && n ≤ 0x2006) ||
    (0x2008 ≤ n && n ≤ 0x200A) || n == 0x2028 || n == 0x2029 || n == 0x205F || n == 0x3000

/-- `String.isBlank`. -/
def isBlank (s : JString) : Bool := s.all isWhitespace

theorem isBlank_append (s t : JString) : isBlank (s ++ t) = (isBlank s && isBlank t) :=
  List.all_append

/-- `String.strip`. -/
def strip (s : JString) : JString :=
  ((s.dropWhile isWhitespace).reverse.dropWhile isWhitespace).reverse

/-- A string that stripping does not shorten has no whitespace at its ends. -/
theorem strip_ends {s : JString} (h : s.length ≤ (strip s).length) :
    s.dropWhile isWhitespace = s ∧ s.reverse.dropWhile isWhitespace = s.reverse := by
  have hfront := List.dropWhile_sublist isWhitespace (l := s)
  have hback := List.dropWhile_sublist isWhitespace (l := (s.dropWhile isWhitespace).reverse)
  have hle₁ := hfront.length_le
  have hle₂ := hback.length_le
  rw [List.length_reverse] at hle₂
  rw [strip, List.length_reverse] at h
  have heq₁ : s.dropWhile isWhitespace = s := hfront.eq_of_length (by omega)
  have heq₂ := hback.eq_of_length (by rw [List.length_reverse]; omega)
  rw [heq₁] at heq₂
  exact ⟨heq₁, heq₂⟩

theorem strip_eq_self {s : JString} (h : s.length ≤ (strip s).length) : strip s = s := by
  obtain ⟨hfront, hback⟩ := strip_ends h
  rw [strip, hfront, hback, List.reverse_reverse]

/-- Something after a stripped string is stripped away exactly when it is blank. -/
theorem strip_append_eq_iff {v : JString} (hv : strip v = v) (hne : v ≠ []) (x : JString) :
    strip (v ++ x) = v ↔ isBlank x = true := by
  obtain ⟨hfront, hback⟩ := strip_ends (s := v) (by rw [hv])
  have hblank : (x.reverse.dropWhile isWhitespace).isEmpty = isBlank x := by
    rw [Bool.eq_iff_iff, List.isEmpty_iff, List.dropWhile_eq_nil_iff, isBlank, List.all_eq_true]
    simp only [List.mem_reverse]
  have happ : (v ++ x).dropWhile isWhitespace = v ++ x := by
    rw [List.dropWhile_append, hfront, if_neg (by simpa using hne)]
  rw [strip, happ, List.reverse_append, List.dropWhile_append, hback, hblank]
  cases hx : isBlank x with
  | true => simp
  | false =>
    have hne' : x.reverse.dropWhile isWhitespace ≠ [] := by
      rw [hx] at hblank
      simpa using hblank
    simpa using hne'

/-- `s` without its suffix `suffix`, if it has it. -/
def removeSuffix (s suffix : JString) : JString :=
  if suffix <:+ s then s.take (s.length - suffix.length) else s

end JString

end Reloadium.Lib
