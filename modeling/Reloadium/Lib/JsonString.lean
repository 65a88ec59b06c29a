import Reloadium.Lib.JString

namespace Reloadium.Lib

/-!
# Library — JSON strings

What stands between the quotes of a JSON string: plain characters, the eight short escapes, and
`\u` escapes.  A character carries the proof that it may stand there, so a list of them is
always the inside of a string.

* `JsonChar.raw`, `JsonChar.value` — how a character is written, and the code unit it is;
* `readString` — a reader, up to the closing quote;
* `readString_raw` — it reads every string.
-/

/-- The escapes of one letter. -/
inductive Escape where
  | quote
  | backslash
  | slash
  | backspace
  | formFeed
  | newline
  | carriageReturn
  | tab
  deriving DecidableEq

namespace Escape

/-- The letter behind the backslash. -/
def letter : Escape → UInt16
  | quote => 34
  | backslash => 92
  | slash => 47
  | backspace => 98
  | formFeed => 102
  | newline => 110
  | carriageReturn => 114
  | tab => 116

def value : Escape → UInt16
  | quote => 34
  | backslash => 92
  | slash => 47
  | backspace => 8
  | formFeed => 12
  | newline => 10
  | carriageReturn => 13
  | tab => 9

def all : List Escape :=
  [quote, backslash, slash, backspace, formFeed, newline, carriageReturn, tab]

/-- The escape of a letter. -/
def ofLetter (u : UInt16) : Option Escape := all.find? fun e => e.letter == u

@[simp] theorem ofLetter_letter (e : Escape) : ofLetter e.letter = some e := by
  cases e <;> decide

end Escape

/-- What may stand in a string as it is: no control character, quote or backslash. -/
def isPlain (u : UInt16) : Bool := 32 ≤ u.toNat && u != 34 && u != 92

def isHexDigit (u : UInt16) : Bool :=
  (48 ≤ u.toNat && u.toNat ≤ 57) || (65 ≤ u.toNat && u.toNat ≤ 70) ||
    (97 ≤ u.toNat && u.toNat ≤ 102)

abbrev HexDigit := { u : UInt16 // isHexDigit u = true }

def HexDigit.value (d : HexDigit) : Nat :=
  if d.1.toNat ≤ 57 then d.1.toNat - 48
  else if d.1.toNat ≤ 70 then d.1.toNat - 55
  else d.1.toNat - 87

/-- A character of a string. -/
inductive JsonChar where
  | plain (u : UInt16) (h : isPlain u = true)
  | escape (e : Escape)
  | unicode (a b c d : HexDigit)
  deriving DecidableEq

namespace JsonChar

/-- How it is written. -/
def raw : JsonChar → JString
  | plain u _ => [u]
  | escape e => [92, e.letter]
  | unicode a b c d => [92, 117, a.1, b.1, c.1, d.1]

/-- The code unit that it stands for. -/
def value : JsonChar → UInt16
  | plain u _ => u
  | escape e => e.value
  | unicode a b c d =>
    UInt16.ofNat (((a.value * 16 + b.value) * 16 + c.value) * 16 + d.value)

end JsonChar

/-- The text between the quotes. -/
def rawString (t : List JsonChar) : JString := t.flatMap JsonChar.raw

/-- The character of four hexadecimal digits. -/
def ofHexDigits (a b c d : UInt16) : Option UInt16 :=
  if h : isHexDigit a = true ∧ isHexDigit b = true ∧ isHexDigit c = true ∧
      isHexDigit d = true then
    some (JsonChar.unicode ⟨a, h.1⟩ ⟨b, h.2.1⟩ ⟨c, h.2.2.1⟩ ⟨d, h.2.2.2⟩).value
  else none

/-- Read one character: what it stands for, and how many code units it takes. -/
def readChar : JString → Option (UInt16 × Nat)
  | [] => none
  | u :: s =>
    if u ≠ 92 then if isPlain u = true then some (u, 1) else none
    else
      match s with
      | [] => none
      | l :: s =>
        if l ≠ 117 then (Escape.ofLetter l).map fun e => (e.value, 2)
        else
          match s with
          | a :: b :: c :: d :: _ => (ofHexDigits a b c d).map fun u => (u, 6)
          | _ => none

/-- Read on, when the next `skip` units are in a character that has been read. -/
def readFrom (skip : Nat) : JString → Option (JString × JString)
  | [] => none
  | u :: s =>
    match skip with
    | skip + 1 => readFrom skip s
    | 0 =>
      if u = 34 then some ([], s)
      else
        match readChar (u :: s) with
        | none => none
        | some (v, n) => (readFrom (n - 1) s).map fun r => (v :: r.1, r.2)

/-- Read a string up to its closing quote: what it stands for, and what follows. -/
def readString (s : JString) : Option (JString × JString) := readFrom 0 s

theorem rawString_cons (x : JsonChar) (t : List JsonChar) :
    rawString (x :: t) = x.raw ++ rawString t := rfl

theorem isPlain_ne {u : UInt16} (h : isPlain u = true) : u ≠ 34 ∧ u ≠ 92 := by
  simp only [isPlain, Bool.and_eq_true, bne_iff_ne] at h
  exact ⟨h.1.2, h.2⟩

theorem HexDigit.ne {u : UInt16} (hu : isHexDigit u = false) (d : HexDigit) : d.1 ≠ u := by
  rintro rfl
  rw [d.2] at hu
  cases hu

theorem Escape.letter_ne (e : Escape) : e.letter ≠ 117 := by
  cases e <;> decide

theorem ofHexDigits_value (a b c d : HexDigit) :
    ofHexDigits a.1 b.1 c.1 d.1 = some (JsonChar.unicode a b c d).value := by
  rw [ofHexDigits, dif_pos ⟨a.2, b.2, c.2, d.2⟩]

theorem readChar_raw (x : JsonChar) (s : JString) :
    readChar (x.raw ++ s) = some (x.value, x.raw.length) := by
  cases x with
  | plain u h =>
    show readChar (u :: s) = _
    rw [readChar.eq_def]
    simp only [if_pos (isPlain_ne h).2, if_pos h]
    rfl
  | escape e =>
    show readChar (92 :: e.letter :: s) = _
    rw [readChar.eq_def]
    simp only [ne_eq, not_true_eq_false, if_false, if_pos e.letter_ne, Escape.ofLetter_letter]
    rfl
  | unicode a b c d =>
    show readChar (92 :: 117 :: a.1 :: b.1 :: c.1 :: d.1 :: s) = _
    rw [readChar.eq_def]
    simp only [ne_eq, not_true_eq_false, if_false, ofHexDigits_value]
    rfl

theorem readFrom_length (t s : JString) : readFrom t.length (t ++ s) = readString s := by
  induction t with
  | nil => rfl
  | cons u t ih => exact ih

/-- A character is written with something, which does not begin with a quote. -/
theorem JsonChar.raw_eq (x : JsonChar) : ∃ u s, x.raw = u :: s ∧ u ≠ 34 := by
  cases x with
  | plain u h => exact ⟨u, [], rfl, (isPlain_ne h).1⟩
  | escape e => exact ⟨92, [e.letter], rfl, by decide⟩
  | unicode a b c d => exact ⟨92, [117, a.1, b.1, c.1, d.1], rfl, by decide⟩

/-- **Reading back.** -/
theorem readString_raw (t : List JsonChar) (s : JString) :
    readString (rawString t ++ 34 :: s) = some (t.map JsonChar.value, s) := by
  induction t with
  | nil => rfl
  | cons x t ih =>
    obtain ⟨u, r, hraw, hquote⟩ := x.raw_eq
    have hchar := readChar_raw x (rawString t ++ 34 :: s)
    rw [hraw, List.cons_append] at hchar
    rw [rawString_cons, List.append_assoc, hraw, List.cons_append, readString, readFrom]
    simp only [if_neg hquote, hchar, List.length_cons, Nat.add_sub_cancel, readFrom_length, ih]
    rfl

end Reloadium.Lib
