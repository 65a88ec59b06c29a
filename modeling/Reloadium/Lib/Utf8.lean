import Reloadium.Lib.JString

namespace Reloadium.Lib

/-!
# Library — UTF-8 as the Java library reads and writes it

`encode` is `String.getBytes(UTF_8)`: a surrogate without its partner becomes `?`.
`decode` is `new String(bytes, UTF_8)`: a malformed piece becomes one `U+FFFD`, where a
piece ends before the first byte that cannot continue it.

* `sanitize` — the string with its unpaired surrogates replaced, unit for unit;
* `decode_encode_append` — decoding starts over after an encoded string, so that
  `decode (encode s ++ t) = sanitize s ++ decode t`.
-/

/-- The bytes of a file or of a message. -/
abbrev Bytes := List UInt8

namespace Utf8

/-! ### Surrogates -/

def IsHigh (u : UInt16) : Prop := 0xD800 ≤ u.toNat ∧ u.toNat < 0xDC00

def IsLow (u : UInt16) : Prop := 0xDC00 ≤ u.toNat ∧ u.toNat < 0xE000

def IsSurrogate (u : UInt16) : Prop := 0xD800 ≤ u.toNat ∧ u.toNat < 0xE000

instance : DecidablePred IsHigh := fun _ => inferInstanceAs (Decidable (_ ∧ _))
instance : DecidablePred IsLow := fun _ => inferInstanceAs (Decidable (_ ∧ _))
instance : DecidablePred IsSurrogate := fun _ => inferInstanceAs (Decidable (_ ∧ _))

/-- The code point of a surrogate pair. -/
def pairCode (u v : UInt16) : Nat :=
  0x10000 + (u.toNat - 0xD800) * 0x400 + (v.toNat - 0xDC00)

/-! ### Encoding -/

/-- The bytes of a unit that is no surrogate. -/
def encodeUnit (u : UInt16) : Bytes :=
  let n := u.toNat
  if n < 0x80 then [.ofNat n]
  else if n < 0x800 then [.ofNat (0xC0 + n / 0x40), .ofNat (0x80 + n % 0x40)]
  else [.ofNat (0xE0 + n / 0x1000), .ofNat (0x80 + n / 0x40 % 0x40), .ofNat (0x80 + n % 0x40)]

/-- The bytes of a surrogate pair. -/
def encodePair (u v : UInt16) : Bytes :=
  let n := pairCode u v
  [.ofNat (0xF0 + n / 0x40000), .ofNat (0x80 + n / 0x1000 % 0x40),
    .ofNat (0x80 + n / 0x40 % 0x40), .ofNat (0x80 + n % 0x40)]

/-- `String.getBytes(StandardCharsets.UTF_8)`. -/
def encode : JString → Bytes
  | [] => []
  | [u] => if IsSurrogate u then [0x3F] else encodeUnit u
  | u :: v :: rest =>
    if IsSurrogate u then
      if IsHigh u ∧ IsLow v then encodePair u v ++ encode rest
      else 0x3F :: encode (v :: rest)
    else encodeUnit u ++ encode (v :: rest)

/-- The string with every unpaired surrogate replaced by a question mark. -/
def sanitize : JString → JString
  | [] => []
  | [u] => if IsSurrogate u then [0x3F] else [u]
  | u :: v :: rest =>
    if IsSurrogate u then
      if IsHigh u ∧ IsLow v then u :: v :: sanitize rest
      else 0x3F :: sanitize (v :: rest)
    else u :: sanitize (v :: rest)

/-- Every surrogate of the string has its partner. -/
def WellFormed (s : JString) : Prop := sanitize s = s

instance : DecidablePred WellFormed := fun _ => inferInstanceAs (Decidable (_ = _))

/-- A unit that is no surrogate stays. -/
theorem sanitize_cons_of_not_surrogate {u : UInt16} (h : ¬ IsSurrogate u) (t : JString) :
    sanitize (u :: t) = u :: sanitize t := by
  cases t with
  | nil => simp only [sanitize, if_neg h]
  | cons v rest => rw [sanitize, if_neg h]

/-- A surrogate pair stays. -/
theorem sanitize_pair {u v : UInt16} (hu : IsHigh u) (hv : IsLow v) (t : JString) :
    sanitize (u :: v :: t) = u :: v :: sanitize t := by
  have hsur : IsSurrogate u := ⟨hu.1, Nat.lt_trans hu.2 (by decide)⟩
  rw [sanitize, if_pos hsur, if_pos ⟨hu, hv⟩]

theorem toNat_ofNat16 {n : Nat} (h : n < 0x10000) : (UInt16.ofNat n).toNat = n :=
  UInt16.toNat_ofNat_of_lt h

/-- A surrogate that is not followed by its partner becomes a question mark. -/
theorem sanitize_cons_of_unpaired {u : UInt16} (hu : IsSurrogate u) {t : JString}
    (ht : ∀ v ∈ t.head?, ¬ (IsHigh u ∧ IsLow v)) : sanitize (u :: t) = 0x3F :: sanitize t := by
  cases t with
  | nil => simp only [sanitize, if_pos hu]
  | cons v rest => rw [sanitize, if_pos hu, if_neg (ht v rfl)]

/-- A question mark is no surrogate, so nothing is left to replace. -/
theorem wellFormed_sanitize (s : JString) : WellFormed (sanitize s) := by
  have hquestion : ¬ IsSurrogate 0x3F := by decide
  rw [WellFormed]
  fun_induction sanitize s with
  | case1 => rfl
  | case2 u hu => rw [sanitize_cons_of_not_surrogate hquestion, sanitize]
  | case3 u hu => rw [sanitize_cons_of_not_surrogate hu, sanitize]
  | case4 u v rest hu hpair ih => rw [sanitize_pair hpair.1 hpair.2, ih]
  | case5 u v rest hu hpair ih => rw [sanitize_cons_of_not_surrogate hquestion, ih]
  | case6 u v rest hu ih => rw [sanitize_cons_of_not_surrogate hu, ih]

/-- The units of a Unicode scalar stay. -/
theorem sanitize_ofChar_append (c : Char) (t : JString) :
    sanitize (.ofChar c ++ t) = JString.ofChar c ++ sanitize t := by
  have hvalid : c.toNat < 0xD800 ∨ 0xDFFF < c.toNat ∧ c.toNat < 0x110000 := c.valid
  rw [JString.ofChar]
  split
  case isTrue h =>
    have hu : (UInt16.ofNat c.toNat).toNat = c.toNat := UInt16.toNat_ofNat_of_lt h
    have hsur : ¬ IsSurrogate (.ofNat c.toNat) := by
      rw [IsSurrogate, hu]
      omega
    exact sanitize_cons_of_not_surrogate hsur t
  case isFalse h =>
    have hu := toNat_ofNat16 (n := 0xD800 + (c.toNat - 0x10000) / 0x400) (by omega)
    have hv := toNat_ofNat16 (n := 0xDC00 + (c.toNat - 0x10000) % 0x400) (by omega)
    have hhigh : IsHigh (.ofNat (0xD800 + (c.toNat - 0x10000) / 0x400)) := by
      rw [IsHigh, hu]
      omega
    have hlow : IsLow (.ofNat (0xDC00 + (c.toNat - 0x10000) % 0x400)) := by
      rw [IsLow, hv]
      omega
    exact sanitize_pair hhigh hlow t

/-- A Unicode string has no unpaired surrogate. -/
theorem wellFormed_ofString (s : String) : WellFormed (.ofString s) := by
  rw [WellFormed, JString.ofString]
  induction s.toList with
  | nil => rfl
  | cons c rest ih => rw [List.flatMap_cons, sanitize_ofChar_append, ih]

/-! ### Decoding -/

/-- The replacement character. -/
def repl : UInt16 := 0xFFFD

/-- The byte cannot continue a sequence. -/
def NotContinuation (b : UInt8) : Prop := ¬ (0x80 ≤ b.toNat ∧ b.toNat < 0xC0)

/-- The byte `b₂` cannot follow the first byte `b₁` of three. -/
def Malformed3 (b₁ b₂ : UInt8) : Prop :=
  (b₁.toNat = 0xE0 ∧ 0x80 ≤ b₂.toNat ∧ b₂.toNat < 0xA0) ∨ NotContinuation b₂

/-- The byte `b₂` cannot follow the first byte `b₁` of four. -/
def Malformed4 (b₁ b₂ : UInt8) : Prop :=
  (b₁.toNat = 0xF0 ∧ (b₂.toNat < 0x90 ∨ 0xBF < b₂.toNat)) ∨
    (b₁.toNat = 0xF4 ∧ ¬ (0x80 ≤ b₂.toNat ∧ b₂.toNat < 0x90)) ∨ NotContinuation b₂

instance : DecidablePred NotContinuation := fun _ => inferInstanceAs (Decidable (¬ _))
instance (b₁ b₂ : UInt8) : Decidable (Malformed3 b₁ b₂) := inferInstanceAs (Decidable (_ ∨ _))
instance (b₁ b₂ : UInt8) : Decidable (Malformed4 b₁ b₂) := inferInstanceAs (Decidable (_ ∨ _))

/-- The units of a code point. -/
def unitsOf (n : Nat) : JString :=
  if n < 0x10000 then [.ofNat n]
  else [.ofNat (0xD800 + (n - 0x10000) / 0x400), .ofNat (0xDC00 + (n - 0x10000) % 0x400)]

/-- After a first byte of two. -/
def decode2 (b₁ : UInt8) : Bytes → JString × Bytes
  | [] => ([repl], [])
  | b₂ :: r =>
    if NotContinuation b₂ then ([repl], b₂ :: r)
    else (unitsOf ((b₁.toNat - 0xC0) * 0x40 + (b₂.toNat - 0x80)), r)

/-- After a first byte of three; an encoded surrogate is one malformed piece. -/
def decode3 (b₁ : UInt8) : Bytes → JString × Bytes
  | [] => ([repl], [])
  | [b₂] => if Malformed3 b₁ b₂ then ([repl], [b₂]) else ([repl], [])
  | b₂ :: b₃ :: r =>
    if Malformed3 b₁ b₂ then ([repl], b₂ :: b₃ :: r)
    else if NotContinuation b₃ then ([repl], b₃ :: r)
    else
      let n := (b₁.toNat - 0xE0) * 0x1000 + (b₂.toNat - 0x80) * 0x40 + (b₃.toNat - 0x80)
      if 0xD800 ≤ n ∧ n < 0xE000 then ([repl], r) else (unitsOf n, r)

/-- After a first byte of four (or a byte that would be one beyond the code points). -/
def decode4 (b₁ : UInt8) : Bytes → JString × Bytes
  | [] => ([repl], [])
  | b₂ :: r =>
    if 0xF4 < b₁.toNat ∨ Malformed4 b₁ b₂ then ([repl], b₂ :: r)
    else
      match r with
      | [] => ([repl], [])
      | b₃ :: r =>
        if NotContinuation b₃ then ([repl], b₃ :: r)
        else
          match r with
          | [] => ([repl], [])
          | b₄ :: r =>
            if NotContinuation b₄ then ([repl], b₄ :: r)
            else
              (unitsOf ((b₁.toNat - 0xF0) * 0x40000 + (b₂.toNat - 0x80) * 0x1000 +
                (b₃.toNat - 0x80) * 0x40 + (b₄.toNat - 0x80)), r)

/-- The first piece of a nonempty sequence: its units, and the bytes after it. -/
def decodeFirst (b : UInt8) (rest : Bytes) : JString × Bytes :=
  let n := b.toNat
  if n < 0x80 then ([.ofNat n], rest)
  else if 0xC2 ≤ n ∧ n < 0xE0 then decode2 b rest
  else if 0xE0 ≤ n ∧ n < 0xF0 then decode3 b rest
  else if 0xF0 ≤ n ∧ n < 0xF8 then decode4 b rest
  else ([repl], rest)

/-- A piece takes at least its first byte. -/
theorem length_decodeFirst_le (b : UInt8) (rest : Bytes) :
    (decodeFirst b rest).2.length ≤ rest.length := by
  unfold decodeFirst decode2 decode3 decode4
  grind

/-- `new String(bytes, StandardCharsets.UTF_8)`. -/
def decode : Bytes → JString
  | [] => []
  | b :: rest => (decodeFirst b rest).1 ++ decode (decodeFirst b rest).2
  termination_by bytes => bytes.length
  decreasing_by
    have h := length_decodeFirst_le b rest
    rw [List.length_cons]
    omega

@[simp] theorem decode_nil : decode [] = [] := by rw [decode]

/-- An empty file is blank. -/
theorem isBlank_decode_nil : (decode []).isBlank = true := by
  rw [decode_nil]
  rfl

theorem decode_cons (b : UInt8) (rest : Bytes) :
    decode (b :: rest) = (decodeFirst b rest).1 ++ decode (decodeFirst b rest).2 := by
  rw [decode]

/-! ### Decoding what was encoded -/

theorem toNat_ofNat8 {n : Nat} (h : n < 0x100) : (UInt8.ofNat n).toNat = n :=
  UInt8.toNat_ofNat_of_lt h

/-- A byte below `0x80` stands for itself. -/
theorem decode_ascii (b : UInt8) (t : Bytes) (h : b.toNat < 0x80) :
    decode (b :: t) = .ofNat b.toNat :: decode t := by
  rw [decode_cons, decodeFirst]
  simp only [h, if_true, List.singleton_append]

theorem decode_two (a b : Nat) (t : Bytes) (ha : 2 ≤ a ∧ a < 0x20) (hb : b < 0x40) :
    decode (.ofNat (0xC0 + a) :: .ofNat (0x80 + b) :: t) =
      unitsOf (a * 0x40 + b) ++ decode t := by
  have h₁ := toNat_ofNat8 (n := 0xC0 + a) (by omega)
  have h₂ := toNat_ofNat8 (n := 0x80 + b) (by omega)
  have hcont : ¬ NotContinuation (.ofNat (0x80 + b)) := by
    rw [NotContinuation, h₂]
    omega
  rw [decode_cons, decodeFirst, h₁, if_neg (by omega), if_pos (by omega), decode2, if_neg hcont,
    h₁, h₂, Nat.add_sub_cancel_left, Nat.add_sub_cancel_left]

theorem decode_three (a b c : Nat) (t : Bytes) (ha : a < 0x10) (hb : b < 0x40) (hc : c < 0x40)
    (hmin : 0x800 ≤ a * 0x1000 + b * 0x40 + c)
    (hsur : ¬ (0xD800 ≤ a * 0x1000 + b * 0x40 + c ∧ a * 0x1000 + b * 0x40 + c < 0xE000)) :
    decode (.ofNat (0xE0 + a) :: .ofNat (0x80 + b) :: .ofNat (0x80 + c) :: t) =
      unitsOf (a * 0x1000 + b * 0x40 + c) ++ decode t := by
  have h₁ := toNat_ofNat8 (n := 0xE0 + a) (by omega)
  have h₂ := toNat_ofNat8 (n := 0x80 + b) (by omega)
  have h₃ := toNat_ofNat8 (n := 0x80 + c) (by omega)
  have hmal : ¬ Malformed3 (.ofNat (0xE0 + a)) (.ofNat (0x80 + b)) := by
    rw [Malformed3, NotContinuation, h₁, h₂]
    omega
  have hcont : ¬ NotContinuation (.ofNat (0x80 + c)) := by
    rw [NotContinuation, h₃]
    omega
  rw [decode_cons, decodeFirst, h₁, if_neg (by omega), if_neg (by omega), if_pos (by omega),
    decode3, if_neg hmal, if_neg hcont]
  simp only [h₁, h₂, h₃, Nat.add_sub_cancel_left, if_neg hsur]

theorem decode_four (a b c d : Nat) (t : Bytes) (ha : a < 8) (hb : b < 0x40) (hc : c < 0x40)
    (hd : d < 0x40) (hmin : 0x10000 ≤ a * 0x40000 + b * 0x1000 + c * 0x40 + d)
    (hmax : a * 0x40000 + b * 0x1000 + c * 0x40 + d < 0x110000) :
    decode (.ofNat (0xF0 + a) :: .ofNat (0x80 + b) :: .ofNat (0x80 + c) :: .ofNat (0x80 + d) ::
        t) = unitsOf (a * 0x40000 + b * 0x1000 + c * 0x40 + d) ++ decode t := by
  have h₁ := toNat_ofNat8 (n := 0xF0 + a) (by omega)
  have h₂ := toNat_ofNat8 (n := 0x80 + b) (by omega)
  have h₃ := toNat_ofNat8 (n := 0x80 + c) (by omega)
  have h₄ := toNat_ofNat8 (n := 0x80 + d) (by omega)
  have hmal : ¬ (0xF4 < 0xF0 + a ∨ Malformed4 (.ofNat (0xF0 + a)) (.ofNat (0x80 + b))) := by
    rw [Malformed4, NotContinuation, h₁, h₂]
    omega
  have hcont₃ : ¬ NotContinuation (.ofNat (0x80 + c)) := by
    rw [NotContinuation, h₃]
    omega
  have hcont₄ : ¬ NotContinuation (.ofNat (0x80 + d)) := by
    rw [NotContinuation, h₄]
    omega
  rw [decode_cons, decodeFirst, h₁, if_neg (by omega), if_neg (by omega), if_neg (by omega),
    if_pos (by omega), decode4, h₁, if_neg hmal]
  simp only [hcont₃, hcont₄, if_false, h₂, h₃, h₄, Nat.add_sub_cancel_left]

theorem unitsOf_unit (u : UInt16) : unitsOf u.toNat = [u] := by
  rw [unitsOf, if_pos u.toNat_lt, UInt16.ofNat_toNat]

theorem unitsOf_pair {u v : UInt16} (hu : IsHigh u) (hv : IsLow v) :
    unitsOf (pairCode u v) = [u, v] := by
  obtain ⟨hu₁, hu₂⟩ := hu
  obtain ⟨hv₁, hv₂⟩ := hv
  have hhi : 0xD800 + (pairCode u v - 0x10000) / 0x400 = u.toNat := by
    unfold pairCode
    omega
  have hlo : 0xDC00 + (pairCode u v - 0x10000) % 0x400 = v.toNat := by
    unfold pairCode
    omega
  rw [unitsOf, if_neg (by unfold pairCode; omega), hhi, hlo, UInt16.ofNat_toNat, UInt16.ofNat_toNat]

/-- A unit that is no surrogate is read back. -/
theorem decode_encodeUnit {u : UInt16} (h : ¬ IsSurrogate u) (t : Bytes) :
    decode (encodeUnit u ++ t) = u :: decode t := by
  have hlt := u.toNat_lt
  rw [encodeUnit]
  split
  case isTrue h₁ =>
    rw [List.singleton_append, decode_ascii _ _ (by rw [toNat_ofNat8 (by omega)]; exact h₁),
      toNat_ofNat8 (by omega), UInt16.ofNat_toNat]
  case isFalse h₁ =>
    split
    case isTrue h₂ =>
      have hcode : u.toNat / 0x40 * 0x40 + u.toNat % 0x40 = u.toNat := by omega
      rw [List.cons_append, List.cons_append, List.nil_append,
        decode_two _ _ _ (by omega) (by omega), hcode, unitsOf_unit, List.singleton_append]
    case isFalse h₂ =>
      have hcode : u.toNat / 0x1000 * 0x1000 + u.toNat / 0x40 % 0x40 * 0x40 + u.toNat % 0x40 =
          u.toNat := by omega
      rw [List.cons_append, List.cons_append, List.cons_append, List.nil_append,
        decode_three _ _ _ _ (by omega) (by omega) (by omega) (by omega)
          (by rw [hcode]; exact h), hcode, unitsOf_unit, List.singleton_append]

/-- The code of a surrogate pair takes four bytes. -/
theorem le_pairCode (u v : UInt16) : 0x10000 ≤ pairCode u v := by
  unfold pairCode
  omega

theorem pairCode_lt {u v : UInt16} (hu : IsHigh u) (hv : IsLow v) :
    pairCode u v < 0x110000 := by
  have hu' := hu.2
  have hv' := hv.2
  unfold pairCode
  omega

/-- A surrogate pair is read back. -/
theorem decode_encodePair {u v : UInt16} (hu : IsHigh u) (hv : IsLow v) (t : Bytes) :
    decode (encodePair u v ++ t) = u :: v :: decode t := by
  have hmin := le_pairCode u v
  have hmax := pairCode_lt hu hv
  have hcode : pairCode u v / 0x40000 * 0x40000 + pairCode u v / 0x1000 % 0x40 * 0x1000 +
      pairCode u v / 0x40 % 0x40 * 0x40 + pairCode u v % 0x40 = pairCode u v := by omega
  simp only [encodePair, List.cons_append, List.nil_append]
  rw [decode_four _ _ _ _ _ (by omega) (by omega) (by omega) (by omega) (by omega) (by omega),
    hcode, unitsOf_pair hu hv]
  rfl

/-- A question mark stands for itself. -/
theorem decode_question (t : Bytes) : decode (0x3F :: t) = 0x3F :: decode t :=
  decode_ascii 0x3F t (by decide)

/-- **Decoding starts over after an encoded string**, and reads it back with its unpaired
    surrogates replaced. -/
theorem decode_encode_append (s : JString) (t : Bytes) :
    decode (encode s ++ t) = sanitize s ++ decode t := by
  fun_induction encode s with
  | case1 => rfl
  | case2 u h =>
    rw [sanitize, if_pos h, List.singleton_append, decode_question, List.singleton_append]
  | case3 u h =>
    rw [sanitize, if_neg h, decode_encodeUnit h, List.singleton_append]
  | case4 u v rest h hpair ih =>
    rw [sanitize, if_pos h, if_pos hpair, List.append_assoc, decode_encodePair hpair.1 hpair.2,
      ih, List.cons_append, List.cons_append]
  | case5 u v rest h hpair ih =>
    rw [sanitize, if_pos h, if_neg hpair, List.cons_append, decode_question, ih,
      List.cons_append]
  | case6 u v rest h ih =>
    rw [sanitize, if_neg h, List.append_assoc, decode_encodeUnit h, ih, List.cons_append]

/-- A string is read back with its unpaired surrogates replaced. -/
theorem decode_encode (s : JString) : decode (encode s) = sanitize s := by
  have h := decode_encode_append s []
  rwa [List.append_nil, decode_nil, List.append_nil] at h

/-- A Unicode string is read back. -/
theorem decode_encode_ofString (s : String) :
    decode (encode (.ofString s)) = JString.ofString s := by
  rw [decode_encode]
  exact wellFormed_ofString s

/-! ### Lengths -/

theorem length_sanitize (s : JString) : (sanitize s).length = s.length := by
  fun_induction sanitize s <;> simp_all

theorem decodeFirst_ne_nil (b : UInt8) (rest : Bytes) : (decodeFirst b rest).1 ≠ [] := by
  have hunits (n : Nat) : unitsOf n ≠ [] := by
    unfold unitsOf
    split <;> exact List.cons_ne_nil _ _
  unfold decodeFirst decode2 decode3 decode4
  grind

/-- Only no bytes decode to no units. -/
theorem decode_eq_nil_iff (bytes : Bytes) : decode bytes = [] ↔ bytes = [] := by
  cases bytes with
  | nil => simp
  | cons b rest => simp [decode_cons, decodeFirst_ne_nil]

/-- What follows an encoded string shows in what is decoded. -/
theorem decode_encode_append_eq_self_iff (s : JString) (t : Bytes) :
    decode (encode s ++ t) = s ↔ WellFormed s ∧ t = [] := by
  rw [decode_encode_append, ← decode_eq_nil_iff t]
  constructor
  · intro h
    have hlen := congrArg List.length h
    rw [List.length_append, length_sanitize] at hlen
    have hnil : decode t = [] := List.length_eq_zero_iff.mp (by omega)
    rw [hnil, List.append_nil] at h
    exact ⟨h, hnil⟩
  · rintro ⟨hs, ht⟩
    rw [ht, List.append_nil]
    exact hs

/-! ### Encoded strings cut short -/

theorem decode_cut2 (a : Nat) (ha : 2 ≤ a ∧ a < 0x20) : decode [.ofNat (0xC0 + a)] = [repl] := by
  have h₁ := toNat_ofNat8 (n := 0xC0 + a) (by omega)
  rw [decode_cons, decodeFirst, h₁, if_neg (by omega), if_pos (by omega), decode2, decode_nil,
    List.append_nil]

theorem decode_cut3 (a b k : Nat) (r : Bytes) (ha : a < 0x10) (hb : b < 0x40)
    (hmin : 0x20 ≤ a * 0x40 + b) (hk : 0 < k ∧ k < 3) :
    decode ((.ofNat (0xE0 + a) :: .ofNat (0x80 + b) :: r).take k) = [repl] := by
  have h₁ := toNat_ofNat8 (n := 0xE0 + a) (by omega)
  have h₂ := toNat_ofNat8 (n := 0x80 + b) (by omega)
  have hmal : ¬ Malformed3 (.ofNat (0xE0 + a)) (.ofNat (0x80 + b)) := by
    rw [Malformed3, NotContinuation, h₁, h₂]
    omega
  obtain rfl | rfl : k = 1 ∨ k = 2 := by omega
  all_goals
    simp only [List.take_succ_cons, List.take_zero]
    rw [decode_cons, decodeFirst, h₁, if_neg (by omega), if_neg (by omega), if_pos (by omega),
      decode3]
  · rw [decode_nil, List.append_nil]
  · rw [if_neg hmal, decode_nil, List.append_nil]

theorem decode_cut4 (a b c k : Nat) (r : Bytes) (ha : a < 5) (hb : b < 0x40) (hc : c < 0x40)
    (hmin : 0x10 ≤ a * 0x40 + b) (hmax : a * 0x40 + b < 0x110) (hk : 0 < k ∧ k < 4) :
    decode ((.ofNat (0xF0 + a) :: .ofNat (0x80 + b) :: .ofNat (0x80 + c) :: r).take k) =
      [repl] := by
  have h₁ := toNat_ofNat8 (n := 0xF0 + a) (by omega)
  have h₂ := toNat_ofNat8 (n := 0x80 + b) (by omega)
  have h₃ := toNat_ofNat8 (n := 0x80 + c) (by omega)
  have hmal : ¬ (0xF4 < 0xF0 + a ∨ Malformed4 (.ofNat (0xF0 + a)) (.ofNat (0x80 + b))) := by
    rw [Malformed4, NotContinuation, h₁, h₂]
    omega
  have hcont : ¬ NotContinuation (.ofNat (0x80 + c)) := by
    rw [NotContinuation, h₃]
    omega
  obtain rfl | rfl | rfl : k = 1 ∨ k = 2 ∨ k = 3 := by omega
  all_goals
    simp only [List.take_succ_cons, List.take_zero]
    rw [decode_cons, decodeFirst, h₁, if_neg (by omega), if_neg (by omega), if_neg (by omega),
      if_pos (by omega), decode4]
  · rw [decode_nil, List.append_nil]
  · rw [h₁, if_neg hmal]
    rw [decode_nil, List.append_nil]
  · rw [h₁, if_neg hmal]
    simp only [hcont, if_false]
    rw [decode_nil, List.append_nil]

/-- The bytes of a unit, cut short, are one malformed piece. -/
theorem decode_take_encodeUnit {u : UInt16} {k : Nat} (hk : 0 < k)
    (hlt : k < (encodeUnit u).length) : decode ((encodeUnit u).take k) = [repl] := by
  have hu := u.toNat_lt
  simp only [encodeUnit] at hlt ⊢
  split at hlt
  case isTrue =>
    rw [List.length_singleton] at hlt
    omega
  case isFalse h₁ =>
    rw [if_neg h₁]
    split at hlt
    case isTrue h₂ =>
      obtain rfl : k = 1 := by simp at hlt; omega
      rw [if_pos h₂]
      exact decode_cut2 _ (by omega)
    case isFalse h₂ =>
      rw [if_neg h₂]
      exact decode_cut3 _ _ _ _ (by omega) (by omega) (by omega) ⟨hk, by simpa using hlt⟩

/-- The bytes of a surrogate pair, cut short, are one malformed piece. -/
theorem decode_take_encodePair {u v : UInt16} {k : Nat} (hu : IsHigh u) (hv : IsLow v)
    (hk : 0 < k) (hlt : k < 4) : decode ((encodePair u v).take k) = [repl] := by
  have hmin := le_pairCode u v
  have hmax := pairCode_lt hu hv
  exact decode_cut4 _ _ _ _ _ (by omega) (by omega) (by omega) (by omega) (by omega) ⟨hk, hlt⟩

/-- A surrogate that is not followed by its partner becomes a question mark. -/
theorem encode_cons_of_unpaired {u : UInt16} (hu : IsSurrogate u) {t : JString}
    (ht : ∀ v ∈ t.head?, ¬ (IsHigh u ∧ IsLow v)) : encode (u :: t) = 0x3F :: encode t := by
  cases t with
  | nil => simp only [encode, if_pos hu]
  | cons v rest => rw [encode, if_pos hu, if_neg (ht v rfl)]

theorem encode_cons_of_not_surrogate {u : UInt16} (hu : ¬ IsSurrogate u) (t : JString) :
    encode (u :: t) = encodeUnit u ++ encode t := by
  cases t with
  | nil => simp only [encode, if_neg hu, List.append_nil]
  | cons v rest => rw [encode, if_neg hu]

/-- Encoding starts over at a unit that is no low surrogate. -/
theorem encode_append {t : JString} (ht : ∀ u ∈ t.head?, ¬ IsLow u) (s : JString) :
    encode (s ++ t) = encode s ++ encode t := by
  fun_induction encode s with
  | case1 => rfl
  | case2 u h =>
    exact encode_cons_of_unpaired h fun v hv hpair => ht v hv hpair.2
  | case3 u h =>
    exact encode_cons_of_not_surrogate h t
  | case4 u v rest h hpair ih =>
    rw [List.cons_append, List.cons_append, encode, if_pos h, if_pos hpair, ih,
      List.append_assoc]
  | case5 u v rest h hpair ih =>
    rw [List.cons_append, encode_cons_of_unpaired h (by simpa using hpair), ih,
      List.cons_append]
  | case6 u v rest h ih =>
    rw [List.cons_append, encode_cons_of_not_surrogate h, ih, List.append_assoc]

/-- So does replacing unpaired surrogates. -/
theorem sanitize_append {t : JString} (ht : ∀ u ∈ t.head?, ¬ IsLow u) (s : JString) :
    sanitize (s ++ t) = sanitize s ++ sanitize t := by
  fun_induction sanitize s with
  | case1 => rfl
  | case2 u h =>
    exact sanitize_cons_of_unpaired h fun v hv hpair => ht v hv hpair.2
  | case3 u h =>
    exact sanitize_cons_of_not_surrogate h t
  | case4 u v rest h hpair ih =>
    rw [List.cons_append, List.cons_append, sanitize, if_pos h, if_pos hpair, ih,
      List.cons_append, List.cons_append]
  | case5 u v rest h hpair ih =>
    rw [List.cons_append, sanitize_cons_of_unpaired h (by simpa using hpair), ih,
      List.cons_append]
  | case6 u v rest h ih =>
    rw [List.cons_append, sanitize_cons_of_not_surrogate h, ih, List.cons_append]

/-- What is decoded of the first `k` bytes of an encoded string is a shorter string, with at
    most a replacement character after it. -/
def IsCut (s : JString) (k : Nat) : Prop :=
  ∃ s₁ s₂, s = s₁ ++ s₂ ∧ s₂ ≠ [] ∧
    (decode ((encode s).take k) = sanitize s₁ ∨
      (encode s₁).length < k ∧ decode ((encode s).take k) = sanitize s₁ ++ [repl])

theorem isCut_zero {s : JString} (hs : s ≠ []) : IsCut s 0 :=
  ⟨[], s, rfl, hs, .inl (by simp [sanitize])⟩

/-- A cut within the bytes `e` of the first units `a`, which are then one malformed piece. -/
theorem isCut_of_lt {a b : JString} {e : Bytes} {k : Nat} (ha : a ≠ [])
    (hencode : encode (a ++ b) = e ++ encode b)
    (hpiece : ∀ k, 0 < k → k < e.length → decode (e.take k) = [repl]) (hk : k < e.length) :
    IsCut (a ++ b) k := by
  have hne : a ++ b ≠ [] := by simp [ha]
  rcases Nat.eq_zero_or_pos k with rfl | hpos
  · exact isCut_zero hne
  · refine ⟨[], a ++ b, rfl, hne, .inr ⟨hpos, ?_⟩⟩
    rw [hencode, List.take_append_of_le_length (by omega), hpiece k hpos hk]
    rfl

/-- A cut beyond the bytes `e` of the first units `a`, which decode to `c`. -/
theorem IsCut.prepend {a c b : JString} {e : Bytes} {k : Nat} (h : IsCut b k)
    (hdecode : ∀ t, decode (e ++ t) = c ++ decode t)
    (hstart : ∀ x y, b = x ++ y →
      encode (a ++ x) = e ++ encode x ∧ sanitize (a ++ x) = c ++ sanitize x) :
    IsCut (a ++ b) (e.length + k) := by
  obtain ⟨s₁, s₂, hb, hne, hcut⟩ := h
  obtain ⟨henc₁, hsan₁⟩ := hstart s₁ s₂ hb
  obtain ⟨henc, -⟩ := hstart b [] (List.append_nil b).symm
  refine ⟨a ++ s₁, s₂, by rw [hb, List.append_assoc], hne, ?_⟩
  rw [henc, List.take_length_add_append, hdecode, henc₁, hsan₁, List.length_append,
    List.append_assoc]
  rcases hcut with hcut | ⟨hlt, hcut⟩
  · exact .inl (by rw [hcut])
  · exact .inr ⟨by omega, by rw [hcut]⟩

/-- **A cut string.**  An encoded string can be cut short anywhere. -/
theorem isCut_of_lt_length {s : JString} {k : Nat} (hk : k < (encode s).length) : IsCut s k := by
  fun_induction encode s generalizing k with
  | case1 => simp at hk
  | case2 u h =>
    obtain rfl : k = 0 := by simpa using hk
    exact isCut_zero (List.cons_ne_nil _ _)
  | case3 u h =>
    exact isCut_of_lt (a := [u]) (b := []) (List.cons_ne_nil _ _)
      (encode_cons_of_not_surrogate h [])
      (fun k hpos hlt => decode_take_encodeUnit hpos hlt) hk
  | case4 u v rest h hpair ih =>
    have hlen : (encodePair u v).length = 4 := rfl
    have hencode (x : JString) : encode ([u, v] ++ x) = encodePair u v ++ encode x := by
      show encode (u :: v :: x) = _
      rw [encode, if_pos h, if_pos hpair]
    rcases Nat.lt_or_ge k (encodePair u v).length with hlt | hge
    · exact isCut_of_lt (a := [u, v]) (List.cons_ne_nil _ _) (hencode rest)
        (fun k hpos hlt => decode_take_encodePair hpair.1 hpair.2 hpos (hlen ▸ hlt)) hlt
    · obtain ⟨j, rfl⟩ := Nat.exists_eq_add_of_le hge
      rw [List.length_append] at hk
      exact (ih (by omega)).prepend (a := [u, v]) (c := [u, v])
        (decode_encodePair hpair.1 hpair.2)
        fun x y _ => ⟨hencode x, sanitize_pair hpair.1 hpair.2 x⟩
  | case5 u v rest h hpair ih =>
    cases k with
    | zero => exact isCut_zero (List.cons_ne_nil _ _)
    | succ j =>
      have hhead {x y : JString} (hxy : v :: rest = x ++ y) :
          ∀ w ∈ x.head?, ¬ (IsHigh u ∧ IsLow w) := by
        intro w hw
        cases x with
        | nil => cases hw
        | cons w' x =>
          obtain rfl : w' = w := by simpa using hw
          obtain rfl : v = w' := (List.cons.inj hxy).1
          exact hpair
      rw [List.length_cons] at hk
      rw [Nat.add_comm j 1]
      exact (ih (by omega)).prepend (a := [u]) (c := [0x3F]) (e := [0x3F]) decode_question
        fun x y hxy => ⟨encode_cons_of_unpaired h (hhead hxy),
          sanitize_cons_of_unpaired h (hhead hxy)⟩
  | case6 u v rest h ih =>
    rcases Nat.lt_or_ge k (encodeUnit u).length with hlt | hge
    · exact isCut_of_lt (a := [u]) (List.cons_ne_nil _ _)
        (encode_cons_of_not_surrogate h (v :: rest))
        (fun k hpos hlt => decode_take_encodeUnit hpos hlt) hlt
    · obtain ⟨j, rfl⟩ := Nat.exists_eq_add_of_le hge
      rw [List.length_append] at hk
      exact (ih (by omega)).prepend (a := [u]) (c := [u]) (decode_encodeUnit h)
        fun x y _ => ⟨encode_cons_of_not_surrogate h x, sanitize_cons_of_not_surrogate h x⟩

theorem repl_not_low : ∀ u ∈ [repl].head?, ¬ IsLow u := by
  simp only [List.head?_cons, Option.mem_some_iff, forall_eq']
  decide

/-- A string that ends in a replacement character has no other unpaired surrogates than the
    string before it. -/
theorem wellFormed_append_repl (s : JString) : WellFormed (s ++ [repl]) ↔ WellFormed s := by
  have hrepl : sanitize [repl] = [repl] := by decide
  rw [WellFormed, WellFormed, sanitize_append repl_not_low, hrepl, List.append_cancel_right_eq]

/-- **When a cut string reads as the whole.**  Only a replacement character at the end can
    be cut short and still be read. -/
theorem decode_take_encode_eq_self_iff {s : JString} {k : Nat} (hk : k < (encode s).length) :
    decode ((encode s).take k) = s ↔
      WellFormed s ∧ ∃ s₁, s = s₁ ++ [repl] ∧ (encode s₁).length < k := by
  constructor
  · intro h
    obtain ⟨s₁, s₂, hs, hne, hcut⟩ := isCut_of_lt_length hk
    have hpos : 0 < s₂.length := List.length_pos_iff.mpr hne
    rw [h] at hcut
    have hlen := congrArg List.length hs
    rw [List.length_append] at hlen
    rcases hcut with hcut | ⟨hlt, hcut⟩
    · have hlen' := congrArg List.length hcut
      rw [length_sanitize] at hlen'
      omega
    · obtain ⟨hsan, rfl⟩ := List.append_inj (hs.symm.trans hcut) (length_sanitize s₁).symm
      exact ⟨hs ▸ (wellFormed_append_repl s₁).mpr hsan.symm, s₁, hs, hlt⟩
  · rintro ⟨hwf, s₁, rfl, hlt⟩
    obtain ⟨j, rfl⟩ := Nat.exists_eq_add_of_lt hlt
    rw [encode_append repl_not_low, List.length_append] at hk
    have hpiece : decode ((encode [repl]).take (j + 1)) = [repl] := by
      have hrepl : encode [repl] = encodeUnit repl := by decide
      rw [hrepl] at hk ⊢
      exact decode_take_encodeUnit (by omega) (by omega)
    rw [encode_append repl_not_low, Nat.add_assoc, List.take_length_add_append,
      decode_encode_append, hpiece]
    rw [(wellFormed_append_repl s₁).mp hwf]

end Utf8

end Reloadium.Lib
