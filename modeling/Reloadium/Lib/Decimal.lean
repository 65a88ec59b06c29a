import Mathlib.Data.List.Induction

namespace Reloadium.Lib

/-!
# Library — decimal numerals

* `Numeral` — digits without a leading zero;
* `numeral_toDigits`, `toDigits_ofDigitChars` — they are the texts of the natural numbers, and
  reading and writing them are inverse to each other.
-/

/-- The digits of a number as it is written. -/
structure Numeral (s : List Char) : Prop where
  ne_nil : s ≠ []
  isDigit : ∀ c ∈ s, c.isDigit = true
  zero : s.head? = some '0' → s = ['0']

instance (s : List Char) : Decidable (Numeral s) :=
  decidable_of_iff (s ≠ [] ∧ s.all Char.isDigit = true ∧ (s.head? = some '0' → s = ['0']))
    ⟨fun h => ⟨h.1, List.all_eq_true.mp h.2.1, h.2.2⟩,
      fun h => ⟨h.ne_nil, List.all_eq_true.mpr h.isDigit, h.zero⟩⟩

variable {s : List Char} {c : Char}

theorem toNat_of_isDigit (h : c.isDigit = true) : 48 ≤ c.toNat ∧ c.toNat < 58 := by
  rw [Char.isDigit, Bool.and_eq_true, decide_eq_true_eq, decide_eq_true_eq] at h
  have hlo : 48 ≤ c.toNat := UInt32.le_iff_toNat_le.mp h.1
  have hhi : c.toNat ≤ 57 := UInt32.le_iff_toNat_le.mp h.2
  exact ⟨hlo, Nat.lt_succ_of_le hhi⟩

/-- A digit is written for its value. -/
theorem digitChar_of_isDigit (h : c.isDigit = true) : (c.toNat - 48).digitChar = c := by
  obtain ⟨hlo, hhi⟩ := toNat_of_isDigit h
  have hlt : c.toNat - 48 < 10 := by omega
  apply Char.toNat_inj.mp
  rw [Nat.toNat_digitChar_of_lt_ten hlt]
  omega

theorem ofDigitChars_concat (s : List Char) (c : Char) :
    Nat.ofDigitChars 10 (s ++ [c]) 0 = 10 * Nat.ofDigitChars 10 s 0 + (c.toNat - 48) := by
  rw [Nat.ofDigitChars_append, Nat.ofDigitChars_cons, Nat.ofDigitChars_nil]
  rfl

/-- What is left of a numeral is one, unless it has a single digit. -/
theorem Numeral.of_concat (h : Numeral (s ++ [c])) (hs : s ≠ []) :
    Numeral s ∧ s.head? ≠ some '0' := by
  have hhead : s.head? ≠ some '0' := by
    intro hzero
    have hone := h.zero (by rw [List.head?_append, hzero]; rfl)
    have hlength := congrArg List.length hone
    rw [List.length_append, List.length_singleton, List.length_singleton] at hlength
    exact hs (List.eq_nil_of_length_eq_zero (Nat.succ.inj hlength))
  exact ⟨⟨hs, fun d hd => h.isDigit d (List.mem_append_left _ hd), fun hzero =>
    absurd hzero hhead⟩, hhead⟩

/-- **Reading and writing.** A numeral is written for its value. -/
theorem toDigits_ofDigitChars (h : Numeral s) :
    Nat.toDigits 10 (Nat.ofDigitChars 10 s 0) = s := by
  induction s using List.reverseRecOn with
  | nil => exact absurd rfl h.ne_nil
  | append_singleton s c ih =>
    have hc : c.isDigit = true := h.isDigit c (List.mem_append_right _ List.mem_cons_self)
    obtain ⟨hlo, hhi⟩ := toNat_of_isDigit hc
    have hlt : c.toNat - 48 < 10 := by omega
    have hlast : Nat.toDigits 10 (c.toNat - 48) = [c] := by
      rw [Nat.toDigits_of_lt_base hlt, digitChar_of_isDigit hc]
    rw [ofDigitChars_concat]
    by_cases hs : s = []
    · rw [hs, Nat.ofDigitChars_nil, Nat.mul_zero, Nat.zero_add, hlast]
      rfl
    · obtain ⟨hnumeral, hhead⟩ := h.of_concat hs
      have hdigits := ih hnumeral
      have hpos : 0 < Nat.ofDigitChars 10 s 0 := by
        apply Nat.pos_of_ne_zero
        intro hzero
        rw [hzero, Nat.toDigits_zero] at hdigits
        exact hhead (hdigits ▸ rfl)
      rw [← Nat.toDigits_append_toDigits (by decide) hpos hlt, hdigits, hlast]

theorem numeral_toDigits (n : Nat) : Numeral (Nat.toDigits 10 n) := by
  refine ⟨Nat.toDigits_ne_nil, fun c hc => Nat.isDigit_of_mem_toDigits (by decide) (by decide) hc,
    ?_⟩
  induction n using Nat.strongRecOn with
  | ind n ih =>
    intro hhead
    by_cases hlt : n < 10
    · rw [Nat.toDigits_of_lt_base hlt] at hhead ⊢
      rw [List.head?_cons] at hhead
      rw [Option.some.inj hhead]
    · have hle : 10 ≤ n := Nat.le_of_not_lt hlt
      obtain ⟨d, ds, hdigits⟩ :=
        List.exists_cons_of_ne_nil (@Nat.toDigits_ne_nil (n / 10) 10)
      rw [Nat.toDigits_of_base_le (by decide) hle, List.head?_append, hdigits] at hhead
      have hzero := ih (n / 10) (by omega) (by rw [hdigits]; exact hhead)
      -- a number of at least ten has a digit before the last one
      have hvalue : n / 10 = 0 := by
        rw [← Nat.ofDigitChars_ten_toDigits (n := n / 10), hzero]
        rfl
      omega

end Reloadium.Lib
