import Mathlib.Algebra.Group.Nat.Defs
import Mathlib.Data.List.Induction

namespace Reloadium.Lib

/-!
# Library — words on a wire

* `bigEndian`, `ofBigEndian` — numbers in a fixed number of bytes, the highest one first;
* `Delimited` — words that can be read off the front of whatever follows them;
* `Delimited.flatMap_inj` — such words, one after another, can be taken apart in one way only.
-/

/-! ### Numbers -/

/-- `struct.pack('>…')` -/
def bigEndian : Nat → Nat → List UInt8
  | 0, _ => []
  | width + 1, n => bigEndian width (n / 256) ++ [.ofNat (n % 256)]

/-- `struct.unpack('>…')` -/
def ofBigEndian (bytes : List UInt8) : Nat := bytes.foldl (fun n byte => 256 * n + byte.toNat) 0

variable {width n : Nat} {bytes : List UInt8}

@[simp]
theorem length_bigEndian (width n : Nat) : (bigEndian width n).length = width := by
  induction width generalizing n with
  | zero => rfl
  | succ width ih => rw [bigEndian, List.length_append, ih, List.length_singleton]

theorem ofBigEndian_concat (bytes : List UInt8) (byte : UInt8) :
    ofBigEndian (bytes ++ [byte]) = 256 * ofBigEndian bytes + byte.toNat := by
  rw [ofBigEndian, List.foldl_append]
  rfl

theorem ofBigEndian_bigEndian (h : n < 256 ^ width) : ofBigEndian (bigEndian width n) = n := by
  induction width generalizing n with
  | zero =>
    rw [Nat.pow_zero, Nat.lt_one_iff] at h
    rw [h]
    rfl
  | succ width ih =>
    rw [Nat.pow_succ'] at h
    have hbyte : (UInt8.ofNat (n % 256)).toNat = n % 256 :=
      UInt8.toNat_ofNat_of_lt' (Nat.mod_lt n (by decide))
    rw [bigEndian, ofBigEndian_concat, ih (Nat.div_lt_of_lt_mul h), hbyte, Nat.div_add_mod]

theorem ofBigEndian_lt (bytes : List UInt8) : ofBigEndian bytes < 256 ^ bytes.length := by
  induction bytes using List.reverseRecOn with
  | nil => exact Nat.one_pos
  | append_singleton bytes byte ih =>
    have hbyte : byte.toNat < 256 := byte.toNat_lt
    rw [ofBigEndian_concat, List.length_append, List.length_singleton, Nat.pow_succ']
    omega

theorem bigEndian_ofBigEndian (h : bytes.length = width) :
    bigEndian width (ofBigEndian bytes) = bytes := by
  induction bytes using List.reverseRecOn generalizing width with
  | nil => rw [← h]; rfl
  | append_singleton bytes byte ih =>
    rw [List.length_append, List.length_singleton] at h
    have hbyte : byte.toNat < 256 := byte.toNat_lt
    have hdiv : (256 * ofBigEndian bytes + byte.toNat) / 256 = ofBigEndian bytes := by omega
    have hmod : (256 * ofBigEndian bytes + byte.toNat) % 256 = byte.toNat := by omega
    rw [← h, ofBigEndian_concat, bigEndian, hdiv, hmod, ih rfl, UInt8.ofNat_toNat]

/-! ### Words -/

/-- The words that fit can be read off the front of whatever follows them. -/
structure Delimited {α β : Type} (Fits : α → Prop) (write : α → List β)
    (read : List β → Option (α × List β)) : Prop where
  read_write : ∀ a, Fits a → ∀ t, read (write a ++ t) = some (a, t)
  ne_nil : ∀ a, write a ≠ []

variable {α β : Type} {Fits : α → Prop} {write : α → List β} {read : List β → Option (α × List β)}

theorem Delimited.flatMap_inj (h : Delimited Fits write read) {s t : List α} (hs : ∀ a ∈ s, Fits a)
    (ht : ∀ a ∈ t, Fits a) (heq : s.flatMap write = t.flatMap write) : s = t := by
  induction s generalizing t with
  | nil =>
    cases t with
    | nil => rfl
    | cons b t =>
      rw [List.flatMap_nil, List.flatMap_cons] at heq
      exact absurd (List.append_eq_nil_iff.mp heq.symm).1 (h.ne_nil b)
  | cons a s ih =>
    cases t with
    | nil =>
      rw [List.flatMap_nil, List.flatMap_cons] at heq
      exact absurd (List.append_eq_nil_iff.mp heq).1 (h.ne_nil a)
    | cons b t =>
      obtain ⟨ha, hs'⟩ := List.forall_mem_cons.mp hs
      obtain ⟨hb, ht'⟩ := List.forall_mem_cons.mp ht
      rw [List.flatMap_cons, List.flatMap_cons] at heq
      have hread := h.read_write a ha (s.flatMap write)
      rw [heq, h.read_write b hb] at hread
      obtain ⟨rfl, hrest⟩ := Prod.mk.inj (Option.some.inj hread)
      rw [ih hs' ht' hrest.symm]

end Reloadium.Lib
