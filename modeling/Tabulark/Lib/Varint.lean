import Mathlib

/-!
# Variable-length numbers

Numbers in bytes of seven bits, the low ones first; the high bit of a byte tells
that another one follows. A number has many encodings: those that end in zeros
are longer than they need to be.
-/

namespace Tabulark.Varint

/-- The bytes encode the number. -/
inductive Encodes : ℕ → List UInt8 → Prop
  | last (byte : UInt8) (h : byte.toNat < 128) : Encodes byte.toNat [byte]
  | more (byte : UInt8) (h : 128 ≤ byte.toNat) {n : ℕ} {bytes : List UInt8}
      (hbytes : Encodes n bytes) : Encodes (byte.toNat - 128 + 128 * n) (byte :: bytes)

variable {n : ℕ} {bytes : List UInt8}

theorem Encodes.ne_nil (h : Encodes n bytes) : bytes ≠ [] := by
  cases h <;> exact List.cons_ne_nil _ _

theorem Encodes.length_pos (h : Encodes n bytes) : 0 < bytes.length :=
  List.length_pos_iff.2 h.ne_nil

/-- The seven bits of a byte. -/
theorem and_127 (m : ℕ) : m &&& 127 = m % 128 := Nat.and_two_pow_sub_one_eq_mod m 7

theorem and_128_eq_zero (byte : UInt8) : byte.toNat &&& 128 = 0 ↔ byte.toNat < 128 := by
  have hlt := byte.toNat_lt
  have hand : byte.toNat &&& 128 = (byte.toNat.testBit 7).toNat * 2 ^ 7 := Nat.and_two_pow _ 7
  rw [hand, Nat.testBit_eq_decide_div_mod_eq]
  by_cases hbit : byte.toNat / 2 ^ 7 % 2 = 1
  · rw [decide_eq_true hbit]
    simp only [Bool.toNat_true]
    omega
  · rw [decide_eq_false hbit]
    simp only [Bool.toNat_false]
    omega

/-- The digits are added above those that were read. -/
theorem or_shiftLeft {value shift digit : ℕ} (h : value < 2 ^ shift) :
    value ||| digit <<< shift = value + 2 ^ shift * digit := by
  rw [Nat.or_comm, ← Nat.shiftLeft_add_eq_or_of_lt h, Nat.shiftLeft_eq, Nat.add_comm,
    Nat.mul_comm]

/-- A digit that is not the last one, and the number above it. -/
theorem add_digit {value i byte n : ℕ} (h : 128 ≤ byte) (hlt : byte < 256)
    (hvalue : value < 2 ^ (7 * i)) :
    byte % 128 = byte - 128 ∧ value + 2 ^ (7 * i) * (byte - 128) < 2 ^ (7 * (i + 1)) ∧
      value + 2 ^ (7 * i) * (byte - 128) + 2 ^ (7 * (i + 1)) * n =
        value + 2 ^ (7 * i) * (byte - 128 + 128 * n) := by
  have hpow : 2 ^ (7 * (i + 1)) = 2 ^ (7 * i) * 128 := by rw [Nat.mul_succ, Nat.pow_add]
  have hdigit : 2 ^ (7 * i) * (byte - 128) ≤ 2 ^ (7 * i) * 127 :=
    Nat.mul_le_mul_left _ (by omega)
  refine ⟨by omega, by omega, ?_⟩
  rw [hpow]
  ring

end Tabulark.Varint
