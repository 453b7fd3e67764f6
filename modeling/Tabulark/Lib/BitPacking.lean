import Mathlib

/-!
# Bits in bytes

Bytes as a sequence of bits, the low bit of a byte first, and numbers of a fixed
width packed into them without gaps.
-/

namespace Tabulark.BitPacking

/-- A bit of some bytes. -/
def bitAt (bytes : List UInt8) (i : ℕ) : Bool := (bytes[i / 8]?.getD 0).toNat.testBit (i % 8)

/-- The number of some width that starts at a bit. -/
def window (bytes : List UInt8) (start : ℕ) : ℕ → ℕ
  | 0 => 0
  | width + 1 => window bytes start width ||| (bitAt bytes (start + width)).toNat <<< width

/-- The first bytes of a number, the low ones first. -/
def toBytes (count n : ℕ) : List UInt8 :=
  (List.range count).map fun k => UInt8.ofNat (n >>> (8 * k))

/-- Numbers of a width as one number, the first one in its low bits. -/
def pack (width : ℕ) : List ℕ → ℕ
  | [] => 0
  | value :: values => 2 ^ width * pack width values + value

variable {bytes : List UInt8} {width : ℕ}

theorem testBit_window (bytes : List UInt8) (start width j : ℕ) :
    (window bytes start width).testBit j = (decide (j < width) && bitAt bytes (start + j)) := by
  induction width with
  | zero => simp [window]
  | succ width ih =>
    rw [window, Nat.testBit_or, ih, Nat.testBit_shiftLeft]
    rcases lt_trichotomy j width with hlt | rfl | hgt
    · have hlt' : j < width + 1 := Nat.lt_succ_of_lt hlt
      simp [hlt, hlt', Nat.not_le.2 hlt]
    · cases bitAt bytes (start + j) <;> simp
    · have hnot : ¬j < width := Nat.not_lt.2 hgt.le
      have hnot' : ¬j < width + 1 := by omega
      have hlow : (bitAt bytes (start + width)).toNat < 2 ^ (j - width) :=
        (Bool.toNat_lt _).trans_le (Nat.le_self_pow (by omega) 2)
      simp [hnot, hnot', Nat.testBit_lt_two_pow hlow]

@[simp] theorem length_toBytes (count n : ℕ) : (toBytes count n).length = count := by
  rw [toBytes, List.length_map, List.length_range]

theorem bitAt_toBytes {count n i : ℕ} (hi : i < 8 * count) :
    bitAt (toBytes count n) i = n.testBit i := by
  have hdiv : i / 8 < count := Nat.div_lt_of_lt_mul hi
  have hbyte : (toBytes count n)[i / 8]? = some (UInt8.ofNat (n >>> (8 * (i / 8)))) := by
    rw [toBytes, List.getElem?_map, List.getElem?_range hdiv, Option.map_some]
  rw [bitAt, hbyte, Option.getD_some, UInt8.toNat_ofNat', Nat.testBit_mod_two_pow,
    Nat.testBit_shiftRight, Nat.div_add_mod]
  simp [Nat.mod_lt i (by decide : 0 < 8)]

/-- The bits of a packed number. -/
theorem testBit_pack {values : List ℕ} (hvalues : ∀ value ∈ values, value < 2 ^ width) {i j : ℕ}
    (hi : i < values.length) (hj : j < width) :
    (pack width values).testBit (i * width + j) = values[i].testBit j := by
  induction values generalizing i with
  | nil => exact absurd hi (Nat.not_lt_zero i)
  | cons value values ih =>
    obtain ⟨hvalue, hrest⟩ := List.forall_mem_cons.1 hvalues
    rw [pack, Nat.testBit_two_pow_mul_add _ hvalue]
    cases i with
    | zero => rw [Nat.zero_mul, Nat.zero_add, if_pos hj, List.getElem_cons_zero]
    | succ i =>
      have hnot : ¬(i + 1) * width + j < width := by
        rw [Nat.succ_mul]
        omega
      have hsub : (i + 1) * width + j - width = i * width + j := by
        rw [Nat.succ_mul]
        omega
      rw [if_neg hnot, hsub, ih hrest (Nat.lt_of_succ_lt_succ hi), List.getElem_cons_succ]

/-- A packed number is read back. -/
theorem window_pack {values : List ℕ} (hvalues : ∀ value ∈ values, value < 2 ^ width) {count i : ℕ}
    (hcount : values.length * width ≤ 8 * count) (hi : i < values.length) :
    window (toBytes count (pack width values)) (i * width) width = values[i] := by
  refine Nat.eq_of_testBit_eq fun j => ?_
  rw [testBit_window]
  by_cases hj : j < width
  · have hlt : i * width + j < values.length * width := by
      calc i * width + j < i * width + width := Nat.add_lt_add_left hj _
        _ = (i + 1) * width := (Nat.succ_mul i width).symm
        _ ≤ values.length * width := Nat.mul_le_mul_right width hi
    rw [decide_eq_true hj, Bool.true_and, bitAt_toBytes (hlt.trans_le hcount),
      testBit_pack hvalues hi hj]
  · rw [decide_eq_false hj, Bool.false_and, Nat.testBit_lt_two_pow]
    exact (hvalues _ (List.getElem_mem hi)).trans_le
      (Nat.pow_le_pow_right (by decide) (Nat.not_lt.1 hj))

theorem bitAt_cons (byte : UInt8) (bytes : List UInt8) (i : ℕ) :
    bitAt (byte :: bytes) i = if i < 8 then byte.toNat.testBit i else bitAt bytes (i - 8) := by
  split_ifs with hi
  · rw [bitAt, Nat.div_eq_of_lt hi, List.getElem?_cons_zero, Option.getD_some, Nat.mod_eq_of_lt hi]
  · obtain ⟨j, rfl⟩ := Nat.exists_eq_add_of_le (Nat.not_lt.1 hi)
    rw [bitAt, bitAt, Nat.add_comm, Nat.add_div_right _ (by decide), List.getElem?_cons_succ,
      Nat.add_mod_right, Nat.add_sub_cancel]

/-- Bytes put together, each above those before it. -/
theorem testBit_foldl (bytes : List UInt8) (start value j : ℕ) :
    ((bytes.zipIdx start).foldl (fun value byte => value ||| byte.1.toNat <<< (byte.2 * 8))
      value).testBit j =
        (value.testBit j || (decide (8 * start ≤ j) && bitAt bytes (j - 8 * start))) := by
  induction bytes generalizing start value with
  | nil => simp [bitAt]
  | cons byte bytes ih =>
    rw [List.zipIdx_cons, List.foldl_cons, ih, Nat.testBit_or, Nat.testBit_shiftLeft, bitAt_cons,
      Bool.or_assoc]
    congr 1
    by_cases hstart : 8 * start ≤ j
    · by_cases hbyte : j - 8 * start < 8
      · have hnot : ¬8 * (start + 1) ≤ j := by omega
        simp [hstart, hbyte, hnot, Nat.mul_comm start 8]
      · have hnext : 8 * (start + 1) ≤ j := by omega
        have hsub : j - 8 * start - 8 = j - 8 * (start + 1) := by omega
        have hhigh : byte.toNat.testBit (j - 8 * start) = false :=
          Nat.testBit_lt_two_pow (byte.toNat_lt.trans_le
            (Nat.pow_le_pow_right (by decide) (Nat.not_lt.1 hbyte)))
        simp [hstart, hbyte, hnext, hsub, hhigh, Nat.mul_comm start 8]
    · have hnext : ¬8 * (start + 1) ≤ j := by omega
      simp [hstart, hnext, Nat.mul_comm start 8]

/-- The bytes of a number, put together. -/
theorem foldl_toBytes {count n : ℕ} (h : n < 2 ^ (8 * count)) :
    (toBytes count n).zipIdx.foldl (fun value byte => value ||| byte.1.toNat <<< (byte.2 * 8)) 0 =
      n := by
  refine Nat.eq_of_testBit_eq fun j => ?_
  rw [testBit_foldl, Nat.zero_testBit, Bool.false_or, Nat.mul_zero, Nat.sub_zero,
    decide_eq_true (Nat.zero_le j), Bool.true_and]
  by_cases hj : j < 8 * count
  · exact bitAt_toBytes hj
  · have hhigh : n.testBit j = false :=
      Nat.testBit_lt_two_pow (h.trans_le (Nat.pow_le_pow_right (by decide) (Nat.not_lt.1 hj)))
    have hnone : (toBytes count n)[j / 8]? = none :=
      List.getElem?_eq_none (by rw [length_toBytes]; omega)
    rw [hhigh, bitAt, hnone]
    simp

end Tabulark.BitPacking
