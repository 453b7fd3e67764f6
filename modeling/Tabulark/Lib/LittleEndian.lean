import Mathlib

/-!
# Little-endian records

Numbers of a fixed width, least significant byte first (`digits`), and records of
such fields one after the other (`fields`). `slice_fields` finds a field of a
record by the widths of those before it.
-/

namespace Tabulark.LittleEndian

/-! ## Numbers -/

/-- The number that bytes write. -/
def number (bytes : List UInt8) : ℕ := bytes.foldr (fun b n => b.toNat + 256 * n) 0

/-- The bytes of a number, cut to a width. -/
def digits : ℕ → ℕ → List UInt8
  | 0, _ => []
  | w + 1, n => UInt8.ofNat n :: digits w (n / 256)

variable {w n k : ℕ}

@[simp] theorem length_digits (w n : ℕ) : (digits w n).length = w := by
  induction w generalizing n with
  | zero => rfl
  | succ w ih => exact congrArg (· + 1) (ih _)

/-- A number that fits is written whole. -/
theorem number_digits (h : n < 256 ^ w) : number (digits w n) = n := by
  induction w generalizing n with
  | zero => exact (Nat.lt_one_iff.1 h).symm
  | succ w ih =>
    have hrest : n / 256 < 256 ^ w := by
      rw [Nat.div_lt_iff_lt_mul (by decide)]
      exact h
    have hbyte : (UInt8.ofNat n).toNat = n % 256 := UInt8.toNat_ofNat'
    calc number (digits (w + 1) n)
        = (UInt8.ofNat n).toNat + 256 * number (digits w (n / 256)) := rfl
      _ = n % 256 + 256 * (n / 256) := by rw [hbyte, ih hrest]
      _ = n := Nat.mod_add_div n 256

/-- The first bytes of a number are those of the number cut to them. -/
theorem take_digits (hwk : w ≤ k) (n : ℕ) : (digits k n).take w = digits w n := by
  induction w generalizing k n with
  | zero => rfl
  | succ w ih =>
    cases k with
    | zero => exact absurd hwk (Nat.not_succ_le_zero w)
    | succ k => rw [digits, List.take_succ_cons, ih (Nat.le_of_succ_le_succ hwk), digits]

/-! ## Records -/

/-- Fields, each a width and a number. -/
def fields (fs : List (ℕ × ℕ)) : List UInt8 := fs.flatMap fun f => digits f.1 f.2

/-- Where a field starts, if the record starts at an offset. -/
def startOf (offset : ℕ) : List (ℕ × ℕ) → ℕ → ℕ
  | _, 0 => offset
  | [], _ + 1 => offset
  | f :: fs, k + 1 => startOf (offset + f.1) fs k

variable {fs : List (ℕ × ℕ)}

theorem length_fields (fs : List (ℕ × ℕ)) : (fields fs).length = (fs.map Prod.fst).sum := by
  rw [fields, List.length_flatMap]
  congr 1
  exact List.map_congr_left fun f _ => length_digits f.1 f.2

theorem startOf_eq (offset : ℕ) (fs : List (ℕ × ℕ)) (k : ℕ) :
    startOf offset fs k = offset + (fields (fs.take k)).length := by
  induction fs generalizing offset k with
  | nil => cases k <;> rfl
  | cons f fs ih =>
    cases k with
    | zero => rfl
    | succ k =>
      rw [startOf, ih, List.take_succ_cons, length_fields, length_fields, List.map_cons,
        List.sum_cons, Nat.add_assoc]

/-- A field of a record. -/
theorem slice_fields (before after : List UInt8) (h : fs[k]? = some (w, n)) :
    ((before ++ (fields fs ++ after)).drop (startOf before.length fs k)).take w = digits w n := by
  obtain ⟨hlt, hget⟩ := List.getElem?_eq_some_iff.1 h
  have hsplit : fields fs = fields (fs.take k) ++ (digits w n ++ fields (fs.drop (k + 1))) := by
    conv_lhs => rw [← List.take_append_drop k fs, List.drop_eq_getElem_cons hlt, hget]
    rw [fields, List.flatMap_append, List.flatMap_cons]
    rfl
  rw [hsplit, startOf_eq, ← List.length_append, ← List.append_assoc, ← List.append_assoc,
    ← List.append_assoc, List.append_assoc (before ++ _), List.append_assoc (before ++ _),
    List.drop_left, List.append_assoc]
  exact List.take_left' (length_digits w n)

/-- What stands between two parts. -/
theorem slice_append (before part after : List UInt8) :
    ((before ++ (part ++ after)).drop before.length).take part.length = part := by
  rw [List.drop_left, List.take_left]

end Tabulark.LittleEndian
