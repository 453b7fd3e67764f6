import Mathlib
import Tabulark.Model

/-!
# Building string columns

A column is built value by value: the bytes of all values, their end offsets
and one validity bit each. `StringColumnBuilder.Holds` says which values a
column holds, and `value_of_holds` that the finished column gives them back.
-/

namespace Tabulark

/-- A string column that rows are appended to. -/
structure StringColumnBuilder where
  columnId : String
  data : List UInt8 := []
  offsets : List ℕ := [0]
  validity : List UInt8 := []
  values : ℕ := 0

namespace StringColumnBuilder

/-- The validity bytes with room for one more value. -/
def growValidity (validity : List UInt8) (values : ℕ) : List UInt8 :=
  if validity.length ≤ values / 8 then validity ++ [0] else validity

/-- Appends one value, within the byte limit of the batch: the column, and the bytes of
    the batch so far. -/
def push (b : StringColumnBuilder) (value : Option (List UInt8)) (batchBytes maxBatchBytes : ℕ) :
    Result (StringColumnBuilder × ℕ) := do
  let overflow : TabularkError := .new .resourceLimit "batch byte length overflow"
  let validityByte := if b.values % 8 = 0 then 1 else 0
  let valueBytes := (value.map List.length).getD 0
  let encodedBytes ← checkedAdd usizeMax valueBytes 4 overflow
  let encodedBytes ← checkedAdd usizeMax encodedBytes validityByte overflow
  let newBatchBytes ← checkedAdd usizeMax batchBytes encodedBytes overflow
  if maxBatchBytes < newBatchBytes then
    .error (.new .resourceLimit "range response exceeds the configured byte limit")
  else
    let data := b.data ++ value.getD []
    let grown := growValidity b.validity b.values
    let validity := if value.isSome then grown.modify (b.values / 8) (setBit · (b.values % 8))
      else grown
    if u32Max < data.length then
      .error (.new .resourceLimit "one encoded string column exceeds the u32 offset limit")
    else .ok ({ b with
      data
      offsets := b.offsets ++ [data.length]
      validity
      values := b.values + 1 }, newBatchBytes)

/-- The finished column. -/
def finish (b : StringColumnBuilder) : Result StringColumnBatch :=
  StringColumnBatch.new b.columnId b.data b.offsets b.validity

/-- Validity bit number `i`. -/
def bit (validity : List UInt8) (i : ℕ) : Bool := bitSet (validity.getD (i / 8) 0) (i % 8)

/-- The bytes of some values, one after the other. -/
def flat (values : List (Option (List UInt8))) : List UInt8 :=
  (values.map fun value => value.getD []).flatten

theorem flat_append (xs ys : List (Option (List UInt8))) :
    flat (xs ++ ys) = flat xs ++ flat ys := by
  rw [flat, List.map_append, List.flatten_append]
  rfl

/-- The column holds these values. -/
structure Holds (b : StringColumnBuilder) (held : List (Option (List UInt8))) : Prop where
  values : b.values = held.length
  data : b.data = flat held
  offsets : b.offsets = (List.range (held.length + 1)).map fun i => (flat (held.take i)).length
  length_validity : b.validity.length = (held.length + 7) / 8
  validity : ∀ i, bit b.validity i = (held[i]?.join).isSome

theorem holds_nil (columnId : String) : Holds { columnId } [] where
  values := rfl
  data := rfl
  offsets := rfl
  length_validity := rfl
  validity _ := bitSet_zero _

/-- The bytes one more value takes in a batch. -/
def encodedBytes (values : ℕ) (value : Option (List UInt8)) : ℕ :=
  (value.getD []).length + 4 + if values % 8 = 0 then 1 else 0

theorem bit_append_zero (validity : List UInt8) (i : ℕ) :
    bit (validity ++ [0]) i = bit validity i := by
  rw [bit, bit, List.getD_eq_getElem?_getD, List.getD_eq_getElem?_getD, List.getElem?_append]
  split_ifs with h
  · rfl
  · rw [List.getElem?_eq_none (not_lt.1 h)]
    cases i / 8 - validity.length <;> rfl

theorem bit_modify {validity : List UInt8} {n : ℕ} (hn : n / 8 < validity.length) (i : ℕ) :
    bit (validity.modify (n / 8) (setBit · (n % 8))) i = (bit validity i || i == n) := by
  rw [bit, bit, List.getD_eq_getElem?_getD, List.getD_eq_getElem?_getD, List.getElem?_modify]
  by_cases h : n / 8 = i / 8
  · rw [← h, List.getElem?_eq_getElem hn]
    simp only [if_true, Option.map_eq_map, Option.map_some, Option.getD_some]
    rw [bitSet_setBit (Nat.mod_lt _ (by decide)) (Nat.mod_lt _ (by decide))]
    congr 1
    rw [Bool.eq_iff_iff, beq_iff_eq, beq_iff_eq]
    omega
  · have hne : (i == n) = false := by
      rw [beq_eq_false_iff_ne]
      rintro rfl
      exact h rfl
    simp [h, hne]

/-- The column with one more value. -/
def pushed (b : StringColumnBuilder) (value : Option (List UInt8)) : StringColumnBuilder :=
  let grown := growValidity b.validity b.values
  { b with
    data := b.data ++ value.getD []
    offsets := b.offsets ++ [(b.data ++ value.getD []).length]
    validity :=
      if value.isSome then grown.modify (b.values / 8) (setBit · (b.values % 8)) else grown
    values := b.values + 1 }

/-- A value that was pushed within the limits. -/
theorem push_eq_ok {b b' : StringColumnBuilder} {value : Option (List UInt8)}
    {batchBytes maxBatchBytes n : ℕ} (h : b.push value batchBytes maxBatchBytes = .ok (b', n)) :
    b' = b.pushed value ∧ n = batchBytes + encodedBytes b.values value ∧ n ≤ maxBatchBytes := by
  have hvalue : (value.map List.length).getD 0 = (value.getD []).length := by cases value <;> rfl
  obtain ⟨offset, hoffset, h⟩ := Result.bind_eq_ok.1 h
  obtain ⟨encoded, hencoded, h⟩ := Result.bind_eq_ok.1 h
  obtain ⟨total, htotal, h⟩ := Result.bind_eq_ok.1 h
  have hsum : total = batchBytes + encodedBytes b.values value := by
    rw [(checkedAdd_eq_ok.1 htotal).2, (checkedAdd_eq_ok.1 hencoded).2,
      (checkedAdd_eq_ok.1 hoffset).2, hvalue, encodedBytes]
  by_cases hle : maxBatchBytes < total
  · rw [if_pos hle] at h
    cases h
  rw [if_neg hle] at h
  dsimp only at h
  by_cases hdata : u32Max < (b.data ++ value.getD []).length
  · rw [if_pos hdata] at h
    cases h
  · rw [if_neg hdata] at h
    cases h
    exact ⟨rfl, hsum, not_lt.1 hle⟩

variable {held : List (Option (List UInt8))} {b : StringColumnBuilder}

/-- A pushed value is held. -/
theorem holds_pushed (h : b.Holds held) (value : Option (List UInt8)) :
    (b.pushed value).Holds (held ++ [value]) := by
  have hflat : b.data ++ value.getD [] = flat (held ++ [value]) := by
    rw [h.data, flat_append]
    simp [flat]
  rw [pushed, h.values, hflat]
  -- The byte of the new bit is there.
  have hgrown : (growValidity b.validity held.length).length = held.length / 8 + 1 := by
    have hvalidity := h.length_validity
    rw [growValidity]
    split_ifs with hle
    · rw [List.length_append, List.length_singleton]
      omega
    · omega
  have hbits : ∀ i, bit (growValidity b.validity held.length) i = (held[i]?.join).isSome := by
    intro i
    rw [← h.validity, growValidity]
    split_ifs
    · exact bit_append_zero _ _
    · rfl
  refine ⟨?_, rfl, ?_, ?_, ?_⟩
  · rw [List.length_append]
    rfl
  · have hold : b.offsets = (List.range (held.length + 1)).map fun i =>
        (flat ((held ++ [value]).take i)).length := by
      rw [h.offsets]
      refine List.map_congr_left fun i hi => ?_
      rw [List.take_append_of_le_length (by
        rw [List.mem_range] at hi
        omega)]
    dsimp only
    rw [hold, List.length_append, List.length_singleton, List.range_succ (n := held.length + 1),
      List.map_append, List.map_singleton,
      List.take_of_length_le (i := held.length + 1) (by rw [List.length_append]; exact le_rfl)]
  · have hlen : (held ++ [value]).length = held.length + 1 := List.length_append
    change List.length (if value.isSome then _ else _) = _
    rw [hlen]
    split_ifs
    · rw [List.length_modify, hgrown]
      omega
    · rw [hgrown]
      omega
  · intro i
    rw [List.getElem?_append]
    cases value with
    | none =>
      rw [if_neg (by simp), hbits]
      split_ifs with hi
      · rfl
      · rw [List.getElem?_eq_none (not_lt.1 hi)]
        cases i - held.length <;> rfl
    | some bytes =>
      change bit ((growValidity b.validity held.length).modify _ _) i = _
      rw [bit_modify (by rw [hgrown]; omega), hbits]
      split_ifs with hi
      · rw [beq_false_of_ne hi.ne, Bool.or_false]
      · rw [List.getElem?_eq_none (not_lt.1 hi)]
        by_cases hn : i = held.length
        · subst hn
          simp
        · obtain ⟨k, hk⟩ := Nat.exists_eq_succ_of_ne_zero (show i - held.length ≠ 0 by omega)
          rw [hk, beq_false_of_ne hn]
          rfl

/-- Within the limits, a value is pushed. -/
theorem push_of_holds
    (h : b.Holds held) {value : Option (List UInt8)} {batchBytes maxBatchBytes : ℕ}
    (hbatch : batchBytes + encodedBytes held.length value ≤ maxBatchBytes)
    (hmax : maxBatchBytes ≤ usizeMax) (hdata : b.data.length ≤ batchBytes) :
    ∃ b', b.push value batchBytes maxBatchBytes =
        .ok (b', batchBytes + encodedBytes held.length value) ∧
      b'.Holds (held ++ [value]) ∧
      b'.data.length ≤ batchBytes + encodedBytes held.length value := by
  have hlength : (b.data ++ value.getD []).length = b.data.length + (value.getD []).length :=
    List.length_append
  have hvalue : (value.map List.length).getD 0 = (value.getD []).length := by cases value <;> rfl
  have hu32 : usizeMax = u32Max := rfl
  rw [encodedBytes] at hbatch
  rw [push, hvalue, h.values, encodedBytes]
  dsimp only
  rw [checkedAdd_of_le (by omega), Result.ok_bind, checkedAdd_of_le (by omega), Result.ok_bind,
    checkedAdd_of_le (by omega), Result.ok_bind, if_neg (by omega), if_neg (by omega)]
  refine ⟨_, rfl, ?_, by dsimp only; omega⟩
  have hpushed := holds_pushed h value
  rw [pushed, h.values] at hpushed
  exact hpushed

theorem flat_take_le (held : List (Option (List UInt8))) (i : ℕ) :
    (flat (held.take i)).length ≤ (flat (held.take (i + 1))).length := by
  rw [List.take_add_one, flat_append, List.length_append]
  exact Nat.le_add_right _ _

/-- A finished column gives back the values it holds. -/
theorem finish_of_holds
    (h : b.Holds held) (hutf8 : ∀ bytes, some bytes ∈ held → Utf8.isValid bytes) :
    ∃ batch, b.finish = .ok batch ∧ batch.len = held.length ∧
      ∀ i, i < held.length → batch.value i = held[i]? := by
  have hhead : b.offsets.head? = some 0 := by
    rw [h.offsets, List.range_succ_eq_map, List.map_cons, List.head?_cons]
    rfl
  have hchain : b.offsets.IsChain (· ≤ ·) := by
    rw [h.offsets, List.isChain_iff_getElem]
    intro i hi
    rw [List.getElem_map, List.getElem_map, List.getElem_range, List.getElem_range]
    exact flat_take_le held i
  have hlast : b.offsets.getLast? = some b.data.length := by
    rw [h.offsets, List.range_succ, List.map_append, List.map_singleton, List.getLast?_concat,
      List.take_length, h.data]
  have hlength : b.offsets.length = held.length + 1 := by
    rw [h.offsets, List.length_map, List.length_range]
  have hvalidity : b.validity.length = (b.offsets.length - 1 + 7) / 8 := by
    rw [hlength, h.length_validity]
    rfl
  have hdata : Utf8.isValid b.data := by
    rw [h.data]
    refine Utf8.isValid_flatten fun bytes hbytes => ?_
    obtain ⟨value, hvalue, rfl⟩ := List.mem_map.1 hbytes
    cases value with
    | none => exact Utf8.isValid_nil
    | some bytes => exact hutf8 bytes hvalue
  have hoffset : ∀ i, i ≤ held.length → b.offsets.getD i 0 = (flat (held.take i)).length := by
    intro i hi
    rw [h.offsets, List.getD_eq_getElem?_getD, List.getElem?_map, List.getElem?_range (by omega)]
    rfl
  refine ⟨⟨b.columnId, b.data, b.offsets, b.validity, hhead, hchain, hlast, hvalidity, hdata⟩, ?_,
    ?_, ?_⟩
  · rw [finish, StringColumnBatch.new, dif_pos hhead, dif_pos hchain, dif_pos hlast,
      dif_pos hvalidity, dif_pos hdata]
  · rw [StringColumnBatch.len]
    exact (congrArg (· - 1) hlength)
  · intro i hi
    have hbit := h.validity i
    rw [List.getElem?_eq_getElem hi, Option.join_some] at hbit
    rw [StringColumnBatch.value, StringColumnBatch.len]
    dsimp only
    rw [if_neg (by omega), List.getElem?_eq_getElem hi]
    change bitSet _ _ = _ at hbit
    rw [hbit]
    cases hvalue : held[i] with
    | none => rfl
    | some bytes =>
      have hnext : held.take (i + 1) = held.take i ++ [some bytes] := by
        rw [List.take_add_one, List.getElem?_eq_getElem hi, hvalue]
        rfl
      have hsplit : b.data = flat (held.take i) ++ (bytes ++ flat (held.drop (i + 1))) :=
        calc b.data = flat (held.take (i + 1) ++ held.drop (i + 1)) := by
              rw [List.take_append_drop, h.data]
          _ = _ := by
              rw [hnext, flat_append, flat_append, List.append_assoc]
              simp [flat]
      have hone : flat [some bytes] = bytes := by simp [flat]
      have hmem : some bytes ∈ held := hvalue ▸ List.getElem_mem hi
      rw [hoffset i hi.le, hoffset (i + 1) hi, hsplit, List.drop_left, hnext, flat_append,
        List.length_append, Nat.add_sub_cancel_left, hone, List.take_left, if_pos (hutf8 _ hmem)]
      rfl

end StringColumnBuilder

end Tabulark
