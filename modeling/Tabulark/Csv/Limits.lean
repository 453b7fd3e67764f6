import Tabulark.Csv.Pass
import Tabulark.Csv.Scanner

/-!
# Records within the limits

A limit is on a field or a record, while bytes are read one at a time: what an
open record has read is part of a record of the whole text, so it is within the
limits if that one is (`le_of_fits`).
-/

namespace Tabulark.Csv

variable {o : DelimitedOptions}

/-- A record within the limits. -/
def Fits (o : DelimitedOptions) (record : Record) : Prop :=
  record.length ≤ o.limits.maxColumns ∧ ∀ field ∈ record, field.length ≤ o.limits.maxFieldBytes

variable {p : OpenRecord}

/-- What an open record has read is part of the record it becomes. -/
theorem OpenRecord.exists_head {d : UInt8} (hl : p.lex.isBoundary = false) (input : List UInt8) :
    ∃ g rest more, p.records d input = (p.fields ++ (p.field ++ g) :: rest) :: more := by
  induction input generalizing p with
  | nil =>
    rw [records, feed, finish, if_neg (by simp [hl])]
    exact ⟨[], [], [], by simp⟩
  | cons c cs ih =>
    rw [records, feed, byte]
    cases hend : (p.lex.step d c).1.fieldEnd with
    | none =>
      obtain ⟨g, rest, more, h⟩ := ih (p := ⟨(p.lex.step d c).1,
        p.field ++ (p.lex.step d c).2.toList, p.fields⟩) (LexState.not_isBoundary_step hl hend)
      exact ⟨(p.lex.step d c).2.toList ++ g, rest, more, by rw [← List.append_assoc]; exact h⟩
    | some recordEnd =>
      cases recordEnd with
      | false =>
        obtain ⟨g, rest, more, h⟩ := ih (p := ⟨(p.lex.step d c).1, [],
          p.fields ++ [p.field ++ (p.lex.step d c).2.toList]⟩)
          (LexState.not_isBoundary_of_fieldEnd hend)
        refine ⟨(p.lex.step d c).2.toList, g :: rest, more, ?_⟩
        rw [List.append_assoc] at h
        exact h
      | true => exact ⟨(p.lex.step d c).2.toList, [], _, rfl⟩

/-- A field that ends is part of a record. -/
theorem OpenRecord.exists_mem {d : UInt8} {c : UInt8} {recordEnd : Bool}
    (hend : (p.lex.step d c).1.fieldEnd = some recordEnd) (post : List UInt8) :
    ∃ rest, p.fields ++ (p.field ++ (p.lex.step d c).2.toList) :: rest ∈ p.records d (c :: post) ∧
      (recordEnd = true → rest = []) := by
  rw [records_cons, byte, hend]
  cases recordEnd with
  | true => exact ⟨[], List.mem_append_left _ List.mem_cons_self, fun _ => rfl⟩
  | false =>
    obtain ⟨g, rest, more, h⟩ := exists_head (d := d)
      (p := ⟨_, [], p.fields ++ [p.field ++ (p.lex.step d c).2.toList]⟩)
      (LexState.not_isBoundary_of_fieldEnd hend) post
    refine ⟨([] ++ g) :: rest, List.mem_append_right _ ?_,
      fun hfalse => absurd hfalse Bool.false_ne_true⟩
    dsimp only
    rw [h, List.append_assoc]
    exact List.mem_cons_self

/-- A byte of a record within the limits keeps to them. -/
theorem le_of_fits (hclean : p.Clean) {c : UInt8} {post : List UInt8}
    (hfits : ∀ record ∈ p.records o.delimiter (c :: post), Fits o record) :
    (p.field ++ (p.lex.step o.delimiter c).2.toList).length ≤ o.limits.maxFieldBytes ∧
      ((p.lex.step o.delimiter c).1.fieldEnd ≠ none →
        p.fields.length + 1 ≤ o.limits.maxColumns) := by
  cases hend : (p.lex.step o.delimiter c).1.fieldEnd with
  | none =>
    have hclean' := OpenRecord.clean_byte (d := o.delimiter) hclean c
    rw [OpenRecord.records_cons] at hfits
    rw [OpenRecord.byte] at hclean' hfits
    rw [hend] at hclean' hfits
    refine ⟨?_, fun h => absurd rfl h⟩
    cases hl : (p.lex.step o.delimiter c).1.isBoundary with
    | true =>
      have hnil := (hclean' hl).1
      dsimp only at hnil
      rw [hnil]
      exact Nat.zero_le _
    | false =>
      obtain ⟨g, rest, more, h⟩ := OpenRecord.exists_head (d := o.delimiter)
        (p := ⟨_, p.field ++ (p.lex.step o.delimiter c).2.toList, p.fields⟩) hl post
      have hrecord := (hfits _ (by
        rw [List.nil_append]
        dsimp only
        rw [h]
        exact List.mem_cons_self)).2 _ (List.mem_append_right _ List.mem_cons_self)
      rw [List.length_append] at hrecord
      exact (Nat.le_add_right _ _).trans hrecord
  | some recordEnd =>
    obtain ⟨rest, hmem, _⟩ := OpenRecord.exists_mem hend post
    obtain ⟨hcount, hfield⟩ := hfits _ hmem
    rw [List.length_append, List.length_cons] at hcount
    exact ⟨hfield _ (List.mem_append_right _ List.mem_cons_self), fun _ => by omega⟩

end Tabulark.Csv
