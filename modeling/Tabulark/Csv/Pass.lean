import Tabulark.Csv.Reader

/-!
# The sequential parse

What the machine makes of a whole source in one pass: the records, each the
list of its fields. This is the meaning of a delimited source, and what the
scanner's checkpoints and the range decoder are measured against.
-/

namespace Tabulark.Csv

/-- A record: the bytes of its fields. -/
abbrev Record : Type := List (List UInt8)

/-- The machine inside a record. -/
structure OpenRecord where
  lex : LexState
  field : List UInt8
  fields : Record
  deriving DecidableEq, Repr

namespace OpenRecord

/-- Before the first byte. -/
def start : OpenRecord := ⟨.startRecord, [], []⟩

/-- One byte: the record it completes, if any, and the record it leaves open. -/
def byte (d : UInt8) (p : OpenRecord) (c : UInt8) : List Record × OpenRecord :=
  let field := p.field ++ (p.lex.step d c).2.toList
  match (p.lex.step d c).1.fieldEnd with
  | none => ([], ⟨(p.lex.step d c).1, field, p.fields⟩)
  | some false => ([], ⟨(p.lex.step d c).1, [], p.fields ++ [field]⟩)
  | some true => ([p.fields ++ [field]], ⟨(p.lex.step d c).1, [], []⟩)

/-- A stretch of input: the records it completes and the one it leaves open. -/
def feed (d : UInt8) : OpenRecord → List UInt8 → List Record × OpenRecord
  | p, [] => ([], p)
  | p, c :: cs =>
    ((p.byte d c).1 ++ (feed d (p.byte d c).2 cs).1, (feed d (p.byte d c).2 cs).2)

/-- The record the end of the input completes. -/
def finish (p : OpenRecord) : List Record :=
  if p.lex.isBoundary then [] else [p.fields ++ [p.field]]

/-- All records from here to the end of the input. -/
def records (d : UInt8) (p : OpenRecord) (input : List UInt8) : List Record :=
  (p.feed d input).1 ++ (p.feed d input).2.finish

variable {d : UInt8}

theorem lex_byte (p : OpenRecord) (c : UInt8) : (p.byte d c).2.lex = (p.lex.step d c).1 := by
  rw [byte]
  cases (p.lex.step d c).1.fieldEnd with
  | none => rfl
  | some recordEnd => cases recordEnd <;> rfl

theorem feed_append (p : OpenRecord) (xs ys : List UInt8) :
    p.feed d (xs ++ ys) =
      ((p.feed d xs).1 ++ ((p.feed d xs).2.feed d ys).1, ((p.feed d xs).2.feed d ys).2) := by
  induction xs generalizing p with
  | nil => rfl
  | cons c cs ih => simp only [List.cons_append, feed, ih, List.append_assoc]

theorem feed_snoc (p : OpenRecord) (xs : List UInt8) (c : UInt8) :
    p.feed d (xs ++ [c]) =
      ((p.feed d xs).1 ++ ((p.feed d xs).2.byte d c).1, ((p.feed d xs).2.byte d c).2) := by
  rw [feed_append, feed, feed, List.append_nil]

theorem records_append (p : OpenRecord) (xs ys : List UInt8) :
    p.records d (xs ++ ys) = (p.feed d xs).1 ++ (p.feed d xs).2.records d ys := by
  rw [records, feed_append, records, List.append_assoc]

theorem records_cons (p : OpenRecord) (c : UInt8) (cs : List UInt8) :
    p.records d (c :: cs) = (p.byte d c).1 ++ (p.byte d c).2.records d cs := by
  rw [records, feed, records, List.append_assoc]

/-- Between two records nothing is open. -/
def Clean (p : OpenRecord) : Prop := p.lex.isBoundary → p.field = [] ∧ p.fields = []

theorem clean_start : start.Clean := fun _ => ⟨rfl, rfl⟩

variable {p : OpenRecord}

theorem clean_byte (h : p.Clean) (c : UInt8) : (p.byte d c).2.Clean := by
  intro hl
  rw [byte] at hl ⊢
  cases hend : (p.lex.step d c).1.fieldEnd with
  | some b =>
    cases b with
    | true => exact ⟨rfl, rfl⟩
    | false =>
      rw [hend] at hl
      have hl' := LexState.not_isBoundary_of_fieldEnd hend
      exact absurd (hl.symm.trans hl') (by decide)
  | none =>
    -- A blank line copies nothing.
    rw [hend] at hl
    obtain ⟨hb, hnone⟩ := LexState.isBoundary_of_step (LexState.eq_startRecord hl hend)
    obtain ⟨hfield, hfields⟩ := h hb
    exact ⟨by rw [hfield, hnone]; rfl, hfields⟩

theorem clean_feed (h : p.Clean) (xs : List UInt8) : (p.feed d xs).2.Clean := by
  induction xs generalizing p with
  | nil => exact h
  | cons c cs ih => exact ih (clean_byte h c)

/-- Between two records the parse completes what it completes from the start. -/
theorem feed_of_isBoundary (h : p.Clean) (hl : p.lex.isBoundary)
    (input : List UInt8) : (p.feed d input).1 = (start.feed d input).1 := by
  obtain ⟨hfield, hfields⟩ := h hl
  cases input with
  | nil => rfl
  | cons c cs =>
    have hbyte : p.byte d c = start.byte d c := by
      rw [byte, byte, LexState.step_of_isBoundary hl, hfield, hfields]
      rfl
    rw [feed, feed, hbyte]

/-- Between two records the parse goes on as from the start. -/
theorem records_of_isBoundary (h : p.Clean) (hl : p.lex.isBoundary)
    (input : List UInt8) : p.records d input = start.records d input := by
  obtain ⟨hfield, hfields⟩ := h hl
  cases input with
  | nil => rw [records, records, feed, feed, finish, finish, if_pos hl]; rfl
  | cons c cs =>
    have hbyte : p.byte d c = start.byte d c := by
      rw [byte, byte, LexState.step_of_isBoundary hl, hfield, hfields]
      rfl
    rw [records, records, feed, feed, hbyte]

/-- The number of records open here. -/
def opened (p : OpenRecord) : ℕ := if p.lex.isBoundary then 0 else 1

theorem length_finish (p : OpenRecord) : p.finish.length = p.opened := by
  rw [finish, opened]
  split_ifs <;> rfl

theorem length_byte_le (p : OpenRecord) (c : UInt8) :
    (p.byte d c).1.length + (p.byte d c).2.opened ≤ 1 := by
  rw [byte]
  cases hend : (p.lex.step d c).1.fieldEnd with
  | none =>
    rw [opened]
    split_ifs <;> simp
  | some b =>
    cases b with
    | false =>
      rw [opened]
      split_ifs <;> simp
    | true => rw [opened, if_pos (LexState.isBoundary_of_fieldEnd hend)]; rfl

theorem length_feed_le (p : OpenRecord) (xs : List UInt8) :
    (p.feed d xs).1.length + (p.feed d xs).2.opened ≤ xs.length + p.opened := by
  induction xs generalizing p with
  | nil => exact le_rfl
  | cons c cs ih =>
    have hbyte := length_byte_le (d := d) p c
    have hrest := ih (p.byte d c).2
    rw [feed, List.length_append, List.length_cons]
    dsimp only
    omega

end OpenRecord

/-- The records of a delimited text. -/
def records (d : UInt8) (input : List UInt8) : List Record := OpenRecord.start.records d input

/-- A record takes at least one byte. -/
theorem length_records_le (d : UInt8) (input : List UInt8) :
    (records d input).length ≤ input.length := by
  rw [records, OpenRecord.records, List.length_append, OpenRecord.length_finish]
  exact OpenRecord.length_feed_le OpenRecord.start input

/-! ## Record boundaries -/

/-- After `k` of the bytes of `pre` comes record number `n`. -/
structure RecordAt (d : UInt8) (pre : List UInt8) (k n : ℕ) : Prop where
  le : k ≤ pre.length
  isBoundary : (OpenRecord.start.feed d (pre.take k)).2.lex.isBoundary
  length : (OpenRecord.start.feed d (pre.take k)).1.length = n

namespace RecordAt

variable {d : UInt8} {pre : List UInt8} {k n : ℕ}

theorem append (h : RecordAt d pre k n) (more : List UInt8) : RecordAt d (pre ++ more) k n where
  le := by
    rw [List.length_append]
    exact Nat.le_add_right_of_le h.le
  isBoundary := by
    rw [List.take_append_of_le_length h.le]
    exact h.isBoundary
  length := by
    rw [List.take_append_of_le_length h.le]
    exact h.length

theorem zero (d : UInt8) (pre : List UInt8) : RecordAt d pre 0 0 := ⟨Nat.zero_le _, rfl, rfl⟩

/-- Between two records, the next one starts here. -/
theorem of_isBoundary {pre : List UInt8} (h : (OpenRecord.start.feed d pre).2.lex.isBoundary) :
    RecordAt d pre pre.length (OpenRecord.start.feed d pre).1.length := by
  refine ⟨le_rfl, ?_, ?_⟩
  · rwa [List.take_length]
  · rw [List.take_length]

/-- The records completed from the boundary on. -/
theorem feed_drop (h : RecordAt d pre k n) :
    (OpenRecord.start.feed d (pre.drop k)).1 = (OpenRecord.start.feed d pre).1.drop n := by
  have hall := OpenRecord.feed_append (d := d) OpenRecord.start (pre.take k) (pre.drop k)
  rw [List.take_append_drop] at hall
  rw [hall, ← h.length, List.drop_left,
    OpenRecord.feed_of_isBoundary (OpenRecord.clean_feed OpenRecord.clean_start _) h.isBoundary]

/-- The records from the boundary on. -/
theorem records_drop (h : RecordAt d pre k n) :
    records d (pre.drop k) = (records d pre).drop n := by
  have hall := OpenRecord.records_append (d := d) OpenRecord.start (pre.take k) (pre.drop k)
  rw [List.take_append_drop] at hall
  rw [records, records, hall, ← h.length, List.drop_left, OpenRecord.records_of_isBoundary
    (OpenRecord.clean_feed OpenRecord.clean_start _) h.isBoundary]

end RecordAt

end Tabulark.Csv
