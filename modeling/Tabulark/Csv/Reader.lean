import Tabulark.Error

/-!
# The incremental reader

`csv_core` parses one field at a time from whatever input slice it is given.
Its documented machine is a deterministic automaton on bytes
(`LexState.step`): fields end at the delimiter, records at `\r`, `\n` or
`\r\n`, blank lines are skipped, a field that opens with a quote runs to the
closing quote, and a doubled quote inside it stands for one quote.

The crate itself is not part of this repository. A `Reader` is any
implementation of the machine: how it buffers and where it stops for want of
output room is its own business, but every call consumes input along the
machine and stops at the first field end (`Steps`). A reader may also drop a
leading byte order mark when the first slice it is given holds all of it
(`dropsBom`); the documented machine does not.
-/

namespace Tabulark.Csv

/-- The UTF-8 byte order mark. -/
def utf8Bom : List UInt8 := [0xEF, 0xBB, 0xBF]

/-- The bytes the machine treats specially, besides the delimiter. -/
def cr : UInt8 := 13
def lf : UInt8 := 10
def quote : UInt8 := 34

/-- The states of the machine between two bytes. -/
inductive LexState
  | startRecord
  | inField
  | inQuotedField
  | inDoubleEscapedQuote
  | endFieldDelim
  | endRecord
  | crlf
  deriving DecidableEq, Repr

namespace LexState

/-- A byte of an unquoted field: the next state, and the byte copied to the field. -/
def fieldByte (delimiter c : UInt8) : LexState × Option UInt8 :=
  if c = delimiter then (endFieldDelim, none)
  else if c = cr then (crlf, none)
  else if c = lf then (endRecord, none)
  else (inField, some c)

/-- The first byte of a field. -/
def fieldStart (delimiter c : UInt8) : LexState × Option UInt8 :=
  if c = quote then (inQuotedField, none) else fieldByte delimiter c

/-- The first byte of a record: line terminators are blank lines. -/
def recordStart (delimiter c : UInt8) : LexState × Option UInt8 :=
  if c = cr ∨ c = lf then (startRecord, none) else fieldStart delimiter c

/-- The machine on one byte: the next state, and the byte copied to the field. -/
def step (delimiter : UInt8) : LexState → UInt8 → LexState × Option UInt8
  | startRecord, c => recordStart delimiter c
  | endRecord, c => recordStart delimiter c
  -- The `\n` of a `\r\n` is skipped as a blank line is.
  | crlf, c => recordStart delimiter c
  | endFieldDelim, c => fieldStart delimiter c
  | inField, c => fieldByte delimiter c
  | inQuotedField, c =>
    if c = quote then (inDoubleEscapedQuote, none) else (inQuotedField, some c)
  | inDoubleEscapedQuote, c =>
    if c = quote then (inQuotedField, some c) else fieldByte delimiter c

/-- Whether a field ends in this state, and with it the record. -/
def fieldEnd : LexState → Option Bool
  | endFieldDelim => some false
  | endRecord => some true
  | crlf => some true
  | _ => none

/-- Whether the state lies between two records. -/
def isBoundary : LexState → Bool
  | startRecord => true
  | endRecord => true
  | crlf => true
  | _ => false

variable {l : LexState}

/-- Between two records, the machine does not remember how the last one ended. -/
theorem step_of_isBoundary (hl : l.isBoundary) (d c : UInt8) :
    l.step d c = recordStart d c := by
  cases l <;> first | rfl | cases hl

theorem fieldByte_ne_startRecord (d c : UInt8) : (fieldByte d c).1 ≠ startRecord := by
  rw [fieldByte]
  split_ifs <;> exact nofun

theorem fieldStart_ne_startRecord (d c : UInt8) : (fieldStart d c).1 ≠ startRecord := by
  rw [fieldStart]
  split_ifs
  · exact nofun
  · exact fieldByte_ne_startRecord d c

/-- Only a line terminator between two records leaves the machine there. -/
theorem isBoundary_of_step {d c : UInt8} (h : (l.step d c).1 = startRecord) :
    l.isBoundary ∧ (l.step d c).2 = none := by
  have hrecord : (recordStart d c).1 = startRecord → (recordStart d c).2 = none := by
    intro h
    rw [recordStart] at h ⊢
    split_ifs at h ⊢
    · rfl
    · exact absurd h (fieldStart_ne_startRecord d c)
  cases l with
  | startRecord => exact ⟨rfl, hrecord h⟩
  | endRecord => exact ⟨rfl, hrecord h⟩
  | crlf => exact ⟨rfl, hrecord h⟩
  | endFieldDelim => exact absurd h (fieldStart_ne_startRecord d c)
  | inField => exact absurd h (fieldByte_ne_startRecord d c)
  | inQuotedField =>
    rw [step] at h
    split_ifs at h
  | inDoubleEscapedQuote =>
    rw [step] at h
    split_ifs at h
    exact absurd h (fieldByte_ne_startRecord d c)

theorem eq_startRecord (hb : l.isBoundary) (he : l.fieldEnd = none) :
    l = startRecord := by
  cases l with
  | startRecord => rfl
  | endRecord => cases he
  | crlf => cases he
  | _ => cases hb

/-- Inside a record, a byte stays in it or completes it. -/
theorem not_isBoundary_step {d c : UInt8} (hl : l.isBoundary = false)
    (hend : (l.step d c).1.fieldEnd = none) : (l.step d c).1.isBoundary = false := by
  rw [Bool.eq_false_iff]
  intro hb
  have hstart := (isBoundary_of_step (eq_startRecord hb hend)).1
  rw [hl] at hstart
  cases hstart

theorem not_isBoundary_of_fieldEnd (h : l.fieldEnd = some false) :
    l.isBoundary = false := by
  cases l with
  | endFieldDelim => rfl
  | _ => cases h

theorem isBoundary_of_fieldEnd (hl : l.fieldEnd = some true) : l.isBoundary := by
  cases l <;> first | rfl | cases hl

end LexState

/-- What one call of the reader found. -/
inductive ReadFieldResult
  | inputEmpty
  | outputFull
  | field (recordEnd : Bool)
  | done
  deriving DecidableEq, Repr

/-- The outcome of one call of the reader. -/
structure ReadField (σ : Type) where
  result : ReadFieldResult
  consumed : ℕ
  output : List UInt8
  state : σ

/-- The machine goes from `l` to `l'` over a non-empty input, copying `out`,
    and no field ends before the last byte. -/
inductive Steps (d : UInt8) : LexState → List UInt8 → List UInt8 → LexState → Prop
  | last (l : LexState) (c : UInt8) : Steps d l [c] (l.step d c).2.toList (l.step d c).1
  | cons {l l' : LexState} {c : UInt8} {cs out : List UInt8} :
    (l.step d c).1.fieldEnd = none → Steps d (l.step d c).1 cs out l' →
    Steps d l (c :: cs) ((l.step d c).2.toList ++ out) l'

/-- A call that reads `n` bytes of `input` along the machine. -/
structure Reads (d : UInt8) (l : LexState) (input : List UInt8) (n : ℕ)
    (result : ReadFieldResult) (out : List UInt8) (l' : LexState) : Prop where
  le : n ≤ input.length
  steps : Steps d l (input.take n) out l'
  result_eq : result = match l'.fieldEnd with
    | some recordEnd => .field recordEnd
    | none => if n = input.length then .inputEmpty else .outputFull

/-- An implementation of the machine with the delimiter `d`. -/
structure Reader (d : UInt8) where
  State : Type
  fresh : State
  /-- The state of the machine. -/
  lex : State → LexState
  /-- Whether the reader was called before. -/
  hasRead : State → Bool
  /-- Whether a leading byte order mark in the first slice is dropped. -/
  dropsBom : Bool
  /-- Reads from an input slice into an output buffer of the given size. -/
  readField : State → List UInt8 → ℕ → ReadField State
  lex_fresh : lex fresh = .startRecord
  hasRead_fresh : hasRead fresh = false
  hasRead_readField : ∀ st input cap, hasRead (readField st input cap).state = true
  reads : ∀ st input cap, input ≠ [] → 0 < cap →
    ¬(dropsBom = true ∧ hasRead st = false ∧ utf8Bom <+: input) →
    Reads d (lex st) input (readField st input cap).consumed (readField st input cap).result
      (readField st input cap).output (lex (readField st input cap).state)
  reads_bom : ∀ st rest cap, dropsBom = true → hasRead st = false → rest ≠ [] → 0 < cap →
    ∃ n, (readField st (utf8Bom ++ rest) cap).consumed = 3 + n ∧
      Reads d (lex st) rest n (readField st (utf8Bom ++ rest) cap).result
        (readField st (utf8Bom ++ rest) cap).output
        (lex (readField st (utf8Bom ++ rest) cap).state)
  /-- A first slice that is the mark alone is dropped whole; whether the reader
      then reports more input wanted or its end is not documented. -/
  reads_bom_alone : ∀ st cap, dropsBom = true → hasRead st = false → 0 < cap →
    (readField st utf8Bom cap).consumed = 3 ∧ (readField st utf8Bom cap).output = [] ∧
      lex (readField st utf8Bom cap).state = lex st ∧
      ((readField st utf8Bom cap).result = .inputEmpty ∨
        (readField st utf8Bom cap).result = .done)
  /-- The empty slice is the end of the input: it ends an open record. -/
  reads_nil : ∀ st cap, (readField st [] cap).output = [] ∧ (readField st [] cap).consumed = 0 ∧
    if (lex st).isBoundary then (readField st [] cap).result = .done
    else (readField st [] cap).result = .field true ∧
      lex (readField st [] cap).state = .endRecord

/-! ## A reference reader -/

/-- The bytes one call reads: up to the first field end, the end of the input
    or the end of the output room. -/
def readBytes (d : UInt8) : LexState → List UInt8 → ℕ → ℕ × List UInt8 × LexState
  | l, [], _ => (0, [], l)
  | l, _ :: _, 0 => (0, [], l)
  | l, c :: cs, cap + 1 =>
    let (l', o) := l.step d c
    if l'.fieldEnd.isSome then (1, o.toList, l')
    else
      let (n, out, l'') := readBytes d l' cs (cap + 1 - o.toList.length)
      (n + 1, o.toList ++ out, l'')

theorem readBytes_fst_le (d : UInt8) (l : LexState) (input : List UInt8) (cap : ℕ) :
    (readBytes d l input cap).1 ≤ input.length := by
  induction input generalizing l cap with
  | nil => simp [readBytes]
  | cons c cs ih =>
    cases cap with
    | zero => simp [readBytes]
    | succ cap =>
      simp only [readBytes, List.length_cons]
      split_ifs with h
      · omega
      · exact Nat.succ_le_succ (ih _ _)

variable {input : List UInt8}

theorem readBytes_eq_zero {d : UInt8} {l : LexState} {cap : ℕ}
    (h : (readBytes d l input cap).1 = 0) :
    (readBytes d l input cap).2.1 = [] ∧ (readBytes d l input cap).2.2 = l := by
  cases input with
  | nil => exact ⟨rfl, rfl⟩
  | cons c cs =>
    cases cap with
    | zero => exact ⟨rfl, rfl⟩
    | succ cap =>
      simp only [readBytes] at h
      split_ifs at h

theorem steps_readBytes (d : UInt8) (l : LexState) (input : List UInt8) (cap : ℕ)
    (h : (readBytes d l input cap).1 ≠ 0) :
    Steps d l (input.take (readBytes d l input cap).1) (readBytes d l input cap).2.1
      (readBytes d l input cap).2.2 := by
  induction input generalizing l cap with
  | nil => exact absurd rfl h
  | cons c cs ih =>
    cases cap with
    | zero => exact absurd rfl h
    | succ cap =>
      simp only [readBytes]
      split_ifs with hend
      · exact .last l c
      · rw [Option.not_isSome_iff_eq_none] at hend
        rw [List.take_succ_cons]
        by_cases hn : (readBytes d (l.step d c).1 cs
            (cap + 1 - (l.step d c).2.toList.length)).1 = 0
        · -- No room or no input is left: the byte is the last one of the call.
          obtain ⟨hout, hl⟩ := readBytes_eq_zero hn
          rw [hn, hout, hl, List.take_zero, List.append_nil]
          exact .last l c
        · exact .cons hend (ih _ _ hn)

theorem readBytes_ne_zero (d : UInt8) (l : LexState) {cap : ℕ}
    (hi : input ≠ []) (hcap : 0 < cap) : (readBytes d l input cap).1 ≠ 0 := by
  cases input with
  | nil => exact absurd rfl hi
  | cons c cs =>
    cases cap with
    | zero => exact absurd hcap (lt_irrefl 0)
    | succ cap =>
      simp only [readBytes]
      split_ifs <;> simp

/-- One call of the reference reader on a non-empty slice. -/
def readSlice (d : UInt8) (l : LexState) (input : List UInt8) (cap : ℕ) :
    ReadField (LexState × Bool) :=
  let (n, out, l') := readBytes d l input cap
  { result := match l'.fieldEnd with
      | some recordEnd => .field recordEnd
      | none => if n = input.length then .inputEmpty else .outputFull
    consumed := n
    output := out
    state := (l', true) }

theorem reads_readSlice (d : UInt8) (l : LexState) {cap : ℕ} (hi : input ≠ []) (hcap : 0 < cap) :
    Reads d l input (readSlice d l input cap).consumed (readSlice d l input cap).result
      (readSlice d l input cap).output (readSlice d l input cap).state.1 where
  le := readBytes_fst_le d l input cap
  steps := steps_readBytes d l input cap (readBytes_ne_zero d l hi hcap)
  result_eq := rfl

/-- The machine run directly, as a reader that drops a leading mark if asked to. -/
def Reader.reference (d : UInt8) (dropsBom : Bool) : Reader d where
  State := LexState × Bool
  fresh := (.startRecord, false)
  lex := Prod.fst
  hasRead := Prod.snd
  dropsBom
  readField := fun (l, hasRead) input cap =>
    match input with
    | [] =>
        if l.isBoundary then ⟨.done, 0, [], (l, true)⟩
        else ⟨.field true, 0, [], (.endRecord, true)⟩
    | c :: cs =>
      if dropsBom && !hasRead && utf8Bom.isPrefixOf (c :: cs) then
        match (c :: cs).drop 3 with
        | [] => ⟨.done, 3, [], (l, true)⟩
        | b :: bs =>
          let read := readSlice d l (b :: bs) cap
          { read with consumed := 3 + read.consumed }
      else readSlice d l (c :: cs) cap
  lex_fresh := rfl
  hasRead_fresh := rfl
  hasRead_readField st input cap := by
    obtain ⟨l, r⟩ := st
    dsimp only
    split
    · split_ifs <;> rfl
    · split_ifs
      · split <;> rfl
      · rfl
  reads st input cap hi hcap hdrop := by
    obtain ⟨l, r⟩ := st
    cases input with
    | nil => exact absurd rfl hi
    | cons c cs =>
      have hcond : (dropsBom && !r && utf8Bom.isPrefixOf (c :: cs)) = false := by
        rw [Bool.eq_false_iff]
        intro h
        rw [Bool.and_eq_true, Bool.and_eq_true, Bool.not_eq_true', List.isPrefixOf_iff_prefix] at h
        exact hdrop ⟨h.1.1, h.1.2, h.2⟩
      simp only [hcond]
      exact reads_readSlice d l (List.cons_ne_nil c cs) hcap
  reads_bom st rest cap hb hr hrest hcap := by
    obtain ⟨l, r⟩ := st
    cases rest with
    | nil => exact absurd rfl hrest
    | cons b bs =>
      cases hr
      cases hb
      exact ⟨(readSlice d l (b :: bs) cap).consumed, rfl,
        reads_readSlice d l (List.cons_ne_nil b bs) hcap⟩
  reads_bom_alone st cap hb hr hcap := by
    obtain ⟨l, r⟩ := st
    cases hr
    cases hb
    exact ⟨rfl, rfl, rfl, .inr rfl⟩
  reads_nil st cap := by
    obtain ⟨l, r⟩ := st
    dsimp only
    split_ifs with h
    · exact ⟨rfl, rfl, by simp⟩
    · exact ⟨rfl, rfl, rfl, rfl⟩

end Tabulark.Csv
