import Tabulark.Csv.Scanner

/-!
# What a scan reports

A strict and a lenient scan do the same to the index and differ only in what
they do with a diagnostic. `Emit` separates the two: the diagnostics a step
reports, in order, and then its outcome. The scanner's operations are the runs
of such steps (`bytes_eq_run`), so the index does not depend on the mode, and
the diagnostics of a scan are those of its steps, one after the other.
-/

namespace Tabulark.Csv

/-- The diagnostics a step reports, and its outcome after the last of them. -/
structure Emit (α : Type) where
  events : List CsvDiagnostic
  result : Result α

namespace Emit

variable {α β : Type}

/-- A silent step. -/
def silent (result : Result α) : Emit α := ⟨[], result⟩

/-- One step after another, which a failed step prevents. -/
def bind (m : Emit α) (f : α → Emit β) : Emit β :=
  match m.result with
  | .ok a => ⟨m.events ++ (f a).events, (f a).result⟩
  | .error e => ⟨m.events, .error e⟩

/-- Handles diagnostics in order. -/
def handleAll (o : DelimitedOptions) (diagnostics events : List CsvDiagnostic) :
    Result (List CsvDiagnostic) :=
  events.foldlM (handleDiagnostic o) diagnostics

/-- What a scan with these options does with a step. -/
def run (o : DelimitedOptions) (diagnostics : List CsvDiagnostic) (m : Emit α) :
    Result (α × List CsvDiagnostic) := do
  let diagnostics ← handleAll o diagnostics m.events
  let a ← m.result
  .ok (a, diagnostics)

@[simp] theorem bind_mk_ok (events : List CsvDiagnostic) (a : α) (f : α → Emit β) :
    (Emit.mk events (.ok a)).bind f = ⟨events ++ (f a).events, (f a).result⟩ := rfl

@[simp] theorem bind_mk_error (events : List CsvDiagnostic) (e : TabularkError) (f : α → Emit β) :
    (Emit.mk events (.error e)).bind f = ⟨events, .error e⟩ := rfl

theorem handleAll_append (o : DelimitedOptions) (diagnostics xs ys : List CsvDiagnostic) :
    handleAll o diagnostics (xs ++ ys) =
      handleAll o diagnostics xs >>= fun diagnostics => handleAll o diagnostics ys :=
  List.foldlM_append

theorem run_bind (o : DelimitedOptions) (diagnostics : List CsvDiagnostic) (m : Emit α)
    (f : α → Emit β) :
    (m.bind f).run o diagnostics = m.run o diagnostics >>= fun p => (f p.1).run o p.2 := by
  obtain ⟨events, result⟩ := m
  cases result with
  | error e =>
    rw [bind_mk_error, run, run]
    cases handleAll o diagnostics events <;> rfl
  | ok a =>
    rw [bind_mk_ok, run, run, handleAll_append]
    cases handleAll o diagnostics events <;> rfl

theorem run_eq_ok {o : DelimitedOptions} {diagnostics : List CsvDiagnostic} {m : Emit α}
    {p : α × List CsvDiagnostic} :
    m.run o diagnostics = .ok p ↔
      handleAll o diagnostics m.events = .ok p.2 ∧ m.result = .ok p.1 := by
  rw [run]
  constructor
  · intro h
    obtain ⟨ds, hds, h⟩ := Result.bind_eq_ok.1 h
    obtain ⟨a, ha, h⟩ := Result.bind_eq_ok.1 h
    cases h
    exact ⟨hds, ha⟩
  · rintro ⟨hds, ha⟩
    rw [hds, ha]
    rfl

theorem bind_assoc {γ : Type} (m : Emit α) (f : α → Emit β) (g : β → Emit γ) :
    (m.bind f).bind g = m.bind fun a => (f a).bind g := by
  obtain ⟨events, result⟩ := m
  cases result with
  | error e => rfl
  | ok a =>
    rw [bind_mk_ok, bind_mk_ok]
    cases hf : (f a).result with
    | error e => simp only [bind, hf]
    | ok b => simp only [bind, hf, List.append_assoc]

theorem bind_result (m : Emit α) (f : α → Emit β) :
    (m.bind f).result = m.result >>= fun a => (f a).result := by
  obtain ⟨events, result⟩ := m
  cases result <;> rfl

end Emit

/-! ## The scanner's steps -/

namespace ScanIndex

variable {o : DelimitedOptions}

/-- Appends to the unfinished field. -/
def appendField (x : ScanIndex o) (bytes : List UInt8) : Result (ScanIndex o) := do
  let field ← x.field.append bytes
    ((TabularkError.new .resourceLimit "CSV field exceeds the configured byte limit").withDetail
      "maxFieldBytes" (.number o.limits.maxFieldBytes))
  .ok { x with field }

/-- The diagnostic of an unfinished field. -/
def fieldEvents (x : ScanIndex o) : List CsvDiagnostic :=
  if Utf8.isValid x.field.1 then [] else [{
    kind := .invalidUtf8
    row := if x.headerPending then none else some x.rows
    byteOffset := x.recordStartOffset
    message := "field contains invalid UTF-8; replacement characters were used" }]

/-- The index after the field. -/
def closeField (x : ScanIndex o) : ScanIndex o :=
  { x with
    recordFields := x.recordFields + 1
    field := .empty o
    headerNames := if x.headerPending then x.headerNames ++ [Utf8.lossy x.field.1]
      else x.headerNames }

/-- Ends a field. -/
def finishField (x : ScanIndex o) : Emit (ScanIndex o) :=
  if usizeMax < x.recordFields + 1 then
    .silent (.error (.new .resourceLimit "CSV column count overflow"))
  else if o.limits.maxColumns < x.recordFields + 1 then
    .silent (.error ((TabularkError.new .resourceLimit
      "CSV record exceeds the configured column limit").withDetail
      "maxColumns" (.number o.limits.maxColumns)))
  else ⟨x.fieldEvents, .ok x.closeField⟩

/-- The diagnostic of a row with as many fields as were counted. -/
def rowEvents (x : ScanIndex o) (fields : ℕ) : List CsvDiagnostic :=
  if x.columns.isEmpty ∨ fields = x.columns.length then [] else [{
    kind := .raggedRow
    row := some x.rows
    byteOffset := x.recordStartOffset
    message := s!"row has {fields} fields but the current schema has {x.columns.length}" }]

/-- The index with the checkpoint that is due. -/
def withCheckpoint (x : ScanIndex o) : ScanIndex o :=
  { x with
    checkpoints := x.checkpoints ++
      if x.rows % o.checkpointInterval = 0 then [⟨x.rows, x.recordStartOffset⟩] else [] }

/-- The index with one more row. -/
def addRow (x : ScanIndex o) : Result (ScanIndex o) := do
  let rows ← checkedAdd u64Max x.rows 1 (.new .resourceLimit "CSV row count overflow")
  .ok { x with rows }

/-- The index after a data record. -/
def closeRow (x : ScanIndex o) (fields : ℕ) : Result (ScanIndex o) := do
  let x ← if x.columns.isEmpty ∨ x.columns.length < fields then
      x.withCheckpoint.ensureColumns fields none
    else .ok x.withCheckpoint
  x.addRow

/-- The index after the header. -/
def closeHeader (x : ScanIndex o) (fields : ℕ) : Result (ScanIndex o) := do
  let x ← { x with headerNames := [] }.ensureColumns fields (some x.headerNames)
  .ok { x with headerPending := false }

/-- The next record starts where the parser is. -/
def startRecord (x : ScanIndex o) : ScanIndex o := { x with recordStartOffset := x.parserOffset }

/-- Ends a record. -/
def finishRecord (x : ScanIndex o) : Emit (ScanIndex o) :=
  if x.headerPending then
    .silent (({ x with recordFields := 0 }.closeHeader x.recordFields).map startRecord)
  else ⟨x.rowEvents x.recordFields,
    ({ x with recordFields := 0 }.closeRow x.recordFields).map startRecord⟩

/-- Ends a field, and its record. -/
def endField (x : ScanIndex o) (recordEnd : Bool) : Emit (ScanIndex o) :=
  x.finishField.bind fun x => if recordEnd then x.finishRecord else .silent (.ok x)

/-- Follows the machine to the state `l`. -/
def enter (x : ScanIndex o) (l : LexState) : Emit (ScanIndex o) :=
  match l.fieldEnd with
  | some recordEnd => x.endField recordEnd
  | none => .silent (.ok x)

/-- The index after one more byte was read. -/
def advance (x : ScanIndex o) : ScanIndex o := { x with parserOffset := x.parserOffset + 1 }

/-- One byte. -/
def byte (l : LexState) (x : ScanIndex o) (c : UInt8) : Emit (LexState × ScanIndex o) :=
  (Emit.silent (x.appendField (l.step o.delimiter c).2.toList)).bind fun x =>
    (x.advance.enter (l.step o.delimiter c).1).bind fun x =>
      .silent (.ok ((l.step o.delimiter c).1, x))

/-- The bytes of a slice. -/
def bytes : LexState → ScanIndex o → List UInt8 → Emit (LexState × ScanIndex o)
  | l, x, [] => .silent (.ok (l, x))
  | l, x, c :: cs => (byte l x c).bind fun p => bytes p.1 p.2 cs

/-- The end of the input. -/
def eof (l : LexState) (x : ScanIndex o) : Emit (ScanIndex o) :=
  if l.isBoundary then .silent (.ok x) else x.endField true

theorem bytes_append (l : LexState) (x : ScanIndex o) (xs ys : List UInt8) :
    bytes l x (xs ++ ys) = (bytes l x xs).bind fun p => bytes p.1 p.2 ys := by
  induction xs generalizing l x with
  | nil => rfl
  | cons c cs ih => simp only [List.cons_append, bytes, ih, Emit.bind_assoc]

end ScanIndex

/-! ## The scanner runs its steps -/

variable {o : DelimitedOptions}

/-- The scan state of a run. -/
def ScanState.ofRun (p : ScanIndex o × List CsvDiagnostic) : ScanState o := ⟨p.1, p.2⟩

theorem Emit.run_silent {α : Type} (o : DelimitedOptions) (ds : List CsvDiagnostic)
    (r : Result α) : (Emit.silent r).run o ds = r.map fun a => (a, ds) := by
  cases r <;> rfl

theorem Emit.run_ok {α : Type} (o : DelimitedOptions) (ds events : List CsvDiagnostic) (a : α) :
    (Emit.mk events (.ok a)).run o ds = (handleAll o ds events).map fun ds => (a, ds) := by
  rw [run]
  cases handleAll o ds events <;> rfl

/-- A lenient scan retains diagnostics while there is room. -/
theorem Emit.handleAll_lenient (hmode : o.mode = .lenient) {ds : List CsvDiagnostic}
    (hds : ds.length ≤ o.limits.maxDiagnostics) (events : List CsvDiagnostic) :
    Emit.handleAll o ds events = .ok ((ds ++ events).take o.limits.maxDiagnostics) := by
  induction events generalizing ds with
  | nil => rw [List.append_nil, List.take_of_length_le hds]; rfl
  | cons d events ih =>
    rw [handleAll, List.foldlM_cons, handleDiagnostic, hmode]
    dsimp only
    split_ifs with hlt
    · have hnext := @ih (ds ++ [d]) (by rw [List.length_append]; exact hlt)
      rw [List.append_assoc] at hnext
      exact hnext
    · have hfull : ds.length = o.limits.maxDiagnostics := by omega
      have hnext := ih hds
      rw [← hfull, List.take_left] at hnext ⊢
      exact hnext

theorem Emit.run_lenient {α : Type} (hmode : o.mode = .lenient) (m : Emit α) :
    m.run o [] = m.result.map fun a => (a, m.events.take o.limits.maxDiagnostics) := by
  rw [run, handleAll_lenient hmode (Nat.zero_le _), List.nil_append, Result.ok_bind]
  cases m.result <;> rfl

theorem handleAll_singleton (ds : List CsvDiagnostic) (event : CsvDiagnostic) :
    Emit.handleAll o ds [event] = handleDiagnostic o ds event := by
  rw [Emit.handleAll, List.foldlM_cons]
  cases handleDiagnostic o ds event <;> rfl

namespace ScanState

theorem appendField_eq (x : ScanIndex o) (ds : List CsvDiagnostic) (bytes : List UInt8) :
    appendField ⟨x, ds⟩ bytes = (x.appendField bytes).map fun x => ⟨x, ds⟩ := by
  simp only [appendField, ScanIndex.appendField]
  cases x.field.append bytes _ <;> rfl

theorem finishField_eq (x : ScanIndex o) (ds : List CsvDiagnostic) :
    finishField ⟨x, ds⟩ = (x.finishField.run o ds).map ofRun := by
  rw [finishField, ScanIndex.finishField, checkedAdd]
  dsimp only
  by_cases hadd : x.recordFields + 1 ≤ usizeMax
  · rw [if_pos hadd, if_neg (not_lt.2 hadd), Result.ok_bind]
    by_cases hcol : o.limits.maxColumns < x.recordFields + 1
    · rw [if_pos hcol, if_pos hcol]
      rfl
    · rw [if_neg hcol, if_neg hcol, Emit.run_ok, ScanIndex.fieldEvents, ScanIndex.closeField]
      cases hvalid : Utf8.isValid x.field.1 with
      | true =>
        simp only [if_true, Result.ok_bind, Utf8.lossy_of_isValid hvalid]
        cases x.headerPending <;> rfl
      | false =>
        simp only [Bool.false_eq_true, if_false, handleAll_singleton, handleDiagnostic]
        cases Csv.handleDiagnostic o ds _ with
        | error e => rfl
        | ok ds' => cases x.headerPending <;> simp [ofRun, Except.map]
  · rw [if_neg hadd, if_pos (not_le.1 hadd)]
    rfl

theorem finishRow_eq (x : ScanIndex o) (ds : List CsvDiagnostic) (fields : ℕ) :
    finishRow ⟨x, ds⟩ fields =
      ((Emit.mk (x.rowEvents fields) (x.closeRow fields)).run o ds).map ofRun := by
  have hcheckpoint : (if x.rows % o.checkpointInterval = 0 then
      ({ index := { x with
          checkpoints := x.checkpoints ++ [⟨x.rows, x.recordStartOffset⟩] }
         diagnostics := ds } : ScanState o)
      else ⟨x, ds⟩) = ⟨x.withCheckpoint, ds⟩ := by
    rw [ScanIndex.withCheckpoint]
    split_ifs with hdue
    · rfl
    · rw [List.append_nil]
  have hcolumns : x.withCheckpoint.columns = x.columns := rfl
  have hrows : x.withCheckpoint.rows = x.rows := rfl
  have hstart : x.withCheckpoint.recordStartOffset = x.recordStartOffset := rfl
  have hadd : ∀ (x : ScanIndex o) (ds : List CsvDiagnostic), (do
      let rows ← checkedAdd u64Max x.rows 1 (.new .resourceLimit "CSV row count overflow")
      .ok ⟨{ x with rows }, ds⟩) = ((Emit.silent x.addRow).run o ds).map ofRun := by
    intro x ds
    rw [ScanIndex.addRow]
    cases checkedAdd u64Max x.rows 1 _ <;> rfl
  have hensure : ∀ (x : ScanIndex o) (ds : List CsvDiagnostic), (do
      let index ← x.ensureColumns fields none
      let s ← .ok (⟨index, ds⟩ : ScanState o)
      let rows ← checkedAdd u64Max s.index.rows 1 (.new .resourceLimit "CSV row count overflow")
      .ok ⟨{ s.index with rows }, s.diagnostics⟩) =
      ((Emit.silent (x.ensureColumns fields none >>= ScanIndex.addRow)).run o ds).map ofRun := by
    intro x ds
    cases x.ensureColumns fields none with
    | error e => rfl
    | ok x' => exact hadd x' ds
  rw [finishRow]
  dsimp only
  rw [hcheckpoint]
  dsimp only
  rw [hcolumns, hrows, hstart, ScanIndex.rowEvents, ScanIndex.closeRow]
  cases hempty : x.columns.isEmpty with
  | true =>
    simp only [if_true, true_or]
    exact hensure _ _
  | false =>
    simp only [Bool.false_eq_true, if_false, false_or]
    by_cases hfields : fields = x.columns.length
    · rw [if_neg (by simp [hfields]), if_pos hfields, if_neg (by omega)]
      exact hadd _ _
    · rw [if_pos hfields, if_neg hfields, Emit.run, handleAll_singleton, handleDiagnostic]
      cases Csv.handleDiagnostic o ds _ with
      | error e => rfl
      | ok ds' =>
        simp only [Result.ok_bind]
        by_cases hlt : x.columns.length < fields
        · rw [if_pos (by rwa [hcolumns]), if_pos hlt]
          exact hensure _ _
        · rw [if_neg (by rwa [hcolumns]), if_neg hlt]
          exact hadd _ _

theorem finishRecord_eq (x : ScanIndex o) (ds : List CsvDiagnostic) :
    finishRecord ⟨x, ds⟩ = (x.finishRecord.run o ds).map ofRun := by
  have hevents : { x with recordFields := 0 }.rowEvents x.recordFields =
      x.rowEvents x.recordFields := rfl
  rw [finishRecord, ScanIndex.finishRecord]
  dsimp only
  by_cases hp : x.headerPending = true
  · rw [if_pos hp, if_pos hp, Emit.run_silent, ScanIndex.closeHeader]
    cases ScanIndex.ensureColumns _ x.recordFields (some x.headerNames) <;> rfl
  · rw [if_neg hp, if_neg hp, finishRow_eq, Emit.run, Emit.run, hevents]
    cases Emit.handleAll o ds (x.rowEvents x.recordFields) with
    | error e => rfl
    | ok ds' => cases { x with recordFields := 0 }.closeRow x.recordFields <;> rfl

theorem endField_eq (x : ScanIndex o) (ds : List CsvDiagnostic) (recordEnd : Bool) :
    (scanHandler o).endField ⟨x, ds⟩ recordEnd = ((x.endField recordEnd).run o ds).map ofRun := by
  rw [Handler.endField, ScanIndex.endField, Emit.run_bind]
  change (finishField ⟨x, ds⟩ >>= _) = _
  rw [finishField_eq]
  cases x.finishField.run o ds with
  | error e => rfl
  | ok p =>
    cases recordEnd with
    | true => exact finishRecord_eq p.1 p.2
    | false => rfl

theorem enter_eq (x : ScanIndex o) (ds : List CsvDiagnostic) (l : LexState) :
    (scanHandler o).enter ⟨x, ds⟩ l = ((x.enter l).run o ds).map ofRun := by
  rw [Handler.enter, ScanIndex.enter]
  cases l.fieldEnd with
  | some recordEnd => exact endField_eq x ds recordEnd
  | none => rfl

/-- A state of the machine and the scan state of a run. -/
def ofRunAt (p : (LexState × ScanIndex o) × List CsvDiagnostic) : LexState × ScanState o :=
  (p.1.1, ⟨p.1.2, p.2⟩)

theorem byte_eq (l : LexState) (x : ScanIndex o) (ds : List CsvDiagnostic) (c : UInt8) :
    (scanHandler o).byte o.delimiter l ⟨x, ds⟩ c = ((x.byte l c).run o ds).map ofRunAt := by
  rw [Handler.byte, ScanIndex.byte, Emit.run_bind, Emit.run_silent]
  change (appendField ⟨x, ds⟩ _ >>= _) = _
  rw [appendField_eq]
  cases x.appendField (l.step o.delimiter c).2.toList with
  | error e => rfl
  | ok x' =>
    change ((scanHandler o).enter ⟨x'.advance, ds⟩ _ >>= _) = Except.map ofRunAt (Emit.run o ds _)
    rw [enter_eq, Emit.run_bind]
    cases (x'.advance.enter (l.step o.delimiter c).1).run o ds <;> rfl

/-- The scan of a slice is the run of its steps. -/
theorem bytes_eq (l : LexState) (x : ScanIndex o) (ds : List CsvDiagnostic)
    (input : List UInt8) :
    (scanHandler o).bytes o.delimiter l ⟨x, ds⟩ input =
      ((x.bytes l input).run o ds).map ofRunAt := by
  induction input generalizing l x ds with
  | nil => rfl
  | cons c cs ih =>
    have hdone : (scanHandler o).done ⟨x, ds⟩ = false := rfl
    rw [Handler.bytes, hdone, if_neg Bool.false_ne_true, byte_eq, ScanIndex.bytes, Emit.run_bind]
    cases (x.byte l c).run o ds with
    | error e => rfl
    | ok p => exact ih p.1.1 p.1.2 p.2

theorem appendField_nil (s : ScanState o) : s.appendField [] = .ok s := by
  rw [appendField, FieldBytes.append_nil]
  rfl

/-- The end of the file is a step too. -/
theorem eof_eq (l : LexState) (x : ScanIndex o) (ds : List CsvDiagnostic) :
    (scanHandler o).eof l ⟨x, ds⟩ = ((x.eof l).run o ds).map fun p => (false, ofRun p) := by
  have hnil : ∀ s, (scanHandler o).appendField s [] = .ok s := appendField_nil
  rw [Handler.eof, hnil, ScanIndex.eof, Result.ok_bind]
  split_ifs with hl
  · rfl
  · rw [endField_eq]
    cases (x.endField true).run o ds with
    | error e => rfl
    | ok p =>
      change ((scanHandler o).appendField (ofRun p) [] >>= _) = _
      rw [hnil]
      rfl

end ScanState

/-! ## The laws -/

namespace ScanIndex

theorem append_append (x : ScanIndex o) (xs ys : List UInt8) :
    (x.appendField xs >>= fun x => x.appendField ys) = x.appendField (xs ++ ys) := by
  rw [appendField, appendField, ← FieldBytes.append_append]
  cases x.field.append xs _ <;> rfl

variable {x x' : ScanIndex o}

theorem appendField_eq_ok {bytes : List UInt8}
    (h : x.appendField bytes = .ok x') : ∃ field, x' = { x with field } ∧
      field.1 = x.field.1 ++ bytes := by
  obtain ⟨field, hfield, h⟩ := Result.bind_eq_ok.1 h
  rw [FieldBytes.append] at hfield
  split_ifs at hfield
  cases hfield
  cases h
  exact ⟨_, rfl, rfl⟩

theorem finishField_eq_ok (h : x.finishField.result = .ok x') :
    x.recordFields + 1 ≤ o.limits.maxColumns ∧ x' = x.closeField := by
  rw [finishField] at h
  split_ifs at h with h1 h2
  · cases h
  · cases h
  · cases h
    exact ⟨not_lt.1 h2, rfl⟩

/-- The index after a data record of `fields` fields, if no limit is exceeded. -/
def nextRow (x : ScanIndex o) (fields : ℕ) : ScanIndex o :=
  { x.withCheckpoint.widen fields none with rows := x.rows + 1 }

/-- The index after the header, if no limit is exceeded. -/
def nextHeader (x : ScanIndex o) (fields : ℕ) : ScanIndex o :=
  { { x with headerNames := [] }.widen fields (some x.headerNames) with headerPending := false }

theorem closeRow_eq_ok {fields : ℕ} (h : x.closeRow fields = .ok x') :
    x' = x.nextRow fields := by
  have hwiden : (x.withCheckpoint.widen fields none).addRow = .ok x' := by
    rw [closeRow] at h
    split_ifs at h with hc
    · obtain ⟨x₁, h₁, h⟩ := Result.bind_eq_ok.1 h
      rwa [(ensureColumns_eq_ok h₁).2] at h
    · rw [not_or, not_lt] at hc
      rwa [widen_of_le (x := x.withCheckpoint) hc.2]
  obtain ⟨rows, hrows, h⟩ := Result.bind_eq_ok.1 hwiden
  rw [checkedAdd] at hrows
  split_ifs at hrows
  cases hrows
  cases h
  rfl

theorem closeHeader_eq_ok {fields : ℕ} (h : x.closeHeader fields = .ok x') :
    x' = x.nextHeader fields := by
  obtain ⟨x₁, h₁, h⟩ := Result.bind_eq_ok.1 h
  cases h
  rw [(ensureColumns_eq_ok h₁).2]
  rfl

/-- The index after a record, if no limit is exceeded. -/
def nextRecord (x : ScanIndex o) : ScanIndex o :=
  startRecord (if x.headerPending then { x with recordFields := 0 }.nextHeader x.recordFields
    else { x with recordFields := 0 }.nextRow x.recordFields)

theorem finishRecord_eq_ok (h : x.finishRecord.result = .ok x') :
    x' = x.nextRecord := by
  rw [finishRecord] at h
  rw [nextRecord]
  split_ifs at h ⊢ with hp
  · cases hc : { x with recordFields := 0 }.closeHeader x.recordFields with
    | error e =>
      rw [hc] at h
      cases h
    | ok x₁ =>
      rw [hc] at h
      cases h
      rw [closeHeader_eq_ok hc]
  · cases hc : { x with recordFields := 0 }.closeRow x.recordFields with
    | error e =>
      rw [hc] at h
      cases h
    | ok x₁ =>
      rw [hc] at h
      cases h
      rw [closeRow_eq_ok hc]

/-- The index after a field, and its record, if no limit is exceeded. -/
def nextField (x : ScanIndex o) (recordEnd : Bool) : ScanIndex o :=
  if recordEnd then x.closeField.nextRecord else x.closeField

theorem endField_eq_ok {recordEnd : Bool} (h : (x.endField recordEnd).result = .ok x') :
    x.recordFields + 1 ≤ o.limits.maxColumns ∧ x' = x.nextField recordEnd := by
  rw [endField, Emit.bind_result] at h
  obtain ⟨x₁, h₁, h⟩ := Result.bind_eq_ok.1 h
  obtain ⟨hmax, rfl⟩ := finishField_eq_ok h₁
  refine ⟨hmax, ?_⟩
  cases recordEnd with
  | true => exact finishRecord_eq_ok h
  | false => exact (Except.ok.inj h).symm

/-- The index one byte on, if no limit is exceeded. -/
def nextByte (x : ScanIndex o) (l : LexState) (field : FieldBytes o) : ScanIndex o :=
  match l.fieldEnd with
  | some recordEnd => { x with field }.advance.nextField recordEnd
  | none => { x with field }.advance

theorem byte_eq_ok {l l' : LexState} {c : UInt8} (h : (x.byte l c).result = .ok (l', x')) :
    l' = (l.step o.delimiter c).1 ∧
    (l'.fieldEnd ≠ none → x.recordFields + 1 ≤ o.limits.maxColumns) ∧
      ∃ field : FieldBytes o, field.1 = x.field.1 ++ (l.step o.delimiter c).2.toList ∧
        x' = x.nextByte l' field := by
  rw [byte, Emit.bind_result] at h
  obtain ⟨x₁, h₁, h⟩ := Result.bind_eq_ok.1 h
  obtain ⟨field, rfl, hfield⟩ := appendField_eq_ok h₁
  rw [Emit.bind_result] at h
  obtain ⟨x₂, h₂, h⟩ := Result.bind_eq_ok.1 h
  cases h
  rw [enter] at h₂
  refine ⟨rfl, ?_, field, hfield, ?_⟩
  · intro hend
    cases hl : (l.step o.delimiter c).1.fieldEnd with
    | none => exact absurd hl hend
    | some recordEnd =>
      rw [hl] at h₂
      exact (endField_eq_ok h₂).1
  · rw [nextByte]
    cases hl : (l.step o.delimiter c).1.fieldEnd with
    | none =>
      rw [hl] at h₂
      exact (Except.ok.inj h₂).symm
    | some recordEnd =>
      rw [hl] at h₂
      exact (endField_eq_ok h₂).2

theorem parserOffset_nextField (x : ScanIndex o) (recordEnd : Bool) :
    (x.nextField recordEnd).parserOffset = x.parserOffset := by
  simp only [nextField, nextRecord, closeField, startRecord, nextHeader, nextRow, widen,
    withCheckpoint]
  split_ifs <;> rfl

end ScanIndex

/-- The scanner's handler follows the laws. -/
theorem scanHandler_lawful (o : DelimitedOptions) : (scanHandler o).Lawful where
  append_append := by
    rintro ⟨x, ds⟩ xs ys
    change (ScanState.appendField ⟨x, ds⟩ xs >>= fun s => s.appendField ys) =
      ScanState.appendField ⟨x, ds⟩ (xs ++ ys)
    rw [ScanState.appendField_eq, ScanState.appendField_eq, ← ScanIndex.append_append]
    cases x.appendField xs with
    | error e => rfl
    | ok x' => exact ScanState.appendField_eq x' ds ys
  append_setOffset s n xs := by
    change ScanState.appendField _ xs = (ScanState.appendField s xs).map _
    rw [ScanState.appendField, ScanState.appendField]
    dsimp only [scanHandler]
    cases s.index.field.append xs _ <;> rfl
  offset_append := by
    rintro ⟨x, ds⟩ xs s' h
    change ScanState.appendField ⟨x, ds⟩ xs = .ok s' at h
    rw [ScanState.appendField_eq] at h
    cases hx : x.appendField xs with
    | error e =>
      rw [hx] at h
      cases h
    | ok x' =>
      rw [hx] at h
      cases h
      obtain ⟨field, rfl, _⟩ := ScanIndex.appendField_eq_ok hx
      rfl
  offset_endField := by
    rintro ⟨x, ds⟩ b s' h
    rw [ScanState.endField_eq] at h
    cases hx : (x.endField b).run o ds with
    | error e =>
      rw [hx] at h
      cases h
    | ok p =>
      rw [hx] at h
      cases h
      have hp := (ScanIndex.endField_eq_ok (Emit.run_eq_ok.1 hx).2).2
      exact (congrArg ScanIndex.parserOffset hp).trans (x.parserOffset_nextField b)
  offset_setOffset s n := rfl
  setOffset_setOffset s m n := rfl
  setOffset_offset s := rfl
  done_append s xs s' _ := rfl
  done_setOffset s n := rfl

end Tabulark.Csv
