import Tabulark.Csv.Column
import Tabulark.Csv.Scanner

/-!
# The range decoder

`RangeDecoder` parses the source again from a checkpoint, with a reader of its
own, and keeps the fields of the requested cells. It stops as soon as it has
all the rows, or at the end of the file.
-/

namespace Tabulark.Csv

/-! ## The decoder's state -/

variable {o : DelimitedOptions}

/-- What the reader loop of a decoder works on. -/
structure DecodeState (o : DelimitedOptions) where
  expectedOffset : ℕ
  field : FieldBytes o := .empty o
  fieldIndex : ℕ := 0
  currentRow : ℕ
  selectedValues : List (List UInt8)
  selectedValid : List Bool
  builders : List StringColumnBuilder
  returnedRows : ℕ := 0
  batchBytes : ℕ
  diagnostics : List CsvDiagnostic := []
  done : Bool

/-- Whether a row is requested. -/
def RangePlan.requests (plan : RangePlan) (row : ℕ) : Result Bool :=
  if row < plan.request.rowStart then .ok false
  else do
    let rowEnd ← plan.request.rowEnd
    .ok (row < rowEnd)

namespace DecodeState

/-- Reports a diagnostic. -/
def handleDiagnostic (s : DecodeState o) (diagnostic : CsvDiagnostic) : Result (DecodeState o) := do
  let diagnostics ← Csv.handleDiagnostic o s.diagnostics diagnostic
  .ok { s with diagnostics }

/-- Appends to the unfinished field. -/
def appendField (s : DecodeState o) (bytes : List UInt8) : Result (DecodeState o) := do
  let field ← s.field.append bytes
    (.new .resourceLimit "CSV field exceeds the configured byte limit")
  .ok { s with field }

/-- Ends a field, and keeps it if its cell is requested. -/
def finishField (plan : RangePlan) (s : DecodeState o) : Result (DecodeState o) := do
  let fieldIndex ← checkedAdd usizeMax s.fieldIndex 1
    (.new .resourceLimit "CSV column count overflow")
  if o.limits.maxColumns < fieldIndex then
    .error (.new .resourceLimit "CSV record exceeds the configured column limit")
  else do
    let s := { s with fieldIndex }
    let logicalIndex := fieldIndex - 1
    let start ← toUsize plan.request.columnStart
      (.new .resourceLimit "column start exceeds usize")
    let stop := start + s.selectedValues.length
    let requested ← plan.requests s.currentRow
    if requested && start ≤ logicalIndex && logicalIndex < stop then do
      let validUtf8 := Utf8.isValid s.field.1
      let s ← if validUtf8 then .ok s else s.handleDiagnostic {
        kind := .invalidUtf8
        row := some s.currentRow
        byteOffset := s.expectedOffset
        message := "field contains invalid UTF-8; replacement characters were used" }
      let decoded := if validUtf8 then s.field.1 else Utf8.lossy s.field.1
      let selectedIndex := logicalIndex - start
      .ok { s with
        field := .empty o
        selectedValues := s.selectedValues.set selectedIndex decoded
        selectedValid := s.selectedValid.set selectedIndex true }
    else .ok { s with field := .empty o }

/-- The value of a selected cell, if the record has it. -/
def cellValue (c : List UInt8 × Bool) : Option (List UInt8) := if c.2 then some c.1 else none

/-- Appends one value to every column. -/
def pushRow (maxBatchBytes : ℕ) :
    List StringColumnBuilder → List (List UInt8 × Bool) → ℕ →
      Result (List StringColumnBuilder × ℕ)
  | b :: bs, c :: cells, batchBytes => do
    let pushed ← b.push (cellValue c) batchBytes maxBatchBytes
    let rest ← pushRow maxBatchBytes bs cells pushed.2
    .ok (pushed.1 :: rest.1, rest.2)
  | bs, [], batchBytes => .ok (bs, batchBytes)
  | [], _, batchBytes => .ok ([], batchBytes)

/-- Reports a record with more or fewer fields than the schema has columns. -/
def reportRagged (schema : Schema) (s : DecodeState o) : Result (DecodeState o) :=
  if s.fieldIndex ≠ schema.columns.length then s.handleDiagnostic {
    kind := .raggedRow
    row := some s.currentRow
    byteOffset := s.expectedOffset
    message := s!"row has {s.fieldIndex} fields but the schema has {schema.columns.length}" }
  else .ok s

/-- Returns the selected values of a record, if its row is requested. -/
def returnRow (plan : RangePlan) (s : DecodeState o) : Result (DecodeState o) := do
  let requested ← plan.requests s.currentRow
  if requested then do
    let pushed ← pushRow o.limits.maxBatchBytes s.builders
      (s.selectedValues.zip s.selectedValid) s.batchBytes
    .ok { s with
      builders := pushed.1
      batchBytes := pushed.2
      returnedRows := s.returnedRows + 1 }
  else .ok s

/-- Goes on with the next row. -/
def nextRow (plan : RangePlan) (s : DecodeState o) : Result (DecodeState o) := do
  let currentRow ← checkedAdd u64Max s.currentRow 1
    (.new .resourceLimit "range row count overflow")
  .ok { s with
    fieldIndex := 0
    selectedValues := s.selectedValues.map fun _ => []
    selectedValid := s.selectedValid.map fun _ => false
    currentRow
    done := s.done || s.returnedRows = plan.request.rowCount }

/-- Ends a record. -/
def finishRecord (plan : RangePlan) (schema : Schema) (s : DecodeState o) :
    Result (DecodeState o) := do
  let s ← s.reportRagged schema
  let s ← s.returnRow plan
  s.nextRow plan

end DecodeState

/-- The decoder as a handler of the reader loop. -/
def decodeHandler (o : DelimitedOptions) (plan : RangePlan) (schema : Schema) :
    Handler (DecodeState o) where
  appendField := DecodeState.appendField
  finishField := DecodeState.finishField plan
  finishRecord := DecodeState.finishRecord plan schema
  offset s := s.expectedOffset
  setOffset s n := { s with expectedOffset := n }
  done s := s.done
  offsetOverflow := .new .resourceLimit "range parser offset overflow"
  reachedEnd := .new .runtimeFailure "range parser reached end before its chunk was exhausted"
  noProgress := .new .runtimeFailure "range parser made no progress"
  notTerminated := .new .runtimeFailure "range parser did not terminate at end-of-file"

/-! ## The decoder -/

/-- An incremental decoder of one requested range. -/
structure RangeDecoder (reader : Reader o.delimiter) where
  plan : RangePlan
  schema : Schema
  readerState : reader.State := reader.fresh
  lexical : QuoteTracker := {}
  decode : DecodeState o

/-- The state after one source slice. -/
inductive RangeDecodeStatus
  | needMore
  | complete (batch : TableBatch)

namespace RangeDecoder

variable {reader : Reader o.delimiter}

/-- A decoder at the checkpoint of a plan, whose columns are those of the schema. -/
def new (reader : Reader o.delimiter) (plan : RangePlan) (schema : Schema) :
    Result (RangeDecoder reader) := do
  let selected ← toUsize plan.request.columnCount
    (.new .resourceLimit "range column count exceeds usize")
  let start ← toUsize plan.request.columnStart
    (.new .resourceLimit "range column start exceeds usize")
  let builders := ((schema.columns.drop start).take selected).map fun column =>
    ({ columnId := column.id } : StringColumnBuilder)
  let batchBytes ← checkedMul usizeMax selected 4
    (.new .resourceLimit "batch byte length overflow")
  if o.limits.maxBatchBytes < batchBytes then
    .error (.new .resourceLimit "range response exceeds the configured byte limit")
  else .ok {
    plan
    schema
    decode := {
      expectedOffset := plan.sourceOffset
      currentRow := plan.checkpoint.row
      selectedValues := List.replicate selected []
      selectedValid := List.replicate selected false
      builders
      batchBytes
      done := plan.request.rowCount = 0 } }

/-- The batch of the rows returned so far. -/
def buildBatch (r : RangeDecoder reader) (s : DecodeState o) (complete : Bool) :
    Result TableBatch := do
  let range ← RangeRequest.new r.plan.request.rowStart s.returnedRows r.plan.request.columnStart
    r.plan.request.columnCount
  let columns ← s.builders.mapM StringColumnBuilder.finish
  .ok {
    tableId := "table-0"
    revision := 0
    schemaVersion := r.schema.version
    range
    complete
    columns }

/-- Reports the quote issues of a slice, all at the row before it. -/
def reportQuotes (s : DecodeState o) (issues : List QuoteIssue) : Result (DecodeState o) :=
  issues.foldlM (fun s issue => s.handleDiagnostic {
    kind := .malformedQuote
    row := some s.currentRow
    byteOffset := issue.offset
    message := issue.message }) s

/-- Reports a quote still open at the end of the file. -/
def reportUnclosed (r : RangeDecoder reader) : Result (DecodeState o) :=
  match r.lexical.unclosedQuoteOffset with
  | some offset => r.decode.handleDiagnostic {
      kind := .malformedQuote
      row := some r.decode.currentRow
      byteOffset := offset
      message := "quoted field is not terminated before end-of-file" }
  | none => .ok r.decode

/-- The batch at the end of the file. -/
def finishEof (r : RangeDecoder reader) : Result TableBatch := do
  let s ← r.reportUnclosed
  let ended ← driveEof reader (decodeHandler o r.plan r.schema) 4 r.readerState s
  r.buildBatch ended.2 (ended.1 || ended.2.returnedRows = r.plan.request.rowCount)

/-- Accepts the next contiguous source slice. -/
def feedChunk (r : RangeDecoder reader) (absoluteOffset : ℕ) (bytes : List UInt8) (eof : Bool) :
    Result (RangeDecoder reader × RangeDecodeStatus) :=
  if r.decode.done then .error (.new .handleClosed "range decoder is already complete")
  else if absoluteOffset ≠ r.decode.expectedOffset then
    .error (((TabularkError.new .invalidArgument
      "range chunks must be contiguous and begin at the planned offset").withDetail
      "expectedOffset" (.number r.decode.expectedOffset)).withDetail
      "actualOffset" (.number absoluteOffset))
  else do
    let read := r.lexical.consume o.delimiter absoluteOffset bytes
    let decode ← reportQuotes r.decode read.2
    let parsed ← drive reader (decodeHandler o r.plan r.schema) bytes.length r.readerState decode
      bytes
    let r := { r with lexical := read.1, readerState := parsed.1, decode := parsed.2 }
    if r.decode.done then do
      let batch ← r.buildBatch r.decode true
      .ok (r, .complete batch)
    else if eof then do
      let batch ← r.finishEof
      .ok ({ r with decode := { r.decode with done := true } }, .complete batch)
    else .ok (r, .needMore)

/-- The empty batch of a request for no rows. -/
def immediateBatch (r : RangeDecoder reader) : Result (Option TableBatch) :=
  if r.decode.done ∧ r.decode.returnedRows = 0 ∧ r.plan.request.rowCount = 0 then do
    let batch ← r.buildBatch r.decode true
    .ok (some batch)
  else .ok none

/-- Feeds chunks up to the end of the file, or until the batch is complete. -/
def decodeChunks (r : RangeDecoder reader) (offset : ℕ) : List (List UInt8) → Result TableBatch
  | [] => .error (.new .runtimeFailure "range decoder requested bytes beyond end-of-file")
  | chunk :: more => do
    let fed ← r.feedChunk offset chunk more.isEmpty
    match fed.2 with
    | .complete batch => .ok batch
    | .needMore => fed.1.decodeChunks (offset + chunk.length) more

/-- Reads a range: a request for no rows needs no chunks. -/
def read (r : RangeDecoder reader) (offset : ℕ) (chunks : List (List UInt8)) :
    Result TableBatch := do
  let immediate ← r.immediateBatch
  match immediate with
  | some batch => .ok batch
  | none => r.decodeChunks offset chunks

end RangeDecoder

/-- A fresh decoder of a plan. -/
def CsvScanner.rangeDecoder {reader : Reader o.delimiter} (c : CsvScanner reader)
    (plan : RangePlan) : Result (RangeDecoder reader) := do
  let schema ← Schema.new c.scan.index.schemaVersion c.scan.index.columns
  RangeDecoder.new reader plan schema

end Tabulark.Csv
