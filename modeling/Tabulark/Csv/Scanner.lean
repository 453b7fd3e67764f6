import Tabulark.Csv.Drive
import Tabulark.Model

/-!
# The delimited scanner

`CsvScanner` reads a source once, front to back, and keeps metadata and sparse
checkpoints. Chunks come in any sizes: a possible byte order mark is held back
until it is resolved, and every other byte goes through `processBytes`, first
to the quote tracker and then to the reader loop.
-/

namespace Tabulark.Csv

/-! ## Options and diagnostics -/

/-- Parsing behavior for recoverable source problems. -/
inductive ParseMode
  | lenient
  | strict
  deriving DecidableEq, Repr

/-- Resource limits applied during scanning and range decoding. The byte and
    column limits are `usize`s. -/
structure CsvLimits where
  maxFieldBytes : ℕ := 16 * 1024 * 1024
  maxColumns : ℕ := 16384
  maxCellsPerRange : ℕ := 250000
  maxBatchBytes : ℕ := 32 * 1024 * 1024
  maxDiagnostics : ℕ := 1000
  maxColumns_le : maxColumns ≤ usizeMax := by decide
  maxBatchBytes_le : maxBatchBytes ≤ usizeMax := by decide

/-- Options shared by a progressive scan and all later range decoders. -/
structure DelimitedOptions where
  delimiter : UInt8
  header : Bool
  mode : ParseMode
  checkpointInterval : ℕ
  tableName : String
  limits : CsvLimits

namespace DelimitedOptions

/-- Conservative CSV defaults. -/
def csv : DelimitedOptions where
  delimiter := 44
  header := true
  mode := .lenient
  checkpointInterval := 1024
  tableName := "Table 1"
  limits := {}

/-- Checks the delimiter and the resource limits. -/
def validate (o : DelimitedOptions) : Result Unit :=
  if ¬o.delimiter ≤ 0x7F ∨ o.delimiter = 0 ∨ o.delimiter = cr ∨ o.delimiter = lf ∨
      o.delimiter = quote then
    .error (.new .invalidArgument
      "delimiter must be one non-NUL ASCII byte other than CR, LF, or quote")
  else if o.checkpointInterval = 0 then
    .error (.new .invalidArgument "checkpoint interval must be greater than zero")
  else if o.limits.maxFieldBytes = 0 ∨ o.limits.maxColumns = 0 ∨ o.limits.maxCellsPerRange = 0 ∨
      o.limits.maxBatchBytes = 0 then
    .error (.new .invalidArgument "CSV resource limits must be greater than zero")
  else .ok ()

end DelimitedOptions

/-- Stable kinds for recoverable diagnostics. -/
inductive CsvDiagnosticKind
  | raggedRow
  | invalidUtf8
  | malformedQuote
  deriving DecidableEq, Repr

/-- The name of a kind in an error's details. -/
def diagnosticKindName : CsvDiagnosticKind → String
  | .raggedRow => "ragged-row"
  | .invalidUtf8 => "invalid-utf8"
  | .malformedQuote => "malformed-quote"

/-- A source diagnostic. -/
structure CsvDiagnostic where
  kind : CsvDiagnosticKind
  row : Option ℕ
  byteOffset : ℕ
  message : String
  deriving DecidableEq, Repr

/-- The error a strict parse stops with at a diagnostic. -/
def CsvDiagnostic.toError (diagnostic : CsvDiagnostic) : TabularkError :=
  let error := ((TabularkError.new .parseFailed diagnostic.message).withDetail
    "kind" (.text (diagnosticKindName diagnostic.kind))).withDetail
    "byteOffset" (.number diagnostic.byteOffset)
  match diagnostic.row with
  | some row => error.withDetail "row" (.number row)
  | none => error

/-- What a parser does with a diagnostic: strict parsing stops, lenient parsing
    retains it while there is room. -/
def handleDiagnostic (o : DelimitedOptions) (diagnostics : List CsvDiagnostic)
    (diagnostic : CsvDiagnostic) : Result (List CsvDiagnostic) :=
  match o.mode with
  | .strict => .error diagnostic.toError
  | .lenient =>
    if diagnostics.length < o.limits.maxDiagnostics then .ok (diagnostics ++ [diagnostic])
    else .ok diagnostics

/-! ## Quotes -/

/-- The quoting state between two bytes. -/
inductive QuoteState
  | startField
  | unquoted
  | quoted (openingOffset : ℕ)
  | afterQuote
  deriving DecidableEq, Repr

/-- A malformed quote. -/
structure QuoteIssue where
  offset : ℕ
  message : String
  deriving DecidableEq, Repr

/-- A lexer of its own that only looks for malformed quotes. -/
structure QuoteTracker where
  state : QuoteState := .startField
  quotedOpening : Option ℕ := none
  deriving DecidableEq, Repr

namespace QuoteTracker

/-- The tracker on one byte at an absolute offset. -/
def byte (d : UInt8) (t : QuoteTracker) (offset : ℕ) (c : UInt8) :
    QuoteTracker × List QuoteIssue :=
  match t.state with
  | .startField =>
    if c = quote then ({ state := .quoted offset, quotedOpening := some offset }, [])
    else if c = d ∨ c = cr ∨ c = lf then (t, [])
    else ({ t with state := .unquoted }, [])
  | .unquoted =>
    if c = quote then (t, [⟨offset, "quote appears inside an unquoted field"⟩])
    else if c = d ∨ c = cr ∨ c = lf then ({ t with state := .startField }, [])
    else (t, [])
  | .quoted _ => if c = quote then ({ t with state := .afterQuote }, []) else (t, [])
  | .afterQuote =>
    if c = quote then ({ t with state := .quoted (t.quotedOpening.getD offset) }, [])
    else if c = d ∨ c = cr ∨ c = lf then ({ state := .startField }, [])
    else ({ state := .unquoted }, [⟨offset, "unexpected data follows a closing quote"⟩])

/-- The tracker over a slice that begins at `base`: the issues in order. -/
def consume (d : UInt8) : QuoteTracker → ℕ → List UInt8 → QuoteTracker × List QuoteIssue
  | t, _, [] => (t, [])
  | t, base, c :: cs =>
    let read := t.byte d base c
    let rest := consume d read.1 (base + 1) cs
    (rest.1, read.2 ++ rest.2)

/-- Where the quoted field opened that is still open. -/
def unclosedQuoteOffset (t : QuoteTracker) : Option ℕ :=
  match t.state with
  | .quoted openingOffset => some openingOffset
  | _ => none

theorem consume_append (d : UInt8) (t : QuoteTracker) (base : ℕ) (xs ys : List UInt8) :
    t.consume d base (xs ++ ys) =
      (((t.consume d base xs).1.consume d (base + xs.length) ys).1,
        (t.consume d base xs).2 ++
        ((t.consume d base xs).1.consume d (base + xs.length) ys).2) := by
  induction xs generalizing t base with
  | nil => rfl
  | cons c cs ih =>
    simp only [List.cons_append, consume, ih, List.length_cons, List.append_assoc,
      show base + 1 + cs.length = base + (cs.length + 1) by omega]

end QuoteTracker

/-! ## The record index -/

/-- A sparse logical-row to source-byte mapping at a record boundary. -/
structure CsvCheckpoint where
  row : ℕ
  byteOffset : ℕ
  deriving DecidableEq, Repr

/-- The bytes of an unfinished field, within the field limit. -/
abbrev FieldBytes (o : DelimitedOptions) : Type :=
  { bytes : List UInt8 // bytes.length ≤ o.limits.maxFieldBytes }

/-- The empty field. -/
def FieldBytes.empty (o : DelimitedOptions) : FieldBytes o := ⟨[], Nat.zero_le _⟩

/-- Appends to a field. Two slice lengths never overflow a `usize`. -/
def FieldBytes.append {o : DelimitedOptions} (field : FieldBytes o) (bytes : List UInt8)
    (error : TabularkError) : Result (FieldBytes o) :=
  if h : (field.1 ++ bytes).length ≤ o.limits.maxFieldBytes then .ok ⟨field.1 ++ bytes, h⟩
  else .error error

theorem FieldBytes.append_append {o : DelimitedOptions} (field : FieldBytes o)
    (xs ys : List UInt8) (error : TabularkError) :
    (field.append xs error >>= fun field => field.append ys error) =
      field.append (xs ++ ys) error := by
  rw [append, append]
  by_cases h : (field.1 ++ xs).length ≤ o.limits.maxFieldBytes
  · rw [dif_pos h, Result.ok_bind, append]
    simp only [List.append_assoc]
  · rw [dif_neg h, dif_neg]
    · rfl
    · intro h'
      simp only [List.length_append] at h h'
      omega

theorem FieldBytes.append_nil {o : DelimitedOptions} (field : FieldBytes o)
    (error : TabularkError) : field.append [] error = .ok field := by
  rw [append, dif_pos (by rw [List.append_nil]; exact field.2)]
  congr
  exact List.append_nil _

/-- What the scanner knows of the records it has parsed. -/
structure ScanIndex (o : DelimitedOptions) where
  parserOffset : ℕ := 0
  recordStartOffset : ℕ := 0
  field : FieldBytes o := .empty o
  recordFields : ℕ := 0
  headerNames : List (List UInt8) := []
  headerPending : Bool := o.header
  rows : ℕ := 0
  columns : List ColumnSchema := []
  schemaVersion : ℕ := 0
  checkpoints : List CsvCheckpoint := []

/-- The display name of column `index`: its header, unless that is missing or empty. -/
def columnName (headerNames : Option (List (List UInt8))) (index : ℕ) : List UInt8 :=
  (((headerNames.bind fun names => names[index]?).filter fun name => !name.isEmpty).getD
    (asciiBytes s!"column_{index + 1}"))

/-- Column `index` of a delimited table. -/
def delimitedColumn (headerNames : Option (List (List UInt8))) (index : ℕ) : Result ColumnSchema :=
  ColumnSchema.new s!"c{index}" (columnName headerNames index) index .utf8 true

/-- The column the checks of `delimitedColumn` let through. -/
def columnAt (headerNames : Option (List (List UInt8))) (index : ℕ) : ColumnSchema where
  id := s!"c{index}"
  name := columnName headerNames index
  index
  dataType := .utf8
  nullable := true

theorem delimitedColumn_of_le {index : ℕ} (h : index ≤ maxSafeInteger)
    (headerNames : Option (List (List UInt8))) :
    delimitedColumn headerNames index = .ok (columnAt headerNames index) := by
  have hid : (s!"c{index}").isEmpty = false := by
    rw [Bool.eq_false_iff]
    intro h
    have hnil := congrArg String.toList (String.isEmpty_iff.1 h)
    simp [toString] at hnil
  rw [delimitedColumn, ColumnSchema.new, validateSafeInteger_of_le h, Result.ok_bind, hid]
  rfl

namespace ScanIndex

variable {o : DelimitedOptions}

/-- Extends the schema to `count` columns. -/
def ensureColumns (x : ScanIndex o) (count : ℕ) (headerNames : Option (List (List UInt8))) :
    Result (ScanIndex o) :=
  if o.limits.maxColumns < count then
    .error (.new .resourceLimit "CSV schema exceeds the configured column limit")
  else if count ≤ x.columns.length then .ok x
  else do
    let added ← (List.range' x.columns.length (count - x.columns.length)).mapM
      (delimitedColumn headerNames)
    let schemaVersion ← checkedAdd u64Max x.schemaVersion 1
      (.new .resourceLimit "schema version overflow")
    .ok { x with columns := x.columns ++ added, schemaVersion }

/-- The schema widened to `count` columns, if it has fewer. -/
def widen (x : ScanIndex o) (count : ℕ) (headerNames : Option (List (List UInt8))) :
    ScanIndex o :=
  { x with
    columns := x.columns ++
      (List.range' x.columns.length (count - x.columns.length)).map (columnAt headerNames)
    schemaVersion := x.schemaVersion + if x.columns.length < count then 1 else 0 }

theorem widen_of_le {x : ScanIndex o} {count : ℕ} (h : count ≤ x.columns.length)
    (headerNames : Option (List (List UInt8))) : x.widen count headerNames = x := by
  rw [widen, Nat.sub_eq_zero_of_le h, if_neg (not_lt.2 h)]
  simp

theorem ensureColumns_eq {x : ScanIndex o} {count : ℕ} (hmax : count ≤ o.limits.maxColumns)
    (hversion : x.schemaVersion < u64Max) (headerNames : Option (List (List UInt8))) :
    x.ensureColumns count headerNames = .ok (x.widen count headerNames) := by
  rw [ensureColumns, if_neg (not_lt.2 hmax)]
  split_ifs with hle
  · rw [widen_of_le hle]
  · have hsafe : usizeMax ≤ maxSafeInteger := by decide
    have hmaxColumns := o.limits.maxColumns_le
    rw [Result.mapM_eq_ok (g := columnAt headerNames), Result.ok_bind, checkedAdd_of_le hversion,
      Result.ok_bind, widen, if_pos (not_le.1 hle)]
    intro index hindex
    rw [List.mem_range'_1] at hindex
    exact delimitedColumn_of_le (by omega) headerNames

theorem ensureColumns_eq_ok {x x' : ScanIndex o} {count : ℕ}
    {headerNames : Option (List (List UInt8))} (h : x.ensureColumns count headerNames = .ok x') :
    count ≤ o.limits.maxColumns ∧ x' = x.widen count headerNames := by
  by_cases hmax : count ≤ o.limits.maxColumns
  · refine ⟨hmax, ?_⟩
    by_cases hversion : x.schemaVersion < u64Max
    · rw [ensureColumns_eq hmax hversion] at h
      exact (Except.ok.inj h).symm
    · rw [ensureColumns, if_neg (not_lt.2 hmax)] at h
      split_ifs at h with hle
      · cases h
        exact (widen_of_le hle headerNames).symm
      · obtain ⟨added, _, h⟩ := Result.bind_eq_ok.1 h
        rw [checkedAdd, if_neg (by omega)] at h
        cases h
  · rw [ensureColumns, if_pos (not_le.1 hmax)] at h
    cases h

end ScanIndex

/-- The index and the retained diagnostics: what the reader loop works on. -/
structure ScanState (o : DelimitedOptions) where
  index : ScanIndex o := {}
  diagnostics : List CsvDiagnostic := []

namespace ScanState

variable {o : DelimitedOptions}

/-- Reports a diagnostic. -/
def handleDiagnostic (s : ScanState o) (diagnostic : CsvDiagnostic) : Result (ScanState o) := do
  let diagnostics ← Csv.handleDiagnostic o s.diagnostics diagnostic
  .ok { s with diagnostics }

/-- Appends to the unfinished field. -/
def appendField (s : ScanState o) (bytes : List UInt8) : Result (ScanState o) := do
  let field ← s.index.field.append bytes
    ((TabularkError.new .resourceLimit "CSV field exceeds the configured byte limit").withDetail
      "maxFieldBytes" (.number o.limits.maxFieldBytes))
  .ok { s with index := { s.index with field } }

/-- Ends a field: only the header record keeps its value. -/
def finishField (s : ScanState o) : Result (ScanState o) := do
  let recordFields ← checkedAdd usizeMax s.index.recordFields 1
    (.new .resourceLimit "CSV column count overflow")
  if o.limits.maxColumns < recordFields then
    .error ((TabularkError.new .resourceLimit
      "CSV record exceeds the configured column limit").withDetail
      "maxColumns" (.number o.limits.maxColumns))
  else
    let s := { s with index := { s.index with recordFields } }
    let validUtf8 := Utf8.isValid s.index.field.1
    let s ← if validUtf8 then .ok s else s.handleDiagnostic {
      kind := .invalidUtf8
      row := if s.index.headerPending then none else some s.index.rows
      byteOffset := s.index.recordStartOffset
      message := "field contains invalid UTF-8; replacement characters were used" }
    if s.index.headerPending then
      let decoded := if validUtf8 then s.index.field.1 else Utf8.lossy s.index.field.1
      .ok { s with index := { s.index with
        field := .empty o
        headerNames := s.index.headerNames ++ [decoded] } }
    else .ok { s with index := { s.index with field := .empty o } }

/-- Ends a data record of `fields` fields: a checkpoint if one is due, and the
    schema and the row count that follow from it. -/
def finishRow (s : ScanState o) (fields : ℕ) : Result (ScanState o) := do
  let s := if s.index.rows % o.checkpointInterval = 0 then
      { s with index := { s.index with
        checkpoints := s.index.checkpoints ++ [⟨s.index.rows, s.index.recordStartOffset⟩] } }
    else s
  let s ←
    if s.index.columns.isEmpty then do
      let index ← s.index.ensureColumns fields none
      .ok { s with index }
    else if fields ≠ s.index.columns.length then do
      let s ← s.handleDiagnostic {
        kind := .raggedRow
        row := some s.index.rows
        byteOffset := s.index.recordStartOffset
        message :=
          s!"row has {fields} fields but the current schema has {s.index.columns.length}" }
      if s.index.columns.length < fields then do
        let index ← s.index.ensureColumns fields none
        .ok { s with index }
      else .ok s
    else .ok s
  let rows ← checkedAdd u64Max s.index.rows 1 (.new .resourceLimit "CSV row count overflow")
  .ok { s with index := { s.index with rows } }

/-- Ends a record: the header names the columns, any other record is a row. -/
def finishRecord (s : ScanState o) : Result (ScanState o) := do
  let fields := s.index.recordFields
  let s := { s with index := { s.index with recordFields := 0 } }
  let s ←
    if s.index.headerPending then do
      let names := s.index.headerNames
      let index ← { s.index with headerNames := [] }.ensureColumns fields (some names)
      .ok { s with index := { index with headerPending := false } }
    else s.finishRow fields
  .ok { s with index := { s.index with recordStartOffset := s.index.parserOffset } }

end ScanState

/-- The scanner as a handler of the reader loop. -/
def scanHandler (o : DelimitedOptions) : Handler (ScanState o) where
  appendField := ScanState.appendField
  finishField := ScanState.finishField
  finishRecord := ScanState.finishRecord
  offset s := s.index.parserOffset
  setOffset s n := { s with index := { s.index with parserOffset := n } }
  done _ := false
  offsetOverflow := .new .resourceLimit "parser offset overflow"
  reachedEnd := .new .runtimeFailure "CSV parser reached end before the input chunk was exhausted"
  noProgress := .new .runtimeFailure "CSV parser made no progress"
  notTerminated := .new .runtimeFailure "CSV parser did not terminate at end-of-file"

/-! ## The scanner -/

/-- A progressive scanner. -/
structure CsvScanner {o : DelimitedOptions} (reader : Reader o.delimiter) where
  readerState : reader.State := reader.fresh
  lexical : QuoteTracker := {}
  bomPrefix : List UInt8 := []
  bomResolved : Bool := false
  bytesReceived : ℕ := 0
  scan : ScanState o := {}
  finished : Bool := false

/-- State returned after accepting one source chunk. -/
structure ScanUpdate where
  metadata : TableMetadata
  bytesScanned : ℕ
  rowsDiscovered : ℕ
  checkpointsAdded : List CsvCheckpoint
  warnings : List CsvDiagnostic
  done : Bool

/-- A source slice and logical skip plan for a range read. -/
structure RangePlan where
  checkpoint : CsvCheckpoint
  request : RangeRequest
  rowsToSkip : ℕ

/-- The first absolute byte offset to read. -/
def RangePlan.sourceOffset (p : RangePlan) : ℕ := p.checkpoint.byteOffset

/-- Moves bytes to the held-back prefix while they may belong to a mark:
    the prefix, and the bytes left. -/
def holdBom : List UInt8 → List UInt8 → List UInt8 × List UInt8
  | held, [] => (held, [])
  | held, b :: bs =>
    if held.length < utf8Bom.length then
      if (held ++ [b]).isPrefixOf utf8Bom then holdBom (held ++ [b]) bs else (held ++ [b], bs)
    else (held, b :: bs)

namespace CsvScanner

variable {o : DelimitedOptions} {reader : Reader o.delimiter}

/-- A scanner ready to receive the source from offset zero. -/
def new (reader : Reader o.delimiter) : Result (CsvScanner reader) := do
  o.validate
  .ok {}

/-- Reports the quote issues of a slice. -/
def reportQuotes (s : ScanState o) (issues : List QuoteIssue) : Result (ScanState o) :=
  issues.foldlM (fun s issue => s.handleDiagnostic {
    kind := .malformedQuote
    row := none
    byteOffset := issue.offset
    message := issue.message }) s

/-- Parses the next bytes of the table, the quotes of all of them first. -/
def processBytes (c : CsvScanner reader) (base : ℕ) (bytes : List UInt8) :
    Result (CsvScanner reader) :=
  if base ≠ c.scan.index.parserOffset then
    .error (((TabularkError.new .invalidArgument
      "parser input does not begin at the expected absolute offset").withDetail
      "expectedOffset" (.number c.scan.index.parserOffset)).withDetail
      "actualOffset" (.number base))
  else do
    let read := c.lexical.consume o.delimiter base bytes
    let scan ← reportQuotes c.scan read.2
    let parsed ← drive reader (scanHandler o) bytes.length c.readerState scan bytes
    .ok { c with lexical := read.1, readerState := parsed.1, scan := parsed.2 }

/-- Ends the table at the end of the file. -/
def finish (c : CsvScanner reader) : Result (CsvScanner reader) := do
  let scan ← match c.lexical.unclosedQuoteOffset with
    | some offset => c.scan.handleDiagnostic {
        kind := .malformedQuote
        row := none
        byteOffset := offset
        message := "quoted field is not terminated before end-of-file" }
    | none => .ok c.scan
  let ended ← driveEof reader (scanHandler o) 4 c.readerState scan
  .ok { c with scan := ended.2, finished := true }

/-- The latest table metadata. -/
def metadata (c : CsvScanner reader) : Result TableMetadata := do
  let x := c.scan.index
  let rows ← if c.finished then AxisExtent.newExact x.rows else AxisExtent.newAtLeast x.rows
  let columns ← if c.finished then AxisExtent.newExact x.columns.length
    else if x.columns.isEmpty then .ok .unknown
    else AxisExtent.newAtLeast x.columns.length
  let schema ← Schema.new x.schemaVersion x.columns
  .ok {
    tableId := "table-0"
    name := o.tableName
    revision := 0
    extent := { rows, columns }
    schema
    capabilities := .delimited (if c.finished then .full else .indexedPrefix) }

/-- Resolves a possible mark at the start of the source, at the end of the file
    at the latest: the scanner, and the bytes of the chunk left to parse. -/
def resolveBom (c : CsvScanner reader) (bytes : List UInt8) (eof : Bool) :
    Result (CsvScanner reader × List UInt8) :=
  if c.bomResolved then .ok (c, bytes)
  else
    let read := holdBom c.bomPrefix bytes
    let isPossibleBom := read.1.isPrefixOf utf8Bom
    if isPossibleBom && read.1.length != utf8Bom.length && !eof then
      .ok ({ c with bomPrefix := read.1 }, read.2)
    else if read.1 = utf8Bom then
      .ok ({ c with
        bomPrefix := []
        bomResolved := true
        scan := { c.scan with index := { c.scan.index with
          parserOffset := 3
          recordStartOffset := 3 } } }, read.2)
    else do
      let c ← { c with bomPrefix := [], bomResolved := true }.processBytes 0 read.1
      .ok (c, read.2)

/-- Accepts the next contiguous source chunk. -/
def feedChunk (c : CsvScanner reader) (absoluteOffset : ℕ) (bytes : List UInt8) (eof : Bool) :
    Result (CsvScanner reader × ScanUpdate) :=
  if c.finished then .error (.new .handleClosed "CSV scanner is already finalized")
  else if absoluteOffset ≠ c.bytesReceived then
    .error (((TabularkError.new .invalidArgument
      "CSV scan chunks must be contiguous and ordered").withDetail
      "expectedOffset" (.number c.bytesReceived)).withDetail
      "actualOffset" (.number absoluteOffset))
  else do
    let bytesReceived ← checkedAdd u64Max c.bytesReceived bytes.length
      (.new .resourceLimit "source byte offset overflow")
    let before := c.scan
    let (c, rest) ← { c with bytesReceived }.resolveBom bytes eof
    let c ← if c.bomResolved && !rest.isEmpty then
        c.processBytes (absoluteOffset + (bytes.length - rest.length)) rest
      else .ok c
    let c ← if eof then c.finish else .ok c
    let metadata ← c.metadata
    .ok (c, {
      metadata
      bytesScanned := c.bytesReceived
      rowsDiscovered := c.scan.index.rows
      checkpointsAdded := c.scan.index.checkpoints.drop before.index.checkpoints.length
      warnings := c.scan.diagnostics.drop before.diagnostics.length
      done := c.finished })

/-- Checks a request against the limits and the current schema. -/
def validateRange (c : CsvScanner reader) (request : RangeRequest) : Result Unit := do
  request.validatePublic
  let cells ← request.cellCount
  if o.limits.maxCellsPerRange < cells then
    .error ((TabularkError.new .resourceLimit
      "range exceeds the configured cell limit").withDetail
      "maxCells" (.number o.limits.maxCellsPerRange))
  else do
    let columnEnd ← request.columnEnd
    if c.scan.index.columns.length < columnEnd then
      .error ((TabularkError.new .invalidRange
        "requested columns exceed the current schema").withDetail
        "schemaColumns" (.number c.scan.index.columns.length))
    else .ok ()

/-- The last checkpoint at or before a row: the checkpoints are ordered by row. -/
def nearestCheckpoint (c : CsvScanner reader) (row : ℕ) : Option CsvCheckpoint :=
  let partitionPoint := (c.scan.index.checkpoints.takeWhile fun p => p.row ≤ row).length
  if partitionPoint = 0 then none else c.scan.index.checkpoints[partitionPoint - 1]?

/-- A checkpoint-based source read plan. -/
def planRange (c : CsvScanner reader) (request : RangeRequest) : Result RangePlan := do
  c.validateRange request
  if 0 < request.rowCount ∧ c.finished = false ∧ c.scan.index.rows ≤ request.rowStart then
    .error (((TabularkError.new .rangeNotIndexed
      "requested row has not been indexed yet").withRetryable true).withDetail
      "indexedRows" (.number c.scan.index.rows))
  else
    let checkpoint := (c.nearestCheckpoint request.rowStart).getD
      ⟨c.scan.index.rows, c.scan.index.parserOffset⟩
    .ok { checkpoint, request, rowsToSkip := request.rowStart - checkpoint.row }

end CsvScanner

end Tabulark.Csv
