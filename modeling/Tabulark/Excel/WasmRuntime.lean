import Tabulark.Excel.IndexedExact
import Tabulark.Excel.Registry
import Tabulark.Excel.ZipDirectory

/-!
# The range-backed workbook runtime

The runtime of the Worker opens workbooks from source ranges. A range source holds
the ranges of one workbook; every worksheet that is opened gets a source of the
registry of its own, private to it. An operation that waits for ranges is tracked
under its handle until it completes, fails or is cancelled.
-/

namespace Tabulark.Excel

/-! ## Calls in place -/

/-- Retains the results of a step one after the other; what was retained before a result fails
    stays. -/
def applyIndexedResultsMut (expected : List HostRange) :
    IndexedRanges → List AdapterActionResult → IndexedRanges × Result Unit
  | indexed, [] => (indexed, .ok ())
  | indexed, result :: results =>
    match expected[result.actionIndex]? with
    | none =>
      (indexed, .error (.new .invalidArgument
        "Excel action result index is outside the issued step"))
    | some range =>
      let eofExpected := decide (range.stop = indexed.sourceLength)
      if result.eof ≠ eofExpected then
        (indexed, .error (((TabularkError.new .invalidArgument
          "Excel action result EOF flag does not match its range").withDetail
          "actionIndex" (.number result.actionIndex)).withDetail
          "expectedEof" (.flag eofExpected)))
      else
        match indexed.insertMut range result.bytes with
        | (indexed, .error e) => (indexed, .error e)
        | (indexed, .ok ()) => applyIndexedResultsMut expected indexed results

/-- The first gap of a range that cannot be read. -/
def IndexedRanges.missing (indexed : IndexedRanges) (range : HostRange) (message : String) :
    Result HostRange := do
  let missing ← indexed.firstMissing range
  match missing with
  | some gap => .ok gap
  | none => .error (.new .runtimeFailure message)

namespace Wasm

/-- What the parsers of ZIP entries, of the workbook's XML and of compound files return during one
    call, besides those of the registry. -/
structure RangeParsers extends Parsers where
  decode : RawZipEntry → Result (List UInt8)
  parseWorkbookDescriptors : List UInt8 → List UInt8 → String → Result (List RangeSheetDescriptor)
  buildCompactXlsx : List RawZipEntry → List RangeSheetDescriptor → String → Result (List UInt8)
  compactXls : IndexedRanges → Result (HostRange ⊕ List UInt8)

/-! ## The state -/

/-- How far the opening of a workbook has come. -/
inductive OpenPhase
  | detect
  | xlsxCentral
  | xlsxWorkbook (index : ZipDirectoryIndex) (fetch : EntryFetch)
  | xlsIndex

/-- A workbook that is being opened. -/
structure PendingOpen where
  options : ExcelOptions
  sourceLength : ℕ
  indexed : IndexedRanges
  phase : OpenPhase

/-- The operation that opens a workbook. -/
structure TrackedOpen where
  cursor : AdapterOperationCursor
  pending : PendingOpen
  expected : List HostRange

/-- The operation that opens a worksheet. -/
structure PendingOpenTable where
  sourceHandle : ℕ
  tableId : String
  cursor : AdapterOperationCursor := {}
  expected : List HostRange := []
  fetch : Option (ZipDirectoryIndex × EntryFetch)

/-- An operation that waits. -/
inductive TrackedOperation
  | openSource (operation : TrackedOpen)
  | openTable (operation : PendingOpenTable)

/-- The revision of an operation and the actions it waits for. -/
def TrackedOperation.cursor : TrackedOperation → AdapterOperationCursor
  | openSource operation => operation.cursor
  | openTable operation => operation.cursor

/-- What a range source is opened from. -/
inductive RangeSourceKind
  | xlsx (index : ZipDirectoryIndex) (workbookEntries : List RawZipEntry)
  | xls (compact : List UInt8)

/-- An open workbook: its ranges, its worksheets, and the private sources of those opened. -/
structure RangeSource where
  options : ExcelOptions
  indexed : IndexedRanges
  kind : RangeSourceKind
  tables : List RangeSheetDescriptor
  innerSources : List ℕ := []

/-- The state of the runtime; `tableSources` gives the range source and the private source of each
    open worksheet. -/
structure State where
  runtime : ExcelRuntime
  operationBudgetBytes : ℕ
  nextOperation : ℕ := 1
  nextSource : ℕ := 1
  operations : InsertionMap ℕ TrackedOperation := .empty
  rangeSources : InsertionMap ℕ RangeSource := .empty
  tableSources : InsertionMap ℕ (ℕ × ℕ) := .empty

/-- What a call returns to the host. -/
inductive Reply
  | pending (operation revision : ℕ) (actions : List AdapterAction)
  | openedSource (operation revision source retainedBytes : ℕ) (tables : List RangeSheetDescriptor)
  | openedTable (operation : Option ℕ) (table : ExcelTableOpenResult)
  | closed (found : Bool)
  | done

/-! ## Opening a workbook -/

/-- What an open comes to: it waits for a range, or it has found the workbook. -/
inductive OpenAdvance
  | need (pending : PendingOpen) (range : HostRange)
  | xlsx (indexed : IndexedRanges) (index : ZipDirectoryIndex) (entries : List RawZipEntry)
      (tables : List RangeSheetDescriptor)
  | xls (indexed : IndexedRanges) (compact : List UInt8)

/-- The error of a format that the options exclude. -/
def ensureRangeFormatHint (hint : ExcelFormatHint) (actual : ExcelFormat) : Result Unit :=
  if hint.Allows actual then .ok ()
  else .error ((TabularkError.new .parseFailed
    "Excel source format does not match the requested format").withDetail
    "actualFormat" (.text (formatName actual)))

/-- The error of a package without a workbook. -/
def missingWorkbook : TabularkError := .new .parseFailed "XLSX workbook entry is missing"

/-- The content of an entry that was fetched. -/
def decodeEntry (p : RangeParsers) (entries : List RawZipEntry) (name message : String) :
    Result (List UInt8) :=
  match entries.find? (·.name = name) with
  | none => .error (.new .runtimeFailure message)
  | some entry => p.decode entry

namespace PendingOpen

variable (p : RangeParsers) (o : PendingOpen)

/-- Fetches the workbook and its relationships, and reads its worksheets. -/
def advanceWorkbook (index : ZipDirectoryIndex) (fetch : EntryFetch) : Result OpenAdvance := do
  let advanced ← fetch.advance o.indexed index
  match advanced.1 with
  | some range => .ok (.need { o with phase := .xlsxWorkbook index advanced.2 } range)
  | none =>
    match index.workbookPath with
    | none => .error missingWorkbook
    | some workbookPath => do
      let entries := advanced.2.entries
      let relationshipsPath := workbookRelationshipsPath workbookPath
      let workbook ← decodeEntry p entries workbookPath
        "indexed XLSX workbook entry was lost"
      let relationships ← decodeEntry p entries relationshipsPath
        "indexed XLSX relationships entry was lost"
      let tables ← p.parseWorkbookDescriptors workbook relationships relationshipsPath
      .ok (.xlsx o.indexed index entries tables)

/-- Reads the central directory of a package. -/
def advanceCentral : Result OpenAdvance := do
  let tailRange ← tailRange o.sourceLength
  match o.indexed.bytes tailRange with
  | none => .error (.new .rangeNotIndexed "XLSX ZIP tail is not indexed")
  | some tail => do
    let location ← parseEndOfCentralDirectory tail tailRange.offset o.sourceLength
    match o.indexed.bytes location.range with
    | none => .error (.new .rangeNotIndexed "XLSX central directory is not indexed")
    | some central => do
      let index ← parseCentralDirectory central location.entries o.sourceLength
      match index.workbookPath with
      | none => .error missingWorkbook
      | some workbook =>
        let relationships := workbookRelationshipsPath workbook
        if (index.entry "[Content_Types].xml").isNone ∨ (index.entry relationships).isNone then
          .error (.new .parseFailed "XLSX package is missing required workbook metadata")
        else advanceWorkbook p o index ⟨[workbook, relationships], []⟩

/-- Follows the sectors of a compound file. -/
def advanceXls : Result OpenAdvance := do
  let compact ← p.compactXls o.indexed
  match compact with
  | .inl range => .ok (.need { o with phase := .xlsIndex } range)
  | .inr compact => .ok (.xls o.indexed compact)

/-- The signature of a compound file. -/
def cfbSignature : List UInt8 := [0xd0, 0xcf, 0x11, 0xe0, 0xa1, 0xb1, 0x1a, 0xe1]

/-- Reads the signature, and of a package the end. -/
def advanceDetect : Result OpenAdvance := do
  let signatureRange ← HostRange.new 0 8 o.sourceLength
  match o.indexed.bytes signatureRange with
  | none => .error (.new .rangeNotIndexed "Excel container signature is not indexed")
  | some signature =>
    if signature = cfbSignature then do
      ensureRangeFormatHint o.options.format .xls
      advanceXls p o
    else if signature.take 2 ≠ [0x50, 0x4b] then
      .error (.new .parseFailed
        "source does not have a supported Excel container signature")
    else do
      ensureRangeFormatHint o.options.format .xlsx
      let tailRange ← tailRange o.sourceLength
      match o.indexed.bytes tailRange with
      | none => do
        let missing ← o.indexed.missing tailRange "XLSX tail is indexed but unavailable"
        .ok (.need o missing)
      | some tail => do
        let location ← parseEndOfCentralDirectory tail tailRange.offset o.sourceLength
        match o.indexed.bytes location.range with
        | none => do
          let missing ← o.indexed.missing location.range
            "XLSX central directory is indexed but unavailable"
          .ok (.need { o with phase := .xlsxCentral } missing)
        | some _ => advanceCentral p o

/-- Goes on with an open. -/
def advance : Result OpenAdvance :=
  match o.phase with
  | .detect => advanceDetect p o
  | .xlsxCentral => advanceCentral p o
  | .xlsxWorkbook index fetch => advanceWorkbook p o index fetch
  | .xlsIndex => advanceXls p o

end PendingOpen

/-- Issues one range. -/
def readRangesStep (cursor : AdapterOperationCursor) (range : HostRange)
    (operationBudgetBytes : ℕ) : Result AdapterOperationCursor :=
  cursor.issue [⟨0, range.offset, range.length⟩] operationBudgetBytes

/-- The error of a runtime whose operation handles are used up. -/
def operationsExhausted : TabularkError :=
  .new .resourceLimit "Excel operation handle space exhausted"

/-- The error of a runtime whose source handles are used up. -/
def sourcesExhausted : TabularkError :=
  .new .resourceLimit "Excel range source handle space exhausted"

/-- What an operation comes to: it waits, or it is over. -/
inductive OperationAdvance
  | pending (operation : TrackedOperation)
  | complete (reply : Reply)

namespace State

/-- The next operation handle. -/
def allocateOperation (s : State) : Result (ℕ × State) := do
  let nextOperation ← checkedAdd u32Max s.nextOperation 1 operationsExhausted
  .ok (s.nextOperation, { s with nextOperation })

/-- The next source handle. -/
def allocateSource (s : State) : Result (ℕ × State) := do
  let nextSource ← checkedAdd u32Max s.nextSource 1 sourcesExhausted
  .ok (s.nextSource, { s with nextSource })

/-- The reply to a workbook that was opened, unless it has no worksheets. -/
def completeRangeOpen (operation revision source retainedBytes : ℕ)
    (tables : List RangeSheetDescriptor) : Result OperationAdvance :=
  if tables.isEmpty then
    .error (.new .unsupportedFeature "Excel workbook contains no worksheet tables")
  else do
    validateSafeInteger "Excel retained bytes" retainedBytes
    .ok (.complete (.openedSource operation revision source retainedBytes tables))

/-- Registers a range source; it stays registered when the reply fails. -/
def registerSource (s : State) (operation : ℕ) (cursor : AdapterOperationCursor)
    (retainedBytes : Result ℕ) (source : RangeSource) : State × Result OperationAdvance :=
  match s.allocateSource with
  | .error e => (s, .error e)
  | .ok (sourceHandle, s) =>
    match cursor.completeRevision with
    | .error e => (s, .error e)
    | .ok cursor =>
      match retainedBytes with
      | .error e => (s, .error e)
      | .ok retainedBytes =>
        ({ s with rangeSources := s.rangeSources.set sourceHandle source },
          completeRangeOpen operation cursor.revision sourceHandle retainedBytes source.tables)

/-- The worksheets of a compound file, read through a source that is closed again. -/
def listXls (p : RangeParsers) (s : State) (compact : List UInt8) (options : ExcelOptions) :
    State × Result (List RangeSheetDescriptor) :=
  match s.runtime.openSource p.toParsers compact options with
  | .error e => (s, .error e)
  | .ok (inner, runtime) =>
    match runtime.listTables inner with
    | .error e => ({ s with runtime }, .error e)
    | .ok listed => ({ s with runtime := (runtime.closeSource inner).1 },
      .ok (listed.map fun table => ⟨table.id, table.name, table.visibility, ""⟩))

/-- Goes on with the opening of a workbook. -/
def advanceOpen (p : RangeParsers) (s : State) (operation : ℕ) (o : TrackedOpen) :
    State × Result OperationAdvance :=
  match o.pending.advance p with
  | .error e => (s, .error e)
  | .ok (.need pending range) =>
    match readRangesStep o.cursor range s.operationBudgetBytes with
    | .error e => (s, .error e)
    | .ok cursor => (s, .ok (.pending (.openSource ⟨cursor, pending, [range]⟩)))
  | .ok (.xlsx indexed index entries tables) =>
    s.registerSource operation o.cursor (.ok indexed.retainedBytes)
      { options := o.pending.options, indexed, kind := .xlsx index entries, tables }
  | .ok (.xls indexed compact) =>
    match s.listXls p compact o.pending.options with
    | (s, .error e) => (s, .error e)
    | (s, .ok tables) =>
      s.registerSource operation o.cursor
        (checkedAdd u64Max indexed.retainedBytes compact.length
          (.new .resourceLimit "XLS retained-byte accounting overflows"))
        { options := o.pending.options, indexed, kind := .xls compact, tables }

/-! ## Opening a worksheet -/

/-- The error of a range source that is not open. -/
def closedRangeSource : TabularkError := .new .handleClosed "Excel range source handle is closed"

/-- Opens a worksheet from a compact workbook, through a source of its own. -/
def openCompactTable (p : RangeParsers) (s : State) (rangeSource : ℕ) (tableId : String)
    (compact : List UInt8) (options : ExcelOptions) : State × Result ExcelTableOpenResult :=
  match s.runtime.openSource p.toParsers compact options with
  | .error e => (s, .error e)
  | .ok (innerSource, runtime) =>
    match runtime.openTable p.toParsers innerSource tableId with
    | (runtime, .error e) =>
      ({ s with runtime := (runtime.closeSource innerSource).1 }, .error e)
    | (runtime, .ok opened) =>
      -- What is undone when the worksheet cannot be handed over.
      let undone := ((runtime.closeTable opened.tableHandle).1.closeSource innerSource).1
      match p.toJs opened with
      | .error e => ({ s with runtime := undone }, .error e)
      | .ok () =>
        match s.rangeSources.get? rangeSource with
        | none =>
          ({ s with runtime := undone }, .error (.new .handleClosed
            "Excel range source closed while its worksheet was opening"))
        | some source =>
          ({ s with
            runtime
            rangeSources := s.rangeSources.set rangeSource { source with
              innerSources := source.innerSources ++ [innerSource] }
            tableSources := s.tableSources.set opened.tableHandle (rangeSource, innerSource) },
            .ok opened)

/-- The package of one worksheet. -/
def compactWorksheet (p : RangeParsers) (source : RangeSource) (tableId : String)
    (entries : List RawZipEntry) : Result (List UInt8) :=
  match source.tables.find? (·.id = tableId) with
  | none => .error (.new .invalidArgument
    "Excel dataset does not contain the requested worksheet")
  | some selected => p.buildCompactXlsx entries source.tables selected.path

/-- Goes on with the opening of a worksheet. -/
def advanceOpenTable (p : RangeParsers) (s : State) (operation : ℕ) (o : PendingOpenTable) :
    State × Result OperationAdvance :=
  match o.fetch with
  | none =>
    (s, .error (.new .runtimeFailure "Excel worksheet operation lost its ZIP fetch state"))
  | some (index, fetch) =>
    match s.rangeSources.get? o.sourceHandle with
    | none => (s, .error closedRangeSource)
    | some source =>
      match fetch.advance source.indexed index with
      | .error e => (s, .error e)
      | .ok (some range, fetch) =>
        match readRangesStep o.cursor range s.operationBudgetBytes with
        | .error e => (s, .error e)
        | .ok cursor =>
          (s, .ok (.pending (.openTable { o with
            cursor
            expected := [range]
            fetch := some (index, fetch) })))
      | .ok (none, fetch) =>
        match compactWorksheet p source o.tableId fetch.entries with
        | .error e => (s, .error e)
        | .ok compact =>
          match s.openCompactTable p o.sourceHandle o.tableId compact source.options with
          | (s, .error e) => (s, .error e)
          | (s, .ok table) =>
            match o.cursor.completeRevision with
            | .error e => (s, .error e)
            | .ok _ => (s, .ok (.complete (.openedTable (some operation) table)))

/-- Opens a worksheet of a compound file. -/
def openIndexedTable (p : RangeParsers) (s : State) (sourceHandle : ℕ) (tableId : String) :
    State × Result ExcelTableOpenResult :=
  match s.rangeSources.get? sourceHandle with
  | none => (s, .error closedRangeSource)
  | some source =>
    if source.tables.any (·.id = tableId) then
      match source.kind with
      | .xls compact => s.openCompactTable p sourceHandle tableId compact source.options
      | .xlsx _ _ =>
        (s, .error ((TabularkError.new .rangeNotIndexed
          "XLSX worksheet has not been indexed by an open-table operation").withDetail
          "tableId" (.text tableId)))
    else (s, .error (unknownWorksheet tableId))

/-! ## The calls of the host -/

/-- Starts to open a workbook. -/
def beginOpen (s : State) (options : ExcelOptions) (sourceLength : ℕ) : State × Result Reply :=
  if maxRangeSourceBytes < sourceLength then
    (s, .error ((((TabularkError.new .resourceLimit
      "Excel range source exceeds the exact 4 GiB-1 address limit").withDetail
      "resource" (.text "source-bytes")).withDetail
      "requiredBytes" (.number sourceLength)).withDetail
      "availableBytes" (.number maxRangeSourceBytes)))
  else if sourceLength < 8 then
    (s, .error (.new .parseFailed
      "Excel source is too short to contain a supported signature"))
  else
    match s.allocateOperation with
    | .error e => (s, .error e)
    | .ok (operation, s) =>
      match HostRange.new 0 8 sourceLength with
      | .error e => (s, .error e)
      | .ok range =>
        match readRangesStep {} range s.operationBudgetBytes with
        | .error e => (s, .error e)
        | .ok cursor =>
          let pending : PendingOpen := ⟨options, sourceLength, .new sourceLength, .detect⟩
          let tracked := TrackedOperation.openSource ⟨cursor, pending, [range]⟩
          ({ s with operations := s.operations.set operation tracked },
            .ok (.pending operation cursor.revision cursor.outstanding))

/-- Registers an operation that waits, and replies. -/
def settle (operation : ℕ) :
    State × Result OperationAdvance → State × Result Reply
  | (s', .error e) => (s', .error e)
  | (s', .ok (.complete reply)) => (s', .ok reply)
  | (s', .ok (.pending tracked)) =>
    ({ s' with operations := s'.operations.set operation tracked },
      .ok (.pending operation tracked.cursor.revision tracked.cursor.outstanding))

/-- Supplies ranges to an operation. An operation whose results are refused stays; one that fails
    later is gone. -/
def continueOperation (p : RangeParsers) (s : State) (operation operationRevision : ℕ)
    (results : List AdapterActionResult) : State × Result Reply :=
  match s.operations.get? operation with
  | none => (s, .error (.new .handleClosed "Excel operation handle is closed"))
  | some tracked =>
    match tracked.cursor.validateResults operationRevision results with
    | .error e => (s, .error e)
    | .ok cursor =>
      let removed := { s with operations := s.operations.delete operation }
      match tracked with
      | .openSource o =>
        match applyIndexedResultsMut o.expected o.pending.indexed results with
        | (indexed, .error e) =>
          let refused := { o with cursor, pending := { o.pending with indexed } }
          ({ removed with operations := removed.operations.set operation (.openSource refused) },
            .error e)
        | (indexed, .ok ()) =>
          settle operation (removed.advanceOpen p operation
            { o with cursor, pending := { o.pending with indexed } })
      | .openTable o =>
        match s.rangeSources.get? o.sourceHandle with
        | none =>
          let refused := { o with cursor }
          ({ removed with operations := removed.operations.set operation (.openTable refused) },
            .error (.new .handleClosed "Excel range source was closed during worksheet open"))
        | some source =>
          match applyIndexedResultsMut o.expected source.indexed results with
          | (indexed, .error e) =>
            ({ removed with
              rangeSources := s.rangeSources.set o.sourceHandle { source with indexed }
              operations := removed.operations.set operation (.openTable { o with cursor }) },
              .error e)
          | (indexed, .ok ()) =>
            let applied := { removed with
              rangeSources := s.rangeSources.set o.sourceHandle { source with indexed } }
            settle operation (applied.advanceOpenTable p operation { o with cursor })

/-- Opens a worksheet at once. -/
def openTable (p : RangeParsers) (s : State) (sourceHandle : ℕ) (tableId : String) :
    State × Result Reply :=
  match s.openIndexedTable p sourceHandle tableId with
  | (s, .error e) => (s, .error e)
  | (s, .ok table) => (s, .ok (.openedTable none table))

/-- The entries of the package that a worksheet needs, sorted and each once. -/
def worksheetPaths (index : ZipDirectoryIndex) (workbookPath targetPath : String) : List String :=
  let optional := ["_rels/.rels", "xl/styles.xml", "xl/sharedStrings.xml", "xl/theme/theme1.xml"]
  (["[Content_Types].xml", workbookPath, workbookRelationshipsPath workbookPath] ++
    optional.filter (fun name => (index.entry name).isSome) ++ [targetPath]).mergeSort.dedup

/-- Starts to open a worksheet. -/
def beginOpenTable (p : RangeParsers) (s : State) (sourceHandle : ℕ) (tableId : String) :
    State × Result Reply :=
  match s.allocateOperation with
  | .error e => (s, .error e)
  | .ok (operation, s) =>
    match s.rangeSources.get? sourceHandle with
    | none => (s, .error closedRangeSource)
    | some source =>
      match source.tables.find? (·.id = tableId) with
      | none => (s, .error (unknownWorksheet tableId))
      | some target =>
        match source.kind with
        | .xls _ =>
          match s.openIndexedTable p sourceHandle tableId with
          | (s, .error e) => (s, .error e)
          | (s, .ok table) => (s, .ok (.openedTable (some operation) table))
        | .xlsx index workbookEntries =>
          match index.workbookPath with
          | none => (s, .error missingWorkbook)
          | some workbookPath =>
            let paths := worksheetPaths index workbookPath target.path
            settle operation (s.advanceOpenTable p operation
              { sourceHandle, tableId, fetch := some (index, ⟨paths, workbookEntries⟩) })

/-- Drops an operation. -/
def cancelOperation (s : State) (operation : ℕ) : State × Result Reply :=
  ({ s with operations := s.operations.delete operation },
    .ok (.closed (s.operations.get? operation).isSome))

/-- Closes a worksheet and its private source. -/
def closeTable (s : State) (table : ℕ) : State × Result Reply :=
  let (runtime, closed) := s.runtime.closeTable table
  match s.tableSources.get? table with
  | none => ({ s with runtime }, .ok (.closed closed))
  | some (rangeSource, innerSource) =>
    let s := { s with
      runtime := (runtime.closeSource innerSource).1
      tableSources := s.tableSources.delete table }
    match s.rangeSources.get? rangeSource with
    | none => (s, .ok (.closed closed))
    | some source =>
      let source := { source with innerSources := source.innerSources.filter (· ≠ innerSource) }
      ({ s with rangeSources := s.rangeSources.set rangeSource source }, .ok (.closed closed))

/-- The worksheets of a range source. -/
def tablesOf (s : State) (source : ℕ) : List ℕ :=
  (s.tableSources.entries.filter fun e => e.2.1 = source).map Prod.fst

/-- Closes a worksheet of a range source that is being closed. -/
def dropTable (s : State) (table : ℕ) : State :=
  { s with
    runtime := (s.runtime.closeTable table).1
    tableSources := s.tableSources.delete table }

/-- Closes a private source of a range source that is being closed. -/
def dropInner (s : State) (inner : ℕ) : State :=
  { s with runtime := (s.runtime.closeSource inner).1 }

/-- Closes a workbook, its worksheets and their private sources. The operations that open
    worksheets of it stay. -/
def closeSource (s : State) (source : ℕ) : State × Result Reply :=
  match s.rangeSources.get? source with
  | none => (s, .ok (.closed false))
  | some value =>
    let removed := { s with rangeSources := s.rangeSources.delete source }
    let dropped := (removed.tablesOf source).foldl dropTable removed
    (value.innerSources.foldl dropInner dropped, .ok (.closed true))

/-- Closes everything. -/
def shutdown (s : State) : State × Result Reply :=
  ({ s with
    operations := .empty
    rangeSources := .empty
    tableSources := .empty
    runtime := s.runtime.shutdown }, .ok .done)

end State

/-- A call of the host. -/
inductive Call
  | beginOpen (options : ExcelOptions) (sourceLength : ℕ)
  | continueOperation (operation operationRevision : ℕ) (results : List AdapterActionResult)
  | openTable (source : ℕ) (tableId : String)
  | beginOpenTable (source : ℕ) (tableId : String)
  | closeTable (table : ℕ)
  | closeSource (source : ℕ)
  | cancelOperation (operation : ℕ)
  | shutdown

/-- What a call does, and what it replies. -/
def State.call (p : RangeParsers) (s : State) : Call → State × Result Reply
  | .beginOpen options sourceLength => s.beginOpen options sourceLength
  | .continueOperation operation operationRevision results =>
    s.continueOperation p operation operationRevision results
  | .openTable source tableId => s.openTable p source tableId
  | .beginOpenTable source tableId => s.beginOpenTable p source tableId
  | .closeTable table => s.closeTable table
  | .closeSource source => s.closeSource source
  | .cancelOperation operation => s.cancelOperation operation
  | .shutdown => s.shutdown

/-- The limits that the host configures. -/
structure WasmConfig where
  memoryBudgetBytes : ℕ := 256 * 1024 * 1024
  maxSources : ℕ := 8
  maxRangeCells : ℕ := 250000
  maxBatchBytes : ℕ := 32 * 1024 * 1024

/-- An empty runtime. -/
def State.new (config : WasmConfig) : Result State :=
  if config.memoryBudgetBytes = 0 ∨ config.maxSources = 0 ∨ config.maxRangeCells = 0 ∨
      config.maxBatchBytes = 0 then
    .error (.new .invalidArgument "Excel runtime resource limits must be greater than zero")
  else do
    let limits : ExcelLimits := {}
    let runtime ← ExcelRuntime.new {
      memoryBudgetBytes := config.memoryBudgetBytes
      maxSources := max config.maxSources 512
      limits := { limits with
        maxSourceBytes := min limits.maxSourceBytes config.memoryBudgetBytes
        maxRangeCells := config.maxRangeCells
        maxBatchBytes := min config.maxBatchBytes config.memoryBudgetBytes } }
    .ok { runtime, operationBudgetBytes := config.memoryBudgetBytes }

end Wasm

end Tabulark.Excel
