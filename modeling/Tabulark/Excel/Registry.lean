import Tabulark.Excel.Limits
import Tabulark.Lib.InsertionMap

/-!
# The workbook registry

`ExcelRuntime` holds open workbooks and worksheets under handles of one counter,
and charges what each retains to one budget. What the inspection, Calamine and
the presentation parser return is arbitrary (`Parsers`).
-/

namespace Tabulark.Excel

/-! ## What is parsed -/

/-- The format of a source and the bytes that its inspection reserves. -/
structure ExcelInspection where
  format : ExcelFormat
  reservedBytes : ℕ

/-- What the registry asks of a parsed presentation. -/
structure PresentationSummary where
  retainedBytes : Result ℕ
  dimensions : ExcelTableDescriptor → Option (ℕ × ℕ)

/-- A dense range of cells: where it ends, and the capacities of the strings in its used cells. -/
structure CellRange where
  stop : Option (ℕ × ℕ)
  capacities : List ℕ

/-- An opened worksheet, as it is returned to the host. -/
structure ExcelTableOpenResult where
  tableHandle : ℕ
  metadata : TableMetadata

/-- What the inspection, the presentation parser, Calamine and the JavaScript boundary return
    during one call. -/
structure Parsers where
  inspectExcelSource : List UInt8 → ExcelLimits → ℕ → Result ExcelInspection
  parsePresentation : ExcelFormat → List UInt8 → ExcelLimits → Result PresentationSummary
  openWorkbook : ExcelFormat → List UInt8 → ExcelLimits → Result (List ExcelTableDescriptor)
  worksheetRange : ℕ → String → Result CellRange
  worksheetFormula : ℕ → String → Result CellRange
  buildMetadata : ExcelTableDescriptor → SheetShape → Result TableMetadata
  toJs : ExcelTableOpenResult → Result Unit
  dataBytes : ℕ
  stringBytes : ℕ

/-! ## The registry -/

/-- The configuration of a registry. -/
structure ExcelRuntimeConfig where
  memoryBudgetBytes : ℕ := 256 * 1024 * 1024
  maxSources : ℕ := 8
  limits : ExcelLimits := {}

/-- An open workbook. -/
structure ExcelSource where
  format : ExcelFormat
  sourceName : Option String
  reservedBytes : ℕ
  tables : List ExcelTableDescriptor
  presentation : PresentationSummary

/-- An open worksheet. -/
structure OpenTable where
  source : ℕ
  descriptor : ExcelTableDescriptor
  metadata : TableMetadata
  shape : SheetShape
  range : CellRange
  reservedBytes : ℕ

/-- The open workbooks and worksheets, and what they retain. -/
structure ExcelRuntime where
  config : ExcelRuntimeConfig
  nextHandle : ℕ := 1
  retainedBytes : ℕ := 0
  sources : InsertionMap ℕ ExcelSource := .empty
  tables : InsertionMap ℕ OpenTable := .empty

/-- The bytes a worksheet retains, and those it needs to open. -/
structure WorksheetReservation where
  retainedBytes : ℕ
  openBytes : ℕ

/-- What the dense cells of a worksheet take. -/
def worksheetReservation (p : Parsers) (shape : SheetShape) : Result WorksheetReservation := do
  let cells ← checkedMul u64Max shape.rows shape.columns
    (.new .resourceLimit "Excel worksheet cell reservation overflows")
  let cells ← toUsize cells
    (.new .resourceLimit
      "Excel worksheet cell reservation exceeds the supported integer range")
  let retainedBytes ← checkedMul usizeMax cells p.dataBytes
    (.new .resourceLimit "Excel worksheet data reservation overflows")
  let formulaBytes ← checkedMul usizeMax cells p.stringBytes
    (.new .resourceLimit "Excel worksheet formula reservation overflows")
  let openBytes ← checkedAdd usizeMax retainedBytes formulaBytes
    (.new .resourceLimit "Excel worksheet open reservation overflows")
  .ok ⟨retainedBytes, openBytes⟩

/-- The sum of the capacities of strings. -/
def stringBytes (message : String) (capacities : List ℕ) : Result ℕ :=
  capacities.foldlM (fun bytes capacity =>
    checkedAdd usizeMax bytes capacity (.new .resourceLimit message)) 0

/-- What the cells of a worksheet take, with their strings. -/
def worksheetReservationWithContents (p : Parsers) (shape : SheetShape)
    (values formulas : CellRange) : Result WorksheetReservation := do
  let reservation ← worksheetReservation p shape
  let valueHeapBytes ← stringBytes
    "Excel worksheet value-string reservation overflows" values.capacities
  let formulaHeapBytes ← stringBytes
    "Excel worksheet formula-string reservation overflows" formulas.capacities
  let retainedBytes ← checkedAdd usizeMax reservation.retainedBytes valueHeapBytes
    (.new .resourceLimit "Excel retained worksheet reservation overflows")
  let openOverflow := TabularkError.new .resourceLimit
    "Excel worksheet open string reservation overflows"
  let openBytes ← checkedAdd usizeMax reservation.openBytes valueHeapBytes openOverflow
  let openBytes ← checkedAdd usizeMax openBytes formulaHeapBytes openOverflow
  .ok ⟨retainedBytes, openBytes⟩

/-- The shape of a worksheet: its cells, and what its presentation declares. -/
def sheetShape (range : CellRange) (presentationDimensions : Option (ℕ × ℕ))
    (limits : ExcelLimits) : Result SheetShape :=
  let (rows, columns) := match range.stop with
    | some (row, column) => (row + 1, column + 1)
    | none => (0, 0)
  match presentationDimensions with
  | some (presentationRows, presentationColumns) =>
    validateSheetShape (max rows presentationRows) (max columns presentationColumns) limits
  | none => validateSheetShape rows columns limits

namespace ExcelSource

/-- Parses a workbook. -/
def new (p : Parsers) (bytes : List UInt8) (options : ExcelOptions) (limits : ExcelLimits)
    (inspection : ExcelInspection) (availableBytes : ℕ) : Result ExcelSource := do
  let format := inspection.format
  ensureFormatHint options.format format
  let presentation ← p.parsePresentation format bytes limits
  let reservedBytes ← match format with
    | .xls => .ok inspection.reservedBytes
    | .xlsx => do
      -- The inspection of a package does not count what its presentation retains.
      let presentationBytes ← presentation.retainedBytes
      let reservedBytes ← checkedAdd usizeMax inspection.reservedBytes presentationBytes
        (.new .resourceLimit "Excel XLSX presentation reservation overflows")
      ensureReservationBudget "xlsx-presentation-working-set" reservedBytes availableBytes
        "Excel XLSX source, parse, and retained presentation exceed the available memory budget"
      .ok reservedBytes
  let tables ← p.openWorkbook format bytes limits
  if tables.isEmpty then
    .error (.new .unsupportedFeature "Excel workbook contains no worksheet tables")
  else .ok ⟨format, options.sourceName, reservedBytes, tables, presentation⟩

/-- The worksheet with an id. -/
def descriptor (s : ExcelSource) (tableId : String) : Result ExcelTableDescriptor :=
  match s.tables.find? (·.id = tableId) with
  | some table => .ok table
  | none => .error (unknownWorksheet tableId)

/-- The shape that the presentation declares for a worksheet. -/
def declaredShape (s : ExcelSource) (tableId : String) (limits : ExcelLimits) :
    Result SheetShape := do
  let descriptor ← s.descriptor tableId
  let (rows, columns) := (s.presentation.dimensions descriptor).getD (0, 0)
  validateSheetShape rows columns limits

/-- Reads a worksheet: what is retained of it, and what that takes. -/
def prepareTable (p : Parsers) (s : ExcelSource) (source : ℕ) (tableId : String)
    (limits : ExcelLimits) : Result (OpenTable × WorksheetReservation) := do
  let descriptor ← s.descriptor tableId
  let range ← p.worksheetRange source descriptor.name
  let shape ← sheetShape range (s.presentation.dimensions descriptor) limits
  let metadata ← p.buildMetadata descriptor shape
  let formulas ← p.worksheetFormula source descriptor.name
  let reservation ← worksheetReservationWithContents p shape range formulas
  .ok (⟨source, descriptor, metadata, shape, range, reservation.retainedBytes⟩, reservation)

end ExcelSource

namespace ExcelRuntime

/-- The error of a registry that is beyond its budget. -/
def exceedsBudget : TabularkError :=
  .new .runtimeFailure "Excel memory reservations exceed the runtime budget"

/-- An empty registry. -/
def new (config : ExcelRuntimeConfig) : Result ExcelRuntime := do
  config.limits.validate
  if config.memoryBudgetBytes = 0 ∨ config.maxSources = 0 then
    .error (.new .invalidArgument "Excel runtime resource limits must be greater than zero")
  else if config.memoryBudgetBytes < config.limits.maxSourceBytes then
    .error (((TabularkError.new .invalidArgument
      "Excel source limit must not exceed the runtime memory budget").withDetail
      "maxSourceBytes" (.number config.limits.maxSourceBytes)).withDetail
      "memoryBudgetBytes" (.number config.memoryBudgetBytes))
  else .ok { config }

/-- What is left of the budget. -/
def availableBytes (r : ExcelRuntime) : Result ℕ :=
  if r.config.memoryBudgetBytes < r.retainedBytes then .error exceedsBudget
  else .ok (r.config.memoryBudgetBytes - r.retainedBytes)

/-- The next handle. -/
def allocateHandle (r : ExcelRuntime) : Result (ℕ × ExcelRuntime) := do
  let nextHandle ← checkedAdd u32Max r.nextHandle 1
    (.new .resourceLimit "Excel runtime handle space exhausted")
  .ok (r.nextHandle, { r with nextHandle })

/-- Opens a workbook; nothing changes if that fails. -/
def openSource (p : Parsers) (r : ExcelRuntime) (bytes : List UInt8) (options : ExcelOptions) :
    Result (ℕ × ExcelRuntime) :=
  if r.config.maxSources ≤ r.sources.size then
    .error ((((TabularkError.new .resourceLimit
      "Excel runtime has reached its open-source limit").withDetail
      "resource" (.text "open-sources")).withDetail
      "required" (.number (r.sources.size + 1))).withDetail
      "available" (.number r.config.maxSources))
  else do
    let availableBytes ← r.availableBytes
    let inspection ← p.inspectExcelSource bytes r.config.limits availableBytes
    let source ← ExcelSource.new p bytes options r.config.limits inspection availableBytes
    let retainedBytes ← checkedAdd usizeMax r.retainedBytes source.reservedBytes
      (.new .resourceLimit "Excel source memory reservation overflows")
    if r.config.memoryBudgetBytes < retainedBytes then
      .error (resourceLimit "staging" retainedBytes r.config.memoryBudgetBytes
        "Excel runtime exceeds its aggregate staging budget")
    else do
      let (handle, r) ← r.allocateHandle
      .ok (handle, { r with
        retainedBytes
        sources := r.sources.set handle source })

/-- The worksheets of a workbook. -/
def listTables (r : ExcelRuntime) (source : ℕ) : Result (List ExcelTableDescriptor) :=
  match r.sources.get? source with
  | some value => .ok value.tables
  | none => .error (closedHandle "source")

/-- Opens a worksheet. What is retained is charged after the handle is taken, so that a sum that
    overflows keeps the handle. -/
def openTable (p : Parsers) (r : ExcelRuntime) (source : ℕ) (tableId : String) :
    ExcelRuntime × Result ExcelTableOpenResult :=
  let prepared : Result (OpenTable × ℕ × ExcelRuntime) :=
    match r.sources.get? source with
    | none => .error (closedHandle "source")
    | some value => do
      let declaredShape ← value.declaredShape tableId r.config.limits
      let declaredReservation ← worksheetReservation p declaredShape
      let availableBytes ← r.availableBytes
      let workingSet := "worksheet-open-working-set"
      let exceeds := "Excel worksheet parse working set exceeds the available memory budget"
      ensureReservationBudget workingSet declaredReservation.openBytes availableBytes exceeds
      let (table, reservation) ← value.prepareTable p source tableId r.config.limits
      ensureReservationBudget workingSet reservation.openBytes availableBytes exceeds
      let (tableHandle, allocated) ← r.allocateHandle
      .ok (table, tableHandle, allocated)
  match prepared with
  | .error e => (r, .error e)
  | .ok (table, tableHandle, allocated) =>
    match checkedAdd usizeMax r.retainedBytes table.reservedBytes
      (.new .resourceLimit "Excel opened-worksheet memory reservation overflows") with
    | .error e => (allocated, .error e)
    | .ok retainedBytes =>
      ({ allocated with
        retainedBytes
        tables := allocated.tables.set tableHandle table }, .ok ⟨tableHandle, table.metadata⟩)

/-- Closes a worksheet. -/
def closeTable (r : ExcelRuntime) (table : ℕ) : ExcelRuntime × Bool :=
  match r.tables.get? table with
  | none => (r, false)
  | some value =>
    ({ r with
      tables := r.tables.delete table
      retainedBytes := r.retainedBytes - value.reservedBytes }, true)

/-- The worksheets of a workbook are closed with it. -/
def tablesWithout (r : ExcelRuntime) (source : ℕ) : InsertionMap ℕ OpenTable where
  entries := r.tables.entries.filter fun e => e.2.source ≠ source
  nodup := r.tables.nodup.sublist (List.filter_sublist.map _)

/-- What the worksheets of a workbook retain. -/
def tableBytes (r : ExcelRuntime) (source : ℕ) : ℕ :=
  ((r.tables.entries.filter fun e => e.2.source = source).map fun e => e.2.reservedBytes).sum

/-- Closes a workbook and its worksheets. -/
def closeSource (r : ExcelRuntime) (source : ℕ) : ExcelRuntime × Bool :=
  match r.sources.get? source with
  | none => (r, false)
  | some value =>
    ({ r with
      sources := r.sources.delete source
      tables := r.tablesWithout source
      retainedBytes := r.retainedBytes - (value.reservedBytes + r.tableBytes source) }, true)

/-- Closes everything. -/
def shutdown (r : ExcelRuntime) : ExcelRuntime :=
  { r with
    tables := .empty
    sources := .empty
    retainedBytes := 0 }

end ExcelRuntime

end Tabulark.Excel
