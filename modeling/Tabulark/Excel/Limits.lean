import Tabulark.Model

/-!
# Formats and limits of the Excel adapter

The formats, the options of one source, the limits that the adapter checks before
it allocates, and the errors of its registry.
-/

namespace Tabulark.Excel

/-- The workbook formats. -/
inductive ExcelFormat
  | xls
  | xlsx
  deriving DecidableEq, Repr

/-- A constraint on the format, which is always detected from the bytes. -/
inductive ExcelFormatHint
  | auto
  | xls
  | xlsx
  deriving DecidableEq, Repr

/-- The name of a format. -/
def formatName : ExcelFormat → String
  | .xls => "xls"
  | .xlsx => "xlsx"

/-- The name of a constraint. -/
def formatHintName : ExcelFormatHint → String
  | .auto => "auto"
  | .xls => "xls"
  | .xlsx => "xlsx"

/-- The format is one that the constraint allows. -/
def ExcelFormatHint.Allows : ExcelFormatHint → ExcelFormat → Prop
  | .auto, _ => True
  | .xls, actual => actual = .xls
  | .xlsx, actual => actual = .xlsx

instance : ∀ hint actual, Decidable (ExcelFormatHint.Allows hint actual)
  | .auto, _ => .isTrue trivial
  | .xls, actual => inferInstanceAs (Decidable (actual = .xls))
  | .xlsx, actual => inferInstanceAs (Decidable (actual = .xlsx))

/-- The options of a source. -/
structure ExcelOptions where
  format : ExcelFormatHint := .auto
  sourceName : Option String := none
  deriving DecidableEq, Repr

/-- Whether a worksheet is shown. -/
inductive ExcelSheetVisibility
  | visible
  | hidden
  | veryHidden
  deriving DecidableEq, Repr

/-- A worksheet of a workbook. -/
structure ExcelTableDescriptor where
  id : String
  name : String
  workbookOrdinal : ℕ
  visibility : ExcelSheetVisibility
  deriving DecidableEq, Repr

/-- The most that the adapter takes of each resource. -/
structure ExcelLimits where
  maxSourceBytes : ℕ := 128 * 1024 * 1024
  maxZipEntries : ℕ := 10000
  maxZipEntryBytes : ℕ := 64 * 1024 * 1024
  maxZipUncompressedBytes : ℕ := 512 * 1024 * 1024
  maxCfbEntries : ℕ := 10000
  maxCfbStreamBytes : ℕ := 512 * 1024 * 1024
  maxWorksheets : ℕ := 1024
  maxWorksheetRows : ℕ := 1048576
  maxWorksheetColumns : ℕ := 16384
  maxWorksheetCells : ℕ := 16000000
  maxRangeCells : ℕ := 250000
  maxBatchBytes : ℕ := 32 * 1024 * 1024
  maxWarnings : ℕ := 1024
  maxStyles : ℕ := 65536
  maxMergedCells : ℕ := 100000
  maxLayoutEntries : ℕ := 100000
  maxStyledCells : ℕ := 1000000
  deriving DecidableEq, Repr

namespace ExcelLimits

/-- The limits that may not be zero. -/
def all (l : ExcelLimits) : List ℕ :=
  [l.maxSourceBytes, l.maxZipEntries, l.maxZipEntryBytes, l.maxZipUncompressedBytes,
    l.maxCfbEntries, l.maxCfbStreamBytes, l.maxWorksheets, l.maxWorksheetRows,
    l.maxWorksheetColumns, l.maxWorksheetCells, l.maxRangeCells, l.maxBatchBytes, l.maxWarnings,
    l.maxStyles, l.maxMergedCells, l.maxLayoutEntries, l.maxStyledCells]

/-- The limits are positive and within the grid of the formats. -/
def validate (l : ExcelLimits) : Result Unit :=
  if 0 ∈ l.all then
    .error (.new .invalidArgument "Excel resource limits must be greater than zero")
  else if 1048576 < l.maxWorksheetRows ∨ 16384 < l.maxWorksheetColumns then
    .error (((TabularkError.new .invalidArgument
      "Excel worksheet limits exceed the supported XLSX grid").withDetail
      "maxWorksheetRows" (.number l.maxWorksheetRows)).withDetail
      "maxWorksheetColumns" (.number l.maxWorksheetColumns))
  else .ok ()

/-- The default limits pass their own check. -/
theorem validate_default : ExcelLimits.validate {} = .ok () := by
  rw [validate, if_neg (by decide), if_neg (by decide)]

end ExcelLimits

/-! ## Errors -/

/-- The error of a handle that is not open. -/
def closedHandle (kind : String) : TabularkError :=
  .new .handleClosed ("Excel " ++ kind ++ " handle is closed")

/-- The error of bytes beyond a limit. -/
def resourceLimit (resource : String) (required available : ℕ) (message : String) :
    TabularkError :=
  (((TabularkError.new .resourceLimit message).withDetail
    "resource" (.text resource)).withDetail
    "requiredBytes" (.number required)).withDetail
    "availableBytes" (.number available)

/-- The error of a worksheet that the workbook does not have. -/
def unknownWorksheet (tableId : String) : TabularkError :=
  (TabularkError.new .invalidArgument
    "Excel dataset does not contain the requested worksheet").withDetail
    "tableId" (.text tableId)

/-- Checks that the bytes an operation needs are available. -/
def ensureReservationBudget (resource : String) (requiredBytes availableBytes : ℕ)
    (message : String) : Result Unit :=
  if availableBytes < requiredBytes then
    .error (resourceLimit resource requiredBytes availableBytes message)
  else .ok ()

/-- Checks the detected format against the constraint. -/
def ensureFormatHint (hint : ExcelFormatHint) (actual : ExcelFormat) : Result Unit :=
  if hint.Allows actual then .ok ()
  else .error (((TabularkError.new .invalidArgument
    "Excel format option does not match the detected source signature").withDetail
    "requestedFormat" (.text (formatHintName hint))).withDetail
    "detectedFormat" (.text (formatName actual)))

/-! ## Shapes -/

/-- The rows and columns of a worksheet. -/
structure SheetShape where
  rows : ℕ
  columns : ℕ
  deriving DecidableEq, Repr

/-- The error of a worksheet beyond a limit. -/
def worksheetLimit (resource : String) (required available : ℕ) (message : String) :
    TabularkError :=
  (((TabularkError.new .resourceLimit message).withDetail
    "resource" (.text resource)).withDetail
    "required" (.number required)).withDetail
    "available" (.number available)

/-- A shape within the limits. -/
def validateSheetShape (rows columns : ℕ) (limits : ExcelLimits) : Result SheetShape :=
  if limits.maxWorksheetRows < rows then
    .error (worksheetLimit "worksheet-rows" rows limits.maxWorksheetRows
      "Excel worksheet exceeds the configured row limit")
  else if limits.maxWorksheetColumns < columns then
    .error (worksheetLimit "worksheet-columns" columns limits.maxWorksheetColumns
      "Excel worksheet exceeds the configured column limit")
  else do
    let cells ← checkedMul u64Max rows columns
      (.new .resourceLimit "Excel worksheet cell extent overflows")
    if limits.maxWorksheetCells < cells then
      .error (worksheetLimit "worksheet-cells" cells limits.maxWorksheetCells
        "Excel worksheet exceeds the configured rectangular cell limit")
    else .ok ⟨rows, columns⟩

end Tabulark.Excel
