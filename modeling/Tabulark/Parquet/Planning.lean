import Tabulark.Lib.Blocks
import Tabulark.Model
import Tabulark.Parquet.Sparse

/-!
# Planning a range read

A range read first clips its request to the table (`planRange`), then chooses
the row groups and the bytes it needs (`planProjectedRanges`). Small reads get
the column chunks at once, joined where they touch; where those are beyond the
limits, a read of parts of row groups finds its pages later. A preview of list
columns walks the chosen row groups on its own (`FixedListPreviewScanner.new`),
counting the rows that it still skips and takes.
-/

namespace Tabulark.Parquet

open Blocks

/-! ## The footer -/

/-- What a plan reads of a column chunk: its size decompressed, and its bytes in the source. -/
structure ColumnChunkMetaData where
  uncompressedSize : ℤ
  byteRange : ParquetReadBytesAction

/-- What a plan reads of a row group. -/
structure RowGroupMetaData where
  numRows : ℤ
  columns : List ColumnChunkMetaData

/-- The limits of a read. -/
structure ParquetLimits where
  maxOperationBytes : ℕ
  maxDecodedBytes : ℕ
  maxRangeCells : ℕ

/-- A conversion of an `i64` to an unsigned type. -/
def toUnsigned (bound : ℕ) (value : ℤ) (error : TabularkError) : Result ℕ :=
  if 0 ≤ value ∧ value.toNat ≤ bound then .ok value.toNat else .error error

theorem toUnsigned_eq_ok {bound n : ℕ} {value : ℤ} {error : TabularkError}
    (h : toUnsigned bound value error = .ok n) : n = value.toNat := by
  rw [toUnsigned] at h
  split_ifs at h
  exact (Except.ok.inj h).symm

/-! ## The request -/

/-- The range that a read returns, and whether it is all of the request. -/
structure RangePlan where
  returnedRange : RangeRequest
  complete : Bool

def invalidRange : TabularkError :=
  .new .invalidRange "requested Parquet range is outside the table extent"

/-- Clips a request to the table. -/
def planRange (request : RangeRequest) (totalRows totalColumns maxRangeCells : ℕ) :
    Result RangePlan := do
  request.validatePublic
  let cells ← checkedMul u64Max request.rowCount request.columnCount invalidRange
  if maxRangeCells < cells then
    .error ((((TabularkError.new .resourceLimit
      "Parquet range exceeds the configured logical cell limit").withDetail
      "resource" (.text "range-cells")).withDetail
      "required" (.number cells)).withDetail
      "available" (.number maxRangeCells))
  else if totalRows < request.rowStart ∨ totalColumns < request.columnStart then
    .error invalidRange
  else do
    let rows := min request.rowCount (totalRows - request.rowStart)
    let columns := min request.columnCount (totalColumns - request.columnStart)
    let returnedRange ← RangeRequest.new request.rowStart rows request.columnStart columns
    .ok { returnedRange, complete := rows = request.rowCount ∧ columns = request.columnCount }

/-! ## The bytes -/

def resourceLimit (category : String) (required available : ℕ) : TabularkError :=
  (((TabularkError.new .resourceLimit
    s!"Parquet {category} exceeds the configured resource limit").withDetail
    "resource" (.text category)).withDetail
    "requiredBytes" (.number required)).withDetail
    "availableBytes" (.number available)

/-- The bytes of all ranges. -/
def sourceRangeBytes (reservation : String) : ℕ → List ParquetReadBytesAction → Result ℕ
  | total, [] => .ok total
  | total, action :: ranges => do
    let total ← checkedAdd u64Max total action.length
      (.new .resourceLimit s!"Parquet {reservation} overflows")
    sourceRangeBytes reservation total ranges

/-- Joins ranges, in the order of their offsets, to the one before them. -/
def mergeSourceRanges :
    ParquetReadBytesAction → List ParquetReadBytesAction → Result (List ParquetReadBytesAction)
  | previous, [] => .ok [previous]
  | previous, action :: ranges => do
    let actionEnd ← action.stop
    let previousEnd ← previous.stop
    if action.offset ≤ previousEnd then do
      let mergedEnd := max previousEnd actionEnd
      if mergedEnd < previous.offset then
        .error (.new .resourceLimit "Parquet merged source range underflows")
      else mergeSourceRanges { previous with length := mergedEnd - previous.offset } ranges
    else do
      let merged ← mergeSourceRanges action ranges
      .ok (previous :: merged)

/-- Joins the ranges that overlap or touch. In which order ranges of one offset come makes no
    difference to what they are joined to. -/
def coalesceSourceRanges (ranges : List ParquetReadBytesAction) :
    Result (List ParquetReadBytesAction) :=
  match ranges.mergeSort fun a b => a.offset ≤ b.offset with
  | [] => .ok []
  | action :: ranges => do
    let _ ← action.stop
    mergeSourceRanges action ranges

/-! ## The row groups -/

/-- The row groups and the bytes of a read. -/
structure ProjectedReadPlan where
  ranges : List ParquetReadBytesAction
  rowGroups : List ℕ
  rowOffset : ℕ
  lazyPageReads : Bool

/-- What the planner has gathered so far. -/
structure PlanWalk where
  rowOffset : ℕ := 0
  uncompressedBytes : ℕ := 0
  fullySelectedUncompressedBytes : ℕ := 0
  ranges : List ParquetReadBytesAction := []
  fullySelectedRanges : List ParquetReadBytesAction := []
  rowGroups : List ℕ := []
  selectedRowOffset : ℕ := 0
  hasPartialRowGroup : Bool := false

namespace PlanWalk

/-- Takes a column chunk that is read. -/
def addColumn (sourceLength : ℕ) (fullySelected : Bool) (w : PlanWalk)
    (column : ColumnChunkMetaData) : Result PlanWalk := do
  let uncompressed ← toUnsigned u64Max column.uncompressedSize
    (.new .parseFailed "Parquet column chunk has a negative uncompressed size")
  let uncompressedBytes ← checkedAdd u64Max w.uncompressedBytes uncompressed
    (.new .resourceLimit "Parquet decompressed-page reservation overflows")
  let fullySelectedUncompressedBytes ←
    if fullySelected then
      checkedAdd u64Max w.fullySelectedUncompressedBytes uncompressed
        (.new .resourceLimit "Parquet required decompressed-page reservation overflows")
    else .ok w.fullySelectedUncompressedBytes
  let w := { w with uncompressedBytes, fullySelectedUncompressedBytes }
  let action := column.byteRange
  let stop ← action.stop
  if sourceLength < stop then
    .error ((((TabularkError.new .parseFailed
      "Parquet column-chunk range exceeds the encoded source").withDetail
      "offset" (.number action.offset)).withDetail
      "length" (.number action.length)).withDetail
      "sourceLength" (.number sourceLength))
  else if 0 < action.length then .ok { w with
    ranges := w.ranges ++ [action]
    fullySelectedRanges :=
      if fullySelected then w.fullySelectedRanges ++ [action] else w.fullySelectedRanges }
  else .ok w

/-- Takes the column chunks of a projection. -/
def addColumns (sourceLength : ℕ) (projection : ℕ → Bool) (fullySelected : Bool) :
    PlanWalk → ℕ → List ColumnChunkMetaData → Result PlanWalk
  | w, _, [] => .ok w
  | w, leafIndex, column :: columns => do
    let w ← if projection leafIndex then w.addColumn sourceLength fullySelected column else .ok w
    addColumns sourceLength projection fullySelected w (leafIndex + 1) columns

/-- Takes a row group, if it overlaps the request. -/
def addRowGroup (sourceLength requestStart requestEnd : ℕ) (projection : ℕ → Bool)
    (w : PlanWalk) (rowGroupIndex : ℕ) (rowGroup : RowGroupMetaData) : Result PlanWalk := do
  let rows ← toUnsigned u64Max rowGroup.numRows
    (.new .parseFailed "Parquet row group contains a negative row count")
  let rowEnd ← checkedAdd u64Max w.rowOffset rows
    (.new .resourceLimit "Parquet row-group offsets overflow")
  let w ←
    if w.rowOffset < requestEnd ∧ requestStart < rowEnd then do
      let selectedStart := max w.rowOffset requestStart
      let selectedEnd := min rowEnd requestEnd
      let fullySelected := decide (selectedStart = w.rowOffset ∧ selectedEnd = rowEnd)
      let selectedRowOffset ←
        if w.rowGroups.isEmpty then toUsize (requestStart - w.rowOffset) invalidRange
        else .ok w.selectedRowOffset
      addColumns sourceLength projection fullySelected { w with
        hasPartialRowGroup := w.hasPartialRowGroup || !fullySelected
        selectedRowOffset
        rowGroups := w.rowGroups ++ [rowGroupIndex] } 0 rowGroup.columns
    else .ok w
  .ok { w with rowOffset := rowEnd }

/-- Takes row groups up to the end of the request. -/
def addRowGroups (sourceLength requestStart requestEnd : ℕ) (projection : ℕ → Bool) :
    PlanWalk → ℕ → List RowGroupMetaData → Result PlanWalk
  | w, _, [] => .ok w
  | w, rowGroupIndex, rowGroup :: rowGroups => do
    let w ← w.addRowGroup sourceLength requestStart requestEnd projection rowGroupIndex rowGroup
    if requestEnd ≤ w.rowOffset then .ok w
    else
      addRowGroups sourceLength requestStart requestEnd projection w (rowGroupIndex + 1) rowGroups

/-- Whether the bytes of the row groups are read at once or page by page. -/
def finish (limits : ParquetLimits) (w : PlanWalk) : Result ProjectedReadPlan := do
  let decodedLimit := limits.maxDecodedBytes
  let ranges ← coalesceSourceRanges w.ranges
  let compressedBytes ← sourceRangeBytes "compressed-page reservation" 0 ranges
  let compressedLimit := limits.maxOperationBytes
  if w.uncompressedBytes ≤ decodedLimit ∧ compressedBytes ≤ compressedLimit then .ok {
    ranges
    rowGroups := w.rowGroups
    rowOffset := w.selectedRowOffset
    lazyPageReads := false }
  else if !w.hasPartialRowGroup then
    if decodedLimit < w.uncompressedBytes then
      .error (resourceLimit "decompressed-pages" w.uncompressedBytes decodedLimit)
    else .error (resourceLimit "compressed-pages" compressedBytes compressedLimit)
  else if decodedLimit < w.fullySelectedUncompressedBytes then
    .error (resourceLimit "decompressed-pages" w.fullySelectedUncompressedBytes decodedLimit)
  else do
    let fullySelectedRanges ← coalesceSourceRanges w.fullySelectedRanges
    let fullySelectedCompressedBytes ←
      sourceRangeBytes "required compressed-page reservation" 0 fullySelectedRanges
    if compressedLimit < fullySelectedCompressedBytes then
      .error (resourceLimit "compressed-pages" fullySelectedCompressedBytes compressedLimit)
    else .ok {
      ranges := []
      rowGroups := w.rowGroups
      rowOffset := w.selectedRowOffset
      lazyPageReads := true }

end PlanWalk

/-- Plans the row groups and the bytes of a range. -/
def planProjectedRanges (rowGroups : List RowGroupMetaData) (sourceLength : ℕ) (plan : RangePlan)
    (projection : ℕ → Bool) (limits : ParquetLimits) : Result ProjectedReadPlan := do
  let requestStart := plan.returnedRange.rowStart
  let requestEnd ← checkedAdd u64Max requestStart plan.returnedRange.rowCount invalidRange
  let w ← PlanWalk.addRowGroups sourceLength requestStart requestEnd projection {} 0 rowGroups
  w.finish limits

/-! ## Previews of list columns -/

/-- The column that a preview reads. -/
structure FixedListPreviewSpec where
  sourceColumn : ℕ
  leafColumn : ℕ

/-- The rows that a preview reads of a row group. -/
structure FixedListPreviewRowGroup where
  metadata : ColumnChunkMetaData
  rows : ℕ
  selectedStart : ℕ
  selectedEnd : ℕ

/-- A preview that has read nothing yet. -/
structure FixedListPreviewScanner where
  sourceColumn : ℕ
  rowGroups : List FixedListPreviewRowGroup
  outputRows : ℕ
  maxListElements : ℕ
  fallback : Bool
  complete : Bool

/-- The most list elements of one row, and the bytes that each is taken to need. -/
def displayPreviewMaxListElements : ℕ := 256

@[inherit_doc displayPreviewMaxListElements]
def displayPreviewElementEstimatedBytes : ℕ := 128

/-- How many elements of each row fit in the budget, if its cells do. The size of a cell is the
    compiler's. -/
def fixedListPreviewElementLimit (cellBytes rowCount decodedBudgetBytes : ℕ) :
    Result (Option ℕ) := do
  let retainedCellBytes ← checkedMul usizeMax rowCount cellBytes
    (.new .resourceLimit "Parquet preview cell memory estimate overflows")
  if decodedBudgetBytes < retainedCellBytes then .ok none
  else if rowCount = 0 then .ok (some 0)
  else .ok (some (min ((decodedBudgetBytes - retainedCellBytes) / rowCount /
    displayPreviewElementEstimatedBytes) displayPreviewMaxListElements))

namespace FixedListPreviewScanner

/-- Walks the row groups of a plan: what is read of each, and the rows that are left. -/
def walkRowGroups (footer : List RowGroupMetaData) (spec : FixedListPreviewSpec) :
    List ℕ → ℕ → ℕ → Result (List FixedListPreviewRowGroup × ℕ)
  | [], _, remainingRows => .ok ([], remainingRows)
  | rowGroupIndex :: rowGroups, remainingSkip, remainingRows =>
    if remainingRows = 0 then .ok ([], remainingRows)
    else match footer[rowGroupIndex]? with
      | none =>
        .error (.new .parseFailed "Parquet preview row group lies outside the footer metadata")
      | some rowGroup => do
        let rows ← toUnsigned usizeMax rowGroup.numRows
          (.new .resourceLimit "Parquet preview row-group count exceeds usize")
        if rows ≤ remainingSkip then
          walkRowGroups footer spec rowGroups (remainingSkip - rows) remainingRows
        else do
          let selectedStart := remainingSkip
          let selectedRows := min remainingRows (rows - selectedStart)
          let selectedEnd ← checkedAdd usizeMax selectedStart selectedRows
            (.new .resourceLimit "Parquet preview row range overflows usize")
          match rowGroup.columns[spec.leafColumn]? with
          | none =>
            .error (.new .parseFailed "Parquet preview leaf column is missing from a row group")
          | some metadata => do
            let planned ← walkRowGroups footer spec rowGroups 0 (remainingRows - selectedRows)
            .ok ({ metadata, rows, selectedStart, selectedEnd } :: planned.1, planned.2)

/-- The error of row groups that have too few rows. -/
def uncovered : TabularkError :=
  .new .invalidRange "Parquet preview row groups do not cover the returned range"

/-- A preview of the rows of a plan. -/
def new (footer : List RowGroupMetaData) (spec : FixedListPreviewSpec) (rowGroups : List ℕ)
    (rowOffset rowCount cellBytes decodedBudgetBytes : ℕ) : Result FixedListPreviewScanner := do
  let planned ← walkRowGroups footer spec rowGroups rowOffset rowCount
  if planned.2 ≠ 0 then .error uncovered
  else do
    let elementLimit ← fixedListPreviewElementLimit cellBytes rowCount decodedBudgetBytes
    .ok {
      sourceColumn := spec.sourceColumn
      rowGroups := planned.1
      outputRows := rowCount
      maxListElements := elementLimit.getD 0
      fallback := elementLimit.isNone
      complete := rowCount = 0 || elementLimit.isNone }

end FixedListPreviewScanner

end Tabulark.Parquet
