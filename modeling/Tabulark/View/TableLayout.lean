import Tabulark.Lib.Panes
import Tabulark.View.Controller
import Tabulark.View.ScrollAxis

/-!
# The layout of a table

`createTableLayout` says where the rows and columns of a table are in a
viewport: how far it is scrolled, which of them show, which are in reserve, and
which are frozen. `cellRect` is where a cell is drawn, and `hitTest` what is at a
point. A layout that was created is `WellFormed`; its rows and its columns are
panes of strips (`rowPanes`, `columnPanes`).

All sizes are exact: a layout of the real program is rounded.
-/

namespace Tabulark.View

open Bisect Strips

/-! ## Layouts -/

/-- The size of the viewport, and the offsets of its scroll bars. -/
structure ViewportUpdate where
  width : ℚ
  height : ℚ
  scrollLeft : ℚ
  scrollTop : ℚ
  devicePixelRatio : Option ℚ := none
  deriving DecidableEq, Repr

structure LayoutOptions where
  rowHeight : Option ℚ := none
  headerHeight : Option ℚ := none
  rowHeaderWidth : Option ℚ := none
  scrollPixelLimit : Option ℚ := none
  overscanRows : Option ℕ := none
  overscanColumns : Option ℕ := none
  rowEntries : List PresentationAxisEntry := []
  hiddenColumns : List Bool := []
  frozenRows : ℕ := 0
  frozenColumns : ℕ := 0
  deriving DecidableEq, Repr

/-- The indexes that show, and those in reserve. -/
structure AxisRanges where
  visible : IndexRange
  overscan : IndexRange
  deriving DecidableEq, Repr

structure VisibleColumn where
  index : ℕ
  id : String
  name : List UInt8
  x : ℚ
  width : ℚ
  frozen : Bool
  deriving DecidableEq, Repr

structure VisibleRow where
  index : ℕ
  y : ℚ
  height : ℚ
  frozen : Bool
  deriving DecidableEq, Repr

structure TableLayout where
  width : ℚ
  height : ℚ
  devicePixelRatio : ℚ
  rowHeight : ℚ
  headerHeight : ℚ
  rowHeaderWidth : ℚ
  bodyWidth : ℚ
  bodyHeight : ℚ
  rowCount : ℕ
  columnCount : ℕ
  rows : AxisRanges
  columns : AxisRanges
  visibleColumns : List VisibleColumn
  overscanColumns : List VisibleColumn
  visibleRows : List VisibleRow
  overscanRows : List VisibleRow
  /-- Hidden columns have no width. -/
  effectiveColumnWidths : List ℚ
  rowGeometry : SparseAxisGeometry
  frozenRowCount : ℕ
  frozenColumnCount : ℕ
  frozenRowExtent : ℚ
  frozenColumnExtent : ℚ
  frozenRowRange : IndexRange
  frozenColumnRange : IndexRange
  horizontal : ScrollAxisLayout
  vertical : ScrollAxisLayout
  spacerWidth : ℚ
  spacerHeight : ℚ

/-- Where the columns begin, and where the last one ends. -/
def columnOffsets (columnWidths : List ℚ) : List ℚ := columnWidths.scanl (· + ·) 0

/-- The first of some sorted values that is not below a target. -/
def lowerBound (values : List ℚ) (target : ℚ) : ℕ := lowerBoundBy id values target

/-- The column at a logical offset. -/
def columnAtLogicalX (offsets : List ℚ) (x : ℚ) : Option ℕ :=
  let count := offsets.length - 1
  if x < 0 ∨ count = 0 ∨ offsets.getD count 0 ≤ x then none
  else some (bisect (fun middle => offsets.getD (middle + 1) 0 ≤ x) 0 count)

def clampRangeEnd (range : IndexRange) (stop : ℕ) : IndexRange :=
  ⟨min range.start stop, min range.stop stop⟩

/-- The rows that show. A row that begins within an epsilon of the lower edge does not. -/
def visibleRowRange (geometry : SparseAxisGeometry) (scrollTop viewportHeight : ℚ) : IndexRange :=
  if geometry.count = 0 ∨ viewportHeight ≤ 0 ∨ geometry.contentSize ≤ 0 then ⟨0, 0⟩
  else
    match axisIndexAtOffset geometry scrollTop with
    | none => ⟨geometry.count, geometry.count⟩
    | some start =>
      let epsilon := max (1 / 10 ^ 7) (|scrollTop + viewportHeight| * (1 / 2 ^ 52) * 4)
      let last := axisIndexAtOffset geometry
        (max scrollTop (min geometry.contentSize (scrollTop + viewportHeight) - epsilon))
      { start
        stop :=
          match last with
          | none => start + 1
          | some last => min geometry.count (last + 1) }

/-- The columns that show. -/
def visibleColumnRange (offsets : List ℚ) (scrollLeft viewportWidth : ℚ) : IndexRange :=
  let count := offsets.length - 1
  if count = 0 ∨ viewportWidth ≤ 0 then ⟨0, 0⟩
  else
    let start := (columnAtLogicalX offsets scrollLeft).getD count
    let stop := min count (lowerBound offsets (scrollLeft + viewportWidth))
    ⟨start, max start stop⟩

def expandRange (range : IndexRange) (amount limit : ℕ) : IndexRange :=
  ⟨range.start - amount, min limit (range.stop + amount)⟩

/-- The indexes of two ranges, in order, each of them once. -/
def rangeIndexes (primary frozen : IndexRange) : List ℕ :=
  (List.range' primary.start (primary.stop - primary.start) ++
    List.range' frozen.start (frozen.stop - frozen.start)).dedup.mergeSort

def materializeColumns (metadata : TableMetadata) (widths offsets : List ℚ)
    (range frozenRange : IndexRange) (rowHeaderWidth scrollLeft : ℚ) (frozenColumnCount : ℕ) :
    List VisibleColumn :=
  (rangeIndexes range frozenRange).filterMap fun index => do
    let column ← metadata.schema.columns[index]?
    let width := widths.getD index 0
    let frozen : Bool := index < frozenColumnCount
    if width ≤ 0 then none
    else some {
      index
      id := column.id
      name := column.name
      x := rowHeaderWidth + offsets.getD index 0 - if frozen then 0 else scrollLeft
      width
      frozen }

def materializeRows (geometry : SparseAxisGeometry) (range frozenRange : IndexRange)
    (headerHeight scrollTop : ℚ) (frozenRowCount : ℕ) : List VisibleRow :=
  (rangeIndexes range frozenRange).filterMap fun index =>
    let height := axisSize geometry index
    let frozen : Bool := index < frozenRowCount
    if height ≤ 0 then none
    else some {
      index
      y := headerHeight + axisPosition geometry index - if frozen then 0 else scrollTop
      height
      frozen }

/-- Refuses columns without a width, and flags that are not those of the columns. -/
def assertColumns (columnWidths : List ℚ) (hiddenColumns : List Bool) (columnCount : ℕ) :
    Result Unit :=
  if columnWidths.length ≠ columnCount then
    .error (.new .invalidArgument
      s!"columnWidths has {columnWidths.length} entries; expected {columnCount}")
  else do
    columnWidths.zipIdx.forM fun (width, index) => do
      let _ ← positiveFinite width s!"columnWidths[{index}]"
    if hiddenColumns.length ≠ 0 ∧ hiddenColumns.length ≠ columnCount then
      .error (.new .invalidArgument
        s!"hiddenColumns has {hiddenColumns.length} entries; expected {columnCount}")

/-- Lays a table out in a viewport. -/
def createTableLayout (metadata : TableMetadata) (columnWidths : List ℚ)
    (viewport : ViewportUpdate) (options : LayoutOptions) : Result TableLayout := do
  let rowHeight ← positiveFinite (options.rowHeight.getD 28) "rowHeight"
  let headerHeight ← nonNegativeFinite (options.headerHeight.getD 36) "headerHeight"
  let rowHeaderWidth ← nonNegativeFinite (options.rowHeaderWidth.getD 64) "rowHeaderWidth"
  let scrollPixelLimit ←
    positiveFinite (options.scrollPixelLimit.getD 16000000) "scrollPixelLimit"
  let overscanRows ← nonNegativeInteger (options.overscanRows.getD 8) "overscanRows"
  let overscanColumns ← nonNegativeInteger (options.overscanColumns.getD 1) "overscanColumns"
  let width ← nonNegativeFinite viewport.width "viewport.width"
  let height ← nonNegativeFinite viewport.height "viewport.height"
  let devicePixelRatio ←
    positiveFinite (viewport.devicePixelRatio.getD 1) "viewport.devicePixelRatio"
  let columnCount := metadata.schema.columns.length
  assertColumns columnWidths options.hiddenColumns columnCount
  let effectiveColumnWidths := columnWidths.mapIdx fun index width =>
    if options.hiddenColumns[index]? = some true then 0 else width
  let rowCount := extentValue metadata.extent.rows
  let frozenRows ← nonNegativeInteger options.frozenRows "frozenRows"
  let frozenRowCount := min rowCount frozenRows
  let frozenColumns ← nonNegativeInteger options.frozenColumns "frozenColumns"
  let frozenColumnCount := min columnCount frozenColumns
  let bodyWidth := max 0 (width - rowHeaderWidth)
  let bodyHeight := max 0 (height - headerHeight)
  let prefixes := columnOffsets effectiveColumnWidths
  let rowGeometry ← createSparseAxisGeometry rowCount rowHeight options.rowEntries
  let logicalWidth := prefixes.getD (prefixes.length - 1) 0
  let logicalHeight := rowGeometry.contentSize
  let horizontal ← createScrollAxis logicalWidth bodyWidth viewport.scrollLeft scrollPixelLimit
  let vertical ← createScrollAxis logicalHeight bodyHeight viewport.scrollTop scrollPixelLimit
  let visibleRows := visibleRowRange rowGeometry vertical.logicalOffset bodyHeight
  let visibleColumns := visibleColumnRange prefixes horizontal.logicalOffset bodyWidth
  let overscanRowRange := expandRange visibleRows overscanRows rowCount
  let overscanColumnRange := expandRange visibleColumns overscanColumns columnCount
  let frozenRowExtent := axisPosition rowGeometry frozenRowCount
  let frozenColumnExtent := prefixes.getD frozenColumnCount 0
  let frozenRowRange :=
    if frozenRowCount = 0 then ⟨0, 0⟩
    else clampRangeEnd (visibleRowRange rowGeometry 0 (min bodyHeight frozenRowExtent))
      frozenRowCount
  let frozenColumnRange :=
    if frozenColumnCount = 0 then ⟨0, 0⟩
    else clampRangeEnd (visibleColumnRange prefixes 0 (min bodyWidth frozenColumnExtent))
      frozenColumnCount
  pure {
    width
    height
    devicePixelRatio
    rowHeight
    headerHeight
    rowHeaderWidth
    bodyWidth
    bodyHeight
    rowCount
    columnCount
    rows := ⟨visibleRows, overscanRowRange⟩
    columns := ⟨visibleColumns, overscanColumnRange⟩
    visibleColumns := materializeColumns metadata effectiveColumnWidths prefixes visibleColumns
      frozenColumnRange rowHeaderWidth horizontal.logicalOffset frozenColumnCount
    overscanColumns := materializeColumns metadata effectiveColumnWidths prefixes
      overscanColumnRange frozenColumnRange rowHeaderWidth horizontal.logicalOffset
      frozenColumnCount
    visibleRows := materializeRows rowGeometry visibleRows frozenRowRange headerHeight
      vertical.logicalOffset frozenRowCount
    overscanRows := materializeRows rowGeometry overscanRowRange frozenRowRange headerHeight
      vertical.logicalOffset frozenRowCount
    effectiveColumnWidths
    rowGeometry
    frozenRowCount
    frozenColumnCount
    frozenRowExtent
    frozenColumnExtent
    frozenRowRange
    frozenColumnRange
    horizontal
    vertical
    spacerWidth := rowHeaderWidth + horizontal.physicalContentSize
    spacerHeight := headerHeight + vertical.physicalContentSize }

/-! ## Drawing -/

structure PixelRect where
  x : ℚ
  y : ℚ
  width : ℚ
  height : ℚ
  deriving DecidableEq, Repr

/-- Where a cell is drawn. -/
def cellRect (layout : TableLayout) (rowIndex columnIndex : ℕ) : PixelRect :=
  let columnWidths := layout.effectiveColumnWidths
  let offsets := columnOffsets columnWidths
  let rowOffset := axisPosition layout.rowGeometry rowIndex
  let columnOffset := offsets.getD columnIndex 0
  { x := layout.rowHeaderWidth + columnOffset -
      if columnIndex < layout.frozenColumnCount then 0 else layout.horizontal.logicalOffset
    y := layout.headerHeight + rowOffset -
      if rowIndex < layout.frozenRowCount then 0 else layout.vertical.logicalOffset
    width := columnWidths.getD columnIndex 0
    height := axisSize layout.rowGeometry rowIndex }

/-- Where the header of a column is drawn. -/
def columnHeaderRect (layout : TableLayout) (columnIndex : ℕ) : PixelRect :=
  let columnWidths := layout.effectiveColumnWidths
  let offsets := columnOffsets columnWidths
  { x := layout.rowHeaderWidth + offsets.getD columnIndex 0 -
      if columnIndex < layout.frozenColumnCount then 0 else layout.horizontal.logicalOffset
    y := 0
    width := columnWidths.getD columnIndex 0
    height := layout.headerHeight }

/-- Where the header of a row is drawn. -/
def rowHeaderRect (layout : TableLayout) (rowIndex : ℕ) : PixelRect :=
  { x := 0
    y := layout.headerHeight + axisPosition layout.rowGeometry rowIndex -
      if rowIndex < layout.frozenRowCount then 0 else layout.vertical.logicalOffset
    width := layout.rowHeaderWidth
    height := axisSize layout.rowGeometry rowIndex }

/-! ## Hit testing -/

/-- What is at a point. -/
inductive HitTestResult
  | outside
  | corner
  | columnHeader (columnIndex : ℕ)
  | columnResize (columnIndex : ℕ) (boundaryX : ℚ)
  | rowHeader (rowIndex : ℕ)
  | cell (rowIndex columnIndex : ℕ)
  deriving DecidableEq, Repr

/-- The column at a point. -/
def columnAtViewportX (layout : TableLayout) (x : ℚ) : Option ℕ :=
  if x < layout.rowHeaderWidth then none
  else
    Panes.hit (columnAtLogicalX (columnOffsets layout.effectiveColumnWidths))
      layout.frozenColumnCount layout.frozenColumnExtent layout.bodyWidth
      layout.horizontal.logicalOffset (x - layout.rowHeaderWidth)

/-- The row at a point. -/
def rowAtViewportY (layout : TableLayout) (y : ℚ) : Option ℕ :=
  Panes.hit (axisIndexAtOffset layout.rowGeometry) layout.frozenRowCount layout.frozenRowExtent
    layout.bodyHeight layout.vertical.logicalOffset (y - layout.headerHeight)

/-- The handle of a boundary between columns, if the point is close enough. -/
def resizeHandleAt (layout : TableLayout) (x handleWidth : ℚ) (boundaryIndex : ℕ) :
    Option HitTestResult :=
  let offsets := columnOffsets layout.effectiveColumnWidths
  if boundaryIndex = 0 ∨ offsets.length ≤ boundaryIndex then none
  else
    let boundaryX := layout.rowHeaderWidth + offsets.getD boundaryIndex 0 -
      layout.horizontal.logicalOffset
    if |x - boundaryX| ≤ handleWidth then some (.columnResize (boundaryIndex - 1) boundaryX)
    else none

/-- What is at a point of the viewport. -/
def hitTest (layout : TableLayout) (x y resizeHandleWidth : ℚ) : HitTestResult :=
  if x < 0 ∨ y < 0 ∨ layout.width ≤ x ∨ layout.height ≤ y then .outside
  else if x < layout.rowHeaderWidth ∧ y < layout.headerHeight then .corner
  else if y < layout.headerHeight then
    let logicalX := x - layout.rowHeaderWidth + layout.horizontal.logicalOffset
    let nextBoundary := lowerBound (columnOffsets layout.effectiveColumnWidths) logicalX
    let handleWidth := max 0 resizeHandleWidth
    match [nextBoundary, nextBoundary - 1].findSome? (resizeHandleAt layout x handleWidth) with
    | some handle => handle
    | none =>
      match columnAtViewportX layout x with
      | none => .outside
      | some columnIndex => .columnHeader columnIndex
  else
    match rowAtViewportY layout y with
    | none => .outside
    | some rowIndex =>
      if x < layout.rowHeaderWidth then .rowHeader rowIndex
      else
        match columnAtViewportX layout x with
        | none => .outside
        | some columnIndex => .cell rowIndex columnIndex

end Tabulark.View
