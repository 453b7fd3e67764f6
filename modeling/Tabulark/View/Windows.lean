import Tabulark.Model

/-!
# Ranges of cells

The controller loads rectangles of cells: those the layout shows, the anchors of
merged cells among them, and some around them in reserve. `layoutRanges` says
which, and `partitionGridRanges` cuts them where reads proved too large before.
-/

namespace Tabulark.View

/-- A rectangle of cells, without the end row and the end column. -/
structure GridRange where
  rowStart : ℕ
  rowEnd : ℕ
  columnStart : ℕ
  columnEnd : ℕ
  deriving DecidableEq, Repr

/-- The indexes from `start` on, before `stop`. -/
structure IndexRange where
  start : ℕ
  stop : ℕ
  deriving DecidableEq, Repr

/-- A merged region shows the value of its first cell. -/
abbrev MergedCellRegion : Type := GridRange

namespace GridRange

/-- Whether a cell lies in the range. -/
def rangeContains (range : GridRange) (rowIndex columnIndex : ℕ) : Bool :=
  range.rowStart ≤ rowIndex && rowIndex < range.rowEnd &&
    range.columnStart ≤ columnIndex && columnIndex < range.columnEnd

/-- Whether a range lies in another. -/
def rangeContainsRange (container candidate : GridRange) : Bool :=
  container.rowStart ≤ candidate.rowStart && candidate.rowEnd ≤ container.rowEnd &&
    container.columnStart ≤ candidate.columnStart && candidate.columnEnd ≤ container.columnEnd

/-- Whether two ranges share a cell. -/
def rangesIntersect (left right : GridRange) : Bool :=
  left.rowStart < right.rowEnd && right.rowStart < left.rowEnd &&
    left.columnStart < right.columnEnd && right.columnStart < left.columnEnd

/-- The number of cells of a range. -/
def rangeCellCount (range : GridRange) : ℕ :=
  (range.rowEnd - range.rowStart) * (range.columnEnd - range.columnStart)

/-- The request for a range. -/
def gridRangeToRequest (range : GridRange) : RangeRequest where
  rowStart := range.rowStart
  rowCount := range.rowEnd - range.rowStart
  columnStart := range.columnStart
  columnCount := range.columnEnd - range.columnStart

theorem rangeContains_iff {range : GridRange} {rowIndex columnIndex : ℕ} :
    range.rangeContains rowIndex columnIndex = true ↔
      range.rowStart ≤ rowIndex ∧ rowIndex < range.rowEnd ∧
        range.columnStart ≤ columnIndex ∧ columnIndex < range.columnEnd := by
  simp [rangeContains, and_assoc]

end GridRange

/-! ## What a layout shows -/

/-- What is on the screen, and what is around it. -/
structure Windows where
  visibleRows : IndexRange
  overscanRows : IndexRange
  visibleColumns : IndexRange
  overscanColumns : IndexRange
  frozenRowRange : IndexRange
  frozenColumnRange : IndexRange
  deriving DecidableEq, Repr

/-- The bands of an axis: the frozen one may touch or overlap the other. -/
def mergeIndexBands (primary frozen : IndexRange) : List IndexRange :=
  let bands := ([primary, frozen].filter fun range => range.start < range.stop).mergeSort
    fun left right => left.start ≤ right.start
  match bands with
  | [first, second] =>
    if second.start ≤ first.stop then [⟨first.start, max first.stop second.stop⟩]
    else [first, second]
  | bands => bands

/-- The rectangles of bands of rows and columns. -/
def windowRectangles (rows columns frozenRows frozenColumns : IndexRange) : List GridRange :=
  (mergeIndexBands rows frozenRows).flatMap fun row =>
    (mergeIndexBands columns frozenColumns).map fun column =>
      ⟨row.start, row.stop, column.start, column.stop⟩

/-- The first cells of the merged regions that show, each of them once. -/
def mergeAnchorRanges (mergedCells : List MergedCellRegion) (visible : List GridRange) :
    List GridRange :=
  ((mergedCells.filter fun region => visible.any fun range => range.rangesIntersect region).map
    fun region => (⟨region.rowStart, region.rowStart + 1, region.columnStart,
      region.columnStart + 1⟩ : GridRange)).eraseDups

/-- The ranges to load: those that show, and those around them if there is room. -/
def layoutRanges (windows : Windows) (maxCells : ℕ) (mergedCells : List MergedCellRegion) :
    Result (List GridRange × List GridRange) :=
  let visible := windowRectangles windows.visibleRows windows.visibleColumns
    windows.frozenRowRange windows.frozenColumnRange
  let anchors := mergeAnchorRanges mergedCells visible
  let visibleWithAnchors := visible ++
    anchors.filter fun anchor => !visible.any fun range => range.rangeContainsRange anchor
  let visibleCellCount := (visibleWithAnchors.map GridRange.rangeCellCount).sum
  if maxCells < visibleCellCount then
    .error (((((((TabularkError.new .resourceLimit
      s!"The viewport contains {visibleCellCount} cells; the window limit is {maxCells}").withDetail
      "resource" (.text "viewport-cells")).withDetail
      "required" (.number visibleCellCount)).withDetail
      "available" (.number maxCells)).withDetail
      "visibleCellCount" (.number visibleCellCount)).withDetail
      "maxCells" (.number maxCells)))
  else
    let fullOverscan := windowRectangles windows.overscanRows windows.overscanColumns
      windows.frozenRowRange windows.frozenColumnRange
    let overscanCellCount := (fullOverscan.map GridRange.rangeCellCount).sum
    let overscanWithAnchors := fullOverscan ++
      anchors.filter fun anchor => !fullOverscan.any fun range => range.rangeContainsRange anchor
    .ok (visibleWithAnchors,
      if overscanCellCount + anchors.length ≤ maxCells then overscanWithAnchors
      else visibleWithAnchors)

/-! ## Smaller reads -/

/-- Where a part of an axis ends: at the next multiple of the limit. -/
def nextPartitionEnd (start stop limit : ℕ) : ℕ :=
  let remaining := stop - start
  if remaining ≤ limit then stop
  else
    let offset := start % limit
    let distance := if offset = 0 then limit else limit - offset
    start + min distance remaining

/-- The parts of an axis. Every part is at least one index long, so its length bounds
    the number of parts. -/
def partitionAxis : ℕ → ℕ → ℕ → ℕ → List IndexRange
  | 0, _, _, _ => []
  | turns + 1, start, stop, limit =>
    if start < stop then
      ⟨start, nextPartitionEnd start stop limit⟩ ::
        partitionAxis turns (nextPartitionEnd start stop limit) stop limit
    else []

/-- Cuts ranges into parts of at most so many rows and columns. -/
def partitionGridRanges (ranges : List GridRange) (rowLimit columnLimit : ℕ) : List GridRange :=
  ranges.flatMap fun range =>
    (partitionAxis (range.rowEnd - range.rowStart) range.rowStart range.rowEnd rowLimit).flatMap
      fun row =>
        (partitionAxis (range.columnEnd - range.columnStart) range.columnStart range.columnEnd
          columnLimit).map fun column => ⟨row.start, row.stop, column.start, column.stop⟩

/-- A limit of at least one makes every part longer than nothing. -/
theorem lt_nextPartitionEnd {start stop limit : ℕ} (h : start < stop) (hlimit : 0 < limit) :
    start < nextPartitionEnd start stop limit ∧ nextPartitionEnd start stop limit ≤ stop := by
  have hoffset := Nat.mod_lt start hlimit
  rw [nextPartitionEnd]
  dsimp only
  split_ifs <;> omega

end Tabulark.View
