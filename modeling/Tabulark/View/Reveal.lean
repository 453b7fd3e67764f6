import Tabulark.View.HitTest

/-!
# Scrolling to a cell

`scrollCellIntoView` scrolls each axis as little as it has to (`revealOffset`), maps the offset
to that of the scroll bar, and lays the table out again, which comes to the same offset
(`logicalOffset_rescroll`). But it reveals a cell in the whole body, part of which the frozen
panes cover: `reveals_iff` says when the cell is left uncovered.
-/

namespace Tabulark.View

open Strips

/-! ## Scrolled layouts -/

section Rescroll

variable {content viewportSize offset offset' pixelLimit x : ℚ} {a a' : ScrollAxisLayout}

/-- An axis is created at any offset, and at its own comes out the same. -/
theorem createScrollAxis_rescroll
    (h : createScrollAxis content viewportSize offset pixelLimit = .ok a) :
    ∃ a', createScrollAxis content viewportSize offset' pixelLimit = .ok a' ∧
      (offset' = a.physicalOffset → a' = a) := by
  obtain ⟨_, hcontent, h⟩ := Result.bind_eq_ok.1 h
  obtain ⟨_, hviewport, h⟩ := Result.bind_eq_ok.1 h
  obtain ⟨_, hlimit, h⟩ := Result.bind_eq_ok.1 h
  refine ⟨_, Result.bind_eq_ok.2 ⟨_, hcontent, Result.bind_eq_ok.2 ⟨_, hviewport,
    Result.bind_eq_ok.2 ⟨_, hlimit, rfl⟩⟩⟩, ?_⟩
  cases h
  rintro rfl
  dsimp only
  rw [clampFinite_of_mem (clampFinite_mem (le_max_left _ _) _)]

/-- At the offset of the scroll bar for a logical offset, an axis is at the logical offset. -/
theorem logicalOffset_rescroll
    (h : createScrollAxis content viewportSize offset pixelLimit = .ok a)
    (h' : createScrollAxis content viewportSize (logicalToPhysicalOffset a x) pixelLimit = .ok a')
    (hx : x ∈ Set.Icc 0 a.logicalMaxOffset) :
    a'.logicalOffset = x ∧ a'.physicalOffset = logicalToPhysicalOffset a x := by
  obtain ⟨hwf, hcontent, hviewport, -, hmax⟩ := createScrollAxis_wellFormed h
  obtain ⟨hwf', hcontent', hviewport', hoffset', hmax'⟩ := createScrollAxis_wellFormed h'
  have hphysical : a'.physicalMaxOffset = a.physicalMaxOffset := hmax'.trans hmax.symm
  have hlogical : a'.logicalMaxOffset = a.logicalMaxOffset := by
    rw [hwf'.logicalMax_eq, hwf.logicalMax_eq, hcontent', hcontent, hviewport', hviewport]
  rw [hphysical, clampFinite_of_mem (hwf.logicalToPhysicalOffset_mem x)] at hoffset'
  refine ⟨?_, hoffset'⟩
  rw [hwf'.logicalOffset_eq, hoffset', hwf'.physicalToLogicalOffset_eq, hphysical, hlogical,
    ← hwf.physicalToLogicalOffset_eq]
  exact hwf.physicalToLogical_logicalToPhysical hx

end Rescroll

/-- A viewport is the same but for its scroll offsets. -/
structure ViewportUpdate.SameSize (viewport viewport' : ViewportUpdate) : Prop where
  width_eq : viewport'.width = viewport.width
  height_eq : viewport'.height = viewport.height
  devicePixelRatio_eq : viewport'.devicePixelRatio = viewport.devicePixelRatio

section Layouts

variable {metadata : TableMetadata} {widths : List ℚ} {viewport viewport' : ViewportUpdate}
  {options : LayoutOptions} {l l' : TableLayout}

/-- A table that was laid out is laid out at any offset, and at its own comes out the same. -/
theorem createTableLayout_rescroll (hsize : viewport.SameSize viewport')
    (h : createTableLayout metadata widths viewport options = .ok l) :
    ∃ l', createTableLayout metadata widths viewport' options = .ok l' ∧
      (viewport'.scrollLeft = l.horizontal.physicalOffset →
        viewport'.scrollTop = l.vertical.physicalOffset → l' = l) := by
  obtain ⟨rowHeight, hrowHeight, h⟩ := Result.bind_eq_ok.1 h
  obtain ⟨headerHeight, hheaderHeight, h⟩ := Result.bind_eq_ok.1 h
  obtain ⟨rowHeaderWidth, hrowHeaderWidth, h⟩ := Result.bind_eq_ok.1 h
  obtain ⟨limit, hlimit, h⟩ := Result.bind_eq_ok.1 h
  obtain ⟨overscanRows, hoverscanRows, h⟩ := Result.bind_eq_ok.1 h
  obtain ⟨overscanColumns, hoverscanColumns, h⟩ := Result.bind_eq_ok.1 h
  obtain ⟨width, hwidth, h⟩ := Result.bind_eq_ok.1 h
  obtain ⟨height, hheight, h⟩ := Result.bind_eq_ok.1 h
  obtain ⟨ratio, hratio, h⟩ := Result.bind_eq_ok.1 h
  obtain ⟨⟨⟩, hcolumns, h⟩ := Result.bind_eq_ok.1 h
  obtain ⟨frozenRows, hfrozenRows, h⟩ := Result.bind_eq_ok.1 h
  obtain ⟨frozenColumns, hfrozenColumns, h⟩ := Result.bind_eq_ok.1 h
  obtain ⟨rowGeometry, hgeometry, h⟩ := Result.bind_eq_ok.1 h
  obtain ⟨horizontal, hhorizontal, h⟩ := Result.bind_eq_ok.1 h
  obtain ⟨vertical, hvertical, h⟩ := Result.bind_eq_ok.1 h
  cases h
  obtain ⟨horizontal', hhorizontal', hsame⟩ := createScrollAxis_rescroll hhorizontal
  obtain ⟨vertical', hvertical', hsame'⟩ := createScrollAxis_rescroll hvertical
  rw [← hsize.width_eq] at hwidth
  rw [← hsize.height_eq] at hheight
  rw [← hsize.devicePixelRatio_eq] at hratio
  refine ⟨_, Result.bind_eq_ok.2 ⟨_, hrowHeight, Result.bind_eq_ok.2 ⟨_, hheaderHeight,
    Result.bind_eq_ok.2 ⟨_, hrowHeaderWidth, Result.bind_eq_ok.2 ⟨_, hlimit,
    Result.bind_eq_ok.2 ⟨_, hoverscanRows, Result.bind_eq_ok.2 ⟨_, hoverscanColumns,
    Result.bind_eq_ok.2 ⟨_, hwidth, Result.bind_eq_ok.2 ⟨_, hheight,
    Result.bind_eq_ok.2 ⟨_, hratio, Result.bind_eq_ok.2 ⟨_, hcolumns,
    Result.bind_eq_ok.2 ⟨_, hfrozenRows, Result.bind_eq_ok.2 ⟨_, hfrozenColumns,
    Result.bind_eq_ok.2 ⟨_, hgeometry, Result.bind_eq_ok.2 ⟨_, hhorizontal',
    Result.bind_eq_ok.2 ⟨_, hvertical', rfl⟩⟩⟩⟩⟩⟩⟩⟩⟩⟩⟩⟩⟩⟩⟩, fun hleft htop => ?_⟩
  rw [hsame hleft, hsame' htop]

/-- A viewport with the scroll offsets of a layout. -/
def ViewportUpdate.atOffsets (viewport : ViewportUpdate) (l : TableLayout) : ViewportUpdate :=
  { viewport with
    scrollLeft := l.horizontal.physicalOffset
    scrollTop := l.vertical.physicalOffset }

theorem createTableLayout_atOffsets
    (h : createTableLayout metadata widths viewport options = .ok l) :
    createTableLayout metadata widths (viewport.atOffsets l) options = .ok l := by
  obtain ⟨l', hl', hsame⟩ := createTableLayout_rescroll
    (⟨rfl, rfl, rfl⟩ : viewport.SameSize (viewport.atOffsets l)) h
  rwa [hsame rfl rfl] at hl'

/-- Layouts that differ in how far they are scrolled. -/
structure TableLayout.SameTable (l l' : TableLayout) : Prop where
  headerHeight_eq : l'.headerHeight = l.headerHeight
  rowHeaderWidth_eq : l'.rowHeaderWidth = l.rowHeaderWidth
  bodyWidth_eq : l'.bodyWidth = l.bodyWidth
  bodyHeight_eq : l'.bodyHeight = l.bodyHeight
  rowCount_eq : l'.rowCount = l.rowCount
  columnCount_eq : l'.columnCount = l.columnCount
  widths_eq : l'.effectiveColumnWidths = l.effectiveColumnWidths
  geometry_eq : l'.rowGeometry = l.rowGeometry
  frozenRowCount_eq : l'.frozenRowCount = l.frozenRowCount
  frozenColumnCount_eq : l'.frozenColumnCount = l.frozenColumnCount
  frozenRowExtent_eq : l'.frozenRowExtent = l.frozenRowExtent
  frozenColumnExtent_eq : l'.frozenColumnExtent = l.frozenColumnExtent

theorem TableLayout.Created.sameTable (h : l.Created metadata widths viewport options)
    (h' : l'.Created metadata widths viewport' options) (hsize : viewport.SameSize viewport') :
    l.SameTable l' := by
  have hheader : l'.headerHeight = l.headerHeight := h'.headerHeight_eq.trans h.headerHeight_eq.symm
  have hrowHeader : l'.rowHeaderWidth = l.rowHeaderWidth :=
    h'.rowHeaderWidth_eq.trans h.rowHeaderWidth_eq.symm
  have hrows : l'.rowCount = l.rowCount := h'.rowCount_eq.trans h.rowCount_eq.symm
  have hcolumns : l'.columnCount = l.columnCount := h'.columnCount_eq.trans h.columnCount_eq.symm
  have hwidths : l'.effectiveColumnWidths = l.effectiveColumnWidths :=
    h'.widths_eq.trans h.widths_eq.symm
  have hgeometry : l'.rowGeometry = l.rowGeometry := by
    have heq := h'.geometry
    rw [hrows, h.geometry] at heq
    exact (Except.ok.inj heq).symm
  have hfrozenRows : l'.frozenRowCount = l.frozenRowCount := by
    rw [h'.frozenRowCount_eq, h.frozenRowCount_eq, hrows]
  have hfrozenColumns : l'.frozenColumnCount = l.frozenColumnCount := by
    rw [h'.frozenColumnCount_eq, h.frozenColumnCount_eq, hcolumns]
  exact {
    headerHeight_eq := hheader
    rowHeaderWidth_eq := hrowHeader
    bodyWidth_eq := by
      rw [h'.bodyWidth_eq, h.bodyWidth_eq, h'.width_eq, h.width_eq, hsize.width_eq, hrowHeader]
    bodyHeight_eq := by
      rw [h'.bodyHeight_eq, h.bodyHeight_eq, h'.height_eq, h.height_eq, hsize.height_eq, hheader]
    rowCount_eq := hrows
    columnCount_eq := hcolumns
    widths_eq := hwidths
    geometry_eq := hgeometry
    frozenRowCount_eq := hfrozenRows
    frozenColumnCount_eq := hfrozenColumns
    frozenRowExtent_eq := by
      rw [h'.frozenRowExtent_eq, h.frozenRowExtent_eq, hgeometry, hfrozenRows]
    frozenColumnExtent_eq := by
      rw [h'.frozenColumnExtent_eq, h.frozenColumnExtent_eq, hwidths, hfrozenColumns] }

end Layouts

/-! ## The state -/

/-- What the controller keeps that says where cells are: the layout is that of the viewport, which
    has the offsets of its scroll bars. -/
structure ViewState where
  metadata : TableMetadata
  columnWidths : List ℚ
  options : LayoutOptions
  viewport : ViewportUpdate
  mergedCells : List MergedCellRegion := []
  activeCell : Option CellPosition := none
  layout : TableLayout
  laidOut : createTableLayout metadata columnWidths viewport options = .ok layout
  scrollLeft_eq : viewport.scrollLeft = layout.horizontal.physicalOffset
  scrollTop_eq : viewport.scrollTop = layout.vertical.physicalOffset

/-- Which way an index is looked for. -/
inductive AxisDirection
  | backward
  | forward
  deriving DecidableEq, Repr

def AxisDirection.opposite : AxisDirection → AxisDirection
  | backward => forward
  | forward => backward

/-- The next of some strips that has a size. -/
def nextVisible (size : ℕ → ℚ) (count start : ℕ) (direction : AxisDirection) : Option ℕ :=
  if count = 0 then none
  else
    let index := min (count - 1) start
    match direction with
    | .forward => (List.range' index (count - index)).find? fun i => 0 < size i
    | .backward => (List.range (index + 1)).reverse.find? fun i => 0 < size i

def nextVisibleAxisIndex (geometry : SparseAxisGeometry) (start : ℕ) (direction : AxisDirection) :
    Option ℕ := nextVisible (axisSize geometry) geometry.count start direction

def nextVisibleColumn (widths : List ℚ) (start : ℕ) (direction : AxisDirection) : Option ℕ :=
  nextVisible (columnSize widths) widths.length start direction

/-- How far to scroll for an item to be in a viewport. -/
def revealOffset (current viewportSize itemStart itemEnd maximum : ℚ) : ℚ :=
  if viewportSize ≤ 0 ∨ itemStart < current then min maximum (max 0 itemStart)
  else if current + viewportSize < itemEnd then min maximum (max 0 (itemEnd - viewportSize))
  else current

namespace ViewState

variable (s : ViewState)

/-- The state laid out for a viewport, whose offsets become those of the layout. Only a viewport of
    another size may be refused. -/
def rebuildSnapshot (viewport : ViewportUpdate) : ViewState :=
  match h : createTableLayout s.metadata s.columnWidths viewport s.options with
  | .error _ => s
  | .ok layout =>
    { s with
      viewport := viewport.atOffsets layout
      layout
      laidOut := createTableLayout_atOffsets h
      scrollLeft_eq := rfl
      scrollTop_eq := rfl }

/-- The first cell of the merged region of a cell. -/
def mergeAnchor (cell : CellPosition) : CellPosition :=
  match s.mergedCells.find? fun region => region.rangeContains cell.rowIndex cell.columnIndex with
  | some region => ⟨region.rowStart, region.columnStart⟩
  | none => cell

/-- The visible cell closest to a cell, first looked for in some directions. -/
def visibleCell (cell : CellPosition) (rowDirection columnDirection : AxisDirection) :
    Option CellPosition := do
  let row ← (nextVisibleAxisIndex s.layout.rowGeometry cell.rowIndex rowDirection).or
    (nextVisibleAxisIndex s.layout.rowGeometry cell.rowIndex rowDirection.opposite)
  let column ←
    (nextVisibleColumn s.layout.effectiveColumnWidths cell.columnIndex columnDirection).or
      (nextVisibleColumn s.layout.effectiveColumnWidths cell.columnIndex columnDirection.opposite)
  some ⟨row, column⟩

/-- The horizontal offset at which a column is revealed. A frozen one is in view. -/
def logicalLeft (columnIndex : ℕ) : ℚ :=
  let offsets := columnOffsets s.layout.effectiveColumnWidths
  if columnIndex < s.layout.frozenColumnCount then s.layout.horizontal.logicalOffset
  else revealOffset s.layout.horizontal.logicalOffset s.layout.bodyWidth
    (offsets.getD columnIndex 0) (offsets.getD (columnIndex + 1) 0)
    s.layout.horizontal.logicalMaxOffset

/-- The vertical offset at which a row is revealed. A frozen one is in view. -/
def logicalTop (rowIndex : ℕ) : ℚ :=
  let cellTop := axisPosition s.layout.rowGeometry rowIndex
  if rowIndex < s.layout.frozenRowCount then s.layout.vertical.logicalOffset
  else revealOffset s.layout.vertical.logicalOffset s.layout.bodyHeight cellTop
    (cellTop + axisSize s.layout.rowGeometry rowIndex) s.layout.vertical.logicalMaxOffset

/-- The viewport scrolled to a cell. -/
def scrolledTo (cell : CellPosition) : ViewportUpdate :=
  { s.viewport with
    scrollLeft := logicalToPhysicalOffset s.layout.horizontal (s.logicalLeft cell.columnIndex)
    scrollTop := logicalToPhysicalOffset s.layout.vertical (s.logicalTop cell.rowIndex) }

/-- Scrolls to a cell and lays the table out again, unless the viewport stays as it is. -/
def scrollCellIntoView (cell : CellPosition) : ViewState :=
  if (s.scrolledTo cell).scrollLeft = s.viewport.scrollLeft ∧
      (s.scrolledTo cell).scrollTop = s.viewport.scrollTop then s
  else s.rebuildSnapshot (s.scrolledTo cell)

/-- The cell that becomes active for a cell. -/
def activeTarget (cell : CellPosition) : Option CellPosition :=
  (clampCell cell s.layout.rowCount s.layout.columnCount).bind fun clamped =>
    s.visibleCell (s.mergeAnchor clamped) .forward .forward

/-- Makes a cell active, and scrolls to it. -/
def setActiveCell (cell : CellPosition) : ViewState :=
  match s.activeTarget cell with
  | none => s
  | some next => { s with activeCell := some next }.scrollCellIntoView next

def ensureCellVisible (cell : CellPosition) : ViewState :=
  match clampCell cell s.layout.rowCount s.layout.columnCount with
  | none => s
  | some next => s.scrollCellIntoView next

/-- What is at a point. A cell of a merged region is its first one. -/
def hitTest (x y resizeHandleWidth : ℚ) : HitTestResult :=
  match View.hitTest s.layout x y resizeHandleWidth with
  | .cell rowIndex columnIndex =>
    let anchor := s.mergeAnchor ⟨rowIndex, columnIndex⟩
    .cell anchor.rowIndex anchor.columnIndex
  | result => result

end ViewState

/-! ## One axis -/

/-- An item of an axis is within the viewport, and no frozen item covers it. -/
def AxisShown (frozen viewportSize offset itemStart itemEnd : ℚ) : Prop :=
  frozen ≤ itemStart - offset ∧ itemEnd - offset ≤ viewportSize

section Axis

variable {current viewportSize itemStart itemEnd maximum frozen : ℚ}

theorem revealOffset_mem (hcurrent : current ∈ Set.Icc 0 maximum) :
    revealOffset current viewportSize itemStart itemEnd maximum ∈ Set.Icc 0 maximum := by
  have hmax := hcurrent.1.trans hcurrent.2
  unfold revealOffset
  split_ifs
  · exact ⟨le_min hmax (le_max_left _ _), min_le_left _ _⟩
  · exact ⟨le_min hmax (le_max_left _ _), min_le_left _ _⟩
  · exact hcurrent

/-- An item that is shown is not scrolled to. -/
theorem revealOffset_of_shown (hfrozen : 0 ≤ frozen) (hitem : itemStart < itemEnd)
    (h : AxisShown frozen viewportSize current itemStart itemEnd) :
    revealOffset current viewportSize itemStart itemEnd maximum = current := by
  obtain ⟨hstart, hend⟩ := h
  rw [revealOffset, if_neg, if_neg]
  · linarith
  · rintro (hzero | hlt) <;> linarith

/-- An item that fits is revealed, unless it was beneath the frozen ones or before them. -/
theorem shown_revealOffset_iff (hcurrent : current ∈ Set.Icc 0 maximum) (hfrozen : 0 ≤ frozen)
    (hstart : frozen ≤ itemStart) (hitem : itemStart < itemEnd)
    (hfits : itemEnd - itemStart ≤ viewportSize - frozen)
    (hmax : itemEnd - viewportSize ≤ maximum) :
    AxisShown frozen viewportSize
        (revealOffset current viewportSize itemStart itemEnd maximum) itemStart itemEnd ↔
      frozen = 0 ∨ current + frozen ≤ itemStart := by
  obtain ⟨hzero, hle⟩ := hcurrent
  unfold revealOffset AxisShown
  split_ifs with hbefore hafter
  · -- The item is put at the start of the body, which the frozen items cover.
    have hlt : itemStart < current := hbefore.resolve_left (by linarith)
    rw [max_eq_right (hfrozen.trans hstart), min_eq_right (hlt.le.trans hle), sub_self]
    constructor
    · exact fun h => .inl (h.1.antisymm hfrozen)
    · rintro (rfl | h)
      · exact ⟨le_rfl, by linarith⟩
      · linarith
  · -- The item is put at the end of the body, where it fits.
    rw [not_or, not_lt] at hbefore
    rw [max_eq_right (by linarith), min_eq_right hmax]
    exact iff_of_true ⟨by linarith, by linarith⟩ (.inr (by linarith))
  · -- The item is in the body already.
    rw [not_or, not_lt] at hbefore
    rw [not_lt] at hafter
    constructor
    · exact fun h => .inr (by linarith [h.1])
    · rintro (rfl | h)
      · exact ⟨by linarith [hbefore.2], by linarith⟩
      · exact ⟨by linarith, by linarith⟩

end Axis

/-! ## Revealed cells -/

namespace TableLayout

/-- A visible cell outside the frozen rows and columns, that fits in what they leave of the body. -/
structure Fits (l : TableLayout) (cell : CellPosition) : Prop where
  row_lt : cell.rowIndex < l.rowCount
  column_lt : cell.columnIndex < l.columnCount
  width_pos : 0 < (cellRect l cell.rowIndex cell.columnIndex).width
  height_pos : 0 < (cellRect l cell.rowIndex cell.columnIndex).height
  frozenRows_le : l.frozenRowCount ≤ cell.rowIndex
  frozenColumns_le : l.frozenColumnCount ≤ cell.columnIndex
  width_le : (cellRect l cell.rowIndex cell.columnIndex).width ≤
    l.bodyWidth - l.frozenColumnExtent
  height_le : (cellRect l cell.rowIndex cell.columnIndex).height ≤
    l.bodyHeight - l.frozenRowExtent

/-- The whole rectangle of a cell is in the body, and no frozen pane covers it. -/
structure Shows (l : TableLayout) (cell : CellPosition) : Prop where
  left_le : l.rowHeaderWidth + l.frozenColumnExtent ≤
    (cellRect l cell.rowIndex cell.columnIndex).x
  right_le : (cellRect l cell.rowIndex cell.columnIndex).x +
    (cellRect l cell.rowIndex cell.columnIndex).width ≤ l.rowHeaderWidth + l.bodyWidth
  top_le : l.headerHeight + l.frozenRowExtent ≤ (cellRect l cell.rowIndex cell.columnIndex).y
  bottom_le : (cellRect l cell.rowIndex cell.columnIndex).y +
    (cellRect l cell.rowIndex cell.columnIndex).height ≤ l.headerHeight + l.bodyHeight

/-- On each axis, nothing is frozen that has a size, or a cell does not begin before the end of what
    is frozen. -/
def Uncovered (l : TableLayout) (cell : CellPosition) : Prop :=
  (l.frozenColumnExtent = 0 ∨
    l.horizontal.logicalOffset + l.frozenColumnExtent ≤ columnStart l cell.columnIndex) ∧
  (l.frozenRowExtent = 0 ∨
    l.vertical.logicalOffset + l.frozenRowExtent ≤ axisPosition l.rowGeometry cell.rowIndex)

namespace WellFormed

variable {l : TableLayout} (h : l.WellFormed) {cell : CellPosition} {handleWidth : ℚ}
include h

theorem getD_offsets_succ {c : ℕ} (hc : c < l.columnCount) :
    (columnOffsets l.effectiveColumnWidths).getD (c + 1) 0 =
      columnStart l c + l.effectiveColumnWidths.getD c 0 := by
  rw [h.getD_offsets hc, columnStart, offset_succ]
  rfl

theorem columnStart_mono : Monotone (columnStart l) :=
  offset_mono (columnSize_nonneg h.widths_nonneg)

theorem axisPosition_mono : Monotone (axisPosition l.rowGeometry) := by
  intro i j hij
  rw [h.geometry.axisPosition_eq, h.geometry.axisPosition_eq]
  exact offset_mono h.geometry.axisSize_nonneg hij

theorem axisPosition_succ (r : ℕ) : axisPosition l.rowGeometry (r + 1) =
    axisPosition l.rowGeometry r + axisSize l.rowGeometry r := by
  rw [h.geometry.axisPosition_eq, h.geometry.axisPosition_eq, offset_succ]

theorem frozenColumnExtent_eq_columnStart :
    l.frozenColumnExtent = columnStart l l.frozenColumnCount := by
  rw [h.frozenColumnExtent_eq, h.getD_offsets h.frozenColumns_le]

/-- A cell that fits is shown if its column and its row are. -/
theorem shows_iff (hfits : l.Fits cell) : l.Shows cell ↔
    AxisShown l.frozenColumnExtent l.bodyWidth l.horizontal.logicalOffset
        (columnStart l cell.columnIndex)
        ((columnOffsets l.effectiveColumnWidths).getD (cell.columnIndex + 1) 0) ∧
      AxisShown l.frozenRowExtent l.bodyHeight l.vertical.logicalOffset
        (axisPosition l.rowGeometry cell.rowIndex)
        (axisPosition l.rowGeometry cell.rowIndex + axisSize l.rowGeometry cell.rowIndex) := by
  have hx : (cellRect l cell.rowIndex cell.columnIndex).x = l.rowHeaderWidth +
      columnStart l cell.columnIndex - l.horizontal.logicalOffset := by
    rw [← h.getD_offsets hfits.column_lt.le]
    exact congrArg (_ - ·) (if_neg (not_lt.2 hfits.frozenColumns_le))
  have hy : (cellRect l cell.rowIndex cell.columnIndex).y = l.headerHeight +
      axisPosition l.rowGeometry cell.rowIndex - l.vertical.logicalOffset :=
    congrArg (_ - ·) (if_neg (not_lt.2 hfits.frozenRows_le))
  have hwidth : (cellRect l cell.rowIndex cell.columnIndex).width =
      l.effectiveColumnWidths.getD cell.columnIndex 0 := rfl
  have hheight : (cellRect l cell.rowIndex cell.columnIndex).height =
      axisSize l.rowGeometry cell.rowIndex := rfl
  rw [h.getD_offsets_succ hfits.column_lt]
  constructor
  · rintro ⟨hleft, hright, htop, hbottom⟩
    rw [hx] at hleft hright
    rw [hy] at htop hbottom
    exact ⟨⟨by linarith, by linarith⟩, by linarith, by linarith⟩
  · rintro ⟨⟨hleft, hright⟩, htop, hbottom⟩
    refine ⟨?_, ?_, ?_, ?_⟩
    · rw [hx]
      linarith
    · rw [hx, hwidth]
      linarith
    · rw [hy]
      linarith
    · rw [hy, hheight]
      linarith

/-- A cell that is shown is hit at its centre. -/
theorem hitTest_centre (hfits : l.Fits cell) (hshows : l.Shows cell) :
    View.hitTest l
      ((cellRect l cell.rowIndex cell.columnIndex).x +
        (cellRect l cell.rowIndex cell.columnIndex).width / 2)
      ((cellRect l cell.rowIndex cell.columnIndex).y +
        (cellRect l cell.rowIndex cell.columnIndex).height / 2) handleWidth =
      .cell cell.rowIndex cell.columnIndex := by
  have hwidth := hfits.width_pos
  have hheight := hfits.height_pos
  have hextentColumns : 0 ≤ l.frozenColumnExtent := by
    rw [h.frozenColumnExtent_eq_columnStart]
    exact offset_nonneg (columnSize_nonneg h.widths_nonneg) _
  have hextentRows : 0 ≤ l.frozenRowExtent := by
    rw [h.frozenRowExtent_eq, h.geometry.axisPosition_eq]
    exact offset_nonneg h.geometry.axisSize_nonneg _
  -- A body with room for the cell is what the headers leave of the viewport.
  have hbodyWidth : l.rowHeaderWidth + l.bodyWidth = l.width := by
    have hpos : 0 < l.bodyWidth := by linarith [hfits.width_le]
    rw [h.bodyWidth_eq] at hpos ⊢
    rw [max_eq_right (lt_max_iff.1 hpos |>.resolve_left (lt_irrefl _)).le]
    ring
  have hbodyHeight : l.headerHeight + l.bodyHeight = l.height := by
    have hpos : 0 < l.bodyHeight := by linarith [hfits.height_le]
    rw [h.bodyHeight_eq] at hpos ⊢
    rw [max_eq_right (lt_max_iff.1 hpos |>.resolve_left (lt_irrefl _)).le]
    ring
  obtain ⟨hleft, hright, htop, hbottom⟩ := hshows
  have hcontains : (cellRect l cell.rowIndex cell.columnIndex).Contains
      ((cellRect l cell.rowIndex cell.columnIndex).x +
        (cellRect l cell.rowIndex cell.columnIndex).width / 2)
      ((cellRect l cell.rowIndex cell.columnIndex).y +
        (cellRect l cell.rowIndex cell.columnIndex).height / 2) :=
    ⟨⟨by linarith, by linarith⟩, by linarith, by linarith⟩
  obtain ⟨hcolumn, hrow⟩ := h.contains_cellRect.1 hcontains
  rw [h.hitTest_eq_cell_iff]
  refine ⟨⟨by linarith, by linarith, ?_⟩, by linarith, by linarith, ?_⟩
  · rw [Panes.topmost_iff (by linarith), h.extent_columnPanes]
    exact .inr ⟨hfits.frozenColumns_le, by linarith,
      (Panes.over_of_le hfits.frozenColumns_le).1 hcolumn⟩
  · rw [Panes.topmost_iff (by linarith), h.extent_rowPanes]
    exact .inr ⟨hfits.frozenRows_le, by linarith,
      (Panes.over_of_le hfits.frozenRows_le).1 hrow⟩

end WellFormed

/-- How a cell fits does not depend on how far the table is scrolled. -/
theorem SameTable.fits {l l' : TableLayout} (hsame : l.SameTable l') {cell : CellPosition}
    (h : l.Fits cell) : l'.Fits cell where
  row_lt := hsame.rowCount_eq ▸ h.row_lt
  column_lt := hsame.columnCount_eq ▸ h.column_lt
  width_pos := by
    rw [cellRect, hsame.widths_eq]
    exact h.width_pos
  height_pos := by
    rw [cellRect, hsame.geometry_eq]
    exact h.height_pos
  frozenRows_le := hsame.frozenRowCount_eq ▸ h.frozenRows_le
  frozenColumns_le := hsame.frozenColumnCount_eq ▸ h.frozenColumns_le
  width_le := by
    rw [cellRect, hsame.widths_eq, hsame.bodyWidth_eq, hsame.frozenColumnExtent_eq]
    exact h.width_le
  height_le := by
    rw [cellRect, hsame.geometry_eq, hsame.bodyHeight_eq, hsame.frozenRowExtent_eq]
    exact h.height_le

end TableLayout

namespace ViewState

variable {s : ViewState} {cell : CellPosition}

theorem wellFormed (s : ViewState) : s.layout.WellFormed :=
  (createTableLayout_created s.laidOut).wellFormed

theorem rebuildSnapshot_eq {viewport : ViewportUpdate} {layout : TableLayout}
    (h : createTableLayout s.metadata s.columnWidths viewport s.options = .ok layout) :
    (s.rebuildSnapshot viewport).layout = layout ∧
      (s.rebuildSnapshot viewport).mergedCells = s.mergedCells := by
  unfold rebuildSnapshot
  split
  · rename_i error herror
    cases herror.symm.trans h
  · rename_i layout' hlayout'
    cases hlayout'.symm.trans h
    exact ⟨rfl, rfl⟩

theorem logicalLeft_mem (s : ViewState) (c : ℕ) :
    s.logicalLeft c ∈ Set.Icc 0 s.layout.horizontal.logicalMaxOffset := by
  unfold logicalLeft
  dsimp only
  split_ifs
  · exact s.wellFormed.horizontal.logicalOffset_mem
  · exact revealOffset_mem s.wellFormed.horizontal.logicalOffset_mem

theorem logicalTop_mem (s : ViewState) (r : ℕ) :
    s.logicalTop r ∈ Set.Icc 0 s.layout.vertical.logicalMaxOffset := by
  unfold logicalTop
  dsimp only
  split_ifs
  · exact s.wellFormed.vertical.logicalOffset_mem
  · exact revealOffset_mem s.wellFormed.vertical.logicalOffset_mem

/-- Scrolling to a cell changes nothing but the offsets, which become those that reveal the cell. -/
theorem scrollCellIntoView_layout (s : ViewState) (cell : CellPosition) :
    s.layout.SameTable (s.scrollCellIntoView cell).layout ∧
      (s.scrollCellIntoView cell).layout.horizontal.logicalOffset =
        s.logicalLeft cell.columnIndex ∧
      (s.scrollCellIntoView cell).layout.vertical.logicalOffset = s.logicalTop cell.rowIndex ∧
      (s.scrollCellIntoView cell).mergedCells = s.mergedCells := by
  have hcreated := createTableLayout_created s.laidOut
  unfold scrollCellIntoView
  split_ifs with hstays
  · -- The offsets of the scroll bars are those of the layout, and so are the logical ones.
    obtain ⟨hleft, htop⟩ := hstays
    rw [s.scrollLeft_eq] at hleft
    rw [s.scrollTop_eq] at htop
    refine ⟨hcreated.sameTable hcreated ⟨rfl, rfl, rfl⟩, ?_, ?_, rfl⟩
    · rw [s.wellFormed.horizontal.logicalOffset_eq, ← hleft]
      exact s.wellFormed.horizontal.physicalToLogical_logicalToPhysical (s.logicalLeft_mem _)
    · rw [s.wellFormed.vertical.logicalOffset_eq, ← htop]
      exact s.wellFormed.vertical.physicalToLogical_logicalToPhysical (s.logicalTop_mem _)
  · have hsize : s.viewport.SameSize (s.scrolledTo cell) := ⟨rfl, rfl, rfl⟩
    obtain ⟨layout, hlayout, -⟩ := createTableLayout_rescroll hsize s.laidOut
    obtain ⟨heq, hmerged⟩ := rebuildSnapshot_eq hlayout
    have hcreated' := createTableLayout_created hlayout
    have hsame := hcreated.sameTable hcreated' hsize
    rw [heq]
    refine ⟨hsame, ?_, ?_, hmerged⟩
    · have hhorizontal := hcreated'.horizontal
      rw [hsame.widths_eq, hsame.columnCount_eq, hsame.bodyWidth_eq] at hhorizontal
      exact (logicalOffset_rescroll hcreated.horizontal hhorizontal (s.logicalLeft_mem _)).1
    · have hvertical := hcreated'.vertical
      rw [hsame.geometry_eq, hsame.bodyHeight_eq] at hvertical
      exact (logicalOffset_rescroll hcreated.vertical hvertical (s.logicalTop_mem _)).1

/-- A cell is revealed: all of it is shown, it is hit at its centre if nothing is merged, and
    nothing moves if it was shown before. -/
structure Reveals (s s' : ViewState) (cell : CellPosition) : Prop where
  shows : s'.layout.Shows cell
  hit : s'.mergedCells = [] → ∀ handleWidth, s'.hitTest
    ((cellRect s'.layout cell.rowIndex cell.columnIndex).x +
      (cellRect s'.layout cell.rowIndex cell.columnIndex).width / 2)
    ((cellRect s'.layout cell.rowIndex cell.columnIndex).y +
      (cellRect s'.layout cell.rowIndex cell.columnIndex).height / 2) handleWidth =
    .cell cell.rowIndex cell.columnIndex
  stays : s.layout.Shows cell → s'.viewport = s.viewport

section Fits

variable (hfits : s.layout.Fits cell)
include hfits

theorem logicalLeft_eq : s.logicalLeft cell.columnIndex =
    revealOffset s.layout.horizontal.logicalOffset s.layout.bodyWidth
      (columnStart s.layout cell.columnIndex)
      ((columnOffsets s.layout.effectiveColumnWidths).getD (cell.columnIndex + 1) 0)
      s.layout.horizontal.logicalMaxOffset := by
  rw [logicalLeft, if_neg (not_lt.2 hfits.frozenColumns_le),
    s.wellFormed.getD_offsets hfits.column_lt.le]

theorem logicalTop_eq : s.logicalTop cell.rowIndex =
    revealOffset s.layout.vertical.logicalOffset s.layout.bodyHeight
      (axisPosition s.layout.rowGeometry cell.rowIndex)
      (axisPosition s.layout.rowGeometry cell.rowIndex +
        axisSize s.layout.rowGeometry cell.rowIndex) s.layout.vertical.logicalMaxOffset := by
  rw [logicalTop, if_neg (not_lt.2 hfits.frozenRows_le)]

/-- A column is shown once it is revealed, unless it was covered. -/
theorem column_shown_iff :
    AxisShown s.layout.frozenColumnExtent s.layout.bodyWidth (s.logicalLeft cell.columnIndex)
        (columnStart s.layout cell.columnIndex)
        ((columnOffsets s.layout.effectiveColumnWidths).getD (cell.columnIndex + 1) 0) ↔
      s.layout.frozenColumnExtent = 0 ∨ s.layout.horizontal.logicalOffset +
        s.layout.frozenColumnExtent ≤ columnStart s.layout cell.columnIndex := by
  have h := s.wellFormed
  have hwidth : 0 < s.layout.effectiveColumnWidths.getD cell.columnIndex 0 := hfits.width_pos
  have hwidth' : s.layout.effectiveColumnWidths.getD cell.columnIndex 0 ≤
    s.layout.bodyWidth - s.layout.frozenColumnExtent := hfits.width_le
  have hsucc := h.getD_offsets_succ hfits.column_lt
  have hextent := h.frozenColumnExtent_eq_columnStart
  rw [logicalLeft_eq hfits]
  refine shown_revealOffset_iff h.horizontal.logicalOffset_mem ?_ ?_ ?_ ?_ ?_
  · rw [hextent]
    exact offset_nonneg (columnSize_nonneg h.widths_nonneg) _
  · rw [hextent]
    exact h.columnStart_mono hfits.frozenColumns_le
  · rw [hsucc]
    linarith
  · rw [hsucc]
    linarith
  · rw [h.horizontal.logicalMax_eq, h.horizontal_content, h.horizontal_viewport,
      h.getD_offsets hfits.column_lt, h.getD_offsets le_rfl]
    exact le_max_of_le_right (sub_le_sub_right (h.columnStart_mono hfits.column_lt) _)

/-- A row is shown once it is revealed, unless it was covered. -/
theorem row_shown_iff :
    AxisShown s.layout.frozenRowExtent s.layout.bodyHeight (s.logicalTop cell.rowIndex)
        (axisPosition s.layout.rowGeometry cell.rowIndex)
        (axisPosition s.layout.rowGeometry cell.rowIndex +
          axisSize s.layout.rowGeometry cell.rowIndex) ↔
      s.layout.frozenRowExtent = 0 ∨ s.layout.vertical.logicalOffset +
        s.layout.frozenRowExtent ≤ axisPosition s.layout.rowGeometry cell.rowIndex := by
  have h := s.wellFormed
  have hheight : 0 < axisSize s.layout.rowGeometry cell.rowIndex := hfits.height_pos
  have hheight' : axisSize s.layout.rowGeometry cell.rowIndex ≤
    s.layout.bodyHeight - s.layout.frozenRowExtent := hfits.height_le
  rw [logicalTop_eq hfits]
  refine shown_revealOffset_iff h.vertical.logicalOffset_mem ?_ ?_ ?_ ?_ ?_
  · rw [h.frozenRowExtent_eq, h.geometry.axisPosition_eq]
    exact offset_nonneg h.geometry.axisSize_nonneg _
  · rw [h.frozenRowExtent_eq]
    exact h.axisPosition_mono hfits.frozenRows_le
  · linarith
  · linarith
  · rw [h.vertical.logicalMax_eq, h.vertical_content, h.vertical_viewport, ← h.axisPosition_succ,
      h.geometry.contentSize_eq, h.geometry_count]
    exact le_max_of_le_right (sub_le_sub_right (h.axisPosition_mono hfits.row_lt) _)

/-- A cell that is shown is not scrolled to. -/
theorem scrollCellIntoView_of_shows (hshows : s.layout.Shows cell) :
    s.scrollCellIntoView cell = s := by
  have h := s.wellFormed
  have hwidth : 0 < s.layout.effectiveColumnWidths.getD cell.columnIndex 0 := hfits.width_pos
  have hheight : 0 < axisSize s.layout.rowGeometry cell.rowIndex := hfits.height_pos
  obtain ⟨hcolumn, hrow⟩ := (h.shows_iff hfits).1 hshows
  have hleft : s.logicalLeft cell.columnIndex = s.layout.horizontal.logicalOffset := by
    rw [logicalLeft_eq hfits]
    refine revealOffset_of_shown ?_ ?_ hcolumn
    · rw [h.frozenColumnExtent_eq_columnStart]
      exact offset_nonneg (columnSize_nonneg h.widths_nonneg) _
    · rw [h.getD_offsets_succ hfits.column_lt]
      linarith
  have htop : s.logicalTop cell.rowIndex = s.layout.vertical.logicalOffset := by
    rw [logicalTop_eq hfits]
    refine revealOffset_of_shown ?_ ?_ hrow
    · rw [h.frozenRowExtent_eq, h.geometry.axisPosition_eq]
      exact offset_nonneg h.geometry.axisSize_nonneg _
    · linarith
  rw [scrollCellIntoView, if_pos]
  constructor
  · rw [s.scrollLeft_eq, ← h.horizontal.physicalOffset_eq, ← hleft]
    rfl
  · rw [s.scrollTop_eq, ← h.vertical.physicalOffset_eq, ← htop]
    rfl

/-- A cell that fits is shown in the end if it was not covered, nor before what is frozen. -/
theorem shows_scrollCellIntoView_iff :
    (s.scrollCellIntoView cell).layout.Shows cell ↔ s.layout.Uncovered cell := by
  obtain ⟨hsame, hleft, htop, -⟩ := s.scrollCellIntoView_layout cell
  rw [(wellFormed _).shows_iff (hsame.fits hfits), hleft, htop, hsame.frozenColumnExtent_eq,
    hsame.bodyWidth_eq, hsame.frozenRowExtent_eq, hsame.bodyHeight_eq, hsame.geometry_eq,
    columnStart, hsame.widths_eq]
  exact and_congr (column_shown_iff hfits) (row_shown_iff hfits)

theorem reveals_scrollCellIntoView_iff :
    Reveals s (s.scrollCellIntoView cell) cell ↔ s.layout.Uncovered cell := by
  have hshows := shows_scrollCellIntoView_iff hfits
  have hfits' := (s.scrollCellIntoView_layout cell).1.fits hfits
  refine ⟨fun h => hshows.1 h.shows, fun h => ⟨hshows.2 h, fun hnone handleWidth => ?_,
    fun hbefore => by rw [scrollCellIntoView_of_shows hfits hbefore]⟩⟩
  have hanchor (c : CellPosition) : (s.scrollCellIntoView cell).mergeAnchor c = c := by
    rw [mergeAnchor, hnone]
    rfl
  rw [hitTest, (wellFormed _).hitTest_centre hfits' (hshows.2 h)]
  dsimp only
  rw [hanchor]

end Fits

/-! ## Entry points -/

/-- The entry points that scroll to a cell. -/
inductive RevealCall
  | ensureCellVisible
  | setActiveCell

/-- The cell that a call scrolls to. -/
def target (s : ViewState) (cell : CellPosition) : RevealCall → Option CellPosition
  | .ensureCellVisible => clampCell cell s.layout.rowCount s.layout.columnCount
  | .setActiveCell => s.activeTarget cell

def call (s : ViewState) (cell : CellPosition) : RevealCall → ViewState
  | .ensureCellVisible => s.ensureCellVisible cell
  | .setActiveCell => s.setActiveCell cell

/-- A call scrolls to its target. -/
theorem reveals_iff_of_target {call : RevealCall} {next : CellPosition}
    (htarget : s.target cell call = some next) (hfits : s.layout.Fits next) :
    Reveals s (s.call cell call) next ↔ s.layout.Uncovered next := by
  cases call with
  | ensureCellVisible =>
    have hcall : s.call cell .ensureCellVisible = s.scrollCellIntoView next := by
      rw [target] at htarget
      rw [ViewState.call, ensureCellVisible, htarget]
    rw [hcall]
    exact reveals_scrollCellIntoView_iff hfits
  | setActiveCell =>
    have hcall : s.call cell .setActiveCell =
        { s with activeCell := some next }.scrollCellIntoView next := by
      rw [target] at htarget
      rw [ViewState.call, setActiveCell, htarget]
    rw [hcall, ← reveals_scrollCellIntoView_iff (s := { s with activeCell := some next }) hfits]
    exact ⟨fun h => ⟨h.shows, h.hit, h.stays⟩, fun h => ⟨h.shows, h.hit, h.stays⟩⟩

/-- Scrolling to a cell that fits reveals it if and only if, on each axis, nothing is frozen that
    has a size or the cell did not begin before the end of what is frozen. -/
theorem reveals_iff (s : ViewState) (call : RevealCall) (cell next : CellPosition)
    (htarget : s.target cell call = some next) (hfits : s.layout.Fits next) :
    Reveals s (s.call cell call) next ↔ s.layout.Uncovered next :=
  reveals_iff_of_target htarget hfits

/-! ## A cell beneath a frozen column -/

/-- The state of a controller that has laid its table out. -/
def ofLayout {metadata : TableMetadata} {columnWidths : List ℚ} {viewport : ViewportUpdate}
    {options : LayoutOptions} {layout : TableLayout}
    (h : createTableLayout metadata columnWidths viewport options = .ok layout) : ViewState where
  metadata
  columnWidths
  options
  viewport := viewport.atOffsets layout
  layout
  laidOut := createTableLayout_atOffsets h
  scrollLeft_eq := rfl
  scrollTop_eq := rfl

/-- Three columns, the first of them frozen, scrolled by half a column: the second one fits in the
    body, but begins beneath the first. -/
theorem exists_covered : ∃ s : ViewState, s.layout.rowCount = 10 ∧ s.layout.columnCount = 3 ∧
    s.layout.Fits ⟨0, 1⟩ ∧ ¬s.layout.Uncovered ⟨0, 1⟩ := by
  obtain ⟨l, hl, hwidth, htall, hrowHeader, hheader, hcolumns, hfrozenColumns, hwidths, hoffset⟩ :=
    exists_layout_threeColumns 314 (by norm_num)
  have hcreated := createTableLayout_created hl
  have hrows : l.rowCount = 10 := hcreated.rowCount_eq
  have hbodyWidth : l.bodyWidth = 250 := by
    rw [hcreated.bodyWidth_eq, hwidth, hrowHeader]
    norm_num
  have hbodyHeight : l.bodyHeight = 64 := by
    rw [hcreated.bodyHeight_eq, htall, hheader]
    norm_num
  have hfrozenRows : l.frozenRowCount = 0 := by
    rw [hcreated.frozenRowCount_eq, hrows]
    rfl
  have hextentRows : l.frozenRowExtent = 0 := by
    rw [hcreated.frozenRowExtent_eq, hfrozenRows, hcreated.wellFormed.geometry.axisPosition_eq,
      offset_zero]
  have hextentColumns : l.frozenColumnExtent = 100 := by
    rw [hcreated.frozenColumnExtent_eq, hwidths, hfrozenColumns]
    norm_num [columnOffsets]
  have hheight : axisSize l.rowGeometry 0 = 28 := by
    have hgeometry := hcreated.geometry
    rw [hrows, createSparseAxisGeometry_eq (by decide) (by norm_num)] at hgeometry
    rw [← Except.ok.inj hgeometry, axisSize_geometryOf (by decide) (by norm_num) (by decide)]
    rfl
  have hstart : columnStart l 1 = 100 := by
    rw [columnStart, offset_succ, offset_zero, hwidths]
    norm_num [columnSize]
  refine ⟨ofLayout hl, hrows, hcolumns, ?_, ?_⟩
  · refine ⟨by rw [show (ofLayout hl).layout.rowCount = 10 from hrows]; decide,
      by rw [show (ofLayout hl).layout.columnCount = 3 from hcolumns]; decide, ?_, ?_, ?_, ?_,
      ?_, ?_⟩
    · change 0 < l.effectiveColumnWidths.getD 1 0
      rw [hwidths]
      norm_num
    · change 0 < axisSize l.rowGeometry 0
      rw [hheight]
      norm_num
    · exact hfrozenRows.le
    · exact hfrozenColumns.le
    · change l.effectiveColumnWidths.getD 1 0 ≤ l.bodyWidth - l.frozenColumnExtent
      rw [hwidths, hbodyWidth, hextentColumns]
      norm_num
    · change axisSize l.rowGeometry 0 ≤ l.bodyHeight - l.frozenRowExtent
      rw [hheight, hbodyHeight, hextentRows]
      norm_num
  · rintro ⟨hcolumn, -⟩
    change l.frozenColumnExtent = 0 ∨ l.horizontal.logicalOffset + l.frozenColumnExtent ≤
      columnStart l 1 at hcolumn
    rw [hextentColumns, hoffset, hstart] at hcolumn
    norm_num at hcolumn

/-- The second column stays beneath the first. -/
theorem ensureCellVisible_leaves_covered : ∃ (s : ViewState) (cell : CellPosition),
    s.layout.Fits cell ∧ ¬(s.ensureCellVisible cell).layout.Shows cell := by
  obtain ⟨s, hrows, hcolumns, hfits, hcovered⟩ := exists_covered
  refine ⟨s, ⟨0, 1⟩, hfits, fun hshows => hcovered ?_⟩
  rw [ensureCellVisible, hrows, hcolumns] at hshows
  exact (shows_scrollCellIntoView_iff hfits).1 hshows

theorem reveals_iff_covered : ∃ (s : ViewState) (cell : CellPosition),
    s.target cell .ensureCellVisible = some cell ∧ s.layout.Fits cell ∧
      (Reveals s (s.call cell .ensureCellVisible) cell ↔ s.layout.Uncovered cell) := by
  obtain ⟨s, hrows, hcolumns, hfits, -⟩ := exists_covered
  have htarget : s.target ⟨0, 1⟩ .ensureCellVisible = some ⟨0, 1⟩ := by
    rw [target, hrows, hcolumns]
    rfl
  exact ⟨s, ⟨0, 1⟩, htarget, hfits, reveals_iff s .ensureCellVisible ⟨0, 1⟩ ⟨0, 1⟩ htarget hfits⟩

end ViewState

end Tabulark.View
