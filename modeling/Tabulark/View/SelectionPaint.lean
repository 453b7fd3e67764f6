import Tabulark.Lib.Spans
import Tabulark.View.Requested

/-!
# Painting the selection

A selection is painted as one rectangle, from its first painted row and column to
its last. Some of these may be frozen, and others scrolled beneath them. The
rectangle is where a selected cell is hit if that leaves both axes `Enclosed`
(`paintSelection_exact_iff`); for a selection of scrolled cells it also covers
the frozen ones that they are beneath.
-/

namespace Tabulark.View

open Bisect Strips

/-! ## Frames -/

structure CanvasPaintColumn where
  index : ℕ
  name : List UInt8
  /-- Relative to the viewport, the row gutter included. -/
  x : ℚ
  width : ℚ
  frozen : Bool
  deriving DecidableEq, Repr

structure CanvasPaintRow where
  index : ℕ
  /-- Relative to the viewport, the header included. -/
  y : ℚ
  height : ℚ
  frozen : Bool
  deriving DecidableEq, Repr

/-- What a frame has of the selection, and of where the rows and columns are. -/
structure CanvasPaintSnapshot where
  width : ℚ
  height : ℚ
  headerHeight : ℚ
  rowGutterWidth : ℚ
  columns : List CanvasPaintColumn
  rows : List CanvasPaintRow
  selection : Option GridRange
  deriving DecidableEq, Repr

/-- How the selection is painted: what is filled, and the line around it. -/
structure SelectionPaint where
  fill : PixelRect
  lineWidth : ℚ
  stroke : PixelRect
  lineDash : List ℚ
  deriving DecidableEq, Repr

/-- Fills what lies between four edges and draws a line around it, if that is anything. -/
def highlight (x y right bottom : ℚ) (forcedColors : Bool) : Option SelectionPaint :=
  let lineWidth := if forcedColors then 2 else 1
  if x < right ∧ y < bottom then
    some {
      fill := ⟨x, y, right - x, bottom - y⟩
      lineWidth
      stroke := ⟨x + lineWidth / 2, y + lineWidth / 2, max 0 (right - x - lineWidth),
        max 0 (bottom - y - lineWidth)⟩
      lineDash := if forcedColors then [4, 2] else [] }
  else none

/-- Paints the selection, unless there is none or nothing of it is in sight. -/
def paintSelection (snapshot : CanvasPaintSnapshot) (forcedColors : Bool) :
    Option SelectionPaint := do
  let selection ← snapshot.selection
  let selectedColumns := snapshot.columns.filter fun column =>
    selection.columnStart ≤ column.index ∧ column.index < selection.columnEnd
  let selectedRows := snapshot.rows.filter fun row =>
    selection.rowStart ≤ row.index ∧ row.index < selection.rowEnd
  let firstColumn ← selectedColumns.head?
  let lastColumn ← selectedColumns.getLast?
  let firstRow ← selectedRows.head?
  let lastRow ← selectedRows.getLast?
  let x := max snapshot.rowGutterWidth firstColumn.x
  let y := max snapshot.headerHeight firstRow.y
  let right := min snapshot.width (lastColumn.x + lastColumn.width)
  let bottom := min snapshot.height (lastRow.y + lastRow.height)
  highlight x y right bottom forcedColors

/-- The frame of a layout: all that is visible or in reserve is painted. -/
def renderSnapshot (layout : TableLayout) (selection : Option GridRange) :
    CanvasPaintSnapshot where
  width := layout.width
  height := layout.height
  headerHeight := layout.headerHeight
  rowGutterWidth := layout.rowHeaderWidth
  columns := layout.overscanColumns.map fun column =>
    ⟨column.index, column.name, column.x, column.width, column.frozen⟩
  rows := layout.overscanRows.map fun row => ⟨row.index, row.y, row.height, row.frozen⟩
  selection

/-! ## What is painted -/

section Materialize

variable {primary frozen : IndexRange} {i j : ℕ}

theorem mem_rangeIndexes : i ∈ rangeIndexes primary frozen ↔ primary.has i ∨ frozen.has i := by
  have hrange : ∀ range : IndexRange, i ∈ List.range' range.start (range.stop - range.start) ↔
      range.has i := fun range => by
    rw [List.mem_range'_1, IndexRange.has_iff]
    omega
  rw [rangeIndexes, List.mem_mergeSort, List.mem_dedup, List.mem_append, hrange, hrange]

/-- The indexes of two ranges are in order. -/
theorem pairwise_rangeIndexes : (rangeIndexes primary frozen).Pairwise (· < ·) := by
  have hsorted := List.pairwise_mergeSort' (· ≤ ·) (List.range' primary.start
    (primary.stop - primary.start) ++ List.range' frozen.start (frozen.stop - frozen.start)).dedup
  have hnodup := (List.mergeSort_perm (List.range' primary.start
    (primary.stop - primary.start) ++ List.range' frozen.start
      (frozen.stop - frozen.start)).dedup (· ≤ ·)).nodup_iff.2 (List.nodup_dedup _)
  exact (hsorted.and hnodup).imp fun hlt => lt_of_le_of_ne hlt.1 hlt.2

end Materialize

/-- Items along an axis span what their strips do. -/
theorem spans_items {α : Type} {items : List α} {index : α → ℕ} {position size : α → ℚ}
    {p : Panes ℚ} {origin width viewport : ℚ} (start stop : ℕ) (x : ℚ)
    (hposition : ∀ a ∈ items, position a = origin + p.shown (index a))
    (hsize : ∀ a ∈ items, size a = p.size (index a))
    (hviewport : viewport = max 0 (width - origin)) :
    (∃ first ∈ (items.filter fun a => start ≤ index a ∧ index a < stop).head?,
      ∃ last ∈ (items.filter fun a => start ≤ index a ∧ index a < stop).getLast?,
        max origin (position first) ≤ x ∧ x < min width (position last + size last)) ↔
      p.Spans viewport (Panes.endsOf ((items.map index).filter fun i => start ≤ i ∧ i < stop))
        (x - origin) := by
  have hfilter : (items.map index).filter (fun i => start ≤ i ∧ i < stop) =
      (items.filter fun a => start ≤ index a ∧ index a < stop).map index := List.filter_map
  have hmem : ∀ a ∈ items.filter (fun a => decide (start ≤ index a ∧ index a < stop)), a ∈ items :=
    fun a ha => (List.mem_filter.1 ha).1
  rw [hfilter]
  generalize items.filter (fun a => decide (start ≤ index a ∧ index a < stop)) = selected at *
  have hiff : ∀ first ∈ selected, ∀ last ∈ selected,
      (max origin (position first) ≤ x ∧ x < min width (position last + size last)) ↔
        (max 0 (p.shown (index first)) ≤ x - origin ∧
          x - origin < min viewport (p.shown (index last) + p.size (index last))) :=
    fun first hfirst last hlast => by
      rw [hposition first (hmem first hfirst), hposition last (hmem last hlast),
        hsize last (hmem last hlast), hviewport, max_le_iff, max_le_iff, lt_min_iff, lt_min_iff,
        lt_max_iff, sub_lt_sub_iff_right, sub_nonneg, le_sub_iff_add_le']
      refine and_congr_right fun hx => and_congr (or_iff_right ?_).symm ?_
      · exact not_lt.2 (sub_nonneg.2 hx.1)
      · rw [sub_lt_iff_lt_add', add_assoc]
  simp only [Panes.Spans, Panes.endsOf, List.head?_map, List.getLast?_map]
  cases hfirst : selected.head? with
  | none => simp
  | some first =>
    cases hlast : selected.getLast? with
    | none => simp
    | some last =>
      simpa using hiff first (List.mem_of_head? hfirst) last (List.mem_of_getLast? hlast)

/-- The first and the last column of a range that are painted. -/
def paintedColumnEnds (l : TableLayout) (range : GridRange) : Option (ℕ × ℕ) :=
  Panes.endsOf ((l.overscanColumns.map (·.index)).filter fun i =>
    range.columnStart ≤ i ∧ i < range.columnEnd)

/-- The first and the last row of a range that are painted. -/
def paintedRowEnds (l : TableLayout) (range : GridRange) : Option (ℕ × ℕ) :=
  Panes.endsOf ((l.overscanRows.map (·.index)).filter fun i =>
    range.rowStart ≤ i ∧ i < range.rowEnd)

/-- The frame of a layout has its rows and columns where these are drawn. -/
structure TableLayout.Materialized (l : TableLayout) (h : l.WellFormed) : Prop where
  column_x : ∀ column ∈ l.overscanColumns,
    column.x = l.rowHeaderWidth + h.columnPanes.shown column.index
  column_width : ∀ column ∈ l.overscanColumns, column.width = h.columnPanes.size column.index
  row_y : ∀ row ∈ l.overscanRows, row.y = l.headerHeight + h.rowPanes.shown row.index
  row_height : ∀ row ∈ l.overscanRows, row.height = h.rowPanes.size row.index
  columns_sorted : (l.overscanColumns.map (·.index)).Pairwise (· < ·)
  rows_sorted : (l.overscanRows.map (·.index)).Pairwise (· < ·)
  mem_columns : ∀ i, i ∈ l.overscanColumns.map (·.index) ↔
    (l.columns.overscan.has i ∨ l.frozenColumnRange.has i) ∧ 0 < h.columnPanes.size i
  mem_rows : ∀ i, i ∈ l.overscanRows.map (·.index) ↔
    (l.rows.overscan.has i ∨ l.frozenRowRange.has i) ∧ 0 < h.rowPanes.size i

theorem contains_highlight {left top right bottom x y : ℚ} {forcedColors : Bool} :
    (∃ paint, highlight left top right bottom forcedColors = some paint ∧
        paint.fill.Contains x y) ↔ (left ≤ x ∧ x < right) ∧ top ≤ y ∧ y < bottom := by
  rw [highlight]
  by_cases hpos : left < right ∧ top < bottom
  · simp only [if_pos hpos, Option.some.injEq, exists_eq_left', PixelRect.Contains,
      add_sub_cancel]
  · simp only [if_neg hpos]
    refine iff_of_false ?_ ?_
    · rintro ⟨_, ⟨⟩, _⟩
    · rintro ⟨⟨hx, hx'⟩, hy, hy'⟩
      exact hpos ⟨hx.trans_lt hx', hy.trans_lt hy'⟩

section Paint

variable {l : TableLayout} {h : l.WellFormed} {range : GridRange} {forcedColors : Bool} {x y : ℚ}

/-- The rectangle that is filled is spanned by the painted rows and columns of the selection. -/
theorem TableLayout.Materialized.paintSelection_contains (hm : l.Materialized h) :
    (∃ paint ∈ paintSelection (renderSnapshot l (some range)) forcedColors,
        paint.fill.Contains x y) ↔
      h.columnPanes.Spans l.bodyWidth (paintedColumnEnds l range) (x - l.rowHeaderWidth) ∧
        h.rowPanes.Spans l.bodyHeight (paintedRowEnds l range) (y - l.headerHeight) := by
  have hcolumns := spans_items range.columnStart range.columnEnd x
    hm.column_x hm.column_width h.bodyWidth_eq
  have hrows := spans_items range.rowStart range.rowEnd y
    hm.row_y hm.row_height h.bodyHeight_eq
  rw [paintedColumnEnds, paintedRowEnds, ← hcolumns, ← hrows]
  simp only [paintSelection, renderSnapshot, List.filter_map, List.head?_map, List.getLast?_map,
    Option.bind_eq_bind, Option.bind_some, Option.mem_def, Function.comp_def]
  generalize List.filter (fun column : VisibleColumn => _) l.overscanColumns = columns
  generalize List.filter (fun row : VisibleRow => _) l.overscanRows = rows
  cases columns.head? with
  | none => simp
  | some firstColumn =>
    cases columns.getLast? with
    | none => simp
    | some lastColumn =>
      cases rows.head? with
      | none => simp
      | some firstRow =>
        cases rows.getLast? with
        | none => simp
        | some lastRow =>
          simp only [Option.map_some, Option.bind_some, Option.some.injEq, exists_eq_left']
          exact contains_highlight

end Paint

/-! ## Created layouts -/

section Created

variable {metadata : TableMetadata} {columnWidths : List ℚ} {viewport : ViewportUpdate}
  {options : LayoutOptions} {l : TableLayout}

theorem createTableLayout_overscan
    (h : createTableLayout metadata columnWidths viewport options = .ok l) :
    l.overscanColumns = materializeColumns metadata l.effectiveColumnWidths
        (columnOffsets l.effectiveColumnWidths) l.columns.overscan l.frozenColumnRange
        l.rowHeaderWidth l.horizontal.logicalOffset l.frozenColumnCount ∧
      l.overscanRows = materializeRows l.rowGeometry l.rows.overscan l.frozenRowRange
        l.headerHeight l.vertical.logicalOffset l.frozenRowCount := by
  obtain ⟨rowHeight, -, h⟩ := Result.bind_eq_ok.1 h
  obtain ⟨headerHeight, -, h⟩ := Result.bind_eq_ok.1 h
  obtain ⟨rowHeaderWidth, -, h⟩ := Result.bind_eq_ok.1 h
  obtain ⟨limit, -, h⟩ := Result.bind_eq_ok.1 h
  obtain ⟨overscanRows, -, h⟩ := Result.bind_eq_ok.1 h
  obtain ⟨overscanColumns, -, h⟩ := Result.bind_eq_ok.1 h
  obtain ⟨width, -, h⟩ := Result.bind_eq_ok.1 h
  obtain ⟨height, -, h⟩ := Result.bind_eq_ok.1 h
  obtain ⟨ratio, -, h⟩ := Result.bind_eq_ok.1 h
  obtain ⟨⟨⟩, -, h⟩ := Result.bind_eq_ok.1 h
  obtain ⟨frozenRows, -, h⟩ := Result.bind_eq_ok.1 h
  obtain ⟨frozenColumns, -, h⟩ := Result.bind_eq_ok.1 h
  obtain ⟨rowGeometry, -, h⟩ := Result.bind_eq_ok.1 h
  obtain ⟨horizontal, -, h⟩ := Result.bind_eq_ok.1 h
  obtain ⟨vertical, -, h⟩ := Result.bind_eq_ok.1 h
  cases h
  exact ⟨rfl, rfl⟩

theorem has_frozenRange {range : IndexRange} {n i : ℕ}
    (hhas : (if n = 0 then ⟨0, 0⟩ else clampRangeEnd range n : IndexRange).has i) : i < n := by
  rw [IndexRange.has_iff] at hhas
  split_ifs at hhas
  · exact absurd hhas.2 (Nat.not_lt_zero i)
  · exact hhas.2.trans_le (min_le_right _ _)

theorem has_expandRange_lt {range : IndexRange} {amount n i : ℕ}
    (hhas : (expandRange range amount n).has i) : i < n :=
  ((IndexRange.has_iff.1 hhas).2).trans_le (min_le_left _ _)

/-- The items that are made of some indexes, if any is made of an index that has a size. -/
theorem mem_map_filterMap {α : Type} {indexes : List ℕ} {make : ℕ → Option α} {index : α → ℕ}
    {P : ℕ → Prop} (hmake : ∀ i a, make i = some a → index a = i ∧ P i)
    (hexists : ∀ i ∈ indexes, P i → ∃ a, make i = some a) (i : ℕ) :
    i ∈ (indexes.filterMap make).map index ↔ i ∈ indexes ∧ P i := by
  simp only [List.mem_map, List.mem_filterMap]
  constructor
  · rintro ⟨a, ⟨k, hk, ha⟩, rfl⟩
    obtain ⟨rfl, hP⟩ := hmake k a ha
    exact ⟨hk, hP⟩
  · rintro ⟨hi, hP⟩
    obtain ⟨a, ha⟩ := hexists i hi hP
    exact ⟨a, ⟨i, hi, ha⟩, (hmake i a ha).1⟩

theorem pairwise_map_filterMap {α : Type} {indexes : List ℕ} {make : ℕ → Option α} {index : α → ℕ}
    (hmake : ∀ i a, make i = some a → index a = i) (hsorted : indexes.Pairwise (· < ·)) :
    ((indexes.filterMap make).map index).Pairwise (· < ·) := by
  rw [List.pairwise_map, List.pairwise_filterMap]
  refine hsorted.imp fun hlt a ha b hb => ?_
  rw [hmake _ a ha, hmake _ b hb]
  exact hlt

theorem materializeColumns_eq (metadata : TableMetadata) (widths offsets : List ℚ)
    (range frozenRange : IndexRange)
    (rowHeaderWidth scrollLeft : ℚ) (frozenColumnCount : ℕ) :
    ∃ make : ℕ → Option VisibleColumn,
      materializeColumns metadata widths offsets range frozenRange rowHeaderWidth scrollLeft
        frozenColumnCount = (rangeIndexes range frozenRange).filterMap make ∧
      (∀ i column, make i = some column → (column.index = i ∧ 0 < widths.getD i 0) ∧
        column.width = widths.getD i 0 ∧ column.x = rowHeaderWidth + offsets.getD i 0 -
          if i < frozenColumnCount then 0 else scrollLeft) ∧
      ∀ i < metadata.schema.columns.length, 0 < widths.getD i 0 →
        ∃ column, make i = some column := by
  refine ⟨_, rfl, fun i column hcolumn => ?_, fun i hi hpos => ?_⟩
  · obtain ⟨_, -, hcolumn⟩ := Option.bind_eq_some_iff.1 hcolumn
    dsimp only at hcolumn
    by_cases hwidth : widths.getD i 0 ≤ 0
    · rw [if_pos hwidth] at hcolumn
      exact nomatch hcolumn
    · rw [if_neg hwidth] at hcolumn
      cases hcolumn
      exact ⟨⟨rfl, not_le.1 hwidth⟩, rfl, by simp only [decide_eq_true_eq]⟩
  · rw [List.getElem?_eq_getElem hi, Option.bind_eq_bind, Option.bind_some]
    dsimp only
    rw [if_neg (not_le.2 hpos)]
    exact ⟨_, rfl⟩

theorem materializeRows_eq (geometry : SparseAxisGeometry) (range frozenRange : IndexRange)
    (headerHeight scrollTop : ℚ) (frozenRowCount : ℕ) :
    ∃ make : ℕ → Option VisibleRow,
      materializeRows geometry range frozenRange headerHeight scrollTop frozenRowCount =
        (rangeIndexes range frozenRange).filterMap make ∧
      (∀ i row, make i = some row → (row.index = i ∧ 0 < axisSize geometry i) ∧
        row.height = axisSize geometry i ∧ row.y = headerHeight + axisPosition geometry i -
          if i < frozenRowCount then 0 else scrollTop) ∧
      ∀ i, 0 < axisSize geometry i → ∃ row, make i = some row := by
  refine ⟨_, rfl, fun i row hrow => ?_, fun i hpos => ?_⟩
  · dsimp only at hrow
    by_cases hheight : axisSize geometry i ≤ 0
    · rw [if_pos hheight] at hrow
      exact nomatch hrow
    · rw [if_neg hheight] at hrow
      cases hrow
      exact ⟨⟨rfl, not_le.1 hheight⟩, rfl, by simp only [decide_eq_true_eq]⟩
  · dsimp only
    rw [if_neg (not_le.2 hpos)]
    exact ⟨_, rfl⟩

/-- A layout has its rows and columns where they are drawn. -/
theorem createTableLayout_materialized
    (h : createTableLayout metadata columnWidths viewport options = .ok l) :
    l.Materialized (createTableLayout_created h).wellFormed := by
  obtain ⟨hcolumns, hrows⟩ := createTableLayout_overscan h
  have hcount := (createTableLayout_created h).columnCount_eq
  generalize (createTableLayout_created h).wellFormed = hl
  obtain ⟨makeColumn, hmake, hcolumn, hexists⟩ := materializeColumns_eq metadata
    l.effectiveColumnWidths (columnOffsets l.effectiveColumnWidths) l.columns.overscan
    l.frozenColumnRange l.rowHeaderWidth l.horizontal.logicalOffset l.frozenColumnCount
  obtain ⟨makeRow, hmakeRow, hrow, hexistsRow⟩ := materializeRows_eq l.rowGeometry l.rows.overscan
    l.frozenRowRange l.headerHeight l.vertical.logicalOffset l.frozenRowCount
  rw [hmake] at hcolumns
  rw [hmakeRow] at hrows
  -- All the columns that are visible or frozen are in the table.
  have hlt : ∀ i ∈ rangeIndexes l.columns.overscan l.frozenColumnRange, i < l.columnCount := by
    intro i hi
    rcases mem_rangeIndexes.1 hi with hi | hi
    · obtain ⟨amount, hamount⟩ := hl.columns_overscan
      rw [hamount] at hi
      exact has_expandRange_lt hi
    · rw [hl.frozenColumnRange_eq] at hi
      exact (has_frozenRange hi).trans_le hl.frozenColumns_le
  have hmemColumn : ∀ column ∈ l.overscanColumns, ∃ i < l.columnCount,
      makeColumn i = some column := fun column hmem => by
    rw [hcolumns] at hmem
    obtain ⟨i, hi, hsome⟩ := List.mem_filterMap.1 hmem
    exact ⟨i, hlt i hi, hsome⟩
  have hmemRow : ∀ row ∈ l.overscanRows, ∃ i, makeRow i = some row := fun row hmem => by
    rw [hrows] at hmem
    obtain ⟨i, -, hsome⟩ := List.mem_filterMap.1 hmem
    exact ⟨i, hsome⟩
  refine ⟨fun column hmem => ?_, fun column hmem => ?_, fun row hmem => ?_, fun row hmem => ?_,
    ?_, ?_, fun i => ?_, fun i => ?_⟩
  · obtain ⟨i, hi, hsome⟩ := hmemColumn column hmem
    obtain ⟨⟨rfl, -⟩, -, hx⟩ := hcolumn i column hsome
    rw [hx, hl.columnOffset_eq hi.le, add_sub_assoc]
    rfl
  · obtain ⟨i, -, hsome⟩ := hmemColumn column hmem
    obtain ⟨⟨rfl, -⟩, hwidth, -⟩ := hcolumn i column hsome
    exact hwidth
  · obtain ⟨i, hsome⟩ := hmemRow row hmem
    obtain ⟨⟨rfl, -⟩, -, hy⟩ := hrow i row hsome
    rw [hy, hl.geometry.axisPosition_eq, add_sub_assoc]
    rfl
  · obtain ⟨i, hsome⟩ := hmemRow row hmem
    obtain ⟨⟨rfl, -⟩, hheight, -⟩ := hrow i row hsome
    exact hheight
  · rw [hcolumns]
    exact pairwise_map_filterMap (fun i a ha => (hcolumn i a ha).1.1) pairwise_rangeIndexes
  · rw [hrows]
    exact pairwise_map_filterMap (fun i a ha => (hrow i a ha).1.1) pairwise_rangeIndexes
  · rw [hcolumns, mem_map_filterMap (fun i a ha => (hcolumn i a ha).1)
      (fun i hi hpos => hexists i (hcount ▸ hlt i hi) hpos), mem_rangeIndexes]
    rfl
  · rw [hrows, mem_map_filterMap (fun i a ha => (hrow i a ha).1)
      (fun i _ hpos => hexistsRow i hpos), mem_rangeIndexes]
    rfl

end Created

/-! ## Ranges around what shows -/

section Painted

/-- Strips are painted as the panes ask for if they are those of a range around what shows, and of
    one from the first strip that stays. -/
theorem painted_of_ranges {p : Panes ℚ} {viewport : ℚ} {painted : ℕ → Prop}
    {visible frozen : IndexRange} {amount n : ℕ}
    (hmem : ∀ i, painted i ↔ ((expandRange visible amount n).has i ∨ frozen.has i) ∧ 0 < p.size i)
    (hfrozen : ∀ i, frozen.has i → i < p.frozen)
    (hfirst : 0 < viewport → ∀ i < p.frozen, Covers p.size i 0 → frozen.has i)
    (hstart : ∀ i < visible.start, 0 < p.size i → visible.start < n ∧
      visible.has visible.start ∧ Covers p.size visible.start p.scroll) :
    p.Painted viewport painted := by
  refine ⟨fun i hi => ((hmem i).1 hi).2, fun hpos i hi hcovers =>
    (hmem i).2 ⟨.inr (hfirst hpos i hi hcovers), hcovers.pos⟩,
      fun i j hi hj hpainted hpos hout => ?_⟩
  -- A scrolled strip that is painted is in the range around what shows.
  have hj : (expandRange visible amount n).has j :=
    ((hmem j).1 hpainted).1.resolve_right fun hj' => absurd (hfrozen j hj') (not_lt.2 hj)
  have hi' : ¬(expandRange visible amount n).has i := fun hhas =>
    hout ((hmem i).2 ⟨.inl hhas, hpos⟩)
  rw [IndexRange.has_iff] at hj hi'
  dsimp only [expandRange] at hj hi'
  have hbefore : i < visible.start - amount := by omega
  obtain ⟨hn, hhas, hcovers⟩ := hstart i (by omega) hpos
  exact ⟨visible.start, by omega, (hmem _).2 ⟨.inl (has_expandRange hhas hn), hcovers.pos⟩, hcovers⟩

variable {scroll viewport : ℚ}

/-- A strip with a size ends within all the strips, so these are not all scrolled out. -/
theorem scroll_lt_offset {size : ℕ → ℚ} {i n : ℕ} (hsize : ∀ i, 0 ≤ size i)
    (hscroll : scroll ≤ max 0 (offset size n - viewport)) (hviewport : 0 < viewport)
    (hi : i < n) (hpos : 0 < size i) : scroll < offset size n := by
  have hend : 0 < offset size n := ((offset_nonneg hsize i).trans_lt
    (lt_add_of_pos_right _ hpos)).trans_le ((offset_succ size i).ge.trans (offset_mono hsize hi))
  exact hscroll.trans_lt (max_lt hend (sub_lt_self _ hviewport))

/-- The visible rows begin with the one at the offset that is scrolled to. -/
theorem visibleRowRange_eq {g : SparseAxisGeometry} {first : ℕ}
    (h : g.WellFormed) (hzero : 0 ≤ scroll) (hviewport : 0 < viewport)
    (hcovers : Covers (axisSize g) first scroll) :
    ∃ stop, first < stop ∧ visibleRowRange g scroll viewport = ⟨first, stop⟩ := by
  have hcontent : g.contentSize = Strips.offset (axisSize g) g.count := by
    rw [h.contentSize_eq, h.axisPosition_eq]
  have hfirst := SparseAxisGeometry.WellFormed.lt_count_of_covers hcovers
  have hlt := hcovers.lt_offset h.axisSize_nonneg hfirst
  unfold visibleRowRange
  dsimp only
  generalize max (1 / 10 ^ 7) (|scroll + viewport| * (1 / 2 ^ 52) * 4) = epsilon
  rw [if_neg (by
    rintro (heq | hle | hle)
    · exact absurd heq (Nat.ne_zero_of_lt hfirst)
    · exact absurd hle (not_le.2 hviewport)
    · exact absurd (hcontent ▸ hle) (not_le.2 (hzero.trans_lt hlt))),
    h.axisIndexAtOffset_eq_some.2 hcovers]
  dsimp only
  cases hlast : axisIndexAtOffset g
      (max scroll (min g.contentSize (scroll + viewport) - epsilon)) with
  | none => exact ⟨first + 1, Nat.lt_succ_self _, rfl⟩
  | some last =>
    have hle := hcovers.mono h.axisSize_nonneg (h.axisIndexAtOffset_eq_some.1 hlast)
      (le_max_left _ _)
    exact ⟨_, lt_min hfirst (Nat.lt_succ_of_le hle), rfl⟩

/-- The first visible row covers the offset that is scrolled to. -/
theorem start_visibleRowRange {g : SparseAxisGeometry} {i : ℕ}
    (h : g.WellFormed) (hzero : 0 ≤ scroll) (hscroll : scroll ≤ max 0 (g.contentSize - viewport))
    (hi : i < (visibleRowRange g scroll viewport).start) (hpos : 0 < axisSize g i) :
    (visibleRowRange g scroll viewport).start < g.count ∧
      (visibleRowRange g scroll viewport).has (visibleRowRange g scroll viewport).start ∧
      Covers (axisSize g) (visibleRowRange g scroll viewport).start scroll := by
  have hcontent : g.contentSize = Strips.offset (axisSize g) g.count := by
    rw [h.contentSize_eq, h.axisPosition_eq]
  have hcount : i < g.count := SparseAxisGeometry.WellFormed.lt_count_of_covers
    (x := offset (axisSize g) i) ⟨le_rfl, lt_add_of_pos_right _ hpos⟩
  have hviewport : 0 < viewport := by
    by_contra hle
    rw [visibleRowRange, if_pos (.inr (.inl (not_lt.1 hle)))] at hi
    exact absurd hi (Nat.not_lt_zero i)
  have hlt := scroll_lt_offset h.axisSize_nonneg (hcontent ▸ hscroll) hviewport hcount hpos
  obtain ⟨first, hfirst, hcovers⟩ := exists_covers hzero hlt
  obtain ⟨stop, hstop, hrange⟩ := visibleRowRange_eq h hzero hviewport hcovers
  rw [hrange]
  exact ⟨hfirst, IndexRange.has_iff.2 ⟨le_rfl, hstop⟩, hcovers⟩

/-- The first visible column covers the offset that is scrolled to. -/
theorem start_visibleColumnRange {widths : List ℚ} {i : ℕ}
    (hwidths : ∀ w ∈ widths, 0 ≤ w) (hzero : 0 ≤ scroll)
    (hscroll : scroll ≤ max 0 (offset (columnSize widths) widths.length - viewport))
    (hi : i < (visibleColumnRange (columnOffsets widths) scroll viewport).start)
    (hpos : 0 < columnSize widths i) :
    (visibleColumnRange (columnOffsets widths) scroll viewport).start < widths.length ∧
      (visibleColumnRange (columnOffsets widths) scroll viewport).has
        (visibleColumnRange (columnOffsets widths) scroll viewport).start ∧
      Covers (columnSize widths)
        (visibleColumnRange (columnOffsets widths) scroll viewport).start scroll := by
  have hcount : i < widths.length := lt_length_of_covers
    (x := offset (columnSize widths) i) ⟨le_rfl, lt_add_of_pos_right _ hpos⟩
  have hviewport : 0 < viewport := by
    by_contra hle
    rw [visibleColumnRange, if_pos (.inr (not_lt.1 hle))] at hi
    exact absurd hi (Nat.not_lt_zero i)
  have hlt := scroll_lt_offset (columnSize_nonneg hwidths) hscroll hviewport hcount hpos
  obtain ⟨first, hfirst, hcovers⟩ := exists_covers hzero hlt
  have hstart : (visibleColumnRange (columnOffsets widths) scroll viewport).start = first := by
    rw [visibleColumnRange, length_columnOffsets, Nat.add_sub_cancel, if_neg (by
      rintro (heq | hle)
      · exact absurd heq (Nat.ne_zero_of_lt hcount)
      · exact absurd hle (not_le.2 hviewport)), (columnAtLogicalX_eq_some hwidths).2 hcovers]
    rfl
  rw [hstart]
  exact ⟨hfirst, has_visibleColumnRange hwidths hzero le_rfl hcovers
    (lt_add_of_pos_right _ hviewport), hcovers⟩

variable {l : TableLayout} {h : l.WellFormed}

/-- The painted columns are those around what shows. -/
theorem TableLayout.Materialized.painted_columns (hm : l.Materialized h) :
    h.columnPanes.Painted l.bodyWidth (· ∈ l.overscanColumns.map (·.index)) := by
  obtain ⟨amount, hamount⟩ := h.columns_overscan
  have hmem := hm.mem_columns
  rw [hamount] at hmem
  refine painted_of_ranges hmem (fun i hi => ?_) (fun hpos i hi hcovers => ?_) (fun i hi hpos => ?_)
  · rw [h.frozenColumnRange_eq] at hi
    exact has_frozenRange hi
  · rw [h.frozenColumnRange_eq, if_neg (show ¬l.frozenColumnCount = 0 from Nat.ne_zero_of_lt hi)]
    have hextent := hcovers.lt_offset h.columnPanes.size_nonneg hi
    refine has_clampRangeEnd (has_visibleColumnRange h.widths_nonneg le_rfl le_rfl hcovers ?_) hi
    rw [zero_add]
    exact lt_min hpos (hextent.trans_eq h.extent_columnPanes)
  · have hscroll := h.horizontal.logicalOffset_mem
    rw [h.horizontal.logicalMax_eq, h.horizontal_content, h.horizontal_viewport,
      getD_columnOffsets h.widths_length.ge, ← h.widths_length] at hscroll
    rw [h.columns_visible] at hi ⊢
    rw [← h.widths_length]
    exact start_visibleColumnRange h.widths_nonneg hscroll.1 hscroll.2 hi hpos

/-- The painted rows are those around what shows. -/
theorem TableLayout.Materialized.painted_rows (hm : l.Materialized h) :
    h.rowPanes.Painted l.bodyHeight (· ∈ l.overscanRows.map (·.index)) := by
  obtain ⟨amount, hamount⟩ := h.rows_overscan
  have hmem := hm.mem_rows
  rw [hamount] at hmem
  refine painted_of_ranges hmem (fun i hi => ?_) (fun hpos i hi hcovers => ?_) (fun i hi hpos => ?_)
  · rw [h.frozenRowRange_eq] at hi
    exact has_frozenRange hi
  · rw [h.frozenRowRange_eq, if_neg (show ¬l.frozenRowCount = 0 from Nat.ne_zero_of_lt hi)]
    have hextent := hcovers.lt_offset h.rowPanes.size_nonneg hi
    obtain ⟨stop, hstop, hrange⟩ := visibleRowRange_eq h.geometry le_rfl
      (lt_min hpos (hextent.trans_eq h.extent_rowPanes)) hcovers
    refine has_clampRangeEnd ?_ hi
    rw [hrange]
    exact IndexRange.has_iff.2 ⟨le_rfl, hstop⟩
  · have hscroll := h.vertical.logicalOffset_mem
    rw [h.vertical.logicalMax_eq, h.vertical_content, h.vertical_viewport] at hscroll
    rw [h.rows_visible] at hi ⊢
    rw [← h.geometry_count]
    exact start_visibleRowRange h.geometry hscroll.1 hscroll.2 hi hpos

end Painted

/-! ## The selection -/

/-- At every point of the body the rectangle that is filled is there if a selected cell is hit. -/
def HighlightExact (l : TableLayout) (range : GridRange) (forcedColors : Bool) : Prop :=
  ∀ x y w : ℚ, l.rowHeaderWidth ≤ x → x < l.width → l.headerHeight ≤ y → y < l.height →
    ((∃ paint ∈ paintSelection (renderSnapshot l (some range)) forcedColors,
        paint.fill.Contains x y) ↔
      ∃ r c, hitTest l x y w = .cell r c ∧ range.rangeContains r c)

/-- If some selected cell shows, or else if the painted rows and columns span something, then on
    both axes what shows of the selection is enclosed by what is painted of it. -/
def HighlightClear {l : TableLayout} (h : l.WellFormed) (range : GridRange) : Prop :=
  ((∃ b, h.columnPanes.Shows l.bodyWidth range.columnStart range.columnEnd b) ∧
        ∃ b, h.rowPanes.Shows l.bodyHeight range.rowStart range.rowEnd b) ∨
      ((∃ b, h.columnPanes.Spans l.bodyWidth (paintedColumnEnds l range) b) ∧
        ∃ b, h.rowPanes.Spans l.bodyHeight (paintedRowEnds l range) b) →
    h.columnPanes.Enclosed l.bodyWidth range.columnStart range.columnEnd
        (paintedColumnEnds l range) ∧
      h.rowPanes.Enclosed l.bodyHeight range.rowStart range.rowEnd (paintedRowEnds l range)

section Selection

variable {l : TableLayout} {h : l.WellFormed} {range : GridRange} {forcedColors : Bool} {x y w : ℚ}

/-- The body begins at an origin, and ends with the viewport. -/
theorem mem_body_iff {origin extent body z : ℚ} (hbody : body = max 0 (extent - origin)) :
    0 ≤ z - origin ∧ z - origin < body ↔ origin ≤ z ∧ z < extent := by
  rw [hbody, sub_nonneg, lt_max_iff, sub_lt_sub_iff_right]
  exact and_congr_right fun hle => or_iff_right (not_lt.2 (sub_nonneg.2 hle))

/-- A selected cell is hit where a column and a row of the selection show. -/
theorem TableLayout.WellFormed.hit_iff_shows (h : l.WellFormed) :
    (∃ r c, hitTest l x y w = .cell r c ∧ range.rangeContains r c) ↔
      h.columnPanes.Shows l.bodyWidth range.columnStart range.columnEnd (x - l.rowHeaderWidth) ∧
        h.rowPanes.Shows l.bodyHeight range.rowStart range.rowEnd (y - l.headerHeight) := by
  have hx := mem_body_iff (z := x) h.bodyWidth_eq
  have hy := mem_body_iff (z := y) h.bodyHeight_eq
  simp only [h.hitTest_eq_cell_iff, GridRange.rangeContains_iff]
  constructor
  · rintro ⟨r, c, ⟨⟨hle, hlt, htop⟩, hle', hlt', htop'⟩, hr, hr', hc, hc'⟩
    exact ⟨⟨(hx.2 ⟨hle, hlt⟩).1, (hx.2 ⟨hle, hlt⟩).2, c, hc, hc', htop⟩,
      (hy.2 ⟨hle', hlt'⟩).1, (hy.2 ⟨hle', hlt'⟩).2, r, hr, hr', htop'⟩
  · rintro ⟨⟨hle, hlt, c, hc, hc', htop⟩, hle', hlt', r, hr, hr', htop'⟩
    exact ⟨r, c, ⟨⟨(hx.1 ⟨hle, hlt⟩).1, (hx.1 ⟨hle, hlt⟩).2, htop⟩, (hy.1 ⟨hle', hlt'⟩).1,
      (hy.1 ⟨hle', hlt'⟩).2, htop'⟩, hr, hr', hc, hc'⟩

/-- The painted rectangle is where the selection shows exactly if it is clear. -/
theorem TableLayout.Materialized.highlightExact_iff (hm : l.Materialized h) :
    HighlightExact l range forcedColors ↔ HighlightClear h range := by
  have hcolumns : (∀ b, h.columnPanes.Spans l.bodyWidth (paintedColumnEnds l range) b ↔
      h.columnPanes.Shows l.bodyWidth range.columnStart range.columnEnd b) ↔ _ :=
    Panes.spans_iff_shows hm.painted_columns (Panes.ends_filter hm.columns_sorted)
  have hrows : (∀ b, h.rowPanes.Spans l.bodyHeight (paintedRowEnds l range) b ↔
      h.rowPanes.Shows l.bodyHeight range.rowStart range.rowEnd b) ↔ _ :=
    Panes.spans_iff_shows hm.painted_rows (Panes.ends_filter hm.rows_sorted)
  rw [HighlightClear, ← hcolumns, ← hrows, ← forall_and_iff_and]
  constructor
  · intro hexact a b
    -- Outside of the body nothing is painted, and nothing is hit.
    by_cases hbody : (0 ≤ a ∧ a < l.bodyWidth) ∧ 0 ≤ b ∧ b < l.bodyHeight
    · obtain ⟨hx, hy⟩ := hbody
      rw [← add_sub_cancel_left l.rowHeaderWidth a] at hx
      rw [← add_sub_cancel_left l.headerHeight b] at hy
      have hx := (mem_body_iff h.bodyWidth_eq).1 hx
      have hy := (mem_body_iff h.bodyHeight_eq).1 hy
      have hpoint := hexact _ _ 0 hx.1 hx.2 hy.1 hy.2
      rwa [hm.paintSelection_contains, h.hit_iff_shows, add_sub_cancel_left,
        add_sub_cancel_left] at hpoint
    · exact iff_of_false (fun hspans => hbody ⟨hspans.1.mem, hspans.2.mem⟩) fun hshows =>
        hbody ⟨⟨hshows.1.1, hshows.1.2.1⟩, hshows.2.1, hshows.2.2.1⟩
  · intro hall x y w _ _ _ _
    rw [hm.paintSelection_contains, h.hit_iff_shows]
    exact hall _ _

end Selection

/-- The rectangle that is filled for a selection has the points at which a selected cell is hit
    exactly if what shows of the selection is enclosed, on both axes, by what is painted of it. -/
theorem paintSelection_exact_iff (metadata : TableMetadata) (columnWidths : List ℚ)
    (viewport : ViewportUpdate) (options : LayoutOptions) (l : TableLayout)
    (hlayout : createTableLayout metadata columnWidths viewport options = .ok l)
    (range : GridRange) (forcedColors : Bool) :
    HighlightExact l range forcedColors ↔
      HighlightClear (createTableLayout_created hlayout).wellFormed range :=
  (createTableLayout_materialized hlayout).highlightExact_iff

/-- The second column is scrolled halfway beneath the first one, which is highlighted with it. -/
theorem paintSelection_beneath :
    ∃ l, createTableLayout threeColumns [100, 100, 100] ⟨214, 100, 50, 0, none⟩
        { frozenColumns := 1 } = .ok l ∧
      (1 ≤ l.rowCount ∧ 2 ≤ l.columnCount) ∧ ¬HighlightExact l ⟨0, 1, 1, 2⟩ false := by
  obtain ⟨l, hl, hwidth, hheight, hrowHeader, hheader, hcount, hfrozen, hwidths, hoffset⟩ :=
    exists_layout_threeColumns 214 (by norm_num)
  have hm := createTableLayout_materialized hl
  have hcreated := createTableLayout_created hl
  have hrows : l.rowCount = 10 := hcreated.rowCount_eq
  refine ⟨l, hl, ⟨by rw [hrows]; norm_num, by rw [hcount]; norm_num⟩, fun hexact => ?_⟩
  generalize hcreated.wellFormed = h at hm
  have hbodyWidth : l.bodyWidth = 150 := by
    rw [h.bodyWidth_eq, hwidth, hrowHeader]
    norm_num
  have hbodyHeight : l.bodyHeight = 64 := by
    rw [h.bodyHeight_eq, hheight, hheader]
    norm_num
  have hstart : offset h.columnPanes.size 1 = 100 := by
    rw [offset_succ, offset_zero]
    change 0 + columnSize l.effectiveColumnWidths 0 = 100
    rw [hwidths]
    norm_num [columnSize]
  have hsize : h.columnPanes.size 1 = 100 := by
    change columnSize l.effectiveColumnWidths 1 = 100
    rw [hwidths]
    norm_num [columnSize]
  have hfrozenRows : l.frozenRowCount = 0 := by
    rw [hcreated.frozenRowCount_eq]
    exact min_eq_right (Nat.zero_le _)
  have hextent : h.columnPanes.extent = 100 := by
    change offset h.columnPanes.size l.frozenColumnCount = 100
    rw [hfrozen, hstart]
  -- The first row shows at the top.
  have hrow : h.rowPanes.Topmost 0 0 := by
    have hgeometry := hcreated.geometry
    rw [createSparseAxisGeometry_eq (by rw [hrows]; decide) (by norm_num)] at hgeometry
    have hpos : 0 < axisSize l.rowGeometry 0 := by
      rw [← Except.ok.inj hgeometry, axisSize_geometryOf (by rw [hrows]; decide) (by norm_num)
        (by rw [hrows]; norm_num)]
      norm_num [effectiveSize]
    have hoffset := logicalOffset_of_le_limit hcreated.vertical (by
      rw [← Except.ok.inj hgeometry, hrows]
      norm_num [geometryOf, sortedSizes, InsertionMap.empty])
    have hzero : l.vertical.logicalOffset = 0 :=
      hoffset.trans (clampFinite_of_mem ⟨le_rfl, le_max_left _ _⟩)
    refine (Panes.topmost_of_le le_rfl hfrozenRows.le).2 ⟨?_, ?_⟩
    · change offset (axisSize l.rowGeometry) l.frozenRowCount ≤ 0
      rw [hfrozenRows, offset_zero]
    · change Covers (axisSize l.rowGeometry) 0 (0 + l.vertical.logicalOffset)
      rw [hzero, Covers, offset_zero, zero_add]
      exact ⟨le_rfl, hpos.trans_eq (zero_add _).symm⟩
  -- The second column shows beyond the first one, so the two ends are this column.
  have hcolumn : h.columnPanes.Topmost 1 110 := by
    refine (Panes.topmost_of_le (by norm_num) hfrozen.le).2 ⟨?_, ?_⟩
    · rw [hextent]
      norm_num
    · rw [Covers, hstart, hsize]
      change 100 ≤ 110 + l.horizontal.logicalOffset ∧ 110 + l.horizontal.logicalOffset < 100 + 100
      rw [hoffset]
      norm_num
  have hclear := (hm.highlightExact_iff.1 hexact (.inl
    ⟨⟨110, by norm_num, by rw [hbodyWidth]; norm_num, 1, le_rfl, Nat.lt_succ_self 1, hcolumn⟩,
      0, le_rfl, by rw [hbodyHeight]; norm_num, 0, le_rfl, Nat.one_pos, hrow⟩)).1
  obtain ⟨⟨first, last⟩, he, hfirst, hlast⟩ := hclear.between 110 (by norm_num)
    (by rw [hbodyWidth]; norm_num) 1 le_rfl (Nat.lt_succ_self 1) hcolumn
  have hends := (Panes.ends_filter hm.columns_sorted).mem _ he
  obtain rfl : first = 1 := le_antisymm hfirst (hends first (.inl rfl)).2.1
  obtain rfl : last = 1 :=
    le_antisymm (Nat.le_of_lt_succ (hends last (.inr rfl)).2.2) hlast
  have hbeneath := hclear.scrolled _ he hfrozen.le
  have hshown : h.columnPanes.shown 1 = 50 := by
    rw [Panes.shown_of_le hfrozen.le, hstart]
    change 100 - l.horizontal.logicalOffset = 50
    rw [hoffset]
    norm_num
  rw [hbodyWidth, hextent, hshown, hsize] at hbeneath
  norm_num at hbeneath

/-- The first column of the same table is selected. -/
theorem paintSelection_exact_iff_frozen :
    ∃ l, ∃ hlayout : createTableLayout threeColumns [100, 100, 100] ⟨214, 100, 50, 0, none⟩
        { frozenColumns := 1 } = .ok l,
      HighlightExact l ⟨0, 1, 0, 1⟩ false ↔
        HighlightClear (createTableLayout_created hlayout).wellFormed ⟨0, 1, 0, 1⟩ := by
  obtain ⟨l, hl, -⟩ := exists_layout_threeColumns 214 (by norm_num)
  exact ⟨l, hl, paintSelection_exact_iff threeColumns [100, 100, 100] ⟨214, 100, 50, 0, none⟩
    { frozenColumns := 1 } l hl ⟨0, 1, 0, 1⟩ false⟩

end Tabulark.View
