import Tabulark.View.TableLayout

/-!
# Layouts are well formed

A layout that was created has the parts that the others are computed from. Its
columns and its rows are strips, frozen and scrolled, and what is found at a
point is the strip on top.
-/

namespace Tabulark.View

open Bisect Strips

/-! ## Columns as strips -/

/-- The width of a column. -/
def columnSize (widths : List ℚ) (i : ℕ) : ℚ := widths.getD i 0

variable {widths : List ℚ} {i : ℕ} {x : ℚ}

theorem length_columnOffsets (widths : List ℚ) :
    (columnOffsets widths).length = widths.length + 1 := List.length_scanl

theorem getD_scanl (start : ℚ) (hi : i ≤ widths.length) :
    (widths.scanl (· + ·) start).getD i 0 = start + offset (columnSize widths) i := by
  induction widths generalizing start i with
  | nil =>
    obtain rfl := Nat.le_zero.1 hi
    simp
  | cons w widths ih =>
    rw [List.scanl_cons]
    cases i with
    | zero => simp
    | succ i =>
      rw [List.getD_cons_succ, ih _ (Nat.le_of_succ_le_succ hi), offset, offset,
        Finset.sum_range_succ', add_comm (∑ j ∈ _, _), ← add_assoc]
      rfl

/-- A column begins where those before it end. -/
theorem getD_columnOffsets (hi : i ≤ widths.length) :
    (columnOffsets widths).getD i 0 = offset (columnSize widths) i := by
  rw [columnOffsets, getD_scanl 0 hi, zero_add]

theorem columnSize_nonneg (hwidths : ∀ w ∈ widths, 0 ≤ w) (i : ℕ) : 0 ≤ columnSize widths i := by
  rw [columnSize, List.getD_eq_getElem?_getD]
  cases hget : widths[i]? with
  | none => exact le_rfl
  | some w => exact hwidths w (List.mem_of_getElem? hget)

theorem getElem_columnOffsets (hi : i < (columnOffsets widths).length) :
    (columnOffsets widths)[i] = offset (columnSize widths) i := by
  have hle : i ≤ widths.length := by
    rw [length_columnOffsets] at hi
    omega
  rw [← getD_columnOffsets hle, List.getD_eq_getElem?_getD, List.getElem?_eq_getElem hi]
  rfl

theorem sorted_columnOffsets (hwidths : ∀ w ∈ widths, 0 ≤ w) :
    (columnOffsets widths).Pairwise fun a b => id a ≤ id b :=
  List.pairwise_iff_getElem.2 fun i k hi hk hlt => by
    rw [getElem_columnOffsets hi, getElem_columnOffsets hk]
    exact offset_mono (columnSize_nonneg hwidths) hlt.le

/-- The search among the boundaries finds the first that is not left of a point. -/
theorem lt_lowerBound_iff (hwidths : ∀ w ∈ widths, 0 ≤ w) (hi : i ≤ widths.length) :
    i < lowerBound (columnOffsets widths) x ↔ offset (columnSize widths) i < x := by
  have hlt : i < (columnOffsets widths).length := by
    rw [length_columnOffsets]
    omega
  rw [lowerBound, lt_lowerBoundBy_iff (sorted_columnOffsets hwidths) hlt,
    getElem_columnOffsets hlt]
  exact Iff.rfl

theorem lt_length_of_covers (hcovers : Covers (columnSize widths) i x) : i < widths.length := by
  by_contra hle
  have hpos := hcovers.pos
  rw [columnSize, List.getD_eq_getElem?_getD, List.getElem?_eq_none (not_lt.1 hle)] at hpos
  exact lt_irrefl _ hpos

/-- The search among the columns finds the one that covers a point, if there is one. -/
theorem columnAtLogicalX_eq_some (hwidths : ∀ w ∈ widths, 0 ≤ w) :
    columnAtLogicalX (columnOffsets widths) x = some i ↔ Covers (columnSize widths) i x := by
  have hsize := columnSize_nonneg hwidths
  have hfound : ∀ k, Covers (columnSize widths) k x → bisect
      (fun middle => (columnOffsets widths).getD (middle + 1) 0 ≤ x) 0 widths.length = k :=
    fun k hk => bisect_eq_of_covers hsize (fun j hj => getD_columnOffsets hj)
      (lt_length_of_covers hk) hk
  rw [columnAtLogicalX, length_columnOffsets, Nat.add_sub_cancel, getD_columnOffsets le_rfl]
  split_ifs with hout
  · refine ⟨fun hnone => (nomatch hnone), fun hcovers => ?_⟩
    rcases hout with hneg | hzero | hbeyond
    · exact absurd (hcovers.nonneg hsize) (not_le.2 hneg)
    · exact absurd (lt_length_of_covers hcovers) (by omega)
    · exact absurd (hcovers.lt_offset hsize (lt_length_of_covers hcovers)) (not_lt.2 hbeyond)
  · simp only [not_or, not_lt, not_le] at hout
    obtain ⟨k, -, hk⟩ := exists_covers hout.1 hout.2.2
    rw [hfound k hk, Option.some_inj]
    exact ⟨fun heq => heq ▸ hk, fun hi => hk.unique hsize hi⟩

/-! ## Well-formed layouts -/

/-- The body, the frozen extents and the windows of a layout come from its other parts. -/
structure TableLayout.Computed (l : TableLayout) : Prop where
  headerHeight_nonneg : 0 ≤ l.headerHeight
  rowHeaderWidth_nonneg : 0 ≤ l.rowHeaderWidth
  bodyWidth_eq : l.bodyWidth = max 0 (l.width - l.rowHeaderWidth)
  bodyHeight_eq : l.bodyHeight = max 0 (l.height - l.headerHeight)
  frozenRowExtent_eq : l.frozenRowExtent = axisPosition l.rowGeometry l.frozenRowCount
  frozenColumnExtent_eq :
    l.frozenColumnExtent = (columnOffsets l.effectiveColumnWidths).getD l.frozenColumnCount 0
  rows_visible :
    l.rows.visible = visibleRowRange l.rowGeometry l.vertical.logicalOffset l.bodyHeight
  columns_visible : l.columns.visible = visibleColumnRange (columnOffsets l.effectiveColumnWidths)
    l.horizontal.logicalOffset l.bodyWidth
  rows_overscan : ∃ amount, l.rows.overscan = expandRange l.rows.visible amount l.rowCount
  columns_overscan :
    ∃ amount, l.columns.overscan = expandRange l.columns.visible amount l.columnCount
  frozenRowRange_eq : l.frozenRowRange =
    if l.frozenRowCount = 0 then ⟨0, 0⟩
    else clampRangeEnd (visibleRowRange l.rowGeometry 0 (min l.bodyHeight l.frozenRowExtent))
      l.frozenRowCount
  frozenColumnRange_eq : l.frozenColumnRange =
    if l.frozenColumnCount = 0 then ⟨0, 0⟩
    else clampRangeEnd (visibleColumnRange (columnOffsets l.effectiveColumnWidths) 0
      (min l.bodyWidth l.frozenColumnExtent)) l.frozenColumnCount

/-- The parts of a layout fit together. -/
structure TableLayout.WellFormed (l : TableLayout) : Prop extends TableLayout.Computed l where
  widths_nonneg : ∀ w ∈ l.effectiveColumnWidths, 0 ≤ w
  widths_length : l.effectiveColumnWidths.length = l.columnCount
  geometry : l.rowGeometry.WellFormed
  geometry_count : l.rowGeometry.count = l.rowCount
  frozenRows_le : l.frozenRowCount ≤ l.rowCount
  frozenColumns_le : l.frozenColumnCount ≤ l.columnCount
  horizontal : l.horizontal.WellFormed
  vertical : l.vertical.WellFormed
  horizontal_content :
    l.horizontal.logicalContentSize = (columnOffsets l.effectiveColumnWidths).getD l.columnCount 0
  horizontal_viewport : l.horizontal.logicalViewportSize = l.bodyWidth
  vertical_content : l.vertical.logicalContentSize = l.rowGeometry.contentSize
  vertical_viewport : l.vertical.logicalViewportSize = l.bodyHeight

theorem forM_eq_ok {α : Type} {f : α → Result Unit} {items : List α}
    (h : items.forM f = .ok ()) : ∀ a ∈ items, f a = .ok () := by
  induction items with
  | nil => exact fun a ha => absurd ha List.not_mem_nil
  | cons a items ih =>
    obtain ⟨⟨⟩, ha, h⟩ := Result.bind_eq_ok.1 h
    exact List.forall_mem_cons.2 ⟨ha, ih h⟩

/-- Only positive widths are laid out. -/
theorem assertColumns_eq_ok {hidden : List Bool} {columnCount : ℕ}
    (h : assertColumns widths hidden columnCount = .ok ()) :
    widths.length = columnCount ∧ ∀ w ∈ widths, 0 < w := by
  have hlength : widths.length = columnCount := by
    by_contra hne
    rw [assertColumns, if_pos hne] at h
    exact nomatch h
  rw [assertColumns, if_neg (not_not.2 hlength)] at h
  obtain ⟨⟨⟩, hwidths, -⟩ := Result.bind_eq_ok.1 h
  refine ⟨hlength, fun w hw => ?_⟩
  obtain ⟨i, hi, rfl⟩ := List.mem_iff_getElem.1 hw
  have hmem : (widths[i], i) ∈ widths.zipIdx := List.mk_mem_zipIdx_iff_getElem?.2
    (List.getElem?_eq_getElem hi)
  obtain ⟨_, hpositive, -⟩ := Result.bind_eq_ok.1 (forM_eq_ok hwidths _ hmem)
  exact (positiveFinite_eq_ok hpositive).2

theorem createSparseAxisGeometry_eq_ok {count : ℕ} {defaultSize : ℚ}
    {entries : List PresentationAxisEntry} {g : SparseAxisGeometry}
    (h : createSparseAxisGeometry count defaultSize entries = .ok g) :
    g.WellFormed ∧ g.count = count := by
  obtain ⟨_, hcount, h'⟩ := Result.bind_eq_ok.1 h
  obtain ⟨_, hdefault, -⟩ := Result.bind_eq_ok.1 h'
  rw [createSparseAxisGeometry_eq (nonNegativeInteger_eq_ok hcount).2
    (positiveFinite_eq_ok hdefault).2] at h
  cases h
  exact ⟨wellFormed_geometryOf _ (positiveFinite_eq_ok hdefault).2 entries, rfl⟩

/-- What a layout was created from. -/
structure TableLayout.Created (metadata : TableMetadata) (columnWidths : List ℚ)
    (viewport : ViewportUpdate) (options : LayoutOptions) (l : TableLayout) : Prop
    extends TableLayout.Computed l where
  headerHeight_eq : l.headerHeight = options.headerHeight.getD 36
  rowHeaderWidth_eq : l.rowHeaderWidth = options.rowHeaderWidth.getD 64
  width_eq : l.width = viewport.width
  height_eq : l.height = viewport.height
  rowCount_eq : l.rowCount = extentValue metadata.extent.rows
  columnCount_eq : l.columnCount = metadata.schema.columns.length
  widths_eq : l.effectiveColumnWidths = columnWidths.mapIdx fun index width =>
    if options.hiddenColumns[index]? = some true then 0 else width
  widths_pos : ∀ w ∈ columnWidths, 0 < w
  widths_length : columnWidths.length = l.columnCount
  frozenRowCount_eq : l.frozenRowCount = min l.rowCount options.frozenRows
  frozenColumnCount_eq : l.frozenColumnCount = min l.columnCount options.frozenColumns
  geometry : createSparseAxisGeometry l.rowCount (options.rowHeight.getD 28) options.rowEntries =
    .ok l.rowGeometry
  horizontal : createScrollAxis ((columnOffsets l.effectiveColumnWidths).getD l.columnCount 0)
    l.bodyWidth viewport.scrollLeft (options.scrollPixelLimit.getD 16000000) = .ok l.horizontal
  vertical : createScrollAxis l.rowGeometry.contentSize l.bodyHeight viewport.scrollTop
    (options.scrollPixelLimit.getD 16000000) = .ok l.vertical

variable {metadata : TableMetadata} {viewport : ViewportUpdate} {options : LayoutOptions}
  {layout : TableLayout}

theorem createTableLayout_created
    (h : createTableLayout metadata widths viewport options = .ok layout) :
    layout.Created metadata widths viewport options := by
  obtain ⟨rowHeight, hrowHeight, h⟩ := Result.bind_eq_ok.1 h
  obtain ⟨headerHeight, hheaderHeight, h⟩ := Result.bind_eq_ok.1 h
  obtain ⟨rowHeaderWidth, hrowHeaderWidth, h⟩ := Result.bind_eq_ok.1 h
  obtain ⟨limit, hlimit, h⟩ := Result.bind_eq_ok.1 h
  obtain ⟨overscanRows, -, h⟩ := Result.bind_eq_ok.1 h
  obtain ⟨overscanColumns, -, h⟩ := Result.bind_eq_ok.1 h
  obtain ⟨width, hwidth, h⟩ := Result.bind_eq_ok.1 h
  obtain ⟨height, hheight, h⟩ := Result.bind_eq_ok.1 h
  obtain ⟨ratio, -, h⟩ := Result.bind_eq_ok.1 h
  obtain ⟨⟨⟩, hcolumns, h⟩ := Result.bind_eq_ok.1 h
  obtain ⟨frozenRows, hfrozenRows, h⟩ := Result.bind_eq_ok.1 h
  obtain ⟨frozenColumns, hfrozenColumns, h⟩ := Result.bind_eq_ok.1 h
  obtain ⟨rowGeometry, hgeometry, h⟩ := Result.bind_eq_ok.1 h
  obtain ⟨horizontal, hhorizontal, h⟩ := Result.bind_eq_ok.1 h
  obtain ⟨vertical, hvertical, h⟩ := Result.bind_eq_ok.1 h
  cases h
  obtain ⟨rfl, -⟩ := positiveFinite_eq_ok hrowHeight
  obtain ⟨rfl, hheader⟩ := nonNegativeFinite_eq_ok hheaderHeight
  obtain ⟨rfl, hrowHeader⟩ := nonNegativeFinite_eq_ok hrowHeaderWidth
  obtain ⟨rfl, -⟩ := positiveFinite_eq_ok hlimit
  obtain ⟨rfl, -⟩ := nonNegativeFinite_eq_ok hwidth
  obtain ⟨rfl, -⟩ := nonNegativeFinite_eq_ok hheight
  obtain ⟨rfl, -⟩ := nonNegativeInteger_eq_ok hfrozenRows
  obtain ⟨rfl, -⟩ := nonNegativeInteger_eq_ok hfrozenColumns
  obtain ⟨hlength, hpositive⟩ := assertColumns_eq_ok hcolumns
  rw [length_columnOffsets, Nat.add_sub_cancel, List.length_mapIdx, hlength] at hhorizontal
  exact {
    headerHeight_eq := rfl
    headerHeight_nonneg := hheader
    rowHeaderWidth_eq := rfl
    rowHeaderWidth_nonneg := hrowHeader
    width_eq := rfl
    height_eq := rfl
    bodyWidth_eq := rfl
    bodyHeight_eq := rfl
    rowCount_eq := rfl
    columnCount_eq := rfl
    widths_eq := rfl
    widths_pos := hpositive
    widths_length := hlength
    frozenRowCount_eq := rfl
    frozenColumnCount_eq := rfl
    frozenRowExtent_eq := rfl
    frozenColumnExtent_eq := rfl
    geometry := hgeometry
    horizontal := hhorizontal
    vertical := hvertical
    rows_visible := rfl
    columns_visible := rfl
    rows_overscan := ⟨overscanRows, rfl⟩
    columns_overscan := ⟨overscanColumns, rfl⟩
    frozenRowRange_eq := rfl
    frozenColumnRange_eq := rfl }

/-- A created layout is well formed. -/
theorem TableLayout.Created.wellFormed (h : layout.Created metadata widths viewport options) :
    layout.WellFormed := by
  obtain ⟨hgeometry, hcount⟩ := createSparseAxisGeometry_eq_ok h.geometry
  obtain ⟨hhorizontal, hcontent, hviewport, -⟩ := createScrollAxis_wellFormed h.horizontal
  obtain ⟨hvertical, hcontent', hviewport', -⟩ := createScrollAxis_wellFormed h.vertical
  exact {
    toComputed := h.toComputed
    widths_nonneg := fun w hw => by
      rw [h.widths_eq] at hw
      obtain ⟨i, hi, rfl⟩ := List.mem_mapIdx.1 hw
      split_ifs
      · exact le_rfl
      · exact (h.widths_pos _ (List.getElem_mem hi)).le
    widths_length := by rw [h.widths_eq, List.length_mapIdx, h.widths_length]
    geometry := hgeometry
    geometry_count := hcount
    frozenRows_le := h.frozenRowCount_eq ▸ min_le_left _ _
    frozenColumns_le := h.frozenColumnCount_eq ▸ min_le_left _ _
    horizontal := hhorizontal
    vertical := hvertical
    horizontal_content := hcontent
    horizontal_viewport := hviewport
    vertical_content := hcontent'
    vertical_viewport := hviewport' }

/-! ## Layouts that can be created -/

/-- What `createTableLayout` checks. -/
structure LayoutValid (metadata : TableMetadata) (columnWidths : List ℚ)
    (viewport : ViewportUpdate) (options : LayoutOptions) : Prop where
  rowHeight : 0 < options.rowHeight.getD 28
  headerHeight : 0 ≤ options.headerHeight.getD 36
  rowHeaderWidth : 0 ≤ options.rowHeaderWidth.getD 64
  scrollPixelLimit : 0 < options.scrollPixelLimit.getD 16000000
  overscanRows : options.overscanRows.getD 8 ≤ maxSafeInteger
  overscanColumns : options.overscanColumns.getD 1 ≤ maxSafeInteger
  width : 0 ≤ viewport.width
  height : 0 ≤ viewport.height
  devicePixelRatio : 0 < viewport.devicePixelRatio.getD 1
  widths_length : columnWidths.length = metadata.schema.columns.length
  widths_pos : ∀ w ∈ columnWidths, 0 < w
  hidden_length : options.hiddenColumns.length = 0 ∨
    options.hiddenColumns.length = metadata.schema.columns.length
  frozenRows : options.frozenRows ≤ maxSafeInteger
  frozenColumns : options.frozenColumns ≤ maxSafeInteger
  rowCount : extentValue metadata.extent.rows ≤ maxSafeInteger

theorem positiveFinite_of_pos {value : ℚ} (h : 0 < value) (name : String) :
    positiveFinite value name = .ok value := if_neg (not_le.2 h)

theorem nonNegativeFinite_of_nonneg {value : ℚ} (h : 0 ≤ value) (name : String) :
    nonNegativeFinite value name = .ok value := if_neg (not_lt.2 h)

theorem nonNegativeInteger_of_le {value : ℕ} (h : value ≤ maxSafeInteger) (name : String) :
    nonNegativeInteger value name = .ok value := if_neg (not_lt.2 h)

theorem forM_of_ok {α : Type} {f : α → Result Unit} {items : List α}
    (h : ∀ a ∈ items, f a = .ok ()) : items.forM f = .ok () := by
  induction items with
  | nil => rfl
  | cons a items ih =>
    obtain ⟨ha, hitems⟩ := List.forall_mem_cons.1 h
    exact Result.bind_eq_ok.2 ⟨(), ha, ih hitems⟩

theorem assertColumns_of_pos {hidden : List Bool} {columnCount : ℕ}
    (hlength : widths.length = columnCount) (hpositive : ∀ w ∈ widths, 0 < w)
    (hhidden : hidden.length = 0 ∨ hidden.length = columnCount) :
    assertColumns widths hidden columnCount = .ok () := by
  rw [assertColumns, if_neg (not_not.2 hlength)]
  refine Result.bind_eq_ok.2 ⟨(), forM_of_ok fun a ha => ?_, if_neg (by omega)⟩
  refine Result.bind_eq_ok.2 ⟨_, positiveFinite_of_pos (hpositive _ ?_) _, rfl⟩
  exact List.fst_mem_of_mem_zipIdx ha

theorem sum_nonneg_of_widths (hwidths : ∀ w ∈ widths, 0 ≤ w) (n : ℕ) (hn : n ≤ widths.length) :
    0 ≤ (columnOffsets widths).getD n 0 := by
  rw [getD_columnOffsets hn]
  exact offset_nonneg (columnSize_nonneg hwidths) n

/-- Whatever passes the checks is laid out. -/
theorem LayoutValid.exists_layout (h : LayoutValid metadata widths viewport options) :
    ∃ layout, createTableLayout metadata widths viewport options = .ok layout := by
  obtain ⟨effective, heffective⟩ : ∃ ws : List ℚ, ws = widths.mapIdx fun index width =>
    if options.hiddenColumns[index]? = some true then 0 else width := ⟨_, rfl⟩
  have hnonneg : ∀ w ∈ effective, 0 ≤ w := fun w hw => by
    rw [heffective] at hw
    obtain ⟨i, hi, rfl⟩ := List.mem_mapIdx.1 hw
    split_ifs
    · exact le_rfl
    · exact (h.widths_pos _ (List.getElem_mem hi)).le
  have hgeometry := createSparseAxisGeometry_eq h.rowCount h.rowHeight options.rowEntries
  obtain ⟨hwf, -⟩ := createSparseAxisGeometry_eq_ok hgeometry
  have hcontent := offset_nonneg hwf.axisSize_nonneg (extentValue metadata.extent.rows)
  rw [← hwf.axisPosition_eq] at hcontent
  obtain ⟨horizontal, hhorizontal, -⟩ := createScrollAxis_eq_ok
    (sum_nonneg_of_widths hnonneg ((columnOffsets effective).length - 1)
      (by rw [length_columnOffsets]; exact le_rfl))
    (le_max_left 0 (viewport.width - options.rowHeaderWidth.getD 64)) h.scrollPixelLimit
    viewport.scrollLeft
  obtain ⟨vertical, hvertical, -⟩ := createScrollAxis_eq_ok (hwf.contentSize_eq ▸ hcontent)
    (le_max_left 0 (viewport.height - options.headerHeight.getD 36)) h.scrollPixelLimit
    viewport.scrollTop
  rw [heffective] at hhorizontal
  exact ⟨_, Result.bind_eq_ok.2 ⟨_, positiveFinite_of_pos h.rowHeight _,
    Result.bind_eq_ok.2 ⟨_, nonNegativeFinite_of_nonneg h.headerHeight _,
    Result.bind_eq_ok.2 ⟨_, nonNegativeFinite_of_nonneg h.rowHeaderWidth _,
    Result.bind_eq_ok.2 ⟨_, positiveFinite_of_pos h.scrollPixelLimit _,
    Result.bind_eq_ok.2 ⟨_, nonNegativeInteger_of_le h.overscanRows _,
    Result.bind_eq_ok.2 ⟨_, nonNegativeInteger_of_le h.overscanColumns _,
    Result.bind_eq_ok.2 ⟨_, nonNegativeFinite_of_nonneg h.width _,
    Result.bind_eq_ok.2 ⟨_, nonNegativeFinite_of_nonneg h.height _,
    Result.bind_eq_ok.2 ⟨_, positiveFinite_of_pos h.devicePixelRatio _,
    Result.bind_eq_ok.2 ⟨_, assertColumns_of_pos h.widths_length h.widths_pos h.hidden_length,
    Result.bind_eq_ok.2 ⟨_, nonNegativeInteger_of_le h.frozenRows _,
    Result.bind_eq_ok.2 ⟨_, nonNegativeInteger_of_le h.frozenColumns _,
    Result.bind_eq_ok.2 ⟨_, hgeometry, Result.bind_eq_ok.2 ⟨_, hhorizontal,
    Result.bind_eq_ok.2 ⟨_, hvertical, rfl⟩⟩⟩⟩⟩⟩⟩⟩⟩⟩⟩⟩⟩⟩⟩⟩

/-! ## Rows and columns in panes -/

namespace TableLayout.WellFormed

variable {l : TableLayout} (h : l.WellFormed)

/-- The columns, the frozen ones of which stay. -/
def columnPanes : Panes ℚ where
  size := columnSize l.effectiveColumnWidths
  frozen := l.frozenColumnCount
  scroll := l.horizontal.logicalOffset
  size_nonneg := columnSize_nonneg h.widths_nonneg
  scroll_nonneg := h.horizontal.logicalOffset_mem.1

/-- The rows, the frozen ones of which stay. -/
def rowPanes : Panes ℚ where
  size := axisSize l.rowGeometry
  frozen := l.frozenRowCount
  scroll := l.vertical.logicalOffset
  size_nonneg := h.geometry.axisSize_nonneg
  scroll_nonneg := h.vertical.logicalOffset_mem.1

theorem extent_columnPanes : h.columnPanes.extent = l.frozenColumnExtent := by
  rw [h.frozenColumnExtent_eq, getD_columnOffsets (h.widths_length ▸ h.frozenColumns_le)]
  rfl

theorem extent_rowPanes : h.rowPanes.extent = l.frozenRowExtent := by
  rw [h.frozenRowExtent_eq, h.geometry.axisPosition_eq]
  rfl

include h

/-- A point of the viewport beside the row headers is in the body. -/
theorem lt_bodyWidth {x : ℚ} (hx : x < l.width) : x - l.rowHeaderWidth < l.bodyWidth := by
  rw [h.bodyWidth_eq]
  exact lt_max_of_lt_right (sub_lt_sub_right hx _)

theorem lt_bodyHeight {y : ℚ} (hy : y < l.height) : y - l.headerHeight < l.bodyHeight := by
  rw [h.bodyHeight_eq]
  exact lt_max_of_lt_right (sub_lt_sub_right hy _)

/-- The column at a point is the one on top. -/
theorem columnAtViewportX_eq_some {x : ℚ} {c : ℕ} (hx : x < l.width) :
    columnAtViewportX l x = some c ↔
      l.rowHeaderWidth ≤ x ∧ h.columnPanes.Topmost c (x - l.rowHeaderWidth) := by
  rw [columnAtViewportX]
  split_ifs with hlt
  · exact ⟨fun hnone => (nomatch hnone), fun hle => absurd hlt (not_lt.2 hle.1)⟩
  · have hle := not_lt.1 hlt
    rw [← h.extent_columnPanes]
    exact (Panes.hit_eq_some (p := h.columnPanes)
      (fun _ _ => columnAtLogicalX_eq_some h.widths_nonneg) (sub_nonneg.2 hle)
      (h.lt_bodyWidth hx)).trans (iff_and_self.2 fun _ => hle)

/-- The row at a point is the one on top. -/
theorem rowAtViewportY_eq_some {y : ℚ} {r : ℕ} (hle : l.headerHeight ≤ y) (hy : y < l.height) :
    rowAtViewportY l y = some r ↔ h.rowPanes.Topmost r (y - l.headerHeight) := by
  rw [rowAtViewportY, ← h.extent_rowPanes]
  exact Panes.hit_eq_some (p := h.rowPanes) (fun _ _ => h.geometry.axisIndexAtOffset_eq_some)
    (sub_nonneg.2 hle) (h.lt_bodyHeight hy)

/-- Where no column is found, none is drawn. -/
theorem not_over_of_columnAtViewportX {x : ℚ} (hle : l.rowHeaderWidth ≤ x) (hx : x < l.width)
    (hnone : columnAtViewportX l x = none) (c : ℕ) :
    ¬h.columnPanes.Over c (x - l.rowHeaderWidth) := by
  intro hover
  obtain ⟨i, hi⟩ := Panes.exists_topmost (sub_nonneg.2 hle) hover
  exact nomatch hnone.symm.trans ((h.columnAtViewportX_eq_some hx).2 ⟨hle, hi⟩)

theorem not_over_of_rowAtViewportY {y : ℚ} (hle : l.headerHeight ≤ y) (hy : y < l.height)
    (hnone : rowAtViewportY l y = none) (r : ℕ) : ¬h.rowPanes.Over r (y - l.headerHeight) := by
  intro hover
  obtain ⟨i, hi⟩ := Panes.exists_topmost (sub_nonneg.2 hle) hover
  exact nomatch hnone.symm.trans ((h.rowAtViewportY_eq_some hle hy).2 hi)

omit h in
/-- Above the first row there are only headers. -/
theorem hitTest_header_ne {x y handleWidth : ℚ} {r c : ℕ} (hy : y < l.headerHeight) :
    hitTest l x y handleWidth ≠ .cell r c := by
  rw [hitTest]
  split_ifs
  · simp
  · simp
  · dsimp only
    split
    · rename_i handle hhandle
      obtain ⟨boundary, -, hboundary⟩ := List.exists_of_findSome?_eq_some hhandle
      rw [resizeHandleAt] at hboundary
      dsimp only at hboundary
      split_ifs at hboundary
      cases hboundary
      simp
    · split <;> simp

/-- The cell at a point is that of the column and the row on top. -/
theorem hitTest_eq_cell_iff {x y handleWidth : ℚ} {r c : ℕ} :
    hitTest l x y handleWidth = .cell r c ↔
      (l.rowHeaderWidth ≤ x ∧ x < l.width ∧ h.columnPanes.Topmost c (x - l.rowHeaderWidth)) ∧
        l.headerHeight ≤ y ∧ y < l.height ∧ h.rowPanes.Topmost r (y - l.headerHeight) := by
  by_cases hheader : y < l.headerHeight
  · exact iff_of_false (hitTest_header_ne hheader) fun hcell => absurd hheader (not_lt.2 hcell.2.1)
  have hy := not_lt.1 hheader
  by_cases hin : x < 0 ∨ y < 0 ∨ l.width ≤ x ∨ l.height ≤ y
  · rw [hitTest, if_pos hin]
    refine iff_of_false (by simp) fun hcell => ?_
    have hx := h.rowHeaderWidth_nonneg.trans hcell.1.1
    rcases hin with hneg | hneg | hwidth | hheight
    · exact absurd hx (not_le.2 hneg)
    · exact absurd (h.headerHeight_nonneg.trans hy) (not_le.2 hneg)
    · exact absurd hcell.1.2.1 (not_lt.2 hwidth)
    · exact absurd hcell.2.2.1 (not_lt.2 hheight)
  rw [hitTest, if_neg hin, if_neg fun hcorner => hheader hcorner.2, if_neg hheader]
  simp only [not_or, not_lt, not_le] at hin
  obtain ⟨-, -, hwidth, hheight⟩ := hin
  have hrows := fun i => h.rowAtViewportY_eq_some (r := i) hy hheight
  have hcolumns := fun i => h.columnAtViewportX_eq_some (c := i) hwidth
  cases hrow : rowAtViewportY l y with
  | none =>
    refine iff_of_false (by simp) fun hcell => ?_
    exact nomatch hrow.symm.trans ((hrows r).2 hcell.2.2.2)
  | some i =>
    dsimp only
    split_ifs with hbeside
    · exact iff_of_false (by simp) fun hcell => absurd hcell.1.1 (not_le.2 hbeside)
    cases hcolumn : columnAtViewportX l x with
    | none =>
      refine iff_of_false (by simp) fun hcell => ?_
      exact nomatch hcolumn.symm.trans ((hcolumns c).2 ⟨hcell.1.1, hcell.1.2.2⟩)
    | some j =>
      have hri : h.rowPanes.Topmost r (y - l.headerHeight) ↔ i = r := by
        rw [← hrows, hrow, Option.some_inj]
      have hcj : l.rowHeaderWidth ≤ x ∧ h.columnPanes.Topmost c (x - l.rowHeaderWidth) ↔
          j = c := by rw [← hcolumns, hcolumn, Option.some_inj]
      simp only [HitTestResult.cell.injEq]
      rw [← hri, ← hcj]
      exact ⟨fun ⟨hr, hx, hc⟩ => ⟨⟨hx, hwidth, hc⟩, hy, hheight, hr⟩,
        fun ⟨⟨hx, _, hc⟩, _, _, hr⟩ => ⟨hr, hx, hc⟩⟩

end TableLayout.WellFormed

end Tabulark.View
