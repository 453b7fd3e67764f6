import Tabulark.View.Grid
import Tabulark.View.MergedPaint

/-!
# What is shown is requested

A cell that is hit is one of the rows and columns that a layout has for visible,
or for frozen. The rectangles that are loaded are products of bands of rows and
columns, and the first cells of merged regions; no two of them share a cell
(`layoutRanges_covers`).
-/

namespace Tabulark.View

open Bisect Strips

/-! ## Requests -/

/-- The ranges of a layout that say what to load. -/
def TableLayout.windows (layout : TableLayout) : Windows where
  visibleRows := layout.rows.visible
  overscanRows := layout.rows.overscan
  visibleColumns := layout.columns.visible
  overscanColumns := layout.columns.overscan
  frozenRowRange := layout.frozenRowRange
  frozenColumnRange := layout.frozenColumnRange

/-- How many cells the styles of are requested at a time. -/
def maxPresentationWindowCells : ℕ := 100000

/-- The bands of an axis that the styles are requested of. -/
def presentationBands (primary frozen : IndexRange) : List IndexRange :=
  mergeIndexBands primary frozen

/-- The requests for bands of rows and columns. -/
def presentationRectangles (rows columns frozenRows frozenColumns : IndexRange) :
    List RangeRequest :=
  (presentationBands rows frozenRows).flatMap fun row =>
    (presentationBands columns frozenColumns).map fun column =>
      { rowStart := row.start
        rowCount := row.stop - row.start
        columnStart := column.start
        columnCount := column.stop - column.start }

/-- The ranges that the styles are requested of: with those in reserve if there is room. -/
def presentationRequests (layout : TableLayout) : List RangeRequest :=
  let overscan := presentationRectangles layout.rows.overscan layout.columns.overscan
    layout.frozenRowRange layout.frozenColumnRange
  let overscanCells := (overscan.map fun range => range.rowCount * range.columnCount).sum
  if overscanCells ≤ maxPresentationWindowCells then overscan
  else presentationRectangles layout.rows.visible layout.columns.visible layout.frozenRowRange
    layout.frozenColumnRange

theorem presentationRectangles_eq (rows columns frozenRows frozenColumns : IndexRange) :
    presentationRectangles rows columns frozenRows frozenColumns =
      (windowRectangles rows columns frozenRows frozenColumns).map
        GridRange.gridRangeToRequest := by
  rw [windowRectangles, List.map_flatMap]
  simp only [List.map_map]
  rfl

/-! ## Anchors -/

section Anchors

variable {mergedCells : List MergedCellRegion} {visible base : List GridRange} {r c : ℕ}
  {cell : ℕ × ℕ}

theorem rangeContainsRange_cellRange {range : GridRange} :
    range.rangeContainsRange (cellRange cell) ↔ range.has cell := by
  obtain ⟨r, c⟩ := cell
  rw [GridRange.has_iff]
  simp only [GridRange.rangeContainsRange, Bool.and_eq_true, decide_eq_true_eq]
  dsimp only [cellRange]
  omega

/-- The anchors are the first cells of the regions that show. -/
theorem mem_mergeAnchorRanges {range : GridRange} : range ∈ mergeAnchorRanges mergedCells visible ↔
    ∃ region ∈ mergedCells, (∃ shown ∈ visible, shown.rangesIntersect region) ∧
      cellRange (region.rowStart, region.columnStart) = range := by
  simp [mergeAnchorRanges, cellRange, and_assoc]

theorem nodup_eraseDups {α : Type} [BEq α] [LawfulBEq α] (items : List α) :
    items.eraseDups.Nodup := by
  induction hlength : items.length using Nat.strong_induction_on generalizing items with
  | _ n ih =>
    cases items with
    | nil => simp
    | cons a items =>
      rw [List.eraseDups_cons, List.nodup_cons]
      refine ⟨by simp, ih _ ?_ _ rfl⟩
      rw [← hlength, List.length_cons]
      exact Nat.lt_succ_of_le (List.length_filter_le _ _)

/-- Ranges with the anchors that are not in them. -/
def withAnchors (mergedCells : List MergedCellRegion) (visible base : List GridRange) :
    List GridRange :=
  base ++ (mergeAnchorRanges mergedCells visible).filter fun anchor =>
    !base.any fun range => range.rangeContainsRange anchor

/-- A cell is in one more range if it is an anchor, and was in none. -/
theorem multiplicity_withAnchors : multiplicity GridRange.has
    (withAnchors mergedCells visible base) cell = multiplicity GridRange.has base cell +
      if multiplicity GridRange.has base cell = 0 ∧
        cellRange cell ∈ mergeAnchorRanges mergedCells visible then 1 else 0 := by
  have hnodup : (mergeAnchorRanges mergedCells visible).Nodup := nodup_eraseDups _
  rw [withAnchors, multiplicity_append, Nat.add_left_cancel_iff]
  -- Of the anchors only the one that is this cell has it.
  have hcount : ∀ anchors : List GridRange, (∀ a ∈ anchors, ∃ x, cellRange x = a) →
      multiplicity GridRange.has anchors cell = anchors.count (cellRange cell) :=
    fun anchors hanchors => List.countP_congr fun a ha => by
      obtain ⟨x, rfl⟩ := hanchors a ha
      rw [has_cellRange, beq_iff_eq]
      exact ⟨fun h => h ▸ rfl, fun h => by
        have hx := has_cellRange.2 (rfl : x = x)
        rw [h] at hx
        exact (has_cellRange.1 hx).symm⟩
  rw [hcount, (hnodup.filter _).count]
  · refine if_congr ?_ rfl rfl
    rw [List.mem_filter, multiplicity_eq_zero]
    simp only [Bool.not_eq_true', List.any_eq_false, rangeContainsRange_cellRange]
    exact and_comm
  · intro a ha
    obtain ⟨region, -, -, hregion⟩ := mem_mergeAnchorRanges.1 (List.mem_filter.1 ha).1
    exact ⟨_, hregion⟩

/-- Disjoint ranges are disjoint with the anchors, and have them. -/
theorem multiplicity_withAnchors_le (hbase : multiplicity GridRange.has base cell ≤ 1) :
    multiplicity GridRange.has (withAnchors mergedCells visible base) cell ≤ 1 := by
  rw [multiplicity_withAnchors]
  split_ifs <;> omega

theorem multiplicity_withAnchors_eq_one (hbase : multiplicity GridRange.has base cell ≤ 1)
    (hmem : multiplicity GridRange.has base cell = 1 ∨
      cellRange cell ∈ mergeAnchorRanges mergedCells visible) :
    multiplicity GridRange.has (withAnchors mergedCells visible base) cell = 1 := by
  rw [multiplicity_withAnchors]
  rcases hmem with hone | hmem
  · rw [if_neg fun hzero => by omega]
    omega
  · split_ifs with hzero
    · omega
    · have hpos : multiplicity GridRange.has base cell ≠ 0 := fun heq => hzero ⟨heq, hmem⟩
      omega

/-- An anchor is one cell. -/
theorem sum_withAnchors_le : ((withAnchors mergedCells visible base).map
    GridRange.rangeCellCount).sum ≤
      (base.map GridRange.rangeCellCount).sum + (mergeAnchorRanges mergedCells visible).length := by
  rw [withAnchors, List.map_append, List.sum_append]
  refine Nat.add_le_add_left ?_ _
  refine (List.sum_le_card_nsmul _ 1 fun n hn => ?_).trans ?_
  · obtain ⟨a, ha, rfl⟩ := List.mem_map.1 hn
    obtain ⟨region, -, -, rfl⟩ := mem_mergeAnchorRanges.1 (List.mem_filter.1 ha).1
    simp [GridRange.rangeCellCount, cellRange]
  · simpa using List.length_filter_le _ _

/-- The ranges that are loaded are rectangles with anchors, and not too large. -/
theorem layoutRanges_eq_ok {windows : Windows} {maxCells : ℕ} {overscan : List GridRange}
    (h : layoutRanges windows maxCells mergedCells = .ok (visible, overscan)) :
    let shown := windowRectangles windows.visibleRows windows.visibleColumns
      windows.frozenRowRange windows.frozenColumnRange
    visible = withAnchors mergedCells shown shown ∧
      (overscan = visible ∨ overscan = withAnchors mergedCells shown
        (windowRectangles windows.overscanRows windows.overscanColumns windows.frozenRowRange
          windows.frozenColumnRange)) ∧
      (visible.map GridRange.rangeCellCount).sum ≤ maxCells ∧
      (overscan.map GridRange.rangeCellCount).sum ≤ maxCells := by
  intro shown
  unfold layoutRanges at h
  dsimp only at h
  split_ifs at h with htoo hroom
  · cases h
    exact ⟨rfl, .inr rfl, not_lt.1 htoo, sum_withAnchors_le.trans hroom⟩
  · cases h
    exact ⟨rfl, .inl rfl, not_lt.1 htoo, not_lt.1 htoo⟩

end Anchors

/-! ## Visible rows and columns -/

/-- How close to the lower edge a row may begin and still not be taken for visible. -/
def edgeEpsilon (layout : TableLayout) : ℚ :=
  max (1 / 10 ^ 7) (|layout.vertical.logicalOffset + layout.bodyHeight| * (1 / 2 ^ 52) * 4)

section Ranges

variable {g : SparseAxisGeometry} {scroll viewport x epsilon : ℚ} {i n amount : ℕ}
  {range : IndexRange}

/-- A row that covers a point of the viewport is visible, unless it begins too close to the lower
    edge. -/
theorem has_visibleRowRange (h : g.WellFormed) (hzero : 0 ≤ scroll) (hscroll : scroll ≤ x)
    (hx : Covers (axisSize g) i x) (hlt : x < scroll + viewport)
    (hbegins : Strips.offset (axisSize g) i +
      max (1 / 10 ^ 7) (|scroll + viewport| * (1 / 2 ^ 52) * 4) ≤
        min g.contentSize (scroll + viewport)) :
    (visibleRowRange g scroll viewport).has i := by
  have hcount := SparseAxisGeometry.WellFormed.lt_count_of_covers hx
  have hcontent : g.contentSize = Strips.offset (axisSize g) g.count := by
    rw [h.contentSize_eq, h.axisPosition_eq]
  have hend : x < g.contentSize := hcontent ▸ hx.lt_offset h.axisSize_nonneg hcount
  have hepsilon : (0 : ℚ) < max (1 / 10 ^ 7) (|scroll + viewport| * (1 / 2 ^ 52) * 4) :=
    lt_max_of_lt_left (by norm_num)
  unfold visibleRowRange
  dsimp only
  generalize max (1 / 10 ^ 7) (|scroll + viewport| * (1 / 2 ^ 52) * 4) = epsilon at *
  rw [if_neg (by rintro (heq | hle | hle) <;> [omega; linarith; linarith])]
  -- The first visible row covers the offset that is scrolled to.
  obtain ⟨first, -, hfirst⟩ := exists_covers hzero ((hscroll.trans_lt hend).trans_eq hcontent)
  rw [h.axisIndexAtOffset_eq_some.2 hfirst]
  dsimp only
  -- The last one begins before the other end.
  have hend' : max scroll (min g.contentSize (scroll + viewport) - epsilon) < g.contentSize :=
    max_lt (hscroll.trans_lt hend) ((sub_lt_self _ hepsilon).trans_le (min_le_left _ _))
  obtain ⟨last, hlastCount, hlast⟩ := exists_covers (hzero.trans (le_max_left scroll _))
    (hend'.trans_eq hcontent)
  rw [h.axisIndexAtOffset_eq_some.2 hlast]
  have hle : i ≤ last := by
    by_contra hlt
    have hoffset := offset_mono h.axisSize_nonneg (Nat.succ_le_of_lt (not_le.1 hlt))
    have hlast' := (covers_iff.1 hlast).2
    have hmax := le_max_right scroll (min g.contentSize (scroll + viewport) - epsilon)
    linarith
  have hge := hfirst.mono h.axisSize_nonneg hx hscroll
  rw [IndexRange.has_iff]
  dsimp only
  omega

/-- A column that covers a point of the viewport is visible. -/
theorem has_visibleColumnRange {widths : List ℚ} (hwidths : ∀ w ∈ widths, 0 ≤ w)
    (hzero : 0 ≤ scroll) (hscroll : scroll ≤ x) (hx : Covers (columnSize widths) i x)
    (hlt : x < scroll + viewport) :
    (visibleColumnRange (columnOffsets widths) scroll viewport).has i := by
  have hsize := columnSize_nonneg hwidths
  have hcount := lt_length_of_covers hx
  have hend := hx.lt_offset hsize hcount
  obtain ⟨first, -, hfirst⟩ := exists_covers hzero (hscroll.trans_lt hend)
  have hge := hfirst.mono hsize hx hscroll
  have hbefore := (lt_lowerBound_iff hwidths hcount.le).2 (hx.1.trans_lt hlt)
  unfold visibleColumnRange
  rw [length_columnOffsets, Nat.add_sub_cancel,
    if_neg (by rintro (heq | hle) <;> [omega; linarith]),
    (columnAtLogicalX_eq_some hwidths).2 hfirst, IndexRange.has_iff]
  dsimp only [Option.getD_some]
  omega

/-- Whatever is visible is among what is visible and in reserve. -/
theorem has_expandRange (hhas : range.has i) (hi : i < n) : (expandRange range amount n).has i := by
  rw [IndexRange.has_iff] at *
  dsimp only [expandRange]
  omega

theorem has_clampRangeEnd (hhas : range.has i) (hi : i < n) : (clampRangeEnd range n).has i := by
  rw [IndexRange.has_iff] at *
  dsimp only [clampRangeEnd]
  omega

end Ranges

namespace TableLayout.WellFormed

variable {l : TableLayout} (h : l.WellFormed) {r c : ℕ} {b : ℚ}
include h

/-- The row on top at a point is visible or frozen, unless it or what is below the point is too
    small. -/
theorem has_row (hb : 0 ≤ b) (htop : h.rowPanes.Topmost r b)
    (hsize : edgeEpsilon l ≤ axisSize l.rowGeometry r) (hedge : b + edgeEpsilon l ≤ l.bodyHeight) :
    r < l.rowCount ∧ (l.rows.visible.has r ∨ l.frozenRowRange.has r) := by
  have hnonneg := h.geometry.axisSize_nonneg
  have hscroll := h.vertical.logicalOffset_mem.1
  have hpos : 0 < edgeEpsilon l := lt_max_of_lt_left (by norm_num)
  have hcontent : l.rowGeometry.contentSize = offset (axisSize l.rowGeometry) l.rowCount := by
    rw [h.geometry.contentSize_eq, h.geometry.axisPosition_eq, h.geometry_count]
  -- The row ends an epsilon behind its beginning at the earliest.
  have hbegins : ∀ n, r < n → offset (axisSize l.rowGeometry) r + edgeEpsilon l ≤
      offset (axisSize l.rowGeometry) n := fun n hn =>
    ((add_le_add_right hsize _).trans (offset_succ _ _).ge).trans (offset_mono hnonneg hn)
  rcases (Panes.topmost_iff hb).1 htop with ⟨hfrozen, hcovers⟩ | ⟨-, -, hcovers⟩
  · have hlt := (lt_of_lt_of_le hfrozen h.frozenRows_le)
    refine ⟨hlt, .inr ?_⟩
    rw [h.frozenRowRange_eq, if_neg (show ¬l.frozenRowCount = 0 from Nat.ne_zero_of_lt hfrozen)]
    have hextent : l.frozenRowExtent = offset (axisSize l.rowGeometry) l.frozenRowCount :=
      h.extent_rowPanes.symm
    have hbefore : b < l.frozenRowExtent := hextent ▸ hcovers.lt_offset hnonneg hfrozen
    refine has_clampRangeEnd (has_visibleRowRange h.geometry le_rfl hb hcovers ?_ ?_) hfrozen
    · rw [zero_add]
      exact lt_min (by linarith) hbefore
    · -- In the frozen pane the epsilon is at most the one of the whole viewport.
      have hmin : 0 ≤ min l.bodyHeight l.frozenRowExtent := le_min (by linarith) (by linarith)
      have hepsilon : max (1 / 10 ^ 7) (|min l.bodyHeight l.frozenRowExtent| *
          (1 / 2 ^ 52) * 4) ≤ edgeEpsilon l := by
        refine max_le_max le_rfl ?_
        rw [abs_of_nonneg hmin, abs_of_nonneg (by linarith)]
        have hle := min_le_left l.bodyHeight l.frozenRowExtent
        gcongr
        linarith
      have hend := hbegins _ hfrozen
      have hle := hcovers.1
      rw [zero_add]
      refine (add_le_add_right hepsilon _).trans (le_min ?_ (le_min ?_ ?_))
      · exact (hbegins _ hlt).trans_eq hcontent.symm
      · exact (add_le_add_left hle _).trans hedge
      · exact hend.trans_eq hextent.symm
  · have hlt : r < l.rowCount :=
      h.geometry_count ▸ SparseAxisGeometry.WellFormed.lt_count_of_covers hcovers
    refine ⟨hlt, .inl ?_⟩
    rw [h.rows_visible]
    refine has_visibleRowRange h.geometry hscroll (le_add_of_nonneg_left hb) hcovers
      (by linarith) (le_min ?_ ?_)
    · exact (hbegins _ hlt).trans_eq hcontent.symm
    · have hle := hcovers.1
      refine (add_le_add_left hle _).trans ?_
      change b + l.vertical.logicalOffset + edgeEpsilon l ≤ _
      linarith

/-- The column on top at a point is visible or frozen. -/
theorem has_column (hb : 0 ≤ b) (hlt : b < l.bodyWidth) (htop : h.columnPanes.Topmost c b) :
    c < l.columnCount ∧ (l.columns.visible.has c ∨ l.frozenColumnRange.has c) := by
  have hscroll := h.horizontal.logicalOffset_mem.1
  rcases (Panes.topmost_iff hb).1 htop with ⟨hfrozen, hcovers⟩ | ⟨-, -, hcovers⟩
  · refine ⟨lt_of_lt_of_le hfrozen h.frozenColumns_le, .inr ?_⟩
    rw [h.frozenColumnRange_eq, if_neg (show ¬l.frozenColumnCount = 0 from
      Nat.ne_zero_of_lt hfrozen)]
    have hbefore := hcovers.lt_offset (columnSize_nonneg h.widths_nonneg) hfrozen
    refine has_clampRangeEnd (has_visibleColumnRange h.widths_nonneg le_rfl hb hcovers ?_) hfrozen
    rw [zero_add]
    exact lt_min hlt (hbefore.trans_eq h.extent_columnPanes)
  · refine ⟨h.widths_length ▸ lt_length_of_covers hcovers, .inl ?_⟩
    rw [h.columns_visible]
    refine has_visibleColumnRange h.widths_nonneg hscroll (le_add_of_nonneg_left hb) hcovers ?_
    change b + l.horizontal.logicalOffset < _
    linarith

end TableLayout.WellFormed

/-! ## What is loaded -/

section Loaded

variable {l : TableLayout} {mergedCells : List MergedCellRegion} {maxCells : ℕ}
  {visible overscan : List GridRange}

/-- A cell is in exactly one of the ranges on the screen, and in exactly one of those that are
    loaded. -/
def LoadedOnce (visible overscan : List GridRange) (cell : ℕ × ℕ) : Prop :=
  multiplicity GridRange.has visible cell = 1 ∧ multiplicity GridRange.has overscan cell = 1

theorem multiplicity_windowRectangles_le {rows columns frozenRows frozenColumns : IndexRange}
    (cell : ℕ × ℕ) : multiplicity GridRange.has
      (windowRectangles rows columns frozenRows frozenColumns) cell ≤ 1 := by
  obtain ⟨r, c⟩ := cell
  rw [multiplicity_windowRectangles]
  split_ifs <;> omega

/-- The styles of a cell are requested once if it is requested at all. -/
theorem multiplicity_presentationRequests_le (cell : ℕ × ℕ) :
    multiplicity requestHas (presentationRequests l) cell ≤ 1 := by
  unfold presentationRequests
  dsimp only
  split_ifs <;> rw [presentationRectangles_eq, multiplicity_map_request] <;>
    exact multiplicity_windowRectangles_le cell

/-- No cell is loaded twice. -/
theorem multiplicity_layoutRanges_le
    (hranges : layoutRanges l.windows maxCells mergedCells = .ok (visible, overscan))
    (cell : ℕ × ℕ) : multiplicity GridRange.has visible cell ≤ 1 ∧
      multiplicity GridRange.has overscan cell ≤ 1 := by
  obtain ⟨rfl, hoverscan, -, -⟩ := layoutRanges_eq_ok hranges
  refine ⟨multiplicity_withAnchors_le (multiplicity_windowRectangles_le cell), ?_⟩
  rcases hoverscan with rfl | rfl <;>
    exact multiplicity_withAnchors_le (multiplicity_windowRectangles_le cell)

/-- A visible cell and the anchors of its regions are loaded. -/
theorem loadedOnce_of_has (h : l.WellFormed) {r c : ℕ}
    (hranges : layoutRanges l.windows maxCells mergedCells = .ok (visible, overscan))
    (hr : r < l.rowCount ∧ (l.rows.visible.has r ∨ l.frozenRowRange.has r))
    (hc : c < l.columnCount ∧ (l.columns.visible.has c ∨ l.frozenColumnRange.has c)) :
    LoadedOnce visible overscan (r, c) ∧
      (∀ region ∈ mergedCells, region.rangeContains r c →
        LoadedOnce visible overscan (region.rowStart, region.columnStart)) ∧
      multiplicity requestHas (presentationRequests l) (r, c) = 1 := by
  obtain ⟨rfl, hoverscan, -, -⟩ := layoutRanges_eq_ok hranges
  obtain ⟨rowAmount, hrows⟩ := h.rows_overscan
  obtain ⟨columnAmount, hcolumns⟩ := h.columns_overscan
  have hshown : multiplicity GridRange.has (windowRectangles l.rows.visible l.columns.visible
      l.frozenRowRange l.frozenColumnRange) (r, c) = 1 := by
    rw [multiplicity_windowRectangles, if_pos ⟨hr.2, hc.2⟩]
  have hfull : multiplicity GridRange.has (windowRectangles l.rows.overscan l.columns.overscan
      l.frozenRowRange l.frozenColumnRange) (r, c) = 1 := by
    rw [multiplicity_windowRectangles, hrows, hcolumns, if_pos]
    exact ⟨hr.2.imp_left fun hvisible => has_expandRange hvisible hr.1,
      hc.2.imp_left fun hvisible => has_expandRange hvisible hc.1⟩
  -- What has the cell, or has an anchor for it, has it once.
  have hone : ∀ cell, (cell = (r, c) ∨ cellRange cell ∈ mergeAnchorRanges mergedCells
      (windowRectangles l.rows.visible l.columns.visible l.frozenRowRange l.frozenColumnRange)) →
      LoadedOnce (withAnchors mergedCells
        (windowRectangles l.rows.visible l.columns.visible l.frozenRowRange l.frozenColumnRange)
        (windowRectangles l.rows.visible l.columns.visible l.frozenRowRange l.frozenColumnRange))
        overscan cell := by
    intro cell hcell
    have hvisible := multiplicity_withAnchors_eq_one (multiplicity_windowRectangles_le cell)
      (hcell.imp_left fun heq => by rw [heq]; exact hshown)
    refine ⟨hvisible, ?_⟩
    rcases hoverscan with rfl | rfl
    · exact hvisible
    · exact multiplicity_withAnchors_eq_one (multiplicity_windowRectangles_le cell)
        (hcell.imp_left fun heq => by rw [heq]; exact hfull)
  refine ⟨hone _ (.inl rfl), fun region hregion hcontains => hone _ (.inr ?_), ?_⟩
  · obtain ⟨shown, hmem, hhas⟩ := multiplicity_pos.1 (Nat.lt_of_lt_of_eq Nat.one_pos hshown.symm)
    refine mem_mergeAnchorRanges.2 ⟨region, hregion, ⟨shown, hmem, ?_⟩, rfl⟩
    rw [GridRange.has_iff] at hhas
    rw [GridRange.rangeContains_iff] at hcontains
    rw [GridRange.rangesIntersect_iff]
    omega
  · unfold presentationRequests
    dsimp only
    split_ifs <;> rw [presentationRectangles_eq, multiplicity_map_request]
    · exact hfull
    · exact hshown

end Loaded

/-- Whatever is hit is loaded: the cell and the anchors of its merged regions are in exactly one of
    the ranges on the screen and in exactly one of those that are loaded, and the style of the cell
    is requested once, unless the row or what is below the point is too small. The ranges are
    disjoint, and have no more cells than allowed. -/
theorem layoutRanges_covers (metadata : TableMetadata) (columnWidths : List ℚ)
    (viewport : ViewportUpdate) (options : LayoutOptions) (l : TableLayout)
    (hlayout : createTableLayout metadata columnWidths viewport options = .ok l)
    (mergedCells : List MergedCellRegion) (maxCells : ℕ) (visible overscan : List GridRange)
    (hranges : layoutRanges l.windows maxCells mergedCells = .ok (visible, overscan)) :
    (∀ x y w r c, hitTest l x y w = .cell r c → edgeEpsilon l ≤ axisSize l.rowGeometry r →
      y + edgeEpsilon l ≤ l.height →
        LoadedOnce visible overscan (r, c) ∧
          (∀ region ∈ mergedCells, region.rangeContains r c →
            LoadedOnce visible overscan (region.rowStart, region.columnStart)) ∧
          multiplicity requestHas (presentationRequests l) (r, c) = 1) ∧
      visible.Pairwise (fun a b => ∀ cell, a.has cell → ¬b.has cell) ∧
      overscan.Pairwise (fun a b => ∀ cell, a.has cell → ¬b.has cell) ∧
      (presentationRequests l).Pairwise
        (fun a b => ∀ cell, requestHas a cell → ¬requestHas b cell) ∧
      (visible.map GridRange.rangeCellCount).sum ≤ maxCells ∧
      (overscan.map GridRange.rangeCellCount).sum ≤ maxCells := by
  have h := (createTableLayout_created hlayout).wellFormed
  obtain ⟨-, -, hvisible, hoverscan⟩ := layoutRanges_eq_ok hranges
  refine ⟨fun x y w r c hhit hsize hedge => ?_,
    pairwise_disjoint_iff.2 fun cell => (multiplicity_layoutRanges_le hranges cell).1,
    pairwise_disjoint_iff.2 fun cell => (multiplicity_layoutRanges_le hranges cell).2,
    pairwise_disjoint_iff.2 multiplicity_presentationRequests_le, hvisible, hoverscan⟩
  obtain ⟨⟨hx, hx', hcolumn⟩, hy, hy', hrow⟩ := h.hitTest_eq_cell_iff.1 hhit
  have hbody : y - l.headerHeight + edgeEpsilon l ≤ l.bodyHeight := by
    rw [h.bodyHeight_eq]
    exact le_max_of_le_right (by linarith)
  exact loadedOnce_of_has h hranges (h.has_row (sub_nonneg.2 hy) hrow hsize hbody)
    (h.has_column (sub_nonneg.2 hx) (h.lt_bodyWidth hx') hcolumn)

/-- A region that the frozen column is a part of, if there is room for what is visible. -/
theorem layoutRanges_covers_straddling :
    ∃ l, createTableLayout threeColumns [100, 100, 100] ⟨214, 100, 50, 0, none⟩
        { frozenColumns := 1 } = .ok l ∧
      ∃ maxCells visible overscan,
        layoutRanges l.windows maxCells [⟨0, 2, 0, 2⟩] = .ok (visible, overscan) ∧
        visible.Pairwise (fun a b => ∀ cell, a.has cell → ¬b.has cell) ∧
        (visible.map GridRange.rangeCellCount).sum ≤ maxCells := by
  obtain ⟨l, hl, -⟩ := exists_layout_threeColumns 214 (by norm_num)
  obtain ⟨visible, overscan, hranges⟩ : ∃ visible overscan, layoutRanges l.windows
      ((withAnchors [⟨0, 2, 0, 2⟩] (windowRectangles l.rows.visible l.columns.visible
        l.frozenRowRange l.frozenColumnRange) (windowRectangles l.rows.visible l.columns.visible
        l.frozenRowRange l.frozenColumnRange)).map GridRange.rangeCellCount).sum
      [⟨0, 2, 0, 2⟩] = .ok (visible, overscan) := ⟨_, _, if_neg (lt_irrefl _)⟩
  obtain ⟨-, hdisjoint, -, -, hcount, -⟩ := layoutRanges_covers threeColumns [100, 100, 100]
    ⟨214, 100, 50, 0, none⟩ { frozenColumns := 1 } l hl [⟨0, 2, 0, 2⟩] _ visible overscan hranges
  exact ⟨l, hl, _, visible, overscan, hranges, hdisjoint, hcount⟩

end Tabulark.View
