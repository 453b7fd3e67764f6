import Tabulark.View.HitTest
import Tabulark.View.Selection

/-!
# Painting merged cells

A merged region is painted in up to four fragments, one for each pane it has
cells in. A fragment goes from its first cell to its last one, as these are
drawn, and is clipped to its pane. The fragments of a region are disjoint and
cover the points at which one of its cells is hit (`paintMergedCells_exact`).
-/

namespace Tabulark.View

open Strips
open Controller (CellLoadState)

/-! ## Fragments -/

/-- A fragment of a merged region as it is painted. All of them have the value and the style of
    the first cell of the region, and all but the one with that cell are continuations. -/
structure CanvasPaintMergedCell (Style : Type) extends PixelRect where
  region : MergedCellRegion
  value : Option (Option String)
  style : Option Style
  continuation : Bool
  deriving DecidableEq, Repr

/-- The parts of a range before and after a boundary. -/
def splitIndexRange (start stop boundary : ℕ) : List IndexRange :=
  if boundary ≤ start ∨ stop ≤ boundary then [⟨start, stop⟩]
  else [⟨start, boundary⟩, ⟨boundary, stop⟩]

/-- The parts of a region in the panes. -/
def splitMergedRegion (region : MergedCellRegion) (frozenRowCount frozenColumnCount : ℕ) :
    List MergedCellRegion :=
  let rows := splitIndexRange region.rowStart region.rowEnd frozenRowCount
  let columns := splitIndexRange region.columnStart region.columnEnd frozenColumnCount
  rows.flatMap fun row => columns.map fun column =>
    ⟨row.start, row.stop, column.start, column.stop⟩

/-- Where a pane shows. -/
structure PaneClip where
  left : ℚ
  top : ℚ
  right : ℚ
  bottom : ℚ
  deriving DecidableEq, Repr

/-- Where the pane of a fragment shows. -/
def mergePaneClip (layout : TableLayout) (fragment : MergedCellRegion) : PaneClip :=
  let frozenRight := layout.rowHeaderWidth + min layout.bodyWidth layout.frozenColumnExtent
  let frozenBottom := layout.headerHeight + min layout.bodyHeight layout.frozenRowExtent
  let frozenColumn : Bool := fragment.columnStart < layout.frozenColumnCount
  let frozenRow : Bool := fragment.rowStart < layout.frozenRowCount
  { left := if frozenColumn then layout.rowHeaderWidth else frozenRight
    right := if frozenColumn then frozenRight else layout.rowHeaderWidth + layout.bodyWidth
    top := if frozenRow then layout.headerHeight else frozenBottom
    bottom := if frozenRow then frozenBottom else layout.headerHeight + layout.bodyHeight }

/-- Where the controller says that a cell is drawn. It refuses cells outside of the table. -/
def Controller.cellRect (layout : TableLayout) (cell : CellPosition) : Result PixelRect := do
  assertCellPosition cell "cell"
  if layout.rowCount ≤ cell.rowIndex ∨ layout.columnCount ≤ cell.columnIndex then
    .error (.new .invalidArgument "cell must be inside the current table extent")
  else .ok (View.cellRect layout cell.rowIndex cell.columnIndex)

variable {Style : Type}

/-- What shows of a fragment, given where its first and its last cell are drawn. -/
def clipFragment (layout : TableLayout) (region : MergedCellRegion) (cell : CellLoadState)
    (style : Option Style) (fragment : MergedCellRegion) (first last : PixelRect) :
    Option (CanvasPaintMergedCell Style) :=
  let clip := mergePaneClip layout fragment
  let x := max first.x clip.left
  let y := max first.y clip.top
  let right := min (last.x + last.width) clip.right
  let bottom := min (last.y + last.height) clip.bottom
  if right ≤ x ∨ bottom ≤ y then none
  else some {
    region
    x
    y
    width := right - x
    height := bottom - y
    value :=
      match cell with
      | .loaded value => some value
      | _ => none
    style
    continuation := ¬(fragment.rowStart = region.rowStart ∧
      fragment.columnStart = region.columnStart) }

/-- Paints a fragment. -/
def paintFragment (layout : TableLayout) (region : MergedCellRegion) (cell : CellLoadState)
    (style : Option Style) (fragment : MergedCellRegion) :
    Result (Option (CanvasPaintMergedCell Style)) := do
  let first ← Controller.cellRect layout ⟨fragment.rowStart, fragment.columnStart⟩
  let last ← Controller.cellRect layout ⟨fragment.rowEnd - 1, fragment.columnEnd - 1⟩
  pure (clipFragment layout region cell style fragment first last)

/-- Paints the merged regions, given what is known of the cells. -/
def paintMergedCells (layout : TableLayout) (getCell : ℕ → ℕ → CellLoadState)
    (styleAt : ℕ → ℕ → Option Style) (regions : List MergedCellRegion) :
    Result (List (CanvasPaintMergedCell Style)) := do
  let result ← regions.mapM fun region => do
    let cell := getCell region.rowStart region.columnStart
    let style := styleAt region.rowStart region.columnStart
    let fragments ← (splitMergedRegion region layout.frozenRowCount
      layout.frozenColumnCount).mapM (paintFragment layout region cell style)
    pure fragments.reduceOption
  pure result.flatten

/-! ## Splitting -/

section Split

variable {start stop boundary i : ℕ} {part : IndexRange} {region fragment : MergedCellRegion}
  {frozenRows frozenColumns : ℕ}

/-- A part of a range is on one side of the boundary; it is the first part if that is the side on
    which the range begins. -/
theorem splitIndexRange_part (hlt : start < stop)
    (hpart : part ∈ splitIndexRange start stop boundary) :
    part.start < part.stop ∧ start ≤ part.start ∧ part.stop ≤ stop ∧
      (part.stop ≤ boundary ∨ boundary ≤ part.start) ∧
        (part.start = start ↔ (part.start < boundary ↔ start < boundary)) := by
  rw [splitIndexRange] at hpart
  split_ifs at hpart with hside
  · simp only [List.mem_singleton] at hpart
    subst hpart
    dsimp only
    omega
  · simp only [List.mem_cons, List.not_mem_nil, or_false] at hpart
    rcases hpart with rfl | rfl <;> dsimp only <;> omega

/-- The parts of a range have its indexes. -/
theorem mem_splitIndexRange (start stop boundary i : ℕ) :
    (∃ part ∈ splitIndexRange start stop boundary, part.start ≤ i ∧ i < part.stop) ↔
      start ≤ i ∧ i < stop := by
  rw [splitIndexRange]
  split_ifs with hside
  · simp
  · simp only [List.mem_cons, List.not_mem_nil, or_false, exists_eq_or_imp, exists_eq_left]
    omega

theorem pairwise_splitIndexRange :
    (splitIndexRange start stop boundary).Pairwise fun p q => p.stop ≤ q.start := by
  rw [splitIndexRange]
  split_ifs <;> simp

/-- A fragment has cells of the region, all of them in one pane, and it begins where the region
    does if it is in the pane of its first cell. -/
structure Fragment (region : MergedCellRegion) (frozenRows frozenColumns : ℕ)
    (fragment : MergedCellRegion) : Prop where
  proper : fragment.Proper
  le : fragment ≤ region
  rows : fragment.rowEnd ≤ frozenRows ∨ frozenRows ≤ fragment.rowStart
  columns : fragment.columnEnd ≤ frozenColumns ∨ frozenColumns ≤ fragment.columnStart
  rowStart_eq : fragment.rowStart = region.rowStart ↔
    (fragment.rowStart < frozenRows ↔ region.rowStart < frozenRows)
  columnStart_eq : fragment.columnStart = region.columnStart ↔
    (fragment.columnStart < frozenColumns ↔ region.columnStart < frozenColumns)

theorem fragment_of_mem (hproper : region.Proper)
    (hmem : fragment ∈ splitMergedRegion region frozenRows frozenColumns) :
    Fragment region frozenRows frozenColumns fragment := by
  simp only [splitMergedRegion, List.mem_flatMap, List.mem_map] at hmem
  obtain ⟨row, hrow, column, hcolumn, rfl⟩ := hmem
  obtain ⟨hrlt, hrstart, hrstop, hrside, hrfirst⟩ := splitIndexRange_part hproper.1 hrow
  obtain ⟨hclt, hcstart, hcstop, hcside, hcfirst⟩ := splitIndexRange_part hproper.2 hcolumn
  exact ⟨⟨hrlt, hclt⟩, GridRange.le_iff.2 ⟨hrstart, hrstop, hcstart, hcstop⟩, hrside, hcside,
    hrfirst, hcfirst⟩

/-- The fragments have the cells of the region. -/
theorem mem_splitMergedRegion {r c : ℕ} :
    (∃ fragment ∈ splitMergedRegion region frozenRows frozenColumns,
      fragment.rangeContains r c) ↔ region.rangeContains r c := by
  have hrows := mem_splitIndexRange region.rowStart region.rowEnd frozenRows r
  have hcolumns := mem_splitIndexRange region.columnStart region.columnEnd frozenColumns c
  simp only [splitMergedRegion, List.mem_flatMap, List.mem_map, GridRange.rangeContains_iff]
  constructor
  · rintro ⟨_, ⟨row, hrow, column, hcolumn, rfl⟩, h₁, h₂, h₃, h₄⟩
    have hr := hrows.1 ⟨row, hrow, h₁, h₂⟩
    have hc := hcolumns.1 ⟨column, hcolumn, h₃, h₄⟩
    exact ⟨hr.1, hr.2, hc.1, hc.2⟩
  · rintro ⟨h₁, h₂, h₃, h₄⟩
    obtain ⟨row, hrow, hr⟩ := hrows.2 ⟨h₁, h₂⟩
    obtain ⟨column, hcolumn, hc⟩ := hcolumns.2 ⟨h₃, h₄⟩
    exact ⟨_, ⟨row, hrow, column, hcolumn, rfl⟩, hr.1, hr.2, hc.1, hc.2⟩

/-- No two fragments share a cell. -/
theorem pairwise_splitMergedRegion : (splitMergedRegion region frozenRows frozenColumns).Pairwise
    fun f g => ∀ r c, f.rangeContains r c → ¬g.rangeContains r c := by
  simp only [splitMergedRegion, List.pairwise_flatMap, List.pairwise_map, List.mem_map,
    GridRange.rangeContains_iff]
  refine ⟨fun row _ => pairwise_splitIndexRange.imp fun hle => ?_,
    pairwise_splitIndexRange.imp fun hle => ?_⟩
  · intro r c hf hg
    omega
  · rintro _ ⟨_, -, rfl⟩ _ ⟨_, -, rfl⟩ r c hf hg
    dsimp only at hf hg
    omega

end Split

/-! ## Where fragments are painted -/

/-- What is painted of a fragment. -/
def paintedFragment (l : TableLayout) (region : MergedCellRegion) (cell : CellLoadState)
    (style : Option Style) (fragment : MergedCellRegion) : Option (CanvasPaintMergedCell Style) :=
  clipFragment l region cell style fragment
    (cellRect l fragment.rowStart fragment.columnStart)
    (cellRect l (fragment.rowEnd - 1) (fragment.columnEnd - 1))

/-- A region has cells, and all of them are in the table. -/
structure TableLayout.Inside (l : TableLayout) (region : MergedCellRegion) : Prop where
  proper : region.Proper
  rowEnd_le : region.rowEnd ≤ l.rowCount
  columnEnd_le : region.columnEnd ≤ l.columnCount
  /-- The indexes of regions are safe integers. -/
  safe : region.rowEnd ≤ maxSafeInteger ∧ region.columnEnd ≤ maxSafeInteger

section Fragments

variable {l : TableLayout} {region fragment : MergedCellRegion} {cell : CellLoadState}
  {style : Option Style} {first last : PixelRect} {x y : ℚ}

/-- A fragment is painted between its first and its last cell, within the clip. -/
theorem clipFragment_contains :
    (∃ painted ∈ clipFragment l region cell style fragment first last,
        painted.toPixelRect.Contains x y) ↔
      (max first.x (mergePaneClip l fragment).left ≤ x ∧
        x < min (last.x + last.width) (mergePaneClip l fragment).right) ∧
      max first.y (mergePaneClip l fragment).top ≤ y ∧
        y < min (last.y + last.height) (mergePaneClip l fragment).bottom := by
  unfold clipFragment
  dsimp only
  generalize max first.x _ = left, max first.y _ = top, min (last.x + _) _ = right,
    min (last.y + _) _ = bottom
  split_ifs with hempty
  · refine iff_of_false (fun ⟨_, hnone, _⟩ => nomatch hnone) ?_
    rintro ⟨⟨hx, hx'⟩, hy, hy'⟩
    rcases hempty with hle | hle
    · exact absurd (hx.trans_lt hx') (not_lt.2 hle)
    · exact absurd (hy.trans_lt hy') (not_lt.2 hle)
  · simp [PixelRect.Contains]

/-- What is painted of a fragment is never empty. -/
theorem clipFragment_pos {painted : CanvasPaintMergedCell Style}
    (hpainted : painted ∈ clipFragment l region cell style fragment first last) :
    0 < painted.width ∧ 0 < painted.height ∧ painted.region = region ∧
      (painted.continuation = false ↔ fragment.rowStart = region.rowStart ∧
        fragment.columnStart = region.columnStart) := by
  unfold clipFragment at hpainted
  dsimp only at hpainted
  generalize max first.x _ = left, max first.y _ = top, min (last.x + _) _ = right,
    min (last.y + _) _ = bottom at hpainted
  split_ifs at hpainted with hempty
  · exact nomatch hpainted
  · simp only [not_or, not_le] at hempty
    cases hpainted
    exact ⟨sub_pos.2 hempty.1, sub_pos.2 hempty.2, rfl, by simp⟩

/-- The controller has a place for every cell of the table. -/
theorem Controller.cellRect_eq_ok {r c : ℕ} (hr : r < l.rowCount) (hc : c < l.columnCount)
    (hsafe : CellPosition.Safe ⟨r, c⟩) :
    Controller.cellRect l ⟨r, c⟩ = .ok (View.cellRect l r c) := by
  rw [Controller.cellRect, assertCellPosition_of_safe hsafe, Result.ok_bind,
    if_neg (by simp only [not_or, not_le]; exact ⟨hr, hc⟩)]

variable (h : l.WellFormed)
include h

/-- Between the columns of a fragment one of them is on top. -/
theorem TableLayout.WellFormed.columns_iff {r : ℕ}
    (hlt : fragment.columnStart < fragment.columnEnd) (hend : fragment.columnEnd ≤ l.columnCount)
    (hpane : fragment.columnEnd ≤ l.frozenColumnCount ∨
      l.frozenColumnCount ≤ fragment.columnStart) :
    (max (cellRect l r fragment.columnStart).x (mergePaneClip l fragment).left ≤ x ∧
      x < min ((cellRect l r (fragment.columnEnd - 1)).x +
        (cellRect l r (fragment.columnEnd - 1)).width) (mergePaneClip l fragment).right) ↔
      l.rowHeaderWidth ≤ x ∧ x < l.width ∧ ∃ c, fragment.columnStart ≤ c ∧
        c < fragment.columnEnd ∧ h.columnPanes.Topmost c (x - l.rowHeaderWidth) := by
  have hshown : ∀ c ≤ l.columnCount, (cellRect l r c).x =
      l.rowHeaderWidth + h.columnPanes.shown c := fun c hc => by
    rw [cellRect, h.columnOffset_eq hc, add_sub_assoc]
    rfl
  have hclip : (mergePaneClip l fragment).left = l.rowHeaderWidth +
      (h.columnPanes.clip l.bodyWidth (fragment.columnStart < h.columnPanes.frozen)).1 ∧
      (mergePaneClip l fragment).right = l.rowHeaderWidth +
        (h.columnPanes.clip l.bodyWidth (fragment.columnStart < h.columnPanes.frozen)).2 := by
    rw [mergePaneClip, Panes.clip, h.extent_columnPanes]
    by_cases hfrozen : fragment.columnStart < l.frozenColumnCount <;> simp [columnPanes, hfrozen]
  rw [hshown _ (by omega), hshown _ (by omega), hclip.1, hclip.2]
  refine (Panes.mem_part_origin_iff l.rowHeaderWidth hlt hpane).trans ?_
  refine and_congr_right fun hle => and_congr_left fun _ => ?_
  rw [← sub_lt_iff_lt_add', h.bodyWidth_eq, lt_max_iff, sub_lt_sub_iff_right]
  exact or_iff_right (not_lt.2 (sub_nonneg.2 hle))

/-- Between the rows of a fragment one of them is on top. -/
theorem TableLayout.WellFormed.rows_iff {c : ℕ} (hlt : fragment.rowStart < fragment.rowEnd)
    (hpane : fragment.rowEnd ≤ l.frozenRowCount ∨ l.frozenRowCount ≤ fragment.rowStart) :
    (max (cellRect l fragment.rowStart c).y (mergePaneClip l fragment).top ≤ y ∧
      y < min ((cellRect l (fragment.rowEnd - 1) c).y +
        (cellRect l (fragment.rowEnd - 1) c).height) (mergePaneClip l fragment).bottom) ↔
      l.headerHeight ≤ y ∧ y < l.height ∧ ∃ r, fragment.rowStart ≤ r ∧
        r < fragment.rowEnd ∧ h.rowPanes.Topmost r (y - l.headerHeight) := by
  have hshown : ∀ r, (cellRect l r c).y = l.headerHeight + h.rowPanes.shown r := fun r => by
    rw [cellRect]
    dsimp only
    rw [h.geometry.axisPosition_eq, add_sub_assoc]
    rfl
  have hclip : (mergePaneClip l fragment).top = l.headerHeight +
      (h.rowPanes.clip l.bodyHeight (fragment.rowStart < h.rowPanes.frozen)).1 ∧
      (mergePaneClip l fragment).bottom = l.headerHeight +
        (h.rowPanes.clip l.bodyHeight (fragment.rowStart < h.rowPanes.frozen)).2 := by
    rw [mergePaneClip, Panes.clip, h.extent_rowPanes]
    by_cases hfrozen : fragment.rowStart < l.frozenRowCount <;> simp [rowPanes, hfrozen]
  rw [hshown, hshown, hclip.1, hclip.2]
  refine (Panes.mem_part_origin_iff l.headerHeight hlt hpane).trans ?_
  refine and_congr_right fun hle => and_congr_left fun _ => ?_
  rw [← sub_lt_iff_lt_add', h.bodyHeight_eq, lt_max_iff, sub_lt_sub_iff_right]
  exact or_iff_right (not_lt.2 (sub_nonneg.2 hle))

/-- A fragment is painted where one of its cells is hit. -/
theorem TableLayout.WellFormed.fragment_iff (hinside : l.Inside region)
    (hfragment : Fragment region l.frozenRowCount l.frozenColumnCount fragment)
    (cell : CellLoadState) (style : Option Style) (x y w : ℚ) :
    (∃ painted ∈ paintedFragment l region cell style fragment,
        painted.toPixelRect.Contains x y) ↔
        ∃ r c, hitTest l x y w = .cell r c ∧ fragment.rangeContains r c := by
  have hend := (GridRange.le_iff.1 hfragment.le).2.2.2.trans hinside.columnEnd_le
  have hcolumns := h.columns_iff (x := x) (r := fragment.rowStart) hfragment.proper.2 hend
    hfragment.columns
  have hrows := h.rows_iff (y := y) (c := fragment.columnStart) hfragment.proper.1 hfragment.rows
  refine clipFragment_contains.trans ((and_congr hcolumns hrows).trans ?_)
  simp only [h.hitTest_eq_cell_iff, GridRange.rangeContains_iff]
  constructor
  · rintro ⟨⟨hx, hx', c, hc, hc', htopc⟩, hy, hy', r, hr, hr', htopr⟩
    exact ⟨r, c, ⟨⟨hx, hx', htopc⟩, hy, hy', htopr⟩, hr, hr', hc, hc'⟩
  · rintro ⟨r, c, ⟨⟨hx, hx', htopc⟩, hy, hy', htopr⟩, hr, hr', hc, hc'⟩
    exact ⟨⟨hx, hx', c, hc, hc', htopc⟩, hy, hy', r, hr, hr', htopr⟩

end Fragments

/-! ## Regions -/

/-- Two cells are in the same pane. -/
def SamePane (l : TableLayout) (r c r' c' : ℕ) : Prop :=
  (r < l.frozenRowCount ↔ r' < l.frozenRowCount) ∧
    (c < l.frozenColumnCount ↔ c' < l.frozenColumnCount)

/-- Cells are painted for a region where its cells are. -/
structure Paints (l : TableLayout) (region : MergedCellRegion)
    (painted : List (CanvasPaintMergedCell Style)) : Prop where
  region_eq : ∀ cell ∈ painted, cell.region = region
  pos : ∀ cell ∈ painted, 0 < cell.width ∧ 0 < cell.height
  disjoint : painted.Pairwise fun a b => ∀ x y,
    a.toPixelRect.Contains x y → ¬b.toPixelRect.Contains x y
  union : ∀ x y w, (∃ cell ∈ painted, cell.toPixelRect.Contains x y) ↔
    ∃ r c, hitTest l x y w = .cell r c ∧ region.rangeContains r c
  one_first : painted.Pairwise fun a b => a.continuation ∨ b.continuation
  first : ∀ x y w, (∃ cell ∈ painted, cell.continuation = false ∧
      cell.toPixelRect.Contains x y) ↔
    ∃ r c, hitTest l x y w = .cell r c ∧ region.rangeContains r c ∧
      SamePane l r c region.rowStart region.columnStart

section Regions

variable {l : TableLayout} {region fragment : MergedCellRegion} {cell : CellLoadState}
  {style : Option Style}

theorem paintFragment_eq_ok (hinside : l.Inside region)
    (hfragment : Fragment region l.frozenRowCount l.frozenColumnCount fragment) :
    paintFragment l region cell style fragment =
      .ok (paintedFragment l region cell style fragment) := by
  obtain ⟨-, hrow, -, hcolumn⟩ := GridRange.le_iff.1 hfragment.le
  obtain ⟨hrlt, hclt⟩ := hfragment.proper
  have hrows := hrow.trans hinside.rowEnd_le
  have hcolumns := hcolumn.trans hinside.columnEnd_le
  obtain ⟨hrsafe, hcsafe⟩ := hinside.safe
  rw [paintFragment, Controller.cellRect_eq_ok (by omega) (by omega)
    ⟨by dsimp only; omega, by dsimp only; omega⟩, Result.ok_bind, Controller.cellRect_eq_ok
    (by omega) (by omega) ⟨by dsimp only; omega, by dsimp only; omega⟩, Result.ok_bind]
  rfl

/-- A cell of a region is in a fragment that begins where the region does if it is in the pane
    of the first cell. -/
theorem begins_iff {r c : ℕ} (hfragment : Fragment region l.frozenRowCount l.frozenColumnCount
    fragment) (hcell : fragment.rangeContains r c) :
    fragment.rowStart = region.rowStart ∧ fragment.columnStart = region.columnStart ↔
      SamePane l r c region.rowStart region.columnStart := by
  rw [GridRange.rangeContains_iff] at hcell
  have hrows := hfragment.rows
  have hcolumns := hfragment.columns
  rw [hfragment.rowStart_eq, hfragment.columnStart_eq, SamePane]
  refine and_congr (iff_congr ?_ Iff.rfl) (iff_congr ?_ Iff.rfl) <;> omega

/-- The cells painted for a region are painted where its cells are. -/
theorem TableLayout.WellFormed.paints (h : l.WellFormed) (hinside : l.Inside region)
    (cell : CellLoadState) (style : Option Style) :
    Paints l region ((splitMergedRegion region l.frozenRowCount l.frozenColumnCount).filterMap
      (paintedFragment l region cell style)) := by
  have hfragments := fun f (hf : f ∈ splitMergedRegion region l.frozenRowCount
    l.frozenColumnCount) => fragment_of_mem hinside.proper hf
  have hiff := fun f hf (x y w : ℚ) =>
    h.fragment_iff hinside (hfragments f hf) cell style x y w
  refine ⟨fun a ha => ?_, fun a ha => ?_, ?_, fun x y w => ?_, ?_, fun x y w => ?_⟩
  · obtain ⟨f, -, ha⟩ := List.mem_filterMap.1 ha
    exact (clipFragment_pos ha).2.2.1
  · obtain ⟨f, -, ha⟩ := List.mem_filterMap.1 ha
    exact ⟨(clipFragment_pos ha).1, (clipFragment_pos ha).2.1⟩
  · -- At a point of two fragments the cell that is hit would be in both.
    rw [List.pairwise_filterMap]
    refine pairwise_splitMergedRegion.imp_of_mem fun hf hg hdisjoint a ha b hb x y hax hbx => ?_
    obtain ⟨r, c, hhit, hcell⟩ := (hiff _ hf x y 0).1 ⟨a, ha, hax⟩
    obtain ⟨r', c', hhit', hcell'⟩ := (hiff _ hg x y 0).1 ⟨b, hb, hbx⟩
    cases hhit.symm.trans hhit'
    exact hdisjoint r c hcell hcell'
  · constructor
    · rintro ⟨a, ha, hax⟩
      obtain ⟨f, hf, ha⟩ := List.mem_filterMap.1 ha
      obtain ⟨r, c, hhit, hcell⟩ := (hiff f hf x y w).1 ⟨a, ha, hax⟩
      exact ⟨r, c, hhit, mem_splitMergedRegion.1 ⟨f, hf, hcell⟩⟩
    · rintro ⟨r, c, hhit, hcell⟩
      obtain ⟨f, hf, hcell⟩ := mem_splitMergedRegion.2 hcell
      obtain ⟨a, ha, hax⟩ := (hiff f hf x y w).2 ⟨r, c, hhit, hcell⟩
      exact ⟨a, List.mem_filterMap.2 ⟨f, hf, ha⟩, hax⟩
  · -- Two fragments that begin where the region does would share its first cell.
    rw [List.pairwise_filterMap]
    refine pairwise_splitMergedRegion.imp_of_mem fun {f g} hf hg hdisjoint a ha b hb => ?_
    by_contra hboth
    simp only [not_or, Bool.not_eq_true] at hboth
    obtain ⟨hrow, hcolumn⟩ := (clipFragment_pos ha).2.2.2.1 hboth.1
    obtain ⟨hrow', hcolumn'⟩ := (clipFragment_pos hb).2.2.2.1 hboth.2
    obtain ⟨hrlt, hclt⟩ := (hfragments f hf).proper
    obtain ⟨hrlt', hclt'⟩ := (hfragments g hg).proper
    refine hdisjoint region.rowStart region.columnStart ?_ ?_ <;>
      rw [GridRange.rangeContains_iff] <;> omega
  · constructor
    · rintro ⟨a, ha, hfirst, hax⟩
      obtain ⟨f, hf, ha⟩ := List.mem_filterMap.1 ha
      obtain ⟨r, c, hhit, hcell⟩ := (hiff f hf x y w).1 ⟨a, ha, hax⟩
      exact ⟨r, c, hhit, mem_splitMergedRegion.1 ⟨f, hf, hcell⟩,
        (begins_iff (hfragments f hf) hcell).1 ((clipFragment_pos ha).2.2.2.1 hfirst)⟩
    · rintro ⟨r, c, hhit, hcell, hpane⟩
      obtain ⟨f, hf, hcell⟩ := mem_splitMergedRegion.2 hcell
      obtain ⟨a, ha, hax⟩ := (hiff f hf x y w).2 ⟨r, c, hhit, hcell⟩
      exact ⟨a, List.mem_filterMap.2 ⟨f, hf, ha⟩,
        (clipFragment_pos ha).2.2.2.2 ((begins_iff (hfragments f hf) hcell).2 hpane), hax⟩

end Regions

/-- Painting the merged regions of a created layout never fails. What is painted for a region are
    disjoint parts that cover the points at which one of its cells is hit, and the one part that is
    not a continuation is what is in the pane of the first cell. If the regions are disjoint, then
    whatever is painted for one covers only cells of that region. -/
theorem paintMergedCells_exact (metadata : TableMetadata) (columnWidths : List ℚ)
    (viewport : ViewportUpdate) (options : LayoutOptions) (l : TableLayout)
    (hlayout : createTableLayout metadata columnWidths viewport options = .ok l)
    (getCell : ℕ → ℕ → CellLoadState) (styleAt : ℕ → ℕ → Option Style)
    (regions : List MergedCellRegion) (hinside : ∀ region ∈ regions, l.Inside region) :
    ∃ painted : MergedCellRegion → List (CanvasPaintMergedCell Style),
      paintMergedCells l getCell styleAt regions = .ok (regions.flatMap painted) ∧
      (∀ region ∈ regions, Paints l region (painted region)) ∧
      (regions.Pairwise (fun a b => ¬a.rangesIntersect b) →
        ∀ region ∈ regions, ∀ cell ∈ painted region, ∀ x y w r c,
          cell.toPixelRect.Contains x y → hitTest l x y w = .cell r c →
            region.rangeContains r c ∧
              ∀ other ∈ regions, other.rangeContains r c → other = region) := by
  have h := (createTableLayout_created hlayout).wellFormed
  refine ⟨fun region => (splitMergedRegion region l.frozenRowCount l.frozenColumnCount).filterMap
    (paintedFragment l region (getCell region.rowStart region.columnStart)
      (styleAt region.rowStart region.columnStart)), ?_, fun region hregion =>
        h.paints (hinside region hregion) _ _, ?_⟩
  · refine Result.bind_eq_ok.2 ⟨_, Result.mapM_eq_ok fun region hregion => ?_, rfl⟩
    refine Result.bind_eq_ok.2 ⟨_, Result.mapM_eq_ok fun fragment hfragment =>
      paintFragment_eq_ok (hinside region hregion)
        (fragment_of_mem (hinside region hregion).proper hfragment), ?_⟩
    rw [List.reduceOption, List.filterMap_map]
    rfl
  · intro hdisjoint region hregion cell hcell x y w r c hcontains hhit
    obtain ⟨r', c', hhit', hin⟩ :=
      ((h.paints (hinside region hregion) _ _).union x y w).1 ⟨cell, hcell, hcontains⟩
    cases hhit.symm.trans hhit'
    refine ⟨hin, fun other hother hin' => by_contra fun hne => ?_⟩
    have hsymm : Std.Symm fun a b : MergedCellRegion => ¬a.rangesIntersect b := ⟨fun a b hab => by
      rw [GridRange.rangesIntersect_iff] at *
      omega⟩
    refine hdisjoint.forall hother hregion hne ?_
    rw [GridRange.rangesIntersect_iff]
    rw [GridRange.rangeContains_iff] at hin hin'
    omega

/-- A region of the two first rows and columns of a table the first column of which is frozen. -/
theorem paintMergedCells_exact_straddling :
    ∃ l, createTableLayout threeColumns [100, 100, 100] ⟨214, 100, 50, 0, none⟩
        { frozenColumns := 1 } = .ok l ∧
      ∃ painted : MergedCellRegion → List (CanvasPaintMergedCell ℕ),
        paintMergedCells l (fun _ _ => .loading) (fun _ _ => none) [⟨0, 2, 0, 2⟩] =
          .ok ([⟨0, 2, 0, 2⟩].flatMap painted) ∧
        Paints l ⟨0, 2, 0, 2⟩ (painted ⟨0, 2, 0, 2⟩) := by
  obtain ⟨l, hl, -, -, -, -, hcount, -⟩ := exists_layout_threeColumns 214 (by norm_num)
  have hrows : l.rowCount = 10 := (createTableLayout_created hl).rowCount_eq
  have hinside : ∀ region ∈ [(⟨0, 2, 0, 2⟩ : MergedCellRegion)], l.Inside region := by
    intro region hregion
    obtain rfl := List.mem_singleton.1 hregion
    exact ⟨⟨by decide, by decide⟩, by rw [hrows]; decide, by rw [hcount]; decide, by decide⟩
  obtain ⟨painted, hpaint, hpaints, -⟩ := paintMergedCells_exact threeColumns [100, 100, 100]
    ⟨214, 100, 50, 0, none⟩ { frozenColumns := 1 } l hl (fun _ _ => .loading)
    (fun _ _ => (none : Option ℕ)) [⟨0, 2, 0, 2⟩] hinside
  exact ⟨l, hl, painted, hpaint, hpaints _ List.mem_cons_self⟩

end Tabulark.View
