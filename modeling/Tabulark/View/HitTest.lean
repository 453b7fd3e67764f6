import Tabulark.View.LayoutExact

/-!
# Hit testing and drawing

A cell that is hit is the one drawn on top at the point, and where nothing is hit
nothing is drawn. Resize handles are another matter: their search takes all
columns for scrolled ones, and stops at a boundary without asking whether the
column before it is hidden. `hitTest_agrees_iff` says for which points the
handle that is hit is that of a column as it is drawn.
-/

namespace Tabulark.View

open Bisect Strips

/-! ## What is drawn -/

/-- A point is in a rectangle, without its right and its lower edge. -/
def PixelRect.Contains (rect : PixelRect) (x y : ℚ) : Prop :=
  (rect.x ≤ x ∧ x < rect.x + rect.width) ∧ rect.y ≤ y ∧ y < rect.y + rect.height

/-- A cell is drawn over another: frozen cells are drawn over scrolled ones. -/
def DrawnOver (l : TableLayout) (r c r' c' : ℕ) : Prop :=
  (r' < l.frozenRowCount → r < l.frozenRowCount) ∧
    (c' < l.frozenColumnCount → c < l.frozenColumnCount) ∧
      (r < l.frozenRowCount ∧ l.frozenRowCount ≤ r' ∨
        c < l.frozenColumnCount ∧ l.frozenColumnCount ≤ c')

/-- A cell is drawn at a point, over all others that are. -/
def TopmostCell (l : TableLayout) (x y : ℚ) (r c : ℕ) : Prop :=
  (cellRect l r c).Contains x y ∧ ∀ r' c', (cellRect l r' c').Contains x y →
    (r' = r ∧ c' = c) ∨ DrawnOver l r c r' c'

/-- Neither a cell nor a header is drawn at a point. -/
def Blank (l : TableLayout) (x y : ℚ) : Prop :=
  (∀ r c, ¬(cellRect l r c).Contains x y) ∧ (∀ c, ¬(columnHeaderRect l c).Contains x y) ∧
    ∀ r, ¬(rowHeaderRect l r).Contains x y

/-- A boundary is the right edge of a column as it is drawn: the column has a width, the edge is
    close enough to the point, and no frozen column is drawn over that of a scrolled one. -/
structure DrawnEdge (l : TableLayout) (x handleWidth : ℚ) (c : ℕ) (boundaryX : ℚ) : Prop where
  width_pos : 0 < (columnHeaderRect l c).width
  edge_eq : (columnHeaderRect l c).x + (columnHeaderRect l c).width = boundaryX
  near : |x - boundaryX| ≤ max 0 handleWidth
  not_covered : l.frozenColumnCount ≤ c → ∀ k < l.frozenColumnCount,
    ¬((columnHeaderRect l k).x ≤ boundaryX ∧
      boundaryX < (columnHeaderRect l k).x + (columnHeaderRect l k).width)

/-- What is hit is what is drawn. -/
def HitAgrees (l : TableLayout) (x y handleWidth : ℚ) : Prop :=
  match hitTest l x y handleWidth with
  | .cell r c => TopmostCell l x y r c
  | .outside => Blank l x y
  | .columnResize c boundaryX => DrawnEdge l x handleWidth c boundaryX
  | _ => True

namespace TableLayout.WellFormed

variable {l : TableLayout} (h : l.WellFormed) {x y handleWidth : ℚ} {r c : ℕ}

theorem columnOffset_eq (hc : c ≤ l.columnCount) :
    (columnOffsets l.effectiveColumnWidths).getD c 0 = offset h.columnPanes.size c :=
  getD_columnOffsets (h.widths_length.symm ▸ hc)

include h

theorem columnSize_eq_zero (hc : l.columnCount ≤ c) : l.effectiveColumnWidths.getD c 0 = 0 := by
  rw [List.getD_eq_getElem?_getD, List.getElem?_eq_none (h.widths_length.symm ▸ hc)]
  rfl

/-- The columns that are drawn over a point. -/
theorem over_column_iff : h.columnPanes.Over c (x - l.rowHeaderWidth) ↔
    l.rowHeaderWidth + (columnOffsets l.effectiveColumnWidths).getD c 0 -
        (if c < l.frozenColumnCount then 0 else l.horizontal.logicalOffset) ≤ x ∧
      x < l.rowHeaderWidth + (columnOffsets l.effectiveColumnWidths).getD c 0 -
        (if c < l.frozenColumnCount then 0 else l.horizontal.logicalOffset) +
          l.effectiveColumnWidths.getD c 0 := by
  rcases le_or_gt c l.columnCount with hc | hc
  · have hshown : h.columnPanes.shown c = (columnOffsets l.effectiveColumnWidths).getD c 0 -
        if c < l.frozenColumnCount then 0 else l.horizontal.logicalOffset := by
      rw [h.columnOffset_eq hc]
      rfl
    rw [Panes.Over, hshown, le_sub_iff_add_le, sub_lt_iff_lt_add]
    have hsize : h.columnPanes.size c = l.effectiveColumnWidths.getD c 0 := rfl
    rw [hsize]
    constructor <;> rintro ⟨hle, hlt⟩ <;> exact ⟨by linarith, by linarith⟩
  · have hzero := h.columnSize_eq_zero hc.le
    have hsize : h.columnPanes.size c = 0 := hzero
    rw [Panes.Over, hsize, hzero]
    constructor <;> rintro ⟨hle, hlt⟩ <;> linarith

/-- The rows that are drawn over a point. -/
theorem over_row_iff : h.rowPanes.Over r (y - l.headerHeight) ↔
    l.headerHeight + axisPosition l.rowGeometry r -
        (if r < l.frozenRowCount then 0 else l.vertical.logicalOffset) ≤ y ∧
      y < l.headerHeight + axisPosition l.rowGeometry r -
        (if r < l.frozenRowCount then 0 else l.vertical.logicalOffset) +
          axisSize l.rowGeometry r := by
  have hshown : h.rowPanes.shown r = axisPosition l.rowGeometry r -
      if r < l.frozenRowCount then 0 else l.vertical.logicalOffset := by
    rw [h.geometry.axisPosition_eq]
    rfl
  have hsize : h.rowPanes.size r = axisSize l.rowGeometry r := rfl
  rw [Panes.Over, hshown, hsize, le_sub_iff_add_le, sub_lt_iff_lt_add]
  constructor <;> rintro ⟨hle, hlt⟩ <;> exact ⟨by linarith, by linarith⟩

/-- A cell is drawn where its column and its row are. -/
theorem contains_cellRect : (cellRect l r c).Contains x y ↔
    h.columnPanes.Over c (x - l.rowHeaderWidth) ∧ h.rowPanes.Over r (y - l.headerHeight) := by
  rw [h.over_column_iff, h.over_row_iff]
  exact Iff.rfl

omit h in
/-- A strip on top is one that is drawn, and any other that is drawn lies beneath it. -/
theorem topmost_or {p : Panes ℚ} {i j : ℕ} {b : ℚ} (hb : 0 ≤ b) (hi : p.Topmost i b)
    (hj : p.Over j b) : j = i ∨ i < p.frozen ∧ p.frozen ≤ j := by
  by_cases hfrozen : i < p.frozen → j < p.frozen
  · exact .inl (Panes.Topmost.unique hb ⟨hj, fun k hk hkf => hfrozen (hi.2 k hk hkf)⟩ hi)
  · exact .inr ⟨by_contra fun hn => hfrozen fun hlt => absurd hlt hn,
      not_lt.1 fun hlt => hfrozen fun _ => hlt⟩

/-- The cell of the column and the row on top is on top. -/
theorem topmostCell (hx : l.rowHeaderWidth ≤ x) (hy : l.headerHeight ≤ y)
    (hc : h.columnPanes.Topmost c (x - l.rowHeaderWidth))
    (hr : h.rowPanes.Topmost r (y - l.headerHeight)) : TopmostCell l x y r c := by
  refine ⟨h.contains_cellRect.2 ⟨hc.1, hr.1⟩, fun r' c' hcontains => ?_⟩
  obtain ⟨hc', hr'⟩ := h.contains_cellRect.1 hcontains
  have hframe : (r' < l.frozenRowCount → r < l.frozenRowCount) ∧
      (c' < l.frozenColumnCount → c < l.frozenColumnCount) := ⟨hr.2 r' hr', hc.2 c' hc'⟩
  rcases topmost_or (sub_nonneg.2 hy) hr hr' with rfl | hrows
  · rcases topmost_or (sub_nonneg.2 hx) hc hc' with rfl | hcolumns
    · exact .inl ⟨rfl, rfl⟩
    · exact .inr ⟨hframe.1, hframe.2, .inr hcolumns⟩
  · exact .inr ⟨hframe.1, hframe.2, .inl hrows⟩

/-! ### Blank points -/

/-- The columns whose headers are drawn over a point. -/
theorem over_of_columnHeaderRect (hcontains : (columnHeaderRect l c).Contains x y) :
    h.columnPanes.Over c (x - l.rowHeaderWidth) ∧ y < l.headerHeight :=
  ⟨h.over_column_iff.2 hcontains.1, (zero_add l.headerHeight) ▸ hcontains.2.2⟩

theorem over_of_rowHeaderRect (hcontains : (rowHeaderRect l r).Contains x y) :
    h.rowPanes.Over r (y - l.headerHeight) ∧ x < l.rowHeaderWidth :=
  ⟨h.over_row_iff.2 hcontains.2, (zero_add l.rowHeaderWidth) ▸ hcontains.1.2⟩

/-- Nothing is drawn where no column is. -/
theorem blank_of_column (hx : l.rowHeaderWidth ≤ x)
    (hnone : ∀ c, ¬h.columnPanes.Over c (x - l.rowHeaderWidth)) : Blank l x y :=
  ⟨fun _ c hcell => hnone c (h.contains_cellRect.1 hcell).1,
    fun c hheader => hnone c (h.over_of_columnHeaderRect hheader).1,
    fun _ hheader => absurd (h.over_of_rowHeaderRect hheader).2 (not_lt.2 hx)⟩

/-- Nothing is drawn where no row is. -/
theorem blank_of_row (hy : l.headerHeight ≤ y)
    (hnone : ∀ r, ¬h.rowPanes.Over r (y - l.headerHeight)) : Blank l x y :=
  ⟨fun r _ hcell => hnone r (h.contains_cellRect.1 hcell).2,
    fun _ hheader => absurd (h.over_of_columnHeaderRect hheader).2 (not_lt.2 hy),
    fun r hheader => hnone r (h.over_of_rowHeaderRect hheader).1⟩

end TableLayout.WellFormed

/-! ## Resize handles -/

/-- The logical offset of a point of the header. -/
def logicalX (l : TableLayout) (x : ℚ) : ℚ := x - l.rowHeaderWidth + l.horizontal.logicalOffset

/-- The logical offset at which a column begins. -/
def columnStart (l : TableLayout) (c : ℕ) : ℚ := offset (columnSize l.effectiveColumnWidths) c

/-- The edge of a column, taken for a scrolled one, is the one that a point is close to: the
    point is in the column, or else right of it, and not close to the edge of the next one. -/
def Reached (l : TableLayout) (x handleWidth : ℚ) (c : ℕ) : Prop :=
  c < l.columnCount ∧
    (columnStart l c < logicalX l x ∧ logicalX l x ≤ columnStart l (c + 1) ∧
        columnStart l (c + 1) - logicalX l x ≤ max 0 handleWidth ∨
      columnStart l (c + 1) < logicalX l x ∧
        logicalX l x - columnStart l (c + 1) ≤ max 0 handleWidth ∧
        (c + 1 < l.columnCount → max 0 handleWidth < columnStart l (c + 2) - logicalX l x))

/-- A column is drawn with its edge: it is not hidden; if it is frozen, the table is not scrolled;
    and if it is not, its scrolled edge is not beneath the frozen columns. -/
def EdgeShown (l : TableLayout) (c : ℕ) : Prop :=
  0 < columnSize l.effectiveColumnWidths c ∧
    (c < l.frozenColumnCount → l.horizontal.logicalOffset = 0) ∧
      (l.frozenColumnCount ≤ c → ¬(l.horizontal.logicalOffset ≤ columnStart l (c + 1) ∧
        columnStart l (c + 1) - l.horizontal.logicalOffset < l.frozenColumnExtent))

namespace TableLayout.WellFormed

variable {l : TableLayout} (h : l.WellFormed) {x y handleWidth : ℚ} {r c : ℕ}
include h

theorem length_offsets : (columnOffsets l.effectiveColumnWidths).length = l.columnCount + 1 := by
  rw [length_columnOffsets, h.widths_length]

theorem getD_offsets (hc : c ≤ l.columnCount) :
    (columnOffsets l.effectiveColumnWidths).getD c 0 = columnStart l c :=
  getD_columnOffsets (h.widths_length.symm ▸ hc)

/-- The search among the boundaries finds the first that is not left of the point. -/
theorem lt_lowerBound_iff (hc : c ≤ l.columnCount) (target : ℚ) :
    c < lowerBound (columnOffsets l.effectiveColumnWidths) target ↔ columnStart l c < target :=
  View.lt_lowerBound_iff h.widths_nonneg (h.widths_length.symm ▸ hc)

theorem lowerBound_le (target : ℚ) :
    lowerBound (columnOffsets l.effectiveColumnWidths) target ≤ l.columnCount + 1 :=
  (lowerBoundBy_le (sorted_columnOffsets h.widths_nonneg)).trans h.length_offsets.le

omit h in
/-- Where a boundary is on the screen, if all columns are taken for scrolled ones. -/
theorem sub_boundary (b : ℕ) : x - (l.rowHeaderWidth + columnStart l b -
    l.horizontal.logicalOffset) = logicalX l x - columnStart l b := by
  rw [logicalX]
  ring

/-- A boundary has a handle if the point is close enough to it. -/
theorem resizeHandleAt_eq_some {result : HitTestResult} {b : ℕ} :
    resizeHandleAt l x handleWidth b = some result ↔ b ≠ 0 ∧ b ≤ l.columnCount ∧
      |logicalX l x - columnStart l b| ≤ handleWidth ∧ .columnResize (b - 1)
        (l.rowHeaderWidth + columnStart l b - l.horizontal.logicalOffset) = result := by
  rw [resizeHandleAt, h.length_offsets]
  split_ifs with hout
  · exact ⟨fun hnone => (by cases hnone), fun hin => by omega⟩
  · have hle : b ≤ l.columnCount := by omega
    rw [h.getD_offsets hle]
    dsimp only
    rw [sub_boundary]
    split_ifs with hnear
    · exact ⟨fun hsome => ⟨by omega, hle, hnear, Option.some_inj.1 hsome⟩,
        fun hin => congrArg some hin.2.2.2⟩
    · exact ⟨fun hnone => (by cases hnone), fun hin => absurd hin.2.2.1 hnear⟩

/-- The handle that the search finds. -/
def handleAt (l : TableLayout) (x handleWidth : ℚ) : Option HitTestResult :=
  let nextBoundary := lowerBound (columnOffsets l.effectiveColumnWidths) (logicalX l x)
  [nextBoundary, nextBoundary - 1].findSome? (resizeHandleAt l x (max 0 handleWidth))

/-- A handle that is found is that of a column whose edge is reached. -/
theorem reached_of_handleAt {result : HitTestResult}
    (hresult : handleAt l x handleWidth = some result) : ∃ c, Reached l x handleWidth c ∧
      .columnResize c (l.rowHeaderWidth + columnStart l (c + 1) - l.horizontal.logicalOffset) =
        result := by
  have hsearch := fun c (hc : c ≤ l.columnCount) => h.lt_lowerBound_iff hc (logicalX l x)
  rw [handleAt] at hresult
  generalize lowerBound (columnOffsets l.effectiveColumnWidths) (logicalX l x) = next at *
  rw [List.findSome?_cons] at hresult
  split at hresult
  · -- The boundary right of the point is that of the column that the point is in.
    rename_i found hfound
    cases hresult
    obtain ⟨hzero, hle, hnear, hresult⟩ := h.resizeHandleAt_eq_some.1 hfound
    obtain ⟨c, rfl⟩ := Nat.exists_eq_succ_of_ne_zero hzero
    have hleft := (hsearch c (by omega)).1 c.lt_succ_self
    have hright := not_lt.1 (mt (hsearch (c + 1) hle).2 (lt_irrefl _))
    refine ⟨c, ⟨hle, .inl ⟨hleft, hright, ?_⟩⟩, hresult⟩
    rw [abs_sub_comm] at hnear
    exact (le_abs_self _).trans hnear
  · rename_i hnone
    rw [List.findSome?_cons, List.findSome?_nil] at hresult
    split at hresult
    · -- The boundary left of the point is that of the last column to end before it.
      rename_i found hfound
      cases hresult
      obtain ⟨hzero, hle, hnear, hresult⟩ := h.resizeHandleAt_eq_some.1 hfound
      obtain ⟨c, hc⟩ := Nat.exists_eq_succ_of_ne_zero hzero
      obtain rfl : next = c + 2 := by omega
      have hleft := (hsearch (c + 1) (by omega)).1 (by omega)
      refine ⟨c, ⟨by omega, .inr ⟨hleft, (le_abs_self _).trans hnear, fun hlt => ?_⟩⟩, hresult⟩
      have hright := not_lt.1 (mt (hsearch (c + 2) hlt).2 (lt_irrefl _))
      by_contra hfar
      refine absurd (h.resizeHandleAt_eq_some.2 ⟨by omega, hlt, ?_, rfl⟩) (by rw [hnone]; simp)
      rw [abs_sub_comm, abs_of_nonneg (sub_nonneg.2 hright)]
      exact not_lt.1 hfar
    · exact nomatch hresult

/-- A column whose edge is reached has the handle that is found. -/
theorem handleAt_of_reached (hreached : Reached l x handleWidth c) :
    handleAt l x handleWidth = some (.columnResize c
      (l.rowHeaderWidth + columnStart l (c + 1) - l.horizontal.logicalOffset)) := by
  have hsearch := fun c (hc : c ≤ l.columnCount) => h.lt_lowerBound_iff hc (logicalX l x)
  have hbound := h.lowerBound_le (logicalX l x)
  rw [handleAt]
  generalize lowerBound (columnOffsets l.effectiveColumnWidths) (logicalX l x) = next at *
  obtain ⟨hc, ⟨hleft, hright, hnear⟩ | ⟨hleft, hnear, hfar⟩⟩ := hreached
  · have hlt := (hsearch c hc.le).2 hleft
    have hge := mt (hsearch (c + 1) hc).1 (not_lt.2 hright)
    obtain rfl : next = c + 1 := by omega
    have hfound : resizeHandleAt l x (max 0 handleWidth) (c + 1) = some (.columnResize c
        (l.rowHeaderWidth + columnStart l (c + 1) - l.horizontal.logicalOffset)) := by
      refine h.resizeHandleAt_eq_some.2 ⟨by omega, hc, ?_, rfl⟩
      rw [abs_sub_comm, abs_of_nonneg (sub_nonneg.2 hright)]
      exact hnear
    rw [List.findSome?_cons, hfound]
  · have hlt := (hsearch (c + 1) hc).2 hleft
    have hnext : next = c + 2 := by
      by_cases hlast : c + 1 < l.columnCount
      · have hright : logicalX l x ≤ columnStart l (c + 2) := by
          have hpos := (le_max_left 0 handleWidth).trans_lt (hfar hlast)
          exact (sub_pos.1 hpos).le
        have hge := mt (hsearch (c + 2) hlast).1 (not_lt.2 hright)
        omega
      · omega
    subst hnext
    have hnone : resizeHandleAt l x (max 0 handleWidth) (c + 2) = none := by
      refine Option.eq_none_iff_forall_ne_some.2 fun result hresult => ?_
      obtain ⟨-, hle, hnear', -⟩ := h.resizeHandleAt_eq_some.1 hresult
      rw [abs_sub_comm] at hnear'
      exact absurd ((le_abs_self _).trans hnear') (not_le.2 (hfar hle))
    have hfound : resizeHandleAt l x (max 0 handleWidth) (c + 1) = some (.columnResize c
        (l.rowHeaderWidth + columnStart l (c + 1) - l.horizontal.logicalOffset)) := by
      refine h.resizeHandleAt_eq_some.2 ⟨by omega, hc, ?_, rfl⟩
      rw [abs_of_nonneg (sub_nonneg.2 hleft.le)]
      exact hnear
    rw [List.findSome?_cons, hnone]
    dsimp only
    rw [List.findSome?_cons, show c + 2 - 1 = c + 1 from rfl, hfound]

omit h in
theorem near_of_reached (hreached : Reached l x handleWidth c) :
    |x - (l.rowHeaderWidth + columnStart l (c + 1) - l.horizontal.logicalOffset)| ≤
      max 0 handleWidth := by
  rw [sub_boundary]
  obtain ⟨-, ⟨-, hright, hnear⟩ | ⟨hleft, hnear, -⟩⟩ := hreached
  · rw [abs_sub_comm, abs_of_nonneg (sub_nonneg.2 hright)]
    exact hnear
  · rw [abs_of_nonneg (sub_nonneg.2 hleft.le)]
    exact hnear

/-- A frozen column is drawn over a boundary if that lies within the frozen extent. -/
theorem covered_iff (edge : ℚ) :
    (∃ k < l.frozenColumnCount, (columnHeaderRect l k).x ≤ l.rowHeaderWidth + edge ∧
      l.rowHeaderWidth + edge < (columnHeaderRect l k).x + (columnHeaderRect l k).width) ↔
      0 ≤ edge ∧ edge < l.frozenColumnExtent := by
  have hover : ∀ k < l.frozenColumnCount, ((columnHeaderRect l k).x ≤ l.rowHeaderWidth + edge ∧
      l.rowHeaderWidth + edge < (columnHeaderRect l k).x + (columnHeaderRect l k).width) ↔
        Covers h.columnPanes.size k edge := fun k hk => by
    have hcolumn := @over_column_iff l h (l.rowHeaderWidth + edge) k
    rw [add_sub_cancel_left, Panes.over_of_lt hk] at hcolumn
    exact hcolumn.symm
  rw [← h.extent_columnPanes]
  constructor
  · rintro ⟨k, hk, hcontains⟩
    have hcovers := (hover k hk).1 hcontains
    exact ⟨hcovers.nonneg h.columnPanes.size_nonneg,
      hcovers.lt_offset h.columnPanes.size_nonneg hk⟩
  · rintro ⟨hzero, hlt⟩
    obtain ⟨k, hk, hcovers⟩ := exists_covers hzero hlt
    exact ⟨k, hk, (hover k hk).2 hcovers⟩

/-- The edge of a column that is reached is drawn there if the column is drawn with its edge. -/
theorem drawnEdge_iff (hreached : Reached l x handleWidth c) :
    DrawnEdge l x handleWidth c
      (l.rowHeaderWidth + columnStart l (c + 1) - l.horizontal.logicalOffset) ↔
        EdgeShown l c := by
  have hcovered := h.covered_iff (columnStart l (c + 1) - l.horizontal.logicalOffset)
  rw [sub_nonneg, ← add_sub_assoc] at hcovered
  have hedge : (columnHeaderRect l c).x + (columnHeaderRect l c).width =
      l.rowHeaderWidth + columnStart l (c + 1) -
        if c < l.frozenColumnCount then 0 else l.horizontal.logicalOffset := by
    have hstop : columnStart l (c + 1) = columnStart l c + columnSize l.effectiveColumnWidths c :=
      offset_succ _ _
    rw [hstop, ← h.getD_offsets hreached.1.le, columnHeaderRect, columnSize]
    ring
  constructor
  · intro hdrawn
    refine ⟨hdrawn.width_pos, fun hfrozen => ?_, fun hscrolled hcon => ?_⟩
    · have heq := hedge.symm.trans hdrawn.edge_eq
      rw [if_pos hfrozen] at heq
      linarith
    · obtain ⟨k, hk, hcontains⟩ := hcovered.2 hcon
      exact hdrawn.not_covered hscrolled k hk hcontains
  · rintro ⟨hpos, hfrozen, hscrolled⟩
    refine ⟨hpos, hedge.trans ?_, near_of_reached hreached, fun hle k hk hcontains =>
      hscrolled hle (hcovered.1 ⟨k, hk, hcontains⟩)⟩
    split_ifs with hlt
    · rw [hfrozen hlt]
    · rfl

/-- The resize handles aside, what is hit is always what is drawn. -/
theorem hitAgrees_iff (hx : 0 ≤ x) (hy : 0 ≤ y) (hwidth : x < l.width) (hheight : y < l.height) :
    HitAgrees l x y handleWidth ↔ (l.rowHeaderWidth ≤ x → y < l.headerHeight →
      ∀ c, Reached l x handleWidth c → EdgeShown l c) := by
  rw [HitAgrees, hitTest, if_neg (by simp only [not_or, not_lt, not_le]; exact ⟨hx, hy, hwidth,
    hheight⟩)]
  by_cases hbelow : y < l.headerHeight
  · by_cases hbeside : x < l.rowHeaderWidth
    · rw [if_pos ⟨hbeside, hbelow⟩]
      exact iff_of_true trivial fun hle => absurd hbeside (not_lt.2 hle)
    rw [if_neg fun hcorner => hbeside hcorner.1, if_pos hbelow]
    have hle := not_lt.1 hbeside
    dsimp only
    obtain ⟨found, hhandle⟩ : ∃ found, handleAt l x handleWidth = found := ⟨_, rfl⟩
    have hsearch := hhandle
    dsimp only [handleAt, logicalX] at hsearch
    rw [hsearch]
    cases found with
    | some handle =>
      obtain ⟨c, hreached, rfl⟩ := h.reached_of_handleAt hhandle
      refine (h.drawnEdge_iff hreached).trans ⟨fun hshown _ _ d hd => ?_, fun hall =>
        hall hle hbelow c hreached⟩
      have hsame := hhandle.symm.trans (h.handleAt_of_reached hd)
      injection hsame with hsame
      injection hsame with hcd
      exact hcd ▸ hshown
    | none =>
      have hnone : ∀ d, ¬Reached l x handleWidth d := fun d hd =>
        absurd (hhandle.symm.trans (h.handleAt_of_reached hd)) (Option.some_ne_none _).symm
      refine iff_of_true ?_ fun _ _ d hd => absurd hd (hnone d)
      cases hcolumn : columnAtViewportX l x with
      | none => exact h.blank_of_column hle fun c =>
        h.not_over_of_columnAtViewportX hle hwidth hcolumn c
      | some c => trivial
  · rw [if_neg fun hcorner => hbelow hcorner.2, if_neg hbelow]
    have hle := not_lt.1 hbelow
    refine iff_of_true ?_ fun _ hlt => absurd hlt hbelow
    cases hrow : rowAtViewportY l y with
    | none => exact h.blank_of_row hle fun r => h.not_over_of_rowAtViewportY hle hheight hrow r
    | some r =>
      dsimp only
      split_ifs with hbeside
      · trivial
      cases hcolumn : columnAtViewportX l x with
      | none =>
        have hle := not_lt.1 hbeside
        exact h.blank_of_column hle fun c => h.not_over_of_columnAtViewportX hle hwidth hcolumn c
      | some c =>
        obtain ⟨hle', htop⟩ := (h.columnAtViewportX_eq_some hwidth).1 hcolumn
        exact h.topmostCell hle' hle htop ((h.rowAtViewportY_eq_some hle hheight).1 hrow)

end TableLayout.WellFormed

/-- What is hit at a point of a created layout is what is drawn there exactly if no column whose
    edge is reached is hidden, or is frozen in a scrolled table, or has its scrolled edge beneath
    the frozen columns. -/
theorem hitTest_agrees_iff (metadata : TableMetadata) (columnWidths : List ℚ)
    (viewport : ViewportUpdate) (options : LayoutOptions) (l : TableLayout)
    (hlayout : createTableLayout metadata columnWidths viewport options = .ok l)
    (x y resizeHandleWidth : ℚ) (hx : 0 ≤ x) (hy : 0 ≤ y) (hwidth : x < l.width)
    (hheight : y < l.height) :
    HitAgrees l x y resizeHandleWidth ↔ (l.rowHeaderWidth ≤ x → y < l.headerHeight →
      ∀ c, Reached l x resizeHandleWidth c → EdgeShown l c) :=
  (createTableLayout_created hlayout).wellFormed.hitAgrees_iff hx hy hwidth hheight

/-! ## A frozen column in a scrolled table -/

/-- A table of three columns and ten rows. -/
def threeColumns : TableMetadata where
  tableId := "table"
  name := "table"
  revision := 0
  extent := ⟨.exact 10, .exact 3⟩
  schema := ⟨0, [⟨"a", [], 0, .utf8, true⟩, ⟨"b", [], 1, .utf8, true⟩, ⟨"c", [], 2, .utf8, true⟩],
    Nat.zero_le _, rfl⟩
  capabilities := .delimited .full

/-- The first column is frozen, and the others are scrolled by half a column. -/
theorem exists_layout_threeColumns (width : ℚ) (h : 64 ≤ width ∧ width ≤ 314) :
    ∃ l, createTableLayout threeColumns [100, 100, 100] ⟨width, 100, 50, 0, none⟩
        { frozenColumns := 1 } = .ok l ∧
      l.width = width ∧ l.height = 100 ∧ l.rowHeaderWidth = 64 ∧ l.headerHeight = 36 ∧
      l.columnCount = 3 ∧ l.frozenColumnCount = 1 ∧ l.effectiveColumnWidths = [100, 100, 100] ∧
      l.horizontal.logicalOffset = 50 := by
  have hvalid : LayoutValid threeColumns [100, 100, 100] ⟨width, 100, 50, 0, none⟩
      { frozenColumns := 1 } := by
    refine ⟨?_, ?_, ?_, ?_, by decide, by decide, by dsimp only; linarith [h.1], ?_, ?_, rfl, ?_,
      .inl rfl, by decide, by decide, by decide⟩ <;> norm_num
  obtain ⟨l, hl⟩ := hvalid.exists_layout
  have hcreated := createTableLayout_created hl
  have hcount : l.columnCount = 3 := hcreated.columnCount_eq
  have hwidths : l.effectiveColumnWidths = [100, 100, 100] := by
    rw [hcreated.widths_eq]
    rfl
  have hbody : l.bodyWidth = width - 64 := by
    rw [hcreated.bodyWidth_eq, hcreated.width_eq, hcreated.rowHeaderWidth_eq]
    exact max_eq_right (sub_nonneg.2 h.1)
  have hcontent : (columnOffsets l.effectiveColumnWidths).getD l.columnCount 0 = 300 := by
    rw [hwidths, hcount]
    norm_num [columnOffsets]
  have hhorizontal := hcreated.horizontal
  rw [hcontent, hbody] at hhorizontal
  refine ⟨l, hl, hcreated.width_eq, hcreated.height_eq, hcreated.rowHeaderWidth_eq,
    hcreated.headerHeight_eq, hcount, ?_, hwidths, ?_⟩
  · rw [hcreated.frozenColumnCount_eq, hcount]
    rfl
  · rw [logicalOffset_of_le_limit hhorizontal (by norm_num)]
    exact clampFinite_of_mem ⟨by norm_num, le_max_of_le_right (by linarith [h.2])⟩

/-- The handle of the frozen column is found where it would be if it were scrolled. -/
theorem hitTest_disagrees :
    ∃ l, createTableLayout threeColumns [100, 100, 100] ⟨214, 100, 50, 0, none⟩
        { frozenColumns := 1 } = .ok l ∧
      ∃ x y w : ℚ, 0 ≤ x ∧ 0 ≤ y ∧ x < l.width ∧ y < l.height ∧ ¬HitAgrees l x y w := by
  obtain ⟨l, hl, hwidth, hheight, hrowHeader, hheader, hcount, hfrozen, hwidths, hoffset⟩ :=
    exists_layout_threeColumns 214 (by norm_num)
  refine ⟨l, hl, 114, 10, 6, by norm_num, by norm_num, by rw [hwidth]; norm_num,
    by rw [hheight]; norm_num, fun hagrees => ?_⟩
  have hshown := ((createTableLayout_created hl).wellFormed.hitAgrees_iff (by norm_num)
    (by norm_num) (by rw [hwidth]; norm_num) (by rw [hheight]; norm_num)).1 hagrees
    (by rw [hrowHeader]; norm_num) (by rw [hheader]; norm_num) 0
  have hstart : columnStart l 0 = 0 := offset_zero _
  have hstop : columnStart l (0 + 1) = 100 := by
    rw [columnStart, offset_succ, offset_zero, hwidths]
    norm_num [columnSize]
  have hlogical : logicalX l 114 = 100 := by
    rw [logicalX, hrowHeader, hoffset]
    norm_num
  have hzero := (hshown ⟨by rw [hcount]; norm_num, .inl (by
    rw [hstart, hstop, hlogical]
    norm_num)⟩).2.1 (by rw [hfrozen]; norm_num)
  rw [hoffset] at hzero
  norm_num at hzero

/-- A point over the cells of the same table. -/
theorem hitTest_agrees_iff_body :
    ∃ l, createTableLayout threeColumns [100, 100, 100] ⟨214, 100, 50, 0, none⟩
        { frozenColumns := 1 } = .ok l ∧
      (HitAgrees l 70 40 6 ↔ (l.rowHeaderWidth ≤ 70 → 40 < l.headerHeight →
        ∀ c, Reached l 70 6 c → EdgeShown l c)) := by
  obtain ⟨l, hl, hwidth, hheight, -⟩ := exists_layout_threeColumns 214 (by norm_num)
  exact ⟨l, hl, hitTest_agrees_iff threeColumns [100, 100, 100] ⟨214, 100, 50, 0, none⟩
    { frozenColumns := 1 } l hl 70 40 6 (by norm_num) (by norm_num) (by rw [hwidth]; norm_num)
    (by rw [hheight]; norm_num)⟩

end Tabulark.View
