import Tabulark.Lib.Multiplicity
import Tabulark.View.Windows

/-!
# Grids of rectangles

Rectangles of cells are products of bands of rows and bands of columns. A cell is
in as many of them as its row is in bands of rows, times as its column is in
bands of columns (`multiplicity_rectangles`).
-/

namespace Tabulark.View

variable {rows columns : List IndexRange} {range : IndexRange} {i r c : ℕ}

/-- Whether an index lies in a range. -/
def IndexRange.has (range : IndexRange) (i : ℕ) : Bool := range.start ≤ i && i < range.stop

/-- Whether a cell lies in a range. -/
def GridRange.has (range : GridRange) (cell : ℕ × ℕ) : Bool := range.rangeContains cell.1 cell.2

/-- Whether a cell lies in the range of a request. -/
def requestHas (request : RangeRequest) (cell : ℕ × ℕ) : Bool :=
  request.rowStart ≤ cell.1 && cell.1 < request.rowStart + request.rowCount &&
    (request.columnStart ≤ cell.2 && cell.2 < request.columnStart + request.columnCount)

theorem IndexRange.has_iff : range.has i ↔ range.start ≤ i ∧ i < range.stop := by simp [has]

theorem GridRange.has_iff {range : GridRange} : range.has (r, c) ↔
    range.rowStart ≤ r ∧ r < range.rowEnd ∧ range.columnStart ≤ c ∧ c < range.columnEnd :=
  GridRange.rangeContains_iff

/-- The cells of a row band and a column band. -/
def rectangle (row column : IndexRange) : GridRange :=
  ⟨row.start, row.stop, column.start, column.stop⟩

theorem has_rectangle (row column : IndexRange) (r c : ℕ) :
    (rectangle row column).has (r, c) = (row.has r && column.has c) := by
  rw [Bool.eq_iff_iff]
  simp [GridRange.has_iff, IndexRange.has_iff, rectangle, and_assoc]

/-- The bands multiply. -/
theorem multiplicity_rectangles : multiplicity GridRange.has
    (rows.flatMap fun row => columns.map (rectangle row)) (r, c) =
      multiplicity IndexRange.has rows r * multiplicity IndexRange.has columns c :=
  multiplicity_product has_rectangle columns c

/-- The range of one cell. -/
def cellRange (cell : ℕ × ℕ) : GridRange := ⟨cell.1, cell.1 + 1, cell.2, cell.2 + 1⟩

theorem has_cellRange {cell cell' : ℕ × ℕ} : (cellRange cell).has cell' ↔ cell' = cell := by
  obtain ⟨r, c⟩ := cell
  obtain ⟨r', c'⟩ := cell'
  rw [GridRange.has_iff, Prod.mk.injEq]
  dsimp only [cellRange]
  omega

/-- A request has the cells of its range. -/
theorem requestHas_gridRangeToRequest (range : GridRange) (cell : ℕ × ℕ) :
    requestHas range.gridRangeToRequest cell = range.has cell := by
  rw [Bool.eq_iff_iff]
  simp only [requestHas, GridRange.has, GridRange.rangeContains_iff, Bool.and_eq_true,
    decide_eq_true_eq]
  dsimp only [GridRange.gridRangeToRequest]
  omega

/-! ## Bands -/

section Bands

variable {primary frozen : IndexRange} {frozenRows frozenColumns : IndexRange}

theorem mergeSort_pair (le : IndexRange → IndexRange → Bool) :
    [primary, frozen].mergeSort le =
      if le primary frozen then [primary, frozen] else [frozen, primary] := by
  simp [List.mergeSort, List.MergeSort.Internal.splitInTwo, List.merge]

/-- Two bands in order, or one if they touch. -/
theorem multiplicity_bands {first second : IndexRange} (hfirst : first.start < first.stop)
    (hsecond : second.start < second.stop) (hle : first.start ≤ second.start) :
    multiplicity IndexRange.has
      (if second.start ≤ first.stop then [⟨first.start, max first.stop second.stop⟩]
        else [first, second]) i = if first.has i ∨ second.has i then 1 else 0 := by
  split_ifs with htouch <;>
    simp only [multiplicity_cons, multiplicity_nil, IndexRange.has_iff, lt_max_iff] at * <;>
    split_ifs <;> omega

/-- An index is in one of the bands if it is in one of the two ranges. -/
theorem multiplicity_mergeIndexBands : multiplicity IndexRange.has
    (mergeIndexBands primary frozen) i = if primary.has i ∨ frozen.has i then 1 else 0 := by
  unfold mergeIndexBands
  by_cases hprimary : primary.start < primary.stop <;>
    by_cases hfrozen : frozen.start < frozen.stop <;>
    simp only [List.filter_cons, hprimary, hfrozen, decide_true, decide_false, if_true,
      List.filter_nil, Bool.false_eq_true, if_false]
  · -- Both of them have indexes, and are put in order.
    rw [mergeSort_pair]
    by_cases hle : primary.start ≤ frozen.start
    · rw [if_pos (decide_eq_true hle)]
      exact multiplicity_bands hprimary hfrozen hle
    · rw [if_neg (by simpa using hle)]
      refine (multiplicity_bands hfrozen hprimary (not_le.1 hle).le).trans ?_
      exact if_congr or_comm rfl rfl
  all_goals
    simp only [List.mergeSort_nil, List.mergeSort_singleton, multiplicity_cons, multiplicity_nil,
      IndexRange.has_iff]
    split_ifs <;> omega

/-- A cell is in one of the rectangles if its row and its column are in one of the ranges. -/
theorem multiplicity_windowRectangles {rows columns : IndexRange} :
    multiplicity GridRange.has (windowRectangles rows columns frozenRows frozenColumns) (r, c) =
      if (rows.has r ∨ frozenRows.has r) ∧ (columns.has c ∨ frozenColumns.has c) then 1 else 0 := by
  refine multiplicity_rectangles.trans ?_
  rw [multiplicity_mergeIndexBands, multiplicity_mergeIndexBands, ite_and]
  split_ifs <;> rfl

/-- The same of requests. -/
theorem multiplicity_map_request {ranges : List GridRange} {cell : ℕ × ℕ} :
    multiplicity requestHas (ranges.map GridRange.gridRangeToRequest) cell =
      multiplicity GridRange.has ranges cell := by
  rw [multiplicity, List.countP_map]
  exact List.countP_congr fun range _ => by simp [requestHas_gridRangeToRequest]

end Bands

end Tabulark.View
