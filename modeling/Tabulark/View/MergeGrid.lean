import Tabulark.View.Grid
import Tabulark.View.Reveal
import Tabulark.View.Selection

/-!
# Steps on a grid with merged regions

A grid has rows and columns, some of them hidden, and merged regions that share no cell, so that
every cell is in one block: a region, or itself alone (`block_eq_of_mem`). A step goes to the cell
after a block or before one, from there to the start of its block, to a visible cell from there,
and to the first visible cell of its block (`step`). `reaches_iff` says when that is the block of
the nearest visible column.
-/

namespace Tabulark.View

/-! ## Visible strips -/

section Strips

variable {size : ℕ → ℚ} {count start i x : ℕ}

/-- The strips of an axis that have a size. -/
def shownStrips (size : ℕ → ℚ) (count : ℕ) : Set ℕ := {i | i < count ∧ 0 < size i}

/-- The first item of a list with a property stands before all others that have it. -/
theorem find?_of_pairwise {r : ℕ → ℕ → Prop} {l : List ℕ} {p : ℕ → Bool} (hl : l.Pairwise r)
    (h : l.find? p = some i) : i ∈ l ∧ p i ∧ ∀ j ∈ l, p j → j = i ∨ r i j := by
  obtain ⟨hi, before, after, rfl, hbefore⟩ := List.find?_eq_some_iff_append.1 h
  refine ⟨by simp, hi, fun j hj hpj => ?_⟩
  rcases List.mem_append.1 hj with hj | hj
  · have hnot := hbefore j hj
    rw [hpj] at hnot
    cases hnot
  · rcases List.mem_cons.1 hj with rfl | hj
    · exact .inl rfl
    · exact .inr ((List.pairwise_cons.1 (List.pairwise_append.1 hl).2.1).1 j hj)

/-- Forward, it is the least visible strip from the start on. -/
theorem nextVisible_forward (size : ℕ → ℚ) (hstart : start < count) :
    (∃ i, nextVisible size count start .forward = some i ∧
      IsLeast (shownStrips size count ∩ Set.Ici start) i) ∨
    (nextVisible size count start .forward = none ∧
      shownStrips size count ∩ Set.Ici start = ∅) := by
  have hmin : min (count - 1) start = start := min_eq_right (Nat.le_sub_one_of_lt hstart)
  rw [nextVisible, if_neg (Nat.ne_zero_of_lt hstart), hmin]
  dsimp only
  cases hfind : (List.range' start (count - start)).find? fun i => 0 < size i with
  | none =>
    refine .inr ⟨rfl, Set.eq_empty_iff_forall_notMem.2 ?_⟩
    rintro i ⟨⟨hlt, hsize⟩, hle⟩
    have hmem : i ∈ List.range' start (count - start) :=
      List.mem_range'_1.2 ⟨hle, by omega⟩
    exact List.find?_eq_none.1 hfind i hmem (decide_eq_true hsize)
  | some i =>
    obtain ⟨hmem, hsize, hfirst⟩ := find?_of_pairwise (List.pairwise_lt_range' 1) hfind
    obtain ⟨hle, hlt⟩ := List.mem_range'_1.1 hmem
    refine .inl ⟨i, rfl, ⟨⟨by omega, of_decide_eq_true hsize⟩, hle⟩, ?_⟩
    rintro j ⟨⟨hj, hsizej⟩, hlej⟩
    rcases hfirst j (List.mem_range'_1.2 ⟨hlej, by omega⟩) (decide_eq_true hsizej) with rfl | hij
    · exact le_rfl
    · exact hij.le

/-- Backward, it is the greatest visible strip up to the start. -/
theorem nextVisible_backward (size : ℕ → ℚ) (hstart : start < count) :
    (∃ i, nextVisible size count start .backward = some i ∧
      IsGreatest (shownStrips size count ∩ Set.Iic start) i) ∨
    (nextVisible size count start .backward = none ∧
      shownStrips size count ∩ Set.Iic start = ∅) := by
  have hmin : min (count - 1) start = start := min_eq_right (Nat.le_sub_one_of_lt hstart)
  have hmem {i : ℕ} : i ∈ (List.range (start + 1)).reverse ↔ i ≤ start := by
    rw [List.mem_reverse, List.mem_range, Nat.lt_succ_iff]
  rw [nextVisible, if_neg (Nat.ne_zero_of_lt hstart), hmin]
  dsimp only
  cases hfind : (List.range (start + 1)).reverse.find? fun i => 0 < size i with
  | none =>
    refine .inr ⟨rfl, Set.eq_empty_iff_forall_notMem.2 ?_⟩
    rintro i ⟨⟨-, hsize⟩, hle⟩
    exact List.find?_eq_none.1 hfind i (hmem.2 hle) (decide_eq_true hsize)
  | some i =>
    obtain ⟨hi, hsize, hfirst⟩ :=
      find?_of_pairwise (List.pairwise_reverse.2 List.pairwise_lt_range) hfind
    have hle := hmem.1 hi
    refine .inl ⟨i, rfl, ⟨⟨by omega, of_decide_eq_true hsize⟩, hle⟩, ?_⟩
    rintro j ⟨⟨-, hsizej⟩, hlej⟩
    rcases hfirst j (hmem.2 hlej) (decide_eq_true hsizej) with rfl | hij
    · exact le_rfl
    · exact hij.le

/-- The visible strip that is closest in a direction, or else in the other one. -/
def pickVisible (size : ℕ → ℚ) (count start : ℕ) (direction : AxisDirection) : Option ℕ :=
  (nextVisible size count start direction).or (nextVisible size count start direction.opposite)

theorem mem_of_nextVisible {direction : AxisDirection}
    (h : nextVisible size count start direction = some i) : i ∈ shownStrips size count := by
  unfold nextVisible at h
  split_ifs at h with hzero
  cases direction with
  | forward =>
    have hmem := List.mem_range'_1.1 (List.mem_of_find?_eq_some h)
    have hsize := List.find?_some (p := fun i => decide (0 < size i)) h
    exact ⟨by omega, of_decide_eq_true hsize⟩
  | backward =>
    have hmem := List.mem_range.1 (List.mem_reverse.1 (List.mem_of_find?_eq_some h))
    have hsize := List.find?_some (p := fun i => decide (0 < size i)) h
    exact ⟨by omega, of_decide_eq_true hsize⟩

theorem mem_of_pickVisible {direction : AxisDirection}
    (h : pickVisible size count start direction = some i) : i ∈ shownStrips size count := by
  rcases Option.or_eq_some_iff.1 h with h | ⟨-, h⟩
  · exact mem_of_nextVisible h
  · exact mem_of_nextVisible h

/-- If a direction or the opposite one has a visible strip, one is picked. -/
theorem pickVisible_of_next {direction : AxisDirection} {p q : ℕ → Prop} {s t : Set ℕ}
    (hnext : (∃ i, nextVisible size count start direction = some i ∧ p i) ∨
      (nextVisible size count start direction = none ∧ s = ∅))
    (hback : (∃ i, nextVisible size count start direction.opposite = some i ∧ q i) ∨
      (nextVisible size count start direction.opposite = none ∧ t = ∅))
    (hx : x ∈ s ∪ t) :
    ∃ i, pickVisible size count start direction = some i ∧ (p i ∨ s = ∅ ∧ q i) := by
  rw [pickVisible]
  rcases hnext with ⟨i, hi, hp⟩ | ⟨hnone, rfl⟩
  · exact ⟨i, by rw [hi, Option.some_or], .inl hp⟩
  rcases hback with ⟨i, hi, hq⟩ | ⟨-, rfl⟩
  · exact ⟨i, by rw [hnone, Option.none_or, hi], .inr ⟨rfl, hq⟩⟩
  · exact (hx.elim id id).elim

/-- Where some strip is visible, one is picked. -/
theorem pickVisible_forward (hstart : start < count) (hx : x ∈ shownStrips size count) :
    ∃ i, pickVisible size count start .forward = some i ∧
      (IsLeast (shownStrips size count ∩ Set.Ici start) i ∨
        shownStrips size count ∩ Set.Ici start = ∅ ∧
          IsGreatest (shownStrips size count ∩ Set.Iic start) i) :=
  pickVisible_of_next (nextVisible_forward size hstart) (nextVisible_backward size hstart)
    ((le_total start x).imp (⟨hx, ·⟩) (⟨hx, ·⟩))

theorem pickVisible_backward (hstart : start < count) (hx : x ∈ shownStrips size count) :
    ∃ i, pickVisible size count start .backward = some i ∧
      (IsGreatest (shownStrips size count ∩ Set.Iic start) i ∨
        shownStrips size count ∩ Set.Iic start = ∅ ∧
          IsLeast (shownStrips size count ∩ Set.Ici start) i) :=
  pickVisible_of_next (nextVisible_backward size hstart) (nextVisible_forward size hstart)
    ((le_total x start).imp (⟨hx, ·⟩) (⟨hx, ·⟩))

/-- From the start of an interval with a visible strip, the first one of the interval is picked. -/
theorem pickVisible_of_mem {stop : ℕ} (hx : x ∈ shownStrips size count)
    (hmem : x ∈ Set.Ico start stop) :
    ∃ i, pickVisible size count start .forward = some i ∧
      IsLeast (shownStrips size count ∩ Set.Ico start stop) i := by
  obtain ⟨i, hi, hleast | ⟨hempty, -⟩⟩ := pickVisible_forward (hmem.1.trans_lt hx.1) hx
  · have hle : i ≤ x := hleast.2 ⟨hx, hmem.1⟩
    exact ⟨i, hi, ⟨hleast.1.1, hleast.1.2, hle.trans_lt hmem.2⟩,
      fun j hj => hleast.2 ⟨hj.1, hj.2.1⟩⟩
  · exact (Set.eq_empty_iff_forall_notMem.1 hempty x ⟨hx, hmem.1⟩).elim

end Strips

/-! ## Blocks -/

/-- Rows and columns with sizes, and merged regions. -/
structure MergeGrid where
  rowCount : ℕ
  columnCount : ℕ
  rowSize : ℕ → ℚ
  columnSize : ℕ → ℚ
  regions : List MergedCellRegion

namespace MergeGrid

variable (g : MergeGrid)

/-- The regions are inside the extent, and no two of them share a cell. -/
structure Valid : Prop where
  disjoint : g.regions.Pairwise fun left right => Disjoint left.cells right.cells
  inside : ∀ region ∈ g.regions, region.rowEnd ≤ g.rowCount ∧ region.columnEnd ≤ g.columnCount

def shownRows : Set ℕ := shownStrips g.rowSize g.rowCount

def shownColumns : Set ℕ := shownStrips g.columnSize g.columnCount

/-- A cell of positive size. -/
def Shown (cell : CellPosition) : Prop :=
  cell.rowIndex ∈ g.shownRows ∧ cell.columnIndex ∈ g.shownColumns

/-- The merged region of a cell, or the cell alone. -/
def block (cell : CellPosition) : GridRange :=
  (g.regions.find? fun region => region.rangeContains cell.rowIndex cell.columnIndex).getD
    (cellRange (cell.rowIndex, cell.columnIndex))

/-- The first visible row of a range. -/
def FirstRow (range : GridRange) (row : ℕ) : Prop :=
  IsLeast (g.shownRows ∩ Set.Ico range.rowStart range.rowEnd) row

/-- The first visible cell of a range. -/
def IsFirst (range : GridRange) (cell : CellPosition) : Prop :=
  g.FirstRow range cell.rowIndex ∧
    IsLeast (g.shownColumns ∩ Set.Ico range.columnStart range.columnEnd) cell.columnIndex

/-- The cell that stands for a cell among the visible ones, first looked for in a direction. -/
def visibleCell (cell : CellPosition) (direction : AxisDirection) : Option CellPosition := do
  let row ← pickVisible g.rowSize g.rowCount cell.rowIndex .forward
  let column ← pickVisible g.columnSize g.columnCount cell.columnIndex direction
  some ⟨row, column⟩

/-- The start of the block of a cell. -/
def anchor (cell : CellPosition) : CellPosition :=
  ⟨(g.block cell).rowStart, (g.block cell).columnStart⟩

/-- The cell after the block of a cell, or before the cell. -/
def neighbour (cell : CellPosition) : AxisDirection → CellPosition
  | .forward => ⟨cell.rowIndex, min (g.columnCount - 1) (g.block cell).columnEnd⟩
  | .backward => ⟨cell.rowIndex, cell.columnIndex - 1⟩

/-- The cell that becomes active for a cell. -/
def activeTarget (cell : CellPosition) : Option CellPosition :=
  g.visibleCell (g.anchor cell) .forward

/-- The cell that a step goes to. -/
def step (cell : CellPosition) (direction : AxisDirection) : Option CellPosition :=
  (g.visibleCell (g.anchor (g.neighbour cell direction)) direction).bind g.activeTarget

variable {g} {cell cell' next : CellPosition} {range : GridRange}

theorem mem_cellRange_cells : cell ∈ (cellRange (cell'.rowIndex, cell'.columnIndex)).cells ↔
    cell = cell' := by
  obtain ⟨row, column⟩ := cell
  obtain ⟨row', column'⟩ := cell'
  rw [GridRange.mem_cells]
  simp only [cellRange, CellPosition.mk.injEq]
  omega

theorem mem_cells_of_find? {regions : List MergedCellRegion} {region : MergedCellRegion}
    (h : regions.find? (fun region => region.rangeContains cell.rowIndex cell.columnIndex) =
      some region) : cell ∈ region.cells :=
  List.find?_some (p := fun region : MergedCellRegion =>
    region.rangeContains cell.rowIndex cell.columnIndex) h

theorem mem_block_cells (g : MergeGrid) (cell : CellPosition) : cell ∈ (g.block cell).cells := by
  unfold block
  cases hfind : g.regions.find? fun region =>
      region.rangeContains cell.rowIndex cell.columnIndex with
  | none => exact mem_cellRange_cells.2 rfl
  | some region => exact mem_cells_of_find? hfind

theorem mem_block (g : MergeGrid) (cell : CellPosition) :
    cell.rowIndex ∈ Set.Ico (g.block cell).rowStart (g.block cell).rowEnd ∧
      cell.columnIndex ∈ Set.Ico (g.block cell).columnStart (g.block cell).columnEnd := by
  obtain ⟨hrow, hrow', hcolumn, hcolumn'⟩ := GridRange.mem_cells.1 (g.mem_block_cells cell)
  exact ⟨⟨hrow, hrow'⟩, hcolumn, hcolumn'⟩

section Valid

variable (hg : g.Valid)
include hg

/-- A cell of a region is in no other. -/
theorem Valid.eq_of_mem {left right : MergedCellRegion} (hleft : left ∈ g.regions)
    (hright : right ∈ g.regions) (h : cell ∈ left.cells) (h' : cell ∈ right.cells) :
    left = right := by
  by_contra hne
  have : Std.Symm fun left right : MergedCellRegion => Disjoint left.cells right.cells :=
    ⟨fun _ _ h => Disjoint.symm h⟩
  exact Set.disjoint_left.1 (hg.disjoint.forall hleft hright hne) h h'

/-- The blocks are a partition: each is that of all its cells. -/
theorem Valid.block_eq_of_mem (h : cell ∈ (g.block cell').cells) :
    g.block cell = g.block cell' := by
  cases hfind' : g.regions.find? fun region =>
      region.rangeContains cell'.rowIndex cell'.columnIndex with
  | none =>
    have hblock : g.block cell' = cellRange (cell'.rowIndex, cell'.columnIndex) := by
      rw [block, hfind', Option.getD_none]
    rw [hblock] at h
    rw [mem_cellRange_cells.1 h]
  | some region =>
    have hblock : g.block cell' = region := by rw [block, hfind', Option.getD_some]
    rw [hblock] at h ⊢
    have hregion := List.mem_of_find?_eq_some hfind'
    unfold block
    cases hfind : g.regions.find? fun region =>
        region.rangeContains cell.rowIndex cell.columnIndex with
    | none => exact absurd h (List.find?_eq_none.1 hfind region hregion)
    | some region' =>
      exact hg.eq_of_mem (List.mem_of_find?_eq_some hfind) hregion (mem_cells_of_find? hfind) h

/-- The block of a cell is that of the cells at its rows and columns. -/
theorem Valid.block_eq {row column : ℕ}
    (hrow : row ∈ Set.Ico (g.block cell).rowStart (g.block cell).rowEnd)
    (hcolumn : column ∈ Set.Ico (g.block cell).columnStart (g.block cell).columnEnd) :
    g.block ⟨row, column⟩ = g.block cell :=
  hg.block_eq_of_mem (GridRange.mem_cells.2 ⟨hrow.1, hrow.2, hcolumn.1, hcolumn.2⟩)

end Valid

/-! ## First cells -/

theorem IsFirst.shown (h : g.IsFirst range cell) : g.Shown cell := ⟨h.1.1.1, h.2.1.1⟩

theorem IsFirst.unique (h : g.IsFirst range cell) (h' : g.IsFirst range cell') : cell = cell' := by
  obtain ⟨row, column⟩ := cell
  obtain ⟨row', column'⟩ := cell'
  obtain rfl : row = row' := h.1.unique h'.1
  obtain rfl : column = column' := h.2.unique h'.2
  rfl

/-- The block of a first cell is the one that it is the first of. -/
theorem IsFirst.block_eq (hg : g.Valid) (h : g.IsFirst (g.block cell) next) :
    g.block next = g.block cell :=
  hg.block_eq h.1.1.2 h.2.1.2

/-- For a visible cell, the first visible one of its block becomes active. -/
theorem activeTarget_of_shown (h : g.Shown cell) :
    ∃ next, g.activeTarget cell = some next ∧ g.IsFirst (g.block cell) next := by
  obtain ⟨row, hrow, hfirstRow⟩ := pickVisible_of_mem h.1 (g.mem_block cell).1
  obtain ⟨column, hcolumn, hfirstColumn⟩ := pickVisible_of_mem h.2 (g.mem_block cell).2
  refine ⟨⟨row, column⟩, ?_, hfirstRow, hfirstColumn⟩
  rw [activeTarget, visibleCell, anchor, hrow, hcolumn]
  rfl

/-! ## Steps -/

/-- The visible columns after a range, or before it. -/
def beyond (g : MergeGrid) (range : GridRange) : AxisDirection → Set ℕ
  | .forward => g.shownColumns ∩ Set.Ici range.columnEnd
  | .backward => g.shownColumns ∩ Set.Iio range.columnStart

/-- The closest visible column after a range, or before it. -/
def Nearest (g : MergeGrid) (range : GridRange) : AxisDirection → ℕ → Prop
  | .forward, column => IsLeast (g.beyond range .forward) column
  | .backward, column => IsGreatest (g.beyond range .backward) column

/-- Without a visible column beyond the block of a cell, a step stays. With one, it goes to the
first visible cell of the block there. -/
structure Reaches (g : MergeGrid) (active : CellPosition) (direction : AxisDirection)
    (next : CellPosition) : Prop where
  stays : g.beyond (g.block active) direction = ∅ → next = active
  moves : ∀ column, g.Nearest (g.block active) direction column →
    g.IsFirst (g.block ⟨active.rowIndex, column⟩) next

/-- No column of a range is visible. -/
def Blank (g : MergeGrid) (range : GridRange) : Prop :=
  g.shownColumns ∩ Set.Ico range.columnStart range.columnEnd = ∅

/-- What a step forward needs. A cell that is to stay is the first visible one of its block. If the
    block after the cell has no visible column, then at its first visible row the closest visible
    column is in the block that it is in at the row of the cell; without such a column, that is the
    same row. -/
structure ClearForward (g : MergeGrid) (active : CellPosition) : Prop where
  home : g.beyond (g.block active) .forward = ∅ → g.IsFirst (g.block active) active
  blank : ∀ row, (g.block active).columnEnd < g.columnCount →
    g.Blank (g.block ⟨active.rowIndex, (g.block active).columnEnd⟩) →
    g.FirstRow (g.block ⟨active.rowIndex, (g.block active).columnEnd⟩) row →
    (g.beyond (g.block active) .forward = ∅ → row = active.rowIndex) ∧
      ∀ column, g.Nearest (g.block active) .forward column →
        g.block ⟨row, column⟩ = g.block ⟨active.rowIndex, column⟩

/-- What a step backward needs of the block before a cell, whose first column may be visible; if it
    is not, there may be a visible one before it, or none. -/
structure ClearBackward (g : MergeGrid) (active : CellPosition) (before : GridRange) : Prop where
  home : g.beyond (g.block active) .backward = ∅ → g.IsFirst (g.block active) active
  shown : 0 < active.columnIndex → before.columnStart ∈ g.shownColumns → before ≠ g.block active
  hidden : ∀ row column, 0 < active.columnIndex → before.columnStart ∉ g.shownColumns →
    IsGreatest (g.shownColumns ∩ Set.Iio before.columnStart) column → g.FirstRow before row →
    (before = g.block active ∨ g.Blank before) ∧
      g.block ⟨row, column⟩ = g.block ⟨active.rowIndex, column⟩
  blank : ∀ row, 0 < active.columnIndex → g.shownColumns ∩ Set.Iic before.columnStart = ∅ →
    g.Blank before → g.FirstRow before row → row = active.rowIndex

/-- What a step needs. -/
def Clear (g : MergeGrid) (active : CellPosition) : AxisDirection → Prop
  | .forward => g.ClearForward active
  | .backward =>
    g.ClearBackward active (g.block ⟨active.rowIndex, active.columnIndex - 1⟩)

section Steps

variable {active : CellPosition} {row column : ℕ} (hg : g.Valid) (hactive : g.Shown active)

include hactive in
/-- A step goes to the first visible cell of a block: that of a visible column picked from the
start of the neighbouring block, at the first visible row of that one. -/
theorem exists_step (direction : AxisDirection) : ∃ row column next,
    g.FirstRow (g.block (g.neighbour active direction)) row ∧
      pickVisible g.columnSize g.columnCount
        (g.block (g.neighbour active direction)).columnStart direction = some column ∧
      g.step active direction = some next ∧ g.IsFirst (g.block ⟨row, column⟩) next := by
  have hmem := g.mem_block (g.neighbour active direction)
  have hrowIndex : (g.neighbour active direction).rowIndex = active.rowIndex := by
    cases direction <;> rfl
  have hlt : (g.block (g.neighbour active direction)).columnStart < g.columnCount := by
    refine hmem.2.1.trans_lt ?_
    have hcolumn := hactive.2.1
    cases direction with
    | forward => exact (min_le_left _ _).trans_lt (Nat.sub_one_lt_of_lt hcolumn)
    | backward => exact (Nat.sub_le _ _).trans_lt hcolumn
  obtain ⟨row, hrow, hfirst⟩ := pickVisible_of_mem hactive.1 (hrowIndex ▸ hmem.1)
  have hpick : ∃ column, pickVisible g.columnSize g.columnCount
      (g.block (g.neighbour active direction)).columnStart direction = some column := by
    cases direction with
    | forward =>
      obtain ⟨column, hcolumn, -⟩ := pickVisible_forward hlt hactive.2
      exact ⟨column, hcolumn⟩
    | backward =>
      obtain ⟨column, hcolumn, -⟩ := pickVisible_backward hlt hactive.2
      exact ⟨column, hcolumn⟩
  obtain ⟨column, hcolumn⟩ := hpick
  have htarget : g.Shown ⟨row, column⟩ := ⟨hfirst.1.1, mem_of_pickVisible hcolumn⟩
  obtain ⟨next, hnext, hnextFirst⟩ := activeTarget_of_shown htarget
  refine ⟨row, column, next, hfirst, hcolumn, ?_, hnextFirst⟩
  have hvisible : g.visibleCell (g.anchor (g.neighbour active direction)) direction =
      some ⟨row, column⟩ := by
    rw [visibleCell, anchor, hrow, hcolumn]
    rfl
  rw [step, hvisible, Option.bind_some, hnext]

/-- A cell is in the block that a step goes to: that of the cell before, if it is to stay. -/
def Lands (g : MergeGrid) (active : CellPosition) (direction : AxisDirection)
    (cell : CellPosition) : Prop :=
  (g.beyond (g.block active) direction = ∅ →
    g.block cell = g.block active ∧ g.IsFirst (g.block active) active) ∧
  ∀ column, g.Nearest (g.block active) direction column →
    g.block cell = g.block ⟨active.rowIndex, column⟩

variable {direction : AxisDirection}

include hg in
/-- Whether a step reaches its neighbour is a question of blocks. -/
theorem reaches_iff_lands (h : g.IsFirst (g.block cell) next) :
    g.Reaches active direction next ↔ g.Lands active direction cell := by
  constructor
  · rintro ⟨hstays, hmoves⟩
    refine ⟨fun hempty => ?_, fun column hcolumn => ?_⟩
    · obtain rfl := hstays hempty
      have hblock := h.block_eq hg
      exact ⟨hblock.symm, hblock ▸ h⟩
    · rw [← h.block_eq hg, ← (hmoves column hcolumn).block_eq hg]
  · rintro ⟨hstays, hmoves⟩
    refine ⟨fun hempty => ?_, fun column hcolumn => ?_⟩
    · obtain ⟨hblock, hhome⟩ := hstays hempty
      exact (hblock ▸ h).unique hhome
    · rw [← hmoves column hcolumn]
      exact h

theorem Nearest.mem (h : g.Nearest range direction column) :
    column ∈ g.beyond range direction := by
  cases direction <;> exact h.1

/-- With a visible column beyond the block of a cell, a step goes to the block there. -/
theorem lands_iff_of_nearest (h : g.Nearest (g.block active) direction column) :
    g.Lands active direction cell ↔ g.block cell = g.block ⟨active.rowIndex, column⟩ := by
  refine ⟨fun hlands => hlands.2 column h, fun hblock =>
    ⟨fun hempty => absurd hempty (Set.Nonempty.ne_empty ⟨column, h.mem⟩), fun column' h' => ?_⟩⟩
  obtain rfl : column = column' := by
    cases direction with
    | forward => exact IsLeast.unique h h'
    | backward => exact IsGreatest.unique h h'
  exact hblock

/-- Without one, it stays. -/
theorem lands_iff_of_empty
    (h : g.beyond (g.block active) direction = ∅) : g.Lands active direction cell ↔
      g.block cell = g.block active ∧ g.IsFirst (g.block active) active :=
  ⟨fun hlands => hlands.1 h, fun hstays => ⟨fun _ => hstays, fun column hcolumn =>
    absurd hcolumn.mem (Set.eq_empty_iff_forall_notMem.1 h column)⟩⟩

/-- A first row that is of the block of a first cell is the row of the cell. -/
theorem row_eq_of_block_eq (hhome : g.IsFirst (g.block active) active)
    (hblock : g.block ⟨row, column⟩ = g.block active) (hrow : g.FirstRow range row)
    (hmem : active.rowIndex ∈ Set.Ico range.rowStart range.rowEnd) : row = active.rowIndex := by
  have hrowMem := (g.mem_block ⟨row, column⟩).1
  rw [hblock] at hrowMem
  exact (hrow.2 ⟨hhome.1.1.1, hmem⟩).antisymm (hhome.1.2 ⟨hrow.1.1, hrowMem⟩)

/-- A step forward goes where it should if and only if the block after the cell lets it. -/
theorem Valid.reaches_forward_iff (hg : g.Valid) (hactive : g.Shown active) :
    ∃ next, g.step active .forward = some next ∧ g.Shown next ∧
      (g.Reaches active .forward next ↔ g.ClearForward active) := by
  obtain ⟨row, column, next, hrow, hpick, hstep, hfirst⟩ := exists_step hactive .forward
  refine ⟨next, hstep, hfirst.shown, ?_⟩
  rw [reaches_iff_lands hg hfirst]
  obtain ⟨hrowMem, hcolumnMem⟩ := g.mem_block active
  by_cases hlast : (g.block active).columnEnd < g.columnCount
  · have hneighbour : g.neighbour active .forward =
        ⟨active.rowIndex, (g.block active).columnEnd⟩ := by
      rw [neighbour, min_eq_right (Nat.le_sub_one_of_lt hlast)]
    rw [hneighbour] at hrow hpick
    obtain ⟨hafterRow, hafterColumn⟩ := g.mem_block ⟨active.rowIndex, (g.block active).columnEnd⟩
    -- The block after the cell begins where that of the cell ends.
    have hstart : (g.block ⟨active.rowIndex, (g.block active).columnEnd⟩).columnStart =
        (g.block active).columnEnd := by
      by_contra hne
      have hlt := lt_of_le_of_ne hafterColumn.1 hne
      have hbefore : (g.block active).columnEnd - 1 ∈
          Set.Ico (g.block active).columnStart (g.block active).columnEnd :=
        ⟨Nat.le_sub_one_of_lt (hcolumnMem.1.trans_lt hcolumnMem.2),
          Nat.sub_one_lt_of_lt hcolumnMem.2⟩
      have hsame := (hg.block_eq hafterRow ⟨Nat.le_sub_one_of_lt hlt,
        hbefore.2.trans hafterColumn.2⟩).symm.trans (hg.block_eq hrowMem hbefore)
      rw [hsame] at hafterColumn
      exact hafterColumn.2.false
    rw [hstart] at hpick hafterColumn
    obtain ⟨picked, hpicked, hcases⟩ := pickVisible_forward hlast hactive.2
    obtain rfl : picked = column := Option.some.inj (hpicked.symm.trans hpick)
    rcases hcases with hleast | ⟨hempty, hgreatest⟩
    · have hnonempty : g.beyond (g.block active) .forward ≠ ∅ :=
        Set.Nonempty.ne_empty ⟨picked, hleast.1⟩
      rw [lands_iff_of_nearest (show g.Nearest _ .forward _ from hleast)]
      constructor
      · intro hmoves
        refine ⟨fun h => absurd h hnonempty, fun row' _ _ hrow' =>
          ⟨fun h => absurd h hnonempty, fun column hcolumn => ?_⟩⟩
        obtain rfl := hrow.unique hrow'
        obtain rfl : picked = column := hleast.unique hcolumn
        exact hmoves
      · intro hclear
        by_cases hblank : g.Blank (g.block ⟨active.rowIndex, (g.block active).columnEnd⟩)
        · exact (hclear.blank row hlast hblank hrow).2 picked hleast
        · -- The column is in the block, and so are both cells.
          obtain ⟨x, hx, hxmem⟩ := Set.nonempty_iff_ne_empty.2 hblank
          rw [hstart] at hxmem
          have hmem : picked ∈ Set.Ico
              (g.block ⟨active.rowIndex, (g.block active).columnEnd⟩).columnStart
              (g.block ⟨active.rowIndex, (g.block active).columnEnd⟩).columnEnd := by
            rw [hstart]
            exact ⟨hleast.1.2, (hleast.2 ⟨hx, hxmem.1⟩).trans_lt hxmem.2⟩
          rw [hg.block_eq hrow.1.2 hmem, hg.block_eq hafterRow hmem]
    · -- There is no visible column after the cell: the last one is in its block.
      have hbeyond : g.beyond (g.block active) .forward = ∅ := hempty
      have hnotMem := Set.eq_empty_iff_forall_notMem.1 hbeyond
      have hmem : picked ∈ Set.Ico (g.block active).columnStart (g.block active).columnEnd :=
        ⟨hcolumnMem.1.trans (hgreatest.2 ⟨hactive.2, hcolumnMem.2.le⟩),
          not_le.1 fun hle => hnotMem picked ⟨hgreatest.1.1, hle⟩⟩
      have hblank : g.Blank (g.block ⟨active.rowIndex, (g.block active).columnEnd⟩) := by
        refine Set.eq_empty_iff_forall_notMem.2 fun x hx => hnotMem x ⟨hx.1, ?_⟩
        rw [← hstart]
        exact hx.2.1
      rw [lands_iff_of_empty hbeyond]
      constructor
      · rintro ⟨hblock, hhome⟩
        refine ⟨fun _ => hhome, fun row' _ _ hrow' => ⟨fun _ => ?_, fun column hcolumn =>
          absurd hcolumn.1 (hnotMem column)⟩⟩
        obtain rfl := hrow.unique hrow'
        exact row_eq_of_block_eq hhome hblock hrow hafterRow
      · intro hclear
        refine ⟨?_, hclear.home hbeyond⟩
        rw [(hclear.blank row hlast hblank hrow).1 hbeyond]
        exact hg.block_eq hrowMem hmem
  · -- The block of the cell ends with the table.
    have hlt := hactive.2.1
    have hbeyond : g.beyond (g.block active) .forward = ∅ :=
      Set.eq_empty_iff_forall_notMem.2 fun x hx => hlast (hx.2.trans_lt hx.1.1)
    have hneighbour : g.block (g.neighbour active .forward) = g.block active := by
      rw [neighbour, min_eq_left ((Nat.sub_le _ _).trans (not_lt.1 hlast))]
      exact hg.block_eq hrowMem ⟨hcolumnMem.1.trans (Nat.le_sub_one_of_lt hlt),
        (Nat.sub_one_lt_of_lt hlt).trans_le (not_lt.1 hlast)⟩
    rw [hneighbour] at hrow hpick
    obtain ⟨picked, hpicked, hleast⟩ := pickVisible_of_mem hactive.2 hcolumnMem
    obtain rfl : picked = column := Option.some.inj (hpicked.symm.trans hpick)
    have hblock := hg.block_eq hrow.1.2 hleast.1.2
    rw [lands_iff_of_empty hbeyond]
    exact ⟨fun h => ⟨fun _ => h.2, fun _ h => absurd h hlast⟩,
      fun hclear => ⟨hblock, hclear.home hbeyond⟩⟩

theorem exists_nearest_backward (h : (g.beyond range .backward).Nonempty) :
    ∃ column, g.Nearest range .backward column :=
  BddAbove.exists_isGreatest_of_nonempty ⟨range.columnStart, fun _ hx => le_of_lt hx.2⟩ h

section Backward

variable {before : GridRange} (hpos : 0 < active.columnIndex)
include hpos

/-- What a step back needs where the block before a cell starts with a visible column. -/
theorem clearBackward_iff_of_shown (hshown : before.columnStart ∈ g.shownColumns) :
    g.ClearBackward active before ↔
      (g.beyond (g.block active) .backward = ∅ → g.IsFirst (g.block active) active) ∧
        before ≠ g.block active := by
  refine ⟨fun h => ⟨h.home, h.shown hpos hshown⟩, fun h => ⟨h.1, fun _ _ => h.2,
    fun _ _ _ hhidden => absurd hshown hhidden, fun _ _ hnone => ?_⟩⟩
  exact absurd hnone (Set.Nonempty.ne_empty ⟨_, hshown, Set.self_mem_Iic⟩)

variable (hrow : g.FirstRow before row)
include hrow

/-- What it needs where there is a visible column only before that start. -/
theorem clearBackward_iff_of_hidden (hhidden : before.columnStart ∉ g.shownColumns)
    (hlast : IsGreatest (g.shownColumns ∩ Set.Iio before.columnStart) column) :
    g.ClearBackward active before ↔
      (g.beyond (g.block active) .backward = ∅ → g.IsFirst (g.block active) active) ∧
        (before = g.block active ∨ g.Blank before) ∧
        g.block ⟨row, column⟩ = g.block ⟨active.rowIndex, column⟩ := by
  refine ⟨fun h => ⟨h.home, h.hidden row column hpos hhidden hlast hrow⟩, fun h => ⟨h.1,
    fun _ hshown => absurd hshown hhidden, fun row' column' _ _ hlast' hrow' => ?_,
    fun _ _ hnone => ?_⟩⟩
  · obtain rfl := hrow.unique hrow'
    obtain rfl : column = column' := hlast.unique hlast'
    exact h.2
  · exact absurd hnone (Set.Nonempty.ne_empty
      ⟨column, hlast.1.1, Set.Iio_subset_Iic_self hlast.1.2⟩)

/-- What it needs where no column up to that start is visible. -/
theorem clearBackward_iff_of_none
    (hnone : g.shownColumns ∩ Set.Iic before.columnStart = ∅) :
    g.ClearBackward active before ↔
      (g.beyond (g.block active) .backward = ∅ → g.IsFirst (g.block active) active) ∧
        (g.Blank before → row = active.rowIndex) := by
  have hnotMem := Set.eq_empty_iff_forall_notMem.1 hnone
  refine ⟨fun h => ⟨h.home, fun hblank => h.blank row hpos hnone hblank hrow⟩, fun h => ⟨h.1,
    fun _ hshown => absurd ⟨hshown, Set.self_mem_Iic⟩ (hnotMem _),
    fun _ column' _ _ hlast => ?_, fun row' _ _ hblank hrow' => ?_⟩⟩
  · exact absurd ⟨hlast.1.1, Set.Iio_subset_Iic_self hlast.1.2⟩ (hnotMem column')
  · obtain rfl := hrow.unique hrow'
    exact h.2 hblank

variable (hcolumn : IsGreatest (g.shownColumns ∩ Set.Iic before.columnStart) column ∨
  g.shownColumns ∩ Set.Iic before.columnStart = ∅ ∧
    IsLeast (g.shownColumns ∩ Set.Ici before.columnStart) column)

include hg hactive hcolumn

/-- A step backward within the block of a cell. -/
theorem Valid.lands_within_iff (hbefore : before = g.block active) (hmem : active.columnIndex - 1 ∈
      Set.Ico before.columnStart before.columnEnd) :
    g.Lands active .backward ⟨row, column⟩ ↔ g.ClearBackward active before := by
  subst hbefore
  obtain ⟨-, hcolumnMem⟩ := g.mem_block active
  have hlt : (g.block active).columnStart < active.columnIndex := by
    have hle := hmem.1
    omega
  rcases hcolumn with hgreatest | ⟨hempty, hleast⟩
  · by_cases hshown : (g.block active).columnStart ∈ g.shownColumns
    · -- The first column of the block is visible: a step stays in the block.
      have hstart : column = (g.block active).columnStart :=
        hgreatest.1.2.antisymm (hgreatest.2 ⟨hshown, Set.self_mem_Iic⟩)
      subst hstart
      have hblock := hg.block_eq hrow.1.2 ⟨le_rfl, hlt.trans hcolumnMem.2⟩
      rw [clearBackward_iff_of_shown hpos hshown]
      refine iff_of_false (fun hlands => ?_) fun hclear => hclear.2 rfl
      by_cases hbeyond : g.beyond (g.block active) .backward = ∅
      · exact hlt.not_ge ((hlands.1 hbeyond).2.2.2 ⟨hshown, le_rfl, hlt.trans hcolumnMem.2⟩)
      · obtain ⟨nearest, hnearest⟩ :=
          exists_nearest_backward (Set.nonempty_iff_ne_empty.2 hbeyond)
        have hnearestMem := (g.mem_block ⟨active.rowIndex, nearest⟩).2
        rw [← hlands.2 nearest hnearest, hblock] at hnearestMem
        exact hnearestMem.1.not_gt hnearest.1.2
    · -- The closest visible column is the one before the block.
      have hcolumnLt : column < (g.block active).columnStart :=
        lt_of_le_of_ne (Set.mem_Iic.1 hgreatest.1.2) fun h => hshown (h ▸ hgreatest.1.1)
      have hnearest : g.Nearest (g.block active) .backward column :=
        ⟨⟨hgreatest.1.1, hcolumnLt⟩, fun x hx => hgreatest.2 ⟨hx.1, Set.Iio_subset_Iic_self hx.2⟩⟩
      rw [lands_iff_of_nearest hnearest, clearBackward_iff_of_hidden hpos hrow hshown hnearest]
      exact ⟨fun h => ⟨fun hempty => absurd hempty (Set.Nonempty.ne_empty ⟨_, hnearest.1⟩),
        .inl rfl, h⟩, fun h => h.2.2⟩
  · -- There is no visible column up to the start of the block.
    have hbeyond : g.beyond (g.block active) .backward = ∅ :=
      Set.subset_empty_iff.1 (hempty ▸ Set.inter_subset_inter_right _ Set.Iio_subset_Iic_self)
    have hblock := hg.block_eq hrow.1.2
      ⟨hleast.1.2, (hleast.2 ⟨hactive.2, hcolumnMem.1⟩).trans_lt hcolumnMem.2⟩
    rw [lands_iff_of_empty hbeyond, clearBackward_iff_of_none hpos hrow hempty]
    refine ⟨fun h => ⟨fun _ => h.2, fun hblank => ?_⟩, fun h => ⟨hblock, h.1 hbeyond⟩⟩
    exact absurd hblank (Set.Nonempty.ne_empty ⟨active.columnIndex, hactive.2, hcolumnMem⟩)

/-- A step backward to another block. -/
theorem Valid.lands_before_iff
    (hblockBefore : g.block ⟨active.rowIndex, active.columnIndex - 1⟩ = before)
    (hbefore : before ≠ g.block active) :
    g.Lands active .backward ⟨row, column⟩ ↔ g.ClearBackward active before := by
  obtain ⟨hrowMem, hcolumnMem⟩ := g.mem_block active
  obtain ⟨hbeforeRow, hbeforeColumn⟩ := g.mem_block ⟨active.rowIndex, active.columnIndex - 1⟩
  have hin {row column : ℕ} (hrow : row ∈ Set.Ico before.rowStart before.rowEnd)
      (hcolumn : column ∈ Set.Ico before.columnStart before.columnEnd) :
      g.block ⟨row, column⟩ = before := by
    rw [← hblockBefore] at hrow hcolumn ⊢
    exact hg.block_eq hrow hcolumn
  rw [hblockBefore] at hbeforeRow hbeforeColumn
  have hpred : active.columnIndex - 1 < active.columnIndex := Nat.sub_one_lt_of_lt hpos
  have hle : before.columnStart ≤ active.columnIndex := hbeforeColumn.1.trans hpred.le
  -- The block before ends where that of the cell begins, at the cell.
  have hend : before.columnEnd = active.columnIndex := by
    refine (Nat.le_of_not_lt fun hlt => hbefore ?_).antisymm (Nat.le_of_pred_lt hbeforeColumn.2)
    exact (hin hbeforeRow ⟨hle, hlt⟩).symm
  have hstart : (g.block active).columnStart = active.columnIndex := by
    refine hcolumnMem.1.antisymm (Nat.le_of_not_lt fun hlt => hbefore ?_)
    exact hblockBefore.symm.trans
      (hg.block_eq hrowMem ⟨Nat.le_sub_one_of_lt hlt, hpred.trans hcolumnMem.2⟩)
  -- A visible column of the block before is the closest one, or further away in it.
  have hnearestBlock {x : ℕ} (hx : x ∈ g.shownColumns)
      (hmem : x ∈ Set.Ico before.columnStart before.columnEnd) :
      ∃ nearest, g.Nearest (g.block active) .backward nearest ∧
        g.block ⟨active.rowIndex, nearest⟩ = before := by
    have hbeyond : x ∈ g.beyond (g.block active) .backward :=
      ⟨hx, hmem.2.trans_eq (hend.trans hstart.symm)⟩
    obtain ⟨nearest, hnearest⟩ := exists_nearest_backward ⟨x, hbeyond⟩
    have hlt : nearest < (g.block active).columnStart := hnearest.1.2
    exact ⟨nearest, hnearest, hin hbeforeRow
      ⟨hmem.1.trans (hnearest.2 hbeyond), hlt.trans_eq (hstart.trans hend.symm)⟩⟩
  rcases hcolumn with hgreatest | ⟨hempty, hleast⟩
  · by_cases hshown : before.columnStart ∈ g.shownColumns
    · -- The first column of the block is visible, and is picked.
      have hcolumnEq := hgreatest.1.2.antisymm (hgreatest.2 ⟨hshown, Set.self_mem_Iic⟩)
      have hmem := Set.left_mem_Ico.2 (hbeforeColumn.1.trans_lt hbeforeColumn.2)
      obtain ⟨nearest, hnearest, hblock⟩ := hnearestBlock hshown hmem
      rw [lands_iff_of_nearest hnearest, clearBackward_iff_of_shown hpos hshown]
      refine iff_of_true ?_
        ⟨fun h => absurd h (Set.Nonempty.ne_empty ⟨_, hnearest.1⟩), hbefore⟩
      rw [hblock, hcolumnEq]
      exact hin hrow.1.2 hmem
    · have hcolumnLt := lt_of_le_of_ne (Set.mem_Iic.1 hgreatest.1.2)
        fun h => hshown (h ▸ hgreatest.1.1)
      have hlast : IsGreatest (g.shownColumns ∩ Set.Iio before.columnStart) column :=
        ⟨⟨hgreatest.1.1, hcolumnLt⟩, fun x hx => hgreatest.2 ⟨hx.1, Set.Iio_subset_Iic_self hx.2⟩⟩
      rw [clearBackward_iff_of_hidden hpos hrow hshown hlast]
      by_cases hblank : g.Blank before
      · -- The block is blank, so the column before it is the closest visible one.
        have hnotMem := Set.eq_empty_iff_forall_notMem.1 hblank
        have hnearest : g.Nearest (g.block active) .backward column := by
          refine ⟨⟨hgreatest.1.1, hstart.symm ▸ hcolumnLt.trans_le hle⟩, fun x hx => hgreatest.2
            ⟨hx.1, Set.mem_Iic.2 (le_of_not_gt fun hlt => ?_)⟩⟩
          have hxlt : x < (g.block active).columnStart := hx.2
          exact hnotMem x ⟨hx.1, le_of_lt hlt, hxlt.trans_eq (hstart.trans hend.symm)⟩
        rw [lands_iff_of_nearest hnearest]
        exact ⟨fun h => ⟨fun hempty => absurd hempty (Set.Nonempty.ne_empty ⟨_, hnearest.1⟩),
          .inr hblank, h⟩, fun h => h.2.2⟩
      · -- The block is jumped over.
        obtain ⟨x, hx, hxmem⟩ := Set.nonempty_iff_ne_empty.2 hblank
        obtain ⟨nearest, hnearest, hblock⟩ := hnearestBlock hx hxmem
        rw [lands_iff_of_nearest hnearest]
        refine iff_of_false (fun hlands => ?_) fun hclear => hclear.2.1.elim hbefore hblank
        have hmem := (g.mem_block ⟨row, column⟩).2
        rw [hlands.trans hblock] at hmem
        exact hmem.1.not_gt hcolumnLt
  · have hnotMem := Set.eq_empty_iff_forall_notMem.1 hempty
    rw [clearBackward_iff_of_none hpos hrow hempty]
    by_cases hblank : g.Blank before
    · -- Nothing is visible before the cell, whose column is picked.
      have hblank' := Set.eq_empty_iff_forall_notMem.1 hblank
      have hcolumnEq : column = active.columnIndex := by
        refine (hleast.2 ⟨hactive.2, hle⟩).antisymm (le_of_not_gt fun hlt => ?_)
        exact hblank' column ⟨hleast.1.1, hleast.1.2, hend.symm ▸ hlt⟩
      have hbeyond : g.beyond (g.block active) .backward = ∅ := by
        refine Set.eq_empty_iff_forall_notMem.2 fun x hx => ?_
        have hxlt : x < (g.block active).columnStart := hx.2
        rw [hstart, ← hend] at hxlt
        rcases le_total x before.columnStart with h | h
        · exact hnotMem x ⟨hx.1, h⟩
        · exact hblank' x ⟨hx.1, h, hxlt⟩
      rw [lands_iff_of_empty hbeyond]
      refine ⟨fun h => ⟨fun _ => h.2, fun _ => row_eq_of_block_eq h.2 h.1 hrow hbeforeRow⟩,
        fun h => ⟨?_, h.1 hbeyond⟩⟩
      rw [h.2 hblank, hcolumnEq]
    · -- The first visible column of the block is picked.
      obtain ⟨x, hx, hxmem⟩ := Set.nonempty_iff_ne_empty.2 hblank
      obtain ⟨nearest, hnearest, hblock⟩ := hnearestBlock hx hxmem
      rw [lands_iff_of_nearest hnearest]
      refine iff_of_true ((hin hrow.1.2 ⟨hleast.1.2, ?_⟩).trans hblock.symm)
        ⟨fun h => absurd h (Set.Nonempty.ne_empty ⟨_, hnearest.1⟩), fun h => absurd h hblank⟩
      exact (hleast.2 ⟨hx, hxmem.1⟩).trans_lt hxmem.2

end Backward

/-- A step backward goes where it should if and only if the block before the cell lets it. -/
theorem Valid.reaches_backward_iff (hg : g.Valid) (hactive : g.Shown active) :
    ∃ next, g.step active .backward = some next ∧ g.Shown next ∧
      (g.Reaches active .backward next ↔
        g.ClearBackward active (g.block ⟨active.rowIndex, active.columnIndex - 1⟩)) := by
  obtain ⟨row, column, next, hrow, hpick, hstep, hfirst⟩ := exists_step hactive .backward
  refine ⟨next, hstep, hfirst.shown, ?_⟩
  rw [reaches_iff_lands hg hfirst]
  have hneighbour : g.neighbour active .backward =
    ⟨active.rowIndex, active.columnIndex - 1⟩ := rfl
  rw [hneighbour] at hrow hpick
  obtain ⟨-, hcolumnMem⟩ := g.mem_block active
  have hbeforeColumn := (g.mem_block ⟨active.rowIndex, active.columnIndex - 1⟩).2
  obtain ⟨picked, hpicked, hcases⟩ := pickVisible_backward
    (hbeforeColumn.1.trans_lt ((Nat.sub_le _ _).trans_lt hactive.2.1)) hactive.2
  obtain rfl : picked = column := Option.some.inj (hpicked.symm.trans hpick)
  rcases Nat.eq_zero_or_pos active.columnIndex with hzero | hpos
  · -- There is no column before the cell, and none in its block.
    have hbefore : g.block ⟨active.rowIndex, active.columnIndex - 1⟩ = g.block active := by
      rw [hzero, Nat.zero_sub, ← hzero]
    rw [hbefore] at hrow hcases ⊢
    have hstart : (g.block active).columnStart = 0 := Nat.le_zero.1 (hzero ▸ hcolumnMem.1)
    have hbeyond : g.beyond (g.block active) .backward = ∅ := by
      refine Set.eq_empty_iff_forall_notMem.2 fun x hx => ?_
      have hxlt : x < (g.block active).columnStart := hx.2
      rw [hstart] at hxlt
      exact Nat.not_lt_zero x hxlt
    have hpickedEq : picked = active.columnIndex := by
      have hmem : active.columnIndex ∈
          g.shownColumns ∩ Set.Iic (g.block active).columnStart :=
        ⟨hactive.2, hzero.trans_le (Nat.zero_le _)⟩
      rcases hcases with hgreatest | ⟨hempty, -⟩
      · have hle : picked ≤ (g.block active).columnStart := hgreatest.1.2
        omega
      · exact absurd hmem (Set.eq_empty_iff_forall_notMem.1 hempty _)
    have hblock := hg.block_eq hrow.1.2 (hpickedEq ▸ hcolumnMem)
    have hnot : ¬0 < active.columnIndex := hzero.not_gt
    rw [lands_iff_of_empty hbeyond]
    exact ⟨fun h => ⟨fun _ => h.2, fun h => absurd h hnot, fun _ _ h => absurd h hnot,
      fun _ h => absurd h hnot⟩, fun hclear => ⟨hblock, hclear.home hbeyond⟩⟩
  · by_cases hbefore : g.block ⟨active.rowIndex, active.columnIndex - 1⟩ = g.block active
    · exact hg.lands_within_iff hactive hpos hrow hcases hbefore hbeforeColumn
    · exact hg.lands_before_iff hactive hpos hrow hcases rfl hbefore

/-- A step is taken from every visible cell, to a visible one. It goes where it should if and only
if the blocks let it. -/
theorem Valid.reaches_iff (hg : g.Valid) (hactive : g.Shown active) (direction : AxisDirection) :
    ∃ next, g.step active direction = some next ∧ g.Shown next ∧
      (g.Reaches active direction next ↔ g.Clear active direction) := by
  cases direction with
  | forward => exact hg.reaches_forward_iff hactive
  | backward => exact hg.reaches_backward_iff hactive

end Steps

end MergeGrid

end Tabulark.View
