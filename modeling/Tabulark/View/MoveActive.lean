import Tabulark.View.MergeGrid

/-!
# Moving the active cell

`moveActive` moves the active cell by a command of the keyboard. An arrow is a step on the grid of
the table, or on its transpose (`moveActive_of_step`), so that it reaches the neighbouring visible
cell if and only if the blocks of merged cells let it (`moveActive_reaches_iff`). They do not where
the first column of a region is hidden: the region is jumped over (`moveActive_skips`).
-/

namespace Tabulark.View

/-! ## Commands -/

inductive NavigationCommand
  | left
  | right
  | up
  | down
  | pageUp
  | pageDown
  | rowStart
  | rowEnd
  | tableStart
  | tableEnd
  deriving DecidableEq, Repr

/-- The merged region of a cell. -/
def mergeContaining (regions : List MergedCellRegion) (cell : CellPosition) :
    Option MergedCellRegion :=
  regions.find? fun region => region.rangeContains cell.rowIndex cell.columnIndex

/-- The cell that a command goes to, within the table. -/
def moveCell (cell : CellPosition) (command : NavigationCommand)
    (rowCount columnCount pageRowCount : ℕ) : Option CellPosition :=
  (clampCell cell rowCount columnCount).bind fun current =>
    let page := max 1 pageRowCount
    match command with
    | .left => clampCell ⟨current.rowIndex, current.columnIndex - 1⟩ rowCount columnCount
    | .right => clampCell ⟨current.rowIndex, current.columnIndex + 1⟩ rowCount columnCount
    | .up => clampCell ⟨current.rowIndex - 1, current.columnIndex⟩ rowCount columnCount
    | .down => clampCell ⟨current.rowIndex + 1, current.columnIndex⟩ rowCount columnCount
    | .pageUp => clampCell ⟨current.rowIndex - page, current.columnIndex⟩ rowCount columnCount
    | .pageDown => clampCell ⟨current.rowIndex + page, current.columnIndex⟩ rowCount columnCount
    | .rowStart => some ⟨current.rowIndex, 0⟩
    | .rowEnd => some ⟨current.rowIndex, columnCount - 1⟩
    | .tableStart => some ⟨0, 0⟩
    | .tableEnd => some ⟨rowCount - 1, columnCount - 1⟩

/-- Where a command starts from: at the far edge of a merged region. -/
def navigationOrigin (current : CellPosition) (command : NavigationCommand)
    (regions : List MergedCellRegion) : CellPosition :=
  match mergeContaining regions current with
  | none => current
  | some merge =>
    match command with
    | .right => ⟨current.rowIndex, merge.columnEnd - 1⟩
    | .down | .pageDown => ⟨merge.rowEnd - 1, current.columnIndex⟩
    | _ => current

/-- In which directions visible rows and columns are looked for. -/
def navigationDirections : NavigationCommand → AxisDirection × AxisDirection
  | .left | .rowStart => (.forward, .backward)
  | .up | .pageUp => (.backward, .forward)
  | .tableStart => (.backward, .backward)
  | _ => (.forward, .forward)

/-- Moves the active cell, or the first one if there is none. -/
def ViewState.moveActive (s : ViewState) (command : NavigationCommand) : ViewState :=
  let current := s.activeCell.getD ⟨0, 0⟩
  let origin := navigationOrigin current command s.mergedCells
  let moved := moveCell origin command s.layout.rowCount s.layout.columnCount
    (max 1 (s.layout.visibleRows.filter fun row => !row.frozen).length)
  let directions := navigationDirections command
  match moved.bind fun moved => s.visibleCell (s.mergeAnchor moved) directions.1 directions.2 with
  | none => s
  | some next => s.setActiveCell next

/-! ## Transposes -/

def CellPosition.transpose (cell : CellPosition) : CellPosition :=
  ⟨cell.columnIndex, cell.rowIndex⟩

def GridRange.transpose (range : GridRange) : GridRange where
  rowStart := range.columnStart
  rowEnd := range.columnEnd
  columnStart := range.rowStart
  columnEnd := range.rowEnd

theorem GridRange.mem_cells_transpose {range : GridRange} {cell : CellPosition} :
    cell ∈ range.transpose.cells ↔ cell.transpose ∈ range.cells := by
  rw [mem_cells, mem_cells]
  dsimp only [transpose, CellPosition.transpose]
  tauto

namespace MergeGrid

variable {g : MergeGrid} {cell : CellPosition}

/-- Rows and columns in each other's place. -/
def transpose (g : MergeGrid) : MergeGrid where
  rowCount := g.columnCount
  columnCount := g.rowCount
  rowSize := g.columnSize
  columnSize := g.rowSize
  regions := g.regions.map GridRange.transpose

theorem Valid.transpose (hg : g.Valid) : g.transpose.Valid := by
  refine ⟨List.pairwise_map.2 (hg.disjoint.imp fun h => Set.disjoint_left.2 ?_), ?_⟩
  · intro cell hleft hright
    exact Set.disjoint_left.1 h (GridRange.mem_cells_transpose.1 hleft)
      (GridRange.mem_cells_transpose.1 hright)
  · intro region hregion
    obtain ⟨original, horiginal, rfl⟩ := List.mem_map.1 hregion
    exact (hg.inside original horiginal).symm

theorem shown_transpose : g.transpose.Shown cell.transpose ↔ g.Shown cell := and_comm

theorem block_transpose (g : MergeGrid) (cell : CellPosition) :
    g.transpose.block cell.transpose = (g.block cell).transpose := by
  have hcontains : (fun region : GridRange => region.rangeContains cell.transpose.rowIndex
      cell.transpose.columnIndex) ∘ GridRange.transpose =
        fun region => region.rangeContains cell.rowIndex cell.columnIndex := by
    funext region
    rw [Bool.eq_iff_iff]
    exact GridRange.mem_cells_transpose
  unfold block
  rw [show g.transpose.regions = g.regions.map GridRange.transpose from rfl, List.find?_map,
    hcontains]
  cases g.regions.find? fun region => region.rangeContains cell.rowIndex cell.columnIndex <;> rfl

/-- The end of the block of a cell is within the table. -/
theorem Valid.columnEnd_le (hg : g.Valid) (hcell : g.Shown cell) :
    (g.block cell).columnEnd ≤ g.columnCount := by
  unfold block
  cases hfind : g.regions.find? fun region =>
      region.rangeContains cell.rowIndex cell.columnIndex with
  | none => exact hcell.2.1
  | some region => exact (hg.inside region (List.mem_of_find?_eq_some hfind)).2

theorem Shown.of_visibleCell {direction : AxisDirection} {start : CellPosition}
    (h : g.visibleCell start direction = some cell) : g.Shown cell := by
  obtain ⟨row, hrow, h⟩ := Option.bind_eq_some_iff.1 h
  obtain ⟨column, hcolumn, h⟩ := Option.bind_eq_some_iff.1 h
  cases h
  exact ⟨mem_of_pickVisible hrow, mem_of_pickVisible hcolumn⟩

end MergeGrid

/-! ## Arrows -/

/-- The commands that go to a neighbour. -/
inductive Arrow
  | left
  | right
  | up
  | down
  deriving DecidableEq, Repr

namespace Arrow

def command : Arrow → NavigationCommand
  | left => .left
  | right => .right
  | up => .up
  | down => .down

def direction : Arrow → AxisDirection
  | left | up => .backward
  | right | down => .forward

/-- A cell on the grid that an arrow moves along the columns of. -/
def seen : Arrow → CellPosition → CellPosition
  | left, cell | right, cell => cell
  | up, cell | down, cell => cell.transpose

@[simp] theorem seen_seen (arrow : Arrow) (cell : CellPosition) :
    arrow.seen (arrow.seen cell) = cell := by
  cases arrow <;> rfl

end Arrow

namespace ViewState

variable (s : ViewState)

/-- The rows and columns of the table. -/
def grid : MergeGrid where
  rowCount := s.layout.rowCount
  columnCount := s.layout.columnCount
  rowSize := axisSize s.layout.rowGeometry
  columnSize := columnSize s.layout.effectiveColumnWidths
  regions := s.mergedCells

/-- The grid, or its transpose for an arrow along the rows. -/
def along : Arrow → MergeGrid
  | .left | .right => s.grid
  | .up | .down => s.grid.transpose

theorem visibleCell_eq (cell : CellPosition) (direction : AxisDirection) :
    s.visibleCell cell .forward direction = s.grid.visibleCell cell direction := by
  have hrows := s.wellFormed.geometry_count
  have hcolumns := s.wellFormed.widths_length
  simp only [visibleCell, nextVisibleAxisIndex, nextVisibleColumn, hrows, hcolumns]
  rfl

theorem visibleCell_eq_transpose (cell : CellPosition) (direction : AxisDirection) :
    s.visibleCell cell direction .forward =
      (s.grid.transpose.visibleCell cell.transpose direction).map CellPosition.transpose := by
  have hrows := s.wellFormed.geometry_count
  have hcolumns := s.wellFormed.widths_length
  have hrow : (nextVisibleAxisIndex s.layout.rowGeometry cell.rowIndex direction).or
      (nextVisibleAxisIndex s.layout.rowGeometry cell.rowIndex direction.opposite) =
        pickVisible s.grid.rowSize s.grid.rowCount cell.rowIndex direction := by
    rw [nextVisibleAxisIndex, nextVisibleAxisIndex, hrows]
    rfl
  have hcolumn : (nextVisibleColumn s.layout.effectiveColumnWidths cell.columnIndex .forward).or
      (nextVisibleColumn s.layout.effectiveColumnWidths cell.columnIndex .backward) =
        pickVisible s.grid.columnSize s.grid.columnCount cell.columnIndex .forward := by
    rw [nextVisibleColumn, nextVisibleColumn, hcolumns]
    rfl
  rw [visibleCell, AxisDirection.opposite, hrow, hcolumn]
  unfold MergeGrid.visibleCell MergeGrid.transpose CellPosition.transpose
  dsimp only
  cases pickVisible s.grid.rowSize s.grid.rowCount cell.rowIndex direction <;>
    cases pickVisible s.grid.columnSize s.grid.columnCount cell.columnIndex .forward <;> rfl

theorem mergeAnchor_eq (cell : CellPosition) : s.mergeAnchor cell = s.grid.anchor cell := by
  unfold mergeAnchor MergeGrid.anchor MergeGrid.block
  rw [show s.grid.regions = s.mergedCells from rfl]
  cases s.mergedCells.find? fun region =>
    region.rangeContains cell.rowIndex cell.columnIndex <;> rfl

theorem anchor_transpose (cell : CellPosition) :
    s.grid.transpose.anchor cell.transpose = (s.grid.anchor cell).transpose := by
  rw [MergeGrid.anchor, MergeGrid.block_transpose]
  rfl

variable {s} {active cell next : CellPosition}

theorem shown_along {arrow : Arrow} :
    (s.along arrow).Shown cell ↔ s.grid.Shown (arrow.seen cell) := by
  cases arrow with
  | left | right => exact Iff.rfl
  | up | down => exact and_comm

theorem valid_along (hvalid : s.grid.Valid) (arrow : Arrow) : (s.along arrow).Valid := by
  cases arrow with
  | left | right => exact hvalid
  | up | down => exact hvalid.transpose

theorem clampCell_of_shown (h : s.grid.Shown cell) :
    clampCell cell s.layout.rowCount s.layout.columnCount = some cell := by
  have hrow : cell.rowIndex < s.layout.rowCount := h.1.1
  have hcolumn : cell.columnIndex < s.layout.columnCount := h.2.1
  rw [clampCell, if_neg (by omega), min_eq_right (by omega), min_eq_right (by omega)]

/-- The cell that becomes active for a visible one, on the grid of an arrow. -/
theorem activeTarget_eq (arrow : Arrow) (h : s.grid.Shown cell) :
    s.activeTarget cell = ((s.along arrow).activeTarget (arrow.seen cell)).map arrow.seen := by
  rw [activeTarget, clampCell_of_shown h, Option.bind_some]
  cases arrow with
  | left | right =>
    rw [visibleCell_eq, mergeAnchor_eq]
    exact Option.map_id'.symm
  | up | down =>
    rw [visibleCell_eq_transpose, mergeAnchor_eq, ← anchor_transpose]
    rfl

theorem activeCell_scrollCellIntoView (s : ViewState) (cell : CellPosition) :
    (s.scrollCellIntoView cell).activeCell = s.activeCell := by
  unfold scrollCellIntoView rebuildSnapshot
  split_ifs
  · rfl
  · split <;> rfl

theorem activeCell_setActiveCell (h : s.activeTarget cell = some next) :
    (s.setActiveCell cell).activeCell = some next := by
  rw [setActiveCell, h]
  exact activeCell_scrollCellIntoView _ _

/-- Where an arrow starts from, by the block of the active cell. -/
theorem navigationOrigin_eq (arrow : Arrow) (active : CellPosition) :
    navigationOrigin active arrow.command s.mergedCells =
      match arrow with
      | .left | .up => active
      | .right => ⟨active.rowIndex, (s.grid.block active).columnEnd - 1⟩
      | .down => ⟨(s.grid.block active).rowEnd - 1, active.columnIndex⟩ := by
  unfold navigationOrigin mergeContaining MergeGrid.block
  rw [show s.grid.regions = s.mergedCells from rfl]
  cases arrow <;> cases s.mergedCells.find? fun region =>
    region.rangeContains active.rowIndex active.columnIndex <;> rfl

/-- The cell that an arrow goes to is the neighbour on its grid. -/
theorem moveCell_eq (hvalid : s.grid.Valid) (hactive : s.grid.Shown active) (arrow : Arrow)
    (page : ℕ) :
    moveCell (navigationOrigin active arrow.command s.mergedCells) arrow.command
        s.layout.rowCount s.layout.columnCount page =
      some (arrow.seen ((s.along arrow).neighbour (arrow.seen active) arrow.direction)) := by
  have hrow : active.rowIndex < s.layout.rowCount := hactive.1.1
  have hcolumn : active.columnIndex < s.layout.columnCount := hactive.2.1
  have hcolumnEnd : (s.grid.block active).columnEnd ≤ s.layout.columnCount :=
    hvalid.columnEnd_le hactive
  have hrowEnd : (s.grid.block active).rowEnd ≤ s.layout.rowCount := by
    have h := hvalid.transpose.columnEnd_le (MergeGrid.shown_transpose.2 hactive)
    rwa [MergeGrid.block_transpose] at h
  obtain ⟨hmemRow, hmemColumn⟩ := s.grid.mem_block active
  have hne : ¬(s.layout.rowCount = 0 ∨ s.layout.columnCount = 0) := by omega
  have hclamp (row column : ℕ) : clampCell ⟨row, column⟩ s.layout.rowCount s.layout.columnCount =
      some ⟨min (s.layout.rowCount - 1) row, min (s.layout.columnCount - 1) column⟩ := by
    rw [clampCell, if_neg hne]
  have hrowEq : min (s.layout.rowCount - 1) active.rowIndex = active.rowIndex := by omega
  have hcolumnEq : min (s.layout.columnCount - 1) active.columnIndex = active.columnIndex := by
    omega
  rw [navigationOrigin_eq, moveCell]
  cases arrow with
  | left =>
    rw [clampCell_of_shown hactive, Option.bind_some]
    refine (hclamp _ _).trans (congrArg some ?_)
    rw [hrowEq, min_eq_right (by omega)]
    rfl
  | up =>
    rw [clampCell_of_shown hactive, Option.bind_some]
    refine (hclamp _ _).trans (congrArg some ?_)
    rw [hcolumnEq, min_eq_right (by omega)]
    rfl
  | right =>
    have hlast : min (s.layout.columnCount - 1) ((s.grid.block active).columnEnd - 1) + 1 =
        (s.grid.block active).columnEnd := by
      have hpos := hmemColumn.1.trans_lt hmemColumn.2
      omega
    rw [hclamp, Option.bind_some]
    refine (hclamp _ _).trans (congrArg some ?_)
    rw [hlast, hrowEq, hrowEq]
    rfl
  | down =>
    have hlast : min (s.layout.rowCount - 1) ((s.grid.block active).rowEnd - 1) + 1 =
        (s.grid.block active).rowEnd := by
      have hpos := hmemRow.1.trans_lt hmemRow.2
      omega
    rw [hclamp, Option.bind_some]
    refine (hclamp _ _).trans (congrArg some ?_)
    rw [hlast, hcolumnEq, hcolumnEq]
    change _ = CellPosition.transpose ⟨_, min _ (s.grid.transpose.block active.transpose).columnEnd⟩
    rw [MergeGrid.block_transpose]
    rfl

/-- An arrow goes where a step on its grid goes. -/
theorem moveActive_of_step (arrow : Arrow) (hvalid : s.grid.Valid)
    (hactive : s.activeCell = some active) (hshown : s.grid.Shown active)
    (hstep : (s.along arrow).step (arrow.seen active) arrow.direction = some next) :
    (s.moveActive arrow.command).activeCell = some (arrow.seen next) := by
  obtain ⟨picked, hpicked, htarget⟩ := Option.bind_eq_some_iff.1 hstep
  have hvisible (moved : CellPosition) : s.visibleCell (s.mergeAnchor (arrow.seen moved))
      (navigationDirections arrow.command).1 (navigationDirections arrow.command).2 =
        ((s.along arrow).visibleCell ((s.along arrow).anchor moved) arrow.direction).map
          arrow.seen := by
    rw [mergeAnchor_eq]
    cases arrow with
    | left | right => exact (visibleCell_eq _ _ _).trans Option.map_id'.symm
    | up | down =>
      refine (visibleCell_eq_transpose _ _ _).trans ?_
      rw [← anchor_transpose]
      rfl
  have hpickedShown : s.grid.Shown (arrow.seen picked) :=
    shown_along.1 (MergeGrid.Shown.of_visibleCell hpicked)
  have hmoves : s.moveActive arrow.command = s.setActiveCell (arrow.seen picked) := by
    rw [moveActive, hactive, Option.getD_some, moveCell_eq hvalid hshown, Option.bind_some,
      hvisible, hpicked]
    rfl
  rw [hmoves]
  refine activeCell_setActiveCell ?_
  rw [activeTarget_eq arrow hpickedShown, Arrow.seen_seen, htarget]
  rfl

/-- An arrow reaches the neighbouring visible cell: a step reaches it on the grid of the arrow. -/
def Reached (s : ViewState) (arrow : Arrow) (active next : CellPosition) : Prop :=
  (s.along arrow).Reaches (arrow.seen active) arrow.direction (arrow.seen next)

/-- An arrow makes a visible cell active, which is the neighbour if and only if the blocks at the
    active cell let a step reach it. -/
theorem reached_iff_clear (arrow : Arrow) (hvalid : s.grid.Valid)
    (hactive : s.activeCell = some active) (hshown : s.grid.Shown active) :
    (∃ next, (s.moveActive arrow.command).activeCell = some next ∧ s.grid.Shown next ∧
        s.Reached arrow active next) ↔
      (s.along arrow).Clear (arrow.seen active) arrow.direction := by
  have hseen : (s.along arrow).Shown (arrow.seen active) := by
    rw [shown_along, Arrow.seen_seen]
    exact hshown
  obtain ⟨next, hstep, hnext, hreaches⟩ :=
    (valid_along hvalid arrow).reaches_iff hseen arrow.direction
  rw [← hreaches]
  have hmoved := moveActive_of_step arrow hvalid hactive hshown hstep
  constructor
  · rintro ⟨next', hnext', -, hreached⟩
    obtain rfl := Option.some.inj (hmoved.symm.trans hnext')
    rwa [Reached, Arrow.seen_seen] at hreached
  · intro h
    refine ⟨arrow.seen next, hmoved, shown_along.1 hnext, ?_⟩
    rwa [Reached, Arrow.seen_seen]

/-- For every table with disjoint merged regions and every visible active cell, an arrow goes to the
    neighbouring visible cell if and only if a step on its grid is clear. -/
theorem moveActive_reaches_iff (s : ViewState) (arrow : Arrow) (active : CellPosition)
    (hvalid : s.grid.Valid) (hactive : s.activeCell = some active)
    (hshown : s.grid.Shown active) :
    (∃ next, (s.moveActive arrow.command).activeCell = some next ∧ s.grid.Shown next ∧
        s.Reached arrow active next) ↔
      (s.along arrow).Clear (arrow.seen active) arrow.direction :=
  reached_iff_clear arrow hvalid hactive hshown

/-! ## A region with a hidden first column -/

def fourColumns : TableMetadata where
  tableId := "table"
  name := "table"
  revision := 0
  extent := ⟨.exact 10, .exact 4⟩
  schema := ⟨0, [⟨"a", [], 0, .utf8, true⟩, ⟨"b", [], 1, .utf8, true⟩, ⟨"c", [], 2, .utf8, true⟩,
    ⟨"d", [], 3, .utf8, true⟩], Nat.zero_le _, rfl⟩
  capabilities := .delimited .full

/-- The second and the third cell of the first row are merged, and the second column is hidden. The
    last cell of the row is active. -/
theorem exists_hiddenStart : ∃ s : ViewState, s.grid.Valid ∧ s.activeCell = some ⟨0, 3⟩ ∧
    s.mergedCells = [⟨0, 1, 1, 3⟩] ∧ 0 ∈ s.grid.shownRows ∧
    ∀ column, column ∈ s.grid.shownColumns ↔ column = 0 ∨ column = 2 ∨ column = 3 := by
  have hvalid : LayoutValid fourColumns [100, 100, 100, 100] ⟨500, 100, 0, 0, none⟩
      { hiddenColumns := [false, true, false, false] } := by
    refine ⟨?_, ?_, ?_, ?_, by decide, by decide, ?_, ?_, ?_, rfl, ?_, .inr rfl, by decide,
      by decide, by decide⟩ <;> norm_num
  obtain ⟨l, hl⟩ := hvalid.exists_layout
  have hcreated := createTableLayout_created hl
  have hrows : l.rowCount = 10 := hcreated.rowCount_eq
  have hcolumns : l.columnCount = 4 := hcreated.columnCount_eq
  have hwidths : l.effectiveColumnWidths = [100, 0, 100, 100] := by
    rw [hcreated.widths_eq]
    rfl
  have hheight : axisSize l.rowGeometry 0 = 28 := by
    have hgeometry := hcreated.geometry
    rw [hrows, createSparseAxisGeometry_eq (by decide) (by norm_num)] at hgeometry
    rw [← Except.ok.inj hgeometry, axisSize_geometryOf (by decide) (by norm_num) (by decide)]
    rfl
  refine ⟨{ ofLayout hl with mergedCells := [⟨0, 1, 1, 3⟩], activeCell := some ⟨0, 3⟩ },
    ⟨List.pairwise_singleton _ _, ?_⟩, rfl, rfl, ⟨?_, ?_⟩, fun column => ?_⟩
  · intro region hregion
    obtain rfl := List.mem_singleton.1 hregion
    change 1 ≤ l.rowCount ∧ 3 ≤ l.columnCount
    omega
  · change 0 < l.rowCount
    omega
  · change 0 < axisSize l.rowGeometry 0
    rw [hheight]
    norm_num
  · change column < l.columnCount ∧ 0 < l.effectiveColumnWidths.getD column 0 ↔ _
    rw [hcolumns, hwidths]
    constructor
    · rintro ⟨hlt, hsize⟩
      match column, hlt, hsize with
      | 0, _, _ => exact .inl rfl
      | 1, _, hsize => exact absurd hsize (lt_irrefl _)
      | 2, _, _ => exact .inr (.inl rfl)
      | 3, _, _ => exact .inr (.inr rfl)
    · rintro (rfl | rfl | rfl) <;> norm_num

/-- To the left, the region is jumped over. -/
theorem moveActive_skips : ∃ (s : ViewState) (active : CellPosition), s.grid.Valid ∧
    s.activeCell = some active ∧ s.grid.Shown active ∧
    ¬∃ next, (s.moveActive .left).activeCell = some next ∧ s.Reached .left active next := by
  obtain ⟨s, hvalid, hactive, hmerged, hrow, hcolumn⟩ := exists_hiddenStart
  have hshown : s.grid.Shown ⟨0, 3⟩ := ⟨hrow, (hcolumn 3).2 (by decide)⟩
  have hbefore : s.grid.block ⟨0, 2⟩ = ⟨0, 1, 1, 3⟩ := by
    rw [MergeGrid.block, show s.grid.regions = _ from hmerged]
    rfl
  have hblock : s.grid.block ⟨0, 3⟩ = ⟨0, 1, 3, 4⟩ := by
    rw [MergeGrid.block, show s.grid.regions = _ from hmerged]
    rfl
  refine ⟨s, ⟨0, 3⟩, hvalid, hactive, hshown, ?_⟩
  rintro ⟨next, hnext, hreached⟩
  obtain ⟨next', hstep, hnextShown, -⟩ := hvalid.reaches_iff hshown .backward
  have hmoved := moveActive_of_step .left hvalid hactive hshown hstep
  obtain rfl := Option.some.inj (hmoved.symm.trans hnext)
  have hclear : s.grid.ClearBackward ⟨0, 3⟩ (s.grid.block ⟨0, 2⟩) :=
    (reached_iff_clear .left hvalid hactive hshown).1 ⟨_, hmoved, hnextShown, hreached⟩
  rw [hbefore] at hclear
  have hhidden : 1 ∉ s.grid.shownColumns := fun h => absurd ((hcolumn 1).1 h) (by decide)
  have hfirst : IsGreatest (s.grid.shownColumns ∩ Set.Iio 1) 0 :=
    ⟨⟨(hcolumn 0).2 (by decide), Nat.one_pos⟩, fun x hx => Nat.le_of_lt_succ hx.2⟩
  have hfirstRow : s.grid.FirstRow ⟨0, 1, 1, 3⟩ 0 :=
    ⟨⟨hrow, le_rfl, Nat.one_pos⟩, fun x _ => Nat.zero_le x⟩
  rcases (hclear.hidden 0 0 (by decide) hhidden hfirst hfirstRow).1 with heq | hblank
  · rw [hblock] at heq
    exact absurd heq (by decide)
  · exact Set.eq_empty_iff_forall_notMem.1 hblank 2
      ⟨(hcolumn 2).2 (by decide), by decide, by decide⟩

/-- To the right of the last cell, nothing is visible. -/
theorem moveActive_reaches_iff_last : ∃ (s : ViewState) (active : CellPosition),
    s.grid.Valid ∧ s.activeCell = some active ∧ s.grid.Shown active ∧
    ((∃ next, (s.moveActive .right).activeCell = some next ∧ s.grid.Shown next ∧
        s.Reached .right active next) ↔ s.grid.ClearForward active) := by
  obtain ⟨s, hvalid, hactive, -, hrow, hcolumn⟩ := exists_hiddenStart
  have hshown : s.grid.Shown ⟨0, 3⟩ := ⟨hrow, (hcolumn 3).2 (by decide)⟩
  exact ⟨s, ⟨0, 3⟩, hvalid, hactive, hshown,
    moveActive_reaches_iff s .right ⟨0, 3⟩ hvalid hactive hshown⟩

end ViewState

end Tabulark.View
