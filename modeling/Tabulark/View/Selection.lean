import Tabulark.Lib.Closure
import Tabulark.View.Controller

/-!
# Selections

A selection goes from an anchor to a focus. In a table with merged regions its
range grows until it has all of every region that it has a part of. Ranges are
ordered by containment: the selected range is the least one that will do.
-/

namespace Tabulark.View

open Closure

/-! ## Ranges in ranges -/

namespace GridRange

variable {range left right : GridRange}

/-- A range lies in another. -/
instance : PartialOrder GridRange where
  le candidate container := container.rangeContainsRange candidate
  le_refl range := by simp [rangeContainsRange]
  le_trans a b c hab hbc := by
    simp only [rangeContainsRange, Bool.and_eq_true, decide_eq_true_eq] at *
    omega
  le_antisymm a b hab hba := by
    simp only [rangeContainsRange, Bool.and_eq_true, decide_eq_true_eq] at *
    cases a
    cases b
    congr <;> dsimp only at * <;> omega

theorem le_iff : left ≤ right ↔ right.rowStart ≤ left.rowStart ∧ left.rowEnd ≤ right.rowEnd ∧
    right.columnStart ≤ left.columnStart ∧ left.columnEnd ≤ right.columnEnd := by
  change right.rangeContainsRange left = true ↔ _
  simp [rangeContainsRange, and_assoc]

/-- The least range around two. -/
instance : SemilatticeSup GridRange where
  sup left right := ⟨min left.rowStart right.rowStart, max left.rowEnd right.rowEnd,
    min left.columnStart right.columnStart, max left.columnEnd right.columnEnd⟩
  le_sup_left left right := le_iff.2 ⟨min_le_left _ _, le_max_left _ _, min_le_left _ _,
    le_max_left _ _⟩
  le_sup_right left right := le_iff.2 ⟨min_le_right _ _, le_max_right _ _, min_le_right _ _,
    le_max_right _ _⟩
  sup_le a b c hac hbc := by
    rw [le_iff] at *
    exact ⟨le_min hac.1 hbc.1, max_le hac.2.1 hbc.2.1, le_min hac.2.2.1 hbc.2.2.1,
      max_le hac.2.2.2 hbc.2.2.2⟩

instance : DecidableLE GridRange := fun left right =>
  inferInstanceAs (Decidable (right.rangeContainsRange left = true))

theorem rangesIntersect_iff : left.rangesIntersect right ↔
    left.rowStart < right.rowEnd ∧ right.rowStart < left.rowEnd ∧
      left.columnStart < right.columnEnd ∧ right.columnStart < left.columnEnd := by
  simp [rangesIntersect, and_assoc]

/-- A larger range shares cells with whatever a smaller one does. -/
theorem rangesIntersect_mono (left right : GridRange) (region : MergedCellRegion)
    (hle : left ≤ right) (h : left.rangesIntersect region) : right.rangesIntersect region := by
  rw [le_iff] at hle
  rw [rangesIntersect_iff] at *
  omega

/-- The cells of a range. -/
def cells (range : GridRange) : Set CellPosition :=
  {cell | range.rangeContains cell.rowIndex cell.columnIndex}

theorem mem_cells {cell : CellPosition} : cell ∈ range.cells ↔
    range.rowStart ≤ cell.rowIndex ∧ cell.rowIndex < range.rowEnd ∧
      range.columnStart ≤ cell.columnIndex ∧ cell.columnIndex < range.columnEnd :=
  rangeContains_iff

/-- A range has rows and columns. -/
def Proper (range : GridRange) : Prop :=
  range.rowStart < range.rowEnd ∧ range.columnStart < range.columnEnd

theorem cells_mono (hle : left ≤ right) : left.cells ⊆ right.cells := by
  intro cell hcell
  rw [le_iff] at hle
  rw [mem_cells] at *
  omega

/-- The first and the last cell tell whether a range lies in another. -/
theorem cells_subset_iff (hproper : left.Proper) : left.cells ⊆ right.cells ↔ left ≤ right := by
  refine ⟨fun h => ?_, cells_mono⟩
  obtain ⟨hrows, hcolumns⟩ := hproper
  have hfirst := mem_cells.1 (@h ⟨left.rowStart, left.columnStart⟩
    (mem_cells.2 ⟨le_rfl, hrows, le_rfl, hcolumns⟩))
  have hlast := mem_cells.1 (@h ⟨left.rowEnd - 1, left.columnEnd - 1⟩
    (mem_cells.2 (by dsimp only; omega)))
  rw [le_iff]
  dsimp only at *
  omega

/-- Ranges intersect where they share a cell. -/
theorem rangesIntersect_iff_cells (hleft : left.Proper) (hright : right.Proper) :
    left.rangesIntersect right ↔ (left.cells ∩ right.cells).Nonempty := by
  obtain ⟨hrows, hcolumns⟩ := hleft
  obtain ⟨hrows', hcolumns'⟩ := hright
  rw [rangesIntersect_iff]
  constructor
  · intro h
    refine ⟨⟨max left.rowStart right.rowStart, max left.columnStart right.columnStart⟩,
      mem_cells.2 ?_, mem_cells.2 ?_⟩ <;> dsimp only <;> omega
  · rintro ⟨cell, hcell, hcell'⟩
    rw [mem_cells] at *
    omega

end GridRange

/-! ## The selection -/

/-- A selected range, from where the selection began to where it is. -/
structure TableSelection where
  anchor : CellPosition
  focus : CellPosition
  range : GridRange
  deriving DecidableEq, Repr

/-- The indexes of a cell are safe integers. -/
def CellPosition.Safe (cell : CellPosition) : Prop :=
  cell.rowIndex ≤ maxSafeInteger ∧ cell.columnIndex ≤ maxSafeInteger

/-- Refuses a cell whose indexes are not safe integers. -/
def assertCellPosition (value : CellPosition) (name : String) : Result Unit :=
  if maxSafeInteger < value.rowIndex then
    .error (.new .invalidArgument s!"{name}.rowIndex must be a non-negative safe integer")
  else if maxSafeInteger < value.columnIndex then
    .error (.new .invalidArgument s!"{name}.columnIndex must be a non-negative safe integer")
  else .ok ()

/-- The least range with two cells. -/
def selectionRange (anchor focus : CellPosition) : GridRange where
  rowStart := min anchor.rowIndex focus.rowIndex
  rowEnd := max anchor.rowIndex focus.rowIndex + 1
  columnStart := min anchor.columnIndex focus.columnIndex
  columnEnd := max anchor.columnIndex focus.columnIndex + 1

/-- The selection from one cell to another. -/
def createSelection (anchor focus : CellPosition) : Result TableSelection := do
  assertCellPosition anchor "anchor"
  assertCellPosition focus "focus"
  pure ⟨anchor, focus, selectionRange anchor focus⟩

/-- The selection from one cell to another, with all of the merged regions it has a part of. -/
def createMergedSelection (anchor focus : CellPosition) (regions : List MergedCellRegion) :
    Result TableSelection := do
  let selection ← createSelection anchor focus
  pure { selection with range := close GridRange.rangesIntersect regions selection.range }

variable {anchor focus : CellPosition} {range : GridRange} {regions : List MergedCellRegion}

theorem assertCellPosition_of_safe (h : anchor.Safe) (name : String) :
    assertCellPosition anchor name = .ok () := by
  rw [assertCellPosition, if_neg (not_lt.2 h.1), if_neg (not_lt.2 h.2)]

theorem selectionRange_le_iff : selectionRange anchor focus ≤ range ↔
    anchor ∈ range.cells ∧ focus ∈ range.cells := by
  rw [GridRange.le_iff, GridRange.mem_cells, GridRange.mem_cells, selectionRange]
  dsimp only
  omega

theorem createMergedSelection_eq (hanchor : anchor.Safe) (hfocus : focus.Safe) :
    createMergedSelection anchor focus regions = .ok ⟨anchor, focus,
      close GridRange.rangesIntersect regions (selectionRange anchor focus)⟩ := by
  rw [createMergedSelection, createSelection, assertCellPosition_of_safe hanchor,
    assertCellPosition_of_safe hfocus]
  rfl

/-- A range with both cells and all of every region that it has a part of. -/
def Selects (anchor focus : CellPosition) (regions : List MergedCellRegion) (range : GridRange) :
    Prop :=
  anchor ∈ range.cells ∧ focus ∈ range.cells ∧
    ∀ region ∈ regions, range.rangesIntersect region → region ≤ range

/-- The same said of sets of cells. -/
def SelectsCells (anchor focus : CellPosition) (regions : List MergedCellRegion)
    (cells : Set CellPosition) : Prop :=
  anchor ∈ cells ∧ focus ∈ cells ∧
    ∀ region ∈ regions, (cells ∩ region.cells).Nonempty → region.cells ⊆ cells

theorem proper_of_mem {cell : CellPosition} (h : cell ∈ range.cells) : range.Proper := by
  rw [GridRange.mem_cells] at h
  exact ⟨by omega, by omega⟩

/-- Of regions with cells, both say the same. -/
theorem selectsCells_iff (hregions : ∀ region ∈ regions, region.Proper) :
    SelectsCells anchor focus regions range.cells ↔ Selects anchor focus regions range := by
  refine and_congr_right fun hanchor => and_congr_right fun _ => ?_
  have hproper := proper_of_mem hanchor
  refine forall₂_congr fun region hregion => ?_
  rw [GridRange.rangesIntersect_iff_cells hproper (hregions region hregion),
    GridRange.cells_subset_iff (hregions region hregion)]

/-- The closed range is the least one. -/
theorem isLeast_selects : IsLeast {range | Selects anchor focus regions range}
    (close GridRange.rangesIntersect regions (selectionRange anchor focus)) := by
  have hleast := @isLeast_close _ _ GridRange.rangesIntersect regions _
    GridRange.rangesIntersect_mono (selectionRange anchor focus)
  simp only [selectionRange_le_iff, and_assoc] at hleast
  exact hleast

/-- A merged selection is the least rectangle with both cells that has all of every merged
    region it shares cells with, whatever the order of the regions. -/
theorem createMergedSelection_isLeast (anchor focus : CellPosition) (hanchor : anchor.Safe)
    (hfocus : focus.Safe) (regions : List MergedCellRegion) :
    ∃ selection, createMergedSelection anchor focus regions = .ok selection ∧
      selection.anchor = anchor ∧ selection.focus = focus ∧
      IsLeast {range | Selects anchor focus regions range} selection.range ∧
      ((∀ region ∈ regions, region.Proper) →
        IsLeast {cells | (∃ range : GridRange, range.cells = cells) ∧
          SelectsCells anchor focus regions cells} selection.range.cells) ∧
      ∀ regions' : List MergedCellRegion, (∀ region, region ∈ regions' ↔ region ∈ regions) →
        createMergedSelection anchor focus regions' = .ok selection := by
  have hleast : IsLeast {range | Selects anchor focus regions range} _ := isLeast_selects
  refine ⟨_, createMergedSelection_eq hanchor hfocus, rfl, rfl, hleast, fun hregions => ?_, ?_⟩
  · refine ⟨⟨⟨_, rfl⟩, (selectsCells_iff hregions).2 hleast.1⟩, ?_⟩
    rintro _ ⟨⟨range, rfl⟩, hcells⟩
    exact GridRange.cells_mono (hleast.2 ((selectsCells_iff hregions).1 hcells))
  · intro regions' hmem
    rw [createMergedSelection_eq hanchor hfocus, close_congr GridRange.rangesIntersect_mono hmem]

/-- Two regions, the second of which only the first reaches. -/
theorem createMergedSelection_isLeast_chain :
    ∃ selection, createMergedSelection ⟨0, 0⟩ ⟨1, 1⟩ [⟨2, 4, 2, 4⟩, ⟨1, 3, 1, 3⟩] = .ok selection ∧
      IsLeast {range | Selects ⟨0, 0⟩ ⟨1, 1⟩ [⟨2, 4, 2, 4⟩, ⟨1, 3, 1, 3⟩] range}
        selection.range := by
  obtain ⟨selection, hselection, -, -, hleast, -⟩ := createMergedSelection_isLeast ⟨0, 0⟩ ⟨1, 1⟩
    ⟨by decide, by decide⟩ ⟨by decide, by decide⟩ [⟨2, 4, 2, 4⟩, ⟨1, 3, 1, 3⟩]
  exact ⟨selection, hselection, hleast⟩

end Tabulark.View
