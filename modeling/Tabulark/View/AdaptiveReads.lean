import Tabulark.View.Grid
import Tabulark.View.Reads

/-!
# Adaptive reads

A range is loaded in parts, and a part that proves too large is split again, down
to a single cell. `readRangeWindows` is what such a read comes to: its windows
have every cell of the range once (`tiles_readRangeWindows`), and the controller
gets there turn by turn (`turns_readRangeWindows`).
-/

namespace Tabulark.View

/-! ## Partitions -/

section Partitions

variable {start stop limit : ℕ} {part : IndexRange} {range : GridRange}
  {rowLimit columnLimit : ℕ}

/-- A part is no longer than the limit, and ends at a multiple of it or at the end of the axis. -/
theorem nextPartitionEnd_spec (h : start < stop) (hlimit : 0 < limit) :
    start < nextPartitionEnd start stop limit ∧ nextPartitionEnd start stop limit ≤ stop ∧
      nextPartitionEnd start stop limit - start ≤ limit ∧
      (nextPartitionEnd start stop limit = stop ∨ limit ∣ nextPartitionEnd start stop limit) := by
  obtain ⟨hpos, hle⟩ := lt_nextPartitionEnd h hlimit
  have hoffset := Nat.mod_lt start hlimit
  have hdivide := Nat.div_add_mod start limit
  refine ⟨hpos, hle, ?_, ?_⟩ <;> rw [nextPartitionEnd] <;> dsimp only
  · split_ifs <;> omega
  · split_ifs with hlast haligned
    · exact .inl rfl
    · refine .inr ⟨start / limit + 1, ?_⟩
      rw [Nat.mul_succ]
      omega
    · refine .inr ⟨start / limit + 1, ?_⟩
      rw [Nat.mul_succ]
      omega

/-- A part of an axis lies in it, and its inner ends are multiples of the limit. -/
structure PartOf (start stop limit : ℕ) (part : IndexRange) : Prop where
  lt : part.start < part.stop
  start_le : start ≤ part.start
  stop_le : part.stop ≤ stop
  length_le : part.stop - part.start ≤ limit
  start_eq : part.start = start ∨ limit ∣ part.start
  stop_eq : part.stop = stop ∨ limit ∣ part.stop

theorem partOf_partitionAxis {turns : ℕ} (hlimit : 0 < limit)
    (hpart : part ∈ partitionAxis turns start stop limit) : PartOf start stop limit part := by
  induction turns generalizing start with
  | zero => exact absurd hpart List.not_mem_nil
  | succ turns ih =>
    rw [partitionAxis] at hpart
    split_ifs at hpart with hlt
    · obtain ⟨hpos, hle, hlength, hstop⟩ := nextPartitionEnd_spec hlt hlimit
      rcases List.mem_cons.1 hpart with rfl | hrest
      · exact ⟨hpos, le_rfl, hle, hlength, .inl rfl, hstop⟩
      · have hpart := ih hrest
        refine ⟨hpart.lt, hpos.le.trans hpart.start_le, hpart.stop_le, hpart.length_le, .inr ?_,
          hpart.stop_eq⟩
        -- A later part begins where the one before ends, which is not the end of the axis.
        rcases hpart.start_eq with heq | hdvd
        · have hlast := hpart.lt.trans_le hpart.stop_le
          exact heq ▸ hstop.resolve_left fun h => absurd hlast (by omega)
        · exact hdvd
    · exact absurd hpart List.not_mem_nil

/-- The parts of an axis have each of its indexes once. -/
theorem multiplicity_partitionAxis {turns i : ℕ} (hlimit : 0 < limit)
    (hturns : stop - start ≤ turns) :
    multiplicity IndexRange.has (partitionAxis turns start stop limit) i =
      if start ≤ i ∧ i < stop then 1 else 0 := by
  induction turns generalizing start with
  | zero =>
    rw [partitionAxis, multiplicity_nil, if_neg (by omega)]
  | succ turns ih =>
    rw [partitionAxis]
    by_cases hlt : start < stop
    · obtain ⟨hpos, hle⟩ := lt_nextPartitionEnd hlt hlimit
      rw [if_pos hlt, multiplicity_cons, ih (by omega)]
      simp only [IndexRange.has_iff]
      split_ifs <;> omega
    · rw [if_neg hlt, multiplicity_nil, if_neg (by omega)]

/-- The parts of a range have each of its cells once. They are no larger than the limits, and
    their inner edges are at multiples of them. -/
structure Partitions (range : GridRange) (rowLimit columnLimit : ℕ) (parts : List GridRange) :
    Prop where
  once : ∀ cell, multiplicity GridRange.has parts cell = if range.has cell then 1 else 0
  rows : ∀ part ∈ parts, PartOf range.rowStart range.rowEnd rowLimit ⟨part.rowStart, part.rowEnd⟩
  columns : ∀ part ∈ parts,
    PartOf range.columnStart range.columnEnd columnLimit ⟨part.columnStart, part.columnEnd⟩

/-- The parts of ranges are those of each of them. -/
theorem partitionGridRanges_eq (ranges : List GridRange) : partitionGridRanges ranges rowLimit
    columnLimit = ranges.flatMap fun range => partitionGridRanges [range] rowLimit columnLimit := by
  simp [partitionGridRanges]

theorem partitions_partitionGridRanges (hrow : 0 < rowLimit) (hcolumn : 0 < columnLimit)
    (range : GridRange) : Partitions range rowLimit columnLimit
      (partitionGridRanges [range] rowLimit columnLimit) := by
  have hparts : partitionGridRanges [range] rowLimit columnLimit =
      (partitionAxis (range.rowEnd - range.rowStart) range.rowStart range.rowEnd rowLimit).flatMap
        fun row => (partitionAxis (range.columnEnd - range.columnStart) range.columnStart
          range.columnEnd columnLimit).map (rectangle row) := List.flatMap_singleton _ _
  rw [hparts]
  refine ⟨fun ⟨r, c⟩ => ?_, fun part hpart => ?_, fun part hpart => ?_⟩
  · rw [multiplicity_rectangles, multiplicity_partitionAxis hrow le_rfl,
      multiplicity_partitionAxis hcolumn le_rfl]
    simp only [GridRange.has_iff]
    split_ifs <;> omega
  all_goals
    simp only [List.mem_flatMap, List.mem_map] at hpart
    obtain ⟨row, hrow', column, hcolumn', rfl⟩ := hpart
  · exact partOf_partitionAxis hrow hrow'
  · exact partOf_partitionAxis hcolumn hcolumn'

end Partitions

/-! ## Reads of a range -/

/-- A table that refuses to read some of its ranges, as too large, and reads all others in full. -/
structure AdaptiveTable where
  value : ℕ → ℕ → Option String
  rejects : GridRange → Bool
  error : GridRange → TabularkError
  isAdaptive : ∀ range, isAdaptiveRangeByteLimit (error range)

/-- How such a table settles a read. -/
def AdaptiveTable.answer (table : AdaptiveTable) (range : GridRange) : Controller.Settlement :=
  if table.rejects range then .failure (table.error range)
  else .batch (batchOf table.value range.gridRangeToRequest range.rowEnd)

/-- The parts that a range is split into, unless it is a single cell. -/
def splitParts (range : GridRange) : Option (GridRange × GridRange) :=
  let rowCount := range.rowEnd - range.rowStart
  let columnCount := range.columnEnd - range.columnStart
  if 1 < rowCount then
    some ({ range with rowEnd := range.rowStart + rowCount / 2 },
      { range with rowStart := range.rowStart + rowCount / 2 })
  else if 1 < columnCount then
    some ({ range with columnEnd := range.columnStart + columnCount / 2 },
      { range with columnStart := range.columnStart + columnCount / 2 })
  else none

/-- The limits of later reads. -/
structure Limits where
  row : ℕ
  column : ℕ
  deriving DecidableEq, Repr

/-- The limits after a range was split. -/
def Limits.split (limits : Limits) (range : GridRange) : Limits :=
  let rowCount := range.rowEnd - range.rowStart
  let columnCount := range.columnEnd - range.columnStart
  if 1 < rowCount then
    { limits with
      row := min limits.row (max minAdaptiveRowLimit (rowCount - rowCount / 2)) }
  else if 1 < columnCount then
    { limits with column := min limits.column (columnCount - columnCount / 2) }
  else limits

/-- How many rows and columns a range has. -/
def extentOf (range : GridRange) : ℕ :=
  (range.rowEnd - range.rowStart) + (range.columnEnd - range.columnStart)

section Split

variable {range first second : GridRange} {limits : Limits} {cell : ℕ × ℕ}

/-- The parts of a range are smaller, and have each of its cells once. -/
theorem splitParts_eq_some (h : splitParts range = some (first, second)) :
    extentOf first < extentOf range ∧ extentOf second < extentOf range ∧
      (∀ cell, cellRange cell ≠ range) ∧
      ∀ cell, (range.has cell ↔ first.has cell ∨ second.has cell) ∧
        ¬(first.has cell ∧ second.has cell) := by
  unfold splitParts at h
  dsimp only at h
  split_ifs at h
  all_goals
    cases h
    simp only [extentOf, Prod.forall, GridRange.has_iff]
    refine ⟨?_, ?_, fun r c hcell => ?_, fun r c => ?_⟩
    rotate_left 2
    · subst hcell
      dsimp only [cellRange] at *
      omega
    all_goals omega

/-- A range that is not split has at most one cell. -/
theorem splitParts_eq_none (h : splitParts range = none) :
    range.rowEnd - range.rowStart ≤ 1 ∧ range.columnEnd - range.columnStart ≤ 1 := by
  unfold splitParts at h
  dsimp only at h
  split_ifs at h
  omega

/-- The limits get smaller, but stay positive. -/
theorem Limits.split_le (limits : Limits) (range : GridRange) :
    (limits.split range).row ≤ limits.row ∧ (limits.split range).column ≤ limits.column ∧
      (0 < limits.row → 0 < (limits.split range).row) ∧
        (0 < limits.column → 0 < (limits.split range).column) := by
  unfold Limits.split minAdaptiveRowLimit
  dsimp only
  split_ifs
  · dsimp only
    omega
  · dsimp only
    omega
  · exact ⟨le_rfl, le_rfl, id, id⟩

theorem Limits.split_of_none (h : splitParts range = none) : limits.split range = limits := by
  unfold splitParts at h
  unfold Limits.split
  dsimp only at *
  split_ifs at *
  rfl

end Split

/-- What came of the read of a range: the windows, the reads that were made for it and those that
    were refused, and the limits of later reads. -/
structure Call where
  windows : List LoadedWindow
  reads : List GridRange
  refused : List GridRange
  limits : Limits

/-- Reads a range. If the table refuses that, it is split, and the parts are read. -/
def readRangeWindows (table : AdaptiveTable) (limits : Limits) (range : GridRange) : Call :=
  if table.rejects range then
    match _hsplit : splitParts range with
    | none => ⟨[⟨range, [[some oversizedCellPreview]]⟩], [range], [range], limits⟩
    | some (first, second) =>
      let call := readRangeWindows table (limits.split range) first
      let call' := readRangeWindows table call.limits second
      { windows := call.windows ++ call'.windows
        reads := range :: (call.reads ++ call'.reads)
        refused := range :: (call.refused ++ call'.refused)
        limits := call'.limits }
  else
    ⟨Controller.batchWindows (batchOf table.value range.gridRangeToRequest range.rowEnd), [range],
      [], limits⟩
  termination_by extentOf range
  decreasing_by
    · exact (splitParts_eq_some _hsplit).1
    · exact (splitParts_eq_some _hsplit).2.1

/-- The windows of a read have every cell of the range once. A cell says that it is too large if
    its own read was refused, and has the value of the table otherwise. -/
structure Tiles (table : AdaptiveTable) (limits : Limits) (range : GridRange) (call : Call) :
    Prop where
  once : ∀ cell, multiplicity (fun window cell => window.range.has cell) call.windows cell =
    if range.has cell then 1 else 0
  shown : ∀ window ∈ call.windows, ∀ r c, window.range.has (r, c) → window.value r c =
    if cellRange (r, c) ∈ call.refused then some oversizedCellPreview else table.value r c
  refused_iff : ∀ part, part ∈ call.refused ↔ part ∈ call.reads ∧ table.rejects part
  within : ∀ part ∈ call.reads, ∀ cell, part.has cell → range.has cell
  row_le : call.limits.row ≤ limits.row
  column_le : call.limits.column ≤ limits.column
  row_pos : 0 < limits.row → 0 < call.limits.row
  column_pos : 0 < limits.column → 0 < call.limits.column

section Tiles

variable {table : AdaptiveTable} {limits : Limits} {range : GridRange}

/-- A window has only cells of the range. -/
theorem Tiles.has_of_mem {call : Call} (h : Tiles table limits range call) {window : LoadedWindow}
    (hwindow : window ∈ call.windows) {cell : ℕ × ℕ} (hhas : window.range.has cell) :
    range.has cell := by
  by_contra hout
  have hzero := h.once cell
  rw [if_neg hout] at hzero
  exact multiplicity_eq_zero.1 hzero window hwindow hhas

/-- A single cell that cannot be read, or none. -/
theorem tiles_oversized (hrejects : table.rejects range) (hsplit : splitParts range = none) :
    Tiles table limits range
      ⟨[⟨range, [[some oversizedCellPreview]]⟩], [range], [range], limits⟩ := by
  obtain ⟨hrows, hcolumns⟩ := splitParts_eq_none hsplit
  refine ⟨fun cell => ?_, fun window hwindow r c hhas => ?_, fun part => ?_, fun part hpart => ?_,
    le_rfl, le_rfl, id, id⟩
  · simp
  · obtain rfl := List.mem_singleton.1 hwindow
    have hcell : cellRange (r, c) = range := by
      rw [GridRange.has_iff] at hhas
      obtain ⟨rowStart, rowEnd, columnStart, columnEnd⟩ := range
      dsimp only [cellRange] at *
      congr <;> omega
    rw [if_pos (List.mem_singleton.2 hcell), ← hcell, LoadedWindow.value]
    simp [cellRange]
  · rw [List.mem_singleton]
    exact ⟨fun h => ⟨h, h ▸ hrejects⟩, fun h => h.1⟩
  · obtain rfl := List.mem_singleton.1 hpart
    exact fun _ => id

/-- A range that can be read. -/
theorem tiles_batch (haccepts : ¬table.rejects range) :
    Tiles table limits range
      ⟨Controller.batchWindows (batchOf table.value range.gridRangeToRequest range.rowEnd), [range],
        [], limits⟩ := by
  refine ⟨fun ⟨r, c⟩ => ?_, fun window hwindow r c hhas => ?_, fun part => ?_,
    fun part hpart => ?_, le_rfl, le_rfl, id, id⟩
  · have hrange : ∀ r c, (batchGridRange (batchOf table.value range.gridRangeToRequest
        range.rowEnd)).has (r, c) ↔ range.has (r, c) := fun r c => by
      rw [GridRange.has_iff, GridRange.has_iff]
      dsimp only [batchGridRange, batchOf, GridRange.gridRangeToRequest]
      omega
    rw [Controller.batchWindows]
    dsimp only
    split_ifs with hproper hin hin
    · rw [multiplicity_cons, multiplicity_nil, if_pos ((hrange r c).2 hin)]
    · rw [multiplicity_cons, multiplicity_nil, if_neg (mt (hrange r c).1 hin)]
    · -- A batch without cells has no windows.
      have hhas := GridRange.has_iff.1 ((hrange r c).2 hin)
      refine absurd ?_ hproper
      simp only [Bool.and_eq_true, decide_eq_true_eq]
      omega
    · rfl
  · rw [if_neg List.not_mem_nil]
    have hfair : window.Fair table.value [] := fair_batchWindows _ _ window hwindow
    exact (hfair r c hhas).resolve_right fun h => List.not_mem_nil h.2
  · refine iff_of_false List.not_mem_nil fun h => haccepts ?_
    exact List.mem_singleton.1 h.1 ▸ h.2
  · obtain rfl := List.mem_singleton.1 hpart
    exact fun _ => id

/-- A range that is read in two parts. -/
theorem tiles_split {first second : GridRange} {call call' : Call} (hrejects : table.rejects range)
    (hsplit : splitParts range = some (first, second))
    (hfirst : Tiles table (limits.split range) first call)
    (hsecond : Tiles table call.limits second call') :
    Tiles table limits range
      { windows := call.windows ++ call'.windows
        reads := range :: (call.reads ++ call'.reads)
        refused := range :: (call.refused ++ call'.refused)
        limits := call'.limits } := by
  obtain ⟨-, -, hcells, hparts⟩ := splitParts_eq_some hsplit
  obtain ⟨hrow, hcolumn, hrowPos, hcolumnPos⟩ := limits.split_le range
  have hone : ∀ cell, cellRange cell ∈ call.refused → first.has cell := fun cell hmem =>
    hfirst.within _ ((hfirst.refused_iff _).1 hmem).1 cell (has_cellRange.2 rfl)
  have hone' : ∀ cell, cellRange cell ∈ call'.refused → second.has cell := fun cell hmem =>
    hsecond.within _ ((hsecond.refused_iff _).1 hmem).1 cell (has_cellRange.2 rfl)
  refine ⟨fun cell => ?_, fun window hwindow r c hhas => ?_, fun part => ?_, fun part hpart => ?_,
    hsecond.row_le.trans (hfirst.row_le.trans hrow),
    hsecond.column_le.trans (hfirst.column_le.trans hcolumn),
    fun h => hsecond.row_pos (hfirst.row_pos (hrowPos h)),
    fun h => hsecond.column_pos (hfirst.column_pos (hcolumnPos h))⟩
  · have hpart := hparts cell
    rw [multiplicity_append, hfirst.once, hsecond.once]
    split_ifs <;> simp_all
  · -- A read of the one part says nothing of a cell of the other.
    have hmem : cellRange (r, c) ∈ range :: (call.refused ++ call'.refused) ↔
        cellRange (r, c) ∈ call.refused ∨ cellRange (r, c) ∈ call'.refused := by
      rw [List.mem_cons, List.mem_append]
      exact or_iff_right (hcells _)
    have hdisjoint := (hparts (r, c)).2
    rcases List.mem_append.1 hwindow with hwindow | hwindow
    · have hin := hfirst.has_of_mem hwindow hhas
      rw [hfirst.shown window hwindow r c hhas]
      refine if_congr (hmem.trans (or_iff_left fun h => ?_)).symm rfl rfl
      exact hdisjoint ⟨hin, hone' _ h⟩
    · have hin := hsecond.has_of_mem hwindow hhas
      rw [hsecond.shown window hwindow r c hhas]
      refine if_congr (hmem.trans (or_iff_right fun h => ?_)).symm rfl rfl
      exact hdisjoint ⟨hone _ h, hin⟩
  · have h₁ := hfirst.refused_iff part
    have h₂ := hsecond.refused_iff part
    simp only [List.mem_cons, List.mem_append, h₁, h₂]
    constructor
    · rintro (rfl | h | h)
      · exact ⟨.inl rfl, hrejects⟩
      · exact ⟨.inr (.inl h.1), h.2⟩
      · exact ⟨.inr (.inr h.1), h.2⟩
    · rintro ⟨h | h | h, hpart⟩
      · exact .inl h
      · exact .inr (.inl ⟨h, hpart⟩)
      · exact .inr (.inr ⟨h, hpart⟩)
  · intro cell hcell
    rcases List.mem_cons.1 hpart with rfl | hpart
    · exact hcell
    · rcases List.mem_append.1 hpart with hpart | hpart
      · exact (hparts cell).1.2 (.inl (hfirst.within part hpart cell hcell))
      · exact (hparts cell).1.2 (.inr (hsecond.within part hpart cell hcell))

/-- What is read of a range has every cell of it once. -/
theorem tiles_readRangeWindows (table : AdaptiveTable) (limits : Limits) (range : GridRange) :
    Tiles table limits range (readRangeWindows table limits range) := by
  fun_induction readRangeWindows table limits range with
  | case1 limits range hrejects hsplit => exact tiles_oversized hrejects hsplit
  | case2 limits range hrejects first second hsplit call call' hfirst hsecond =>
    exact tiles_split hrejects hsplit hfirst hsecond
  | case3 limits range haccepts => exact tiles_batch haccepts

end Tiles

/-! ## Turn by turn -/

namespace Controller

variable {screen : Screen} {table : AdaptiveTable} {c : Controller screen} {i : ℕ} {load : Load}
  {range : GridRange}

/-- The next turn of a load: the table answers the read that it waits for, or a function that has
    returned goes on in the one that called it. -/
def turn (table : AdaptiveTable) (i : ℕ) (c : Controller screen) : Controller screen :=
  match c.loads[i]?.bind (·.turn) with
  | some (.reading range) => c.step (.settle i (table.answer range))
  | some _ => c.step (.resume i)
  | none => c

/-- The controller when the read of a range has returned. -/
def afterCall (c : Controller screen) (i : ℕ) (load : Load) (call : Call) : Controller screen :=
  { c with
    loads := c.loads.set i { load with turn := some (.returned call.windows) }
    reads := c.reads ++ call.reads
    refused := c.refused ++ call.refused
    adaptiveRowLimit := call.limits.row
    adaptiveColumnLimit := call.limits.column }

/-- The limits of the reads of a controller. -/
def limits (c : Controller screen) : Limits := ⟨c.adaptiveRowLimit, c.adaptiveColumnLimit⟩

theorem splitRangeAfterByteLimit_eq : c.splitRangeAfterByteLimit range =
    ({ c with
        adaptiveRowLimit := (c.limits.split range).row
        adaptiveColumnLimit := (c.limits.split range).column }, splitParts range) := by
  unfold splitRangeAfterByteLimit Limits.split splitParts limits
  dsimp only
  split_ifs <;> rfl

theorem getElem?_readRange (hi : i < c.loads.length) : (c.readRange i load range).loads[i]? =
    some { load with turn := some (.reading range) } := by
  rw [readRange, setLoad]
  exact List.getElem?_set_self hi

/-- A load that waits for a read gets its answer. -/
theorem turn_readRange (hi : i < c.loads.length) : turn table i (c.readRange i load range) =
    if table.rejects range then (c.readRange i load range).settleFailure i
      { load with turn := some (.reading range) } range (table.error range)
    else (c.readRange i load range).settleBatch i { load with turn := some (.reading range) }
      (batchOf table.value range.gridRangeToRequest range.rowEnd) := by
  rw [turn, getElem?_readRange hi]
  dsimp only [Option.bind_some, step]
  rw [settle, getElem?_readRange hi]
  dsimp only
  rw [AdaptiveTable.answer]
  split_ifs <;> rfl

/-- The controller after a read was refused. -/
def refuse (c : Controller screen) (i : ℕ) (load : Load) (range : GridRange) : Controller screen :=
  { c.readRange i load range with
    refused := c.refused ++ [range]
    adaptiveRowLimit := (c.limits.split range).row
    adaptiveColumnLimit := (c.limits.split range).column }

/-- A read that was refused is split, if it can be. -/
theorem turn_rejected (hi : i < c.loads.length) (haborted : load.aborted = false)
    (hrejects : table.rejects range) : turn table i (c.readRange i load range) =
      match splitParts range with
      | none => (c.refuse i load range).setLoad i { load with
          turn := some (.returned [⟨range, [[some oversizedCellPreview]]⟩]) }
      | some (first, second) => (c.refuse i load range).readRange i
          { load with frames := ⟨[second], []⟩ :: load.frames } first := by
  rw [turn_readRange hi, if_pos hrejects]
  unfold settleFailure
  rw [table.isAdaptive, haborted, if_pos rfl, if_neg (by simp)]
  dsimp only
  rw [splitRangeAfterByteLimit_eq]
  dsimp only
  cases splitParts range <;> rfl

/-- A load whose reading function has returned goes on in the one that called it. -/
theorem turn_afterCall (table : AdaptiveTable) (hi : i < c.loads.length) (load : Load)
    (call : Call) (frame : Frame) (frames : List Frame) (hframes : load.frames = frame :: frames) :
    turn table i (c.afterCall i load call) =
      match frame.rest with
      | [] => (c.afterCall i load call).setLoad i { load with
          frames, turn := some (.returned (frame.windows ++ call.windows)) }
      | range :: rest => (c.afterCall i load call).readRange i { load with
          frames := ⟨rest, frame.windows ++ call.windows⟩ :: frames } range := by
  have hload : (c.afterCall i load call).loads[i]? =
      some { load with turn := some (.returned call.windows) } := List.getElem?_set_self hi
  rw [turn, hload]
  dsimp only [Option.bind_some, step]
  rw [resume, hload]
  dsimp only
  rw [hframes]
  rfl

theorem exists_iterate_trans {α : Type} {f : α → α} {a b c : α} (hab : ∃ n, f^[n] a = b)
    (hbc : ∃ n, f^[n] b = c) : ∃ n, f^[n] a = c := by
  obtain ⟨n, rfl⟩ := hab
  obtain ⟨m, rfl⟩ := hbc
  exact ⟨m + n, Function.iterate_add_apply f m n a⟩

/-- Turn by turn a read comes to its end, and what came of it is `readRangeWindows`. -/
theorem turns_readRangeWindows (table : AdaptiveTable) (limits : Limits) (range : GridRange) :
    ∀ (c : Controller screen) (i : ℕ) (load : Load), c.limits = limits → i < c.loads.length →
      load.aborted = false → ∃ n, (turn table i)^[n] (c.readRange i load range) =
        c.afterCall i load (readRangeWindows table limits range) := by
  fun_induction readRangeWindows table limits range with
  | case1 limits range hrejects hsplit =>
    intro c i load hlimits hi haborted
    subst hlimits
    refine ⟨1, ?_⟩
    rw [Function.iterate_one, turn_rejected hi haborted hrejects, hsplit]
    simp [refuse, setLoad, readRange, afterCall, limits, Limits.split_of_none hsplit]
  | case2 limits range hrejects first second hsplit call call' hfirst hsecond =>
    intro c i load hlimits hi haborted
    subst hlimits
    -- The first part is read above a frame that has the second one left.
    have hlength : i < (c.refuse i load range).loads.length := by
      simpa [refuse, readRange, setLoad] using hi
    have hread := hfirst (c.refuse i load range) i
      { load with frames := ⟨[second], []⟩ :: load.frames } rfl hlength haborted
    have hrefuse : turn table i (c.readRange i load range) = _ := turn_rejected hi haborted hrejects
    rw [hsplit] at hrefuse
    refine exists_iterate_trans ⟨1, hrefuse⟩ (exists_iterate_trans hread ?_)
    -- Then the second part is read above a frame that has nothing left.
    have hlength' : i < ((c.refuse i load range).afterCall i
        { load with frames := ⟨[second], []⟩ :: load.frames } call).loads.length := by
      simpa [afterCall] using hlength
    have hresume := turn_afterCall table hlength
      { load with frames := ⟨[second], []⟩ :: load.frames } call ⟨[second], []⟩ load.frames rfl
    refine exists_iterate_trans ⟨1, hresume⟩ ?_
    have hread' := hsecond _ i { load with
      frames := ⟨[], [] ++ call.windows⟩ :: load.frames } rfl hlength' haborted
    refine exists_iterate_trans hread' ?_
    -- The frame is popped.
    refine ⟨1, (turn_afterCall table hlength' { load with
      frames := ⟨[], [] ++ call.windows⟩ :: load.frames } call' ⟨[], [] ++ call.windows⟩
      load.frames rfl).trans ?_⟩
    simp [refuse, setLoad, readRange, afterCall]
  | case3 limits range haccepts =>
    intro c i load hlimits hi haborted
    subst hlimits
    refine ⟨1, ?_⟩
    rw [Function.iterate_one, turn_readRange hi, if_neg haccepts, settleBatch]
    simp [setLoad, readRange, afterCall, limits]

/-! ### Limits -/

/-- Later reads are not cut less than earlier ones, and always somewhere. -/
structure Narrows (c c' : Controller screen) : Prop where
  row_le : c'.adaptiveRowLimit ≤ c.adaptiveRowLimit
  column_le : c'.adaptiveColumnLimit ≤ c.adaptiveColumnLimit
  row_pos : 0 < c.adaptiveRowLimit → 0 < c'.adaptiveRowLimit
  column_pos : 0 < c.adaptiveColumnLimit → 0 < c'.adaptiveColumnLimit

theorem Narrows.of_eq {c c' : Controller screen} (h : c'.limits = c.limits) : c.Narrows c' := by
  injection h with hrow hcolumn
  exact ⟨hrow.le, hcolumn.le, fun h => hrow ▸ h, fun h => hcolumn ▸ h⟩

theorem limits_advanceGeneration (c : Controller screen) :
    c.advanceGeneration.limits = c.limits := by
  rw [advanceGeneration, queueLoad]
  split_ifs <;> rfl

theorem limits_clampInteraction (c : Controller screen) :
    c.clampInteraction.limits = c.limits := by
  unfold clampInteraction
  split <;> rfl

theorem limits_scrollCellIntoView (c : Controller screen) (cell : CellPosition) :
    (c.scrollCellIntoView cell).1.limits = c.limits := by
  unfold scrollCellIntoView
  dsimp only
  split_ifs <;> rfl

theorem limits_endLoad (c : Controller screen) (i : ℕ) (load : Load) :
    (c.endLoad i load).limits = c.limits := by
  unfold endLoad
  dsimp only
  split_ifs <;> rfl

theorem limits_handleTableEvent (c : Controller screen) (event : TableEvent) :
    (c.handleTableEvent event).limits = c.limits := by
  unfold handleTableEvent
  split_ifs
  · rfl
  · split
    · exact (limits_clampInteraction _).trans (limits_advanceGeneration _)
    · rfl
    · dsimp only
      split_ifs <;> rfl
    · rfl

theorem limits_runMicrotask (c : Controller screen) : c.runMicrotask.limits = c.limits := by
  unfold runMicrotask
  split_ifs
  · dsimp only
    split_ifs
    · rfl
    · unfold loadGeneration
      split
      · rfl
      · dsimp only
        split_ifs
        · rfl
        · rfl
        · split <;> rfl
  · rfl

theorem limits_resume (c : Controller screen) (i : ℕ) : (c.resume i).limits = c.limits := by
  unfold resume
  split
  · split
    · unfold loadWindows
      split_ifs
      · exact limits_endLoad _ _ _
      · dsimp only
        split
        · exact limits_endLoad _ _ _
        · rfl
    · split <;> rfl
    · unfold loadFailed
      split_ifs <;> exact limits_endLoad _ _ _
    · rfl
    · rfl
  · rfl

/-- Only a read that is split changes the limits. -/
theorem narrows_settleFailure (c : Controller screen) (i : ℕ) (load : Load) (range : GridRange)
    (error : TabularkError) : c.Narrows (c.settleFailure i load range error) := by
  obtain ⟨hrow, hcolumn, hrowPos, hcolumnPos⟩ := c.limits.split_le range
  unfold settleFailure
  by_cases hadaptive : isAdaptiveRangeByteLimit error = true
  · rw [if_pos hadaptive]
    split_ifs
    · exact .of_eq rfl
    · dsimp only
      rw [splitRangeAfterByteLimit_eq]
      dsimp only
      split <;> exact ⟨hrow, hcolumn, hrowPos, hcolumnPos⟩
  · rw [if_neg hadaptive, if_pos (by simp [hadaptive])]
    exact .of_eq rfl

theorem narrows_settle (c : Controller screen) (i : ℕ) (settlement : Settlement) :
    c.Narrows (c.settle i settlement) := by
  unfold settle
  split
  · split
    · split
      · exact .of_eq rfl
      · exact narrows_settleFailure _ _ _ _ _
    · exact .of_eq rfl
  · exact .of_eq rfl

/-- Whatever happens, the limits only decrease. -/
theorem narrows_step (c : Controller screen) (event : Event screen) : c.Narrows (c.step event) := by
  -- Only a read that fails for its size changes the limits.
  cases event with
  | settle i settlement => exact narrows_settle c i settlement
  | resume i => exact .of_eq (limits_resume c i)
  | microtask => exact .of_eq (limits_runMicrotask c)
  | table event => exact .of_eq (limits_handleTableEvent c event)
  | updateViewport viewport =>
    refine .of_eq ?_
    dsimp only [step]
    unfold updateViewport
    split_ifs
    · rfl
    · rfl
    · exact limits_advanceGeneration _
  | setActiveCell cell scrollIntoView =>
    refine .of_eq ?_
    dsimp only [step]
    unfold setActiveCell
    split_ifs
    · rfl
    · split
      · rfl
      · dsimp only
        split_ifs
        · exact (limits_advanceGeneration _).trans (limits_scrollCellIntoView _ _)
        · rfl
  | ensureCellVisible cell =>
    refine .of_eq ?_
    dsimp only [step]
    unfold ensureCellVisible
    split_ifs
    · rfl
    · split
      · rfl
      · dsimp only
        split_ifs
        · exact (limits_advanceGeneration _).trans (limits_scrollCellIntoView _ _)
        · rfl
  | ensureColumnVisible columnIndex =>
    refine .of_eq ?_
    dsimp only [step]
    unfold ensureColumnVisible
    split_ifs
    · rfl
    · rfl
    · dsimp only
      split_ifs
      · rfl
      · exact limits_advanceGeneration _
  | resizeColumn columnIndex width =>
    refine .of_eq ?_
    dsimp only [step]
    unfold resizeColumn
    split_ifs
    · rfl
    · rfl
    · rfl
    · exact limits_advanceGeneration _
  | applySpreadsheetPresentation presentation =>
    refine .of_eq ?_
    dsimp only [step]
    unfold applySpreadsheetPresentation
    split_ifs
    · rfl
    · rfl
    · exact (limits_clampInteraction _).trans (limits_advanceGeneration _)
  | setMergedCells regions =>
    refine .of_eq ?_
    dsimp only [step]
    unfold setMergedCells
    split_ifs
    · rfl
    · dsimp only
      split_ifs
      · rfl
      · exact (limits_advanceGeneration _).trans (limits_clampInteraction _)
  | dispose =>
    refine .of_eq ?_
    dsimp only [step]
    unfold dispose
    split_ifs <;> rfl

end Controller

/-- Ranges are cut into parts that have each of their cells once, no part is larger than the limits,
    and inner edges are at multiples of these. A load that reads a range of a table that refuses
    some of its ranges returns after some turns, with windows that have each cell of the range once:
    a cell says that it is too large if its own read was refused, and has its value otherwise. All
    the while the limits only decrease, and stay positive. -/
theorem adaptiveReads_tile {screen : Screen} :
    (∀ (ranges : List GridRange) (rowLimit columnLimit : ℕ), 0 < rowLimit → 0 < columnLimit →
      partitionGridRanges ranges rowLimit columnLimit =
          (ranges.flatMap fun range => partitionGridRanges [range] rowLimit columnLimit) ∧
        ∀ range, Partitions range rowLimit columnLimit
          (partitionGridRanges [range] rowLimit columnLimit)) ∧
    (∀ (table : AdaptiveTable) (range : GridRange) (c : Controller screen) (i : ℕ) (load : Load),
      i < c.loads.length → load.aborted = false → ∃ n call,
        (Controller.turn table i)^[n] (c.readRange i load range) = c.afterCall i load call ∧
          Tiles table c.limits range call) ∧
    ∀ (c : Controller screen) (event : Controller.Event screen), c.Narrows (c.step event) := by
  refine ⟨fun ranges rowLimit columnLimit hrow hcolumn => ⟨partitionGridRanges_eq ranges,
    partitions_partitionGridRanges hrow hcolumn⟩, fun table range c i load hi haborted => ?_,
    Controller.narrows_step⟩
  obtain ⟨n, hn⟩ := Controller.turns_readRangeWindows table c.limits range c i load rfl hi haborted
  exact ⟨n, _, hn, tiles_readRangeWindows table c.limits range⟩

/-- A table none of whose cells can be read. -/
def oversizedTable : AdaptiveTable where
  value _ _ := some "value"
  rejects _ := true
  error _ := (TabularkError.new .resourceLimit "The cell is too large").withDetail "resource"
    (.text "typed-batch-output")
  isAdaptive _ := by decide

/-- A load that is about to read. -/
def singleLoad : Load := { generation := 0, ranges := [], turn := none }

/-- Two cells of a table none of whose cells can be read. -/
theorem adaptiveReads_tile_oversized :
    Partitions ⟨1, 10, 0, 3⟩ 4 2 (partitionGridRanges [⟨1, 10, 0, 3⟩] 4 2) ∧
      ∃ n call, (Controller.turn oversizedTable 0)^[n]
          ({ Controller.new Controller.singleScreen Controller.singleMetadata (0 : ℕ) with
            loads := [singleLoad] }.readRange 0 singleLoad ⟨0, 2, 0, 1⟩) =
        { Controller.new Controller.singleScreen Controller.singleMetadata (0 : ℕ) with
            loads := [singleLoad] }.afterCall 0 singleLoad call ∧
          Tiles oversizedTable ⟨maxSafeInteger, maxSafeInteger⟩ ⟨0, 2, 0, 1⟩ call := by
  obtain ⟨hpartition, hreads, -⟩ := @adaptiveReads_tile Controller.singleScreen
  exact ⟨(hpartition [] 4 2 (by decide) (by decide)).2 _,
    hreads oversizedTable ⟨0, 2, 0, 1⟩ { Controller.new Controller.singleScreen
      Controller.singleMetadata (0 : ℕ) with loads := [singleLoad] } 0 singleLoad
      Nat.one_pos rfl⟩

end Tabulark.View
