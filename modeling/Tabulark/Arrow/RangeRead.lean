import Tabulark.Arrow.Source
import Tabulark.Lib.Window

/-!
# Range reads of decoded sources

A request is clipped to the table, and each column of the range is joined from
the slices that the record batches have of it. The columns are those of the
concatenated batches (`ArrowIpcSource.readRange_eq_ok`).
-/

namespace Tabulark.Arrow

open Window

variable {α ν τ : Type} {arrays : ArrowArrays α ν}

/-! ## Plans -/

/-- What a range read returns, clipped to the table. -/
structure RangePlan where
  rowStart : ℕ
  returnedRows : ℕ
  columnStart : ℕ
  returnedColumns : ℕ
  returnedRange : RangeRequest
  complete : Bool
  deriving DecidableEq

/-- The error of a range outside the table. -/
def invalidRange : TabularkError :=
  .new .invalidRange "Arrow IPC range starts outside the table extent"

/-- Clips a request to a table. -/
def planRange (request : RangeRequest) (totalRows totalColumns : ℕ) (limits : ArrowIpcLimits) :
    Result RangePlan := do
  request.validatePublic
  let cells ← request.cellCount
  if limits.maxRangeCells < cells then
    .error (((TabularkError.new .resourceLimit
      "Arrow IPC range exceeds the configured cell limit").withDetail
      "rangeCells" (.number cells)).withDetail
      "maxRangeCells" (.number limits.maxRangeCells))
  else do
    let rowStart ← toUsize request.rowStart invalidRange
    let columnStart ← toUsize request.columnStart invalidRange
    if totalRows < rowStart ∨ totalColumns < columnStart then .error invalidRange
    else do
      let requestedRows ← toUsize request.rowCount invalidRange
      let requestedColumns ← toUsize request.columnCount invalidRange
      let returnedRows := min requestedRows (totalRows - rowStart)
      let returnedColumns := min requestedColumns (totalColumns - columnStart)
      let returnedRange ← RangeRequest.new request.rowStart returnedRows request.columnStart
        returnedColumns
      .ok {
        rowStart
        returnedRows
        columnStart
        returnedColumns
        returnedRange
        complete := returnedRows = requestedRows ∧ returnedColumns = requestedColumns }

/-- The columns of a plan. -/
def RangePlan.projection (plan : RangePlan) : List ℕ :=
  List.range' plan.columnStart plan.returnedColumns

/-- The plan of a request. -/
structure PlansRange (request : RangeRequest) (totalRows totalColumns : ℕ) (plan : RangePlan) :
    Prop where
  rowStart : plan.rowStart = request.rowStart
  columnStart : plan.columnStart = request.columnStart
  rows : plan.returnedRows = min request.rowCount (totalRows - request.rowStart)
  columns : plan.returnedColumns = min request.columnCount (totalColumns - request.columnStart)
  rowStart_le : request.rowStart ≤ totalRows
  columnStart_le : request.columnStart ≤ totalColumns
  returnedRange : plan.returnedRange =
    ⟨plan.rowStart, plan.returnedRows, plan.columnStart, plan.returnedColumns⟩
  complete : plan.complete = true ↔ request.rowStart + request.rowCount ≤ totalRows ∧
    request.columnStart + request.columnCount ≤ totalColumns

variable {request : RangeRequest} {rowTotal columnTotal : ℕ} {limits : ArrowIpcLimits}
  {plan : RangePlan}

theorem planRange_eq_ok (h : planRange request rowTotal columnTotal limits = .ok plan) :
    PlansRange request rowTotal columnTotal plan := by
  obtain ⟨_, _, h⟩ := Result.bind_eq_ok.1 h
  obtain ⟨cells, _, h⟩ := Result.bind_eq_ok.1 h
  split_ifs at h
  obtain ⟨rowStart, hrow, h⟩ := Result.bind_eq_ok.1 h
  obtain ⟨columnStart, hcolumn, h⟩ := Result.bind_eq_ok.1 h
  split_ifs at h with houtside
  obtain ⟨requestedRows, hrows, h⟩ := Result.bind_eq_ok.1 h
  obtain ⟨requestedColumns, hcolumns, h⟩ := Result.bind_eq_ok.1 h
  obtain ⟨returnedRange, hrange, h⟩ := Result.bind_eq_ok.1 h
  obtain rfl := toUsize_eq_ok hrow
  obtain rfl := toUsize_eq_ok hcolumn
  obtain rfl := toUsize_eq_ok hrows
  obtain rfl := toUsize_eq_ok hcolumns
  obtain rfl := RangeRequest.eq_of_new hrange
  cases h
  push Not at houtside
  refine ⟨rfl, rfl, rfl, rfl, houtside.1, houtside.2, rfl, ?_⟩
  rw [decide_eq_true_iff]
  omega

/-! ## Tables -/

/-- A column of some batches one after the other. -/
def tableColumn (batches : List (RecordBatch arrays)) (index : ℕ) : List ν :=
  (batches.map fun batch => batch.column index).flatten

/-- The rows and columns of a plan, of some batches one after the other. -/
def tableRange (batches : List (RecordBatch arrays)) (plan : RangePlan) : List (ℕ × List ν) :=
  plan.projection.map fun index =>
    (index, ((tableColumn batches index).drop plan.rowStart).take plan.returnedRows)

theorem RecordBatch.length_column {batch : RecordBatch arrays} {index : ℕ}
    (h : index < batch.schema.length) : (batch.column index).length = batch.numRows := by
  have hlt : index < batch.columns.length := batch.length_columns ▸ h
  rw [RecordBatch.column, List.getElem?_eq_getElem hlt]
  exact batch.length_values _ (List.getElem_mem hlt)

theorem length_tableColumn {batches : List (RecordBatch arrays)} {index : ℕ}
    (h : ∀ batch ∈ batches, index < batch.schema.length) :
    (tableColumn batches index).length = totalRows batches := by
  induction batches with
  | nil => rfl
  | cons batch batches ih =>
    have hrest := ih fun b hb => h b (List.mem_cons_of_mem batch hb)
    rw [tableColumn, List.map_cons, List.flatten_cons, List.length_append,
      RecordBatch.length_column (h batch List.mem_cons_self)]
    rw [tableColumn] at hrest
    rw [hrest, totalRows, totalRows, List.map_cons, List.sum_cons]

/-! ## Reading -/

/-- How much of a typed range is encoded. -/
inductive ArrowBatchMode
  | typed
  | displayOnly
  deriving DecidableEq

/-- Encodes projected columns: the schema, the columns with their index in it, the range that they
    are, whether it is the requested one, the limits and the mode. -/
abbrev BatchEncoder (α τ : Type) :=
  ArrowSchema → List (ℕ × α) → RangeRequest → Bool → ArrowIpcLimits → ArrowBatchMode → Result τ

/-- The data type of a column. -/
def columnType (schema : ArrowSchema) (index : ℕ) : ArrowDataType :=
  (schema[index]?.map (·.dataType)).getD (.plain "Null")

namespace ArrowIpcSource

variable (source : ArrowIpcSource arrays)

/-- The slice that a batch has of a column between two rows. -/
def sliceOfBatch (columnIndex rowStart rowEnd : ℕ) (batch : RecordBatch arrays)
    (batchStart batchEnd : ℕ) : Option α :=
  let start := max rowStart batchStart
  let stop := min rowEnd batchEnd
  if start < stop then
    batch.columns[columnIndex]?.map fun column =>
      arrays.slice column (start - batchStart) (stop - start)
  else none

/-- Joins the rows of a column. -/
def projectColumn (columnIndex rowStart rowCount : ℕ) : Result α :=
  if rowCount = 0 then .ok (arrays.newEmpty (columnType source.arrowSchema columnIndex))
  else do
    let rowEnd ← checkedAdd usizeMax rowStart rowCount invalidRange
    let slices := (source.batches.zip (source.rowOffsets.zip source.rowOffsets.tail)).filterMap
      fun indexed =>
        sliceOfBatch columnIndex rowStart rowEnd indexed.1 indexed.2.1 indexed.2.2
    if slices.isEmpty then
      .error (.new .runtimeFailure "Arrow IPC row index did not cover an available range")
    else arrays.concat (slices ++ [arrays.newEmpty (columnType source.arrowSchema columnIndex)])

/-- Reads a projected range. -/
def readRange (encode : BatchEncoder α τ) (request : RangeRequest) (mode : ArrowBatchMode) :
    Result τ := do
  let plan ← planRange request source.rows source.arrowSchema.length source.limits
  let columns ← plan.projection.mapM fun columnIndex => do
    let column ← source.projectColumn columnIndex plan.rowStart plan.returnedRows
    .ok (columnIndex, column)
  encode source.arrowSchema columns plan.returnedRange plan.complete source.limits mode

end ArrowIpcSource

/-! ## What is read -/

/-- The slice of a batch is its window. -/
theorem values_sliceOfBatch {batch : RecordBatch arrays} {index a b start : ℕ}
    (h : index < batch.schema.length) :
    ((ArrowIpcSource.sliceOfBatch index a b batch start (start + batch.numRows)).toList.map
      arrays.values).flatten = window start (batch.column index) a b := by
  have hlength := RecordBatch.length_column h
  rw [ArrowIpcSource.sliceOfBatch]
  split_ifs with hsome
  · have hlt : index < batch.columns.length := batch.length_columns ▸ h
    have hcolumn : batch.column index = arrays.values batch.columns[index] := by
      rw [RecordBatch.column, List.getElem?_eq_getElem hlt]
      rfl
    rw [List.getElem?_eq_getElem hlt, Option.map_some, Option.toList_some, List.map_singleton,
      List.flatten_singleton, arrays.values_slice, window, hcolumn]
    · rw [← hcolumn, hlength]
    · rw [← hcolumn, hlength]
      exact window_bounds hsome
  · rw [window_eq_nil]
    · rfl
    · rw [hlength]
      exact not_lt.1 hsome

/-- The slices of consecutive batches are their windows. -/
theorem values_slices {batches : List (RecordBatch arrays)} {index a b start : ℕ}
    (h : ∀ batch ∈ batches, index < batch.schema.length) :
    (((batches.zip ((start :: rowEnds start batches).zip (rowEnds start batches))).filterMap
      fun indexed => ArrowIpcSource.sliceOfBatch index a b indexed.1 indexed.2.1
        indexed.2.2).map arrays.values).flatten =
      window start (tableColumn batches index) a b := by
  rw [tableColumn, ← flatten_windows]
  induction batches generalizing start with
  | nil => rfl
  | cons batch batches ih =>
    have hrest := @ih (start + batch.numRows) fun b hb => h b (List.mem_cons_of_mem batch hb)
    have hbatch := h batch List.mem_cons_self
    rw [rowEnds, List.zip_cons_cons, List.zip_cons_cons, List.map_cons, windows,
      List.flatten_cons, RecordBatch.length_column hbatch, ← hrest, ← values_sliceOfBatch hbatch,
      List.filterMap_cons]
    cases ArrowIpcSource.sliceOfBatch index a b batch start (start + batch.numRows) with
    | none => rfl
    | some slice =>
      rw [List.map_cons, List.flatten_cons, Option.toList_some, List.map_singleton,
        List.flatten_singleton]

namespace ArrowIpcSource

variable {source : ArrowIpcSource arrays}

/-- A source whose batches have its schema, with their row index. -/
structure Tabular (source : ArrowIpcSource arrays) : Prop where
  indexes : source.Indexes
  schema : ∀ batch ∈ source.batches, batch.schema = source.arrowSchema

theorem values_projectColumn (h : source.Tabular) {index rowStart rowCount : ℕ} {column : α}
    (hindex : index < source.arrowSchema.length)
    (hrows : rowStart + rowCount ≤ totalRows source.batches)
    (hcolumn : source.projectColumn index rowStart rowCount = .ok column) :
    arrays.values column =
      ((tableColumn source.batches index).drop rowStart).take rowCount := by
  have hschema : ∀ batch ∈ source.batches, index < batch.schema.length := fun batch hb =>
    h.schema batch hb ▸ hindex
  rw [projectColumn] at hcolumn
  split_ifs at hcolumn with hzero
  · cases hcolumn
    rw [arrays.values_newEmpty, hzero, List.take_zero]
  · obtain ⟨rowEnd, hend, hcolumn⟩ := Result.bind_eq_ok.1 hcolumn
    rw [checkedAdd] at hend
    split_ifs at hend
    cases hend
    dsimp only at hcolumn
    split_ifs at hcolumn
    rw [arrays.values_concat _ _ hcolumn, List.map_append, List.flatten_append,
      List.map_singleton, arrays.values_newEmpty, List.flatten_singleton, List.append_nil,
      h.indexes.rowOffsets, List.tail_cons, values_slices hschema, window_zero,
      Nat.add_sub_cancel_left]
    rw [length_tableColumn hschema]
    exact hrows

/-- A range read encodes the rows and columns of the plan. -/
theorem readRange_eq_ok (h : source.Tabular) {encode : BatchEncoder α τ} {mode : ArrowBatchMode}
    {out : τ} (hread : source.readRange encode request mode = .ok out) :
    ∃ plan columns, planRange request (totalRows source.batches) source.arrowSchema.length
        source.limits = .ok plan ∧
      columns.map (fun column => (column.1, arrays.values column.2)) =
        tableRange source.batches plan ∧
      encode source.arrowSchema columns plan.returnedRange plan.complete source.limits mode =
        .ok out := by
  obtain ⟨plan, hplan, hread⟩ := Result.bind_eq_ok.1 hread
  obtain ⟨columns, hcolumns, hread⟩ := Result.bind_eq_ok.1 hread
  rw [h.indexes.rows_eq] at hplan
  have hplans := planRange_eq_ok hplan
  refine ⟨plan, columns, hplan, ?_, hread⟩
  rw [tableRange]
  refine Result.map_of_mapM_eq_ok hcolumns fun index column hindex hcolumn => ?_
  obtain ⟨made, hmade, hcolumn⟩ := Result.bind_eq_ok.1 hcolumn
  cases hcolumn
  rw [RangePlan.projection, List.mem_range'_1] at hindex
  have hlt := hplans.columns
  have hstart := hplans.columnStart
  have hle := hplans.columnStart_le
  have hrows := hplans.rows
  have hrowStart := hplans.rowStart
  have hrow_le := hplans.rowStart_le
  rw [values_projectColumn h (by omega) (by omega) hmade]

end ArrowIpcSource

end Tabulark.Arrow
