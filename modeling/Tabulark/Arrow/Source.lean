import Tabulark.Arrow.Batch

/-!
# Arrow IPC sources

A source keeps its record batches apart, with the row at which each starts. It
is made from all batches at once, or from the first delta of a Stream and then
grown by the later ones; `Indexes` is what both ways maintain.
-/

namespace Tabulark.Arrow

variable {α ν : Type} {arrays : ArrowArrays α ν}

/-! ## Sources -/

/-- The container selected after opening an Arrow IPC source. -/
inductive ResolvedArrowIpcContainer
  | file
  | stream
  deriving DecidableEq, Repr

/-- Options for opening one Arrow IPC source. -/
structure ArrowIpcOptions where
  tableName : String
  limits : ArrowIpcLimits
  deriving DecidableEq

/-- Options with room for small sources. -/
def smallOptions : ArrowIpcOptions :=
  ⟨"t", ⟨64, 64, 64, 64, 64, 64, 64, 64, 64, 64, by decide⟩⟩

/-- What the adapter derives from a schema: whether it is within the limits, and the columns of
    the public table. -/
structure SchemaModel where
  validateSchema : ArrowSchema → ArrowIpcLimits → Result Unit
  columnSchemas : ArrowSchema → Result (List ColumnSchema)

/-- Table metadata with some extent of rows. -/
def tableMetadata (model : SchemaModel) (schema : ArrowSchema) (rows : AxisExtent)
    (randomAccess : RandomAccess) (tableName : String) : Result TableMetadata := do
  let columns ← model.columnSchemas schema
  let tableSchema ← Schema.new 1 columns
  let columnCount ← AxisExtent.newExact schema.length
  .ok {
    tableId := "table-0"
    name := tableName
    revision := 0
    extent := ⟨rows, columnCount⟩
    schema := tableSchema
    capabilities := { randomAccess, typedValues := true } }

/-- The metadata of a table with all its rows. -/
def exactMetadata (model : SchemaModel) (schema : ArrowSchema) (rows : ℕ) (tableName : String) :
    Result TableMetadata := do
  let extent ← AxisExtent.newExact rows
  tableMetadata model schema extent .full tableName

/-- The metadata of a table that is still read. -/
def progressiveMetadata (model : SchemaModel) (schema : ArrowSchema) (rows : ℕ)
    (tableName : String) : Result TableMetadata := do
  let extent ← AxisExtent.newAtLeast rows
  tableMetadata model schema extent .indexedPrefix tableName

/-- The metadata of a table, with an exact extent or a lower bound. -/
def metadataOf (model : SchemaModel) (schema : ArrowSchema) (rows : ℕ) (tableName : String)
    (exact : Bool) : Result TableMetadata :=
  if exact then exactMetadata model schema rows tableName
  else progressiveMetadata model schema rows tableName

/-- A logical table decoded from one Arrow IPC source. -/
structure ArrowIpcSource (arrays : ArrowArrays α ν) where
  container : ResolvedArrowIpcContainer
  arrowSchema : ArrowSchema
  metadata : TableMetadata
  batches : List (RecordBatch arrays)
  rowOffsets : List ℕ
  decodedBytes : ℕ
  limits : ArrowIpcLimits

/-- Newly decoded Stream batches and cumulative index metadata. -/
structure ArrowStreamDelta (arrays : ArrowArrays α ν) where
  arrowSchema : ArrowSchema
  options : ArrowIpcOptions
  batchStart : ℕ
  batches : List (RecordBatch arrays)
  cumulativeRows : ℕ
  cumulativeDecodedBytes : ℕ
  exact : Bool

/-- A batch of one column. -/
def oneColumnBatch (values : List ℕ) : RecordBatch listArrays where
  schema := [⟨[0x61], .plain "Int64", false⟩]
  numRows := values.length
  columns := [values]
  length_columns := rfl
  length_values := by simp [listArrays]

/-! ## Row offsets -/

/-- The error of arrays beyond the configured byte limit. -/
def decodedLimitExceeded (decodedBytes : ℕ) (limits : ArrowIpcLimits) : TabularkError :=
  ((TabularkError.new .resourceLimit
    "Arrow IPC decoded arrays exceed the configured byte limit").withDetail
    "decodedBytes" (.number decodedBytes)).withDetail
    "maxDecodedBytes" (.number limits.maxDecodedBytes)

/-- Goes on with the rows and the memory of a batch. -/
def addBatch (rows decodedBytes : ℕ) (batch : RecordBatch arrays) : Result (ℕ × ℕ) := do
  let rows ← checkedAdd usizeMax rows batch.numRows
    (.new .resourceLimit "Arrow IPC row count overflows")
  let decodedBytes ← checkedAdd usizeMax decodedBytes batch.arrayMemorySize
    (.new .resourceLimit "Arrow IPC decoded memory estimate overflows")
  .ok (rows, decodedBytes)

/-- The ends of batches that start at a row, with the row and the memory after the last one; every
    batch has the schema of the source, and with a limit the memory stays within it. -/
def indexBatches (schema : ArrowSchema) (message : String) (limits : Option ArrowIpcLimits) :
    List (RecordBatch arrays) → ℕ → ℕ → Result (List ℕ × ℕ × ℕ)
  | [], rows, decodedBytes => .ok ([], rows, decodedBytes)
  | batch :: batches, rows, decodedBytes =>
    if batch.schema ≠ schema then .error (.new .parseFailed message)
    else do
      let next ← addBatch rows decodedBytes batch
      match limits with
      | some limits =>
        if limits.maxDecodedBytes < next.2 then .error (decodedLimitExceeded next.2 limits)
        else do
          let rest ← indexBatches schema message (some limits) batches next.1 next.2
          .ok (next.1 :: rest.1, rest.2)
      | none => do
        let rest ← indexBatches schema message none batches next.1 next.2
        .ok (next.1 :: rest.1, rest.2)

/-- The rows of some batches. -/
def totalRows (batches : List (RecordBatch arrays)) : ℕ := (batches.map (·.numRows)).sum

/-- The memory that some batches retain. -/
def totalMemory (batches : List (RecordBatch arrays)) : ℕ :=
  (batches.map (·.arrayMemorySize)).sum

/-- The row after each of some batches. -/
def rowEnds : ℕ → List (RecordBatch arrays) → List ℕ
  | _, [] => []
  | rows, batch :: batches => (rows + batch.numRows) :: rowEnds (rows + batch.numRows) batches

variable {batches : List (RecordBatch arrays)} {row decodedBytes : ℕ}

theorem totalRows_append (batches more : List (RecordBatch arrays)) :
    totalRows (batches ++ more) = totalRows batches + totalRows more := by
  rw [totalRows, List.map_append, List.sum_append]
  rfl

theorem totalMemory_append (batches more : List (RecordBatch arrays)) :
    totalMemory (batches ++ more) = totalMemory batches + totalMemory more := by
  rw [totalMemory, List.map_append, List.sum_append]
  rfl

theorem rowEnds_append (rows : ℕ) (batches more : List (RecordBatch arrays)) :
    rowEnds rows (batches ++ more) =
      rowEnds rows batches ++ rowEnds (rows + totalRows batches) more := by
  induction batches generalizing rows with
  | nil => rfl
  | cons batch batches ih =>
    rw [List.cons_append, rowEnds, rowEnds, ih, Nat.add_assoc]
    rfl

theorem getLast?_rowEnds (rows : ℕ) (batches : List (RecordBatch arrays)) :
    (rows :: rowEnds rows batches).getLast? = some (rows + totalRows batches) := by
  induction batches generalizing rows with
  | nil => rfl
  | cons batch batches ih =>
    rw [rowEnds, List.getLast?_cons_cons, ih, totalRows, totalRows, List.map_cons, List.sum_cons,
      Nat.add_assoc]

theorem addBatch_eq_ok {batch : RecordBatch arrays} {next : ℕ × ℕ}
    (h : addBatch row decodedBytes batch = .ok next) :
    next = (row + batch.numRows, decodedBytes + batch.arrayMemorySize) := by
  rw [addBatch] at h
  simp only [Result.bind_eq_ok, checkedAdd] at h
  obtain ⟨r, hr, d, hd, h⟩ := h
  split_ifs at hr hd
  cases hr
  cases hd
  cases h
  rfl

/-- The index of batches. -/
theorem indexBatches_eq_ok {schema : ArrowSchema} {message : String}
    {limits : Option ArrowIpcLimits} {indexed : List ℕ × ℕ × ℕ}
    (h : indexBatches schema message limits batches row decodedBytes = .ok indexed) :
    indexed = (rowEnds row batches, row + totalRows batches,
      decodedBytes + totalMemory batches) := by
  induction batches generalizing row decodedBytes indexed with
  | nil =>
    cases h
    rfl
  | cons batch batches ih =>
    rw [indexBatches] at h
    split_ifs at h
    obtain ⟨next, hnext, h⟩ := Result.bind_eq_ok.1 h
    obtain rfl := addBatch_eq_ok hnext
    have hrest : ∃ rest, indexBatches schema message limits batches (row + batch.numRows)
        (decodedBytes + batch.arrayMemorySize) = .ok rest ∧
          indexed = ((row + batch.numRows) :: rest.1, rest.2) := by
      cases limits with
      | none =>
        obtain ⟨rest, hrest, h⟩ := Result.bind_eq_ok.1 h
        exact ⟨rest, hrest, (Except.ok.inj h).symm⟩
      | some limits =>
        dsimp only at h
        split_ifs at h
        obtain ⟨rest, hrest, h⟩ := Result.bind_eq_ok.1 h
        exact ⟨rest, hrest, (Except.ok.inj h).symm⟩
    obtain ⟨rest, hrest, rfl⟩ := hrest
    obtain rfl := ih hrest
    rw [rowEnds, totalRows, totalRows, totalMemory, totalMemory, List.map_cons, List.map_cons,
      List.sum_cons, List.sum_cons, Nat.add_assoc, Nat.add_assoc]

namespace ArrowIpcSource

variable (model : SchemaModel)

/-- A source of all its batches, or of those that a Stream has so far. -/
def fromBatchesWithExtent (container : ResolvedArrowIpcContainer) (arrowSchema : ArrowSchema)
    (batches : List (RecordBatch arrays)) (options : ArrowIpcOptions) (exact : Bool) :
    Result (ArrowIpcSource arrays) := do
  model.validateSchema arrowSchema options.limits
  let indexed ← indexBatches arrowSchema
    "Arrow IPC record batch schema changed within one source" (some options.limits) batches 0 0
  let metadata ← metadataOf model arrowSchema indexed.2.1 options.tableName exact
  .ok {
    container
    arrowSchema
    metadata
    batches
    rowOffsets := 0 :: indexed.1
    decodedBytes := indexed.2.2
    limits := options.limits }

/-- The rows of a source. -/
def rows (source : ArrowIpcSource arrays) : ℕ := source.rowOffsets.getLast?.getD 0

/-- The error of a delta whose totals are not those of its batches. -/
def inconsistentDelta (delta : ArrowStreamDelta arrays) (rows decodedBytes : ℕ) : TabularkError :=
  ((((TabularkError.new .runtimeFailure
    "Arrow IPC Stream delta cumulative metadata is inconsistent").withDetail
    "expectedRows" (.number delta.cumulativeRows)).withDetail
    "actualRows" (.number rows)).withDetail
    "expectedDecodedBytes" (.number delta.cumulativeDecodedBytes)).withDetail
    "actualDecodedBytes" (.number decodedBytes)

/-- A source of the first delta of a Stream. -/
def fromStreamDelta (delta : ArrowStreamDelta arrays) : Result (ArrowIpcSource arrays) :=
  if delta.batchStart ≠ 0 then
    .error ((TabularkError.new .invalidArgument
      "initial Arrow IPC Stream delta must start at batch zero").withDetail
      "batchStart" (.number delta.batchStart))
  else do
    let source ← fromBatchesWithExtent model .stream delta.arrowSchema delta.batches
      delta.options delta.exact
    if source.rows ≠ delta.cumulativeRows ∨ source.decodedBytes ≠ delta.cumulativeDecodedBytes then
      .error (inconsistentDelta delta source.rows source.decodedBytes)
    else .ok source

/-- Appends the batches of a later delta. -/
def appendStreamDelta (source : ArrowIpcSource arrays) (delta : ArrowStreamDelta arrays) :
    Result (ArrowIpcSource arrays) :=
  if source.container ≠ .stream then
    .error (.new .invalidArgument "only an Arrow IPC Stream source accepts batch deltas")
  else if delta.batchStart ≠ source.batches.length then
    .error (((TabularkError.new .invalidArgument
      "Arrow IPC Stream delta is missing, duplicate, or stale").withDetail
      "expectedBatchStart" (.number source.batches.length)).withDetail
      "actualBatchStart" (.number delta.batchStart))
  else if delta.arrowSchema ≠ source.arrowSchema ∨ delta.options.limits ≠ source.limits then
    .error (.new .invalidArgument "Arrow IPC Stream delta schema or limits changed")
  else do
    let indexed ← indexBatches source.arrowSchema
      "Arrow IPC record batch schema changed within one Stream delta" none delta.batches
      source.rows source.decodedBytes
    if indexed.2.1 ≠ delta.cumulativeRows ∨ indexed.2.2 ≠ delta.cumulativeDecodedBytes then
      .error (inconsistentDelta delta indexed.2.1 indexed.2.2)
    else if source.limits.maxDecodedBytes < indexed.2.2 then
      .error (decodedLimitExceeded indexed.2.2 source.limits)
    else do
      let metadata ← metadataOf model source.arrowSchema indexed.2.1 delta.options.tableName
        delta.exact
      .ok { source with
        batches := source.batches ++ delta.batches
        rowOffsets := source.rowOffsets ++ indexed.1
        decodedBytes := indexed.2.2
        metadata }

/-- The row offsets and the memory of a source are those of its batches. -/
structure Indexes (source : ArrowIpcSource arrays) : Prop where
  rowOffsets : source.rowOffsets = 0 :: rowEnds 0 source.batches
  decodedBytes : source.decodedBytes = totalMemory source.batches

variable {source source' : ArrowIpcSource arrays} {delta : ArrowStreamDelta arrays}

theorem Indexes.rows_eq (h : source.Indexes) : source.rows = totalRows source.batches := by
  rw [ArrowIpcSource.rows, h.rowOffsets, getLast?_rowEnds, Nat.zero_add]
  rfl

variable {model}

theorem fromBatchesWithExtent_eq_ok {container : ResolvedArrowIpcContainer}
    {arrowSchema : ArrowSchema} {options : ArrowIpcOptions} {exact : Bool}
    (h : fromBatchesWithExtent model container arrowSchema batches options exact = .ok source) :
    source.Indexes ∧ source.container = container ∧ source.arrowSchema = arrowSchema ∧
      source.batches = batches ∧ source.limits = options.limits ∧
      metadataOf model arrowSchema (totalRows batches) options.tableName exact =
        .ok source.metadata := by
  obtain ⟨_, _, h⟩ := Result.bind_eq_ok.1 h
  obtain ⟨indexed, hindexed, h⟩ := Result.bind_eq_ok.1 h
  obtain ⟨metadata, hmetadata, h⟩ := Result.bind_eq_ok.1 h
  obtain rfl := indexBatches_eq_ok hindexed
  cases h
  rw [Nat.zero_add] at hmetadata
  exact ⟨⟨rfl, Nat.zero_add _⟩, rfl, rfl, rfl, rfl, hmetadata⟩

/-- A first delta has the batches of the source. -/
theorem fromStreamDelta_eq_ok (h : fromStreamDelta model delta = .ok source) :
    source.Indexes ∧ source.container = .stream ∧ source.arrowSchema = delta.arrowSchema ∧
      delta.batchStart = 0 ∧ source.batches = delta.batches ∧
      source.limits = delta.options.limits ∧
      metadataOf model delta.arrowSchema (totalRows delta.batches) delta.options.tableName
        delta.exact = .ok source.metadata := by
  rw [fromStreamDelta] at h
  split_ifs at h with hstart
  obtain ⟨made, hmade, h⟩ := Result.bind_eq_ok.1 h
  split_ifs at h
  cases h
  obtain ⟨hindexes, hcontainer, hschema, hbatches, hlimits, hmetadata⟩ :=
    fromBatchesWithExtent_eq_ok hmade
  exact ⟨hindexes, hcontainer, hschema, not_not.1 hstart, hbatches, hlimits, hmetadata⟩

/-- A later delta adds its batches. -/
theorem appendStreamDelta_eq_ok (hindexes : source.Indexes)
    (h : source.appendStreamDelta model delta = .ok source') :
    source'.Indexes ∧ source'.container = .stream ∧
      source'.arrowSchema = delta.arrowSchema ∧ delta.batchStart = source.batches.length ∧
      source'.batches = source.batches ++ delta.batches ∧
      source'.limits = delta.options.limits ∧
      metadataOf model delta.arrowSchema (totalRows source'.batches) delta.options.tableName
        delta.exact = .ok source'.metadata := by
  rw [appendStreamDelta] at h
  split_ifs at h with hcontainer hstart hschema
  obtain ⟨indexed, hindexed, h⟩ := Result.bind_eq_ok.1 h
  split_ifs at h
  obtain ⟨metadata, hmetadata, h⟩ := Result.bind_eq_ok.1 h
  obtain rfl := indexBatches_eq_ok hindexed
  cases h
  push Not at hschema
  rw [hindexes.rows_eq, ← totalRows_append, ← hschema.1] at hmetadata
  refine ⟨⟨?_, ?_⟩, not_not.1 hcontainer, hschema.1.symm, not_not.1 hstart, rfl,
    hschema.2.symm, hmetadata⟩
  · dsimp only
    rw [hindexes.rowOffsets, hindexes.rows_eq, rowEnds_append, Nat.zero_add]
    rfl
  · dsimp only
    rw [hindexes.decodedBytes, totalMemory_append]

end ArrowIpcSource

end Tabulark.Arrow
