import Tabulark.Arrow.FileRead
import Tabulark.Lib.OrderedMap

/-!
# Opening a Stream

An open operation decodes a Stream chunk by chunk. What it has decoded is
published as deltas: the runtime registers a source of the first one, and the
later ones grow it.
-/

namespace Tabulark.Arrow

open OrderedMap

variable {α ν δ : Type} {arrays : ArrowArrays α ν}

/-! ## Reading a Stream -/

/-- The Stream decoder of arrow-rs: a call takes bytes off a buffer and may return a batch; only
    so many calls leave a buffer with bytes. -/
structure StreamDecoder (arrays : ArrowArrays α ν) (δ : Type) where
  start : δ
  decode : δ → List UInt8 → Result (Option (RecordBatch arrays) × δ × List UInt8)
  schema : δ → Option ArrowSchema
  finish : δ → Result Unit
  turns : δ → List UInt8 → ℕ
  turns_lt : ∀ d bytes batch d' rest, bytes ≠ [] → decode d bytes = .ok (batch, d', rest) →
    turns d' rest < turns d bytes

/-- What is decoded of a Stream. -/
structure StreamIndexState (arrays : ArrowArrays α ν) (δ : Type) where
  decoder : δ
  wire : StreamWireValidator := {}
  batches : List (RecordBatch arrays) := []
  rowOffsets : List ℕ := [0]
  nextOffset : ℕ := 0
  rows : ℕ := 0
  decodedBytes : ℕ := 0
  schemaValidated : Bool := false

namespace StreamIndexState

variable (model : SchemaModel) (decoder : StreamDecoder arrays δ) (limits : ArrowIpcLimits)

/-- Stores a batch apart from the chunk that it came in. -/
def store (state : StreamIndexState arrays δ) (chunkBytes : ℕ) (batch : RecordBatch arrays) :
    Result (StreamIndexState arrays δ) := do
  let batch ← detachRecordBatchFromIngress arrays batch
  let decodedBytes ← checkedAdd usizeMax state.decodedBytes batch.arrayMemorySize
    (.new .resourceLimit "Arrow IPC decoded memory estimate overflows")
  let rows ← checkedAdd usizeMax state.rows batch.numRows
    (.new .resourceLimit "Arrow IPC row count overflows")
  if limits.maxDecodedBytes < decodedBytes then
    .error (decodedLimitExceeded decodedBytes limits)
  else do
    state.wire.ensureDecodeMemoryBudget decodedBytes chunkBytes limits
    .ok { state with
      batches := state.batches ++ [batch]
      rowOffsets := state.rowOffsets ++ [rows]
      rows
      decodedBytes }

/-- Stores what a call of the decoder returned. -/
def storeDecoded (state : StreamIndexState arrays δ) (chunkBytes : ℕ) :
    Option (RecordBatch arrays) → Result (StreamIndexState arrays δ)
  | some batch => state.store limits chunkBytes batch
  | none => .ok state

/-- Checks the schema as soon as the decoder has it. -/
def checkSchema (state : StreamIndexState arrays δ) : Result (StreamIndexState arrays δ) :=
  if state.schemaValidated then .ok state
  else
    match decoder.schema state.decoder with
    | none => .ok state
    | some schema => do
      model.validateSchema schema limits
      .ok { state with schemaValidated := true }

/-- Calls the decoder until the chunk is used up. -/
def decodeChunk (chunkBytes : ℕ) :
    ℕ → StreamIndexState arrays δ → List UInt8 → Result (StreamIndexState arrays δ)
  | _, state, [] => .ok state
  | 0, _, _ :: _ => .error (.new .runtimeFailure "Arrow IPC Stream decoder makes no progress")
  | turns + 1, state, b :: bytes => do
    let decoded ← decoder.decode state.decoder (b :: bytes)
    let stored ← storeDecoded limits { state with decoder := decoded.2.1 } chunkBytes decoded.1
    let checked ← stored.checkSchema model decoder limits
    decodeChunk chunkBytes turns checked decoded.2.2

end StreamIndexState

/-- Where an open operation of a Stream is. -/
inductive OpenState (arrays : ArrowArrays α ν) (δ : Type)
  | stream (state : StreamIndexState arrays δ)
  | complete

/-- An open operation of a Stream, with the number of batches that are published. -/
structure ArrowIpcOpenOperation (arrays : ArrowArrays α ν) (δ : Type) where
  state : OpenState arrays δ
  options : ArrowIpcOptions
  publishedStreamBatches : ℕ := 0
  streamMetadataPublished : Bool := false

namespace ArrowIpcOpenOperation

variable (verify : MessageVerifier) (model : SchemaModel) (decoder : StreamDecoder arrays δ)

/-- An operation that has read nothing. -/
def new (options : ArrowIpcOptions) : ArrowIpcOpenOperation arrays δ where
  state := .stream { decoder := decoder.start }
  options

/-- The source of a Stream that has ended. -/
def completedSource (options : ArrowIpcOptions) (state : StreamIndexState arrays δ) :
    Result (ArrowIpcSource arrays) := do
  state.wire.finish
  decoder.finish state.decoder
  match decoder.schema state.decoder with
  | none => .error (.new .parseFailed "Arrow IPC Stream has no schema")
  | some schema => do
    let metadata ← exactMetadata model schema state.rows options.tableName
    .ok {
      container := .stream
      arrowSchema := schema
      metadata
      batches := state.batches
      rowOffsets := state.rowOffsets
      decodedBytes := state.decodedBytes
      limits := options.limits }

/-- Reads a chunk of a Stream. -/
def readChunk (limits : ArrowIpcLimits) (state : StreamIndexState arrays δ) (bytes : List UInt8) :
    Result (StreamIndexState arrays δ) := do
  let wire ← state.wire.feed verify limits bytes
  wire.ensureDecodeMemoryBudget state.decodedBytes bytes.length limits
  let decoded ← StreamIndexState.decodeChunk model decoder limits bytes.length
    (decoder.turns state.decoder bytes) { state with wire } bytes
  let nextOffset ← checkedAdd usizeMax decoded.nextOffset bytes.length
    (.new .resourceLimit "Arrow stream offset overflows")
  .ok { decoded with nextOffset }

/-- Feeds a chunk; the last one completes the source. -/
def feedStreamOwned (op : ArrowIpcOpenOperation arrays δ) (bytes : List UInt8) (eof : Bool) :
    Result (ArrowIpcOpenOperation arrays δ × Option (ArrowIpcSource arrays)) :=
  match op.state with
  | .complete => .error (.new .handleClosed "Arrow open operation is complete")
  | .stream state => do
    let state ← readChunk verify model decoder op.options.limits state bytes
    if eof then do
      let source ← completedSource model decoder op.options state
      .ok ({ op with state := .complete }, some source)
    else .ok ({ op with state := .stream state }, none)

/-- Takes the batches decoded since the last publication; the first delta may be empty. -/
def takeStreamDelta (op : ArrowIpcOpenOperation arrays δ) :
    ArrowIpcOpenOperation arrays δ × Option (ArrowStreamDelta arrays) :=
  match op.state with
  | .complete => (op, none)
  | .stream state =>
    match decoder.schema state.decoder with
    | none => (op, none)
    | some schema =>
      if op.streamMetadataPublished ∧ op.publishedStreamBatches = state.batches.length then
        (op, none)
      else
        ({ op with
            publishedStreamBatches := state.batches.length
            streamMetadataPublished := true },
          some {
            arrowSchema := schema
            options := op.options
            batchStart := op.publishedStreamBatches
            batches := state.batches.drop op.publishedStreamBatches
            cumulativeRows := state.rows
            cumulativeDecodedBytes := state.decodedBytes
            exact := false })

/-- Splits the batches that are not published yet off a completed source. -/
def takeCompletedStreamDelta (op : ArrowIpcOpenOperation arrays δ)
    (source : ArrowIpcSource arrays) :
    Result (ArrowIpcOpenOperation arrays δ × ArrowStreamDelta arrays) :=
  if source.container ≠ .stream then
    .error (.new .invalidArgument
      "only a completed Arrow IPC Stream can produce an EOF delta")
  else if source.batches.length < op.publishedStreamBatches then
    .error (.new .runtimeFailure
      "published Arrow IPC Stream batch count exceeds the completed source")
  else do
    let batches := source.batches.drop op.publishedStreamBatches
    let publishedStreamBatches ← checkedAdd usizeMax op.publishedStreamBatches batches.length
      (.new .resourceLimit "Arrow IPC Stream batch count overflows")
    .ok ({ op with
        publishedStreamBatches
        streamMetadataPublished := true }, {
      arrowSchema := source.arrowSchema
      options := op.options
      batchStart := op.publishedStreamBatches
      batches
      cumulativeRows := source.rows
      cumulativeDecodedBytes := source.decodedBytes
      exact := true })

end ArrowIpcOpenOperation

/-! ## The runtime -/

/-- A source of the runtime: decoded at once, or opened step by step; a File keeps no decoded
    batches. -/
inductive RuntimeSource (arrays : ArrowArrays α ν)
  | decoded (source : ArrowIpcSource arrays)
  | incrementalFile (source : ArrowIndexedFileSource)
  | incrementalStream (source : ArrowIpcSource arrays)

/-- The registry of open sources, and of the tables that refer to them. -/
structure ArrowIpcRuntime (arrays : ArrowArrays α ν) where
  memoryBudgetBytes : ℕ
  maxSources : ℕ
  nextHandle : ℕ := 1
  retainedBytes : ℕ := 0
  sources : List (ℕ × RuntimeSource arrays) := []
  tables : List (ℕ × ℕ) := []

namespace ArrowIpcRuntime

variable (model : SchemaModel)

/-- The error of sources that retain more than the runtime allows. -/
def budgetExceeded (retainedBytes memoryBudgetBytes : ℕ) : TabularkError :=
  ((TabularkError.new .resourceLimit
    "Arrow runtime exceeds its aggregate decoded-array budget").withDetail
    "retainedBytes" (.number retainedBytes)).withDetail
    "memoryBudgetBytes" (.number memoryBudgetBytes)

/-- Registers a Stream source. -/
def registerStream (runtime : ArrowIpcRuntime arrays) (source : ArrowIpcSource arrays) :
    Result (ArrowIpcRuntime arrays × ℕ) :=
  if runtime.maxSources ≤ runtime.sources.length then
    .error ((TabularkError.new .resourceLimit
      "Arrow runtime has reached its open-source limit").withDetail
      "maxSources" (.number runtime.maxSources))
  else do
    let retainedBytes ← checkedAdd usizeMax runtime.retainedBytes source.decodedBytes
      (.new .resourceLimit "Arrow runtime memory estimate overflows")
    if runtime.memoryBudgetBytes < retainedBytes then
      .error (budgetExceeded retainedBytes runtime.memoryBudgetBytes)
    else do
      let nextHandle ← checkedAdd u32Max runtime.nextHandle 1
        (.new .resourceLimit "Arrow runtime handle space exhausted")
      .ok ({ runtime with
        nextHandle
        retainedBytes
        sources := insert runtime.sources runtime.nextHandle (.incrementalStream source) },
          runtime.nextHandle)

/-- Registers the first published batches of a Stream. -/
def openIncrementalStream (runtime : ArrowIpcRuntime arrays) (delta : ArrowStreamDelta arrays) :
    Result (ArrowIpcRuntime arrays × ℕ) := do
  delta.options.limits.validateForMemoryBudget runtime.memoryBudgetBytes
  let source ← ArrowIpcSource.fromStreamDelta model delta
  runtime.registerStream source

/-- Appends newly decoded batches of a Stream. -/
def appendIncrementalStream (runtime : ArrowIpcRuntime arrays) (handle : ℕ)
    (delta : ArrowStreamDelta arrays) : Result (ArrowIpcRuntime arrays) := do
  delta.options.limits.validateForMemoryBudget runtime.memoryBudgetBytes
  match get? runtime.sources handle with
  | none => .error (.new .handleClosed "Arrow source handle is closed")
  | some (.incrementalStream previous) =>
    if delta.cumulativeDecodedBytes < previous.decodedBytes then
      .error (.new .invalidArgument "Arrow IPC Stream delta decoded-byte total is stale")
    else do
      let retainedBytes ← checkedAdd usizeMax runtime.retainedBytes
        (delta.cumulativeDecodedBytes - previous.decodedBytes)
        (.new .resourceLimit "Arrow runtime memory estimate overflows")
      if runtime.memoryBudgetBytes < retainedBytes then
        .error (budgetExceeded retainedBytes runtime.memoryBudgetBytes)
      else do
        let source ← previous.appendStreamDelta model delta
        .ok { runtime with
          retainedBytes
          sources := insert runtime.sources handle (.incrementalStream source) }
  | some _ =>
    .error (.new .invalidArgument
      "only a progressively opened Arrow IPC Stream accepts batch deltas")

end ArrowIpcRuntime

end Tabulark.Arrow
