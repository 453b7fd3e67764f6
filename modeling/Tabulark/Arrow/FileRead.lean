import Tabulark.Arrow.RangeRead
import Tabulark.Arrow.StreamWire

/-!
# Range reads of indexed Files

The footer of a File lists its blocks, and the metadata of the record blocks
gives each its rows. A range read asks for the record blocks that have some of
the rows, after the dictionaries if a column refers to one, and joins what the
decoder returns. It returns the rows and columns that a read of the same batches
in memory returns (`fileRead_eq_readRange`).
-/

namespace Tabulark.Arrow

open Window

variable {α ν τ δ : Type} {arrays : ArrowArrays α ν}

/-! ## The index of a File -/

/-- Where a block is in the source. -/
structure FileBlockSpec where
  offset : ℕ
  metadataLength : ℕ
  bodyLength : ℕ
  deriving DecidableEq

namespace FileBlockSpec

/-- The bytes of a block. -/
def totalLength (spec : FileBlockSpec) : Result ℕ :=
  checkedAdd usizeMax spec.metadataLength spec.bodyLength
    (.new .resourceLimit "Arrow IPC block size overflows")

end FileBlockSpec

/-- A block as arrow-rs takes it. -/
structure ArrowBlock where
  offset : ℕ
  metadataLength : ℕ
  bodyLength : ℕ

/-- The error of a range beyond the integers of an interface. -/
def ingressRangeTooLarge : TabularkError :=
  .new .resourceLimit "Arrow ingress range exceeds the supported integer range"

/-- A conversion to a signed integer. -/
def toSigned (bound value : ℕ) : Result ℕ :=
  if value ≤ bound then .ok value else .error ingressRangeTooLarge

/-- The block for arrow-rs: its offset and body fit `i64`, its metadata fits `i32`. -/
def FileBlockSpec.asArrowBlock (spec : FileBlockSpec) : Result ArrowBlock := do
  let offset ← toSigned (2 ^ 63 - 1) spec.offset
  let metadataLength ← toSigned (2 ^ 31 - 1) spec.metadataLength
  let bodyLength ← toSigned (2 ^ 63 - 1) spec.bodyLength
  .ok { offset, metadataLength, bodyLength }

/-- A record block with the rows that it has. -/
structure IndexedRecordBlock where
  block : FileBlockSpec
  rowStart : ℕ := 0
  rowCount : ℕ := 0
  deriving DecidableEq

/-- The message metadata of a block, after its length and a marker. -/
def encapsulatedMessage (verify : MessageVerifier) (bytes : List UInt8) (limits : ArrowIpcLimits) :
    Result Message :=
  if bytes.length < 4 then
    .error (.new .parseFailed "Arrow IPC encapsulated message is truncated")
  else if bytes.take 4 = continuationMarker then
    if bytes.length < 8 then
      .error (.new .parseFailed "Arrow IPC continuation marker is truncated")
    else verify limits (bytes.drop 8)
  else verify limits (bytes.drop 4)

/-- A conversion of an `i64` to `usize` that may fail. -/
def usizeOfInt? (value : ℤ) : Option ℕ :=
  if 0 ≤ value ∧ value.toNat ≤ usizeMax then some value.toNat else none

/-- The rows that the metadata of a record block has. -/
def recordBatchRowCount (verify : MessageVerifier) (bytes : List UInt8) (block : FileBlockSpec)
    (limits : ArrowIpcLimits) : Result ℕ := do
  let message ← encapsulatedMessage verify bytes limits
  match message.header with
  | .recordBatch batch =>
    if usizeOfInt? message.bodyLength ≠ some block.bodyLength then
      .error (.new .parseFailed
        "Arrow IPC File footer and record message body lengths disagree")
    else
      match batch with
      | none => .error (.new .parseFailed "Arrow IPC record message has no RecordBatch header")
      | some batch =>
        toUsizeOfInt batch.length
          (.new .parseFailed "Arrow IPC record batch has a negative row count")
  | _ =>
    .error (.new .parseFailed "Arrow IPC File record index points to a non-record message")

/-- Checks the metadata of a dictionary block. -/
def checkDictionary (verify : MessageVerifier) (bytes : List UInt8) (block : FileBlockSpec)
    (limits : ArrowIpcLimits) : Result Unit := do
  let message ← encapsulatedMessage verify bytes limits
  match message.header with
  | .dictionaryBatch none =>
    .error (.new .parseFailed
      "Arrow IPC File dictionary message has no DictionaryBatch header")
  | .dictionaryBatch (some dictionary) =>
    if dictionary.data = none then
      .error (.new .parseFailed
        "Arrow IPC File dictionary message has no RecordBatch body header")
    else if usizeOfInt? message.bodyLength ≠ some block.bodyLength then
      .error (.new .parseFailed
        "Arrow IPC File footer and dictionary message body lengths disagree")
    else .ok ()
  | _ =>
    .error (.new .parseFailed
      "Arrow IPC File dictionary index points to a non-dictionary message")

/-- A File whose blocks are indexed one after the other. -/
structure FileIndexState where
  schema : ArrowSchema
  version : ℕ
  dictionaries : List FileBlockSpec
  records : List IndexedRecordBlock
  nextDictionary : ℕ := 0
  nextRecord : ℕ := 0
  rows : ℕ := 0

namespace FileIndexState

variable (verify : MessageVerifier) (limits : ArrowIpcLimits)

/-- The index of a footer. -/
def ofFooter (schema : ArrowSchema) (version : ℕ) (dictionaries records : List FileBlockSpec) :
    FileIndexState where
  schema
  version
  dictionaries
  records := records.map fun block => { block }

/-- Whether the metadata of all blocks is indexed. -/
def metadataComplete (state : FileIndexState) : Bool :=
  state.nextDictionary = state.dictionaries.length ∧ state.nextRecord = state.records.length

/-- Indexes the metadata of the next block. -/
def indexFileMetadata (state : FileIndexState) (bytes : List UInt8) : Result FileIndexState :=
  match state.dictionaries[state.nextDictionary]? with
  | some block => do
    checkDictionary verify bytes block limits
    .ok { state with nextDictionary := state.nextDictionary + 1 }
  | none =>
    match state.records[state.nextRecord]? with
    | none => .error (.new .runtimeFailure "Arrow File metadata index is inconsistent")
    | some record => do
      let rowCount ← recordBatchRowCount verify bytes record.block limits
      let rows ← checkedAdd usizeMax state.rows rowCount
        (.new .resourceLimit "Arrow IPC row count overflows")
      .ok { state with
        records := state.records.set state.nextRecord
          { record with
            rowStart := state.rows
            rowCount }
        rows
        nextRecord := state.nextRecord + 1 }

/-- Indexes the metadata of some blocks. -/
def indexAll (state : FileIndexState) (metadata : List (List UInt8)) : Result FileIndexState :=
  metadata.foldlM (fun state bytes => state.indexFileMetadata verify limits bytes) state

end FileIndexState

/-- Footer-indexed File metadata, without record bodies. -/
structure ArrowIndexedFileSource where
  sourceLength : ℕ
  schema : ArrowSchema
  metadata : TableMetadata
  version : ℕ
  dictionaries : List FileBlockSpec
  records : List IndexedRecordBlock
  limits : ArrowIpcLimits

/-- The source of a File whose metadata is indexed. -/
def completeFile (model : SchemaModel) (options : ArrowIpcOptions) (sourceLength : ℕ)
    (state : FileIndexState) : Result ArrowIndexedFileSource := do
  let metadata ← exactMetadata model state.schema state.rows options.tableName
  .ok {
    sourceLength
    schema := state.schema
    metadata
    version := state.version
    dictionaries := state.dictionaries
    records := state.records
    limits := options.limits }

/-- Record blocks that start where the ones before end. -/
def Consecutive : ℕ → List IndexedRecordBlock → Prop
  | _, [] => True
  | row, record :: records =>
    record.rowStart = row ∧ Consecutive (row + record.rowCount) records

/-- The rows of some record blocks. -/
def recordRows (records : List IndexedRecordBlock) : ℕ := (records.map (·.rowCount)).sum

theorem recordRows_append (records more : List IndexedRecordBlock) :
    recordRows (records ++ more) = recordRows records + recordRows more := by
  rw [recordRows, List.map_append, List.sum_append]
  rfl

theorem consecutive_append {row : ℕ} {records more : List IndexedRecordBlock} :
    Consecutive row (records ++ more) ↔
      Consecutive row records ∧ Consecutive (row + recordRows records) more := by
  induction records generalizing row with
  | nil => exact (and_iff_right trivial).symm
  | cons record records ih =>
    have hrows : recordRows (record :: records) = record.rowCount + recordRows records := rfl
    rw [List.cons_append, Consecutive, Consecutive, ih, hrows, ← Nat.add_assoc, and_assoc]

namespace FileIndexState

variable {verify : MessageVerifier} {limits : ArrowIpcLimits} {state state' : FileIndexState}

/-- The record blocks up to the next one are indexed. -/
structure Indexed (state : FileIndexState) : Prop where
  next_le : state.nextRecord ≤ state.records.length
  consecutive : Consecutive 0 (state.records.take state.nextRecord)
  rows : state.rows = recordRows (state.records.take state.nextRecord)

theorem take_set_succ {records : List IndexedRecordBlock} {n : ℕ} {record : IndexedRecordBlock}
    (h : n < records.length) :
    (records.set n record).take (n + 1) = records.take n ++ [record] := by
  rw [List.take_succ_eq_append_getElem (by rw [List.length_set]; exact h), List.getElem_set_self,
    List.take_set_of_le le_rfl]

theorem Indexed.next {bytes : List UInt8} (h : state.Indexed)
    (hindex : state.indexFileMetadata verify limits bytes = .ok state') :
    state'.Indexed ∧ state'.schema = state.schema := by
  rw [indexFileMetadata] at hindex
  split at hindex
  · obtain ⟨_, _, hindex⟩ := Result.bind_eq_ok.1 hindex
    cases hindex
    exact ⟨⟨h.next_le, h.consecutive, h.rows⟩, rfl⟩
  · split at hindex
    · cases hindex
    case h_2 record hrecord =>
      obtain ⟨rowCount, _, hindex⟩ := Result.bind_eq_ok.1 hindex
      obtain ⟨rows, hrows, hindex⟩ := Result.bind_eq_ok.1 hindex
      rw [checkedAdd] at hrows
      split_ifs at hrows
      cases hrows
      cases hindex
      have hlt := (List.getElem?_eq_some_iff.1 hrecord).1
      refine ⟨⟨?_, ?_, ?_⟩, rfl⟩
      · dsimp only
        rw [List.length_set]
        exact hlt
      · dsimp only
        rw [take_set_succ hlt, consecutive_append, Nat.zero_add]
        exact ⟨h.consecutive, h.rows, trivial⟩
      · dsimp only
        rw [take_set_succ hlt, recordRows_append, ← h.rows]
        rfl

theorem Indexed.all {metadata : List (List UInt8)} (h : state.Indexed)
    (hindex : state.indexAll verify limits metadata = .ok state') :
    state'.Indexed ∧ state'.schema = state.schema := by
  rw [indexAll] at hindex
  induction metadata generalizing state with
  | nil =>
    cases hindex
    exact ⟨h, rfl⟩
  | cons bytes metadata ih =>
    rw [List.foldlM_cons] at hindex
    obtain ⟨next, hnext, hindex⟩ := Result.bind_eq_ok.1 hindex
    obtain ⟨hindexed, hschema⟩ := h.next hnext
    obtain ⟨hindexed', hschema'⟩ := ih hindexed hindex
    exact ⟨hindexed', hschema'.trans hschema⟩

theorem ofFooter_indexed {schema : ArrowSchema} {version : ℕ}
    {dictionaries records : List FileBlockSpec} :
    (ofFooter schema version dictionaries records).Indexed :=
  ⟨Nat.zero_le _, trivial, rfl⟩

end FileIndexState

namespace ArrowIndexedFileSource

/-- The rows of a File. -/
def totalRows (source : ArrowIndexedFileSource) : ℕ := source.metadata.extent.rows.value.getD 0

/-- The record blocks of a File are consecutive, and its extent has their rows. -/
structure Indexed (source : ArrowIndexedFileSource) : Prop where
  consecutive : Consecutive 0 source.records
  rows : source.totalRows = recordRows source.records

/-- A complete index makes a File with its blocks. -/
theorem indexed_of_indexed {model : SchemaModel} {options : ArrowIpcOptions} {sourceLength : ℕ}
    {state : FileIndexState} {source : ArrowIndexedFileSource} (hindexed : state.Indexed)
    (hcomplete : state.metadataComplete)
    (hsource : completeFile model options sourceLength state = .ok source) :
    source.Indexed ∧ source.schema = state.schema ∧ source.dictionaries = state.dictionaries ∧
      source.records = state.records ∧ source.limits = options.limits := by
  rw [FileIndexState.metadataComplete, decide_eq_true_iff] at hcomplete
  obtain ⟨tableMetadata, hmetadata, hsource⟩ := Result.bind_eq_ok.1 hsource
  cases hsource
  have hconsecutive := hindexed.consecutive
  have hrows := hindexed.rows
  rw [hcomplete.2, List.take_length] at hconsecutive hrows
  obtain ⟨extent, hextent, hmetadata⟩ := Result.bind_eq_ok.1 hmetadata
  obtain ⟨columns, _, hmetadata⟩ := Result.bind_eq_ok.1 hmetadata
  obtain ⟨tableSchema, _, hmetadata⟩ := Result.bind_eq_ok.1 hmetadata
  obtain ⟨columnCount, _, hmetadata⟩ := Result.bind_eq_ok.1 hmetadata
  obtain ⟨_, _, hextent⟩ := Result.bind_eq_ok.1 hextent
  cases hextent
  cases hmetadata
  exact ⟨⟨hconsecutive, hrows⟩, rfl, rfl, rfl, rfl⟩

/-- A File that is opened is indexed. -/
theorem indexed_of_completeFile {verify : MessageVerifier} {model : SchemaModel}
    {options : ArrowIpcOptions} {sourceLength version : ℕ} {schema : ArrowSchema}
    {dictionaries records : List FileBlockSpec} {metadata : List (List UInt8)}
    {state : FileIndexState} {source : ArrowIndexedFileSource}
    (hindex : (FileIndexState.ofFooter schema version dictionaries records).indexAll verify
      options.limits metadata = .ok state)
    (hcomplete : state.metadataComplete)
    (hsource : completeFile model options sourceLength state = .ok source) :
    source.Indexed ∧ source.schema = schema ∧ source.limits = options.limits := by
  obtain ⟨hindexed, hschema⟩ := FileIndexState.ofFooter_indexed.all hindex
  obtain ⟨hsource, hsame, -, -, hlimits⟩ := indexed_of_indexed hindexed hcomplete hsource
  exact ⟨hsource, hsame.trans hschema, hlimits⟩

end ArrowIndexedFileSource

/-! ## Decoding blocks -/

/-- The File decoder of arrow-rs: it keeps the dictionaries it has read. -/
structure FileDecoder (arrays : ArrowArrays α ν) (δ : Type) where
  start : ArrowSchema → ℕ → List ℕ → δ
  readDictionary : δ → ArrowBlock → List UInt8 → Result δ
  readRecordBatch : δ → ArrowBlock → List UInt8 → Result (Option (RecordBatch arrays))

/-- Checks that retained arrays are within the limit. -/
def ensureFileReadMemoryBudget (retainedDictionaryBytes decodedBytes : ℕ)
    (limits : ArrowIpcLimits) : Result Unit := do
  let retainedBytes ← checkedAdd usizeMax retainedDictionaryBytes decodedBytes
    (.new .resourceLimit "Arrow IPC File range retained-memory estimate overflows")
  if limits.maxDecodedBytes < retainedBytes then
    .error (((((TabularkError.new .resourceLimit
      "Arrow IPC File range retained arrays exceed the configured byte limit").withDetail
      "retainedDictionaryBytes" (.number retainedDictionaryBytes)).withDetail
      "decodedBytes" (.number decodedBytes)).withDetail
      "retainedBytes" (.number retainedBytes)).withDetail
      "maxDecodedBytes" (.number limits.maxDecodedBytes))
  else .ok ()

/-- Checks that the arrays and their copies are within the limit. -/
def ensureFileReadAssemblyMemoryBudget (decodedBytes : ℕ) (limits : ArrowIpcLimits) :
    Result Unit := do
  let peakBytes ← checkedMul usizeMax decodedBytes 2
    (.new .resourceLimit "Arrow IPC File range assembly-memory estimate overflows")
  if limits.maxDecodedBytes < peakBytes then
    .error ((((TabularkError.new .resourceLimit
      "Arrow IPC File range assembly would exceed the configured peak-memory limit").withDetail
      "decodedBytes" (.number decodedBytes)).withDetail
      "peakBytes" (.number peakBytes)).withDetail
      "maxDecodedBytes" (.number limits.maxDecodedBytes))
  else .ok ()

/-- Checks that a block can be decoded within the limit. -/
def ensureFileReadTransientMemoryBudget
    (retainedDictionaryBytes decodedBytes ingressBytes decodedForBlock : ℕ)
    (limits : ArrowIpcLimits) : Result Unit := do
  let retainedBytes ← checkedAdd usizeMax retainedDictionaryBytes decodedBytes
    (.new .resourceLimit "Arrow IPC File range retained-memory estimate overflows")
  let transientOverflow :=
    TabularkError.new .resourceLimit "Arrow IPC File block transient-memory estimate overflows"
  let doubled ← checkedMul usizeMax decodedForBlock 2 transientOverflow
  let transientDecodedBytes ← checkedAdd usizeMax doubled retainedDictionaryBytes transientOverflow
  let peakOverflow :=
    TabularkError.new .resourceLimit "Arrow IPC File range peak-memory estimate overflows"
  let withIngress ← checkedAdd usizeMax retainedBytes ingressBytes peakOverflow
  let peakBytes ← checkedAdd usizeMax withIngress transientDecodedBytes peakOverflow
  if limits.maxDecodedBytes < peakBytes then
    .error (((((((TabularkError.new .resourceLimit
      "Arrow IPC File block would exceed the configured peak-memory limit").withDetail
      "retainedBytes" (.number retainedBytes)).withDetail
      "ingressBytes" (.number ingressBytes)).withDetail
      "decodedBlockBytes" (.number decodedForBlock)).withDetail
      "transientDecodedBytes" (.number transientDecodedBytes)).withDetail
      "peakBytes" (.number peakBytes)).withDetail
      "maxDecodedBytes" (.number limits.maxDecodedBytes))
  else .ok ()

/-- Reserves what the compressed buffers of a body declare. -/
def reserveBuffers (limits : ArrowIpcLimits) (body : List UInt8) :
    List CompressedBufferSpec → ℕ → Result ℕ
  | [], declared => .ok declared
  | spec :: specs, declared => do
    let prefixEnd ← checkedAdd usizeMax spec.offset 8
      (.new .resourceLimit "Arrow IPC compressed buffer prefix offset overflows")
    if body.length < prefixEnd then
      .error (.new .parseFailed "Arrow IPC compressed buffer prefix is truncated")
    else do
      let bytes ← declaredDecompressedBufferBytes ((body.drop spec.offset).take 8)
        spec.encodedLength
      let declared ← reserveDeclaredDecompression declared bytes limits
      reserveBuffers limits body specs declared

/-- Checks a block before it is decoded, and reserves what its buffers declare. -/
def preflightCompressedBlock (verify : MessageVerifier) (bytes : List UInt8)
    (metadataLength bodyLength : ℕ) (limits : ArrowIpcLimits) (declared : ℕ) : Result ℕ := do
  let expectedLength ← checkedAdd usizeMax metadataLength bodyLength
    (.new .resourceLimit "Arrow IPC block size overflows")
  if bytes.length ≠ expectedLength then
    .error (.new .parseFailed "Arrow IPC block bytes do not match its indexed length")
  else do
    let message ← encapsulatedMessage verify (bytes.take metadataLength) limits
    if usizeOfInt? message.bodyLength ≠ some bodyLength then
      .error (.new .parseFailed "Arrow IPC block index and message body lengths disagree")
    else do
      let specs ← compressedBufferSpecs message bodyLength
      reserveBuffers limits (bytes.drop metadataLength) specs declared

/-! ## Range operations -/

/-- What a required block is. -/
inductive RequiredBlockKind
  | dictionary
  | record (index : ℕ)
  deriving DecidableEq

/-- A block that a range needs. -/
structure RequiredFileBlock where
  spec : FileBlockSpec
  kind : RequiredBlockKind
  deriving DecidableEq

/-- A range operation that requests only dictionaries and intersecting blocks. -/
structure ArrowFileReadOperation (arrays : ArrowArrays α ν) (δ τ : Type) where
  source : ArrowIndexedFileSource
  plan : RangePlan
  mode : ArrowBatchMode
  required : List RequiredFileBlock
  decoder : Option δ
  decoded : List (ℕ × RecordBatch arrays) := []
  decodedBytes : ℕ := 0
  retainedDictionaryBytes : ℕ := 0
  declaredDecompressedBytes : ℕ := 0
  nextBlock : ℕ := 0
  ready : Option τ := none

/-- Whether a record block has some of the rows. -/
def IndexedRecordBlock.hits (record : IndexedRecordBlock) (rowStart rowEnd : ℕ) : Bool :=
  record.rowStart < rowEnd ∧ rowStart < record.rowStart + record.rowCount

/-- Whether a column of a projection refers to a dictionary. -/
def projectionUsesDictionary (schema : ArrowSchema) (projection : List ℕ) : Bool :=
  projection.any fun index => dataTypeUsesDictionary (columnType schema index)

/-- The dictionaries that a projection needs. -/
def neededDictionaries (source : ArrowIndexedFileSource) (projection : List ℕ) :
    List FileBlockSpec :=
  if projectionUsesDictionary source.schema projection then source.dictionaries else []

/-- The blocks that a plan needs. -/
def requiredBlocks (source : ArrowIndexedFileSource) (plan : RangePlan) :
    List RequiredFileBlock :=
  if 0 < plan.returnedRows ∧ 0 < plan.returnedColumns then
    (neededDictionaries source plan.projection).map (fun spec => ⟨spec, .dictionary⟩) ++
      (source.records.zipIdx.filter fun indexed =>
        indexed.1.hits plan.rowStart (plan.rowStart + plan.returnedRows)).map
          fun indexed => ⟨indexed.1.block, .record indexed.2⟩
  else []

/-- A byte range requested from the source. -/
structure ReadBytesAction where
  offset : ℕ
  length : ℕ
  deriving DecidableEq

/-- A byte range of a source, checked. -/
def ReadBytesAction.new (offset length sourceLength : ℕ) : Result ReadBytesAction := do
  let stop ← checkedAdd usizeMax offset length
    (.new .resourceLimit "Arrow ingress range overflows")
  if sourceLength < stop then
    .error (.new .parseFailed "Arrow IPC metadata references bytes outside the source")
  else .ok { offset, length }

/-- The host's answer to an action; its buffer may have more room than bytes. -/
structure ActionResponse where
  offset : ℕ
  bytes : List UInt8
  capacity : ℕ
  eof : Bool

/-- Checks that an answer is that of an action. -/
def validateActionResponse (action : ReadBytesAction) (response : ActionResponse)
    (sourceLength : ℕ) : Result Unit :=
  let expectedEof : Bool := action.offset + action.length = sourceLength
  if response.offset ≠ action.offset ∨ response.bytes.length ≠ action.length ∨
      response.eof ≠ expectedEof then
    .error ((((TabularkError.new .invalidArgument
      "Arrow ingress bytes do not match the requested read action").withDetail
      "expectedOffset" (.number action.offset)).withDetail
      "expectedLength" (.number action.length)).withDetail
      "expectedEof" (.flag expectedEof))
  else .ok ()

namespace ArrowFileReadOperation

variable (encode : BatchEncoder α τ) (verify : MessageVerifier) (decoder : FileDecoder arrays δ)

/-- The part that a record block has of a column of the range. -/
def partOfRecord (op : ArrowFileReadOperation arrays δ τ) (projectedIndex : ℕ)
    (decoded : ℕ × RecordBatch arrays) : Option α :=
  op.source.records[decoded.1]?.bind fun record =>
    let start := max op.plan.rowStart record.rowStart
    let stop := min (op.plan.rowStart + op.plan.returnedRows) (record.rowStart + record.rowCount)
    if start < stop then
      decoded.2.columns[projectedIndex]?.map fun column =>
        arrays.slice column (start - record.rowStart) (stop - start)
    else none

/-- Joins the parts of a column. -/
def projectColumn (op : ArrowFileReadOperation arrays δ τ) (column : ℕ × ℕ) : Result (ℕ × α) := do
  let joined ← normalizeArrayParts arrays (op.decoded.filterMap (op.partOfRecord column.2))
    (columnType op.source.schema column.1)
  .ok (column.1, joined)

/-- Joins the decoded blocks and encodes them. -/
def buildBatch (op : ArrowFileReadOperation arrays δ τ) : Result τ :=
  if op.required.isEmpty then
    encode op.source.schema
      (op.plan.projection.map fun index =>
        (index, arrays.newEmpty (columnType op.source.schema index)))
      op.plan.returnedRange op.plan.complete op.source.limits op.mode
  else do
    ensureFileReadAssemblyMemoryBudget op.decodedBytes op.source.limits
    let columns ← op.plan.projection.zipIdx.mapM op.projectColumn
    encode op.source.schema columns op.plan.returnedRange op.plan.complete op.source.limits op.mode

/-- An operation that has read nothing of a plan. -/
def ofPlan (source : ArrowIndexedFileSource) (mode : ArrowBatchMode) (plan : RangePlan) :
    ArrowFileReadOperation arrays δ τ where
  source
  plan
  mode
  required := requiredBlocks source plan
  decoder :=
    if (requiredBlocks source plan).isEmpty then none
    else some (decoder.start source.schema source.version plan.projection)

/-- Plans a range read; a range that needs no blocks is ready at once. -/
def new (source : ArrowIndexedFileSource) (request : RangeRequest) (mode : ArrowBatchMode) :
    Result (ArrowFileReadOperation arrays δ τ) := do
  let totalRows ← toUsize source.totalRows invalidRange
  let plan ← planRange request totalRows source.schema.length source.limits
  let op : ArrowFileReadOperation arrays δ τ := ofPlan decoder source mode plan
  if op.required.isEmpty then do
    let ready ← op.buildBatch encode
    .ok { op with ready := some ready }
  else .ok op

/-- The next block to read. -/
def nextAction (op : ArrowFileReadOperation arrays δ τ) : Result (Option ReadBytesAction) :=
  match op.required[op.nextBlock]? with
  | none => .ok none
  | some block => do
    let length ← block.spec.totalLength
    let action ← ReadBytesAction.new block.spec.offset length op.source.sourceLength
    .ok (some action)

/-- Decodes a required block; what it declared is `declaredForBlock`. -/
def decodeBlock (op : ArrowFileReadOperation arrays δ τ) (block : RequiredFileBlock)
    (arrowBlock : ArrowBlock) (state : δ) (bytes : List UInt8) (declaredForBlock : ℕ) :
    Result (ArrowFileReadOperation arrays δ τ) :=
  match block.kind with
  | .dictionary => do
    let state ← decoder.readDictionary state arrowBlock bytes
    let retainedDictionaryBytes ← checkedAdd usizeMax op.retainedDictionaryBytes
      (max block.spec.bodyLength declaredForBlock)
      (.new .resourceLimit "Arrow IPC retained dictionary memory estimate overflows")
    ensureFileReadMemoryBudget retainedDictionaryBytes op.decodedBytes op.source.limits
    .ok { op with
      decoder := some state
      retainedDictionaryBytes }
  | .record index => do
    let batch ← decoder.readRecordBatch state arrowBlock bytes
    match batch with
    | none =>
      .error (.new .parseFailed "Arrow IPC File block did not contain a record batch")
    | some batch => do
      let batch ← detachRecordBatchFromIngress arrays batch
      let decodedBytes ← checkedAdd usizeMax op.decodedBytes batch.arrayMemorySize
        (.new .resourceLimit "Arrow IPC decoded memory estimate overflows")
      ensureFileReadMemoryBudget op.retainedDictionaryBytes decodedBytes op.source.limits
      .ok { op with
        decodedBytes
        decoded := op.decoded ++ [(index, batch)] }

/-- Reads a block; the last one completes the range. -/
def feedBuffer (op : ArrowFileReadOperation arrays δ τ) (response : ActionResponse) :
    Result (ArrowFileReadOperation arrays δ τ × Option τ) := do
  let expected ← op.nextAction
  match expected, op.required[op.nextBlock]? with
  | some expected, some block => do
    validateActionResponse expected response op.source.sourceLength
    let declaredDecompressedBytes ← preflightCompressedBlock verify response.bytes
      block.spec.metadataLength block.spec.bodyLength op.source.limits op.declaredDecompressedBytes
    let declaredForBlock := declaredDecompressedBytes - op.declaredDecompressedBytes
    ensureFileReadTransientMemoryBudget op.retainedDictionaryBytes op.decodedBytes
      (max response.capacity response.bytes.length) (max block.spec.bodyLength declaredForBlock)
      op.source.limits
    let arrowBlock ← block.spec.asArrowBlock
    match op.decoder with
    | none => .error (.new .runtimeFailure "Arrow File decoder is unavailable")
    | some state => do
      let decoded ← op.decodeBlock decoder block arrowBlock state response.bytes declaredForBlock
      let next := { decoded with
        declaredDecompressedBytes
        nextBlock := op.nextBlock + 1 }
      if next.nextBlock = next.required.length then do
        let batch ← next.buildBatch encode
        .ok ({ next with
          decoder := none
          decoded := [] }, some batch)
      else .ok (next, none)
  | _, _ => .error (.new .handleClosed "Arrow File read operation is complete")

/-- Reads blocks until the range is complete. -/
def feedAll (op : ArrowFileReadOperation arrays δ τ) : List ActionResponse → Result (Option τ)
  | [] => .ok none
  | response :: rest => do
    let fed ← op.feedBuffer encode verify decoder response
    match fed.2 with
    | some batch => .ok (some batch)
    | none => fed.1.feedAll rest

/-- Reads a range with the host's answers, if they complete it. -/
def read (source : ArrowIndexedFileSource) (request : RangeRequest) (mode : ArrowBatchMode)
    (responses : List ActionResponse) : Result (Option τ) := do
  let op ← new encode decoder source request mode
  match op.ready with
  | some batch => .ok (some batch)
  | none => op.feedAll encode verify decoder responses

end ArrowFileReadOperation

end Tabulark.Arrow
