import Mathlib
import Tabulark.Error

/-!
# Arrow IPC messages

The metadata of an IPC message as FlatBuffers verifies it, and the checks of a
Stream message before its body arrives. A message that passes them has a body
within the block limit and compressed buffers that lie apart in the body, each
with room for its decoded-length prefix.
-/

namespace Tabulark.Arrow

/-! ## Limits -/

/-- Resource limits applied before and while decoding one Arrow IPC source. -/
structure ArrowIpcLimits where
  maxSourceBytes : ℕ
  maxDecodedBytes : ℕ
  maxOutputBytes : ℕ
  maxMetadataBytes : ℕ
  maxBlockBytes : ℕ
  streamChunkBytes : ℕ
  maxFields : ℕ
  maxNestingDepth : ℕ
  maxRangeCells : ℕ
  maxDisplayCellBytes : ℕ
  maxDecodedBytes_le : maxDecodedBytes ≤ usizeMax
  deriving DecidableEq

namespace ArrowIpcLimits

/-- The first of some sublimits that exceeds the decoded-memory ceiling. -/
def validateSublimits (limits : ArrowIpcLimits) : List (String × ℕ) → Result Unit
  | [] => .ok ()
  | (name, value) :: sublimits =>
    if limits.maxDecodedBytes < value then
      .error ((((TabularkError.new .invalidArgument
        "Arrow IPC operation sublimit exceeds its decoded-memory ceiling").withDetail
        "limit" (.text name)).withDetail
        "limitBytes" (.number value)).withDetail
        "maxDecodedBytes" (.number limits.maxDecodedBytes))
    else limits.validateSublimits sublimits

/-- Checks that no limit is zero and no sublimit exceeds the ceiling. -/
def validate (limits : ArrowIpcLimits) : Result Unit :=
  if limits.maxSourceBytes = 0 ∨ limits.maxDecodedBytes = 0 ∨ limits.maxOutputBytes = 0 ∨
      limits.maxMetadataBytes = 0 ∨ limits.maxBlockBytes = 0 ∨ limits.streamChunkBytes = 0 ∨
      limits.maxFields = 0 ∨ limits.maxNestingDepth = 0 ∨ limits.maxRangeCells = 0 ∨
      limits.maxDisplayCellBytes = 0 then
    .error (.new .invalidArgument "Arrow IPC resource limits must be greater than zero")
  else limits.validateSublimits [("maxOutputBytes", limits.maxOutputBytes),
    ("maxMetadataBytes", limits.maxMetadataBytes), ("maxBlockBytes", limits.maxBlockBytes),
    ("streamChunkBytes", limits.streamChunkBytes),
    ("maxDisplayCellBytes", limits.maxDisplayCellBytes)]

/-- Checks the limits against an engine-wide memory ceiling. -/
def validateForMemoryBudget (limits : ArrowIpcLimits) (memoryBudgetBytes : ℕ) : Result Unit := do
  limits.validate
  if memoryBudgetBytes = 0 ∨ memoryBudgetBytes < limits.maxDecodedBytes then
    .error (((TabularkError.new .invalidArgument
      "Arrow IPC decoded byte limit exceeds the runtime memory budget").withDetail
      "maxDecodedBytes" (.number limits.maxDecodedBytes)).withDetail
      "memoryBudgetBytes" (.number memoryBudgetBytes))
  else .ok ()

end ArrowIpcLimits

/-! ## Metadata -/

/-- A record batch in message metadata: whether its buffers are compressed, and their offsets
    and lengths in the body. -/
structure RecordBatchHeader where
  length : ℤ
  compression : Bool
  buffers : Option (List (ℤ × ℤ))
  deriving DecidableEq, Repr

/-- A dictionary batch in message metadata. -/
structure DictionaryBatchHeader where
  id : ℤ
  isDelta : Bool
  data : Option RecordBatchHeader
  deriving DecidableEq, Repr

/-- The header of a message; the table of a header may be missing. A schema says whether it has
    the endianness of the target. -/
inductive MessageHeader
  | none
  | schema (isNative : Option Bool)
  | dictionaryBatch (dictionary : Option DictionaryBatchHeader)
  | recordBatch (batch : Option RecordBatchHeader)
  | tensor
  | sparseTensor
  deriving DecidableEq, Repr

/-- Whether a header is that of a schema. -/
def MessageHeader.isSchema : MessageHeader → Bool
  | .schema _ => true
  | _ => false

/-- Message metadata that FlatBuffers has verified. -/
structure Message where
  header : MessageHeader
  bodyLength : ℤ
  deriving DecidableEq, Repr

/-- The FlatBuffers verifier, under options derived from the limits. -/
abbrev MessageVerifier := ArrowIpcLimits → List UInt8 → Result Message

/-- A conversion of an `i64` to `usize`. -/
def toUsizeOfInt (value : ℤ) (error : TabularkError) : Result ℕ :=
  if 0 ≤ value ∧ value.toNat ≤ usizeMax then .ok value.toNat else .error error

/-! ## Compressed buffers -/

/-- A compressed buffer in a body: it starts with the 8-byte length of what it decodes to. -/
structure CompressedBufferSpec where
  offset : ℕ
  encodedLength : ℕ
  prefix_le : 8 ≤ encodedLength
  deriving DecidableEq

/-- The compressed buffers among the buffers of a body; empty buffers have no bytes there. -/
def bufferSpecs (bodyLength : ℕ) : List (ℤ × ℤ) → Result (List CompressedBufferSpec)
  | [] => .ok []
  | (bufferOffset, bufferLength) :: buffers => do
    let offset ← toUsizeOfInt bufferOffset
      (.new .parseFailed "Arrow IPC compressed buffer has a negative offset")
    let encodedLength ← toUsizeOfInt bufferLength
      (.new .parseFailed "Arrow IPC compressed buffer has a negative length")
    if encodedLength = 0 then bufferSpecs bodyLength buffers
    else if hshort : encodedLength < 8 then
      .error (.new .parseFailed
        "Arrow IPC compressed buffer is shorter than its decoded-length prefix")
    else do
      let stop ← checkedAdd usizeMax offset encodedLength
        (.new .resourceLimit "Arrow IPC compressed buffer range overflows")
      if bodyLength < stop then
        .error (.new .parseFailed "Arrow IPC compressed buffer points outside its message body")
      else do
        let specs ← bufferSpecs bodyLength buffers
        .ok (⟨offset, encodedLength, not_lt.1 hshort⟩ :: specs)

/-- Checks that each buffer ends before the next one starts. -/
def checkApart : List CompressedBufferSpec → Result Unit
  | a :: b :: specs => do
    let previousEnd ← checkedAdd usizeMax a.offset a.encodedLength
      (.new .resourceLimit "Arrow IPC compressed buffer range overflows")
    if b.offset < previousEnd then
      .error (.new .parseFailed "Arrow IPC compressed buffers overlap")
    else checkApart (b :: specs)
  | _ => .ok ()

/-- The record batch of a message, if it has one. -/
def Message.batch (message : Message) : Option RecordBatchHeader :=
  match message.header with
  | .recordBatch batch => batch
  | .dictionaryBatch dictionary => dictionary.bind (·.data)
  | _ => none

/-- The compressed buffers of a message, in the order of the body. -/
def compressedBufferSpecs (message : Message) (bodyLength : ℕ) :
    Result (List CompressedBufferSpec) :=
  match message.batch with
  | none => .ok []
  | some batch =>
    if ¬batch.compression then .ok []
    else
      match batch.buffers with
      | none =>
        .error (.new .parseFailed "Arrow IPC compressed record batch has no buffer index")
      | some buffers => do
        let specs ← bufferSpecs bodyLength buffers
        let sorted := specs.mergeSort fun a b => decide (a.offset ≤ b.offset)
        checkApart sorted
        .ok sorted

/-! ## Stream messages -/

/-- What a message retains once it is decoded. -/
inductive StreamMessageMemoryKind
  | none
  | record
  | dictionary (id : ℤ) (isDelta : Bool)
  deriving DecidableEq, Repr

/-- What the metadata of a Stream message announces. -/
structure StreamMessageValidation where
  isSchema : Bool
  bodyLength : ℕ
  compressedBuffers : List CompressedBufferSpec
  memoryKind : StreamMessageMemoryKind
  compressed : Bool
  deriving DecidableEq

/-- What a message retains, and whether its body is compressed. -/
def Message.memoryKind (message : Message) : Result (StreamMessageMemoryKind × Bool) :=
  match message.header with
  | .recordBatch (some batch) => .ok (.record, batch.compression)
  | .recordBatch none =>
    .error (.new .parseFailed "Arrow IPC record message has no RecordBatch header")
  | .dictionaryBatch (some ⟨id, isDelta, some batch⟩) =>
    .ok (.dictionary id isDelta, batch.compression)
  | .dictionaryBatch (some ⟨_, _, none⟩) =>
    .error (.new .parseFailed "Arrow IPC dictionary message has no RecordBatch body header")
  | .dictionaryBatch none =>
    .error (.new .parseFailed "Arrow IPC dictionary message has no DictionaryBatch header")
  | _ => .ok (.none, false)

/-- Checks that the schema comes first and once, in the endianness of the target. -/
def Message.checkHeader (message : Message) (schemaSeen : Bool) : Result Unit :=
  match message.header with
  | .tensor | .sparseTensor =>
    .error (.new .unsupportedFeature
      "Arrow tensor and sparse-tensor IPC messages are not supported")
  | .schema isNative =>
    if schemaSeen then
      .error (.new .parseFailed "Arrow IPC Stream contains more than one schema message")
    else
      match isNative with
      | none => .error (.new .parseFailed "Arrow IPC Stream schema message has no schema header")
      | some false =>
        .error (.new .unsupportedFeature "Arrow IPC source uses non-native endianness")
      | some true => .ok ()
  | _ =>
    if ¬schemaSeen then
      .error (.new .parseFailed "Arrow IPC Stream does not begin with a schema message")
    else .ok ()

/-- Checks the metadata of a Stream message. -/
def validateStreamMessage (verify : MessageVerifier) (metadata : List UInt8)
    (limits : ArrowIpcLimits) (schemaSeen : Bool) : Result StreamMessageValidation := do
  let message ← verify limits metadata
  message.checkHeader schemaSeen
  let bodyLength ← toUsizeOfInt message.bodyLength
    (.new .parseFailed "Arrow IPC Stream message has a negative body length")
  let blockLength ← checkedAdd usizeMax metadata.length bodyLength
    (.new .resourceLimit "Arrow IPC Stream block length overflows")
  if limits.maxBlockBytes < blockLength then
    .error (((TabularkError.new .resourceLimit
      "Arrow IPC Stream block exceeds the configured encoded byte limit").withDetail
      "blockBytes" (.number blockLength)).withDetail
      "maxBlockBytes" (.number limits.maxBlockBytes))
  else do
    let memory ← message.memoryKind
    let compressedBuffers ← compressedBufferSpecs message bodyLength
    .ok {
      isSchema := message.header.isSchema
      bodyLength
      compressedBuffers
      memoryKind := memory.1
      compressed := memory.2 }

end Tabulark.Arrow
