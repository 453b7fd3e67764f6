import Tabulark.Arrow.Message
import Tabulark.Lib.OrderedMap

/-!
# Stream framing

`StreamWireValidator` checks the framing of an IPC Stream chunk by chunk, before
the decoder sees it, and estimates what the decoder retains. It holds the parts
of a message that come in pieces: the header, the metadata, and the
decoded-length prefixes of the compressed buffers of a body.
-/

namespace Tabulark.Arrow

open OrderedMap

/-! ## The validator -/

/-- A compressed buffer and what was read of its decoded-length prefix. -/
structure PendingCompressedBuffer where
  spec : CompressedBufferSpec
  lengthBytes : List UInt8 := List.replicate 8 0
  prefixRead : ℕ := 0
  accounted : Bool := false
  deriving DecidableEq

/-- Where the validator is in a message. -/
inductive StreamWireState
  | header (bytes : List UInt8) (target : ℕ)
  | metadata (bytes : List UInt8) (target : ℕ)
  | body (metadataLength remaining consumed : ℕ)
      (compressedBuffers : List PendingCompressedBuffer) (memoryKind : StreamMessageMemoryKind)
      (decodedBodyBytes : ℕ)
  | finished

/-- Bounded framing validator for an IPC Stream. -/
structure StreamWireValidator where
  state : StreamWireState := .header [] 4
  schemaSeen : Bool := false
  declaredDecompressedBytes : ℕ := 0
  retainedRecordBodyBytes : ℕ := 0
  retainedDictionaryBodyBytes : ℕ := 0
  dictionaryBytes : List (ℤ × ℕ) := []
  feedPeakBufferedBytes : ℕ := 0
  feedTransientRecordBytes : ℕ := 0
  feedDeltaConcatBytes : ℕ := 0

/-- The first bytes of an IPC File. -/
def arrowMagic : List UInt8 := [0x41, 0x52, 0x52, 0x4f, 0x57, 0x31]

/-- The marker before the length of a message. -/
def continuationMarker : List UInt8 := [0xff, 0xff, 0xff, 0xff]

/-- A little-endian number. -/
def fromLittleEndian (bytes : List UInt8) : ℕ :=
  bytes.foldr (fun b n => b.toNat + 256 * n) 0

/-- What a header that has all its bytes says: there is more of it after a marker, the stream
    ends, or metadata follows. -/
inductive HeaderEnd
  | more
  | finished
  | metadata (length : ℕ)

/-- Reads a header that has all its bytes. -/
def headerEnd (limits : ArrowIpcLimits) (bytes : List UInt8) (target : ℕ) : Result HeaderEnd :=
  if target = 4 ∧ bytes.take 4 = arrowMagic.take 4 then
    .error (.new .parseFailed "Arrow IPC File bytes were supplied to the Stream reader")
  else if target = 4 ∧ bytes.take 4 = continuationMarker then .ok .more
  else do
    let lengthOffset := if target = 8 then 4 else 0
    let metadataLength ← toUsize (fromLittleEndian ((bytes.drop lengthOffset).take 4))
      (.new .resourceLimit "Arrow IPC Stream message length exceeds the supported range")
    if metadataLength = 0 then .ok .finished
    else if limits.maxMetadataBytes < metadataLength then
      .error (((TabularkError.new .resourceLimit
        "Arrow IPC Stream message metadata exceeds the configured limit").withDetail
        "metadataBytes" (.number metadataLength)).withDetail
        "maxMetadataBytes" (.number limits.maxMetadataBytes))
    else .ok (.metadata metadataLength)

/-- The state after a header. -/
def HeaderEnd.state (bytes : List UInt8) : HeaderEnd → StreamWireState
  | .more => .header bytes 8
  | .finished => .finished
  | .metadata length => .metadata [] length

/-- The error of a stream that buffers more than `usize` counts. -/
def bufferedIngressOverflow : TabularkError :=
  .new .resourceLimit "Arrow IPC Stream buffered ingress estimate overflows"

/-- The decoded length that the prefix of a buffer declares; -1 is a buffer that is not
    compressed. -/
def declaredDecompressedBufferBytes (lengthBytes : List UInt8) (encodedLength : ℕ) : Result ℕ :=
  let declared := fromLittleEndian lengthBytes
  if declared = 2 ^ 64 - 1 then .ok (encodedLength - 8)
  else if declared = 0 then .ok 0
  else if declared < 2 ^ 63 then
    toUsize declared (.new .resourceLimit
      "Arrow IPC declared decompressed buffer size exceeds the supported range")
  else .error (.new .parseFailed "Arrow IPC compressed buffer has an invalid decoded-length prefix")

/-- Adds declared bytes to a total, within the limit. -/
def reserveDeclaredDecompression (total bytes : ℕ) (limits : ArrowIpcLimits) : Result ℕ := do
  let next ← checkedAdd usizeMax total bytes
    (.new .resourceLimit "Arrow IPC declared decompressed byte total overflows")
  if limits.maxDecodedBytes < next then
    .error (((TabularkError.new .resourceLimit
      "Arrow IPC declared decompressed buffers exceed the configured byte limit").withDetail
      "declaredDecompressedBytes" (.number next)).withDetail
      "maxDecodedBytes" (.number limits.maxDecodedBytes))
  else .ok next

/-- The size of a dictionary after a batch of it: a delta is appended, another batch replaces
    it. -/
def dictionaryTotal (previous decodedBodyBytes : ℕ) (isDelta : Bool) : Result ℕ :=
  if isDelta then
    checkedAdd usizeMax previous decodedBodyBytes
      (.new .resourceLimit "Arrow IPC Stream dictionary delta estimate overflows")
  else .ok decodedBodyBytes

namespace PendingCompressedBuffer

/-- Takes what a fragment of the body has of the prefix. -/
def fill (p : PendingCompressedBuffer) (fragmentStart : ℕ) (fragment : List UInt8) :
    Result PendingCompressedBuffer := do
  let prefixEnd ← checkedAdd usizeMax p.spec.offset 8
    (.new .resourceLimit "Arrow IPC compressed buffer prefix offset overflows")
  let overlapStart := max fragmentStart p.spec.offset
  let overlapEnd := min (fragmentStart + fragment.length) prefixEnd
  if overlapStart < overlapEnd then
    let destinationStart := overlapStart - p.spec.offset
    let length := overlapEnd - overlapStart
    .ok { p with
      lengthBytes := p.lengthBytes.take destinationStart ++
        ((fragment.drop (overlapStart - fragmentStart)).take length ++
          p.lengthBytes.drop (destinationStart + length))
      prefixRead := max p.prefixRead (destinationStart + length) }
  else .ok p

/-- Accounts for a buffer once its prefix is complete: the buffer, the declared total, and the
    decoded bytes of the body. -/
def account (p : PendingCompressedBuffer) (limits : ArrowIpcLimits) (declared decoded : ℕ) :
    Result (PendingCompressedBuffer × ℕ × ℕ) :=
  if p.prefixRead = 8 then do
    let bytes ← declaredDecompressedBufferBytes p.lengthBytes p.spec.encodedLength
    let declared ← reserveDeclaredDecompression declared bytes limits
    let decoded ← checkedAdd usizeMax decoded bytes
      (.new .resourceLimit "Arrow IPC Stream decoded body estimate overflows")
    .ok ({ p with accounted := true }, declared, decoded)
  else .ok (p, declared, decoded)

end PendingCompressedBuffer

/-- Goes through the buffers that are not accounted for yet. -/
def accountBuffers (limits : ArrowIpcLimits) (fragmentStart : ℕ) (fragment : List UInt8) :
    List PendingCompressedBuffer → ℕ → ℕ → Result (List PendingCompressedBuffer × ℕ × ℕ)
  | [], declared, decoded => .ok ([], declared, decoded)
  | p :: pending, declared, decoded =>
    if p.accounted then do
      let rest ← accountBuffers limits fragmentStart fragment pending declared decoded
      .ok (p :: rest.1, rest.2)
    else do
      let filled ← p.fill fragmentStart fragment
      let accounted ← filled.account limits declared decoded
      let rest ← accountBuffers limits fragmentStart fragment pending accounted.2.1 accounted.2.2
      .ok (accounted.1 :: rest.1, rest.2)

namespace StreamWireValidator

/-- The bytes of the current message that the decoder still holds. -/
def decoderBufferedBytes (v : StreamWireValidator) : Result ℕ :=
  match v.state with
  | .header bytes _ => .ok bytes.length
  | .metadata bytes _ => .ok bytes.length
  | .body metadataLength _ consumed _ _ _ =>
    checkedAdd usizeMax metadataLength consumed bufferedIngressOverflow
  | .finished => .ok 0

/-- Notes what the decoder buffers. -/
def buffer (v : StreamWireValidator) (bytes : ℕ) : StreamWireValidator :=
  { v with feedPeakBufferedBytes := max v.feedPeakBufferedBytes bytes }

/-- Estimates what a complete message retains. -/
def recordCompletedMessage (v : StreamWireValidator) (memoryKind : StreamMessageMemoryKind)
    (decodedBodyBytes : ℕ) : Result StreamWireValidator :=
  match memoryKind with
  | .none => .ok v
  | .record => do
    let retainedRecordBodyBytes ← checkedAdd usizeMax v.retainedRecordBodyBytes decodedBodyBytes
      (.new .resourceLimit "Arrow IPC Stream retained record-body estimate overflows")
    .ok { v with
      retainedRecordBodyBytes
      feedTransientRecordBytes := max v.feedTransientRecordBytes decodedBodyBytes }
  | .dictionary id isDelta => do
    let current ← dictionaryTotal ((get? v.dictionaryBytes id).getD 0) decodedBodyBytes isDelta
    let retainedDictionaryBodyBytes ←
      checkedAdd usizeMax v.retainedDictionaryBodyBytes decodedBodyBytes
        (.new .resourceLimit "Arrow IPC Stream retained dictionary estimate overflows")
    .ok { v with
      retainedDictionaryBodyBytes
      dictionaryBytes := insert v.dictionaryBytes id current
      feedDeltaConcatBytes :=
        if isDelta then max v.feedDeltaConcatBytes current else v.feedDeltaConcatBytes }

/-- Checks the peak memory of decoding a chunk. -/
def ensureDecodeMemoryBudget (v : StreamWireValidator) (decodedBytes ingressBytes : ℕ)
    (limits : ArrowIpcLimits) : Result Unit := do
  let peakOverflow := TabularkError.new .resourceLimit
    "Arrow IPC Stream peak-memory estimate overflows"
  let retainedRecordBytes := max decodedBytes v.retainedRecordBodyBytes
  let retainedBytes ← checkedAdd usizeMax retainedRecordBytes v.retainedDictionaryBodyBytes
    (.new .resourceLimit "Arrow IPC Stream retained-memory estimate overflows")
  let transientBytes ← checkedAdd usizeMax v.feedTransientRecordBytes v.feedDeltaConcatBytes
    (.new .resourceLimit "Arrow IPC Stream transient-memory estimate overflows")
  let withIngress ← checkedAdd usizeMax retainedBytes ingressBytes peakOverflow
  let withBuffered ← checkedAdd usizeMax withIngress v.feedPeakBufferedBytes peakOverflow
  let peakBytes ← checkedAdd usizeMax withBuffered transientBytes peakOverflow
  if limits.maxDecodedBytes < peakBytes then
    .error ((((((((TabularkError.new .resourceLimit
      "Arrow IPC Stream decode would exceed the configured peak-memory limit").withDetail
      "retainedRecordBytes" (.number retainedRecordBytes)).withDetail
      "retainedDictionaryBytes" (.number v.retainedDictionaryBodyBytes)).withDetail
      "ingressBytes" (.number ingressBytes)).withDetail
      "bufferedIngressBytes" (.number v.feedPeakBufferedBytes)).withDetail
      "transientBytes" (.number transientBytes)).withDetail
      "peakBytes" (.number peakBytes)).withDetail
      "maxDecodedBytes" (.number limits.maxDecodedBytes))
  else .ok ()

/-- What follows metadata that has all its bytes: a body, or the next message. -/
def afterMetadata (verify : MessageVerifier) (limits : ArrowIpcLimits) (v : StreamWireValidator)
    (metadata : List UInt8) : Result StreamWireValidator := do
  let validation ← validateStreamMessage verify metadata limits v.schemaSeen
  let schemaSeen := v.schemaSeen || validation.isSchema
  if validation.bodyLength = 0 then
    recordCompletedMessage { v with
      schemaSeen
      state := .header [] 4 } validation.memoryKind 0
  else do
    let bufferedMessageBytes ← checkedAdd usizeMax validation.bodyLength metadata.length
      bufferedIngressOverflow
    .ok (buffer { v with
      schemaSeen
      state := .body metadata.length validation.bodyLength 0
        (validation.compressedBuffers.map ({ spec := · })) validation.memoryKind
        (if validation.compressed then 0 else validation.bodyLength) } bufferedMessageBytes)

/-- What a fragment of a body does: it completes prefixes, and it may be the end of the message. -/
def takeBody (limits : ArrowIpcLimits) (v : StreamWireValidator)
    (metadataLength remaining consumed : ℕ) (compressedBuffers : List PendingCompressedBuffer)
    (memoryKind : StreamMessageMemoryKind) (decodedBodyBytes : ℕ) (fragment : List UInt8) :
    Result StreamWireValidator := do
  let fragmentEnd ← checkedAdd usizeMax consumed fragment.length
    (.new .resourceLimit "Arrow IPC Stream body offset overflows")
  let accounted ← accountBuffers limits consumed fragment compressedBuffers
    v.declaredDecompressedBytes decodedBodyBytes
  let buffered ← checkedAdd usizeMax metadataLength fragmentEnd bufferedIngressOverflow
  let v := buffer { v with declaredDecompressedBytes := accounted.2.1 } buffered
  if remaining - fragment.length = 0 then
    if accounted.1.any (! ·.accounted) then
      .error (.new .parseFailed "Arrow IPC compressed body ended before a buffer prefix")
    else recordCompletedMessage { v with state := .header [] 4 } memoryKind accounted.2.2
  else
    .ok { v with
      state := .body metadataLength (remaining - fragment.length) fragmentEnd accounted.1
        memoryKind accounted.2.2 }

/-- One turn: takes the bytes that the state waits for, as far as there are bytes. -/
def advance (verify : MessageVerifier) (limits : ArrowIpcLimits) (v : StreamWireValidator)
    (bytes : List UInt8) : Result (StreamWireValidator × List UInt8) :=
  match v.state with
  | .header header target => do
    let take := min (target - header.length) bytes.length
    let header := header ++ bytes.take take
    let v := v.buffer header.length
    if header.length < target then .ok ({ v with state := .header header target }, bytes.drop take)
    else do
      let stop ← headerEnd limits header target
      .ok ({ v with state := stop.state header }, bytes.drop take)
  | .metadata metadata target => do
    let take := min (target - metadata.length) bytes.length
    let metadata := metadata ++ bytes.take take
    let v := v.buffer metadata.length
    if metadata.length < target then
      .ok ({ v with state := .metadata metadata target }, bytes.drop take)
    else do
      let v ← v.afterMetadata verify limits metadata
      .ok (v, bytes.drop take)
  | .body metadataLength remaining consumed compressedBuffers memoryKind decodedBodyBytes => do
    let take := min remaining bytes.length
    let v ← v.takeBody limits metadataLength remaining consumed compressedBuffers memoryKind
      decodedBodyBytes (bytes.take take)
    .ok (v, bytes.drop take)
  | .finished =>
    .error (.new .parseFailed "Arrow IPC Stream contains bytes after its end marker")

/-- Turns until no bytes are left; every turn takes at least one. -/
def feedTurns (verify : MessageVerifier) (limits : ArrowIpcLimits) :
    ℕ → StreamWireValidator → List UInt8 → Result StreamWireValidator
  | _, v, [] => .ok v
  | 0, _, _ :: _ =>
    .error (.new .runtimeFailure "Arrow IPC Stream framing state is inconsistent")
  | turns + 1, v, b :: bytes => do
    let advanced ← v.advance verify limits (b :: bytes)
    feedTurns verify limits turns advanced.1 advanced.2

/-- Feeds a chunk. -/
def feed (verify : MessageVerifier) (limits : ArrowIpcLimits) (v : StreamWireValidator)
    (bytes : List UInt8) : Result StreamWireValidator := do
  let feedPeakBufferedBytes ← v.decoderBufferedBytes
  feedTurns verify limits bytes.length { v with
    feedPeakBufferedBytes
    feedTransientRecordBytes := 0
    feedDeltaConcatBytes := 0 } bytes

/-- Checks that the stream has a schema and ends between messages. -/
def finish (v : StreamWireValidator) : Result Unit :=
  if ¬v.schemaSeen then
    .error (.new .parseFailed "Arrow IPC Stream ended before its schema message was complete")
  else
    match v.state with
    | .finished => .ok ()
    | .header [] 4 => .ok ()
    | _ => .error (.new .parseFailed "Arrow IPC Stream ended in the middle of a message")

/-- Feeds chunk after chunk. -/
def feedAll (verify : MessageVerifier) (limits : ArrowIpcLimits) (v : StreamWireValidator)
    (chunks : List (List UInt8)) : Result StreamWireValidator :=
  chunks.foldlM (feed verify limits) v

/-- Validates a stream that comes in chunks. -/
def validate (verify : MessageVerifier) (limits : ArrowIpcLimits) (chunks : List (List UInt8)) :
    Result StreamWireValidator := do
  let v ← feedAll verify limits {} chunks
  v.finish
  .ok v

end StreamWireValidator

end Tabulark.Arrow
