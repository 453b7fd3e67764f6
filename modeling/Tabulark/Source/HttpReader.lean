import Tabulark.Source.HttpRequest

/-!
# The reader of an HTTP source

`openHttpReader` asks for the first byte of a source, and learns its length and
its validator from the response; a server without ranges may be read as a whole.
`HttpReader.read` then asks for one range at a time.
-/

namespace Tabulark.Source

open Http

structure RangeSourceOpenOptions where
  maxSourceBytes : ℕ
  maxStagingBytes : ℕ
  /-- Whether the host keeps account of reservations. -/
  hostReservations : Bool

structure HttpReader where
  options : NormalizedHttpOptions
  size : ℕ
  snapshot : Snapshot
  validator : Validator
  maxReadBytes : ℕ
  /-- All bytes of a source that was read as a whole, and their reservation. -/
  fallbackBytes : Option (List UInt8) := none
  releaseRetained : Option ℕ := none

/-! ## Errors -/

/-- Whether a text may name a resource. -/
def isSafeResource (resource : String) : Bool :=
  0 < resource.length && resource.length ≤ 64 &&
    resource.toList.all fun c => c.isAlphanum || ['_', '.', ':', '-'].contains c

/-- The quantity recorded under a key. -/
def quantity (details : List (String × Detail)) (key : String) : Option ℕ :=
  match details.lookup key with
  | some (.number value) => if value ≤ maxSafeInteger then some value else none
  | _ => none

def isSafeLimitDetails (details : List (String × Detail)) : List (String × Detail) :=
  let resource := match details.lookup "resource" with
    | some (.text resource) => if isSafeResource resource then resource else "source-staging"
    | _ => "source-staging"
  [("resource", .text resource),
    ("requiredBytes", .number ((quantity details "requiredBytes").getD 0)),
    ("availableBytes", .number ((quantity details "availableBytes").getD 0))]

def safeSourceDetails (details : List (String × Detail)) : List (String × Detail) :=
  ["status", "expectedBytes", "actualBytes"].filterMap fun key =>
    (quantity details key).map fun value => (key, .number value)

def sourceErrorMessage : SourceErrorCode → String
  | .sourceChanged => "The source changed while it was open"
  | .rangeUnsupported => "The source does not support the requested range"
  | _ => "The source is unavailable"

/-- The public error for something thrown, built anew from what is known to be safe. -/
def normalizeHttpError (thrown : Thrown) (fallbackMessage : String) : SourceError :=
  match thrown with
  | .error error =>
    match error.code with
    | .resourceLimit => { code := .resourceLimit
                          message := "The source exceeds its configured limit"
                          details := isSafeLimitDetails error.details }
    | .cancelled => cancelledError
    | .handleClosed => closedError "Range source reader"
    | .sourceUnavailable | .sourceChanged | .rangeUnsupported =>
      sourceError error.code (sourceErrorMessage error.code) error.retryable
        (safeSourceDetails error.details)
    | .invalidArgument | .other _ => sourceError .sourceUnavailable fallbackMessage true
  | .abort => cancelledError
  | .retryableBody | .foreign => sourceError .sourceUnavailable fallbackMessage true

def responseError (status : ℕ) : SourceError :=
  sourceError .sourceUnavailable "The source returned an unavailable response" false
    (if status ≤ maxSafeInteger then [("status", .number status)] else [])

/-! ## Reservations -/

/-- Reserves bytes of the host, if it keeps account of them: the place of the reservation. -/
def reserve (host : Bool) (kind : ReservationKind) (bytes : ℕ) : Http (Option ℕ) := do
  if host then
    let s ← get
    modify fun s => { s with grants := s.grants.tail }
    match s.grants.headD none with
    | some thrown => throw thrown.1
    | none =>
      modify fun s => { s with reservations := s.reservations ++ [{ kind, bytes }] }
      return some s.reservations.length
  else return none

/-- Releases a reservation. -/
def release : Option ℕ → Http Unit
  | some i => modify fun s => { s with
      reservations := s.reservations.modify i fun r => { r with released := r.released + 1 } }
  | none => return

/-- The staging of bytes is waited for. -/
def reserveStaging (host : Bool) (bytes : ℕ) : Http (Option ℕ) := do
  tick
  reserve host .staging bytes

/-! ## Opening -/

def assertSourceSize (size maxSourceBytes : ℕ) : Http Unit :=
  if maxRangeSourceBytes < size then
    fail (resourceLimitError size maxRangeSourceBytes "source-address-space")
  else if maxSourceBytes < size then
    fail (resourceLimitError size maxSourceBytes "source-staging")
  else return

/-- Reads the body of a probe, with its bytes in staging. -/
def readOpenResponseBody (response : Response) (expectedLength : ℕ) (host : Bool) :
    Http (List UInt8) := do
  let staging ← reserveStaging host expectedLength
  Async.finallyDo (readResponseBody response expectedLength) (release staging)

variable (dateParses : List Char → Bool)

/-- A source with ranges, after its probe. -/
def openRanges (options : NormalizedHttpOptions) (openOptions : RangeSourceOpenOptions)
    (response : Response) : Http HttpReader :=
  match parseContentRange response 0 1 with
  | none => fail (sourceError .rangeUnsupported "The source returned an invalid byte range")
  | some size => do
    assertSourceSize size openOptions.maxSourceBytes
    let validator ← orThrow (selectValidator dateParses response size options.validation)
    let _ ← readOpenResponseBody response 1 openOptions.hostReservations
    return {
      options
      size
      snapshot := createSnapshot validator size
      validator
      maxReadBytes := openOptions.maxStagingBytes }

/-- An empty source, which has no first byte. -/
def openEmpty (options : NormalizedHttpOptions) (openOptions : RangeSourceOpenOptions)
    (response : Response) : Http HttpReader := do
  assertSourceSize 0 openOptions.maxSourceBytes
  let validator ← orThrow (selectValidator dateParses response 0 options.validation)
  tick
  return {
    options
    size := 0
    snapshot := createSnapshot validator 0
    validator
    maxReadBytes := openOptions.maxStagingBytes }

/-- Reads a whole source: its bytes, and their reservation. It stays if they were read. -/
def download (response : Response) (contentLength : ℕ) (host : Bool) :
    Http (List UInt8 × Option ℕ) := do
  let staging ← reserveStaging host contentLength
  Async.finallyDo (do
    let retained ← reserve host .retained contentLength
    tryCatch (do
      let bytes ← readResponseBody response contentLength
      return (bytes, retained)) fun thrown => do
        release retained
        throw thrown) (release staging)

/-- A source without ranges, if it may be read as a whole. -/
def openFallback (options : NormalizedHttpOptions) (openOptions : RangeSourceOpenOptions)
    (maxBytes : ℕ) (response : Response) : Http HttpReader :=
  match parseContentLength response with
  | none => fail (sourceError .rangeUnsupported "The source does not provide a bounded length")
  | some contentLength => do
    assertSourceSize contentLength openOptions.maxSourceBytes
    let bound := min maxBytes openOptions.maxStagingBytes
    if bound < contentLength then
      fail (resourceLimitError contentLength bound "source-staging")
    else
      let validator ←
        orThrow (selectValidator dateParses response contentLength options.validation)
      let (bytes, retained) ← download response contentLength openOptions.hostReservations
      return {
        options
        size := contentLength
        snapshot := createSnapshot validator contentLength
        validator
        maxReadBytes := openOptions.maxStagingBytes
        fallbackBytes := some bytes
        releaseRetained := retained }

/-- The response to a probe. -/
def consumeProbe (options : NormalizedHttpOptions) (openOptions : RangeSourceOpenOptions)
    (response : Response) : Http HttpReader :=
  if response.status = 206 then openRanges dateParses options openOptions response
  else if response.status = 416 ∧ parseUnsatisfiedContentRange response = some 0 then
    openEmpty dateParses options openOptions response
  else
    match if response.status = 200 then options.fallbackMaxBytes else none with
    | some maxBytes => openFallback dateParses options openOptions maxBytes response
    | none =>
      if response.status = 416 ∨ response.status = 200 then
        fail (sourceError .rangeUnsupported "The source does not support byte ranges")
      else fail (responseError response.status)

def validateOpenOptions (openOptions : RangeSourceOpenOptions) : Http Unit :=
  if maxSafeInteger < openOptions.maxSourceBytes ∨ maxSafeInteger < openOptions.maxStagingBytes then
    fail (invalidArgument "Range source limits must be safe non-negative integers")
  else if openOptions.maxStagingBytes = 0 then fail (resourceLimitError 1 0 "source-staging")
  else return

def openHttpReader (options : NormalizedHttpOptions) (openOptions : RangeSourceOpenOptions) :
    Http HttpReader := do
  validateOpenOptions openOptions
  if ← aborted then fail cancelledError
  else
    tryCatch (requestWithRetry options (consumeProbe dateParses options openOptions))
      fun thrown => fail (normalizeHttpError thrown "Unable to open the source")

/-! ## Reading -/

namespace HttpReader

/-- The response to a read. -/
def consumeRange (reader : HttpReader) (offset length : ℕ) (response : Response) :
    Http (List UInt8) :=
  if response.status = 200 ∨ response.status = 416 then
    fail (sourceError .rangeUnsupported "The source stopped supporting byte ranges")
  else if response.status ≠ 206 then fail (responseError response.status)
  else
    match parseContentRange response offset length with
    | none => fail (sourceError .rangeUnsupported "The source returned an invalid byte range")
    | some total =>
      if total ≠ reader.size then
        fail (sourceError .sourceChanged "The source changed while it was open")
      else do
        orThrow (validateValidator response reader.validator reader.size)
        readResponseBody response length

/-- Waits for one of the permits of the reader. -/
def acquire : Http Unit := do
  modify fun s => { s with clock := s.clock + s.queued + 1 }
  if ← closed then fail (closedError "Range source reader")
  else if ← aborted then fail cancelledError
  else return

def read (reader : HttpReader) (offset length : ℕ) : Http (List UInt8) := do
  if ← closed then fail (closedError "Range source reader")
  else if maxRangeSourceBytes < reader.size ∨ maxRangeSourceBytes < offset ∨
      maxRangeSourceBytes < length ∨ reader.size < offset + length then
    fail (sourceError .rangeUnsupported "The requested source range is outside the source")
  else if ← aborted then fail cancelledError
  else if length = 0 then return []
  else if reader.maxReadBytes < length then
    fail (resourceLimitError length reader.maxReadBytes "source-staging")
  else
    acquire
    tryCatch
      (match reader.fallbackBytes with
      | some bytes => return (bytes.drop offset).take length
      | none => requestWithRetry reader.options (reader.consumeRange offset length))
      fun thrown => do
        if ← closed then fail (closedError "Range source reader")
        else fail (normalizeHttpError thrown "Unable to read the source")

/-- Closes the reader. -/
def close (reader : HttpReader) : Http Unit := do
  if ← closed then return
  else
    modify fun s => { s with closedAt := some s.clock }
    release reader.releaseRetained

end HttpReader

end Tabulark.Source
