import Tabulark.Arrow.FileRead
import Tabulark.Lib.Update
import Tabulark.Parquet.Planning

/-!
# Restartable Parquet operations

An open operation looks for the footer of a file, a read operation for the pages of a range.
Both decode again from what is cached, and ask for the range that was missing. A read operation
checks a result set before it takes anything from its state (`feedMany_rejects`); an open
operation takes the range that it expects first, and loses it to a result of something else
(`feed_rejects`).
-/

namespace Tabulark.Parquet

open Arrow (ArrowIpcLimits SchemaModel ActionResponse exactMetadata)
open Update

variable {κ τ : Type}

/-! ## Limits -/

/-- The limits of opening a file. -/
structure ParquetOpenLimits where
  maxSourceBytes : ℕ
  maxMetadataBytes : ℕ
  maxOperationBytes : ℕ
  maxRowGroups : ℕ
  maxColumns : ℕ
  maxRows : ℕ
  maxBatchRows : ℕ
  readPrefetchBytes : ℕ
  arrow : ArrowIpcLimits

def headerBytes : ℕ := 4

def footerBytes : ℕ := 8

def parquetMagic : List UInt8 := [80, 65, 82, 49]

def parquetEncryptedFooterMagic : List UInt8 := [80, 65, 82, 69]

def ParquetOpenLimits.validateInternal (limits : ParquetOpenLimits) : Result Unit :=
  if limits.maxSourceBytes = 0 ∨ limits.maxMetadataBytes = 0 ∨ limits.maxOperationBytes = 0 ∨
      limits.maxRowGroups = 0 ∨ limits.maxColumns = 0 ∨ limits.maxRows = 0 ∨
      limits.maxBatchRows = 0 ∨ limits.readPrefetchBytes = 0 then
    .error (.new .invalidArgument "Parquet resource limits must be greater than zero")
  else if limits.maxOperationBytes < limits.maxMetadataBytes ∨
      limits.maxOperationBytes < limits.readPrefetchBytes then
    .error ((((TabularkError.new .invalidArgument
      "Parquet operation sublimit exceeds its memory ceiling").withDetail
      "maxMetadataBytes" (.number limits.maxMetadataBytes)).withDetail
      "maxOperationBytes" (.number limits.maxOperationBytes)).withDetail
      "readPrefetchBytes" (.number limits.readPrefetchBytes))
  else limits.arrow.validate

/-- An error about a number of things. -/
def countLimit (message resource : String) (required available : ℕ) : TabularkError :=
  (((TabularkError.new .resourceLimit message).withDetail
    "resource" (.text resource)).withDetail
    "required" (.number required)).withDetail
    "available" (.number available)

/-! ## What parquet-rs does -/

/-- What an open operation reads of a footer that parquet-rs has parsed. -/
structure ReaderMetadata where
  memorySize : ℕ
  schema : Arrow.ArrowSchema
  numRows : ℤ
  /-- The leaf columns, and whether their logical type is a Variant or geospatial. -/
  columns : List (String × Bool)
  /-- For the columns of each row group, whether they are compressed with LZO. -/
  rowGroups : List (List Bool)

/-- Reading a footer from cached parts, which may record a missing range; and what the errors of
    parquet-rs say. -/
structure FooterLoader where
  load : SparseChunkReader → ParquetResult ReaderMetadata × SparseChunkReader
  reason : ParquetError → String
  limitError : String → Option TabularkError

/-- What a decoder makes of the cached parts. -/
inductive Decoded (τ : Type)
  | batch (batch : τ)
  | failed (error : ParquetError)
  | rejected (error : TabularkError)

/-- Decoding the pages of a range from cached parts. The state of the decoder keeps the previews it
    has walked and the pages it has seen. -/
structure PageDecoder (κ τ : Type) where
  decode : κ → SparseChunkReader → Decoded τ × κ × SparseChunkReader
  reason : ParquetError → String
  limitError : String → Option TabularkError

/-- The error of an operation that parquet-rs made fail. -/
def parquetError (reason : ParquetError → String) (limitError : String → Option TabularkError)
    (context : String) (error : ParquetError) : TabularkError :=
  let reason := reason error
  (limitError reason).getD
    (let normalized := reason.toLower.toList
    let unsupported := ["lzo", "encrypt", "variant", "geometry", "geography", "geospatial"].any
      fun needle => decide (needle.toList <:+: normalized)
    (TabularkError.new (if unsupported then .unsupportedFeature else .parseFailed)
      s!"failed to {context}").withDetail "reason" (.text reason))

/-! ## Answers -/

/-- Checks that a result is that of an action. -/
def validateFeed (expected : ParquetReadBytesAction) (response : ActionResponse)
    (sourceLength : ℕ) : Result Unit := do
  let stop ← expected.stop
  let expectedEof : Bool := stop = sourceLength
  if response.offset ≠ expected.offset ∨ response.bytes.length ≠ expected.length ∨
      response.eof ≠ expectedEof then
    .error ((((TabularkError.new .invalidArgument
      "Parquet ingress bytes do not match the requested source action").withDetail
      "expectedOffset" (.number expected.offset)).withDetail
      "expectedLength" (.number expected.length)).withDetail
      "expectedEof" (.flag expectedEof))
  else .ok ()

/-- Checks that results are those of actions. -/
def validateFeeds (sourceLength : ℕ) :
    List ParquetReadBytesAction → List ActionResponse → Result Unit
  | action :: actions, response :: responses => do
    validateFeed action response sourceLength
    validateFeeds sourceLength actions responses
  | _, _ => .ok ()

/-- A result is that of an action. -/
def AnswersAction (sourceLength : ℕ) (action : ParquetReadBytesAction)
    (response : ActionResponse) : Prop :=
  response.offset = action.offset ∧ response.bytes.length = action.length ∧
    response.eof = decide (action.offset + action.length = sourceLength)

theorem answersAction_of_validateFeed {action : ParquetReadBytesAction} {response : ActionResponse}
    {sourceLength : ℕ} (h : validateFeed action response sourceLength = .ok ()) :
    AnswersAction sourceLength action response := by
  obtain ⟨stop, hstop, h⟩ := Result.bind_eq_ok.1 h
  obtain ⟨-, rfl⟩ := checkedAdd_eq_ok.1 hstop
  dsimp only at h
  split at h
  · cases h
  · rename_i hsame
    rw [not_or, not_or, not_not, not_not, not_not] at hsame
    exact hsame

theorem answersAction_of_validateFeeds {sourceLength : ℕ} {actions : List ParquetReadBytesAction}
    {results : List ActionResponse} (hlength : actions.length = results.length)
    (hvalid : validateFeeds sourceLength actions results = .ok ()) :
    List.Forall₂ (AnswersAction sourceLength) actions results := by
  induction actions generalizing results with
  | nil =>
    rw [List.length_eq_zero_iff.1 hlength.symm]
    exact .nil
  | cons action actions ih =>
    cases results with
    | nil => cases hlength
    | cons response results =>
      rw [validateFeeds] at hvalid
      obtain ⟨_, hfirst, hrest⟩ := Result.bind_eq_ok.1 hvalid
      exact .cons (answersAction_of_validateFeed hfirst) (ih (Nat.succ_inj.1 hlength) hrest)

/-! ## Budgets -/

/-- Checks that an action can be cached while other bytes are alive. -/
def ensureActionPeakBudgetWithIngress (reader : SparseChunkReader)
    (action : ParquetReadBytesAction) (otherLiveIngress limit : ℕ) (category : String) :
    Result Unit := do
  let peak ← reader.insertionPeakBytes action
  let required ← checkedAdd usizeMax peak otherLiveIngress (resourceLimit category u64Max limit)
  if limit < required then .error (resourceLimit category required limit)
  else .ok ()

/-- The bytes that may be cached. -/
def SparseChunkReader.cacheLimit (reader : SparseChunkReader) (fallback : ℕ) : ℕ :=
  reader.maxCacheBytes.getD fallback

/-- How often pages may be decoded for a source. -/
def maxLazyDecodeAttempts (sourceLength readPrefetchBytes : ℕ) : ℕ :=
  let prefetchWindows := min usizeMax ((sourceLength + readPrefetchBytes - 1) / readPrefetchBytes)
  max 32 (min 4096 (min usizeMax (min usizeMax (prefetchWindows * 4) + 8)))

def ensureLazyDecodeAttemptBudget (completedAttempts sourceLength readPrefetchBytes : ℕ) :
    Result Unit := do
  let attemptLimit := maxLazyDecodeAttempts sourceLength readPrefetchBytes
  let message := "Parquet decode-attempts exceeds the configured resource limit"
  let requiredAttempts ← checkedAdd usizeMax completedAttempts 1
    (countLimit message "decode-attempts" u64Max attemptLimit)
  if attemptLimit < requiredAttempts then
    .error (countLimit message "decode-attempts" requiredAttempts attemptLimit)
  else .ok ()

/-! ## Opening -/

/-- A file whose footer has been read. -/
structure OpenedParquetSource where
  sourceLength : ℕ
  sourceName : String
  limits : ParquetOpenLimits
  readerMetadata : ReaderMetadata
  reader : SparseChunkReader
  metadata : TableMetadata

/-- An open operation: what is cached, and the range that it waits for. -/
structure ParquetOpenOperation where
  sourceName : String
  limits : ParquetOpenLimits
  reader : SparseChunkReader
  expected : Option ParquetReadBytesAction

namespace ParquetOpenOperation

variable (loader : FooterLoader) (model : SchemaModel) (op : ParquetOpenOperation)

/-- The next range that the operation needs. -/
def nextAction : Option ParquetReadBytesAction := op.expected

/-- The bytes that may be cached for the footer. -/
def openLimit : ℕ := min usizeMax (op.limits.maxMetadataBytes + (footerBytes + headerBytes))

/-- Waits for a range. -/
def setExpected (action : ParquetReadBytesAction) :
    Update TabularkError ParquetOpenOperation Unit := do
  let op ← read
  of (ensureActionPeakBudgetWithIngress op.reader action 0 op.openLimit "metadata-staging")
  assign fun op => { op with
    reader := { op.reader with missing := some action }
    expected := some action }

/-- Waits for the range that was missing, if there is one. -/
def resolveMissingOrError (error : ParquetError) :
    Update TabularkError ParquetOpenOperation Unit := do
  let op ← read
  assign fun op => { op with reader := { op.reader with missing := none } }
  match op.reader.missing with
  | some action => setExpected action
  | none => fail (parquetError loader.reason loader.limitError "open Parquet metadata" error)

/-- Checks a footer against the limits and what is supported. -/
def validateMetadata (metadata : ReaderMetadata) : Result Unit := do
  if op.limits.maxMetadataBytes < metadata.memorySize then
    .error (resourceLimit "parquet-metadata" metadata.memorySize op.limits.maxMetadataBytes)
  else if op.limits.maxRowGroups < metadata.rowGroups.length then
    .error (countLimit "Parquet file contains too many row groups" "row-groups"
      metadata.rowGroups.length op.limits.maxRowGroups)
  else if op.limits.maxColumns < metadata.schema.length then
    .error (countLimit "Parquet file contains too many top-level columns" "columns"
      metadata.schema.length op.limits.maxColumns)
  else do
    let rows ← toUnsigned u64Max metadata.numRows
      (.new .parseFailed "Parquet footer contains a negative row count")
    if op.limits.maxRows < rows then
      .error (countLimit "Parquet file contains too many rows" "rows" rows op.limits.maxRows)
    else do
      let retained ← op.reader.retainedBytes
      if op.openLimit < retained then
        .error (resourceLimit "metadata-staging" retained op.openLimit)
      else
        match metadata.columns.find? (·.2) with
        | some column => .error ((TabularkError.new .unsupportedFeature
            "Parquet Variant and geospatial logical types are not supported").withDetail
            "column" (.text column.1))
        | none =>
          if metadata.rowGroups.any (·.any id) then
            .error (.new .unsupportedFeature "LZO-compressed Parquet files are not supported")
          else .ok ()

/-- Goes on from the footer that has been read. -/
def openFooter (metadata : ReaderMetadata) :
    Update TabularkError ParquetOpenOperation (Option OpenedParquetSource) := do
  let op ← read
  let header ← of ((op.reader.locate 0 headerBytes).mapError
    (parquetError loader.reason loader.limitError "read Parquet header magic"))
  match header with
  | none => do
    setExpected ⟨0, headerBytes⟩
    pure none
  | some header =>
    if header ≠ parquetMagic then
      fail (.new .parseFailed "Parquet header magic is invalid")
    else do
      of (op.validateMetadata metadata)
      let rows ← of (toUnsigned u64Max metadata.numRows
        (.new .parseFailed "Parquet footer contains a negative row count"))
      let table ← of (exactMetadata model metadata.schema rows op.sourceName)
      pure (some {
        sourceLength := op.reader.sourceLength
        sourceName := op.sourceName
        limits := op.limits
        readerMetadata := metadata
        reader := op.reader
        metadata := table })

/-- Looks for the magic at the end of the source, the footer and the magic at its start. -/
def advance : Update TabularkError ParquetOpenOperation (Option OpenedParquetSource) := do
  assign fun op => { op with reader := { op.reader with missing := none } }
  let op ← read
  let footerOffset := op.reader.sourceLength - headerBytes
  let footer ← of ((op.reader.locate footerOffset headerBytes).mapError
    (parquetError loader.reason loader.limitError "read Parquet footer magic"))
  match footer with
  | none => do
    setExpected ⟨footerOffset, headerBytes⟩
    pure none
  | some footer =>
    if footer = parquetEncryptedFooterMagic then
      fail (.new .unsupportedFeature "encrypted Parquet files are not supported")
    else if footer ≠ parquetMagic then
      fail (.new .parseFailed "Parquet footer magic is invalid")
    else do
      let loaded := loader.load op.reader
      assign fun op => { op with reader := loaded.2 }
      match loaded.1 with
      | .ok metadata => openFooter loader model metadata
      | .error error => do
        resolveMissingOrError loader error
        pure none

def new (sourceLength : ℕ) (sourceName : String) (limits : ParquetOpenLimits) :
    Result ParquetOpenOperation := do
  limits.validateInternal
  if sourceLength < footerBytes + headerBytes then
    .error (.new .parseFailed "Parquet source is too short to contain a header and footer")
  else if limits.maxSourceBytes < sourceLength then
    .error (resourceLimit "encoded-source" sourceLength limits.maxSourceBytes)
  else
    let op : ParquetOpenOperation :=
      { sourceName, limits, expected := none
        reader := .new sourceLength limits.readPrefetchBytes }
    match (advance loader model).on op with
    | (.ok none, op) => .ok op
    | (.ok (some _), _) => .error (.new .runtimeFailure
        "Parquet open completed before any source bytes were supplied")
    | (.error error, _) => .error error

/-- Supplies the bytes that `nextAction` asks for. What is expected is taken before the bytes are
    checked. -/
def feedOwned (response : ActionResponse) :
    Update TabularkError ParquetOpenOperation (Option OpenedParquetSource) := do
  let op ← read
  assign fun op => { op with expected := none }
  match op.expected with
  | none => fail (.new .invalidArgument
      "Parquet open operation is not waiting for source bytes")
  | some expected => do
    of (validateFeed expected response op.reader.sourceLength)
    let reader ← of (op.reader.insert expected response.bytes)
    assign fun op => { op with reader }
    advance loader model

/-- A result that is that of the range the operation waits for. -/
def Matches (response : ActionResponse) : Prop :=
  ∃ action, op.expected = some action ∧ AnswersAction op.reader.sourceLength action response

/-- A result of something else is rejected, and what was expected is lost. -/
theorem feed_rejects {response : ActionResponse} (h : ¬op.Matches response) :
    ∃ error, (feedOwned loader model response).on op =
      (.error error, { op with expected := none }) := by
  unfold feedOwned
  rw [on_read_bind, on_assign_bind]
  cases hexpected : op.expected with
  | none => exact ⟨_, rfl⟩
  | some expected =>
    dsimp only
    cases hvalid : validateFeed expected response op.reader.sourceLength with
    | error error => exact ⟨error, rfl⟩
    | ok _ => exact absurd ⟨expected, hexpected, answersAction_of_validateFeed hvalid⟩ h

end ParquetOpenOperation

/-! ## Reading -/

/-- A read operation: the ranges it has planned, the one it waits for, and what is cached. -/
structure ParquetReadOperation (κ : Type) where
  sourceName : String
  maxOperationBytes : ℕ
  readPrefetchBytes : ℕ
  reader : SparseChunkReader
  plannedRanges : List ParquetReadBytesAction
  lazyPageReads : Bool
  expected : Option ParquetReadBytesAction
  decodeAttempts : ℕ
  decoder : κ

namespace ParquetReadOperation

variable (decoder : PageDecoder κ τ) (op : ParquetReadOperation κ)

def nextAction : Option ParquetReadBytesAction := op.expected

/-- The first of some ranges, of at most so many bytes in all. -/
def collectActions (maxBytes : ℕ) : ℕ → List ParquetReadBytesAction →
    Result (List ParquetReadBytesAction)
  | _, [] => .ok []
  | total, action :: ranges => do
    let nextTotal ← checkedAdd u64Max total action.length
      (.new .resourceLimit "Parquet read action batch byte total overflows")
    if maxBytes < nextTotal then .ok []
    else do
      let actions ← collectActions maxBytes nextTotal ranges
      .ok (action :: actions)

def segmentTooLong : TabularkError :=
  .new .resourceLimit "Parquet ingress source segment length overflows usize"

/-- The bytes that some actions bring in. -/
def liveIngress : ℕ → List ParquetReadBytesAction → Result ℕ
  | total, [] => .ok total
  | total, action :: actions => do
    let length ← toUsize action.length segmentTooLong
    let total ← checkedAdd usizeMax total length
      (.new .resourceLimit "Parquet ingress action byte accounting overflows")
    liveIngress total actions

/-- Checks that each action can be cached while the bytes of the others are alive. -/
def ensureBudgets (live : ℕ) : List ParquetReadBytesAction → Result Unit
  | [] => .ok ()
  | action :: actions => do
    let incoming ← toUsize action.length segmentTooLong
    ensureActionPeakBudgetWithIngress op.reader action (live - incoming)
      (op.reader.cacheLimit op.maxOperationBytes) "compressed-pages"
    ensureBudgets live actions

/-- A batch of ranges that the operation needs. -/
def nextActions (maxRanges maxBytes : ℕ) : Result (List ParquetReadBytesAction) :=
  if maxRanges = 0 ∨ maxBytes = 0 then
    .error (.new .invalidArgument
      "Parquet read action batch limits must be greater than zero")
  else
    match op.expected with
    | none => .ok []
    | some first => do
      let actions ← collectActions maxBytes 0 ((first :: op.plannedRanges).take maxRanges)
      if actions.isEmpty then .error (resourceLimit "compressed-pages" first.length maxBytes)
      else do
        let live ← liveIngress 0 actions
        op.ensureBudgets live actions
        .ok actions

/-! ### Answers -/

/-- The bytes of all results. -/
def ingressBytes : ℕ → List ActionResponse → Result ℕ
  | total, [] => .ok total
  | total, response :: results => do
    let total ← checkedAdd usizeMax total response.bytes.length
      (.new .resourceLimit "Parquet ingress result byte accounting overflows")
    ingressBytes total results

/-- Takes a planned range, which is that of the next result. -/
def takePlanned (action : ParquetReadBytesAction) :
    Update TabularkError (ParquetReadOperation κ) Unit := do
  let op ← read
  match op.plannedRanges with
  | [] => fail (.new .runtimeFailure "Parquet preplanned range queue is inconsistent")
  | planned :: ranges => do
    assign fun op => { op with plannedRanges := ranges }
    if planned ≠ action then
      fail (.new .runtimeFailure "Parquet preplanned range order changed")
    else pure ()

/-- Caches the bytes of a result while those of others are alive, and says how many those are. -/
def insertResult (live : ℕ) (action : ParquetReadBytesAction) (bytes : List UInt8) :
    Update TabularkError (ParquetReadOperation κ) ℕ := do
  let incoming ← of (toUsize action.length segmentTooLong)
  if live < incoming then
    fail (.new .runtimeFailure "Parquet ingress result byte accounting is inconsistent")
  else do
    let op ← read
    of (ensureActionPeakBudgetWithIngress op.reader action (live - incoming)
      (op.reader.cacheLimit op.maxOperationBytes) "compressed-pages")
    let reader ← of (op.reader.insert action bytes)
    assign fun op => { op with reader }
    pure (live - incoming)

/-- Caches the bytes of results. The first is of the range that was expected, the others are of
    planned ones. -/
def insertResults (live : ℕ) (first : Bool) :
    List (ParquetReadBytesAction × ActionResponse) →
      Update TabularkError (ParquetReadOperation κ) Unit
  | [] => pure ()
  | (action, response) :: results => do
    if first then pure () else takePlanned action
    let live ← insertResult live action response.bytes
    insertResults live false results

/-- Waits for the range that was missing, if there is one and pages are read lazily. -/
def resolveMissingOrError (error : ParquetError) :
    Update TabularkError (ParquetReadOperation κ) (Option τ) := do
  let op ← read
  assign fun op => { op with reader := { op.reader with missing := none } }
  match op.reader.missing with
  | none => fail (parquetError decoder.reason decoder.limitError
      s!"read Parquet range from {op.sourceName}" error)
  | some action =>
    if !op.lazyPageReads then
      fail ((((TabularkError.new .runtimeFailure
        "Parquet preplanned column ranges did not cover a decoder request").withDetail
        "offset" (.number action.offset)).withDetail
        "length" (.number action.length)).withDetail
        "reason" (.text (decoder.reason error)))
    else do
      of (ensureLazyDecodeAttemptBudget op.decodeAttempts op.reader.sourceLength
        op.readPrefetchBytes)
      of (ensureActionPeakBudgetWithIngress op.reader action 0
        (op.reader.cacheLimit op.maxOperationBytes) "compressed-pages")
      assign fun op => { op with expected := some action }
      pure none

/-- Asks for the next planned range, or decodes what is cached. -/
def advance : Update TabularkError (ParquetReadOperation κ) (Option τ) := do
  let op ← read
  match op.plannedRanges with
  | action :: ranges => do
    assign fun op => { op with plannedRanges := ranges, expected := some action }
    pure none
  | [] => do
    let decodeAttempts ← of (checkedAdd usizeMax op.decodeAttempts 1
      (.new .resourceLimit "Parquet decode-attempt accounting overflows"))
    assign fun op => { op with
      decodeAttempts
      reader := { op.reader with missing := none } }
    let op ← read
    let (decoded, state, reader) := decoder.decode op.decoder op.reader
    assign fun op => { op with decoder := state, reader }
    match decoded with
    | .batch batch => pure (some batch)
    | .failed error => resolveMissingOrError decoder error
    | .rejected error => fail error

/-- Supplies the bytes that `nextActions` asks for. All are checked before any is cached. -/
def feedManyOwned (results : List ActionResponse) :
    Update TabularkError (ParquetReadOperation κ) (Option τ) :=
  if results.isEmpty then
    fail (.new .invalidArgument "Parquet read operation result set must not be empty")
  else do
    let op ← read
    let expected ← of (op.nextActions results.length u64Max)
    if expected.length ≠ results.length then
      fail (((TabularkError.new .invalidArgument
        "Parquet read result set has an unexpected range count").withDetail
        "expectedResults" (.number expected.length)).withDetail
        "actualResults" (.number results.length))
    else do
      of (validateFeeds op.reader.sourceLength expected results)
      if op.expected.isNone then
        fail (.new .invalidArgument "Parquet read operation is not waiting for source bytes")
      else do
        assign fun op => { op with expected := none }
        let live ← of (ingressBytes 0 results)
        insertResults live true (expected.zip results)
        advance decoder

/-- Results that are those of the ranges that the operation needs next. Fewer results than there
    are such ranges are those of a smaller batch. -/
def Matches (results : List ActionResponse) : Prop :=
  ∃ actions, op.nextActions results.length u64Max = .ok actions ∧
    List.Forall₂ (AnswersAction op.reader.sourceLength) actions results

/-- Results of something else are rejected, and the operation stays as it was. -/
theorem feedMany_rejects {results : List ActionResponse} (h : ¬op.Matches results) :
    ∃ error, (feedManyOwned decoder results).on op = (.error error, op) := by
  unfold feedManyOwned
  split
  · exact ⟨_, rfl⟩
  rw [on_read_bind]
  cases hnext : op.nextActions results.length u64Max with
  | error error => exact ⟨error, rfl⟩
  | ok actions =>
    rw [on_ok_bind]
    split
    · exact ⟨_, rfl⟩
    · rename_i hlength
      rw [not_not] at hlength
      cases hvalid : validateFeeds op.reader.sourceLength actions results with
      | error error => exact ⟨error, rfl⟩
      | ok _ => exact absurd ⟨actions, hnext, answersAction_of_validateFeeds hlength hvalid⟩ h

end ParquetReadOperation

end Tabulark.Parquet
