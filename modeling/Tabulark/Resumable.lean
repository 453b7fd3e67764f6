import Tabulark.Arrow.FileOpen
import Tabulark.Parquet.Operations

/-!
# Results of something else

Four operations ask for ranges of their source and are fed results: opening a Parquet file,
reading a range of it, opening an Arrow source, and reading a range of an Arrow File. A result
set that is not that of the ranges asked for is rejected, and three of the four then go on as if
it had not been there. A Parquet open operation does not: it has lost the range it waited for
(`rejected_resumable_iff`).
-/

namespace Tabulark

open Arrow Parquet Update

variable {α ν δ δ' κ τ : Type} {arrays : ArrowArrays α ν}

/-! ## Reading a File in place -/

namespace Arrow.ArrowFileReadOperation

variable (encode : BatchEncoder α τ) (verify : MessageVerifier) (decoder : FileDecoder arrays δ)

def decoderUnavailable : TabularkError :=
  .new .runtimeFailure "Arrow File decoder is unavailable"

/-- Decodes a required block. The decoder keeps a dictionary also when it is then beyond the
    limit. -/
def readBlock (block : RequiredFileBlock) (arrowBlock : ArrowBlock) (bytes : List UInt8)
    (declaredForBlock : ℕ) : Update TabularkError (ArrowFileReadOperation arrays δ τ) Unit := do
  let op ← Update.read
  match op.decoder with
  | none => fail decoderUnavailable
  | some state =>
    match block.kind with
    | .dictionary => do
      let state ← of (decoder.readDictionary state arrowBlock bytes)
      assign fun op => { op with decoder := some state }
      let retainedDictionaryBytes ← of (checkedAdd usizeMax op.retainedDictionaryBytes
        (max block.spec.bodyLength declaredForBlock)
        (.new .resourceLimit "Arrow IPC retained dictionary memory estimate overflows"))
      of (ensureFileReadMemoryBudget retainedDictionaryBytes op.decodedBytes op.source.limits)
      assign fun op => { op with retainedDictionaryBytes }
    | .record _ => do
      let next ← of (op.decodeBlock decoder block arrowBlock state bytes declaredForBlock)
      assign fun _ => next

/-- Encodes the range from the blocks that have been decoded. -/
def completeRange : Update TabularkError (ArrowFileReadOperation arrays δ τ) (Option τ) := do
  assign fun op => { op with decoder := none }
  let op ← Update.read
  of (ensureFileReadAssemblyMemoryBudget op.decodedBytes op.source.limits)
  assign fun op => { op with decoded := [] }
  let batch ← of (op.buildBatch encode)
  assign fun op => { op with decodedBytes := 0, retainedDictionaryBytes := 0 }
  pure (some batch)

/-- Supplies the bytes that `nextAction` asks for. -/
def feedOwned (response : ActionResponse) :
    Update TabularkError (ArrowFileReadOperation arrays δ τ) (Option τ) := do
  let op ← Update.read
  let expected ← of op.nextAction
  match expected, op.required[op.nextBlock]? with
  | some expected, some block => do
    of (validateActionResponse expected response op.source.sourceLength)
    let declaredDecompressedBytes ← of (preflightCompressedBlock verify response.bytes
      block.spec.metadataLength block.spec.bodyLength op.source.limits op.declaredDecompressedBytes)
    let declaredForBlock := declaredDecompressedBytes - op.declaredDecompressedBytes
    of (ensureFileReadTransientMemoryBudget op.retainedDictionaryBytes op.decodedBytes
      (max response.capacity response.bytes.length) (max block.spec.bodyLength declaredForBlock)
      op.source.limits)
    let arrowBlock ← of block.spec.asArrowBlock
    readBlock decoder block arrowBlock response.bytes declaredForBlock
    assign fun op => { op with
      declaredDecompressedBytes
      nextBlock := op.nextBlock + 1 }
    let op ← Update.read
    if op.nextBlock = op.required.length then completeRange encode else pure none
  | _, _ => fail (.new .handleClosed "Arrow File read operation is complete")

variable (op : ArrowFileReadOperation arrays δ τ)

/-- A result that is that of the block the operation needs next. -/
def Matches (response : ActionResponse) : Prop :=
  ∃ action, op.nextAction = .ok (some action) ∧ response.offset = action.offset ∧
    response.bytes.length = action.length ∧
    response.eof = decide (action.offset + action.length = op.source.sourceLength)

/-- A result of something else is rejected, and the operation stays as it was. -/
theorem feed_rejects {response : ActionResponse} (h : ¬op.Matches response) :
    ∃ error, (feedOwned encode verify decoder response).on op = (.error error, op) := by
  unfold feedOwned
  rw [on_read_bind]
  cases hnext : op.nextAction with
  | error error => exact ⟨error, rfl⟩
  | ok action =>
    rw [on_ok_bind]
    split
    · rename_i action block _
      cases hvalid : validateActionResponse action response op.source.sourceLength with
      | error error => exact ⟨error, rfl⟩
      | ok _ =>
        exact absurd ⟨action, hnext, FileOpen.OpenOperation.validateActionResponse_eq_ok hvalid⟩ h
    · exact ⟨_, rfl⟩

end Arrow.ArrowFileReadOperation

/-! ## The four operations -/

/-- An operation, and what it is fed. -/
inductive Feed (arrays : ArrowArrays α ν) (δ δ' κ τ : Type)
  | parquetOpen (op : ParquetOpenOperation) (response : ActionResponse)
  | parquetRead (op : ParquetReadOperation κ) (results : List ActionResponse)
  | arrowOpen (op : FileOpen.OpenOperation arrays δ) (results : List ActionResponse)
  | arrowOpenOne (op : FileOpen.OpenOperation arrays δ) (response : ActionResponse)
  | arrowFileRead (op : ArrowFileReadOperation arrays δ' τ) (response : ActionResponse)

/-- What the operations are given: reading Parquet footers and pages, and reading Arrow footers,
    messages, streams and blocks. -/
structure Readers (arrays : ArrowArrays α ν) (δ δ' κ τ : Type) where
  model : SchemaModel
  loader : FooterLoader
  pages : PageDecoder κ τ
  footers : FileOpen.FooterReader
  verify : MessageVerifier
  stream : StreamDecoder arrays δ
  encode : BatchEncoder α τ
  blocks : FileDecoder arrays δ'

/-- A feed is rejected and can be made up for: the operation asks for what it asked for before, and
    whatever it is fed then has the outcome that it would have had. -/
def Resumes {σ ι ω ρ : Type} (next : σ → ω) (feed : ι → Update TabularkError σ ρ) (s : σ)
    (results : ι) : Prop :=
  ∃ error s', (feed results).on s = (.error error, s') ∧ next s' = next s ∧
    ∀ results', (feed results').on s' = (feed results').on s

theorem resumes_of_rejects {σ ι ω ρ : Type} {next : σ → ω}
    {feed : ι → Update TabularkError σ ρ} {s : σ} {results : ι}
    (h : ∃ error, (feed results).on s = (.error error, s)) : Resumes next feed s results := by
  obtain ⟨error, h⟩ := h
  exact ⟨error, s, h, rfl, fun _ => rfl⟩

namespace Feed

/-- What is fed is what the operation asks for. -/
def Matches : Feed arrays δ δ' κ τ → Prop
  | parquetOpen op response => op.Matches response
  | parquetRead op results => op.Matches results
  | arrowOpen op results => op.Matches results
  | arrowOpenOne op response => op.MatchesOne response
  | arrowFileRead op response => op.Matches response

/-- The feed is rejected, and the operation goes on as if it had not been there. -/
def Resumable (readers : Readers arrays δ δ' κ τ) : Feed arrays δ δ' κ τ → Prop
  | parquetOpen op response =>
    Resumes ParquetOpenOperation.nextAction
      (ParquetOpenOperation.feedOwned readers.loader readers.model) op response
  | parquetRead op results =>
    Resumes (fun op : ParquetReadOperation κ => (op.nextAction, op.nextActions))
      (ParquetReadOperation.feedManyOwned readers.pages) op results
  | arrowOpen op results =>
    Resumes (fun op : FileOpen.OpenOperation arrays δ => (op.nextAction, op.nextActions))
      (FileOpen.OpenOperation.feedManyOwned readers.footers readers.verify readers.model
        readers.stream) op results
  | arrowOpenOne op response =>
    Resumes (fun op : FileOpen.OpenOperation arrays δ => (op.nextAction, op.nextActions))
      (FileOpen.OpenOperation.feedOwned readers.footers readers.verify readers.model
        readers.stream) op response
  | arrowFileRead op response =>
    Resumes ArrowFileReadOperation.nextAction
      (ArrowFileReadOperation.feedOwned readers.encode readers.verify readers.blocks) op response

/-- A Parquet open operation that waits for a range does not survive a result of something else. -/
theorem parquetOpen_resumes_iff {loader : FooterLoader} {model : SchemaModel}
    {op : ParquetOpenOperation} {response : ActionResponse} (h : ¬op.Matches response) :
    Resumes ParquetOpenOperation.nextAction (ParquetOpenOperation.feedOwned loader model) op
      response ↔ op.expected = none := by
  obtain ⟨error, hfeed⟩ := op.feed_rejects loader model h
  constructor
  · rintro ⟨_, op', hfeed', hnext, -⟩
    rw [hfeed, Prod.mk.injEq] at hfeed'
    rw [← hfeed'.2] at hnext
    exact hnext.symm
  · intro hnone
    refine resumes_of_rejects ⟨error, ?_⟩
    rw [hfeed, ← hnone]

/-- Feeding an operation something else than it asks for is an error that leaves the operation as it
    was, if and only if it is not a Parquet open operation that waits for a range. -/
theorem rejected_resumable_iff (readers : Readers arrays δ δ' κ τ) (feed : Feed arrays δ δ' κ τ)
    (h : ¬feed.Matches) :
    feed.Resumable readers ↔
      ∀ op response, feed = .parquetOpen op response → op.expected = none := by
  cases feed with
  | parquetOpen op response =>
    refine (parquetOpen_resumes_iff h).trans ⟨?_, fun hnone => hnone op response rfl⟩
    rintro hnone _ _ ⟨⟩
    exact hnone
  | parquetRead op results =>
    exact iff_of_true (resumes_of_rejects (op.feedMany_rejects readers.pages h)) nofun
  | arrowOpen op results =>
    exact iff_of_true (resumes_of_rejects (op.feedMany_rejects h)) nofun
  | arrowOpenOne op response =>
    exact iff_of_true (resumes_of_rejects (op.feed_rejects h)) nofun
  | arrowFileRead op response =>
    exact iff_of_true (resumes_of_rejects
      (op.feed_rejects readers.encode readers.verify readers.blocks h)) nofun

/-! ## An open operation that loses its range -/

/-- Limits with room for the ends of a small file. -/
def smallLimits : ParquetOpenLimits where
  maxSourceBytes := 1000
  maxMetadataBytes := 1000
  maxOperationBytes := 1000
  maxRowGroups := 1
  maxColumns := 1
  maxRows := 1
  maxBatchRows := 1
  readPrefetchBytes := 1
  arrow := smallOptions.limits

/-- A new open operation, which waits for the magic at the end of its source. -/
def waitingOpen : ParquetOpenOperation where
  sourceName := "Parquet"
  limits := smallLimits
  reader := { SparseChunkReader.new 100 1 with missing := some ⟨96, 4⟩ }
  expected := some ⟨96, 4⟩

/-- Nothing at all is fed where four bytes are asked for. -/
theorem not_matches_waitingOpen : ¬waitingOpen.Matches ⟨96, [], 0, true⟩ := by
  rintro ⟨action, haction, -, hlength, -⟩
  cases haction
  cases hlength

/-- An open operation that is fed too few bytes asks for none after that. -/
theorem rejected_not_resumable :
    ¬∀ (loader : FooterLoader) (model : SchemaModel) (op : ParquetOpenOperation)
      (response : ActionResponse),
      ParquetOpenOperation.new loader model 100 "Parquet" smallLimits = .ok op →
        ¬op.Matches response → Resumes ParquetOpenOperation.nextAction
          (ParquetOpenOperation.feedOwned loader model) op response := by
  intro h
  have hresumes := h
    { load := fun reader => (.error (.general ""), reader)
      reason := fun _ => ""
      limitError := fun _ => none }
    ⟨fun _ _ => .ok (), fun _ => .ok []⟩ waitingOpen _ rfl not_matches_waitingOpen
  cases (parquetOpen_resumes_iff not_matches_waitingOpen).1 hresumes

/-- Readers that read nothing. -/
def idleReaders : Readers listArrays Unit Unit Unit Unit where
  model := ⟨fun _ _ => .ok (), fun _ => .ok []⟩
  loader := {
    load := fun reader => (.error (.general ""), reader)
    reason := fun _ => ""
    limitError := fun _ => none }
  pages := {
    decode := fun _ reader => (.failed (.general ""), (), reader)
    reason := fun _ => ""
    limitError := fun _ => none }
  footers := ⟨fun _ => .ok 0, fun _ _ => .error FileOpen.tooShort⟩
  verify := rowCountVerifier
  stream := {
    start := ()
    decode := fun _ _ => .error FileOpen.tooShort
    schema := fun _ => none
    finish := fun _ => .ok ()
    turns := fun _ _ => 0
    turns_lt := nofun }
  encode := fun _ _ _ _ _ _ => .ok ()
  blocks := countingDecoder

/-- The same operation with readers that read nothing, and one that asks for nothing. -/
theorem rejected_resumable_iff_waiting :
    ¬Resumable idleReaders (.parquetOpen waitingOpen ⟨96, [], 0, true⟩) ∧
      Resumable idleReaders
        (.parquetOpen { waitingOpen with expected := none } ⟨96, [], 0, true⟩) := by
  have hidle : ¬({ waitingOpen with expected := none } : ParquetOpenOperation).Matches
      ⟨96, [], 0, true⟩ := by
    rintro ⟨action, haction, -⟩
    cases haction
  constructor
  · refine (rejected_resumable_iff idleReaders (.parquetOpen _ _) not_matches_waitingOpen).not.2 ?_
    exact fun h => absurd (h _ _ rfl) (Option.some_ne_none _)
  · refine (rejected_resumable_iff idleReaders (.parquetOpen _ _) hidle).2 ?_
    rintro op response heq
    cases heq
    rfl

end Feed

end Tabulark
