import Tabulark.Arrow.FileRange
import Tabulark.Arrow.Runtime

/-!
# Opening an Arrow source

An open operation asks for byte ranges of its source: of a Stream one chunk after the
other; of a File the magic, the trailer, the footer, and then the metadata of each block,
one at a time or many at once. However the metadata is asked for, the operation comes to
the same source (`run_unique`, `lists_of_run`), and an answer to something else leaves it
as it was (`feedMany_rejects`).
-/

namespace Tabulark.Arrow

open Update

variable {α ν δ : Type} {arrays : ArrowArrays α ν}

namespace FileOpen

/-! ## The footer -/

/-- A block that a footer lists. -/
structure FooterBlock where
  offset : ℤ
  metaDataLength : ℤ
  bodyLength : ℤ

/-- A footer that FlatBuffers has verified. -/
structure Footer where
  schema : Option ArrowSchema
  nativeEndian : Bool
  version : ℕ
  dictionaries : Option (List FooterBlock)
  recordBatches : Option (List FooterBlock)

/-- What arrow-rs and FlatBuffers read of the end of a File: the length of the footer, and the
    footer. -/
structure FooterReader where
  readFooterLength : List UInt8 → Result ℕ
  rootAsFooter : ArrowIpcLimits → List UInt8 → Result Footer

/-- Where a block is, if it is in the source and within the limits. -/
def fileBlockSpec (block : FooterBlock) (sourceLength : ℕ) (limits : ArrowIpcLimits) :
    Result FileBlockSpec := do
  let offset ← toUsizeOfInt block.offset
    (.new .parseFailed "Arrow IPC block has a negative offset")
  let metadataLength ← toUsizeOfInt block.metaDataLength
    (.new .parseFailed "Arrow IPC block has a negative metadata length")
  let bodyLength ← toUsizeOfInt block.bodyLength
    (.new .parseFailed "Arrow IPC block has a negative body length")
  if metadataLength < 4 ∨ limits.maxMetadataBytes < metadataLength then
    .error (.new .resourceLimit "Arrow IPC block metadata exceeds the configured limit")
  else do
    let spec : FileBlockSpec := { offset, metadataLength, bodyLength }
    let total ← spec.totalLength
    if limits.maxBlockBytes < total then
      .error (((TabularkError.new .resourceLimit
        "Arrow IPC block exceeds the configured encoded byte limit").withDetail
        "blockBytes" (.number total)).withDetail
        "maxBlockBytes" (.number limits.maxBlockBytes))
    else do
      let _ ← ReadBytesAction.new offset total sourceLength
      .ok spec

/-- The blocks of a footer, none of them indexed. -/
def indexOfFooter (model : SchemaModel) (footer : Footer) (sourceLength : ℕ)
    (limits : ArrowIpcLimits) : Result FileIndexState :=
  match footer.schema with
  | none => .error (.new .parseFailed "Arrow IPC footer has no schema")
  | some schema =>
    if footer.nativeEndian then do
      model.validateSchema schema limits
      let dictionaries ← (footer.dictionaries.getD []).mapM (fileBlockSpec · sourceLength limits)
      match footer.recordBatches with
      | none => .error (.new .parseFailed "Arrow IPC footer has no record-batch index")
      | some blocks => do
        let records ← blocks.mapM (fileBlockSpec · sourceLength limits)
        .ok (.ofFooter schema footer.version dictionaries records)
    else .error (.new .unsupportedFeature "Arrow IPC source uses non-native endianness")

end FileOpen

/-! ## Blocks to index -/

namespace FileIndexState

variable (state : FileIndexState)

def nextMetadataBlock : Option FileBlockSpec :=
  state.dictionaries[state.nextDictionary]?.or
    (state.records[state.nextRecord]?.map (·.block))

def metadataBlockAt (relativeIndex : ℕ) : Option FileBlockSpec :=
  let remainingDictionaries := state.dictionaries.length - state.nextDictionary
  if relativeIndex < remainingDictionaries then
    state.dictionaries[state.nextDictionary + relativeIndex]?
  else
    state.records[state.nextRecord + (relativeIndex - remainingDictionaries)]?.map (·.block)

end FileIndexState

namespace FileOpen

/-! ## The operation -/

inductive ArrowIpcContainer
  | auto
  | file
  | stream
  deriving DecidableEq, Repr

inductive OpenPhase (arrays : ArrowArrays α ν) (δ : Type)
  | detectFileMagic
  | detectFileTrailer
  | fileFooter (footerLength : ℕ)
  | fileIndex (state : FileIndexState)
  | stream (state : StreamIndexState arrays δ)
  | complete

/-- An open operation of a File or a Stream. -/
structure OpenOperation (arrays : ArrowArrays α ν) (δ : Type) where
  sourceLength : ℕ
  container : ArrowIpcContainer
  options : ArrowIpcOptions
  phase : OpenPhase arrays δ

def tooShort : TabularkError :=
  .new .parseFailed "Arrow IPC File is shorter than its magic and footer trailer"

def footerTooLong : TabularkError :=
  .new .parseFailed "Arrow IPC footer length exceeds the source"

def operationComplete : TabularkError :=
  .new .handleClosed "Arrow open operation is complete"

namespace OpenOperation

variable (reader : FooterReader) (verify : MessageVerifier) (model : SchemaModel)
  (decoder : StreamDecoder arrays δ)

/-- The phase of a Stream of which nothing is read. -/
def startStream : OpenPhase arrays δ := .stream { decoder := decoder.start }

variable (op : OpenOperation arrays δ)

/-- The next range that the operation needs, unless it is complete. -/
def nextAction : Result (Option ReadBytesAction) :=
  match op.phase with
  | .detectFileMagic => do
    let action ← ReadBytesAction.new 0 arrowMagic.length op.sourceLength
    .ok (some action)
  | .detectFileTrailer => do
    let action ← ReadBytesAction.new (op.sourceLength - 10) 10 op.sourceLength
    .ok (some action)
  | .fileFooter footerLength =>
    if op.sourceLength < 10 + footerLength then .error footerTooLong
    else do
      let action ← ReadBytesAction.new (op.sourceLength - 10 - footerLength) footerLength
        op.sourceLength
      .ok (some action)
  | .fileIndex state =>
    match state.nextMetadataBlock with
    | none => .ok none
    | some block => do
      let action ← ReadBytesAction.new block.offset block.metadataLength op.sourceLength
      .ok (some action)
  | .stream state => do
    let action ← ReadBytesAction.new state.nextOffset
      (min (op.sourceLength - state.nextOffset) op.options.limits.streamChunkBytes)
      op.sourceLength
    .ok (some action)
  | .complete => .ok none

/-- The metadata of at most so many blocks, of at most so many bytes in all. -/
def collectActions (state : FileIndexState) (maxBytes : ℕ) :
    ℕ → ℕ → ℕ → Result (List ReadBytesAction)
  | 0, _, _ => .ok []
  | maxRanges + 1, relativeIndex, total =>
    match state.metadataBlockAt relativeIndex with
    | none => .ok []
    | some block => do
      let action ← ReadBytesAction.new block.offset block.metadataLength op.sourceLength
      let nextTotal ← checkedAdd u64Max total action.length
        (.new .resourceLimit "Arrow open action batch byte total overflows")
      if maxBytes < nextTotal then .ok []
      else do
        let actions ← collectActions state maxBytes maxRanges (relativeIndex + 1) nextTotal
        .ok (action :: actions)

/-- A batch of ranges that the operation needs; more than one only of block metadata. -/
def nextActions (maxRanges maxBytes : ℕ) : Result (List ReadBytesAction) :=
  if maxRanges = 0 ∨ maxBytes = 0 then
    .error (.new .invalidArgument
      "Arrow open action batch limits must be greater than zero")
  else
    match op.phase with
    | .fileIndex state => do
      let actions ← op.collectActions state maxBytes maxRanges 0 0
      if actions.isEmpty ∧ !state.metadataComplete then
        .error ((TabularkError.new .resourceLimit
          "Arrow File block metadata exceeds the operation byte budget").withDetail
          "operationBudgetBytes" (.number maxBytes))
      else .ok actions
    | _ => do
      let action ← op.nextAction
      match action with
      | none => .ok []
      | some action =>
        if maxBytes < action.length then
          .error (((TabularkError.new .resourceLimit
            "Arrow open action exceeds the operation byte budget").withDetail
            "requestedBytes" (.number action.length)).withDetail
            "operationBudgetBytes" (.number maxBytes))
        else .ok [action]

/-! ### Answers -/

/-- The phase after some metadata, and the source if it was the last. -/
def indexed (state : FileIndexState) :
    Result (OpenPhase arrays δ × Option (OpenedArrowIpcSource arrays)) :=
  if state.metadataComplete then do
    let source ← completeFile model op.options op.sourceLength state
    .ok (.complete, some (.file source))
  else .ok (.fileIndex state, none)

def feedFileMagic (bytes : List UInt8) :
    Result (OpenPhase arrays δ × Option (OpenedArrowIpcSource arrays)) :=
  if bytes = arrowMagic then .ok (.detectFileTrailer, none)
  else if op.container = .auto then .ok (startStream decoder, none)
  else .error (.new .parseFailed "Arrow IPC File has invalid leading magic")

def feedFileTrailer (bytes : List UInt8) :
    Result (OpenPhase arrays δ × Option (OpenedArrowIpcSource arrays)) :=
  if bytes.length ≠ 10 then .error (.new .parseFailed "invalid Arrow IPC File trailer")
  else
    match reader.readFooterLength bytes with
    | .ok footerLength =>
      if op.sourceLength - 18 < footerLength then .error footerTooLong
      else if op.options.limits.maxMetadataBytes < footerLength then
        .error (((TabularkError.new .resourceLimit
          "Arrow IPC footer exceeds the configured metadata limit").withDetail
          "footerBytes" (.number footerLength)).withDetail
          "maxMetadataBytes" (.number op.options.limits.maxMetadataBytes))
      else .ok (.fileFooter footerLength, none)
    | .error error =>
      if op.container = .auto then .ok (startStream decoder, none) else .error error

def feedFileFooter (bytes : List UInt8) :
    Result (OpenPhase arrays δ × Option (OpenedArrowIpcSource arrays)) := do
  let footer ← reader.rootAsFooter op.options.limits bytes
  let state ← indexOfFooter model footer op.sourceLength op.options.limits
  op.indexed model state

def feedFileMetadata (state : FileIndexState) (bytes : List UInt8) :
    Result (OpenPhase arrays δ × Option (OpenedArrowIpcSource arrays)) := do
  let state ← state.indexFileMetadata verify op.options.limits bytes
  op.indexed model state

def feedStreamOwned (state : StreamIndexState arrays δ) (bytes : List UInt8) (eof : Bool) :
    Result (OpenPhase arrays δ × Option (OpenedArrowIpcSource arrays)) := do
  let state ← ArrowIpcOpenOperation.readChunk verify model decoder op.options.limits state bytes
  if eof then do
    let source ← ArrowIpcOpenOperation.completedSource model decoder op.options state
    .ok (.complete, some (.stream source))
  else .ok (.stream state, none)

/-- What an answer makes of the phase. -/
def feedPhase (response : ActionResponse) :
    Result (OpenPhase arrays δ × Option (OpenedArrowIpcSource arrays)) :=
  match op.phase with
  | .detectFileMagic => op.feedFileMagic decoder response.bytes
  | .detectFileTrailer => op.feedFileTrailer reader decoder response.bytes
  | .fileFooter _ => op.feedFileFooter reader model response.bytes
  | .fileIndex state => op.feedFileMetadata verify model state response.bytes
  | .stream state => op.feedStreamOwned verify model decoder state response.bytes response.eof
  | .complete => .error operationComplete

/-- Takes the phase, and puts back what an answer makes of it; nothing if that fails. -/
def replacePhase (result : Result (OpenPhase arrays δ × Option (OpenedArrowIpcSource arrays))) :
    Update TabularkError (OpenOperation arrays δ) (Option (OpenedArrowIpcSource arrays)) := do
  assign fun op => { op with phase := .complete }
  let (phase, opened) ← of result
  assign fun op => { op with phase }
  pure opened

/-- Supplies the bytes that `nextAction` asks for. -/
def feedOwned (response : ActionResponse) :
    Update TabularkError (OpenOperation arrays δ) (Option (OpenedArrowIpcSource arrays)) := do
  let op ← read
  let action ← of op.nextAction
  match action with
  | none => fail operationComplete
  | some action => do
    of (validateActionResponse action response op.sourceLength)
    replacePhase (op.feedPhase reader verify model decoder response)

/-- Checks that answers are those of actions. -/
def validateAll (sourceLength : ℕ) :
    List ReadBytesAction → List ActionResponse → Result Unit
  | action :: actions, response :: responses => do
    validateActionResponse action response sourceLength
    validateAll sourceLength actions responses
  | _, _ => .ok ()

/-- Supplies the bytes that `nextActions` asks for. All are checked before any is used. -/
def feedManyOwned (results : List ActionResponse) :
    Update TabularkError (OpenOperation arrays δ) (Option (OpenedArrowIpcSource arrays)) :=
  if results.isEmpty then
    fail (.new .invalidArgument "Arrow open operation result set must not be empty")
  else do
    let op ← read
    match op.phase with
    | .fileIndex state => do
      let expected ← of (op.nextActions results.length u64Max)
      if expected.length ≠ results.length then
        fail (((TabularkError.new .invalidArgument
          "Arrow File metadata result set has an unexpected range count").withDetail
          "expectedResults" (.number expected.length)).withDetail
          "actualResults" (.number results.length))
      else do
        of (validateAll op.sourceLength expected results)
        replacePhase (do
          let state ← state.indexAll verify op.options.limits (results.map (·.bytes))
          op.indexed model state)
    | _ =>
      match results with
      | [response] => feedOwned reader verify model decoder response
      | _ => fail (.new .invalidArgument
          "sequential Arrow open states accept exactly one source result")

end OpenOperation

/-! ## Reading a source -/

/-- The answer of a host that has the bytes of a source. -/
def serve (file : List UInt8) (sourceLength : ℕ) (action : ReadBytesAction) : ActionResponse where
  offset := action.offset
  bytes := bytesAt file action.offset action.length
  capacity := action.length
  eof := action.offset + action.length = sourceLength

/-- How the host asks for what the operation needs: one range, or a batch within limits. -/
inductive OpenCall
  | feed
  | feedMany (maxRanges maxBytes : ℕ)
  deriving DecidableEq, Repr

namespace OpenOperation

variable (reader : FooterReader) (verify : MessageVerifier) (model : SchemaModel)
  (decoder : StreamDecoder arrays δ) (file : List UInt8)

/-- Asks for ranges and supplies them. -/
def answer :
    OpenCall → Update TabularkError (OpenOperation arrays δ) (Option (OpenedArrowIpcSource arrays))
  | .feed => do
    let op ← read
    let action ← of op.nextAction
    match action with
    | none => fail operationComplete
    | some action =>
      feedOwned reader verify model decoder (serve file op.sourceLength action)
  | .feedMany maxRanges maxBytes => do
    let op ← read
    let actions ← of (op.nextActions maxRanges maxBytes)
    feedManyOwned reader verify model decoder (actions.map (serve file op.sourceLength))

/-- Reads the source until it is opened. -/
def run :
    List OpenCall →
      Update TabularkError (OpenOperation arrays δ) (Option (OpenedArrowIpcSource arrays))
  | [] => pure none
  | call :: calls => do
    let opened ← answer reader verify model decoder file call
    match opened with
    | some source => pure (some source)
    | none => run calls

end OpenOperation

/-! ## Blocks, one after the other -/

end FileOpen

namespace FileIndexState

variable {verify : MessageVerifier} {limits : ArrowIpcLimits} {state state' : FileIndexState}

theorem nextMetadataBlock_eq (state : FileIndexState) :
    state.nextMetadataBlock = state.metadataBlockAt 0 := by
  unfold nextMetadataBlock metadataBlockAt
  dsimp only
  split
  · rename_i hlt
    rw [Nat.add_zero, List.getElem?_eq_getElem (Nat.lt_of_sub_pos hlt), Option.some_or]
  · rename_i hge
    have hnone : state.dictionaries[state.nextDictionary]? = none :=
      List.getElem?_eq_none (Nat.sub_eq_zero_iff_le.1 (Nat.eq_zero_of_not_pos hge))
    rw [hnone, Option.none_or, Nat.zero_sub, Nat.add_zero]

/-- The index is not complete while there is a block to index. -/
theorem metadataComplete_eq_false {block : FileBlockSpec}
    (h : state.metadataBlockAt 0 = some block) : state.metadataComplete = false := by
  rw [metadataComplete, decide_eq_false_iff_not]
  rintro ⟨hdictionaries, hrecords⟩
  rw [← nextMetadataBlock_eq, nextMetadataBlock, hdictionaries, hrecords,
    List.getElem?_eq_none le_rfl, List.getElem?_eq_none le_rfl] at h
  cases h

/-- A block that is indexed leaves the next one in its place. -/
theorem metadataBlockAt_succ {bytes : List UInt8}
    (h : state.indexFileMetadata verify limits bytes = .ok state') (relativeIndex : ℕ) :
    state'.metadataBlockAt relativeIndex = state.metadataBlockAt (relativeIndex + 1) := by
  rw [indexFileMetadata] at h
  split at h
  · rename_i block hblock
    obtain ⟨_, -, h⟩ := Result.bind_eq_ok.1 h
    cases h
    have hlt := (List.getElem?_eq_some_iff.1 hblock).1
    unfold metadataBlockAt
    dsimp only
    split
    · rw [if_pos (by omega)]
      congr 1
      omega
    · rw [if_neg (by omega)]
      congr 2
      omega
  · rename_i hdictionary
    have hle := List.getElem?_eq_none_iff.1 hdictionary
    split at h
    · cases h
    · obtain ⟨rowCount, -, h⟩ := Result.bind_eq_ok.1 h
      obtain ⟨rows, -, h⟩ := Result.bind_eq_ok.1 h
      cases h
      unfold metadataBlockAt
      dsimp only
      rw [if_neg (by omega), if_neg (by omega), List.getElem?_set_ne (by omega)]
      congr 2
      omega

end FileIndexState

namespace FileOpen

namespace OpenOperation

variable {reader : FooterReader} {verify : MessageVerifier} {model : SchemaModel}
  {decoder : StreamDecoder arrays δ} {file : List UInt8} {op op' : OpenOperation arrays δ}
  {state state' : FileIndexState} {opened : Option (OpenedArrowIpcSource arrays)}

theorem on_replacePhase
    (result : Result (OpenPhase arrays δ × Option (OpenedArrowIpcSource arrays)))
    (op : OpenOperation arrays δ) : (replacePhase result).on op =
      match result with
      | .error error => (.error error, { op with phase := .complete })
      | .ok (phase, opened) => (.ok opened, { op with phase }) := by
  unfold replacePhase
  rw [on_assign_bind]
  cases result with
  | error error => rfl
  | ok result => rfl

variable {action : ReadBytesAction}

/-- One range that is asked for and supplied. -/
theorem on_answer_feed (reader : FooterReader) (verify : MessageVerifier) (model : SchemaModel)
    (decoder : StreamDecoder arrays δ)
    (hnext : op.nextAction = .ok (some action))
    (hvalid : validateActionResponse action (serve file op.sourceLength action) op.sourceLength =
      .ok ()) :
    (answer reader verify model decoder file .feed).on op =
      (replacePhase (op.feedPhase reader verify model decoder
        (serve file op.sourceLength action))).on op := by
  unfold answer
  rw [on_read_bind, hnext, on_ok_bind]
  dsimp only
  unfold feedOwned
  rw [on_read_bind, hnext, on_ok_bind]
  dsimp only
  rw [hvalid, on_ok_bind]

/-- The blocks that some actions ask for, from the next one on. -/
def AsksFor (op : OpenOperation arrays δ) (file : List UInt8) (state : FileIndexState)
    (actions : List ReadBytesAction) : Prop :=
  ∀ (index : ℕ) (action : ReadBytesAction), actions[index]? = some action →
    ∃ block, state.metadataBlockAt index = some block ∧
      ReadBytesAction.new block.offset block.metadataLength op.sourceLength = .ok action ∧
      validateActionResponse action (serve file op.sourceLength action) op.sourceLength = .ok ()

theorem on_run_cons (call : OpenCall) (calls : List OpenCall) (op : OpenOperation arrays δ) :
    (run reader verify model decoder file (call :: calls)).on op =
      match (answer reader verify model decoder file call).on op with
      | (.ok none, op') => (run reader verify model decoder file calls).on op'
      | result => result := by
  rw [run, on_bind]
  match (answer reader verify model decoder file call).on op with
  | (.error error, op') => rfl
  | (.ok none, op') => rfl
  | (.ok (some source), op') => rfl

/-- After the last call nothing is left to do. -/
theorem on_run_nil (result : Except TabularkError (Option (OpenedArrowIpcSource arrays)) ×
    OpenOperation arrays δ) :
    (match result with
      | (.ok none, op') => (run reader verify model decoder file []).on op'
      | result => result) = result := by
  match result with
  | (.error error, op') => rfl
  | (.ok none, op') => rfl
  | (.ok (some source), op') => rfl

theorem on_run_singleton (call : OpenCall) (op : OpenOperation arrays δ) :
    (run reader verify model decoder file [call]).on op =
      (answer reader verify model decoder file call).on op := by
  rw [on_run_cons, on_run_nil]

variable {actions : List ReadBytesAction}

/-- Blocks that are indexed at once are indexed one after the other. -/
theorem on_run_feeds (hphase : op.phase = .fileIndex state)
    (hasks : op.AsksFor file state actions) (hne : actions ≠ []) :
    (run reader verify model decoder file (List.replicate actions.length .feed)).on op =
      (replacePhase (do
        let state ← state.indexAll verify op.options.limits
          (actions.map fun action => (serve file op.sourceLength action).bytes)
        op.indexed model state)).on op := by
  induction actions generalizing op state with
  | nil => exact absurd rfl hne
  | cons action actions ih =>
    obtain ⟨block, hblock, hnew, hvalid⟩ := hasks 0 action rfl
    have hnext : op.nextAction = .ok (some action) := by
      rw [nextAction, hphase]
      dsimp only
      rw [FileIndexState.nextMetadataBlock_eq, hblock]
      dsimp only
      rw [hnew, Result.ok_bind]
    have hanswer := on_answer_feed reader verify model decoder hnext hvalid
    rw [feedPhase, hphase] at hanswer
    dsimp only at hanswer
    rw [feedFileMetadata] at hanswer
    rw [List.length_cons, List.replicate_succ, on_run_cons, hanswer, List.map_cons,
      FileIndexState.indexAll, List.foldlM_cons]
    cases hfirst : state.indexFileMetadata verify op.options.limits
        (serve file op.sourceLength action).bytes with
    | error error => rfl
    | ok next =>
      rw [Result.ok_bind, Result.ok_bind]
      cases actions with
      | nil =>
        rw [List.length_nil, List.replicate_zero, on_run_nil]
        rfl
      | cons second actions =>
        obtain ⟨block', hblock', -⟩ := hasks 1 second rfl
        have hcomplete := FileIndexState.metadataComplete_eq_false
          ((FileIndexState.metadataBlockAt_succ hfirst 0).trans hblock')
        have hindexed : op.indexed model next = .ok (.fileIndex next, none) := by
          rw [indexed, hcomplete]
          rfl
        rw [hindexed, on_replacePhase]
        dsimp only
        have hphase' : ({ op with phase := .fileIndex next } : OpenOperation arrays δ).phase =
            .fileIndex next := rfl
        have hrest := ih hphase' (fun index action' haction => by
          obtain ⟨block'', hblock'', hnew'', hvalid''⟩ := hasks (index + 1) action' haction
          exact ⟨block'', (FileIndexState.metadataBlockAt_succ hfirst index).trans hblock'',
            hnew'', hvalid''⟩) (List.cons_ne_nil _ _)
        rw [hrest, on_replacePhase, on_replacePhase]
        rfl

/-- What is collected are the ranges of the next blocks. -/
theorem collectActions_eq_ok {maxBytes maxRanges relativeIndex total : ℕ}
    (h : op.collectActions state maxBytes maxRanges relativeIndex total = .ok actions)
    {index : ℕ} (haction : actions[index]? = some action) :
    ∃ block, state.metadataBlockAt (relativeIndex + index) = some block ∧
      ReadBytesAction.new block.offset block.metadataLength op.sourceLength = .ok action := by
  induction maxRanges generalizing relativeIndex total actions index with
  | zero =>
    cases h
    cases haction
  | succ maxRanges ih =>
    rw [collectActions] at h
    split at h
    · cases h
      cases haction
    · rename_i block hblock
      obtain ⟨first, hnew, h⟩ := Result.bind_eq_ok.1 h
      obtain ⟨nextTotal, -, h⟩ := Result.bind_eq_ok.1 h
      split at h
      · cases h
        cases haction
      · obtain ⟨rest, hrest, h⟩ := Result.bind_eq_ok.1 h
        cases h
        cases index with
        | zero =>
          cases haction
          exact ⟨block, hblock, hnew⟩
        | succ index =>
          rw [Nat.add_succ, ← Nat.succ_add]
          exact ih hrest haction

theorem validateAll_eq_ok {sourceLength : ℕ}
    {responses : List ActionResponse} (h : validateAll sourceLength actions responses = .ok ())
    {index : ℕ} {response : ActionResponse}
    (haction : actions[index]? = some action) (hresponse : responses[index]? = some response) :
    validateActionResponse action response sourceLength = .ok () := by
  induction actions generalizing responses index with
  | nil => cases haction
  | cons first actions ih =>
    cases responses with
    | nil => cases hresponse
    | cons second responses =>
      rw [validateAll] at h
      obtain ⟨_, hfirst, hrest⟩ := Result.bind_eq_ok.1 h
      cases index with
      | zero =>
        cases haction
        cases hresponse
        exact hfirst
      | succ index => exact ih hrest haction hresponse

/-- The next actions are ranges of blocks, or the one that a sequential phase needs. -/
theorem nextActions_eq_ok {maxRanges maxBytes : ℕ}
    (h : op.nextActions maxRanges maxBytes = .ok actions) :
    (∃ state, op.phase = .fileIndex state ∧
      op.collectActions state maxBytes maxRanges 0 0 = .ok actions) ∨
    ((∀ state, op.phase ≠ .fileIndex state) ∧
      (op.nextAction = .ok none ∧ actions = [] ∨
        ∃ action, op.nextAction = .ok (some action) ∧ actions = [action])) := by
  rw [nextActions] at h
  split at h
  · cases h
  split at h
  · rename_i state hphase
    obtain ⟨collected, hcollected, h⟩ := Result.bind_eq_ok.1 h
    split at h
    · cases h
    · cases h
      exact .inl ⟨state, hphase, hcollected⟩
  · rename_i hphase
    obtain ⟨action, hnext, h⟩ := Result.bind_eq_ok.1 h
    refine .inr ⟨hphase, ?_⟩
    cases action with
    | none =>
      cases h
      exact .inl ⟨hnext, rfl⟩
    | some action =>
      dsimp only at h
      split at h
      · cases h
      · cases h
        exact .inr ⟨action, hnext, rfl⟩

/-- The answers to a batch of block metadata. -/
theorem on_feedManyOwned_fileIndex (hphase : op.phase = .fileIndex state)
    {results : List ActionResponse} {expected : List ReadBytesAction} (hne : results ≠ [])
    (hnext : op.nextActions results.length u64Max = .ok expected) :
    (feedManyOwned reader verify model decoder results).on op =
      if expected.length ≠ results.length then
        (.error (((TabularkError.new .invalidArgument
          "Arrow File metadata result set has an unexpected range count").withDetail
          "expectedResults" (.number expected.length)).withDetail
          "actualResults" (.number results.length)), op)
      else
        match validateAll op.sourceLength expected results with
        | .error error => (.error error, op)
        | .ok () => (replacePhase (do
            let state ← state.indexAll verify op.options.limits (results.map (·.bytes))
            op.indexed model state)).on op := by
  unfold feedManyOwned
  rw [if_neg (by rwa [List.isEmpty_iff]), on_read_bind, hphase]
  dsimp only
  rw [hnext, on_ok_bind]
  split
  · rfl
  · cases validateAll op.sourceLength expected results with
    | error error => rfl
    | ok _ => rfl

theorem on_feedManyOwned_error (hphase : op.phase = .fileIndex state)
    {results : List ActionResponse} {error : TabularkError} (hne : results ≠ [])
    (hnext : op.nextActions results.length u64Max = .error error) :
    (feedManyOwned reader verify model decoder results).on op = (.error error, op) := by
  unfold feedManyOwned
  rw [if_neg (by rwa [List.isEmpty_iff]), on_read_bind, hphase]
  dsimp only
  rw [hnext]
  rfl

/-- The answer to a sequential phase. -/
theorem on_feedManyOwned_single (hphase : ∀ state, op.phase ≠ .fileIndex state)
    (response : ActionResponse) :
    (feedManyOwned reader verify model decoder [response]).on op =
      (feedOwned reader verify model decoder response).on op := by
  unfold feedManyOwned
  rw [if_neg (by simp), on_read_bind]
  split
  · rename_i state heq
    exact absurd heq (hphase state)
  · rfl

/-- Two collections from the same block on have the same actions, and answers to those of one are
    answers to those of the other. -/
theorem asksFor_of_collectActions {maxBytes maxBytes' maxRanges maxRanges' : ℕ}
    {actions expected : List ReadBytesAction}
    (hcollect : op.collectActions state maxBytes maxRanges 0 0 = .ok actions)
    (hexpected : op.collectActions state maxBytes' maxRanges' 0 0 = .ok expected)
    (hlength : expected.length = actions.length)
    (hvalid : validateAll op.sourceLength expected
      (actions.map (serve file op.sourceLength)) = .ok ()) : op.AsksFor file state actions := by
  intro index action haction
  obtain ⟨block, hblock, hnew⟩ := collectActions_eq_ok hcollect haction
  have hlt : index < expected.length := by
    rw [hlength]
    exact (List.getElem?_eq_some_iff.1 haction).1
  obtain ⟨block', hblock', hnew'⟩ :=
    collectActions_eq_ok hexpected (List.getElem?_eq_getElem hlt)
  rw [Nat.zero_add] at hblock hblock'
  obtain rfl : block' = block := Option.some_inj.1 (hblock'.symm.trans hblock)
  have hsame : expected[index] = action := Except.ok.inj (hnew'.symm.trans hnew)
  have haction' : expected[index]? = some action := by
    rw [List.getElem?_eq_getElem hlt, hsame]
  have hresponse : (actions.map (serve file op.sourceLength))[index]? =
      some (serve file op.sourceLength action) := by
    rw [List.getElem?_map, haction]
    rfl
  exact ⟨block', hblock', hnew, validateAll_eq_ok hvalid haction' hresponse⟩

/-- A call is refused, or comes to the same as some single reads. -/
theorem answer_eq_feeds (call : OpenCall) (op : OpenOperation arrays δ) :
    (∃ error, (answer reader verify model decoder file call).on op = (.error error, op)) ∨
      ∃ n, (answer reader verify model decoder file call).on op =
        (run reader verify model decoder file (List.replicate (n + 1) .feed)).on op := by
  cases call with
  | feed => exact .inr ⟨0, (on_run_singleton _ _).symm⟩
  | feedMany maxRanges maxBytes =>
    unfold answer
    rw [on_read_bind]
    cases hnext : op.nextActions maxRanges maxBytes with
    | error error => exact .inl ⟨error, rfl⟩
    | ok actions =>
      rw [on_ok_bind]
      obtain ⟨state, hphase, hcollect⟩ | ⟨hphase, ⟨-, rfl⟩ | ⟨action, haction, rfl⟩⟩ :=
        nextActions_eq_ok hnext
      · match actions with
        | [] => exact .inl ⟨_, rfl⟩
        | first :: actions =>
          have hne : (first :: actions).map (serve file op.sourceLength) ≠ [] :=
            List.cons_ne_nil _ _
          cases hexpected : op.nextActions ((first :: actions).map
              (serve file op.sourceLength)).length u64Max with
          | error error => exact .inl ⟨error, on_feedManyOwned_error hphase hne hexpected⟩
          | ok expected =>
            rw [on_feedManyOwned_fileIndex hphase hne hexpected]
            split
            · exact .inl ⟨_, rfl⟩
            rename_i hlength
            rw [not_not, List.length_map] at hlength
            cases hvalid : validateAll op.sourceLength expected
                ((first :: actions).map (serve file op.sourceLength)) with
            | error error => exact .inl ⟨error, rfl⟩
            | ok _ =>
              obtain ⟨state', hphase', hcollect'⟩ | ⟨hphase', -⟩ := nextActions_eq_ok hexpected
              · rw [hphase] at hphase'
                cases hphase'
                have hasks := asksFor_of_collectActions hcollect hcollect' hlength hvalid
                refine .inr ⟨actions.length, ?_⟩
                rw [← List.length_cons, on_run_feeds hphase hasks (List.cons_ne_nil _ _),
                  List.map_map]
                rfl
              · exact absurd hphase (hphase' state)
      · exact .inl ⟨_, rfl⟩
      · refine .inr ⟨0, ?_⟩
        rw [List.map_singleton, on_feedManyOwned_single hphase, Nat.zero_add, List.replicate_one,
          on_run_singleton]
        unfold answer
        rw [on_read_bind, haction, on_ok_bind]

theorem on_run_append (calls calls' : List OpenCall)
    (h : (run reader verify model decoder file calls).on op = (.ok none, op')) :
    (run reader verify model decoder file (calls ++ calls')).on op =
      (run reader verify model decoder file calls').on op' := by
  induction calls generalizing op with
  | nil =>
    cases h
    rfl
  | cons call calls ih =>
    rw [on_run_cons] at h
    rw [List.cons_append, on_run_cons]
    match hanswer : (answer reader verify model decoder file call).on op with
    | (.error error, op'') =>
      rw [hanswer] at h
      cases h
    | (.ok (some source), op'') =>
      rw [hanswer] at h
      cases h
    | (.ok none, op'') =>
      rw [hanswer] at h
      exact ih h

/-- However the host asks, what it has read is what single reads read. -/
theorem exists_feeds (calls : List OpenCall)
    (h : (run reader verify model decoder file calls).on op = (.ok opened, op')) :
    ∃ n, (run reader verify model decoder file (List.replicate n .feed)).on op =
      (.ok opened, op') := by
  induction calls generalizing op with
  | nil => exact ⟨0, h⟩
  | cons call calls ih =>
    rw [on_run_cons] at h
    match hanswer : (answer reader verify model decoder file call).on op with
    | (.error error, op'') =>
      rw [hanswer] at h
      cases h
    | (.ok (some source), op'') =>
      rw [hanswer] at h
      cases h
      obtain ⟨error, herror⟩ | ⟨n, hfeeds⟩ := answer_eq_feeds call op
      · rw [hanswer] at herror
        cases herror
      · exact ⟨n + 1, hfeeds.symm.trans hanswer⟩
    | (.ok none, op'') =>
      rw [hanswer] at h
      obtain ⟨error, herror⟩ | ⟨n, hfeeds⟩ := answer_eq_feeds call op
      · rw [hanswer] at herror
        cases herror
      · obtain ⟨n', hrest⟩ := ih h
        refine ⟨n + 1 + n', ?_⟩
        rw [List.replicate_add, on_run_append _ _ (hfeeds.symm.trans hanswer)]
        exact hrest

/-- Single reads come to one source. -/
theorem run_feeds_unique {n n' : ℕ} {source source' : OpenedArrowIpcSource arrays}
    {op'' : OpenOperation arrays δ}
    (h : (run reader verify model decoder file (List.replicate n .feed)).on op =
      (.ok (some source), op'))
    (h' : (run reader verify model decoder file (List.replicate n' .feed)).on op =
      (.ok (some source'), op'')) : source = source' := by
  induction n generalizing op n' with
  | zero => cases h
  | succ n ih =>
    cases n' with
    | zero => cases h'
    | succ n' =>
      rw [List.replicate_succ, on_run_cons] at h h'
      match hanswer : (answer reader verify model decoder file .feed).on op with
      | (.error error, _) =>
        rw [hanswer] at h
        cases h
      | (.ok (some _), _) =>
        rw [hanswer] at h h'
        cases h
        cases h'
        rfl
      | (.ok none, _) =>
        rw [hanswer] at h h'
        exact ih h h'

/-- However the host asks, it opens the same source. -/
theorem run_unique {calls calls' : List OpenCall} {source source' : OpenedArrowIpcSource arrays}
    {op'' : OpenOperation arrays δ}
    (h : (run reader verify model decoder file calls).on op = (.ok (some source), op'))
    (h' : (run reader verify model decoder file calls').on op = (.ok (some source'), op'')) :
    source = source' := by
  obtain ⟨n, hn⟩ := exists_feeds calls h
  obtain ⟨n', hn'⟩ := exists_feeds calls' h'
  exact run_feeds_unique hn hn'

/-- Fewer single reads than open a source leave it within reach. -/
theorem run_feeds_prior {n : ℕ} {source : OpenedArrowIpcSource arrays}
    (h : (run reader verify model decoder file (List.replicate n .feed)).on op =
      (.ok (some source), op')) (m : ℕ) :
    (run reader verify model decoder file (List.replicate m .feed)).on op =
      (.ok (some source), op') ∨
    ∃ op'' n', (run reader verify model decoder file (List.replicate m .feed)).on op =
        (.ok none, op'') ∧
      (run reader verify model decoder file (List.replicate n' .feed)).on op'' =
        (.ok (some source), op') := by
  induction m generalizing op n with
  | zero => exact .inr ⟨op, n, rfl, h⟩
  | succ m ih =>
    cases n with
    | zero => cases h
    | succ n =>
      rw [List.replicate_succ, on_run_cons] at h ⊢
      match hanswer : (answer reader verify model decoder file .feed).on op with
      | (.error error, _) =>
        rw [hanswer] at h
        cases h
      | (.ok (some _), _) =>
        rw [hanswer] at h
        cases h
        exact .inl rfl
      | (.ok none, _) =>
        rw [hanswer] at h
        exact ih h

/-- However the host asks, a source that single reads open is opened or stays within reach. -/
theorem run_reaches {n : ℕ} {source : OpenedArrowIpcSource arrays}
    (h : (run reader verify model decoder file (List.replicate n .feed)).on op =
      (.ok (some source), op')) (calls : List OpenCall) :
    ((run reader verify model decoder file calls).on op).1 = .ok (some source) ∨
      ∃ n', (run reader verify model decoder file (List.replicate n' .feed)).on
        ((run reader verify model decoder file calls).on op).2 = (.ok (some source), op') := by
  induction calls generalizing op n with
  | nil => exact .inr ⟨n, h⟩
  | cons call calls ih =>
    rw [on_run_cons]
    obtain ⟨error, herror⟩ | ⟨m, hfeeds⟩ := answer_eq_feeds call op
    · rw [herror]
      exact .inr ⟨n, h⟩
    · obtain hdone | ⟨op'', n', hmore, hrest⟩ := run_feeds_prior h (m + 1)
      · rw [hfeeds, hdone]
        exact .inl rfl
      · rw [hfeeds, hmore]
        exact ih hrest

/-! ## What is opened -/

theorem new_eq_ok {offset length sourceLength : ℕ}
    (h : ReadBytesAction.new offset length sourceLength = .ok action) :
    action = ⟨offset, length⟩ := by
  obtain ⟨stop, -, h⟩ := Result.bind_eq_ok.1 h
  split at h
  · cases h
  · cases h
    rfl

/-- A single read of block metadata indexes the next block; the last one opens the source. -/
theorem answer_fileIndex (hphase : op.phase = .fileIndex state)
    (h : (answer reader verify model decoder file .feed).on op = (.ok opened, op')) :
    ∃ block next, state.metadataBlockAt 0 = some block ∧
      state.indexFileMetadata verify op.options.limits
        (bytesAt file block.offset block.metadataLength) = .ok next ∧
      (opened = none ∧ op' = { op with phase := .fileIndex next } ∨
        next.metadataComplete = true ∧ ∃ source,
          completeFile model op.options op.sourceLength next = .ok source ∧
            opened = some (.file source)) := by
  unfold answer at h
  rw [on_read_bind, nextAction, hphase] at h
  dsimp only at h
  rw [FileIndexState.nextMetadataBlock_eq] at h
  cases hblock : state.metadataBlockAt 0 with
  | none =>
    rw [hblock] at h
    cases h
  | some block =>
    rw [hblock] at h
    dsimp only at h
    cases hnew : ReadBytesAction.new block.offset block.metadataLength op.sourceLength with
    | error error =>
      rw [hnew] at h
      cases h
    | ok action =>
      have hnext : op.nextAction = .ok (some action) := by
        rw [nextAction, hphase]
        dsimp only
        rw [FileIndexState.nextMetadataBlock_eq, hblock]
        dsimp only
        rw [hnew, Result.ok_bind]
      rw [hnew, Result.ok_bind, on_ok_bind] at h
      dsimp only at h
      unfold feedOwned at h
      rw [on_read_bind, hnext, on_ok_bind] at h
      dsimp only at h
      cases hvalid : validateActionResponse action (serve file op.sourceLength action)
          op.sourceLength with
      | error error =>
        rw [hvalid] at h
        cases h
      | ok _ =>
        rw [hvalid, on_ok_bind, on_replacePhase, feedPhase, hphase] at h
        dsimp only at h
        rw [feedFileMetadata] at h
        have hbytes : (serve file op.sourceLength action).bytes =
            bytesAt file block.offset block.metadataLength := by
          rw [new_eq_ok hnew]
          rfl
        rw [hbytes] at h
        cases hindex : state.indexFileMetadata verify op.options.limits
            (bytesAt file block.offset block.metadataLength) with
        | error error =>
          rw [hindex] at h
          cases h
        | ok next =>
          rw [hindex, Result.ok_bind, indexed] at h
          refine ⟨block, next, rfl, hindex, ?_⟩
          cases hcomplete : next.metadataComplete with
          | false =>
            rw [hcomplete] at h
            cases h
            exact .inl ⟨rfl, rfl⟩
          | true =>
            rw [hcomplete] at h
            cases hsource : completeFile model op.options op.sourceLength next with
            | error error =>
              rw [hsource] at h
              cases h
            | ok source =>
              rw [hsource] at h
              cases h
              exact .inr ⟨rfl, source, rfl, rfl⟩

end OpenOperation

end FileOpen

namespace FileIndexState

variable {verify : MessageVerifier} {limits : ArrowIpcLimits} {state state' : FileIndexState}

/-- The index of a footer, as far as it is: the rows of a block are those that the metadata of the
    File says it has. -/
structure Follows (verify : MessageVerifier) (limits : ArrowIpcLimits) (file : List UInt8)
    (schema : ArrowSchema) (dictionaries records : List FileBlockSpec) (state : FileIndexState) :
    Prop where
  indexed : state.Indexed
  schema_eq : state.schema = schema
  dictionaries_eq : state.dictionaries = dictionaries
  records_eq : state.records.map (·.block) = records
  counted : ∀ record ∈ state.records.take state.nextRecord,
    recordBatchRowCount verify (bytesAt file record.block.offset record.block.metadataLength)
      record.block limits = .ok record.rowCount

theorem Follows.next {file : List UInt8} {schema : ArrowSchema}
    {dictionaries records : List FileBlockSpec}
    (h : state.Follows verify limits file schema dictionaries records) {block : FileBlockSpec}
    (hblock : state.metadataBlockAt 0 = some block)
    (hindex : state.indexFileMetadata verify limits
      (bytesAt file block.offset block.metadataLength) = .ok state') :
    state'.Follows verify limits file schema dictionaries records := by
  obtain ⟨hindexed, hschema⟩ := h.indexed.next hindex
  rw [indexFileMetadata] at hindex
  split at hindex
  · obtain ⟨_, -, hindex⟩ := Result.bind_eq_ok.1 hindex
    cases hindex
    exact ⟨hindexed, h.schema_eq, h.dictionaries_eq, h.records_eq, h.counted⟩
  · rename_i hdictionary
    split at hindex
    · cases hindex
    rename_i record hrecord
    obtain ⟨rowCount, hcount, hindex⟩ := Result.bind_eq_ok.1 hindex
    obtain ⟨rows, -, hindex⟩ := Result.bind_eq_ok.1 hindex
    cases hindex
    obtain ⟨hlt, hget⟩ := List.getElem?_eq_some_iff.1 hrecord
    have hsame : block = record.block := by
      rw [← nextMetadataBlock_eq, nextMetadataBlock, hdictionary, hrecord] at hblock
      exact (Option.some_inj.1 hblock).symm
    refine ⟨hindexed, h.schema_eq, h.dictionaries_eq, ?_, ?_⟩
    · have hlt' : state.nextRecord < (state.records.map (·.block)).length := by
        rwa [List.length_map]
      have hself := List.set_getElem_self hlt'
      rw [List.getElem_map, hget] at hself
      rw [List.map_set, hself]
      exact h.records_eq
    · dsimp only
      rw [take_set_succ hlt]
      refine List.forall_mem_append.2 ⟨h.counted, List.forall_mem_singleton.2 ?_⟩
      rw [← hsame]
      exact hsame ▸ hcount

end FileIndexState

namespace FileOpen

namespace OpenOperation

variable {reader : FooterReader} {verify : MessageVerifier} {model : SchemaModel}
  {decoder : StreamDecoder arrays δ} {file : List UInt8} {op op' : OpenOperation arrays δ}
  {state state' : FileIndexState} {opened : Option (OpenedArrowIpcSource arrays)}

/-- What a footer lists is opened: its blocks, each with the rows that its metadata says it has,
    one after the other. -/
structure Lists (verify : MessageVerifier) (limits : ArrowIpcLimits) (file : List UInt8)
    (schema : ArrowSchema) (dictionaries records : List FileBlockSpec)
    (source : ArrowIndexedFileSource) : Prop where
  schema_eq : source.schema = schema
  dictionaries_eq : source.dictionaries = dictionaries
  records_eq : source.records.map (·.block) = records
  counted : ∀ record ∈ source.records,
    recordBatchRowCount verify (bytesAt file record.block.offset record.block.metadataLength)
      record.block limits = .ok record.rowCount
  consecutive : Consecutive 0 source.records
  rows_eq : source.totalRows = recordRows source.records

variable {sourceLength : ℕ}

theorem lists_of_completeFile {options : ArrowIpcOptions}
    {schema : ArrowSchema} {dictionaries records : List FileBlockSpec}
    {source : ArrowIndexedFileSource}
    (h : state.Follows verify options.limits file schema dictionaries records)
    (hcomplete : state.metadataComplete = true)
    (hsource : completeFile model options sourceLength state = .ok source) :
    Lists verify options.limits file schema dictionaries records source := by
  obtain ⟨hindexed, hschema, hdictionaries, hrecords, -⟩ :=
    ArrowIndexedFileSource.indexed_of_indexed h.indexed hcomplete hsource
  rw [FileIndexState.metadataComplete, decide_eq_true_iff] at hcomplete
  refine ⟨hschema.trans h.schema_eq, hdictionaries.trans h.dictionaries_eq, ?_, ?_,
    hindexed.consecutive, hindexed.rows⟩
  · rw [hrecords]
    exact h.records_eq
  · have hcounted := h.counted
    rw [hcomplete.2, List.take_length] at hcounted
    rwa [hrecords]

/-- However the host asks for the blocks of a footer, what it opens is what the footer lists. -/
theorem lists_of_run {schema : ArrowSchema} {dictionaries records : List FileBlockSpec}
    {calls : List OpenCall} {source : OpenedArrowIpcSource arrays}
    (hphase : op.phase = .fileIndex state)
    (hstate : state.Follows verify op.options.limits file schema dictionaries records)
    (h : (run reader verify model decoder file calls).on op = (.ok (some source), op')) :
    ∃ file', source = .file file' ∧
      Lists verify op.options.limits file schema dictionaries records file' := by
  obtain ⟨n, hn⟩ := exists_feeds calls h
  clear h
  induction n generalizing op state with
  | zero => cases hn
  | succ n ih =>
    rw [List.replicate_succ, on_run_cons] at hn
    match hanswer : (answer reader verify model decoder file .feed).on op with
    | (.error error, _) =>
      rw [hanswer] at hn
      cases hn
    | (.ok opened, _) =>
      obtain ⟨block, next, hblock, hindex, ⟨rfl, rfl⟩ | ⟨hcomplete, file', hfile, rfl⟩⟩ :=
        answer_fileIndex hphase hanswer
      · rw [hanswer] at hn
        have hphase' : ({ op with phase := .fileIndex next } : OpenOperation arrays δ).phase =
            .fileIndex next := rfl
        have hrest := ih hphase' (hstate.next hblock hindex) hn
        exact hrest
      · rw [hanswer] at hn
        cases hn
        exact ⟨file', rfl, lists_of_completeFile (hstate.next hblock hindex) hcomplete hfile⟩

/-! ## Answers to something else -/

/-- Answers that are those of the actions that the operation needs next. Fewer answers than there
    are such actions are those of a smaller batch. -/
def Matches (op : OpenOperation arrays δ) (results : List ActionResponse) : Prop :=
  ∃ actions, op.nextActions results.length u64Max = .ok actions ∧
    List.Forall₂ (fun action (response : ActionResponse) =>
      response.offset = action.offset ∧ response.bytes.length = action.length ∧
        response.eof = decide (action.offset + action.length = op.sourceLength)) actions results

variable {action : ReadBytesAction}

theorem validateActionResponse_eq_ok {response : ActionResponse}
    (h : validateActionResponse action response sourceLength = .ok ()) :
    response.offset = action.offset ∧ response.bytes.length = action.length ∧
      response.eof = decide (action.offset + action.length = sourceLength) := by
  unfold validateActionResponse at h
  dsimp only at h
  split at h
  · cases h
  · rename_i hsame
    rw [not_or, not_or, not_not, not_not, not_not] at hsame
    exact hsame

theorem forall₂_of_validateAll {actions : List ReadBytesAction}
    {results : List ActionResponse} (hlength : actions.length = results.length)
    (hvalid : validateAll sourceLength actions results = .ok ()) :
    List.Forall₂ (fun action (response : ActionResponse) =>
      response.offset = action.offset ∧ response.bytes.length = action.length ∧
        response.eof = decide (action.offset + action.length = sourceLength)) actions results := by
  induction actions generalizing results with
  | nil =>
    rw [List.length_eq_zero_iff.1 hlength.symm]
    exact .nil
  | cons action actions ih =>
    cases results with
    | nil => cases hlength
    | cons response results =>
      rw [validateAll] at hvalid
      obtain ⟨_, hfirst, hrest⟩ := Result.bind_eq_ok.1 hvalid
      exact .cons (validateActionResponse_eq_ok hfirst) (ih (Nat.succ_inj.1 hlength) hrest)

theorem length_le_of_new {offset length sourceLength : ℕ}
    (h : ReadBytesAction.new offset length sourceLength = .ok action) :
    action.length ≤ u64Max := by
  obtain ⟨stop, hstop, -⟩ := Result.bind_eq_ok.1 h
  rw [new_eq_ok h]
  exact (Nat.le_add_left _ _).trans ((checkedAdd_eq_ok.1 hstop).1.trans (by decide))

/-- A range that is asked for has a length of 64 bits. -/
theorem nextAction_length_le (h : op.nextAction = .ok (some action)) :
    action.length ≤ u64Max := by
  have hbind {offset length : ℕ} (h : (ReadBytesAction.new offset length op.sourceLength >>=
      fun action => Except.ok (some action)) = .ok (some action)) : action.length ≤ u64Max := by
    obtain ⟨action', hnew, h⟩ := Result.bind_eq_ok.1 h
    cases h
    exact length_le_of_new hnew
  unfold nextAction at h
  split at h
  · exact hbind h
  · exact hbind h
  · split at h
    · cases h
    · exact hbind h
  · split at h
    · cases h
    · exact hbind h
  · exact hbind h
  · cases h

/-- An answer that is that of the action that the operation needs next. -/
def MatchesOne (op : OpenOperation arrays δ) (response : ActionResponse) : Prop :=
  ∃ action, op.nextAction = .ok (some action) ∧ response.offset = action.offset ∧
    response.bytes.length = action.length ∧
      response.eof = decide (action.offset + action.length = op.sourceLength)

/-- An answer to something else is rejected, and the operation stays as it was. -/
theorem feed_rejects (op : OpenOperation arrays δ) {response : ActionResponse}
    (h : ¬op.MatchesOne response) :
    ∃ error, (feedOwned reader verify model decoder response).on op = (.error error, op) := by
  unfold feedOwned
  rw [on_read_bind]
  cases hnext : op.nextAction with
  | error error => exact ⟨error, rfl⟩
  | ok action =>
    rw [on_ok_bind]
    cases action with
    | none => exact ⟨_, rfl⟩
    | some action =>
      dsimp only
      cases hvalid : validateActionResponse action response op.sourceLength with
      | error error => exact ⟨error, rfl⟩
      | ok _ => exact absurd ⟨action, hnext, validateActionResponse_eq_ok hvalid⟩ h

/-- Answers to something else are rejected, and the operation stays as it was. -/
theorem feedMany_rejects (op : OpenOperation arrays δ) {results : List ActionResponse}
    (h : ¬op.Matches results) :
    ∃ error, (feedManyOwned reader verify model decoder results).on op = (.error error, op) := by
  by_cases hne : results = []
  · subst hne
    exact ⟨_, rfl⟩
  by_cases hphase : ∃ state, op.phase = .fileIndex state
  · obtain ⟨state, hphase⟩ := hphase
    cases hnext : op.nextActions results.length u64Max with
    | error error =>
      exact ⟨error, on_feedManyOwned_error hphase hne hnext⟩
    | ok actions =>
      rw [on_feedManyOwned_fileIndex hphase hne hnext]
      split
      · exact ⟨_, rfl⟩
      rename_i hlength
      rw [not_not] at hlength
      cases hvalid : validateAll op.sourceLength actions results with
      | error error => exact ⟨error, rfl⟩
      | ok _ => exact absurd ⟨actions, hnext, forall₂_of_validateAll hlength hvalid⟩ h
  · rw [not_exists] at hphase
    match results, hne with
    | [response], _ =>
      rw [on_feedManyOwned_single hphase]
      refine op.feed_rejects fun ⟨action, hnext, hanswer⟩ =>
        h ⟨[action], ?_, .cons hanswer .nil⟩
      rw [nextActions, if_neg (by simp [u64Max])]
      split
      · rename_i state heq
        exact absurd heq (hphase state)
      · rw [hnext, Result.ok_bind]
        exact if_neg (Nat.not_lt.2 (nextAction_length_le hnext))
    | _ :: _ :: _, _ =>
      unfold feedManyOwned
      rw [if_neg (by simp), on_read_bind]
      split
      · rename_i state heq
        exact absurd heq (hphase state)
      · exact ⟨_, rfl⟩

end OpenOperation

/-- The index of a footer, before any block is read. -/
theorem follows_of_indexOfFooter {model : SchemaModel} {footer : Footer} {sourceLength : ℕ}
    {limits : ArrowIpcLimits} {state : FileIndexState}
    (h : indexOfFooter model footer sourceLength limits = .ok state) (verify : MessageVerifier)
    (file : List UInt8) :
    state.Follows verify limits file state.schema state.dictionaries
      (state.records.map (·.block)) := by
  unfold indexOfFooter at h
  split at h
  · cases h
  split at h
  · obtain ⟨_, -, h⟩ := Result.bind_eq_ok.1 h
    obtain ⟨dictionaries, -, h⟩ := Result.bind_eq_ok.1 h
    split at h
    · cases h
    · obtain ⟨records, -, h⟩ := Result.bind_eq_ok.1 h
      cases h
      exact ⟨FileIndexState.ofFooter_indexed, rfl, rfl, rfl, fun _ hmem =>
        absurd hmem List.not_mem_nil⟩
  · cases h

open OpenOperation in
/-- The blocks of a File may be indexed in any batches. From any state of an open operation,
    whatever single reads and batches, within whatever limits, come to an end, they open the same
    source; and what single reads open stays within reach of all others. From the index of a
    footer that is a File with the dictionaries and the records of the footer, each record with the
    rows that its metadata has, from where the one before ends. And answers that are not those of
    the requested actions are rejected in every state, which stays as it is. -/
theorem batched_indexing (reader : FooterReader) (verify : MessageVerifier) (model : SchemaModel)
    (decoder : StreamDecoder arrays δ) (file : List UInt8) (op : OpenOperation arrays δ) :
    (∀ calls calls' source source' op' op'',
      (run reader verify model decoder file calls).on op = (.ok (some source), op') →
        (run reader verify model decoder file calls').on op = (.ok (some source'), op'') →
          source = source') ∧
    (∀ n source op' calls,
      (run reader verify model decoder file (List.replicate n .feed)).on op =
          (.ok (some source), op') →
        ((run reader verify model decoder file calls).on op).1 = .ok (some source) ∨
          ∃ n', (run reader verify model decoder file (List.replicate n' .feed)).on
            ((run reader verify model decoder file calls).on op).2 = (.ok (some source), op')) ∧
    (∀ footer state calls source op',
      indexOfFooter model footer op.sourceLength op.options.limits = .ok state →
        op.phase = .fileIndex state →
          (run reader verify model decoder file calls).on op = (.ok (some source), op') →
            ∃ file', source = .file file' ∧
              Lists verify op.options.limits file state.schema state.dictionaries
                (state.records.map (·.block)) file') ∧
    ∀ results, ¬op.Matches results →
      ∃ error, (feedManyOwned reader verify model decoder results).on op = (.error error, op) :=
  ⟨fun _ _ _ _ _ _ h h' => run_unique h h', fun _ _ _ calls h => run_reaches h calls,
    fun _ _ _ _ _ hfooter hphase h =>
      lists_of_run hphase (follows_of_indexOfFooter hfooter verify file) h,
    fun _ h => op.feedMany_rejects h⟩

end FileOpen

end Tabulark.Arrow
