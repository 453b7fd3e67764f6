import Tabulark.Arrow.Stream

/-!
# Publishing a Stream while it is read

Deltas are taken at any points between the chunks of a Stream: the first one
registers a source, the later ones grow it, and the last one, at the end of the
Stream, is split off the completed source. Whenever they are taken, the source
that is registered in the end is the completed source itself, and on the way it
has a beginning of its batches (`publication_complete`).
-/

namespace Tabulark.Arrow

open OrderedMap

variable {α ν δ : Type} {arrays : ArrowArrays α ν}

/-! ## The index of a Stream -/

namespace StreamIndexState

variable {model : SchemaModel} {decoder : StreamDecoder arrays δ} {limits : ArrowIpcLimits}
  {state state' : StreamIndexState arrays δ}

/-- The totals of a state are those of its batches. -/
structure Indexes (state : StreamIndexState arrays δ) : Prop where
  rowOffsets : state.rowOffsets = 0 :: rowEnds 0 state.batches
  rows : state.rows = totalRows state.batches
  decodedBytes : state.decodedBytes = totalMemory state.batches

/-- A later state indexes its batches, and has those of an earlier one. -/
structure Grows (state state' : StreamIndexState arrays δ) : Prop where
  indexes : state'.Indexes
  batches : state.batches <+: state'.batches

theorem Indexes.grows (h : state.Indexes) : state.Grows state := ⟨h, List.prefix_rfl⟩

theorem Grows.trans {state'' : StreamIndexState arrays δ} (h : state.Grows state')
    (h' : state'.Grows state'') : state.Grows state'' :=
  ⟨h'.indexes, h.batches.trans h'.batches⟩

theorem Indexes.store {chunkBytes : ℕ} {batch : RecordBatch arrays} (h : state.Indexes)
    (hstore : state.store limits chunkBytes batch = .ok state') : state.Grows state' := by
  rw [StreamIndexState.store] at hstore
  obtain ⟨detached, _, hstore⟩ := Result.bind_eq_ok.1 hstore
  obtain ⟨decodedBytes, hbytes, hstore⟩ := Result.bind_eq_ok.1 hstore
  obtain ⟨rows, hrows, hstore⟩ := Result.bind_eq_ok.1 hstore
  rw [checkedAdd] at hbytes hrows
  split_ifs at hbytes hrows hstore
  obtain ⟨_, _, hstore⟩ := Result.bind_eq_ok.1 hstore
  cases hbytes
  cases hrows
  cases hstore
  refine ⟨⟨?_, ?_, ?_⟩, List.prefix_append _ _⟩
  · dsimp only
    rw [h.rowOffsets, rowEnds_append, h.rows, Nat.zero_add]
    rfl
  · dsimp only
    rw [h.rows, totalRows_append]
    rfl
  · dsimp only
    rw [h.decodedBytes, totalMemory_append]
    rfl

theorem Indexes.storeDecoded {chunkBytes : ℕ} {batch : Option (RecordBatch arrays)}
    (h : state.Indexes) (hstore : state.storeDecoded limits chunkBytes batch = .ok state') :
    state.Grows state' := by
  cases batch with
  | none =>
    cases hstore
    exact h.grows
  | some batch => exact h.store hstore

theorem Indexes.checkSchema (h : state.Indexes)
    (hcheck : state.checkSchema model decoder limits = .ok state') : state.Grows state' := by
  rw [StreamIndexState.checkSchema] at hcheck
  split_ifs at hcheck
  · cases hcheck
    exact h.grows
  · split at hcheck
    · cases hcheck
      exact h.grows
    · obtain ⟨_, _, hcheck⟩ := Result.bind_eq_ok.1 hcheck
      cases hcheck
      exact ⟨⟨h.rowOffsets, h.rows, h.decodedBytes⟩, List.prefix_rfl⟩

theorem Indexes.decodeChunk {chunkBytes turns : ℕ} {bytes : List UInt8} (h : state.Indexes)
    (hdecode : decodeChunk model decoder limits chunkBytes turns state bytes = .ok state') :
    state.Grows state' := by
  induction turns generalizing state bytes with
  | zero =>
    cases bytes with
    | nil =>
      cases hdecode
      exact h.grows
    | cons b bytes => cases hdecode
  | succ turns ih =>
    cases bytes with
    | nil =>
      cases hdecode
      exact h.grows
    | cons b bytes =>
      rw [StreamIndexState.decodeChunk] at hdecode
      obtain ⟨decoded, _, hdecode⟩ := Result.bind_eq_ok.1 hdecode
      obtain ⟨stored, hstored, hdecode⟩ := Result.bind_eq_ok.1 hdecode
      obtain ⟨checked, hchecked, hdecode⟩ := Result.bind_eq_ok.1 hdecode
      have hdecoder : Indexes { state with decoder := decoded.2.1 } :=
        ⟨h.rowOffsets, h.rows, h.decodedBytes⟩
      have hstore := hdecoder.storeDecoded hstored
      have hcheck := hstore.indexes.checkSchema hchecked
      have hgrows : state.Grows checked := ⟨hcheck.indexes, hstore.batches.trans hcheck.batches⟩
      exact hgrows.trans (ih hcheck.indexes hdecode)

end StreamIndexState

namespace ArrowIpcOpenOperation

variable {verify : MessageVerifier} {model : SchemaModel} {decoder : StreamDecoder arrays δ}
  {limits : ArrowIpcLimits} {state state' : StreamIndexState arrays δ}
  {op op' : ArrowIpcOpenOperation arrays δ} {bytes : List UInt8}

theorem readChunk_grows (h : state.Indexes)
    (hread : readChunk verify model decoder limits state bytes = .ok state') :
    state.Grows state' := by
  obtain ⟨wire, _, hread⟩ := Result.bind_eq_ok.1 hread
  obtain ⟨_, _, hread⟩ := Result.bind_eq_ok.1 hread
  obtain ⟨decoded, hdecoded, hread⟩ := Result.bind_eq_ok.1 hread
  obtain ⟨nextOffset, _, hread⟩ := Result.bind_eq_ok.1 hread
  cases hread
  have hwire : StreamIndexState.Indexes { state with wire } :=
    ⟨h.rowOffsets, h.rows, h.decodedBytes⟩
  have hgrows := hwire.decodeChunk hdecoded
  exact ⟨⟨hgrows.indexes.rowOffsets, hgrows.indexes.rows, hgrows.indexes.decodedBytes⟩,
    hgrows.batches⟩

/-- A chunk before the last one is read, and completes nothing. -/
theorem feedStreamOwned_eq_ok {completed : Option (ArrowIpcSource arrays)}
    (hop : op.state = .stream state)
    (hfeed : op.feedStreamOwned verify model decoder bytes false = .ok (op', completed)) :
    ∃ state', readChunk verify model decoder op.options.limits state bytes = .ok state' ∧
      op' = { op with state := .stream state' } := by
  rw [feedStreamOwned, hop] at hfeed
  obtain ⟨state', hread, hfeed⟩ := Result.bind_eq_ok.1 hfeed
  cases hfeed
  exact ⟨state', hread, rfl⟩

/-- The last chunk is read, and completes the source. -/
theorem feedStreamOwned_eof_eq_ok {completed : Option (ArrowIpcSource arrays)}
    (hop : op.state = .stream state)
    (hfeed : op.feedStreamOwned verify model decoder bytes true = .ok (op', completed)) :
    ∃ state' source, readChunk verify model decoder op.options.limits state bytes = .ok state' ∧
      completedSource model decoder op.options state' = .ok source ∧
      op' = { op with state := .complete } ∧ completed = some source := by
  rw [feedStreamOwned, hop] at hfeed
  obtain ⟨state', hread, hfeed⟩ := Result.bind_eq_ok.1 hfeed
  obtain ⟨source, hsource, hfeed⟩ := Result.bind_eq_ok.1 hfeed
  cases hfeed
  exact ⟨state', source, hread, hsource, rfl, rfl⟩

/-- The source of a Stream that has ended. -/
theorem completedSource_eq_ok {options : ArrowIpcOptions} {source : ArrowIpcSource arrays}
    (h : completedSource model decoder options state = .ok source) :
    ∃ schema metadata, decoder.schema state.decoder = some schema ∧
      exactMetadata model schema state.rows options.tableName = .ok metadata ∧
      source = {
        container := .stream
        arrowSchema := schema
        metadata
        batches := state.batches
        rowOffsets := state.rowOffsets
        decodedBytes := state.decodedBytes
        limits := options.limits } := by
  obtain ⟨_, _, h⟩ := Result.bind_eq_ok.1 h
  obtain ⟨_, _, h⟩ := Result.bind_eq_ok.1 h
  split at h
  · cases h
  case h_2 schema hschema =>
    obtain ⟨metadata, hmetadata, h⟩ := Result.bind_eq_ok.1 h
    exact ⟨schema, metadata, hschema, hmetadata, (Except.ok.inj h).symm⟩

variable (decoder) in
/-- A delta has the batches that are not published yet; there is none without a schema, or with
    nothing new. -/
theorem takeStreamDelta_cases (hop : op.state = .stream state) :
    op.takeStreamDelta decoder = (op, none) ∨
    ∃ schema, op.takeStreamDelta decoder =
      ({ op with
          publishedStreamBatches := state.batches.length
          streamMetadataPublished := true },
        some {
          arrowSchema := schema
          options := op.options
          batchStart := op.publishedStreamBatches
          batches := state.batches.drop op.publishedStreamBatches
          cumulativeRows := state.rows
          cumulativeDecodedBytes := state.decodedBytes
          exact := false }) := by
  rw [takeStreamDelta, hop]
  dsimp only
  cases decoder.schema state.decoder with
  | none => exact .inl rfl
  | some schema =>
    dsimp only
    split_ifs
    · exact .inl rfl
    · exact .inr ⟨schema, rfl⟩

theorem takeCompletedStreamDelta_eq_ok {source : ArrowIpcSource arrays}
    {delta : ArrowStreamDelta arrays} (h : op.takeCompletedStreamDelta source = .ok (op', delta)) :
    delta = {
      arrowSchema := source.arrowSchema
      options := op.options
      batchStart := op.publishedStreamBatches
      batches := source.batches.drop op.publishedStreamBatches
      cumulativeRows := source.rows
      cumulativeDecodedBytes := source.decodedBytes
      exact := true } := by
  rw [takeCompletedStreamDelta] at h
  split_ifs at h
  obtain ⟨count, _, h⟩ := Result.bind_eq_ok.1 h
  cases h
  rfl

end ArrowIpcOpenOperation

/-! ## The source of a handle -/

namespace ArrowIpcRuntime

variable {model : SchemaModel} {runtime runtime' : ArrowIpcRuntime arrays}
  {delta : ArrowStreamDelta arrays} {handle : ℕ}

/-- The first delta registers its source under a new handle. -/
theorem openIncrementalStream_eq_ok
    (h : runtime.openIncrementalStream model delta = .ok (runtime', handle)) :
    ∃ source, ArrowIpcSource.fromStreamDelta model delta = .ok source ∧
      get? runtime'.sources handle = some (.incrementalStream source) := by
  obtain ⟨_, _, h⟩ := Result.bind_eq_ok.1 h
  obtain ⟨source, hsource, h⟩ := Result.bind_eq_ok.1 h
  rw [registerStream] at h
  split_ifs at h
  obtain ⟨retainedBytes, _, h⟩ := Result.bind_eq_ok.1 h
  split_ifs at h
  obtain ⟨nextHandle, _, h⟩ := Result.bind_eq_ok.1 h
  cases h
  exact ⟨source, hsource, get?_insert_self⟩

/-- A later delta grows the source of its handle. -/
theorem appendIncrementalStream_eq_ok {source : ArrowIpcSource arrays}
    (hsource : get? runtime.sources handle = some (.incrementalStream source))
    (h : runtime.appendIncrementalStream model handle delta = .ok runtime') :
    ∃ source', source.appendStreamDelta model delta = .ok source' ∧
      get? runtime'.sources handle = some (.incrementalStream source') := by
  obtain ⟨_, _, h⟩ := Result.bind_eq_ok.1 h
  rw [hsource] at h
  dsimp only at h
  split_ifs at h
  obtain ⟨retainedBytes, _, h⟩ := Result.bind_eq_ok.1 h
  split_ifs at h
  obtain ⟨source', hsource', h⟩ := Result.bind_eq_ok.1 h
  cases h
  exact ⟨source', hsource', get?_insert_self⟩

end ArrowIpcRuntime

/-! ## Publishing -/

/-- A decoder of one column: the first call finds the schema, each later one a batch of one
    row. -/
def oneColumnDecoder : StreamDecoder listArrays ℕ where
  start := 0
  decode d _ :=
    if d = 0 then .ok (none, 1, [])
    else
      .ok (some ⟨[⟨[0x61], .plain "Int64", false⟩], 1, [[d]], rfl, by simp [listArrays]⟩, d + 1, [])
  schema d := if d = 0 then none else some [⟨[0x61], .plain "Int64", false⟩]
  finish _ := .ok ()
  turns _ bytes := bytes.length
  turns_lt d bytes batch d' rest hbytes h := by
    split_ifs at h <;> cases h <;> exact List.length_pos_iff.2 hbytes

/-- An open operation, the runtime that its deltas are published to, and the handle of its source
    from the first delta on. -/
structure Publication (arrays : ArrowArrays α ν) (δ : Type) where
  op : ArrowIpcOpenOperation arrays δ
  runtime : ArrowIpcRuntime arrays
  handle : Option ℕ := none

/-- A step before the end of the Stream: a chunk, or taking a delta. -/
inductive PublicationStep
  | feed (bytes : List UInt8)
  | take

namespace Publication

variable (verify : MessageVerifier) (model : SchemaModel) (decoder : StreamDecoder arrays δ)

/-- Registers or grows the source with a delta. -/
def publish (runtime : ArrowIpcRuntime arrays) (handle : Option ℕ)
    (delta : ArrowStreamDelta arrays) : Result (ArrowIpcRuntime arrays × ℕ) :=
  match handle with
  | none => runtime.openIncrementalStream model delta
  | some handle => do
    let runtime ← runtime.appendIncrementalStream model handle delta
    .ok (runtime, handle)

/-- One step; a delta that is taken is published. -/
def step (p : Publication arrays δ) : PublicationStep → Result (Publication arrays δ)
  | .feed bytes => do
    let fed ← p.op.feedStreamOwned verify model decoder bytes false
    .ok { p with op := fed.1 }
  | .take =>
    match p.op.takeStreamDelta decoder with
    | (op, none) => .ok { p with op }
    | (op, some delta) => do
      let published ← publish model p.runtime p.handle delta
      .ok ⟨op, published.1, some published.2⟩

/-- Steps one after the other. -/
def steps : Publication arrays δ → List PublicationStep → Result (Publication arrays δ)
  | p, [] => .ok p
  | p, s :: rest => do
    let next ← p.step verify model decoder s
    steps next rest

/-- Feeds the last chunk, and publishes what is left of the completed source. -/
def finish (p : Publication arrays δ) (bytes : List UInt8) :
    Result (Publication arrays δ × ArrowIpcSource arrays) := do
  let fed ← p.op.feedStreamOwned verify model decoder bytes true
  match fed.2 with
  | none => .error (.new .runtimeFailure "Arrow IPC Stream did not complete")
  | some source => do
    let taken ← fed.1.takeCompletedStreamDelta source
    let published ← publish model p.runtime p.handle taken.2
    .ok (⟨taken.1, published.1, some published.2⟩, source)

variable {verify model decoder} {p p' : Publication arrays δ}

/-- A handle has a source of some batches. -/
def Registered (runtime : ArrowIpcRuntime arrays) (batches : List (RecordBatch arrays))
    (handle : ℕ) : Prop :=
  ∃ source, get? runtime.sources handle = some (.incrementalStream source) ∧
    source.Indexes ∧ source.batches = batches

/-- What holds between the steps: the index of the Stream is consistent, and the source has the
    published batches of it. -/
structure Consistent (p : Publication arrays δ) (state : StreamIndexState arrays δ) : Prop where
  reading : p.op.state = .stream state
  indexes : state.Indexes
  published : p.op.publishedStreamBatches ≤ state.batches.length
  unpublished : p.handle = none → p.op.publishedStreamBatches = 0
  registered : ∀ handle, p.handle = some handle →
    Registered p.runtime (state.batches.take p.op.publishedStreamBatches) handle

/-- A published delta goes on where the source ends. -/
theorem publish_eq_ok {runtime runtime' : ArrowIpcRuntime arrays} {old : Option ℕ} {handle : ℕ}
    {delta : ArrowStreamDelta arrays} {before : List (RecordBatch arrays)}
    (hunpublished : old = none → before = [])
    (hregistered : ∀ handle, old = some handle → Registered runtime before handle)
    (h : publish model runtime old delta = .ok (runtime', handle)) :
    (∀ registered, old = some registered → handle = registered) ∧
    ∃ source, get? runtime'.sources handle = some (.incrementalStream source) ∧
      source.Indexes ∧ source.container = .stream ∧
      source.arrowSchema = delta.arrowSchema ∧ source.batches = before ++ delta.batches ∧
      source.limits = delta.options.limits ∧
      metadataOf model delta.arrowSchema (totalRows source.batches) delta.options.tableName
        delta.exact = .ok source.metadata := by
  cases old with
  | none =>
    obtain ⟨source, hsource, hget⟩ := ArrowIpcRuntime.openIncrementalStream_eq_ok h
    obtain ⟨hindexes, hcontainer, hschema, _, hbatches, hlimits, hmetadata⟩ :=
      ArrowIpcSource.fromStreamDelta_eq_ok hsource
    refine ⟨fun registered hnone => ?_, source, hget, hindexes, hcontainer, hschema, ?_, hlimits,
      ?_⟩
    · cases hnone
    · rw [hunpublished rfl, hbatches, List.nil_append]
    · rw [hbatches]
      exact hmetadata
  | some old =>
    obtain ⟨previous, hprevious, hindexed, hbefore⟩ := hregistered old rfl
    obtain ⟨grown, happend, h⟩ := Result.bind_eq_ok.1 h
    cases h
    obtain ⟨source, hsource, hget⟩ :=
      ArrowIpcRuntime.appendIncrementalStream_eq_ok hprevious happend
    obtain ⟨hindexes, hcontainer, hschema, _, hbatches, hlimits, hmetadata⟩ :=
      ArrowIpcSource.appendStreamDelta_eq_ok hindexed hsource
    refine ⟨fun registered hsame => Option.some.inj hsame, source, hget, hindexes, hcontainer,
      hschema, ?_, hlimits, hmetadata⟩
    rw [hbatches, hbefore]

/-- A step reads on, or publishes what is read. -/
structure Leads (p : Publication arrays δ) (state : StreamIndexState arrays δ)
    (p' : Publication arrays δ) (state' : StreamIndexState arrays δ) : Prop where
  consistent : p'.Consistent state'
  batches : state.batches <+: state'.batches
  handle : ∀ handle, p.handle = some handle → p'.handle = some handle

variable {state : StreamIndexState arrays δ}

theorem Consistent.leads (h : p.Consistent state) :
    p.Leads state p state :=
  ⟨h, List.prefix_rfl, fun _ hhandle => hhandle⟩

theorem Leads.trans {p'' : Publication arrays δ} {state state' state'' : StreamIndexState arrays δ}
    (h : p.Leads state p' state') (h' : p'.Leads state' p'' state'') :
    p.Leads state p'' state'' :=
  ⟨h'.consistent, h.batches.trans h'.batches, fun handle hhandle =>
    h'.handle handle (h.handle handle hhandle)⟩

/-- What is published does not change while a chunk is read. -/
theorem Consistent.feed {bytes : List UInt8}
    (h : p.Consistent state) (hstep : p.step verify model decoder (.feed bytes) = .ok p') :
    ∃ state', p.Leads state p' state' := by
  rw [step] at hstep
  obtain ⟨⟨op', completed⟩, hfeed, hstep⟩ := Result.bind_eq_ok.1 hstep
  cases hstep
  obtain ⟨state', hread, rfl⟩ := ArrowIpcOpenOperation.feedStreamOwned_eq_ok h.reading hfeed
  have hgrows := ArrowIpcOpenOperation.readChunk_grows h.indexes hread
  obtain ⟨more, hmore⟩ := hgrows.batches
  refine ⟨state', ⟨⟨rfl, hgrows.indexes, ?_, h.unpublished, fun handle hhandle => ?_⟩,
    hgrows.batches, fun _ hhandle => hhandle⟩⟩
  · exact h.published.trans hgrows.batches.length_le
  · dsimp only
    rw [← hmore, List.take_append_of_le_length h.published]
    exact h.registered handle hhandle

/-- Taking a delta publishes all that is read, unless there is nothing to publish. -/
theorem Consistent.take (h : p.Consistent state)
    (hstep : p.step verify model decoder .take = .ok p') : p.Leads state p' state := by
  rw [step] at hstep
  obtain hnone | ⟨schema, hsome⟩ := ArrowIpcOpenOperation.takeStreamDelta_cases decoder h.reading
  · rw [hnone] at hstep
    cases hstep
    exact h.leads
  · rw [hsome] at hstep
    obtain ⟨⟨runtime, handle⟩, hpublish, hstep⟩ := Result.bind_eq_ok.1 hstep
    cases hstep
    have hunpublished : p.handle = none →
        state.batches.take p.op.publishedStreamBatches = [] := fun hhandle => by
      rw [h.unpublished hhandle, List.take_zero]
    obtain ⟨hsame, source, hget, hindexes, _, _, hbatches, _, _⟩ :=
      publish_eq_ok hunpublished h.registered hpublish
    refine ⟨⟨h.reading, h.indexes, le_rfl, fun hnone => ?_, fun new hnew => ?_⟩,
      List.prefix_rfl, fun old hold => ?_⟩
    · cases hnone
    · cases hnew
      refine ⟨source, hget, hindexes, ?_⟩
      rw [hbatches]
      dsimp only
      rw [List.take_append_drop, List.take_length]
    · rw [hsame old hold]

theorem Consistent.step {s : PublicationStep}
    (h : p.Consistent state) (hstep : p.step verify model decoder s = .ok p') :
    ∃ state', p.Leads state p' state' := by
  cases s with
  | feed bytes => exact h.feed hstep
  | take => exact ⟨state, h.take hstep⟩

/-- A run of steps leaves the source with the published batches. -/
theorem Consistent.steps {s : List PublicationStep}
    (h : p.Consistent state) (hsteps : p.steps verify model decoder s = .ok p') :
    ∃ state', p.Leads state p' state' := by
  induction s generalizing p state with
  | nil =>
    cases hsteps
    exact ⟨state, h.leads⟩
  | cons s rest ih =>
    rw [Publication.steps] at hsteps
    obtain ⟨next, hnext, hsteps⟩ := Result.bind_eq_ok.1 hsteps
    obtain ⟨state', hleads⟩ := h.step hnext
    obtain ⟨state'', hleads'⟩ := ih hleads.consistent hsteps
    exact ⟨state'', hleads.trans hleads'⟩

/-- The steps of a run are those of its parts. -/
theorem steps_append {before after : List PublicationStep} :
    p.steps verify model decoder (before ++ after) =
      (p.steps verify model decoder before).bind fun next =>
        next.steps verify model decoder after := by
  induction before generalizing p with
  | nil => rfl
  | cons s rest ih =>
    rw [List.cons_append, Publication.steps, Publication.steps]
    cases p.step verify model decoder s with
    | error e => rfl
    | ok next => exact ih

/-- The last delta makes the source the completed one. -/
theorem Consistent.finish {bytes : List UInt8}
    {source : ArrowIpcSource arrays} (h : p.Consistent state)
    (hfinish : p.finish verify model decoder bytes = .ok (p', source)) :
    ∃ handle, p'.handle = some handle ∧ (∀ old, p.handle = some old → handle = old) ∧
      get? p'.runtime.sources handle = some (.incrementalStream source) ∧
      source.Indexes ∧ state.batches <+: source.batches := by
  rw [Publication.finish] at hfinish
  obtain ⟨⟨op', completed⟩, hfeed, hfinish⟩ := Result.bind_eq_ok.1 hfinish
  obtain ⟨state', made, hread, hmade, rfl, rfl⟩ :=
    ArrowIpcOpenOperation.feedStreamOwned_eof_eq_ok h.reading hfeed
  have hgrows := ArrowIpcOpenOperation.readChunk_grows h.indexes hread
  obtain ⟨more, hmore⟩ := hgrows.batches
  obtain ⟨⟨op, delta⟩, htaken, hfinish⟩ := Result.bind_eq_ok.1 hfinish
  obtain ⟨⟨runtime, handle⟩, hpublish, hfinish⟩ := Result.bind_eq_ok.1 hfinish
  cases hfinish
  obtain ⟨schema, metadata, _, hmetadata, rfl⟩ :=
    ArrowIpcOpenOperation.completedSource_eq_ok hmade
  obtain rfl := ArrowIpcOpenOperation.takeCompletedStreamDelta_eq_ok htaken
  have hunpublished : p.handle = none →
      state'.batches.take p.op.publishedStreamBatches = [] := fun hhandle => by
    rw [h.unpublished hhandle, List.take_zero]
  have hregistered : ∀ handle, p.handle = some handle →
      Registered p.runtime (state'.batches.take p.op.publishedStreamBatches) handle := by
    rw [← hmore, List.take_append_of_le_length h.published]
    exact h.registered
  obtain ⟨hsame, registered, hget, hindexes, hcontainer, hschema, hbatches, hlimits,
    hmetadata'⟩ := publish_eq_ok hunpublished hregistered hpublish
  rw [List.take_append_drop] at hbatches
  have hregistered_eq : registered = {
      container := .stream
      arrowSchema := schema
      metadata
      batches := state'.batches
      rowOffsets := state'.rowOffsets
      decodedBytes := state'.decodedBytes
      limits := p.op.options.limits } := by
    rw [hbatches, ← hgrows.indexes.rows] at hmetadata'
    have hmetadata_eq : registered.metadata = metadata :=
      Except.ok.inj (hmetadata'.symm.trans hmetadata)
    have hoffsets := hindexes.rowOffsets
    have hdecoded := hindexes.decodedBytes
    rw [hbatches, ← hgrows.indexes.rowOffsets] at hoffsets
    rw [hbatches, ← hgrows.indexes.decodedBytes] at hdecoded
    obtain ⟨container, arrowSchema, metadata', batches, rowOffsets, decodedBytes, limits⟩ :=
      registered
    dsimp only at *
    subst hcontainer hschema hmetadata_eq hbatches hoffsets hdecoded hlimits
    rfl
  rw [hregistered_eq] at hget hindexes
  exact ⟨handle, rfl, hsame, hget, hindexes, hgrows.batches⟩

/-- A publication that has read nothing. -/
def start (decoder : StreamDecoder arrays δ) (options : ArrowIpcOptions)
    (runtime : ArrowIpcRuntime arrays) : Publication arrays δ where
  op := .new decoder options
  runtime

theorem start_consistent {options : ArrowIpcOptions} {runtime : ArrowIpcRuntime arrays} :
    (start decoder options runtime).Consistent { decoder := decoder.start } where
  reading := rfl
  indexes := ⟨rfl, rfl, rfl⟩
  published := le_rfl
  unpublished _ := rfl
  registered _ hhandle := by cases hhandle

/-- Whenever deltas are taken, the source that is registered at the end of the Stream is the
    completed one, and every earlier one has a beginning of its batches. -/
theorem publication_complete {options : ArrowIpcOptions} {runtime : ArrowIpcRuntime arrays}
    {s : List PublicationStep} {bytes : List UInt8} {source : ArrowIpcSource arrays}
    (hsteps : (start decoder options runtime).steps verify model decoder s = .ok p)
    (hfinish : p.finish verify model decoder bytes = .ok (p', source)) :
    ∃ handle, p'.handle = some handle ∧
      get? p'.runtime.sources handle = some (.incrementalStream source) ∧ source.Indexes ∧
      ∀ before q old, before <+: s →
        (start decoder options runtime).steps verify model decoder before = .ok q →
        q.handle = some old →
        old = handle ∧ ∃ earlier, get? q.runtime.sources old = some (.incrementalStream earlier) ∧
          earlier.Indexes ∧ earlier.batches <+: source.batches := by
  obtain ⟨state, hleads⟩ := start_consistent.steps hsteps
  obtain ⟨handle, hhandle, hsame, hget, hindexes, hbatches⟩ := hleads.consistent.finish hfinish
  refine ⟨handle, hhandle, hget, hindexes, ?_⟩
  rintro before q old ⟨after, rfl⟩ hbefore hold
  obtain ⟨earlierState, hearlier⟩ := start_consistent.steps hbefore
  rw [steps_append, hbefore] at hsteps
  obtain ⟨state', hlater⟩ := hearlier.consistent.steps hsteps
  obtain rfl : state' = state := by
    have hsame := hlater.consistent.reading.symm.trans hleads.consistent.reading
    exact OpenState.stream.inj hsame
  obtain ⟨earlier, hearlierGet, hearlierIndexes, hearlierBatches⟩ :=
    hearlier.consistent.registered old hold
  refine ⟨(hsame old (hlater.handle old hold)).symm, earlier, hearlierGet, hearlierIndexes, ?_⟩
  rw [hearlierBatches]
  exact (List.take_prefix _ _).trans (hlater.batches.trans hbatches)

theorem sixtyFour_le_usizeMax : 64 ≤ usizeMax := by decide

/-- A Stream of a schema and two chunks, with a delta taken after each of the first two. -/
def oneColumnRun : Result (Publication listArrays ℕ × ArrowIpcSource listArrays) := do
  let verify := fun _ _ => .ok ⟨.schema (some true), 0⟩
  let model := ⟨fun _ _ => .ok (), fun _ => .ok []⟩
  let limits := ⟨64, 64, 64, 64, 64, 64, 64, 64, 64, 64, sixtyFour_le_usizeMax⟩
  let p ← (start oneColumnDecoder ⟨"t", limits⟩ ⟨64, 1, 1, 0, [], []⟩).steps verify model
    oneColumnDecoder [.take, .feed [2, 0, 0, 0], .take, .feed [7, 7], .take, .take]
  p.finish verify model oneColumnDecoder [0, 0, 0, 0]

/-- The source of that Stream is registered. -/
theorem publication_complete_oneColumn :
    ∃ p source handle, oneColumnRun = .ok (p, source) ∧ p.handle = some handle ∧
      get? p.runtime.sources handle = some (.incrementalStream source) := by
  have hrun : ∃ out, oneColumnRun = .ok out := ⟨_, rfl⟩
  obtain ⟨⟨p', source⟩, hrun⟩ := hrun
  obtain ⟨p, hsteps, hfinish⟩ := Result.bind_eq_ok.1 hrun
  obtain ⟨handle, hhandle, hget, _⟩ := publication_complete hsteps hfinish
  exact ⟨p', source, handle, hrun, hhandle, hget⟩

end Publication

end Tabulark.Arrow
