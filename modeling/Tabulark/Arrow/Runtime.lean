import Tabulark.Arrow.Stream
import Tabulark.Lib.Update

/-!
# The registry of Arrow sources

The calls of the runtime update its registry in place. The bytes that it says it
retains are those of its sources, within the budget; tables refer to registered
sources; handles are not used again; and a call that fails changes nothing
(`registry_exact_and_atomic`).
-/

namespace Tabulark.Arrow

open OrderedMap Update

variable {α ν : Type} {arrays : ArrowArrays α ν}

/-! ## Calls -/

/-- The bytes that a source of the runtime retains. -/
def RuntimeSource.decodedBytes : RuntimeSource arrays → ℕ
  | .decoded source => source.decodedBytes
  | .incrementalFile _ => 0
  | .incrementalStream source => source.decodedBytes

/-- The error of a handle that is not open. -/
def closedHandle (kind : String) : TabularkError :=
  .new .handleClosed s!"Arrow {kind} handle is closed"

/-- A source that an open operation completed. -/
inductive OpenedArrowIpcSource (arrays : ArrowArrays α ν)
  | file (source : ArrowIndexedFileSource)
  | stream (source : ArrowIpcSource arrays)

namespace OpenedArrowIpcSource

/-- The limits of an opened source. -/
def limits : OpenedArrowIpcSource arrays → ArrowIpcLimits
  | file source => source.limits
  | stream source => source.limits

/-- The container of an opened source. -/
def container : OpenedArrowIpcSource arrays → ResolvedArrowIpcContainer
  | file _ => .file
  | stream _ => .stream

/-- An opened source in the registry. -/
def incremental : OpenedArrowIpcSource arrays → RuntimeSource arrays
  | file source => .incrementalFile source
  | stream source => .incrementalStream source

end OpenedArrowIpcSource

/-- Appends the batches of a later delta to a source in place. -/
def ArrowIpcSource.appendStreamDeltaIn (model : SchemaModel) (delta : ArrowStreamDelta arrays) :
    Update TabularkError (ArrowIpcSource arrays) ℕ := do
  let source ← read
  if source.container ≠ .stream then
    fail (.new .invalidArgument "only an Arrow IPC Stream source accepts batch deltas")
  else if delta.batchStart ≠ source.batches.length then
    fail (((TabularkError.new .invalidArgument
      "Arrow IPC Stream delta is missing, duplicate, or stale").withDetail
      "expectedBatchStart" (.number source.batches.length)).withDetail
      "actualBatchStart" (.number delta.batchStart))
  else if delta.arrowSchema ≠ source.arrowSchema ∨ delta.options.limits ≠ source.limits then
    fail (.new .invalidArgument "Arrow IPC Stream delta schema or limits changed")
  else do
    let indexed ← of (indexBatches source.arrowSchema
      "Arrow IPC record batch schema changed within one Stream delta" none delta.batches
      source.rows source.decodedBytes)
    if indexed.2.1 ≠ delta.cumulativeRows ∨ indexed.2.2 ≠ delta.cumulativeDecodedBytes then
      fail (inconsistentDelta delta indexed.2.1 indexed.2.2)
    else if source.limits.maxDecodedBytes < indexed.2.2 then
      fail (decodedLimitExceeded indexed.2.2 source.limits)
    else do
      let metadata ← of (metadataOf model source.arrowSchema indexed.2.1
        delta.options.tableName delta.exact)
      if indexed.2.2 < source.decodedBytes then
        fail (.new .runtimeFailure "Arrow IPC Stream decoded-byte accounting underflows")
      else do
        assign fun source => { source with batches := source.batches ++ delta.batches }
        assign fun source => { source with rowOffsets := source.rowOffsets ++ indexed.1 }
        assign fun source => { source with decodedBytes := indexed.2.2 }
        assign fun source => { source with metadata }
        pure (indexed.2.2 - source.decodedBytes)

namespace ArrowIpcRuntime

variable (model : SchemaModel)

/-- The next handle; every handle is allocated once. -/
def allocateHandle : Update TabularkError (ArrowIpcRuntime arrays) ℕ := do
  let runtime ← read
  let handle := runtime.nextHandle
  let nextHandle ← of (checkedAdd u32Max runtime.nextHandle 1
    (.new .resourceLimit "Arrow runtime handle space exhausted"))
  assign fun runtime => { runtime with nextHandle }
  pure handle

/-- Registers a source. -/
def registerSource (source : RuntimeSource arrays) :
    Update TabularkError (ArrowIpcRuntime arrays) ℕ := do
  let runtime ← read
  if runtime.maxSources ≤ runtime.sources.length then
    fail ((TabularkError.new .resourceLimit
      "Arrow runtime has reached its open-source limit").withDetail
      "maxSources" (.number runtime.maxSources))
  else do
    let retainedBytes ← of (checkedAdd usizeMax runtime.retainedBytes source.decodedBytes
      (.new .resourceLimit "Arrow runtime memory estimate overflows"))
    if runtime.memoryBudgetBytes < retainedBytes then
      fail (budgetExceeded retainedBytes runtime.memoryBudgetBytes)
    else do
      let handle ← allocateHandle
      assign fun runtime => { runtime with retainedBytes }
      assign fun runtime => { runtime with sources := insert runtime.sources handle source }
      pure handle

/-- Decodes and registers one source; `decode` reads its bytes. -/
def openSource (decode : List UInt8 → ArrowIpcOptions → Result (ArrowIpcSource arrays))
    (bytes : List UInt8) (options : ArrowIpcOptions) :
    Update TabularkError (ArrowIpcRuntime arrays) ℕ := do
  let runtime ← read
  if runtime.maxSources ≤ runtime.sources.length then
    fail ((TabularkError.new .resourceLimit
      "Arrow runtime has reached its open-source limit").withDetail
      "maxSources" (.number runtime.maxSources))
  else do
    of (options.limits.validateForMemoryBudget runtime.memoryBudgetBytes)
    let source ← of (decode bytes options)
    registerSource (.decoded source)

/-- Registers a source completed by an open operation. -/
def openIncrementalSource (source : OpenedArrowIpcSource arrays) :
    Update TabularkError (ArrowIpcRuntime arrays) ℕ := do
  let runtime ← read
  of (source.limits.validateForMemoryBudget runtime.memoryBudgetBytes)
  registerSource source.incremental

/-- Registers the first published batches of a Stream. -/
def openIncrementalStreamIn (delta : ArrowStreamDelta arrays) :
    Update TabularkError (ArrowIpcRuntime arrays) ℕ := do
  let runtime ← read
  of (delta.options.limits.validateForMemoryBudget runtime.memoryBudgetBytes)
  let source ← of (ArrowIpcSource.fromStreamDelta model delta)
  registerSource (.incrementalStream source)

/-- An update of the Stream source of a handle, where it is registered. -/
def onStream {β : Type} (handle : ℕ) (update : Update TabularkError (ArrowIpcSource arrays) β) :
    Update TabularkError (ArrowIpcRuntime arrays) β := fun runtime =>
  match get? runtime.sources handle with
  | some (.incrementalStream source) =>
    ((update.on source).1, { runtime with
      sources := insert runtime.sources handle (.incrementalStream (update.on source).2) })
  | _ => (.error (closedHandle "source"), runtime)

/-- Appends newly decoded batches of a Stream. -/
def appendIncrementalStreamIn (handle : ℕ) (delta : ArrowStreamDelta arrays) :
    Update TabularkError (ArrowIpcRuntime arrays) Unit := do
  let runtime ← read
  of (delta.options.limits.validateForMemoryBudget runtime.memoryBudgetBytes)
  match get? runtime.sources handle with
  | none => fail (closedHandle "source")
  | some (.incrementalStream previous) =>
    if delta.cumulativeDecodedBytes < previous.decodedBytes then
      fail (.new .invalidArgument "Arrow IPC Stream delta decoded-byte total is stale")
    else do
      let retainedBytes ← of (checkedAdd usizeMax runtime.retainedBytes
        (delta.cumulativeDecodedBytes - previous.decodedBytes)
        (.new .resourceLimit "Arrow runtime memory estimate overflows"))
      if runtime.memoryBudgetBytes < retainedBytes then
        fail (budgetExceeded retainedBytes runtime.memoryBudgetBytes)
      else do
        let _ ← onStream handle (ArrowIpcSource.appendStreamDeltaIn model delta)
        assign fun runtime => { runtime with retainedBytes }
  | some _ =>
    fail (.new .invalidArgument
      "only a progressively opened Arrow IPC Stream accepts batch deltas")

/-- Replaces the source of a Stream under its handle. -/
def replaceIncrementalSource (handle : ℕ) (source : OpenedArrowIpcSource arrays) :
    Update TabularkError (ArrowIpcRuntime arrays) Unit := do
  let runtime ← read
  of (source.limits.validateForMemoryBudget runtime.memoryBudgetBytes)
  if source.container ≠ .stream then
    fail (.new .invalidArgument "only an Arrow IPC Stream prefix can replace an open source")
  else
    match get? runtime.sources handle with
    | none => fail (closedHandle "source")
    | some (.incrementalStream previous) =>
      if runtime.retainedBytes < previous.decodedBytes then
        fail (.new .runtimeFailure "Arrow runtime retained-memory estimate is inconsistent")
      else do
        let retainedBytes ← of (checkedAdd usizeMax
          (runtime.retainedBytes - previous.decodedBytes) source.incremental.decodedBytes
          (.new .resourceLimit "Arrow runtime memory estimate overflows"))
        if runtime.memoryBudgetBytes < retainedBytes then
          fail (budgetExceeded retainedBytes runtime.memoryBudgetBytes)
        else do
          assign fun runtime =>
            { runtime with sources := insert runtime.sources handle source.incremental }
          assign fun runtime => { runtime with retainedBytes }
    | some _ =>
      fail (.new .invalidArgument
        "only a progressively opened Arrow IPC Stream can be replaced")

/-- Opens the sole table of a source. -/
def openTable (source : ℕ) (tableId : String) :
    Update TabularkError (ArrowIpcRuntime arrays) ℕ := do
  let runtime ← read
  if tableId ≠ "table-0" then
    fail (.new .invalidArgument "Arrow IPC source exposes only table-0")
  else if (get? runtime.sources source).isNone then fail (closedHandle "source")
  else do
    let handle ← allocateHandle
    assign fun runtime => { runtime with tables := insert runtime.tables handle source }
    pure handle

/-- Closes a table, if it is open. -/
def closeTable (table : ℕ) : Update TabularkError (ArrowIpcRuntime arrays) Bool := do
  let runtime ← read
  assign fun runtime => { runtime with tables := erase runtime.tables table }
  pure (get? runtime.tables table).isSome

/-- Closes a source, if it is open, and its tables. -/
def closeSource (source : ℕ) : Update TabularkError (ArrowIpcRuntime arrays) Bool := do
  let runtime ← read
  match get? runtime.sources source with
  | none => pure false
  | some value => do
    assign fun runtime => { runtime with sources := erase runtime.sources source }
    assign fun runtime =>
      { runtime with retainedBytes := runtime.retainedBytes - value.decodedBytes }
    assign fun runtime => { runtime with tables := runtime.tables.filter fun e => e.2 ≠ source }
    pure true

/-- Closes everything. -/
def shutdown : Update TabularkError (ArrowIpcRuntime arrays) Unit := do
  assign fun runtime => { runtime with tables := [] }
  assign fun runtime => { runtime with sources := [] }
  assign fun runtime => { runtime with retainedBytes := 0 }

/-! ## Runs -/

/-- A call of the runtime. -/
inductive Call (arrays : ArrowArrays α ν)
  | openSource (bytes : List UInt8) (options : ArrowIpcOptions)
  | openIncrementalSource (source : OpenedArrowIpcSource arrays)
  | openIncrementalStream (delta : ArrowStreamDelta arrays)
  | appendIncrementalStream (handle : ℕ) (delta : ArrowStreamDelta arrays)
  | replaceIncrementalSource (handle : ℕ) (source : OpenedArrowIpcSource arrays)
  | openTable (source : ℕ) (tableId : String)
  | closeTable (table : ℕ)
  | closeSource (source : ℕ)
  | shutdown

variable (decode : List UInt8 → ArrowIpcOptions → Result (ArrowIpcSource arrays))

/-- The handle that a call returns, if it opens something. -/
def handled (update : Update TabularkError (ArrowIpcRuntime arrays) ℕ) :
    Update TabularkError (ArrowIpcRuntime arrays) (Option ℕ) := do
  let handle ← update
  pure (some handle)

/-- A call that returns no handle. -/
def unhandled {β : Type} (update : Update TabularkError (ArrowIpcRuntime arrays) β) :
    Update TabularkError (ArrowIpcRuntime arrays) (Option ℕ) := do
  let _ ← update
  pure none

/-- What a call does. -/
def Call.perform : Call arrays → Update TabularkError (ArrowIpcRuntime arrays) (Option ℕ)
  | .openSource bytes options => handled (ArrowIpcRuntime.openSource decode bytes options)
  | .openIncrementalSource source => handled (ArrowIpcRuntime.openIncrementalSource source)
  | .openIncrementalStream delta => handled (openIncrementalStreamIn model delta)
  | .appendIncrementalStream handle delta =>
    unhandled (appendIncrementalStreamIn model handle delta)
  | .replaceIncrementalSource handle source =>
    unhandled (ArrowIpcRuntime.replaceIncrementalSource handle source)
  | .openTable source tableId => handled (ArrowIpcRuntime.openTable source tableId)
  | .closeTable table => unhandled (ArrowIpcRuntime.closeTable table)
  | .closeSource source => unhandled (ArrowIpcRuntime.closeSource source)
  | .shutdown => unhandled ArrowIpcRuntime.shutdown

/-- The runtime after some calls. -/
def run : ArrowIpcRuntime arrays → List (Call arrays) → ArrowIpcRuntime arrays
  | runtime, [] => runtime
  | runtime, call :: calls => run ((call.perform model decode).on runtime).2 calls

/-- The handle of a call. -/
def issued : Except TabularkError (Option ℕ) → List ℕ
  | .ok (some handle) => [handle]
  | _ => []

/-- The handles that some calls issue. -/
def handles : ArrowIpcRuntime arrays → List (Call arrays) → List ℕ
  | _, [] => []
  | runtime, call :: calls =>
    issued ((call.perform model decode).on runtime).1 ++
      handles ((call.perform model decode).on runtime).2 calls

/-- A runtime without sources. -/
def new (memoryBudgetBytes maxSources : ℕ) : Result (ArrowIpcRuntime arrays) :=
  if memoryBudgetBytes = 0 ∨ maxSources = 0 then
    .error (.new .invalidArgument "Arrow runtime resource limits must be greater than zero")
  else .ok { memoryBudgetBytes, maxSources }

end ArrowIpcRuntime

/-! ## What the calls do -/

variable {delta : ArrowStreamDelta arrays}

/-- In place, a delta is appended as a whole or not at all. -/
theorem ArrowIpcSource.appendStreamDeltaIn_on {model : SchemaModel}
    {source : ArrowIpcSource arrays} :
    (∃ error, (appendStreamDeltaIn model delta).on source = (.error error, source)) ∨
    ∃ source', source.appendStreamDelta model delta = .ok source' ∧
      source'.decodedBytes = delta.cumulativeDecodedBytes ∧
      source.decodedBytes ≤ source'.decodedBytes ∧
      (appendStreamDeltaIn model delta).on source =
        (.ok (source'.decodedBytes - source.decodedBytes), source') := by
  rw [appendStreamDeltaIn, on_read_bind, appendStreamDelta]
  split_ifs
  · exact .inl ⟨_, rfl⟩
  · exact .inl ⟨_, rfl⟩
  · exact .inl ⟨_, rfl⟩
  cases hindexed : indexBatches source.arrowSchema
    "Arrow IPC record batch schema changed within one Stream delta" none delta.batches
    source.rows source.decodedBytes with
  | error error => exact .inl ⟨error, rfl⟩
  | ok indexed =>
    rw [on_ok_bind, Result.ok_bind]
    by_cases htotals : indexed.2.1 ≠ delta.cumulativeRows ∨
        indexed.2.2 ≠ delta.cumulativeDecodedBytes
    · rw [if_pos htotals]
      exact .inl ⟨_, rfl⟩
    by_cases hlimit : source.limits.maxDecodedBytes < indexed.2.2
    · rw [if_neg htotals, if_pos hlimit]
      exact .inl ⟨_, rfl⟩
    rw [if_neg htotals, if_neg hlimit, if_neg htotals, if_neg hlimit]
    push Not at htotals
    cases metadataOf model source.arrowSchema indexed.2.1 delta.options.tableName delta.exact with
    | error error => exact .inl ⟨error, rfl⟩
    | ok metadata =>
      have hle : source.decodedBytes ≤ indexed.2.2 := by
        rw [indexBatches_eq_ok hindexed]
        exact Nat.le_add_right _ _
      rw [on_ok_bind, Result.ok_bind, if_neg hle.not_gt]
      exact .inr ⟨_, rfl, htotals.2, hle, rfl⟩

namespace ArrowIpcRuntime

variable {model : SchemaModel}
    {decode : List UInt8 → ArrowIpcOptions → Result (ArrowIpcSource arrays)}
  {runtime : ArrowIpcRuntime arrays}

/-- The bytes that some sources retain. -/
def sourceBytes (sources : List (ℕ × RuntimeSource arrays)) : ℕ :=
  (sources.map fun e => e.2.decodedBytes).sum

/-- The registry is consistent. -/
structure Accounted (runtime : ArrowIpcRuntime arrays) : Prop where
  ordered : Ordered runtime.sources
  below : ∀ e ∈ runtime.sources, e.1 < runtime.nextHandle
  retained : runtime.retainedBytes = sourceBytes runtime.sources
  within : runtime.retainedBytes ≤ runtime.memoryBudgetBytes
  tables : ∀ t ∈ runtime.tables, ∃ source, get? runtime.sources t.2 = some source

theorem allocateHandle_on :
    (∃ error, allocateHandle.on runtime = (.error error, runtime)) ∨
    allocateHandle.on runtime =
      (.ok runtime.nextHandle, { runtime with nextHandle := runtime.nextHandle + 1 }) := by
  rw [allocateHandle, on_read_bind]
  dsimp only
  by_cases hle : runtime.nextHandle + 1 ≤ u32Max
  · rw [checkedAdd_of_le hle]
    exact .inr rfl
  · rw [checkedAdd, if_neg hle]
    exact .inl ⟨_, rfl⟩

/-- The runtime with a new source. -/
def withSource (runtime : ArrowIpcRuntime arrays) (source : RuntimeSource arrays) :
    ArrowIpcRuntime arrays :=
  { runtime with
    nextHandle := runtime.nextHandle + 1
    retainedBytes := runtime.retainedBytes + source.decodedBytes
    sources := insert runtime.sources runtime.nextHandle source }

variable {source : RuntimeSource arrays}

theorem registerSource_on :
    (∃ error, (registerSource source).on runtime = (.error error, runtime)) ∨
    (runtime.retainedBytes + source.decodedBytes ≤ runtime.memoryBudgetBytes ∧
      (registerSource source).on runtime =
        (.ok runtime.nextHandle, runtime.withSource source)) := by
  rw [registerSource, on_read_bind]
  split_ifs
  · exact .inl ⟨_, rfl⟩
  by_cases hle : runtime.retainedBytes + source.decodedBytes ≤ usizeMax
  · rw [checkedAdd_of_le hle, on_ok_bind]
    split_ifs with hbudget
    · exact .inl ⟨_, rfl⟩
    · rcases @allocateHandle_on _ _ _ runtime with ⟨error, hallocate⟩ | hallocate
      · rw [on_bind_of_error hallocate]
        exact .inl ⟨error, rfl⟩
      · rw [on_bind_of_ok hallocate]
        exact .inr ⟨not_lt.1 hbudget, rfl⟩
  · rw [checkedAdd, if_neg hle]
    exact .inl ⟨_, rfl⟩

theorem Accounted.get?_nextHandle (h : runtime.Accounted) :
    get? runtime.sources runtime.nextHandle = none := by
  cases hget : get? runtime.sources runtime.nextHandle with
  | none => rfl
  | some source => exact absurd (h.below _ (mem_of_get? hget)) (lt_irrefl _)

theorem Accounted.withSource (h : runtime.Accounted)
    (hbudget : runtime.retainedBytes + source.decodedBytes ≤ runtime.memoryBudgetBytes) :
    (runtime.withSource source).Accounted := by
  have hnew := h.get?_nextHandle
  refine ⟨h.ordered.insert _ _, fun e he => ?_, ?_, hbudget, fun t ht => ?_⟩
  · rcases mem_insert.1 he with rfl | ⟨he, _⟩
    · exact Nat.lt_succ_self _
    · exact (h.below e he).trans (Nat.lt_succ_self _)
  · change runtime.retainedBytes + source.decodedBytes = sourceBytes (insert _ _ _)
    rw [sourceBytes, sum_insert, erase_eq_self hnew, h.retained, Nat.add_comm]
    rfl
  · obtain ⟨owner, howner⟩ := h.tables t ht
    have hne : t.2 ≠ runtime.nextHandle := fun heq => by
      rw [heq, hnew] at howner
      cases howner
    exact ⟨owner, (get?_insert_of_ne hne).trans howner⟩

/-- The runtime with another value for a registered source. -/
theorem Accounted.replaceSource (h : runtime.Accounted) {handle retainedBytes : ℕ}
    {previous source : RuntimeSource arrays} (hget : get? runtime.sources handle = some previous)
    (hretained : retainedBytes + previous.decodedBytes =
      runtime.retainedBytes + source.decodedBytes)
    (hbudget : retainedBytes ≤ runtime.memoryBudgetBytes) :
    Accounted { runtime with
      retainedBytes
      sources := insert runtime.sources handle source } := by
  have hsum := @sum_erase _ _ _ _ _ _ (fun e => e.2.decodedBytes) h.ordered hget
  refine ⟨h.ordered.insert _ _, fun e he => ?_, ?_, hbudget, fun t ht => ?_⟩
  · have hlt := h.below _ (mem_of_get? hget)
    rcases mem_insert.1 he with rfl | ⟨he, _⟩
    · exact hlt
    · exact h.below e he
  · dsimp only
    have hretained' := h.retained
    rw [sourceBytes] at hretained' ⊢
    rw [sum_insert]
    dsimp only at hsum ⊢
    omega
  · obtain ⟨owner, howner⟩ := h.tables t ht
    by_cases hsame : t.2 = handle
    · exact ⟨source, by rw [hsame]; exact get?_insert_self⟩
    · exact ⟨owner, (get?_insert_of_ne hsame).trans howner⟩

/-- What a call that issues a handle does: it fails and changes nothing, or it issues the next
    one. -/
def Issues (runtime : ArrowIpcRuntime arrays)
    (performed : Except TabularkError ℕ × ArrowIpcRuntime arrays) : Prop :=
  (∃ error, performed = (.error error, runtime)) ∨
  performed.1 = .ok runtime.nextHandle ∧ performed.2.Accounted ∧
    performed.2.nextHandle = runtime.nextHandle + 1 ∧
    performed.2.memoryBudgetBytes = runtime.memoryBudgetBytes

/-- What a call that issues no handle does: it fails and changes nothing, or it succeeds. -/
def Updates {β : Type} (runtime : ArrowIpcRuntime arrays)
    (performed : Except TabularkError β × ArrowIpcRuntime arrays) : Prop :=
  (∃ error, performed = (.error error, runtime)) ∨
  (∃ b, performed.1 = .ok b) ∧ performed.2.Accounted ∧
    performed.2.nextHandle = runtime.nextHandle ∧
    performed.2.memoryBudgetBytes = runtime.memoryBudgetBytes

theorem Accounted.register (h : runtime.Accounted) :
    runtime.Issues ((registerSource source).on runtime) := by
  rcases @registerSource_on _ _ _ runtime source with ⟨error, hregister⟩ | ⟨hbudget, hregister⟩
  · rw [hregister]
    exact .inl ⟨error, rfl⟩
  · rw [hregister]
    exact .inr ⟨rfl, h.withSource hbudget, rfl, rfl⟩

theorem Accounted.openSource (h : runtime.Accounted) {bytes : List UInt8}
    {options : ArrowIpcOptions} :
    runtime.Issues ((ArrowIpcRuntime.openSource decode bytes options).on runtime) := by
  rw [ArrowIpcRuntime.openSource, on_read_bind]
  by_cases hfull : runtime.maxSources ≤ runtime.sources.length
  · rw [if_pos hfull]
    exact .inl ⟨_, rfl⟩
  · rw [if_neg hfull]
    exact on_of_bind_cases (fun e _ => .inl ⟨e, rfl⟩) fun _ _ =>
      on_of_bind_cases (fun e _ => .inl ⟨e, rfl⟩) fun _ _ => h.register

theorem Accounted.openIncrementalSource (h : runtime.Accounted)
    {source : OpenedArrowIpcSource arrays} :
    runtime.Issues ((ArrowIpcRuntime.openIncrementalSource source).on runtime) := by
  rw [ArrowIpcRuntime.openIncrementalSource, on_read_bind]
  exact on_of_bind_cases (fun e _ => .inl ⟨e, rfl⟩) fun _ _ => h.register

theorem Accounted.openIncrementalStream (h : runtime.Accounted) :
    runtime.Issues ((openIncrementalStreamIn model delta).on runtime) := by
  rw [openIncrementalStreamIn, on_read_bind]
  exact on_of_bind_cases (fun e _ => .inl ⟨e, rfl⟩) fun _ _ =>
    on_of_bind_cases (fun e _ => .inl ⟨e, rfl⟩) fun _ _ => h.register

theorem Accounted.openTable (h : runtime.Accounted) {source : ℕ} {tableId : String} :
    runtime.Issues ((ArrowIpcRuntime.openTable source tableId).on runtime) := by
  rw [ArrowIpcRuntime.openTable, on_read_bind]
  by_cases hid : tableId ≠ "table-0"
  · rw [if_pos hid]
    exact .inl ⟨_, rfl⟩
  rw [if_neg hid]
  cases hget : get? runtime.sources source with
  | none => exact .inl ⟨_, rfl⟩
  | some value =>
    rw [if_neg (by simp)]
    rcases @allocateHandle_on _ _ _ runtime with ⟨error, hallocate⟩ | hallocate
    · rw [on_bind_of_error hallocate]
      exact .inl ⟨error, rfl⟩
    · rw [on_bind_of_ok hallocate]
      refine .inr ⟨rfl, ⟨h.ordered, fun e he => (h.below e he).trans (Nat.lt_succ_self _),
        h.retained, h.within, fun t ht => ?_⟩, rfl, rfl⟩
      rcases mem_insert.1 ht with rfl | ⟨ht, _⟩
      · exact ⟨value, hget⟩
      · exact h.tables t ht

theorem onStream_on {β : Type} {handle : ℕ}
    {update : Update TabularkError (ArrowIpcSource arrays) β} {source : ArrowIpcSource arrays}
    (hget : get? runtime.sources handle = some (.incrementalStream source)) :
    (onStream handle update).on runtime = ((update.on source).1, { runtime with
      sources := insert runtime.sources handle (.incrementalStream (update.on source).2) }) := by
  change (match get? runtime.sources handle with
    | some (.incrementalStream source) => ((update.on source).1, { runtime with
        sources := insert runtime.sources handle (.incrementalStream (update.on source).2) })
    | _ => (.error (closedHandle "source"), runtime)) = _
  rw [hget]

theorem Accounted.appendIncrementalStream (h : runtime.Accounted) {handle : ℕ} :
    runtime.Updates ((appendIncrementalStreamIn model handle delta).on runtime) := by
  rw [appendIncrementalStreamIn, on_read_bind]
  refine on_of_bind_cases (fun e _ => .inl ⟨e, rfl⟩) fun _ _ => ?_
  cases hget : get? runtime.sources handle with
  | none => exact .inl ⟨_, rfl⟩
  | some value =>
    cases value with
    | decoded source => exact .inl ⟨_, rfl⟩
    | incrementalFile source => exact .inl ⟨_, rfl⟩
    | incrementalStream previous =>
      dsimp only
      by_cases hstale : delta.cumulativeDecodedBytes < previous.decodedBytes
      · rw [if_pos hstale]
        exact .inl ⟨_, rfl⟩
      rw [if_neg hstale]
      refine on_of_bind_cases (fun e _ => .inl ⟨e, rfl⟩) fun retainedBytes hretained => ?_
      rw [checkedAdd] at hretained
      split_ifs at hretained
      cases hretained
      by_cases hbudget : runtime.memoryBudgetBytes <
          runtime.retainedBytes + (delta.cumulativeDecodedBytes - previous.decodedBytes)
      · rw [if_pos hbudget]
        exact .inl ⟨_, rfl⟩
      rw [if_neg hbudget]
      rcases @ArrowIpcSource.appendStreamDeltaIn_on _ _ _ delta model previous with
        ⟨error, happend⟩ | ⟨source', _, hbytes, _, happend⟩
      · -- The failed append leaves the registered source as it is.
        have hon : (onStream handle (ArrowIpcSource.appendStreamDeltaIn model delta)).on runtime =
            (.error error, runtime) := by
          rw [onStream_on hget, happend, insert_eq_self h.ordered hget]
        rw [on_bind_of_error hon]
        exact .inl ⟨error, rfl⟩
      · have hon : (onStream handle (ArrowIpcSource.appendStreamDeltaIn model delta)).on runtime =
            (.ok (source'.decodedBytes - previous.decodedBytes), { runtime with
              sources := insert runtime.sources handle (.incrementalStream source') }) := by
          rw [onStream_on hget, happend]
        rw [on_bind_of_ok hon]
        refine .inr ⟨⟨(), rfl⟩, h.replaceSource hget ?_ (not_lt.1 hbudget), rfl, rfl⟩
        change runtime.retainedBytes + (delta.cumulativeDecodedBytes - previous.decodedBytes) +
          previous.decodedBytes = runtime.retainedBytes + source'.decodedBytes
        omega

theorem Accounted.replaceIncrementalSource (h : runtime.Accounted) {handle : ℕ}
    {source : OpenedArrowIpcSource arrays} :
    runtime.Updates ((ArrowIpcRuntime.replaceIncrementalSource handle source).on runtime) := by
  rw [ArrowIpcRuntime.replaceIncrementalSource, on_read_bind]
  refine on_of_bind_cases (fun e _ => .inl ⟨e, rfl⟩) fun _ _ => ?_
  by_cases hcontainer : source.container ≠ .stream
  · rw [if_pos hcontainer]
    exact .inl ⟨_, rfl⟩
  rw [if_neg hcontainer]
  cases hget : get? runtime.sources handle with
  | none => exact .inl ⟨_, rfl⟩
  | some value =>
    cases value with
    | decoded source => exact .inl ⟨_, rfl⟩
    | incrementalFile source => exact .inl ⟨_, rfl⟩
    | incrementalStream previous =>
      dsimp only
      by_cases hless : runtime.retainedBytes < previous.decodedBytes
      · rw [if_pos hless]
        exact .inl ⟨_, rfl⟩
      rw [if_neg hless]
      refine on_of_bind_cases (fun e _ => .inl ⟨e, rfl⟩) fun retainedBytes hretained => ?_
      rw [checkedAdd] at hretained
      split_ifs at hretained
      cases hretained
      by_cases hbudget : runtime.memoryBudgetBytes <
          runtime.retainedBytes - previous.decodedBytes + source.incremental.decodedBytes
      · rw [if_pos hbudget]
        exact .inl ⟨_, rfl⟩
      rw [if_neg hbudget]
      refine .inr ⟨⟨(), rfl⟩, h.replaceSource hget ?_ (not_lt.1 hbudget), rfl, rfl⟩
      change runtime.retainedBytes - previous.decodedBytes + source.incremental.decodedBytes +
        previous.decodedBytes = runtime.retainedBytes + source.incremental.decodedBytes
      omega

theorem Accounted.closeTable (h : runtime.Accounted) {table : ℕ} :
    runtime.Updates ((ArrowIpcRuntime.closeTable table).on runtime) :=
  .inr ⟨⟨_, rfl⟩, ⟨h.ordered, h.below, h.retained, h.within, fun t ht =>
    h.tables t (mem_erase.1 ht).1⟩, rfl, rfl⟩

theorem Accounted.closeSource (h : runtime.Accounted) {source : ℕ} :
    runtime.Updates ((ArrowIpcRuntime.closeSource source).on runtime) := by
  rw [ArrowIpcRuntime.closeSource, on_read_bind]
  cases hget : get? runtime.sources source with
  | none => exact .inr ⟨⟨false, rfl⟩, h, rfl, rfl⟩
  | some value =>
    have hsum := @sum_erase _ _ _ _ _ _ (fun e => e.2.decodedBytes) h.ordered hget
    have hretained := h.retained
    rw [sourceBytes] at hretained
    dsimp only at hsum
    refine .inr ⟨⟨true, rfl⟩, ⟨h.ordered.erase _, fun e he => h.below e (mem_erase.1 he).1, ?_,
      (Nat.sub_le _ _).trans h.within, fun t ht => ?_⟩, rfl, rfl⟩
    · change runtime.retainedBytes - value.decodedBytes = sourceBytes (erase _ _)
      rw [sourceBytes]
      omega
    · obtain ⟨ht, hne⟩ := List.mem_filter.1 ht
      obtain ⟨owner, howner⟩ := h.tables t ht
      exact ⟨owner, (get?_erase_of_ne (of_decide_eq_true hne)).trans howner⟩

theorem accounted_of_nil (hsources : runtime.sources = []) (htables : runtime.tables = [])
    (hretained : runtime.retainedBytes = 0) : runtime.Accounted where
  ordered := hsources ▸ List.Pairwise.nil
  below e he := absurd (hsources ▸ he) List.not_mem_nil
  retained := by
    rw [hretained, hsources]
    rfl
  within := hretained ▸ Nat.zero_le _
  tables t ht := absurd (htables ▸ ht) List.not_mem_nil

theorem shutdown_updates : runtime.Updates (ArrowIpcRuntime.shutdown.on runtime) := by
  rw [ArrowIpcRuntime.shutdown, on_assign_bind, on_assign_bind, on_assign]
  exact .inr ⟨⟨(), rfl⟩, accounted_of_nil rfl rfl rfl, rfl, rfl⟩

/-! ## Runs of calls -/

/-- What a call does to the registry. -/
def Performed (runtime : ArrowIpcRuntime arrays)
    (performed : Except TabularkError (Option ℕ) × ArrowIpcRuntime arrays) : Prop :=
  (∃ error, performed = (.error error, runtime)) ∨
  performed.2.Accounted ∧ performed.2.memoryBudgetBytes = runtime.memoryBudgetBytes ∧
    (performed.1 = .ok (some runtime.nextHandle) ∧
        performed.2.nextHandle = runtime.nextHandle + 1 ∨
      performed.1 = .ok none ∧ performed.2.nextHandle = runtime.nextHandle)

theorem Issues.handled {update : Update TabularkError (ArrowIpcRuntime arrays) ℕ}
    (h : runtime.Issues (update.on runtime)) :
    runtime.Performed ((ArrowIpcRuntime.handled update).on runtime) := by
  rw [ArrowIpcRuntime.handled, on_bind]
  generalize update.on runtime = performed at h ⊢
  obtain ⟨out, runtime'⟩ := performed
  rcases h with ⟨error, h⟩ | ⟨hout, haccounted, hnext, hbudget⟩
  · cases h
    exact .inl ⟨error, rfl⟩
  · dsimp only at hout haccounted hnext hbudget
    subst hout
    exact .inr ⟨haccounted, hbudget, .inl ⟨rfl, hnext⟩⟩

theorem Updates.unhandled {β : Type} {update : Update TabularkError (ArrowIpcRuntime arrays) β}
    (h : runtime.Updates (update.on runtime)) :
    runtime.Performed ((ArrowIpcRuntime.unhandled update).on runtime) := by
  rw [ArrowIpcRuntime.unhandled, on_bind]
  generalize update.on runtime = performed at h ⊢
  obtain ⟨out, runtime'⟩ := performed
  rcases h with ⟨error, h⟩ | ⟨⟨b, hout⟩, haccounted, hnext, hbudget⟩
  · cases h
    exact .inl ⟨error, rfl⟩
  · dsimp only at hout haccounted hnext hbudget
    subst hout
    exact .inr ⟨haccounted, hbudget, .inr ⟨rfl, hnext⟩⟩

theorem Accounted.perform (h : runtime.Accounted) (call : Call arrays) :
    runtime.Performed ((call.perform model decode).on runtime) := by
  cases call with
  | openSource bytes options => exact h.openSource.handled
  | openIncrementalSource source => exact h.openIncrementalSource.handled
  | openIncrementalStream delta => exact h.openIncrementalStream.handled
  | appendIncrementalStream handle delta => exact h.appendIncrementalStream.unhandled
  | replaceIncrementalSource handle source => exact h.replaceIncrementalSource.unhandled
  | openTable source tableId => exact h.openTable.handled
  | closeTable table => exact h.closeTable.unhandled
  | closeSource source => exact h.closeSource.unhandled
  | shutdown => exact shutdown_updates.unhandled

/-- A run keeps the registry consistent, and issues handles in order. -/
theorem Accounted.run (h : runtime.Accounted) (calls : List (Call arrays)) :
    (ArrowIpcRuntime.run model decode runtime calls).Accounted ∧
      (ArrowIpcRuntime.run model decode runtime calls).memoryBudgetBytes =
        runtime.memoryBudgetBytes ∧
      (handles model decode runtime calls).Pairwise (· < ·) ∧
      ∀ handle ∈ handles model decode runtime calls, runtime.nextHandle ≤ handle := by
  induction calls generalizing runtime with
  | nil => exact ⟨h, rfl, List.Pairwise.nil, nofun⟩
  | cons call calls ih =>
    have hperform : runtime.Performed ((call.perform model decode).on runtime) := h.perform call
    rw [ArrowIpcRuntime.run, handles]
    generalize (call.perform model decode).on runtime = performed at hperform ⊢
    obtain ⟨out, runtime'⟩ := performed
    rcases hperform with ⟨error, hperform⟩ | ⟨haccounted, hbudget, ⟨hout, hnext⟩ | ⟨hout, hnext⟩⟩
    · cases hperform
      exact ih h
    · dsimp only at hout haccounted hnext hbudget
      subst hout
      obtain ⟨hrun, hrunBudget, hpairwise, hle⟩ := ih haccounted
      refine ⟨hrun, hrunBudget.trans hbudget,
        List.pairwise_cons.2 ⟨fun handle hmem => ?_, hpairwise⟩, fun handle hmem => ?_⟩
      · have hlow := hle handle hmem
        omega
      · rcases List.mem_cons.1 hmem with rfl | hmem
        · exact le_rfl
        · have hlow := hle handle hmem
          omega
    · dsimp only at hout haccounted hnext hbudget
      subst hout
      obtain ⟨hrun, hrunBudget, hpairwise, hle⟩ := ih haccounted
      exact ⟨hrun, hrunBudget.trans hbudget, hpairwise, fun handle hmem => hnext ▸ hle handle hmem⟩

theorem new_accounted {memoryBudgetBytes maxSources : ℕ}
    (h : new memoryBudgetBytes maxSources = .ok runtime) :
    runtime.Accounted ∧ runtime.memoryBudgetBytes = memoryBudgetBytes := by
  rw [new] at h
  split_ifs at h
  cases h
  exact ⟨accounted_of_nil rfl rfl rfl, rfl⟩

/-- After any calls, the retained bytes are those of the registered sources and within the budget,
    every table refers to a registered source, and no handle was issued twice; a further call that
    fails changes nothing. -/
theorem registry_exact_and_atomic {memoryBudgetBytes maxSources : ℕ} (calls : List (Call arrays))
    (hnew : new memoryBudgetBytes maxSources = .ok runtime) :
    let runtime' := ArrowIpcRuntime.run model decode runtime calls
    runtime'.retainedBytes = sourceBytes runtime'.sources ∧
    runtime'.retainedBytes ≤ memoryBudgetBytes ∧
    (∀ t ∈ runtime'.tables, ∃ source, get? runtime'.sources t.2 = some source) ∧
    (handles model decode runtime calls).Nodup ∧
    ∀ (call : Call arrays) error runtime'',
      (call.perform model decode).on runtime' = (.error error, runtime'') →
      runtime'' = runtime' := by
  obtain ⟨haccounted, rfl⟩ := new_accounted hnew
  obtain ⟨hrun, hbudget, hpairwise, _⟩ := haccounted.run calls
  refine ⟨hrun.retained, hbudget ▸ hrun.within, hrun.tables,
    hpairwise.imp fun hlt => Nat.ne_of_lt hlt, fun call error runtime'' hfailed => ?_⟩
  rcases hrun.perform call with ⟨error', hperform⟩ | ⟨_, _, ⟨hout, _⟩ | ⟨hout, _⟩⟩
  · rw [hperform] at hfailed
    exact (congrArg Prod.snd hfailed).symm
  · rw [hfailed] at hout
    cases hout
  · rw [hfailed] at hout
    cases hout

/-- A delta of one batch, after so many others, with the rows that there are then. -/
def oneBatchDelta (batchStart : ℕ) (values : List ℕ) (rows : ℕ) : ArrowStreamDelta listArrays :=
  ⟨[⟨[0x61], .plain "Int64", false⟩], smallOptions, batchStart, [oneColumnBatch values], rows, rows,
    false⟩

/-- A runtime with a table of a Stream that grows from two rows to three. The last delta is stale
    when it comes again. -/
theorem registry_exact_and_atomic_grownStream :
    let model : SchemaModel := ⟨fun _ _ => .ok (), fun _ => .ok []⟩
    let decode := fun _ _ => .error (.new .parseFailed "")
    let calls := [.openIncrementalStream (oneBatchDelta 0 [7, 8] 2), .openTable 1 "table-0",
      .appendIncrementalStream 1 (oneBatchDelta 1 [9] 3)]
    let idle : ArrowIpcRuntime listArrays := { memoryBudgetBytes := 64, maxSources := 1 }
    let runtime := run model decode idle calls
    let stale := ((Call.appendIncrementalStream 1 (oneBatchDelta 1 [9] 3)).perform model decode).on
      runtime
    runtime.tables = [(2, 1)] ∧ runtime.retainedBytes = 3 ∧
      runtime.retainedBytes = sourceBytes runtime.sources ∧
      (handles model decode idle calls).Nodup ∧ stale.1.toOption = none ∧ stale.2 = runtime := by
  intro model decode calls idle runtime stale
  obtain ⟨hbytes, _, _, hnodup, hatomic⟩ :=
    @registry_exact_and_atomic _ _ listArrays model decode _ 64 1 calls rfl
  have hnone : stale.1.toOption = none := by decide +kernel
  refine ⟨by decide +kernel, by decide +kernel, hbytes, hnodup, hnone, ?_⟩
  rcases hstale : stale with ⟨error | handle, runtime'⟩
  · exact hatomic _ _ _ hstale
  · rw [hstale] at hnone
    cases hnone

end ArrowIpcRuntime

end Tabulark.Arrow
