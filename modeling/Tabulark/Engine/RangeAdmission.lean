import Tabulark.Engine.PermitQueue
import Tabulark.Error
import Tabulark.Lib.InsertionMap
import Tabulark.Lib.JsValue

/-!
# Range reads in a Worker

A range read waits until its rows are indexed, then for a permit, then for the adapter.
The Worker counts the reads that have begun and not ended, and turns away those for which
there would be neither a permit nor a place in the queue. A read may be cancelled at any
time, by its id or because its table, its dataset or the Worker closes.

A task of the Worker runs to its end; a promise that it settles resumes the read later.
What `Admitted` says holds after every task: reads that have begun have room.
-/

namespace Tabulark.Engine.RangeAdmission

open JsValue

def maxActiveRanges : ℕ := 2

def maxRangeWaiters : ℕ := 8

def maxInFlightRanges : ℕ := maxActiveRanges + maxRangeWaiters

def maxRangeCells : ℕ := 250000

/-- What a request is rejected with. -/
structure ProtocolFault where
  code : String
  message : String
  retryable : Bool := false
  details : List (String × JsValue) := []

/-! ## Requests -/

structure RangeRequest where
  rowStart : ℕ
  rowCount : ℕ
  columnStart : ℕ
  columnCount : ℕ
  deriving DecidableEq, Repr

def expectRecord (value : JsValue) (name : String) : Except ProtocolFault Unit :=
  if value.isRecord then .ok ()
  else .error { code := "INVALID_ARGUMENT", message := s!"{name} must be an object" }

def safeField (raw : JsValue) (name : String) : Except ProtocolFault ℕ :=
  match (raw.prop name).safeNat? with
  | some value => .ok value
  | none => .error { code := "INVALID_RANGE"
                     message := s!"{name} must be a non-negative safe integer" }

/-- A range of too many cells. -/
def rangeCellsFault (rowCount columnCount : ℕ) : ProtocolFault :=
  let cells := rowCount * columnCount
  { code := "RESOURCE_LIMIT"
    message := s!"A range may contain at most {maxRangeCells} cells"
    details := [
      ("resource", .text "range-cells"),
      ("required", .number (if cells ≤ maxSafe then max (max cells rowCount) columnCount
        else maxSafe)),
      ("available", .number maxRangeCells),
      ("cells", .number (if cells ≤ maxSafe then cells else maxSafe)),
      ("limit", .number maxRangeCells)] }

def normalizeRange (value : JsValue) : Except ProtocolFault RangeRequest := do
  expectRecord value "range request"
  let rowStart ← safeField value "rowStart"
  let rowCount ← safeField value "rowCount"
  let columnStart ← safeField value "columnStart"
  let columnCount ← safeField value "columnCount"
  if maxSafe - rowStart < rowCount ∨ maxSafe - columnStart < columnCount then
    throw { code := "INVALID_RANGE"
            message := "Range end exceeds the JavaScript safe integer range" }
  if maxRangeCells < rowCount ∨ maxRangeCells < columnCount ∨
      rowCount ≠ 0 ∧ maxRangeCells / rowCount < columnCount then
    throw (rangeCellsFault rowCount columnCount)
  return { rowStart, rowCount, columnStart, columnCount }

def expectDisplayOnly : JsValue → Except ProtocolFault Unit
  | .undefined | .boolean _ => .ok ()
  | _ => .error { code := "INVALID_ARGUMENT"
                  message := "readRange displayOnly must be a boolean when supplied" }

/-- How far a range read is. -/
inductive RangePhase
  /-- It waits until its rows are indexed. -/
  | indexing
  /-- The wait for its rows has ended. -/
  | indexed (result : Except ProtocolFault Unit)
  /-- It has asked for a permit. -/
  | acquiring (permit : ℕ)
  /-- It has a permit, and reads. -/
  | reading (permit : ℕ)
  | settled (outcome : Except ProtocolFault Unit)

inductive RequestKind
  | openSource
  | async
  | range (range : RangeRequest) (phase : RangePhase)

/-- A request that was active at some time. -/
structure ActiveRequest where
  requestId : String
  kind : RequestKind
  datasetHandle : Option String := none
  tableHandle : Option String := none
  cancelled : Bool := false
  failure : Option ProtocolFault := none

namespace ActiveRequest

variable (request : ActiveRequest)

def isOpen : Bool :=
  match request.kind with
  | .openSource => true
  | _ => false

/-- A range read that has begun and not ended. -/
def unsettled : Bool :=
  match request.kind with
  | .range _ (.settled _) => false
  | .range _ _ => true
  | _ => false

/-- The permit that a range read waits for or has. -/
def permit? : Option ℕ :=
  match request.kind with
  | .range _ (.acquiring permit) | .range _ (.reading permit) => some permit
  | _ => none

def cancelledFault : ProtocolFault where
  code := "CANCELLED"
  message := match request.kind with
    | .openSource => "The open request was cancelled"
    | .range _ _ => "The range request was cancelled"
    | .async => "The asynchronous table request was cancelled"

def throwIfCancelled : Except ProtocolFault Unit :=
  if request.cancelled then
    .error ((if request.isOpen then none else request.failure).getD request.cancelledFault)
  else .ok ()

end ActiveRequest

/-! ## The Worker -/

/-- A dataset; those that were closed are kept, since reads may still look at them. -/
structure DatasetState where
  handle : String
  openRequestId : String
  closed : Bool := false
  discoveredRows : ℕ := 0
  scanDone : Bool := false
  scanError : Option ProtocolFault := none

structure OpenTableState where
  handle : String
  datasetHandle : String

structure Worker where
  shuttingDown : Bool := false
  rangeRequestsInFlight : ℤ := 0
  rangePermits : AsyncPermitQueue ProtocolFault := .create _ maxActiveRanges maxRangeWaiters
  datasets : List DatasetState := []
  tables : List OpenTableState := []
  openedDatasetsByRequest : InsertionMap String String := .empty
  /-- The requests that are active, by their ids. -/
  activeRequests : InsertionMap String ℕ := .empty
  /-- The requests that were active so far. -/
  requests : List ActiveRequest := []

namespace Worker

variable (w : Worker)

def dataset? (handle : String) : Option DatasetState := w.datasets.find? (·.handle == handle)

/-- A dataset that is not closed. -/
def openDataset? (handle : String) : Option DatasetState :=
  (w.dataset? handle).filter (!·.closed)

def requireTable (value : JsValue) : Except ProtocolFault OpenTableState :=
  match value.text? with
  | none => .error { code := "INVALID_ARGUMENT", message := "tableHandle must be a string" }
  | some handle =>
    match w.tables.find? (·.handle == handle) with
    | none => .error { code := "HANDLE_CLOSED", message := "The table is closed" }
    | some table => .ok table

def requireDataset (handle : String) : Except ProtocolFault DatasetState :=
  match w.openDataset? handle with
  | none => .error { code := "HANDLE_CLOSED", message := "The dataset is closed" }
  | some dataset => .ok dataset

/-- Too many range reads have begun. -/
def inFlightFault : ProtocolFault where
  code := "RESOURCE_LIMIT"
  message := s!"The engine may have at most {maxInFlightRanges} in-flight range requests"
  details := [
    ("resource", .text "range-request-slots"),
    ("required", .number (w.rangeRequestsInFlight + 1)),
    ("available", .number maxInFlightRanges),
    ("maxActiveRanges", .number maxActiveRanges),
    ("maxRangeWaiters", .number maxRangeWaiters)]

/-- Too many range reads wait for a permit. -/
def waitersFault : ProtocolFault where
  code := "RESOURCE_LIMIT"
  message := s!"The range queue may contain at most {maxRangeWaiters} waiters"
  details := [
    ("resource", .text "range-waiter-slots"),
    ("required", .number (maxRangeWaiters + 1)),
    ("available", .number maxRangeWaiters),
    ("maxActiveRanges", .number maxActiveRanges),
    ("maxRangeWaiters", .number maxRangeWaiters)]

/-! ### A range read -/

/-- The first part of a range read, up to where it waits for its rows. -/
def readRange (requestId : String) (payload : JsValue) : Except ProtocolFault Worker := do
  expectRecord payload "readRange payload"
  let table ← w.requireTable (payload.prop "tableHandle")
  let dataset ← w.requireDataset table.datasetHandle
  let range ← normalizeRange (payload.prop "range")
  expectDisplayOnly (payload.prop "displayOnly")
  if maxInFlightRanges ≤ w.rangeRequestsInFlight then
    throw w.inFlightFault
  else
    return { w with
      rangeRequestsInFlight := w.rangeRequestsInFlight + 1
      activeRequests := w.activeRequests.set requestId w.requests.length
      requests := w.requests ++ [{
        requestId
        kind := .range range .indexing
        datasetHandle := some dataset.handle
        tableHandle := some table.handle }] }

/-- Looks whether the rows of a range are indexed; `none` if not yet. -/
def waitUntilIndexed (range : RangeRequest) (active : ActiveRequest) :
    Option (Except ProtocolFault Unit) :=
  if range.rowCount = 0 then some (.ok ())
  else
    match active.datasetHandle.bind w.dataset? with
    | none => none
    | some dataset =>
      if !dataset.scanDone ∧ dataset.discoveredRows ≤ range.rowStart then
        -- The loop throws only before it waits again.
        match active.throwIfCancelled with
        | .error fault => some (.error fault)
        | .ok () => none
      else some (active.throwIfCancelled >>= fun _ =>
        match dataset.scanError with
        | some fault => .error fault
        | none => .ok ())

def setKind (call : ℕ) (request : ActiveRequest) (kind : RequestKind) : Worker :=
  { w with requests := w.requests.set call { request with kind } }

/-- The end of a range read. -/
def finish (call : ℕ) (request : ActiveRequest) (range : RangeRequest) (releasePermit : Option ℕ)
    (outcome : Except ProtocolFault Unit) : Worker :=
  { w with
    activeRequests := w.activeRequests.delete request.requestId
    rangePermits := match releasePermit with
      | some permit => w.rangePermits.release permit
      | none => w.rangePermits
    rangeRequestsInFlight := w.rangeRequestsInFlight - 1
    requests := w.requests.set call { request with kind := .range range (.settled outcome) } }

/-- A range read goes on, if what it waits for has come. -/
def resume (call : ℕ) : Worker :=
  match w.requests[call]? with
  | none => w
  | some request =>
    match request.kind with
    | .range range .indexing =>
      match w.waitUntilIndexed range request with
      | none => w
      | some result => w.setKind call request (.range range (.indexed result))
    | .range range (.indexed result) =>
      match result >>= fun _ => request.throwIfCancelled with
      | .error fault => w.finish call request range none (.error fault)
      | .ok () =>
        { w with rangePermits := w.rangePermits.acquire request.requestId }.setKind call request
          (.range range (.acquiring w.rangePermits.calls))
    | .range range (.acquiring permit) =>
      if permit ∈ w.rangePermits.granted then
        match request.throwIfCancelled with
        | .error fault => w.finish call request range (some permit) (.error fault)
        | .ok () => w.setKind call request (.range range (.reading permit))
      else if permit ∈ w.rangePermits.refused then
        w.finish call request range none (.error waitersFault)
      else
        match w.rangePermits.cancelled.lookup permit with
        | some reason => w.finish call request range none (.error reason)
        | none => w
    | _ => w

/-- The adapter has come to an end with a read, and the batch was copied. -/
def endRead (call : ℕ) (rawBatch batch : Except ProtocolFault Unit) : Worker :=
  match w.requests[call]? with
  | none => w
  | some request =>
    match request.kind with
    | .range range (.reading permit) =>
      w.finish call request range (some permit)
        (rawBatch >>= fun _ => request.throwIfCancelled >>= fun _ => batch)
    | _ => w

/-! ### Cancellation -/

/-- `cancelActive`, but for the dataset of an open. -/
def cancelRequest (call : ℕ) (failure : Option ProtocolFault) : Worker :=
  match w.requests[call]? with
  | none => w
  | some request =>
    if request.cancelled then
      if !request.isOpen ∧ request.failure.isNone then
        { w with requests := w.requests.set call { request with failure } }
      else w
    else
      match request.kind with
      | .openSource => { w with requests := w.requests.set call { request with cancelled := true } }
      | .async =>
        { w with requests := w.requests.set call { request with cancelled := true, failure } }
      | .range _ _ =>
        { w with
          requests := w.requests.set call { request with cancelled := true, failure }
          rangePermits := (w.rangePermits.cancel request.requestId
            (failure.getD request.cancelledFault)).1 }

/-- Cancels the active requests with a property. -/
def cancelWhere (p : ActiveRequest → Bool) (failure : Option ProtocolFault) : Worker :=
  w.activeRequests.entries.foldl (fun w entry =>
    if (w.requests[entry.2]?).any p then w.cancelRequest entry.2 failure else w) w

def closeTableState (table : OpenTableState) (failure : Option ProtocolFault) : Worker :=
  let cancelled := w.cancelWhere
    (fun active => !active.isOpen && active.tableHandle == some table.handle) failure
  { cancelled with tables := cancelled.tables.filter (·.handle != table.handle) }

/-- Closes a dataset. It is closed by the time that the requests for it are cancelled: an open
    among them does not close it again. -/
def closeDatasetState (dataset : DatasetState) (failure : Option ProtocolFault) : Worker :=
  let closed : Worker := { w with
    datasets := w.datasets.map fun other =>
      if other.handle == dataset.handle then { other with closed := true } else other
    openedDatasetsByRequest := w.openedDatasetsByRequest.delete dataset.openRequestId }
  let cancelled := (closed.tables.filter (·.datasetHandle == dataset.handle)).foldl
    (fun w table => w.closeTableState table failure) closed
  cancelled.cancelWhere (·.datasetHandle == some dataset.handle) failure

def cancelActive (call : ℕ) (failure : Option ProtocolFault) : Worker :=
  match w.requests[call]? with
  | none => w
  | some request =>
    let cancelled := w.cancelRequest call failure
    if request.isOpen ∧ !request.cancelled then
      match request.datasetHandle.bind cancelled.openDataset? with
      | none => cancelled
      | some dataset => cancelled.closeDatasetState dataset none
    else cancelled

/-- Cancels a request, or closes the dataset that it has opened. -/
def cancel (payload : JsValue) : Except ProtocolFault (Worker × Bool) := do
  expectRecord payload "cancel payload"
  match (payload.prop "targetRequestId").text? with
  | none => throw { code := "INVALID_ARGUMENT"
                    message := "cancel targetRequestId must be a string" }
  | some target =>
    match w.activeRequests.get? target, w.openedDatasetsByRequest.get? target with
    | some call, _ => return (w.cancelActive call none, true)
    | none, none => return (w, false)
    | none, some handle =>
      match w.openDataset? handle with
      | none => return ({ w with
          openedDatasetsByRequest := w.openedDatasetsByRequest.delete target }, false)
      | some dataset => return (w.closeDatasetState dataset none, true)

def closeTable (payload : JsValue) : Except ProtocolFault Worker := do
  expectRecord payload "closeTable payload"
  match (payload.prop "tableHandle").text? with
  | none => throw { code := "INVALID_ARGUMENT", message := "tableHandle must be a string" }
  | some handle =>
    match w.tables.find? (·.handle == handle) with
    | none => return w
    | some table => return w.closeTableState table none

def closeSource (payload : JsValue) : Except ProtocolFault Worker := do
  expectRecord payload "closeSource payload"
  match (payload.prop "datasetHandle").text? with
  | none => throw { code := "INVALID_ARGUMENT", message := "datasetHandle must be a string" }
  | some handle =>
    match w.openDataset? handle with
    | none => return w
    | some dataset => return w.closeDatasetState dataset none

def shutdownFailure : ProtocolFault where
  code := "HANDLE_CLOSED"
  message := "The Worker runtime is not available"

def shutdown : Worker :=
  if w.shuttingDown then w
  else
    let cancelled := w.activeRequests.entries.foldl
      (fun w entry => w.cancelActive entry.2 (some shutdownFailure)) { w with shuttingDown := true }
    (cancelled.datasets.filter (!·.closed)).foldl
      (fun w dataset => w.closeDatasetState dataset (some shutdownFailure)) cancelled

end Worker

/-! ## Tasks -/

/-- What the Worker does next. Reads are resumed at any time, and look whether they can go on.
    What other requests do to datasets and tables is `setDatasets` and `setTables`. -/
inductive WorkerEvent
  | readRange (requestId : String) (payload : JsValue)
  | resume (call : ℕ)
  | endRead (call : ℕ) (rawBatch batch : Except ProtocolFault Unit)
  | cancel (payload : JsValue)
  | closeTable (payload : JsValue)
  | closeSource (payload : JsValue)
  | shutdown
  | setDatasets (datasets : List DatasetState) (opened : InsertionMap String String)
  | setTables (tables : List OpenTableState)
  | begins (requestId : String) (isOpen : Bool) (datasetHandle tableHandle : Option String)
  | owns (call : ℕ) (datasetHandle : String)
  | ends (requestId : String)

namespace Worker

/-- A request that is turned away changes nothing. -/
def after (w : Worker) : Except ProtocolFault Worker → Worker
  | .ok w' => w'
  | .error _ => w

def step (w : Worker) : WorkerEvent → Worker
  | .readRange requestId payload => w.after (w.readRange requestId payload)
  | .resume call => w.resume call
  | .endRead call rawBatch batch => w.endRead call rawBatch batch
  | .cancel payload => w.after ((w.cancel payload).map Prod.fst)
  | .closeTable payload => w.after (w.closeTable payload)
  | .closeSource payload => w.after (w.closeSource payload)
  | .shutdown => w.shutdown
  | .setDatasets datasets openedDatasetsByRequest => { w with datasets, openedDatasetsByRequest }
  | .setTables tables => { w with tables }
  | .begins requestId isOpen datasetHandle tableHandle =>
    { w with
      activeRequests := w.activeRequests.set requestId w.requests.length
      requests := w.requests ++ [{
        requestId
        kind := if isOpen then .openSource else .async
        datasetHandle
        tableHandle }] }
  | .owns call datasetHandle =>
    match w.requests[call]? with
    | none => w
    | some request =>
      { w with requests := w.requests.set call { request with datasetHandle } }
  | .ends requestId => { w with activeRequests := w.activeRequests.delete requestId }

end Worker

/-! ## Reads that have begun have room -/

/-- Every permit that is held or waited for is that of a read, and the reads that have begun and
    not ended are counted. -/
structure Admitted (permits : AsyncPermitQueue ProtocolFault) (inFlight : ℤ)
    (requests : List ActiveRequest) : Prop where
  sound : permits.Sound
  maxActive_eq : permits.maxActive = maxActiveRanges
  maxWaiters_eq : permits.maxWaiters = maxRangeWaiters
  refused_eq : permits.refused = []
  inFlight_eq : inFlight = requests.countP ActiveRequest.unsettled
  inFlight_le : inFlight ≤ maxInFlightRanges
  owned : permits.outstanding ⊆ requests.filterMap ActiveRequest.permit?
  granted : ∀ request ∈ requests, ∀ range permit,
    request.kind = .range range (.reading permit) → permit ∈ permits.granted

theorem ActiveRequest.unsettled_of_permit? (request : ActiveRequest)
    (h : request.permit?.isSome = true) : request.unsettled = true := by
  unfold permit? at h
  unfold unsettled
  split at h
  · rename_i heq
    rw [heq]
  · rename_i heq
    rw [heq]
  · cases h

theorem length_permits_le (requests : List ActiveRequest) :
    (requests.filterMap ActiveRequest.permit?).length ≤
      requests.countP ActiveRequest.unsettled := by
  rw [List.length_filterMap_eq_countP]
  exact List.countP_mono_left fun request _ => request.unsettled_of_permit?

theorem set_split {requests : List ActiveRequest} {call : ℕ} {request : ActiveRequest}
    (h : requests[call]? = some request) : ∃ before after,
      requests = before ++ request :: after ∧
        ∀ request', requests.set call request' = before ++ request' :: after := by
  obtain ⟨hlt, rfl⟩ := List.getElem?_eq_some_iff.1 h
  refine ⟨requests.take call, requests.drop (call + 1), ?_, fun request' => ?_⟩
  · rw [List.getElem_cons_drop, List.take_append_drop]
  · rw [List.set_eq_take_append_cons_drop, if_pos hlt]

namespace Admitted

variable {permits permits' : AsyncPermitQueue ProtocolFault} {inFlight : ℤ}
  {requests : List ActiveRequest} {call : ℕ} {request request' : ActiveRequest}

/-- The permits of reads are as many as the queue counts. -/
theorem permits_le (h : Admitted permits inFlight requests) :
    permits.active + permits.waiters.length ≤ inFlight := by
  have hlength := (List.subperm_of_subset h.sound.nodup_outstanding h.owned).length_le
  rw [← h.sound.length_outstanding, h.inFlight_eq]
  exact_mod_cast hlength.trans (length_permits_le requests)

/-- A request whose place another takes: what reads has its permit. -/
theorem granted_split (h : Admitted permits inFlight requests) {before after : List ActiveRequest}
    (hsplit : requests = before ++ request :: after) (hmore : permits.granted <+: permits'.granted)
    (hnew : ∀ range permit, request'.kind = .range range (.reading permit) →
      permit ∈ permits'.granted) :
    ∀ other ∈ before ++ request' :: after, ∀ range permit,
      other.kind = .range range (.reading permit) → permit ∈ permits'.granted := by
  have hold (other : ActiveRequest) (hmem : other ∈ requests) (range : RangeRequest) (permit : ℕ)
      (hkind : other.kind = .range range (.reading permit)) : permit ∈ permits'.granted :=
    hmore.subset (h.granted other hmem range permit hkind)
  rw [hsplit] at hold
  exact fun other hmem => (List.mem_append.1 hmem).elim
    (fun hbefore => hold other (List.mem_append_left _ hbefore))
    fun hmem => (List.mem_cons.1 hmem).elim (fun hsame => hsame ▸ hnew)
      fun hafter => hold other (List.mem_append_right _ (List.mem_cons_of_mem _ hafter))

/-- A change of a request that leaves its place as it is. -/
theorem set (h : Admitted permits inFlight requests) (hcall : requests[call]? = some request)
    (hunsettled : request'.unsettled = request.unsettled)
    (hpermit : request'.permit? = request.permit?)
    (hgranted : ∀ range permit, request'.kind = .range range (.reading permit) →
      permit ∈ permits.granted) :
    Admitted permits inFlight (requests.set call request') := by
  obtain ⟨before, after, hsplit, hset⟩ := set_split hcall
  rw [hset]
  refine ⟨h.sound, h.maxActive_eq, h.maxWaiters_eq, h.refused_eq, ?_, h.inFlight_le, ?_,
    h.granted_split hsplit (List.prefix_refl _) hgranted⟩
  · rw [h.inFlight_eq, hsplit, List.countP_append, List.countP_append, List.countP_cons,
      List.countP_cons, hunsettled]
  · have howned := h.owned
    rw [hsplit, List.filterMap_append, List.filterMap_cons, ← hpermit, ← List.filterMap_cons,
      ← List.filterMap_append] at howned
    exact howned

/-- A cancellation of a waiter. -/
theorem cancel (h : Admitted permits inFlight requests) (key : String) (reason : ProtocolFault) :
    Admitted (permits.cancel key reason).1 inFlight requests := by
  obtain ⟨hactive, hwaiters, -, hrefused, hgranted⟩ := permits.cancel_frame key reason
  exact ⟨h.sound.cancel key reason, hactive.trans h.maxActive_eq, hwaiters.trans h.maxWaiters_eq,
    hrefused.trans h.refused_eq, h.inFlight_eq, h.inFlight_le,
    List.Subset.trans (permits.outstanding_cancel key reason) h.owned,
    fun request hmem range permit hkind =>
      hgranted.subset (h.granted request hmem range permit hkind)⟩

/-- A read that has begun asks for a permit. -/
theorem acquire (h : Admitted permits inFlight requests) (hcall : requests[call]? = some request)
    (hunsettled : request.unsettled = true) (hnone : request.permit? = none)
    (range : RangeRequest) (key : String) :
    Admitted (permits.acquire key) inFlight
      (requests.set call { request with kind := .range range (.acquiring permits.calls) }) := by
  obtain ⟨before, after, hsplit, hset⟩ := set_split hcall
  obtain ⟨hactive, hwaiters, -, hgranted⟩ := permits.acquire_frame key
  have hcount : (requests.filterMap ActiveRequest.permit?).length <
      requests.countP ActiveRequest.unsettled := by
    rw [hsplit, List.filterMap_append, List.filterMap_cons_none hnone, List.countP_append,
      List.countP_cons_of_pos hunsettled, List.length_append]
    have hbefore := length_permits_le before
    have hafter := length_permits_le after
    omega
  have hroom : permits.outstanding.length < permits.maxActive + permits.maxWaiters := by
    have hlength := (List.subperm_of_subset h.sound.nodup_outstanding h.owned).length_le
    have hle := h.inFlight_le
    rw [h.inFlight_eq, Nat.cast_le] at hle
    rw [h.maxActive_eq, h.maxWaiters_eq]
    exact (hlength.trans_lt hcount).trans_le hle
  rw [hset]
  refine ⟨h.sound.acquire key, hactive.trans h.maxActive_eq, hwaiters.trans h.maxWaiters_eq,
    (h.sound.acquire_refused key hroom).trans h.refused_eq, ?_, h.inFlight_le, ?_,
    h.granted_split hsplit hgranted fun range permit hkind => ?_⟩
  · rw [h.inFlight_eq, hsplit, List.countP_append, List.countP_append,
      List.countP_cons_of_pos hunsettled, List.countP_cons_of_pos rfl]
  · intro permit hmem
    rw [List.filterMap_append, List.filterMap_cons]
    obtain rfl | hmem := List.mem_cons.1 (permits.outstanding_acquire key hmem)
    · exact List.mem_append_right _ List.mem_cons_self
    · have hold := h.owned hmem
      rw [hsplit, List.filterMap_append, List.filterMap_cons_none hnone] at hold
      exact (List.mem_append.1 hold).elim (List.mem_append_left _) fun hold =>
        List.mem_append_right _ (List.mem_cons_of_mem _ hold)
  · cases hkind

/-- A read ends, and gives back what it had of the queue. -/
theorem finish (h : Admitted permits inFlight requests) (hcall : requests[call]? = some request)
    (hunsettled : request.unsettled = true) (hsound : permits'.Sound)
    (hactive : permits'.maxActive = permits.maxActive)
    (hwaiters : permits'.maxWaiters = permits.maxWaiters)
    (hrefused : permits'.refused = permits.refused)
    (hgranted : permits.granted <+: permits'.granted)
    (houtstanding : ∀ permit ∈ permits'.outstanding,
      permit ∈ permits.outstanding ∧ request.permit? ≠ some permit)
    (range : RangeRequest) (outcome : Except ProtocolFault Unit) :
    Admitted permits' (inFlight - 1)
      (requests.set call { request with kind := .range range (.settled outcome) }) := by
  obtain ⟨before, after, hsplit, hset⟩ := set_split hcall
  rw [hset]
  refine ⟨hsound, hactive.trans h.maxActive_eq, hwaiters.trans h.maxWaiters_eq,
    hrefused.trans h.refused_eq, ?_, (sub_le_self _ Int.one_nonneg).trans h.inFlight_le, ?_,
    h.granted_split hsplit hgranted fun range permit hkind => ?_⟩
  · rw [h.inFlight_eq, hsplit, List.countP_append, List.countP_append,
      List.countP_cons_of_pos hunsettled, List.countP_cons_of_neg Bool.false_ne_true]
    push_cast
    ring
  · intro permit hmem
    obtain ⟨hold, hother⟩ := houtstanding permit hmem
    have howned := h.owned hold
    rw [List.mem_filterMap] at howned ⊢
    obtain ⟨owner, howner, hpermit⟩ := howned
    refine ⟨owner, ?_, hpermit⟩
    rw [hsplit, List.mem_append, List.mem_cons] at howner
    obtain howner | rfl | howner := howner
    · exact List.mem_append_left _ howner
    · exact absurd hpermit hother
    · exact List.mem_append_right _ (List.mem_cons_of_mem _ howner)
  · cases hkind

/-- A request that begins. -/
theorem push (h : Admitted permits inFlight requests) {inFlight' : ℤ}
    (hnone : request.permit? = none)
    (hinFlight : inFlight' = inFlight + if request.unsettled then 1 else 0)
    (hle : inFlight' ≤ maxInFlightRanges) :
    Admitted permits inFlight' (requests ++ [request]) := by
  refine ⟨h.sound, h.maxActive_eq, h.maxWaiters_eq, h.refused_eq, ?_, hle, ?_, ?_⟩
  · rw [hinFlight, h.inFlight_eq, List.countP_append, List.countP_singleton, Nat.cast_add,
      Nat.cast_ite, Nat.cast_one, Nat.cast_zero]
  · rw [List.filterMap_append, List.filterMap_cons_none hnone, List.filterMap_nil, List.append_nil]
    exact h.owned
  · refine List.forall_mem_append.2 ⟨h.granted, List.forall_mem_singleton.2 ?_⟩
    intro range permit hkind
    rw [ActiveRequest.permit?, hkind] at hnone
    cases hnone

end Admitted

namespace Worker

/-- The permits, the count and the requests of a Worker agree. -/
def Sound (w : Worker) : Prop := Admitted w.rangePermits w.rangeRequestsInFlight w.requests

namespace Sound

variable {w : Worker} {call : ℕ} {request : ActiveRequest} {range : RangeRequest}

/-! ### The end of a read -/

/-- A read ends without a permit. -/
theorem finish_none (h : w.Sound) (hcall : w.requests[call]? = some request)
    (hunsettled : request.unsettled = true)
    (hpermit : ∀ permit ∈ request.permit?, permit ∉ w.rangePermits.outstanding)
    (outcome : Except ProtocolFault Unit) :
    (w.finish call request range none outcome).Sound :=
  Admitted.finish h hcall hunsettled h.sound rfl rfl rfl (List.prefix_refl _)
    (fun permit hmem => ⟨hmem, fun hsome => hpermit permit hsome hmem⟩) range outcome

/-- A read ends and releases its permit. -/
theorem finish_some (h : w.Sound) (hcall : w.requests[call]? = some request)
    (hunsettled : request.unsettled = true) {permit : ℕ} (hpermit : request.permit? = some permit)
    (hmem : permit ∈ w.rangePermits.granted) (outcome : Except ProtocolFault Unit) :
    (w.finish call request range (some permit) outcome).Sound := by
  obtain ⟨hactive, hwaiters, -, hrefused, hgranted⟩ := w.rangePermits.release_frame permit
  refine Admitted.finish h hcall hunsettled (h.sound.release permit) hactive hwaiters hrefused
    hgranted (fun other hother => ?_) range outcome
  obtain ⟨hold, hne⟩ := List.mem_filter.1 (w.rangePermits.outstanding_release hmem hother)
  refine ⟨hold, fun hsame => ?_⟩
  rw [hpermit, Option.some_inj] at hsame
  exact bne_iff_ne.1 hne hsame.symm

/-- Nobody has or waits for a permit that was refused or cancelled. -/
theorem notMem_outstanding (h : w.Sound) {permit : ℕ}
    (hturned : permit ∈ w.rangePermits.turnedAway) : permit ∉ w.rangePermits.outstanding :=
  fun hmem => h.sound.apart permit (List.mem_of_mem_filter hmem) hturned

/-! ### One task -/

variable {payload : JsValue}

theorem readRange {w' : Worker} (h : w.Sound) {requestId : String}
    (hok : w.readRange requestId payload = .ok w') : w'.Sound := by
  obtain ⟨_, -, hok⟩ := Result.bind_eq_ok.1 hok
  obtain ⟨table, -, hok⟩ := Result.bind_eq_ok.1 hok
  obtain ⟨dataset, -, hok⟩ := Result.bind_eq_ok.1 hok
  obtain ⟨range, -, hok⟩ := Result.bind_eq_ok.1 hok
  obtain ⟨_, -, hok⟩ := Result.bind_eq_ok.1 hok
  split at hok
  · exact Result.error_elim hok
  rename_i hroom
  cases hok
  exact Admitted.push h rfl rfl (not_le.1 hroom)

theorem begins (h : w.Sound) (requestId : String) (isOpen : Bool)
    (datasetHandle tableHandle : Option String) :
    (w.step (.begins requestId isOpen datasetHandle tableHandle)).Sound := by
  cases isOpen with
  | false => exact Admitted.push h rfl (add_zero _).symm h.inFlight_le
  | true => exact Admitted.push h rfl (add_zero _).symm h.inFlight_le

theorem resume (h : w.Sound) (call : ℕ) : (w.resume call).Sound := by
  unfold Worker.resume
  split
  · exact h
  rename_i request hcall
  split
  · rename_i range hkind
    split
    · exact h
    · refine Admitted.set h hcall ?_ ?_ fun _ _ hreading => ?_
      · rw [ActiveRequest.unsettled, ActiveRequest.unsettled, hkind]
      · rw [ActiveRequest.permit?, ActiveRequest.permit?, hkind]
      · cases hreading
  · rename_i range result hkind
    have hunsettled : request.unsettled = true := by rw [ActiveRequest.unsettled, hkind]
    have hnone : request.permit? = none := by rw [ActiveRequest.permit?, hkind]
    split
    · exact h.finish_none hcall hunsettled (fun permit hmem => by rw [hnone] at hmem; cases hmem) _
    · exact Admitted.acquire h hcall hunsettled hnone range _
  · rename_i range permit hkind
    have hunsettled : request.unsettled = true := by rw [ActiveRequest.unsettled, hkind]
    have hpermit : request.permit? = some permit := by rw [ActiveRequest.permit?, hkind]
    have hturned (hmem : permit ∈ w.rangePermits.turnedAway) :
        ∀ other ∈ request.permit?, other ∉ w.rangePermits.outstanding := fun other hother => by
      rw [hpermit, Option.mem_some_iff] at hother
      exact hother ▸ h.notMem_outstanding hmem
    split
    · rename_i hgranted
      split
      · exact h.finish_some hcall hunsettled hpermit hgranted _
      · refine Admitted.set h hcall ?_ ?_ fun _ _ hreading => ?_
        · rw [hunsettled]
          rfl
        · rw [hpermit]
          rfl
        · cases hreading
          exact hgranted
    · split
      · rename_i hrefused
        exact h.finish_none hcall hunsettled (hturned (List.mem_append_left _ hrefused)) _
      · split
        · rename_i reason hlookup
          obtain ⟨before, after, heq, -⟩ := List.lookup_eq_some_iff.1 hlookup
          have hmem : permit ∈ w.rangePermits.cancelled.map Prod.fst := by
            rw [heq, List.map_append]
            exact List.mem_append_right _ List.mem_cons_self
          exact h.finish_none hcall hunsettled (hturned (List.mem_append_right _ hmem)) _
        · exact h
  · exact h

theorem endRead (h : w.Sound) (call : ℕ) (rawBatch batch : Except ProtocolFault Unit) :
    (w.endRead call rawBatch batch).Sound := by
  unfold Worker.endRead
  split
  · exact h
  rename_i request hcall
  split
  · rename_i range permit hkind
    refine h.finish_some hcall ?_ ?_ ?_ _
    · rw [ActiveRequest.unsettled, hkind]
    · rw [ActiveRequest.permit?, hkind]
    · exact h.granted request (List.mem_of_getElem? hcall) range permit hkind
  · exact h

/-- A request whose flags change. -/
theorem mark (h : w.Sound) (hcall : w.requests[call]? = some request) {request' : ActiveRequest}
    (hkind : request'.kind = request.kind) :
    Admitted w.rangePermits w.rangeRequestsInFlight (w.requests.set call request') := by
  refine Admitted.set h hcall ?_ ?_ fun range permit hreading => ?_
  · rw [ActiveRequest.unsettled, ActiveRequest.unsettled, hkind]
  · rw [ActiveRequest.permit?, ActiveRequest.permit?, hkind]
  · exact h.granted request (List.mem_of_getElem? hcall) range permit (hkind ▸ hreading)

theorem cancelRequest (h : w.Sound) (call : ℕ) (failure : Option ProtocolFault) :
    (w.cancelRequest call failure).Sound := by
  unfold Worker.cancelRequest
  split
  · exact h
  rename_i request hcall
  split
  · split
    · exact h.mark hcall rfl
    · exact h
  · split
    · exact h.mark hcall rfl
    · exact h.mark hcall rfl
    · refine Admitted.cancel ?_ _ _
      exact h.mark hcall rfl

theorem cancelWhere (h : w.Sound) (p : ActiveRequest → Bool) (failure : Option ProtocolFault) :
    (w.cancelWhere p failure).Sound :=
  List.foldlRecOn _ _ h fun w' h' entry _ => by
    split
    · exact h'.cancelRequest _ _
    · exact h'

theorem closeTableState (h : w.Sound) (table : OpenTableState) (failure : Option ProtocolFault) :
    (w.closeTableState table failure).Sound := h.cancelWhere _ _

theorem closeDatasetState (h : w.Sound) (dataset : DatasetState)
    (failure : Option ProtocolFault) : (w.closeDatasetState dataset failure).Sound := by
  refine cancelWhere (List.foldlRecOn _ _ ?_ fun w' h' table _ => ?_) _ _
  · exact h
  · exact h'.closeTableState table failure

theorem cancelActive (h : w.Sound) (call : ℕ) (failure : Option ProtocolFault) :
    (w.cancelActive call failure).Sound := by
  have hcancelled := h.cancelRequest call failure
  unfold Worker.cancelActive
  split
  · exact h
  dsimp only
  split
  · split
    · exact hcancelled
    · exact hcancelled.closeDatasetState _ _
  · exact hcancelled

theorem shutdown (h : w.Sound) : w.shutdown.Sound := by
  unfold Worker.shutdown
  split
  · exact h
  · refine List.foldlRecOn _ _ ?_ fun w' h' dataset _ => h'.closeDatasetState dataset _
    refine List.foldlRecOn _ _ ?_ fun w' h' entry _ => h'.cancelActive entry.2 _
    exact h

theorem cancel {result : Worker × Bool} (h : w.Sound)
    (hok : w.cancel payload = .ok result) : result.1.Sound := by
  obtain ⟨_, -, hok⟩ := Result.bind_eq_ok.1 hok
  split at hok
  · exact Result.error_elim hok
  split at hok
  · cases hok
    exact h.cancelActive _ _
  · cases hok
    exact h
  · split at hok
    · cases hok
      exact h
    · cases hok
      exact h.closeDatasetState _ _

theorem closeTable {w' : Worker} (h : w.Sound)
    (hok : w.closeTable payload = .ok w') : w'.Sound := by
  obtain ⟨_, -, hok⟩ := Result.bind_eq_ok.1 hok
  split at hok
  · exact Result.error_elim hok
  split at hok
  · cases hok
    exact h
  · cases hok
    exact h.closeTableState _ _

theorem closeSource {w' : Worker} (h : w.Sound)
    (hok : w.closeSource payload = .ok w') : w'.Sound := by
  obtain ⟨_, -, hok⟩ := Result.bind_eq_ok.1 hok
  split at hok
  · exact Result.error_elim hok
  split at hok
  · cases hok
    exact h
  · cases hok
    exact h.closeDatasetState _ _

theorem owns (h : w.Sound) (call : ℕ) (datasetHandle : String) :
    (w.step (.owns call datasetHandle)).Sound := by
  unfold Worker.step
  dsimp only
  split
  · exact h
  · rename_i request hcall
    exact h.mark hcall rfl

theorem after (h : w.Sound) {result : Except ProtocolFault Worker}
    (hresult : ∀ w', result = .ok w' → w'.Sound) : (w.after result).Sound := by
  cases result with
  | error fault => exact h
  | ok w' => exact hresult w' rfl

/-- Whatever the Worker does next, its permits, its count and its requests agree. -/
theorem step (h : w.Sound) (event : WorkerEvent) : (w.step event).Sound := by
  cases event with
  | readRange requestId payload => exact h.after fun w' hok => h.readRange hok
  | resume call => exact h.resume call
  | endRead call rawBatch batch => exact h.endRead call rawBatch batch
  | cancel payload =>
    refine h.after fun w' hok => ?_
    obtain ⟨result, hcancel, rfl⟩ := Result.map_eq_ok.1 hok
    exact h.cancel hcancel
  | closeTable payload => exact h.after fun w' hok => h.closeTable hok
  | closeSource payload => exact h.after fun w' hok => h.closeSource hok
  | shutdown => exact h.shutdown
  | setDatasets datasets opened => exact h
  | setTables tables => exact h
  | begins requestId isOpen datasetHandle tableHandle =>
    exact h.begins requestId isOpen datasetHandle tableHandle
  | owns call datasetHandle => exact h.owns call datasetHandle
  | ends requestId => exact h

theorem start : Sound {} := by
  refine ⟨AsyncPermitQueue.sound_create _ _, rfl, rfl, rfl, rfl, Int.natCast_nonneg _,
    List.nil_subset _, ?_⟩
  exact fun request hmem => absurd hmem List.not_mem_nil

theorem run (events : List WorkerEvent) : (Run.run Worker.step {} events).Sound :=
  Run.invariant (fun _ event h => h.step event) start events

/-- When every range read has ended, no permit is held or waited for. -/
theorem settled (h : w.Sound) (hall : ∀ request ∈ w.requests, request.unsettled = false) :
    w.rangeRequestsInFlight = 0 ∧ w.rangePermits.active = 0 ∧ w.rangePermits.waiters = [] := by
  have hzero : w.rangeRequestsInFlight = 0 := by
    rw [h.inFlight_eq, Nat.cast_eq_zero, List.countP_eq_zero]
    exact fun request hmem => Bool.eq_false_iff.1 (hall request hmem)
  have hle := h.permits_le
  have hactive := h.sound.active_eq
  have hnil : w.rangePermits.waiters.length = 0 := by omega
  exact ⟨hzero, by omega, List.length_eq_zero_iff.1 hnil⟩

end Sound

end Worker

/-! ## The result -/

/-- Ranges are admitted without leaks, barging or needless rejections. Of a permit queue, after any
    calls: the permits that are granted and not released are counted, and at most as many as there
    are; somebody waits only when all are out, and there are never too many waiters; permits are
    granted in the order in which they were asked for, but for those that were refused or
    cancelled. Of a Worker, after any tasks: the reads in flight bound the permits that are held or
    waited for, none that has begun is refused a permit, and when all have ended nothing is held or
    waited for. -/
theorem range_admission :
    (∀ (ρ : Type) (maxActive maxWaiters : ℕ) (calls : List (PermitCall ρ)),
      let queue := Run.run AsyncPermitQueue.step (.create ρ maxActive maxWaiters) calls
      queue.active = queue.held.length ∧ 0 ≤ queue.active ∧ queue.active ≤ maxActive ∧
        (queue.waiters ≠ [] → queue.active = maxActive) ∧ queue.waiters.length ≤ maxWaiters ∧
        queue.order.Pairwise (· < ·) ∧
        (∀ permit, permit < queue.calls ↔ permit ∈ queue.order ++ queue.turnedAway) ∧
        (∀ permit ∈ queue.order, permit ∉ queue.turnedAway) ∧
        ∀ call, queue.granted <+: (queue.step call).granted) ∧
    ∀ events : List WorkerEvent,
      let w := Run.run Worker.step {} events
      w.rangePermits.active + w.rangePermits.waiters.length ≤ w.rangeRequestsInFlight ∧
        w.rangeRequestsInFlight ≤ maxInFlightRanges ∧ w.rangePermits.refused = [] ∧
        ((∀ request ∈ w.requests, request.unsettled = false) →
          w.rangeRequestsInFlight = 0 ∧ w.rangePermits.active = 0 ∧
            w.rangePermits.waiters = []) := by
  refine ⟨fun ρ maxActive maxWaiters calls => ?_, fun events => ?_⟩
  · have h := AsyncPermitQueue.sound_run maxActive maxWaiters calls
    obtain ⟨hactive, hwaiters⟩ := AsyncPermitQueue.run_frame maxActive maxWaiters calls
    refine ⟨h.active_eq, ?_, ?_, fun hne => ?_, ?_, h.fifo,
      fun permit => ⟨h.settled permit, h.asked permit⟩, h.apart,
      fun call => (AsyncPermitQueue.step_frame _ call).2.2⟩
    · rw [h.active_eq]
      exact Int.natCast_nonneg _
    · exact h.active_le.trans_eq (congrArg Nat.cast hactive)
    · exact (h.full hne).trans (congrArg Nat.cast hactive)
    · exact h.waiters_le.trans_eq hwaiters
  · have h := Worker.Sound.run events
    exact ⟨h.permits_le, h.inFlight_le, h.refused_eq, h.settled⟩

end Tabulark.Engine.RangeAdmission
