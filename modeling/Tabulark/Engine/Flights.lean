import Tabulark.Engine.Rpc
import Tabulark.Lib.Duplex
import Tabulark.Model

/-!
# Coalesced range reads

Reads of one range of one table share one request to the Worker, a flight. The
flight is keyed by what is read, but its request names the table handle of the
caller that began it. The main thread is the left party and the Worker the right
one. All table handles of a run are open from its start: one that is opened later
is one that is not used before.
-/

namespace Tabulark.Engine.Flights

open Duplex

/-- The dataset and the table of every table handle. -/
structure Tables where
  dataset : ℕ → ℕ
  tableId : ℕ → ℕ

/-- `rangeCacheKey`. -/
structure RangeCacheKey where
  dataset : ℕ
  tableId : ℕ
  revision : ℕ
  schemaVersion : ℕ
  range : RangeRequest
  displayOnly : Bool
  deriving DecidableEq, Repr

/-! ## Messages -/

/-- The requests around range reads. -/
inductive Request
  | readRange (table : ℕ) (range : RangeRequest) (displayOnly : Bool)
  | cancel (targetRequestId : ℕ)
  | closeTable (table : ℕ)
  | closeSource (dataset : ℕ)
  deriving DecidableEq, Repr

/-- Why a read fails: it was cancelled, a handle was closed, or the read itself failed. -/
inductive Failure
  | cancelled
  | closed
  | failed
  deriving DecidableEq, Repr

/-- How a read ends. -/
inductive Outcome
  | batch
  | failure (failure : Failure)
  deriving DecidableEq, Repr

/-- A response, to a range read or to another request. -/
inductive Response
  | read (outcome : Outcome)
  | acknowledged
  deriving DecidableEq, Repr

/-! ## The Worker -/

/-- `ActiveRangeRequest`. -/
structure ActiveRequest where
  requestId : ℕ
  table : ℕ
  cancelled : Bool
  deriving DecidableEq, Repr

/-- The Worker: the tables and datasets that were closed, and the active range reads. -/
structure Worker where
  closedTables : List ℕ
  closedDatasets : List ℕ
  active : List ActiveRequest
  deriving DecidableEq, Repr

variable (T : Tables)

namespace Worker

/-- A table handle is open in the Worker. -/
def IsOpen (w : Worker) (table : ℕ) : Prop :=
  table ∉ w.closedTables ∧ T.dataset table ∉ w.closedDatasets

instance (w : Worker) (table : ℕ) : Decidable (w.IsOpen T table) :=
  inferInstanceAs (Decidable (_ ∧ _))

/-- `cancelActive` for the active requests with a property. -/
def cancelWhere (w : Worker) (which : ActiveRequest → Bool) : Worker :=
  { w with
    active := w.active.map fun active =>
      if which active then { active with cancelled := true } else active }

/-- A range read ends, in any order: with its batch or an error of its own, or with the error of
    its cancellation. -/
inductive Act
  | finish (requestId : ℕ) (outcome : Outcome)
  deriving DecidableEq, Repr

/-- What the adapter makes of a read that is not cancelled. -/
def adapterOutcome : Outcome → Outcome
  | .batch => .batch
  | .failure _ => .failure .failed

def act (w : Worker) : Act → Worker × List (ℕ × Response)
  | .finish requestId outcome =>
      match w.active.find? fun active => active.requestId = requestId with
      | none => (w, [])
      | some active =>
          ({ w with active := w.active.filter fun active => active.requestId ≠ requestId },
            [(requestId, .read
              (if active.cancelled then .failure .cancelled else adapterOutcome outcome))])

/-- `readRange`, `cancel`, `closeTable` and `closeSource`. -/
def handleRequest (w : Worker) : ℕ × Request → Worker × List (ℕ × Response)
  | (id, .readRange table _ _) =>
      if w.IsOpen T table then ({ w with active := w.active ++ [⟨id, table, false⟩] }, [])
      else (w, [(id, .read (.failure .closed))])
  | (id, .cancel target) =>
      (w.cancelWhere fun active => active.requestId = target, [(id, .acknowledged)])
  | (id, .closeTable table) =>
      if w.IsOpen T table then
        ({ w with closedTables := table :: w.closedTables }.cancelWhere
          fun active => active.table = table, [(id, .acknowledged)])
      else (w, [(id, .acknowledged)])
  | (id, .closeSource dataset) =>
      if dataset ∈ w.closedDatasets then (w, [(id, .acknowledged)])
      else
        ({ w with closedDatasets := dataset :: w.closedDatasets }.cancelWhere
          fun active => T.dataset active.table = dataset, [(id, .acknowledged)])

end Worker

/-! ## The main thread -/

/-- `RangeSingleflight`, under the number of its request: how it ended, and whether what waits
    for its end has run. -/
structure Flight where
  key : RangeCacheKey
  table : ℕ
  requestId : ℕ
  outcome : Option Outcome
  settled : Bool
  deriving DecidableEq, Repr

/-- A call waits for a flight, or has its result. -/
inductive CallState
  | waiting (flight : ℕ)
  | settled (outcome : Outcome)
  deriving DecidableEq, Repr

/-- A call of `readRange` through a table handle, and whether its signal was aborted. -/
structure Call where
  table : ℕ
  aborted : Bool
  state : CallState
  deriving DecidableEq, Repr

/-- The main thread: the pending reads, the flights, `#rangeSingleflight`, the calls, and what was
    closed. -/
structure Host where
  rpc : WorkerRpcClient Unit
  flights : List Flight
  singleflight : List (RangeCacheKey × ℕ)
  calls : List Call
  closedTables : List ℕ
  closedDatasets : List ℕ

namespace Host

/-- A table handle is open for its callers. -/
def IsOpen (c : Host) (table : ℕ) : Prop :=
  table ∉ c.closedTables ∧ T.dataset table ∉ c.closedDatasets

instance (c : Host) (table : ℕ) : Decidable (c.IsOpen T table) :=
  inferInstanceAs (Decidable (_ ∧ _))

/-- One more call. -/
def addCall (c : Host) (table : ℕ) (aborted : Bool) (state : CallState) : Host :=
  { c with calls := c.calls ++ [⟨table, aborted, state⟩] }

/-- The flight of a request has ended. -/
def endFlight (c : Host) (requestId : ℕ) (outcome : Outcome) : Host :=
  { c with
    rpc := c.rpc.delete requestId
    flights := c.flights.map fun flight =>
      if flight.requestId = requestId then { flight with outcome := some outcome } else flight }

/-- No later call joins a flight. -/
def unmap (c : Host) (requestId : ℕ) : Host :=
  { c with singleflight := c.singleflight.filter fun entry => entry.2 ≠ requestId }

/-- A flight is taken out of the map, and its signal aborted: a request that is still pending is
    cancelled. -/
def abortFlight (c : Host) (requestId : ℕ) : Host × List (ℕ × Request) :=
  let c := c.unmap requestId
  match c.rpc.get? requestId with
  | none => (c, [])
  | some _ =>
      let c := c.endFlight requestId (.failure .cancelled)
      ({ c with rpc := c.rpc.skipId }, [(c.rpc.nextRequestId, .cancel requestId)])

/-- One flight after another is aborted. -/
def abortFlights (c : Host) : List ℕ → Host × List (ℕ × Request)
  | [] => (c, [])
  | requestId :: rest =>
      let next := c.abortFlight requestId
      let last := next.1.abortFlights rest
      (last.1, next.2 ++ last.2)

/-- What callers do: read, abort the signal of a call, close a table handle or a dataset. And what
    runs after an event: a flight settles, and a call goes on, for its aborted signal or with the
    end of its flight. -/
inductive Act
  | readRange (table revision schemaVersion : ℕ) (range : RangeRequest)
      (displayOnly aborted cached : Bool)
  | abort (call : ℕ)
  | closeTable (table : ℕ)
  | closeSession (dataset : ℕ)
  | settleFlight (requestId : ℕ)
  | resume (call : ℕ) (forAbort : Bool)
  deriving DecidableEq, Repr

/-- The key of a read through a table handle that shows this version. -/
def key (table revision schemaVersion : ℕ) (range : RangeRequest) (displayOnly : Bool) :
    RangeCacheKey :=
  { dataset := T.dataset table, tableId := T.tableId table, revision, schemaVersion, range,
    displayOnly }

/-- `#createRangeSingleflight`. -/
def createFlight (c : Host) (table : ℕ) (key : RangeCacheKey) : Host × List (ℕ × Request) :=
  ({ c with
      rpc := c.rpc.request ()
      flights := c.flights ++ [⟨key, table, c.rpc.nextRequestId, none, false⟩]
      singleflight := c.singleflight ++ [(key, c.rpc.nextRequestId)] },
    [(c.rpc.nextRequestId, .readRange table key.range key.displayOnly)])

/-- `readRange`: from the cache, through a flight that exists, or through a new one. -/
def readRange (c : Host) (table : ℕ) (key : RangeCacheKey) (aborted cached : Bool) :
    Host × List (ℕ × Request) :=
  if ¬c.IsOpen T table then (c.addCall table aborted (.settled (.failure .closed)), [])
  else if aborted then (c.addCall table aborted (.settled (.failure .cancelled)), [])
  else if cached then (c.addCall table aborted (.settled .batch), [])
  else
    match c.singleflight.find? fun entry => entry.1 = key with
    | some entry => (c.addCall table aborted (.waiting entry.2), [])
    | none =>
        let next := c.createFlight table key
        (next.1.addCall table aborted (.waiting c.rpc.nextRequestId), next.2)

/-- The result of a call that goes on, if it can. -/
def result (c : Host) (call : Call) (requestId : ℕ) (forAbort : Bool) : Option Outcome :=
  if forAbort then if call.aborted then some (.failure .cancelled) else none
  else
    match c.flights.find? fun flight => flight.requestId = requestId with
    | some { settled := true, outcome := some outcome, .. } =>
        if outcome = .batch ∧ ¬c.IsOpen T call.table then some (.failure .closed) else some outcome
    | _ => none

/-- The end of `#joinRangeSingleflight`: a call leaves its flight, the last one aborts it. -/
def resume (c : Host) (index : ℕ) (forAbort : Bool) : Host × List (ℕ × Request) :=
  match c.calls[index]? with
  | some { table, aborted, state := .waiting requestId } =>
      match c.result T ⟨table, aborted, .waiting requestId⟩ requestId forAbort with
      | none => (c, [])
      | some outcome =>
          let c := { c with calls := c.calls.set index ⟨table, aborted, .settled outcome⟩ }
          if (c.flights.any fun flight => flight.requestId = requestId && !flight.settled) &&
              c.calls.all fun call => call.state ≠ .waiting requestId then
            c.abortFlight requestId
          else (c, [])
  | _ => (c, [])

def act (c : Host) : Act → Host × List (ℕ × Request)
  | .readRange table revision schemaVersion range displayOnly aborted cached =>
      c.readRange T table (key T table revision schemaVersion range displayOnly) aborted cached
  | .abort index =>
      ({ c with calls := c.calls.modify index fun call => { call with aborted := true } }, [])
  | .closeTable table =>
      if c.IsOpen T table then
        ({ c with closedTables := table :: c.closedTables, rpc := c.rpc.skipId },
          [(c.rpc.nextRequestId, .closeTable table)])
      else (c, [])
  | .closeSession dataset =>
      if dataset ∈ c.closedDatasets then (c, [])
      else
        let flights := (c.singleflight.filter fun entry => entry.1.dataset = dataset).map Prod.snd
        let next := { c with closedDatasets := dataset :: c.closedDatasets }.abortFlights flights
        ({ next.1 with rpc := next.1.rpc.skipId },
          next.2 ++ [(next.1.rpc.nextRequestId, .closeSource dataset)])
  | .settleFlight requestId =>
      if c.flights.any fun flight => flight.requestId = requestId && flight.outcome.isSome then
        ({ c.unmap requestId with
            flights := c.flights.map fun flight =>
              if flight.requestId = requestId then { flight with settled := true } else flight },
          [])
      else (c, [])
  | .resume index forAbort => c.resume T index forAbort

/-- `#handleMessage`. A read that is not pending has no use for a response. -/
def handleMessage (c : Host) : ℕ × Response → Host × List (ℕ × Request)
  | (requestId, response) =>
      match c.rpc.get? requestId with
      | none => (c, [])
      | some _ =>
          match response with
          | .read outcome => (c.endFlight requestId outcome, [])
          | .acknowledged => (c.endFlight requestId (.failure .failed), [])

end Host

/-! ## Both -/

abbrev State : Type := Link Host Worker (ℕ × Request) (ℕ × Response)

/-- The main thread and the Worker. -/
def parties : Parties Host Worker (ℕ × Request) (ℕ × Response) Host.Act Worker.Act where
  actLeft := Host.act T
  actRight := Worker.act
  onLeft := Host.handleMessage
  onRight := Worker.handleRequest T

/-- No read was made and nothing was closed. -/
def start : State where
  left :=
    { rpc := .initial
      flights := []
      singleflight := []
      calls := []
      closedTables := []
      closedDatasets := [] }
  right := { closedTables := [], closedDatasets := [], active := [] }
  toRight := []
  toLeft := []

end Tabulark.Engine.Flights
