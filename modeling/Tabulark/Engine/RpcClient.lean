import Tabulark.Engine.ProtocolMessage
import Tabulark.Lib.InsertionMap

/-!
# The client of the Worker

The main thread sends requests to the Worker under numbers of their own and waits
for the responses. A request ends when its response comes in, its signal is
aborted, it cannot be posted, or the client stops: because a reply is late, a
message or a listener breaks the protocol, the Worker fails, or the engine closes.

Listeners are code of the engine that may call the client again. An `Action`
therefore holds what the listeners do while it is under way, and the trace keeps
everything that happened, in order.
-/

namespace Tabulark.Engine.Rpc

/-! ## Requests -/

/-- An error of the client or of the Worker. -/
inductive RpcError
  | coded (code message : String)
  | serialized (error : JsValue)

def cancelledError : RpcError := .coded "CANCELLED" "The operation was cancelled"

def closedError (resource : String) : RpcError := .coded "HANDLE_CLOSED" (resource ++ " is closed")

def runtimeFailure (message : String) : RpcError := .coded "RUNTIME_FAILURE" message

def protocolIncompatible (message : String) : RpcError := .coded "PROTOCOL_INCOMPATIBLE" message

/-- How a request ends. -/
inductive Outcome
  | resolved (data : JsValue)
  | rejected (error : RpcError)

structure RequestOptions where
  signal : Option ℕ := none
  timeoutMs : Option ℕ := none
  measure : Bool := false
  /-- There is a callback for the telemetry. -/
  onTelemetry : Bool := false

/-- A request without a response. The signal and the timeout are what its cleanup disposes of. -/
structure PendingRequest where
  op : Operation
  expectedKind : ResponseKind
  signal : Option ℕ
  timeoutMs : Option ℕ
  onTelemetry : Bool

/-- A message to the Worker. -/
inductive Post
  | request (requestId : String) (op : Operation) (payload : JsValue) (measure : Bool)
  | cancel (requestId targetRequestId : String)
  | broker (value : JsValue)

/-- What is seen of the client from outside, and what it is told. -/
inductive Observation
  /-- A request is made under a number. -/
  | requested (requestId : String) (expectedKind : ResponseKind)
  /-- A request is refused before it has a number. -/
  | refused (error : RpcError)
  /-- The Worker is posted a message, and takes it or throws. -/
  | posted (post : Post) (delivered : Bool)
  /-- A message comes in. -/
  | received (value : JsValue)
  /-- The signal of a pending request is aborted. -/
  | aborted (requestId : String)
  | telemetry (requestId : String) (value : Option OperationTelemetry)
  /-- The promise of a request is resolved or rejected. -/
  | settled (requestId : String) (outcome : Outcome)
  | stopped
  /-- The engine is told that the client failed. -/
  | failed (error : RpcError)

/-- `WorkerRpcClient`, the signals that are aborted, and the trace, the last observation first. -/
structure RpcClient where
  pending : InsertionMap String PendingRequest := .empty
  nextRequestId : ℕ := 1
  closed : Bool := false
  aborted : List ℕ := []
  /-- The requests that a shutdown waits for. -/
  shutdowns : List String := []
  trace : List Observation := []

/-- The text of a request number. -/
def requestIdText (n : ℕ) : String := "r" ++ toString n

namespace RpcClient

/-- Something is observed. -/
def note (c : RpcClient) (o : Observation) : RpcClient := { c with trace := o :: c.trace }

/-- A request ends. -/
def settle (c : RpcClient) (requestId : String) (outcome : Outcome) : RpcClient :=
  c.note (.settled requestId outcome)

/-- A request is pending no more, and its cleanup is done. -/
def drop (c : RpcClient) (requestId : String) : RpcClient :=
  { c with pending := c.pending.delete requestId }

/-- Sends a private message to the Worker; a failure is ignored. -/
def postMessage (c : RpcClient) (value : JsValue) (delivered : Bool) : RpcClient :=
  if c.closed then c else c.note (.posted (.broker value) delivered)

/-- Puts a request under the next number. -/
def place (c : RpcClient) (op : Operation) (expectedKind : ResponseKind)
    (options : RequestOptions) : RpcClient where
  pending := c.pending.set (requestIdText c.nextRequestId) {
    op, expectedKind
    signal := options.signal
    timeoutMs := options.timeoutMs.map (max 1)
    onTelemetry := options.onTelemetry }
  nextRequestId := c.nextRequestId + 1
  closed := c.closed
  aborted := c.aborted
  shutdowns := c.shutdowns
  trace := .requested (requestIdText c.nextRequestId) expectedKind :: c.trace

/-- Makes a request. -/
def request (c : RpcClient) (op : Operation) (payload : JsValue) (expectedKind : ResponseKind)
    (options : RequestOptions) (delivered : Bool) : RpcClient :=
  if c.closed then c.note (.refused (closedError "Engine"))
  else if options.signal.any fun signal => signal ∈ c.aborted then
    c.note (.refused cancelledError)
  else
    let requestId := requestIdText c.nextRequestId
    let c := (c.place op expectedKind options).note
      (.posted (.request requestId op payload options.measure) delivered)
    if delivered then c
    else (c.drop requestId).settle requestId
      (.rejected (runtimeFailure "Could not send a request to the Worker"))

/-- Asks the Worker to cancel a request. -/
def postCancel (c : RpcClient) (targetRequestId : String) (delivered : Bool) : RpcClient :=
  if c.closed then c
  else { c with nextRequestId := c.nextRequestId + 1 }.note
    (.posted (.cancel (requestIdText c.nextRequestId) targetRequestId) delivered)

/-- The abort listener of a request. -/
def abortRequest (delivered : String → Bool) (c : RpcClient) (requestId : String) : RpcClient :=
  match c.pending.get? requestId with
  | none => c
  | some _ =>
    (((c.note (.aborted requestId)).drop requestId).postCancel requestId
      (delivered requestId)).settle requestId (.rejected cancelledError)

/-- The pending requests that listen to a signal. -/
def listeners (c : RpcClient) (signal : ℕ) : List String :=
  (c.pending.entries.filter fun e => e.2.signal = some signal).map Prod.fst

/-- A signal is aborted, and its listeners run. A second time it does nothing. -/
def abort (c : RpcClient) (signal : ℕ) (delivered : String → Bool) : RpcClient :=
  if signal ∈ c.aborted then c
  else (c.listeners signal).foldl (abortRequest delivered)
    { c with aborted := signal :: c.aborted }

/-- Rejects what is pending. -/
def failPending (c : RpcClient) (error : RpcError) : RpcClient :=
  { c.pending.entries.foldl (fun c e => c.settle e.1 (.rejected error)) c with pending := .empty }

/-- Stops the client. -/
def stop (c : RpcClient) (error : RpcError) : RpcClient :=
  { c with closed := true }.note .stopped |>.failPending error

/-- Stops the client unless it is stopped, and tells the engine, whose listener runs. -/
def failRuntime (c : RpcClient) (error : RpcError) (onFailure : RpcClient → RpcClient) :
    RpcClient :=
  if c.closed then c else onFailure ((c.stop error).note (.failed error))

/-- Stops the client, and tells the engine if it is to be told. -/
def terminate (c : RpcClient) (error : RpcError) (notifyFailure : Bool)
    (onFailure : RpcClient → RpcClient) : RpcClient :=
  if notifyFailure then c.failRuntime error onFailure
  else if c.closed then c else c.stop error

/-- The response of a request that was pending until it came in. -/
def deliver (c : RpcClient) (requestId : String) (expectedKind : ResponseKind) (value : JsValue)
    (onFailure : RpcClient → RpcClient) : RpcClient :=
  if (value.prop "status").isText "failure" then
    c.settle requestId (.rejected (.serialized (value.prop "error")))
  else
    let kind := ((value.prop "result").prop "kind").text?.getD ""
    if kind ≠ expectedKind.text then
      let error := protocolIncompatible
        ("Expected a " ++ expectedKind.text ++ " response, received " ++ kind)
      (c.settle requestId (.rejected error)).failRuntime error onFailure
    else c.settle requestId (.resolved ((value.prop "result").prop "data"))

/-- The telemetry of a response. -/
def telemetryOf (value : JsValue) : JsValue :=
  if (value.prop "status").isText "failure" then value.prop "telemetry"
  else (value.prop "result").prop "telemetry"

/-- A response of the expected kind, or a failure: its telemetry is reported. -/
def reportsTelemetry (expectedKind : ResponseKind) (value : JsValue) : Bool :=
  (value.prop "status").isText "failure" ||
    ((value.prop "result").prop "kind").isText expectedKind.text

/-- A response comes in. What the callback for the telemetry throws, the request never learns. -/
def handleResponse (c : RpcClient) (value : JsValue) (onListener : RpcClient → RpcClient)
    (throws : Bool) (onFailure : RpcClient → RpcClient) : RpcClient :=
  let requestId := (value.prop "requestId").text?.getD ""
  match c.pending.get? requestId with
  | none => c
  | some pending =>
    let c := c.drop requestId
    if pending.onTelemetry && reportsTelemetry pending.expectedKind value then
      let c := onListener (c.note (.telemetry requestId (optionsTelemetry (telemetryOf value))))
      if throws then c else c.deliver requestId pending.expectedKind value onFailure
    else c.deliver requestId pending.expectedKind value onFailure

/-- A message comes in, unless the client has stopped listening. The listener it is handed to
    runs, and may throw. -/
def handleMessage (c : RpcClient) (value : JsValue) (onListener : RpcClient → RpcClient)
    (throws : Bool) (onFailure : RpcClient → RpcClient) : RpcClient :=
  if c.closed then c
  else
    let c := c.note (.received value)
    if isSourceBrokerMessage value then
      let c := onListener c
      if throws then c.failRuntime (runtimeFailure "The Worker source broker failed") onFailure
      else c
    else if isValidProtocolEvent value then
      let c := onListener c
      if throws then
        c.failRuntime (protocolIncompatible "The Worker emitted an invalid runtime event") onFailure
      else c
    else if looksLikeProtocolEvent value ||
        (looksLikeProtocolResponse value && !isValidProtocolResponse value) then
      c.failRuntime (protocolIncompatible
        "The Worker returned a malformed or incompatible protocol message") onFailure
    else if !isValidProtocolResponse value then c
    else c.handleResponse value onListener throws onFailure

/-- The timer of a request goes off, if it is still pending. -/
def expire (c : RpcClient) (requestId : String) (onFailure : RpcClient → RpcClient) : RpcClient :=
  match c.pending.get? requestId with
  | some { op, timeoutMs := some timeoutMs, .. } =>
    c.failRuntime (runtimeFailure ("The Tabulark Worker did not respond to " ++ op.text ++
      " within " ++ toString timeoutMs ++ "ms")) onFailure
  | _ => c

/-- How the Worker fails. -/
inductive WorkerFailure
  | error (message : String)
  | messageError

/-- The text of a failure of the Worker. -/
def WorkerFailure.text : WorkerFailure → String
  | error message =>
    if message = "" then "The Tabulark Worker stopped unexpectedly" else message
  | messageError => "The Tabulark Worker could not deserialize a message"

/-- Starts a shutdown: a request whose end terminates the client. -/
def shutdown (c : RpcClient) (timeoutMs : ℕ) (measure onTelemetry delivered : Bool) : RpcClient :=
  if c.closed then c
  else { c.request .shutdown (.record []) .acknowledged
      { timeoutMs := some timeoutMs, measure, onTelemetry } delivered with
    shutdowns := requestIdText c.nextRequestId :: c.shutdowns }

/-- The request of a shutdown has ended, and the client is terminated. -/
def finishShutdown (c : RpcClient) (requestId : String) : RpcClient :=
  if requestId ∈ c.shutdowns ∧ c.pending.get? requestId = none then
    c.terminate (runtimeFailure "The Tabulark Worker was terminated") false id
  else c

end RpcClient

/-! ## Actions -/

/-- What happens to a client, with what the listeners do meanwhile. -/
inductive Action
  | request (op : Operation) (payload : JsValue) (expectedKind : ResponseKind)
      (options : RequestOptions) (delivered : Bool)
  | postMessage (value : JsValue) (delivered : Bool)
  | abort (signal : ℕ) (delivered : String → Bool)
  | expire (requestId : String) (onFailure : List Action)
  | message (value : JsValue) (onListener : List Action) (throws : Bool) (onFailure : List Action)
  | workerFailure (failure : RpcClient.WorkerFailure) (onFailure : List Action)
  | shutdown (timeoutMs : ℕ) (measure onTelemetry delivered : Bool)
  | finishShutdown (requestId : String)
  | terminate (error : RpcError) (notifyFailure : Bool) (onFailure : List Action)

mutual

/-- The client after an action. -/
def act : Action → RpcClient → RpcClient
  | .request op payload expectedKind options delivered, c =>
    c.request op payload expectedKind options delivered
  | .postMessage value delivered, c => c.postMessage value delivered
  | .abort signal delivered, c => c.abort signal delivered
  | .expire requestId onFailure, c => c.expire requestId (acts onFailure)
  | .message value onListener throws onFailure, c =>
    c.handleMessage value (acts onListener) throws (acts onFailure)
  | .workerFailure failure onFailure, c =>
    c.failRuntime (runtimeFailure failure.text) (acts onFailure)
  | .shutdown timeoutMs measure onTelemetry delivered, c =>
    c.shutdown timeoutMs measure onTelemetry delivered
  | .finishShutdown requestId, c => c.finishShutdown requestId
  | .terminate error notifyFailure onFailure, c =>
    c.terminate error notifyFailure (acts onFailure)

/-- The client after some actions. -/
def acts : List Action → RpcClient → RpcClient
  | [], c => c
  | a :: as, c => acts as (act a c)

end

end Tabulark.Engine.Rpc
