import Tabulark.Lib.JsValue

/-!
# Messages from the Worker

Whatever the Worker posts is checked before the main thread acts on it: a request
for source bytes, an event, or the response to a request. What looks like an event
or a response and is none is an error of the protocol; anything else is ignored.
-/

namespace Tabulark.Engine

open JsValue

def protocolVersion : ℕ := 4

/-- What the main thread asks the Worker for. -/
inductive Operation
  | hello
  | openSource
  | listTables
  | openTable
  | getMetadata
  | getPresentation
  | readPresentationRange
  | readRange
  | cancel
  | closeTable
  | closeSource
  | shutdown
  deriving DecidableEq

/-- The name of an operation in a message. -/
def Operation.text : Operation → String
  | hello => "hello"
  | openSource => "openSource"
  | listTables => "listTables"
  | openTable => "openTable"
  | getMetadata => "getMetadata"
  | getPresentation => "getPresentation"
  | readPresentationRange => "readPresentationRange"
  | readRange => "readRange"
  | cancel => "cancel"
  | closeTable => "closeTable"
  | closeSource => "closeSource"
  | shutdown => "shutdown"

/-- What a response to a request holds. -/
inductive ResponseKind
  | hello
  | dataset
  | tables
  | table
  | metadata
  | presentation
  | presentationRange
  | batch
  | acknowledged
  deriving DecidableEq

namespace ResponseKind

/-- The name of a kind in a message. -/
def text : ResponseKind → String
  | hello => "hello"
  | dataset => "dataset"
  | tables => "tables"
  | table => "table"
  | metadata => "metadata"
  | presentation => "presentation"
  | presentationRange => "presentationRange"
  | batch => "batch"
  | acknowledged => "acknowledged"

/-- The kinds of responses. -/
def all : List ResponseKind :=
  [hello, dataset, tables, table, metadata, presentation, presentationRange, batch, acknowledged]

/-- The kind of a name. -/
def ofText? (name : String) : Option ResponseKind := all.find? fun kind => kind.text = name

end ResponseKind

/-! ## Checks -/

/-- An object has a property of its own. -/
def hasProp (value : JsValue) (name : String) : Bool :=
  match value with
  | .record fields => (fields.lookup name).isSome
  | _ => false

def eventNames : List String := ["progress", "metadata", "warning", "closed", "runtimeError"]

def isSourceBrokerMessage (value : JsValue) : Bool :=
  value.isRecord && ((value.prop "type").isText "source-read" ||
    (value.prop "type").isText "source-read-cancel" || (value.prop "type").isText "source-close")

def isString (value : JsValue) : Bool := value.text?.isSome

/-- A text that is not empty. -/
def isNonEmptyText (value : JsValue) : Bool := value.text?.any fun text => text ≠ ""

def optionalNonEmptyString (value : JsValue) : Bool := value.isUndefined || isNonEmptyText value

def optionalNonNegativeInteger (value : JsValue) : Bool :=
  value.isUndefined || value.safeNat?.isSome

def isSerializedError (value : JsValue) : Bool :=
  value.isRecord && isString (value.prop "code") && isString (value.prop "message") &&
    ((value.prop "retryable").isTrue || (value.prop "retryable").isFalse)

/-- A response that follows the protocol. -/
def isValidProtocolResponse (value : JsValue) : Bool :=
  value.isRecord && (value.prop "protocolVersion").isNumber protocolVersion &&
    isNonEmptyText (value.prop "requestId") &&
    if (value.prop "status").isText "success" then
      (value.prop "result").isRecord &&
        ((value.prop "result").prop "kind").text?.any fun name => (ResponseKind.ofText? name).isSome
    else if (value.prop "status").isText "failure" then isSerializedError (value.prop "error")
    else false

/-- An event that follows the protocol: only an error of the runtime names no dataset. -/
def isValidProtocolEvent (value : JsValue) : Bool :=
  value.isRecord && (value.prop "protocolVersion").isNumber protocolVersion &&
    ((value.prop "event").text?.any fun name => name ∈ eventNames) && hasProp value "payload" &&
    optionalNonEmptyString (value.prop "requestId") &&
    optionalNonEmptyString (value.prop "datasetHandle") &&
    optionalNonEmptyString (value.prop "tableHandle") &&
    optionalNonEmptyString (value.prop "tableId") &&
    optionalNonNegativeInteger (value.prop "revision") &&
    if !(value.prop "tableHandle").isUndefined && (value.prop "datasetHandle").isUndefined then
      false
    else if (value.prop "event").isText "runtimeError" then
      !(value.prop "datasetHandle").isUndefined ||
        ((value.prop "tableHandle").isUndefined && (value.prop "tableId").isUndefined)
    else !(value.prop "datasetHandle").isUndefined

def looksLikeProtocolResponse (value : JsValue) : Bool :=
  value.isRecord && (hasProp value "requestId" || hasProp value "status" ||
    hasProp value "result" || hasProp value "error")

def looksLikeProtocolEvent (value : JsValue) : Bool := value.isRecord && hasProp value "event"

/-! ## Telemetry -/

/-- What an operation has cost the Worker. -/
structure OperationTelemetry where
  bytesRead : ℕ
  peakReservationBytes : ℕ
  sourceReads : ℕ
  sourceCacheHitBytes : ℕ

/-- A number is a safe integer. -/
def isSafeInteger : JsValue → Bool
  | .number value => value.den = 1 ∧ |value| ≤ maxSafe
  | _ => false

/-- The value of a safe integer, and zero for what is none or is negative. -/
def telemetryQuantity (value : JsValue) (key : String) : ℕ := ((value.prop key).safeNat?).getD 0

/-- The telemetry that a callback is told. -/
def optionsTelemetry (value : JsValue) : Option OperationTelemetry :=
  if value.isRecord && isSafeInteger (value.prop "bytesRead") &&
      isSafeInteger (value.prop "peakReservationBytes") then
    some {
      bytesRead := telemetryQuantity value "bytesRead"
      peakReservationBytes := telemetryQuantity value "peakReservationBytes"
      sourceReads := telemetryQuantity value "sourceReads"
      sourceCacheHitBytes := telemetryQuantity value "sourceCacheHitBytes" }
  else none

/-! ## What a valid response holds -/

variable {value : JsValue}

/-- A valid response names its request. -/
theorem requestId_of_isValidProtocolResponse (h : isValidProtocolResponse value = true) :
    ∃ id, value.prop "requestId" = .text id := by
  simp only [isValidProtocolResponse, Bool.and_eq_true] at h
  obtain ⟨⟨_, hid⟩, _⟩ := h
  rw [isNonEmptyText, Option.any_eq_true] at hid
  obtain ⟨id, hid, _⟩ := hid
  exact ⟨id, text?_eq_some.1 hid⟩

/-- A valid response that is no failure is a success, of some kind. -/
theorem success_of_isValidProtocolResponse (h : isValidProtocolResponse value = true)
    (hstatus : ¬(value.prop "status").isText "failure" = true) :
    (value.prop "status").isText "success" = true ∧
      ∃ kind, (value.prop "result").prop "kind" = .text kind := by
  simp only [isValidProtocolResponse, Bool.and_eq_true] at h
  obtain ⟨_, hbody⟩ := h
  split_ifs at hbody with hsuccess
  · rw [Bool.and_eq_true, Option.any_eq_true] at hbody
    obtain ⟨_, kind, hkind, _⟩ := hbody
    exact ⟨hsuccess, kind, text?_eq_some.1 hkind⟩

end Tabulark.Engine
