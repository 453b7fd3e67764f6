import Mathlib
import Tabulark.Lib.JsValue

/-!
# Requests to a document Worker

Each document has a Worker of its own. A request to it is pending until the Worker
responds with the number and the generation of the request, the signal of the request
is aborted, the generation ends, or the Worker fails.

* `RpcClient.Sound`: what holds of a client at all times;
* `RpcClient.Settles`: what an operation that makes no request does.
-/

namespace Tabulark.Document

open JsValue

/-! ## Errors -/

inductive DocumentErrorCode
  | unsupportedFormat
  | parseFailed
  | layoutFailed
  | renderFailed
  | resourceLimit
  | cancelled
  | passwordRequired
  | unsupportedEncryption
  | protocolIncompatible
  | handleClosed
  | runtimeFailure
  deriving DecidableEq, Repr

/-- The code of an error, as messages have it. -/
def errorCodes : List (String × DocumentErrorCode) :=
  [("UNSUPPORTED_FORMAT", .unsupportedFormat), ("PARSE_FAILED", .parseFailed),
    ("LAYOUT_FAILED", .layoutFailed), ("RENDER_FAILED", .renderFailed),
    ("RESOURCE_LIMIT", .resourceLimit), ("CANCELLED", .cancelled),
    ("PASSWORD_REQUIRED", .passwordRequired),
    ("UNSUPPORTED_ENCRYPTION", .unsupportedEncryption),
    ("PROTOCOL_INCOMPATIBLE", .protocolIncompatible), ("HANDLE_CLOSED", .handleClosed),
    ("RUNTIME_FAILURE", .runtimeFailure)]

structure DocumentPreviewError where
  code : DocumentErrorCode
  message : String
  details : Option JsValue := none

/-- What is thrown: an error of a document, a type error, what a Worker sent as an error, or what
    code from outside threw. -/
inductive Thrown
  | document (error : DocumentPreviewError)
  | type (message : String)
  | range (message : String)
  | sent (error : JsValue)
  | foreign

def cancelledError : DocumentPreviewError where
  code := .cancelled
  message := "The document operation was cancelled"

def closedError : DocumentPreviewError where
  code := .handleClosed
  message := "The document session is closed"

def asDocumentError (value : Thrown) (fallback : DocumentErrorCode) : DocumentPreviewError :=
  match value with
  | .document error => error
  | .sent error =>
    let code := (error.prop "code").text?.bind fun code => errorCodes.lookup code
    match code with
    | some code =>
      let details := error.prop "details"
      { code
        message := (error.prop "message").text?.getD "The document operation failed"
        details := if details.isRecord then some details else none }
    | none => { code := fallback, message := "The document operation failed" }
  | _ => { code := fallback, message := "The document operation failed" }

/-! ## Messages -/

def documentProtocol : String := "document-protocol-v1"

inductive DocumentFormat
  | pdf
  | docx
  deriving DecidableEq, Repr

structure WorkerLimits where
  memoryBudgetBytes : ℕ
  maxInputBytes : ℕ
  maxIntermediateBytes : ℕ
  maxPagePixels : ℕ
  maxPages : ℕ
  deriving DecidableEq, Repr

/-- What a request asks for. -/
inductive RequestBody
  | hello
  | open (sessionId : String) (format : DocumentFormat) (bytes : List UInt8)
      (limits : WorkerLimits) (assetBaseUrl : Option String)
  | pageInfo (sessionId : String) (pageIndex : ℕ)
  | renderPage (sessionId : String) (pageIndex pixelWidth : ℕ)
  | cancel (sessionId : String) (targetRequestId : ℕ)
  | close (sessionId : String)
  | shutdown
  deriving DecidableEq, Repr

/-- The session that a request is about; the empty text if there is none. -/
def RequestBody.sessionId : RequestBody → String
  | .open sessionId .. | .pageInfo sessionId _ | .renderPage sessionId _ _
  | .cancel sessionId _ | .close sessionId => sessionId
  | .hello | .shutdown => ""

def RequestBody.isRenderPage : RequestBody → Bool
  | .renderPage .. => true
  | _ => false

structure DocumentRequest where
  requestId : ℕ
  generation : ℕ
  body : RequestBody
  deriving DecidableEq, Repr

def isDiagnostic (value : JsValue) : Bool :=
  value.isRecord && ((value.prop "severity").isText "warning" ||
    (value.prop "severity").isText "error") && (value.prop "code").text?.isSome &&
      (value.prop "message").text?.isSome

/-- Whether a value has a property, be it undefined. -/
def hasProp (value : JsValue) (name : String) : Bool :=
  match value with
  | .record fields => fields.any (·.1 == name)
  | _ => false

def isWorkerMessage (value : JsValue) : Bool :=
  value.isRecord && (value.prop "protocol").isText documentProtocol &&
    (value.prop "generation").safeNat?.isSome &&
    if (value.prop "kind").isText "diagnostic" then isDiagnostic (value.prop "diagnostic")
    else
      (value.prop "kind").isText "response" && (value.prop "requestId").safeNat?.isSome &&
        if (value.prop "ok").isTrue then (value.prop "result").isRecord
        else (value.prop "ok").isFalse && hasProp value "error"

/-! ## Clients -/

/-- How the promise of a request is settled: with the message of a Worker, or with an error. -/
inductive Outcome
  | resolved (message : JsValue)
  | rejected (error : DocumentPreviewError)

structure Settlement where
  request : DocumentRequest
  outcome : Outcome

/-- A settlement is a rejection, or comes from a response to the request. -/
def Settlement.Answers (settlement : Settlement) : Prop :=
  ∀ message, settlement.outcome = .resolved message → isWorkerMessage message = true ∧
    (message.prop "requestId").isNumber settlement.request.requestId = true ∧
    (message.prop "generation").isNumber settlement.request.generation = true

/-- A request that waits, and its signal. -/
structure PendingRequest where
  request : DocumentRequest
  signal : Option ℕ

/-- The client of a Worker, with what it sent, how the promises of its requests were settled, and
    how often it terminated the Worker. -/
structure RpcClient where
  /-- The requests that the Worker cannot be sent. -/
  rejects : DocumentRequest → Bool
  nextRequestId : ℕ := 1
  generation : ℕ := 1
  stopped : Bool := false
  pending : List PendingRequest := []
  posted : List DocumentRequest := []
  settlements : List Settlement := []
  terminations : ℕ := 0

namespace RpcClient

variable (client : RpcClient)

/-- How the promise of a request was settled, if it was. -/
def outcome? (requestId : ℕ) : Option Outcome :=
  (client.settlements.find? (·.request.requestId == requestId)).map (·.outcome)

/-- Settles a promise that is not settled. -/
def finish (request : DocumentRequest) (outcome : Outcome) : RpcClient :=
  if (client.outcome? request.requestId).isSome then client
  else { client with settlements := client.settlements ++ [⟨request, outcome⟩] }

def delete (requestId : ℕ) : RpcClient :=
  { client with pending := client.pending.filter (·.request.requestId != requestId) }

/-- Sends a request to the Worker; it may throw. -/
def postMessage (request : DocumentRequest) : RpcClient :=
  if client.rejects request then client
  else { client with posted := client.posted ++ [request] }

/-- Puts a request under the next number. -/
def place (request : DocumentRequest) (signal : Option ℕ) : RpcClient :=
  { client with
    nextRequestId := client.nextRequestId + 1
    pending := client.pending ++ [⟨request, signal⟩] }

/-- Makes a request: the number of its promise, or an error if the promise is rejected at once. -/
def request (body : RequestBody) (signal : Option ℕ) (aborted : Bool) :
    RpcClient × Except DocumentPreviewError ℕ :=
  if client.stopped then (client, .error closedError)
  else if aborted then (client, .error cancelledError)
  else
    let request : DocumentRequest := ⟨client.nextRequestId, client.generation, body⟩
    let client := client.place request signal
    if client.rejects request then
      let error := asDocumentError .foreign .runtimeFailure
      ((client.delete request.requestId).finish request (.rejected error), .ok request.requestId)
    else (client.postMessage request, .ok request.requestId)

/-- The abort listener of a request. It asks the Worker to cancel the request. -/
def onAbort (entry : PendingRequest) : RpcClient :=
  let request := entry.request
  let cancel : DocumentRequest :=
    ⟨client.nextRequestId, request.generation, .cancel request.body.sessionId request.requestId⟩
  let client := client.delete request.requestId
  let client := { client with nextRequestId := client.nextRequestId + 1 }.postMessage cancel
  client.finish request (.rejected cancelledError)

/-- A signal is aborted. -/
def abort (signal : ℕ) : RpcClient :=
  (client.pending.filter (·.signal == some signal)).foldl onAbort client

/-- Rejects all requests that wait. -/
def rejectAll (error : DocumentPreviewError) : RpcClient :=
  { client.pending.foldl (fun client entry => client.finish entry.request (.rejected error)) client
    with pending := [] }

def bumpGeneration : RpcClient :=
  { client with generation := client.generation + 1 }.rejectAll cancelledError

def terminate : RpcClient :=
  if client.stopped then client
  else
    let client := { client with stopped := true }.bumpGeneration
    { client with terminations := client.terminations + 1 }

/-- The Worker sends a message, which settles the request that it responds to. -/
def onMessage (data : JsValue) : RpcClient :=
  if client.stopped ∨ ¬isWorkerMessage data ∨ (data.prop "kind").isText "diagnostic" then client
  else
    let entry := client.pending.find? fun entry =>
      (data.prop "requestId").isNumber entry.request.requestId
    match entry with
    | none => client
    | some ⟨request, _⟩ =>
      if ¬(data.prop "generation").isNumber request.generation then client
      else
        let outcome : Outcome :=
          if (data.prop "ok").isTrue then .resolved data
          else .rejected (asDocumentError (.sent (data.prop "error")) .runtimeFailure)
        (client.delete request.requestId).finish request outcome

/-- The Worker fails. -/
def onError : RpcClient :=
  if client.stopped then client
  else client.rejectAll
    { code := .runtimeFailure, message := "The document Worker stopped unexpectedly" }

/-! ## What holds of clients -/

/-- The settlements have different requests, which were all made. -/
structure Log : Prop where
  nodup : (client.settlements.map (·.request.requestId)).Nodup
  lt_next : ∀ settlement ∈ client.settlements,
    settlement.request.requestId < client.nextRequestId
  answers : ∀ settlement ∈ client.settlements, settlement.Answers

/-- Every request has its own number, and waits or is settled; the Worker is terminated if the
    client is stopped, and no request waits then. -/
structure Sound : Prop where
  log : client.Log
  nodup : (client.pending.map (·.request.requestId)).Nodup
  lt_next : ∀ entry ∈ client.pending, entry.request.requestId < client.nextRequestId
  waiting : ∀ entry ∈ client.pending, client.outcome? entry.request.requestId = none
  pending_nil : client.stopped = true → client.pending = []
  terminations : client.terminations = if client.stopped then 1 else 0

/-- A request waits or is settled. -/
def Tracks (requestId : ℕ) : Prop :=
  (∃ entry ∈ client.pending, entry.request.requestId = requestId) ∨
    (client.outcome? requestId).isSome

/-- What a client becomes that makes no request. -/
structure Settles (client' : RpcClient) : Prop where
  sound : client'.Sound
  stopped : client'.stopped = client.stopped
  le_next : client.nextRequestId ≤ client'.nextRequestId
  pending : ∀ entry ∈ client'.pending, entry ∈ client.pending
  tracks : ∀ requestId, client.Tracks requestId → client'.Tracks requestId

/-- What a client becomes that makes a request. -/
structure Requests (body : RequestBody) (requestId : ℕ) (client' : RpcClient) : Prop where
  sound : client'.Sound
  running : client.stopped = false
  stopped : client'.stopped = false
  pending : ∀ entry ∈ client'.pending, entry ∈ client.pending ∨
    entry.request.requestId = requestId ∧ entry.request.body = body
  tracks : client'.Tracks requestId

variable {client} {client' client'' : RpcClient}

variable {requestId : ℕ}

theorem outcome?_eq_none : client.outcome? requestId = none ↔
    ∀ settlement ∈ client.settlements, settlement.request.requestId ≠ requestId := by
  simp [outcome?]

theorem outcome?_finish (request : DocumentRequest) (outcome : Outcome) (requestId : ℕ) :
    (client.finish request outcome).outcome? requestId =
      if requestId = request.requestId then some ((client.outcome? requestId).getD outcome)
      else client.outcome? requestId := by
  unfold finish
  split
  · rename_i hsome
    split
    · rename_i heq
      subst heq
      obtain ⟨o, ho⟩ := Option.isSome_iff_exists.1 hsome
      rw [ho]
      rfl
    · rfl
  · rename_i hnone
    rw [Option.not_isSome_iff_eq_none, outcome?, Option.map_eq_none_iff] at hnone
    split
    · rename_i heq
      subst heq
      simp [outcome?, List.find?_append, hnone]
    · rename_i hne
      have hfalse : (request.requestId == requestId) = false := by
        simpa using fun heq => hne (Eq.symm heq)
      simp [outcome?, List.find?_append, hfalse]

/-- A promise that is settled stays so. -/
theorem outcome?_finish_of_some {o : Outcome}
    (h : client.outcome? requestId = some o) (request : DocumentRequest) (outcome : Outcome) :
    (client.finish request outcome).outcome? requestId = some o := by
  rw [outcome?_finish, h]
  split <;> rfl

section frame

variable (request : DocumentRequest) (outcome : Outcome)

@[simp] theorem finish_pending : (client.finish request outcome).pending = client.pending := by
  unfold finish
  split <;> rfl

@[simp] theorem finish_stopped : (client.finish request outcome).stopped = client.stopped := by
  unfold finish
  split <;> rfl

@[simp] theorem finish_nextRequestId :
    (client.finish request outcome).nextRequestId = client.nextRequestId := by
  unfold finish
  split <;> rfl

@[simp] theorem finish_terminations :
    (client.finish request outcome).terminations = client.terminations := by
  unfold finish
  split <;> rfl

@[simp] theorem postMessage_pending : (client.postMessage request).pending = client.pending := by
  unfold postMessage
  split <;> rfl

@[simp] theorem postMessage_stopped : (client.postMessage request).stopped = client.stopped := by
  unfold postMessage
  split <;> rfl

@[simp] theorem postMessage_nextRequestId :
    (client.postMessage request).nextRequestId = client.nextRequestId := by
  unfold postMessage
  split <;> rfl

@[simp] theorem postMessage_terminations :
    (client.postMessage request).terminations = client.terminations := by
  unfold postMessage
  split <;> rfl

@[simp] theorem postMessage_settlements :
    (client.postMessage request).settlements = client.settlements := by
  unfold postMessage
  split <;> rfl

end frame

/-- Settling a request that was made keeps the settlements apart. -/
theorem Log.finish (h : client.Log) {request : DocumentRequest} {outcome : Outcome}
    (hlt : request.requestId < client.nextRequestId)
    (hanswers : (⟨request, outcome⟩ : Settlement).Answers) :
    (client.finish request outcome).Log := by
  unfold RpcClient.finish
  split
  · exact h
  · rename_i hnone
    rw [Option.not_isSome_iff_eq_none, outcome?_eq_none] at hnone
    refine ⟨?_, ?_, ?_⟩
    · rw [List.map_append, List.nodup_append]
      refine ⟨h.nodup, List.nodup_singleton _, ?_⟩
      rintro _ hmem _ hlast rfl
      obtain ⟨settlement, hsettlement, heq⟩ := List.mem_map.1 hmem
      exact hnone settlement hsettlement (heq.trans (List.mem_singleton.1 hlast))
    · exact List.forall_mem_append.2 ⟨h.lt_next, List.forall_mem_singleton.2 hlt⟩
    · exact List.forall_mem_append.2 ⟨h.answers, List.forall_mem_singleton.2 hanswers⟩

/-- A rejection answers any request. -/
theorem answers_rejected (request : DocumentRequest) (error : DocumentPreviewError) :
    (⟨request, .rejected error⟩ : Settlement).Answers := fun _ h => nomatch h

theorem sound_new (rejects : DocumentRequest → Bool) : ({ rejects } : RpcClient).Sound :=
  ⟨⟨List.nodup_nil, nofun, nofun⟩, List.nodup_nil, nofun, nofun, fun _ => rfl, rfl⟩

theorem Settles.refl (h : client.Sound) : client.Settles client :=
  ⟨h, rfl, le_rfl, fun _ h => h, fun _ h => h⟩

theorem Settles.trans (h : client.Settles client') (h' : client'.Settles client'') :
    client.Settles client'' :=
  ⟨h'.sound, h'.stopped.trans h.stopped, h.le_next.trans h'.le_next,
    fun entry hmem => h.pending entry (h'.pending entry hmem),
    fun requestId htracks => h'.tracks requestId (h.tracks requestId htracks)⟩

/-- A request that was made is settled, and waits no more. -/
theorem Sound.settle (h : client.Sound) {request : DocumentRequest} {outcome : Outcome}
    (hlt : request.requestId < client.nextRequestId)
    (hanswers : (⟨request, outcome⟩ : Settlement).Answers) :
    client.Settles ((client.delete request.requestId).finish request outcome) := by
  have hmem : ∀ entry, entry ∈ (client.delete request.requestId).pending →
      entry ∈ client.pending ∧ entry.request.requestId ≠ request.requestId := fun entry hentry => by
    simpa [delete] using hentry
  have hlog : (client.delete request.requestId).Log := ⟨h.log.nodup, h.log.lt_next, h.log.answers⟩
  refine ⟨⟨hlog.finish hlt hanswers, ?_, fun entry hentry => ?_, fun entry hentry => ?_,
    fun hstopped => ?_, ?_⟩, by simp [delete], by simp [delete], fun entry hentry => ?_,
    fun requestId htracks => ?_⟩
  · rw [finish_pending]
    exact h.nodup.sublist (List.filter_sublist.map _)
  · rw [finish_pending] at hentry
    simpa [delete] using h.lt_next entry (hmem entry hentry).1
  · rw [finish_pending] at hentry
    obtain ⟨hentry, hne⟩ := hmem entry hentry
    rw [outcome?_finish, if_neg hne]
    exact h.waiting entry hentry
  · simp only [finish_stopped] at hstopped
    simp [delete, h.pending_nil hstopped]
  · simpa [delete] using h.terminations
  · rw [finish_pending] at hentry
    exact (hmem entry hentry).1
  · by_cases heq : requestId = request.requestId
    · exact .inr (by rw [outcome?_finish, if_pos heq]; rfl)
    · refine htracks.imp ?_ fun hsome => by rwa [outcome?_finish, if_neg heq]
      rintro ⟨entry, hentry, rfl⟩
      exact ⟨entry, by simp [delete, hentry, heq], rfl⟩

/-- Sending something under a number of its own settles nothing. -/
theorem Sound.post (h : client.Sound) (request : DocumentRequest) :
    client.Settles
      ({ client with nextRequestId := client.nextRequestId + 1 }.postMessage request) := by
  have houtcome : ∀ requestId, ({ client with
      nextRequestId := client.nextRequestId + 1 }.postMessage request).outcome? requestId =
        client.outcome? requestId := fun requestId => by
    rw [outcome?, postMessage_settlements]
    rfl
  refine ⟨⟨⟨?_, ?_, ?_⟩, ?_, ?_, ?_, ?_, ?_⟩, by simp, by simp, by simp, ?_⟩
  · simpa using h.log.nodup
  · simpa using fun settlement hmem => (h.log.lt_next settlement hmem).trans (Nat.lt_succ_self _)
  · simpa using h.log.answers
  · simpa using h.nodup
  · simpa using fun entry hmem => (h.lt_next entry hmem).trans (Nat.lt_succ_self _)
  · simpa [houtcome] using h.waiting
  · simpa using h.pending_nil
  · simpa using h.terminations
  · simp [Tracks, houtcome]

theorem onAbort_eq (entry : PendingRequest) : client.onAbort entry =
    (({ client with nextRequestId := client.nextRequestId + 1 }.postMessage
      ⟨client.nextRequestId, entry.request.generation, .cancel entry.request.body.sessionId
        entry.request.requestId⟩).delete entry.request.requestId).finish entry.request
          (.rejected cancelledError) := by
  unfold onAbort postMessage delete
  dsimp only
  split <;> rfl

theorem Sound.onAbort (h : client.Sound) {entry : PendingRequest}
    (hlt : entry.request.requestId < client.nextRequestId) :
    client.Settles (client.onAbort entry) := by
  rw [onAbort_eq]
  have hpost := h.post ⟨client.nextRequestId, entry.request.generation,
    .cancel entry.request.body.sessionId entry.request.requestId⟩
  exact hpost.trans (hpost.sound.settle (hlt.trans_le hpost.le_next) (answers_rejected _ _))

theorem settles_foldl_onAbort (h : client.Sound) (entries : List PendingRequest)
    (hlt : ∀ entry ∈ entries, entry.request.requestId < client.nextRequestId) :
    client.Settles (entries.foldl RpcClient.onAbort client) := by
  induction entries generalizing client with
  | nil => exact .refl h
  | cons entry entries ih =>
    have hfirst := h.onAbort (hlt entry List.mem_cons_self)
    exact hfirst.trans (ih hfirst.sound fun other hmem =>
      (hlt other (List.mem_cons_of_mem _ hmem)).trans_le hfirst.le_next)

theorem Sound.abort (h : client.Sound) (signal : ℕ) : client.Settles (client.abort signal) :=
  settles_foldl_onAbort h _ fun entry hmem => h.lt_next entry (List.mem_of_mem_filter hmem)

theorem Sound.onMessage (h : client.Sound) (data : JsValue) :
    client.Settles (client.onMessage data) := by
  unfold RpcClient.onMessage
  split
  · exact .refl h
  rename_i hmessage
  push Not at hmessage
  dsimp only
  split
  · exact .refl h
  rename_i request signal hfind
  split
  · exact .refl h
  rename_i hgeneration
  rw [not_not] at hgeneration
  refine h.settle (h.lt_next _ (List.mem_of_find?_eq_some hfind)) fun message hresolved => ?_
  have hid := List.find?_some hfind
  split at hresolved
  · obtain rfl := Outcome.resolved.inj hresolved
    exact ⟨hmessage.2.1, hid, hgeneration⟩
  · exact nomatch hresolved

/-! ### Rejections -/

variable (client) in
/-- What a client becomes whose requests that wait are rejected. -/
structure Rejects (entries : List PendingRequest) (error : DocumentPreviewError)
    (client' : RpcClient) : Prop where
  log : client'.Log
  nextRequestId : client'.nextRequestId = client.nextRequestId
  stopped : client'.stopped = client.stopped
  terminations : client'.terminations = client.terminations
  settled : ∀ requestId outcome, client.outcome? requestId = some outcome →
    client'.outcome? requestId = some outcome
  rejected : ∀ entry ∈ entries, client.outcome? entry.request.requestId = none →
    client'.outcome? entry.request.requestId = some (.rejected error)

theorem Log.foldl_finish (h : client.Log) (entries : List PendingRequest)
    (hlt : ∀ entry ∈ entries, entry.request.requestId < client.nextRequestId)
    (error : DocumentPreviewError) : client.Rejects entries error (entries.foldl
      (fun client entry => client.finish entry.request (.rejected error)) client) := by
  induction entries generalizing client with
  | nil => exact ⟨h, rfl, rfl, rfl, fun _ _ h => h, fun _ h => absurd h List.not_mem_nil⟩
  | cons entry entries ih =>
    have hfirst := h.finish (hlt entry List.mem_cons_self) (answers_rejected entry.request error)
    obtain ⟨hlog, hnext, hstopped, hterminations, hsettled, hrejected⟩ :=
      ih hfirst fun other hmem => by simpa using hlt other (List.mem_cons_of_mem _ hmem)
    refine ⟨hlog, by simpa using hnext, by simpa using hstopped, by simpa using hterminations,
      fun id o ho => hsettled id o (outcome?_finish_of_some ho _ _), fun other hmem hnone => ?_⟩
    by_cases heq : other.request.requestId = entry.request.requestId
    · refine hsettled _ _ ?_
      rw [outcome?_finish, if_pos heq, hnone]
      rfl
    · obtain rfl | hmem := List.mem_cons.1 hmem
      · exact absurd rfl heq
      · exact hrejected other hmem (by rwa [outcome?_finish, if_neg heq])

theorem Log.rejectAll (h : client.Log)
    (hlt : ∀ entry ∈ client.pending, entry.request.requestId < client.nextRequestId)
    (error : DocumentPreviewError) :
    client.Rejects client.pending error (client.rejectAll error) := by
  obtain ⟨hlog, hnext, hstopped, hterminations, hsettled, hrejected⟩ :=
    h.foldl_finish client.pending hlt error
  exact ⟨⟨hlog.nodup, hlog.lt_next, hlog.answers⟩, hnext, hstopped, hterminations, hsettled,
    hrejected⟩

@[simp] theorem rejectAll_pending (error : DocumentPreviewError) :
    (client.rejectAll error).pending = [] := rfl

/-- A client that only rejects is sound. -/
theorem Rejects.settles {error : DocumentPreviewError}
    (h : client.Rejects client.pending error client') (hpending : client'.pending = [])
    (hsound : client.Sound) : client.Settles client' := by
  refine ⟨⟨h.log, by simp [hpending], by simp [hpending], by simp [hpending], fun _ => hpending,
    ?_⟩, h.stopped, h.nextRequestId.ge, by simp [hpending], fun requestId htracks => .inr ?_⟩
  · rw [h.terminations, h.stopped]
    exact hsound.terminations
  · obtain ⟨entry, hmem, rfl⟩ | hsome := htracks
    · rw [h.rejected entry hmem (hsound.waiting entry hmem)]
      rfl
    · obtain ⟨outcome, houtcome⟩ := Option.isSome_iff_exists.1 hsome
      rw [h.settled _ _ houtcome]
      rfl

theorem Sound.onError (h : client.Sound) : client.Settles client.onError := by
  unfold RpcClient.onError
  split
  · exact .refl h
  · exact (h.log.rejectAll h.lt_next _).settles rfl h

theorem Sound.bumpGeneration (h : client.Sound) : client.Settles client.bumpGeneration := by
  have hlog : ({ client with generation := client.generation + 1 } : RpcClient).Log :=
    ⟨h.log.nodup, h.log.lt_next, h.log.answers⟩
  obtain ⟨hlog, hnext, hstopped, hterminations, hsettled, hrejected⟩ :=
    hlog.rejectAll h.lt_next cancelledError
  exact Rejects.settles ⟨hlog, hnext, hstopped, hterminations, hsettled, hrejected⟩ rfl h

theorem terminate_of_stopped (h : client.stopped = true) : client.terminate = client := by
  rw [terminate, if_pos h]

/-- A client that is stopped rejects what waits, and terminates its Worker. -/
theorem Sound.terminate (h : client.Sound) : client.terminate.Sound ∧
    client.terminate.stopped = true ∧
    (∀ requestId outcome, client.outcome? requestId = some outcome →
      client.terminate.outcome? requestId = some outcome) ∧
    ∀ entry ∈ client.pending,
      client.terminate.outcome? entry.request.requestId = some (.rejected cancelledError) := by
  by_cases hstopped : client.stopped = true
  · rw [terminate_of_stopped hstopped]
    refine ⟨h, hstopped, fun _ _ h => h, fun entry hmem => ?_⟩
    rw [h.pending_nil hstopped] at hmem
    exact absurd hmem List.not_mem_nil
  · have hlog : ({ client with stopped := true, generation := client.generation + 1 } :
        RpcClient).Log := ⟨h.log.nodup, h.log.lt_next, h.log.answers⟩
    have hrejects := hlog.rejectAll h.lt_next cancelledError
    have hterminations : client.terminations = 0 := by rw [h.terminations, if_neg hstopped]
    rw [RpcClient.terminate, if_neg hstopped]
    refine ⟨⟨⟨hrejects.log.nodup, hrejects.log.lt_next, hrejects.log.answers⟩, List.nodup_nil,
      by simp [RpcClient.bumpGeneration], by simp [RpcClient.bumpGeneration], fun _ => rfl, ?_⟩,
      hrejects.stopped, hrejects.settled, fun entry hmem =>
        hrejects.rejected entry hmem (h.waiting entry hmem)⟩
    have hbumped : ({ client with stopped := true } : RpcClient).bumpGeneration.terminations = 0 :=
      hrejects.terminations.trans hterminations
    have hstays : ({ client with stopped := true } : RpcClient).bumpGeneration.stopped = true :=
      hrejects.stopped
    dsimp only
    rw [hbumped, hstays, if_pos rfl]

/-! ### Requests -/

theorem request_error {body : RequestBody} {signal : Option ℕ} {aborted : Bool}
    {error : DocumentPreviewError}
    (h : client.request body signal aborted = (client', .error error)) : client' = client := by
  unfold request at h
  dsimp only at h
  split at h
  · exact (congrArg Prod.fst h).symm
  split at h
  · exact (congrArg Prod.fst h).symm
  split at h
  · exact nomatch congrArg Prod.snd h
  · exact nomatch congrArg Prod.snd h

theorem Sound.postMessage (h : client.Sound) (request : DocumentRequest) :
    client.Settles (client.postMessage request) := by
  unfold RpcClient.postMessage
  split
  · exact .refl h
  · exact ⟨⟨⟨h.log.nodup, h.log.lt_next, h.log.answers⟩, h.nodup, h.lt_next, h.waiting,
      h.pending_nil, h.terminations⟩, rfl, le_rfl, fun _ hmem => hmem, fun _ htracks => htracks⟩

/-- A new request waits, with a number of its own. -/
theorem Sound.place (h : client.Sound) (hrunning : client.stopped = false)
    (request : DocumentRequest) (signal : Option ℕ)
    (hid : request.requestId = client.nextRequestId) :
    (client.place request signal).Sound := by
  refine ⟨⟨h.log.nodup, fun settlement hmem => (h.log.lt_next settlement hmem).trans
    (Nat.lt_succ_self _), h.log.answers⟩, ?_, ?_, ?_, fun hstopped => ?_, h.terminations⟩
  · rw [RpcClient.place, List.map_append, List.nodup_append]
    refine ⟨h.nodup, List.nodup_singleton _, ?_⟩
    rintro _ hmem _ hlast rfl
    obtain ⟨entry, hentry, heq⟩ := List.mem_map.1 hmem
    have hlt := h.lt_next entry hentry
    rw [heq, List.mem_singleton.1 hlast] at hlt
    exact absurd (hlt.trans_eq hid.symm) (lt_irrefl _)
  · refine List.forall_mem_append.2 ⟨fun entry hmem => (h.lt_next entry hmem).trans
      (Nat.lt_succ_self _), List.forall_mem_singleton.2 ?_⟩
    exact hid.trans_lt (Nat.lt_succ_self _)
  · refine List.forall_mem_append.2 ⟨h.waiting, List.forall_mem_singleton.2 ?_⟩
    refine outcome?_eq_none.2 fun settlement hmem heq => ?_
    exact absurd (h.log.lt_next settlement hmem) (by rw [heq, hid]; exact lt_irrefl _)
  · exact absurd (hrunning.symm.trans hstopped) Bool.false_ne_true

/-- A request that is made waits, or could not be sent. -/
theorem Sound.request (h : client.Sound) {body : RequestBody} {signal : Option ℕ} {aborted : Bool}
    (hrequest : client.request body signal aborted = (client', .ok requestId)) :
    client.Requests body requestId client' := by
  unfold RpcClient.request at hrequest
  split at hrequest
  · exact nomatch congrArg Prod.snd hrequest
  rename_i hrunning
  rw [Bool.not_eq_true] at hrunning
  split at hrequest
  · exact nomatch congrArg Prod.snd hrequest
  dsimp only at hrequest
  have hplaced := h.place hrunning ⟨client.nextRequestId, client.generation, body⟩ signal rfl
  have hpending : ∀ entry ∈ (client.place ⟨client.nextRequestId, client.generation, body⟩
      signal).pending, entry ∈ client.pending ∨
        entry.request.requestId = client.nextRequestId ∧ entry.request.body = body :=
    List.forall_mem_append.2 ⟨fun _ => .inl, List.forall_mem_singleton.2 (.inr ⟨rfl, rfl⟩)⟩
  have htracks : (client.place ⟨client.nextRequestId, client.generation, body⟩ signal).Tracks
      client.nextRequestId :=
    .inl ⟨_, List.mem_append_right _ (List.mem_singleton_self _), rfl⟩
  have hresult : (client.place ⟨client.nextRequestId, client.generation, body⟩ signal).Settles
      client' ∧ requestId = client.nextRequestId := by
    split at hrequest
    · obtain ⟨rfl, hid⟩ := Prod.mk.inj hrequest
      exact ⟨hplaced.settle (Nat.lt_succ_self client.nextRequestId) (answers_rejected _ _),
        (Except.ok.inj hid).symm⟩
    · obtain ⟨rfl, hid⟩ := Prod.mk.inj hrequest
      exact ⟨hplaced.postMessage _, (Except.ok.inj hid).symm⟩
  obtain ⟨hsettles, rfl⟩ := hresult
  exact ⟨hsettles.sound, hrunning, hsettles.stopped.trans hrunning,
    fun entry hmem => hpending entry (hsettles.pending entry hmem), hsettles.tracks _ htracks⟩

end RpcClient

end Tabulark.Document
