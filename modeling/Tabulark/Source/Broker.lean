import Mathlib
import Tabulark.Lib.InsertionMap
import Tabulark.Lib.JsValue
import Tabulark.Lib.Run
import Tabulark.Source.Errors

/-!
# The source broker of a Worker

The Worker asks the main thread for the bytes of a source, and the main thread
answers by messages. `WorkerSourceBroker` keeps the requests that have no answer
yet under ids of their own. An answer, a cancellation, the end of the source, the
end of the Worker or a message that cannot be posted ends a request: `settles_once`
says that whatever comes in, in whatever order, ends each of them at most once, and
that bytes come only from an answer to the request itself.
-/

namespace Tabulark.Source

/-! ## Faults -/

/-- The details of a limit that was exceeded. -/
structure LimitDetails where
  resource : String
  requiredBytes : ℕ
  availableBytes : ℕ
  deriving DecidableEq, Repr

/-- `ProtocolFault`: what a request is rejected with. -/
structure ProtocolFault where
  code : String
  message : String
  retryable : Bool := false
  details : Option LimitDetails := none
  deriving DecidableEq, Repr

def sourceFailureMessage (code : String) : String :=
  match code with
  | "SOURCE_CHANGED" => "The source changed while it was open"
  | "RANGE_UNSUPPORTED" => "The source does not support the requested byte range"
  | "RUNTIME_FAILURE" => "The source provider returned invalid bytes"
  | "RESOURCE_LIMIT" => "The source exceeds its configured limit"
  | "HANDLE_CLOSED" => "The source is closed"
  | "CANCELLED" => "The source read was cancelled"
  | _ => "The source provider is unavailable"

/-- The characters of the name of a resource. -/
def isResourceChar (c : Char) : Bool :=
  c.isAlphanum || c == '_' || c == '.' || c == ':' || c == '-'

/-- A quantity that may be shown. -/
def numberForDetails : JsValue → ℕ
  | .number value => if 0 ≤ value then min ⌊value⌋.toNat maxSafeInteger else maxSafeInteger
  | _ => maxSafeInteger

def safeLimitDetails (value : JsValue) : LimitDetails :=
  if value.isRecord then
    { resource := ((value.prop "resource").text?.filter fun resource =>
        decide (1 ≤ resource.length ∧ resource.length ≤ 64) &&
          resource.toList.all isResourceChar).getD "source-staging"
      requiredBytes := numberForDetails (value.prop "requiredBytes")
      availableBytes := numberForDetails (value.prop "availableBytes") }
  else { resource := "source-staging", requiredBytes := 0, availableBytes := 0 }

/-- The fault for what a provider failed with. Its text is not passed on. -/
def sourceFailure (value : JsValue) : ProtocolFault :=
  match value.isRecord, (value.prop "code").text? with
  | true, some given =>
    let code := if given ∈ ["SOURCE_CHANGED", "SOURCE_UNAVAILABLE", "RANGE_UNSUPPORTED",
        "RUNTIME_FAILURE", "RESOURCE_LIMIT", "CANCELLED", "HANDLE_CLOSED"] then given
      else "SOURCE_UNAVAILABLE"
    { code
      message := sourceFailureMessage code
      retryable := (value.prop "retryable").isTrue
      details := if code = "RESOURCE_LIMIT" then some (safeLimitDetails (value.prop "details"))
        else none }
  | _, _ =>
    { code := "SOURCE_UNAVAILABLE"
      message := "The source provider failed to read bytes"
      retryable := true }

/-- The bytes of a buffer or of a view, if there are as many as expected. -/
def normalizeExactBytes (value : JsValue) (expectedLength : ℕ) :
    Except ProtocolFault (List UInt8) :=
  match value with
  | .buffer bytes | .view bytes =>
    if bytes.length ≠ expectedLength then
      .error { code := "RUNTIME_FAILURE"
               message := "The source provider returned an invalid byte length" }
    else .ok bytes
  | _ => .error { code := "RUNTIME_FAILURE"
                  message := "The source provider returned no byte buffer" }

/-! ## The broker -/

/-- A request without an answer. `promise` is the promise that it settles. -/
structure PendingBrokerRead where
  requestId : String
  sourceHandle : String
  offset : ℕ
  length : ℕ
  promise : ℕ
  deriving DecidableEq, Repr

/-- What the Worker posts to the main thread. -/
inductive BrokerPost
  | read (requestId sourceHandle : String) (offset length : ℕ)
  | cancel (requestId sourceHandle : String)
  | close (sourceHandle : String)
  deriving DecidableEq, Repr

/-- How a promise is settled. -/
inductive Settlement
  | resolve (bytes : List UInt8)
  | reject (fault : ProtocolFault)
  deriving DecidableEq, Repr

/-- `WorkerSourceBroker`: the pending requests by their ids. -/
structure WorkerSourceBroker where
  pending : InsertionMap String PendingBrokerRead := .empty
  nextRequestId : ℕ := 1
  closed : Bool := false

/-- What an event did: the broker after it, the promises it settled, and what it posted. -/
structure BrokerTurn where
  broker : WorkerSourceBroker
  settled : List (ℕ × Settlement) := []
  posted : List BrokerPost := []

namespace WorkerSourceBroker

def requestId (number : ℕ) : String := "s" ++ number.repr

/-- The range that is asked for, if it lies within the largest source. -/
def range? (sourceHandle offset length : JsValue) : Option (String × ℕ × ℕ) :=
  match sourceHandle.text?, offset.safeNat?, length.safeNat? with
  | some sourceHandle, some offset, some length =>
    if sourceHandle = "" ∨ maxRangeSourceBytes < offset + length then none
    else some (sourceHandle, offset, length)
  | _, _, _ => none

/-- A new request for a range, under a new id. -/
def pendingRead (b : WorkerSourceBroker) (range : String × ℕ × ℕ) (promise : ℕ) :
    PendingBrokerRead where
  requestId := requestId b.nextRequestId
  sourceHandle := range.1
  offset := range.2.1
  length := range.2.2
  promise

/-- Takes a request, which settles `promise`. `posts` says whether its message can be posted. -/
def request (b : WorkerSourceBroker) (sourceHandle offset length : JsValue) (posts : Bool)
    (promise : ℕ) : BrokerTurn × Option PendingBrokerRead :=
  match range? sourceHandle offset length with
  | none => ({
      broker := b
      settled := [(promise, .reject
        { code := "RANGE_UNSUPPORTED", message := "The source range is invalid" })] }, none)
  | some range =>
    if b.closed then ({
      broker := b
      settled := [(promise, .reject
        { code := "HANDLE_CLOSED", message := "The source broker is closed" })] }, none)
    else
      let read := b.pendingRead range promise
      let numbered := { b with nextRequestId := b.nextRequestId + 1 }
      if posts then ({
        broker := { numbered with pending := b.pending.set read.requestId read }
        posted := [.read read.requestId read.sourceHandle read.offset read.length] }, some read)
      else ({
        broker := { numbered with
          pending := (b.pending.set read.requestId read).delete read.requestId }
        settled := [(promise, .reject {
          code := "SOURCE_UNAVAILABLE"
          message := "The source provider could not receive a range request"
          retryable := true })] }, some read)

/-- The `cancel` of a request, which does nothing once the request is not pending. -/
def cancel (b : WorkerSourceBroker) (read : PendingBrokerRead) : BrokerTurn :=
  if b.pending.get? read.requestId ≠ some read then { broker := b }
  else {
    broker := { b with pending := b.pending.delete read.requestId }
    settled := [(read.promise, .reject
      { code := "CANCELLED", message := "The source read was cancelled" })]
    posted := [.cancel read.requestId read.sourceHandle] }

/-- The answer that a message gives to a pending request. -/
def answer (value : JsValue) (read : PendingBrokerRead) : Settlement :=
  if !(value.prop "type").isText "source-read-result" || !(value.prop "error").isUndefined ||
      (value.prop "ok").isFalse then .reject (sourceFailure (value.prop "error"))
  else
    match normalizeExactBytes (value.prop "buffer") read.length with
    | .ok bytes => .resolve bytes
    | .error fault => .reject fault

/-- A message names the range of a request. -/
def matchesRange (value : JsValue) (read : PendingBrokerRead) : Bool :=
  (value.prop "sourceHandle").isText read.sourceHandle &&
    (value.prop "offset").isNumber read.offset && (value.prop "length").isNumber read.length

/-- A message for the broker. -/
def isSourceMessage (value : JsValue) : Bool :=
  value.isRecord && ((value.prop "type").isText "source-read-result" ||
    (value.prop "type").isText "source-read-failure" ||
    (value.prop "type").isText "source-read-error")

/-- Handles a message from the main thread: what it did, and whether it was for the broker. -/
def handle (b : WorkerSourceBroker) (value : JsValue) : BrokerTurn × Bool :=
  if !isSourceMessage value then ({ broker := b }, false)
  else
    match (value.prop "requestId").text?.bind b.pending.get? with
    | none => ({ broker := b }, true)
    | some read =>
      let broker := { b with
        pending := b.pending.delete (((value.prop "requestId").text?).getD "") }
      if !matchesRange value read then ({
        broker
        settled := [(read.promise, .reject {
          code := "PROTOCOL_INCOMPATIBLE"
          message := "The source provider returned a range for another request" })]
        posted := [.cancel read.requestId read.sourceHandle] }, true)
      else ({ broker, settled := [(read.promise, answer value read)] }, true)

/-- Rejects some of the pending requests. -/
def rejectEach (message : String) (reads : List (String × PendingBrokerRead)) :
    List (ℕ × Settlement) :=
  reads.map fun e => (e.2.promise, .reject { code := "HANDLE_CLOSED", message })

/-- The pending requests for a source that is closed, one after the other. -/
def closeEach (sourceHandle : String) :
    List (String × PendingBrokerRead) → InsertionMap String PendingBrokerRead →
      InsertionMap String PendingBrokerRead × List (String × PendingBrokerRead)
  | [], pending => (pending, [])
  | e :: es, pending =>
    if e.2.sourceHandle ≠ sourceHandle then closeEach sourceHandle es pending
    else
      let rest := closeEach sourceHandle es (pending.delete e.1)
      (rest.1, e :: rest.2)

/-- Closes a source. -/
def close (b : WorkerSourceBroker) (sourceHandle : String) : BrokerTurn :=
  let closing := closeEach sourceHandle b.pending.entries b.pending
  { broker := { b with pending := closing.1 }
    settled := rejectEach "The source was closed" closing.2
    posted := (closing.2.map fun e => .cancel e.1 sourceHandle) ++
      if b.closed then [] else [.close sourceHandle] }

/-- Ends the broker. -/
def shutdown (b : WorkerSourceBroker) : BrokerTurn :=
  if b.closed then { broker := b }
  else {
    broker := { b with closed := true, pending := .empty }
    settled := rejectEach "The source broker was shut down" b.pending.entries
    posted := b.pending.entries.map fun e => .cancel e.2.requestId e.2.sourceHandle }

end WorkerSourceBroker

/-! ## Runs -/

/-- What happens to a broker. A cancellation ends the read that settles a promise. -/
inductive BrokerEvent
  | request (sourceHandle offset length : JsValue) (posts : Bool)
  | cancel (promise : ℕ)
  | message (value : JsValue)
  | close (sourceHandle : String)
  | shutdown

/-- A broker, the number of promises it gave out, the reads it took on, and how promises were
    settled. -/
structure BrokerSession where
  broker : WorkerSourceBroker := {}
  promises : ℕ := 0
  reads : List PendingBrokerRead := []
  settled : List (ℕ × Settlement) := []
  posted : List BrokerPost := []

namespace BrokerSession

/-- The session after a turn of its broker. -/
def after (s : BrokerSession) (turn : BrokerTurn) : BrokerSession :=
  { s with
    broker := turn.broker
    settled := s.settled ++ turn.settled
    posted := s.posted ++ turn.posted }

/-- The session after an event. -/
def step (s : BrokerSession) : BrokerEvent → BrokerSession
  | .request sourceHandle offset length posts =>
    let (turn, read) := s.broker.request sourceHandle offset length posts s.promises
    { s.after turn with promises := s.promises + 1, reads := s.reads ++ read.toList }
  | .cancel promise =>
    match s.reads.find? fun read => read.promise = promise with
    | none => s
    | some read => s.after (s.broker.cancel read)
  | .message value => s.after (s.broker.handle value).1
  | .close sourceHandle => s.after (s.broker.close sourceHandle)
  | .shutdown => s.after s.broker.shutdown

/-- A promise was settled. -/
def Done (s : BrokerSession) (promise : ℕ) : Prop := promise ∈ s.settled.map Prod.fst

instance (s : BrokerSession) (promise : ℕ) : Decidable (s.Done promise) :=
  inferInstanceAs (Decidable (_ ∈ _))

end BrokerSession

/-- A message has the bytes of a read. -/
structure Answers (value : JsValue) (read : PendingBrokerRead) (bytes : List UInt8) : Prop where
  type : value.prop "type" = .text "source-read-result"
  requestId : value.prop "requestId" = .text read.requestId
  sourceHandle : value.prop "sourceHandle" = .text read.sourceHandle
  offset : value.prop "offset" = .number read.offset
  length : value.prop "length" = .number read.length
  buffer : value.prop "buffer" = .buffer bytes ∨ value.prop "buffer" = .view bytes
  exact : bytes.length = read.length

/-- What the broker owes an event. -/
structure Brokered (s : BrokerSession) (event : BrokerEvent) : Prop where
  /-- No promise was settled twice. -/
  once : ((s.step event).settled.map Prod.fst).Nodup
  /-- Bytes are those of an answer to the read itself. -/
  resolved : ∀ promise bytes, (promise, .resolve bytes) ∈ (s.step event).settled →
    (promise, .resolve bytes) ∈ s.settled ∨
      ∃ value read, event = .message value ∧ read ∈ s.reads ∧ read.promise = promise ∧
        Answers value read bytes
  /-- No id was given out twice. -/
  fresh : ((s.step event).reads.map (·.requestId)).Nodup
  /-- A read is pending until its promise is settled. -/
  pending : ∀ read ∈ (s.step event).reads, (s.step event).broker.pending.get? read.requestId =
    if (s.step event).Done read.promise then none else some read
  /-- A message for a read that was settled does nothing. -/
  late : ∀ value read, event = .message value → read ∈ s.reads → s.Done read.promise →
    value.prop "requestId" = .text read.requestId → s.step event = s

/-! ## What holds in every run -/

theorem nodup_map_concat {α β : Type} {f : α → β} {xs : List α} {x : α}
    (h : (xs.map f).Nodup) (hx : f x ∉ xs.map f) : ((xs ++ [x]).map f).Nodup := by
  rw [List.map_append]
  exact List.nodup_append.2 ⟨h, List.nodup_singleton _, fun a ha b hb => by
    rw [List.mem_singleton.1 hb]
    rintro rfl
    exact hx ha⟩

/-- Every read is pending under its own id until its promise is settled. -/
structure BrokerSession.Kept (s : BrokerSession) : Prop where
  once : (s.settled.map Prod.fst).Nodup
  done_lt : ∀ promise, s.Done promise → promise < s.promises
  promise_lt : ∀ read ∈ s.reads, read.promise < s.promises
  numbered : ∀ read ∈ s.reads, ∃ number < s.broker.nextRequestId,
    read.requestId = WorkerSourceBroker.requestId number
  ids : (s.reads.map (·.requestId)).Nodup
  promises : (s.reads.map (·.promise)).Nodup
  pending_iff : ∀ e, e ∈ s.broker.pending.entries ↔
    e.2 ∈ s.reads ∧ e.2.requestId = e.1 ∧ ¬s.Done e.2.promise

theorem requestId_injective : Function.Injective WorkerSourceBroker.requestId := by
  intro a b h
  have hlist := congrArg String.toList h
  rw [WorkerSourceBroker.requestId, WorkerSourceBroker.requestId, String.toList_append,
    String.toList_append, List.append_cancel_left_eq, Nat.toList_repr, Nat.toList_repr] at hlist
  rw [← Nat.ofDigitChars_ten_toDigits (n := a), hlist, Nat.ofDigitChars_ten_toDigits]

namespace BrokerSession.Kept

variable {s : BrokerSession}

theorem start : ({} : BrokerSession).Kept where
  once := .nil
  done_lt _ h := by cases h
  promise_lt _ h := by cases h
  numbered _ h := by cases h
  ids := .nil
  promises := .nil
  pending_iff _ := ⟨(fun h => by cases h), fun h => absurd h.1 List.not_mem_nil⟩

variable {read : PendingBrokerRead}

theorem mem_pending (h : s.Kept) :
    s.broker.pending.get? read.requestId = some read ↔ read ∈ s.reads ∧ ¬s.Done read.promise := by
  rw [InsertionMap.get?_eq_some, h.pending_iff]
  exact and_congr_right fun _ => and_iff_right rfl

theorem get?_eq (h : s.Kept) (hread : read ∈ s.reads) :
    s.broker.pending.get? read.requestId = if s.Done read.promise then none else some read := by
  split_ifs with hdone
  · rw [InsertionMap.get?_eq_none]
    rintro ⟨id, read'⟩ he rfl
    obtain ⟨hread', hid, hnot⟩ := (h.pending_iff _).1 he
    rw [List.inj_on_of_nodup_map h.ids hread' hread hid] at hnot
    exact hnot hdone
  · exact h.mem_pending.2 ⟨hread, hdone⟩

/-- A turn that settles pending reads, which are pending no more. -/
theorem settle (h : s.Kept) {turn : BrokerTurn} {gone : List (String × PendingBrokerRead)}
    (hgone : gone.Sublist s.broker.pending.entries)
    (hpending : ∀ e, e ∈ turn.broker.pending.entries ↔ e ∈ s.broker.pending.entries ∧ e ∉ gone)
    (hsettled : turn.settled.map Prod.fst = gone.map (·.2.promise))
    (hnext : turn.broker.nextRequestId = s.broker.nextRequestId) : (s.after turn).Kept := by
  have hmem : ∀ e ∈ gone, e.2 ∈ s.reads ∧ e.2.requestId = e.1 ∧ ¬s.Done e.2.promise :=
    fun e he => (h.pending_iff e).1 (hgone.subset he)
  have hdone : ∀ promise, (s.after turn).Done promise ↔
      s.Done promise ∨ ∃ e ∈ gone, e.2.promise = promise := by
    intro promise
    rw [Done, after, List.map_append, List.mem_append, hsettled]
    exact or_congr_right List.mem_map
  refine { h with once := ?_, done_lt := ?_, numbered := ?_, pending_iff := ?_ }
  · rw [after, List.map_append, hsettled]
    refine List.nodup_append.2 ⟨h.once, ?_, ?_⟩
    · refine List.Nodup.map_on ?_ ((List.Nodup.of_map _ s.broker.pending.nodup).sublist hgone)
      intro e he e' he' heq
      refine InsertionMap.eq_of_key (hgone.subset he) (hgone.subset he') ?_
      rw [← (hmem e he).2.1, ← (hmem e' he').2.1,
        List.inj_on_of_nodup_map h.promises (hmem e he).1 (hmem e' he').1 heq]
    · rintro promise hp _ hp' rfl
      obtain ⟨e, he, rfl⟩ := List.mem_map.1 hp'
      exact (hmem e he).2.2 hp
  · intro promise hp
    rcases (hdone promise).1 hp with hp | ⟨e, he, rfl⟩
    · exact h.done_lt promise hp
    · exact h.promise_lt _ (hmem e he).1
  · intro read hread
    obtain ⟨number, hlt, hid⟩ := h.numbered read hread
    exact ⟨number, hnext ▸ hlt, hid⟩
  · intro e
    rw [hdone, after]
    dsimp only
    rw [hpending, h.pending_iff, not_or]
    constructor
    · rintro ⟨⟨hread, hid, hnot⟩, hout⟩
      refine ⟨hread, hid, hnot, ?_⟩
      rintro ⟨e', he', heq⟩
      have hsame := List.inj_on_of_nodup_map h.promises (hmem e' he').1 hread heq
      have hkey : e'.1 = e.1 := by rw [← (hmem e' he').2.1, ← hid, hsame]
      exact hout (Prod.ext hkey hsame ▸ he')
    · rintro ⟨hread, hid, hnot, hout⟩
      exact ⟨⟨hread, hid, hnot⟩, fun hin => hout ⟨e, hin, rfl⟩⟩

/-- A turn that does nothing. -/
theorem after_self (s : BrokerSession) : s.after { broker := s.broker } = s := by
  rw [after, List.append_nil, List.append_nil]

/-- A turn that settles one pending read. -/
theorem settle_one (h : s.Kept)
    (hget : s.broker.pending.get? read.requestId = some read) {settlement : Settlement}
    (posted : List BrokerPost) :
    (s.after {
      broker := { s.broker with pending := s.broker.pending.delete read.requestId }
      settled := [(read.promise, settlement)]
      posted }).Kept := by
  have hmem := InsertionMap.get?_eq_some.1 hget
  refine h.settle (List.singleton_sublist.2 hmem) ?_ rfl rfl
  intro e
  dsimp only
  rw [InsertionMap.mem_delete, List.mem_singleton]
  refine and_congr_right fun he => not_congr ⟨fun hkey => ?_, fun heq => by rw [heq]⟩
  exact InsertionMap.eq_of_key he hmem hkey

/-- A read that is taken on while its promise is not settled. -/
theorem take (h : s.Kept) (range : String × ℕ × ℕ) (posted : List BrokerPost) :
    ({ s.after {
        broker := { s.broker with
          nextRequestId := s.broker.nextRequestId + 1
          pending := s.broker.pending.set (s.broker.pendingRead range s.promises).requestId
            (s.broker.pendingRead range s.promises) }
        posted } with
      promises := s.promises + 1
      reads := s.reads ++ [s.broker.pendingRead range s.promises] } : BrokerSession).Kept := by
  let read := s.broker.pendingRead range s.promises
  have hnew : ∀ old ∈ s.reads, old.requestId ≠ read.requestId := by
    intro old hold heq
    obtain ⟨number, hlt, hid⟩ := h.numbered old hold
    exact hlt.ne (requestId_injective (hid.symm.trans heq))
  have hdone : ¬s.Done s.promises := fun hdone => lt_irrefl _ (h.done_lt _ hdone)
  have hget : s.broker.pending.get? read.requestId = none := by
    rw [InsertionMap.get?_eq_none]
    rintro e he hkey
    obtain ⟨hread, hid, -⟩ := (h.pending_iff e).1 he
    exact hnew e.2 hread (hid.trans hkey)
  have hsettled : s.settled ++ ([] : List (ℕ × Settlement)) = s.settled := List.append_nil _
  refine { once := ?_, done_lt := ?_, promise_lt := ?_, numbered := ?_, ids := ?_,
           promises := ?_, pending_iff := ?_ }
  · rw [after, hsettled]
    exact h.once
  · intro promise hp
    rw [Done, after, hsettled] at hp
    exact (h.done_lt promise hp).trans (Nat.lt_succ_self _)
  · intro old hold
    rcases List.mem_append.1 hold with hold | hold
    · exact (h.promise_lt old hold).trans (Nat.lt_succ_self _)
    · rw [List.mem_singleton.1 hold]
      exact Nat.lt_succ_self _
  · intro old hold
    rcases List.mem_append.1 hold with hold | hold
    · obtain ⟨number, hlt, hid⟩ := h.numbered old hold
      exact ⟨number, hlt.trans (Nat.lt_succ_self _), hid⟩
    · rw [List.mem_singleton.1 hold]
      exact ⟨_, Nat.lt_succ_self _, rfl⟩
  · refine nodup_map_concat h.ids fun hin => ?_
    obtain ⟨old, hold, heq⟩ := List.mem_map.1 hin
    exact hnew old hold heq
  · refine nodup_map_concat h.promises fun hin => ?_
    obtain ⟨old, hold, heq⟩ := List.mem_map.1 hin
    exact (h.promise_lt old hold).ne heq
  · intro e
    rw [Done, after, hsettled]
    dsimp only
    rw [InsertionMap.set_of_get?_eq_none hget, List.mem_append, List.mem_append,
      List.mem_singleton, List.mem_singleton, h.pending_iff]
    constructor
    · rintro (⟨hread, hid, hnot⟩ | rfl)
      · exact ⟨.inl hread, hid, hnot⟩
      · exact ⟨.inr rfl, rfl, hdone⟩
    · rintro ⟨hread | hread, hid, hnot⟩
      · exact .inl ⟨hread, hid, hnot⟩
      · exact .inr (Prod.ext (hid.symm.trans (congrArg _ hread)) hread)

/-- A promise that is rejected at once. -/
theorem refuse (h : s.Kept) (fault : ProtocolFault) :
    ({ s.after { broker := s.broker, settled := [(s.promises, .reject fault)] } with
      promises := s.promises + 1 } : BrokerSession).Kept := by
  have hdone : ∀ promise, promise ∈ (s.settled ++ [(s.promises, Settlement.reject fault)]).map
      Prod.fst ↔ s.Done promise ∨ promise = s.promises := by
    intro promise
    rw [List.map_append, List.mem_append, List.map_singleton, List.mem_singleton]
    exact Iff.rfl
  refine { h with once := ?_, done_lt := ?_, promise_lt := ?_, pending_iff := ?_ }
  · exact nodup_map_concat h.once fun hin => lt_irrefl _ (h.done_lt _ hin)
  · intro promise hp
    rcases (hdone promise).1 hp with hp | rfl
    · exact (h.done_lt promise hp).trans (Nat.lt_succ_self _)
    · exact Nat.lt_succ_self _
  · exact fun read hread => (h.promise_lt read hread).trans (Nat.lt_succ_self _)
  · intro e
    rw [after, h.pending_iff]
    exact and_congr_right fun hread => and_congr_right fun _ => not_congr
      ⟨fun hp => (hdone _).2 (.inl hp), fun hp =>
        ((hdone _).1 hp).resolve_right (h.promise_lt _ hread).ne⟩

end BrokerSession.Kept

/-- The pending requests of a source are those that closing it ends. -/
theorem closeEach_spec (sourceHandle : String) {es : List (String × PendingBrokerRead)}
    {pending : InsertionMap String PendingBrokerRead} (hnodup : (es.map Prod.fst).Nodup)
    (hmem : ∀ e ∈ es, e ∈ pending.entries) :
    (WorkerSourceBroker.closeEach sourceHandle es pending).2.Sublist es ∧
      ∀ e, e ∈ (WorkerSourceBroker.closeEach sourceHandle es pending).1.entries ↔
        e ∈ pending.entries ∧ e ∉ (WorkerSourceBroker.closeEach sourceHandle es pending).2 := by
  induction es generalizing pending with
  | nil => exact ⟨.slnil, fun e => (and_iff_left List.not_mem_nil).symm⟩
  | cons e es ih =>
    obtain ⟨hhead, htail⟩ := List.nodup_cons.1 hnodup
    rw [WorkerSourceBroker.closeEach]
    split_ifs with hother
    · obtain ⟨hsub, hiff⟩ := ih htail fun e' he' => hmem e' (List.mem_cons_of_mem _ he')
      exact ⟨hsub.cons e, hiff⟩
    · obtain ⟨hsub, hiff⟩ := @ih (pending.delete e.1) htail fun e' he' =>
        InsertionMap.mem_delete.2 ⟨hmem e' (List.mem_cons_of_mem _ he'), fun hkey =>
          hhead (hkey ▸ List.mem_map_of_mem he')⟩
      refine ⟨hsub.cons_cons e, fun e' => ?_⟩
      dsimp only
      rw [hiff, InsertionMap.mem_delete, List.mem_cons, not_or, and_assoc]
      refine and_congr_right fun he' => and_congr_left fun _ => not_congr ⟨fun hkey => ?_, ?_⟩
      · exact InsertionMap.eq_of_key he' (hmem e List.mem_cons_self) hkey
      · rintro rfl
        rfl

namespace BrokerSession.Kept

variable {s : BrokerSession}

theorem map_rejectEach (message : String)
    {gone : List (String × PendingBrokerRead)} :
    (WorkerSourceBroker.rejectEach message gone).map Prod.fst = gone.map (·.2.promise) := by
  rw [WorkerSourceBroker.rejectEach, List.map_map]
  rfl

/-- Every event keeps a read pending until its promise is settled. -/
theorem step (h : s.Kept) (event : BrokerEvent) : (s.step event).Kept := by
  cases event with
  | request sourceHandle offset length posts =>
    rw [BrokerSession.step, WorkerSourceBroker.request]
    cases hrange : WorkerSourceBroker.range? sourceHandle offset length with
    | none => simpa [after] using h.refuse _
    | some range =>
      dsimp only
      by_cases hclosed : s.broker.closed = true
      · rw [if_pos hclosed]
        simpa [after] using h.refuse _
      · rw [if_neg hclosed]
        cases posts with
        | true => exact h.take range _
        | false =>
          have htake := h.take range []
          have hget : _ = _ := htake.get?_eq
            (List.mem_append_right _
              (List.mem_singleton_self (s.broker.pendingRead range s.promises)))
          rw [if_neg fun hdone => ?_] at hget
          · simpa [after, WorkerSourceBroker.pendingRead] using htake.settle_one hget []
          · rw [Done, after, List.append_nil] at hdone
            exact lt_irrefl _ (h.done_lt _ hdone)
  | cancel promise =>
    rw [BrokerSession.step]
    cases s.reads.find? fun read => decide (read.promise = promise) with
    | none => exact h
    | some read =>
      dsimp only
      rw [WorkerSourceBroker.cancel]
      by_cases hget : s.broker.pending.get? read.requestId = some read
      · rw [if_neg (not_not.2 hget)]
        exact h.settle_one hget _
      · rw [if_pos hget, after_self]
        exact h
  | message value =>
    rw [BrokerSession.step, WorkerSourceBroker.handle]
    split_ifs with hother
    · rw [after_self]
      exact h
    · cases hread : (value.prop "requestId").text?.bind s.broker.pending.get? with
      | none =>
        dsimp only
        rw [after_self]
        exact h
      | some read =>
        obtain ⟨id, hid, hget⟩ := Option.bind_eq_some_iff.1 hread
        have hkey := ((h.pending_iff _).1 (InsertionMap.get?_eq_some.1 hget)).2.1
        dsimp only at hkey
        subst hkey
        dsimp only
        rw [hid, Option.getD_some]
        split_ifs
        · exact h.settle_one hget _
        · exact h.settle_one hget _
  | close sourceHandle =>
    obtain ⟨hsub, hiff⟩ := closeEach_spec sourceHandle s.broker.pending.nodup fun _ he => he
    exact h.settle hsub hiff (map_rejectEach _) rfl
  | shutdown =>
    rw [BrokerSession.step, WorkerSourceBroker.shutdown]
    split_ifs
    · rw [after_self]
      exact h
    · exact h.settle (List.Sublist.refl _) (fun e => ⟨(fun he => by cases he), fun he =>
        absurd he.1 he.2⟩) (map_rejectEach _) rfl

end BrokerSession.Kept

/-- A message that resolves a read is an answer to it. -/
theorem answers_of_resolve {value : JsValue} {read : PendingBrokerRead} {bytes : List UInt8}
    (hid : (value.prop "requestId").text? = some read.requestId)
    (hmatches : WorkerSourceBroker.matchesRange value read = true)
    (h : WorkerSourceBroker.answer value read = .resolve bytes) : Answers value read bytes := by
  rw [WorkerSourceBroker.matchesRange, Bool.and_eq_true, Bool.and_eq_true, JsValue.isText_iff,
    JsValue.isNumber_iff, JsValue.isNumber_iff] at hmatches
  obtain ⟨⟨hhandle, hoffset⟩, hlength⟩ := hmatches
  rw [WorkerSourceBroker.answer] at h
  split_ifs at h with hfailed
  simp only [Bool.or_eq_true, Bool.not_eq_true', not_or, Bool.not_eq_false] at hfailed
  obtain ⟨hbuffer, hexact⟩ : (value.prop "buffer" = .buffer bytes ∨
      value.prop "buffer" = .view bytes) ∧ bytes.length = read.length := by
    cases hbuffer : value.prop "buffer" with
    | buffer given | view given =>
      rw [hbuffer, normalizeExactBytes] at h
      split_ifs at h with hlen
      cases h
      exact ⟨by simp, not_not.1 hlen⟩
    | _ =>
      rw [hbuffer] at h
      cases h
  exact ⟨JsValue.isText_iff.1 hfailed.1.1, JsValue.text?_eq_some.1 hid, hhandle, hoffset, hlength,
    hbuffer, hexact⟩

/-- A request settles its promise at once only to reject it. -/
theorem not_resolve_request (b : WorkerSourceBroker) (sourceHandle offset length : JsValue)
    (posts : Bool) (promise promise' : ℕ) (bytes : List UInt8) :
    (promise', Settlement.resolve bytes) ∉
      (b.request sourceHandle offset length posts promise).1.settled := by
  rw [WorkerSourceBroker.request]
  cases WorkerSourceBroker.range? sourceHandle offset length with
  | none => simp
  | some range =>
    dsimp only
    split_ifs <;> simp

/-- Only a message settles a promise with bytes. -/
theorem resolved_of_mem {s : BrokerSession} (h : s.Kept) {event : BrokerEvent} {promise : ℕ}
    {bytes : List UInt8} (hmem : (promise, .resolve bytes) ∈ (s.step event).settled) :
    (promise, .resolve bytes) ∈ s.settled ∨
      ∃ value read, event = .message value ∧ read ∈ s.reads ∧ read.promise = promise ∧
        Answers value read bytes := by
  have hrejects : ∀ {message : String} {gone : List (String × PendingBrokerRead)},
      (promise, Settlement.resolve bytes) ∉ WorkerSourceBroker.rejectEach message gone := by
    intro message gone hin
    obtain ⟨e, -, heq⟩ := List.mem_map.1 hin
    cases heq
  cases event with
  | request sourceHandle offset length posts =>
    exact .inl ((List.mem_append.1 hmem).resolve_right
      (not_resolve_request _ _ _ _ _ _ _ _))
  | cancel ended =>
    rw [BrokerSession.step] at hmem
    refine .inl ?_
    split at hmem
    · exact hmem
    · rw [WorkerSourceBroker.cancel] at hmem
      split_ifs at hmem <;> simpa [BrokerSession.after] using hmem
  | message value =>
    rw [BrokerSession.step, WorkerSourceBroker.handle] at hmem
    split_ifs at hmem with hother
    · exact .inl (by simpa [BrokerSession.after] using hmem)
    · cases hread : (value.prop "requestId").text?.bind s.broker.pending.get? with
      | none =>
        rw [hread] at hmem
        exact .inl (by simpa [BrokerSession.after] using hmem)
      | some read =>
        rw [hread] at hmem
        obtain ⟨id, hid, hget⟩ := Option.bind_eq_some_iff.1 hread
        obtain ⟨hreads, hkey, -⟩ := (h.pending_iff _).1 (InsertionMap.get?_eq_some.1 hget)
        dsimp only at hmem hkey hreads
        subst hkey
        split_ifs at hmem with hmatches
        · exact .inl (by simpa [BrokerSession.after] using hmem)
        · rcases List.mem_append.1 hmem with hold | hnew
          · exact .inl hold
          · rw [List.mem_singleton, Prod.mk.injEq] at hnew
            rw [Bool.not_eq_true, Bool.not_eq_false'] at hmatches
            exact .inr ⟨value, read, rfl, hreads, hnew.1.symm,
              answers_of_resolve hid hmatches hnew.2.symm⟩
  | close sourceHandle =>
    exact .inl ((List.mem_append.1 hmem).resolve_right hrejects)
  | shutdown =>
    rw [BrokerSession.step, WorkerSourceBroker.shutdown] at hmem
    refine .inl ?_
    split_ifs at hmem
    · simpa [BrokerSession.after] using hmem
    · exact (List.mem_append.1 hmem).resolve_right hrejects

theorem brokered {s : BrokerSession} (h : s.Kept) (event : BrokerEvent) : Brokered s event where
  once := (h.step event).once
  resolved _ _ hmem := resolved_of_mem h hmem
  fresh := (h.step event).ids
  pending _ hread := (h.step event).get?_eq hread
  late := by
    rintro value read rfl hread hdone hid
    have hget := h.get?_eq hread
    rw [if_pos hdone] at hget
    rw [BrokerSession.step, WorkerSourceBroker.handle, hid]
    split_ifs
    · exact BrokerSession.Kept.after_self s
    · rw [JsValue.text?, Option.bind_some, hget]
      exact BrokerSession.Kept.after_self s

/-- Whatever happens to a broker, every promise is settled at most once, and with bytes only by an
    answer to its own read. -/
theorem settles_once (events : List BrokerEvent) :
    Run.Along BrokerSession.step Brokered {} events :=
  ((Run.along_true _ events).invariant (fun _ event h _ => h.step event) .start).1.imp
    fun _ event h => brokered h.1 event

end Tabulark.Source
