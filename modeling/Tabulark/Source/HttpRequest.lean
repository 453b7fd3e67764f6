import Tabulark.Lib.Async
import Tabulark.Source.HttpResponse

/-!
# Requests with retries

One request of a reader: its headers are prepared, it is fetched and its response
consumed, and all of that again if the transport failed. A `World` says how each
of these goes: what is thrown by whom, what responses there are, and when the
signal is aborted and the reader closed. Its clock ticks whenever something was
waited for. What happens is written down: the `events`, and the `reservations` of
the host.
-/

namespace Tabulark.Source

/-- An attempt of a request: what the header provider throws, what is fetched, and whether there
    is a delay after it. -/
structure Attempt where
  headers : Option Thrown := none
  fetched : Except Thrown Response
  delayed : Bool := true

/-- What happens on the network. -/
inductive Event
  | fetched (result : Except Thrown Response)
  | bodyFailed

inductive ReservationKind
  | staging
  | retained
  deriving DecidableEq, Repr

/-- A reservation of the host, and how often it was released. -/
structure Reservation where
  kind : ReservationKind
  bytes : ℕ
  released : ℕ := 0
  deriving DecidableEq, Repr

structure World where
  clock : ℕ := 0
  /-- How long reads wait for a permit. -/
  queued : ℕ := 0
  /-- When the signal of the caller is aborted. -/
  abortedAt : Option ℕ := none
  /-- When the reader is closed. -/
  closedAt : Option ℕ := none
  attempts : List Attempt := []
  /-- What the host throws at the next reservations, if it does. -/
  grants : List (Option HostThrown) := []
  events : List Event := []
  reservations : List Reservation := []

/-- Computations in a world. -/
abbrev Http : Type → Type := Async World Thrown

def World.isClosed (s : World) : Bool := s.closedAt.any (· ≤ s.clock)

/-- Whether the signal of a request is aborted: by the caller, or by the close of the reader. -/
def World.isAborted (s : World) : Bool := s.abortedAt.any (· ≤ s.clock) || s.isClosed

namespace Http

/-- Throws an error with a code. -/
def fail {α : Type} (error : SourceError) : Http α := throw (.error error)

/-- Something was waited for. -/
def tick : Http Unit := modify fun s => { s with clock := s.clock + 1 }

def aborted : Http Bool := do return (← get).isAborted

def closed : Http Bool := do return (← get).isClosed

def emit (event : Event) : Http Unit := modify fun s => { s with events := s.events ++ [event] }

/-- Throws if something went wrong. -/
def orThrow {α : Type} : Except Thrown α → Http α
  | .ok a => pure a
  | .error e => throw e

end Http

open Http

/-! ## Bodies -/

def unexpectedBytes (message : String) (expectedBytes actualBytes : ℕ) : SourceError :=
  sourceError .sourceUnavailable message false
    [("expectedBytes", .number expectedBytes), ("actualBytes", .number actualBytes)]

/-- What a failed read of a body throws. -/
def bodyFailure {α : Type} (thrown : Thrown) : Http α := do
  if (← aborted) || thrown.isAbortLike then fail cancelledError
  else
    emit .bodyFailed
    throw .retryableBody

/-- Reads chunks up to the expected length: the bytes, and the reads after them. -/
def readChunks (expectedLength : ℕ) : List ReadResult → List UInt8 →
    Http (List UInt8 × List ReadResult)
  | reads, output =>
    if output.length < expectedLength then do
      if ← aborted then fail cancelledError
      else
        tick
        match reads with
        | [] => return (output, [])
        | .done :: rest => return (output, .done :: rest)
        | .failure thrown :: _ => bodyFailure thrown
        | .invalid :: _ =>
          fail (sourceError .sourceUnavailable "The source returned an invalid body")
        | .chunk bytes :: rest =>
          if expectedLength < output.length + bytes.length then
            fail (unexpectedBytes "The source returned too many bytes" expectedLength
              (output.length + bytes.length))
          else readChunks expectedLength rest (output ++ bytes)
    else return (output, reads)

/-- Reads a stream of exactly so many bytes. -/
def readStream (expectedLength : ℕ) (reads : List ReadResult) : Http (List UInt8) := do
  let (output, rest) ← readChunks expectedLength reads []
  if output.length ≠ expectedLength then
    fail (unexpectedBytes "The source returned too few bytes" expectedLength output.length)
  else
    tick
    match rest with
    | [] => return output
    | .done :: _ => return output
    | .failure thrown :: _ => bodyFailure thrown
    | .invalid :: _ => fail (sourceError .sourceUnavailable "The source returned an invalid body")
    | .chunk bytes :: _ =>
      tick
      fail (unexpectedBytes "The source returned too many bytes" expectedLength
        (expectedLength + bytes.length))

/-- Reads a body that comes as a whole. -/
def readBuffer (expectedLength : ℕ) (result : ReadResult) : Http (List UInt8) := do
  tick
  match result with
  | .failure thrown => bodyFailure thrown
  | .chunk bytes =>
    if ← aborted then fail cancelledError
    else if bytes.length ≠ expectedLength then
      fail (unexpectedBytes "The source returned an unexpected byte length" expectedLength
        bytes.length)
    else return bytes
  | .invalid | .done =>
    if ← aborted then fail cancelledError
    else fail (sourceError .sourceUnavailable "The source returned an invalid body")

def readResponseBody (response : Response) (expectedLength : ℕ) : Http (List UInt8) := do
  if ← aborted then fail cancelledError
  else if (response.responseHeader .contentLength).isSome ∧ parseContentLength response = none then
    fail (sourceError .sourceUnavailable "The source returned an invalid byte length")
  else if (parseContentLength response).any (· ≠ expectedLength) then
    fail (unexpectedBytes "The source returned an unexpected byte length" expectedLength
      ((parseContentLength response).getD 0))
  else
    match response.body with
    | .stream reads =>
      tryCatch (readStream expectedLength reads) fun thrown => do
        tick
        if (← aborted) || thrown.isAbortLike then fail cancelledError else throw thrown
    | .buffer result => readBuffer expectedLength result
    | .unreadable =>
      fail (sourceError .sourceUnavailable "The source returned no readable body")

/-! ## Attempts -/

/-- The statuses after which a request is made again. -/
def retryableStatuses : List ℕ := [408, 425, 429, 500, 502, 503, 504]

/-- The configuration of an HTTP source. -/
structure NormalizedHttpOptions where
  validation : HttpValidationStrength
  maxConcurrency : ℕ
  maxAttempts : ℕ
  /-- The permitted length of a full response, if there is one. -/
  fallbackMaxBytes : Option ℕ
  maxConcurrency_le : 1 ≤ maxConcurrency ∧ maxConcurrency ≤ 4
  maxAttempts_le : 1 ≤ maxAttempts ∧ maxAttempts ≤ 8
  fallbackMaxBytes_le : ∀ maxBytes ∈ fallbackMaxBytes, maxBytes ≤ maxRangeSourceBytes

/-- The configuration that a caller asks for; some values have several names. -/
structure HttpRangeSourceOptions where
  validation : Option HttpValidationStrength := none
  validator : Option HttpValidationStrength := none
  maxConcurrency : Option ℕ := none
  maxAttempts : Option ℕ := none
  retryMaxAttempts : Option ℕ := none
  retryAttempts : Option ℕ := none
  retryMaxRetries : Option ℕ := none
  maxRetries : Option ℕ := none
  retries : Option ℕ := none
  fallbackMaxBytes : Option ℕ := none

def normalizeOptions (options : HttpRangeSourceOptions) :
    Except SourceError NormalizedHttpOptions :=
  let maxConcurrency := options.maxConcurrency.getD 1
  let validation := (options.validation <|> options.validator).getD .strong
  let retries := options.retryMaxRetries <|> options.maxRetries <|> options.retries
  let maxAttempts := (options.maxAttempts <|> options.retryMaxAttempts <|>
    options.retryAttempts).getD ((retries.map (· + 1)).getD 3)
  if maxConcurrency_le : 1 ≤ maxConcurrency ∧ maxConcurrency ≤ 4 then
    if maxAttempts_le : 1 ≤ maxAttempts ∧ maxAttempts ≤ 8 then
      if fallbackMaxBytes_le :
          ∀ maxBytes ∈ options.fallbackMaxBytes, maxBytes ≤ maxRangeSourceBytes then
        .ok {
          validation, maxConcurrency, maxAttempts, fallbackMaxBytes := options.fallbackMaxBytes
          maxConcurrency_le, maxAttempts_le, fallbackMaxBytes_le }
      else .error (invalidArgument "HTTP source fallback is invalid")
    else
      .error (invalidArgument "HTTP source retry attempts are outside the supported range")
  else .error (invalidArgument "HTTP source maxConcurrency must be an integer from 1 to 4")

/-- Every configuration is that of some options. -/
theorem exists_normalizeOptions_eq (options : NormalizedHttpOptions) :
    ∃ given, normalizeOptions given = .ok options := by
  refine ⟨{
    validation := some options.validation
    maxConcurrency := some options.maxConcurrency
    maxAttempts := some options.maxAttempts
    fallbackMaxBytes := options.fallbackMaxBytes }, ?_⟩
  rw [normalizeOptions]
  dsimp only [Option.getD_some]
  rw [dif_pos options.maxConcurrency_le]
  exact (dif_pos options.maxAttempts_le).trans (dif_pos options.fallbackMaxBytes_le)

example : (normalizeOptions {}).map (fun options => (options.validation, options.maxConcurrency,
    options.maxAttempts, options.fallbackMaxBytes)) = .ok (.strong, 1, 3, none) := rfl

/-- The next attempt. -/
def currentAttempt (s : World) : Attempt := s.attempts.headD { fetched := .error .foreign }

def resolveHeaders : Http Unit := do
  let thrown := (currentAttempt (← get)).headers
  tick
  match thrown with
  | none => return
  | some _ =>
    if ← aborted then fail cancelledError
    else fail (sourceError .sourceUnavailable "The source request headers could not be prepared")

/-- Makes the request, unless it is aborted. -/
def fetch : Http (Except Thrown Response) := do
  if ← aborted then return .error (.error cancelledError)
  else
    let result := (currentAttempt (← get)).fetched
    emit (.fetched result)
    tick
    return result

/-- Waits before the next attempt. -/
def retryDelay : Http Unit := do
  let delayed := (currentAttempt (← get)).delayed
  modify fun s => { s with attempts := s.attempts.tail }
  if delayed then
    if ← aborted then fail cancelledError
    else
      tick
      if ← aborted then fail cancelledError else return
  else return

/-- The attempts that are left of a request. -/
def requestLoop {α : Type} (consume : Response → Http α) : ℕ → Http α
  | 0 => fail (sourceError .sourceUnavailable "The source could not be reached" true)
  | left + 1 => do
    if ← aborted then fail cancelledError
    else
      resolveHeaders
      match ← fetch with
      | .error thrown =>
        if (← aborted) || thrown.isAbortLike then fail cancelledError
        else if left = 0 then
          fail (sourceError .sourceUnavailable "The source could not be reached" true)
        else
          retryDelay
          requestLoop consume left
      | .ok response =>
        if response.status = 0 ∧ left ≠ 0 then
          tick
          retryDelay
          requestLoop consume left
        else if response.status ∈ retryableStatuses ∧ left ≠ 0 then
          tick
          retryDelay
          requestLoop consume left
        else if response.status ∈ retryableStatuses then
          tick
          fail (sourceError .sourceUnavailable "The source returned a temporary failure" true
            [("status", .number response.status)])
        else if response.status = 0 then
          tick
          fail (sourceError .sourceUnavailable "The source returned an unavailable response" true)
        else
          tryCatch (consume response) fun thrown => do
            tick
            if thrown ≠ .retryableBody then throw thrown
            else if ← aborted then fail cancelledError
            else if left = 0 then
              fail (sourceError .sourceUnavailable "The source body could not be read" true)
            else
              retryDelay
              requestLoop consume left

def requestWithRetry {α : Type} (options : NormalizedHttpOptions) (consume : Response → Http α) :
    Http α :=
  requestLoop consume options.maxAttempts

/-! ## What is written down -/

/-- The reservations are the same, and the reader was not closed: only time went by. -/
structure World.Framed (s s' : World) : Prop where
  reservations : s'.reservations = s.reservations
  closedAt : s'.closedAt = s.closedAt
  clock : s.clock ≤ s'.clock

instance : IsPreorder World World.Framed where
  refl _ := ⟨rfl, rfl, le_rfl⟩
  trans _ _ _ h h' := ⟨h'.reservations.trans h.reservations, h'.closedAt.trans h.closedAt,
    h.clock.trans h'.clock⟩

/-- Nothing was written down. -/
structure World.Kept (s s' : World) : Prop where
  events : s'.events = s.events
  framed : s.Framed s'

instance : IsPreorder World World.Kept where
  refl s := ⟨rfl, refl_of World.Framed s⟩
  trans _ _ _ h h' := ⟨h'.events.trans h.events, trans_of World.Framed h.framed h'.framed⟩

namespace Http

variable {α β : Type}

theorem keeps_fail (error : SourceError) : Async.Keeps World.Kept (fail error : Http α) :=
  Async.Keeps.throw _

theorem keeps_tick : Async.Keeps World.Kept tick :=
  Async.Keeps.modify fun _ => ⟨rfl, rfl, rfl, Nat.le_succ _⟩

theorem keeps_aborted : Async.Keeps World.Kept aborted := fun s => refl_of World.Kept s

@[simp] theorem exec_fail (error : SourceError) (s : World) :
    (fail error : Http α).exec s = (.error (.error error), s) := rfl

@[simp] theorem exec_aborted (s : World) : aborted.exec s = (.ok s.isAborted, s) := rfl

@[simp] theorem exec_closed (s : World) : closed.exec s = (.ok s.isClosed, s) := rfl

@[simp] theorem exec_tick (s : World) : tick.exec s = (.ok (), { s with clock := s.clock + 1 }) :=
  rfl

@[simp] theorem exec_emit (event : Event) (s : World) :
    (emit event).exec s = (.ok (), { s with events := s.events ++ [event] }) := rfl

end Http

/-- A relation of worlds that holds as long as no reservation is made or released. -/
class OfFramed (R : World → World → Prop) : Prop extends IsPreorder World R where
  of_framed : ∀ {s s' : World}, s.Framed s' → R s s'

instance : OfFramed World.Framed where
  of_framed h := h

instance : OfFramed fun _ _ => True where
  refl _ := trivial
  trans _ _ _ _ _ := trivial
  of_framed _ := trivial

/-- What reading a body writes down: at most that it failed, and that is what it throws if it may
    be fetched again. -/
structure Transported {α : Type} (R : World → World → Prop) (s : World)
    (r : Except Thrown α × World) : Prop where
  world : R s r.2
  events : r.2.events = s.events ∨ r.2.events = s.events ++ [.bodyFailed]
  ok : ∀ a, r.1 = .ok a → r.2.events = s.events
  failed : r.1 = .error .retryableBody → r.2.events = s.events ++ [.bodyFailed]

/-- A computation that only writes down the failure of a body. -/
def Transports {α : Type} (R : World → World → Prop) (x : Http α) : Prop :=
  ∀ s, Transported R s (x.exec s)

namespace Transports

variable {α β : Type} {x : Http α} {R : World → World → Prop} [OfFramed R]

theorem pure (a : α) : Transports R (Pure.pure a : Http α) := fun s =>
  ⟨refl_of R s, .inl rfl, fun _ _ => rfl, nofun⟩

theorem fail (error : SourceError) : Transports R (Http.fail error : Http α) := fun s =>
  ⟨refl_of R s, .inl rfl, fun _ _ => rfl, nofun⟩

theorem tick : Transports R Http.tick := fun _ =>
  ⟨OfFramed.of_framed ⟨rfl, rfl, Nat.le_succ _⟩, .inl rfl, fun _ _ => rfl, nofun⟩

theorem aborted : Transports R Http.aborted := fun s =>
  ⟨refl_of R s, .inl rfl, fun _ _ => rfl, nofun⟩

theorem orThrow {result : Except Thrown α} (h : result ≠ .error .retryableBody) :
    Transports R (Http.orThrow result) := by
  cases result with
  | ok a => exact .pure a
  | error e => exact fun s => ⟨refl_of R s, .inl rfl, fun _ _ => rfl, fun he => absurd he h⟩

theorem bind {f : α → Http β} (hx : Transports R x) (hf : ∀ a, Transports R (f a)) :
    Transports R (x >>= f) := by
  intro s
  have hfirst := hx s
  rw [Async.exec_bind]
  rcases hexec : x.exec s with ⟨e | a, s'⟩
  · rw [hexec] at hfirst
    exact ⟨hfirst.world, hfirst.events, nofun, fun he => hfirst.failed (by cases he; rfl)⟩
  · rw [hexec] at hfirst
    have hnext := hf a s'
    have hevents := hfirst.ok a rfl
    dsimp only at hevents
    exact ⟨trans_of R hfirst.world hnext.world, hevents ▸ hnext.events, hevents ▸ hnext.ok,
      hevents ▸ hnext.failed⟩

theorem bodyFailure (thrown : Thrown) : Transports R (bodyFailure thrown : Http α) := by
  intro s
  unfold Source.bodyFailure
  rw [Async.exec_bind_ok (exec_aborted s)]
  cases hcancelled : s.isAborted || thrown.isAbortLike with
  | true => exact fail _ s
  | false => exact ⟨OfFramed.of_framed ⟨rfl, rfl, le_rfl⟩, .inr rfl, nofun, fun _ => rfl⟩

/-- A caught failure that is not thrown on was written down, too. -/
theorem tryCatch {f : Thrown → Http α} (hx : Transports R x)
    (hf : ∀ e s, ((f e).exec s).2.events = s.events ∧ R s ((f e).exec s).2 ∧
      ((f e).exec s).1 ∈ [.error e, .error (.error cancelledError)]) :
    Transports R (tryCatch x f) := by
  intro s
  have hfirst := hx s
  rw [Async.exec_tryCatch]
  rcases hexec : x.exec s with ⟨e | a, s'⟩
  · rw [hexec] at hfirst
    obtain ⟨hevents, hworld, hthrown⟩ := hf e s'
    refine ⟨trans_of R hfirst.world hworld, hevents ▸ hfirst.events, fun a ha => ?_, fun he => ?_⟩
    · rw [ha] at hthrown
      simp at hthrown
    · rw [he] at hthrown
      rw [hevents]
      exact hfirst.failed (by simpa [eq_comm] using hthrown)
  · rwa [hexec] at hfirst

end Transports

variable {R : World → World → Prop} [OfFramed R]

theorem transports_readChunks (expectedLength : ℕ) (reads : List ReadResult)
    (output : List UInt8) : Transports R (readChunks expectedLength reads output) := by
  induction reads generalizing output with
  | nil =>
    unfold readChunks
    split_ifs
    · refine .bind .aborted fun b => ?_
      split_ifs
      · exact .fail _
      · exact .bind .tick fun _ => .pure _
    · exact .pure _
  | cons read reads ih =>
    unfold readChunks
    split_ifs
    · refine .bind .aborted fun b => ?_
      split_ifs
      · exact .fail _
      · refine .bind .tick fun _ => ?_
        cases read with
        | chunk bytes =>
          dsimp only
          split_ifs
          · exact .fail _
          · exact ih _
        | invalid => exact .fail _
        | done => exact .pure _
        | failure thrown => exact .bodyFailure _
    · exact .pure _

theorem transports_readStream (expectedLength : ℕ) (reads : List ReadResult) :
    Transports R (readStream expectedLength reads) := by
  refine .bind (transports_readChunks _ _ _) fun ⟨output, rest⟩ => ?_
  dsimp only
  split_ifs
  · exact .fail _
  · refine .bind .tick fun _ => ?_
    split
    · exact .pure _
    · exact .pure _
    · exact .bodyFailure _
    · exact .fail _
    · exact .bind .tick fun _ => .fail _

theorem transports_readBuffer (expectedLength : ℕ) (result : ReadResult) :
    Transports R (readBuffer expectedLength result) := by
  refine .bind .tick fun _ => ?_
  have hinvalid : Transports R (do
      if ← aborted then fail cancelledError
      else fail (sourceError .sourceUnavailable "The source returned an invalid body") :
        Http (List UInt8)) := by
    refine .bind .aborted fun b => ?_
    split_ifs <;> exact .fail _
  cases result with
  | chunk bytes =>
    refine .bind .aborted fun b => ?_
    split_ifs
    · exact .fail _
    · exact .fail _
    · exact .pure _
  | invalid => exact hinvalid
  | done => exact hinvalid
  | failure thrown => exact .bodyFailure _

theorem transports_readResponseBody (response : Response) (expectedLength : ℕ) :
    Transports R (readResponseBody response expectedLength) := by
  refine .bind .aborted fun b => ?_
  split_ifs
  · exact .fail _
  · exact .fail _
  · exact .fail _
  · split
    · refine .tryCatch (transports_readStream _ _) fun e s => ?_
      rw [Async.exec_bind_ok (exec_tick s), Async.exec_bind_ok (exec_aborted _)]
      split_ifs
      · exact ⟨rfl, OfFramed.of_framed ⟨rfl, rfl, Nat.le_succ _⟩, by simp⟩
      · exact ⟨rfl, OfFramed.of_framed ⟨rfl, rfl, Nat.le_succ _⟩, by simp⟩
    · exact transports_readBuffer _ _
    · exact .fail _

/-! ## Whole bodies -/

variable {s s' : World}

theorem bodyFailure_ne_ok {α : Type} (thrown : Thrown) {a : α} :
    (bodyFailure thrown : Http α).exec s ≠ (.ok a, s') := by
  unfold bodyFailure
  rw [Async.exec_bind_ok (exec_aborted s)]
  cases s.isAborted || thrown.isAbortLike with
  | true => exact nofun
  | false => exact nofun

variable {expectedLength : ℕ}

/-- Chunks are read in order. -/
theorem streamBytes_readChunks {reads rest : List ReadResult} {output out : List UInt8}
    (h : (readChunks expectedLength reads output).exec s = (.ok (out, rest), s')) :
    ∃ more, out = output ++ more ∧ streamBytes reads = (streamBytes rest).map (more ++ ·) := by
  induction reads generalizing output s with
  | nil =>
    unfold readChunks at h
    split_ifs at h
    · rw [Async.exec_bind_ok (exec_aborted s)] at h
      split_ifs at h
      · cases h
      · cases h
        exact ⟨[], by simp, by simp [streamBytes]⟩
    · cases h
      exact ⟨[], by simp, by simp [streamBytes]⟩
  | cons read reads ih =>
    unfold readChunks at h
    split_ifs at h
    · rw [Async.exec_bind_ok (exec_aborted s)] at h
      split_ifs at h
      · cases h
      · rw [Async.exec_bind_ok (exec_tick s)] at h
        cases read with
        | chunk bytes =>
          dsimp only at h
          split_ifs at h
          · cases h
          · obtain ⟨more, rfl, hmore⟩ := ih h
            refine ⟨bytes ++ more, by simp, ?_⟩
            rw [streamBytes, hmore, Option.map_map]
            congr 1
            funext tail
            simp
        | invalid => cases h
        | done =>
          cases h
          exact ⟨[], by simp, by simp [streamBytes]⟩
        | failure thrown =>
          exact absurd h (bodyFailure_ne_ok _)
    · cases h
      exact ⟨[], by simp, by simp⟩

variable {bytes : List UInt8}

/-- A stream that is read has exactly the bytes that are returned, and so many. -/
theorem streamBytes_readStream {reads : List ReadResult}
    (h : (readStream expectedLength reads).exec s = (.ok bytes, s')) :
    streamBytes reads = some bytes ∧ bytes.length = expectedLength := by
  rw [readStream, Async.exec_bind] at h
  rcases hchunks : (readChunks expectedLength reads []).exec s with ⟨e | ⟨output, rest⟩, s₁⟩
  · rw [hchunks] at h
    cases h
  · rw [hchunks] at h
    dsimp only at h
    split_ifs at h with hlength
    · cases h
    · rw [Async.exec_bind_ok (exec_tick s₁)] at h
      obtain ⟨more, hmore, hbytes⟩ := streamBytes_readChunks hchunks
      rw [List.nil_append] at hmore
      subst hmore
      rw [ne_eq, not_not] at hlength
      split at h
      · cases h
        exact ⟨by rw [hbytes, streamBytes, Option.map_some, List.append_nil], hlength⟩
      · cases h
        exact ⟨by rw [hbytes, streamBytes, Option.map_some, List.append_nil], hlength⟩
      · exact absurd h (bodyFailure_ne_ok _)
      · cases h
      · rw [Async.exec_bind_ok (exec_tick _)] at h
        cases h

theorem bytes_readBuffer {result : ReadResult}
    (h : (readBuffer expectedLength result).exec s = (.ok bytes, s')) :
    result = .chunk bytes ∧ bytes.length = expectedLength := by
  unfold readBuffer at h
  rw [Async.exec_bind_ok (exec_tick s)] at h
  have hinvalid : ∀ s₁ : World, Async.exec (do
      if ← aborted then fail cancelledError
      else fail (sourceError .sourceUnavailable "The source returned an invalid body") :
        Http (List UInt8)) s₁ ≠ (.ok bytes, s') := by
    intro s₁ h
    rw [Async.exec_bind_ok (exec_aborted s₁)] at h
    split_ifs at h <;> cases h
  cases result with
  | chunk chunk =>
    dsimp only at h
    rw [Async.exec_bind_ok (exec_aborted _)] at h
    split_ifs at h with _ hlength
    · cases h
    · cases h
    · cases h
      exact ⟨rfl, by simpa using hlength⟩
  | invalid => exact absurd h (hinvalid _)
  | done => exact absurd h (hinvalid _)
  | failure thrown => exact absurd h (bodyFailure_ne_ok _)

/-- A body that is read has exactly the bytes that are returned, and as many as expected. -/
theorem bytes_readResponseBody {response : Response}
    (h : (readResponseBody response expectedLength).exec s = (.ok bytes, s')) :
    response.body.bytes? = some bytes ∧ bytes.length = expectedLength := by
  rw [readResponseBody, Async.exec_bind_ok (exec_aborted s)] at h
  split_ifs at h
  · cases h
  · cases h
  · cases h
  · cases hbody : response.body with
    | stream reads =>
      rw [hbody] at h
      dsimp only at h
      rw [Async.exec_tryCatch] at h
      rcases hstream : (readStream expectedLength reads).exec s with ⟨e | read, s₁⟩
      · rw [hstream] at h
        dsimp only at h
        rw [Async.exec_bind_ok (exec_tick _), Async.exec_bind_ok (exec_aborted _)] at h
        split_ifs at h <;> cases h
      · rw [hstream] at h
        cases h
        exact streamBytes_readStream hstream
    | buffer result =>
      rw [hbody] at h
      obtain ⟨rfl, hlength⟩ := bytes_readBuffer h
      exact ⟨rfl, hlength⟩
    | unreadable =>
      rw [hbody] at h
      cases h

/-! ## The attempts of a request -/

/-- Whether the transport failed, so that the request may be made again. -/
def TransportFailed : Except Thrown Response → Prop
  | .error _ => True
  | .ok response => response.status = 0 ∨ response.status ∈ retryableStatuses

/-- What a request writes down: after every fetch but the last one the transport failed, or that
    of its body did. -/
inductive Retried : List Event → Prop
  | nil : Retried []
  | last (result : Except Thrown Response) : Retried [.fetched result]
  | lastBody (result : Except Thrown Response) : Retried [.fetched result, .bodyFailed]
  | transport {result : Except Thrown Response} {trace : List Event} : TransportFailed result →
    Retried trace → Retried (.fetched result :: trace)
  | body {result : Except Thrown Response} {trace : List Event} :
    Retried trace → Retried (.fetched result :: .bodyFailed :: trace)

def Event.isFetched : Event → Bool
  | fetched _ => true
  | bodyFailed => false

/-- The number of fetches. -/
def fetches (trace : List Event) : ℕ := trace.countP Event.isFetched

@[simp] theorem fetches_nil : fetches [] = 0 := rfl

@[simp] theorem fetches_fetched (result : Except Thrown Response) (trace : List Event) :
    fetches (.fetched result :: trace) = fetches trace + 1 := List.countP_cons_of_pos rfl

@[simp] theorem fetches_bodyFailed (trace : List Event) :
    fetches (.bodyFailed :: trace) = fetches trace :=
  List.countP_cons_of_neg (by simp [Event.isFetched])

/-- Consuming a response writes down nothing but the failure of its body, and keeps a relation if
    it throws. -/
structure Consumes {α : Type} (R : World → World → Prop) (consume : Response → Http α) : Prop where
  transports : ∀ response, Transports (fun _ _ => True) (consume response)
  error : ∀ response s e, ((consume response).exec s).1 = .error e →
    R s ((consume response).exec s).2

theorem keeps_resolveHeaders : Async.Keeps World.Kept resolveHeaders := by
  refine .bind .get fun s => .bind keeps_tick fun _ => ?_
  split
  · exact .pure _
  · refine .bind keeps_aborted fun b => ?_
    split_ifs <;> exact keeps_fail _

theorem keeps_retryDelay : Async.Keeps World.Kept retryDelay := by
  refine .bind .get fun s => .bind (.modify fun _ => ⟨rfl, rfl, rfl, le_rfl⟩) fun _ => ?_
  split_ifs
  · refine .bind keeps_aborted fun b => ?_
    split_ifs
    · exact keeps_fail _
    · refine .bind keeps_tick fun _ => .bind keeps_aborted fun b => ?_
      split_ifs
      · exact keeps_fail _
      · exact .pure _
  · exact .pure _

/-- An aborted request is not made; any other one is written down. -/
theorem fetch_cases (s : World) :
    (s.isAborted = true ∧ fetch.exec s = (.ok (.error (.error cancelledError)), s)) ∨
      ∃ result s', fetch.exec s = (.ok result, s') ∧
        s'.events = s.events ++ [.fetched result] ∧ s.Framed s' := by
  unfold fetch
  rw [Async.exec_bind_ok (exec_aborted s)]
  cases haborted : s.isAborted with
  | true => exact .inl ⟨rfl, rfl⟩
  | false => exact .inr ⟨_, _, rfl, rfl, rfl, rfl, Nat.le_succ _⟩

variable {α : Type} {consume : Response → Http α} {left : ℕ}

/-- What one attempt does: it is not made, is given up with the response or without one, is
    served, or is followed by the attempts that are left. -/
inductive Attempted (consume : Response → Http α) (left : ℕ) (s : World) :
    Except Thrown α × World → Prop
  | unsent {thrown : Thrown} {s' : World} : s.Kept s' → Attempted consume left s (.error thrown, s')
  | lost {result : Except Thrown Response} {thrown : Thrown} {s' : World} :
    s'.events = s.events ++ [.fetched result] → s.Framed s' →
    Attempted consume left s (.error thrown, s')
  | again {result : Except Thrown Response} {s' : World} :
    s'.events = s.events ++ [.fetched result] → s.Framed s' →
    TransportFailed result → Attempted consume left s ((requestLoop consume left).exec s')
  | served {response : Response} {a : α} {s₁ s₂ : World} :
    s₁.events = s.events ++ [.fetched (.ok response)] → s.Framed s₁ →
    (consume response).exec s₁ = (.ok a, s₂) → Attempted consume left s (.ok a, s₂)
  | rejected {response : Response} {thrown thrown' : Thrown} {s₁ s₂ s₃ : World} :
    s₁.events = s.events ++ [.fetched (.ok response)] → s.Framed s₁ →
    (consume response).exec s₁ = (.error thrown, s₂) → s₂.Kept s₃ →
    Attempted consume left s (.error thrown', s₃)
  | body {response : Response} {s₁ s₂ s₃ : World} :
    s₁.events = s.events ++ [.fetched (.ok response)] → s.Framed s₁ →
    (consume response).exec s₁ = (.error .retryableBody, s₂) → s₂.Kept s₃ →
    Attempted consume left s ((requestLoop consume left).exec s₃)

/-- The delay is over, or aborted. -/
theorem retryDelay_cases (consume : Response → Http α) (left : ℕ) (s : World) :
    ∃ s', s.Kept s' ∧ ((∃ thrown, (retryDelay >>= fun _ => requestLoop consume left).exec s =
        (.error thrown, s')) ∨
      (retryDelay >>= fun _ => requestLoop consume left).exec s =
        (requestLoop consume left).exec s') := by
  have hkept := keeps_retryDelay s
  rw [Async.exec_bind]
  rcases hdelay : retryDelay.exec s with ⟨thrown | _, s'⟩
  · rw [hdelay] at hkept
    exact ⟨s', hkept, .inl ⟨thrown, rfl⟩⟩
  · rw [hdelay] at hkept
    exact ⟨s', hkept, .inr rfl⟩

/-- A request that is given up. -/
theorem Attempted.giveUp {result : Except Thrown Response} {s s₁ s₂ : World}
    (hevents : s₁.events = s.events ++ [.fetched result])
    (hframed : s.Framed s₁) (hkept : s₁.Kept s₂) (thrown : Thrown) :
    Attempted consume left s (.error thrown, s₂) :=
  .lost (hkept.events.trans hevents) (trans_of World.Framed hframed hkept.framed)

/-- A request that is made again after its transport failed. -/
theorem Attempted.retry {result : Except Thrown Response} {s s₁ : World}
    (hevents : s₁.events = s.events ++ [.fetched result])
    (hframed : s.Framed s₁) (hfailed : TransportFailed result) :
    Attempted consume left s ((retryDelay >>= fun _ => requestLoop consume left).exec s₁) := by
  obtain ⟨s₂, hkept, ⟨thrown, hexec⟩ | hexec⟩ := retryDelay_cases consume left s₁
  · rw [hexec]
    exact .giveUp hevents hframed hkept thrown
  · rw [hexec]
    exact .again (hkept.events.trans hevents) (trans_of World.Framed hframed hkept.framed) hfailed

theorem attempted_response {s s₁ : World} (response : Response)
    (hevents : s₁.events = s.events ++ [.fetched (.ok response)])
    (hframed : s.Framed s₁) :
    Attempted consume left s (Async.exec (tryCatch (consume response) fun thrown => do
      tick
      if thrown ≠ .retryableBody then throw thrown
      else if ← aborted then fail cancelledError
      else if left = 0 then
        fail (sourceError .sourceUnavailable "The source body could not be read" true)
      else
        retryDelay
        requestLoop consume left) s₁) := by
  rw [Async.exec_tryCatch]
  rcases hconsume : (consume response).exec s₁ with ⟨thrown | a, s₂⟩
  · dsimp only
    rw [Async.exec_bind_ok (exec_tick s₂)]
    have htick : s₂.Kept { s₂ with clock := s₂.clock + 1 } := keeps_tick s₂
    by_cases hthrown : thrown = .retryableBody
    · subst hthrown
      rw [if_neg (not_not.2 rfl), Async.exec_bind_ok (exec_aborted _)]
      split_ifs
      · exact .rejected hevents hframed hconsume htick
      · exact .rejected hevents hframed hconsume htick
      · obtain ⟨s₃, hkept, ⟨thrown, hexec⟩ | hexec⟩ := retryDelay_cases consume left
          { s₂ with clock := s₂.clock + 1 }
        · rw [hexec]
          exact .rejected hevents hframed hconsume (trans_of World.Kept htick hkept)
        · rw [hexec]
          exact .body hevents hframed hconsume (trans_of World.Kept htick hkept)
    · rw [if_pos hthrown]
      exact .rejected hevents hframed hconsume htick
  · exact .served hevents hframed hconsume

theorem attempted (consume : Response → Http α) (left : ℕ) (s : World) :
    Attempted consume left s ((requestLoop consume (left + 1)).exec s) := by
  rw [requestLoop, Async.exec_bind_ok (exec_aborted s)]
  by_cases haborted : s.isAborted = true
  · rw [if_pos haborted]
    exact .unsent (refl_of World.Kept s)
  · rw [if_neg haborted]
    have hkept := keeps_resolveHeaders s
    rw [Async.exec_bind]
    rcases hheaders : resolveHeaders.exec s with ⟨thrown | _, s'⟩
    · rw [hheaders] at hkept
      exact .unsent hkept
    · rw [hheaders] at hkept
      dsimp only at hkept ⊢
      rcases fetch_cases s' with ⟨haborted, hfetch⟩ | ⟨result, s₁, hfetch, hevents, hfetched⟩
      · rw [Async.exec_bind_ok hfetch]
        dsimp only
        rw [Async.exec_bind_ok (exec_aborted _), haborted, Bool.true_or, if_pos rfl]
        exact .unsent hkept
      · rw [Async.exec_bind_ok hfetch]
        rw [hkept.events] at hevents
        have hframed := trans_of World.Framed hkept.framed hfetched
        have htick : s₁.Kept { s₁ with clock := s₁.clock + 1 } := keeps_tick s₁
        have hrefl := refl_of World.Kept s₁
        cases result with
        | error thrown =>
          dsimp only
          rw [Async.exec_bind_ok (exec_aborted _)]
          split_ifs
          · exact .giveUp hevents hframed hrefl _
          · exact .giveUp hevents hframed hrefl _
          · exact .retry hevents hframed trivial
        | ok response =>
          dsimp only
          by_cases hzero : response.status = 0 ∧ left ≠ 0
          · rw [if_pos hzero, Async.exec_bind_ok (exec_tick _)]
            exact .retry (htick.events.trans hevents) (trans_of World.Framed hframed htick.framed)
              (.inl hzero.1)
          rw [if_neg hzero]
          by_cases hretryable : response.status ∈ retryableStatuses ∧ left ≠ 0
          · rw [if_pos hretryable, Async.exec_bind_ok (exec_tick _)]
            exact .retry (htick.events.trans hevents) (trans_of World.Framed hframed htick.framed)
              (.inr hretryable.1)
          rw [if_neg hretryable]
          by_cases hstatus : response.status ∈ retryableStatuses
          · rw [if_pos hstatus]
            exact .giveUp hevents hframed htick _
          rw [if_neg hstatus]
          by_cases hunavailable : response.status = 0
          · rw [if_pos hunavailable]
            exact .giveUp hevents hframed htick _
          rw [if_neg hunavailable]
          exact attempted_response response hevents hframed

/-- What a request comes to. It is served by the response of one fetch. -/
structure Requested (R : World → World → Prop) (consume : Response → Http α) (left : ℕ)
    (s : World) (r : Except Thrown α × World) : Prop where
  trace : ∃ trace, r.2.events = s.events ++ trace ∧ Retried trace ∧ fetches trace ≤ left ∧
    ∀ a, r.1 = .ok a → ∃ response s₁, Event.fetched (.ok response) ∈ trace ∧ R s s₁ ∧
      (consume response).exec s₁ = (.ok a, r.2)
  error : ∀ e, r.1 = .error e → R s r.2

theorem requested (hconsume : Consumes R consume)
    (left : ℕ) (s : World) : Requested R consume left s ((requestLoop consume left).exec s) := by
  induction left generalizing s with
  | zero => exact ⟨⟨[], by simp [requestLoop], .nil, le_rfl, nofun⟩, fun _ _ => refl_of R s⟩
  | succ left ih =>
    generalize hr : (requestLoop consume (left + 1)).exec s = r
    have hattempted := attempted consume left s
    rw [hr] at hattempted
    clear hr
    cases hattempted with
    | unsent hkept =>
      exact ⟨⟨[], by rw [hkept.events, List.append_nil], .nil, Nat.zero_le _, nofun⟩,
        fun _ _ => OfFramed.of_framed hkept.framed⟩
    | @lost result thrown s' hevents hframed =>
      exact ⟨⟨_, hevents, .last result, by simp, nofun⟩,
        fun _ _ => OfFramed.of_framed hframed⟩
    | @again result s' hevents hframed hfailed =>
      obtain ⟨⟨trace, htrace, hretried, hcount, hok⟩, herror⟩ := ih s'
      refine ⟨⟨.fetched result :: trace, by rw [htrace, hevents]; simp, .transport hfailed hretried,
        by simpa using hcount, fun a ha => ?_⟩,
        fun e he => trans_of R (OfFramed.of_framed hframed) (herror e he)⟩
      obtain ⟨response, s₁, hmem, hrel, hexec⟩ := hok a ha
      exact ⟨response, s₁, List.mem_cons_of_mem _ hmem,
        trans_of R (OfFramed.of_framed hframed) hrel, hexec⟩
    | @served response a s₁ s₂ hevents hframed hexec =>
      have hkept := (hconsume.transports response s₁).ok a
      rw [hexec] at hkept
      refine ⟨⟨[.fetched (.ok response)], (hkept rfl).trans hevents, .last _,
        by simp, fun a' ha' => ?_⟩, nofun⟩
      cases ha'
      exact ⟨response, s₁, List.mem_cons_self, OfFramed.of_framed hframed, hexec⟩
    | @rejected response thrown thrown' s₁ s₂ s₃ hevents hframed hexec hkept =>
      have hfirst := (hconsume.transports response s₁).events
      have herror := hconsume.error response s₁ thrown
      rw [hexec] at hfirst herror
      have hrel : R s s₃ := trans_of R (OfFramed.of_framed hframed)
        (trans_of R (herror rfl) (OfFramed.of_framed hkept.framed))
      rcases hfirst with hsame | hbody
      · exact ⟨⟨[.fetched (.ok response)], hkept.events.trans (hsame.trans hevents), .last _,
          by simp, nofun⟩, fun _ _ => hrel⟩
      · exact ⟨⟨[.fetched (.ok response), .bodyFailed], by
          rw [hkept.events, hbody, hevents]
          simp, .lastBody _, by simp, nofun⟩, fun _ _ => hrel⟩
    | @body response s₁ s₂ s₃ hevents hframed hexec hkept =>
      have hbody := (hconsume.transports response s₁).failed
      have herror := hconsume.error response s₁ .retryableBody
      rw [hexec] at hbody herror
      have hrel : R s s₃ := trans_of R (OfFramed.of_framed hframed)
        (trans_of R (herror rfl) (OfFramed.of_framed hkept.framed))
      obtain ⟨⟨trace, htrace, hretried, hcount, hok⟩, herror'⟩ := ih s₃
      refine ⟨⟨.fetched (.ok response) :: .bodyFailed :: trace, by
        rw [htrace, hkept.events, hbody rfl, hevents]
        simp, .body hretried, by simpa using hcount, fun a ha => ?_⟩,
        fun e he => trans_of R hrel (herror' e he)⟩
      obtain ⟨response', s₄, hmem, hrel', hexec'⟩ := hok a ha
      exact ⟨response', s₄, by simp [hmem], trans_of R hrel hrel', hexec'⟩

end Tabulark.Source
