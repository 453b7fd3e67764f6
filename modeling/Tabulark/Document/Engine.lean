import Tabulark.Document.Rpc

/-!
# The document engine

An open reads the first bytes of its source, then all of them, starts a Worker, greets
it, and has it open the document. The Worker belongs to the open call at first, then to
the engine, which has it among those that are opening, then to a session, and at last
to the task that closes the session. In between anything may happen: aborts, messages
and failures of Workers, closes of sessions, time-outs, and closes of the engine.

A task of the host runs to its end, with all that waits for the promises that it
resolves. A wait whose promise is rejected goes on at once, too: what the caller of an
abort or a close does next finds nothing else.
-/

namespace Tabulark.Document

open JsValue

/-! ## Sessions -/

/-- A page that is kept. -/
structure RenderedPage where
  pageIndex : ℕ
  width : ℕ
  height : ℕ
  pixels : List UInt8
  deriving DecidableEq, Repr

/-- A page that is to be rendered. -/
structure RenderTask where
  pageIndex : ℕ
  pixelWidth : ℕ
  signal : Option ℕ
  deriving DecidableEq, Repr

/-- How far the task is that closes a session. -/
inductive ClosePhase
  | closing (requestId : ℕ)
  | shuttingDown (requestId : ℕ)
  | done
  deriving DecidableEq, Repr

structure Session where
  pageCount : ℕ
  closed : Bool := false
  closePhase : Option ClosePhase := none
  /-- The pages that wait for the one that is rendered. -/
  renderQueue : List RenderTask := []
  rendering : Option (RenderTask × ℕ) := none
  diagnostics : List JsValue := []
  cache : List RenderedPage := []
  cacheBytes : ℕ := 0

/-- The pages that are kept, the oldest first, and their bytes, when the limits are met. -/
def evict (pageCacheBytes : ℕ) : List RenderedPage → ℕ → List RenderedPage × ℕ
  | [], bytes => ([], bytes)
  | page :: cache, bytes =>
    if 3 < cache.length + 1 ∨ pageCacheBytes < bytes then
      evict pageCacheBytes cache (bytes - page.pixels.length)
    else (page :: cache, bytes)

/-- Keeps a page, in the place of the one with its number. -/
def Session.remember (session : Session) (page : RenderedPage) (pageCacheBytes : ℕ) : Session :=
  if pageCacheBytes < page.pixels.length then session
  else
    let previous := session.cache.find? (·.pageIndex == page.pageIndex)
    let bytes := session.cacheBytes - (previous.map (·.pixels.length)).getD 0
    let cache := session.cache.filter (·.pageIndex != page.pageIndex) ++ [page]
    let (cache, cacheBytes) := evict pageCacheBytes cache (bytes + page.pixels.length)
    { session with cache, cacheBytes }

/-- A page that the Worker rendered. -/
def renderedPage? (page : JsValue) (index maxPixels : ℕ) : Option RenderedPage := do
  let width ← (page.prop "width").safeNat?
  let height ← (page.prop "height").safeNat?
  let pixels ← match page.prop "pixels" with
    | .buffer pixels | .view pixels => some pixels
    | _ => none
  if (page.prop "pageIndex").isNumber index ∧ 0 < width ∧ 0 < height ∧
      width * height ≤ maxPixels ∧ (page.prop "stride").isNumber (width * 4) ∧
        pixels.length = width * 4 * height ∧ (page.prop "colorSpace").isText "srgb" then
    some { pageIndex := index, width, height, pixels }
  else none

/-- The page of a task whose request is settled. -/
def RenderTask.page? (task : RenderTask) (outcome : Outcome) (maxPixels : ℕ) :
    Option RenderedPage :=
  match outcome with
  | .rejected _ => none
  | .resolved message =>
    let result := message.prop "result"
    if (result.prop "operation").isText "renderPage" then
      renderedPage? (result.prop "page") task.pageIndex maxPixels
    else none

/-! ## Opens -/

/-- What an engine is made with. -/
structure DocumentProvider where
  id : String
  format : DocumentFormat
  sniff : List UInt8 → Option String → Bool

structure DocumentOptions where
  providers : List DocumentProvider
  assetBaseUrl : Option String
  limits : WorkerLimits
  pageCacheBytes : ℕ

inductive LocalDocumentSource
  | arrayBuffer (bytes : List UInt8)
  | blob (bytes : List UInt8)
  | other

/-- A Worker, as far as it can be told from others: the requests that it cannot be sent. -/
abbrev DocumentWorker := DocumentRequest → Bool

/-- What an open waits for, or how it was settled. Once there is a Worker its client is at hand. -/
inductive Phase
  | readingHead
  | readingBytes (format : DocumentFormat)
  | greeting (client : RpcClient) (requestId : ℕ) (format : DocumentFormat)
  | opening (client : RpcClient) (requestId : ℕ)
  | resolved (client : RpcClient) (session : Session)
  | rejected (error : Thrown) (client : Option RpcClient)

/-- A call of `open`. -/
structure OpenCall where
  source : LocalDocumentSource
  sourceName : Option String
  signal : Option ℕ
  sessionId : String
  phase : Phase
  /-- Whether the client is among those of the engine that are opening. -/
  opening : Bool := false
  /-- Whether the session is among those of the engine. -/
  registered : Bool := false

def invalidResponse : DocumentPreviewError where
  code := .protocolIncompatible
  message := "The document Worker returned an unexpected response"

def limitError (resource : String) (required available : JsValue) : DocumentPreviewError where
  code := .resourceLimit
  message := s!"The document exceeds the {resource} limit"
  details := some (.record [("resource", .text resource), ("requiredBytes", required),
    ("availableBytes", available)])

namespace LocalDocumentSource

def bytes : LocalDocumentSource → List UInt8
  | arrayBuffer bytes | blob bytes => bytes
  | other => []

def isLocal : LocalDocumentSource → Bool
  | other => false
  | _ => true

end LocalDocumentSource

/-- What a document finds in the engine: the options, whether it is closed, and the signals that
    are aborted. -/
structure Surroundings where
  options : DocumentOptions
  closed : Bool
  aborted : List ℕ

namespace Surroundings

/-- Whether a signal is aborted. -/
def isAborted (s : Surroundings) (signal : Option ℕ) : Bool := signal.any (s.aborted.contains ·)

end Surroundings

namespace OpenCall

variable (s : Surroundings) (call : OpenCall)

/-- The client of the Worker, once there is one. -/
def client? : Option RpcClient :=
  match call.phase with
  | .greeting client _ _ | .opening client _ | .resolved client _ => some client
  | .rejected _ client => client
  | .readingHead | .readingBytes _ => none

/-- The session, once there is one. -/
def session? : Option Session :=
  match call.phase with
  | .resolved _ session => some session
  | _ => none

/-- Whether the promise of the open is settled. -/
def isSettled : Bool :=
  match call.phase with
  | .resolved .. | .rejected .. => true
  | _ => false

/-- Something happens to the client. -/
def mapClient (f : RpcClient → RpcClient) : OpenCall :=
  match call.phase with
  | .greeting client requestId format =>
    { call with phase := .greeting (f client) requestId format }
  | .opening client requestId => { call with phase := .opening (f client) requestId }
  | .resolved client session => { call with phase := .resolved (f client) session }
  | _ => call

/-- The open fails after its Worker was made. -/
def fail (client : RpcClient) (error : DocumentPreviewError) : OpenCall :=
  { call with phase := .rejected (.document error) (some client.terminate), opening := false }

/-- An open begins. -/
def start (source : LocalDocumentSource) (sourceName : Option String) (signal : Option ℕ)
    (sessionId : String) : OpenCall :=
  let size := source.bytes.length
  let phase : Phase :=
    if s.closed then .rejected (.document closedError) none
    else if s.isAborted signal then .rejected (.document cancelledError) none
    else if ¬source.isLocal then
      .rejected (.type "source must be a local Blob, File, or ArrayBuffer") none
    else if s.options.limits.maxInputBytes < size then
      .rejected (.document (limitError "input" (.number size)
        (.number s.options.limits.maxInputBytes))) none
    else .readingHead
  { source, sourceName, signal, sessionId, phase }

/-! ### What waits for a promise -/

/-- Goes on when the greeting is settled. -/
def advanceGreeting : OpenCall :=
  match call.phase with
  | .greeting client requestId format =>
    match client.outcome? requestId with
    | none => call
    | some (.rejected error) => call.fail client error
    | some (.resolved message) =>
      let result := message.prop "result"
      if ¬(result.prop "operation").isText "hello" ∨
          ¬(result.prop "protocol").isText documentProtocol then
        call.fail client
          { code := .protocolIncompatible
            message := "The document Worker protocol is incompatible" }
      else if s.closed then call.fail client closedError
      else
        match client.request (.open call.sessionId format call.source.bytes s.options.limits
            s.options.assetBaseUrl) call.signal (s.isAborted call.signal) with
        | (client, .error error) => call.fail client error
        | (client, .ok requestId) => { call with phase := .opening client requestId }
  | _ => call

/-- Goes on when the document is opened, and makes the session. -/
def advanceOpening : OpenCall :=
  match call.phase with
  | .opening client requestId =>
    match client.outcome? requestId with
    | none => call
    | some (.rejected error) => call.fail client error
    | some (.resolved message) =>
      let result := message.prop "result"
      if ¬(result.prop "operation").isText "open" then call.fail client invalidResponse
      else
        let pageCount := (result.prop "pageCount").safeNat?.filter fun count =>
          0 < count ∧ count ≤ s.options.limits.maxPages
        match pageCount with
        | none => call.fail client (limitError "pages" (result.prop "pageCount")
            (.number s.options.limits.maxPages))
        | some pageCount =>
          { call with
            phase := .resolved client { pageCount }
            opening := false
            registered := true }
  | _ => call

/-- Goes on when a page is rendered. -/
def advanceRender : OpenCall :=
  match call.phase with
  | .resolved client session =>
    match session.rendering with
    | none => call
    | some (task, requestId) =>
      match client.outcome? requestId with
      | none => call
      | some outcome =>
        let session := { session with rendering := none }
        let page := task.page? outcome s.options.limits.maxPagePixels
        { call with
          phase := .resolved client
            (page.elim session fun page => session.remember page s.options.pageCacheBytes) }
  | _ => call

/-- The task that closes a session ends, whatever became of its requests. -/
def finishClose (client : RpcClient) (session : Session) : OpenCall :=
  { call with phase := .resolved client.terminate { session with closePhase := some .done } }

/-- Goes on when the Worker has closed the session, and shuts it down. -/
def advanceClose : OpenCall :=
  match call.phase with
  | .resolved client session =>
    match session.closePhase with
    | some (.closing requestId) =>
      match client.outcome? requestId with
      | none => call
      | some (.rejected _) => call.finishClose client session
      | some (.resolved _) =>
        match client.request .shutdown none false with
        | (client, .error _) => call.finishClose client session
        | (client, .ok requestId) =>
          let session := { session with closePhase := some (.shuttingDown requestId) }
          { call with phase := .resolved client session }
    | _ => call
  | _ => call

/-- Goes on when the Worker has shut down. -/
def advanceShutdown : OpenCall :=
  match call.phase with
  | .resolved client session =>
    match session.closePhase with
    | some (.shuttingDown requestId) =>
      if (client.outcome? requestId).isSome then call.finishClose client session else call
    | _ => call
  | _ => call

/-- Goes on with whatever was settled. -/
def advance : OpenCall :=
  ((((call.advanceGreeting s).advanceOpening s).advanceRender s).advanceClose).advanceShutdown

/-! ### Events -/

/-- Makes a Worker, which may fail, and greets it. -/
def startWorker (format : DocumentFormat) (worker : Option DocumentWorker) : OpenCall :=
  match worker with
  | none => { call with phase := .rejected .foreign none }
  | some rejects =>
    let client : RpcClient := { rejects }
    let call := { call with opening := true }
    match client.request .hello none false with
    | (client, .error error) => call.fail client error
    | (client, .ok requestId) =>
      if s.isAborted call.signal then call.fail client cancelledError
      else { call with phase := .greeting client requestId format }

/-- The first bytes are read, or cannot be. -/
def headRead (succeeds : Bool) (worker : Option DocumentWorker) : OpenCall :=
  match call.phase with
  | .readingHead =>
    if ¬succeeds then { call with phase := .rejected .foreign none }
    else
      let head := call.source.bytes.take 4096
      match s.options.providers.find? fun provider => provider.sniff head call.sourceName with
      | none =>
        { call with
          phase := .rejected (.document
            { code := .unsupportedFormat
              message := "No registered document provider accepts this local source" }) none }
      | some provider =>
        match call.source with
        | .blob _ =>
          if s.isAborted call.signal then
            { call with phase := .rejected (.document cancelledError) none }
          else { call with phase := .readingBytes provider.format }
        | _ => call.startWorker s provider.format worker
  | _ => call

/-- All bytes are read, or cannot be. -/
def bytesRead (succeeds : Bool) (worker : Option DocumentWorker) : OpenCall :=
  match call.phase with
  | .readingBytes format =>
    if succeeds then call.startWorker s format worker
    else { call with phase := .rejected .foreign none }
  | _ => call

/-- A message of the Worker. -/
def onMessage (data : JsValue) : OpenCall :=
  let call : OpenCall :=
    match call.phase with
    | .resolved client session =>
      if isWorkerMessage data ∧ (data.prop "kind").isText "diagnostic" ∧ ¬client.stopped ∧
          (data.prop "generation").isNumber client.generation then
        let diagnostics := session.diagnostics ++ [data.prop "diagnostic"]
        { call with phase := .resolved client { session with diagnostics } }
      else call
    | _ => call
  call.mapClient (·.onMessage data)

/-- The Worker fails. -/
def onError : OpenCall := call.mapClient (·.onError)

/-- A signal is aborted. -/
def abort (signal : ℕ) : OpenCall :=
  match call.phase with
  | .readingBytes _ =>
    if call.signal = some signal then
      { call with phase := .rejected (.document cancelledError) none }
    else call
  | .greeting client _ _ =>
    if call.signal = some signal then call.fail client cancelledError else call
  | _ => call.mapClient (·.abort signal)

/-- The page of a session with a number. -/
def page? (session : Session) (index : JsValue) : Option ℕ :=
  if session.closed then none else index.safeNat?.filter (· < session.pageCount)

def getPageInfo (index : JsValue) : OpenCall :=
  match call.phase with
  | .resolved client session =>
    match page? session index with
    | none => call
    | some index =>
      let client := (client.request (.pageInfo call.sessionId index) none false).1
      { call with phase := .resolved client session }
  | _ => call

/-- A page is to be rendered with a width in pixels, unless that is refused. -/
def renderPage (index : JsValue) (pixelWidth : Option ℕ) (signal : Option ℕ) : OpenCall :=
  match call.phase with
  | .resolved client session =>
    match page? session index, pixelWidth with
    | some index, some pixelWidth =>
      let cached := session.cache.find? (·.pageIndex == index)
      match cached.filter (·.width == pixelWidth) with
      | some page =>
        let cache := session.cache.filter (·.pageIndex != index) ++ [page]
        { call with phase := .resolved client { session with cache } }
      | none =>
        let renderQueue := session.renderQueue ++ [⟨index, pixelWidth, signal⟩]
        { call with phase := .resolved client { session with renderQueue } }
    | _, _ => call
  | _ => call

/-- The next page in the queue is rendered. -/
def runRender : OpenCall :=
  match call.phase with
  | .resolved client session =>
    match session.rendering, session.renderQueue with
    | none, task :: renderQueue =>
      let session := { session with renderQueue }
      if session.closed then { call with phase := .resolved client session }
      else
        match client.request (.renderPage call.sessionId task.pageIndex task.pixelWidth) task.signal
            (s.isAborted task.signal) with
        | (client, .error _) => { call with phase := .resolved client session }
        | (client, .ok requestId) =>
          let session := { session with rendering := some (task, requestId) }
          { call with phase := .resolved client session }
    | _, _ => call
  | _ => call

/-- Closes a session. It leaves the sessions of the engine first. -/
def closeSession : OpenCall :=
  match call.phase with
  | .resolved client session =>
    if session.closePhase.isSome then call
    else
      let session := { session with closed := true, cache := [], cacheBytes := 0 }
      let call := { call with registered := false }
      match client.bumpGeneration.request (.close call.sessionId) none false with
      | (client, .error _) => call.finishClose client session
      | (client, .ok requestId) =>
        let session := { session with closePhase := some (.closing requestId) }
        { call with phase := .resolved client session }
  | _ => call

/-- The time of the task that closes a session is over. -/
def closeTimeout : OpenCall :=
  match call.phase with
  | .resolved client session =>
    match session.closePhase with
    | some (.closing _) | some (.shuttingDown _) => call.finishClose client session
    | _ => call
  | _ => call

/-- The engine terminates the Worker, and has it no more. -/
def terminate : OpenCall := { call with opening := false }.mapClient (·.terminate)

/-- Whether a session is being closed, with its Worker not yet terminated. -/
def isClosing : Bool := call.session?.any fun session =>
  session.closed && session.closePhase != some .done

/-- Whether the promise of the close of a session is settled. -/
def isCloseDone : Bool := call.session?.all fun session => session.closePhase == some .done

end OpenCall

/-! ## Engines -/

/-- Something that happens to a document. -/
inductive DocumentEvent
  | headRead (succeeds : Bool) (worker : Option DocumentWorker)
  | bytesRead (succeeds : Bool) (worker : Option DocumentWorker)
  | message (data : JsValue)
  | error
  | getPageInfo (index : JsValue)
  | renderPage (index : JsValue) (pixelWidth : Option ℕ) (signal : Option ℕ)
  | runRender
  | closeSession
  | closeTimeout

inductive EngineEvent
  | open (source : LocalDocumentSource) (sourceName : Option String) (signal : Option ℕ)
      (sessionId : String)
  | document (id : ℕ) (event : DocumentEvent)
  | abort (signal : ℕ)
  | closeEngine

namespace OpenCall

variable (s : Surroundings) (call : OpenCall)

def handle : DocumentEvent → OpenCall
  | .headRead succeeds worker => call.headRead s succeeds worker
  | .bytesRead succeeds worker => call.bytesRead s succeeds worker
  | .message data => call.onMessage data
  | .error => call.onError
  | .getPageInfo index => call.getPageInfo index
  | .renderPage index pixelWidth signal => call.renderPage index pixelWidth signal
  | .runRender => call.runRender s
  | .closeSession => call.closeSession
  | .closeTimeout => call.closeTimeout

/-- A document after an event. -/
def step (event : DocumentEvent) : OpenCall := (call.handle s event).advance s

/-- A document after the close of the engine: its Worker is terminated if it is opening, and its
    session is closed. -/
def engineClosed : OpenCall :=
  let call := if call.opening then call.terminate.advance s else call
  if call.registered then call.closeSession.advance s else call

end OpenCall

/-- An engine, with the calls of `open` and of `close`: for each close the sessions that it waits
    for. -/
structure DocumentEngine where
  closed : Bool := false
  aborted : List ℕ := []
  calls : List OpenCall := []
  closes : List (List ℕ) := []

namespace DocumentEngine

variable (options : DocumentOptions) (engine : DocumentEngine)

def surroundings : Surroundings := ⟨options, engine.closed, engine.aborted⟩

/-- The documents whose sessions are among those of the engine. -/
def sessions : List ℕ :=
  (List.range engine.calls.length).filter fun id => engine.calls[id]?.any (·.registered)

/-- Closes the engine. A second time it is done at once. -/
def close : DocumentEngine :=
  if engine.closed then { engine with closes := engine.closes ++ [[]] }
  else
    let closed := { engine with closed := true }
    { closed with
      calls := engine.calls.map (·.engineClosed (closed.surroundings options))
      closes := engine.closes ++ [engine.sessions] }

def step : EngineEvent → DocumentEngine
  | .open source sourceName signal sessionId =>
    let call := OpenCall.start (engine.surroundings options) source sourceName signal sessionId
    { engine with calls := engine.calls ++ [call] }
  | .document id event =>
    { engine with
      calls := engine.calls.modify id (·.step (engine.surroundings options) event) }
  | .abort signal =>
    let aborted := { engine with aborted := signal :: engine.aborted }
    { aborted with
      calls := engine.calls.map fun call =>
        (call.abort signal).advance (aborted.surroundings options) }
  | .closeEngine => engine.close options

/-- Whether the promise of a close is resolved. -/
def isCloseResolved : Bool :=
  engine.closes.any fun ids => ids.all fun id => engine.calls[id]?.all (·.isCloseDone)

end DocumentEngine

end Tabulark.Document
