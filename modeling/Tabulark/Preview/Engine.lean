import Mathlib
import Tabulark.Lib.Run
import Tabulark.Preview.Sources

/-!
# The preview engine

An open waits for the reader of its source, for the first bytes, for all of them, and
for what a Worker makes of them. Then it registers a session, which owns the source.
If it fails on the way it closes the source. In between anything may happen: aborts,
closes of sessions, and the close of the engine, which closes the sessions that are
registered by then. Readers are closed as they should be in all runs in which no
reader is refused, and no session registered after the engine is closed
(`released_of_clean`).
-/

namespace Tabulark.Preview

/-! ## Opens -/

/-- What an engine has and does apart from waiting: its limits, the formats of its providers, the
    detection of formats, and the making of sessions of what a Worker returns. -/
structure Previewer (W : Type) where
  limits : PreviewLimits
  providers : List (List PreviewFormat)
  detectFormat : List UInt8 → Option String → Option PreviewFormat
  formatName : PreviewFormat → String
  countLines : W → ℕ
  construct : PreviewFormat → W → Except Thrown Unit

/-- What an open waits for, or how it was settled. -/
inductive Phase
  | opening
  | acquired
  | entering
  | readingHead
  | readingBody (format : PreviewFormat)
  | inspecting (format : PreviewFormat)
  | releasing (error : Thrown)
  | rejected (error : Thrown)
  | resolved
  deriving DecidableEq, Repr

/-- A call of `open`. The reader is what the provider returned, and `closeCalls` how often it was
    closed. -/
structure OpenCall where
  source : PreviewSource
  format : Option PreviewFormat
  sourceName : Option String
  aborted : Bool
  phase : Phase
  reader : Option RangeSourceReader := none
  opened : Option OpenedSource := none
  closeCalls : ℕ := 0
  closePending : Bool := false
  sessionOpen : Option Bool := none

namespace OpenCall

/-- Closes the source, if it is not closed. -/
def closeSource (call : OpenCall) : OpenCall :=
  match call.opened with
  | none => call
  | some source =>
    if source.isClosed then call
    else
      { call with
        opened := some { source with isClosed := true }
        closeCalls := if source.remoteRange then call.closeCalls + 1 else call.closeCalls
        closePending := source.remoteRange }

/-- Fails after the source was opened: closes it, and waits until it is closed. -/
def fail (call : OpenCall) (error : Thrown) : OpenCall :=
  let error := if call.aborted then cancelled else error
  let call := call.closeSource
  { call with phase := if call.closePending then .releasing error else .rejected error }

/-- Starts to read the source. -/
def startRead (call : OpenCall) (source : OpenedSource) (length : ℕ) (phase : Phase) : OpenCall :=
  match source.checkRead 0 length call.aborted with
  | .error error => call.fail error
  | .ok _ => { call with phase }

/-- How many bytes are read to detect a format. -/
def headLength (source : OpenedSource) : ℕ := min source.size 4096

/-- The first bytes of a source, once they are read. -/
def bytes (call : OpenCall) (source : OpenedSource) (length : ℕ) (value : Option JsValue)
    (snapshot : JsValue) : Except Thrown (List UInt8) :=
  match value, call.source with
  | some value, .range _ => source.rangeBytes 0 length value snapshot
  | some _, .blob bytes _ => if call.aborted then .error cancelled else .ok (bytes.take length)
  | _, _ => .error .foreign

variable {W : Type} (p : Previewer W)

/-- Starts an open. -/
def start (source : PreviewSource) (format : Option PreviewFormat) (sourceName : Option String)
    (aborted : Bool) : OpenCall :=
  let call : OpenCall := { source, format, sourceName, aborted, phase := .opening }
  if aborted then { call with phase := .rejected cancelled }
  else
    match source with
    | .range _ => call
    | .blob bytes name =>
      if p.limits.maxSourceBytes < bytes.length then
        let error := resourceLimit "source-bytes" bytes.length p.limits.maxSourceBytes
        { call with phase := .rejected (.preview error) }
      else
        { call with
          phase := .entering
          opened := some
            { size := bytes.length, name, snapshot := ⟨"local", "strong"⟩, remoteRange := false } }
    | .other =>
      let error := "source must be a Blob, File, ArrayBuffer, ArrayBufferView, or RangeSource"
      { call with phase := .rejected (.type error) }

/-- The provider has opened the source, or failed to. -/
def sourceOpened (call : OpenCall) (reader : Option RangeSourceReader) : OpenCall :=
  match call.phase, reader with
  | .opening, some reader => { call with phase := .acquired, reader := some reader }
  | .opening, none =>
    { call with phase := .rejected (if call.aborted then cancelled else .foreign) }
  | _, _ => call

/-- Goes on with a reader, or with an opened source. -/
def resume (call : OpenCall) : OpenCall :=
  match call.phase, call.reader, call.opened with
  | .acquired, some reader, _ =>
    match validateReader reader p.limits with
    | .error error => { call with phase := .rejected error }
    | .ok (size, snapshot) =>
      let name : Option String :=
        match call.source with
        | .range name => name
        | _ => none
      { call with
        phase := .entering
        opened := some { size, name, snapshot, remoteRange := true } }
  | .entering, _, some source => call.startRead source (headLength source) .readingHead
  | _, _, _ => call

/-- Goes on with the first bytes of a source. -/
def inspectHead (call : OpenCall) (source : OpenedSource) (head : List UInt8) : OpenCall :=
  let name := call.sourceName.orElse fun _ => source.name
  match call.format.orElse fun _ => p.detectFormat head name with
  | none => call.fail (unsupportedFormat "No bundled preview provider recognizes this source")
  | some format =>
    if ¬p.providers.any (·.contains format) then
      call.fail (unsupportedFormat s!"No enabled preview provider supports {p.formatName format}")
    else if format = .pdf then
      call.fail (unsupportedFormat ("PDF is available through @tabulark/document-preview until " ++
        "its worker provider is migrated"))
    else if isTextual format then
      if p.limits.maxTextBytes < source.size then
        call.fail (.preview (resourceLimit "text-bytes" source.size p.limits.maxTextBytes))
      else call.startRead source source.size (.readingBody format)
    else if isImage format then
      if p.limits.maxInputBytes < source.size then
        call.fail (.preview (resourceLimit "image-input-bytes" source.size p.limits.maxInputBytes))
      else call.startRead source source.size (.readingBody format)
    else
      call.fail (unsupportedFormat
        s!"The {p.formatName format} preview provider is not available in P0")

/-- A read is done, or has failed. The Worker gets the bytes of the second one. -/
def readSettled (call : OpenCall) (value : Option JsValue) (snapshot : JsValue) : OpenCall :=
  match call.phase, call.opened with
  | .readingHead, some source =>
    match call.bytes source (headLength source) value snapshot with
    | .error error => call.fail error
    | .ok head => call.inspectHead p source head
  | .readingBody format, some source =>
    match call.bytes source source.size value snapshot with
    | .error error => call.fail error
    | .ok _ => { call with phase := .inspecting format }
  | _, _ => call

/-- Makes a session. -/
def makeSession (format : PreviewFormat) (result : W) : Except Thrown Unit :=
  if isTextual format ∧ p.limits.maxTextLines < p.countLines result then
    .error (.preview (resourceLimit "text-lines" (p.countLines result) p.limits.maxTextLines))
  else p.construct format result

/-- The Worker has returned, or failed. The session is registered. -/
def inspected (call : OpenCall) (result : Except Thrown W) : OpenCall :=
  match call.phase with
  | .inspecting format =>
    match result.bind (makeSession p format) with
    | .error error => call.fail error
    | .ok _ => { call with phase := .resolved, sessionOpen := some true }
  | _ => call

/-- The reader is closed, or has failed to close. -/
def readerClosed (call : OpenCall) (failed : Bool) : OpenCall :=
  match call.closePending, call.phase with
  | true, .releasing error =>
    { call with closePending := false, phase := .rejected (if failed then .foreign else error) }
  | true, _ => { call with closePending := false }
  | false, _ => call

/-- Closes the session, if there is one that is open. -/
def closeSession (call : OpenCall) : OpenCall :=
  match call.sessionOpen with
  | some true => { call.closeSource with sessionOpen := some false }
  | _ => call

/-- Whether the promise of the open is settled. -/
def isSettled (call : OpenCall) : Bool :=
  match call.phase with
  | .rejected _ | .resolved => true
  | _ => false

end OpenCall

/-! ## Engines -/

structure PreviewEngine where
  isClosed : Bool := false
  sessions : List ℕ := []
  calls : List OpenCall := []
  /-- The sessions that a close waits for. -/
  waiting : Option (List ℕ) := none
  closeResolved : Bool := false

inductive PreviewEvent (W : Type)
  | open (source : PreviewSource) (format : Option PreviewFormat) (sourceName : Option String)
      (aborted : Bool)
  | abort (id : ℕ)
  | sourceOpened (id : ℕ) (reader : Option RangeSourceReader)
  | resume (id : ℕ)
  | readSettled (id : ℕ) (value : Option JsValue) (snapshot : JsValue)
  | inspected (id : ℕ) (result : Except Thrown W)
  | readerClosed (id : ℕ) (failed : Bool)
  | closeSession (id : ℕ)
  | closeEngine
  | sessionsClosed

namespace PreviewEngine

variable {W : Type} (p : Previewer W) (engine : PreviewEngine)

def update (id : ℕ) (f : OpenCall → OpenCall) : PreviewEngine :=
  { engine with calls := engine.calls.modify id f }

/-- Closes a session, which takes it out of the sessions of the engine. -/
def closeSession (id : ℕ) : PreviewEngine :=
  { engine.update id OpenCall.closeSession with sessions := engine.sessions.erase id }

/-- Closes an engine, and the sessions that it has. -/
def close : PreviewEngine :=
  if engine.isClosed then engine
  else
    { engine.sessions.foldl closeSession { engine with isClosed := true } with
      waiting := some engine.sessions }

/-- Whether the reader of a session is closed, or has failed to close. -/
def isDone (id : ℕ) : Bool := engine.calls[id]?.all fun call => !call.closePending

/-- An engine after an event. What cannot happen changes nothing. -/
def step : PreviewEvent W → PreviewEngine
  | .open source format sourceName aborted =>
    let call : OpenCall :=
      if engine.isClosed then { source, format, sourceName, aborted, phase := .rejected closed }
      else OpenCall.start p source format sourceName aborted
    { engine with calls := engine.calls ++ [call] }
  | .abort id => engine.update id fun call => { call with aborted := true }
  | .sourceOpened id reader => engine.update id (·.sourceOpened reader)
  | .resume id => engine.update id (·.resume p)
  | .readSettled id value snapshot => engine.update id (·.readSettled p value snapshot)
  | .inspected id result =>
    let opens := engine.calls[id]?.any fun call =>
      call.sessionOpen.isNone && (call.inspected p result).sessionOpen.isSome
    { engine.update id (·.inspected p result) with
      sessions := if opens then engine.sessions ++ [id] else engine.sessions }
  | .readerClosed id failed => engine.update id (·.readerClosed failed)
  | .closeSession id => engine.closeSession id
  | .closeEngine => engine.close
  | .sessionsClosed =>
    match engine.waiting with
    | none => engine
    | some ids =>
      if ids.all engine.isDone then
        { engine with sessions := [], waiting := none, closeResolved := true }
      else engine

end PreviewEngine

/-! ## What opens own -/

namespace OpenCall

/-- Whether the source should be closed. -/
def released (call : OpenCall) : Bool :=
  match call.phase with
  | .releasing _ | .rejected _ => true
  | .resolved => call.sessionOpen = some false
  | _ => false

/-- An open that has a source and no session, before it fails. -/
structure Active (call : OpenCall) (source : OpenedSource) : Prop where
  opened : call.opened = some source
  isClosed : source.isClosed = false
  remoteRange : source.remoteRange = call.reader.isSome
  closeCalls : call.closeCalls = 0
  sessionOpen : call.sessionOpen = none

/-- An open that closes its reader when it should. -/
structure Sound (call : OpenCall) : Prop where
  opened : ∀ source, call.opened = some source → source.isClosed = call.released ∧
    source.remoteRange = call.reader.isSome ∧
      call.closeCalls = if source.remoteRange && source.isClosed then 1 else 0
  unopened : call.opened = none → call.closeCalls = 0 ∧
    (call.reader.isSome → call.phase = .acquired) ∧
      (call.phase = .opening ∨ call.phase = .acquired ∨ ∃ error, call.phase = .rejected error)
  early : call.phase = .opening ∨ call.phase = .acquired → call.opened = none
  reader : call.phase = .opening → call.reader = none
  sessionOpen : call.sessionOpen.isSome ↔ call.phase = .resolved

variable {call : OpenCall} {source : OpenedSource} {W : Type} {p : Previewer W}

/-- An open that fails closes its source. -/
theorem Active.fail (h : call.Active source) (error : Thrown) : (call.fail error).Sound := by
  obtain ⟨hopened, hclosed, hremote, hcalls, hsession⟩ := h
  unfold OpenCall.fail closeSource
  simp only [hopened, hclosed, Bool.false_eq_true, if_false]
  cases hr : source.remoteRange <;>
    constructor <;> simp [released, hr, hcalls, hsession, ← hremote]

/-- An open that goes on is sound. -/
theorem Active.proceed (h : call.Active source) {phase : Phase}
    (hphase : phase = .entering ∨ phase = .readingHead ∨ (∃ format, phase = .readingBody format) ∨
      ∃ format, phase = .inspecting format) : ({ call with phase } : OpenCall).Sound := by
  obtain ⟨hopened, hclosed, hremote, hcalls, hsession⟩ := h
  obtain rfl | rfl | ⟨format, rfl⟩ | ⟨format, rfl⟩ := hphase <;>
    constructor <;> simp [released, hopened, hclosed, hremote, hcalls, hsession]

theorem Sound.active (h : call.Sound) (hopened : call.opened = some source)
    (hreleased : call.released = false) (hsession : call.phase ≠ .resolved) :
    call.Active source := by
  obtain ⟨hclosed, hremote, hcalls⟩ := h.opened source hopened
  rw [hreleased] at hclosed
  rw [hclosed, Bool.and_false] at hcalls
  refine ⟨hopened, hclosed, hremote, hcalls, ?_⟩
  exact Option.not_isSome_iff_eq_none.1 (mt h.sessionOpen.1 hsession)

theorem Active.startRead (h : call.Active source) (length : ℕ) {phase : Phase}
    (hphase : phase = .readingHead ∨ ∃ format, phase = .readingBody format) :
    (call.startRead source length phase).Sound := by
  unfold OpenCall.startRead
  split
  · exact h.fail _
  · refine h.proceed (.inr ?_)
    exact hphase.imp_right .inl

theorem Active.inspectHead (h : call.Active source) (head : List UInt8) :
    (call.inspectHead p source head).Sound := by
  unfold OpenCall.inspectHead
  dsimp only
  split
  · exact h.fail _
  · split
    · exact h.fail _
    split
    · exact h.fail _
    split
    · split
      · exact h.fail _
      · exact h.startRead _ (.inr ⟨_, rfl⟩)
    split
    · split
      · exact h.fail _
      · exact h.startRead _ (.inr ⟨_, rfl⟩)
    · exact h.fail _

theorem start_sound (source : PreviewSource) (format : Option PreviewFormat)
    (sourceName : Option String) (aborted : Bool) :
    (OpenCall.start p source format sourceName aborted).Sound := by
  unfold OpenCall.start
  dsimp only
  split
  · constructor <;> simp
  split
  · constructor <;> simp
  · split
    · constructor <;> simp
    · constructor <;> simp [released]
  · constructor <;> simp

theorem Sound.abort (h : call.Sound) : ({ call with aborted := true } : OpenCall).Sound :=
  ⟨h.opened, h.unopened, h.early, h.reader, h.sessionOpen⟩

theorem Sound.sourceOpened (h : call.Sound) (reader : Option RangeSourceReader) :
    (call.sourceOpened reader).Sound := by
  unfold OpenCall.sourceOpened
  split
  · rename_i reader hphase
    have hopened := h.early (.inl hphase)
    have hsession : call.sessionOpen = none := by simpa [hphase] using h.sessionOpen
    constructor <;> simp [hopened, hsession, (h.unopened hopened).1]
  · rename_i hphase
    have hopened := h.early (.inl hphase)
    have hsession : call.sessionOpen = none := by simpa [hphase] using h.sessionOpen
    constructor <;> simp [hopened, hsession, (h.unopened hopened).1, h.reader hphase]
  · exact h

/-- A reader that is not refused is the source of the open. -/
theorem Sound.resume (h : call.Sound) (hvalid : call.phase = .acquired → ∀ reader ∈ call.reader,
    ∃ checked, validateReader reader p.limits = .ok checked) : (call.resume p).Sound := by
  unfold OpenCall.resume
  split
  · rename_i reader hphase hreader
    obtain ⟨⟨size, snapshot⟩, hchecked⟩ := hvalid hphase reader hreader
    rw [hchecked]
    have hopened := h.early (.inr hphase)
    have hsession : call.sessionOpen = none := by simpa [hphase] using h.sessionOpen
    constructor <;> simp [released, hsession, hreader, (h.unopened hopened).1]
  · rename_i source hphase hopened
    have hactive := h.active hopened (by rw [released, hphase]) (by rw [hphase]; simp)
    exact hactive.startRead _ (.inl rfl)
  · exact h

theorem Sound.readSettled (h : call.Sound) (value : Option JsValue) (snapshot : JsValue) :
    (call.readSettled p value snapshot).Sound := by
  unfold OpenCall.readSettled
  split
  · rename_i source hphase hopened
    have hactive := h.active hopened (by rw [released, hphase]) (by rw [hphase]; simp)
    split
    · exact hactive.fail _
    · exact hactive.inspectHead _
  · rename_i format source hphase hopened
    have hactive := h.active hopened (by rw [released, hphase]) (by rw [hphase]; simp)
    split
    · exact hactive.fail _
    · exact hactive.proceed (.inr (.inr (.inr ⟨_, rfl⟩)))
  · exact h

theorem Sound.inspected (h : call.Sound) (result : Except Thrown W) :
    (call.inspected p result).Sound := by
  unfold OpenCall.inspected
  split
  · rename_i format hphase
    cases hopened : call.opened with
    | none =>
      obtain ⟨-, -, h | h | ⟨error, h⟩⟩ := h.unopened hopened <;> rw [hphase] at h <;> cases h
    | some source =>
      have hactive := h.active hopened (by rw [released, hphase]) (by rw [hphase]; simp)
      split
      · exact hactive.fail _
      · obtain ⟨hopened, hclosed, hremote, hcalls, -⟩ := hactive
        constructor <;> simp [released, hclosed, hremote, hcalls]
  · exact h

theorem inspected_of_resolved (hphase : call.phase = .resolved) (result : Except Thrown W) :
    call.inspected p result = call := by
  unfold OpenCall.inspected
  rw [hphase]

theorem Sound.readerClosed (h : call.Sound) (failed : Bool) : (call.readerClosed failed).Sound := by
  unfold OpenCall.readerClosed
  split
  · rename_i error hpending hphase
    have hsession : call.sessionOpen = none := by simpa [hphase] using h.sessionOpen
    have hopened : call.opened ≠ none := fun hopened => by
      obtain ⟨-, -, h | h | ⟨error, h⟩⟩ := h.unopened hopened <;> rw [hphase] at h <;> cases h
    have hreleased : call.released = true := by rw [released, hphase]
    refine ⟨fun source hsource => ?_, fun h => absurd h hopened, by simp, by simp, ?_⟩
    · have hsound := h.opened source hsource
      rwa [hreleased] at hsound
    · simp [hsession]
  · exact ⟨h.opened, h.unopened, h.early, h.reader, h.sessionOpen⟩
  · exact h

theorem Sound.closeSession (h : call.Sound) : call.closeSession.Sound := by
  unfold OpenCall.closeSession
  split
  · rename_i hsession
    have hphase : call.phase = .resolved := h.sessionOpen.1 (by rw [hsession]; rfl)
    cases hopened : call.opened with
    | none =>
      obtain ⟨-, -, h | h | ⟨error, h⟩⟩ := h.unopened hopened <;> rw [hphase] at h <;> cases h
    | some source =>
      obtain ⟨hclosed, hremote, hcalls⟩ := h.opened source hopened
      have hclosed : source.isClosed = false := by simpa [released, hphase, hsession] using hclosed
      unfold closeSource
      simp only [hopened, hclosed, Bool.false_eq_true, if_false]
      rw [hclosed, Bool.and_false] at hcalls
      cases hr : source.remoteRange <;>
        constructor <;> simp [released, hphase, hr, hcalls, ← hremote]
  · exact h

/-! ### Sessions -/

@[simp] theorem closeSource_sessionOpen (call : OpenCall) :
    call.closeSource.sessionOpen = call.sessionOpen := by
  unfold closeSource
  split
  · rfl
  · split <;> rfl

@[simp] theorem fail_sessionOpen (call : OpenCall) (error : Thrown) :
    (call.fail error).sessionOpen = call.sessionOpen := closeSource_sessionOpen call

@[simp] theorem startRead_sessionOpen (call : OpenCall) (source : OpenedSource) (length : ℕ)
    (phase : Phase) : (call.startRead source length phase).sessionOpen = call.sessionOpen := by
  unfold startRead
  split
  · exact fail_sessionOpen call _
  · rfl

@[simp] theorem inspectHead_sessionOpen (call : OpenCall) (source : OpenedSource)
    (head : List UInt8) : (call.inspectHead p source head).sessionOpen = call.sessionOpen := by
  unfold inspectHead
  dsimp only
  repeat' split
  all_goals simp

theorem start_sessionOpen (source : PreviewSource) (format : Option PreviewFormat)
    (sourceName : Option String) (aborted : Bool) :
    (OpenCall.start p source format sourceName aborted).sessionOpen = none := by
  unfold OpenCall.start
  dsimp only
  repeat' split
  all_goals rfl

@[simp] theorem sourceOpened_sessionOpen (call : OpenCall) (reader : Option RangeSourceReader) :
    (call.sourceOpened reader).sessionOpen = call.sessionOpen := by
  unfold OpenCall.sourceOpened
  split <;> rfl

@[simp] theorem resume_sessionOpen (call : OpenCall) :
    (call.resume p).sessionOpen = call.sessionOpen := by
  unfold OpenCall.resume
  split
  · split <;> rfl
  · simp
  · rfl

@[simp] theorem readSettled_sessionOpen (call : OpenCall) (value : Option JsValue)
    (snapshot : JsValue) :
    (call.readSettled p value snapshot).sessionOpen = call.sessionOpen := by
  unfold OpenCall.readSettled
  split
  · split <;> simp
  · split
    · simp
    · rfl
  · rfl

@[simp] theorem readerClosed_sessionOpen (call : OpenCall) (failed : Bool) :
    (call.readerClosed failed).sessionOpen = call.sessionOpen := by
  unfold OpenCall.readerClosed
  split <;> rfl

/-- Without a session that can be made none is opened. -/
theorem inspected_of_error {result : Except Thrown W} (h : ∀ format,
    call.phase = .inspecting format → ∃ error, result.bind (makeSession p format) = .error error) :
    (call.inspected p result).sessionOpen = call.sessionOpen := by
  unfold OpenCall.inspected
  split
  · rename_i format hphase
    obtain ⟨error, herror⟩ := h format hphase
    rw [herror]
    exact fail_sessionOpen call error
  · rfl

theorem closeSession_sessionOpen (call : OpenCall) :
    call.closeSession.sessionOpen ≠ some true := by
  unfold OpenCall.closeSession
  split
  · simp
  · rename_i hsession
    exact hsession

end OpenCall

/-! ## Runs -/

namespace PreviewEngine

variable {W : Type} {p : Previewer W} {engine : PreviewEngine}

/-- What keeps an event from losing a source: the reader is not refused, and no session is
    registered if the engine is closed. -/
def Clean (p : Previewer W) (engine : PreviewEngine) : PreviewEvent W → Prop
  | .resume id => ∀ call : OpenCall, engine.calls[id]? = some call → call.phase = .acquired →
      ∀ reader ∈ call.reader, ∃ checked, validateReader reader p.limits = .ok checked
  | .inspected id result => engine.isClosed = true →
      ∀ call : OpenCall, engine.calls[id]? = some call → ∀ format, call.phase = .inspecting format →
        ∃ error, result.bind (OpenCall.makeSession p format) = .error error
  | _ => True

/-- Sessions that are open are registered, and the engine is open. -/
structure Sound (engine : PreviewEngine) : Prop where
  calls : ∀ (id : ℕ) (call : OpenCall), engine.calls[id]? = some call → call.Sound
  sessions : ∀ (id : ℕ) (call : OpenCall), engine.calls[id]? = some call →
    call.sessionOpen = some true → id ∈ engine.sessions ∧ engine.isClosed = false
  waiting : engine.waiting.isSome → engine.isClosed = true

theorem getElem?_update (id : ℕ) (f : OpenCall → OpenCall) (i : ℕ) :
    (engine.update id f).calls[i]? =
      if id = i then engine.calls[i]?.map f else engine.calls[i]? := by
  rw [update, List.getElem?_modify]
  split <;> simp_all

/-- A call may change if it opens no session. -/
theorem Sound.update (h : engine.Sound) {id : ℕ} {f : OpenCall → OpenCall}
    (hsound : ∀ call : OpenCall, engine.calls[id]? = some call → call.Sound → (f call).Sound)
    (hsession : ∀ call, (f call).sessionOpen = call.sessionOpen) : (engine.update id f).Sound := by
  refine ⟨fun i call hcall => ?_, fun i call hcall hopen => ?_, h.waiting⟩
  · rw [getElem?_update] at hcall
    split at hcall
    · rename_i heq
      subst heq
      obtain ⟨old, hold, rfl⟩ := Option.map_eq_some_iff.1 hcall
      exact hsound old hold (h.calls id old hold)
    · exact h.calls i call hcall
  · rw [getElem?_update] at hcall
    split at hcall
    · obtain ⟨old, hold, rfl⟩ := Option.map_eq_some_iff.1 hcall
      exact h.sessions i old hold (by rw [← hsession, hopen])
    · exact h.sessions i call hcall hopen

/-- Closing a session changes no other one. -/
theorem closeSession_calls (engine : PreviewEngine) (id : ℕ) : ∀ (i : ℕ) (call : OpenCall),
    (engine.closeSession id).calls[i]? = some call →
    ∃ old, engine.calls[i]? = some old ∧ (old.Sound → call.Sound) ∧
      (i = id → call.sessionOpen ≠ some true) ∧
      (call.sessionOpen = some true → old.sessionOpen = some true) := by
  intro i call hcall
  rw [closeSession, show ∀ sessions : List ℕ, ({ engine.update id OpenCall.closeSession with
    sessions } : PreviewEngine).calls = (engine.update id OpenCall.closeSession).calls from
      fun _ => rfl, getElem?_update] at hcall
  split at hcall
  · obtain ⟨old, hold, rfl⟩ := Option.map_eq_some_iff.1 hcall
    exact ⟨old, hold, OpenCall.Sound.closeSession, fun _ => old.closeSession_sessionOpen,
      fun h => absurd h old.closeSession_sessionOpen⟩
  · rename_i hne
    exact ⟨call, hcall, fun h => h, fun heq => absurd heq.symm hne, fun h => h⟩

/-- Closing the sessions of an engine leaves none open. -/
theorem closeSessions_sound (engine : PreviewEngine) (ids : List ℕ)
    (hcalls : ∀ (id : ℕ) (call : OpenCall), engine.calls[id]? = some call → call.Sound)
    (hopen : ∀ (id : ℕ) (call : OpenCall), engine.calls[id]? = some call →
      call.sessionOpen = some true → id ∈ ids) :
    (∀ (id : ℕ) (call : OpenCall), (ids.foldl closeSession engine).calls[id]? = some call →
      call.Sound ∧ call.sessionOpen ≠ some true) ∧
      (ids.foldl closeSession engine).isClosed = engine.isClosed := by
  induction ids generalizing engine with
  | nil => exact ⟨fun id call hcall => ⟨hcalls id call hcall, fun hsession =>
      absurd (hopen id call hcall hsession) List.not_mem_nil⟩, rfl⟩
  | cons first ids ih =>
    have hclosed := closeSession_calls engine first
    refine (ih _ (fun id call hcall => ?_) fun id call hcall hsession => ?_).imp_right fun h => h
    · exact (hclosed id call hcall).elim fun old hold => hold.2.1 (hcalls id old hold.1)
    · obtain ⟨old, hold, -, hne, hsame⟩ := hclosed id call hcall
      have hmem := hopen id old hold (hsame hsession)
      exact (List.mem_cons.1 hmem).resolve_left fun heq => hne heq hsession

theorem Sound.close (h : engine.Sound) : engine.close.Sound := by
  unfold PreviewEngine.close
  split
  · exact h
  · obtain ⟨hcalls, hclosed⟩ := closeSessions_sound { engine with isClosed := true }
      engine.sessions h.calls fun id call hcall hsession => (h.sessions id call hcall hsession).1
    exact ⟨fun id call hcall => (hcalls id call hcall).1,
      fun id call hcall hsession => absurd hsession (hcalls id call hcall).2, fun _ => hclosed⟩

/-- An event that is clean keeps sessions and sources sound. -/
theorem Sound.step (h : engine.Sound) {event : PreviewEvent W} (hclean : Clean p engine event) :
    (engine.step p event).Sound := by
  cases event with
  | «open» source format sourceName aborted =>
    generalize hnew : (if engine.isClosed then
        ({ source, format, sourceName, aborted, phase := .rejected closed } : OpenCall)
      else OpenCall.start p source format sourceName aborted) = new
    have hsound : new.Sound ∧ new.sessionOpen = none := by
      rw [← hnew]
      split
      · exact ⟨by constructor <;> simp, rfl⟩
      · exact ⟨OpenCall.start_sound _ _ _ _, OpenCall.start_sessionOpen _ _ _ _⟩
    have hstep : engine.step p (.open source format sourceName aborted) =
        { engine with calls := engine.calls ++ [new] } := by rw [← hnew]; rfl
    have hcases : ∀ (i : ℕ) (call : OpenCall), (engine.calls ++ [new])[i]? = some call →
        engine.calls[i]? = some call ∨ call = new := fun i call hcall => by
      rw [List.getElem?_append] at hcall
      split at hcall
      · exact .inl hcall
      · exact .inr (List.mem_singleton.1 (List.mem_of_getElem? hcall))
    rw [hstep]
    refine ⟨fun i call hcall => ?_, fun i call hcall hsession => ?_, h.waiting⟩
    · obtain hold | rfl := hcases i call hcall
      · exact h.calls i call hold
      · exact hsound.1
    · obtain hold | rfl := hcases i call hcall
      · exact h.sessions i call hold hsession
      · rw [hsound.2] at hsession
        exact nomatch hsession
  | abort id => exact h.update (fun _ _ hcall => hcall.abort) fun _ => rfl
  | sourceOpened id reader =>
    exact h.update (fun _ _ hcall => hcall.sourceOpened reader) fun call =>
      call.sourceOpened_sessionOpen reader
  | resume id =>
    exact h.update (fun call hid hcall => hcall.resume (hclean call hid)) fun call =>
      call.resume_sessionOpen
  | readSettled id value snapshot =>
    exact h.update (fun _ _ hcall => hcall.readSettled value snapshot) fun call =>
      call.readSettled_sessionOpen value snapshot
  | inspected id result =>
    unfold PreviewEngine.step
    refine ⟨fun i call hcall => ?_, fun i call hcall hsession => ?_, h.waiting⟩
    · change (engine.update id (·.inspected p result)).calls[i]? = some call at hcall
      rw [getElem?_update] at hcall
      split at hcall
      · obtain ⟨old, hold, rfl⟩ := Option.map_eq_some_iff.1 hcall
        exact (h.calls i old hold).inspected result
      · exact h.calls i call hcall
    · change (engine.update id (·.inspected p result)).calls[i]? = some call at hcall
      rw [getElem?_update] at hcall
      split at hcall
      · rename_i heq
        subst heq
        obtain ⟨old, hold, rfl⟩ := Option.map_eq_some_iff.1 hcall
        -- A session is new only while the engine is open; one from before stays.
        cases hbefore : old.sessionOpen with
        | none =>
          refine ⟨?_, Bool.eq_false_iff.2 fun hclosed => ?_⟩
          · simp [hold, hbefore, hsession]
          · rw [OpenCall.inspected_of_error (hclean hclosed old hold), hbefore] at hsession
            exact nomatch hsession
        | some isOpen =>
          have hphase : old.phase = .resolved :=
            (h.calls id old hold).sessionOpen.1 (by rw [hbefore]; rfl)
          rw [OpenCall.inspected_of_resolved hphase] at hsession
          obtain ⟨hmem, hopen⟩ := h.sessions id old hold hsession
          exact ⟨by simpa [hold, hbefore] using hmem, hopen⟩
      · obtain ⟨hmem, hopen⟩ := h.sessions i call hcall hsession
        refine ⟨?_, hopen⟩
        dsimp only
        split
        · exact List.mem_append_left _ hmem
        · exact hmem
  | readerClosed id failed =>
    exact h.update (fun _ _ hcall => hcall.readerClosed failed) fun call =>
      call.readerClosed_sessionOpen failed
  | closeSession id =>
    refine ⟨fun i call hcall => ?_, fun i call hcall hsession => ?_, h.waiting⟩
    · obtain ⟨old, hold, hsound, -⟩ := closeSession_calls engine id i call hcall
      exact hsound (h.calls i old hold)
    · obtain ⟨old, hold, -, hne, hsame⟩ := closeSession_calls engine id i call hcall
      obtain ⟨hmem, hopen⟩ := h.sessions i old hold (hsame hsession)
      exact ⟨(List.mem_erase_of_ne fun heq => hne heq hsession).2 hmem, hopen⟩
  | closeEngine => exact h.close
  | sessionsClosed =>
    unfold PreviewEngine.step
    dsimp only
    split
    · exact h
    · rename_i ids hwaiting
      split
      · have hclosed := h.waiting (by rw [hwaiting]; rfl)
        refine ⟨h.calls, fun id call hcall hsession => ?_, nofun⟩
        have hopen := (h.sessions id call hcall hsession).2
        exact absurd (hclosed.symm.trans hopen) (by simp)
      · exact h

/-- Events that are all clean keep sessions and sources sound. -/
theorem sound_of_clean {events : List (PreviewEvent W)}
    (h : Run.Along (step p) (Clean p) {} events) : (Run.run (step p) {} events).Sound := by
  refine (h.invariant (I := Sound) (fun _ _ hsound hclean => hsound.step hclean) ?_).2
  exact ⟨fun _ _ hcall => by simp at hcall, fun _ _ hcall => by simp at hcall, nofun⟩

end PreviewEngine

/-! ## Releases -/

/-- A reader is closed no more than once, and if the open is settled it is closed, unless it belongs
    to a session that is open. -/
structure OpenCall.Released (call : OpenCall) : Prop where
  once : call.closeCalls ≤ 1
  closed : call.isSettled = true → call.reader.isSome →
    call.closeCalls = 1 ∨ call.closeCalls = 0 ∧ call.sessionOpen = some true

/-- Sources are released; if the engine was closed and all opens are settled no session is open, and
    every reader is closed. -/
structure PreviewEngine.Releases (engine : PreviewEngine) : Prop where
  released : ∀ call ∈ engine.calls, call.Released
  closed : engine.isClosed = true → (∀ call ∈ engine.calls, call.isSettled = true) →
    ∀ call ∈ engine.calls, call.sessionOpen ≠ some true ∧
      (call.reader.isSome → call.closeCalls = 1)

theorem OpenCall.Sound.released {call : OpenCall} (h : call.Sound) : call.Released := by
  constructor
  · cases hopened : call.opened with
    | none => rw [(h.unopened hopened).1]; exact Nat.zero_le 1
    | some source =>
      rw [(h.opened source hopened).2.2]
      split
      · exact le_rfl
      · exact Nat.zero_le 1
  · intro hsettled hreader
    have hphase : (∃ error, call.phase = .rejected error) ∨ call.phase = .resolved := by
      unfold isSettled at hsettled
      split at hsettled
      · rename_i error hphase
        exact .inl ⟨error, hphase⟩
      · rename_i hphase
        exact .inr hphase
      · exact absurd hsettled Bool.false_ne_true
    cases hopened : call.opened with
    | none =>
      have hacquired := (h.unopened hopened).2.1 hreader
      rw [hacquired] at hphase
      obtain ⟨_, h⟩ | h := hphase <;> exact nomatch h
    | some source =>
      obtain ⟨hclosed, hremote, hcalls⟩ := h.opened source hopened
      rw [hremote, hreader, hclosed, Bool.true_and] at hcalls
      obtain ⟨error, hphase⟩ | hphase := hphase
      · exact .inl (by rw [hcalls, OpenCall.released, hphase]; rfl)
      · have hsome := h.sessionOpen.2 hphase
        cases hsession : call.sessionOpen with
        | none => exact absurd hsession (Option.isSome_iff_ne_none.1 hsome)
        | some isOpen =>
          rw [OpenCall.released, hphase, hsession] at hcalls
          cases isOpen
          · exact .inl hcalls
          · exact .inr ⟨hcalls, rfl⟩

/-- In a run in which no reader is refused, and no session is registered after the engine is closed,
    sources are released. -/
theorem released_of_clean {W : Type} {p : Previewer W} {events : List (PreviewEvent W)}
    (h : Run.Along (PreviewEngine.step p) (PreviewEngine.Clean p) {} events) :
    (Run.run (PreviewEngine.step p) {} events).Releases := by
  have hsound := PreviewEngine.sound_of_clean h
  generalize Run.run (PreviewEngine.step p) {} events = engine at *
  have hcall : ∀ call ∈ engine.calls, call.Sound := fun call hmem => by
    obtain ⟨id, hid⟩ := List.mem_iff_getElem?.1 hmem
    exact hsound.calls id call hid
  have hopen : engine.isClosed = true → ∀ call ∈ engine.calls, call.sessionOpen ≠ some true :=
    fun hclosed call hmem hsession => by
      obtain ⟨id, hid⟩ := List.mem_iff_getElem?.1 hmem
      have hengine := (hsound.sessions id call hid hsession).2
      exact absurd (hclosed.symm.trans hengine) (by simp)
  refine ⟨fun call hmem => (hcall call hmem).released, fun hclosed hsettled call hmem =>
    ⟨hopen hclosed call hmem, fun hreader => ?_⟩⟩
  have hreleased := (hcall call hmem).released.closed (hsettled call hmem) hreader
  exact hreleased.resolve_right fun h => hopen hclosed call hmem h.2

/-! ### Runs of one open -/

/-- An engine for texts, whose Worker returns how many lines there are. -/
def textPreviewer : Previewer ℕ where
  limits := ⟨1000, 100, 100, 10, 2⟩
  providers := [[.text]]
  detectFormat := fun _ _ => some .text
  formatName := fun _ => "text"
  countLines := fun lines => lines
  construct := fun _ _ => .ok ()

def textReader (id : String) : RangeSourceReader where
  isObject := true
  size := .number 2
  snapshot := .record [("id", .text id), ("strength", .text "strong")]
  hasRead := true
  hasClose := true
  maxConcurrency := .undefined

/-- An open of a source of two bytes, up to its session. -/
def openText : List (PreviewEvent ℕ) :=
  [.open (.range none) none none false, .sourceOpened 0 (some (textReader "v1")), .resume 0,
    .resume 0, .readSettled 0 (some (.buffer [0x61, 0x62])) (textReader "v1").snapshot,
    .readSettled 0 (some (.buffer [0x61, 0x62])) (textReader "v1").snapshot]

theorem validateReader_text : validateReader (textReader "v1") textPreviewer.limits =
    .ok (2, ⟨"v1", "strong"⟩) := rfl

theorem released_of_clean_text : (Run.run (PreviewEngine.step textPreviewer) {}
    (openText ++ [.inspected 0 (.ok 1), .closeEngine])).Releases := by
  refine released_of_clean ⟨trivial, trivial, ?_, ?_, trivial, trivial, ?_, trivial, trivial⟩
  · rintro call hcall - reader hreader
    obtain rfl := Option.some.inj hcall
    obtain rfl := Option.some.inj hreader
    exact ⟨_, validateReader_text⟩
  · intro call hcall hphase
    obtain rfl := Option.some.inj hcall
    exact nomatch hphase
  · exact fun h => absurd h (by decide)

/-- A reader that is refused. -/
def refusedReader : List (PreviewEvent ℕ) :=
  [.open (.range none) none none false, .sourceOpened 0 (some (textReader "")), .resume 0]

/-- A session that is registered after the engine was closed. -/
def lateSession : List (PreviewEvent ℕ) :=
  openText ++ [.closeEngine, .sessionsClosed, .inspected 0 (.ok 1)]

/-- A reader that is refused is not closed, nor is a session that is registered too late. -/
theorem not_released : (¬(Run.run (PreviewEngine.step textPreviewer) {} refusedReader).Releases) ∧
    ¬(Run.run (PreviewEngine.step textPreviewer) {} lateSession).Releases := by
  constructor
  · intro h
    have hleak : ∃ call ∈ (Run.run (PreviewEngine.step textPreviewer) {} refusedReader).calls,
        call.isSettled = true ∧ call.reader.isSome ∧ call.closeCalls = 0 ∧
          call.sessionOpen = none := by decide
    obtain ⟨call, hcall, hsettled, hreader, hcalls, hsession⟩ := hleak
    have hclosed := (h.released call hcall).closed hsettled hreader
    rw [hcalls, hsession] at hclosed
    exact absurd hclosed (by simp)
  · intro h
    have hleft : (Run.run (PreviewEngine.step textPreviewer) {} lateSession).isClosed = true ∧
        (∀ call ∈ (Run.run (PreviewEngine.step textPreviewer) {} lateSession).calls,
          call.isSettled = true) ∧
        ∃ call ∈ (Run.run (PreviewEngine.step textPreviewer) {} lateSession).calls,
          call.sessionOpen = some true := by decide
    obtain ⟨hclosed, hsettled, call, hcall, hsession⟩ := hleft
    exact (h.closed hclosed hsettled call hcall).1 hsession

end Tabulark.Preview
