import Tabulark.Lib.Run
import Tabulark.Source.Broker
import Tabulark.Source.KeptRanges

/-!
# Reads that share requests

Reads of one accessor at the same time. A read that finds a range in flight that has some of its
bytes waits for it, and takes over its bytes; else it puts its own range in flight and fetches what
is missing of it. A range in flight is cancelled when nobody waits for it any more. The requests of
all ranges share the permits of the accessor.

What happens is an event, and events come in any order (`SharedSource.step`).
-/

namespace Tabulark.Source

/-! ## Faults -/

/-- Why a read fails. -/
inductive ReadFault
  | outside
  | closed
  | cancelled
  | unavailable
  | provider (fault : ProtocolFault)
  deriving DecidableEq, Repr

/-! ## State -/

/-- A range in flight. `holes` are those that are not taken on yet, and `outcome` is what its
    promise was settled with. -/
structure PendingRange extends ReadInterval where
  inherited : List RangeCoverage
  holes : List ReadInterval
  fetched : List RangeCoverage := []
  failure : Option ReadFault := none
  outcome : Option (Except ReadFault (List UInt8)) := none
  cancelled : Bool := false
  waiters : ℕ := 1
  settled : Bool := false

/-- A task waits for a permit, has asked the provider, or has ended. -/
inductive TaskState
  | queued
  | requested
  | ended
  deriving DecidableEq, Repr

/-- The task to fetch a hole of a range in flight. -/
structure FetchTask where
  pending : ℕ
  hole : ReadInterval
  state : TaskState

/-- Where a read is: before it looks at what is kept, waiting for other ranges in flight, waiting
    for its own, or at its end. -/
inductive ReaderState
  | checking
  | sharing (overlap : List ℕ)
  | fetching (pending : ℕ)
  | done (result : Except ReadFault (List UInt8))

/-- A read. `bytes` are those of the parts that are read. -/
structure Reader where
  offset : ℕ
  stop : ℕ
  bytes : List UInt8 := []
  inherited : List RangeCoverage := []
  cancelled : Bool := false
  state : ReaderState := .checking

/-- An accessor with all that is under way. Ranges, tasks and reads have their numbers. -/
structure SharedSource where
  accessor : RangeSourceAccessor
  closed : Bool := false
  pendings : List PendingRange := []
  inflight : List ℕ := []
  tasks : List FetchTask := []
  providerQueue : List ℕ := []
  providerReads : ℕ := 0
  readers : List Reader := []

inductive SourceEvent
  | read (offset length : ℕ)
  | check (reader : ℕ)
  | take (pending : ℕ)
  | answer (task : ℕ) (failure : Option ProtocolFault)
  | stop (task : ℕ) (byClose : Bool)
  | finish (pending : ℕ)
  | settle (pending : ℕ)
  | share (reader : ℕ)
  | reject (reader pending : ℕ)
  | resume (reader : ℕ)
  | cancel (reader : ℕ)
  | close

/-! ## Readers -/

namespace Reader

/-- Where the part begins that is read. -/
def cursor (r : Reader) : ℕ := r.offset + r.bytes.length

/-- Where the part ends that is read. -/
def partStop (maxReadBytes : ℕ) (r : Reader) : ℕ := min r.stop (r.cursor + maxReadBytes)

/-- The part is read, and the next one begins if there is one. -/
def deliver (r : Reader) (bytes : List UInt8) : Reader :=
  { r with
    bytes := r.bytes ++ bytes
    inherited := []
    state :=
      if r.stop ≤ r.cursor + bytes.length then .done (.ok (r.bytes ++ bytes)) else .checking }

def fail (r : Reader) (fault : ReadFault) : Reader := { r with state := .done (.error fault) }

/-- The ranges in flight that a read waits for. -/
def awaits (r : Reader) : List ℕ :=
  match r.state with
  | .sharing overlap => overlap
  | .fetching pending => [pending]
  | _ => []

end Reader

namespace SharedSource

/-! ## Parts of a step -/

def setReader (w : SharedSource) (reader : ℕ) (r : Reader) : SharedSource :=
  { w with readers := w.readers.set reader r }

def modifyPending (w : SharedSource) (pending : ℕ) (f : PendingRange → PendingRange) :
    SharedSource :=
  { w with pendings := w.pendings.modify pending f }

def modifyTask (w : SharedSource) (task : ℕ) (f : FetchTask → FetchTask) : SharedSource :=
  { w with tasks := w.tasks.modify task f }

def addTask (w : SharedSource) (t : FetchTask) : SharedSource := { w with tasks := w.tasks ++ [t] }

/-- Whether a range is in flight, has somebody waiting for it, and has bytes of a part. -/
def overlaps (w : SharedSource) (offset stop pending : ℕ) : Bool :=
  match w.pendings[pending]? with
  | some p => decide (0 < p.waiters) && p.meets offset stop
  | none => false

/-- The ranges in flight that have bytes of a part. -/
def overlap (w : SharedSource) (offset stop : ℕ) : List ℕ :=
  w.inflight.filter (w.overlaps offset stop)

def addWaiter (w : SharedSource) (pending : ℕ) : SharedSource :=
  w.modifyPending pending fun p => { p with waiters := p.waiters + 1 }

def removePending (w : SharedSource) (pending : ℕ) : SharedSource :=
  { w with inflight := w.inflight.erase pending }

/-- Somebody waits no more for a range in flight. -/
def releasePendingWaiter (w : SharedSource) (pending : ℕ) : SharedSource :=
  match w.pendings[pending]? with
  | none => w
  | some p =>
    let w := w.modifyPending pending fun p => { p with waiters := p.waiters - 1 }
    if p.waiters - 1 = 0 ∧ !p.settled then
      w.modifyPending pending fun p => { p with cancelled := true }
    else if p.waiters - 1 = 0 then w.removePending pending
    else w

def releaseAll (w : SharedSource) (pendings : List ℕ) : SharedSource :=
  pendings.foldl releasePendingWaiter w

/-- A task fails, and with it its range, if it is the first. -/
def failTask (w : SharedSource) (task : ℕ) (fault : ReadFault) : SharedSource :=
  match w.tasks[task]? with
  | none => w
  | some t =>
    (w.modifyTask task fun t => { t with state := .ended }).modifyPending t.pending fun p =>
      { p with failure := p.failure <|> some fault }

/-- The tasks that wait for a permit fail. -/
def rejectQueue (w : SharedSource) : SharedSource :=
  w.providerQueue.foldl (fun w task => w.failTask task .closed) { w with providerQueue := [] }

/-- A permit is given back, and given to the next task that waits for one. -/
def releaseProviderPermit (w : SharedSource) : SharedSource :=
  let w := { w with providerReads := w.providerReads - 1 }
  if w.closed then w.rejectQueue
  else
    match w.providerQueue with
    | [] => w
    | task :: queue =>
      ({ w with providerQueue := queue, providerReads := w.providerReads + 1 }).modifyTask task
        fun t => { t with state := .requested }

/-- Whether a task of a range in flight has not ended. -/
def isActive (pending : ℕ) (t : FetchTask) : Bool :=
  t.pending == pending && t.state != .ended

/-! ## Steps -/

/-- A new read. -/
def startRead (w : SharedSource) (offset length : ℕ) : SharedSource :=
  let reader : Reader := { offset, stop := offset + length }
  let reader :=
    if w.accessor.size < offset ∨ w.accessor.size - offset < length then reader.fail .outside
    else if w.closed then reader.fail .closed
    else if length = 0 then reader.deliver []
    else reader
  { w with readers := w.readers ++ [reader] }

/-- A read puts its part in flight. -/
def beginPending (w : SharedSource) (reader : ℕ) (r : Reader) (stop : ℕ) : SharedSource :=
  let pending : PendingRange :=
    { offset := r.cursor
      stop
      inherited := r.inherited
      holes := missing (w.accessor.cache.map (·.toReadInterval) ++
        r.inherited.map (·.toReadInterval)) r.cursor stop }
  ({ w with
    pendings := w.pendings ++ [pending]
    inflight := w.inflight ++ [w.pendings.length] }).setReader reader
      { r with state := .fetching w.pendings.length }

/-- A read looks at what is kept, and at what is in flight. -/
def checkReader (w : SharedSource) (reader : ℕ) (r : Reader) : SharedSource :=
  if w.closed then w.setReader reader (r.fail .closed)
  else
    let stop := r.partStop w.accessor.maxReadBytes
    match w.accessor.assemble r.cursor stop r.inherited with
    | (some bytes, accessor) => ({ w with accessor }).setReader reader (r.deliver bytes)
    | (none, accessor) =>
      let w := { w with accessor }
      match w.overlap r.cursor stop with
      | [] => w.beginPending reader r stop
      | overlap => (overlap.foldl addWaiter w).setReader reader { r with state := .sharing overlap }

/-- A worker of a range in flight takes on its next hole. -/
def takeHole (w : SharedSource) (pending : ℕ) (p : PendingRange) : SharedSource :=
  match p.holes with
  | [] => w
  | hole :: holes =>
    if p.failure.isSome ∨ w.accessor.maxConcurrency ≤ w.tasks.countP (isActive pending) then w
    else
      let w := w.modifyPending pending fun p => { p with holes }
      let task := w.tasks.length
      if w.closed then
        (w.addTask { pending, hole, state := .queued }).failTask task .closed
      else if w.providerReads < w.accessor.maxConcurrency then
        { w.addTask { pending, hole, state := .requested } with
          providerReads := w.providerReads + 1 }
      else
        { w.addTask { pending, hole, state := .queued } with
          providerQueue := w.providerQueue ++ [task] }

/-- The provider answers a task. -/
def answerTask (source : List UInt8) (w : SharedSource) (task : ℕ) (t : FetchTask)
    (failure : Option ProtocolFault) : SharedSource :=
  let w := w.releaseProviderPermit
  match failure with
  | some fault => w.failTask task (.provider fault)
  | none =>
    if w.closed then w.failTask task .closed
    else
      let segment := t.hole.of source
      let accessor := w.accessor.insert t.hole.offset segment.bytes
      (({ w with accessor }).modifyTask task fun t =>
        { t with state := .ended }).modifyPending t.pending fun p =>
          { p with fetched := p.fetched ++ [segment] }

/-- A cancellation, or the end of the accessor, reaches a task. -/
def stopTask (w : SharedSource) (task : ℕ) (t : FetchTask) (byClose : Bool) : SharedSource :=
  if byClose then
    if w.closed ∧ t.state = .requested then w.releaseProviderPermit.failTask task .closed else w
  else
    match w.pendings[t.pending]?, t.state with
    | some p, .requested =>
      if p.cancelled then w.releaseProviderPermit.failTask task .cancelled else w
    | some p, .queued =>
      if p.cancelled then
        ({ w with providerQueue := w.providerQueue.erase task }).failTask task .cancelled
      else w
    | _, _ => w

/-- All tasks of a range in flight have ended, and its promise is settled. -/
def finishPending (w : SharedSource) (pending : ℕ) (p : PendingRange) : SharedSource :=
  if p.outcome.isSome ∨ w.tasks.any (isActive pending) ∨ (p.failure = none ∧ p.holes ≠ []) then w
  else
    match p.failure with
    | some fault => w.modifyPending pending fun p => { p with outcome := some (.error fault) }
    | none =>
      match if p.inherited = [] then RangeSourceAccessor.exactFetched p.offset p.stop p.fetched
        else none with
      | some bytes => w.modifyPending pending fun p => { p with outcome := some (.ok bytes) }
      | none =>
        match w.accessor.assemble p.offset p.stop (p.inherited ++ p.fetched) with
        | (some bytes, accessor) => ({ w with accessor }).modifyPending pending fun p =>
            { p with outcome := some (.ok bytes) }
        | (none, accessor) => ({ w with accessor }).modifyPending pending fun p =>
            { p with outcome := some (.error .unavailable) }

/-- The accessor learns that the promise of a range is settled. -/
def settlePending (w : SharedSource) (pending : ℕ) (p : PendingRange) : SharedSource :=
  if p.outcome = none then w
  else
    let w := w.modifyPending pending fun p => { p with settled := true }
    if p.waiters = 0 then w.removePending pending else w

/-- What a settled range gives to the reads that wait for it. -/
def coverage (w : SharedSource) (pending : ℕ) : Option RangeCoverage :=
  match w.pendings[pending]? with
  | some p =>
    match p.outcome with
    | some (.ok bytes) => some { p.toReadInterval with bytes }
    | _ => none
  | none => none

/-- A read takes over the bytes of the ranges that it waited for. -/
def shareCoverage (w : SharedSource) (reader : ℕ) (r : Reader) : SharedSource :=
  match r.state with
  | .sharing overlap =>
    if overlap.all fun pending => (w.coverage pending).isSome then
      let segments := overlap.filterMap w.coverage
      let w := w.releaseAll overlap
      let r := { r with inherited := r.inherited ++ segments, state := .checking }
      let stop := r.partStop w.accessor.maxReadBytes
      match w.accessor.assemble r.cursor stop r.inherited with
      | (some bytes, accessor) => ({ w with accessor }).setReader reader (r.deliver bytes)
      | (none, accessor) => ({ w with accessor }).setReader reader r
    else w
  | _ => w

/-- A read fails with a range that it waits for. -/
def rejectReader (w : SharedSource) (reader : ℕ) (r : Reader) (pending : ℕ) : SharedSource :=
  match r.state, w.pendings[pending]? with
  | .sharing overlap, some p =>
    match p.outcome with
    | some (.error fault) =>
      if pending ∈ overlap then (w.releaseAll overlap).setReader reader (r.fail fault) else w
    | _ => w
  | _, _ => w

/-- A read goes on with the bytes of its own range. -/
def resumeReader (w : SharedSource) (reader : ℕ) (r : Reader) : SharedSource :=
  match r.state with
  | .fetching pending =>
    match w.pendings[pending]? with
    | some p =>
      match p.outcome with
      | some (.ok bytes) => (w.releasePendingWaiter pending).setReader reader (r.deliver bytes)
      | some (.error fault) => (w.releasePendingWaiter pending).setReader reader (r.fail fault)
      | none => w
    | none => w
  | _ => w

/-- The caller of a read cancels it. -/
def cancelReader (w : SharedSource) (reader : ℕ) (r : Reader) : SharedSource :=
  match r.state with
  | .sharing overlap =>
    (w.releaseAll overlap).setReader reader { r.fail .cancelled with cancelled := true }
  | .fetching pending =>
    (w.releasePendingWaiter pending).setReader reader { r.fail .cancelled with cancelled := true }
  | _ => w

def cancelPendings (w : SharedSource) (pendings : List ℕ) : SharedSource :=
  pendings.foldl (fun w pending => w.modifyPending pending fun p =>
    { p with waiters := 0, cancelled := true }) w

/-- The accessor ends. -/
def close (w : SharedSource) : SharedSource :=
  if w.closed then w
  else
    let w := cancelPendings { w with
      closed := true
      accessor := { w.accessor with cache := [], cacheBytes := 0 } } w.inflight
    ({ w with inflight := [] }).rejectQueue

/-- What an event does. -/
def step (source : List UInt8) (w : SharedSource) : SourceEvent → SharedSource
  | .read offset length => w.startRead offset length
  | .check reader =>
    match w.readers[reader]? with
    | some r => match r.state with
      | .checking => w.checkReader reader r
      | _ => w
    | none => w
  | .take pending => (w.pendings[pending]?).elim w (w.takeHole pending)
  | .answer task failure => (w.tasks[task]?).elim w fun t =>
      if t.state = .requested then answerTask source w task t failure else w
  | .stop task byClose => (w.tasks[task]?).elim w fun t => w.stopTask task t byClose
  | .finish pending => (w.pendings[pending]?).elim w (w.finishPending pending)
  | .settle pending => (w.pendings[pending]?).elim w (w.settlePending pending)
  | .share reader => (w.readers[reader]?).elim w (w.shareCoverage reader)
  | .reject reader pending => (w.readers[reader]?).elim w fun r => w.rejectReader reader r pending
  | .resume reader => (w.readers[reader]?).elim w (w.resumeReader reader)
  | .cancel reader => (w.readers[reader]?).elim w (w.cancelReader reader)
  | .close => w.close

/-- What has come of some events. -/
def after (source : List UInt8) (w : SharedSource) (events : List SourceEvent) : SharedSource :=
  Run.run (step source) w events

/-! ## What parts of a step leave alone -/

variable (w : SharedSource)

theorem addWaiters_eq (overlap : List ℕ) : overlap.foldl addWaiter w =
    { w with pendings := (overlap.foldl addWaiter w).pendings } := by
  induction overlap generalizing w with
  | nil => rfl
  | cons pending overlap ih => exact ih (w.addWaiter pending)

theorem releasePendingWaiter_eq (pending : ℕ) : w.releasePendingWaiter pending =
    { w with
      pendings := (w.releasePendingWaiter pending).pendings
      inflight := (w.releasePendingWaiter pending).inflight } := by
  rw [releasePendingWaiter]
  split
  · rfl
  · dsimp only
    split_ifs
    · rfl
    · rfl
    · rfl

theorem releaseAll_eq (pendings : List ℕ) : w.releaseAll pendings =
    { w with
      pendings := (w.releaseAll pendings).pendings
      inflight := (w.releaseAll pendings).inflight } := by
  induction pendings generalizing w with
  | nil => rfl
  | cons pending pendings ih =>
    refine (ih (w.releasePendingWaiter pending)).trans ?_
    change _ = { w with
      pendings := ((w.releasePendingWaiter pending).releaseAll pendings).pendings
      inflight := ((w.releasePendingWaiter pending).releaseAll pendings).inflight }
    rw [releasePendingWaiter_eq w pending]

theorem failTask_eq (task : ℕ) (fault : ReadFault) : w.failTask task fault =
    { w with
      tasks := (w.failTask task fault).tasks
      pendings := (w.failTask task fault).pendings } := by
  rw [failTask]
  split
  · rfl
  · rfl

theorem rejectQueue_eq : w.rejectQueue =
    { w with
      tasks := w.rejectQueue.tasks
      pendings := w.rejectQueue.pendings
      providerQueue := [] } := by
  have hfold (queue : List ℕ) (w : SharedSource) :
      queue.foldl (fun w task => w.failTask task .closed) w = { w with
        tasks := (queue.foldl (fun w task => w.failTask task .closed) w).tasks
        pendings := (queue.foldl (fun w task => w.failTask task .closed) w).pendings } := by
    induction queue generalizing w with
    | nil => rfl
    | cons task queue ih =>
      refine (ih (w.failTask task .closed)).trans ?_
      rw [List.foldl_cons, failTask_eq w task]
  exact hfold w.providerQueue { w with providerQueue := [] }

theorem cancelPendings_eq (pendings : List ℕ) : w.cancelPendings pendings =
    { w with pendings := (w.cancelPendings pendings).pendings } := by
  induction pendings generalizing w with
  | nil => rfl
  | cons pending pendings ih => exact ih _

/-- While the accessor is open, a permit that is given back is nothing to ranges in flight. -/
theorem releaseProviderPermit_eq (hopen : w.closed = false) : w.releaseProviderPermit =
    { w with
      tasks := w.releaseProviderPermit.tasks
      providerQueue := w.releaseProviderPermit.providerQueue
      providerReads := w.releaseProviderPermit.providerReads } := by
  rw [releaseProviderPermit]
  dsimp only
  rw [hopen, if_neg Bool.false_ne_true]
  split
  · rfl
  · rfl

theorem addWaiters_readers (overlap : List ℕ) :
    (overlap.foldl addWaiter w).readers = w.readers := by rw [addWaiters_eq]

theorem releasePendingWaiter_readers (pending : ℕ) :
    (w.releasePendingWaiter pending).readers = w.readers := by rw [releasePendingWaiter_eq]

theorem releaseAll_readers (pendings : List ℕ) : (w.releaseAll pendings).readers = w.readers := by
  rw [releaseAll_eq]

/-! ## What a step does -/

variable {w}

theorem releaseProviderPermit_closed : w.releaseProviderPermit.closed = w.closed := by
  rw [SharedSource.releaseProviderPermit]
  dsimp only
  split
  · rw [rejectQueue_eq]
  · split
    · rfl
    · rfl

/-- What the promise of a range in flight is settled with. -/
inductive Settles (w : SharedSource) (p : PendingRange) :
    RangeSourceAccessor → Except ReadFault (List UInt8) → Prop
  | fail {fault : ReadFault} (hfailure : p.failure = some fault) :
      Settles w p w.accessor (.error fault)
  | whole {bytes : List UInt8}
      (hexact : RangeSourceAccessor.exactFetched p.offset p.stop p.fetched = some bytes) :
      Settles w p w.accessor (.ok bytes)
  | assemble {bytes : List UInt8} {accessor : RangeSourceAccessor}
      (hassemble : w.accessor.assemble p.offset p.stop (p.inherited ++ p.fetched) =
        (some bytes, accessor)) : Settles w p accessor (.ok bytes)
  | unavailable {accessor : RangeSourceAccessor}
      (hassemble : w.accessor.assemble p.offset p.stop (p.inherited ++ p.fetched) =
        (none, accessor)) : Settles w p accessor (.error .unavailable)

/-- What becomes of a read that waits no more. -/
inductive Resumes (w : SharedSource) (r : Reader) : RangeSourceAccessor → Reader → Prop
  | share {overlap : List ℕ} {bytes : List UInt8} {accessor : RangeSourceAccessor}
      (hstate : r.state = .sharing overlap)
      (hassemble : w.accessor.assemble r.cursor (r.partStop w.accessor.maxReadBytes)
        (r.inherited ++ overlap.filterMap w.coverage) = (some bytes, accessor)) :
      Resumes w r accessor (r.deliver bytes)
  | retry {overlap : List ℕ} {accessor : RangeSourceAccessor}
      (hstate : r.state = .sharing overlap)
      (hassemble : w.accessor.assemble r.cursor (r.partStop w.accessor.maxReadBytes)
        (r.inherited ++ overlap.filterMap w.coverage) = (none, accessor)) :
      Resumes w r accessor { r with
        inherited := r.inherited ++ overlap.filterMap w.coverage, state := .checking }
  | reject {pending : ℕ} {p : PendingRange} {fault : ReadFault} (hmem : pending ∈ r.awaits)
      (hp : w.pendings[pending]? = some p) (houtcome : p.outcome = some (.error fault)) :
      Resumes w r w.accessor (r.fail fault)
  | resume {pending : ℕ} {p : PendingRange} {bytes : List UInt8}
      (hstate : r.state = .fetching pending) (hp : w.pendings[pending]? = some p)
      (houtcome : p.outcome = some (.ok bytes)) : Resumes w r w.accessor (r.deliver bytes)
  | cancel : Resumes w r w.accessor { r.fail .cancelled with cancelled := true }

/-- All that an event can do. -/
inductive Acts (source : List UInt8) (w : SharedSource) : SharedSource → Prop
  | same : Acts source w w
  | read (offset length : ℕ) : Acts source w (w.startRead offset length)
  | refuse {reader : ℕ} {r : Reader} (hr : w.readers[reader]? = some r)
      (hstate : r.state = .checking) (hclosed : w.closed = true) :
      Acts source w (w.setReader reader (r.fail .closed))
  | reuse {reader : ℕ} {r : Reader} {bytes : List UInt8} {accessor : RangeSourceAccessor}
      (hr : w.readers[reader]? = some r) (hstate : r.state = .checking)
      (hassemble : w.accessor.assemble r.cursor (r.partStop w.accessor.maxReadBytes)
        r.inherited = (some bytes, accessor)) :
      Acts source w (setReader { w with accessor } reader (r.deliver bytes))
  | begin {reader : ℕ} {r : Reader} {accessor : RangeSourceAccessor}
      (hr : w.readers[reader]? = some r) (hstate : r.state = .checking)
      (hassemble : w.accessor.assemble r.cursor (r.partStop w.accessor.maxReadBytes)
        r.inherited = (none, accessor))
      (halone : w.overlap r.cursor (r.partStop w.accessor.maxReadBytes) = []) :
      Acts source w
        (beginPending { w with accessor } reader r (r.partStop w.accessor.maxReadBytes))
  | join {reader : ℕ} {r : Reader} {accessor : RangeSourceAccessor}
      (hr : w.readers[reader]? = some r) (hstate : r.state = .checking)
      (hassemble : w.accessor.assemble r.cursor (r.partStop w.accessor.maxReadBytes)
        r.inherited = (none, accessor)) :
      Acts source w (setReader ((w.overlap r.cursor (r.partStop w.accessor.maxReadBytes)).foldl
        addWaiter { w with accessor }) reader { r with
          state := .sharing (w.overlap r.cursor (r.partStop w.accessor.maxReadBytes)) })
  | leave {reader : ℕ} {r r' : Reader} {accessor : RangeSourceAccessor}
      (hr : w.readers[reader]? = some r)
      (hwaits : (∃ overlap, r.state = .sharing overlap) ∨ ∃ pending, r.state = .fetching pending)
      (hresumes : w.Resumes r accessor r') :
      Acts source w (setReader { w.releaseAll r.awaits with accessor } reader r')
  | take {pending : ℕ} {p : PendingRange} (hp : w.pendings[pending]? = some p) :
      Acts source w (w.takeHole pending p)
  | answer {task : ℕ} {t : FetchTask} (ht : w.tasks[task]? = some t)
      (hstate : t.state = .requested) (hopen : w.closed = false) :
      Acts source w (modifyPending (modifyTask { w.releaseProviderPermit with
        accessor := w.releaseProviderPermit.accessor.insert t.hole.offset (t.hole.of source).bytes }
        task fun t => { t with state := .ended }) t.pending fun p =>
          { p with fetched := p.fetched ++ [t.hole.of source] })
  | fail {task : ℕ} {t : FetchTask} {fault : ReadFault} (ht : w.tasks[task]? = some t)
      (hstate : t.state = .requested)
      (hfault : fault = .cancelled → ∃ p, w.pendings[t.pending]? = some p ∧ p.cancelled) :
      Acts source w (w.releaseProviderPermit.failTask task fault)
  | dequeue {task : ℕ} {t : FetchTask} {p : PendingRange} (ht : w.tasks[task]? = some t)
      (hstate : t.state = .queued) (hp : w.pendings[t.pending]? = some p)
      (hcancelled : p.cancelled) :
      Acts source w
        (failTask { w with providerQueue := w.providerQueue.erase task } task .cancelled)
  | finish {pending : ℕ} {p : PendingRange} {accessor : RangeSourceAccessor}
      {outcome : Except ReadFault (List UInt8)} (hp : w.pendings[pending]? = some p)
      (hsettles : w.Settles p accessor outcome) :
      Acts source w (modifyPending { w with accessor } pending fun p =>
        { p with outcome := some outcome })
  | settle {pending : ℕ} {p : PendingRange} (hp : w.pendings[pending]? = some p) :
      Acts source w { w.modifyPending pending fun p => { p with settled := true } with
        inflight := if p.waiters = 0 then w.inflight.erase pending else w.inflight }
  | close : Acts source w w.close

variable {source : List UInt8}

theorem acts_leave {reader : ℕ} {r r' : Reader} {pendings : List ℕ}
    (hr : w.readers[reader]? = some r)
    (hwaits : (∃ overlap, r.state = .sharing overlap) ∨ ∃ pending, r.state = .fetching pending)
    (hpendings : r.awaits = pendings) (hresumes : w.Resumes r w.accessor r') :
    Acts source w ((w.releaseAll pendings).setReader reader r') := by
  have h : Acts source w _ := .leave hr hwaits hresumes
  rw [hpendings] at h
  rw [releaseAll_eq]
  rwa [releaseAll_eq] at h

theorem acts_elim {α : Type} {a? : Option α} {f : α → SharedSource}
    (h : ∀ a, a? = some a → Acts source w (f a)) : Acts source w (a?.elim w f) := by
  cases a? with
  | none => exact .same
  | some a => exact h a rfl

/-- A read finds the accessor closed, its bytes in the cache, or none of them asked for by others;
    or it waits for those that are. -/
theorem acts_check {reader : ℕ} {r : Reader} (hr : w.readers[reader]? = some r)
    (hstate : r.state = .checking) : Acts source w (w.checkReader reader r) := by
  rw [checkReader]
  split
  · rename_i hclosed
    exact .refuse hr hstate hclosed
  · dsimp only
    split
    · rename_i hassemble
      exact .reuse hr hstate hassemble
    · rename_i hassemble
      split
      · rename_i halone
        exact .begin hr hstate hassemble halone
      · exact .join hr hstate hassemble

theorem acts_answer {task : ℕ} {t : FetchTask} (ht : w.tasks[task]? = some t)
    (hstate : t.state = .requested) (failure : Option ProtocolFault) :
    Acts source w (answerTask source w task t failure) := by
  unfold answerTask
  dsimp only
  split
  · exact .fail ht hstate nofun
  · split
    · exact .fail ht hstate nofun
    · -- The permit is given back first, which does not close anything.
      rename_i hopen
      rw [releaseProviderPermit_closed] at hopen
      exact .answer ht hstate (Bool.not_eq_true _ ▸ hopen)

/-- A fetch is stopped by the end of the accessor, or by a range that everyone has left. -/
theorem acts_stop {task : ℕ} {t : FetchTask} (ht : w.tasks[task]? = some t) (byClose : Bool) :
    Acts source w (w.stopTask task t byClose) := by
  rw [stopTask]
  split
  · split
    · rename_i hclosed
      exact .fail ht hclosed.2 nofun
    · exact .same
  · split
    · rename_i p hp hstate
      split
      · rename_i hcancelled
        exact .fail ht hstate fun _ => ⟨p, hp, hcancelled⟩
      · exact .same
    · rename_i p hp hstate
      split
      · rename_i hcancelled
        exact .dequeue ht hstate hp hcancelled
      · exact .same
    · exact .same

/-- A failure goes before an exact answer, and that before the cache. -/
theorem acts_finish {pending : ℕ} {p : PendingRange} (hp : w.pendings[pending]? = some p) :
    Acts source w (w.finishPending pending p) := by
  rw [finishPending]
  split
  · exact .same
  · split
    · rename_i hfailure
      exact .finish hp (.fail hfailure)
    · split
      · rename_i hexact
        split at hexact
        · exact .finish hp (.whole hexact)
        · cases hexact
      · split
        · rename_i hassemble
          exact .finish hp (.assemble hassemble)
        · rename_i hassemble
          exact .finish hp (.unavailable hassemble)

theorem acts_share {reader : ℕ} {r : Reader} (hr : w.readers[reader]? = some r) :
    Acts source w (w.shareCoverage reader r) := by
  rw [shareCoverage]
  split
  · rename_i overlap hstate
    have hawaits : r.awaits = overlap := by rw [Reader.awaits, hstate]
    -- The ranges are released before the bytes are assembled; the cache does not change by it.
    have haccessor : (w.releaseAll overlap).accessor = w.accessor := by rw [releaseAll_eq]
    split
    · dsimp only
      rw [haccessor, ← hawaits]
      split
      · rename_i hassemble
        rw [hawaits] at hassemble
        exact .leave hr (.inl ⟨_, hstate⟩) (.share hstate hassemble)
      · rename_i hassemble
        rw [hawaits] at hassemble ⊢
        rw [← hawaits]
        exact .leave hr (.inl ⟨_, hstate⟩) (hawaits ▸ .retry hstate hassemble)
    · exact .same
  · exact .same

/-- Nothing else is done by an event. -/
theorem acts_step (source : List UInt8) (w : SharedSource) (event : SourceEvent) :
    Acts source w (step source w event) := by
  cases event with
  | read offset length => exact .read offset length
  | check reader =>
    rw [step]
    cases hr : w.readers[reader]? with
    | none => exact .same
    | some r =>
      dsimp only
      split
      · rename_i hstate
        exact acts_check hr hstate
      · exact .same
  | take pending => exact acts_elim fun p hp => .take hp
  | answer task failure =>
    refine acts_elim fun t ht => ?_
    split
    · rename_i hstate
      exact acts_answer ht hstate failure
    · exact .same
  | stop task byClose => exact acts_elim fun t ht => acts_stop ht byClose
  | finish pending => exact acts_elim fun p hp => acts_finish hp
  | settle pending =>
    refine acts_elim fun p hp => ?_
    rw [settlePending]
    have h : Acts source w _ := .settle hp
    dsimp only
    split
    · exact .same
    · split
      · rename_i hzero
        rwa [if_pos hzero] at h
      · rename_i hpos
        rwa [if_neg hpos] at h
  | share reader => exact acts_elim fun r hr => acts_share hr
  | reject reader pending =>
    refine acts_elim fun r hr => ?_
    rw [rejectReader]
    split
    · rename_i overlap p hstate hp
      have hawaits : r.awaits = overlap := by rw [Reader.awaits, hstate]
      split
      · rename_i fault houtcome
        split
        · rename_i hmem
          exact acts_leave hr (.inl ⟨_, hstate⟩) hawaits (.reject (hawaits ▸ hmem) hp houtcome)
        · exact .same
      · exact .same
    · exact .same
  | resume reader =>
    refine acts_elim fun r hr => ?_
    rw [resumeReader]
    split
    · rename_i pending hstate
      have hawaits : r.awaits = [pending] := by rw [Reader.awaits, hstate]
      split
      · rename_i p hp
        split
        · rename_i houtcome
          exact acts_leave hr (.inr ⟨_, hstate⟩) hawaits (.resume hstate hp houtcome)
        · rename_i houtcome
          exact acts_leave hr (.inr ⟨_, hstate⟩) hawaits
            (.reject (hawaits ▸ List.mem_singleton_self _) hp houtcome)
        · exact .same
      · exact .same
    · exact .same
  | cancel reader =>
    refine acts_elim fun r hr => ?_
    rw [cancelReader]
    split
    · rename_i hstate
      exact acts_leave hr (.inl ⟨_, hstate⟩) (by rw [Reader.awaits, hstate]) .cancel
    · rename_i pending hstate
      have hawaits : r.awaits = [pending] := by rw [Reader.awaits, hstate]
      exact acts_leave hr (.inr ⟨_, hstate⟩) hawaits .cancel
    · exact .same
  | close => exact .close

/-- An accessor that is closed stays closed. -/
theorem Acts.closed {w' : SharedSource} (hacts : Acts source w w')
    (h : w.closed = true) : w'.closed = true := by
  cases hacts with
  | join hr hstate hassemble =>
    rw [setReader, addWaiters_eq]
    exact h
  | leave hr hwaits hresumes =>
    rw [setReader, releaseAll_eq]
    exact h
  | take hp =>
    rw [takeHole]
    split
    · exact h
    · dsimp only
      split_ifs
      · exact h
      · rw [failTask_eq]
        exact h
      · exact h
      · exact h
  | answer ht hstate hopen => exact absurd (hopen.symm.trans h) Bool.false_ne_true
  | fail ht hstate hfault =>
    rw [failTask_eq]
    exact releaseProviderPermit_closed.trans h
  | dequeue ht hstate hp hcancelled =>
    rw [failTask_eq]
    exact h
  | close =>
    rw [SharedSource.close, if_pos h]
    exact h
  | _ => exact h

end SharedSource

end Tabulark.Source
