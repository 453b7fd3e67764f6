import Tabulark.Engine.Flights

/-!
# Coalesced reads and their callers

A flight that serves several callers is cancelled when the table handle of its
first caller closes, whoever else waits for it. `Spared` says of a step that no
such victim exists, and `isolated_iff` that reads are isolated from each other in
exactly the runs whose steps are all spared.
-/

namespace Tabulark.Engine.Flights

open Duplex

variable {T : Tables}

/-! ## The condition and the property -/

/-- A caller has left: its own signal was aborted, or its own table handle or dataset closed. -/
def Call.Gone (T : Tables) (c : Host) (call : Call) : Prop :=
  call.aborted = true ∨ ¬c.IsOpen T call.table

instance (c : Host) (call : Call) : Decidable (call.Gone T c) :=
  inferInstanceAs (Decidable (_ ∨ _))

/-- Everyone who waits for a flight has left. -/
def Host.AllGone (T : Tables) (c : Host) (requestId : ℕ) : Prop :=
  ∀ call ∈ c.calls, call.state = .waiting requestId → call.Gone T c

/-- A read was cancelled in the Worker, or refused there, and its flight was not ended by a
    batch or an error of the read itself. -/
def CutOff (s : State) (requestId : ℕ) : Prop :=
  (∃ active ∈ s.right.active, active.requestId = requestId ∧ active.cancelled = true) ∨
    (∃ failure, failure ≠ .failed ∧ (requestId, .read (.failure failure)) ∈ s.toLeft) ∨
    ∃ flight ∈ s.left.flights, flight.requestId = requestId ∧
      ∃ failure, failure ≠ .failed ∧ flight.outcome = some (.failure failure)

/-- A read was cut off, or its cancellation is on its way. -/
def Cancelled (s : State) (requestId : ℕ) : Prop :=
  CutOff s requestId ∨ ∃ id, (id, .cancel requestId) ∈ s.toRight

/-- A step that cuts nobody off: the Worker closes no table handle while a read through it is
    active and waited for by a caller that has not left, and no call joins a flight whose read was
    cancelled. -/
def Spared (T : Tables) (s : State) : Move Host.Act Worker.Act → Prop
  | .left (.readRange table revision schemaVersion range displayOnly false false) =>
      s.left.IsOpen T table →
        ∀ entry ∈ s.left.singleflight,
          entry.1 = Host.key T table revision schemaVersion range displayOnly →
            ¬Cancelled s entry.2
  | .deliverRight =>
      ∀ id table rest, s.toRight = (id, .closeTable table) :: rest → s.right.IsOpen T table →
        ∀ active ∈ s.right.active, active.table = table → s.left.AllGone T active.requestId
  | _ => True

/-- Nothing is on its way, no read is active, and nothing waits to run. -/
structure Idle (s : State) : Prop where
  quiet : s.Quiet
  active : s.right.active = []
  settled : ∀ flight ∈ s.left.flights, flight.outcome ≠ none → flight.settled = true
  resumed : ∀ call ∈ s.left.calls, ∀ requestId, call.state = .waiting requestId →
    ∀ flight ∈ s.left.flights, flight.requestId = requestId → flight.settled = false

/-- Reads are isolated from each other after a step: one pending request for a key, cancelled only
    when all its callers have left; nobody is turned away who has not left; a call keeps its
    result, and has one when everything has come to rest. -/
structure Isolated (T : Tables) (s s' : State) : Prop where
  one_request : ∀ flight ∈ s'.left.flights, ∀ flight' ∈ s'.left.flights,
    flight.outcome = none → flight'.outcome = none → flight.key = flight'.key → flight = flight'
  cancelled : ∀ requestId, Cancelled s' requestId → s'.left.AllGone T requestId
  rejected : ∀ call ∈ s'.left.calls, ∀ failure, failure ≠ .failed →
    call.state = .settled (.failure failure) → call.Gone T s'.left
  kept : ∀ (index : ℕ) (call : Call) (outcome : Outcome), s.left.calls[index]? = some call →
    call.state = .settled outcome →
      ∃ call', s'.left.calls[index]? = some call' ∧ call'.state = .settled outcome
  settles : Idle s' → ∀ call ∈ s'.left.calls, ∃ outcome, call.state = .settled outcome

/-! ## The main thread -/

variable {outcome : Outcome}

/-- A flight that ends has an outcome. -/
theorem Host.outcome_of_endFlight {c : Host} {requestId : ℕ} {flight : Flight}
    (hin : flight ∈ (c.endFlight requestId outcome).flights)
    (hid : flight.requestId = requestId) : flight.outcome ≠ none := by
  obtain ⟨old, -, rfl⟩ := List.mem_map.1 hin
  split_ifs at hid ⊢ with heq
  · exact Option.some_ne_none _
  · exact absurd hid heq

/-- The flights, the pending reads and the map agree. -/
structure Host.Books (T : Tables) (c : Host) : Prop where
  nodup : (c.flights.map Flight.requestId).Nodup
  fresh : ∀ flight ∈ c.flights, flight.requestId < c.rpc.nextRequestId
  pending : ∀ flight ∈ c.flights, flight.outcome = none ↔ (flight.requestId, ()) ∈ c.rpc.pending
  ended : ∀ flight ∈ c.flights, flight.settled = true → flight.outcome ≠ none
  mapped : ∀ entry ∈ c.singleflight, ∃ flight ∈ c.flights,
    flight.requestId = entry.2 ∧ flight.key = entry.1
  keys : (c.singleflight.map Prod.fst).Nodup
  running : ∀ flight ∈ c.flights, flight.outcome = none →
    (flight.key, flight.requestId) ∈ c.singleflight
  waiting : ∀ call ∈ c.calls, ∀ requestId, call.state = .waiting requestId →
    ∃ flight ∈ c.flights, flight.requestId = requestId ∧
      flight.key.dataset = T.dataset call.table

namespace Host.Books

variable {c : Host}

/-- There is one flight under a number. -/
theorem eq_of_requestId (h : c.Books T) {flight flight' : Flight} (hin : flight ∈ c.flights)
    (hin' : flight' ∈ c.flights) (hid : flight.requestId = flight'.requestId) :
    flight = flight' := List.inj_on_of_nodup_map h.nodup hin hin' hid

/-- There is one pending request for a key. -/
theorem eq_of_key (h : c.Books T) {flight flight' : Flight} (hin : flight ∈ c.flights)
    (hin' : flight' ∈ c.flights) (hnone : flight.outcome = none) (hnone' : flight'.outcome = none)
    (hkey : flight.key = flight'.key) : flight = flight' := by
  have heq := List.inj_on_of_nodup_map h.keys (h.running flight hin hnone)
    (h.running flight' hin' hnone') hkey
  exact h.eq_of_requestId hin hin' (congrArg Prod.snd heq)

/-- Flights change without another number or key, and end or stay as they are. -/
theorem map_flights (h : c.Books T) {f : Flight → Flight} {rpc : WorkerRpcClient Unit}
    {singleflight : List (RangeCacheKey × ℕ)}
    (hid : ∀ flight, (f flight).requestId = flight.requestId)
    (hkey : ∀ flight, (f flight).key = flight.key)
    (hnext : c.rpc.nextRequestId ≤ rpc.nextRequestId)
    (hpending : ∀ flight ∈ c.flights,
      (f flight).outcome = none ↔ (flight.requestId, ()) ∈ rpc.pending)
    (hended : ∀ flight ∈ c.flights, (f flight).settled = true → (f flight).outcome ≠ none)
    (hmapped : singleflight.Sublist c.singleflight)
    (hrunning : ∀ flight ∈ c.flights, (f flight).outcome = none →
      (flight.key, flight.requestId) ∈ singleflight) :
    { c with rpc, flights := c.flights.map f, singleflight }.Books T where
  nodup := by
    rw [List.map_map]
    have hcomp : Flight.requestId ∘ f = Flight.requestId := funext hid
    rw [hcomp]
    exact h.nodup
  fresh := by
    intro flight hin
    obtain ⟨old, hold, rfl⟩ := List.mem_map.1 hin
    rw [hid]
    exact (h.fresh old hold).trans_le hnext
  pending := by
    intro flight hin
    obtain ⟨old, hold, rfl⟩ := List.mem_map.1 hin
    rw [hid]
    exact hpending old hold
  ended := by
    intro flight hin
    obtain ⟨old, hold, rfl⟩ := List.mem_map.1 hin
    exact hended old hold
  mapped := by
    intro entry hin
    obtain ⟨flight, hflight, hid', hkey'⟩ := h.mapped entry (hmapped.subset hin)
    exact ⟨f flight, List.mem_map_of_mem hflight, (hid flight).trans hid',
      (hkey flight).trans hkey'⟩
  keys := h.keys.sublist (hmapped.map Prod.fst)
  running := by
    intro flight hin hnone
    obtain ⟨old, hold, rfl⟩ := List.mem_map.1 hin
    rw [hid, hkey]
    exact hrunning old hold hnone
  waiting := by
    intro call hin requestId hstate
    obtain ⟨flight, hflight, hid', hdataset⟩ := h.waiting call hin requestId hstate
    exact ⟨f flight, List.mem_map_of_mem hflight, (hid flight).trans hid', by rw [hkey, hdataset]⟩

theorem endFlight (h : c.Books T) (requestId : ℕ) (outcome : Outcome) :
    (c.endFlight requestId outcome).Books T := by
  refine h.map_flights (fun flight => ?_) (fun flight => ?_) le_rfl (fun flight hin => ?_)
    (fun flight hin => ?_) (List.Sublist.refl _) (fun flight hin => ?_)
  · split_ifs <;> rfl
  · split_ifs <;> rfl
  · split_ifs with hid
    · simp [WorkerRpcClient.mem_delete, hid]
    · simp [WorkerRpcClient.mem_delete, hid, h.pending flight hin]
  · split_ifs with hid
    · simp
    · exact h.ended flight hin
  · split_ifs with hid
    · simp
    · exact h.running flight hin

/-- A flight that has ended is taken out of the map. -/
theorem unmap (h : c.Books T) {requestId : ℕ}
    (hended : ∀ flight ∈ c.flights, flight.requestId = requestId → flight.outcome ≠ none) :
    (c.unmap requestId).Books T := by
  have hrunning : ∀ flight ∈ c.flights, flight.outcome = none →
      (flight.key, flight.requestId) ∈ (c.unmap requestId).singleflight := by
    intro flight hin hnone
    have hne : flight.requestId ≠ requestId := fun heq => hended flight hin heq hnone
    exact List.mem_filter.2 ⟨h.running flight hin hnone, by simpa using hne⟩
  have hmap : { c.unmap requestId with flights := c.flights.map id }.Books T :=
    h.map_flights (fun _ => rfl) (fun _ => rfl) le_rfl h.pending h.ended List.filter_sublist
      hrunning
  rwa [List.map_id] at hmap

/-- The calls change: those that wait, wait for a flight of their dataset. -/
theorem setCalls (h : c.Books T) {calls : List Call} {closedTables closedDatasets : List ℕ}
    (hwaiting : ∀ call ∈ calls, ∀ requestId, call.state = .waiting requestId →
      ∃ flight ∈ c.flights, flight.requestId = requestId ∧
        flight.key.dataset = T.dataset call.table) :
    { c with calls, closedTables, closedDatasets }.Books T :=
  { h with waiting := hwaiting }

/-- A message without a flight has a number. -/
theorem skipId (h : c.Books T) : { c with rpc := c.rpc.skipId }.Books T :=
  { h with fresh := fun flight hin => (h.fresh flight hin).trans (Nat.lt_succ_self _) }

/-- A new flight. -/
theorem createFlight (h : c.Books T) {table : ℕ} {key : RangeCacheKey}
    (hnew : ∀ entry ∈ c.singleflight, entry.1 ≠ key) :
    (c.createFlight table key).1.Books T where
  nodup := by
    rw [Host.createFlight, List.map_append, List.nodup_append]
    refine ⟨h.nodup, List.nodup_singleton _, ?_⟩
    rintro id hin id' hin' rfl
    obtain ⟨flight, hflight, rfl⟩ := List.mem_map.1 hin
    rw [List.map_singleton, List.mem_singleton] at hin'
    exact absurd (h.fresh flight hflight) (by rw [hin']; exact lt_irrefl _)
  fresh := by
    intro flight hin
    rcases List.mem_append.1 hin with hin | hin
    · exact (h.fresh flight hin).trans (Nat.lt_succ_self _)
    · rw [List.mem_singleton.1 hin]
      exact Nat.lt_succ_self _
  pending := by
    intro flight hin
    rw [Host.createFlight, WorkerRpcClient.mem_request]
    rcases List.mem_append.1 hin with hin | hin
    · have hne : flight.requestId ≠ c.rpc.nextRequestId := (h.fresh flight hin).ne
      rw [h.pending flight hin]
      simp [hne]
    · rw [List.mem_singleton.1 hin]
      simp
  ended := by
    intro flight hin
    rcases List.mem_append.1 hin with hin | hin
    · exact h.ended flight hin
    · rw [List.mem_singleton.1 hin]
      exact fun hsettled => by cases hsettled
  mapped := by
    intro entry hin
    rcases List.mem_append.1 hin with hin | hin
    · obtain ⟨flight, hflight, heq⟩ := h.mapped entry hin
      exact ⟨flight, List.mem_append_left _ hflight, heq⟩
    · rw [List.mem_singleton.1 hin]
      exact ⟨_, List.mem_append_right _ (List.mem_singleton_self _), rfl, rfl⟩
  keys := by
    rw [Host.createFlight, List.map_append, List.nodup_append]
    refine ⟨h.keys, List.nodup_singleton _, ?_⟩
    rintro key' hin key'' hin' rfl
    obtain ⟨entry, hentry, rfl⟩ := List.mem_map.1 hin
    rw [List.map_singleton, List.mem_singleton] at hin'
    exact hnew entry hentry hin'
  running := by
    intro flight hin hnone
    rcases List.mem_append.1 hin with hin | hin
    · exact List.mem_append_left _ (h.running flight hin hnone)
    · rw [List.mem_singleton.1 hin]
      exact List.mem_append_right _ (List.mem_singleton_self _)
  waiting := by
    intro call hin requestId hstate
    obtain ⟨flight, hflight, heq⟩ := h.waiting call hin requestId hstate
    exact ⟨flight, List.mem_append_left _ hflight, heq⟩

/-- A flight that has ended settles. -/
theorem settleFlight (h : c.Books T) {requestId : ℕ}
    (hended : ∀ flight ∈ c.flights, flight.requestId = requestId → flight.outcome ≠ none) :
    Host.Books T
      { c.unmap requestId with
        flights := c.flights.map fun flight =>
          if flight.requestId = requestId then { flight with settled := true } else flight } := by
  refine (h.unmap hended).map_flights (fun flight => ?_) (fun flight => ?_) le_rfl
    (fun flight hin => ?_) (fun flight hin => ?_) (List.Sublist.refl _) (fun flight hin => ?_)
  · split_ifs <;> rfl
  · split_ifs <;> rfl
  · split_ifs
    · exact h.pending flight hin
    · exact h.pending flight hin
  · split_ifs with hid
    · exact fun _ => hended flight hin hid
    · exact h.ended flight hin
  · intro hnone
    refine (h.unmap hended).running flight hin ?_
    split_ifs at hnone <;> exact hnone

end Host.Books

/-! ## The invariant -/

/-- Nothing of a table is read after it was closed. -/
def ReadsBefore (T : Tables) (a b : ℕ × Request) : Prop :=
  ∀ table range displayOnly, b.2 = .readRange table range displayOnly →
    a.2 ≠ .closeTable table ∧ a.2 ≠ .closeSource (T.dataset table)

/-- The main thread, the Worker and the channels between them. -/
structure Accounted (T : Tables) (s : State) : Prop where
  books : s.left.Books T
  requested : ∀ message ∈ s.toRight, message.1 < s.left.rpc.nextRequestId ∧
    ∀ target, message.2 = .cancel target → target < s.left.rpc.nextRequestId
  reads : ∀ id table range displayOnly, (id, .readRange table range displayOnly) ∈ s.toRight →
    s.right.IsOpen T table ∧ ∀ flight ∈ s.left.flights, flight.requestId = id →
      flight.key.dataset = T.dataset table
  ordered : s.toRight.Pairwise (ReadsBefore T)
  closes : (∀ id table, (id, .closeTable table) ∈ s.toRight → table ∈ s.left.closedTables) ∧
    ∀ id dataset, (id, .closeSource dataset) ∈ s.toRight → dataset ∈ s.left.closedDatasets
  closed : (∀ table ∈ s.right.closedTables, table ∈ s.left.closedTables) ∧
    ∀ dataset ∈ s.right.closedDatasets, dataset ∈ s.left.closedDatasets
  active : ∀ active ∈ s.right.active, active.requestId < s.left.rpc.nextRequestId ∧
    ∀ flight ∈ s.left.flights, flight.requestId = active.requestId →
      flight.key.dataset = T.dataset active.table
  responded : ∀ message ∈ s.toLeft, message.1 < s.left.rpc.nextRequestId
  underway : ∀ flight ∈ s.left.flights, flight.outcome = none →
    (∃ table range displayOnly,
      (flight.requestId, .readRange table range displayOnly) ∈ s.toRight) ∨
    (∃ active ∈ s.right.active, active.requestId = flight.requestId) ∨
    ∃ response, (flight.requestId, response) ∈ s.toLeft
  cancelled : ∀ requestId, Cancelled s requestId → s.left.AllGone T requestId
  rejected : ∀ call ∈ s.left.calls, ∀ failure, failure ≠ .failed →
    call.state = .settled (.failure failure) → call.Gone T s.left

/-- Whoever has left stays away, whatever is closed besides. -/
theorem Call.Gone.mono {c c' : Host} {call : Call} (h : call.Gone T c)
    (htables : ∀ table ∈ c.closedTables, table ∈ c'.closedTables)
    (hdatasets : ∀ dataset ∈ c.closedDatasets, dataset ∈ c'.closedDatasets) :
    call.Gone T c' := by
  refine h.imp_right fun hclosed hopen => hclosed ⟨fun hin => ?_, fun hin => ?_⟩
  · exact hopen.1 (htables _ hin)
  · exact hopen.2 (hdatasets _ hin)

namespace Accounted

variable {s : State}

variable {requestId : ℕ}

/-- A cancelled read is one that was made. -/
theorem lt_of_cancelled (h : Accounted T s) (hc : Cancelled s requestId) :
    requestId < s.left.rpc.nextRequestId := by
  rcases hc with (⟨active, hin, rfl, -⟩ | ⟨_, -, hin⟩ | ⟨flight, hin, rfl, -⟩) | ⟨_, hin⟩
  · exact (h.active active hin).1
  · exact h.responded _ hin
  · exact h.books.fresh flight hin
  · exact (h.requested _ hin).2 _ rfl

/-- The calls change, or more is closed. -/
theorem setCalls (h : Accounted T s) {calls : List Call} {closedTables closedDatasets : List ℕ}
    (htables : ∀ table ∈ s.left.closedTables, table ∈ closedTables)
    (hdatasets : ∀ dataset ∈ s.left.closedDatasets, dataset ∈ closedDatasets)
    (hwaiting : ∀ call ∈ calls, ∀ requestId, call.state = .waiting requestId →
      (∃ flight ∈ s.left.flights, flight.requestId = requestId ∧
        flight.key.dataset = T.dataset call.table) ∧
      (Cancelled s requestId → call.Gone T { s.left with calls, closedTables, closedDatasets }))
    (hrejected : ∀ call ∈ calls, ∀ failure, failure ≠ .failed →
      call.state = .settled (.failure failure) →
        call.Gone T { s.left with calls, closedTables, closedDatasets }) :
    Accounted T { s with left := { s.left with calls, closedTables, closedDatasets } } :=
  { h with
    books := h.books.setCalls fun call hin _ hstate => (hwaiting call hin _ hstate).1
    closes := ⟨fun id table hin => htables _ (h.closes.1 id table hin),
      fun id dataset hin => hdatasets _ (h.closes.2 id dataset hin)⟩
    closed := ⟨fun table hin => htables _ (h.closed.1 table hin),
      fun dataset hin => hdatasets _ (h.closed.2 dataset hin)⟩
    cancelled := fun _ hc call hin hstate => (hwaiting call hin _ hstate).2 hc
    rejected := hrejected }

/-- More is closed. -/
theorem close (h : Accounted T s) {closedTables closedDatasets : List ℕ}
    (htables : ∀ table ∈ s.left.closedTables, table ∈ closedTables)
    (hdatasets : ∀ dataset ∈ s.left.closedDatasets, dataset ∈ closedDatasets) :
    Accounted T { s with left := { s.left with closedTables, closedDatasets } } := by
  refine h.setCalls htables hdatasets (fun call hin requestId hstate => ?_)
    (fun call hin failure hne hstate => ?_)
  · exact ⟨h.books.waiting call hin requestId hstate, fun hc =>
      (h.cancelled requestId hc call hin hstate).mono htables hdatasets⟩
  · exact (h.rejected call hin failure hne hstate).mono htables hdatasets

/-- The calls change by one: a new one, or another in its place. -/
theorem changeCall (h : Accounted T s) {calls : List Call} {new : Call}
    (hmem : ∀ call ∈ calls, call ∈ s.left.calls ∨ call = new)
    (hwaiting : ∀ requestId, new.state = .waiting requestId →
      (∃ flight ∈ s.left.flights, flight.requestId = requestId ∧
        flight.key.dataset = T.dataset new.table) ∧ ¬Cancelled s requestId)
    (hgone : ∀ failure, failure ≠ .failed → new.state = .settled (.failure failure) →
      new.Gone T s.left) :
    Accounted T { s with left := { s.left with calls } } := by
  refine h.setCalls (fun _ hin => hin) (fun _ hin => hin) (fun call hin requestId hstate => ?_)
    (fun call hin failure hne hstate => ?_)
  · rcases hmem call hin with hin | rfl
    · exact ⟨h.books.waiting call hin requestId hstate,
        fun hc => h.cancelled requestId hc call hin hstate⟩
    · exact (hwaiting requestId hstate).imp_right fun hcancel hc => absurd hc hcancel
  · rcases hmem call hin with hin | rfl
    · exact h.rejected call hin failure hne hstate
    · exact hgone failure hne hstate

variable {request : Request}

/-- A message goes out that reads nothing: what it closes is closed, and whoever waits for what it
    cancels has left. -/
theorem send (h : Accounted T s)
    (hread : ∀ table range displayOnly, request ≠ .readRange table range displayOnly)
    (hcloses : (∀ table, request = .closeTable table → table ∈ s.left.closedTables) ∧
      ∀ dataset, request = .closeSource dataset → dataset ∈ s.left.closedDatasets)
    (hcancel : ∀ target, request = .cancel target →
      target < s.left.rpc.nextRequestId ∧ s.left.AllGone T target) :
    Accounted T (s.leftTo ({ s.left with rpc := s.left.rpc.skipId },
      [(s.left.rpc.nextRequestId, request)])) := by
  have hmem : ∀ message ∈ s.toRight ++ [(s.left.rpc.nextRequestId, request)],
      message ∈ s.toRight ∨ message = (s.left.rpc.nextRequestId, request) := fun message hin =>
    (List.mem_append.1 hin).imp_right List.mem_singleton.1
  refine { h with
    books := h.books.skipId
    requested := fun message hin => ?_
    reads := fun id table range displayOnly hin => ?_
    ordered := ?_
    closes := ⟨fun id table hin => ?_, fun id dataset hin => ?_⟩
    active := fun active hin => ⟨(h.active active hin).1.trans (Nat.lt_succ_self _),
      (h.active active hin).2⟩
    responded := fun message hin => (h.responded message hin).trans (Nat.lt_succ_self _)
    underway := fun flight hin hnone => (h.underway flight hin hnone).imp_left
      fun ⟨table, range, displayOnly, hin⟩ =>
        ⟨table, range, displayOnly, List.mem_append_left _ hin⟩
    cancelled := fun requestId hc => ?_ }
  · rcases hmem message hin with hin | rfl
    · exact ⟨(h.requested message hin).1.trans (Nat.lt_succ_self _),
        fun target htarget => ((h.requested message hin).2 target htarget).trans
          (Nat.lt_succ_self _)⟩
    · exact ⟨Nat.lt_succ_self _, fun target htarget =>
        (hcancel target htarget).1.trans (Nat.lt_succ_self _)⟩
  · rcases hmem _ hin with hin | heq
    · exact h.reads id table range displayOnly hin
    · exact absurd (congrArg Prod.snd heq).symm (hread _ _ _)
  · refine List.pairwise_append.2 ⟨h.ordered, List.pairwise_singleton _ _, ?_⟩
    intro a _ b hb table range displayOnly hread'
    rw [List.mem_singleton.1 hb] at hread'
    exact absurd hread' (hread _ _ _)
  · rcases hmem _ hin with hin | heq
    · exact h.closes.1 id table hin
    · exact hcloses.1 table (congrArg Prod.snd heq).symm
  · rcases hmem _ hin with hin | heq
    · exact h.closes.2 id dataset hin
    · exact hcloses.2 dataset (congrArg Prod.snd heq).symm
  · rcases hc with hcut | ⟨id, hin⟩
    · exact h.cancelled requestId (.inl hcut)
    · rcases hmem _ hin with hin | heq
      · exact h.cancelled requestId (.inr ⟨id, hin⟩)
      · exact (hcancel requestId (congrArg Prod.snd heq).symm).2

/-- Flights change, but not in number or key: they keep their outcome, or end, cancelled only if
    nobody waits. -/
theorem mapFlights (h : Accounted T s) {f : Flight → Flight} {rpc : WorkerRpcClient Unit}
    {singleflight : List (RangeCacheKey × ℕ)}
    (hbooks : { s.left with rpc, flights := s.left.flights.map f, singleflight }.Books T)
    (hnext : rpc.nextRequestId = s.left.rpc.nextRequestId)
    (hid : ∀ flight, (f flight).requestId = flight.requestId)
    (hkey : ∀ flight, (f flight).key = flight.key)
    (houtcome : ∀ flight, (f flight).outcome = flight.outcome ∨ ∃ outcome,
      (f flight).outcome = some outcome ∧ ∀ failure, failure ≠ .failed →
        outcome = .failure failure → s.left.AllGone T flight.requestId) :
    Accounted T { s with
      left := { s.left with rpc, flights := s.left.flights.map f, singleflight } } := by
  have hdataset : ∀ {requestId dataset : ℕ},
      (∀ flight ∈ s.left.flights, flight.requestId = requestId → flight.key.dataset = dataset) →
        ∀ flight ∈ s.left.flights.map f, flight.requestId = requestId →
          flight.key.dataset = dataset := by
    intro requestId dataset hall flight hin hflight
    obtain ⟨old, hold, rfl⟩ := List.mem_map.1 hin
    rw [hkey]
    exact hall old hold ((hid old).symm.trans hflight)
  refine { h with
    books := hbooks
    requested := by simpa only [hnext] using h.requested
    reads := fun id table range displayOnly hin => (h.reads _ _ _ _ hin).imp_right hdataset
    active := fun active hin => by simpa only [hnext] using (h.active active hin).imp_right hdataset
    responded := by simpa only [hnext] using h.responded
    underway := fun flight hin hnone => ?_
    cancelled := fun requestId hc => ?_ }
  · obtain ⟨old, hold, rfl⟩ := List.mem_map.1 hin
    rw [hid]
    refine h.underway old hold ?_
    rcases houtcome old with hsame | ⟨outcome, hended, -⟩
    · exact hsame ▸ hnone
    · rw [hended] at hnone
      cases hnone
  · rcases hc with (hactive | hleft | ⟨flight, hin, hflight, failure, hne, hfailure⟩) | hright
    · exact h.cancelled requestId (.inl (.inl hactive))
    · exact h.cancelled requestId (.inl (.inr (.inl hleft)))
    · obtain ⟨old, hold, rfl⟩ := List.mem_map.1 hin
      rw [hid] at hflight
      rcases houtcome old with hsame | ⟨outcome, hended, hgone⟩
      · exact h.cancelled requestId
          (.inl (.inr (.inr ⟨old, hold, hflight, failure, hne, hsame ▸ hfailure⟩)))
      · exact hflight ▸ hgone failure hne (Option.some.inj (hended.symm.trans hfailure))
    · exact h.cancelled requestId (.inr hright)

/-- A flight ends that nobody waits for, or whose response says how. -/
theorem endFlight (h : Accounted T s)
    (hgone : ∀ failure, failure ≠ .failed → outcome = .failure failure →
      s.left.AllGone T requestId) :
    Accounted T { s with left := s.left.endFlight requestId outcome } := by
  refine h.mapFlights (h.books.endFlight requestId outcome) rfl (fun flight => ?_)
    (fun flight => ?_) (fun flight => ?_)
  · split_ifs <;> rfl
  · split_ifs <;> rfl
  · split_ifs with hid
    · exact .inr ⟨outcome, rfl, hid ▸ hgone⟩
    · exact .inl rfl

/-- A flight that everyone has left is aborted. -/
theorem abortFlight (h : Accounted T s) (hgone : s.left.AllGone T requestId) :
    Accounted T (s.leftTo (s.left.abortFlight requestId)) := by
  unfold Host.abortFlight
  dsimp only
  cases hget : (s.left.unmap requestId).rpc.get? requestId with
  | none =>
    rw [Link.leftTo_nil]
    refine { h with books := h.books.unmap fun flight hin hid hnone => ?_ }
    refine WorkerRpcClient.get?_eq_none.1 hget () ?_
    rw [← hid]
    exact (h.books.pending flight hin).1 hnone
  | some _ =>
    have hended := h.endFlight fun _ _ (_ : Outcome.failure .cancelled = _) => hgone
    have hunmapped : Accounted T { s with
        left := (s.left.unmap requestId).endFlight requestId (.failure .cancelled) } :=
      { hended with books := hended.books.unmap fun _ hin => Host.outcome_of_endFlight hin }
    refine hunmapped.send (by simp) (by simp) fun target htarget => ?_
    cases htarget
    exact ⟨s.left.rpc.fresh _ (WorkerRpcClient.get?_eq_some.1 hget), hgone⟩

theorem abortFlights (h : Accounted T s) {requestIds : List ℕ}
    (hgone : ∀ requestId ∈ requestIds, s.left.AllGone T requestId) :
    Accounted T (s.leftTo (s.left.abortFlights requestIds)) ∧
      (s.left.abortFlights requestIds).1.calls = s.left.calls ∧
      (s.left.abortFlights requestIds).1.closedTables = s.left.closedTables ∧
      (s.left.abortFlights requestIds).1.closedDatasets = s.left.closedDatasets := by
  induction requestIds generalizing s with
  | nil =>
    rw [Host.abortFlights, Link.leftTo_nil]
    exact ⟨h, rfl, rfl, rfl⟩
  | cons requestId rest ih =>
    have hsame : (s.left.abortFlight requestId).1.calls = s.left.calls ∧
        (s.left.abortFlight requestId).1.closedTables = s.left.closedTables ∧
        (s.left.abortFlight requestId).1.closedDatasets = s.left.closedDatasets := by
      unfold Host.abortFlight
      dsimp only
      split <;> exact ⟨rfl, rfl, rfl⟩
    obtain ⟨hcalls, htables, hdatasets⟩ := hsame
    have hnext := h.abortFlight (hgone requestId List.mem_cons_self)
    have hrest : ∀ id ∈ rest, (s.left.abortFlight requestId).1.AllGone T id := by
      intro id hin call hcall hstate
      rw [hcalls] at hcall
      exact (hgone id (List.mem_cons_of_mem _ hin) call hcall hstate).mono
        (fun _ hin => htables ▸ hin) (fun _ hin => hdatasets ▸ hin)
    obtain ⟨hall, hcalls', htables', hdatasets'⟩ := ih hnext hrest
    refine ⟨?_, hcalls'.trans hcalls, htables'.trans htables, hdatasets'.trans hdatasets⟩
    rw [Host.abortFlights]
    simpa only [Link.leftTo, List.append_assoc] using hall

variable {key : RangeCacheKey} {table : ℕ}

/-- A new flight is not cancelled, nor does it cancel another. -/
theorem cancelled_of_createFlight
    (hc : Cancelled (s.leftTo (s.left.createFlight table key)) requestId) :
    Cancelled s requestId := by
  rcases hc with (hactive | hleft | ⟨flight, hin, hid, failure, hne, houtcome⟩) | ⟨id, hin⟩
  · exact .inl (.inl hactive)
  · exact .inl (.inr (.inl hleft))
  · rcases List.mem_append.1 hin with hin | hin
    · exact .inl (.inr (.inr ⟨flight, hin, hid, failure, hne, houtcome⟩))
    · rw [List.mem_singleton.1 hin] at houtcome
      cases houtcome
  · rcases List.mem_append.1 hin with hin | hin
    · exact .inr ⟨id, hin⟩
    · cases List.mem_singleton.1 hin

/-- A new flight goes out through an open table handle. -/
theorem createFlight (h : Accounted T s)
    (hopen : s.left.IsOpen T table) (hdataset : key.dataset = T.dataset table)
    (hnew : ∀ entry ∈ s.left.singleflight, entry.1 ≠ key) :
    Accounted T (s.leftTo (s.left.createFlight table key)) := by
  have hmem : ∀ message ∈ s.toRight ++
      [(s.left.rpc.nextRequestId, .readRange table key.range key.displayOnly)],
      message ∈ s.toRight ∨
        message = (s.left.rpc.nextRequestId, .readRange table key.range key.displayOnly) :=
    fun message hin => (List.mem_append.1 hin).imp_right List.mem_singleton.1
  have hflight : ∀ flight ∈ (s.left.createFlight table key).1.flights, flight ∈ s.left.flights ∨
      flight = ⟨key, table, s.left.rpc.nextRequestId, none, false⟩ :=
    fun flight hin => (List.mem_append.1 hin).imp_right List.mem_singleton.1
  refine { h with
    books := h.books.createFlight hnew
    requested := fun message hin => ?_
    reads := fun id table' range displayOnly hin => ?_
    ordered := ?_
    closes := ⟨fun id table' hin => ?_, fun id dataset hin => ?_⟩
    active := fun active hin => ⟨(h.active active hin).1.trans (Nat.lt_succ_self _),
      fun flight hin' hid => ?_⟩
    responded := fun message hin => (h.responded message hin).trans (Nat.lt_succ_self _)
    underway := fun flight hin hnone => ?_
    cancelled := fun requestId hc => h.cancelled requestId (cancelled_of_createFlight hc) }
  · rcases hmem message hin with hin | rfl
    · exact ⟨(h.requested message hin).1.trans (Nat.lt_succ_self _),
        fun target htarget => ((h.requested message hin).2 target htarget).trans
          (Nat.lt_succ_self _)⟩
    · exact ⟨Nat.lt_succ_self _, fun target htarget => by cases htarget⟩
  · rcases hmem _ hin with hin | heq
    · obtain ⟨hright, hold⟩ := h.reads id table' range displayOnly hin
      refine ⟨hright, fun flight hin' hid => ?_⟩
      rcases hflight flight hin' with hin' | rfl
      · exact hold flight hin' hid
      · exact absurd (h.requested _ hin).1 (by rw [← hid]; exact lt_irrefl _)
    · obtain ⟨rfl, heq⟩ := Prod.mk.inj heq
      cases heq
      refine ⟨⟨fun hc => hopen.1 (h.closed.1 _ hc), fun hc => hopen.2 (h.closed.2 _ hc)⟩,
        fun flight hin' hid => ?_⟩
      rcases hflight flight hin' with hin' | rfl
      · exact absurd (h.books.fresh flight hin') (by rw [hid]; exact lt_irrefl _)
      · exact hdataset
  · refine List.pairwise_append.2 ⟨h.ordered, List.pairwise_singleton _ _, ?_⟩
    intro a ha b hb table' range displayOnly hread
    rw [List.mem_singleton.1 hb] at hread
    cases hread
    refine ⟨fun heq => hopen.1 (h.closes.1 a.1 table ?_),
      fun heq => hopen.2 (h.closes.2 a.1 _ ?_)⟩
    · rw [← heq]
      exact ha
    · rw [← heq]
      exact ha
  · rcases hmem _ hin with hin | heq
    · exact h.closes.1 id table' hin
    · cases heq
  · rcases hmem _ hin with hin | heq
    · exact h.closes.2 id dataset hin
    · cases heq
  · rcases hflight flight hin' with hin' | rfl
    · exact (h.active active hin).2 flight hin' hid
    · exact absurd (h.active active hin).1 (by rw [← hid]; exact lt_irrefl _)
  · rcases hflight flight hin with hin | rfl
    · exact (h.underway flight hin hnone).imp_left fun ⟨table', range, displayOnly, hin⟩ =>
        ⟨table', range, displayOnly, List.mem_append_left _ hin⟩
    · exact .inl ⟨_, _, _, List.mem_append_right _ (List.mem_singleton_self _)⟩

/-- A flight that has ended settles. -/
theorem settleFlight (h : Accounted T s)
    (hended : ∀ flight ∈ s.left.flights, flight.requestId = requestId → flight.outcome ≠ none) :
    Accounted T { s with
      left := { s.left.unmap requestId with
        flights := s.left.flights.map fun flight =>
          if flight.requestId = requestId then { flight with settled := true } else flight } } := by
  refine h.mapFlights (h.books.settleFlight hended) rfl (fun flight => ?_) (fun flight => ?_)
    (fun flight => .inl ?_)
  all_goals split_ifs <;> rfl

/-- A response is taken when its flight has ended. -/
theorem takeResponse (h : Accounted T s) {message : ℕ × Response} {rest : List (ℕ × Response)}
    (hto : s.toLeft = message :: rest)
    (hended : ∀ flight ∈ s.left.flights, flight.requestId = message.1 → flight.outcome ≠ none) :
    Accounted T { s with toLeft := rest } := by
  have hrest : ∀ message' ∈ rest, message' ∈ s.toLeft := fun message' hin => by
    rw [hto]
    exact List.mem_cons_of_mem _ hin
  refine { h with
    responded := fun message' hin => h.responded message' (hrest message' hin)
    underway := fun flight hin hnone => ?_
    cancelled := fun requestId hc => h.cancelled requestId ?_ }
  · rcases h.underway flight hin hnone with hright | hactive | ⟨response, hin'⟩
    · exact .inl hright
    · exact .inr (.inl hactive)
    · rw [hto] at hin'
      rcases List.mem_cons.1 hin' with heq | hin'
      · -- Its own response is the one taken: it has ended.
        exact absurd hnone (hended flight hin (congrArg Prod.fst heq))
      · exact .inr (.inr ⟨response, hin'⟩)
  · exact hc.imp_left fun hcut => hcut.imp_right fun hcut => hcut.imp_left
      fun ⟨failure, hne, hin⟩ => ⟨failure, hne, hrest _ hin⟩

/-- The main thread takes a response. -/
theorem handleMessage (h : Accounted T s) {message : ℕ × Response} {rest : List (ℕ × Response)}
    (hto : s.toLeft = message :: rest) :
    Accounted T ({ s with toLeft := rest }.leftTo (s.left.handleMessage message)) := by
  obtain ⟨requestId, response⟩ := message
  have hhead : (requestId, response) ∈ s.toLeft := by rw [hto]; exact List.mem_cons_self
  have hend : ∀ outcome, (∀ failure, failure ≠ .failed → outcome = .failure failure →
      response = .read (.failure failure)) →
        Accounted T { s with toLeft := rest, left := s.left.endFlight requestId outcome } := by
    intro outcome houtcome
    have hended := h.endFlight fun failure hne heq =>
      h.cancelled requestId (.inl (.inr (.inl ⟨failure, hne, houtcome failure hne heq ▸ hhead⟩)))
    exact hended.takeResponse hto fun _ hin => Host.outcome_of_endFlight hin
  unfold Host.handleMessage
  dsimp only
  cases hget : s.left.rpc.get? requestId with
  | none =>
    dsimp only
    rw [Link.leftTo_nil]
    refine h.takeResponse hto fun flight hin hid hnone => ?_
    obtain rfl : flight.requestId = requestId := hid
    exact WorkerRpcClient.get?_eq_none.1 hget () ((h.books.pending flight hin).1 hnone)
  | some _ =>
    dsimp only
    cases response with
    | read outcome =>
      dsimp only
      rw [Link.leftTo_nil]
      exact hend outcome fun failure _ heq => by rw [heq]
    | acknowledged =>
      dsimp only
      rw [Link.leftTo_nil]
      refine hend (.failure .failed) fun failure hne heq => ?_
      cases heq
      exact absurd rfl hne

/-- A call is added that has a result. -/
theorem addSettled (h : Accounted T s) {aborted : Bool}
    (hgone : ∀ failure, failure ≠ .failed → outcome = .failure failure →
      aborted = true ∨ ¬s.left.IsOpen T table) :
    Accounted T { s with left := s.left.addCall table aborted (.settled outcome) } := by
  refine h.changeCall (fun _ hin => (List.mem_append.1 hin).imp_right List.mem_singleton.1)
    (fun _ hstate => by cases hstate) (fun failure hne hstate => ?_)
  cases hstate
  exact hgone failure hne rfl

/-- A call joins a flight that was not cancelled. -/
theorem addWaiting (h : Accounted T s) {table requestId : ℕ} {aborted : Bool}
    (hflight : ∃ flight ∈ s.left.flights, flight.requestId = requestId ∧
      flight.key.dataset = T.dataset table) (hcancel : ¬Cancelled s requestId) :
    Accounted T { s with left := s.left.addCall table aborted (.waiting requestId) } := by
  refine h.changeCall (fun _ hin => (List.mem_append.1 hin).imp_right List.mem_singleton.1)
    (fun requestId' hstate => ?_) (fun _ _ hstate => by cases hstate)
  cases hstate
  exact ⟨hflight, hcancel⟩

/-- A call gets its result. -/
theorem setResult (h : Accounted T s) (call : Call) (index : ℕ)
    (hgone : ∀ failure, failure ≠ .failed → outcome = .failure failure → call.Gone T s.left) :
    Accounted T { s with
      left := { s.left with
        calls := s.left.calls.set index ⟨call.table, call.aborted, .settled outcome⟩ } } := by
  refine h.changeCall (fun _ hin => List.mem_or_eq_of_mem_set hin)
    (fun _ hstate => by cases hstate) (fun failure hne hstate => ?_)
  cases hstate
  exact hgone failure hne rfl

/-- Only a call that has left is turned away. -/
theorem gone_of_result (h : Accounted T s) {call : Call} {forAbort : Bool}
    {failure : Failure} (hin : call ∈ s.left.calls) (hstate : call.state = .waiting requestId)
    (hne : failure ≠ .failed)
    (hresult : s.left.result T call requestId forAbort = some (.failure failure)) :
    call.Gone T s.left := by
  unfold Host.result at hresult
  split_ifs at hresult with hfor haborted
  · exact .inl haborted
  · split at hresult
    case h_1 id outcome hfind =>
      have hflight := List.mem_of_find?_eq_some hfind
      have hid : id = requestId := by simpa using List.find?_some hfind
      split_ifs at hresult with hclosed
      · exact .inr hclosed.2
      · cases hresult
        exact h.cancelled requestId
          (.inl (.inr (.inr ⟨_, hflight, hid, failure, hne, rfl⟩))) call hin hstate
    case h_2 => cases hresult

/-- A caller reads, and joins no flight that was cancelled. -/
theorem readRange (h : Accounted T s) {aborted cached : Bool} (hkey : key.dataset = T.dataset table)
    (hjoined : s.left.IsOpen T table → aborted = false → cached = false →
      ∀ entry ∈ s.left.singleflight, entry.1 = key → ¬Cancelled s entry.2) :
    Accounted T (s.leftTo (s.left.readRange T table key aborted cached)) := by
  unfold Host.readRange
  split_ifs with hopen haborted hcached
  · rw [Link.leftTo_nil]
    exact h.addSettled fun _ _ _ => .inl haborted
  · rw [Link.leftTo_nil]
    exact h.addSettled fun _ _ heq => by cases heq
  · split
    case h_1 entry hfind =>
      have hin := List.mem_of_find?_eq_some hfind
      have hentry : entry.1 = key := by simpa using List.find?_some hfind
      rw [Link.leftTo_nil]
      refine h.addWaiting ?_ (hjoined hopen (by simpa using haborted) (by simpa using hcached)
        entry hin hentry)
      obtain ⟨flight, hflight, hid, hkey'⟩ := h.books.mapped entry hin
      exact ⟨flight, hflight, hid, by rw [hkey', hentry, hkey]⟩
    case h_2 hnone =>
      have hnew : ∀ entry ∈ s.left.singleflight, entry.1 ≠ key := fun entry hin => by
        simpa using List.find?_eq_none.1 hnone entry hin
      refine (h.createFlight hopen hkey hnew).addWaiting
        ⟨_, List.mem_append_right _ (List.mem_singleton_self _), rfl, hkey⟩ fun hc => ?_
      exact lt_irrefl _ (h.lt_of_cancelled (cancelled_of_createFlight hc))
  · rw [Link.leftTo_nil]
    exact h.addSettled fun _ _ _ => .inr hopen

/-- The signal of a call is aborted: it waits for what it waited for. -/
theorem abort (h : Accounted T s) (index : ℕ) :
    Accounted T { s with
      left := { s.left with
        calls := s.left.calls.modify index fun call => { call with aborted := true } } } := by
  have hmem : ∀ call ∈ s.left.calls.modify index fun call => { call with aborted := true },
      ∃ old ∈ s.left.calls, call.table = old.table ∧ call.state = old.state ∧
        (old.aborted = true → call.aborted = true) := by
    intro call hin
    obtain ⟨i, hi, rfl⟩ := List.getElem_of_mem hin
    rw [List.length_modify] at hi
    rw [List.getElem_modify]
    refine ⟨s.left.calls[i], List.getElem_mem hi, ?_⟩
    split_ifs
    · exact ⟨rfl, rfl, fun _ => rfl⟩
    · exact ⟨rfl, rfl, id⟩
  refine h.setCalls (fun _ hin => hin) (fun _ hin => hin) (fun call hin requestId hstate => ?_)
    (fun call hin failure hne hstate => ?_)
  · obtain ⟨old, hold, htable, hstate', haborted⟩ := hmem call hin
    rw [hstate'] at hstate
    rw [htable]
    refine ⟨h.books.waiting old hold requestId hstate, fun hc => ?_⟩
    exact (h.cancelled requestId hc old hold hstate).imp haborted fun hg => htable ▸ hg
  · obtain ⟨old, hold, htable, hstate', haborted⟩ := hmem call hin
    rw [hstate'] at hstate
    exact (h.rejected old hold failure hne hstate).imp haborted fun hg => htable ▸ hg

/-- A dataset closes: everyone has left whose flight is aborted with it. -/
theorem closeSession (h : Accounted T s) (dataset : ℕ) :
    Accounted T (s.leftTo (s.left.act T (.closeSession dataset))) := by
  unfold Host.act
  dsimp only
  split_ifs with hclosed
  · rw [Link.leftTo_nil]
    exact h
  have hmore : Accounted T
      { s with left := { s.left with closedDatasets := dataset :: s.left.closedDatasets } } :=
    h.close (fun _ hin => hin) fun _ hin => List.mem_cons_of_mem _ hin
  have hgone : ∀ requestId ∈ (s.left.singleflight.filter fun entry =>
      entry.1.dataset = dataset).map Prod.snd,
      { s.left with closedDatasets := dataset :: s.left.closedDatasets }.AllGone T requestId := by
    intro requestId hin call hcall hstate
    obtain ⟨entry, hentry, rfl⟩ := List.mem_map.1 hin
    obtain ⟨hentry, hdataset⟩ := List.mem_filter.1 hentry
    obtain ⟨flight, hflight, hid, hkey⟩ := h.books.mapped entry hentry
    obtain ⟨flight', hflight', hid', hdataset'⟩ := h.books.waiting call hcall _ hstate
    have hsame := h.books.eq_of_requestId hflight hflight' (hid.trans hid'.symm)
    refine .inr fun hopen => hopen.2 ?_
    rw [← hdataset', ← hsame, hkey, of_decide_eq_true hdataset]
    exact List.mem_cons_self
  obtain ⟨haborted, -, -, hdatasets⟩ := hmore.abortFlights hgone
  have hread : ∀ table range displayOnly,
      Request.closeSource dataset ≠ .readRange table range displayOnly := by simp
  have hsent := haborted.send hread ⟨by simp, fun dataset' heq => by
    cases heq
    exact hdatasets ▸ List.mem_cons_self⟩ (by simp)
  simpa only [Link.leftTo, List.append_assoc] using hsent

/-- A call goes on, and the last one aborts the flight it leaves. -/
theorem resume (h : Accounted T s) (index : ℕ) (forAbort : Bool) :
    Accounted T (s.leftTo (s.left.resume T index forAbort)) := by
  unfold Host.resume
  split
  case h_2 =>
    rw [Link.leftTo_nil]
    exact h
  case h_1 table aborted requestId hget =>
    split
    · rw [Link.leftTo_nil]
      exact h
    · rename_i outcome hresult
      have hcall : (⟨table, aborted, .waiting requestId⟩ : Call) ∈ s.left.calls :=
        List.mem_of_getElem? hget
      have hgone : ∀ failure, failure ≠ .failed → outcome = .failure failure →
          Call.Gone T s.left ⟨table, aborted, .waiting requestId⟩ := by
        rintro failure hne rfl
        exact h.gone_of_result hcall rfl hne hresult
      have hset := h.setResult _ index hgone
      dsimp only
      split_ifs with hlast
      · refine hset.abortFlight fun call hin hstate => ?_
        have hall := List.all_eq_true.1 (Bool.and_eq_true_iff.1 hlast).2 call hin
        exact absurd hstate (of_decide_eq_true hall)
      · rw [Link.leftTo_nil]
        exact hset

/-- A caller acts, and cuts nobody off. -/
theorem act (h : Accounted T s) (act : Host.Act) (hspared : Spared T s (.left act)) :
    Accounted T (s.leftTo (s.left.act T act)) := by
  cases act with
  | readRange table revision schemaVersion range displayOnly aborted cached =>
    refine h.readRange rfl fun hopen haborted hcached => ?_
    subst haborted hcached
    exact hspared hopen
  | abort index =>
    unfold Host.act
    dsimp only
    rw [Link.leftTo_nil]
    exact h.abort index
  | closeTable table =>
    unfold Host.act
    dsimp only
    split_ifs with hopen
    · have hclosed : Accounted T
          { s with left := { s.left with closedTables := table :: s.left.closedTables } } :=
        h.close (fun _ hin => List.mem_cons_of_mem _ hin) fun _ hin => hin
      exact hclosed.send (by simp) (by simp) (by simp)
    · rw [Link.leftTo_nil]
      exact h
  | closeSession dataset => exact h.closeSession dataset
  | settleFlight requestId =>
    unfold Host.act
    dsimp only
    split_ifs with hended
    · rw [Link.leftTo_nil]
      refine h.settleFlight fun flight hin hid hnone => ?_
      obtain ⟨flight', hin', heq⟩ := List.any_eq_true.1 hended
      have hflight' : flight'.requestId = requestId ∧ flight'.outcome.isSome = true := by
        simpa using heq
      rw [h.books.eq_of_requestId hin hin' (hid.trans hflight'.1.symm)] at hnone
      rw [hnone] at hflight'
      cases hflight'.2
    · rw [Link.leftTo_nil]
      exact h
  | resume index forAbort => exact h.resume index forAbort

/-- What the Worker does on a request, or on none, when the requests `rest` are left. -/
structure Served (T : Tables) (s : State) (asked : Option (ℕ × Request))
    (rest : List (ℕ × Request)) (next : Worker × List (ℕ × Response)) : Prop where
  closed : (∀ table ∈ next.1.closedTables, table ∈ s.left.closedTables) ∧
    ∀ dataset ∈ next.1.closedDatasets, dataset ∈ s.left.closedDatasets
  opens : ∀ id table range displayOnly, (id, .readRange table range displayOnly) ∈ rest →
    s.right.IsOpen T table → next.1.IsOpen T table
  active : ∀ active ∈ next.1.active,
    (∃ old ∈ s.right.active, old.requestId = active.requestId ∧ old.table = active.table) ∨
      ∃ range displayOnly,
        asked = some (active.requestId, .readRange active.table range displayOnly)
  responses : ∀ message ∈ next.2, (∃ request, asked = some (message.1, request)) ∨
    ∃ old ∈ s.right.active, old.requestId = message.1
  kept : ∀ old ∈ s.right.active, (∃ active ∈ next.1.active, active.requestId = old.requestId) ∨
    ∃ response, (old.requestId, response) ∈ next.2
  taken : ∀ id table range displayOnly, asked = some (id, .readRange table range displayOnly) →
    (∃ active ∈ next.1.active, active.requestId = id) ∨ ∃ response, (id, response) ∈ next.2
  cancelled : ∀ requestId,
    (∃ active ∈ next.1.active, active.requestId = requestId ∧ active.cancelled = true) ∨
      (∃ failure, failure ≠ .failed ∧ (requestId, .read (.failure failure)) ∈ next.2) →
        s.left.AllGone T requestId

variable {rest : List (ℕ × Request)}

/-- The Worker takes a step. -/
theorem rightTo (h : Accounted T s) {asked : Option (ℕ × Request)}
    {next : Worker × List (ℕ × Response)} (hto : s.toRight = asked.toList ++ rest)
    (hserved : Served T s asked rest next) :
    Accounted T ({ s with toRight := rest }.rightTo next) := by
  have hrest : ∀ message ∈ rest, message ∈ s.toRight := fun message hin => by
    rw [hto]
    exact List.mem_append_right _ hin
  have hasked : ∀ message, asked = some message → message ∈ s.toRight := by
    rintro message rfl
    rw [hto]
    exact List.mem_cons_self
  refine { h with
    requested := fun message hin => h.requested message (hrest message hin)
    reads := fun id table range displayOnly hin =>
      ⟨hserved.opens id table range displayOnly hin (h.reads _ _ _ _ (hrest _ hin)).1,
        (h.reads _ _ _ _ (hrest _ hin)).2⟩
    ordered := (List.pairwise_append.1 (hto ▸ h.ordered)).2.1
    closes := ⟨fun id table hin => h.closes.1 id table (hrest _ hin),
      fun id dataset hin => h.closes.2 id dataset (hrest _ hin)⟩
    closed := hserved.closed
    active := fun active hin => ?_
    responded := fun message hin => ?_
    underway := fun flight hin hnone => ?_
    cancelled := fun requestId hc => ?_ }
  · rcases hserved.active active hin with ⟨old, hold, hid, htable⟩ | ⟨range, displayOnly, hread⟩
    · rw [← hid, ← htable]
      exact h.active old hold
    · exact ⟨(h.requested _ (hasked _ hread)).1, (h.reads _ _ _ _ (hasked _ hread)).2⟩
  · rcases List.mem_append.1 hin with hin | hin
    · exact h.responded message hin
    · rcases hserved.responses message hin with ⟨request, hrequest⟩ | ⟨old, hold, hid⟩
      · exact (h.requested _ (hasked _ hrequest)).1
      · rw [← hid]
        exact (h.active old hold).1
  · have hanswered : (∃ active ∈ next.1.active, active.requestId = flight.requestId) ∨
        (∃ response, (flight.requestId, response) ∈ next.2) →
        (∃ active ∈ next.1.active, active.requestId = flight.requestId) ∨
          ∃ response, (flight.requestId, response) ∈ s.toLeft ++ next.2 := fun hor =>
      hor.imp_right fun ⟨response, hin⟩ => ⟨response, List.mem_append_right _ hin⟩
    rcases h.underway flight hin hnone with ⟨table, range, displayOnly, hin'⟩ | ⟨old, hold, hid⟩ |
      ⟨response, hin'⟩
    · rw [hto] at hin'
      rcases List.mem_append.1 hin' with hin' | hin'
      · exact .inr (hanswered (hserved.taken _ _ _ _ (Option.mem_toList.1 hin')))
      · exact .inl ⟨table, range, displayOnly, hin'⟩
    · rw [← hid] at hanswered ⊢
      exact .inr (hanswered (hserved.kept old hold))
    · exact .inr (.inr ⟨response, List.mem_append_left _ hin'⟩)
  · rcases hc with (hactive | ⟨failure, hne, hin⟩ | hflight) | ⟨id, hin⟩
    · exact hserved.cancelled requestId (.inl hactive)
    · rcases List.mem_append.1 hin with hin | hin
      · exact h.cancelled requestId (.inl (.inr (.inl ⟨failure, hne, hin⟩)))
      · exact hserved.cancelled requestId (.inr ⟨failure, hne, hin⟩)
    · exact h.cancelled requestId (.inl (.inr (.inr hflight)))
    · exact h.cancelled requestId (.inr ⟨id, hrest _ hin⟩)

/-- Active requests whose callers have all left are cancelled, and perhaps something is closed. -/
theorem served_cancelWhere (h : Accounted T s) {id : ℕ} {w : Worker} {which : ActiveRequest → Bool}
    (hactive : w.active = s.right.active)
    (hrequest : ∀ table range displayOnly, request ≠ .readRange table range displayOnly)
    (hclosed : (∀ table ∈ w.closedTables, table ∈ s.left.closedTables) ∧
      ∀ dataset ∈ w.closedDatasets, dataset ∈ s.left.closedDatasets)
    (hopens : ∀ id table range displayOnly, (id, .readRange table range displayOnly) ∈ rest →
      s.right.IsOpen T table → w.IsOpen T table)
    (hgone : ∀ active ∈ s.right.active, which active = true →
      s.left.AllGone T active.requestId) :
    Served T s (some (id, request)) rest (w.cancelWhere which, [(id, .acknowledged)]) where
  closed := hclosed
  opens := hopens
  active := by
    intro active hin
    obtain ⟨old, hold, rfl⟩ := List.mem_map.1 hin
    refine .inl ⟨old, hactive ▸ hold, ?_, ?_⟩ <;> split_ifs <;> rfl
  responses := by
    intro message hin
    rw [List.mem_singleton.1 hin]
    exact .inl ⟨request, rfl⟩
  kept := by
    intro old hold
    refine .inl ⟨_, List.mem_map_of_mem (hactive ▸ hold), ?_⟩
    split_ifs <;> rfl
  taken := by
    intro id' table range displayOnly heq
    cases heq
    exact absurd rfl (hrequest table range displayOnly)
  cancelled := by
    rintro requestId (⟨active, hin, hid, hcancelled⟩ | ⟨failure, -, hin⟩)
    · obtain ⟨old, hold, rfl⟩ := List.mem_map.1 hin
      rw [hactive] at hold
      by_cases hwhich : which old = true
      · rw [if_pos hwhich] at hid
        exact hid ▸ hgone old hold hwhich
      · rw [if_neg hwhich] at hid hcancelled
        exact h.cancelled requestId (.inl (.inl ⟨old, hold, hid, hcancelled⟩))
    · cases List.mem_singleton.1 hin

/-- Nothing happens but a response. -/
theorem served_answer (h : Accounted T s) {id : ℕ}
    (hrequest : ∀ table range displayOnly, request ≠ .readRange table range displayOnly) :
    Served T s (some (id, request)) rest (s.right, [(id, .acknowledged)]) where
  closed := h.closed
  opens := fun _ _ _ _ _ hopen => hopen
  active := fun active hin => .inl ⟨active, hin, rfl, rfl⟩
  responses := by
    intro message hin
    rw [List.mem_singleton.1 hin]
    exact .inl ⟨request, rfl⟩
  kept := fun old hold => .inl ⟨old, hold, rfl⟩
  taken := by
    intro id' table range displayOnly heq
    cases heq
    exact absurd rfl (hrequest table range displayOnly)
  cancelled := by
    rintro requestId (hactive | ⟨failure, -, hin⟩)
    · exact h.cancelled requestId (.inl (.inl hactive))
    · cases List.mem_singleton.1 hin

/-- A read ends. -/
theorem act_served (h : Accounted T s) (act : Worker.Act) :
    Served T s none s.toRight (s.right.act act) := by
  obtain ⟨requestId, outcome⟩ := act
  unfold Worker.act
  dsimp only
  cases hfind : s.right.active.find? fun active => active.requestId = requestId with
  | none =>
    exact ⟨h.closed, fun _ _ _ _ _ hopen => hopen, fun active hin => .inl ⟨active, hin, rfl, rfl⟩,
      by simp, fun old hold => .inl ⟨old, hold, rfl⟩, by simp, fun requestId hor => by
        simp only [List.not_mem_nil, and_false, exists_false, or_false] at hor
        exact h.cancelled requestId (.inl (.inl hor))⟩
  | some active =>
    have hin := List.mem_of_find?_eq_some hfind
    have hid : active.requestId = requestId := by simpa using List.find?_some hfind
    refine ⟨h.closed, fun _ _ _ _ _ hopen => hopen,
      fun active hin => .inl ⟨active, List.mem_of_mem_filter hin, rfl, rfl⟩, ?_, ?_, by simp, ?_⟩
    · intro message hmessage
      rw [List.mem_singleton.1 hmessage]
      exact .inr ⟨active, hin, hid⟩
    · intro old hold
      by_cases heq : old.requestId = requestId
      · exact .inr ⟨_, by rw [heq]; exact List.mem_singleton_self _⟩
      · exact .inl ⟨old, List.mem_filter.2 ⟨hold, by simpa using heq⟩, rfl⟩
    · rintro requestId' (⟨active', hin', hid', hcancelled⟩ | ⟨failure, hne, hmessage⟩)
      · exact h.cancelled requestId'
          (.inl (.inl ⟨active', List.mem_of_mem_filter hin', hid', hcancelled⟩))
      · obtain ⟨rfl, heq⟩ := Prod.mk.inj (List.mem_singleton.1 hmessage)
        by_cases hcancelled : active.cancelled = true
        · exact h.cancelled requestId' (.inl (.inl ⟨active, hin, hid, hcancelled⟩))
        · rw [if_neg hcancelled] at heq
          cases outcome with
          | batch => cases heq
          | failure _ =>
            cases heq
            exact absurd rfl hne

/-- A request is served that cuts nobody off. -/
theorem handleRequest_served (h : Accounted T s) {id : ℕ} (hto : s.toRight = (id, request) :: rest)
    (hspared : Spared T s .deliverRight) :
    Served T s (some (id, request)) rest (s.right.handleRequest T (id, request)) := by
  have hhead : (id, request) ∈ s.toRight := by rw [hto]; exact List.mem_cons_self
  have hordered := (List.pairwise_cons.1 (hto ▸ h.ordered)).1
  cases request with
  | readRange table range displayOnly =>
    obtain ⟨hopen, -⟩ := h.reads id table range displayOnly hhead
    unfold Worker.handleRequest
    dsimp only
    rw [if_pos hopen]
    refine ⟨h.closed, fun _ _ _ _ _ hopen => hopen, ?_, by simp, ?_, ?_, ?_⟩
    · intro active hin
      rcases List.mem_append.1 hin with hin | hin
      · exact .inl ⟨active, hin, rfl, rfl⟩
      · rw [List.mem_singleton.1 hin]
        exact .inr ⟨range, displayOnly, rfl⟩
    · exact fun old hold => .inl ⟨old, List.mem_append_left _ hold, rfl⟩
    · intro id' table' range' displayOnly' heq
      cases heq
      exact .inl ⟨_, List.mem_append_right _ (List.mem_singleton_self _), rfl⟩
    · rintro requestId (⟨active, hin, hid, hcancelled⟩ | ⟨failure, -, hin⟩)
      · rcases List.mem_append.1 hin with hin | hin
        · exact h.cancelled requestId (.inl (.inl ⟨active, hin, hid, hcancelled⟩))
        · rw [List.mem_singleton.1 hin] at hcancelled
          cases hcancelled
      · cases hin
  | cancel target =>
    refine h.served_cancelWhere rfl (fun _ _ _ h => by cases h) h.closed
      (fun _ _ _ _ _ hopen => hopen) fun active hin hwhich => ?_
    rw [of_decide_eq_true hwhich]
    exact h.cancelled target (.inr ⟨id, hhead⟩)
  | closeTable table =>
    have hclosed := h.closes.1 id table hhead
    unfold Worker.handleRequest
    dsimp only
    split_ifs with hopen
    · refine h.served_cancelWhere rfl (fun _ _ _ h => by cases h)
        ⟨fun table' hin => ?_, h.closed.2⟩ (fun id' table' range displayOnly hin hopen' => ?_)
        fun active hin hwhich => ?_
      · rcases List.mem_cons.1 hin with rfl | hin
        · exact hclosed
        · exact h.closed.1 table' hin
      · refine ⟨fun hmem => ?_, hopen'.2⟩
        rcases List.mem_cons.1 hmem with rfl | hmem
        · exact (hordered _ hin table' range displayOnly rfl).1 rfl
        · exact hopen'.1 hmem
      · exact hspared id table rest hto hopen active hin (of_decide_eq_true hwhich)
    · exact h.served_answer fun _ _ _ h => by cases h
  | closeSource dataset =>
    have hclosed := h.closes.2 id dataset hhead
    unfold Worker.handleRequest
    dsimp only
    split_ifs with hdone
    · exact h.served_answer fun _ _ _ h => by cases h
    · refine h.served_cancelWhere rfl (fun _ _ _ h => by cases h)
        ⟨h.closed.1, fun dataset' hin => ?_⟩ (fun id' table' range displayOnly hin hopen' => ?_)
        fun active hin hwhich call hcall hstate => ?_
      · rcases List.mem_cons.1 hin with rfl | hin
        · exact hclosed
        · exact h.closed.2 dataset' hin
      · refine ⟨hopen'.1, fun hmem => ?_⟩
        rcases List.mem_cons.1 hmem with heq | hmem
        · refine (hordered _ hin table' range displayOnly rfl).2 ?_
          rw [heq]
        · exact hopen'.2 hmem
      · -- Whoever waits for a read of the dataset holds a handle of the dataset.
        obtain ⟨flight, hflight, hid, hdataset⟩ := h.books.waiting call hcall _ hstate
        have hsame := (h.active active hin).2 flight hflight hid
        refine .inr fun hopen => hopen.2 ?_
        rw [← hdataset, hsame, of_decide_eq_true hwhich]
        exact hclosed

/-- Every spared move keeps the invariant. -/
theorem step (h : Accounted T s) (move : Move Host.Act Worker.Act) (hspared : Spared T s move) :
    Accounted T ((parties T).step s move) := by
  cases move with
  | left act => exact h.act act hspared
  | right act => exact h.rightTo (List.nil_append _).symm (h.act_served act)
  | deliverLeft =>
    unfold Parties.step
    dsimp only
    cases hto : s.toLeft with
    | nil => exact h
    | cons message rest => exact h.handleMessage hto
  | deliverRight =>
    unfold Parties.step
    dsimp only
    cases hto : s.toRight with
    | nil => exact h
    | cons message rest =>
      have hto' : s.toRight = (some message).toList ++ rest := hto
      exact h.rightTo hto' (h.handleRequest_served hto hspared)

/-- Nothing was asked. -/
theorem start : Accounted T start where
  books :=
    ⟨List.nodup_nil, by simp [Flights.start], by simp [Flights.start], by simp [Flights.start],
      by simp [Flights.start], List.nodup_nil, by simp [Flights.start], by simp [Flights.start]⟩
  requested := by simp [Flights.start]
  reads := by simp [Flights.start]
  ordered := List.Pairwise.nil
  closes := by simp [Flights.start]
  closed := by simp [Flights.start]
  active := by simp [Flights.start]
  responded := by simp [Flights.start]
  underway := by simp [Flights.start]
  cancelled := by simp [Flights.start, Host.AllGone]
  rejected := by simp [Flights.start]

/-- Everything that was asked for has an answer when nothing goes on any more. -/
theorem settled_of_idle (h : Accounted T s) (hidle : Idle s) {call : Call}
    (hin : call ∈ s.left.calls) : ∃ outcome, call.state = .settled outcome := by
  cases hstate : call.state with
  | settled outcome => exact ⟨outcome, rfl⟩
  | waiting requestId =>
    exfalso
    obtain ⟨flight, hflight, hid, -⟩ := h.books.waiting call hin requestId hstate
    have hopen := hidle.resumed call hin requestId hstate flight hflight hid
    by_cases hnone : flight.outcome = none
    · rcases h.underway flight hflight hnone with ⟨_, _, _, hin'⟩ | ⟨_, hin', -⟩ | ⟨_, hin'⟩
      · rw [hidle.quiet.1] at hin'
        cases hin'
      · rw [hidle.active] at hin'
        cases hin'
      · rw [hidle.quiet.2] at hin'
        cases hin'
    · rw [hidle.settled flight hflight hnone] at hopen
      cases hopen

end Accounted

/-! ## Runs -/

/-- The calls that have a result keep it. -/
def KeepsResults (calls calls' : List Call) : Prop :=
  ∀ (index : ℕ) (call : Call) (outcome : Outcome), calls[index]? = some call →
    call.state = .settled outcome →
      ∃ call', calls'[index]? = some call' ∧ call'.state = .settled outcome

theorem keepsResults_refl (calls : List Call) : KeepsResults calls calls :=
  fun _ call _ hget hstate => ⟨call, hget, hstate⟩

theorem keepsResults_append (calls more : List Call) : KeepsResults calls (calls ++ more) :=
  fun _ call _ hget hstate =>
    ⟨call, (List.getElem?_append_left (List.getElem?_eq_some_iff.1 hget).1).trans hget, hstate⟩

theorem calls_abortFlight (c : Host) (requestId : ℕ) :
    (c.abortFlight requestId).1.calls = c.calls := by
  unfold Host.abortFlight
  dsimp only
  split <;> rfl

theorem calls_abortFlights (c : Host) (requestIds : List ℕ) :
    (c.abortFlights requestIds).1.calls = c.calls := by
  induction requestIds generalizing c with
  | nil => rfl
  | cons requestId rest ih =>
    rw [Host.abortFlights]
    exact (ih _).trans (calls_abortFlight c requestId)

theorem keepsResults_act (c : Host) (act : Host.Act) :
    KeepsResults c.calls (c.act T act).1.calls := by
  cases act with
  | readRange table revision schemaVersion range displayOnly aborted cached =>
    unfold Host.act Host.readRange
    dsimp only
    split_ifs
    · exact keepsResults_append _ _
    · exact keepsResults_append _ _
    · split
      · exact keepsResults_append _ _
      · exact keepsResults_append _ _
    · exact keepsResults_append _ _
  | abort index =>
    intro i call outcome hget hstate
    refine ⟨if index = i then { call with aborted := true } else call, ?_, ?_⟩
    · simp only [Host.act, List.getElem?_modify, hget, Option.map_eq_map, Option.map_some]
    · split_ifs <;> exact hstate
  | closeTable table =>
    unfold Host.act
    dsimp only
    split_ifs <;> exact keepsResults_refl _
  | closeSession dataset =>
    unfold Host.act
    dsimp only
    split_ifs
    · exact keepsResults_refl _
    · dsimp only
      rw [calls_abortFlights]
      exact keepsResults_refl _
  | settleFlight requestId =>
    unfold Host.act
    dsimp only
    split_ifs <;> exact keepsResults_refl _
  | resume index forAbort =>
    have hset : ∀ {table requestId aborted} {outcome : Outcome},
        c.calls[index]? = some ⟨table, aborted, .waiting requestId⟩ →
        KeepsResults c.calls (c.calls.set index ⟨table, aborted, .settled outcome⟩) := by
      intro table requestId aborted outcome hget i call outcome' hget' hstate
      refine ⟨call, ?_, hstate⟩
      rw [List.getElem?_set]
      split_ifs with hi
      · rw [← hi, hget] at hget'
        cases hget'
        cases hstate
      · rw [← hi, hget] at hget'
        cases hget'
        cases hstate
      · exact hget'
    unfold Host.act Host.resume
    dsimp only
    split
    case h_2 => exact keepsResults_refl _
    case h_1 table aborted requestId hget =>
      split
      · exact keepsResults_refl _
      · split_ifs
        · rw [calls_abortFlight]
          exact hset hget
        · exact hset hget

/-- No move changes the result of a call. -/
theorem keepsResults_step (s : State) (move : Move Host.Act Worker.Act) :
    KeepsResults s.left.calls ((parties T).step s move).left.calls := by
  cases move with
  | left act => exact keepsResults_act s.left act
  | right act => exact keepsResults_refl _
  | deliverLeft =>
    unfold Parties.step
    dsimp only
    cases s.toLeft with
    | nil => exact keepsResults_refl _
    | cons message rest =>
      change KeepsResults s.left.calls (s.left.handleMessage message).1.calls
      unfold Host.handleMessage
      dsimp only
      split
      · exact keepsResults_refl _
      · split <;> exact keepsResults_refl _
  | deliverRight =>
    unfold Parties.step
    dsimp only
    cases s.toRight with
    | nil => exact keepsResults_refl _
    | cons message rest => exact keepsResults_refl _

/-- A spared step leaves all reads isolated. -/
theorem Accounted.isolated {s : State} (h : Accounted T s) {move : Move Host.Act Worker.Act}
    (hspared : Spared T s move) : Isolated T s ((parties T).step s move) := by
  have hnext := h.step move hspared
  exact ⟨fun _ hin _ hin' hnone hnone' hkey => hnext.books.eq_of_key hin hin' hnone hnone' hkey,
    hnext.cancelled, hnext.rejected, keepsResults_step s move,
    fun hidle _ hin => hnext.settled_of_idle hidle hin⟩

/-- A step that leaves all reads isolated was spared. -/
theorem Accounted.spared {s : State} (h : Accounted T s) {move : Move Host.Act Worker.Act}
    (hisolated : Isolated T s ((parties T).step s move)) : Spared T s move := by
  match move with
  | .left (.readRange table revision schemaVersion range displayOnly false false) =>
    intro hopen entry hin hkey hc
    set key := Host.key T table revision schemaVersion range displayOnly with hdef
    -- The call joins this flight, and its caller has not left.
    have hfind : s.left.singleflight.find? (fun entry => decide (entry.1 = key)) = some entry := by
      have hsome : (s.left.singleflight.find? fun entry => decide (entry.1 = key)).isSome = true :=
        List.find?_isSome.2 ⟨entry, hin, decide_eq_true hkey⟩
      obtain ⟨entry', hfind⟩ := Option.isSome_iff_exists.1 hsome
      have hkey' : entry'.1 = key := by simpa using List.find?_some hfind
      rw [hfind, List.inj_on_of_nodup_map h.books.keys (List.mem_of_find?_eq_some hfind) hin
        (hkey'.trans hkey.symm)]
    have hact : s.left.act T (.readRange table revision schemaVersion range displayOnly false
        false) = (s.left.addCall table false (.waiting entry.2), []) := by
      unfold Host.act Host.readRange
      dsimp only
      rw [if_neg (not_not.2 hopen), if_neg (by simp), if_neg (by simp), ← hdef, hfind]
    have hgone := hisolated.cancelled entry.2 ?_
    · have hstep : ((parties T).step s (.left (.readRange table revision schemaVersion range
          displayOnly false false))).left = s.left.addCall table false (.waiting entry.2) := by
        change (s.left.act T _).1 = _
        rw [hact]
      rw [hstep] at hgone
      rcases hgone _ (List.mem_append_right _ (List.mem_singleton_self _)) rfl with h | h
      · cases h
      · exact h hopen
    · change Cancelled (s.leftTo (s.left.act T _)) entry.2
      rw [hact, Link.leftTo_nil]
      exact hc
  | .deliverRight =>
    intro id table rest hto hopen active hin htable
    have hstep : (parties T).step s .deliverRight =
        { s with toRight := rest }.rightTo (s.right.handleRequest T (id, .closeTable table)) := by
      unfold Parties.step
      dsimp only
      rw [hto]
      rfl
    have hgone := hisolated.cancelled active.requestId
    rw [hstep] at hgone
    refine hgone (.inl (.inl ⟨{ active with cancelled := true }, ?_, rfl, rfl⟩))
    change _ ∈ (s.right.handleRequest T (id, .closeTable table)).1.active
    unfold Worker.handleRequest
    dsimp only
    rw [if_pos hopen]
    refine List.mem_map.2 ⟨active, hin, ?_⟩
    rw [if_pos (by simpa using htable)]
  | .left (.readRange _ _ _ _ _ true _) => trivial
  | .left (.readRange _ _ _ _ _ false true) => trivial
  | .left (.abort _) => trivial
  | .left (.closeTable _) => trivial
  | .left (.closeSession _) => trivial
  | .left (.settleFlight _) => trivial
  | .left (.resume _ _) => trivial
  | .right _ => trivial
  | .deliverLeft => trivial

/-- Reads are isolated from each other after every step of a run if and only if the run cuts
    nobody off. -/
theorem isolated_iff (T : Tables) (moves : List (Move Host.Act Worker.Act)) :
    Run.Along (parties T).step (fun s move => Isolated T s ((parties T).step s move)) start moves ↔
      Run.Along (parties T).step (Spared T) start moves :=
  Run.along_iff (fun _ move h hspared => h.step move hspared)
    (fun _ _ h => ⟨h.spared, h.isolated⟩) Accounted.start

/-- Two handles of one table. -/
def oneTable : Tables := ⟨fun _ => 0, fun _ => 0⟩

/-- Both read the same rows, and the first one closes before the batch is there. -/
def firstCloses : List (Move Host.Act Worker.Act) :=
  [.left (.readRange 0 0 0 ⟨0, 10, 0, 1⟩ false false false),
    .left (.readRange 1 0 0 ⟨0, 10, 0, 1⟩ false false false), .deliverRight,
    .left (.closeTable 0), .deliverRight, .right (.finish 0 .batch), .deliverLeft, .deliverLeft,
    .left (.settleFlight 0), .left (.resume 1 false)]

/-- The second caller, whose handle is open, is told that its read was cancelled. -/
theorem rejected_firstCloses :
    let s := Run.run (parties oneTable).step start firstCloses
    (⟨1, false, .settled (.failure .cancelled)⟩ : Call) ∈ s.left.calls ∧
      s.left.IsOpen oneTable 1 := by
  decide

end Tabulark.Engine.Flights
