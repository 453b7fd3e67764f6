import Mathlib
import Tabulark.Lib.InsertionMap
import Tabulark.Lib.Run

/-!
# Events for datasets that nobody knows yet

The Worker may say that a dataset has died before the open that returns it does. Such
events are kept by the handle of the dataset until a session takes them, as long as
there are not too many. `orderly_iff` says of which events the last one is kept, and
when the count stays right.
-/

namespace Tabulark.Engine

inductive RuntimeEventName
  | progress
  | metadata
  | warning
  | closed
  | runtimeError
  deriving DecidableEq, Repr

structure ProtocolEvent (π : Type) where
  event : RuntimeEventName
  payload : π
  deriving DecidableEq, Repr

def maxOrphanHandles : ℕ := 32

def maxOrphanEventsPerHandle : ℕ := 16

def maxOrphanEvents : ℕ := 256

/-- The events that are kept, and their count. -/
structure OrphanEvents (π : Type) where
  orphanEvents : InsertionMap String (List (ProtocolEvent π)) := .empty
  orphanEventCount : ℤ := 0

namespace OrphanEvents

variable {π : Type} (o : OrphanEvents π)

def deleteOrphanEvents (handle : String) : OrphanEvents π :=
  match o.orphanEvents.get? handle with
  | none => o
  | some events =>
    { orphanEvents := o.orphanEvents.delete handle
      orphanEventCount := o.orphanEventCount - events.length }

def clearOrphanEvents (_ : OrphanEvents π) : OrphanEvents π := {}

def evictOldestOrphanHandle : OrphanEvents π :=
  match o.orphanEvents.first? with
  | none => o
  | some (handle, _) => o.deleteOrphanEvents handle

def evictOldestOrphanEvent : OrphanEvents π :=
  match o.orphanEvents.first? with
  | none => { o with orphanEventCount := 0 }
  | some (handle, events) =>
    { orphanEvents :=
        if events.tail.isEmpty then o.orphanEvents.delete handle
        else o.orphanEvents.set handle events.tail
      orphanEventCount := o.orphanEventCount - 1 }

theorem size_of_get? {κ α : Type} [DecidableEq κ] {m : InsertionMap κ α} {key : κ} {value : α}
    (h : m.get? key = some value) : m.size = (m.delete key).size + 1 :=
  (m.perm_cons_delete (InsertionMap.get?_eq_some.1 h)).length_eq

/-- Less is kept after the oldest handle is evicted. -/
theorem size_evictOldestOrphanHandle (h : maxOrphanHandles ≤ o.orphanEvents.size) :
    o.evictOldestOrphanHandle.orphanEvents.size < o.orphanEvents.size := by
  unfold evictOldestOrphanHandle
  split
  · rename_i hfirst
    rw [InsertionMap.size, List.head?_eq_none_iff.1 hfirst] at h
    cases h
  · rename_i handle events hfirst
    have hget := InsertionMap.get?_eq_some.2 (List.mem_of_head? hfirst)
    rw [deleteOrphanEvents, hget]
    exact (size_of_get? hget).ge

theorem toNat_evictOldestOrphanEvent (h : maxOrphanEvents ≤ o.orphanEventCount) :
    o.evictOldestOrphanEvent.orphanEventCount.toNat < o.orphanEventCount.toNat := by
  have hpos : 0 < o.orphanEventCount := lt_of_lt_of_le (Int.natCast_pos.2 (Nat.succ_pos _)) h
  unfold evictOldestOrphanEvent
  split
  · exact (Int.lt_toNat).2 hpos
  · dsimp only
    omega

/-- Evicts handles until there is room for one. -/
def evictHandles (o : OrphanEvents π) : OrphanEvents π :=
  if _h : maxOrphanHandles ≤ o.orphanEvents.size then evictHandles o.evictOldestOrphanHandle else o
termination_by o.orphanEvents.size
decreasing_by exact o.size_evictOldestOrphanHandle ‹_›

/-- Evicts events until there is room for one. -/
def evictEvents (o : OrphanEvents π) : OrphanEvents π :=
  if _h : maxOrphanEvents ≤ o.orphanEventCount then evictEvents o.evictOldestOrphanEvent else o
termination_by o.orphanEventCount.toNat
decreasing_by exact o.toNat_evictOldestOrphanEvent ‹_›

def isTerminal (event : ProtocolEvent π) : Bool :=
  event.event = .runtimeError ∨ event.event = .closed

/-- The list for a handle, an empty one if there was none. -/
def openOrphanHandle (handle : String) : OrphanEvents π :=
  match o.orphanEvents.get? handle with
  | some _ => o
  | none =>
    let evicted := o.evictHandles
    { evicted with orphanEvents := evicted.orphanEvents.set handle [] }

/-- Makes room in the list for a handle. -/
def trimOrphanHandle (handle : String) : OrphanEvents π :=
  match o.orphanEvents.get? handle with
  | none => o
  | some events =>
    if maxOrphanEventsPerHandle ≤ events.length then
      { orphanEvents := o.orphanEvents.set handle events.tail
        orphanEventCount := o.orphanEventCount - 1 }
    else o

/-- Puts an event into the list for a handle; a list that was evicted is no longer kept. -/
def pushOrphanEvent (handle : String) (event : ProtocolEvent π) : OrphanEvents π where
  orphanEvents :=
    match o.orphanEvents.get? handle with
    | none => o.orphanEvents
    | some events => o.orphanEvents.set handle (events ++ [event])
  orphanEventCount := o.orphanEventCount + 1

def rememberOrphanEvent (handle : String) (event : ProtocolEvent π) : OrphanEvents π :=
  if isTerminal event then
    ((o.openOrphanHandle handle).trimOrphanHandle handle).evictEvents.pushOrphanEvent handle event
  else o

/-- The events that a session takes. -/
def deliverOrphanEvents (handle : String) : OrphanEvents π × List (ProtocolEvent π) :=
  match o.orphanEvents.get? handle with
  | none => (o, [])
  | some events => (o.deleteOrphanEvents handle, events)

end OrphanEvents

/-! ## Calls -/

inductive OrphanCall (π : Type)
  | remember (handle : String) (event : ProtocolEvent π)
  | deliver (handle : String)
  | delete (handle : String)
  | clear

namespace OrphanEvents

variable {π : Type}

def step (o : OrphanEvents π) : OrphanCall π → OrphanEvents π
  | .remember handle event => o.rememberOrphanEvent handle event
  | .deliver handle => (o.deliverOrphanEvents handle).1
  | .delete handle => o.deleteOrphanEvents handle
  | .clear => o.clearOrphanEvents

/-- The number of events that are kept. -/
def stored (m : InsertionMap String (List (ProtocolEvent π))) : ℕ :=
  (m.entries.map fun entry => entry.2.length).sum

/-- After a call, the count is right, there are not too many handles or events, and a terminal event
    is the last of its handle. -/
structure Orderly (call : OrphanCall π) (o : OrphanEvents π) : Prop where
  count_eq : o.orphanEventCount = stored o.orphanEvents
  handles_le : o.orphanEvents.size ≤ maxOrphanHandles
  events_le : ∀ entry ∈ o.orphanEvents.entries, entry.2.length ≤ maxOrphanEventsPerHandle
  stored_le : stored o.orphanEvents ≤ maxOrphanEvents
  last : ∀ handle event, call = .remember handle event → isTerminal event = true →
    ∃ events, o.orphanEvents.get? handle = some (events ++ [event])

/-- A call that does not evict the list that it puts an event in: that would be the oldest list,
    with one event, when there is no room for another. -/
def Keeps (o : OrphanEvents π) (call : OrphanCall π) : Prop :=
  ∀ handle event, call = .remember handle event → isTerminal event = true →
    maxOrphanEvents ≤ o.orphanEventCount → ∀ only, o.orphanEvents.first? ≠ some (handle, [only])

/-! ## Counting -/

variable {m : InsertionMap String (List (ProtocolEvent π))} {handle : String}
  {events : List (ProtocolEvent π)}

theorem stored_of_get? (h : m.get? handle = some events) :
    stored m = events.length + stored (m.delete handle) :=
  ((m.perm_cons_delete (InsertionMap.get?_eq_some.1 h)).map _).sum_eq

theorem stored_set (m : InsertionMap String (List (ProtocolEvent π))) (handle : String)
    (events : List (ProtocolEvent π)) :
    stored (m.set handle events) = events.length + stored (m.delete handle) :=
  (InsertionMap.set_perm.map _).sum_eq

theorem size_set (m : InsertionMap String (List (ProtocolEvent π))) (handle : String)
    (events : List (ProtocolEvent π)) : (m.set handle events).size = (m.delete handle).size + 1 :=
  InsertionMap.set_perm.length_eq

theorem get?_delete_of_ne (m : InsertionMap String (List (ProtocolEvent π))) {handle other : String}
    (hne : handle ≠ other) : (m.delete other).get? handle = m.get? handle := by
  ext events
  rw [InsertionMap.get?_eq_some, InsertionMap.get?_eq_some, InsertionMap.mem_delete]
  exact and_iff_left hne

/-! ## What holds between calls, and within one -/

/-- The count is right, and every list that is kept has an event, but for the one for a handle that
    an event is put into. -/
structure Filed (o : OrphanEvents π) (handle : String) (events : List (ProtocolEvent π)) :
    Prop where
  get?_eq : o.orphanEvents.get? handle = some events
  count_eq : o.orphanEventCount = stored o.orphanEvents
  handles_le : o.orphanEvents.size ≤ maxOrphanHandles
  events_le : ∀ entry ∈ o.orphanEvents.entries, entry.1 ≠ handle →
    0 < entry.2.length ∧ entry.2.length ≤ maxOrphanEventsPerHandle
  stored_le : stored o.orphanEvents ≤ maxOrphanEvents

/-- The count is right, every list that is kept has an event, and there are not too many. -/
structure Tidy (o : OrphanEvents π) : Prop where
  count_eq : o.orphanEventCount = stored o.orphanEvents
  handles_le : o.orphanEvents.size ≤ maxOrphanHandles
  events_le : ∀ entry ∈ o.orphanEvents.entries,
    0 < entry.2.length ∧ entry.2.length ≤ maxOrphanEventsPerHandle
  stored_le : stored o.orphanEvents ≤ maxOrphanEvents

variable {o : OrphanEvents π}

theorem tidy_start : Tidy ({} : OrphanEvents π) where
  count_eq := rfl
  handles_le := Nat.zero_le _
  events_le := fun _ hmem => absurd hmem List.not_mem_nil
  stored_le := Nat.zero_le _

theorem Tidy.deleteOrphanEvents (h : o.Tidy) (handle : String) :
    (o.deleteOrphanEvents handle).Tidy := by
  unfold OrphanEvents.deleteOrphanEvents
  split
  · exact h
  · rename_i events hget
    have hstored := stored_of_get? hget
    refine ⟨?_, ?_, fun entry hmem => h.events_le entry (InsertionMap.mem_delete.1 hmem).1, ?_⟩
    · rw [h.count_eq, hstored, Nat.cast_add, add_sub_cancel_left]
    · have hsize := size_of_get? hget
      exact (Nat.le_of_lt (hsize ▸ Nat.lt_succ_self _)).trans h.handles_le
    · exact (hstored ▸ Nat.le_add_left _ _).trans h.stored_le

theorem Tidy.filed (h : o.Tidy) (hget : o.orphanEvents.get? handle = some events) :
    o.Filed handle events :=
  ⟨hget, h.count_eq, h.handles_le, fun entry hmem _ => h.events_le entry hmem, h.stored_le⟩

/-- Another list for the handle. -/
theorem Filed.set (h : o.Filed handle events) (events' : List (ProtocolEvent π)) (count : ℤ)
    (hcount : count = o.orphanEventCount - events.length + events'.length)
    (hle : count ≤ maxOrphanEvents) :
    ({ orphanEvents := o.orphanEvents.set handle events', orphanEventCount := count } :
      OrphanEvents π).Filed handle events' := by
  have hstored := stored_of_get? h.get?_eq
  have hcount' : count = stored (o.orphanEvents.set handle events') := by
    rw [hcount, h.count_eq, hstored, stored_set]
    omega
  refine ⟨InsertionMap.get?_set_self, hcount', ?_, fun entry hmem hne => ?_, ?_⟩
  · rw [size_set, ← size_of_get? h.get?_eq]
    exact h.handles_le
  · obtain rfl | ⟨hold, -⟩ := InsertionMap.mem_set.1 hmem
    · exact absurd rfl hne
    · exact h.events_le entry hold hne
  · rw [hcount'] at hle
    exact_mod_cast hle

/-- The list for another handle loses an event. -/
theorem Filed.evict (h : o.Filed handle events) {other : String}
    {evicted : List (ProtocolEvent π)} (hfirst : o.orphanEvents.first? = some (other, evicted))
    (hne : handle ≠ other) : o.evictOldestOrphanEvent.Filed handle events := by
  have hget := InsertionMap.get?_eq_some.2 (List.mem_of_head? hfirst)
  have hstored := stored_of_get? hget
  have hle : 0 < evicted.length ∧ evicted.length ≤ maxOrphanEventsPerHandle :=
    h.events_le _ (List.mem_of_head? hfirst) hne.symm
  have hcount := h.count_eq
  have hhandles := h.handles_le
  have htotal := h.stored_le
  have hsize := size_of_get? hget
  have hlength := List.length_tail (l := evicted)
  unfold evictOldestOrphanEvent
  rw [hfirst]
  dsimp only
  split
  · rename_i hempty
    rw [List.isEmpty_iff_length_eq_zero, hlength] at hempty
    refine ⟨(get?_delete_of_ne _ hne).trans h.get?_eq, ?_, ?_, fun entry hmem =>
      h.events_le entry (InsertionMap.mem_delete.1 hmem).1, ?_⟩ <;> dsimp only <;> omega
  · rename_i hempty
    rw [Bool.not_eq_true, List.isEmpty_eq_false_iff, ← List.length_pos_iff, hlength] at hempty
    have hset := stored_set o.orphanEvents other evicted.tail
    have hsize' := size_set o.orphanEvents other evicted.tail
    refine ⟨?_, ?_, ?_, fun entry hmem hneq => ?_, ?_⟩
    · rw [InsertionMap.get?_set, if_neg hne]
      exact h.get?_eq
    · dsimp only
      omega
    · dsimp only
      omega
    · obtain rfl | ⟨hold, -⟩ := InsertionMap.mem_set.1 hmem
      · dsimp only
        omega
      · exact h.events_le entry hold hneq
    · dsimp only
      omega

/-- An event goes to the end of the list for its handle. -/
theorem Filed.push (h : o.Filed handle events) (hevents : events.length < maxOrphanEventsPerHandle)
    (hcount : o.orphanEventCount < maxOrphanEvents) (event : ProtocolEvent π) :
    (o.pushOrphanEvent handle event).Tidy ∧
      (o.pushOrphanEvent handle event).orphanEvents.get? handle = some (events ++ [event]) := by
  have hlength : o.orphanEventCount + 1 =
      o.orphanEventCount - events.length + (events ++ [event]).length := by
    rw [List.length_append, List.length_singleton]
    omega
  have hset := h.set (events ++ [event]) _ hlength hcount
  rw [pushOrphanEvent, h.get?_eq]
  refine ⟨⟨hset.count_eq, hset.handles_le, fun entry hmem => ?_, hset.stored_le⟩, hset.get?_eq⟩
  by_cases hkey : entry.1 = handle
  · have hget : (o.orphanEvents.set handle (events ++ [event])).get? handle = some entry.2 :=
      InsertionMap.get?_eq_some.2 (hkey ▸ hmem)
    have hlist : events ++ [event] = entry.2 := Option.some_inj.1 (hset.get?_eq.symm.trans hget)
    rw [← hlist, List.length_append]
    exact ⟨Nat.succ_pos _, hevents⟩
  · exact hset.events_le entry hmem hkey

/-! ## Making room -/

theorem evictEvents_of_lt (h : o.orphanEventCount < maxOrphanEvents) : o.evictEvents = o := by
  rw [evictEvents, dif_neg (not_le.2 h)]

/-- One event is evicted if there are as many as there may be. -/
theorem evictEvents_of_full (h : o.orphanEventCount = maxOrphanEvents)
    (hfirst : o.orphanEvents.first?.isSome) : o.evictEvents = o.evictOldestOrphanEvent := by
  rw [evictEvents, dif_pos h.ge]
  refine evictEvents_of_lt ?_
  obtain ⟨⟨handle, events⟩, hsome⟩ := Option.isSome_iff_exists.1 hfirst
  rw [evictOldestOrphanEvent, hsome]
  exact h ▸ sub_one_lt _

/-- There is room for an event, and the list for its handle is still there, if that is not the
    oldest one with one event or less. -/
theorem Filed.evictEvents (h : o.Filed handle events)
    (hlength : events.length < maxOrphanEventsPerHandle)
    (hfirst : maxOrphanEvents ≤ o.orphanEventCount → ∀ oldest,
      o.orphanEvents.first? = some (handle, oldest) → 2 ≤ oldest.length) :
    ∃ kept, o.evictEvents.Filed handle kept ∧ kept.length < maxOrphanEventsPerHandle ∧
      o.evictEvents.orphanEventCount < maxOrphanEvents := by
  by_cases hroom : o.orphanEventCount < maxOrphanEvents
  · rw [evictEvents_of_lt hroom]
    exact ⟨events, h, hlength, hroom⟩
  have hle : o.orphanEventCount ≤ maxOrphanEvents := by
    rw [h.count_eq]
    exact_mod_cast h.stored_le
  have hfull := le_antisymm hle (not_lt.1 hroom)
  cases holdest : o.orphanEvents.first? with
  | none =>
    have hget := h.get?_eq
    rw [InsertionMap.get?, List.head?_eq_none_iff.1 holdest] at hget
    cases hget
  | some oldest =>
    obtain ⟨other, evicted⟩ := oldest
    rw [evictEvents_of_full hfull (holdest ▸ rfl)]
    have hcount : o.evictOldestOrphanEvent.orphanEventCount = o.orphanEventCount - 1 := by
      rw [evictOldestOrphanEvent, holdest]
    have hlt : o.evictOldestOrphanEvent.orphanEventCount < maxOrphanEvents := by
      rw [hcount, hfull]
      exact sub_one_lt _
    by_cases hsame : handle = other
    · subst hsame
      have htwo := hfirst hfull.ge evicted holdest
      have hget := InsertionMap.get?_eq_some.2 (List.mem_of_head? holdest)
      have hevicted : evicted = events := Option.some_inj.1 (hget.symm.trans h.get?_eq)
      subst hevicted
      have htail : evicted.tail.isEmpty = false := by
        rw [List.isEmpty_eq_false_iff, ← List.length_pos_iff, List.length_tail]
        omega
      have hset := h.set evicted.tail (o.orphanEventCount - 1)
        (by rw [List.length_tail]; omega) (by omega)
      refine ⟨evicted.tail, ?_, ?_, hlt⟩
      · rw [evictOldestOrphanEvent, holdest]
        dsimp only
        rw [htail]
        exact hset
      · rw [List.length_tail]
        omega
    · exact ⟨events, h.evict holdest hsame, hlength, hlt⟩

/-- There is room for a handle. -/
theorem Tidy.evictHandles (h : o.Tidy) (hget : o.orphanEvents.get? handle = none) :
    o.evictHandles.Tidy ∧ o.evictHandles.orphanEvents.size < maxOrphanHandles ∧
      o.evictHandles.orphanEvents.get? handle = none := by
  induction o using OrphanEvents.evictHandles.induct with
  | case1 o hfull ih =>
    rw [OrphanEvents.evictHandles, dif_pos hfull]
    have hnone : o.evictOldestOrphanHandle.orphanEvents.get? handle = none := by
      unfold evictOldestOrphanHandle
      split
      · exact hget
      · unfold OrphanEvents.deleteOrphanEvents
        split
        · exact hget
        · exact InsertionMap.get?_eq_none.2 fun entry hmem =>
            InsertionMap.get?_eq_none.1 hget entry (InsertionMap.mem_delete.1 hmem).1
    refine ih ?_ hnone
    unfold evictOldestOrphanHandle
    split
    · exact h
    · exact h.deleteOrphanEvents _
  | case2 o hroom =>
    rw [OrphanEvents.evictHandles, dif_neg hroom]
    exact ⟨h, not_le.1 hroom, hget⟩

/-! ## One call -/

/-- A new handle has an empty list, behind all others. -/
theorem Tidy.open_new (h : o.Tidy) (hget : o.orphanEvents.get? handle = none) :
    (o.openOrphanHandle handle).Filed handle [] ∧
      ∀ oldest, (o.openOrphanHandle handle).orphanEvents.first? = some (handle, oldest) →
        (o.openOrphanHandle handle).orphanEventCount = 0 := by
  obtain ⟨htidy, hsize, hnone⟩ := h.evictHandles hget
  have hopen : o.openOrphanHandle handle =
      { o.evictHandles with orphanEvents := o.evictHandles.orphanEvents.set handle [] } := by
    rw [openOrphanHandle, hget]
  have hdelete := InsertionMap.eq_of_entries (InsertionMap.delete_of_get?_eq_none hnone)
  have hstored : stored (o.evictHandles.orphanEvents.set handle []) =
      stored o.evictHandles.orphanEvents := by
    rw [stored_set, hdelete, List.length_nil, Nat.zero_add]
  rw [hopen]
  refine ⟨⟨InsertionMap.get?_set_self, ?_, ?_, fun entry hmem hne => ?_, ?_⟩,
    fun oldest hfirst => ?_⟩
  · exact htidy.count_eq.trans (congrArg Nat.cast hstored.symm)
  · rw [size_set, hdelete]
    exact hsize
  · obtain rfl | ⟨hold, -⟩ := InsertionMap.mem_set.1 hmem
    · exact absurd rfl hne
    · exact htidy.events_le entry hold
  · exact hstored.trans_le htidy.stored_le
  · rw [InsertionMap.first?, InsertionMap.set_of_get?_eq_none hnone] at hfirst
    refine htidy.count_eq.trans ?_
    rw [stored]
    cases hentries : o.evictHandles.orphanEvents.entries with
    | nil => rfl
    | cons entry entries =>
      rw [hentries, List.cons_append, List.head?_cons, Option.some_inj] at hfirst
      have hmem : (handle, oldest) ∈ o.evictHandles.orphanEvents.entries := by
        rw [hentries, hfirst]
        exact List.mem_cons_self
      exact absurd rfl (InsertionMap.get?_eq_none.1 hnone _ hmem)

/-- An event for a new handle is kept. -/
theorem Tidy.remember_new (h : o.Tidy) (hget : o.orphanEvents.get? handle = none) : ∃ kept,
      ((o.openOrphanHandle handle).trimOrphanHandle handle).evictEvents.Filed handle kept ∧
        kept.length < maxOrphanEventsPerHandle ∧
        ((o.openOrphanHandle handle).trimOrphanHandle handle).evictEvents.orphanEventCount <
          maxOrphanEvents := by
  obtain ⟨hfiled, hfirst⟩ := h.open_new hget
  have htrim : (o.openOrphanHandle handle).trimOrphanHandle handle = o.openOrphanHandle handle := by
    rw [trimOrphanHandle, hfiled.get?_eq]
    exact if_neg (Nat.not_le.2 (Nat.succ_pos _))
  rw [htrim]
  refine hfiled.evictEvents (Nat.succ_pos _) fun hfull oldest holdest => ?_
  rw [hfirst oldest holdest] at hfull
  exact absurd hfull (not_le.2 (Int.natCast_pos.2 (Nat.succ_pos _)))

/-- An event for a handle with a list is kept, if the list is. -/
theorem Tidy.remember_old (h : o.Tidy) (hget : o.orphanEvents.get? handle = some events)
    (event : ProtocolEvent π) (hkeeps : o.Keeps (.remember handle event))
    (hterminal : isTerminal event = true) : ∃ kept,
      (o.trimOrphanHandle handle).evictEvents.Filed handle kept ∧
        kept.length < maxOrphanEventsPerHandle ∧
        (o.trimOrphanHandle handle).evictEvents.orphanEventCount < maxOrphanEvents := by
  have hfiled := h.filed hget
  have hpos := h.events_le _ (InsertionMap.get?_eq_some.1 hget)
  rw [trimOrphanHandle, hget]
  dsimp only at hpos ⊢
  split
  · rename_i hlength
    have hcount := h.count_eq
    have hstored := h.stored_le
    have hset := hfiled.set events.tail (o.orphanEventCount - 1)
      (by rw [List.length_tail]; omega) (by omega)
    have hlt : o.orphanEventCount - 1 < maxOrphanEvents := by omega
    rw [evictEvents_of_lt hlt]
    refine ⟨events.tail, hset, ?_, hlt⟩
    rw [List.length_tail]
    omega
  · rename_i hlength
    refine hfiled.evictEvents (not_le.1 hlength) fun hfull oldest holdest => ?_
    have holdest' := InsertionMap.get?_eq_some.2 (List.mem_of_head? holdest)
    obtain rfl : oldest = events := Option.some_inj.1 (holdest'.symm.trans hget)
    match oldest, hpos.1 with
    | [only], _ => exact absurd holdest (hkeeps handle event rfl hterminal hfull only)
    | _ :: _ :: _, _ => exact Nat.le_add_left _ _

/-- A call that keeps its list keeps everything in order. -/
theorem Tidy.step (h : o.Tidy) (call : OrphanCall π) (hkeeps : o.Keeps call) :
    (o.step call).Tidy ∧ ∀ handle event, call = .remember handle event → isTerminal event = true →
      ∃ events, (o.step call).orphanEvents.get? handle = some (events ++ [event]) := by
  match call with
  | .deliver handle =>
    refine ⟨?_, fun _ _ hcall => by cases hcall⟩
    unfold OrphanEvents.step deliverOrphanEvents
    dsimp only
    split
    · exact h
    · exact h.deleteOrphanEvents handle
  | .delete handle => exact ⟨h.deleteOrphanEvents handle, fun _ _ hcall => by cases hcall⟩
  | .clear => exact ⟨tidy_start, fun _ _ hcall => by cases hcall⟩
  | .remember handle event =>
    unfold OrphanEvents.step rememberOrphanEvent
    dsimp only
    split
    · rename_i hterminal
      have hkept : ∃ kept,
          ((o.openOrphanHandle handle).trimOrphanHandle handle).evictEvents.Filed handle kept ∧
            kept.length < maxOrphanEventsPerHandle ∧
            ((o.openOrphanHandle handle).trimOrphanHandle handle).evictEvents.orphanEventCount <
              maxOrphanEvents := by
        cases hget : o.orphanEvents.get? handle with
        | none => exact h.remember_new hget
        | some events =>
          have hopen : o.openOrphanHandle handle = o := by rw [openOrphanHandle, hget]
          rw [hopen]
          exact h.remember_old hget event hkeeps hterminal
      obtain ⟨kept, hfiled, hlength, hcount⟩ := hkept
      obtain ⟨htidy, hlast⟩ := hfiled.push hlength hcount event
      refine ⟨htidy, fun handle' event' hcall _ => ?_⟩
      cases hcall
      exact ⟨kept, hlast⟩
    · rename_i hterminal
      refine ⟨h, fun handle' event' hcall hterminal' => ?_⟩
      cases hcall
      exact absurd hterminal' hterminal

/-- A list that is evicted is not there afterwards. -/
theorem Tidy.lost (h : o.Tidy) {event : ProtocolEvent π} (hterminal : isTerminal event = true)
    (hfull : maxOrphanEvents ≤ o.orphanEventCount) {only : ProtocolEvent π}
    (hfirst : o.orphanEvents.first? = some (handle, [only])) :
    (o.step (.remember handle event)).orphanEvents.get? handle = none := by
  have hget := InsertionMap.get?_eq_some.2 (List.mem_of_head? hfirst)
  have hopen : o.openOrphanHandle handle = o := by rw [openOrphanHandle, hget]
  have htrim : o.trimOrphanHandle handle = o := by
    rw [trimOrphanHandle, hget]
    exact if_neg (not_le.2 (Nat.lt_of_sub_eq_succ rfl))
  have hle : o.orphanEventCount ≤ maxOrphanEvents := by
    rw [h.count_eq]
    exact_mod_cast h.stored_le
  have hevict : o.evictEvents.orphanEvents.get? handle = none := by
    rw [evictEvents_of_full (le_antisymm hle hfull) (hfirst ▸ rfl), evictOldestOrphanEvent, hfirst]
    exact InsertionMap.get?_delete_self
  unfold OrphanEvents.step rememberOrphanEvent
  dsimp only
  rw [if_pos hterminal, hopen, htrim, pushOrphanEvent, hevict]
  exact hevict

/-- Everything is in order after a call exactly if the call keeps its list. -/
theorem Tidy.orderly_iff (h : o.Tidy) (call : OrphanCall π) :
    Orderly call (o.step call) ↔ o.Keeps call := by
  constructor
  · intro horderly handle event hcall hterminal hfull only hfirst
    subst hcall
    obtain ⟨events, hlast⟩ := horderly.last handle event rfl hterminal
    rw [h.lost hterminal hfull hfirst] at hlast
    cases hlast
  · intro hkeeps
    obtain ⟨htidy, hlast⟩ := h.step call hkeeps
    exact ⟨htidy.count_eq, htidy.handles_le, fun entry hmem => (htidy.events_le entry hmem).2,
      htidy.stored_le, hlast⟩

/-- Everything is in order after all calls of a run exactly if all calls keep their lists. -/
theorem along_orderly_iff (π : Type) (calls : List (OrphanCall π)) :
    Run.Along OrphanEvents.step (fun o call => Orderly call (o.step call)) {} calls ↔
      Run.Along OrphanEvents.step Keeps {} calls :=
  Run.along_iff (I := Tidy) (fun _ call h hkeeps => (h.step call hkeeps).1)
    (fun _ call h => h.orderly_iff call) tidy_start

/-! ### A run in which an event is lost -/

theorem entries_set_last {rest : List (String × List (ProtocolEvent π))}
    (hentries : m.entries = rest ++ [(handle, events)]) (events' : List (ProtocolEvent π)) :
    (m.set handle events').entries = rest ++ [(handle, events')] := by
  have hnodup := m.nodup
  rw [hentries, List.map_append, List.nodup_append] at hnodup
  have hmem : handle ∈ m.entries.map Prod.fst := by
    rw [hentries, List.map_append]
    exact List.mem_append_right _ List.mem_cons_self
  refine (if_pos hmem).trans ?_
  rw [hentries, List.map_append, List.map_singleton, if_pos rfl]
  congr 1
  refine (List.map_congr_left fun entry hmem => if_neg fun hkey => ?_).trans (List.map_id rest)
  exact hnodup.2.2 _ (List.mem_map_of_mem hmem) handle List.mem_cons_self hkey

/-- The lists that are kept, and the count. -/
def Keeping (o : OrphanEvents π) (entries : List (String × List (ProtocolEvent π))) : Prop :=
  o.orphanEvents.entries = entries ∧
    o.orphanEventCount = ((entries.map fun entry => entry.2.length).sum : ℕ)

variable {entries : List (String × List (ProtocolEvent π))} {event : ProtocolEvent π}

/-- An event goes into the last list. -/
theorem Keeping.remember_last (h : o.Keeping (entries ++ [(handle, events)]))
    (hterminal : isTerminal event = true) (hlength : events.length < maxOrphanEventsPerHandle)
    (hcount : o.orphanEventCount < maxOrphanEvents) :
    (o.step (.remember handle event)).Keeping (entries ++ [(handle, events ++ [event])]) := by
  have hmem : (handle, events) ∈ o.orphanEvents.entries := by
    rw [h.1]
    exact List.mem_append_right _ List.mem_cons_self
  have hget := InsertionMap.get?_eq_some.2 hmem
  have hopen : o.openOrphanHandle handle = o := by rw [openOrphanHandle, hget]
  have htrim : o.trimOrphanHandle handle = o := by
    rw [trimOrphanHandle, hget]
    exact if_neg (not_le.2 hlength)
  unfold OrphanEvents.step rememberOrphanEvent
  dsimp only
  rw [if_pos hterminal, hopen, htrim, evictEvents_of_lt hcount, pushOrphanEvent, hget]
  refine ⟨entries_set_last h.1 _, ?_⟩
  dsimp only
  rw [h.2]
  simp only [List.map_append, List.sum_append, List.map_singleton, List.sum_singleton,
    List.length_append, List.length_singleton]
  omega

/-- An event opens a new list. -/
theorem Keeping.remember_new (h : o.Keeping entries) (hterminal : isTerminal event = true)
    (hnew : handle ∉ entries.map Prod.fst) (hhandles : entries.length < maxOrphanHandles)
    (hcount : o.orphanEventCount < maxOrphanEvents) :
    (o.step (.remember handle event)).Keeping (entries ++ [(handle, [event])]) := by
  have hget : o.orphanEvents.get? handle = none :=
    InsertionMap.get?_eq_none.2 fun entry hmem hkey =>
      hnew (hkey ▸ List.mem_map_of_mem (h.1 ▸ hmem))
  have hevict : o.evictHandles = o := by
    rw [OrphanEvents.evictHandles, dif_neg]
    rw [InsertionMap.size, h.1]
    exact not_le.2 hhandles
  have hopened : (o.openOrphanHandle handle).Keeping (entries ++ [(handle, [])]) := by
    rw [openOrphanHandle, hget]
    dsimp only
    rw [hevict]
    refine ⟨(InsertionMap.set_of_get?_eq_none hget).trans (congrArg (· ++ _) h.1), ?_⟩
    rw [List.map_append, List.sum_append]
    exact h.2
  have hlast := hopened.remember_last hterminal (Nat.succ_pos _) (hopened.2 ▸ by
    rw [List.map_append, List.sum_append]
    exact h.2 ▸ hcount)
  have hsame : o.step (.remember handle event) =
      (o.openOrphanHandle handle).step (.remember handle event) := by
    have hget' := InsertionMap.get?_eq_some.2
      (hopened.1 ▸ List.mem_append_right entries (List.mem_singleton_self (handle, [])))
    have hagain : (o.openOrphanHandle handle).openOrphanHandle handle =
        o.openOrphanHandle handle := by
      conv_lhs => rw [openOrphanHandle, hget']
    unfold OrphanEvents.step rememberOrphanEvent
    dsimp only
    rw [if_pos hterminal, if_pos hterminal, hagain]
  rw [hsame]
  exact hlast

/-- A new list is filled. -/
theorem Keeping.fill (h : o.Keeping entries) (hterminal : isTerminal event = true)
    (hnew : handle ∉ entries.map Prod.fst) (hhandles : entries.length < maxOrphanHandles) (n : ℕ)
    (hn : n < maxOrphanEventsPerHandle) (hcount : o.orphanEventCount + n < maxOrphanEvents) :
    (Run.run OrphanEvents.step o (List.replicate (n + 1) (.remember handle event))).Keeping
      (entries ++ [(handle, List.replicate (n + 1) event)]) := by
  induction n with
  | zero => exact h.remember_new hterminal hnew hhandles ((add_zero _).symm.trans_lt hcount)
  | succ n ih =>
    have hkept := ih (Nat.lt_of_succ_lt hn) (by push_cast at hcount; omega)
    have hone : List.replicate (n + 1 + 1) (OrphanCall.remember handle event) =
        List.replicate (n + 1) (.remember handle event) ++ [.remember handle event] :=
      List.replicate_succ'
    rw [hone, Run.run_append, List.replicate_succ' (n := n + 1)]
    refine hkept.remember_last hterminal ?_ ?_
    · rwa [List.length_replicate]
    · rw [hkept.2, List.map_append, List.sum_append]
      have htotal := h.2
      simp only [List.map_singleton, List.sum_singleton, List.length_replicate]
      omega

/-- New lists are filled, one after the other. -/
theorem Keeping.fills (lists : List (String × ℕ)) (hterminal : isTerminal event = true)
    (h : o.Keeping entries) (hnodup : (entries.map Prod.fst ++ lists.map Prod.fst).Nodup)
    (hhandles : entries.length + lists.length ≤ maxOrphanHandles)
    (hevents : ∀ list ∈ lists, list.2 < maxOrphanEventsPerHandle)
    (hcount : o.orphanEventCount + ((lists.map fun list => list.2 + 1).sum : ℕ) ≤
      maxOrphanEvents) :
    (Run.run OrphanEvents.step o (lists.flatMap fun list =>
      List.replicate (list.2 + 1) (.remember list.1 event))).Keeping
      (entries ++ lists.map fun list => (list.1, List.replicate (list.2 + 1) event)) := by
  induction lists generalizing o entries with
  | nil =>
    rw [List.map_nil, List.append_nil]
    exact h
  | cons list lists ih =>
    obtain ⟨handle, n⟩ := list
    rw [List.map_cons, List.sum_cons] at hcount
    rw [List.length_cons] at hhandles
    have hnew : handle ∉ entries.map Prod.fst := fun hmem =>
      (List.nodup_append.1 hnodup).2.2 handle hmem handle List.mem_cons_self rfl
    have hfill := h.fill hterminal hnew (by omega) n (hevents _ List.mem_cons_self) (by omega)
    have htotal := h.2
    rw [List.flatMap_cons, Run.run_append, List.map_cons, ← List.singleton_append,
      ← List.append_assoc]
    refine ih hfill ?_ ?_ (fun list hmem => hevents list (List.mem_cons_of_mem _ hmem)) ?_
    · rw [List.map_append, List.append_assoc]
      exact hnodup
    · rw [List.length_append, List.length_singleton]
      omega
    · rw [hfill.2, List.map_append, List.sum_append]
      simp only [List.map_singleton, List.sum_singleton, List.length_replicate]
      omega

/-- Handles, and how many events each gets after its first. -/
def crowd : List (String × ℕ) :=
  ("d1", 0) :: ["d2", "d3", "d4", "d5", "d6", "d7", "d8", "d9", "d10", "d11", "d12", "d13", "d14",
    "d15", "d16"].map (·, 15) ++ [("d17", 14)]

def died : ProtocolEvent String := ⟨.runtimeError, "SOURCE_CHANGED"⟩

/-- There is one event for the oldest handle, and no room for another. -/
def crowdedCalls : List (OrphanCall String) :=
  crowd.flatMap fun list => List.replicate (list.2 + 1) (.remember list.1 died)

/-- The event of the oldest handle makes room for the next one of the same handle, which is lost. -/
theorem not_orderly : ¬Run.Along OrphanEvents.step
    (fun (o : OrphanEvents String) call => Orderly call (o.step call)) {}
    (crowdedCalls ++ [.remember "d1" died]) := by
  intro h
  have hlast := ((Run.along_append _ _ _).1 h).2.1
  have hkept : (Run.run OrphanEvents.step {} crowdedCalls).Keeping
      (crowd.map fun list => (list.1, List.replicate (list.2 + 1) died)) :=
    Keeping.fills crowd rfl ⟨rfl, rfl⟩ (by decide) (by decide) (by decide) (by decide)
  generalize Run.run OrphanEvents.step {} crowdedCalls = o at hlast hkept
  have htotal : (crowd.map fun list => list.2 + 1).sum = maxOrphanEvents := by decide
  have hstored : stored o.orphanEvents = maxOrphanEvents := by
    rw [stored, hkept.1, List.map_map, ← htotal]
    simp only [Function.comp_def, List.length_replicate]
  have hcount : o.orphanEventCount = maxOrphanEvents := by
    rw [hkept.2, ← hkept.1]
    exact congrArg Nat.cast hstored
  have htidy : o.Tidy := by
    refine ⟨?_, ?_, fun entry hmem => ?_, hstored.le⟩
    · rw [hcount, hstored]
    · rw [InsertionMap.size, hkept.1, List.length_map]
      decide
    · rw [hkept.1] at hmem
      obtain ⟨list, hlist, rfl⟩ := List.mem_map.1 hmem
      dsimp only
      rw [List.length_replicate]
      have hle : ∀ list ∈ crowd, list.2 < maxOrphanEventsPerHandle := by decide
      exact ⟨Nat.succ_pos _, hle list hlist⟩
  have hfirst : o.orphanEvents.first? = some ("d1", [died]) := by
    rw [InsertionMap.first?, hkept.1]
    rfl
  obtain ⟨events, hget⟩ := hlast.last "d1" died rfl rfl
  rw [htidy.lost rfl hcount.ge hfirst] at hget
  cases hget

end OrphanEvents

end Tabulark.Engine
