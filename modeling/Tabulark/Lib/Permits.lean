import Mathlib
import Tabulark.Lib.InsertionMap

/-!
# Permits

Requests for parts of a limited resource. A request is granted a permit, is
rejected, or waits in a queue; a permit is held until it is released. `Permits`
is what a limiter keeps, with what its requests were told. `Tidy` says that every
request was told one thing or waits, and only granted ones hold a permit: it is
kept whenever requests are told something as they leave the queue.
-/

namespace Tabulark

/-- What a request was told. -/
inductive Settlement (ε : Type)
  | granted
  | rejected (error : ε)
  deriving DecidableEq

/-- A request that waits: its number, what it asks for, and its abort signal. -/
structure Waiter where
  id : ℕ
  size : ℕ
  signal : ℕ
  deriving DecidableEq

/-- A limiter, and what has become of its requests. -/
structure Permits (ε : Type) where
  /-- The counter of the limiter. -/
  used : ℕ := 0
  closed : Bool := false
  queue : List Waiter := []
  /-- The signals that are aborted, whether or not their listeners have run. -/
  aborted : List ℕ := []
  /-- The number of requests so far. -/
  requests : ℕ := 0
  settled : List (ℕ × Settlement ε) := []
  /-- The permits that are granted and not released, with their sizes. -/
  held : InsertionMap ℕ ℕ := .empty

/-- What happens to a limiter. An aborted signal runs its listeners later, one at a time. -/
inductive PermitEvent (α : Type)
  | acquire (request : α) (signal : ℕ)
  | abort (signal : ℕ)
  | listener (id : ℕ)
  | release (id : ℕ)
  | close

namespace Permits

variable {ε : Type}

/-- Rejects a request. -/
def reject (p : Permits ε) (id : ℕ) (error : ε) : Permits ε :=
  { p with settled := (id, .rejected error) :: p.settled }

/-- Grants a request a permit. -/
def grant (p : Permits ε) (id size : ℕ) : Permits ε :=
  { p with
    used := p.used + size
    settled := (id, .granted) :: p.settled
    held := p.held.set id size }

/-- Counts a new request. -/
def arrive (p : Permits ε) : Permits ε := { p with requests := p.requests + 1 }

/-- Lets the newest request wait. -/
def wait (p : Permits ε) (size signal : ℕ) : Permits ε :=
  { p.arrive with queue := p.queue ++ [⟨p.requests, size, signal⟩] }

/-- Rejects requests one after another. -/
def rejectAll (p : Permits ε) (waiters : List Waiter) (error : ε) : Permits ε :=
  waiters.foldl (fun p w => p.reject w.id error) p

/-- An abort signal is aborted. -/
def abort (p : Permits ε) (signal : ℕ) : Permits ε := { p with aborted := signal :: p.aborted }

/-- The listener of a request that waits, on its aborted signal. -/
def onAbort (p : Permits ε) (id : ℕ) (error : ε) : Permits ε :=
  match p.queue.find? fun w => w.id = id with
  | some w =>
    if w.signal ∈ p.aborted then
      ({ p with queue := p.queue.erase w } : Permits ε).reject w.id error
    else p
  | none => p

/-- Rejects the requests that wait, once. -/
def close (p : Permits ε) (error : ε) : Permits ε :=
  if p.closed then p
  else ({ p with closed := true, queue := [] } : Permits ε).rejectAll p.queue error

/-- The bytes of the permits that are held. -/
def heldBytes (p : Permits ε) : ℕ := (p.held.entries.map Prod.snd).sum

/-! ## Settled once -/

/-- Every request was told one thing or waits, and what is held was granted. -/
structure Tidy (p : Permits ε) : Prop where
  ids : (p.settled.map Prod.fst ++ p.queue.map Waiter.id).Perm (List.range p.requests)
  granted : ∀ h ∈ p.held.entries, (h.1, Settlement.granted) ∈ p.settled

theorem tidy_empty : Tidy ({} : Permits ε) := ⟨.nil, nofun⟩

variable {p : Permits ε}

namespace Tidy

theorem settled_nodup (h : p.Tidy) : (p.settled.map Prod.fst).Nodup :=
  (List.nodup_append.1 (h.ids.nodup_iff.2 List.nodup_range)).1

/-- A request is told one thing only. -/
theorem eq_of_settled (h : p.Tidy) {id : ℕ} {s s' : Settlement ε} (hs : (id, s) ∈ p.settled)
    (hs' : (id, s') ∈ p.settled) : s = s' :=
  congrArg Prod.snd (List.inj_on_of_nodup_map h.settled_nodup hs hs' rfl)

/-- A rejected request holds no permit. -/
theorem get?_held_of_rejected (h : p.Tidy) {id : ℕ} {error : ε}
    (hid : (id, .rejected error) ∈ p.settled) : p.held.get? id = none := by
  rw [InsertionMap.get?_eq_none]
  rintro ⟨id', size⟩ hheld rfl
  cases h.eq_of_settled hid (h.granted _ hheld)

/-- What was told nothing holds no permit. -/
theorem get?_held_of_not_settled (h : p.Tidy) {id : ℕ} (hid : id ∉ p.settled.map Prod.fst) :
    p.held.get? id = none := by
  rw [InsertionMap.get?_eq_none]
  rintro ⟨id', size⟩ hheld rfl
  exact hid (List.mem_map.2 ⟨_, h.granted _ hheld, rfl⟩)

variable {w : Waiter}

/-- The number of a request that waits is not that of a permit. -/
theorem get?_held_of_waiting (h : p.Tidy) (hw : w ∈ p.queue) :
    p.held.get? w.id = none := by
  refine h.get?_held_of_not_settled fun hmem => ?_
  have hnodup := h.ids.nodup_iff.2 List.nodup_range
  exact (List.nodup_append.1 hnodup).2.2 _ hmem _ (List.mem_map_of_mem hw) rfl

/-- The number of the next request is not that of a permit. -/
theorem get?_held_requests (h : p.Tidy) : p.held.get? p.requests = none := by
  refine h.get?_held_of_not_settled fun hmem => ?_
  exact lt_irrefl _ (List.mem_range.1 (h.ids.subset (List.mem_append_left _ hmem)))

/-- The newest request is told something. -/
theorem arrive {p' : Permits ε} (h : p.Tidy) {s : Settlement ε}
    (hsettled : p'.settled = (p.requests, s) :: p.settled) (hqueue : p'.queue = p.queue)
    (hrequests : p'.requests = p.requests + 1)
    (hheld : ∀ e ∈ p'.held.entries, e ∈ p.held.entries ∨ e.1 = p.requests ∧ s = .granted) :
    p'.Tidy := by
  refine ⟨?_, fun e he => ?_⟩
  · rw [hsettled, hqueue, hrequests, List.range_succ]
    exact ((h.ids.cons p.requests).trans (List.perm_append_singleton _ _).symm)
  · rw [hsettled]
    rcases hheld e he with he | ⟨heq, rfl⟩
    · exact .tail _ (h.granted e he)
    · rw [heq]
      exact .head _

variable {rest : List Waiter}

/-- A request that leaves the queue is told something. -/
theorem leave {p' : Permits ε} (h : p.Tidy) {s : Settlement ε}
    (hqueue : p.queue.Perm (w :: rest)) (hsettled : p'.settled = (w.id, s) :: p.settled)
    (hrest : p'.queue = rest) (hrequests : p'.requests = p.requests)
    (hheld : ∀ e ∈ p'.held.entries, e ∈ p.held.entries ∨ e.1 = w.id ∧ s = .granted) :
    p'.Tidy := by
  refine ⟨?_, fun e he => ?_⟩
  · rw [hsettled, hrest, hrequests]
    refine .trans ?_ h.ids
    refine .trans List.perm_middle.symm (List.Perm.append_left _ ?_)
    exact (hqueue.map Waiter.id).symm
  · rw [hsettled]
    rcases hheld e he with he | ⟨heq, rfl⟩
    · exact .tail _ (h.granted e he)
    · rw [heq]
      exact .head _

/-- The permits that are held after one more was granted. -/
theorem mem_held_grant {id size : ℕ} (hid : p.held.get? id = none) {e : ℕ × ℕ}
    (he : e ∈ (p.grant id size).held.entries) : e ∈ p.held.entries ∨ e.1 = id := by
  rw [grant, InsertionMap.set_of_get?_eq_none hid] at he
  rcases List.mem_append.1 he with he | he
  · exact .inl he
  · exact .inr (congrArg Prod.fst (List.mem_singleton.1 he))

theorem reject_arrive (h : p.Tidy) (error : ε) : (p.arrive.reject p.requests error).Tidy :=
  h.arrive rfl rfl rfl fun _ he => .inl he

theorem grant_arrive (h : p.Tidy) (size : ℕ) : (p.arrive.grant p.requests size).Tidy :=
  h.arrive rfl rfl rfl fun _ he =>
    (mem_held_grant (p := p.arrive) h.get?_held_requests he).imp_right fun heq => ⟨heq, rfl⟩

theorem wait (h : p.Tidy) (size signal : ℕ) : (p.wait size signal).Tidy := by
  refine ⟨?_, h.granted⟩
  rw [Permits.wait, Permits.arrive, List.range_succ, List.map_append, ← List.append_assoc]
  exact h.ids.append_right _

theorem reject_leave (h : p.Tidy) (hqueue : p.queue.Perm (w :: rest)) (error : ε) :
    (({ p with queue := rest } : Permits ε).reject w.id error).Tidy :=
  h.leave hqueue rfl rfl rfl fun _ he => .inl he

theorem grant_leave (h : p.Tidy) (hqueue : p.queue.Perm (w :: rest)) (size : ℕ) :
    (({ p with queue := rest } : Permits ε).grant w.id size).Tidy :=
  h.leave hqueue rfl rfl rfl fun _ he => by
    have hw := h.get?_held_of_waiting (hqueue.mem_iff.2 (List.mem_cons_self ..))
    exact (mem_held_grant (p := { p with queue := rest }) hw he).imp_right fun heq => ⟨heq, rfl⟩

theorem rejectAll (h : p.Tidy) {waiters rest : List Waiter}
    (hqueue : p.queue.Perm (waiters ++ rest)) (error : ε) :
    (({ p with queue := rest } : Permits ε).rejectAll waiters error).Tidy := by
  induction waiters generalizing p with
  | nil => exact ⟨((hqueue.symm.map _).append_left _).trans h.ids, h.granted⟩
  | cons w waiters ih => exact ih (h.reject_leave hqueue error) (List.Perm.refl _)

theorem onAbort (h : p.Tidy) (id : ℕ) (error : ε) : (p.onAbort id error).Tidy := by
  rw [Permits.onAbort]
  cases hfind : p.queue.find? fun w => w.id = id with
  | none => exact h
  | some w =>
    dsimp only
    split_ifs
    · exact h.reject_leave (List.perm_cons_erase (List.mem_of_find?_eq_some hfind)) error
    · exact h

theorem close (h : p.Tidy) (error : ε) : (p.close error).Tidy := by
  rw [Permits.close]
  split_ifs
  · exact h
  · refine Tidy.rejectAll (p := { p with closed := true }) ⟨h.ids, h.granted⟩ ?_ error
    rw [List.append_nil]

/-- A permit that is released is held no more. -/
theorem delete (h : p.Tidy) (id used : ℕ) :
    Tidy ({ p with used, held := p.held.delete id } : Permits ε) :=
  ⟨h.ids, fun e he => h.granted e (InsertionMap.mem_delete.1 he).1⟩

end Tidy

/-! ## What is held -/

@[simp] theorem held_rejectAll (waiters : List Waiter) (error : ε) :
    (p.rejectAll waiters error).held = p.held := by
  induction waiters generalizing p with
  | nil => rfl
  | cons w waiters ih => exact ih

@[simp] theorem used_rejectAll (waiters : List Waiter) (error : ε) :
    (p.rejectAll waiters error).used = p.used := by
  induction waiters generalizing p with
  | nil => rfl
  | cons w waiters ih => exact ih

@[simp] theorem queue_rejectAll (waiters : List Waiter) (error : ε) :
    (p.rejectAll waiters error).queue = p.queue := by
  induction waiters generalizing p with
  | nil => rfl
  | cons w waiters ih => exact ih

@[simp] theorem closed_rejectAll (waiters : List Waiter) (error : ε) :
    (p.rejectAll waiters error).closed = p.closed := by
  induction waiters generalizing p with
  | nil => rfl
  | cons w waiters ih => exact ih

@[simp] theorem granted_mem_reject {id id' : ℕ} {error : ε} :
    (id, Settlement.granted) ∈ (p.reject id' error).settled ↔ (id, .granted) ∈ p.settled := by
  simp [reject]

@[simp] theorem granted_mem_rejectAll {id : ℕ} (waiters : List Waiter) (error : ε) :
    (id, Settlement.granted) ∈ (p.rejectAll waiters error).settled ↔
      (id, .granted) ∈ p.settled := by
  induction waiters generalizing p with
  | nil => rfl
  | cons w waiters ih => exact ih.trans granted_mem_reject

@[simp] theorem heldBytes_rejectAll (waiters : List Waiter) (error : ε) :
    (p.rejectAll waiters error).heldBytes = p.heldBytes := by
  rw [heldBytes, held_rejectAll, heldBytes]

/-- Rejecting does not look at the queue. -/
theorem rejectAll_with_queue (queue waiters : List Waiter) (error : ε) :
    ({ p with queue } : Permits ε).rejectAll waiters error =
      { p.rejectAll waiters error with queue } := by
  induction waiters generalizing p with
  | nil => rfl
  | cons w waiters ih => exact ih (p := p.reject w.id error)

variable {id size : ℕ}

/-- A permit adds its size to what is held. -/
theorem heldBytes_grant (hid : p.held.get? id = none) :
    (p.grant id size).heldBytes = p.heldBytes + size := by
  rw [heldBytes, grant, InsertionMap.set_of_get?_eq_none hid, List.map_append, List.sum_append]
  rfl

/-- A permit that is released takes its size from what is held. -/
theorem heldBytes_eq_add_delete (hid : p.held.get? id = some size) :
    p.heldBytes = size + ((p.held.delete id).entries.map Prod.snd).sum := by
  rw [heldBytes,
    ((InsertionMap.perm_cons_delete (InsertionMap.get?_eq_some.1 hid)).map _).sum_eq, List.map_cons,
    List.sum_cons]

/-- A permit that is released takes one from their number. -/
theorem size_held_eq_add_delete (hid : p.held.get? id = some size) :
    p.held.size = (p.held.delete id).size + 1 := by
  rw [InsertionMap.size,
    (InsertionMap.perm_cons_delete (InsertionMap.get?_eq_some.1 hid)).length_eq]
  rfl

theorem size_held_delete_le (id : ℕ) : (p.held.delete id).size ≤ p.held.size :=
  List.length_filter_le ..

/-- A permit adds one to their number. -/
theorem size_held_grant (hid : p.held.get? id = none) :
    (p.grant id size).held.size = p.held.size + 1 := by
  rw [InsertionMap.size, grant, InsertionMap.set_of_get?_eq_none hid, List.length_append]
  rfl

/-- The next waiter gets a permit. -/
theorem Tidy.passOn {w : Waiter} {queue : List Waiter} (h : Tidy { p with queue := w :: queue })
    (size used : ℕ) : Tidy ({ p with used, queue }.grant w.id size) ∧
      ({ p with used, queue }.grant w.id size).held.size = p.held.size + 1 := by
  have hleave := h.grant_leave (List.Perm.refl _) size
  have hnone : p.held.get? w.id = none := h.get?_held_of_waiting List.mem_cons_self
  exact ⟨⟨hleave.ids, hleave.granted⟩, @size_held_grant _ { p with used, queue } _ size hnone⟩

end Permits

end Tabulark
