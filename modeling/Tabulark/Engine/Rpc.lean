import Mathlib

/-!
# Requests to the Worker

The main thread numbers its requests to the Worker and keeps those without a
response. A response settles the request it names; one that names no pending
request is dropped.
-/

namespace Tabulark.Engine

/-- `WorkerRpcClient`: the pending requests under their numbers, and the next number. -/
structure WorkerRpcClient (κ : Type) where
  nextRequestId : ℕ
  pending : List (ℕ × κ)
  fresh : ∀ p ∈ pending, p.1 < nextRequestId
  nodup : (pending.map Prod.fst).Nodup

namespace WorkerRpcClient

variable {κ : Type}

/-- No request was made. -/
def initial : WorkerRpcClient κ := ⟨0, [], by simp, by simp⟩

/-- `request`: a request under the next number. -/
def request (rpc : WorkerRpcClient κ) (call : κ) : WorkerRpcClient κ where
  nextRequestId := rpc.nextRequestId + 1
  pending := rpc.pending ++ [(rpc.nextRequestId, call)]
  fresh := by
    intro p hp
    rcases List.mem_append.1 hp with hp | hp
    · exact (rpc.fresh p hp).trans (Nat.lt_succ_self _)
    · rw [List.mem_singleton.1 hp]
      exact Nat.lt_succ_self _
  nodup := by
    rw [List.map_append, List.nodup_append]
    refine ⟨rpc.nodup, List.nodup_singleton _, ?_⟩
    rintro id hid id' hid' rfl
    obtain ⟨p, hp, rfl⟩ := List.mem_map.1 hid
    rw [List.map_singleton, List.mem_singleton] at hid'
    exact absurd (rpc.fresh p hp) (by rw [hid']; exact lt_irrefl _)

/-- The number of a message that no response is awaited for. -/
def skipId (rpc : WorkerRpcClient κ) : WorkerRpcClient κ :=
  { rpc with
    nextRequestId := rpc.nextRequestId + 1
    fresh := fun p hp => (rpc.fresh p hp).trans (Nat.lt_succ_self _) }

/-- The pending request under a number. -/
def get? (rpc : WorkerRpcClient κ) (id : ℕ) : Option κ :=
  (rpc.pending.find? fun p => p.1 = id).map Prod.snd

/-- The pending requests with a property. -/
def filter (rpc : WorkerRpcClient κ) (keep : ℕ × κ → Bool) : WorkerRpcClient κ where
  nextRequestId := rpc.nextRequestId
  pending := rpc.pending.filter keep
  fresh := fun p hp => rpc.fresh p (List.mem_of_mem_filter hp)
  nodup := rpc.nodup.sublist (List.filter_sublist.map Prod.fst)

/-- The request under a number is pending no more. -/
def delete (rpc : WorkerRpcClient κ) (id : ℕ) : WorkerRpcClient κ :=
  rpc.filter fun p => p.1 ≠ id

/-- `#stop`: no request is pending. -/
def stop (rpc : WorkerRpcClient κ) : WorkerRpcClient κ := rpc.filter fun _ => false

variable {rpc : WorkerRpcClient κ} {id : ℕ} {call call' : κ}

@[simp] theorem pending_stop (rpc : WorkerRpcClient κ) : rpc.stop.pending = [] :=
  List.filter_eq_nil_iff.2 fun _ _ => by simp

@[simp] theorem mem_request {p : ℕ × κ} :
    p ∈ (rpc.request call).pending ↔ p ∈ rpc.pending ∨ p = (rpc.nextRequestId, call) := by
  simp [request]

@[simp] theorem mem_delete {p : ℕ × κ} :
    p ∈ (rpc.delete id).pending ↔ p ∈ rpc.pending ∧ p.1 ≠ id := by
  simp [delete, filter]

/-- There is one pending request under a number. -/
theorem get?_eq_some : rpc.get? id = some call ↔ (id, call) ∈ rpc.pending := by
  unfold get?
  rw [Option.map_eq_some_iff]
  constructor
  · rintro ⟨p, hp, rfl⟩
    have hid : p.1 = id := by simpa using List.find?_some hp
    exact hid ▸ List.mem_of_find?_eq_some hp
  · intro h
    obtain ⟨p, hp⟩ : ∃ p, rpc.pending.find? (fun p => p.1 = id) = some p :=
      Option.isSome_iff_exists.1 (List.find?_isSome.2 ⟨(id, call), h, by simp⟩)
    have hid : p.1 = id := by simpa using List.find?_some hp
    have heq := List.inj_on_of_nodup_map rpc.nodup (List.mem_of_find?_eq_some hp) h hid
    exact ⟨p, hp, by rw [heq]⟩

theorem get?_eq_none : rpc.get? id = none ↔ ∀ call, (id, call) ∉ rpc.pending := by
  rw [Option.eq_none_iff_forall_not_mem]
  exact forall_congr' fun call => not_congr get?_eq_some

theorem delete_of_get?_eq_none (h : rpc.get? id = none) : rpc.delete id = rpc := by
  have hsame : rpc.pending.filter (fun p => p.1 ≠ id) = rpc.pending := by
    rw [List.filter_eq_self]
    rintro ⟨id', call⟩ hin
    have hne : id' ≠ id := by
      rintro rfl
      exact get?_eq_none.1 h call hin
    simpa using hne
  obtain ⟨next, pending, fresh, nodup⟩ := rpc
  simp only [delete, filter, mk.injEq, true_and]
  exact hsame

end WorkerRpcClient

end Tabulark.Engine
