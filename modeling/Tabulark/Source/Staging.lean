import Tabulark.Lib.Permits
import Tabulark.Lib.Run
import Tabulark.Lib.JsValue
import Tabulark.Source.Errors

/-!
# Staging of source bytes

The buffers that sources are read into share one budget. `SourceStagingLimiter`
grants a request its bytes when they fit, and lets it wait otherwise: waiters of
different sizes overtake each other. `staged_step` says that the bytes that are
out stay within the budget and that whoever waits does not fit.
-/

namespace Tabulark.Source

open Permits

/-- An event of the staging budget; a request asks for bytes. -/
abbrev StagingEvent : Type := PermitEvent ℤ

/-- The staging budget, and what has become of its requests. -/
abbrev StagingPermits : Type := Permits SourceError

namespace SourceStagingLimiter

/-- The capacity a limiter is made with. -/
def capacityOf (capacity : ℤ) : ℕ :=
  (max 1 (if |capacity| ≤ JsValue.maxSafe then capacity else 1)).toNat

/-- The error of a request that the whole budget could not hold. -/
def exceedsBudget (requiredBytes availableBytes : ℕ) : SourceError where
  code := .resourceLimit
  message := "The source exceeds its staging budget"
  details := [("resource", .text "source-staging"), ("requiredBytes", .number requiredBytes),
    ("availableBytes", .number availableBytes)]

/-- One look along the queue: the waiters that are turned away, the first one that fits, and the
    others. -/
def look (aborted : List ℕ) (fits : Waiter → Bool) :
    List Waiter → List Waiter × Option Waiter × List Waiter
  | [] => ([], none, [])
  | waiter :: queue =>
    if waiter.signal ∈ aborted then
      let seen := look aborted fits queue
      (waiter :: seen.1, seen.2)
    else if fits waiter then ([], some waiter, queue)
    else
      let seen := look aborted fits queue
      (seen.1, seen.2.1, waiter :: seen.2.2)

/-- Grants waiters their bytes until none fits; every turn but the last takes one from the queue. -/
def drain (capacity : ℕ) : ℕ → StagingPermits → StagingPermits
  | 0, p => p
  | turns + 1, p =>
    let seen := look p.aborted (fun waiter => p.used + waiter.size ≤ capacity) p.queue
    let p := ({ p with queue := seen.2.2 } : StagingPermits).rejectAll seen.1 cancelledError
    match seen.2.1 with
    | none => p
    | some waiter => drain capacity turns (p.grant waiter.id waiter.size)

/-- Grants waiters their bytes, unless the limiter is closed. -/
def drainAll (capacity : ℕ) (p : StagingPermits) : StagingPermits :=
  if p.closed then p else drain capacity (p.queue.length + 1) p

/-- Asks for bytes: at once, later, or never. -/
def acquire (capacity : ℕ) (p : StagingPermits) (bytes : ℤ) (signal : ℕ) : StagingPermits :=
  if ¬(0 ≤ bytes ∧ bytes ≤ JsValue.maxSafe) then
    p.arrive.reject p.requests
      (sourceError .rangeUnsupported "The source range length is invalid")
  else if capacity < bytes.toNat then
    p.arrive.reject p.requests (exceedsBudget bytes.toNat capacity)
  else if p.closed then p.arrive.reject p.requests (closedError "Source staging")
  else if signal ∈ p.aborted then p.arrive.reject p.requests cancelledError
  else if p.used + bytes.toNat ≤ capacity then p.arrive.grant p.requests bytes.toNat
  else drainAll capacity (p.wait bytes.toNat signal)

/-- Releases a permit; a second call does nothing. -/
def release (capacity : ℕ) (p : StagingPermits) (id : ℕ) : StagingPermits :=
  match p.held.get? id with
  | none => p
  | some bytes => drainAll capacity { p with used := p.used - bytes, held := p.held.delete id }

/-- The limiter after an event. -/
def step (capacity : ℕ) (p : StagingPermits) : StagingEvent → StagingPermits
  | .acquire bytes signal => acquire capacity p bytes signal
  | .abort signal => p.abort signal
  | .listener id => p.onAbort id cancelledError
  | .release id => release capacity p id
  | .close => p.close (closedError "Source staging")

/-! ## What the budget owes its readers -/

/-- The bytes that are out fit the budget, every request is told one thing, and nobody waits for
    bytes there are. -/
structure Staged (capacity : ℕ) (p : StagingPermits) : Prop where
  held_le : p.heldBytes ≤ capacity
  settled_once : (p.settled.map Prod.fst).Nodup
  waiting : p.closed = false → ∀ w ∈ p.queue, capacity < p.heldBytes + w.size

/-- The counter of the limiter is the number of bytes that are out. -/
structure Counted (capacity : ℕ) (p : StagingPermits) : Prop where
  tidy : p.Tidy
  counted : p.used = p.heldBytes
  held_le : p.heldBytes ≤ capacity
  drained : p.closed = true → p.queue = []

/-- Nobody who waits fits. -/
def Full (capacity : ℕ) (p : StagingPermits) : Prop :=
  ∀ w ∈ p.queue, capacity < p.heldBytes + w.size

variable {capacity : ℕ} {p : StagingPermits}

/-- A look splits the queue, and selects a waiter that fits if there is one. -/
theorem look_spec (aborted : List ℕ) (fits : Waiter → Bool) (queue : List Waiter) :
    queue.Perm ((look aborted fits queue).1 ++ ((look aborted fits queue).2.1.toList ++
      (look aborted fits queue).2.2)) ∧
      (∀ w ∈ (look aborted fits queue).2.1, fits w) ∧
      ((look aborted fits queue).2.1 = none →
        ∀ w ∈ (look aborted fits queue).2.2, fits w = false) := by
  induction queue with
  | nil => exact ⟨.nil, nofun, fun _ => nofun⟩
  | cons w queue ih =>
    obtain ⟨hperm, hfits, hnone⟩ := ih
    rw [look]
    split_ifs with haborted hroom
    · exact ⟨hperm.cons w, hfits, hnone⟩
    · refine ⟨List.Perm.refl _, fun v hv => ?_, nofun⟩
      rw [← Option.some.inj hv]
      exact hroom
    · refine ⟨?_, hfits, fun h v hv => ?_⟩
      · dsimp only
        rw [← List.append_assoc]
        refine .trans ?_ List.perm_middle.symm
        rw [List.append_assoc]
        exact hperm.cons w
      · rcases List.mem_cons.1 hv with rfl | hv
        · exact Bool.eq_false_iff.2 hroom
        · exact hnone h v hv

/-- Draining keeps the counter, and stops when nobody fits. -/
theorem counted_drain {turns : ℕ} (h : Counted capacity p) (hclosed : p.closed = false)
    (hturns : p.queue.length < turns) :
    Counted capacity (drain capacity turns p) ∧ Full capacity (drain capacity turns p) := by
  induction turns generalizing p with
  | zero => omega
  | succ turns ih =>
    rw [drain]
    obtain ⟨hperm, hfits, hnone⟩ :=
      look_spec p.aborted (fun waiter => p.used + waiter.size ≤ capacity) p.queue
    generalize look p.aborted (fun waiter => p.used + waiter.size ≤ capacity) p.queue = seen
      at hperm hfits hnone
    obtain ⟨rejected, selected, queue⟩ := seen
    dsimp only at hperm hfits hnone ⊢
    have htidy := h.tidy.rejectAll hperm cancelledError
    rw [rejectAll_with_queue] at htidy ⊢
    generalize hrest : p.rejectAll rejected cancelledError = rest at htidy
    have hbytes : rest.heldBytes = p.heldBytes := hrest ▸ heldBytes_rejectAll rejected _
    have hused : rest.used = p.used := hrest ▸ used_rejectAll rejected _
    have hopen : rest.closed = false := hrest ▸ (closed_rejectAll rejected _).trans hclosed
    have hcounted := h.counted
    have hle := h.held_le
    cases selected with
    | none =>
      refine ⟨⟨htidy, hused.trans (hcounted.trans hbytes.symm), hbytes.trans_le hle,
        fun hc => ?_⟩, fun w hw => ?_⟩
      · rw [hopen] at hc
        cases hc
      · -- The last look has found every waiter too large.
        have hlt := of_decide_eq_false (hnone rfl w hw)
        change capacity < rest.heldBytes + w.size
        omega
    | some waiter =>
      have hfits := of_decide_eq_true (hfits waiter rfl)
      have hnone : rest.held.get? waiter.id = none :=
        htidy.get?_held_of_waiting (List.mem_cons_self ..)
      have hleave := htidy.grant_leave (List.Perm.refl _) waiter.size
      have hgrant := @heldBytes_grant _ { rest with queue } _ waiter.size hnone
      have hsame : heldBytes { rest with queue } = rest.heldBytes := rfl
      have hlength := hperm.length_eq
      simp only [List.length_append, Option.toList_some, List.length_singleton] at hlength
      refine ih ⟨hleave, ?_, hgrant.trans_le (by omega), fun hc => ?_⟩ hopen ?_
      · rw [hgrant, hsame, hbytes, ← hcounted, ← hused]
        rfl
      · rw [grant, hopen] at hc
        cases hc
      · rw [grant]
        dsimp only
        omega

theorem counted_drainAll (h : Counted capacity p) :
    Counted capacity (drainAll capacity p) ∧ Full capacity (drainAll capacity p) := by
  rw [drainAll]
  split_ifs with hclosed
  · refine ⟨h, fun w hw => ?_⟩
    rw [h.drained hclosed] at hw
    cases hw
  · exact counted_drain h (Bool.eq_false_iff.2 hclosed) (Nat.lt_succ_self _)

theorem counted_acquire (h : Counted capacity p) (hfull : Full capacity p) (bytes : ℤ)
    (signal : ℕ) :
    Counted capacity (acquire capacity p bytes signal) ∧
      Full capacity (acquire capacity p bytes signal) := by
  have hcounted := h.counted
  have hreject : ∀ error, Counted capacity (p.arrive.reject p.requests error) ∧
      Full capacity (p.arrive.reject p.requests error) := fun error =>
    ⟨⟨h.tidy.reject_arrive error, hcounted, h.held_le, h.drained⟩, hfull⟩
  rw [acquire]
  split_ifs with hvalid hlarge hclosed haborted hroom
  · exact hreject _
  · exact hreject _
  · exact hreject _
  · have hgrant := @heldBytes_grant _ p.arrive _ bytes.toNat h.tidy.get?_held_requests
    have hsame : p.arrive.heldBytes = p.heldBytes := rfl
    refine ⟨⟨h.tidy.grant_arrive _, ?_, by omega, fun hc => absurd hc hclosed⟩, fun w hw => ?_⟩
    · rw [hgrant, hsame, ← hcounted]
      rfl
    · have hlt := hfull w hw
      omega
  · exact counted_drainAll ⟨h.tidy.wait _ signal, hcounted, h.held_le,
      fun hc => absurd hc hclosed⟩
  · exact hreject _

theorem counted_onAbort (h : Counted capacity p) (hfull : Full capacity p) (id : ℕ)
    (error : SourceError) :
    Counted capacity (p.onAbort id error) ∧ Full capacity (p.onAbort id error) := by
  have htidy := h.tidy.onAbort id error
  rw [Permits.onAbort] at htidy ⊢
  cases hfind : p.queue.find? fun w => w.id = id with
  | none => exact ⟨h, hfull⟩
  | some w =>
    rw [hfind] at htidy
    dsimp only at htidy ⊢
    split_ifs at htidy ⊢ with hsignal
    · refine ⟨⟨htidy, h.counted, h.held_le, fun hc => ?_⟩,
        fun v hv => hfull v (List.mem_of_mem_erase hv)⟩
      rw [h.drained hc] at hfind
      cases hfind
    · exact ⟨h, hfull⟩

theorem counted_close (h : Counted capacity p) (hfull : Full capacity p) (error : SourceError) :
    Counted capacity (p.close error) ∧ Full capacity (p.close error) := by
  have htidy := h.tidy.close error
  rw [Permits.close] at htidy ⊢
  split_ifs at htidy ⊢ with hclosed
  · exact ⟨h, hfull⟩
  · refine ⟨⟨htidy, ?_, ?_, fun _ => queue_rejectAll _ _⟩, fun w hw => ?_⟩
    · rw [used_rejectAll, heldBytes_rejectAll]
      exact h.counted
    · rw [heldBytes_rejectAll]
      exact h.held_le
    · rw [queue_rejectAll] at hw
      cases hw

/-- After every event the counter is right, and nobody waits who fits. -/
theorem counted_step (h : Counted capacity p ∧ Full capacity p) (e : StagingEvent) :
    Counted capacity (step capacity p e) ∧ Full capacity (step capacity p e) := by
  obtain ⟨h, hfull⟩ := h
  cases e with
  | acquire bytes signal => exact counted_acquire h hfull bytes signal
  | abort signal => exact ⟨⟨⟨h.tidy.ids, h.tidy.granted⟩, h.counted, h.held_le, h.drained⟩, hfull⟩
  | listener id => exact counted_onAbort h hfull id _
  | close => exact counted_close h hfull _
  | release id =>
    rw [step, release]
    cases hheld : p.held.get? id with
    | none => exact ⟨h, hfull⟩
    | some bytes =>
      have hbytes := heldBytes_eq_add_delete hheld
      have hcounted := h.counted
      have hle := h.held_le
      refine counted_drainAll ⟨h.tidy.delete id (p.used - bytes), ?_, ?_, h.drained⟩
      · rw [heldBytes]
        dsimp only
        omega
      · rw [heldBytes]
        dsimp only
        omega

theorem counted_start (capacity : ℕ) : Counted capacity {} ∧ Full capacity {} :=
  ⟨⟨tidy_empty, rfl, Nat.zero_le _, fun _ => rfl⟩, nofun⟩

/-- The staging budget keeps to its capacity in every run. -/
theorem staged_run (capacity : ℕ) (events : List StagingEvent) :
    Run.Along (step capacity) (fun p e => Staged capacity (step capacity p e)) {} events := by
  have hcounted := @Run.Along.invariant _ _ _ _ (fun p => Counted capacity p ∧ Full capacity p) _ _
    (fun p e h _ => counted_step h e) (Run.along_true {} events) (counted_start capacity)
  refine hcounted.1.imp fun p e h => ?_
  obtain ⟨hnext, hfull⟩ := counted_step h.1 e
  exact ⟨hnext.held_le, hnext.tidy.settled_nodup, fun _ => hfull⟩

end SourceStagingLimiter

end Tabulark.Source
