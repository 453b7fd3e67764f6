import Mathlib
import Tabulark.Lib.Run

/-!
# The permit queue

A queue hands out a limited number of permits. Who comes when all are out waits, if
there is room, and may be cancelled by a key. Each permit has a number, that of the
call that asks for it, and the queue is modelled with what became of each.

* `AsyncPermitQueue.Sound`: no permit is idle while somebody waits, and permits are
  granted in the order in which they were asked for;
* `Sound.step`: every call keeps this.
-/

namespace Tabulark.Engine

/-- Who waits for a permit. -/
structure PermitWaiter where
  key : String
  permit : ℕ
  deriving DecidableEq, Repr

/-- A permit queue, with the permits that were asked for so far: those that were granted, in order,
    those that were refused, or cancelled for a reason, and those that were released. -/
structure AsyncPermitQueue (ρ : Type) where
  maxActive : ℕ
  maxWaiters : ℕ
  waiters : List PermitWaiter := []
  active : ℤ := 0
  calls : ℕ := 0
  granted : List ℕ := []
  refused : List ℕ := []
  cancelled : List (ℕ × ρ) := []
  released : List ℕ := []
  deriving DecidableEq, Repr

namespace AsyncPermitQueue

variable {ρ : Type} (queue : AsyncPermitQueue ρ)

/-- Asks for a permit. -/
def acquire (key : String) : AsyncPermitQueue ρ :=
  let asked := { queue with calls := queue.calls + 1 }
  if queue.active < queue.maxActive then
    { asked with active := queue.active + 1, granted := queue.granted ++ [queue.calls] }
  else if queue.maxWaiters ≤ queue.waiters.length then
    { asked with refused := queue.refused ++ [queue.calls] }
  else { asked with waiters := queue.waiters ++ [⟨key, queue.calls⟩] }

/-- Grants permits to some waiters in turn, as long as there are any. -/
def wakeFrom (queue : AsyncPermitQueue ρ) : List PermitWaiter → AsyncPermitQueue ρ
  | [] => { queue with waiters := [] }
  | waiter :: waiters =>
    if queue.active < queue.maxActive then
      wakeFrom { queue with
        waiters
        active := queue.active + 1
        granted := queue.granted ++ [waiter.permit] } waiters
    else { queue with waiters := waiter :: waiters }

def wakeWaiters : AsyncPermitQueue ρ := queue.wakeFrom queue.waiters

/-- Cancels the first waiter with a key, and says whether there was one. -/
def cancel (key : String) (reason : ρ) : AsyncPermitQueue ρ × Bool :=
  match queue.waiters.find? (·.key == key) with
  | none => (queue, false)
  | some waiter =>
    ({ queue with
      waiters := queue.waiters.eraseP (·.key == key)
      cancelled := queue.cancelled ++ [(waiter.permit, reason)] }.wakeWaiters, true)

/-- Calls the release function of a permit; only the first call counts. -/
def release (permit : ℕ) : AsyncPermitQueue ρ :=
  if permit ∈ queue.granted ∧ permit ∉ queue.released then
    { queue with released := queue.released ++ [permit], active := queue.active - 1 }.wakeWaiters
  else queue

/-! ## What holds of queues -/

/-- The permits that are granted or waited for, in the order in which they are granted. -/
def order : List ℕ := queue.granted ++ queue.waiters.map (·.permit)

/-- The permits that are granted and not released. -/
def held : List ℕ := queue.granted.filter (· ∉ queue.released)

/-- The permits that are held or waited for. -/
def outstanding : List ℕ := queue.order.filter (· ∉ queue.released)

/-- The permits that were not granted and never will be. -/
def turnedAway : List ℕ := queue.refused ++ queue.cancelled.map Prod.fst

/-- A queue whose waiters are in order, and whose permits are counted. -/
structure Tidy : Prop where
  active_eq : queue.active = queue.held.length
  active_le : queue.active ≤ queue.maxActive
  waiters_le : queue.waiters.length ≤ queue.maxWaiters
  fifo : queue.order.Pairwise (· < ·)
  asked : ∀ permit ∈ queue.order ++ queue.turnedAway, permit < queue.calls
  apart : ∀ permit ∈ queue.order, permit ∉ queue.turnedAway
  settled : ∀ permit < queue.calls, permit ∈ queue.order ++ queue.turnedAway
  released : ∀ permit ∈ queue.released, permit ∈ queue.granted

/-- A queue without an idle permit that somebody waits for. -/
structure Sound : Prop extends queue.Tidy where
  full : queue.waiters ≠ [] → queue.active = queue.maxActive

variable {queue}

theorem Tidy.nodup_order (h : queue.Tidy) : queue.order.Nodup :=
  h.fifo.imp fun hlt => hlt.ne

/-- Who waits for a permit does not have it. -/
theorem Tidy.not_granted (h : queue.Tidy) {permit : ℕ}
    (hmem : permit ∈ queue.waiters.map (·.permit)) : permit ∉ queue.granted := fun hgranted =>
  (List.nodup_append.1 h.nodup_order).2.2 permit hgranted permit hmem rfl

theorem Tidy.outstanding_eq (h : queue.Tidy) :
    queue.outstanding = queue.held ++ queue.waiters.map (·.permit) := by
  rw [outstanding, order, List.filter_append, held, List.append_cancel_left_eq,
    List.filter_eq_self]
  exact fun permit hmem => decide_eq_true fun hreleased =>
    h.not_granted hmem (h.released permit hreleased)

/-- The permits that are held or waited for are as many as the queue counts. -/
theorem Tidy.length_outstanding (h : queue.Tidy) :
    (queue.outstanding.length : ℤ) = queue.active + queue.waiters.length := by
  rw [h.outstanding_eq, List.length_append, List.length_map, h.active_eq, Nat.cast_add]

theorem Tidy.nodup_outstanding (h : queue.Tidy) : queue.outstanding.Nodup :=
  h.nodup_order.filter _

/-! ### Waking up waiters -/

@[simp] theorem wakeFrom_order (queue : AsyncPermitQueue ρ) (waiters : List PermitWaiter) :
    (queue.wakeFrom waiters).order = queue.granted ++ waiters.map (·.permit) := by
  induction waiters generalizing queue with
  | nil => rfl
  | cons waiter waiters ih =>
    rw [wakeFrom]
    split
    · rw [ih, List.map_cons, List.append_assoc]
      rfl
    · rfl

/-- What does not change when waiters wake up. -/
theorem wakeFrom_frame (queue : AsyncPermitQueue ρ) (waiters : List PermitWaiter) :
    (queue.wakeFrom waiters).maxActive = queue.maxActive ∧
      (queue.wakeFrom waiters).maxWaiters = queue.maxWaiters ∧
      (queue.wakeFrom waiters).calls = queue.calls ∧
      (queue.wakeFrom waiters).refused = queue.refused ∧
      (queue.wakeFrom waiters).cancelled = queue.cancelled ∧
      (queue.wakeFrom waiters).released = queue.released := by
  induction waiters generalizing queue with
  | nil => exact ⟨rfl, rfl, rfl, rfl, rfl, rfl⟩
  | cons waiter waiters ih =>
    rw [wakeFrom]
    split
    · exact ih _
    · exact ⟨rfl, rfl, rfl, rfl, rfl, rfl⟩

/-- Waking up waiters leaves no permit idle that somebody waits for. -/
theorem Tidy.wakeFrom (h : queue.Tidy) {waiters : List PermitWaiter}
    (hwaiters : queue.waiters = waiters) : (queue.wakeFrom waiters).Sound := by
  induction waiters generalizing queue with
  | nil =>
    have hsame : queue.wakeFrom [] = queue := by rw [AsyncPermitQueue.wakeFrom, ← hwaiters]
    rw [hsame]
    exact ⟨h, fun hne => absurd hwaiters hne⟩
  | cons waiter waiters ih =>
    have horder : queue.order = queue.granted ++ waiter.permit :: waiters.map (·.permit) := by
      rw [order, hwaiters]
      rfl
    rw [AsyncPermitQueue.wakeFrom]
    split
    · rename_i hlt
      have hmoved : (queue.granted ++ [waiter.permit]) ++ waiters.map (·.permit) = queue.order := by
        rw [horder, List.append_assoc]
        rfl
      have hnot : waiter.permit ∉ queue.released := fun hreleased =>
        h.not_granted (by rw [hwaiters]; exact List.mem_cons_self) (h.released _ hreleased)
      refine ih ⟨?_, hlt, ?_, ?_, ?_, ?_, ?_, ?_⟩ rfl
      · rw [held, List.filter_append, List.length_append, h.active_eq]
        simp [held, hnot]
      · have hle := h.waiters_le
        rw [hwaiters] at hle
        exact (Nat.le_succ _).trans hle
      · exact (congrArg (List.Pairwise (· < ·)) hmoved).mpr h.fifo
      · exact fun permit hmem => h.asked permit (hmoved ▸ hmem)
      · exact fun permit hmem => h.apart permit (hmoved ▸ hmem)
      · intro permit hlt
        have hmem := h.settled permit hlt
        rwa [← hmoved] at hmem
      · exact fun permit hmem => List.mem_append_left _ (h.released permit hmem)
    · rename_i hle
      have hsame : { queue with waiters := waiter :: waiters } = queue := by rw [← hwaiters]
      rw [hsame]
      exact ⟨h, fun _ => le_antisymm h.active_le (not_lt.1 hle)⟩

theorem Tidy.wakeWaiters (h : queue.Tidy) : queue.wakeWaiters.Sound := h.wakeFrom rfl

theorem wakeWaiters_outstanding (queue : AsyncPermitQueue ρ) :
    queue.wakeWaiters.outstanding = queue.outstanding := by
  rw [outstanding, outstanding, wakeWaiters, wakeFrom_order, (wakeFrom_frame _ _).2.2.2.2.2, order]

/-! ### Calls -/

/-- The number of a call is new. -/
theorem Tidy.calls_notMem (h : queue.Tidy) : queue.calls ∉ queue.order ++ queue.turnedAway :=
  fun hmem => lt_irrefl _ (h.asked _ hmem)

theorem Tidy.calls_notMem_released (h : queue.Tidy) : queue.calls ∉ queue.released := fun hmem =>
  h.calls_notMem (List.mem_append_left _ (List.mem_append_left _ (h.released _ hmem)))

/-- The permits after a call, when the new one comes last or is turned away. -/
theorem Tidy.asked_succ (h : queue.Tidy) (permits : List ℕ)
    (hperm : permits.Perm (queue.calls :: (queue.order ++ queue.turnedAway))) :
    (∀ permit ∈ permits, permit < queue.calls + 1) ∧
      ∀ permit < queue.calls + 1, permit ∈ permits := by
  refine ⟨fun permit hmem => ?_, fun permit hlt => ?_⟩
  · obtain rfl | hmem := List.mem_cons.1 (hperm.mem_iff.1 hmem)
    · exact Nat.lt_succ_self _
    · exact (h.asked permit hmem).trans (Nat.lt_succ_self _)
  · refine hperm.mem_iff.2 (List.mem_cons.2 ?_)
    obtain hlt | rfl := Nat.lt_succ_iff_lt_or_eq.1 hlt
    · exact .inr (h.settled permit hlt)
    · exact .inl rfl

/-- A permit that is asked for comes last. -/
theorem Tidy.order_ask (h : queue.Tidy) (queue' : AsyncPermitQueue ρ)
    (horder : queue'.order = queue.order ++ [queue.calls]) (hcalls : queue'.calls = queue.calls + 1)
    (hturned : queue'.turnedAway = queue.turnedAway) :
    queue'.order.Pairwise (· < ·) ∧
      (∀ permit ∈ queue'.order ++ queue'.turnedAway, permit < queue'.calls) ∧
      (∀ permit ∈ queue'.order, permit ∉ queue'.turnedAway) ∧
      ∀ permit < queue'.calls, permit ∈ queue'.order ++ queue'.turnedAway := by
  obtain ⟨hasked, hsettled⟩ := h.asked_succ (queue'.order ++ queue'.turnedAway) (by
    rw [horder, hturned, List.append_assoc]
    exact List.perm_middle)
  rw [hcalls]
  refine ⟨?_, hasked, ?_, hsettled⟩
  · rw [horder, List.pairwise_append]
    exact ⟨h.fifo, List.pairwise_singleton _ _, fun permit hmem _ hlast =>
      List.mem_singleton.1 hlast ▸ h.asked permit (List.mem_append_left _ hmem)⟩
  · rw [horder, hturned]
    exact List.forall_mem_append.2 ⟨h.apart, List.forall_mem_singleton.2 fun hmem =>
      h.calls_notMem (List.mem_append_right _ hmem)⟩

/-- Nobody waits while a permit is left. -/
theorem Sound.waiters_eq_nil (h : queue.Sound) (hlt : queue.active < queue.maxActive) :
    queue.waiters = [] := by
  by_contra hne
  exact hlt.ne (h.full hne)

theorem Sound.acquire (h : queue.Sound) (key : String) : (queue.acquire key).Sound := by
  unfold AsyncPermitQueue.acquire
  dsimp only
  split
  · rename_i hlt
    have hnil := h.waiters_eq_nil hlt
    have horder : queue.granted ++ [queue.calls] ++ queue.waiters.map (·.permit) =
        queue.order ++ [queue.calls] := by
      rw [order, hnil, List.map_nil, List.append_nil, List.append_nil]
    obtain ⟨hfifo, hasked, hapart, hsettled⟩ := h.order_ask { queue with
      calls := queue.calls + 1
      active := queue.active + 1
      granted := queue.granted ++ [queue.calls] } horder rfl rfl
    refine ⟨⟨?_, hlt, h.waiters_le, hfifo, hasked, hapart, hsettled, fun permit hmem =>
      List.mem_append_left _ (h.released permit hmem)⟩, fun hne => absurd hnil hne⟩
    rw [held, List.filter_append, List.length_append, h.active_eq]
    simp [held, h.calls_notMem_released]
  · rename_i hfull
    have hactive : queue.active = queue.maxActive := le_antisymm h.active_le (not_lt.1 hfull)
    split
    · have hturned : (queue.refused ++ [queue.calls] ++ queue.cancelled.map Prod.fst).Perm
          (queue.calls :: queue.turnedAway) := by
        rw [List.append_assoc]
        exact List.perm_middle
      obtain ⟨hasked, hsettled⟩ := h.asked_succ _
        ((hturned.append_left queue.order).trans List.perm_middle)
      refine ⟨⟨h.active_eq, h.active_le, h.waiters_le, h.fifo, hasked, fun permit hmem hturn => ?_,
        hsettled, h.released⟩, h.full⟩
      obtain rfl | hturn := List.mem_cons.1 (hturned.mem_iff.1 hturn)
      · exact h.calls_notMem (List.mem_append_left _ hmem)
      · exact h.apart permit hmem hturn
    · rename_i hroom
      have horder : queue.granted ++
          (queue.waiters ++ [(⟨key, queue.calls⟩ : PermitWaiter)]).map (·.permit) =
          queue.order ++ [queue.calls] := by
        rw [List.map_append, ← List.append_assoc]
        rfl
      obtain ⟨hfifo, hasked, hapart, hsettled⟩ := h.order_ask { queue with
        calls := queue.calls + 1
        waiters := queue.waiters ++ [⟨key, queue.calls⟩] } horder rfl rfl
      refine ⟨⟨h.active_eq, h.active_le, ?_, hfifo, hasked, hapart, hsettled, h.released⟩,
        fun _ => hactive⟩
      rw [List.length_append]
      exact not_le.1 hroom

/-- A waiter that is cancelled leaves its place to those behind it. -/
theorem erased_order {key : String} {waiter : PermitWaiter}
    (hfind : queue.waiters.find? (·.key == key) = some waiter) :
    (queue.granted ++ (queue.waiters.eraseP (·.key == key)).map (·.permit)).Sublist queue.order ∧
      queue.order.Perm (waiter.permit ::
        (queue.granted ++ (queue.waiters.eraseP (·.key == key)).map (·.permit))) := by
  obtain ⟨hkey, before, after, hwaiters, hbefore⟩ := List.find?_eq_some_iff_append.1 hfind
  have herased : queue.waiters.eraseP (·.key == key) = before ++ after := by
    rw [hwaiters, List.eraseP_append_right _ fun other hmem => by simpa using hbefore other hmem,
      List.eraseP_cons, hkey, cond_true]
  have horder : queue.order = (queue.granted ++ before.map (·.permit)) ++
      waiter.permit :: after.map (·.permit) := by
    rw [order, hwaiters, List.map_append, List.append_assoc]
    rfl
  rw [herased, horder, List.map_append, ← List.append_assoc]
  exact ⟨(List.Sublist.refl _).append (List.sublist_cons_self _ _), List.perm_middle⟩

theorem Sound.cancel (h : queue.Sound) (key : String) (reason : ρ) :
    (queue.cancel key reason).1.Sound := by
  unfold AsyncPermitQueue.cancel
  split
  · exact h
  · rename_i waiter hfind
    obtain ⟨hsub, hperm⟩ := erased_order hfind
    have hturned : (queue.refused ++ (queue.cancelled ++ [(waiter.permit, reason)]).map Prod.fst) =
        queue.turnedAway ++ [waiter.permit] := by
      rw [List.map_append, ← List.append_assoc]
      rfl
    have hall : (queue.granted ++ (queue.waiters.eraseP (·.key == key)).map (·.permit) ++
        (queue.turnedAway ++ [waiter.permit])).Perm (queue.order ++ queue.turnedAway) := by
      rw [← List.append_assoc]
      exact List.perm_append_comm.trans (hperm.append_right queue.turnedAway).symm
    have hnodup := List.nodup_cons.1 (hperm.nodup_iff.1 h.nodup_order)
    refine Tidy.wakeWaiters ⟨h.active_eq, h.active_le, ?_, h.fifo.sublist hsub, ?_, ?_, ?_,
      h.released⟩
    · exact List.eraseP_sublist.length_le.trans h.waiters_le
    · intro permit hmem
      refine h.asked permit (hall.mem_iff.1 ?_)
      rwa [← hturned]
    · intro permit hmem hturn
      have hturn' : permit ∈ queue.turnedAway ++ [waiter.permit] := by rwa [← hturned]
      obtain hturn' | hsame := List.mem_append.1 hturn'
      · exact h.apart permit (hsub.subset hmem) hturn'
      · rw [List.mem_singleton.1 hsame] at hmem
        exact hnodup.1 hmem
    · intro permit hlt
      have hmem := hall.mem_iff.2 (h.settled permit hlt)
      rwa [← hturned] at hmem

theorem filter_released (permits released : List ℕ) (permit : ℕ) :
    permits.filter (· ∉ released ++ [permit]) =
      (permits.filter (· ∉ released)).filter (· != permit) := by
  rw [List.filter_filter]
  refine List.filter_congr fun other _ => ?_
  rw [Bool.eq_iff_iff]
  simp [and_comm]

theorem Sound.release (h : queue.Sound) (permit : ℕ) : (queue.release permit).Sound := by
  unfold AsyncPermitQueue.release
  split
  · rename_i hmem
    obtain ⟨hgranted, hreleased⟩ := hmem
    have hheld : permit ∈ queue.held := by
      rw [held, List.mem_filter]
      exact ⟨hgranted, decide_eq_true hreleased⟩
    have hnodup : queue.held.Nodup := h.nodup_order.of_append_left.filter _
    refine Tidy.wakeWaiters ⟨?_, ?_, h.waiters_le, h.fifo, h.asked, h.apart, h.settled, ?_⟩
    · change queue.active - 1 = ((queue.granted.filter (· ∉ queue.released ++ [permit])).length : ℤ)
      rw [filter_released, ← held, ← hnodup.erase_eq_filter, List.length_erase_of_mem hheld,
        h.active_eq, Nat.cast_pred (List.length_pos_of_mem hheld)]
    · exact (sub_le_self _ Int.one_nonneg).trans h.active_le
    · exact List.forall_mem_append.2 ⟨h.released, List.forall_mem_singleton.2 hgranted⟩
  · exact h

/-! ### What becomes of permits -/

theorem acquire_frame (queue : AsyncPermitQueue ρ) (key : String) :
    (queue.acquire key).maxActive = queue.maxActive ∧
      (queue.acquire key).maxWaiters = queue.maxWaiters ∧
      (queue.acquire key).calls = queue.calls + 1 ∧
      queue.granted <+: (queue.acquire key).granted := by
  unfold AsyncPermitQueue.acquire
  dsimp only
  split
  · exact ⟨rfl, rfl, rfl, List.prefix_append _ _⟩
  · split <;> exact ⟨rfl, rfl, rfl, List.prefix_refl _⟩

/-- What is granted stays so. -/
theorem wakeFrom_granted (queue : AsyncPermitQueue ρ) (waiters : List PermitWaiter)
    {granted : List ℕ} (h : granted <+: queue.granted) :
    granted <+: (queue.wakeFrom waiters).granted := by
  induction waiters generalizing queue with
  | nil => exact h
  | cons waiter waiters ih =>
    rw [wakeFrom]
    split
    · exact ih _ (h.trans (List.prefix_append _ _))
    · exact h

theorem cancel_frame (queue : AsyncPermitQueue ρ) (key : String) (reason : ρ) :
    (queue.cancel key reason).1.maxActive = queue.maxActive ∧
      (queue.cancel key reason).1.maxWaiters = queue.maxWaiters ∧
      (queue.cancel key reason).1.calls = queue.calls ∧
      (queue.cancel key reason).1.refused = queue.refused ∧
      queue.granted <+: (queue.cancel key reason).1.granted := by
  unfold AsyncPermitQueue.cancel
  split
  · exact ⟨rfl, rfl, rfl, rfl, List.prefix_refl _⟩
  · obtain ⟨hactive, hwaiters, hcalls, hrefused, -, -⟩ := wakeFrom_frame _ _
    exact ⟨hactive, hwaiters, hcalls, hrefused, wakeFrom_granted _ _ (List.prefix_refl _)⟩

theorem release_frame (queue : AsyncPermitQueue ρ) (permit : ℕ) :
    (queue.release permit).maxActive = queue.maxActive ∧
      (queue.release permit).maxWaiters = queue.maxWaiters ∧
      (queue.release permit).calls = queue.calls ∧
      (queue.release permit).refused = queue.refused ∧
      queue.granted <+: (queue.release permit).granted := by
  unfold AsyncPermitQueue.release
  split
  · obtain ⟨hactive, hwaiters, hcalls, hrefused, -, -⟩ := wakeFrom_frame _ _
    exact ⟨hactive, hwaiters, hcalls, hrefused, wakeFrom_granted _ _ (List.prefix_refl _)⟩
  · exact ⟨rfl, rfl, rfl, rfl, List.prefix_refl _⟩

/-- A call is refused only by a queue that is full. -/
theorem Sound.acquire_refused (h : queue.Sound) (key : String)
    (hroom : queue.outstanding.length < queue.maxActive + queue.maxWaiters) :
    (queue.acquire key).refused = queue.refused := by
  unfold AsyncPermitQueue.acquire
  dsimp only
  split
  · rfl
  · rename_i hfull
    split
    · rename_i hwaiters
      have hlength := h.length_outstanding
      omega
    · rfl

theorem outstanding_acquire (queue : AsyncPermitQueue ρ) (key : String) :
    (queue.acquire key).outstanding ⊆ queue.calls :: queue.outstanding := by
  have horder : (queue.acquire key).order ⊆ queue.calls :: queue.order ∧
      (queue.acquire key).released = queue.released := by
    unfold AsyncPermitQueue.acquire
    dsimp only
    split
    · refine ⟨fun permit hmem => ?_, rfl⟩
      simp only [order, List.mem_append, List.mem_cons] at hmem ⊢
      tauto
    · split
      · exact ⟨List.subset_cons_self _ _, rfl⟩
      · refine ⟨fun permit hmem => ?_, rfl⟩
        simp only [order, List.map_append, List.mem_append, List.mem_cons, List.map_cons,
          List.map_nil, List.not_mem_nil] at hmem ⊢
        tauto
  intro permit hmem
  rw [outstanding, List.mem_filter, horder.2] at hmem
  refine (List.mem_cons.1 (horder.1 hmem.1)).elim (fun hsame => hsame ▸ List.mem_cons_self)
    fun hold => List.mem_cons_of_mem _ (List.mem_filter.2 ⟨hold, hmem.2⟩)

theorem outstanding_cancel (queue : AsyncPermitQueue ρ) (key : String) (reason : ρ) :
    (queue.cancel key reason).1.outstanding ⊆ queue.outstanding := by
  unfold AsyncPermitQueue.cancel
  split
  · exact List.Subset.refl _
  · rename_i waiter hfind
    rw [wakeWaiters_outstanding]
    exact ((erased_order hfind).1.filter _).subset

/-- A permit that was granted is not outstanding after it is released. -/
theorem outstanding_release (queue : AsyncPermitQueue ρ) {permit : ℕ}
    (hgranted : permit ∈ queue.granted) :
    (queue.release permit).outstanding ⊆ queue.outstanding.filter (· != permit) := by
  unfold AsyncPermitQueue.release
  split
  · rw [wakeWaiters_outstanding]
    have hsame := filter_released queue.order queue.released permit
    exact fun other hmem => (congrArg (other ∈ ·) hsame).mp hmem
  · rename_i hnot
    have hreleased : permit ∈ queue.released := by
      by_contra hreleased
      exact hnot ⟨hgranted, hreleased⟩
    intro other hmem
    rw [outstanding, List.mem_filter, decide_eq_true_iff] at hmem
    refine List.mem_filter.2 ⟨List.mem_filter.2 ⟨hmem.1, decide_eq_true hmem.2⟩, ?_⟩
    exact bne_iff_ne.2 fun hsame => hmem.2 (hsame ▸ hreleased)

end AsyncPermitQueue

/-! ## Every run of calls -/

/-- A call of a queue, or of one of the release functions that it gave away. -/
inductive PermitCall (ρ : Type)
  | acquire (key : String)
  | cancel (key : String) (reason : ρ)
  | release (permit : ℕ)

namespace AsyncPermitQueue

variable {ρ : Type}

def step (queue : AsyncPermitQueue ρ) : PermitCall ρ → AsyncPermitQueue ρ
  | .acquire key => queue.acquire key
  | .cancel key reason => (queue.cancel key reason).1
  | .release permit => queue.release permit

theorem Sound.step {queue : AsyncPermitQueue ρ} (h : queue.Sound) (call : PermitCall ρ) :
    (queue.step call).Sound := by
  match call with
  | .acquire key => exact h.acquire key
  | .cancel key reason => exact h.cancel key reason
  | .release permit => exact h.release permit

theorem step_frame (queue : AsyncPermitQueue ρ) (call : PermitCall ρ) :
    (queue.step call).maxActive = queue.maxActive ∧
      (queue.step call).maxWaiters = queue.maxWaiters ∧
      queue.granted <+: (queue.step call).granted := by
  match call with
  | .acquire key =>
    obtain ⟨hactive, hwaiters, -, hgranted⟩ := queue.acquire_frame key
    exact ⟨hactive, hwaiters, hgranted⟩
  | .cancel key reason =>
    obtain ⟨hactive, hwaiters, -, -, hgranted⟩ := queue.cancel_frame key reason
    exact ⟨hactive, hwaiters, hgranted⟩
  | .release permit =>
    obtain ⟨hactive, hwaiters, -, -, hgranted⟩ := queue.release_frame permit
    exact ⟨hactive, hwaiters, hgranted⟩

/-- A new queue. -/
def create (ρ : Type) (maxActive maxWaiters : ℕ) : AsyncPermitQueue ρ := { maxActive, maxWaiters }

theorem sound_create (maxActive maxWaiters : ℕ) : (create ρ maxActive maxWaiters).Sound := by
  refine ⟨⟨rfl, Int.natCast_nonneg _, Nat.zero_le _, List.Pairwise.nil, ?_, ?_, ?_, ?_⟩,
    fun hne => absurd rfl hne⟩
  · exact fun permit hmem => absurd hmem List.not_mem_nil
  · exact fun permit hmem => absurd hmem List.not_mem_nil
  · exact fun permit hlt => absurd hlt (Nat.not_lt_zero _)
  · exact fun permit hmem => absurd hmem List.not_mem_nil

/-- The limits of a queue stay. -/
theorem run_frame (maxActive maxWaiters : ℕ) (calls : List (PermitCall ρ)) :
    (Run.run step (create ρ maxActive maxWaiters) calls).maxActive = maxActive ∧
      (Run.run step (create ρ maxActive maxWaiters) calls).maxWaiters = maxWaiters := by
  refine Run.invariant (I := fun queue : AsyncPermitQueue ρ =>
    queue.maxActive = maxActive ∧ queue.maxWaiters = maxWaiters) (fun queue call h => ?_)
    ⟨rfl, rfl⟩ calls
  obtain ⟨hactive, hwaiters, -⟩ := queue.step_frame call
  exact ⟨hactive.trans h.1, hwaiters.trans h.2⟩

theorem sound_run (maxActive maxWaiters : ℕ) (calls : List (PermitCall ρ)) :
    (Run.run step (create ρ maxActive maxWaiters) calls).Sound :=
  Run.invariant (fun _ call h => h.step call) (sound_create maxActive maxWaiters) calls

/-- The third call is refused, the second gets the permit of the first, once. -/
example : Run.run step (create ℕ 1 1)
    [.acquire "a", .acquire "b", .acquire "c", .release 0, .release 0] =
      { maxActive := 1, maxWaiters := 1, active := 1, calls := 3, granted := [0, 1], refused := [2],
        released := [0] } := by decide

end AsyncPermitQueue

end Tabulark.Engine
