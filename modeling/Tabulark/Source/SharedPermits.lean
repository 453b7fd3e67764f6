import Tabulark.Source.SharedWaiters

/-!
# Permits of shared requests

No more requests are with the provider at a time than the accessor allows, no permit is lost, and a
task waits for one only if all are given (`Permitted`). So no read is ever stuck: as long as one has
not ended, something can happen that is not the doing of its caller (`no_read_stuck`).
-/

namespace Tabulark.Source

open Numbered

/-! ## The invariant -/

/-- A task has asked the provider. -/
def FetchTask.isRequested (t : FetchTask) : Bool := t.state == .requested

/-- A task that ends. -/
def FetchTask.finish (t : FetchTask) : FetchTask := { t with state := .ended }

/-- The permits that are given are those of the requests, and the queue has the tasks that wait. -/
structure Permitted (limit : ℕ) (closed : Bool) (tasks : List FetchTask) (providerQueue : List ℕ)
    (providerReads : ℕ) : Prop where
  reads : providerReads = tasks.countP FetchTask.isRequested
  le : providerReads ≤ limit
  nodup : providerQueue.Nodup
  queue : ∀ i, i ∈ providerQueue ↔ ∃ t, tasks[i]? = some t ∧ t.state = .queued
  full : providerQueue ≠ [] → providerReads = limit
  ended : closed = true → providerQueue = []

namespace SharedSource

variable {source : List UInt8} {limit : ℕ} {w : SharedSource} {pending task : ℕ}
  {p : PendingRange} {t : FetchTask}

def Permitted (limit : ℕ) (w : SharedSource) : Prop :=
  Source.Permitted limit w.closed w.tasks w.providerQueue w.providerReads

/-! ## Tasks that end -/

theorem failTask_tasks (ht : w.tasks[task]? = some t) (fault : ReadFault) :
    (w.failTask task fault).tasks = w.tasks.modify task FetchTask.finish := by
  rw [failTask, ht]
  rfl

theorem releaseProviderPermit_of_nil (h : w.providerQueue = []) :
    w.releaseProviderPermit = { w with providerReads := w.providerReads - 1 } := by
  rw [releaseProviderPermit]
  dsimp only
  split
  · rw [rejectQueue]
    dsimp only
    rw [h]
    rfl
  · rw [h]

theorem releaseProviderPermit_of_cons (hopen : w.closed = false) {first : ℕ} {queue : List ℕ}
    (h : w.providerQueue = first :: queue) : w.releaseProviderPermit = { w with
      tasks := w.tasks.modify first fun t => { t with state := .requested }
      providerQueue := queue
      providerReads := w.providerReads - 1 + 1 } := by
  rw [releaseProviderPermit]
  dsimp only
  rw [if_neg (by rw [hopen]; exact Bool.false_ne_true), h]
  rfl

/-- A task that changes no longer waits for a permit. -/
theorem exists_queued_modify {tasks : List FetchTask} {f : FetchTask → FetchTask}
    (hf : ∀ t, (f t).state ≠ .queued) {i : ℕ} :
    (∃ t, (tasks.modify task f)[i]? = some t ∧ t.state = .queued) ↔
      i ≠ task ∧ ∃ t, tasks[i]? = some t ∧ t.state = .queued := by
  rw [List.getElem?_modify]
  by_cases hi : task = i
  · subst hi
    refine iff_of_false ?_ fun h => h.1 rfl
    rintro ⟨t, ht, hstate⟩
    obtain ⟨t', -, rfl⟩ := Option.map_eq_some_iff.1 ht
    exact hf t' (by simpa using hstate)
  · simp [hi, Ne.symm hi]

theorem finish_state_ne (t : FetchTask) : t.finish.state ≠ .queued := nofun

theorem ne_of_state (ht : w.tasks[task]? = some t) {i : ℕ} {t' : FetchTask}
    (ht' : w.tasks[i]? = some t') (hstate : t.state ≠ t'.state) : i ≠ task := by
  rintro rfl
  exact hstate (congrArg FetchTask.state (Option.some.inj (ht.symm.trans ht')))

/-- A request that ends gives its permit to the next task that waits for one. -/
theorem Permitted.endRequested (h : w.Permitted limit) (ht : w.tasks[task]? = some t)
    (hstate : t.state = .requested) : Source.Permitted limit w.closed
      (w.releaseProviderPermit.tasks.modify task FetchTask.finish)
      w.releaseProviderPermit.providerQueue w.releaseProviderPermit.providerReads := by
  have hrequested : t.isRequested = true := by rw [FetchTask.isRequested, hstate]; rfl
  have hpos : 0 < w.providerReads := by
    rw [h.reads]
    exact List.countP_pos_iff.2 ⟨t, List.mem_of_getElem? ht, hrequested⟩
  have hle := h.le
  cases hqueue : w.providerQueue with
  | nil =>
    have hcount := countP_modify (p := FetchTask.isRequested) (f := FetchTask.finish) ht
    rw [if_pos hrequested, if_neg (by simp [FetchTask.isRequested, FetchTask.finish]),
      Nat.add_zero, ← h.reads] at hcount
    rw [releaseProviderPermit_of_nil hqueue]
    refine ⟨by dsimp only; omega, by dsimp only; omega, hqueue ▸ .nil, fun i => ?_,
      fun hne => absurd hqueue hne, fun _ => hqueue⟩
    rw [exists_queued_modify finish_state_ne]
    refine (h.queue i).trans (iff_and_self.2 ?_)
    rintro ⟨t', ht', hqueued⟩
    exact ne_of_state ht ht' (by rw [hstate, hqueued]; nofun)
  | cons first queue =>
    have hopen : w.closed = false := by
      by_contra hclosed
      rw [h.ended (Bool.not_eq_false _ ▸ hclosed)] at hqueue
      cases hqueue
    obtain ⟨first', hfirst, hqueued⟩ := (h.queue first).1 (hqueue ▸ List.mem_cons_self)
    have hne : first ≠ task := ne_of_state ht hfirst (by rw [hstate, hqueued]; nofun)
    obtain ⟨hnotin, hnodup⟩ := List.nodup_cons.1 (hqueue ▸ h.nodup)
    have hfull := h.full (by rw [hqueue]; exact List.cons_ne_nil _ _)
    have hcount := countP_modify (p := FetchTask.isRequested)
      (f := fun t => { t with state := .requested }) hfirst
    have ht' : (w.tasks.modify first fun t => { t with state := .requested })[task]? = some t := by
      rw [List.getElem?_modify_ne _ _ hne, ht]
    have hcount' := countP_modify (p := FetchTask.isRequested) (f := FetchTask.finish) ht'
    rw [if_neg (by simp [FetchTask.isRequested, hqueued]), Nat.add_zero, ← h.reads,
      if_pos (by rfl)] at hcount
    rw [if_pos hrequested, if_neg (by simp [FetchTask.isRequested, FetchTask.finish]),
      Nat.add_zero, hcount] at hcount'
    rw [releaseProviderPermit_of_cons hopen hqueue]
    refine ⟨by dsimp only; omega, by dsimp only; omega, hnodup, fun i => ?_,
      fun _ => by dsimp only; omega, fun hclosed => ?_⟩
    · rw [exists_queued_modify finish_state_ne,
        exists_queued_modify (f := fun t => { t with state := .requested }) (fun _ => nofun),
        ← h.queue, hqueue, List.mem_cons]
      constructor
      · intro hi
        obtain ⟨t', ht', hqueued'⟩ := (h.queue i).1 (hqueue ▸ List.mem_cons_of_mem _ hi)
        exact ⟨ne_of_state ht ht' (by rw [hstate, hqueued']; nofun),
          fun heq => hnotin (heq ▸ hi), .inr hi⟩
      · rintro ⟨-, hnot, hi⟩
        exact hi.resolve_left hnot
    · exact absurd (hopen.symm.trans hclosed) Bool.false_ne_true

/-- A task that waits for a permit no longer. -/
theorem Permitted.endQueued (h : w.Permitted limit) (ht : w.tasks[task]? = some t)
    (hstate : t.state = .queued) : Source.Permitted limit w.closed
      (w.tasks.modify task FetchTask.finish) (w.providerQueue.erase task) w.providerReads := by
  have hcount := countP_modify (p := FetchTask.isRequested) (f := FetchTask.finish) ht
  rw [if_neg (by simp [FetchTask.isRequested, hstate]),
    if_neg (by simp [FetchTask.isRequested, FetchTask.finish]), Nat.add_zero, Nat.add_zero,
    ← h.reads] at hcount
  refine ⟨hcount.symm, h.le, h.nodup.erase task, fun i => ?_, fun hne => h.full fun hnil => ?_,
    fun hclosed => ?_⟩
  · rw [exists_queued_modify finish_state_ne, h.nodup.mem_erase_iff, h.queue]
  · rw [hnil] at hne
    exact hne rfl
  · rw [h.ended hclosed]
    rfl

/-- The tasks that wait for a permit when the accessor is closed. -/
theorem Permitted.rejectQueue (h : Source.Permitted limit false w.tasks w.providerQueue
    w.providerReads) : w.rejectQueue.Permitted limit := by
  have hfold (queue : List ℕ) (w : SharedSource)
      (h : Source.Permitted limit false w.tasks queue w.providerReads)
      (hnil : w.providerQueue = []) :
      (queue.foldl (fun w task => w.failTask task .closed) w).Permitted limit := by
    induction queue generalizing w with
    | nil =>
      rw [List.foldl_nil, Permitted, hnil]
      exact ⟨h.reads, h.le, h.nodup, h.queue, h.full, fun _ => rfl⟩
    | cons task queue ih =>
      obtain ⟨t, ht, hstate⟩ := (h.queue task).1 List.mem_cons_self
      have hend := Permitted.endQueued (w := { w with
        closed := false, providerQueue := task :: queue }) h ht hstate
      rw [List.erase_cons_head] at hend
      refine ih (w.failTask task .closed) ?_ ?_
      · rw [failTask_tasks ht, failTask_eq]
        exact hend
      · rw [failTask_eq]
        exact hnil
  exact hfold w.providerQueue { w with providerQueue := [] } h rfl

/-! ## Steps -/

theorem exists_queued_append {tasks : List FetchTask} {t' : FetchTask} {i : ℕ} :
    (∃ t, (tasks ++ [t'])[i]? = some t ∧ t.state = .queued) ↔
      (∃ t, tasks[i]? = some t ∧ t.state = .queued) ∨ i = tasks.length ∧ t'.state = .queued := by
  simp [getElem?_append_singleton, or_and_right, exists_or, and_assoc]

theorem Permitted.takeHole (h : w.Permitted limit) (hlimit : w.accessor.maxConcurrency = limit) :
    (w.takeHole pending p).Permitted limit := by
  rw [SharedSource.takeHole]
  split
  · exact h
  · rename_i hole holes _
    dsimp only
    split_ifs with hbusy hclosed hfree
    · exact h
    · -- Nothing is asked for any more.
      have hlast : (w.tasks ++ [⟨pending, hole, .queued⟩])[w.tasks.length]? =
          some ⟨pending, hole, .queued⟩ := getElem?_append_singleton.2 (.inr ⟨rfl, rfl⟩)
      have hcount := countP_modify (p := FetchTask.isRequested) (f := FetchTask.finish) hlast
      rw [List.countP_append, ← h.reads] at hcount
      rw [failTask_eq, Permitted, failTask_tasks hlast]
      refine ⟨hcount.symm, h.le, h.nodup, fun i => ?_, h.full, h.ended⟩
      rw [exists_queued_modify finish_state_ne]
      refine (h.queue i).trans ⟨fun hold => ?_, fun hnew => ?_⟩
      · obtain ⟨t, ht, hqueued⟩ := hold
        exact ⟨(List.getElem?_eq_some_iff.1 ht).1.ne,
          exists_queued_append.2 (.inl ⟨t, ht, hqueued⟩)⟩
      · obtain ⟨hne, hqueued⟩ := hnew
        exact (exists_queued_append.1 hqueued).resolve_right fun h => hne h.1
    · -- The provider is asked at once.
      have hcount : (w.tasks ++ [FetchTask.mk pending hole .requested]).countP
          FetchTask.isRequested = w.providerReads + 1 := by
        rw [List.countP_append, ← h.reads]
        rfl
      refine ⟨hcount.symm, hlimit ▸ hfree, h.nodup, fun i => ?_, fun hne => ?_, h.ended⟩
      · have happend := @exists_queued_append w.tasks ⟨pending, hole, .requested⟩ i
        have hrequested : TaskState.requested ≠ .queued := by rintro ⟨⟩
        exact (h.queue i).trans (happend.trans (or_iff_left fun h => hrequested h.2)).symm
      · exact absurd (h.full hne) (hlimit ▸ hfree).ne
    · -- The task waits for a permit.
      have hcount : (w.tasks ++ [FetchTask.mk pending hole .queued]).countP
          FetchTask.isRequested = w.providerReads := by
        rw [List.countP_append, ← h.reads]
        rfl
      refine ⟨hcount.symm, h.le, ?_, fun i => ?_, fun _ => ?_, fun hclosed' => ?_⟩
      · refine h.nodup.append (List.nodup_singleton _) fun i hi hlast => ?_
        obtain ⟨t, ht, -⟩ := (h.queue i).1 hi
        exact (List.getElem?_eq_some_iff.1 ht).1.ne (List.mem_singleton.1 hlast)
      · change i ∈ w.providerQueue ++ [w.tasks.length] ↔ ∃ t,
          (w.tasks ++ [⟨pending, hole, .queued⟩])[i]? = some t ∧ t.state = .queued
        rw [List.mem_append, List.mem_singleton, h.queue, exists_queued_append]
        simp
      · exact le_antisymm h.le (hlimit ▸ Nat.not_lt.1 hfree)
      · exact absurd hclosed' hclosed

/-- A request that fails. -/
theorem Permitted.failRequested (h : w.Permitted limit) (ht : w.tasks[task]? = some t)
    (hstate : t.state = .requested) (fault : ReadFault) :
    (w.releaseProviderPermit.failTask task fault).Permitted limit := by
  have hend := h.endRequested ht hstate
  rw [← releaseProviderPermit_closed] at hend
  obtain ⟨t', ht', -⟩ := releaseProviderPermit_task ht
  rw [failTask_eq, Permitted, failTask_tasks ht']
  exact hend

/-- Nothing that an event does breaks the order of the permits. -/
theorem Permitted.acts (h : w.Permitted limit) (hlimit : w.accessor.maxConcurrency = limit)
    {w' : SharedSource} (hacts : Acts source w w') : w'.Permitted limit := by
  cases hacts with
  | join hr hstate hassemble =>
    rw [SharedSource.setReader, addWaiters_eq]
    exact h
  | leave hr hwaits hresumes =>
    rw [SharedSource.setReader, releaseAll_eq]
    exact h
  | take hp => exact h.takeHole hlimit
  | answer ht hstate hopen =>
    have hend := h.endRequested ht hstate
    rw [← releaseProviderPermit_closed] at hend
    exact hend
  | fail ht hstate hfault => exact h.failRequested ht hstate _
  | @dequeue task t p ht hstate hp hcancelled =>
    have hend := h.endQueued ht hstate
    have ht' : ({ w with providerQueue := w.providerQueue.erase task } : SharedSource).tasks[
        task]? = some t := ht
    rw [failTask_eq, Permitted, failTask_tasks ht']
    exact hend
  | close =>
    rw [SharedSource.close]
    split
    · exact h
    · refine Permitted.rejectQueue ?_
      rw [cancelPendings_eq]
      exact ⟨h.reads, h.le, h.nodup, h.queue, h.full, fun hopen => (by cases hopen)⟩
  | _ => exact h

/-! ## Progress -/

/-- What is not the doing of a caller. -/
def isInternal : SourceEvent → Bool
  | .read .. | .cancel _ | .close => false
  | _ => true

/-- Something can happen that is not the doing of a caller. -/
def Moves (source : List UInt8) (w : SharedSource) : Prop :=
  ∃ event : SourceEvent, isInternal event ∧ step source w event ≠ w

/-- A request that is answered has ended. -/
theorem moves_of_requested (ht : w.tasks[task]? = some t) (hstate : t.state = .requested) :
    w.Moves source := by
  refine ⟨.answer task none, rfl, fun heq => ?_⟩
  obtain ⟨t', ht', -⟩ := releaseProviderPermit_task ht
  have htasks : (SharedSource.step source w (.answer task none)).tasks =
      w.releaseProviderPermit.tasks.modify task FetchTask.finish := by
    rw [SharedSource.step, ht]
    dsimp only [Option.elim]
    rw [if_pos hstate]
    unfold SharedSource.answerTask
    dsimp only
    split
    · exact failTask_tasks ht' _
    · rfl
  have htask := congrArg (·.tasks[task]?) heq
  rw [htasks, List.getElem?_modify_eq, ht', ht] at htask
  have hended := congrArg FetchTask.state (Option.some.inj htask)
  rw [hstate] at hended
  cases hended

/-- As long as a task has not ended, a request is with the provider. -/
theorem Permitted.moves_of_task (h : w.Permitted limit) (hpos : 0 < limit)
    (ht : w.tasks[task]? = some t) (hstate : t.state ≠ .ended) : w.Moves source := by
  cases hcase : t.state with
  | ended => exact absurd hcase hstate
  | requested => exact moves_of_requested ht hcase
  | queued =>
    -- A task waits only if all permits are given.
    have hqueue : w.providerQueue ≠ [] := fun hnil =>
      List.not_mem_nil (hnil ▸ (h.queue task).2 ⟨t, ht, hcase⟩)
    have hcount : 0 < w.tasks.countP FetchTask.isRequested := by
      rw [← h.reads, h.full hqueue]
      exact hpos
    obtain ⟨t', hmem, hrequested⟩ := List.countP_pos_iff.1 hcount
    obtain ⟨i, ht'⟩ := List.mem_iff_getElem?.1 hmem
    exact moves_of_requested ht' (by simpa [FetchTask.isRequested] using hrequested)

/-- As long as a range in flight is not settled, something happens to it or to others. -/
theorem Permitted.moves_of_pending (h : w.Permitted limit) (hpos : 0 < limit)
    (hlimit : w.accessor.maxConcurrency = limit) (hp : w.pendings[pending]? = some p)
    (houtcome : p.outcome = none) : w.Moves source := by
  by_cases hactive : w.tasks.any (isActive pending)
  · obtain ⟨t, hmem, ht⟩ := List.any_eq_true.1 hactive
    obtain ⟨i, hi⟩ := List.mem_iff_getElem?.1 hmem
    exact h.moves_of_task hpos hi (by simpa using (Bool.and_eq_true_iff.1 ht).2)
  · by_cases hholes : p.failure = none ∧ p.holes ≠ []
    · -- A worker takes on the next hole.
      refine ⟨.take pending, rfl, fun heq => ?_⟩
      have hlength := congrArg (·.tasks.length) heq
      obtain ⟨hole, holes, hcons⟩ := List.exists_cons_of_ne_nil hholes.2
      have hzero : w.tasks.countP (isActive pending) = 0 :=
        List.countP_eq_zero.2 fun t ht hactive' => hactive (List.any_eq_true.2 ⟨t, ht, hactive'⟩)
      have hstep : (SharedSource.step source w (.take pending)).tasks.length =
          w.tasks.length + 1 := by
        rw [SharedSource.step, hp]
        dsimp only [Option.elim]
        rw [SharedSource.takeHole, hcons]
        dsimp only
        rw [if_neg (by rw [hholes.1, hzero, hlimit]; simp [hpos.ne'])]
        have hlast : (w.tasks ++ [FetchTask.mk pending hole .queued])[w.tasks.length]? =
            some ⟨pending, hole, .queued⟩ := getElem?_append_singleton.2 (.inr ⟨rfl, rfl⟩)
        split_ifs
        · rw [failTask_tasks hlast, List.length_modify]
          exact List.length_append
        · exact List.length_append
        · exact List.length_append
      rw [hstep] at hlength
      exact absurd hlength (Nat.succ_ne_self _)
    · -- The promise of the range is settled.
      refine ⟨.finish pending, rfl, fun heq => ?_⟩
      have hfinish : ∃ outcome, (SharedSource.step source w (.finish pending)).pendings =
          w.pendings.modify pending fun p => { p with outcome := some outcome } := by
        rw [SharedSource.step, hp]
        dsimp only [Option.elim]
        rw [SharedSource.finishPending, if_neg (by
          rw [houtcome]
          exact not_or.2 ⟨Bool.false_ne_true, not_or.2 ⟨hactive, hholes⟩⟩)]
        split
        · exact ⟨_, rfl⟩
        · split
          · exact ⟨_, rfl⟩
          · split
            · exact ⟨_, rfl⟩
            · exact ⟨_, rfl⟩
      obtain ⟨outcome, hfinish⟩ := hfinish
      have hpending := congrArg (·.pendings[pending]?) heq
      rw [hfinish, List.getElem?_modify_eq, hp] at hpending
      have hsettled := congrArg PendingRange.outcome (Option.some.inj hpending)
      rw [houtcome] at hsettled
      cases hsettled

/-- A read that changes. -/
theorem moves_of_set {reader : ℕ} {r r' : Reader} (event : SourceEvent)
    (hinternal : isInternal event) (hr : w.readers[reader]? = some r)
    (hset : (SharedSource.step source w event).readers = w.readers.set reader r') (hne : r' ≠ r) :
    w.Moves source := by
  refine ⟨event, hinternal, fun heq => ?_⟩
  have hreader := congrArg (·.readers[reader]?) heq
  rw [hset, List.getElem?_set_self (List.getElem?_eq_some_iff.1 hr).1, hr] at hreader
  exact hne (Option.some.inj hreader)

theorem ne_of_state_ne {r r' : Reader} (h : r'.state ≠ r.state) : r' ≠ r :=
  fun heq => h (congrArg Reader.state heq)

theorem fail_ne {r : Reader} (hopen : r.Open) (fault : ReadFault) : r.fail fault ≠ r :=
  ne_of_state_ne fun heq => hopen _ heq.symm

theorem deliver_ne {r : Reader} {bytes : List UInt8} (hstate : r.state ≠ .checking)
    (hopen : r.Open) : r.deliver bytes ≠ r := by
  refine ne_of_state_ne fun hdelivered => ?_
  dsimp only [Reader.deliver] at hdelivered
  split at hdelivered
  · exact hopen _ hdelivered.symm
  · exact hstate hdelivered.symm

/-- As long as a read has not ended, something happens to it or to others. -/
theorem Permitted.moves_of_reader {initial : RangeSourceAccessor} (h : w.Permitted limit)
    (hpos : 0 < limit) (hlimit : w.accessor.maxConcurrency = limit)
    (hsound : w.Sound source initial) {reader : ℕ} {r : Reader}
    (hr : w.readers[reader]? = some r) (hopen : r.Open) : w.Moves source := by
  have hreader := hsound.of_reader hr
  cases hstate : r.state with
  | done result => exact absurd hstate (hopen result)
  | checking =>
    have hset : ∃ r', (SharedSource.step source w (.check reader)).readers =
        w.readers.set reader r' ∧ r' ≠ r := by
      rw [SharedSource.step, hr]
      dsimp only
      rw [hstate]
      dsimp only
      rw [SharedSource.checkReader]
      split
      · exact ⟨_, rfl, fail_ne hopen _⟩
      · dsimp only
        split
        · -- The part is not empty.
          rename_i bytes accessor hassemble
          refine ⟨_, rfl, fun heq => ?_⟩
          have hpart := hsound.part_pos hr hopen
          have hbytes := (hsound.assemble hreader.inherited hpart hassemble).2.2 bytes rfl
          have hlength := congrArg (·.bytes.length) heq
          dsimp only [Reader.deliver] at hlength
          rw [List.length_append, hbytes,
            length_part (Reader.partStop_le.trans (hreader.within hopen).2)] at hlength
          omega
        · split
          · exact ⟨_, rfl, ne_of_state_ne (by rw [hstate]; rintro ⟨⟩)⟩
          · dsimp only [setReader]
            rw [addWaiters_readers]
            exact ⟨_, rfl, ne_of_state_ne (by rw [hstate]; rintro ⟨⟩)⟩
    obtain ⟨r', hset, hne⟩ := hset
    exact moves_of_set _ rfl hr hset hne
  | fetching pending =>
    have hinterval := hreader.fetching pending hstate
    rw [List.getElem?_map] at hinterval
    obtain ⟨p, hp, -⟩ := Option.map_eq_some_iff.1 hinterval
    cases houtcome : p.outcome with
    | none => exact h.moves_of_pending hpos hlimit hp houtcome
    | some outcome =>
      have hset : ∃ r', (SharedSource.step source w (.resume reader)).readers =
          w.readers.set reader r' ∧ r' ≠ r := by
        rw [SharedSource.step, hr]
        dsimp only [Option.elim]
        rw [SharedSource.resumeReader, hstate]
        dsimp only
        rw [hp]
        dsimp only
        rw [houtcome]
        cases outcome with
        | ok bytes =>
          dsimp only [setReader]
          rw [releasePendingWaiter_readers]
          exact ⟨_, rfl, deliver_ne (by rw [hstate]; rintro ⟨⟩) hopen⟩
        | error fault =>
          dsimp only [setReader]
          rw [releasePendingWaiter_readers]
          exact ⟨_, rfl, fail_ne hopen _⟩
      obtain ⟨r', hset, hne⟩ := hset
      exact moves_of_set _ rfl hr hset hne
  | sharing overlap =>
    by_cases hall : overlap.all fun pending => (w.coverage pending).isSome
    · -- All ranges that the read waits for have bytes.
      have hset : ∃ r', (SharedSource.step source w (.share reader)).readers =
          w.readers.set reader r' ∧ r' ≠ r := by
        rw [SharedSource.step, hr]
        dsimp only [Option.elim]
        rw [SharedSource.shareCoverage, hstate]
        dsimp only
        rw [if_pos hall]
        split
        · dsimp only [setReader]
          rw [releaseAll_readers]
          exact ⟨_, rfl, deliver_ne (by rw [hstate]; rintro ⟨⟩) hopen⟩
        · dsimp only [setReader]
          rw [releaseAll_readers]
          exact ⟨_, rfl, ne_of_state_ne (by rw [hstate]; rintro ⟨⟩)⟩
      obtain ⟨r', hset, hne⟩ := hset
      exact moves_of_set _ rfl hr hset hne
    · -- One of them has none: it is not settled, or it has failed.
      rw [List.all_eq_true, not_forall] at hall
      obtain ⟨pending, hall⟩ := hall
      obtain ⟨hmem, hcoverage⟩ := Classical.not_imp.1 hall
      have hlt := hreader.sharing overlap hstate pending hmem
      rw [List.length_map] at hlt
      have hp := List.getElem?_eq_getElem hlt
      cases houtcome : w.pendings[pending].outcome with
      | none => exact h.moves_of_pending hpos hlimit hp houtcome
      | some outcome =>
        cases outcome with
        | ok bytes =>
          refine absurd ?_ hcoverage
          rw [coverage, hp]
          dsimp only
          rw [houtcome]
          rfl
        | error fault =>
          refine moves_of_set (.reject reader pending) rfl hr ?_ (fail_ne hopen fault)
          rw [SharedSource.step, hr]
          dsimp only [Option.elim]
          rw [SharedSource.rejectReader, hstate, hp]
          dsimp only
          rw [houtcome]
          dsimp only
          rw [if_pos hmem]
          dsimp only [setReader]
          rw [releaseAll_readers]

/-! ## Runs -/

theorem Permitted.new (size maxCacheBytes maxReadBytes : ℕ) (maxConcurrency : Option ℕ) :
    (SharedSource.new size maxCacheBytes maxReadBytes maxConcurrency).Permitted limit :=
  ⟨rfl, Nat.zero_le _, .nil, fun _ => ⟨nofun, nofun⟩, nofun, fun _ => rfl⟩

/-- Both invariants hold of a new accessor, and every event keeps them. -/
theorem permitted_after (source : List UInt8) (maxCacheBytes maxReadBytes : ℕ)
    (maxConcurrency : Option ℕ) (events : List SourceEvent) :
    let initial := RangeSourceAccessor.new source.length maxCacheBytes maxReadBytes maxConcurrency
    let w := after source (new source.length maxCacheBytes maxReadBytes maxConcurrency) events
    w.Sound source initial ∧ w.Permitted initial.maxConcurrency := by
  have hnew : (new source.length maxCacheBytes maxReadBytes maxConcurrency).Sound source
      (.new source.length maxCacheBytes maxReadBytes maxConcurrency) :=
    sound_after source maxCacheBytes maxReadBytes maxConcurrency []
  intro initial
  refine Run.invariant (I := fun w : SharedSource => w.Sound source initial ∧
    w.Permitted initial.maxConcurrency) (fun w event h => ?_) ⟨hnew, .new _ _ _ _⟩ events
  have hacts := acts_step source w event
  exact ⟨h.1.acts hacts, h.2.acts h.1.same.maxConcurrency_eq hacts⟩

/-- However reads run at the same time: no more requests are with the provider than it allows, and
    the accessor knows their number; each task that waits for a permit is in the queue once; and it
    waits only as long as all permits are given, and the accessor is open. -/
theorem permits_of_run (source : List UInt8) (maxCacheBytes maxReadBytes : ℕ)
    (maxConcurrency : Option ℕ) (events : List SourceEvent) :
    let w := after source (new source.length maxCacheBytes maxReadBytes maxConcurrency) events
    w.tasks.countP FetchTask.isRequested ≤ maxConcurrency.getD 1 ∧
    w.providerReads = w.tasks.countP FetchTask.isRequested ∧
    w.providerQueue.Nodup ∧
    (∀ i, i ∈ w.providerQueue ↔ ∃ t, w.tasks[i]? = some t ∧ t.state = .queued) ∧
    (w.providerQueue ≠ [] → w.providerReads = maxConcurrency.getD 1 ∧ w.closed = false) := by
  obtain ⟨-, h⟩ := permitted_after source maxCacheBytes maxReadBytes maxConcurrency events
  refine ⟨h.reads ▸ h.le, h.reads, h.nodup, h.queue, fun hne => ⟨h.full hne, ?_⟩⟩
  by_contra hclosed
  exact hne (h.ended (Bool.not_eq_false _ ▸ hclosed))

/-- No read is ever stuck: as long as one has not ended, however the reads, the provider and their
    callers have run so far, something can happen that is not the doing of a caller. -/
theorem no_read_stuck (source : List UInt8) (maxCacheBytes maxReadBytes : ℕ)
    (maxConcurrency : Option ℕ) (hpos : 0 < maxConcurrency.getD 1) (events : List SourceEvent)
    {r : Reader}
    (hr : r ∈ (after source (new source.length maxCacheBytes maxReadBytes maxConcurrency)
      events).readers) (hopen : r.Open) :
    ∃ event : SourceEvent, isInternal event ∧
      after source (new source.length maxCacheBytes maxReadBytes maxConcurrency)
        (events ++ [event]) ≠
      after source (new source.length maxCacheBytes maxReadBytes maxConcurrency) events := by
  obtain ⟨hsound, h⟩ := permitted_after source maxCacheBytes maxReadBytes maxConcurrency events
  obtain ⟨reader, hr⟩ := List.mem_iff_getElem?.1 hr
  obtain ⟨event, hinternal, hne⟩ :=
    h.moves_of_reader hpos hsound.same.maxConcurrency_eq hsound hr hopen
  refine ⟨event, hinternal, ?_⟩
  rwa [after, Run.run_append]

theorem no_read_stuck_new : ∃ event : SourceEvent, isInternal event ∧
    after [1, 2, 3] (new 3 10 2 none) ([.read 0 3, .check 0] ++ [event]) ≠
    after [1, 2, 3] (new 3 10 2 none) [.read 0 3, .check 0] :=
  no_read_stuck [1, 2, 3] 10 2 none Nat.one_pos [.read 0 3, .check 0]
    (r := { offset := 0, stop := 3, state := .fetching 0 })
    (List.mem_of_getElem? (i := 0) (by with_unfolding_all rfl)) nofun

end SharedSource

end Tabulark.Source
