import Tabulark.Source.SharedReads

/-!
# Ranges in flight

Until the accessor is closed, a range in flight knows how many reads wait for it, and is cancelled
only when none does. So a read that ends as cancelled was cancelled itself, however many reads
share its ranges; and no two ranges that somebody waits for have bytes in common (`Tracked`,
`ranges_in_flight`).
-/

namespace Tabulark.Source

open Numbered

/-! ## The invariant -/

/-- What a range in flight owes those that wait for it. -/
structure PendingRange.Tidy (p : PendingRange) : Prop where
  waiters_eq : p.cancelled → p.waiters = 0
  left : p.waiters = 0 → p.cancelled ∨ p.settled
  failure : p.failure = some .cancelled → p.cancelled
  outcome : p.outcome = some (.error .cancelled) → p.cancelled

/-- Intervals that have no position in common. -/
def ReadInterval.Apart (left right : ReadInterval) : Prop :=
  left.stop ≤ right.offset ∨ right.stop ≤ left.offset

/-- Somebody leaves a range in flight. -/
def PendingRange.leave (p : PendingRange) : PendingRange :=
  { p with
    waiters := p.waiters - 1
    cancelled := p.cancelled || (decide (p.waiters - 1 = 0) && !p.settled) }

/-- A read waits for a range in flight. -/
def Reader.waitsFor (pending : ℕ) (r : Reader) : Bool := decide (pending ∈ r.awaits)

/-- What the waiting of a read is about. -/
structure Reader.Tidy (pendings : List PendingRange) (r : Reader) : Prop where
  valid : ∀ pending ∈ r.awaits, pending < pendings.length
  nodup : r.awaits.Nodup
  cancelled : r.state = .done (.error .cancelled) → r.cancelled

/-- Ranges in flight of an open accessor, and the reads that wait for them. -/
structure InFlight (closed : Bool) (pendings : List PendingRange) (inflight : List ℕ)
    (readers : List Reader) : Prop where
  opened : closed = false
  waiters : ∀ (i : ℕ) (p : PendingRange), pendings[i]? = some p →
    p.waiters = readers.countP (Reader.waitsFor i)
  ranges : ∀ p ∈ pendings, p.Tidy
  reads : ∀ r ∈ readers, r.Tidy pendings
  nodup : inflight.Nodup
  inflight : ∀ i, i ∈ inflight ↔
    ∃ p, pendings[i]? = some p ∧ (p.waiters = 0 → p.settled = false)
  apart : ∀ (i j : ℕ) (p q : PendingRange), i ≠ j → pendings[i]? = some p →
    pendings[j]? = some q → 0 < p.waiters → 0 < q.waiters → p.Apart q.toReadInterval

theorem PendingRange.Tidy.leave {p : PendingRange} (h : p.Tidy) : p.leave.Tidy := by
  have hleft := h.waiters_eq
  refine ⟨fun hcancelled => ?_, fun hzero => ?_, fun hfailure => ?_, fun houtcome => ?_⟩
  · dsimp only [PendingRange.leave] at hcancelled ⊢
    rw [Bool.or_eq_true] at hcancelled
    rcases hcancelled with hcancelled | hlast
    · rw [h.waiters_eq hcancelled]
    · exact of_decide_eq_true (Bool.and_eq_true_iff.1 hlast).1
  · dsimp only [PendingRange.leave] at hzero ⊢
    cases p.settled with
    | true => exact .inr rfl
    | false => simp [hzero]
  · exact Bool.or_eq_true_iff.2 (.inl (h.failure hfailure))
  · exact Bool.or_eq_true_iff.2 (.inl (h.outcome houtcome))

namespace SharedSource

def Tracked (w : SharedSource) : Prop := InFlight w.closed w.pendings w.inflight w.readers

variable {w : SharedSource} {reader pending task : ℕ} {r r' : Reader} {p : PendingRange}
  {t : FetchTask}

/-! ## Leaving -/

theorem releasePendingWaiter_of_some (hp : w.pendings[pending]? = some p) :
    w.releasePendingWaiter pending = { w with
      pendings := w.pendings.modify pending PendingRange.leave
      inflight := if p.waiters - 1 = 0 ∧ p.settled then w.inflight.erase pending
        else w.inflight } := by
  have hlt := (List.getElem?_eq_some_iff.1 hp).1
  have hset (p' : PendingRange) : (w.pendings.set pending p')[pending]? = some p' := by
    rw [List.getElem?_set_self hlt]
  rw [releasePendingWaiter, hp]
  dsimp only [modifyPending, removePending]
  rw [modify_eq_set hp, modify_eq_set hp, modify_eq_set (hset _), List.set_set, PendingRange.leave]
  cases hsettled : p.settled with
  | false =>
    by_cases hzero : p.waiters - 1 = 0
    · simp [hzero]
    · simp [hzero]
  | true =>
    by_cases hzero : p.waiters - 1 = 0
    · simp [hzero]
    · simp [hzero]

/-- Those that a read waits for lose a waiter, and those that nobody waits for any more are
    removed once they are settled. -/
theorem releaseAll_spec {pendings : List ℕ} (hnodup : pendings.Nodup)
    (hvalid : ∀ i ∈ pendings, i < w.pendings.length) (hinflight : w.inflight.Nodup) :
    (∀ i, (w.releaseAll pendings).pendings[i]? =
        w.pendings[i]?.map fun p => if i ∈ pendings then p.leave else p) ∧
      (w.releaseAll pendings).inflight.Nodup ∧
      ∀ i, i ∈ (w.releaseAll pendings).inflight ↔ i ∈ w.inflight ∧
        ∀ p, i ∈ pendings → w.pendings[i]? = some p → ¬(p.waiters - 1 = 0 ∧ p.settled) := by
  induction pendings generalizing w with
  | nil => exact ⟨fun i => by simp [releaseAll], hinflight, fun i => by simp [releaseAll]⟩
  | cons first pendings ih =>
    obtain ⟨hfirst, hnodup⟩ := List.nodup_cons.1 hnodup
    have hlt := hvalid first List.mem_cons_self
    have hp := List.getElem?_eq_getElem hlt
    have hstep : w.releaseAll (first :: pendings) =
        releaseAll { w with
          pendings := w.pendings.modify first PendingRange.leave
          inflight := if w.pendings[first].waiters - 1 = 0 ∧ w.pendings[first].settled then
            w.inflight.erase first else w.inflight } pendings := by
      rw [← releasePendingWaiter_of_some hp]
      rfl
    have hnodup' : (if w.pendings[first].waiters - 1 = 0 ∧ w.pendings[first].settled then
        w.inflight.erase first else w.inflight).Nodup := by
      split
      · exact hinflight.erase first
      · exact hinflight
    rw [hstep]
    obtain ⟨hpendings, hrest, hmem⟩ := ih (w := { w with
      pendings := w.pendings.modify first PendingRange.leave
      inflight := if w.pendings[first].waiters - 1 = 0 ∧ w.pendings[first].settled then
        w.inflight.erase first else w.inflight }) hnodup
      (fun i hi => by
        rw [List.length_modify]
        exact hvalid i (List.mem_cons_of_mem _ hi)) hnodup'
    refine ⟨fun i => ?_, hrest, fun i => ?_⟩
    · rw [hpendings, List.getElem?_modify]
      cases w.pendings[i]? with
      | none => rfl
      | some p =>
        refine congrArg some ?_
        by_cases hi : first = i
        · subst hi
          simp [hfirst]
        · simp [hi, Ne.symm hi]
    · rw [hmem, List.getElem?_modify]
      by_cases hi : first = i
      · -- Nobody leaves it a second time.
        subst hi
        simp only [hfirst, false_implies, implies_true, and_true, List.mem_cons_self, true_implies,
          hp, Option.some.injEq, forall_eq']
        split_ifs with hlast
        · exact iff_of_false (hinflight.mem_erase_iff.not.2 fun h => h.1 rfl) fun h => h.2 hlast
        · exact (and_iff_left hlast).symm
      · have hmem' : i ∈ (if w.pendings[first].waiters - 1 = 0 ∧ w.pendings[first].settled then
            w.inflight.erase first else w.inflight) ↔ i ∈ w.inflight := by
          split
          · exact List.mem_erase_of_ne (Ne.symm hi)
          · exact Iff.rfl
        simp [hmem', hi, Ne.symm hi]

/-- A count changes with what one read waits for. -/
theorem countP_waitsFor (hr : w.readers[reader]? = some r) (r' : Reader) (i : ℕ) :
    (w.readers.set reader r').countP (Reader.waitsFor i) + (if i ∈ r.awaits then 1 else 0) =
      w.readers.countP (Reader.waitsFor i) + if i ∈ r'.awaits then 1 else 0 := by
  simpa [Reader.waitsFor] using countP_set (p := Reader.waitsFor i) (b := r') hr

/-- Ranges in flight that change with those that wait for them. -/
theorem Tracked.rewire (h : w.Tracked) {pendings : List PendingRange} {inflight : List ℕ}
    {readers : List Reader} (g : ℕ → PendingRange → PendingRange)
    (hpendings : ∀ i, pendings[i]? = w.pendings[i]?.map (g i))
    (hg : ∀ i p, w.pendings[i]? = some p → p.Tidy → (g i p).toReadInterval = p.toReadInterval ∧
      (g i p).Tidy ∧ (0 < (g i p).waiters → 0 < p.waiters) ∧
      (g i p).waiters = readers.countP (Reader.waitsFor i))
    (hreads : ∀ r ∈ readers, r.Tidy w.pendings) (hnodup : inflight.Nodup)
    (hinflight : ∀ i, i ∈ inflight ↔
      ∃ p, pendings[i]? = some p ∧ (p.waiters = 0 → p.settled = false)) :
    InFlight w.closed pendings inflight readers := by
  have hlength : pendings.length = w.pendings.length :=
    length_eq fun i => by rw [hpendings, Option.isSome_map]
  have hold {i : ℕ} {p' : PendingRange} (hp' : pendings[i]? = some p') :
      ∃ p, w.pendings[i]? = some p ∧ p' = g i p ∧ p.Tidy := by
    rw [hpendings] at hp'
    obtain ⟨p, hp, rfl⟩ := Option.map_eq_some_iff.1 hp'
    exact ⟨p, hp, rfl, h.ranges p (List.mem_of_getElem? hp)⟩
  refine ⟨h.opened, fun i p' hp' => ?_, fun p' hp' => ?_, fun r hr => ?_, hnodup, hinflight,
    fun i j p' q' hne hp' hq' hpos hpos' => ?_⟩
  · obtain ⟨p, hp, rfl, htidy⟩ := hold hp'
    exact (hg i p hp htidy).2.2.2
  · obtain ⟨i, hp'⟩ := List.mem_iff_getElem?.1 hp'
    obtain ⟨p, hp, rfl, htidy⟩ := hold hp'
    exact (hg i p hp htidy).2.1
  · obtain ⟨hvalid, hnodup, hcancelled⟩ := hreads r hr
    exact ⟨fun i hi => hlength.symm ▸ hvalid i hi, hnodup, hcancelled⟩
  · obtain ⟨p, hp, rfl, htidy⟩ := hold hp'
    obtain ⟨q, hq, rfl, htidy'⟩ := hold hq'
    obtain ⟨hinterval, -, hpositive, -⟩ := hg i p hp htidy
    obtain ⟨hinterval', -, hpositive', -⟩ := hg j q hq htidy'
    rw [hinterval, hinterval']
    exact h.apart i j p q hne hp hq (hpositive hpos) (hpositive' hpos')

/-- A read that waits for nothing any more. -/
theorem Tracked.leave (h : w.Tracked) (hr : w.readers[reader]? = some r) (hr' : r'.awaits = [])
    (hcancelled : r'.state = .done (.error .cancelled) → r'.cancelled) :
    ((w.releaseAll r.awaits).setReader reader r').Tracked := by
  have htidy := h.reads r (List.mem_of_getElem? hr)
  obtain ⟨hpendings, hnodup, hinflight⟩ := releaseAll_spec htidy.nodup htidy.valid h.nodup
  have hclosed : (w.releaseAll r.awaits).closed = w.closed := by rw [releaseAll_eq]
  rw [Tracked, SharedSource.setReader]
  dsimp only
  rw [hclosed, releaseAll_readers]
  refine h.rewire _ hpendings (fun i p hp htidy => ?_) ?_ hnodup fun i => ?_
  · -- The counts of those that the read waited for go down with it.
    have hcount := countP_waitsFor hr r' i
    have hwaiters := h.waiters i p hp
    rw [hr', if_neg List.not_mem_nil] at hcount
    split_ifs at hcount ⊢ with hi
    · refine ⟨rfl, htidy.leave, fun hpos => hpos.trans_le (Nat.sub_le _ _), ?_⟩
      dsimp only [PendingRange.leave]
      omega
    · exact ⟨rfl, htidy, id, by omega⟩
  · refine forall_set h.reads ⟨?_, ?_, hcancelled⟩
    · simp [hr']
    · simp [hr']
  · rw [hinflight, h.inflight, hpendings]
    cases w.pendings[i]? with
    | none => simp
    | some p =>
      by_cases hi : i ∈ r.awaits
      · simp only [hi, Option.some.injEq, exists_eq_left', true_implies, forall_eq', not_and,
          Bool.not_eq_true, Option.map_some, if_true, PendingRange.leave]
        exact and_iff_right_of_imp fun hlast hzero => hlast (by rw [hzero])
      · simp [hi]

/-! ## Joining -/

theorem addWaiters_spec {overlap : List ℕ} (hnodup : overlap.Nodup) :
    (∀ i, (overlap.foldl addWaiter w).pendings[i]? = w.pendings[i]?.map fun p =>
        if i ∈ overlap then { p with waiters := p.waiters + 1 } else p) ∧
      (overlap.foldl addWaiter w).inflight = w.inflight := by
  induction overlap generalizing w with
  | nil => exact ⟨fun i => by simp, rfl⟩
  | cons first overlap ih =>
    obtain ⟨hfirst, hnodup⟩ := List.nodup_cons.1 hnodup
    obtain ⟨hpendings, hinflight⟩ := ih (w := w.addWaiter first) hnodup
    refine ⟨fun i => ?_, hinflight⟩
    rw [List.foldl_cons, hpendings, addWaiter, modifyPending, List.getElem?_modify]
    cases w.pendings[i]? with
    | none => rfl
    | some p =>
      refine congrArg some ?_
      by_cases hi : first = i
      · subst hi
        simp [hfirst]
      · simp [hi, Ne.symm hi]

/-- A read that waits for ranges that somebody waits for. -/
theorem Tracked.join (h : w.Tracked) (hr : w.readers[reader]? = some r) (hnone : r.awaits = [])
    (offset stop : ℕ) : (((w.overlap offset stop).foldl addWaiter w).setReader reader
      { r with state := .sharing (w.overlap offset stop) }).Tracked := by
  have hoverlap : (w.overlap offset stop).Nodup := h.nodup.filter _
  obtain ⟨hpendings, hinflight⟩ := addWaiters_spec (w := w) hoverlap
  have hclosed : ((w.overlap offset stop).foldl addWaiter w).closed = w.closed := by
    rw [addWaiters_eq]
  -- Only those get a waiter that have one.
  have hpositive {i : ℕ} {p : PendingRange} (hp : w.pendings[i]? = some p)
      (hi : i ∈ w.overlap offset stop) : 0 < p.waiters := by
    obtain ⟨-, p', hp', hpos, -⟩ := mem_overlap hi
    rwa [Option.some.inj (hp.symm.trans hp')]
  rw [Tracked, SharedSource.setReader]
  dsimp only
  rw [hclosed, addWaiters_readers, hinflight]
  refine h.rewire _ hpendings (fun i p hp htidy => ?_) ?_ h.nodup fun i => ?_
  · have hcount := countP_waitsFor hr { r with state := .sharing (w.overlap offset stop) } i
    have hwaiters := h.waiters i p hp
    rw [hnone, if_neg List.not_mem_nil, Nat.add_zero] at hcount
    change _ = _ + if i ∈ w.overlap offset stop then 1 else 0 at hcount
    split_ifs at hcount ⊢ with hi
    · have hpos := hpositive hp hi
      exact ⟨rfl, ⟨fun hcancelled => absurd (htidy.waiters_eq hcancelled) hpos.ne',
        fun hzero => absurd hzero (Nat.succ_ne_zero _), htidy.failure, htidy.outcome⟩,
        fun _ => hpos, by dsimp only; omega⟩
    · exact ⟨rfl, htidy, id, by omega⟩
  · refine forall_set h.reads ⟨fun i hi => ?_, hoverlap, fun hdone => (by cases hdone)⟩
    obtain ⟨-, p, hp, -⟩ := mem_overlap hi
    exact (List.getElem?_eq_some_iff.1 hp).1
  · rw [h.inflight, hpendings]
    cases hp : w.pendings[i]? with
    | none => simp
    | some p =>
      by_cases hi : i ∈ w.overlap offset stop
      · simp [hi, (hpositive hp hi).ne']
      · simp [hi]

/-! ## A new range in flight -/

/-- A read that puts its part in flight, which no range has that somebody waits for. -/
theorem Tracked.begin (h : w.Tracked) (hr : w.readers[reader]? = some r) (hnone : r.awaits = [])
    {stop : ℕ} (halone : w.overlap r.cursor stop = []) :
    (w.beginPending reader r stop).Tracked := by
  have hcount : w.readers.countP (Reader.waitsFor w.pendings.length) = 0 := by
    refine List.countP_eq_zero.2 fun r hr => ?_
    rw [Reader.waitsFor, decide_eq_true_eq]
    exact fun hmem => lt_irrefl _ ((h.reads r hr).valid _ hmem)
  -- The ranges that somebody waits for are in flight, and have nothing of the part.
  have hapart {i : ℕ} {p : PendingRange} (hp : w.pendings[i]? = some p) (hpos : 0 < p.waiters) :
      p.stop ≤ r.cursor ∨ stop ≤ p.offset := by
    have hmem : i ∈ w.inflight := (h.inflight i).2 ⟨p, hp, fun hzero => absurd hzero hpos.ne'⟩
    by_contra hnot
    have hmeets : p.meets r.cursor stop := meets_iff.2 (by omega)
    refine List.not_mem_nil (a := i) ?_
    rw [← halone]
    refine List.mem_filter.2 ⟨hmem, ?_⟩
    rw [overlaps, hp]
    simp [hpos, hmeets]
  have hold {i : ℕ} {p : PendingRange}
      (hp : (w.beginPending reader r stop).pendings[i]? = some p) :
      w.pendings[i]? = some p ∨ i = w.pendings.length ∧ p.offset = r.cursor ∧ p.stop = stop ∧
        p.waiters = 1 ∧ p.settled = false ∧ p.Tidy := by
    rcases Nat.lt_or_ge i w.pendings.length with hlt | hge
    · left
      rwa [← List.getElem?_append_left hlt]
    · right
      dsimp only [beginPending, setReader] at hp
      rw [List.getElem?_append_right hge, List.getElem?_singleton] at hp
      split_ifs at hp with hi
      cases hp
      refine ⟨by omega, rfl, rfl, rfl, rfl, ⟨?_, ?_, ?_, ?_⟩⟩
      all_goals rintro ⟨⟩
  have hnew : (w.beginPending reader r stop).pendings.length = w.pendings.length + 1 :=
    List.length_append
  refine ⟨h.opened, fun i p hp => ?_, fun p hp => ?_, ?_, ?_, fun i => ?_,
    fun i j p q hne hp hq hpos hpos' => ?_⟩
  · have hwaits := countP_waitsFor hr { r with state := .fetching w.pendings.length } i
    rw [hnone, if_neg List.not_mem_nil, Nat.add_zero] at hwaits
    dsimp only [beginPending, setReader]
    rw [hwaits]
    change _ = _ + if i ∈ [w.pendings.length] then 1 else 0
    rcases hold hp with hp | ⟨rfl, -, -, hone, -⟩
    · rw [if_neg, Nat.add_zero]
      · exact h.waiters i p hp
      · exact fun hi => (List.getElem?_eq_some_iff.1 hp).1.ne (List.mem_singleton.1 hi)
    · rw [hcount, hone, if_pos (List.mem_singleton_self _)]
  · obtain ⟨i, hp⟩ := List.mem_iff_getElem?.1 hp
    rcases hold hp with hp | ⟨-, -, -, -, -, htidy⟩
    · exact h.ranges p (List.mem_of_getElem? hp)
    · exact htidy
  · refine forall_set (fun r hr => ?_)
      ⟨fun i hi => ?_, List.nodup_singleton _, fun hdone => (by cases hdone)⟩
    · obtain ⟨hvalid, hnodup, hcancelled⟩ := h.reads r hr
      exact ⟨fun i hi => hnew.symm ▸ (hvalid i hi).trans (Nat.lt_succ_self _), hnodup, hcancelled⟩
    · obtain rfl := List.mem_singleton.1 hi
      exact hnew.symm ▸ Nat.lt_succ_self _
  · refine h.nodup.append (List.nodup_singleton _) fun i hi hlast => ?_
    obtain ⟨p, hp, -⟩ := (h.inflight i).1 hi
    exact (List.getElem?_eq_some_iff.1 hp).1.ne (List.mem_singleton.1 hlast)
  · change i ∈ w.inflight ++ [w.pendings.length] ↔ _
    rw [List.mem_append, List.mem_singleton, h.inflight]
    constructor
    · rintro (⟨p, hp, hsettled⟩ | rfl)
      · refine ⟨p, ?_, hsettled⟩
        rwa [← List.getElem?_append_left (List.getElem?_eq_some_iff.1 hp).1] at hp
      · have hlt : w.pendings.length < (w.beginPending reader r stop).pendings.length :=
          hnew ▸ Nat.lt_succ_self _
        have hp := List.getElem?_eq_getElem hlt
        refine ⟨_, hp, fun _ => ?_⟩
        rcases hold hp with hp | ⟨-, -, -, -, hsettled, -⟩
        · exact absurd (List.getElem?_eq_some_iff.1 hp).1 (lt_irrefl _)
        · exact hsettled
    · rintro ⟨p, hp, hsettled⟩
      rcases hold hp with hp | ⟨hi, -⟩
      · exact .inl ⟨p, hp, hsettled⟩
      · exact .inr hi
  · rcases hold hp with hp | ⟨rfl, hoffset, hstop, -⟩
    · rcases hold hq with hq | ⟨rfl, hoffset, hstop, -⟩
      · exact h.apart i j p q hne hp hq hpos hpos'
      · exact (hapart hp hpos).imp (hoffset ▸ ·) (hstop ▸ ·)
    · rcases hold hq with hq | ⟨rfl, -⟩
      · exact ((hapart hq hpos').imp (hoffset ▸ ·) (hstop ▸ ·)).symm
      · exact absurd rfl hne

/-! ## Other changes -/

/-- A read that waits for nothing, before and after. -/
theorem Tracked.setReader (h : w.Tracked) (hr : w.readers[reader]? = some r) (hnone : r.awaits = [])
    (hr' : r'.awaits = []) (hcancelled : r'.state = .done (.error .cancelled) → r'.cancelled) :
    (w.setReader reader r').Tracked := by
  have hleave := h.leave hr hr' hcancelled
  rwa [hnone] at hleave

/-- A change of a range that keeps those that wait for it. -/
theorem Tracked.modify (h : w.Tracked) {f : PendingRange → PendingRange}
    (hf : ∀ p, (f p).toReadInterval = p.toReadInterval ∧ (f p).waiters = p.waiters)
    (htidy : ∀ p, w.pendings[pending]? = some p → p.Tidy → (f p).Tidy) {inflight : List ℕ}
    (hnodup : inflight.Nodup) (hinflight : ∀ i, i ∈ inflight ↔ ∃ p,
      (w.pendings.modify pending f)[i]? = some p ∧ (p.waiters = 0 → p.settled = false)) :
    InFlight w.closed (w.pendings.modify pending f) inflight w.readers := by
  refine h.rewire _ (fun i => List.getElem?_modify _ _ _ _) (fun i p hp htidy' => ?_) h.reads hnodup
    hinflight
  have hwaiters := h.waiters i p hp
  split_ifs with hi
  · exact ⟨(hf p).1, htidy p (hi ▸ hp) htidy', ((hf p).2 ▸ id), (hf p).2.trans hwaiters⟩
  · exact ⟨rfl, htidy', id, hwaiters⟩

/-- A change of a range in flight that is nothing to those that wait for it. -/
theorem Tracked.relabel (h : w.Tracked) {f : PendingRange → PendingRange}
    (hf : ∀ p, (f p).toReadInterval = p.toReadInterval ∧ (f p).waiters = p.waiters ∧
      (f p).settled = p.settled)
    (htidy : ∀ p, w.pendings[pending]? = some p → p.Tidy → (f p).Tidy) :
    (w.modifyPending pending f).Tracked := by
  refine h.modify (fun p => ⟨(hf p).1, (hf p).2.1⟩) htidy h.nodup fun i => ?_
  refine (h.inflight i).trans ?_
  rw [List.getElem?_modify]
  cases w.pendings[i]? with
  | none => simp
  | some p =>
    by_cases hi : pending = i
    · simp [hi, hf p]
    · simp [hi]

theorem Tracked.settle (h : w.Tracked) (hp : w.pendings[pending]? = some p) :
    InFlight w.closed (w.pendings.modify pending fun p => { p with settled := true })
      (if p.waiters = 0 then w.inflight.erase pending else w.inflight) w.readers := by
  have hmem (i : ℕ) : i ∈ (if p.waiters = 0 then w.inflight.erase pending else w.inflight) ↔
      i ∈ w.inflight ∧ (i = pending → p.waiters ≠ 0) := by
    split
    · rename_i hzero
      rw [h.nodup.mem_erase_iff, and_comm, hzero]
      simp
    · rename_i hpos
      exact (and_iff_left fun _ => hpos).symm
  refine h.modify ?_ ?_ ?_ fun i => ?_
  · exact fun _ => ⟨rfl, rfl⟩
  · exact fun p _ htidy => ⟨htidy.waiters_eq, fun _ => .inr rfl, htidy.failure, htidy.outcome⟩
  · split
    · exact h.nodup.erase pending
    · exact h.nodup
  · rw [hmem, h.inflight, List.getElem?_modify]
    by_cases hi : pending = i
    · subst hi
      simp only [hp, Option.some.injEq, exists_eq_left', true_implies, if_true,
        Option.map_eq_map, Option.map_some, reduceCtorEq, imp_false]
      exact and_iff_right_of_imp fun hpos hzero => absurd hzero hpos
    · cases w.pendings[i]? with
      | none => simp
      | some p => simp [hi, Ne.symm hi]

theorem Tracked.failTask (h : w.Tracked) {fault : ReadFault}
    (hfault : fault = .cancelled → ∀ t p, w.tasks[task]? = some t →
      w.pendings[t.pending]? = some p → p.cancelled) : (w.failTask task fault).Tracked := by
  rw [SharedSource.failTask]
  split
  · exact h
  · rename_i t ht
    refine Tracked.relabel (w := w.modifyTask task fun t => { t with state := .ended }) h
      (fun _ => ⟨rfl, rfl, rfl⟩) fun p hp htidy => ?_
    refine ⟨htidy.waiters_eq, htidy.left, fun hfailure => ?_, htidy.outcome⟩
    dsimp only at hfailure
    cases hfirst : p.failure with
    | none =>
      rw [hfirst] at hfailure
      exact hfault (Option.some.inj hfailure) t p ht hp
    | some first =>
      rw [hfirst] at hfailure
      exact htidy.failure (hfirst.trans hfailure)

theorem Tracked.releaseProviderPermit (h : w.Tracked) : w.releaseProviderPermit.Tracked := by
  rw [releaseProviderPermit_eq w h.opened]
  exact h

/-! ## Steps -/

variable {source : List UInt8}

theorem Tracked.startRead (h : w.Tracked) (offset length : ℕ) :
    (w.startRead offset length).Tracked := by
  have hnew : ∃ r : Reader, (w.startRead offset length).readers = w.readers ++ [r] ∧
      r.awaits = [] ∧ r.state ≠ .done (.error .cancelled) := by
    refine ⟨_, rfl, ?_⟩
    split_ifs with houtside hclosed hzero
    · exact ⟨rfl, nofun⟩
    · exact ⟨rfl, nofun⟩
    · dsimp only [Reader.awaits, Reader.deliver]
      split_ifs
      · exact ⟨rfl, nofun⟩
      · exact ⟨rfl, nofun⟩
    · exact ⟨rfl, nofun⟩
  obtain ⟨r, hreaders, hnone, hstate⟩ := hnew
  refine ⟨h.opened, fun i p hp => ?_, h.ranges, ?_, h.nodup, h.inflight, h.apart⟩
  · rw [hreaders, List.countP_append, List.countP_singleton, if_neg, Nat.add_zero]
    · exact h.waiters i p hp
    · simp [Reader.waitsFor, hnone]
  · rw [hreaders]
    exact forall_append_singleton h.reads ⟨by simp [hnone], by simp [hnone],
      fun hdone => absurd hdone hstate⟩

theorem awaits_deliver (r : Reader) (bytes : List UInt8) : (r.deliver bytes).awaits = [] ∧
    (r.deliver bytes).state ≠ .done (.error .cancelled) := by
  dsimp only [Reader.awaits, Reader.deliver]
  split_ifs
  · exact ⟨rfl, nofun⟩
  · exact ⟨rfl, nofun⟩

theorem Tracked.takeHole (h : w.Tracked) (p : PendingRange) :
    (w.takeHole pending p).Tracked := by
  rw [SharedSource.takeHole]
  split
  · exact h
  · rename_i hole holes _
    have h' : (w.modifyPending pending fun p => { p with holes }).Tracked := by
      refine h.relabel ?_ fun p _ htidy => ?_
      · exact fun _ => ⟨rfl, rfl, rfl⟩
      · exact ⟨htidy.waiters_eq, htidy.left, htidy.failure, htidy.outcome⟩
    dsimp only
    split_ifs with hbusy hclosed
    · exact h
    · exact absurd (h.opened.symm.trans hclosed) Bool.false_ne_true
    · exact h'
    · exact h'

theorem rejectQueue_pending :
    w.rejectQueue.tasks.map FetchTask.pending = w.tasks.map FetchTask.pending := by
  have hfold (queue : List ℕ) (w : SharedSource) :
      (queue.foldl (fun w task => w.failTask task .closed) w).tasks.map FetchTask.pending =
        w.tasks.map FetchTask.pending := by
    induction queue generalizing w with
    | nil => rfl
    | cons task queue ih =>
      refine (ih (w.failTask task .closed)).trans ?_
      rw [SharedSource.failTask]
      split
      · rfl
      · exact map_modify fun _ => rfl
  exact hfold _ { w with providerQueue := [] }

/-- A permit that is given back leaves every task with its range. -/
theorem releaseProviderPermit_task (ht : w.tasks[task]? = some t) :
    ∃ t', w.releaseProviderPermit.tasks[task]? = some t' ∧ t'.pending = t.pending := by
  have hpending : w.releaseProviderPermit.tasks.map FetchTask.pending =
      w.tasks.map FetchTask.pending := by
    rw [SharedSource.releaseProviderPermit]
    dsimp only
    split
    · exact rejectQueue_pending (w := { w with providerReads := w.providerReads - 1 })
    · split
      · rfl
      · exact map_modify fun _ => rfl
  have htask := congrArg (·[task]?) hpending
  rw [List.getElem?_map, List.getElem?_map, ht] at htask
  exact Option.map_eq_some_iff.1 htask

/-- A range that somebody waits for is not cancelled. -/
theorem Tracked.not_cancelled (h : w.Tracked) (hr : w.readers[reader]? = some r)
    (hwaits : pending ∈ r.awaits) (hp : w.pendings[pending]? = some p) : p.cancelled = false := by
  have hpos : 0 < p.waiters := by
    rw [h.waiters pending p hp]
    exact List.countP_pos_iff.2 ⟨r, List.mem_of_getElem? hr, decide_eq_true hwaits⟩
  by_contra hcancelled
  exact hpos.ne' ((h.ranges p (List.mem_of_getElem? hp)).waiters_eq
    (Bool.not_eq_false _ ▸ hcancelled))

/-- A read does not fail as cancelled with a range that it waits for. -/
theorem Tracked.outcome_ne (h : w.Tracked) (hr : w.readers[reader]? = some r)
    (hwaits : pending ∈ r.awaits) (hp : w.pendings[pending]? = some p) {fault : ReadFault}
    (houtcome : p.outcome = some (.error fault)) : fault ≠ .cancelled := by
  rintro rfl
  have hcancelled := (h.ranges p (List.mem_of_getElem? hp)).outcome houtcome
  rw [h.not_cancelled hr hwaits hp] at hcancelled
  cases hcancelled

/-- Nothing that an event does breaks the invariant while the accessor is open. -/
theorem Tracked.acts (h : w.Tracked) {w' : SharedSource} (hacts : Acts source w w')
    (hopen : w'.closed = false) : w'.Tracked := by
  cases hacts with
  | same => exact h
  | read offset length => exact h.startRead offset length
  | refuse hr hstate hclosed => exact absurd (h.opened.symm.trans hclosed) Bool.false_ne_true
  | @reuse reader r bytes accessor hr hstate hassemble =>
    obtain ⟨hawaits, hne⟩ := awaits_deliver r bytes
    exact Tracked.setReader (w := { w with accessor }) h hr (by rw [Reader.awaits, hstate]) hawaits
      fun hdone => absurd hdone hne
  | @begin reader r accessor hr hstate hassemble halone =>
    exact Tracked.begin (w := { w with accessor }) h hr (by rw [Reader.awaits, hstate]) halone
  | @join reader r accessor hr hstate hassemble =>
    exact Tracked.join (w := { w with accessor }) h hr (by rw [Reader.awaits, hstate]) _ _
  | @leave reader r r' accessor hr hwaits hresumes =>
    have hleave (hnone : r'.awaits = [])
        (hcancelled : r'.state = .done (.error .cancelled) → r'.cancelled) :
        (SharedSource.setReader { w.releaseAll r.awaits with accessor } reader r').Tracked :=
      h.leave hr hnone hcancelled
    cases hresumes with
    | @share _ bytes _ hstate hassemble =>
      obtain ⟨hawaits, hne⟩ := awaits_deliver r bytes
      exact hleave hawaits fun hdone => absurd hdone hne
    | retry hstate hassemble => exact hleave rfl fun hdone => (by cases hdone)
    | reject hmem hp houtcome =>
      -- The range is not cancelled, for the read waits for it.
      refine hleave rfl fun hdone => ?_
      cases hdone
      exact absurd rfl (h.outcome_ne hr hmem hp houtcome)
    | @resume _ _ bytes hstate hp houtcome =>
      obtain ⟨hawaits, hne⟩ := awaits_deliver r bytes
      exact hleave hawaits fun hdone => absurd hdone hne
    | cancel => exact hleave rfl fun _ => rfl
  | take hp => exact h.takeHole _
  | @answer task t ht hstate _ =>
    refine Tracked.relabel (w := SharedSource.modifyTask { w.releaseProviderPermit with
      accessor := _ } task _) h.releaseProviderPermit ?_ fun p _ htidy => ?_
    · exact fun _ => ⟨rfl, rfl, rfl⟩
    · exact ⟨htidy.waiters_eq, htidy.left, htidy.failure, htidy.outcome⟩
  | @fail task t fault ht hstate hfault =>
    refine h.releaseProviderPermit.failTask fun hcancelled t' p' ht' hp' => ?_
    obtain ⟨p, hp, hcancelled⟩ := hfault hcancelled
    obtain ⟨t'', ht'', hpending⟩ := releaseProviderPermit_task ht
    obtain rfl := Option.some.inj (ht'.symm.trans ht'')
    rw [hpending, releaseProviderPermit_eq w h.opened] at hp'
    obtain rfl := Option.some.inj (hp.symm.trans hp')
    exact hcancelled
  | @dequeue task t p ht hstate hp hcancelled =>
    refine Tracked.failTask (w := { w with providerQueue := w.providerQueue.erase task }) h
      fun _ t' p' ht' hp' => ?_
    obtain rfl := Option.some.inj (ht.symm.trans ht')
    obtain rfl := Option.some.inj (hp.symm.trans hp')
    exact hcancelled
  | @finish pending p accessor outcome hp hsettles =>
    have houtcome : outcome = .error .cancelled → p.cancelled := by
      intro hcancelled
      cases hsettles with
      | fail hfailure =>
        cases hcancelled
        exact (h.ranges p (List.mem_of_getElem? hp)).failure hfailure
      | whole hexact => cases hcancelled
      | assemble hassemble => cases hcancelled
      | unavailable hassemble => cases hcancelled
    refine Tracked.relabel (w := { w with accessor }) h ?_ fun p' hp' htidy => ?_
    · exact fun _ => ⟨rfl, rfl, rfl⟩
    · obtain rfl := Option.some.inj (hp.symm.trans hp')
      exact ⟨htidy.waiters_eq, htidy.left, htidy.failure,
        fun hcancelled => houtcome (Option.some.inj hcancelled)⟩
  | settle hp => exact h.settle hp
  | close =>
    rw [SharedSource.close, if_neg (by rw [h.opened]; exact Bool.false_ne_true), rejectQueue_eq,
      cancelPendings_eq] at hopen
    cases hopen

/-! ## Runs -/

theorem tracked_new (size maxCacheBytes maxReadBytes : ℕ) (maxConcurrency : Option ℕ) :
    (new size maxCacheBytes maxReadBytes maxConcurrency).Tracked where
  opened := rfl
  waiters _ _ hp := nomatch hp
  ranges _ hp := absurd hp List.not_mem_nil
  reads _ hr := absurd hr List.not_mem_nil
  nodup := .nil
  inflight _ := iff_of_false List.not_mem_nil fun ⟨_, hp, _⟩ => nomatch hp
  apart _ _ _ _ _ hp := nomatch hp

theorem tracked_of_open (source : List UInt8) (maxCacheBytes maxReadBytes : ℕ)
    (maxConcurrency : Option ℕ) (events : List SourceEvent) :
    let w := after source (new source.length maxCacheBytes maxReadBytes maxConcurrency) events
    w.closed = false → w.Tracked := by
  refine Run.invariant (I := fun w : SharedSource => w.closed = false → w.Tracked)
    (fun w event h hopen => ?_) (fun _ => tracked_new _ _ _ _) events
  have hacts := acts_step source w event
  refine (h ?_).acts hacts hopen
  by_contra hclosed
  exact Bool.false_ne_true (hopen.symm.trans (hacts.closed (Bool.not_eq_false _ ▸ hclosed)))

/-- However reads run at the same time, and whatever the provider does, until the accessor is
    closed: a range in flight counts the reads that wait for it; it is cancelled only when none
    does, and always when the last one leaves it before it is settled; ranges that somebody waits
    for have no bytes in common; and a read fails as cancelled only if its own caller cancelled
    it. -/
theorem ranges_in_flight (source : List UInt8) (maxCacheBytes maxReadBytes : ℕ)
    (maxConcurrency : Option ℕ) (events : List SourceEvent) :
    let w := after source (new source.length maxCacheBytes maxReadBytes maxConcurrency) events
    w.closed = false →
      (∀ i p, w.pendings[i]? = some p →
        p.waiters = w.readers.countP (fun r => decide (i ∈ r.awaits)) ∧
        (p.cancelled → p.waiters = 0) ∧ (p.waiters = 0 → p.cancelled ∨ p.settled)) ∧
      (∀ (i j : ℕ) (p q : PendingRange), i ≠ j → w.pendings[i]? = some p →
        w.pendings[j]? = some q → 0 < p.waiters → 0 < q.waiters →
          p.stop ≤ q.offset ∨ q.stop ≤ p.offset) ∧
      ∀ r ∈ w.readers, r.state = .done (.error .cancelled) → r.cancelled := by
  intro w hopen
  have h : w.Tracked :=
    tracked_of_open source maxCacheBytes maxReadBytes maxConcurrency events hopen
  refine ⟨fun i p hp => ?_, h.apart, fun r hr => (h.reads r hr).cancelled⟩
  have htidy := h.ranges p (List.mem_of_getElem? hp)
  exact ⟨h.waiters i p hp, htidy.waiters_eq, htidy.left⟩

/-- Two reads wait for one range in flight, a third one for another, and the first is cancelled:
    the range that it leaves is not. -/
theorem ranges_in_flight_shared :
    let w := after [7, 8, 9] (new 3 3 3 none) [.read 0 2, .check 0, .read 1 1, .check 1,
      .read 2 1, .check 2, .cancel 0]
    w.pendings.map (fun p => (p.offset, p.waiters, p.cancelled)) = [(0, 1, false), (2, 1, false)] ∧
      w.readers.map (fun r => (r.cancelled, r.awaits)) = [(true, []), (false, [0]), (false, [1])] ∧
      (∀ i p, w.pendings[i]? = some p →
        p.waiters = w.readers.countP fun r => decide (i ∈ r.awaits)) ∧
      ∀ r ∈ w.readers, r.state = .done (.error .cancelled) → r.cancelled := by
  intro w
  obtain ⟨hwaits, _, hcancelled⟩ := ranges_in_flight [7, 8, 9] 3 3 none [.read 0 2, .check 0,
    .read 1 1, .check 1, .read 2 1, .check 2, .cancel 0] (by decide +kernel)
  exact ⟨by decide +kernel, by decide +kernel, fun i p hp => (hwaits i p hp).1, hcancelled⟩

end SharedSource

end Tabulark.Source
