import Tabulark.Source.RangeAccessor

/-!
# Reads of a remote source

What is missing of a range are the positions that nothing has (`missing_spec`), and what is put
together are the bytes of the source, if nothing is missing (`assembleFrom_eq_some`). The ranges
that an accessor keeps are a queue in the order of their last use, however their stamps are ordered
in what is kept (`Queue`).
-/

namespace Tabulark.Source

open Recency

variable {source : List UInt8} {offset stop cursor i : ℕ}

/-! ## Parts -/

theorem length_part (hle : stop ≤ source.length) :
    (part source offset stop).length = stop - offset := by
  rw [part, List.length_take, List.length_drop]
  omega

theorem part_eq_nil (h : stop ≤ offset) : part source offset stop = [] := by
  rw [part, Nat.sub_eq_zero_of_le h, List.take_zero]

theorem part_append (h : offset ≤ cursor) (h' : cursor ≤ stop) :
    part source offset cursor ++ part source cursor stop = part source offset stop := by
  have hsplit : stop - offset = (cursor - offset) + (stop - cursor) := by omega
  rw [part, part, part, hsplit, List.take_add, List.drop_drop, Nat.add_sub_cancel' h]

/-- A part of a part. -/
theorem take_drop_part {start last : ℕ} (hstart : offset ≤ start) (hle : start ≤ last)
    (hlast : last ≤ stop) :
    ((part source offset stop).drop (start - offset)).take (last - start) =
      part source start last := by
  rw [part, part, List.drop_take, List.take_take, List.drop_drop, Nat.add_sub_cancel' hstart,
    min_eq_left (by omega)]

/-! ## Coverage -/

/-- An interval has a position. -/
def ReadInterval.Has (entry : ReadInterval) (i : ℕ) : Prop := entry.offset ≤ i ∧ i < entry.stop

/-- Some interval has a position. -/
def Covered (entries : List ReadInterval) (i : ℕ) : Prop := ∃ entry ∈ entries, entry.Has i

variable {entries entries' : List ReadInterval} {entry : ReadInterval}

@[simp] theorem covered_nil : ¬Covered [] i := fun ⟨_, h, _⟩ => List.not_mem_nil h

@[simp] theorem covered_cons : Covered (entry :: entries) i ↔ entry.Has i ∨ Covered entries i := by
  rw [Covered, List.exists_mem_cons_iff, Covered]

@[simp] theorem covered_append :
    Covered (entries ++ entries') i ↔ Covered entries i ∨ Covered entries' i := by
  simp only [Covered, List.mem_append, or_and_right, exists_or]

theorem covered_perm (h : entries.Perm entries') : Covered entries i ↔ Covered entries' i := by
  simp only [Covered, h.mem_iff]

/-- Intervals that begin after a position do not have it. -/
theorem not_covered_of_lt (h : ∀ entry ∈ entries, i < entry.offset) : ¬Covered entries i :=
  fun ⟨entry, hentry, hle, _⟩ => (h entry hentry).not_ge hle

/-- Intervals in the order of their offsets. -/
def Sorted (entries : List ReadInterval) : Prop :=
  entries.Pairwise fun left right => left.offset ≤ right.offset

theorem sorted_mergeSort (entries : List ReadInterval) :
    Sorted (entries.mergeSort ReadInterval.before) := by
  have htrans (a b c : ReadInterval) (hab : a.before b) (hbc : b.before c) : a.before c := by
    simp only [ReadInterval.before, Bool.or_eq_true, Bool.and_eq_true, decide_eq_true_eq,
      beq_iff_eq] at *
    omega
  have htotal (a b : ReadInterval) : a.before b || b.before a := by
    simp only [ReadInterval.before, Bool.or_eq_true, Bool.and_eq_true, decide_eq_true_eq,
      beq_iff_eq]
    omega
  refine (List.pairwise_mergeSort htrans htotal entries).imp fun {a b} h => ?_
  simp only [ReadInterval.before, Bool.or_eq_true, Bool.and_eq_true, decide_eq_true_eq,
    beq_iff_eq] at h
  omega

/-- Holes: intervals of a range, one after the other. -/
structure Holes (offset stop : ℕ) (holes : List ReadInterval) : Prop where
  inside : ∀ hole ∈ holes, offset ≤ hole.offset ∧ hole.offset < hole.stop ∧ hole.stop ≤ stop
  ordered : holes.Pairwise fun left right => left.stop ≤ right.offset

/-- The holes from a cursor are what sorted intervals leave. -/
theorem holesFrom_spec (hsorted : Sorted entries)
    (hstop : ∀ entry ∈ entries, entry.offset ≤ entry.stop ∧ entry.stop ≤ stop) (cursor : ℕ) :
    Holes cursor stop (holesFrom stop entries cursor) ∧
      ∀ i, Covered (holesFrom stop entries cursor) i ↔
        (cursor ≤ i ∧ i < stop) ∧ ¬Covered entries i := by
  induction entries generalizing cursor with
  | nil =>
    rw [holesFrom]
    split
    · rename_i hlt
      refine ⟨⟨?_, List.pairwise_singleton _ _⟩, fun i => ?_⟩
      · rintro hole hhole
        obtain rfl := List.mem_singleton.1 hhole
        exact ⟨le_rfl, hlt, le_rfl⟩
      · simp [ReadInterval.Has]
    · rename_i hge
      refine ⟨⟨by simp, .nil⟩, fun i => ?_⟩
      simp
      omega
  | cons entry entries ih =>
    obtain ⟨hfirst, hrest⟩ := List.pairwise_cons.1 hsorted
    have hentry := hstop entry List.mem_cons_self
    have ih := ih hrest fun e he => hstop e (List.mem_cons_of_mem _ he)
    rw [holesFrom]
    split_ifs with hbefore hhole hend hend
    · -- The interval ends before the cursor.
      refine ⟨(ih cursor).1, fun i => ?_⟩
      rw [(ih cursor).2, covered_cons, ReadInterval.Has]
      constructor
      · rintro ⟨hi, hnot⟩
        exact ⟨hi, not_or.2 ⟨by omega, hnot⟩⟩
      · rintro ⟨hi, hnot⟩
        exact ⟨hi, (not_or.1 hnot).2⟩
    · -- The interval goes to the end, after a hole.
      refine ⟨⟨?_, List.pairwise_singleton _ _⟩, fun i => ?_⟩
      · rintro hole hmem
        obtain rfl := List.mem_singleton.1 hmem
        exact ⟨le_rfl, hhole, by dsimp only; omega⟩
      · have hafter (h : i < entry.offset) : ¬Covered entries i :=
          not_covered_of_lt fun e he => h.trans_le (hfirst e he)
        simp only [covered_cons, covered_nil, or_false, ReadInterval.Has]
        constructor
        · rintro ⟨hle, hlt⟩
          exact ⟨⟨hle, by omega⟩, not_or.2 ⟨by omega, hafter hlt⟩⟩
        · rintro ⟨⟨hle, hlt⟩, hnot⟩
          have := (not_or.1 hnot).1
          omega
    · -- A hole, and what comes after the interval.
      obtain ⟨hholes, hcovered⟩ := ih (max cursor entry.stop)
      refine ⟨⟨?_, ?_⟩, fun i => ?_⟩
      · intro hole hmem
        rcases List.mem_append.1 hmem with hmem | hmem
        · obtain rfl := List.mem_singleton.1 hmem
          exact ⟨le_rfl, hhole, by dsimp only; omega⟩
        · have := hholes.inside hole hmem
          omega
      · refine List.pairwise_append.2 ⟨List.pairwise_singleton _ _, hholes.ordered, ?_⟩
        intro left hleft right hright
        obtain rfl := List.mem_singleton.1 hleft
        have := hholes.inside right hright
        dsimp only
        omega
      · have hafter (h : i < entry.offset) : ¬Covered entries i :=
          not_covered_of_lt fun e he => h.trans_le (hfirst e he)
        rw [covered_append, hcovered, covered_cons]
        simp only [covered_cons, covered_nil, or_false, ReadInterval.Has]
        constructor
        · rintro (⟨hle, hlt⟩ | ⟨⟨hle, hlt⟩, hnot⟩)
          · exact ⟨⟨hle, by omega⟩, not_or.2 ⟨by omega, hafter hlt⟩⟩
          · exact ⟨⟨by omega, hlt⟩, not_or.2 ⟨by omega, hnot⟩⟩
        · rintro ⟨⟨hle, hlt⟩, hnot⟩
          obtain ⟨hnotEntry, hnot⟩ := not_or.1 hnot
          by_cases h : i < entry.offset
          · exact .inl ⟨hle, h⟩
          · exact .inr ⟨⟨by omega, hlt⟩, hnot⟩
    · -- The interval has the cursor, and goes to the end.
      refine ⟨⟨by simp, .nil⟩, fun i => ?_⟩
      simp only [covered_nil, false_iff, covered_cons, ReadInterval.Has]
      rintro ⟨hi, hnot⟩
      have := (not_or.1 hnot).1
      omega
    · -- The interval has the cursor.
      obtain ⟨hholes, hcovered⟩ := ih (max cursor entry.stop)
      rw [List.nil_append]
      refine ⟨⟨fun hole hmem => ?_, hholes.ordered⟩, fun i => ?_⟩
      · have := hholes.inside hole hmem
        omega
      · rw [hcovered, covered_cons, ReadInterval.Has]
        constructor
        · rintro ⟨hi, hnot⟩
          exact ⟨by omega, not_or.2 ⟨by omega, hnot⟩⟩
        · rintro ⟨hi, hnot⟩
          obtain ⟨hnotEntry, hnot⟩ := not_or.1 hnot
          exact ⟨by omega, hnot⟩

theorem meets_iff : entry.meets offset stop ↔ offset < entry.stop ∧ entry.offset < stop := by
  rw [ReadInterval.meets, Bool.and_eq_true, decide_eq_true_eq, decide_eq_true_eq]

/-- What is missing of a range are the positions that no interval has. -/
theorem missing_spec (hle : offset ≤ stop)
    (hentries : ∀ entry ∈ entries, entry.offset < entry.stop) :
    Holes offset stop (missing entries offset stop) ∧
      ∀ i, Covered (missing entries offset stop) i ↔
        (offset ≤ i ∧ i < stop) ∧ ¬Covered entries i := by
  have hperm := List.mergeSort_perm
    ((entries.filter (·.meets offset stop)).map (·.clip offset stop)) ReadInterval.before
  have hclip : ∀ entry ∈ ((entries.filter (·.meets offset stop)).map
      (·.clip offset stop)).mergeSort ReadInterval.before,
      entry.offset ≤ entry.stop ∧ entry.stop ≤ stop := by
    intro entry hentry
    obtain ⟨entry', hmem, rfl⟩ := List.mem_map.1 (hperm.mem_iff.1 hentry)
    obtain ⟨hmem, hmeets⟩ := List.mem_filter.1 hmem
    have hmeets := meets_iff.1 hmeets
    have hentry' := hentries entry' hmem
    simp only [ReadInterval.clip]
    omega
  obtain ⟨hholes, hcovered⟩ := holesFrom_spec (sorted_mergeSort _) hclip offset
  refine ⟨hholes, fun i => (hcovered i).trans (and_congr_right fun hi => not_congr ?_)⟩
  rw [covered_perm hperm]
  constructor
  · rintro ⟨_, hmem, hhas⟩
    obtain ⟨entry, hentry, rfl⟩ := List.mem_map.1 hmem
    refine ⟨entry, (List.mem_filter.1 hentry).1, ?_⟩
    simp only [ReadInterval.clip, ReadInterval.Has] at hhas ⊢
    omega
  · rintro ⟨entry, hentry, hhas⟩
    refine ⟨entry.clip offset stop, List.mem_map_of_mem (List.mem_filter.2 ⟨hentry, ?_⟩), ?_⟩
    · rw [meets_iff]
      simp only [ReadInterval.Has] at hhas
      omega
    · simp only [ReadInterval.clip, ReadInterval.Has] at hhas ⊢
      omega

/-! ## Assembly -/

/-- Bytes of a source. -/
structure RangeCoverage.Of (segment : RangeCoverage) (source : List UInt8) : Prop where
  bytes_eq : segment.bytes = part source segment.offset segment.stop
  offset_lt : segment.offset < segment.stop
  stop_le : segment.stop ≤ source.length

/-- Sorted segments of a source are put together if they have all positions. -/
theorem assembleFrom_eq_some {segments : List RangeCoverage} {output bytes : List UInt8}
    (hsorted : Sorted (segments.map (·.toReadInterval))) (hof : ∀ s ∈ segments, s.Of source)
    (hlt : cursor < stop) :
    assembleFrom stop segments cursor output = some bytes ↔
      (∀ i, cursor ≤ i → i < stop → Covered (segments.map (·.toReadInterval)) i) ∧
        bytes = output ++ part source cursor stop := by
  induction segments generalizing cursor output with
  | nil =>
    rw [assembleFrom, if_neg (Nat.not_le.2 hlt)]
    constructor
    · intro h
      cases h
    · rintro ⟨h, -⟩
      exact absurd (h cursor le_rfl hlt) covered_nil
  | cons segment segments ih =>
    rw [List.map_cons] at hsorted
    obtain ⟨hfirst, hrest⟩ := List.pairwise_cons.1 hsorted
    have ih := fun {cursor : ℕ} {output : List UInt8} (hlt : cursor < stop) =>
      @ih cursor output hrest
        (fun s hs => hof s (List.mem_cons_of_mem _ hs)) hlt
    have hsegment := hof segment List.mem_cons_self
    rw [assembleFrom, List.map_cons]
    split_ifs with hbefore hhole
    · -- The segment ends before the cursor.
      rw [ih hlt]
      refine and_congr_left fun _ => forall_congr' fun i => forall_congr' fun hle => ?_
      rw [covered_cons, ReadInterval.Has]
      refine imp_congr_right fun _ => (or_iff_right ?_).symm
      omega
    · -- There is a hole at the cursor.
      refine iff_of_false nofun ?_
      rintro ⟨hall, -⟩
      rcases covered_cons.1 (hall cursor le_rfl hlt) with hhas | hcovered
      · exact absurd hhas.1 (Nat.not_le.2 hhole)
      · exact absurd hcovered (not_covered_of_lt fun e he => hhole.trans_le (hfirst e he))
    · have hpiece : (segment.bytes.drop (cursor - segment.offset)).take
          (min stop segment.stop - cursor) = part source cursor (min stop segment.stop) := by
        rw [hsegment.bytes_eq]
        exact take_drop_part (by omega) (by omega) (min_le_right _ _)
      dsimp only
      rw [hpiece]
      split_ifs with hend
      · -- The segment goes to the end.
        rw [min_eq_left (by omega)]
        constructor
        · intro h
          refine ⟨fun i hle hlt => covered_cons.2 (.inl ⟨?_, ?_⟩), (Option.some.inj h).symm⟩
          · omega
          · omega
        · rintro ⟨-, rfl⟩
          rfl
      · have hstop : min stop segment.stop = segment.stop := by omega
        rw [hstop, ih (by omega), List.append_assoc, part_append (by omega) (by omega)]
        refine and_congr_left fun _ => ⟨fun h i hle hlt => ?_, fun h i hle hlt => ?_⟩
        · rw [covered_cons]
          by_cases hi : i < segment.stop
          · exact .inl ⟨by omega, hi⟩
          · exact .inr (h i (by omega) hlt)
        · rcases covered_cons.1 (h i (by omega) hlt) with hhas | hcovered
          · exact absurd hhas.2 (by omega)
          · exact hcovered

/-! ## Recency -/

/-- The number of bytes of a range that is kept. -/
def bytesOf (entry : CachedRange) : ℕ := entry.bytes.length

namespace RangeSourceAccessor

/-- The ranges that are kept, in the order in which they were last used. -/
structure Queue (s : RangeSourceAccessor) (q : List CachedRange) : Prop where
  perm : q.Perm s.cache
  sorted : q.Pairwise fun left right => left.lastUsed < right.lastUsed
  recent : ∀ entry ∈ q, entry.lastUsed ≤ s.clock
  cacheBytes_eq : s.cacheBytes = total bytesOf q

/-- An accessor is another one but for what it keeps. -/
structure SameLimits (s s' : RangeSourceAccessor) : Prop where
  size_eq : s'.size = s.size
  maxCacheBytes_eq : s'.maxCacheBytes = s.maxCacheBytes
  maxReadBytes_eq : s'.maxReadBytes = s.maxReadBytes
  maxConcurrency_eq : s'.maxConcurrency = s.maxConcurrency

theorem SameLimits.refl (s : RangeSourceAccessor) : s.SameLimits s := ⟨rfl, rfl, rfl, rfl⟩

theorem SameLimits.trans {s s' s'' : RangeSourceAccessor} (h : s.SameLimits s')
    (h' : s'.SameLimits s'') : s.SameLimits s'' where
  size_eq := h'.size_eq.trans h.size_eq
  maxCacheBytes_eq := h'.maxCacheBytes_eq.trans h.maxCacheBytes_eq
  maxReadBytes_eq := h'.maxReadBytes_eq.trans h.maxReadBytes_eq
  maxConcurrency_eq := h'.maxConcurrency_eq.trans h.maxConcurrency_eq

/-- The oldest range is not younger than any other. -/
theorem oldest_eq_some {cache : List CachedRange} {entry : CachedRange}
    (h : oldest cache = some entry) :
    entry ∈ cache ∧ ∀ other ∈ cache, entry.lastUsed ≤ other.lastUsed := by
  cases cache with
  | nil => cases h
  | cons first cache =>
    cases h
    induction cache generalizing first with
    | nil => simp
    | cons second cache ih =>
      rw [List.foldl_cons]
      split
      · rename_i hlt
        obtain ⟨hmem, hle⟩ := ih second
        refine ⟨List.mem_cons_of_mem _ hmem, fun other hother => ?_⟩
        rcases List.mem_cons.1 hother with rfl | hother
        · exact (hle second List.mem_cons_self).trans hlt.le
        · exact hle other hother
      · rename_i hge
        obtain ⟨hmem, hle⟩ := ih first
        refine ⟨?_, fun other hother => ?_⟩
        · rcases List.mem_cons.1 hmem with heq | hmem
          · rw [heq]
            exact List.mem_cons_self
          · exact List.mem_cons_of_mem _ (List.mem_cons_of_mem _ hmem)
        · rcases List.mem_cons.1 hother with rfl | hother
          · exact hle other List.mem_cons_self
          · rcases List.mem_cons.1 hother with rfl | hother
            · exact (hle first List.mem_cons_self).trans (Nat.not_lt.1 hge)
            · exact hle other (List.mem_cons_of_mem _ hother)

variable {s s' : RangeSourceAccessor} {q : List CachedRange} {a : CachedRange}

/-- The oldest range is the first of the queue. -/
theorem Queue.oldest_eq (h : s.Queue (a :: q)) : oldest s.cache = some a := by
  have hmem : a ∈ s.cache := h.perm.mem_iff.1 List.mem_cons_self
  cases hold : oldest s.cache with
  | none =>
    cases hcache : s.cache with
    | nil =>
      rw [hcache] at hmem
      cases hmem
    | cons first cache =>
      rw [hcache] at hold
      cases hold
  | some entry =>
    obtain ⟨hentry, hle⟩ := oldest_eq_some hold
    rcases List.mem_cons.1 (h.perm.mem_iff.2 hentry) with rfl | hin
    · rfl
    · exact absurd ((List.pairwise_cons.1 h.sorted).1 entry hin) (Nat.not_lt.2 (hle a hmem))

/-- Without its oldest range, the queue is the rest. -/
theorem Queue.remove (h : s.Queue (a :: q)) : (s.remove a).Queue q where
  perm := by
    have hperm := h.perm.erase a
    rwa [List.erase_cons_head] at hperm
  sorted := (List.pairwise_cons.1 h.sorted).2
  recent := fun entry hentry => h.recent entry (List.mem_cons_of_mem _ hentry)
  cacheBytes_eq := by
    have hbytes := h.cacheBytes_eq
    rw [total_cons] at hbytes
    change s.cacheBytes - bytesOf a = total bytesOf q
    rw [hbytes, Nat.add_sub_cancel_left]

/-- What is evicted falls off the queue. -/
theorem Queue.evict (h : s.Queue q) {times : ℕ} (hle : s.cache.length ≤ times) :
    (evict times s).Queue (fit bytesOf s.maxCacheBytes q) ∧ s.SameLimits (evict times s) := by
  induction times generalizing s q with
  | zero =>
    have hnil : q = [] := by
      rw [← List.length_eq_zero_iff, h.perm.length_eq]
      exact Nat.le_zero.1 hle
    subst hnil
    exact ⟨h, .refl s⟩
  | succ times ih =>
    rw [RangeSourceAccessor.evict]
    split
    · rename_i hlt
      rw [h.cacheBytes_eq] at hlt
      cases q with
      | nil => exact absurd hlt (Nat.not_lt_zero _)
      | cons a q =>
        rw [h.oldest_eq, fit_cons_of_lt hlt]
        have hremoved := h.remove
        have hlength : (s.remove a).cache.length ≤ times := by
          rw [← hremoved.perm.length_eq]
          have hlength := h.perm.length_eq
          rw [List.length_cons] at hlength
          omega
        obtain ⟨hqueue, hlimits⟩ := ih hremoved hlength
        exact ⟨hqueue, (⟨rfl, rfl, rfl, rfl⟩ : s.SameLimits (s.remove a)).trans hlimits⟩
    · rename_i hge
      rw [h.cacheBytes_eq] at hge
      rw [fit_of_le (Nat.not_lt.1 hge)]
      exact ⟨h, .refl s⟩

/-- A new range goes to the end of the queue, unless it may not be kept. -/
theorem Queue.insert (h : s.Queue q) (offset : ℕ) {bytes : List UInt8} (hpos : 0 < bytes.length) :
    (s.maxCacheBytes < bytes.length ∧ s.insert offset bytes = s) ∨
      (bytes.length ≤ s.maxCacheBytes ∧ ∃ entry : CachedRange,
        entry.toRangeCoverage = { offset, stop := offset + bytes.length, bytes } ∧
        (s.insert offset bytes).Queue (fit bytesOf s.maxCacheBytes (q ++ [entry])) ∧
        s.SameLimits (s.insert offset bytes)) := by
  rw [RangeSourceAccessor.insert]
  by_cases hlt : s.maxCacheBytes < bytes.length
  · exact .inl ⟨hlt, if_pos (.inr (.inr hlt))⟩
  · right
    rw [if_neg (by omega)]
    dsimp only
    refine ⟨Nat.not_lt.1 hlt, ⟨{ offset, stop := offset + bytes.length, bytes }, s.clock + 1⟩, rfl,
      ?_⟩
    have hqueue : Queue { s with
        cache := s.cache ++ [⟨⟨⟨offset, offset + bytes.length⟩, bytes⟩, s.clock + 1⟩]
        cacheBytes := s.cacheBytes + bytes.length
        clock := s.clock + 1 }
        (q ++ [⟨⟨⟨offset, offset + bytes.length⟩, bytes⟩, s.clock + 1⟩]) := by
      refine ⟨h.perm.append_right _, List.pairwise_append.2 ⟨h.sorted, List.pairwise_singleton _ _,
        ?_⟩, ?_, ?_⟩
      · intro left hleft right hright
        obtain rfl := List.mem_singleton.1 hright
        exact Nat.lt_succ_of_le (h.recent left hleft)
      · intro entry hentry
        rcases List.mem_append.1 hentry with hentry | hentry
        · exact (h.recent entry hentry).trans (Nat.le_succ _)
        · obtain rfl := List.mem_singleton.1 hentry
          exact le_rfl
      · rw [total_append, ← h.cacheBytes_eq]
        rfl
    obtain ⟨hfit, hlimits⟩ := hqueue.evict (List.length_append.le : _ ≤ s.cache.length + 1)
    exact ⟨hfit, ⟨hlimits.size_eq, hlimits.maxCacheBytes_eq, hlimits.maxReadBytes_eq,
      hlimits.maxConcurrency_eq⟩⟩

/-! ## Touched ranges -/

variable {offset stop clock : ℕ} {entry : CachedRange} {entries entries' : List CachedRange}

theorem touch_cons_of_meets (h : entry.meets offset stop) :
    touch offset stop (entry :: entries) clock =
      ({ entry with lastUsed := clock + 1 } :: (touch offset stop entries (clock + 1)).1,
        (touch offset stop entries (clock + 1)).2) := if_pos h

theorem touch_cons_of_not_meets (h : ¬entry.meets offset stop) :
    touch offset stop (entry :: entries) clock =
      (entry :: (touch offset stop entries clock).1, (touch offset stop entries clock).2) :=
  if_neg h

theorem le_touch : clock ≤ (touch offset stop entries clock).2 := by
  induction entries generalizing clock with
  | nil => exact le_rfl
  | cons entry entries ih =>
    by_cases h : entry.meets offset stop
    · rw [touch_cons_of_meets h]
      exact (Nat.le_succ clock).trans ih
    · rw [touch_cons_of_not_meets h]
      exact ih

/-- Ranges keep their bytes when they are touched. -/
theorem map_touch : (touch offset stop entries clock).1.map CachedRange.toRangeCoverage =
    entries.map CachedRange.toRangeCoverage := by
  induction entries generalizing clock with
  | nil => rfl
  | cons entry entries ih =>
    by_cases h : entry.meets offset stop
    · rw [touch_cons_of_meets h, List.map_cons, List.map_cons, ih]
    · rw [touch_cons_of_not_meets h, List.map_cons, List.map_cons, ih]

/-- Other ranges are left as they are. -/
theorem filter_not_touch (clock : ℕ) :
    (touch offset stop entries clock).1.filter (!·.meets offset stop) =
    entries.filter (!·.meets offset stop) := by
  induction entries generalizing clock with
  | nil => rfl
  | cons entry entries ih =>
    by_cases h : entry.meets offset stop
    · rw [touch_cons_of_meets h, List.filter_cons_of_neg, List.filter_cons_of_neg, ih]
      · simpa using h
      · simpa using h
    · rw [touch_cons_of_not_meets h, List.filter_cons_of_pos, List.filter_cons_of_pos, ih]
      · simpa using h
      · simpa using h

/-- The ranges that a read uses. -/
def touched (offset stop : ℕ) (entries : List CachedRange) (clock : ℕ) : List CachedRange :=
  (touch offset stop entries clock).1.filter (·.meets offset stop)

theorem touched_cons_of_meets (h : entry.meets offset stop) :
    touched offset stop (entry :: entries) clock =
      { entry with lastUsed := clock + 1 } :: touched offset stop entries (clock + 1) := by
  rw [touched, touch_cons_of_meets h]
  exact List.filter_cons_of_pos h

theorem touched_cons_of_not_meets (h : ¬entry.meets offset stop) :
    touched offset stop (entry :: entries) clock = touched offset stop entries clock := by
  rw [touched, touch_cons_of_not_meets h]
  exact List.filter_cons_of_neg h

theorem map_touched : (touched offset stop entries clock).map CachedRange.toRangeCoverage =
    (entries.filter (·.meets offset stop)).map CachedRange.toRangeCoverage := by
  induction entries generalizing clock with
  | nil => rfl
  | cons entry entries ih =>
    by_cases h : entry.meets offset stop
    · rw [touched_cons_of_meets h, List.filter_cons, if_pos h, List.map_cons, List.map_cons, ih]
    · rw [touched_cons_of_not_meets h, List.filter_cons, if_neg h, ih]

/-- They have times of their own, after all that was used before. -/
theorem between_touched (h : entry ∈ touched offset stop entries clock) :
    clock < entry.lastUsed ∧ entry.lastUsed ≤ (touch offset stop entries clock).2 := by
  induction entries generalizing clock with
  | nil => cases h
  | cons first entries ih =>
    by_cases hmeets : first.meets offset stop
    · rw [touched_cons_of_meets hmeets] at h
      rw [touch_cons_of_meets hmeets]
      rcases List.mem_cons.1 h with rfl | h
      · exact ⟨Nat.lt_succ_self clock, le_touch⟩
      · exact ⟨(Nat.lt_succ_self clock).trans (ih h).1, (ih h).2⟩
    · rw [touched_cons_of_not_meets hmeets] at h
      rw [touch_cons_of_not_meets hmeets]
      exact ih h

theorem sorted_touched : (touched offset stop entries clock).Pairwise fun left right =>
    left.lastUsed < right.lastUsed := by
  induction entries generalizing clock with
  | nil => exact .nil
  | cons first entries ih =>
    by_cases hmeets : first.meets offset stop
    · rw [touched_cons_of_meets hmeets]
      exact List.pairwise_cons.2 ⟨fun entry hentry => (between_touched hentry).1, ih⟩
    · rw [touched_cons_of_not_meets hmeets]
      exact ih

theorem total_map_coverage (h : entries.map CachedRange.toRangeCoverage =
    entries'.map CachedRange.toRangeCoverage) : total bytesOf entries = total bytesOf entries' := by
  have hbytes := congrArg (List.map fun segment : RangeCoverage => segment.bytes.length) h
  rw [List.map_map, List.map_map] at hbytes
  exact congrArg List.sum hbytes

/-- An accessor whose ranges of a read are marked as used. -/
def used (s : RangeSourceAccessor) (offset stop : ℕ) : RangeSourceAccessor :=
  { s with
    cache := (touch offset stop s.cache s.clock).1
    clock := (touch offset stop s.cache s.clock).2 }

/-- The ranges that a read uses go to the end of the queue. -/
theorem Queue.used (h : s.Queue q) (offset stop : ℕ) : (s.used offset stop).Queue
    (q.filter (!·.meets offset stop) ++ touched offset stop s.cache s.clock) := by
  have hperm : (q.filter (!·.meets offset stop) ++ touched offset stop s.cache s.clock).Perm
      (touch offset stop s.cache s.clock).1 := by
    refine ((h.perm.filter _).append_right _).trans ?_
    rw [← filter_not_touch s.clock]
    exact List.perm_append_comm.trans (List.filter_append_perm _ _)
  refine ⟨hperm, List.pairwise_append.2 ⟨h.sorted.filter _, sorted_touched, ?_⟩, ?_, ?_⟩
  · intro left hleft right hright
    exact (h.recent left (List.mem_filter.1 hleft).1).trans_lt (between_touched hright).1
  · intro entry hentry
    rcases List.mem_append.1 hentry with hentry | hentry
    · exact (h.recent entry (List.mem_filter.1 hentry).1).trans le_touch
    · exact (between_touched hentry).2
  · rw [total_perm hperm, total_map_coverage map_touch, ← total_perm h.perm]
    exact h.cacheBytes_eq

end RangeSourceAccessor

end Tabulark.Source
