import Tabulark.Lib.Segments
import Tabulark.Protocol

/-!
# Indexed source ranges

A workbook is read in ranges that the host supplies. `IndexedRanges` retains
them: separate segments of the source, joined where they touch. `insert_eq_ok`
says exactly which results it takes, `bytes_eq_some` and `firstMissing_eq` what
it gives back.
-/

namespace Tabulark.Excel

open OrderedMap Segments

/-- The address limit of a range-backed source. -/
def maxRangeSourceBytes : ℕ := u32Max

/-- The bytes of a range-backed source. -/
structure HostSource where
  bytes : List UInt8
  length_le : bytes.length ≤ maxRangeSourceBytes

/-! ## Host ranges -/

/-- A range of a source, not empty. -/
structure HostRange where
  offset : ℕ
  length : ℕ
  pos : 0 < length
  stop_le : offset + length ≤ u64Max

namespace HostRange

/-- A checked range of a source of the given length. -/
def new (offset length sourceLength : ℕ) : Result HostRange :=
  if hpos : length = 0 then
    .error (.new .invalidArgument "Excel source range length must be positive")
  else if hstop : offset + length ≤ u64Max then
    if sourceLength < offset + length then
      .error ((((TabularkError.new .invalidArgument
        "Excel source range lies outside the source").withDetail
        "offset" (.number offset)).withDetail
        "length" (.number length)).withDetail
        "sourceLength" (.number sourceLength))
    else .ok ⟨offset, length, Nat.pos_of_ne_zero hpos, hstop⟩
  else .error (.new .invalidArgument "Excel source range end overflows u64")

/-- Where the range ends. -/
def stop (r : HostRange) : ℕ := r.offset + r.length

/-- The positions of a range. -/
def Contains (r : HostRange) (i : ℕ) : Prop := r.offset ≤ i ∧ i < r.stop

theorem new_eq_ok {offset length sourceLength : ℕ} {r : HostRange}
    (h : new offset length sourceLength = .ok r) :
    r.offset = offset ∧ r.length = length ∧ r.stop ≤ sourceLength := by
  rw [new] at h
  split_ifs at h with hpos hstop hle
  cases h
  exact ⟨rfl, rfl, not_lt.1 hle⟩

theorem new_of_le {offset length sourceLength : ℕ} (hpos : 0 < length)
    (hle : offset + length ≤ sourceLength) (hmax : sourceLength ≤ maxRangeSourceBytes) :
    ∃ r, new offset length sourceLength = .ok r ∧ r.offset = offset ∧ r.length = length := by
  have hu64 : maxRangeSourceBytes ≤ u64Max := by decide
  rw [new, dif_neg hpos.ne', dif_pos (hle.trans (hmax.trans hu64)), if_neg (not_lt.2 hle)]
  exact ⟨_, rfl, rfl, rfl⟩

end HostRange

/-- The bytes of a range. -/
def HostSource.slice (source : HostSource) (r : HostRange) : List UInt8 :=
  (source.bytes.drop r.offset).take r.length

theorem HostSource.length_slice {source : HostSource} {r : HostRange}
    (h : r.stop ≤ source.bytes.length) : (source.slice r).length = r.length := by
  rw [HostRange.stop] at h
  rw [slice, List.length_take, List.length_drop]
  omega

/-- A range of a source lies in the JavaScript-safe integers. -/
theorem safe_of_stop_le {source : HostSource} {r : HostRange} (h : r.stop ≤ source.bytes.length) :
    r.offset + r.length ≤ maxSafeInteger :=
  (h.trans source.length_le).trans (by decide)

/-! ## Indexed ranges -/

/-- The ranges of a source that are retained, by their offsets. -/
structure IndexedRanges where
  sourceLength : ℕ
  ranges : List (Segment UInt8) := []
  retainedBytes : ℕ := 0
  deriving DecidableEq

/-- Where a segment ends, as far as `u64` reaches. -/
def segmentEnd (start : ℕ) (bytes : List UInt8) : Result ℕ :=
  checkedAdd u64Max start bytes.length (.new .resourceLimit "indexed range end overflows")

/-- The error of a result that is partly retained already. -/
def overlapsIndexed : TabularkError :=
  .new .invalidArgument "Excel range result overlaps an indexed range"

/-- Bytes and the segment that ends where they start: what is left of the segments, the new
    start, and the joined bytes. -/
def joinPrevious (ranges : List (Segment UInt8)) (offset : ℕ) (bytes : List UInt8) :
    List (Segment UInt8) × Segment UInt8 :=
  match lastLT ranges offset with
  | some (start, previous) =>
    if start + previous.length = offset then (erase ranges start, start, previous ++ bytes)
    else (ranges, offset, bytes)
  | none => (ranges, offset, bytes)

/-- Adds a segment, joined with the one that starts where it ends. -/
def joinNext (ranges : List (Segment UInt8)) (segment : Segment UInt8) :
    Result (List (Segment UInt8)) := do
  let mergedEnd ← segmentEnd segment.1 segment.2
  match get? ranges mergedEnd with
  | some next => .ok (insert (erase ranges mergedEnd) segment.1 (segment.2 ++ next))
  | none => .ok (insert ranges segment.1 segment.2)

namespace IndexedRanges

/-- No ranges of a source of the given length. -/
def new (sourceLength : ℕ) : IndexedRanges := { sourceLength }

/-- Retains bytes that nothing retained overlaps. -/
def retain (ix : IndexedRanges) (offset : ℕ) (bytes : List UInt8) : Result IndexedRanges := do
  let retainedBytes ← checkedAdd u64Max ix.retainedBytes bytes.length
    (.new .resourceLimit "Excel indexed range accounting overflows")
  let joined := joinPrevious ix.ranges offset bytes
  let ranges ← joinNext joined.1 joined.2
  .ok { ix with ranges, retainedBytes }

/-- Retains the bytes of a range unless the next segment starts in it. -/
def insertBeforeNext (ix : IndexedRanges) (requested : HostRange) (bytes : List UInt8) :
    Result IndexedRanges :=
  match firstGE ix.ranges requested.offset with
  | some next =>
    if next.1 < requested.stop then .error overlapsIndexed else ix.retain requested.offset bytes
  | none => ix.retain requested.offset bytes

/-- Retains the bytes of a range; bytes that are a segment already change nothing. -/
def insert (ix : IndexedRanges) (requested : HostRange) (bytes : List UInt8) :
    Result IndexedRanges :=
  if ix.sourceLength < requested.stop then
    .error (.new .invalidArgument "Excel range result lies outside the source")
  else if bytes.length ≠ requested.length then
    .error (((TabularkError.new .invalidArgument
      "Excel range result length does not match its action").withDetail
      "expectedLength" (.number requested.length)).withDetail
      "actualLength" (.number bytes.length))
  else
    match lastLE ix.ranges requested.offset with
    | some (start, existing) => do
      let existingEnd ← segmentEnd start existing
      if requested.offset < existingEnd then
        if start = requested.offset ∧ existing = bytes then .ok ix else .error overlapsIndexed
      else ix.insertBeforeNext requested bytes
    | none => ix.insertBeforeNext requested bytes

/-- The bytes of a range, if one segment has them all. -/
def bytes (ix : IndexedRanges) (range : HostRange) : Option (List UInt8) := do
  let (start, bytes) ← lastLE ix.ranges range.offset
  let relative := range.offset - start
  if relative + range.length ≤ bytes.length then some ((bytes.drop relative).take range.length)
  else none

/-- How far the bytes at a position are retained. -/
def coveredTo (ix : IndexedRanges) (position : ℕ) : Result ℕ :=
  match lastLE ix.ranges position with
  | some (start, bytes) => segmentEnd start bytes
  | none => .ok position

/-- The gap from a position that is not retained up to the next segment. -/
def gapFrom (ix : IndexedRanges) (range : HostRange) (position : ℕ) : Result HostRange :=
  let missingEnd := match firstGE ix.ranges position with
    | some next => min next.1 range.stop
    | none => range.stop
  if position < missingEnd then HostRange.new position (missingEnd - position) ix.sourceLength
  else .error (.new .runtimeFailure "Excel indexed range map contains an unreachable gap")

/-- The first gap from a position on; every turn but the last takes the position further. -/
def missingFrom (ix : IndexedRanges) (range : HostRange) : ℕ → ℕ → Result (Option HostRange)
  | 0, _ => .error (.new .runtimeFailure "Excel indexed range map contains an unreachable gap")
  | turns + 1, position =>
    if range.stop ≤ position then .ok none
    else do
      let covered ← ix.coveredTo position
      if position < covered then ix.missingFrom range turns (min covered range.stop)
      else do
        let gap ← ix.gapFrom range position
        .ok (some gap)

/-- The first gap in a range that is not retained. -/
def firstMissing (ix : IndexedRanges) (range : HostRange) : Result (Option HostRange) :=
  if ix.sourceLength < range.stop then
    .error (.new .invalidArgument "Excel missing-range query lies outside the source")
  else ix.missingFrom range (range.length + 1) range.offset

end IndexedRanges

/-! ## Joining -/

variable {text : List UInt8} {m : List (Segment UInt8)}

/-- A part of a text and the part after it. -/
theorem append_part {a b : List UInt8} {k : ℕ} (ha : a <+: text.drop k)
    (hb : b <+: text.drop (k + a.length)) : a ++ b <+: text.drop k := by
  obtain ⟨rest, hrest⟩ := ha
  rw [← List.drop_drop, ← hrest, List.drop_left] at hb
  rw [← hrest]
  exact (List.prefix_append_right_inj a).2 hb

/-- A new segment between the others, that may still touch the next one. -/
structure Fits (text : List UInt8) (m : List (Segment UInt8)) (s : Segment UInt8) : Prop where
  separate : Separate text m
  ne_nil : s.2 ≠ []
  part : s.2 <+: text.drop s.1
  before : ∀ t ∈ m, t.1 < s.1 → stop t < s.1
  after : ∀ t ∈ m, ¬t.1 < s.1 → stop s ≤ t.1

variable {bytes : List UInt8}

theorem fits_joinPrevious (h : Separate text m) {offset : ℕ}
    (hbytes : bytes ≠ []) (hpart : bytes <+: text.drop offset)
    (hnew : ∀ i, offset ≤ i → i < offset + bytes.length → ¬Covers m i) :
    Fits text (joinPrevious m offset bytes).1 (joinPrevious m offset bytes).2 ∧
      ∀ i, Covers m i ∨ offset ≤ i ∧ i < offset + bytes.length ↔
        Covers (joinPrevious m offset bytes).1 i ∨ (joinPrevious m offset bytes).2.1 ≤ i ∧
          i < stop (joinPrevious m offset bytes).2 := by
  have hpos := List.length_pos_iff.2 hbytes
  have hafter : ∀ t ∈ m, ¬t.1 < offset → offset + bytes.length ≤ t.1 := by
    intro t ht hlt
    by_contra hle
    exact hnew t.1 (not_lt.1 hlt) (not_le.1 hle) ⟨t, ht, le_rfl, h.start_lt_stop ht⟩
  have hends : ∀ t ∈ m, t.1 < offset → stop t ≤ offset := by
    intro t ht hlt
    by_contra hle
    exact hnew offset le_rfl (by omega) ⟨t, ht, hlt.le, not_le.1 hle⟩
  rw [joinPrevious]
  cases hprevious : lastLT m offset with
  | none =>
    exact ⟨⟨h, hbytes, hpart, fun t ht hlt => absurd hlt (lastOf_eq_none hprevious ht), hafter⟩,
      fun i => Iff.rfl⟩
  | some t =>
    obtain ⟨start, previous⟩ := t
    obtain ⟨ht, hlt, hmax⟩ := lastOf_eq_some h.ordered hprevious
    dsimp only at hlt hmax ⊢
    by_cases htouch : start + previous.length = offset
    · -- The segment before ends where the bytes start.
      rw [if_pos htouch]
      obtain ⟨herase, hcovers⟩ := h.erase ht
      refine ⟨⟨herase, List.append_ne_nil_of_right_ne_nil _ hbytes, ?_, fun t' ht' hlt' => ?_,
        fun t' ht' hlt' => ?_⟩, fun i => ?_⟩
      · exact append_part (h.part _ ht) (htouch.symm ▸ hpart)
      · have hstop := h.stop_lt (mem_erase.1 ht').1 ht hlt'
        exact hstop
      · obtain ⟨ht', hne⟩ := mem_erase.1 ht'
        have hstop := h.stop_lt ht ht' (lt_of_le_of_ne (not_lt.1 hlt') hne.symm)
        rw [stop] at hstop
        dsimp only at hstop
        have hle := hafter t' ht' (by omega)
        rw [stop, List.length_append]
        dsimp only
        omega
      · rw [hcovers, stop, List.length_append, or_assoc]
        refine or_congr_right ?_
        dsimp only
        omega
    · rw [if_neg htouch]
      refine ⟨⟨h, hbytes, hpart, fun t' ht' hlt' => ?_, hafter⟩, fun i => Iff.rfl⟩
      have hle := hends t' ht' hlt'
      rcases (hmax t' ht' hlt').eq_or_lt with heq | hlt''
      · rw [h.ordered.eq_of_key ht' ht heq] at hle ⊢
        exact lt_of_le_of_ne hle htouch
      · exact (h.stop_lt ht' ht hlt'').trans hlt

theorem joinNext_of_fits {segment : Segment UInt8} (h : Fits text m segment)
    (hlen : text.length ≤ u64Max) :
    ∃ m', joinNext m segment = .ok m' ∧ Separate text m' ∧
      ∀ i, Covers m' i ↔ Covers m i ∨ segment.1 ≤ i ∧ i < stop segment := by
  obtain ⟨start, bytes⟩ := segment
  have hpos := List.length_pos_iff.2 h.ne_nil
  have hpartLe := h.part.length_le
  dsimp only at hpos hpartLe
  rw [List.length_drop] at hpartLe
  rw [joinNext, segmentEnd, checkedAdd_of_le (by dsimp only; omega), Result.ok_bind]
  dsimp only
  cases hnext : get? m (start + bytes.length) with
  | none =>
    obtain ⟨hseparate, hcovers⟩ := h.separate.insert h.ne_nil h.part h.before
      fun t ht hlt => lt_of_le_of_ne (h.after t ht hlt) (get?_eq_none hnext ht).symm
    exact ⟨_, rfl, hseparate, hcovers⟩
  | some next =>
    have hmem := mem_of_get? hnext
    obtain ⟨herase, hcovers⟩ := h.separate.erase hmem
    obtain ⟨hseparate, hcovers'⟩ := herase.insert
      (List.append_ne_nil_of_left_ne_nil h.ne_nil next)
      (append_part h.part (h.separate.part _ hmem))
      (fun t ht hlt => h.before t (mem_erase.1 ht).1 hlt) fun t ht hlt => by
        obtain ⟨ht, hne⟩ := mem_erase.1 ht
        have hstop := h.separate.stop_lt hmem ht (lt_of_le_of_ne (h.after t ht hlt) hne.symm)
        rw [stop] at hstop
        rw [List.length_append]
        dsimp only at hstop ⊢
        omega
    refine ⟨_, rfl, hseparate, fun i => ?_⟩
    rw [hcovers', hcovers, stop, List.length_append, or_assoc]
    refine or_congr_right ?_
    dsimp only
    omega

/-! ## Laws of the retained ranges -/

namespace IndexedRanges

/-- The retained ranges are ranges of the source. -/
structure Holds (ix : IndexedRanges) (source : HostSource) : Prop where
  sourceLength : ix.sourceLength = source.bytes.length
  separate : Separate source.bytes ix.ranges
  retained : ix.retainedBytes = count source.bytes ix.ranges

theorem holds_new (source : HostSource) : (new source.bytes.length).Holds source :=
  ⟨rfl, .nil _, (count_nil _).symm⟩

/-- The position `i` is retained. -/
abbrev Covers (ix : IndexedRanges) (i : ℕ) : Prop := Segments.Covers ix.ranges i

/-- Nothing of a range is retained. -/
def Misses (ix : IndexedRanges) (r : HostRange) : Prop := ∀ i, r.Contains i → ¬ix.Covers i

variable {ix : IndexedRanges} {source : HostSource} {r : HostRange}

theorem u64_of_le {n : ℕ} (h : n ≤ source.bytes.length) : n ≤ u64Max :=
  h.trans (source.length_le.trans (by decide))

theorem Holds.retained_le (h : ix.Holds source) : ix.retainedBytes ≤ source.bytes.length :=
  h.retained ▸ count_le _ _

/-- A range of which nothing is retained is retained. -/
theorem Holds.retain (h : ix.Holds source) (hr : r.stop ≤ source.bytes.length)
    (hmisses : ix.Misses r) :
    ∃ ix', ix.retain r.offset (source.slice r) = .ok ix' ∧ ix'.Holds source ∧
      ix'.retainedBytes = ix.retainedBytes + r.length ∧
      ∀ i, ix'.Covers i ↔ ix.Covers i ∨ r.Contains i := by
  have hlength := HostSource.length_slice hr
  have hne : source.slice r ≠ [] := List.length_pos_iff.1 (hlength ▸ r.pos)
  obtain ⟨hfits, hcovers⟩ := @fits_joinPrevious _ _ _ h.separate r.offset hne
    (List.take_prefix _ _) (by
      rw [hlength]
      exact fun i hi hlt => hmisses i ⟨hi, hlt⟩)
  obtain ⟨m, hm, hseparate, hall⟩ := joinNext_of_fits hfits (u64_of_le le_rfl)
  have hiff : ∀ i, Segments.Covers m i ↔ ix.Covers i ∨ r.Contains i := by
    intro i
    rw [hall, ← hcovers, hlength, HostRange.Contains, HostRange.stop]
  have hcount := count_of_covers_iff (k := r.offset) (n := r.length) hr
    (fun i hi hlt => hmisses i ⟨hi, hlt⟩) hiff
  have hretained := h.retained
  have hle := count_le source.bytes m
  rw [IndexedRanges.retain, hlength, checkedAdd_of_le (@u64_of_le source _ (by omega)),
    Result.ok_bind]
  dsimp only
  rw [hm, Result.ok_bind]
  refine ⟨_, rfl, ⟨h.sourceLength, hseparate, ?_⟩, rfl, hiff⟩
  dsimp only
  rw [hcount, hretained]

/-- How far the segment before a position reaches is computed exactly. -/
theorem Holds.segmentEnd_eq (h : ix.Holds source) {s : Segment UInt8} (hs : s ∈ ix.ranges) :
    segmentEnd s.1 s.2 = .ok (stop s) := by
  rw [segmentEnd, checkedAdd_of_le (@u64_of_le source _ (h.separate.stop_le hs))]
  rfl

/-- The bytes of a range inside the source pass the checks of their length. -/
theorem Holds.insert_eq (h : ix.Holds source) (hr : r.stop ≤ source.bytes.length)
    (hlength : bytes.length = r.length) :
    ix.insert r bytes =
      match lastLE ix.ranges r.offset with
      | some s =>
        if r.offset < stop s then
          if s = (r.offset, bytes) then .ok ix else .error overlapsIndexed
        else ix.insertBeforeNext r bytes
      | none => ix.insertBeforeNext r bytes := by
  rw [IndexedRanges.insert, h.sourceLength, if_neg (not_lt.2 hr), if_neg (not_not.2 hlength)]
  cases hlast : lastLE ix.ranges r.offset with
  | none => rfl
  | some s =>
    obtain ⟨start, existing⟩ := s
    have hend := h.segmentEnd_eq (lastOf_eq_some h.separate.ordered hlast).1
    dsimp only at hend ⊢
    rw [hend, Result.ok_bind]
    simp only [Prod.mk.injEq]

/-- New bytes are retained. -/
theorem Holds.insert_of_misses (h : ix.Holds source) (hr : r.stop ≤ source.bytes.length)
    (hmisses : ix.Misses r) :
    ∃ ix', ix.insert r (source.slice r) = .ok ix' ∧ ix'.Holds source ∧
      ix'.retainedBytes = ix.retainedBytes + r.length ∧
      ∀ i, ix'.Covers i ↔ ix.Covers i ∨ r.Contains i := by
  have hpos := r.pos
  have hnext : ix.insertBeforeNext r (source.slice r) = ix.retain r.offset (source.slice r) := by
    rw [insertBeforeNext]
    cases hfirst : firstGE ix.ranges r.offset with
    | none => rfl
    | some next =>
      obtain ⟨hmem, hle, _⟩ := firstGE_eq_some h.separate.ordered hfirst
      dsimp only
      rw [if_neg fun hlt => hmisses next.1 ⟨hle, hlt⟩
        ⟨next, hmem, le_rfl, h.separate.start_lt_stop hmem⟩]
  rw [h.insert_eq hr (HostSource.length_slice hr), hnext]
  cases hlast : lastLE ix.ranges r.offset with
  | none => exact h.retain hr hmisses
  | some s =>
    obtain ⟨hmem, hle, _⟩ := lastOf_eq_some h.separate.ordered hlast
    dsimp only
    rw [if_neg fun hlt => hmisses r.offset ⟨le_rfl, by rw [HostRange.stop]; omega⟩
      ⟨s, hmem, hle, hlt⟩]
    exact h.retain hr hmisses

/-- A segment that is retained as it is changes nothing. -/
theorem Holds.insert_of_mem (h : ix.Holds source) (hr : r.stop ≤ source.bytes.length)
    (hmem : (r.offset, source.slice r) ∈ ix.ranges) : ix.insert r (source.slice r) = .ok ix := by
  rw [h.insert_eq hr (HostSource.length_slice hr)]
  cases hlast : lastLE ix.ranges r.offset with
  | none => exact absurd le_rfl (lastOf_eq_none hlast hmem)
  | some s =>
    obtain ⟨hs, hle, hmax⟩ := lastOf_eq_some h.separate.ordered hlast
    obtain rfl := h.separate.ordered.eq_of_key hs hmem (le_antisymm hle (hmax _ hmem le_rfl))
    have hlt := h.separate.start_lt_stop hs
    dsimp only at hlt ⊢
    rw [if_pos hlt, if_pos rfl]

/-- Any other overlap is refused. -/
theorem Holds.insert_of_overlap (h : ix.Holds source) (hr : r.stop ≤ source.bytes.length)
    (hlength : bytes.length = r.length) (hmisses : ¬ix.Misses r)
    (hmem : (r.offset, bytes) ∉ ix.ranges) : ix.insert r bytes = .error overlapsIndexed := by
  rw [Misses] at hmisses
  push Not at hmisses
  obtain ⟨i, ⟨hi, hlt⟩, t, ht, hti, hit⟩ := hmisses
  have hnext : r.offset < t.1 → ix.insertBeforeNext r (bytes) =
      .error overlapsIndexed := by
    intro hoffset
    rw [insertBeforeNext]
    cases hfirst : firstGE ix.ranges r.offset with
    | none => exact absurd (firstGE_eq_none hfirst ht) hoffset.not_gt
    | some next =>
      have hle := (firstGE_eq_some h.separate.ordered hfirst).2.2 t ht hoffset.le
      dsimp only
      rw [if_pos (by omega)]
  rw [h.insert_eq hr hlength]
  by_cases hoffset : t.1 ≤ r.offset
  · obtain ⟨s, hlast, hlt'⟩ := h.separate.covers_iff.1 ⟨t, ht, hoffset, by omega⟩
    have hs := (lastOf_eq_some h.separate.ordered hlast).1
    have hne : s ≠ (r.offset, bytes) := by
      rintro rfl
      exact hmem hs
    rw [hlast]
    dsimp only
    rw [if_pos hlt', if_neg hne]
  · rw [hnext (not_le.1 hoffset)]
    cases hlast : lastLE ix.ranges r.offset with
    | none => rfl
    | some s =>
      have hs := (lastOf_eq_some h.separate.ordered hlast).1
      have hne : s ≠ (r.offset, bytes) := by
        rintro rfl
        exact hmem hs
      dsimp only
      rw [if_neg hne, ite_self]

/-- A result is taken if none of it is retained, or exactly that segment is. -/
theorem Holds.insert_eq_ok (h : ix.Holds source) (hr : r.stop ≤ source.bytes.length) :
    (∃ ix', ix.insert r (source.slice r) = .ok ix') ↔
      ix.Misses r ∨ (r.offset, source.slice r) ∈ ix.ranges := by
  constructor
  · rintro ⟨ix', hok⟩
    by_contra hnot
    push Not at hnot
    rw [h.insert_of_overlap hr (HostSource.length_slice hr) hnot.1 hnot.2] at hok
    cases hok
  · rintro (hmisses | hmem)
    · obtain ⟨ix', hok, _⟩ := h.insert_of_misses hr hmisses
      exact ⟨ix', hok⟩
    · exact ⟨ix, h.insert_of_mem hr hmem⟩

/-- What a result that is taken adds. -/
theorem Holds.covers_insert (h : ix.Holds source) (hr : r.stop ≤ source.bytes.length)
    {ix' : IndexedRanges} (hok : ix.insert r (source.slice r) = .ok ix') :
    ix'.Holds source ∧ ∀ i, ix'.Covers i ↔ ix.Covers i ∨ r.Contains i := by
  rcases (h.insert_eq_ok hr).1 ⟨ix', hok⟩ with hmisses | hmem
  · obtain ⟨ix'', hok', hholds, _, hcovers⟩ := h.insert_of_misses hr hmisses
    rw [hok] at hok'
    cases hok'
    exact ⟨hholds, hcovers⟩
  · rw [h.insert_of_mem hr hmem] at hok
    cases hok
    refine ⟨h, fun i => (or_iff_left_of_imp fun hi => ⟨_, hmem, hi.1, ?_⟩).symm⟩
    have hlt := hi.2
    rw [stop, HostSource.length_slice hr]
    exact hlt

/-! ## Reading back -/

/-- A range that is retained is read back. -/
theorem Holds.bytes_of_covers (h : ix.Holds source) (hcovers : ∀ i, r.Contains i → ix.Covers i) :
    ix.bytes r = some (source.slice r) := by
  have hpos := r.pos
  obtain ⟨s, hlast, hlt⟩ := h.separate.covers_iff.1 (hcovers r.offset ⟨le_rfl, by
    rw [HostRange.stop]
    omega⟩)
  obtain ⟨hs, hle, _⟩ := lastOf_eq_some h.separate.ordered hlast
  have hstop := h.separate.stop_le_of_covers hs hle hlt fun j hj hj' => hcovers j ⟨hj, hj'⟩
  rw [HostRange.stop, stop] at hstop
  rw [bytes, hlast]
  change (if _ then some _ else none) = _
  rw [if_pos (by omega), h.separate.read_eq hs hle hstop]
  rfl

/-- Only a range that is retained is read back. -/
theorem Holds.covers_of_bytes (h : ix.Holds source) {b : List UInt8} (hb : ix.bytes r = some b) :
    (∀ i, r.Contains i → ix.Covers i) ∧ b = source.slice r := by
  have hcovers : ∀ i, r.Contains i → ix.Covers i := by
    rintro i ⟨hi, hlt⟩
    rw [bytes] at hb
    cases hlast : lastLE ix.ranges r.offset with
    | none =>
      rw [hlast] at hb
      cases hb
    | some s =>
      obtain ⟨hs, hle, _⟩ := lastOf_eq_some h.separate.ordered hlast
      rw [hlast] at hb
      change (if _ then some _ else none) = _ at hb
      split_ifs at hb with hfits
      rw [HostRange.stop] at hlt
      exact ⟨s, hs, hle.trans hi, by rw [stop]; omega⟩
  refine ⟨hcovers, ?_⟩
  rw [h.bytes_of_covers hcovers] at hb
  exact (Option.some.inj hb).symm

/-- The first gap of a range. -/
structure FirstGap (ix : IndexedRanges) (r gap : HostRange) : Prop where
  offset_le : r.offset ≤ gap.offset
  stop_le : gap.stop ≤ r.stop
  before : ∀ i, r.offset ≤ i → i < gap.offset → ix.Covers i
  misses : ix.Misses gap
  after : gap.stop = r.stop ∨ ix.Covers gap.stop

/-- The gap at a position that is not retained. -/
theorem Holds.gapFrom_eq (h : ix.Holds source) (hr : r.stop ≤ source.bytes.length)
    {position : ℕ} (hoffset : r.offset ≤ position) (hlt : position < r.stop)
    (hbefore : ∀ i, r.offset ≤ i → i < position → ix.Covers i) (hnot : ¬ix.Covers position) :
    ∃ gap, ix.gapFrom r position = .ok gap ∧ ix.FirstGap r gap := by
  have hgap : ∀ missingEnd, position < missingEnd → missingEnd ≤ r.stop →
      (∀ i, position ≤ i → i < missingEnd → ¬ix.Covers i) →
      (missingEnd = r.stop ∨ ix.Covers missingEnd) →
      ∃ gap, (if position < missingEnd then
          HostRange.new position (missingEnd - position) ix.sourceLength
        else .error (.new .runtimeFailure
          "Excel indexed range map contains an unreachable gap")) = .ok gap ∧
        ix.FirstGap r gap := by
    intro missingEnd hpos hstop hmisses hafter
    obtain ⟨gap, hgap, hgapOffset, hgapLength⟩ := HostRange.new_of_le
      (Nat.sub_pos_of_lt hpos) (show position + (missingEnd - position) ≤ source.bytes.length by
        omega) source.length_le
    have hgapStop : gap.stop = missingEnd := by
      rw [HostRange.stop]
      omega
    rw [if_pos hpos, h.sourceLength, hgap]
    refine ⟨gap, rfl, by omega, by omega, ?_, ?_, ?_⟩
    · rw [hgapOffset]
      exact hbefore
    · rintro i ⟨hi, hlt⟩
      exact hmisses i (by omega) (by omega)
    · rw [hgapStop]
      exact hafter
  rw [gapFrom]
  cases hfirst : firstGE ix.ranges position with
  | none =>
    refine hgap r.stop hlt le_rfl ?_ (.inl rfl)
    rintro i hi - ⟨s, hs, hsi, his⟩
    have hs' := firstGE_eq_none hfirst hs
    exact hnot ⟨s, hs, hs'.le, by omega⟩
  | some next =>
    obtain ⟨hmem, hge, hmin⟩ := firstGE_eq_some h.separate.ordered hfirst
    have hstart : ix.Covers next.1 := ⟨next, hmem, le_rfl, h.separate.start_lt_stop hmem⟩
    have hne : position ≠ next.1 := fun heq => hnot (heq ▸ hstart)
    refine hgap (min next.1 r.stop) (by omega) (min_le_right _ _) ?_ ?_
    · rintro i hi hi' ⟨s, hs, hsi, his⟩
      by_cases hsp : position ≤ s.1
      · have hle' := hmin s hs hsp
        omega
      · exact hnot ⟨s, hs, (not_le.1 hsp).le, by omega⟩
    · rcases le_total r.stop next.1 with hle' | hle'
      · exact .inl (min_eq_right hle')
      · rw [min_eq_left hle']
        exact .inr hstart

/-- How far a position is retained. -/
theorem Holds.coveredTo_eq (h : ix.Holds source) (position : ℕ) :
    ∃ covered, ix.coveredTo position = .ok covered ∧
      (position < covered ↔ ix.Covers position) ∧
      ∀ i, position ≤ i → i < covered → ix.Covers i := by
  rw [coveredTo]
  cases hlast : lastLE ix.ranges position with
  | none =>
    refine ⟨position, rfl, iff_of_false (lt_irrefl _) ?_, fun i hi hlt => absurd hlt hi.not_gt⟩
    rintro ⟨s, hs, hle, -⟩
    exact lastOf_eq_none hlast hs hle
  | some s =>
    obtain ⟨hs, hle, _⟩ := lastOf_eq_some h.separate.ordered hlast
    refine ⟨stop s, h.segmentEnd_eq hs, ?_, fun i hi hlt => ⟨s, hs, hle.trans hi, hlt⟩⟩
    constructor
    · exact fun hlt => ⟨s, hs, hle, hlt⟩
    · intro hcovers
      obtain ⟨t, hlast', hlt⟩ := h.separate.covers_iff.1 hcovers
      rw [hlast] at hlast'
      cases hlast'
      exact hlt

theorem Holds.missingFrom_eq (h : ix.Holds source) (hr : r.stop ≤ source.bytes.length)
    {turns position : ℕ} (hturns : r.stop < turns + position) (hoffset : r.offset ≤ position)
    (hstop : position ≤ r.stop) (hbefore : ∀ i, r.offset ≤ i → i < position → ix.Covers i) :
    ix.missingFrom r turns position = .ok none ∧ (∀ i, r.Contains i → ix.Covers i) ∨
      ∃ gap, ix.missingFrom r turns position = .ok (some gap) ∧ ix.FirstGap r gap := by
  induction turns generalizing position with
  | zero => omega
  | succ turns ih =>
    rcases hstop.eq_or_lt with rfl | hlt
    · exact .inl ⟨by rw [missingFrom, if_pos le_rfl], fun i hi => hbefore i hi.1 hi.2⟩
    · obtain ⟨covered, hcovered, hiff, hall⟩ := h.coveredTo_eq position
      rw [missingFrom, if_neg (not_le.2 hlt), hcovered, Result.ok_bind]
      by_cases hcovers : position < covered
      · rw [if_pos hcovers]
        refine ih (by omega) (by omega) (min_le_right _ _) fun i hi hi' => ?_
        by_cases hip : i < position
        · exact hbefore i hi hip
        · exact hall i (by omega) (by omega)
      · rw [if_neg hcovers]
        obtain ⟨gap, hgap, hfirst⟩ := h.gapFrom_eq hr hoffset hlt hbefore (mt hiff.2 hcovers)
        rw [hgap]
        exact .inr ⟨gap, rfl, hfirst⟩

/-- The first gap of a range, if it has one. -/
theorem Holds.firstMissing_eq (h : ix.Holds source) (hr : r.stop ≤ source.bytes.length) :
    ix.firstMissing r = .ok none ∧ (∀ i, r.Contains i → ix.Covers i) ∨
      ∃ gap, ix.firstMissing r = .ok (some gap) ∧ ix.FirstGap r gap := by
  rw [firstMissing, h.sourceLength, if_neg (not_lt.2 hr)]
  exact h.missingFrom_eq hr (by rw [HostRange.stop]; omega) le_rfl (Nat.le_add_right _ _)
    fun i hi hlt => absurd hi (not_le.2 hlt)

theorem FirstGap.offset_le_of {gap gap' : HostRange} (h : ix.FirstGap r gap)
    (h' : ix.FirstGap r gap') : gap.offset ≤ gap'.offset := by
  by_contra hlt
  have hpos := gap'.pos
  refine h'.misses gap'.offset ⟨le_rfl, by rw [HostRange.stop]; omega⟩ ?_
  exact h.before _ h'.offset_le (not_le.1 hlt)

theorem FirstGap.stop_le_of {gap gap' : HostRange} (h : ix.FirstGap r gap)
    (h' : ix.FirstGap r gap') : gap'.stop ≤ gap.stop := by
  by_contra hlt
  have hpos := gap.pos
  have hoffset := h'.offset_le_of h
  rcases h.after with heq | hcovers
  · exact hlt (heq ▸ h'.stop_le)
  · exact h'.misses gap.stop ⟨by rw [HostRange.stop]; omega, not_le.1 hlt⟩ hcovers

/-- There is one first gap, and it is found. -/
theorem Holds.firstMissing_of_firstGap (h : ix.Holds source) (hr : r.stop ≤ source.bytes.length)
    {gap : HostRange} (hgap : ix.FirstGap r gap) : ix.firstMissing r = .ok (some gap) := by
  have hpos := gap.pos
  rcases h.firstMissing_eq hr with ⟨_, hall⟩ | ⟨gap', heq, hgap'⟩
  · have hstop : gap.offset < gap.stop := by
      rw [HostRange.stop]
      omega
    exact absurd (hall _ ⟨hgap.offset_le, hstop.trans_le hgap.stop_le⟩)
      (hgap.misses _ ⟨le_rfl, hstop⟩)
  · have hoffset := le_antisymm (hgap.offset_le_of hgap') (hgap'.offset_le_of hgap)
    have hstop := le_antisymm (hgap.stop_le_of hgap') (hgap'.stop_le_of hgap)
    obtain ⟨offset, length, _, _⟩ := gap
    obtain ⟨offset', length', _, _⟩ := gap'
    dsimp only [HostRange.stop] at hoffset hstop
    obtain rfl := hoffset
    obtain rfl : length' = length := by omega
    exact heq

end IndexedRanges

/-! ## Results of the host -/

/-- Retains the results of one step, each under the range it was issued for. -/
def applyIndexedResults (expected : List HostRange) :
    IndexedRanges → List AdapterActionResult → Result IndexedRanges
  | indexed, [] => .ok indexed
  | indexed, result :: results =>
    match expected[result.actionIndex]? with
    | none => .error (.new .invalidArgument "Excel action result index is outside the issued step")
    | some range =>
      let eofExpected := decide (range.stop = indexed.sourceLength)
      if result.eof ≠ eofExpected then
        .error (((TabularkError.new .invalidArgument
          "Excel action result EOF flag does not match its range").withDetail
          "actionIndex" (.number result.actionIndex)).withDetail
          "expectedEof" (.flag eofExpected))
      else do
        let indexed ← indexed.insert range result.bytes
        applyIndexedResults expected indexed results

/-- The right answer to an issued range. -/
def HostSource.answer (source : HostSource) (actionIndex : ℕ) (range : HostRange) :
    AdapterActionResult where
  actionIndex
  offset := range.offset
  bytes := source.slice range
  eof := decide (range.stop = source.bytes.length)

theorem IndexedRanges.Holds.applyIndexedResults_eq {ix : IndexedRanges} {source : HostSource}
    (h : ix.Holds source) (r : HostRange) :
    applyIndexedResults [r] ix [source.answer 0 r] = ix.insert r (source.slice r) := by
  rw [applyIndexedResults]
  change (if _ then _ else ix.insert r (source.slice r) >>= fun ix => .ok ix) = _
  rw [if_neg (not_not.2 (by rw [h.sourceLength]; rfl))]
  cases ix.insert r (source.slice r) <;> rfl

end Tabulark.Excel
