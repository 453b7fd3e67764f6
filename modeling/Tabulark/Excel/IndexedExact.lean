import Tabulark.Excel.Ranges
import Tabulark.Lib.Run

/-!
# Indexed ranges are the bytes received

`IndexedRanges.insertMut` is `insert` with everything a call that fails leaves
behind. Over every sequence of calls with bytes of the source,
`indexed_ranges_exact` says what the retained ranges are, what `bytes` and
`firstMissing` give back, and what inserting the first gap changes.
-/

namespace Tabulark.Excel

open Segments OrderedMap

namespace IndexedRanges

/-! ## Calls in place -/

/-- Retains bytes in place: the accounting is charged and the segment before is taken out before
    the end of the joined bytes is known to be one. -/
def retainMut (ix : IndexedRanges) (offset : ℕ) (bytes : List UInt8) :
    IndexedRanges × Result Unit :=
  match checkedAdd u64Max ix.retainedBytes bytes.length
    (.new .resourceLimit "Excel indexed range accounting overflows") with
  | .error error => (ix, .error error)
  | .ok retainedBytes =>
    let joined := joinPrevious ix.ranges offset bytes
    match joinNext joined.1 joined.2 with
    | .error error => ({ ix with ranges := joined.1, retainedBytes }, .error error)
    | .ok ranges => ({ ix with ranges, retainedBytes }, .ok ())

/-- Retains the bytes of a range in place unless the next segment starts in it. -/
def insertBeforeNextMut (ix : IndexedRanges) (requested : HostRange) (bytes : List UInt8) :
    IndexedRanges × Result Unit :=
  match firstGE ix.ranges requested.offset with
  | some next =>
    if next.1 < requested.stop then (ix, .error overlapsIndexed)
    else ix.retainMut requested.offset bytes
  | none => ix.retainMut requested.offset bytes

/-- Retains the bytes of a range in place: the ranges after the call, and whether it failed. -/
def insertMut (ix : IndexedRanges) (requested : HostRange) (bytes : List UInt8) :
    IndexedRanges × Result Unit :=
  if ix.sourceLength < requested.stop then
    (ix, .error (.new .invalidArgument "Excel range result lies outside the source"))
  else if bytes.length ≠ requested.length then
    (ix, .error (((TabularkError.new .invalidArgument
      "Excel range result length does not match its action").withDetail
      "expectedLength" (.number requested.length)).withDetail
      "actualLength" (.number bytes.length)))
  else
    match lastLE ix.ranges requested.offset with
    | some (start, existing) =>
      match segmentEnd start existing with
      | .error error => (ix, .error error)
      | .ok existingEnd =>
        if requested.offset < existingEnd then
          if start = requested.offset ∧ existing = bytes then (ix, .ok ())
          else (ix, .error overlapsIndexed)
        else ix.insertBeforeNextMut requested bytes
    | none => ix.insertBeforeNextMut requested bytes

/-- A call of `insert`: the range that was requested and the bytes it got. -/
abbrev InsertCall : Type := HostRange × List UInt8

/-- The ranges after a call. -/
def call (ix : IndexedRanges) (c : InsertCall) : IndexedRanges := (ix.insertMut c.1 c.2).1

/-- The ranges that a sequence of calls was taken for. -/
def received : IndexedRanges → List InsertCall → List HostRange
  | _, [] => []
  | ix, c :: calls =>
    match (ix.insertMut c.1 c.2).2 with
    | .ok () => c.1 :: (ix.call c).received calls
    | .error _ => (ix.call c).received calls

/-- The bytes of a call are bytes of the source from the requested offset on. -/
def TrueBytes (source : HostSource) (c : InsertCall) : Prop :=
  c.2 <+: source.bytes.drop c.1.offset

/-! ## A call that fails changes nothing -/

/-- What `insert` gives, as what the call leaves. -/
def settle (ix : IndexedRanges) : Result IndexedRanges → IndexedRanges × Result Unit
  | .ok ix' => (ix', .ok ())
  | .error error => (ix, .error error)

variable {ix : IndexedRanges} {source : HostSource} {r : HostRange} {bytes : List UInt8}

theorem retainMut_eq {ix' : IndexedRanges} {offset : ℕ}
    (h : ix.retain offset bytes = .ok ix') : ix.retainMut offset bytes = (ix', .ok ()) := by
  obtain ⟨retainedBytes, hretained, h⟩ := Result.bind_eq_ok.1 h
  obtain ⟨ranges, hranges, h⟩ := Result.bind_eq_ok.1 h
  cases h
  rw [retainMut, hretained]
  dsimp only
  rw [hranges]

/-- Only an overflow fails after the overlaps are checked. -/
theorem retain_ne_overlaps {offset : ℕ} {error : TabularkError}
    (h : ix.retain offset bytes = .error error) : error ≠ overlapsIndexed := by
  rcases Result.bind_eq_error.1 h with h | ⟨_, _, h⟩
  · rw [checkedAdd] at h
    split_ifs at h
    cases h
    decide
  · rcases Result.bind_eq_error.1 h with h | ⟨_, _, h⟩
    · rw [joinNext] at h
      rcases Result.bind_eq_error.1 h with h | ⟨_, _, h⟩
      · rw [segmentEnd, checkedAdd] at h
        split_ifs at h
        cases h
        decide
      · split at h <;> cases h
    · cases h

/-- A call leaves what `insert` gives, unless it fails after the overlaps are checked. -/
theorem insertMut_eq (ix : IndexedRanges) (r : HostRange) (bytes : List UInt8) :
    ix.insertMut r bytes = ix.settle (ix.insert r bytes) ∨
      ∃ error, ix.retain r.offset bytes = .error error ∧ ix.insert r bytes = .error error := by
  have hretain : ix.retainMut r.offset bytes = ix.settle (ix.retain r.offset bytes) ∨
      ∃ error, ix.retain r.offset bytes = .error error := by
    cases h : ix.retain r.offset bytes with
    | ok ix' => exact .inl (retainMut_eq h)
    | error error => exact .inr ⟨error, rfl⟩
  have hnext : ix.insertBeforeNextMut r bytes = ix.settle (ix.insertBeforeNext r bytes) ∨
      ∃ error, ix.retain r.offset bytes = .error error ∧
        ix.insertBeforeNext r bytes = .error error := by
    rw [insertBeforeNextMut, insertBeforeNext]
    cases firstGE ix.ranges r.offset with
    | none => exact hretain.imp_right fun h => h.imp fun _ h => ⟨h, h⟩
    | some next =>
      dsimp only
      split_ifs with hlt
      · exact .inl rfl
      · exact hretain.imp_right fun h => h.imp fun _ h => ⟨h, h⟩
  rw [insertMut, IndexedRanges.insert]
  split_ifs with hstop hlength
  · exact .inl rfl
  · exact .inl rfl
  · cases lastLE ix.ranges r.offset with
    | none => exact hnext
    | some s =>
      obtain ⟨start, existing⟩ := s
      dsimp only
      cases segmentEnd start existing with
      | error error => exact .inl rfl
      | ok existingEnd =>
        rw [Result.ok_bind]
        dsimp only
        split_ifs
        · exact .inl rfl
        · exact .inl rfl
        · exact hnext

/-- Bytes of the source have the requested length, or the call is refused. -/
theorem insert_of_length_ne (h : ix.Holds source) (hne : bytes ≠ source.slice r)
    (htrue : TrueBytes source (r, bytes)) :
    ∃ error, ix.insertMut r bytes = (ix, .error error) ∧ ix.insert r bytes = .error error := by
  rw [insertMut, IndexedRanges.insert, h.sourceLength]
  split_ifs with hstop hlength
  · exact ⟨_, rfl, rfl⟩
  · exact ⟨_, rfl, rfl⟩
  · refine absurd ?_ hne
    rw [HostSource.slice, ← not_not.1 hlength]
    exact List.prefix_iff_eq_take.1 htrue

/-- A call with bytes of the source leaves what `insert` gives. -/
theorem Holds.insertMut_eq (h : ix.Holds source) (htrue : TrueBytes source (r, bytes)) :
    ix.insertMut r bytes = ix.settle (ix.insert r bytes) := by
  by_cases hstop : source.bytes.length < r.stop
  · rw [insertMut, IndexedRanges.insert, h.sourceLength, if_pos hstop, if_pos hstop]
    rfl
  by_cases hbytes : bytes = source.slice r
  · subst hbytes
    refine (IndexedRanges.insertMut_eq ix r _).resolve_right ?_
    rintro ⟨error, hretain, hinsert⟩
    -- Every refusal of bytes of the source is one of an overlap.
    have hle := not_lt.1 hstop
    by_cases hmisses : ix.Misses r
    · obtain ⟨ix', hok, _⟩ := h.insert_of_misses hle hmisses
      rw [hok] at hinsert
      cases hinsert
    · by_cases hmem : (r.offset, source.slice r) ∈ ix.ranges
      · rw [h.insert_of_mem hle hmem] at hinsert
        cases hinsert
      · rw [h.insert_of_overlap hle (HostSource.length_slice hle) hmisses hmem] at hinsert
        cases hinsert
        exact retain_ne_overlaps hretain rfl
  · obtain ⟨error, hmut, hinsert⟩ := insert_of_length_ne h hbytes htrue
    rw [hmut, hinsert]
    rfl

/-! ## Runs of calls -/

/-- What one call does: it is taken and its range is retained, or nothing changes. -/
theorem Holds.call_cases (h : ix.Holds source) (htrue : TrueBytes source (r, bytes)) :
    (∃ ix', ix.insertMut r bytes = (ix', .ok ()) ∧ r.stop ≤ source.bytes.length ∧
        bytes = source.slice r ∧ ix'.Holds source ∧
        ∀ i, ix'.Covers i ↔ ix.Covers i ∨ r.Contains i) ∨
      ∃ error, ix.insertMut r bytes = (ix, .error error) := by
  have hmut := h.insertMut_eq htrue
  cases hinsert : ix.insert r bytes with
  | error error =>
    rw [hinsert] at hmut
    exact .inr ⟨error, hmut⟩
  | ok ix' =>
    rw [hinsert] at hmut
    by_cases hbytes : bytes = source.slice r
    · have hle : r.stop ≤ source.bytes.length := by
        by_contra hlt
        rw [IndexedRanges.insert, h.sourceLength, if_pos (not_le.1 hlt)] at hinsert
        cases hinsert
      subst hbytes
      obtain ⟨hholds, hcovers⟩ := h.covers_insert hle hinsert
      exact .inl ⟨ix', hmut, hle, rfl, hholds, hcovers⟩
    · obtain ⟨error, _, herror⟩ := insert_of_length_ne h hbytes htrue
      rw [hinsert] at herror
      cases herror

/-- What a run of calls retains is what it received. -/
theorem Holds.run (h : ix.Holds source) {calls : List InsertCall}
    (htrue : ∀ c ∈ calls, TrueBytes source c) :
    (Run.run call ix calls).Holds source ∧ ∀ i, (Run.run call ix calls).Covers i ↔
      ix.Covers i ∨ ∃ range ∈ ix.received calls, range.Contains i := by
  induction calls generalizing ix with
  | nil =>
    refine ⟨h, fun i => (or_iff_left ?_).symm⟩
    rintro ⟨range, hrange, -⟩
    cases hrange
  | cons c calls ih =>
    obtain ⟨hc, htail⟩ := List.forall_mem_cons.1 htrue
    rw [Run.run_cons, received, call]
    rcases h.call_cases hc with ⟨ix', hmut, _, _, hholds, hcovers⟩ | ⟨error, hmut⟩
    · obtain ⟨hrun, hall⟩ := ih hholds htail
      rw [hmut]
      refine ⟨hrun, fun i => (hall i).trans ?_⟩
      rw [hcovers, or_assoc, List.exists_mem_cons_iff]
    · rw [hmut]
      exact ih h htail

/-- Inserting the first gap takes it away from what is missing, and nothing else. -/
theorem Holds.insert_firstGap (h : ix.Holds source) (hr : r.stop ≤ source.bytes.length)
    {gap : HostRange} (hgap : ix.FirstGap r gap) :
    ∃ ix', ix.insertMut gap (source.slice gap) = (ix', .ok ()) ∧
      ∀ i, r.Contains i → (¬ix'.Covers i ↔ ¬ix.Covers i ∧ ¬gap.Contains i) := by
  obtain ⟨ix', hinsert, _, _, hcovers⟩ :=
    h.insert_of_misses (hgap.stop_le.trans hr) hgap.misses
  refine ⟨ix', ?_, fun i _ => by rw [hcovers, not_or]⟩
  have htrue : TrueBytes source (gap, source.slice gap) := List.take_prefix _ _
  rw [h.insertMut_eq htrue, hinsert]
  rfl

/-- Over every sequence of calls of `insert` with bytes of the source, the ranges are the bytes
    received: they are in order and apart, `bytes` reads what is covered, and `firstMissing` finds
    the first gap, whose insertion takes exactly it away. -/
theorem indexed_ranges_exact (source : HostSource) (calls : List InsertCall)
    (htrue : ∀ c ∈ calls, TrueBytes source c) :
    let ix := Run.run call (new source.bytes.length) calls
    (∀ i, ix.Covers i ↔ ∃ range ∈ (new source.bytes.length).received calls, range.Contains i) ∧
      (∀ s ∈ ix.ranges, s.2 ≠ [] ∧ s.2 <+: source.bytes.drop s.1) ∧
      ix.ranges.Pairwise (fun a b => stop a < b.1) ∧
      ix.retainedBytes = (ix.ranges.map fun s => s.2.length).sum ∧
      (∀ c error, TrueBytes source c → (ix.insertMut c.1 c.2).2 = .error error →
        ix.call c = ix) ∧
      ∀ r : HostRange, r.stop ≤ source.bytes.length →
        ((∀ i, r.Contains i → ix.Covers i) →
          ix.bytes r = some (source.slice r) ∧ ix.firstMissing r = .ok none) ∧
        (¬(∀ i, r.Contains i → ix.Covers i) →
          ix.bytes r = none ∧ ∃ gap, ix.firstMissing r = .ok (some gap) ∧ ix.FirstGap r gap ∧
            ∃ ix', ix.insertMut gap (source.slice gap) = (ix', .ok ()) ∧
              ∀ i, r.Contains i → (¬ix'.Covers i ↔ ¬ix.Covers i ∧ ¬gap.Contains i)) := by
  obtain ⟨h, hcovers⟩ := (holds_new source).run htrue
  refine ⟨fun i => (hcovers i).trans (or_iff_right ?_),
    fun s hs => ⟨h.separate.ne_nil s hs, h.separate.part s hs⟩, h.separate.separated,
    h.retained.trans h.separate.count_eq_sum, fun c error hc hfails => ?_, fun r hr => ⟨?_, ?_⟩⟩
  · rintro ⟨s, hs, -⟩
    cases hs
  · -- A call that is taken does not fail, and any other changes nothing.
    rcases h.call_cases hc with ⟨ix', hmut, _⟩ | ⟨_, hmut⟩
    · rw [hmut] at hfails
      cases hfails
    · rw [call, hmut]
  · intro hall
    refine ⟨h.bytes_of_covers hall, ?_⟩
    rcases h.firstMissing_eq hr with ⟨hnone, _⟩ | ⟨gap, _, hgap⟩
    · exact hnone
    · have hstop : gap.offset < gap.stop := Nat.lt_add_of_pos_right gap.pos
      exact absurd (hall _ ⟨hgap.offset_le, hstop.trans_le hgap.stop_le⟩)
        (hgap.misses _ ⟨le_rfl, hstop⟩)
  · intro hnot
    refine ⟨?_, ?_⟩
    · cases hbytes : (Run.run call (new source.bytes.length) calls).bytes r with
      | none => rfl
      | some b => exact absurd (h.covers_of_bytes hbytes).1 hnot
    · rcases h.firstMissing_eq hr with ⟨_, hall⟩ | ⟨gap, hsome, hgap⟩
      · exact absurd hall hnot
      · exact ⟨gap, hsome, hgap, h.insert_firstGap hr hgap⟩

/-- Two of four bytes: the range of all four is not read back. -/
theorem indexed_ranges_exact_half :
    (Run.run call (new 4) [(⟨1, 2, by decide, by decide⟩, [8, 9])]).bytes
      ⟨0, 4, by decide, by decide⟩ = none :=
  ((indexed_ranges_exact ⟨[7, 8, 9, 10], by decide⟩ [(⟨1, 2, by decide, by decide⟩, [8, 9])]
    (by
      intro c hc
      rw [List.mem_singleton.1 hc]
      exact ⟨[10], rfl⟩)).2.2.2.2.2 ⟨0, 4, by decide, by decide⟩ le_rfl).2 (by
    intro hall
    obtain ⟨s, hs, hle, hlt⟩ := hall 0 ⟨le_rfl, by decide⟩
    revert s
    decide) |>.1

end IndexedRanges

end Tabulark.Excel
