import Tabulark.Excel.WasmRuntime

/-!
# Ranges of any bytes

The runtime retains whatever bytes the host supplies, whether the source has them
or not. What it retains is always what some source of that length has
(`Holds.overwrite`), and grows only (`Grown`).
-/

namespace Tabulark.Excel

open Segments

/-! ## Other bytes in a range -/

theorem HostSource.length_overwrite_le (source : HostSource) {r : HostRange} {bytes : List UInt8}
    (hr : r.stop ≤ source.bytes.length) (hlength : bytes.length = r.length) :
    (source.bytes.take r.offset ++ (bytes ++ source.bytes.drop r.stop)).length ≤
      maxRangeSourceBytes := by
  have hle := source.length_le
  rw [HostRange.stop] at hr ⊢
  rw [List.length_append, List.length_append, List.length_take, List.length_drop]
  omega

/-- The source with other bytes in a range. -/
def HostSource.overwrite (source : HostSource) (r : HostRange) (bytes : List UInt8)
    (hr : r.stop ≤ source.bytes.length) (hlength : bytes.length = r.length) : HostSource where
  bytes := source.bytes.take r.offset ++ (bytes ++ source.bytes.drop r.stop)
  length_le := length_overwrite_le source hr hlength

variable {source : HostSource} {r : HostRange} {bytes : List UInt8}
  (hr : r.stop ≤ source.bytes.length) (hlength : bytes.length = r.length)

theorem HostSource.length_overwrite :
    (source.overwrite r bytes hr hlength).bytes.length = source.bytes.length := by
  rw [overwrite, List.length_append, List.length_append, List.length_take, List.length_drop]
  rw [HostRange.stop] at hr ⊢
  omega

theorem HostSource.slice_overwrite : (source.overwrite r bytes hr hlength).slice r = bytes := by
  have htake : (source.bytes.take r.offset).length = r.offset := by
    rw [HostRange.stop] at hr
    rw [List.length_take]
    omega
  rw [slice, overwrite, List.drop_append_of_le_length htake.ge, List.drop_of_length_le htake.le,
    List.nil_append, List.take_append_of_le_length hlength.ge, List.take_of_length_le hlength.le]

/-- A part outside the range is a part with other bytes in the range, too. -/
theorem HostSource.prefix_overwrite {start : ℕ} {part : List UInt8}
    (hpart : part <+: source.bytes.drop start)
    (hout : start + part.length ≤ r.offset ∨ r.stop ≤ start) :
    part <+: (source.overwrite r bytes hr hlength).bytes.drop start := by
  rw [List.prefix_iff_getElem?] at hpart ⊢
  intro i hi
  rw [← hpart i hi, List.getElem?_drop, List.getElem?_drop, overwrite]
  have hstop : r.stop = r.offset + r.length := rfl
  have htake : (source.bytes.take r.offset).length = r.offset := by
    rw [List.length_take]
    omega
  rcases hout with hle | hle
  · rw [List.getElem?_append_left (by omega), List.getElem?_take_of_lt (by omega)]
  · rw [List.getElem?_append_right (by omega), List.getElem?_append_right (by omega),
      List.getElem?_drop]
    congr 1
    omega

namespace IndexedRanges

variable {ix jx : IndexedRanges}

/-- What misses a range is retained of a source with any bytes in it. -/
theorem Holds.overwrite (h : ix.Holds source) (hmisses : ix.Misses r) :
    ix.Holds (source.overwrite r bytes hr hlength) := by
  have hlen := HostSource.length_overwrite hr hlength
  refine ⟨h.sourceLength.trans hlen.symm, ⟨h.separate.ne_nil, fun s hs => ?_,
    h.separate.separated⟩, ?_⟩
  · refine HostSource.prefix_overwrite hr hlength (h.separate.part s hs) ?_
    -- A segment that reaches into the range would cover a position of it.
    have hpos := r.pos
    by_contra hout
    push Not at hout
    have hstart := h.separate.start_lt_stop hs
    rw [stop] at hstart
    rw [HostRange.stop] at hout
    refine hmisses (max s.1 r.offset) ⟨le_max_right _ _, ?_⟩ ⟨s, hs, le_max_left _ _, ?_⟩
    · rw [HostRange.stop]
      omega
    · rw [stop]
      omega
  · rw [h.retained, count, count, hlen]

/-- What one call does, with any bytes: it fails and changes nothing, its range was retained, or it
    is now. -/
theorem Holds.insertMut_cases (h : ix.Holds source) (r : HostRange) (bytes : List UInt8) :
    (∃ error, ix.insertMut r bytes = (ix, .error error)) ∨
      (ix.insertMut r bytes = (ix, .ok ()) ∧ ∀ i, r.Contains i → ix.Covers i) ∨
      ∃ ix' source', ix.insertMut r bytes = (ix', .ok ()) ∧ ix'.Holds source' ∧
        source'.bytes.length = source.bytes.length ∧
        ix'.retainedBytes = ix.retainedBytes + r.length ∧
        ∀ i, ix'.Covers i ↔ ix.Covers i ∨ r.Contains i := by
  by_cases hstop : source.bytes.length < r.stop
  · rw [insertMut, h.sourceLength, if_pos hstop]
    exact .inl ⟨_, rfl⟩
  by_cases hlength : bytes.length = r.length
  · have hr := not_lt.1 hstop
    by_cases hmisses : ix.Misses r
    · -- The bytes are those of a source that has them.
      have hholds := h.overwrite hr hlength hmisses
      have hlen := HostSource.length_overwrite hr hlength
      have hslice := HostSource.slice_overwrite hr hlength
      obtain ⟨ix', hinsert, hholds', hretained, hcovers⟩ :=
        hholds.insert_of_misses (hr.trans hlen.ge) hmisses
      rw [hslice] at hinsert
      have htrue : TrueBytes (source.overwrite r bytes hr hlength)
          (r, (source.overwrite r bytes hr hlength).slice r) := List.take_prefix _ _
      rw [hslice] at htrue
      refine .inr (.inr ⟨ix', _, ?_, hholds', hlen, hretained, hcovers⟩)
      rw [hholds.insertMut_eq htrue, hinsert]
      rfl
    · by_cases hmem : (r.offset, bytes) ∈ ix.ranges
      · have hslice : bytes = source.slice r := by
          rw [HostSource.slice, ← hlength]
          exact List.prefix_iff_eq_take.1 (h.separate.part _ hmem)
        have htrue : TrueBytes source (r, bytes) := h.separate.part _ hmem
        refine .inr (.inl ⟨?_, fun i hi => ⟨_, hmem, hi.1, ?_⟩⟩)
        · rw [h.insertMut_eq htrue, hslice, h.insert_of_mem hr (hslice ▸ hmem)]
          rfl
        · rw [stop, hlength]
          exact hi.2
      · have hinsert := h.insert_of_overlap hr hlength hmisses hmem
        rcases IndexedRanges.insertMut_eq ix r bytes with hmut | ⟨error, hretain, herror⟩
        · rw [hmut, hinsert]
          exact .inl ⟨_, rfl⟩
        · rw [hinsert] at herror
          cases herror
          exact absurd rfl (retain_ne_overlaps hretain)
  · rw [insertMut, h.sourceLength, if_neg hstop, if_pos hlength]
    exact .inl ⟨_, rfl⟩

/-! ## Growing -/

/-- `jx` retains what `ix` does, and more of every range of which it retains anything new. -/
structure Grown (ix jx : IndexedRanges) : Prop where
  holds : ∃ source, jx.Holds source
  retained_le : ix.retainedBytes ≤ jx.retainedBytes
  retained_lt : ∀ gap, ix.Misses gap → ¬jx.Misses gap → ix.retainedBytes < jx.retainedBytes

theorem Holds.grown (h : ix.Holds source) : ix.Grown ix :=
  ⟨⟨source, h⟩, le_rfl, fun _ hmisses hnot => absurd hmisses hnot⟩

theorem Grown.trans {kx : IndexedRanges} (h : ix.Grown jx) (h' : jx.Grown kx) : ix.Grown kx := by
  refine ⟨h'.holds, h.retained_le.trans h'.retained_le, fun gap hmisses hnot => ?_⟩
  by_cases hmid : jx.Misses gap
  · exact h.retained_le.trans_lt (h'.retained_lt gap hmid hnot)
  · exact (h.retained_lt gap hmisses hmid).trans_le h'.retained_le

/-- A call lets the ranges grow; one that does not fail has its range retained. -/
theorem Holds.insertMut_grown (h : ix.Holds source) (r : HostRange) (bytes : List UInt8) :
    ix.Grown (ix.insertMut r bytes).1 ∧
      ((ix.insertMut r bytes).2 = .ok () → ¬(ix.insertMut r bytes).1.Misses r) := by
  have hpos := r.pos
  have hcontains : r.Contains r.offset := ⟨le_rfl, by rw [HostRange.stop]; omega⟩
  rcases h.insertMut_cases r bytes with ⟨error, hmut⟩ | ⟨hmut, hcovers⟩ |
    ⟨ix', source', hmut, hholds, _, hretained, hcovers⟩
  · rw [hmut]
    exact ⟨h.grown, Result.error_elim⟩
  · rw [hmut]
    exact ⟨h.grown, fun _ hmisses => hmisses _ hcontains (hcovers _ hcontains)⟩
  · rw [hmut]
    refine ⟨⟨⟨source', hholds⟩, ?_, fun _ _ _ => ?_⟩, fun _ hmisses => ?_⟩
    · dsimp only
      omega
    · dsimp only
      omega
    · exact hmisses _ hcontains ((hcovers _).2 (.inr hcontains))

end IndexedRanges

/-- Results let the ranges grow. -/
theorem applyIndexedResultsMut_grown {ix : IndexedRanges} (h : ix.Holds source)
    (expected : List HostRange) (results : List AdapterActionResult) :
    ix.Grown (applyIndexedResultsMut expected ix results).1 := by
  induction results generalizing ix source with
  | nil => exact h.grown
  | cons result results ih =>
    rw [applyIndexedResultsMut]
    cases expected[result.actionIndex]? with
    | none => exact h.grown
    | some range =>
      dsimp only
      split_ifs
      · exact h.grown
      · have hgrown := (h.insertMut_grown range result.bytes).1
        cases hmut : ix.insertMut range result.bytes with
        | mk jx applied =>
          rw [hmut] at hgrown
          obtain ⟨source', hholds⟩ := hgrown.holds
          cases applied with
          | error e => exact hgrown
          | ok _ => exact hgrown.trans (ih hholds)

/-- The result of one range, when it is taken, has the range retained. -/
theorem applyIndexedResultsMut_singleton {ix : IndexedRanges} (h : ix.Holds source)
    {range : HostRange} {result : AdapterActionResult}
    (hok : (applyIndexedResultsMut [range] ix [result]).2 = .ok ())
    (hindex : result.actionIndex = 0) :
    ¬(applyIndexedResultsMut [range] ix [result]).1.Misses range := by
  rw [applyIndexedResultsMut, hindex] at hok ⊢
  change (if _ then _ else _ : IndexedRanges × Result Unit).2 = _ at hok
  change ¬(if _ then _ else _ : IndexedRanges × Result Unit).1.Misses range
  split_ifs at hok ⊢ with heof
  have hcovered := (h.insertMut_grown range result.bytes).2
  cases hmut : ix.insertMut range result.bytes with
  | mk jx applied =>
    rw [hmut] at hcovered hok
    cases applied with
    | error e => cases hok
    | ok _ => exact hcovered rfl

/-- The right answer to a range of which nothing is retained. -/
theorem applyIndexedResultsMut_answer {ix : IndexedRanges} (h : ix.Holds source)
    {range : HostRange} (hr : range.stop ≤ source.bytes.length) (hmisses : ix.Misses range) :
    ∃ ix', applyIndexedResultsMut [range] ix [source.answer 0 range] = (ix', .ok ()) ∧
      ix'.Holds source ∧ ∀ i, ix'.Covers i ↔ ix.Covers i ∨ range.Contains i := by
  obtain ⟨ix', hinsert, hholds, _, hcovers⟩ := h.insert_of_misses hr hmisses
  have htrue : IndexedRanges.TrueBytes source (range, source.slice range) :=
    List.take_prefix _ _
  have hmut : ix.insertMut range (source.slice range) = (ix', .ok ()) := by
    rw [h.insertMut_eq htrue, hinsert]
    rfl
  refine ⟨ix', ?_, hholds, hcovers⟩
  rw [applyIndexedResultsMut]
  change (if decide (range.stop = source.bytes.length) ≠ decide (range.stop = ix.sourceLength)
    then _ else _ : IndexedRanges × Result Unit) = _
  rw [h.sourceLength, if_neg (not_not.2 rfl)]
  dsimp only [HostSource.answer]
  rw [hmut]
  rfl

end Tabulark.Excel
