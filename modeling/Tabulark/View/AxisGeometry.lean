import Mathlib
import Tabulark.Error
import Tabulark.Lib.Bisect
import Tabulark.Lib.InsertionMap
import Tabulark.Lib.Strips

/-!
# The geometry of rows

A worksheet may have a million rows, most of them as high as all others. Only
the rows with a height of their own are listed, in order, each with what it and
those before it add to the default heights. Positions are found by a search
among these, and the row at a position by a search among all rows.

The rows are strips side by side: `axisPosition` is where a row begins
(`SparseAxisGeometry.WellFormed.axisPosition_eq`), and `axisIndexAtOffset` the
row that covers a point (`SparseAxisGeometry.WellFormed.axisIndexAtOffset_eq_some`).
Sizes are exact.
-/

namespace Tabulark.View

open Bisect Strips

/-! ## Sizes -/

def positiveFinite (value : ℚ) (name : String) : Result ℚ :=
  if value ≤ 0 then .error (.new .invalidArgument s!"{name} must be a positive finite number")
  else .ok value

def nonNegativeFinite (value : ℚ) (name : String) : Result ℚ :=
  if value < 0 then .error (.new .invalidArgument s!"{name} must be a non-negative finite number")
  else .ok value

def nonNegativeInteger (value : ℕ) (name : String) : Result ℕ :=
  if maxSafeInteger < value then
    .error (.new .invalidArgument s!"{name} must be a non-negative safe integer")
  else .ok value

variable {name : String}

theorem positiveFinite_eq_ok {value result : ℚ}
    (h : positiveFinite value name = .ok result) : result = value ∧ 0 < value := by
  rw [positiveFinite] at h
  split_ifs at h with hle
  cases h
  exact ⟨rfl, not_le.1 hle⟩

theorem nonNegativeFinite_eq_ok {value result : ℚ}
    (h : nonNegativeFinite value name = .ok result) : result = value ∧ 0 ≤ value := by
  rw [nonNegativeFinite] at h
  split_ifs at h with hlt
  cases h
  exact ⟨rfl, not_lt.1 hlt⟩

theorem nonNegativeInteger_eq_ok {value result : ℕ}
    (h : nonNegativeInteger value name = .ok result) : result = value ∧ value ≤ maxSafeInteger := by
  rw [nonNegativeInteger] at h
  split_ifs at h with hlt
  cases h
  exact ⟨rfl, not_lt.1 hlt⟩

/-- What a presentation says of a row or a column. -/
structure PresentationAxisEntry where
  index : ℤ
  size : Option ℚ := none
  hidden : Bool := false
  deriving DecidableEq, Repr

/-- An index with a size of its own, and what it and those before add to the default sizes. -/
structure SparseAxisOverride where
  index : ℕ
  size : ℚ
  cumulativeDelta : ℚ
  deriving DecidableEq, Repr

/-- Many indexes, only some of which have sizes of their own. -/
structure SparseAxisGeometry where
  count : ℕ
  defaultSize : ℚ
  contentSize : ℚ
  overrides : List SparseAxisOverride
  deriving DecidableEq, Repr

/-- The sizes that are set, with one entry more. -/
def setAxisEntry (count : ℕ) (byIndex : InsertionMap ℕ ℚ) (entry : PresentationAxisEntry) :
    InsertionMap ℕ ℚ :=
  if maxSafeInteger < entry.index.natAbs ∨ entry.index < 0 ∨ (count : ℤ) ≤ entry.index then byIndex
  else if entry.hidden then byIndex.set entry.index.toNat 0
  else
    match entry.size with
    | some size => if size < 0 then byIndex else byIndex.set entry.index.toNat size
    | none => byIndex

/-- Sizes in the order of their indexes, with the sums of what they add. -/
def accumulate (defaultSize : ℚ) : ℚ → List (ℕ × ℚ) → List SparseAxisOverride
  | _, [] => []
  | cumulativeDelta, (index, size) :: rest =>
    ⟨index, size, cumulativeDelta + (size - defaultSize)⟩ ::
      accumulate defaultSize (cumulativeDelta + (size - defaultSize)) rest

/-- The geometry of an axis, given what a presentation says of some indexes. -/
def createSparseAxisGeometry (count : ℕ) (defaultSize : ℚ) (entries : List PresentationAxisEntry) :
    Result SparseAxisGeometry := do
  let _ ← nonNegativeInteger count "axis count"
  let _ ← positiveFinite defaultSize "axis defaultSize"
  let byIndex := entries.foldl (setAxisEntry count) .empty
  let sorted := byIndex.entries.mergeSort fun left right => left.1 ≤ right.1
  let cumulativeDelta := (sorted.map fun entry => entry.2 - defaultSize).sum
  pure {
    count
    defaultSize
    contentSize := max 0 (count * defaultSize + cumulativeDelta)
    overrides := accumulate defaultSize 0 sorted }

/-! ## Searches -/

/-- The first of the overrides that is not before an index. -/
def lowerBoundOverride (entries : List SparseAxisOverride) (target : ℕ) : ℕ :=
  lowerBoundBy SparseAxisOverride.index entries target

def sparseOverrideAt (geometry : SparseAxisGeometry) (index : ℕ) : Option SparseAxisOverride :=
  let candidate := geometry.overrides[lowerBoundOverride geometry.overrides index]?
  if (candidate.map fun entry => entry.index) = some index then candidate else none

/-- Logical offset at the start of an axis index. -/
def axisPosition (geometry : SparseAxisGeometry) (index : ℕ) : ℚ :=
  let normalized := min geometry.count index
  let overrideIndex := lowerBoundOverride geometry.overrides normalized
  let delta := if overrideIndex = 0 then 0
    else (geometry.overrides[overrideIndex - 1]?.map fun entry => entry.cumulativeDelta).getD 0
  normalized * geometry.defaultSize + delta

/-- Effective axis extent, zero when a row or a column is hidden. -/
def axisSize (geometry : SparseAxisGeometry) (index : ℕ) : ℚ :=
  if geometry.count ≤ index then 0
  else
    ((sparseOverrideAt geometry index).map fun entry => entry.size).getD geometry.defaultSize

/-- The index at an offset, from some index on. -/
def axisIndexFrom (geometry : SparseAxisGeometry) (offset : ℚ) (index : ℕ) : Option ℕ :=
  if index < geometry.count then
    let size := axisSize geometry index
    let start := axisPosition geometry index
    if 0 < size ∧ start ≤ offset ∧ offset < start + size then some index
    else if offset < start then none
    else axisIndexFrom geometry offset (index + 1)
  else none
termination_by geometry.count - index

/-- Finds the visible axis index containing a logical offset. -/
def axisIndexAtOffset (geometry : SparseAxisGeometry) (offset : ℚ) : Option ℕ :=
  if offset < 0 ∨ geometry.contentSize ≤ offset ∨ geometry.count = 0 then none
  else
    axisIndexFrom geometry offset
      (bisect (fun middle => axisPosition geometry (middle + 1) ≤ offset) 0 geometry.count)

/-! ## Well-formed geometries -/

/-- The overrides are in order, and sum up what they add to the default sizes. -/
structure SparseAxisGeometry.WellFormed (g : SparseAxisGeometry) : Prop where
  default_pos : 0 < g.defaultSize
  sorted : g.overrides.Pairwise fun left right => left.index < right.index
  index_lt : ∀ o ∈ g.overrides, o.index < g.count
  size_nonneg : ∀ o ∈ g.overrides, 0 ≤ o.size
  delta_eq : ∀ n < g.overrides.length, (g.overrides[n]?.map fun o => o.cumulativeDelta) =
    some ((g.overrides.take (n + 1)).map fun o => o.size - g.defaultSize).sum
  content_eq : g.contentSize =
    g.count * g.defaultSize + (g.overrides.map fun o => o.size - g.defaultSize).sum

namespace SparseAxisGeometry.WellFormed

variable {g : SparseAxisGeometry} (h : g.WellFormed) {i : ℕ} {x : ℚ}
include h

/-- The overrides before an index. -/
theorem take_lowerBoundOverride (target : ℕ) :
    g.overrides.take (lowerBoundOverride g.overrides target) =
      g.overrides.filter fun o => o.index < target :=
  take_lowerBoundBy (h.sorted.imp le_of_lt)

theorem lt_lowerBoundOverride {n : ℕ} (hn : n < g.overrides.length) (target : ℕ) :
    n < lowerBoundOverride g.overrides target ↔ g.overrides[n].index < target :=
  lt_lowerBoundBy_iff (h.sorted.imp le_of_lt) hn

/-- The search finds the override of an index. -/
theorem sparseOverrideAt_of_mem {o : SparseAxisOverride} (ho : o ∈ g.overrides) :
    sparseOverrideAt g o.index = some o := by
  obtain ⟨n, hn, rfl⟩ := List.mem_iff_getElem.1 ho
  have hlast := h.lt_lowerBoundOverride hn g.overrides[n].index
  have hbound : lowerBoundOverride g.overrides g.overrides[n].index = n := by
    by_contra hne
    have hlt : lowerBoundOverride g.overrides g.overrides[n].index < n := by
      have hle := not_lt.1 (mt hlast.1 (lt_irrefl _))
      omega
    have horder := List.pairwise_iff_getElem.1 h.sorted _ n (hlt.trans hn) hn hlt
    exact absurd ((h.lt_lowerBoundOverride (hlt.trans hn) _).2 horder) (lt_irrefl _)
  rw [sparseOverrideAt, hbound, List.getElem?_eq_getElem hn]
  exact if_pos rfl

omit h in
/-- An index without an override. -/
theorem sparseOverrideAt_eq_none (hne : ∀ o ∈ g.overrides, o.index ≠ i) :
    sparseOverrideAt g i = none := by
  rw [sparseOverrideAt]
  refine if_neg fun hsome => ?_
  obtain ⟨o, ho, hindex⟩ := Option.map_eq_some_iff.1 hsome
  exact hne o (List.mem_of_getElem? ho) hindex

/-! ### Rows as strips -/

theorem axisSize_of_mem {o : SparseAxisOverride} (ho : o ∈ g.overrides) :
    axisSize g o.index = o.size := by
  rw [axisSize, if_neg (not_le.2 (h.index_lt o ho)), h.sparseOverrideAt_of_mem ho]
  rfl

omit h in
theorem axisSize_of_not_mem (hi : i < g.count) (hne : ∀ o ∈ g.overrides, o.index ≠ i) :
    axisSize g i = g.defaultSize := by
  rw [axisSize, if_neg (not_le.2 hi), sparseOverrideAt_eq_none hne]
  rfl

theorem axisSize_nonneg (i : ℕ) : 0 ≤ axisSize g i := by
  by_cases hi : g.count ≤ i
  · rw [axisSize, if_pos hi]
  by_cases hmem : ∃ o ∈ g.overrides, o.index = i
  · obtain ⟨o, ho, rfl⟩ := hmem
    rw [h.axisSize_of_mem ho]
    exact h.size_nonneg o ho
  · rw [axisSize_of_not_mem (not_le.1 hi) fun o ho heq => hmem ⟨o, ho, heq⟩]
    exact h.default_pos.le

/-- What the overrides before an index add to the default sizes. -/
theorem sum_axisSize_sub {m : ℕ} (hm : m ≤ g.count) :
    ∑ j ∈ Finset.range m, (axisSize g j - g.defaultSize) =
      ((g.overrides.filter fun o => o.index < m).map fun o => o.size - g.defaultSize).sum := by
  have hnodup : ((g.overrides.filter fun o => o.index < m).map SparseAxisOverride.index).Nodup :=
    List.pairwise_map.2 ((h.sorted.filter _).imp fun hlt => hlt.ne)
  -- Indexes without an override add nothing.
  have hsubset : ((g.overrides.filter fun o => o.index < m).map
      SparseAxisOverride.index).toFinset ⊆ Finset.range m := by
    intro j hj
    obtain ⟨o, ho, rfl⟩ := List.mem_map.1 (List.mem_toFinset.1 hj)
    exact Finset.mem_range.2 (of_decide_eq_true (List.mem_filter.1 ho).2)
  rw [← Finset.sum_subset hsubset, List.sum_toFinset _ hnodup, List.map_map]
  · refine congrArg List.sum (List.map_congr_left fun o ho => ?_)
    rw [Function.comp_apply, h.axisSize_of_mem (List.mem_filter.1 ho).1]
  · intro j hj hnot
    rw [Finset.mem_range] at hj
    rw [axisSize_of_not_mem (hj.trans_le hm), sub_self]
    rintro o ho rfl
    exact hnot (List.mem_toFinset.2 (List.mem_map.2
      ⟨o, List.mem_filter.2 ⟨ho, decide_eq_true hj⟩, rfl⟩))

/-- The sum of the sizes, as the default sizes and what is added to them. -/
theorem offset_eq {m : ℕ} (hm : m ≤ g.count) :
    offset (axisSize g) m = m * g.defaultSize +
      ((g.overrides.filter fun o => o.index < m).map fun o => o.size - g.defaultSize).sum := by
  rw [← h.sum_axisSize_sub hm, Finset.sum_sub_distrib, Finset.sum_const, Finset.card_range,
    nsmul_eq_mul, offset]
  ring

omit h in
theorem offset_min (i : ℕ) : offset (axisSize g) (min g.count i) = offset (axisSize g) i := by
  refine Finset.sum_subset (Finset.range_subset_range.2 (min_le_right _ _)) fun j hj hnot => ?_
  rw [Finset.mem_range] at hj hnot
  exact if_pos (by omega)

/-- The delta that the search finds is that of the overrides before the index. -/
theorem axisPosition_delta (target : ℕ) :
    (if lowerBoundOverride g.overrides target = 0 then 0
      else (g.overrides[lowerBoundOverride g.overrides target - 1]?.map
        fun entry => entry.cumulativeDelta).getD 0) =
      ((g.overrides.filter fun o => o.index < target).map fun o => o.size - g.defaultSize).sum := by
  rw [← h.take_lowerBoundOverride target]
  have hle : lowerBoundOverride g.overrides target ≤ g.overrides.length :=
    lowerBoundBy_le (h.sorted.imp le_of_lt)
  split_ifs with hzero
  · rw [hzero]
    rfl
  · rw [h.delta_eq _ (by omega), Option.getD_some, Nat.sub_add_cancel (by omega)]

/-- A row begins where those before it end. -/
theorem axisPosition_eq (i : ℕ) : axisPosition g i = offset (axisSize g) i := by
  rw [← offset_min, h.offset_eq (min_le_left _ _), axisPosition, h.axisPosition_delta]

theorem contentSize_eq : g.contentSize = axisPosition g g.count := by
  rw [h.axisPosition_eq, h.offset_eq le_rfl, h.content_eq, List.filter_eq_self.2]
  exact fun o ho => decide_eq_true (h.index_lt o ho)

omit h in
theorem lt_count_of_covers (hcovers : Covers (axisSize g) i x) : i < g.count := by
  by_contra hle
  have hpos := hcovers.pos
  rw [axisSize, if_pos (not_lt.1 hle)] at hpos
  exact lt_irrefl _ hpos

/-- The first search finds the row that covers a point. -/
theorem bisect_eq_of_covers (hcovers : Covers (axisSize g) i x) :
    bisect (fun middle => axisPosition g (middle + 1) ≤ x) 0 g.count = i :=
  Strips.bisect_eq_of_covers h.axisSize_nonneg (fun j _ => h.axisPosition_eq (j + 1))
    (lt_count_of_covers hcovers) hcovers

/-- The search among the rows finds the one that covers a point, if there is one. -/
theorem axisIndexAtOffset_eq_some :
    axisIndexAtOffset g x = some i ↔ Covers (axisSize g) i x := by
  have hcontent := h.contentSize_eq
  rw [h.axisPosition_eq] at hcontent
  rw [axisIndexAtOffset]
  have hfound : ∀ k, Covers (axisSize g) k x →
      axisIndexFrom g x (bisect (fun middle => axisPosition g (middle + 1) ≤ x) 0 g.count) =
        some k := by
    intro k hk
    rw [h.bisect_eq_of_covers hk, axisIndexFrom, if_pos (lt_count_of_covers hk)]
    dsimp only
    rw [h.axisPosition_eq, if_pos ⟨hk.pos, hk⟩]
  split_ifs with hout
  · refine ⟨fun hnone => (nomatch hnone), fun hcovers => ?_⟩
    rcases hout with hneg | hbeyond | hzero
    · exact absurd (hcovers.nonneg h.axisSize_nonneg) (not_le.2 hneg)
    · rw [hcontent] at hbeyond
      exact absurd (hcovers.lt_offset h.axisSize_nonneg (lt_count_of_covers hcovers))
        (not_lt.2 hbeyond)
    · exact absurd (lt_count_of_covers hcovers) (by omega)
  · simp only [not_or, not_lt, not_le] at hout
    obtain ⟨k, -, hk⟩ := exists_covers hout.1 (hcontent ▸ hout.2.1)
    rw [hfound k hk, Option.some_inj]
    exact ⟨fun heq => heq ▸ hk, fun hi => hk.unique h.axisSize_nonneg hi⟩

end SparseAxisGeometry.WellFormed

/-! ## The geometry of a presentation -/

/-- The size that an entry sets for an index, if it does. -/
def PresentationAxisEntry.sets (entry : PresentationAxisEntry) (i : ℕ) : Option ℚ :=
  if entry.index = i then
    if entry.hidden then some 0 else entry.size.filter fun size => 0 ≤ size
  else none

/-- The size of an index: the last entry that sets it counts. -/
def effectiveSize (defaultSize : ℚ) (entries : List PresentationAxisEntry) (i : ℕ) : ℚ :=
  (entries.filterMap fun entry => entry.sets i).getLast?.getD defaultSize

variable {count i : ℕ} {defaultSize : ℚ} {entries : List PresentationAxisEntry}
  {byIndex : InsertionMap ℕ ℚ} {entry : PresentationAxisEntry}

/-- An entry that is not skipped sets its index. -/
theorem setAxisEntry_cases (count : ℕ) (byIndex : InsertionMap ℕ ℚ)
    (entry : PresentationAxisEntry) :
    setAxisEntry count byIndex entry = byIndex ∧
        (∀ i < count, count ≤ maxSafeInteger → entry.sets i = none) ∨
      ∃ j < count, ∃ size, 0 ≤ size ∧ (j : ℤ) = entry.index ∧ entry.sets j = some size ∧
        setAxisEntry count byIndex entry = byIndex.set j size := by
  rw [setAxisEntry]
  split_ifs with hskip hhidden
  · refine .inl ⟨rfl, fun i hi hcount => if_neg fun hindex => ?_⟩
    rw [hindex] at hskip
    omega
  · refine .inr ⟨entry.index.toNat, by omega, 0, le_rfl, by omega, ?_, rfl⟩
    rw [PresentationAxisEntry.sets, if_pos (by omega), if_pos hhidden]
  · cases hsize : entry.size with
    | none =>
      refine .inl ⟨rfl, fun i _ _ => ?_⟩
      rw [PresentationAxisEntry.sets, if_neg hhidden, hsize]
      split_ifs <;> rfl
    | some size =>
      dsimp only
      split_ifs with hneg
      · refine .inl ⟨rfl, fun i _ _ => ?_⟩
        have hfilter : (some size).filter (fun size => 0 ≤ size) = none := by simpa using hneg
        rw [PresentationAxisEntry.sets, if_neg hhidden, hsize, hfilter, ite_self]
      · refine .inr ⟨entry.index.toNat, by omega, size, not_lt.1 hneg, by omega, ?_, rfl⟩
        have hfilter : (some size).filter (fun size => 0 ≤ size) = some size := by simpa using hneg
        rw [PresentationAxisEntry.sets, if_pos (by omega), if_neg hhidden, hsize, hfilter]

theorem get?_setAxisEntry (hi : i < count) (hcount : count ≤ maxSafeInteger) :
    (setAxisEntry count byIndex entry).get? i = (entry.sets i).or (byIndex.get? i) := by
  obtain ⟨hset, hnone⟩ | ⟨j, -, size, -, hj, hsets, hset⟩ := setAxisEntry_cases count byIndex entry
  · rw [hset, hnone i hi hcount, Option.none_or]
  · rw [hset, InsertionMap.get?_set]
    split_ifs with hij
    · rw [hij, hsets, Option.some_or]
    · rw [PresentationAxisEntry.sets, if_neg (by omega), Option.none_or]

/-- After all entries, an index has the size that the last one set. -/
theorem get?_foldl_setAxisEntry (hi : i < count) (hcount : count ≤ maxSafeInteger)
    (entries : List PresentationAxisEntry) :
    (entries.foldl (setAxisEntry count) .empty).get? i =
      (entries.filterMap fun entry => entry.sets i).getLast? := by
  induction entries using List.reverseRecOn with
  | nil => rfl
  | append_singleton entries entry ih =>
    rw [List.foldl_concat, get?_setAxisEntry hi hcount, ih, List.filterMap_append,
      List.getLast?_append]
    refine congrArg (Option.or · _) ?_
    cases hsets : entry.sets i <;> simp [hsets]

/-- What is set is within the axis, and not negative. -/
theorem mem_foldl_setAxisEntry (entries : List PresentationAxisEntry) :
    ∀ e ∈ (entries.foldl (setAxisEntry count) .empty).entries, e.1 < count ∧ 0 ≤ e.2 := by
  induction entries using List.reverseRecOn with
  | nil => exact fun e he => absurd he List.not_mem_nil
  | append_singleton entries entry ih =>
    rw [List.foldl_concat]
    obtain ⟨hset, -⟩ | ⟨j, hj, size, hsize, -, -, hset⟩ := setAxisEntry_cases count
      (entries.foldl (setAxisEntry count) .empty) entry
    · rw [hset]
      exact ih
    · rw [hset]
      intro e he
      rcases InsertionMap.mem_set.1 he with rfl | ⟨he, -⟩
      · exact ⟨hj, hsize⟩
      · exact ih e he

theorem map_accumulate (defaultSize delta : ℚ) (sizes : List (ℕ × ℚ)) :
    (accumulate defaultSize delta sizes).map (fun o => (o.index, o.size)) = sizes := by
  induction sizes generalizing delta with
  | nil => rfl
  | cons e sizes ih =>
    rw [accumulate, List.map_cons, ih]

theorem getElem?_accumulate (defaultSize delta : ℚ) (sizes : List (ℕ × ℚ)) (n : ℕ)
    (hn : n < sizes.length) :
    ((accumulate defaultSize delta sizes)[n]?.map fun o => o.cumulativeDelta) =
      some (delta + ((sizes.take (n + 1)).map fun e => e.2 - defaultSize).sum) := by
  induction sizes generalizing delta n with
  | nil => exact absurd hn (Nat.not_lt_zero n)
  | cons e sizes ih =>
    cases n with
    | zero => simp [accumulate]
    | succ n =>
      rw [accumulate, List.getElem?_cons_succ, ih _ n (Nat.lt_of_succ_lt_succ hn),
        List.take_succ_cons, List.map_cons, List.sum_cons, add_assoc]

/-- The sizes that are set, in the order of their indexes. -/
def sortedSizes (count : ℕ) (entries : List PresentationAxisEntry) : List (ℕ × ℚ) :=
  (entries.foldl (setAxisEntry count) .empty).entries.mergeSort fun left right => left.1 ≤ right.1

theorem perm_sortedSizes (count : ℕ) (entries : List PresentationAxisEntry) :
    (sortedSizes count entries).Perm (entries.foldl (setAxisEntry count) .empty).entries :=
  List.mergeSort_perm _ _

theorem pairwise_sortedSizes (count : ℕ) (entries : List PresentationAxisEntry) :
    (sortedSizes count entries).Pairwise fun left right => left.1 < right.1 := by
  have hsorted : (sortedSizes count entries).Pairwise fun left right => left.1 ≤ right.1 :=
    (List.pairwise_mergeSort (fun a b c hab hbc => by simp at *; omega)
      (fun a b => by simp; omega) _).imp fun hle => of_decide_eq_true hle
  have hnodup := ((perm_sortedSizes count entries).map Prod.fst).nodup_iff.2
    (entries.foldl (setAxisEntry count) .empty).nodup
  exact (hsorted.and (List.pairwise_map.1 hnodup)).imp fun hboth => hboth.1.lt_of_ne hboth.2

/-- The geometry of the sizes that are set. -/
def geometryOf (count : ℕ) (defaultSize : ℚ) (entries : List PresentationAxisEntry) :
    SparseAxisGeometry where
  count
  defaultSize
  contentSize := count * defaultSize +
    ((sortedSizes count entries).map fun entry => entry.2 - defaultSize).sum
  overrides := accumulate defaultSize 0 (sortedSizes count entries)

theorem map_geometryOf (count : ℕ) (defaultSize : ℚ) (entries : List PresentationAxisEntry) :
    (geometryOf count defaultSize entries).overrides.map (fun o => (o.index, o.size)) =
      sortedSizes count entries :=
  map_accumulate _ _ _

/-- The overrides are the sizes that are set. -/
theorem mem_geometryOf {o : SparseAxisOverride}
    (ho : o ∈ (geometryOf count defaultSize entries).overrides) :
    (entries.foldl (setAxisEntry count) .empty).get? o.index = some o.size := by
  rw [InsertionMap.get?_eq_some, ← (perm_sortedSizes count entries).mem_iff,
    ← map_geometryOf count defaultSize entries]
  exact List.mem_map.2 ⟨o, ho, rfl⟩

theorem wellFormed_geometryOf (count : ℕ) (hdefault : 0 < defaultSize)
    (entries : List PresentationAxisEntry) :
    (geometryOf count defaultSize entries).WellFormed := by
  have hmap := map_geometryOf count defaultSize entries
  have hbounds : ∀ o ∈ (geometryOf count defaultSize entries).overrides,
      o.index < count ∧ 0 ≤ o.size := fun o ho =>
    mem_foldl_setAxisEntry entries _ (InsertionMap.get?_eq_some.1 (mem_geometryOf ho))
  have hdeltas : ∀ l : List SparseAxisOverride, (l.map fun o => o.size - defaultSize) =
      (l.map fun o => (o.index, o.size)).map fun e => e.2 - defaultSize := fun l => by
    rw [List.map_map]
    rfl
  refine ⟨hdefault, ?_, fun o ho => (hbounds o ho).1, fun o ho => (hbounds o ho).2, ?_, ?_⟩
  · have hsorted := pairwise_sortedSizes count entries
    rw [← hmap, List.pairwise_map] at hsorted
    exact hsorted
  · intro n hn
    have hlength := congrArg List.length hmap
    rw [List.length_map] at hlength
    change ((accumulate defaultSize 0 (sortedSizes count entries))[n]?.map _) = some
      (((geometryOf count defaultSize entries).overrides.take (n + 1)).map
        fun o => o.size - defaultSize).sum
    rw [getElem?_accumulate _ _ _ _ (hlength ▸ hn), zero_add, hdeltas, ← hmap]
    simp only [List.map_take]
  · change _ = count * defaultSize +
      ((geometryOf count defaultSize entries).overrides.map fun o => o.size - defaultSize).sum
    rw [hdeltas, hmap]
    rfl

theorem createSparseAxisGeometry_eq (hcount : count ≤ maxSafeInteger) (hdefault : 0 < defaultSize)
    (entries : List PresentationAxisEntry) :
    createSparseAxisGeometry count defaultSize entries =
      .ok (geometryOf count defaultSize entries) := by
  have h := wellFormed_geometryOf count hdefault entries
  -- The sum of the sizes is not negative, so the content is not cut off.
  have hcontent : 0 ≤ (geometryOf count defaultSize entries).contentSize := by
    rw [h.contentSize_eq, h.axisPosition_eq]
    exact offset_nonneg h.axisSize_nonneg _
  rw [createSparseAxisGeometry, nonNegativeInteger, if_neg (not_lt.2 hcount), positiveFinite,
    if_neg (not_le.2 hdefault)]
  exact congrArg (fun c => Except.ok (SparseAxisGeometry.mk count defaultSize c
    (accumulate defaultSize 0 (sortedSizes count entries)))) (max_eq_right hcontent)

/-- The size of an index is the one that was set last. -/
theorem axisSize_geometryOf (hcount : count ≤ maxSafeInteger) (hdefault : 0 < defaultSize)
    (hi : i < count) :
    axisSize (geometryOf count defaultSize entries) i = effectiveSize defaultSize entries i := by
  have h := wellFormed_geometryOf count hdefault entries
  rw [effectiveSize, ← get?_foldl_setAxisEntry hi hcount]
  cases hget : (entries.foldl (setAxisEntry count) .empty).get? i with
  | none =>
    refine SparseAxisGeometry.WellFormed.axisSize_of_not_mem hi ?_
    rintro o ho rfl
    exact nomatch hget.symm.trans (mem_geometryOf ho)
  | some size =>
    have hmem := InsertionMap.get?_eq_some.1 hget
    rw [← (perm_sortedSizes count entries).mem_iff, ← map_geometryOf count defaultSize entries]
      at hmem
    obtain ⟨o, ho, heq⟩ := List.mem_map.1 hmem
    cases heq
    exact h.axisSize_of_mem ho

end Tabulark.View
