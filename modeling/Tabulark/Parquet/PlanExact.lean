import Tabulark.Parquet.Planning

/-!
# What a plan reads

A plan picks the row groups that overlap the returned range by their ends
(`addRowGroups_eq_ok`). Those are the ones with a row in it, except that an
empty row group inside the range is picked, too, and so is the row group around
an empty range. The preview's walk, which counts rows, takes exactly the rows of
the range (`walkRowGroups_overlapping`).
-/

namespace Tabulark.Parquet

open Blocks

/-! ## Joined ranges -/

/-- The positions of a range. -/
def ParquetReadBytesAction.bounds (a : ParquetReadBytesAction) : ℕ × ℕ :=
  (a.offset, a.offset + a.length)

theorem ParquetReadBytesAction.stop_eq_bounds {a : ParquetReadBytesAction} {n : ℕ}
    (h : a.stop = .ok n) : n = a.bounds.2 := (checkedAdd_eq_ok.1 h).2

theorem mergeSourceRanges_eq_ok {previous : ParquetReadBytesAction}
    {ranges merged : List ParquetReadBytesAction}
    (h : mergeSourceRanges previous ranges = .ok merged) :
    merged.map (·.bounds) = Ranges.joinInto previous.bounds (ranges.map (·.bounds)) := by
  induction ranges generalizing previous merged with
  | nil =>
    cases h
    rfl
  | cons action ranges ih =>
    obtain ⟨actionEnd, haction, h⟩ := Result.bind_eq_ok.1 h
    obtain ⟨previousEnd, hprevious, h⟩ := Result.bind_eq_ok.1 h
    obtain rfl := ParquetReadBytesAction.stop_eq_bounds haction
    obtain rfl := ParquetReadBytesAction.stop_eq_bounds hprevious
    rw [List.map_cons, Ranges.joinInto]
    by_cases htouch : action.offset ≤ previous.bounds.2
    · rw [if_pos htouch] at h
      rw [if_pos (show action.bounds.1 ≤ _ from htouch)]
      dsimp only at h
      split_ifs at h with hunder
      rw [ih h, ParquetReadBytesAction.bounds, Nat.add_sub_cancel' (not_lt.1 hunder)]
      rfl
    · rw [if_neg htouch] at h
      rw [if_neg (show ¬action.bounds.1 ≤ _ from htouch)]
      obtain ⟨rest, hrest, h⟩ := Result.bind_eq_ok.1 h
      cases h
      rw [List.map_cons, ih hrest]

/-- Coalesced ranges are apart, in order, and have the bytes of the ranges they come from. -/
theorem coalesceSourceRanges_eq_ok {ranges merged : List ParquetReadBytesAction}
    (h : coalesceSourceRanges ranges = .ok merged) :
    Ranges.Apart (merged.map (·.bounds)) ∧
      ∀ x, Ranges.Among (merged.map (·.bounds)) x ↔ ∃ a ∈ ranges, Ranges.In a.bounds x := by
  have hjoined : merged.map (·.bounds) =
      Ranges.joinSorted ((ranges.mergeSort fun a b => a.offset ≤ b.offset).map (·.bounds)) := by
    rw [coalesceSourceRanges] at h
    split at h
    · rename_i hsort
      cases h
      rw [hsort]
      rfl
    · rename_i action rest hsort
      obtain ⟨_, _, h⟩ := Result.bind_eq_ok.1 h
      rw [hsort, mergeSourceRanges_eq_ok h]
      rfl
  have hsorted : ((ranges.mergeSort fun a b => a.offset ≤ b.offset).map (·.bounds)).Pairwise
      fun a b => a.1 ≤ b.1 := by
    rw [List.pairwise_map]
    refine (List.pairwise_mergeSort (fun a b c hab hbc => ?_) (fun a b => ?_) ranges).imp
      of_decide_eq_true
    · exact decide_eq_true ((of_decide_eq_true hab).trans (of_decide_eq_true hbc))
    · rw [Bool.or_eq_true, decide_eq_true_iff, decide_eq_true_iff]
      exact le_total _ _
  have hranges : ∀ range ∈ (ranges.mergeSort fun a b => a.offset ≤ b.offset).map (·.bounds),
      range.1 ≤ range.2 := by
    intro range hrange
    obtain ⟨a, _, rfl⟩ := List.mem_map.1 hrange
    exact Nat.le_add_right _ _
  obtain ⟨hapart, hamong⟩ := Ranges.joinSorted_spec hranges hsorted
  rw [hjoined]
  refine ⟨hapart, fun x => (hamong x).trans ?_⟩
  constructor
  · rintro ⟨range, hrange, hx⟩
    obtain ⟨a, ha, rfl⟩ := List.mem_map.1 hrange
    exact ⟨a, List.mem_mergeSort.1 ha, hx⟩
  · rintro ⟨a, ha, hx⟩
    exact ⟨a.bounds, List.mem_map.2 ⟨a, List.mem_mergeSort.2 ha, rfl⟩, hx⟩

/-! ## The row groups of a plan -/

/-- The rows of a row group. -/
def RowGroupMetaData.rows (g : RowGroupMetaData) : ℕ := g.numRows.toNat

/-- The row groups of a table, with the rows that each has. -/
def rowGroupBlocks (footer : List RowGroupMetaData) : List (Block RowGroupMetaData) :=
  layout RowGroupMetaData.rows 0 0 footer

/-- A byte of a projected column chunk of the row group, whose first leaf has the given index. -/
def ChunkByte (projection : ℕ → Bool) (leafIndex : ℕ) (columns : List ColumnChunkMetaData)
    (x : ℕ) : Prop :=
  ∃ i column, columns[i]? = some column ∧ projection (leafIndex + i) = true ∧
    Ranges.In column.byteRange.bounds x

theorem chunkByte_cons {projection : ℕ → Bool} {leafIndex : ℕ} {column : ColumnChunkMetaData}
    {columns : List ColumnChunkMetaData} {x : ℕ} :
    ChunkByte projection leafIndex (column :: columns) x ↔
      (projection leafIndex = true ∧ Ranges.In column.byteRange.bounds x) ∨
        ChunkByte projection (leafIndex + 1) columns x := by
  constructor
  · rintro ⟨i, c, hget, hprojected, hx⟩
    cases i with
    | zero =>
      cases hget
      exact .inl ⟨hprojected, hx⟩
    | succ i =>
      rw [show leafIndex + (i + 1) = leafIndex + 1 + i by omega] at hprojected
      exact .inr ⟨i, c, hget, hprojected, hx⟩
  · rintro (⟨hprojected, hx⟩ | ⟨i, c, hget, hprojected, hx⟩)
    · exact ⟨0, column, rfl, hprojected, hx⟩
    · refine ⟨i + 1, c, hget, ?_, hx⟩
      rwa [show leafIndex + (i + 1) = leafIndex + 1 + i by omega]

namespace PlanWalk

/-- A byte of the ranges gathered so far. -/
def HasByte (w : PlanWalk) (x : ℕ) : Prop := ∃ a ∈ w.ranges, Ranges.In a.bounds x

variable {sourceLength first last : ℕ} {projection : ℕ → Bool} {w w' : PlanWalk}

/-- The row groups that were picked, apart from their bytes. -/
def picked (w : PlanWalk) : ℕ × List ℕ × ℕ := (w.rowOffset, w.rowGroups, w.selectedRowOffset)

theorem addColumn_eq_ok {fullySelected : Bool} {column : ColumnChunkMetaData}
    (h : w.addColumn sourceLength fullySelected column = .ok w') :
    w'.picked = w.picked ∧
      ∀ x, w'.HasByte x ↔ w.HasByte x ∨ Ranges.In column.byteRange.bounds x := by
  obtain ⟨uncompressed, _, h⟩ := Result.bind_eq_ok.1 h
  obtain ⟨uncompressedBytes, _, h⟩ := Result.bind_eq_ok.1 h
  obtain ⟨fully, _, h⟩ := Result.ite_bind_eq_ok h
  obtain ⟨stop, _, h⟩ := Result.bind_eq_ok.1 h
  by_cases hstop : sourceLength < stop
  · rw [if_pos hstop] at h
    cases h
  rw [if_neg hstop] at h
  by_cases hpos : 0 < column.byteRange.length
  · rw [if_pos hpos] at h
    cases h
    refine ⟨rfl, fun x => ?_⟩
    simp only [HasByte, List.mem_append, List.mem_singleton, or_and_right, exists_or,
      exists_eq_left]
  · rw [if_neg hpos] at h
    cases h
    refine ⟨rfl, fun x => (or_iff_left ?_).symm⟩
    rintro ⟨hle, hlt⟩
    dsimp only [ParquetReadBytesAction.bounds] at hle hlt
    omega

theorem addColumns_eq_ok {fullySelected : Bool} {leafIndex : ℕ} {columns : List ColumnChunkMetaData}
    (h : addColumns sourceLength projection fullySelected w leafIndex columns = .ok w') :
    w'.picked = w.picked ∧
      ∀ x, w'.HasByte x ↔ w.HasByte x ∨ ChunkByte projection leafIndex columns x := by
  induction columns generalizing w leafIndex with
  | nil =>
    cases h
    exact ⟨rfl, fun x => (or_iff_left fun ⟨_, _, hget, _⟩ => by cases hget).symm⟩
  | cons column columns ih =>
    obtain ⟨w₁, hcolumn, h⟩ := Result.ite_bind_eq_ok h
    obtain ⟨hpicked, hbytes⟩ := ih h
    split_ifs at hcolumn with hprojected
    · obtain ⟨hpicked₁, hbytes₁⟩ := addColumn_eq_ok hcolumn
      refine ⟨hpicked.trans hpicked₁, fun x => ?_⟩
      rw [hbytes, hbytes₁, chunkByte_cons, or_assoc]
      simp only [hprojected, true_and]
    · cases hcolumn
      refine ⟨hpicked, fun x => ?_⟩
      rw [hbytes, chunkByte_cons]
      simp only [hprojected, false_and, false_or, Bool.false_eq_true]

/-- A row group is picked if it overlaps the request. -/
theorem addRowGroup_eq_ok {index : ℕ} {g : RowGroupMetaData}
    (h : w.addRowGroup sourceLength first last projection index g = .ok w') :
    0 ≤ g.numRows ∧ w'.rowOffset = w.rowOffset + g.rows ∧
      if w.rowOffset < last ∧ first < w.rowOffset + g.rows then
        w'.rowGroups = w.rowGroups ++ [index] ∧
        w'.selectedRowOffset =
          (if w.rowGroups.isEmpty then first - w.rowOffset else w.selectedRowOffset) ∧
        ∀ x, w'.HasByte x ↔ w.HasByte x ∨ ChunkByte projection 0 g.columns x
      else
        w'.rowGroups = w.rowGroups ∧ w'.selectedRowOffset = w.selectedRowOffset ∧
        ∀ x, w'.HasByte x ↔ w.HasByte x := by
  obtain ⟨rows, hrows, h⟩ := Result.bind_eq_ok.1 h
  obtain ⟨rowEnd, hend, h⟩ := Result.bind_eq_ok.1 h
  have hnonneg : 0 ≤ g.numRows := by
    rw [toUnsigned] at hrows
    split_ifs at hrows with hle
    exact hle.1
  obtain rfl : rows = g.rows := toUnsigned_eq_ok hrows
  obtain rfl := (checkedAdd_eq_ok.1 hend).2
  dsimp only at h
  by_cases hover : w.rowOffset < last ∧ first < w.rowOffset + g.rows
  · rw [if_pos hover] at h ⊢
    obtain ⟨selectedRowOffset, hoffset, h⟩ := Result.ite_bind_eq_ok h
    obtain ⟨w₁, hw₁, h⟩ := Result.bind_eq_ok.1 h
    cases h
    obtain ⟨hpicked, hbytes⟩ := addColumns_eq_ok hw₁
    obtain ⟨-, hgroups, hselected⟩ : _ ∧ _ ∧ _ := by simpa [picked] using hpicked
    refine ⟨hnonneg, rfl, hgroups, hselected.trans ?_, hbytes⟩
    split_ifs at hoffset ⊢
    · exact toUsize_eq_ok hoffset
    · cases hoffset
      rfl
  · rw [if_neg hover] at h ⊢
    cases h
    exact ⟨hnonneg, rfl, rfl, rfl, fun _ => Iff.rfl⟩

/-- From the first walk to the second, these row groups are picked: the first of them says how
    many of their rows come before the request. -/
structure Picks (first : ℕ) (projection : ℕ → Bool) (w w' : PlanWalk)
    (picks : List (Block RowGroupMetaData)) : Prop where
  rowGroups : w'.rowGroups = w.rowGroups ++ picks.map (·.index)
  selectedRowOffset : w'.selectedRowOffset =
    if w.rowGroups.isEmpty then picks.head?.elim w.selectedRowOffset (first - ·.start)
    else w.selectedRowOffset
  numRows_nonneg : ∀ b ∈ picks, 0 ≤ b.item.numRows
  hasByte : ∀ x, w'.HasByte x ↔
    w.HasByte x ∨ ∃ b ∈ picks, ChunkByte projection 0 b.item.columns x

/-- The row groups that overlap the request are picked. -/
theorem addRowGroups_eq_ok {index : ℕ} {groups : List RowGroupMetaData}
    (h : addRowGroups sourceLength first last projection w index groups = .ok w') :
    Picks first projection w w'
      ((layout RowGroupMetaData.rows index w.rowOffset groups).filter (·.Overlaps first last)) := by
  induction groups generalizing w index with
  | nil =>
    cases h
    exact ⟨by simp [layout], by simp [layout], by simp [layout], by simp [layout]⟩
  | cons g groups ih =>
    obtain ⟨w₁, hgroup, h⟩ := Result.bind_eq_ok.1 h
    obtain ⟨hnonneg, hoffset, hstep⟩ := addRowGroup_eq_ok hgroup
    -- The walk may stop here: no later row group overlaps the request then.
    have hrest : Picks first projection w₁ w' ((layout RowGroupMetaData.rows (index + 1)
        w₁.rowOffset groups).filter (·.Overlaps first last)) := by
      split_ifs at h with hstop
      · cases h
        rw [not_overlaps_of_le hstop]
        exact ⟨by simp, by simp, by simp, by simp⟩
      · exact ih h
    rw [layout, List.filter_cons, ← hoffset]
    by_cases hover : w.rowOffset < last ∧ first < w.rowOffset + g.rows
    · rw [if_pos hover] at hstep
      obtain ⟨hgroups, hselected, hbytes⟩ := hstep
      rw [if_pos (decide_eq_true (by rw [Block.Overlaps, hoffset]; exact hover))]
      refine ⟨?_, ?_, List.forall_mem_cons.2 ⟨hnonneg, hrest.numRows_nonneg⟩, fun x => ?_⟩
      · rw [hrest.rowGroups, hgroups, List.map_cons, List.append_assoc, List.singleton_append]
      · rw [hrest.selectedRowOffset, hgroups, hselected]
        simp
      · rw [hrest.hasByte, hbytes, or_assoc, List.exists_mem_cons_iff]
    · rw [if_neg hover] at hstep
      obtain ⟨hgroups, hselected, hbytes⟩ := hstep
      rw [if_neg (by rw [decide_eq_true_iff, Block.Overlaps, hoffset]; exact hover)]
      refine ⟨?_, ?_, hrest.numRows_nonneg, fun x => ?_⟩
      · rw [hrest.rowGroups, hgroups]
      · rw [hrest.selectedRowOffset, hgroups, hselected]
      · rw [hrest.hasByte, hbytes]

/-- A plan has the row groups that were picked, and the joined ranges where it is not lazy. -/
theorem finish_eq_ok {limits : ParquetLimits} {projected : ProjectedReadPlan}
    (h : w.finish limits = .ok projected) :
    projected.rowGroups = w.rowGroups ∧ projected.rowOffset = w.selectedRowOffset ∧
      (projected.lazyPageReads = false → Ranges.Apart (projected.ranges.map (·.bounds)) ∧
        ∀ x, Ranges.Among (projected.ranges.map (·.bounds)) x ↔ w.HasByte x) := by
  obtain ⟨ranges, hranges, h⟩ := Result.bind_eq_ok.1 h
  obtain ⟨compressedBytes, _, h⟩ := Result.bind_eq_ok.1 h
  dsimp only at h
  by_cases hlimits : w.uncompressedBytes ≤ limits.maxDecodedBytes ∧
      compressedBytes ≤ limits.maxOperationBytes
  · rw [if_pos hlimits] at h
    cases h
    exact ⟨rfl, rfl, fun _ => coalesceSourceRanges_eq_ok hranges⟩
  rw [if_neg hlimits] at h
  by_cases hpartial : (!w.hasPartialRowGroup) = true
  · rw [if_pos hpartial] at h
    split_ifs at h
  rw [if_neg hpartial] at h
  by_cases hfully : limits.maxDecodedBytes < w.fullySelectedUncompressedBytes
  · rw [if_pos hfully] at h
    cases h
  rw [if_neg hfully] at h
  obtain ⟨_, _, h⟩ := Result.bind_eq_ok.1 h
  obtain ⟨_, _, h⟩ := Result.bind_eq_ok.1 h
  split_ifs at h
  cases h
  exact ⟨rfl, rfl, nofun⟩

end PlanWalk

/-! ## The walk of a preview -/

namespace FixedListPreviewScanner

variable {footer : List RowGroupMetaData} {spec : FixedListPreviewSpec} {first last : ℕ}

/-- The rows of a row group that lie in a range, read from its leaf column. -/
def previewRows (spec : FixedListPreviewSpec) (first last : ℕ) (b : Block RowGroupMetaData) :
    Result FixedListPreviewRowGroup := do
  let rows ← toUnsigned usizeMax b.item.numRows
    (.new .resourceLimit "Parquet preview row-group count exceeds usize")
  match b.item.columns[spec.leafColumn]? with
  | none => .error (.new .parseFailed "Parquet preview leaf column is missing from a row group")
  | some metadata => .ok {
      metadata
      rows
      selectedStart := max b.start first - b.start
      selectedEnd := min b.stop last - b.start }

variable {b : Block RowGroupMetaData} {rowGroups : List ℕ}

/-- The walk takes the rows of a row group, and goes on to those that are left to take. -/
theorem walkRowGroups_cons {blocks : List (Block RowGroupMetaData)} {skip left n : ℕ}
    (hget : footer[b.index]? = some b.item) (hskip : skip = max b.start first - b.start)
    (hskipLt : skip < b.item.rows) (hleft : 0 < left)
    (hlast : min b.stop last - b.start = skip + min left (b.item.rows - skip))
    (hrest : walkRowGroups footer spec rowGroups 0 (left - min left (b.item.rows - skip)) =
      (blocks.mapM (previewRows spec first last)).map (·, n)) :
    walkRowGroups footer spec (b.index :: rowGroups) skip left =
      ((b :: blocks).mapM (previewRows spec first last)).map (·, n) := by
  rw [walkRowGroups, if_neg hleft.ne', hget, List.mapM_cons, previewRows]
  dsimp only
  cases hrows : toUnsigned usizeMax b.item.numRows
      (.new .resourceLimit "Parquet preview row-group count exceeds usize") with
  | error e => rfl
  | ok rows =>
    obtain rfl : rows = b.item.rows := toUnsigned_eq_ok hrows
    have hmax : b.item.rows ≤ usizeMax := by
      rw [toUnsigned] at hrows
      split_ifs at hrows with hle
      exact hle.2
    rw [Result.ok_bind, if_neg (not_le.2 hskipLt), Result.ok_bind, checkedAdd_of_le (by omega),
      Result.ok_bind, ← hlast, hskip]
    rw [hskip] at hrest
    cases b.item.columns[spec.leafColumn]? with
    | none => rfl
    | some metadata =>
      dsimp only
      rw [hrest]
      cases List.mapM (previewRows spec first last) blocks <;> rfl

/-- The walk passes over a row group that its skip covers. -/
theorem walkRowGroups_skip {skip left : ℕ}
    (hget : footer[b.index]? = some b.item) (hnonneg : 0 ≤ b.item.numRows)
    (hempty : b.item.rows = 0) (hleft : 0 < left) :
    walkRowGroups footer spec (b.index :: rowGroups) skip left =
      walkRowGroups footer spec rowGroups skip left := by
  have hrows : b.item.numRows.toNat = 0 := hempty
  rw [walkRowGroups, if_neg hleft.ne', hget]
  dsimp only
  rw [toUnsigned, if_pos ⟨hnonneg, by rw [hrows]; exact Nat.zero_le _⟩, Result.ok_bind, hrows,
    if_pos (Nat.zero_le _), Nat.sub_zero]

section Walk

variable {index start : ℕ} {g : RowGroupMetaData} {items : List RowGroupMetaData}

theorem nonneg_tail (hnonneg : ∀ b ∈ (layout RowGroupMetaData.rows index start
      (g :: items)).filter (·.Overlaps first last), 0 ≤ b.item.numRows) :
    ∀ b ∈ (layout RowGroupMetaData.rows (index + 1) (start + g.rows) items).filter
      (·.Overlaps first last), 0 ≤ b.item.numRows := fun b hb =>
  hnonneg b (((List.sublist_cons_self _ _).filter _).subset hb)

theorem start_add_sum_cons : start + ((g :: items).map RowGroupMetaData.rows).sum =
    start + g.rows + (items.map RowGroupMetaData.rows).sum := by
  rw [List.map_cons, List.sum_cons, Nat.add_assoc]

/-- A plan's offset makes the walk take the rows of every row group that meets the range. -/
theorem walkRowGroups_overlapping
    (hget : ∀ b ∈ layout RowGroupMetaData.rows index start items, footer[b.index]? = some b.item)
    (hnonneg : ∀ b ∈ (layout RowGroupMetaData.rows index start items).filter
      (·.Overlaps first last), 0 ≤ b.item.numRows) :
    walkRowGroups footer spec (((layout RowGroupMetaData.rows index start items).filter
        (·.Overlaps first last)).map (·.index))
        (((layout RowGroupMetaData.rows index start items).filter
          (·.Overlaps first last)).head?.elim 0 (first - ·.start)) (last - max first start) =
      (((layout RowGroupMetaData.rows index start items).filter (·.Meets first last)).mapM
        (previewRows spec first last)).map
          (·, last - max first (start + (items.map RowGroupMetaData.rows).sum)) := by
  rcases Nat.lt_or_ge first last with hlt | hge
  · induction items generalizing index start with
    | nil => rfl
    | cons g items ih =>
      obtain ⟨hhead, htail⟩ := List.forall_mem_cons.1 hget
      have hrest := ih htail (nonneg_tail hnonneg)
      -- Only the first row group of a plan is begun within.
      have hzero : first ≤ start + g.rows → ((layout RowGroupMetaData.rows (index + 1)
          (start + g.rows) items).filter (·.Overlaps first last)).head?.elim 0
            (first - ·.start) = 0 := by
        intro hle
        cases hfirst : ((layout RowGroupMetaData.rows (index + 1) (start + g.rows) items).filter
            (·.Overlaps first last)).head? with
        | none => rfl
        | some b =>
          exact Nat.sub_eq_zero_of_le (hle.trans
            (layout_bounds (List.mem_of_mem_filter (List.mem_of_head? hfirst))).1)
      rw [start_add_sum_cons]
      rw [layout] at hnonneg ⊢
      rw [List.filter_cons, List.filter_cons]
      by_cases hover : (⟨index, start, start + g.rows, g⟩ : Block RowGroupMetaData).Overlaps
        first last
      · have hnonneg := hnonneg _ (List.mem_filter.2 ⟨List.mem_cons_self, decide_eq_true hover⟩)
        rw [hzero hover.2.le] at hrest
        rw [if_pos (decide_eq_true hover), List.map_cons, List.head?_cons, Option.elim_some]
        obtain ⟨hlast, hfirst⟩ := hover
        dsimp only at hlast hfirst
        by_cases hempty : g.rows = 0
        · rw [if_neg (by
            rw [decide_eq_true_iff, Block.meets_iff]
            exact fun h => absurd h.2.1 (by dsimp only; omega)),
            walkRowGroups_skip hhead hnonneg hempty (by omega),
            Nat.sub_eq_zero_of_le (by dsimp only; omega)]
          rwa [hempty, Nat.add_zero] at hrest ⊢
        · rw [if_pos (decide_eq_true (Block.meets_iff.2 ⟨⟨hlast, hfirst⟩, by
            dsimp only; omega, hlt⟩))]
          refine walkRowGroups_cons hhead (by dsimp only; omega) (by dsimp only; omega) (by omega)
            (by dsimp only; omega) ?_
          dsimp only
          rwa [show last - max first start - min (last - max first start)
            (g.rows - (first - start)) = last - max first (start + g.rows) by omega]
      · rw [if_neg (by rwa [decide_eq_true_iff]), if_neg (by
          rw [decide_eq_true_iff, Block.meets_iff]
          exact fun h => hover h.1)]
        rw [Block.Overlaps] at hover
        dsimp only at hover
        rwa [show last - max first (start + g.rows) = last - max first start by omega] at hrest
  · -- There are no rows to take, and no row group has one.
    have hmeets : (layout RowGroupMetaData.rows index start items).filter (·.Meets first last) =
        [] := by
      rw [List.filter_eq_nil_iff]
      intro b _ h
      exact absurd (Block.meets_iff.1 (of_decide_eq_true h)).2.2 hge.not_gt
    rw [hmeets, Nat.sub_eq_zero_of_le (hge.trans (le_max_left _ _)),
      Nat.sub_eq_zero_of_le (hge.trans (le_max_left _ _))]
    generalize ((layout RowGroupMetaData.rows index start items).filter
      (·.Overlaps first last)).map (·.index) = indexes
    cases indexes with
    | nil => rfl
    | cons => rw [walkRowGroups, if_pos rfl]; rfl

end Walk

/-- The preview can read the row group. -/
def Previewable (spec : FixedListPreviewSpec) (g : RowGroupMetaData) : Prop :=
  g.rows ≤ usizeMax ∧ (g.columns[spec.leafColumn]?).isSome

instance (spec : FixedListPreviewSpec) (g : RowGroupMetaData) : Decidable (Previewable spec g) :=
  inferInstanceAs (Decidable (_ ∧ _))

theorem previewRows_of_previewable (hnonneg : 0 ≤ b.item.numRows)
    (h : Previewable spec b.item) : ∃ group, previewRows spec first last b = .ok group := by
  obtain ⟨metadata, hmetadata⟩ := Option.isSome_iff_exists.1 h.2
  rw [previewRows, toUnsigned, if_pos ⟨hnonneg, h.1⟩, Result.ok_bind, hmetadata]
  exact ⟨_, rfl⟩

theorem previewRows_eq_ok {group : FixedListPreviewRowGroup}
    (h : previewRows spec first last b = .ok group) :
    b.item.columns[spec.leafColumn]? = some group.metadata ∧ group.rows = b.item.rows ∧
      group.selectedStart = max b.start first - b.start ∧
      group.selectedEnd = min b.stop last - b.start ∧ Previewable spec b.item := by
  obtain ⟨rows, hrows, h⟩ := Result.bind_eq_ok.1 h
  obtain rfl : rows = b.item.rows := toUnsigned_eq_ok hrows
  rw [toUnsigned] at hrows
  split_ifs at hrows with hle
  split at h
  · cases h
  · rename_i metadata hmetadata
    cases h
    exact ⟨hmetadata, rfl, rfl, rfl, hle.2, by rw [hmetadata]; rfl⟩

theorem previewRows_ne_uncovered :
    previewRows spec first last b ≠ .error uncovered := by
  intro h
  rcases Result.bind_eq_error.1 h with h | ⟨_, _, h⟩
  · rw [toUnsigned] at h
    split_ifs at h
    cases h
  · split at h <;> cases h

/-- What a preview of a plan takes, and when it says that the row groups do not cover the range. -/
theorem new_eq (cellBytes budget : ℕ) {rowOffset rowCount left : ℕ}
    {blocks : List (Block RowGroupMetaData)}
    (hwalk : walkRowGroups footer spec rowGroups rowOffset rowCount =
      (blocks.mapM (previewRows spec first last)).map (·, left))
    (hnonneg : ∀ b ∈ blocks, 0 ≤ b.item.numRows) :
    (new footer spec rowGroups rowOffset rowCount cellBytes budget = .error uncovered ↔
      left ≠ 0 ∧ ∀ b ∈ blocks, Previewable spec b.item) ∧
    ∀ scanner, new footer spec rowGroups rowOffset rowCount cellBytes budget = .ok scanner →
      blocks.mapM (previewRows spec first last) = .ok scanner.rowGroups := by
  rw [new, hwalk]
  cases hgroups : blocks.mapM (previewRows spec first last) with
  | error e =>
    obtain ⟨b, hb, he⟩ := Result.mem_of_mapM_eq_error hgroups
    refine ⟨⟨fun h => ?_, fun h => ?_⟩, nofun⟩
    · cases h
      exact absurd he previewRows_ne_uncovered
    · obtain ⟨group, hgroup⟩ := previewRows_of_previewable (hnonneg b hb) (h.2 b hb)
      rw [hgroup] at he
      cases he
  | ok groups =>
    have hall : ∀ b ∈ blocks, Previewable spec b.item := by
      intro b hb
      obtain ⟨i, hi, rfl⟩ := List.mem_iff_getElem.1 hb
      have hforall := Result.forall₂_of_mapM_eq_ok hgroups
      have hget := (List.forall₂_iff_get.1 hforall).2 i hi
        ((List.forall₂_iff_get.1 hforall).1 ▸ hi)
      exact (previewRows_eq_ok hget).2.2.2.2
    rw [Except.map, Result.ok_bind]
    dsimp only
    by_cases hleft : left ≠ 0
    · rw [if_pos hleft]
      exact ⟨iff_of_true rfl ⟨hleft, hall⟩, nofun⟩
    · rw [if_neg hleft]
      refine ⟨iff_of_false (fun h => ?_) fun h => hleft h.1, fun scanner h => ?_⟩
      · rcases Result.bind_eq_error.1 h with h | ⟨_, _, h⟩
        · rcases Result.bind_eq_error.1 h with h | ⟨_, _, h⟩
          · rw [checkedMul] at h
            split_ifs at h
            cases h
          · split_ifs at h
        · cases h
      · obtain ⟨_, _, h⟩ := Result.bind_eq_ok.1 h
        cases h
        rfl

end FixedListPreviewScanner

/-! ## Exact plans -/

/-- What a plan comes to: it picks the row groups that overlap the returned range. -/
theorem planProjectedRanges_eq_ok {footer : List RowGroupMetaData} {sourceLength : ℕ}
    {plan : RangePlan} {projection : ℕ → Bool} {limits : ParquetLimits}
    {projected : ProjectedReadPlan}
    (h : planProjectedRanges footer sourceLength plan projection limits = .ok projected) :
    let first := plan.returnedRange.rowStart
    let last := first + plan.returnedRange.rowCount
    let picks := List.filter (fun b => b.Overlaps first last) (rowGroupBlocks footer)
    projected.rowGroups = picks.map (·.index) ∧
      projected.rowOffset = picks.head?.elim 0 (first - ·.start) ∧
      (∀ b ∈ picks, 0 ≤ b.item.numRows) ∧
      (projected.lazyPageReads = false → Ranges.Apart (projected.ranges.map (·.bounds)) ∧
        ∀ x, Ranges.Among (projected.ranges.map (·.bounds)) x ↔
          ∃ b ∈ picks, ChunkByte projection 0 b.item.columns x) := by
  obtain ⟨last, hlast, hplan⟩ := Result.bind_eq_ok.1 h
  obtain rfl := (checkedAdd_eq_ok.1 hlast).2
  obtain ⟨w, hw, hfinish⟩ := Result.bind_eq_ok.1 hplan
  have hpicks := PlanWalk.addRowGroups_eq_ok hw
  obtain ⟨hgroups, hoffset, hranges⟩ := PlanWalk.finish_eq_ok hfinish
  refine ⟨hgroups.trans hpicks.rowGroups, hoffset.trans hpicks.selectedRowOffset,
    hpicks.numRows_nonneg, fun hlazy => ?_⟩
  obtain ⟨hapart, hamong⟩ := hranges hlazy
  refine ⟨hapart, fun x => (hamong x).trans ((hpicks.hasByte x).trans (or_iff_right ?_))⟩
  rintro ⟨a, ha, _⟩
  exact List.not_mem_nil ha

theorem planRange_eq_ok {request : RangeRequest} {totalRows totalColumns maxRangeCells : ℕ}
    {plan : RangePlan} (h : planRange request totalRows totalColumns maxRangeCells = .ok plan) :
    plan.returnedRange.rowStart = request.rowStart ∧
      plan.returnedRange.rowCount = min request.rowCount (totalRows - request.rowStart) := by
  obtain ⟨_, _, h⟩ := Result.bind_eq_ok.1 h
  obtain ⟨cells, _, h⟩ := Result.bind_eq_ok.1 h
  split_ifs at h
  obtain ⟨returnedRange, hrange, h⟩ := Result.bind_eq_ok.1 h
  cases h
  rw [RangeRequest.eq_of_new hrange]
  exact ⟨rfl, rfl⟩

/-- What a preview reads of a row group are its rows in the range. -/
structure PreviewsRows (spec : FixedListPreviewSpec) (first last : ℕ) (b : Block RowGroupMetaData)
    (group : FixedListPreviewRowGroup) : Prop where
  metadata : b.item.columns[spec.leafColumn]? = some group.metadata
  rows : group.rows = b.item.rows
  selectedStart : group.selectedStart = max b.start first - b.start
  selectedEnd : group.selectedEnd = min b.stop last - b.start

/-- Where the returned rows end. -/
def RangePlan.rowEnd (plan : RangePlan) : ℕ :=
  plan.returnedRange.rowStart + plan.returnedRange.rowCount

/-- The row groups with a row in the returned range. -/
def rowGroupsIn (footer : List RowGroupMetaData) (first last : ℕ) : List (Block RowGroupMetaData) :=
  (rowGroupBlocks footer).filter (·.Meets first last)

/-- A plan and a preview of it select exactly the returned rows, and exactly the bytes of the row
    groups that have one. -/
structure ExactPlan (footer : List RowGroupMetaData) (totalRows : ℕ) (request : RangeRequest)
    (projection : ℕ → Bool) (plan : RangePlan) (projected : ProjectedReadPlan)
    (spec : FixedListPreviewSpec) (preview : Result FixedListPreviewScanner) : Prop where
  rowStart : plan.returnedRange.rowStart = request.rowStart
  rowCount : plan.returnedRange.rowCount = min request.rowCount (totalRows - request.rowStart)
  rowGroups : projected.rowGroups =
    (rowGroupsIn footer plan.returnedRange.rowStart plan.rowEnd).map (·.index)
  rows : ∀ (α : Type) (data : List (List α)),
    data.map List.length = footer.map RowGroupMetaData.rows →
      ((projected.rowGroups.flatMap (data.getD · [])).drop projected.rowOffset).take
          plan.returnedRange.rowCount =
        (data.flatten.drop plan.returnedRange.rowStart).take plan.returnedRange.rowCount
  ranges : projected.lazyPageReads = false →
    Ranges.Apart (projected.ranges.map (·.bounds)) ∧
      ∀ x, Ranges.Among (projected.ranges.map (·.bounds)) x ↔
        ∃ b ∈ rowGroupsIn footer plan.returnedRange.rowStart plan.rowEnd,
          ChunkByte projection 0 b.item.columns x
  covers : preview ≠ .error FixedListPreviewScanner.uncovered
  previews : ∀ scanner, preview = .ok scanner →
    List.Forall₂ (PreviewsRows spec plan.returnedRange.rowStart plan.rowEnd)
      (rowGroupsIn footer plan.returnedRange.rowStart plan.rowEnd) scanner.rowGroups
  previewRows : ∀ scanner, preview = .ok scanner → ∀ (α : Type) (data : List (List α)),
    data.map List.length = footer.map RowGroupMetaData.rows →
      (List.zipWith (fun (b : Block RowGroupMetaData) group =>
          ((data.getD b.index []).drop group.selectedStart).take
            (group.selectedEnd - group.selectedStart))
        (rowGroupsIn footer plan.returnedRange.rowStart plan.rowEnd) scanner.rowGroups).flatten =
      (data.flatten.drop plan.returnedRange.rowStart).take plan.returnedRange.rowCount

/-- The rows of parts as long as the row groups. -/
theorem length_part {α : Type} {footer : List RowGroupMetaData} {data : List (List α)}
    (h : data.map List.length = footer.map RowGroupMetaData.rows) :
    ∀ b ∈ rowGroupBlocks footer, (data.getD b.index []).length = b.item.rows := by
  intro b hb
  have hget := (layout_index hb).2
  rw [Nat.sub_zero] at hget
  have hlength : (data.map List.length)[b.index]? =
    (footer.map RowGroupMetaData.rows)[b.index]? := by
    rw [h]
  rw [List.getElem?_map, List.getElem?_map, hget] at hlength
  obtain ⟨part, hpart, hrows⟩ := Option.map_eq_some_iff.1 hlength
  rw [List.getD_eq_getElem?_getD, hpart]
  exact hrows

/-- What the preview's pieces hold are the rows of the range. -/
theorem flatten_previewed {α : Type} {footer : List RowGroupMetaData} {data : List (List α)}
    {spec : FixedListPreviewSpec} {first last : ℕ} {groups : List FixedListPreviewRowGroup}
    (hdata : data.map List.length = footer.map RowGroupMetaData.rows)
    (h : List.Forall₂ (PreviewsRows spec first last) (rowGroupsIn footer first last) groups) :
    (List.zipWith (fun (b : Block RowGroupMetaData) group =>
        ((data.getD b.index []).drop group.selectedStart).take
          (group.selectedEnd - group.selectedStart))
          (rowGroupsIn footer first last) groups).flatten =
      (data.flatten.drop first).take (last - first) := by
  have hflat : (rowGroupBlocks footer).flatMap (fun b => data.getD b.index []) = data.flatten :=
    @flatMap_layout _ _ _ 0 0 _ _ hdata
  have hwindow := @window_meeting _ _ _ _ _ _ _ first last (length_part hdata)
  rw [← rowGroupBlocks, ← rowGroupsIn, hflat, Nat.sub_zero,
    max_eq_left (Nat.zero_le first)] at hwindow
  rw [← hwindow, List.flatMap]
  congr 1
  generalize rowGroupsIn footer first last = blocks at h
  induction h with
  | nil => rfl
  | @cons b group blocks groups hb _ ih =>
    rw [List.zipWith_cons_cons, List.map_cons, ih, hb.selectedStart, hb.selectedEnd]
    congr 2
    omega

/-- A plan is exact if and only if no empty row group lies inside the returned range, an empty
    range does not lie inside a row group, and the row groups have the rows of the footer as far as
    the range goes (or the preview fails at one of them). -/
theorem plan_exact_iff {footer : List RowGroupMetaData} {sourceLength : ℕ} {plan : RangePlan}
    {request : RangeRequest} {totalRows totalColumns : ℕ} {projection : ℕ → Bool}
    {limits : ParquetLimits} {projected : ProjectedReadPlan} (spec : FixedListPreviewSpec)
    (cellBytes decodedBudgetBytes : ℕ)
    (hplan : planRange request totalRows totalColumns limits.maxRangeCells = .ok plan)
    (hprojected :
      planProjectedRanges footer sourceLength plan projection limits = .ok projected) :
    let first := request.rowStart
    let last := first + min request.rowCount (totalRows - request.rowStart)
    ExactPlan footer totalRows request projection plan projected spec
        (FixedListPreviewScanner.new footer spec projected.rowGroups projected.rowOffset
          plan.returnedRange.rowCount cellBytes decodedBudgetBytes) ↔
      (∀ b ∈ rowGroupBlocks footer, ¬b.Spare first last) ∧
        (last ≤ max first (footer.map RowGroupMetaData.rows).sum ∨
          ∃ b ∈ rowGroupsIn footer first last,
            ¬FixedListPreviewScanner.Previewable spec b.item) := by
  intro first last
  obtain ⟨hstart, hcount⟩ := planRange_eq_ok hplan
  have hend : plan.rowEnd = last := by rw [RangePlan.rowEnd, hstart, hcount]
  have hle : first ≤ last := Nat.le_add_right _ _
  obtain ⟨hgroups, hoffset, hnonneg, hranges⟩ := planProjectedRanges_eq_ok hprojected
  rw [← RangePlan.rowEnd, hend, hstart] at hgroups hoffset hranges hnonneg
  have hrows : plan.returnedRange.rowCount = last - first := by
    rw [hcount]
    exact (Nat.add_sub_cancel_left _ _).symm
  have hget : ∀ b ∈ rowGroupBlocks footer, footer[b.index]? = some b.item :=
    fun b hb => (layout_index hb).2
  have hwell : ∀ b ∈ rowGroupBlocks footer, b.start ≤ b.stop := by
    intro b hb
    rw [(layout_bounds hb).2]
    exact Nat.le_add_right _ _
  have hwalk := @FixedListPreviewScanner.walkRowGroups_overlapping footer spec first last 0 0 footer
    hget hnonneg
  rw [← rowGroupBlocks, ← hgroups, ← hoffset, Nat.max_zero, Nat.zero_add, ← hrows,
    ← rowGroupsIn] at hwalk
  have hmeets : ∀ b ∈ rowGroupsIn footer first last, 0 ≤ b.item.numRows := by
    intro b hb
    obtain ⟨hb, h⟩ := List.mem_filter.1 hb
    exact hnonneg b (List.mem_filter.2 ⟨hb, decide_eq_true
      (Block.meets_iff.1 (of_decide_eq_true h)).1⟩)
  obtain ⟨huncovered, hscanner⟩ :=
    FixedListPreviewScanner.new_eq cellBytes decodedBudgetBytes hwalk hmeets
  have hcovers : last ≤ max first (footer.map RowGroupMetaData.rows).sum ↔
      last - max first (footer.map RowGroupMetaData.rows).sum = 0 := (Nat.sub_eq_zero_iff_le).symm
  constructor
  · intro h
    refine ⟨fun b hb hspare => ?_, ?_⟩
    · -- A spare row group is picked, but has no row in the range.
      have hpicked : b.index ∈ projected.rowGroups := by
        rw [hgroups]
        exact List.mem_map_of_mem (List.mem_filter.2 ⟨hb, decide_eq_true
          ((Block.overlaps_iff (hwell b hb) hle).2 (.inr hspare))⟩)
      have hexact := h.rowGroups
      rw [hend, hstart] at hexact
      rw [hexact] at hpicked
      obtain ⟨b', hb', hindex⟩ := List.mem_map.1 hpicked
      obtain ⟨hmem, hmeets⟩ := List.mem_filter.1 hb'
      obtain rfl := eq_of_index hmem hb hindex
      exact Block.not_spare_of_meets (of_decide_eq_true hmeets) hspare
    · by_contra hnone
      rw [not_or, not_exists] at hnone
      refine h.covers (huncovered.2 ⟨fun hleft => hnone.1 (hcovers.2 hleft), fun b hb => ?_⟩)
      by_contra hb'
      exact hnone.2 b ⟨hb, hb'⟩
  · rintro ⟨hspare, hcovered⟩
    have hpicks : (rowGroupBlocks footer).filter (fun b => b.Overlaps first last) =
        rowGroupsIn footer first last := by
      refine List.filter_congr fun b hb => ?_
      rw [decide_eq_decide, Block.overlaps_iff (hwell b hb) hle]
      exact or_iff_left (hspare b hb)
    have hforall : ∀ scanner, FixedListPreviewScanner.new footer spec projected.rowGroups
        projected.rowOffset plan.returnedRange.rowCount cellBytes decodedBudgetBytes = .ok scanner →
        List.Forall₂ (PreviewsRows spec first last) (rowGroupsIn footer first last)
          scanner.rowGroups := by
      intro scanner h
      refine (Result.forall₂_of_mapM_eq_ok (hscanner scanner h)).imp fun b group hgroup => ?_
      obtain ⟨hmetadata, hrows, hfrom, hto, _⟩ := FixedListPreviewScanner.previewRows_eq_ok hgroup
      exact ⟨hmetadata, hrows, hfrom, hto⟩
    refine ⟨hstart, hcount, ?_, fun α data hdata => ?_, ?_, fun h => ?_, ?_,
      fun scanner h α data hdata => ?_⟩
    · rw [hend, hstart, hgroups, ← hpicks]
    · have hflat : (rowGroupBlocks footer).flatMap (fun b => data.getD b.index []) = data.flatten :=
        @flatMap_layout _ _ _ 0 0 _ _ hdata
      have hwindow := @window_overlapping _ _ footer 0 0 _ _ first last (length_part hdata)
        (Nat.zero_le first)
      rw [← rowGroupBlocks, hflat, Nat.sub_zero] at hwindow
      rw [hstart, hrows, hgroups, hoffset, List.flatMap_map, ← hwindow]
      congr 2
      cases ((rowGroupBlocks footer).filter (fun b => b.Overlaps first last)).head? with
      | none => exact (Nat.sub_self first).symm
      | some b => rfl
    · rw [hend, hstart, ← hpicks]
      exact hranges
    · obtain ⟨hleft, hall⟩ := huncovered.1 h
      rcases hcovered with hcovered | ⟨b, hb, hbad⟩
      · exact hleft (hcovers.1 hcovered)
      · exact hbad (hall b hb)
    · rw [hend, hstart]
      exact hforall
    · rw [hend, hstart, hrows]
      exact flatten_previewed hdata (hforall scanner h)

/-! ## Two plans -/

/-- Ranges that are in order need no sorting. -/
theorem coalesceSourceRanges_of_sorted {action : ParquetReadBytesAction}
    {ranges : List ParquetReadBytesAction}
    (h : (action :: ranges).Pairwise fun a b => a.offset ≤ b.offset) :
    coalesceSourceRanges (action :: ranges) = (do
      let _ ← action.stop
      mergeSourceRanges action ranges) := by
  rw [coalesceSourceRanges, List.mergeSort_of_pairwise (h.imp fun hle => decide_eq_true hle)]

/-- A footer of row groups with a column chunk each. -/
def twoRowGroups : List RowGroupMetaData :=
  [⟨2, [⟨20, ⟨4, 10⟩⟩]⟩, ⟨3, [⟨30, ⟨14, 16⟩⟩]⟩]

/-- Limits that the small plans keep. -/
def smallLimits : ParquetLimits := ⟨100, 100, 100⟩

/-- The last row of the first row group, and the first two of the second. -/
theorem plan_exact_iff_twoRowGroups :
    ∃ plan projected, planRange ⟨1, 3, 0, 1⟩ 5 1 smallLimits.maxRangeCells = .ok plan ∧
      planProjectedRanges twoRowGroups 40 plan (fun _ => true) smallLimits = .ok projected ∧
      projected.ranges = [⟨4, 26⟩] ∧
      ExactPlan twoRowGroups 5 ⟨1, 3, 0, 1⟩ (fun _ => true) plan projected ⟨0, 0⟩
        (FixedListPreviewScanner.new twoRowGroups ⟨0, 0⟩ projected.rowGroups projected.rowOffset
          plan.returnedRange.rowCount 16 100) := by
  have hprojected : planProjectedRanges twoRowGroups 40 ⟨⟨1, 3, 0, 1⟩, true⟩ (fun _ => true)
      smallLimits = .ok ⟨[⟨4, 26⟩], [0, 1], 1, false⟩ := by
    refine Result.bind_eq_ok.2 ⟨4, rfl, Result.bind_eq_ok.2
      ⟨⟨5, 50, 0, [⟨4, 10⟩, ⟨14, 16⟩], [], [0, 1], 1, true⟩, rfl, ?_⟩⟩
    rw [PlanWalk.finish, coalesceSourceRanges_of_sorted (by simp)]
    rfl
  have hplan : planRange ⟨1, 3, 0, 1⟩ 5 1 smallLimits.maxRangeCells =
      .ok ⟨⟨1, 3, 0, 1⟩, true⟩ := rfl
  refine ⟨_, _, hplan, hprojected, rfl, ?_⟩
  exact (plan_exact_iff ⟨0, 0⟩ 16 100 hplan hprojected).2 ⟨by decide, by decide⟩

/-- A read of no rows inside a row group takes its bytes. -/
theorem empty_range_takes_row_group :
    ∃ plan projected, planRange ⟨1, 0, 0, 1⟩ 5 1 smallLimits.maxRangeCells = .ok plan ∧
      planProjectedRanges twoRowGroups 40 plan (fun _ => true) smallLimits = .ok projected ∧
      projected.rowGroups = [0] ∧ projected.ranges = [⟨4, 10⟩] ∧
      ¬ExactPlan twoRowGroups 5 ⟨1, 0, 0, 1⟩ (fun _ => true) plan projected ⟨0, 0⟩
        (FixedListPreviewScanner.new twoRowGroups ⟨0, 0⟩ projected.rowGroups projected.rowOffset
          plan.returnedRange.rowCount 16 100) := by
  have hprojected : planProjectedRanges twoRowGroups 40 ⟨⟨1, 0, 0, 1⟩, true⟩ (fun _ => true)
      smallLimits = .ok ⟨[⟨4, 10⟩], [0], 1, false⟩ := by
    refine Result.bind_eq_ok.2 ⟨1, rfl, Result.bind_eq_ok.2
      ⟨⟨2, 20, 0, [⟨4, 10⟩], [], [0], 1, true⟩, rfl, ?_⟩⟩
    rw [PlanWalk.finish, coalesceSourceRanges_of_sorted (by simp)]
    rfl
  refine ⟨_, _, rfl, hprojected, rfl, rfl, fun h => ?_⟩
  have hgroups := h.rowGroups
  revert hgroups
  decide

end Tabulark.Parquet
