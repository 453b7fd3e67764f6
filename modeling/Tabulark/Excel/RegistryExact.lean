import Tabulark.Excel.Registry

/-!
# The accounting of the registry

What each operation of `ExcelRuntime` does to the open workbooks and worksheets,
and the invariant that all of them keep (`Sound`): the budget is charged with
exactly what is open.
-/

namespace Tabulark.Excel

/-! ## Reservations -/

/-- Strings only add to what is reserved. -/
theorem retainedBytes_le_openBytes {p : Parsers} {shape : SheetShape} {values formulas : CellRange}
    {reservation : WorksheetReservation}
    (h : worksheetReservationWithContents p shape values formulas = .ok reservation) :
    reservation.retainedBytes ≤ reservation.openBytes := by
  obtain ⟨base, hbase, h⟩ := Result.bind_eq_ok.1 h
  obtain ⟨valueHeapBytes, _, h⟩ := Result.bind_eq_ok.1 h
  obtain ⟨formulaHeapBytes, _, h⟩ := Result.bind_eq_ok.1 h
  obtain ⟨retainedBytes, hretained, h⟩ := Result.bind_eq_ok.1 h
  obtain ⟨valueBytes, hvalue, h⟩ := Result.bind_eq_ok.1 h
  obtain ⟨openBytes, hopen, h⟩ := Result.bind_eq_ok.1 h
  cases h
  have hle : base.retainedBytes ≤ base.openBytes := by
    obtain ⟨_, _, hbase⟩ := Result.bind_eq_ok.1 hbase
    obtain ⟨_, _, hbase⟩ := Result.bind_eq_ok.1 hbase
    obtain ⟨_, _, hbase⟩ := Result.bind_eq_ok.1 hbase
    obtain ⟨_, _, hbase⟩ := Result.bind_eq_ok.1 hbase
    obtain ⟨_, hsum, hbase⟩ := Result.bind_eq_ok.1 hbase
    cases hbase
    exact (checkedAdd_eq_ok.1 hsum).2 ▸ Nat.le_add_right _ _
  have h₁ := (checkedAdd_eq_ok.1 hretained).2
  have h₂ := (checkedAdd_eq_ok.1 hvalue).2
  have h₃ := (checkedAdd_eq_ok.1 hopen).2
  dsimp only
  omega

theorem ensureReservationBudget_eq_ok {resource message : String} {required available : ℕ}
    (h : ensureReservationBudget resource required available message = .ok ()) :
    required ≤ available := by
  rw [ensureReservationBudget] at h
  split_ifs at h with hlt
  exact not_lt.1 hlt

/-- A worksheet that is prepared is one of the workbook, and retains no more than it needs to
    open. -/
theorem ExcelSource.prepareTable_eq_ok {p : Parsers} {value : ExcelSource} {source : ℕ}
    {tableId : String} {limits : ExcelLimits} {table : OpenTable}
    {reservation : WorksheetReservation}
    (h : value.prepareTable p source tableId limits = .ok (table, reservation)) :
    table.source = source ∧ table.reservedBytes ≤ reservation.openBytes := by
  obtain ⟨_, _, h⟩ := Result.bind_eq_ok.1 h
  obtain ⟨_, _, h⟩ := Result.bind_eq_ok.1 h
  obtain ⟨_, _, h⟩ := Result.bind_eq_ok.1 h
  obtain ⟨_, _, h⟩ := Result.bind_eq_ok.1 h
  obtain ⟨_, _, h⟩ := Result.bind_eq_ok.1 h
  obtain ⟨_, hreservation, h⟩ := Result.bind_eq_ok.1 h
  cases h
  exact ⟨rfl, retainedBytes_le_openBytes hreservation⟩

namespace ExcelRuntime

variable {p : Parsers} {r r' : ExcelRuntime}

/-! ## The operations -/

/-- The registry after some handles were taken. -/
def skip (r : ExcelRuntime) (n : ℕ) : ExcelRuntime := { r with nextHandle := r.nextHandle + n }

/-- The registry with a workbook under the next handle. -/
def addSource (r : ExcelRuntime) (source : ExcelSource) : ExcelRuntime :=
  { r with
    nextHandle := r.nextHandle + 1
    retainedBytes := r.retainedBytes + source.reservedBytes
    sources := r.sources.set r.nextHandle source }

/-- The registry with a worksheet under the next handle. -/
def addTable (r : ExcelRuntime) (table : OpenTable) : ExcelRuntime :=
  { r with
    nextHandle := r.nextHandle + 1
    retainedBytes := r.retainedBytes + table.reservedBytes
    tables := r.tables.set r.nextHandle table }

theorem availableBytes_eq_ok {n : ℕ} (h : r.availableBytes = .ok n) :
    r.retainedBytes + n = r.config.memoryBudgetBytes := by
  rw [availableBytes] at h
  split_ifs at h with hlt
  cases h
  omega

theorem allocateHandle_eq_ok {handle : ℕ} (h : r.allocateHandle = .ok (handle, r')) :
    handle = r.nextHandle ∧ r' = r.skip 1 := by
  obtain ⟨next, hnext, h⟩ := Result.bind_eq_ok.1 h
  cases h
  exact ⟨rfl, by rw [(checkedAdd_eq_ok.1 hnext).2, skip]⟩

/-- A workbook that is opened is under the next handle, within the budget. -/
theorem openSource_eq_ok {bytes : List UInt8} {options : ExcelOptions} {handle : ℕ}
    (h : r.openSource p bytes options = .ok (handle, r')) :
    ∃ source, handle = r.nextHandle ∧ r' = r.addSource source ∧
      r.retainedBytes + source.reservedBytes ≤ r.config.memoryBudgetBytes := by
  rw [openSource] at h
  split_ifs at h
  obtain ⟨_, _, h⟩ := Result.bind_eq_ok.1 h
  obtain ⟨_, _, h⟩ := Result.bind_eq_ok.1 h
  obtain ⟨source, _, h⟩ := Result.bind_eq_ok.1 h
  obtain ⟨retainedBytes, hretained, h⟩ := Result.bind_eq_ok.1 h
  split_ifs at h with hbudget
  obtain ⟨⟨handle', allocated⟩, hallocate, h⟩ := Result.bind_eq_ok.1 h
  cases h
  obtain ⟨rfl, rfl⟩ := allocateHandle_eq_ok hallocate
  have hsum := (checkedAdd_eq_ok.1 hretained).2
  refine ⟨source, rfl, ?_, by omega⟩
  rw [addSource, skip, hsum]

/-- A worksheet is opened under the next handle, within the budget, or nothing but the handle is
    taken. -/
theorem openTable_cases (p : Parsers) (r : ExcelRuntime) (source : ℕ) (tableId : String) :
    (∃ n e, n ≤ 1 ∧ r.openTable p source tableId = (r.skip n, .error e)) ∨
      ∃ table, r.openTable p source tableId =
          (r.addTable table, .ok ⟨r.nextHandle, table.metadata⟩) ∧
        table.source = source ∧ (∃ value, r.sources.get? source = some value) ∧
        r.retainedBytes + table.reservedBytes ≤ r.config.memoryBudgetBytes := by
  rw [openTable]
  cases hget : r.sources.get? source with
  | none => exact .inl ⟨0, _, zero_le_one, rfl⟩
  | some value =>
    dsimp only
    split
    next e _ => exact .inl ⟨0, e, zero_le_one, rfl⟩
    next hprepared =>
      obtain ⟨_, _, hprepared⟩ := Result.bind_eq_ok.1 hprepared
      obtain ⟨_, _, hprepared⟩ := Result.bind_eq_ok.1 hprepared
      obtain ⟨available, havailable, hprepared⟩ := Result.bind_eq_ok.1 hprepared
      obtain ⟨_, _, hprepared⟩ := Result.bind_eq_ok.1 hprepared
      obtain ⟨⟨table, reservation⟩, htable, hprepared⟩ := Result.bind_eq_ok.1 hprepared
      obtain ⟨⟨⟩, hbudget, hprepared⟩ := Result.bind_eq_ok.1 hprepared
      obtain ⟨⟨handle, allocated'⟩, hallocate, hprepared⟩ := Result.bind_eq_ok.1 hprepared
      cases hprepared
      obtain ⟨rfl, rfl⟩ := allocateHandle_eq_ok hallocate
      obtain ⟨hsource, hle⟩ := ExcelSource.prepareTable_eq_ok htable
      have hopen := ensureReservationBudget_eq_ok hbudget
      have hleft := availableBytes_eq_ok havailable
      split
      next e _ => exact .inl ⟨1, e, le_rfl, rfl⟩
      next retainedBytes hretained =>
        have hsum := (checkedAdd_eq_ok.1 hretained).2
        dsimp only at hopen hsum
        refine .inr ⟨table, ?_, hsource, ⟨value, rfl⟩, by omega⟩
        rw [addTable, skip, hsum]

/-! ## The invariant -/

/-- The bytes that the open workbooks and worksheets reserve. -/
def reservedBytes (r : ExcelRuntime) : ℕ :=
  (r.sources.entries.map fun e => e.2.reservedBytes).sum +
    (r.tables.entries.map fun e => e.2.reservedBytes).sum

/-- What is retained is what is open, within the budget; a worksheet's workbook is open; and open
    handles were taken before. -/
structure Sound (r : ExcelRuntime) : Prop where
  retained : r.retainedBytes = r.reservedBytes
  retained_le : r.retainedBytes ≤ r.config.memoryBudgetBytes
  owned : ∀ e ∈ r.tables.entries, ∃ value, (e.2.source, value) ∈ r.sources.entries
  sources_lt : ∀ e ∈ r.sources.entries, e.1 < r.nextHandle
  tables_lt : ∀ e ∈ r.tables.entries, e.1 < r.nextHandle

namespace Sound

theorem get?_sources (h : r.Sound) : r.sources.get? r.nextHandle = none :=
  InsertionMap.get?_eq_none.2 fun e he => (h.sources_lt e he).ne

theorem get?_tables (h : r.Sound) : r.tables.get? r.nextHandle = none :=
  InsertionMap.get?_eq_none.2 fun e he => (h.tables_lt e he).ne

theorem skip (h : r.Sound) (n : ℕ) : (r.skip n).Sound :=
  ⟨h.retained, h.retained_le, h.owned, fun e he => (h.sources_lt e he).trans_le le_self_add,
    fun e he => (h.tables_lt e he).trans_le le_self_add⟩

theorem addSource (h : r.Sound) {source : ExcelSource}
    (hle : r.retainedBytes + source.reservedBytes ≤ r.config.memoryBudgetBytes) :
    (r.addSource source).Sound := by
  have hsources := @InsertionMap.set_of_get?_eq_none _ _ _ _ _ source h.get?_sources
  refine ⟨?_, hle, fun e he => ?_, fun e he => ?_, fun e he => ?_⟩
  · have hretained := h.retained
    rw [reservedBytes] at hretained ⊢
    rw [ExcelRuntime.addSource, hsources, List.map_append, List.sum_append]
    rw [List.map_singleton, List.sum_singleton]
    dsimp only
    omega
  · obtain ⟨value, hvalue⟩ := h.owned e he
    exact ⟨value, hsources ▸ List.mem_append_left _ hvalue⟩
  · rcases List.mem_append.1 (hsources ▸ he) with he | he
    · exact (h.sources_lt e he).trans (Nat.lt_succ_self _)
    · rw [List.mem_singleton.1 he]
      exact Nat.lt_succ_self _
  · exact (h.tables_lt e he).trans (Nat.lt_succ_self _)

theorem addTable (h : r.Sound) {table : OpenTable}
    (howned : ∃ value, (table.source, value) ∈ r.sources.entries)
    (hle : r.retainedBytes + table.reservedBytes ≤ r.config.memoryBudgetBytes) :
    (r.addTable table).Sound := by
  have htables := @InsertionMap.set_of_get?_eq_none _ _ _ _ _ table h.get?_tables
  refine ⟨?_, hle, fun e he => ?_, fun e he => ?_, fun e he => ?_⟩
  · have hretained := h.retained
    rw [reservedBytes] at hretained ⊢
    rw [ExcelRuntime.addTable, htables, List.map_append, List.sum_append]
    rw [List.map_singleton, List.sum_singleton]
    dsimp only
    omega
  · rcases List.mem_append.1 (htables ▸ he) with he | he
    · exact h.owned e he
    · rw [List.mem_singleton.1 he]
      exact howned
  · exact (h.sources_lt e he).trans (Nat.lt_succ_self _)
  · rcases List.mem_append.1 (htables ▸ he) with he | he
    · exact (h.tables_lt e he).trans (Nat.lt_succ_self _)
    · rw [List.mem_singleton.1 he]
      exact Nat.lt_succ_self _

theorem closeTable (h : r.Sound) (table : ℕ) : (r.closeTable table).1.Sound := by
  rw [ExcelRuntime.closeTable]
  cases hget : r.tables.get? table with
  | none => exact h
  | some value =>
    have hperm := InsertionMap.perm_cons_delete (InsertionMap.get?_eq_some.1 hget)
    have hsum := (hperm.map fun e => e.2.reservedBytes).sum_eq
    rw [List.map_cons, List.sum_cons] at hsum
    dsimp only at hsum
    have hretained := h.retained
    have hle := h.retained_le
    rw [reservedBytes] at hretained
    refine ⟨?_, ?_, fun e he => h.owned e (InsertionMap.mem_delete.1 he).1, h.sources_lt,
      fun e he => h.tables_lt e (InsertionMap.mem_delete.1 he).1⟩
    · rw [reservedBytes]
      dsimp only
      omega
    · dsimp only
      omega

/-- The worksheets of a workbook and the others are all the worksheets. -/
theorem sum_tablesWithout (r : ExcelRuntime) (source : ℕ) :
    ((r.tablesWithout source).entries.map fun e => e.2.reservedBytes).sum + r.tableBytes source =
      (r.tables.entries.map fun e => e.2.reservedBytes).sum := by
  have hperm := List.filter_append_perm (fun e : ℕ × OpenTable => decide (e.2.source ≠ source))
    r.tables.entries
  have hsum := (hperm.map fun e => e.2.reservedBytes).sum_eq
  rw [List.map_append, List.sum_append] at hsum
  rw [tablesWithout, tableBytes, ← hsum]
  simp only [ne_eq, decide_not, Bool.not_not]

theorem closeSource (h : r.Sound) (source : ℕ) : (r.closeSource source).1.Sound := by
  rw [ExcelRuntime.closeSource]
  cases hget : r.sources.get? source with
  | none => exact h
  | some value =>
    have hperm := InsertionMap.perm_cons_delete (InsertionMap.get?_eq_some.1 hget)
    have hsum := (hperm.map fun e => e.2.reservedBytes).sum_eq
    have htables := sum_tablesWithout r source
    rw [List.map_cons, List.sum_cons] at hsum
    dsimp only at hsum
    have hretained := h.retained
    have hle := h.retained_le
    rw [reservedBytes] at hretained
    refine ⟨?_, ?_, fun e he => ?_, fun e he => h.sources_lt e (InsertionMap.mem_delete.1 he).1,
      fun e he => h.tables_lt e (List.mem_filter.1 he).1⟩
    · rw [reservedBytes]
      dsimp only
      omega
    · dsimp only
      omega
    · obtain ⟨hmem, hne⟩ := List.mem_filter.1 he
      obtain ⟨value', hvalue'⟩ := h.owned e hmem
      exact ⟨value', InsertionMap.mem_delete.2 ⟨hvalue', of_decide_eq_true hne⟩⟩

theorem shutdown (r : ExcelRuntime) : r.shutdown.Sound where
  retained := by
    rw [reservedBytes]
    rfl
  retained_le := Nat.zero_le _
  owned _ he := absurd he List.not_mem_nil
  sources_lt _ he := absurd he List.not_mem_nil
  tables_lt _ he := absurd he List.not_mem_nil

end Sound

/-! ## Closing -/

theorem entries_closeTable (r : ExcelRuntime) (table : ℕ) :
    (r.closeTable table).1.sources = r.sources ∧
      (r.closeTable table).1.tables.entries = r.tables.entries.filter fun e => e.1 ≠ table := by
  rw [closeTable]
  cases hget : r.tables.get? table with
  | none => exact ⟨rfl, (InsertionMap.delete_of_get?_eq_none hget).symm⟩
  | some value => exact ⟨rfl, rfl⟩

theorem entries_closeSource (h : r.Sound) (source : ℕ) :
    (r.closeSource source).1.sources.entries = r.sources.entries.filter (fun e => e.1 ≠ source) ∧
      (r.closeSource source).1.tables.entries =
        r.tables.entries.filter fun e => e.2.source ≠ source := by
  rw [closeSource]
  cases hget : r.sources.get? source with
  | none =>
    refine ⟨(InsertionMap.delete_of_get?_eq_none hget).symm, (List.filter_eq_self.2 ?_).symm⟩
    intro e he
    obtain ⟨value, hvalue⟩ := h.owned e he
    exact decide_eq_true fun heq => InsertionMap.get?_eq_none.1 hget _ hvalue heq
  | some value => exact ⟨rfl, rfl⟩

/-- Worksheets that are closed one after the other. -/
theorem entries_closeTables (h : r.Sound) (tables : List ℕ) :
    let r' := tables.foldl (fun r table => (r.closeTable table).1) r
    r'.Sound ∧ r'.sources = r.sources ∧
      r'.tables.entries = r.tables.entries.filter fun e => e.1 ∉ tables := by
  induction tables generalizing r with
  | nil => exact ⟨h, rfl, (List.filter_eq_self.2 fun e _ => decide_eq_true List.not_mem_nil).symm⟩
  | cons table tables ih =>
    obtain ⟨hsources, htables⟩ := entries_closeTable r table
    obtain ⟨hsound, hsources', htables'⟩ := ih (h.closeTable table)
    refine ⟨hsound, hsources'.trans hsources, htables'.trans ?_⟩
    rw [htables, List.filter_filter]
    refine List.filter_congr fun e _ => ?_
    simp only [List.mem_cons, not_or, ne_eq, Bool.decide_and, Bool.and_comm]

/-- Workbooks that are closed one after the other. -/
theorem entries_closeSources (h : r.Sound) (sources : List ℕ) :
    let r' := sources.foldl (fun r source => (r.closeSource source).1) r
    r'.Sound ∧ r'.sources.entries = r.sources.entries.filter (fun e => e.1 ∉ sources) ∧
      r'.tables.entries = r.tables.entries.filter fun e => e.2.source ∉ sources := by
  induction sources generalizing r with
  | nil =>
    exact ⟨h, (List.filter_eq_self.2 fun e _ => decide_eq_true List.not_mem_nil).symm,
      (List.filter_eq_self.2 fun e _ => decide_eq_true List.not_mem_nil).symm⟩
  | cons source sources ih =>
    obtain ⟨hsources, htables⟩ := entries_closeSource h source
    obtain ⟨hsound, hsources', htables'⟩ := ih (h.closeSource source)
    refine ⟨hsound, hsources'.trans ?_, htables'.trans ?_⟩
    · rw [hsources, List.filter_filter]
      refine List.filter_congr fun e _ => ?_
      simp only [List.mem_cons, not_or, ne_eq, Bool.decide_and, Bool.and_comm]
    · rw [htables, List.filter_filter]
      refine List.filter_congr fun e _ => ?_
      simp only [List.mem_cons, not_or, ne_eq, Bool.decide_and, Bool.and_comm]

theorem nextHandle_closeTable (r : ExcelRuntime) (table : ℕ) :
    (r.closeTable table).1.nextHandle = r.nextHandle := by
  rw [ExcelRuntime.closeTable]
  cases r.tables.get? table <;> rfl

theorem nextHandle_closeSource (r : ExcelRuntime) (source : ℕ) :
    (r.closeSource source).1.nextHandle = r.nextHandle := by
  rw [ExcelRuntime.closeSource]
  cases r.sources.get? source <;> rfl

theorem nextHandle_closeTables (r : ExcelRuntime) (tables : List ℕ) :
    (tables.foldl (fun r table => (r.closeTable table).1) r).nextHandle = r.nextHandle := by
  induction tables generalizing r with
  | nil => rfl
  | cons table tables ih => exact (ih _).trans (nextHandle_closeTable r table)

theorem nextHandle_closeSources (r : ExcelRuntime) (sources : List ℕ) :
    (sources.foldl (fun r source => (r.closeSource source).1) r).nextHandle = r.nextHandle := by
  induction sources generalizing r with
  | nil => rfl
  | cons source sources ih => exact (ih _).trans (nextHandle_closeSource r source)

/-! ## Undoing -/

/-- A workbook that is closed right after it was opened leaves nothing but its handle taken. -/
theorem closeSource_addSource (h : r.Sound) (source : ExcelSource) (n : ℕ) :
    (((r.addSource source).skip n).closeSource r.nextHandle).1 = r.skip (n + 1) := by
  have hget : ((r.addSource source).skip n).sources.get? r.nextHandle = some source :=
    InsertionMap.get?_set_self
  have hother : ∀ e ∈ r.tables.entries, e.2.source ≠ r.nextHandle := fun e he heq => by
    obtain ⟨value, hvalue⟩ := h.owned e he
    exact absurd heq (h.sources_lt _ hvalue).ne
  have htables : ((r.addSource source).skip n).tablesWithout r.nextHandle = r.tables :=
    InsertionMap.eq_of_entries (List.filter_eq_self.2 fun e he => decide_eq_true (hother e he))
  have hbytes : ((r.addSource source).skip n).tableBytes r.nextHandle = 0 := by
    have hnil : r.tables.entries.filter (fun e => decide (e.2.source = r.nextHandle)) = [] :=
      List.filter_eq_nil_iff.2 fun e he => by
        rw [decide_eq_true_eq]
        exact hother e he
    rw [tableBytes]
    change ((r.tables.entries.filter _).map _).sum = 0
    rw [hnil]
    rfl
  rw [closeSource, hget]
  dsimp only
  rw [htables, hbytes, ExcelRuntime.skip, ExcelRuntime.skip, ExcelRuntime.addSource]
  dsimp only
  have hnext : r.nextHandle + 1 + n = r.nextHandle + (n + 1) := by omega
  have hretained : r.retainedBytes + source.reservedBytes - (source.reservedBytes + 0) =
      r.retainedBytes := by omega
  rw [InsertionMap.delete_set h.get?_sources, hnext, hretained]

/-- A worksheet that is closed right after it was opened leaves nothing but its handle taken. -/
theorem closeTable_addTable (h : r.Sound) (table : OpenTable) :
    ((r.addTable table).closeTable r.nextHandle).1 = r.skip 1 := by
  have hget : (r.addTable table).tables.get? r.nextHandle = some table :=
    InsertionMap.get?_set_self
  rw [closeTable, hget, ExcelRuntime.addTable]
  dsimp only
  rw [InsertionMap.delete_set h.get?_tables, Nat.add_sub_cancel, ExcelRuntime.skip]

end ExcelRuntime

end Tabulark.Excel
