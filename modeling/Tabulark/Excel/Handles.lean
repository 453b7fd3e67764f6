import Tabulark.Excel.Ownership

/-!
# Handles and accounting of the workbook runtime

The invariant of `State` (`Sound`) and what every call does to it (`Outcome`).
Closing a workbook leaves the operations that open its worksheets registered;
`consistent_iff` says that this is all that can break the consistency of the
handle tables.
-/

namespace Tabulark.Excel.Wasm

open InsertionMap

/-! ## Operations that wait -/

/-- An operation that waits for a range asked for it when none of it was retained: its revision
    counts no further than the bytes retained, and no further than those before the range if that is
    missing still. -/
def PendingOpenTable.Waits (o : PendingOpenTable) (ix : IndexedRanges) : Prop :=
  o.cursor.awaitingResults = true → ∃ gap : HostRange, o.expected = [gap] ∧
    o.cursor.outstanding = [⟨0, gap.offset, gap.length⟩] ∧
    o.cursor.revision ≤ ix.retainedBytes + 1 ∧
    (¬ix.Misses gap → o.cursor.revision ≤ ix.retainedBytes)

/-- Some source of the length of the ranges has what is retained. -/
def Retains (ix : IndexedRanges) : Prop := ∃ source, ix.Holds source

/-- Nothing is retained of a source at first. -/
theorem retains_new {sourceLength : ℕ} (h : sourceLength ≤ maxRangeSourceBytes) :
    Retains (.new sourceLength) :=
  ⟨⟨List.replicate sourceLength 0, by rwa [List.length_replicate]⟩,
    List.length_replicate.symm, .nil _, (Segments.count_nil _).symm⟩

/-- An operation finds what it works on. -/
def TrackedOperation.Ready (rangeSources : InsertionMap ℕ RangeSource) : TrackedOperation → Prop
  | .openSource o => Retains o.pending.indexed
  | .openTable o => ∃ source, (o.sourceHandle, source) ∈ rangeSources.entries ∧
      o.Waits source.indexed

/-- Every range source is still there and has retained no less. -/
def Extends (m m' : InsertionMap ℕ RangeSource) : Prop :=
  ∀ e ∈ m.entries, ∃ source, (e.1, source) ∈ m'.entries ∧ e.2.indexed.Grown source.indexed

theorem PendingOpenTable.Waits.grown {o : PendingOpenTable} {ix jx : IndexedRanges}
    (h : o.Waits ix) (hgrown : ix.Grown jx) : o.Waits jx := by
  intro hawaiting
  obtain ⟨gap, hexpected, houtstanding, hrevision, hcovered⟩ := h hawaiting
  have hle := hgrown.retained_le
  refine ⟨gap, hexpected, houtstanding, by omega, fun hnot => ?_⟩
  by_cases hmisses : ix.Misses gap
  · have hlt := hgrown.retained_lt gap hmisses hnot
    omega
  · exact (hcovered hmisses).trans hle

theorem TrackedOperation.Ready.extends {m m' : InsertionMap ℕ RangeSource} (h : Extends m m')
    {tracked : TrackedOperation} (hready : tracked.Ready m) : tracked.Ready m' := by
  cases tracked with
  | openSource o => exact hready
  | openTable o =>
    obtain ⟨source, hsource, hwaits⟩ := hready
    obtain ⟨source', hsource', hgrown⟩ := h _ hsource
    exact ⟨source', hsource', hwaits.grown hgrown⟩

theorem Retains.grown_self {ix : IndexedRanges} (h : Retains ix) : ix.Grown ix := by
  obtain ⟨source, hholds⟩ := h
  exact hholds.grown

/-! ## The invariant -/

/-- The invariant of the runtime. -/
structure State.Sound (s : State) : Prop where
  owned : Owned s.runtime s.rangeSources s.tableSources
  operations_lt : ∀ e ∈ s.operations.entries, e.1 < s.nextOperation
  sources_lt : ∀ e ∈ s.rangeSources.entries, e.1 < s.nextSource
  retains : ∀ e ∈ s.rangeSources.entries, Retains e.2.indexed
  ready : ∀ e ∈ s.operations.entries, e.2.Ready s.rangeSources

/-- A handle that the runtime hands out; workbooks and worksheets of the registry share their
    handles. -/
inductive Handle
  | operation (n : ℕ)
  | source (n : ℕ)
  | registry (n : ℕ)
  deriving DecidableEq

/-- A handle is in use. -/
def State.Uses (s : State) : Handle → Prop
  | .operation n => ∃ tracked, (n, tracked) ∈ s.operations.entries
  | .source n => ∃ source, (n, source) ∈ s.rangeSources.entries
  | .registry n => (∃ source, (n, source) ∈ s.runtime.sources.entries) ∨
      ∃ table, (n, table) ∈ s.runtime.tables.entries

/-- A handle was handed out: its counter has passed it. -/
def State.Issued (s : State) : Handle → Prop
  | .operation n => n < s.nextOperation
  | .source n => n < s.nextSource
  | .registry n => n < s.runtime.nextHandle

/-- From one state to a later one handles are only handed out, and those in use were in use before
    or are new. -/
structure Onward (s s' : State) : Prop where
  issued : ∀ h, s.Issued h → s'.Issued h
  fresh : ∀ h, s'.Uses h → s.Uses h ∨ ¬s.Issued h

variable {s s' s'' : State}

theorem Onward.refl (s : State) : Onward s s := ⟨fun _ h => h, fun _ h => .inl h⟩

theorem Onward.trans (h : Onward s s') (h' : Onward s' s'') : Onward s s'' := by
  refine ⟨fun x hx => h'.issued x (h.issued x hx), fun x hx => ?_⟩
  rcases h'.fresh x hx with hx | hx
  · exact h.fresh x hx
  · exact .inr fun hnot => hx (h.issued x hnot)

/-- Nothing new is open in the registry. -/
def Closed (s s' : State) : Prop :=
  (∀ e ∈ s'.runtime.sources.entries, e ∈ s.runtime.sources.entries) ∧
    ∀ e ∈ s'.runtime.tables.entries, e ∈ s.runtime.tables.entries

/-- The operation handles that a reply to a call hands out. -/
def Reply.started : Reply → Call → List Handle
  | .pending operation _ _, .beginOpen .. => [.operation operation]
  | .pending operation _ _, .beginOpenTable .. => [.operation operation]
  | .openedTable (some operation) _, .beginOpenTable .. => [.operation operation]
  | _, _ => []

/-- The handles that a reply opens. -/
def Reply.opened : Reply → List Handle
  | .openedSource _ _ source _ _ => [.source source]
  | .openedTable _ table => [.registry table.tableHandle]
  | _ => []

/-- The reply to an operation that is over. -/
def Reply.Of (operation : ℕ) : Reply → Prop
  | .openedSource operation' _ _ _ _ => operation' = operation
  | .openedTable operation' _ => operation' = some operation
  | _ => False

/-- A handle that a call hands out. -/
def Issues (s s' : State) (h : Handle) : Prop := ¬s.Issued h ∧ s'.Issued h

/-- What a part of a call does that leaves the operations alone. -/
structure Steps {α : Type} (s : State) (out : State × Result α) : Prop where
  sound : out.1.Sound
  onward : Onward s out.1
  operations : out.1.operations = s.operations
  nextOperation : out.1.nextOperation = s.nextOperation
  closed : ∀ e, out.2 = .error e → Closed s out.1

namespace State.Sound

theorem get?_rangeSources (h : s.Sound) : s.rangeSources.get? s.nextSource = none :=
  get?_eq_none.2 fun e he => (h.sources_lt e he).ne

/-- Nothing but an error, or a result that opens nothing. -/
theorem steps {α : Type} (h : s.Sound) (result : Result α) : Steps s (s, result) :=
  ⟨h, .refl s, rfl, rfl, fun _ _ => ⟨fun _ he => he, fun _ he => he⟩⟩

/-- Handles of the registry that are taken. -/
theorem steps_skip {α : Type} (h : s.Sound) (n : ℕ) (result : Result α) :
    Steps s ({ s with runtime := s.runtime.skip n }, result) := by
  refine ⟨⟨h.owned.skip n, h.operations_lt, h.sources_lt, h.retains, h.ready⟩,
    ⟨fun x hx => ?_, fun x hx => .inl ?_⟩, rfl, rfl,
    fun _ _ => ⟨fun _ he => he, fun _ he => he⟩⟩
  · cases x with
    | operation n => exact hx
    | source n => exact hx
    | registry n => exact Nat.lt_add_right _ hx
  · cases x <;> exact hx

end State.Sound

/-! ## Opening a worksheet -/

/-- The state with a worksheet that was opened. -/
def State.addWorksheet (s : State) (rangeSource : ℕ) (source : RangeSource) (value : ExcelSource)
    (table : OpenTable) : State :=
  { s with
    runtime := (s.runtime.addSource value).addTable table
    rangeSources := s.rangeSources.set rangeSource { source with
      innerSources := source.innerSources ++ [s.runtime.nextHandle] }
    tableSources := s.tableSources.set (s.runtime.nextHandle + 1)
      (rangeSource, s.runtime.nextHandle) }

/-- A worksheet is opened, or nothing but handles of the registry are taken. -/
theorem State.openCompactTable_cases (h : s.Sound) (p : RangeParsers) (rangeSource : ℕ)
    (tableId : String) (compact : List UInt8) (options : ExcelOptions) :
    (∃ n e, s.openCompactTable p rangeSource tableId compact options =
        ({ s with runtime := s.runtime.skip n }, .error e)) ∨
      ∃ source value table, (rangeSource, source) ∈ s.rangeSources.entries ∧
        table.source = s.runtime.nextHandle ∧
        ((s.runtime.addSource value).addTable table).Sound ∧
        s.openCompactTable p rangeSource tableId compact options =
          (s.addWorksheet rangeSource source value table,
            .ok ⟨s.runtime.nextHandle + 1, table.metadata⟩) := by
  have hsound := h.owned.sound
  rw [State.openCompactTable]
  cases hopen : s.runtime.openSource p.toParsers compact options with
  | error e => exact .inl ⟨0, e, rfl⟩
  | ok opened =>
    obtain ⟨inner, runtime⟩ := opened
    obtain ⟨value, rfl, rfl, hle⟩ := ExcelRuntime.openSource_eq_ok hopen
    have hadded := hsound.addSource hle
    dsimp only
    rcases ExcelRuntime.openTable_cases p.toParsers (s.runtime.addSource value)
      s.runtime.nextHandle tableId with
      ⟨n, e, _, heq⟩ | ⟨table, heq, hsource, ⟨_, hvalue⟩, hle'⟩
    · -- The private source is closed again.
      rw [heq]
      dsimp only
      rw [ExcelRuntime.closeSource_addSource hsound value n]
      exact .inl ⟨n + 1, e, rfl⟩
    · rw [heq]
      dsimp only
      have hadded' := hadded.addTable
        ⟨_, by rw [hsource]; exact get?_eq_some.1 hvalue⟩ hle'
      have hundone : ((((s.runtime.addSource value).addTable table).closeTable
          (s.runtime.addSource value).nextHandle).1.closeSource s.runtime.nextHandle).1 =
          s.runtime.skip 2 := by
        rw [ExcelRuntime.closeTable_addTable hadded table]
        exact ExcelRuntime.closeSource_addSource hsound value 1
      cases p.toJs ⟨(s.runtime.addSource value).nextHandle, table.metadata⟩ with
      | error e =>
        dsimp only
        rw [hundone]
        exact .inl ⟨2, e, rfl⟩
      | ok _ =>
        dsimp only
        cases hget : s.rangeSources.get? rangeSource with
        | none =>
          dsimp only
          rw [hundone]
          exact .inl ⟨2, _, rfl⟩
        | some source =>
          exact .inr ⟨source, value, table, get?_eq_some.1 hget, hsource, hadded', rfl⟩

/-- A range source that has retained no less leaves all operations ready. -/
theorem extends_set {m : InsertionMap ℕ RangeSource} {key : ℕ} {source source' : RangeSource}
    (hretains : ∀ e ∈ m.entries, Retains e.2.indexed) (hget : (key, source) ∈ m.entries)
    (hgrown : source.indexed.Grown source'.indexed) : Extends m (m.set key source') := by
  intro e he
  by_cases hkey : e.1 = key
  · cases eq_of_key he hget hkey
    exact ⟨source', mem_set.2 (.inl rfl), hgrown⟩
  · exact ⟨e.2, mem_set.2 (.inr ⟨he, hkey⟩), (hretains e he).grown_self⟩

variable {source : RangeSource}

/-- A worksheet that is opened. -/
theorem State.Sound.addWorksheet (h : s.Sound) {rangeSource : ℕ}
    {value : ExcelSource} {table : OpenTable}
    (hget : (rangeSource, source) ∈ s.rangeSources.entries)
    (hsource : table.source = s.runtime.nextHandle)
    (hruntime : ((s.runtime.addSource value).addTable table).Sound) {α : Type} (opened : α) :
    Steps s (s.addWorksheet rangeSource source value table, .ok opened) ∧
      Issues s (s.addWorksheet rangeSource source value table)
        (.registry (s.runtime.nextHandle + 1)) := by
  have howned : Owned _ (s.addWorksheet rangeSource source value table).rangeSources _ :=
    h.owned.addTable hget hsource rfl hruntime
  have hlt := h.sources_lt _ hget
  have hretains := h.retains _ hget
  have hextends : Extends s.rangeSources
      (s.addWorksheet rangeSource source value table).rangeSources :=
    extends_set h.retains hget hretains.grown_self
  refine ⟨⟨⟨howned, h.operations_lt, forall_mem_set hlt h.sources_lt,
    forall_mem_set hretains h.retains, fun e he => (h.ready e he).extends hextends⟩,
    ⟨fun x hx => ?_, fun x hx => ?_⟩, rfl, rfl, fun _ => Result.ok_elim⟩, ?_, ?_⟩
  · cases x with
    | operation n => exact hx
    | source n => exact hx
    | registry n =>
      exact (show n < s.runtime.nextHandle from hx).trans_le (Nat.le_add_right _ 2)
  · cases x with
    | operation n => exact .inl hx
    | source n =>
      obtain ⟨source', hsource'⟩ := hx
      rcases mem_set.1 hsource' with heq | ⟨he, _⟩
      · cases heq
        exact .inl ⟨source, hget⟩
      · exact .inl ⟨source', he⟩
    | registry n =>
      refine or_iff_not_imp_left.2 fun hnot hissued => hnot ?_
      have hlt : n < s.runtime.nextHandle := hissued
      rcases hx with ⟨value', he⟩ | ⟨table', he⟩
      · rcases mem_set.1 he with heq | ⟨he, _⟩
        · cases heq
          exact absurd hlt (lt_irrefl _)
        · exact .inl ⟨value', he⟩
      · rcases mem_set.1 he with heq | ⟨he, _⟩
        · cases heq
          exact absurd hlt (Nat.lt_irrefl _ ∘ (Nat.lt_succ_self _).trans)
        · exact .inr ⟨table', he⟩
  · exact fun hlt => absurd hlt (Nat.lt_irrefl _ ∘ (Nat.lt_succ_self _).trans)
  · exact Nat.lt_succ_self _

/-- What going on with an operation does. -/
structure Advances (s : State) (operation : ℕ) (out : State × Result OperationAdvance) :
    Prop where
  steps : Steps s out
  pending : ∀ tracked, out.2 = .ok (.pending tracked) → tracked.Ready out.1.rangeSources
  complete : ∀ reply, out.2 = .ok (.complete reply) →
    reply.Of operation ∧ ∀ h ∈ reply.opened, Issues s out.1 h

variable {operation : ℕ}

theorem Advances.of_error {e : TabularkError}
    (h : Steps s (s', (.error e : Result OperationAdvance))) :
    Advances s operation (s', .error e) :=
  ⟨h, fun _ => Result.error_elim, fun _ => Result.error_elim⟩

theorem State.Sound.advances_error (h : s.Sound) (operation : ℕ) (e : TabularkError) :
    Advances s operation (s, .error e) := .of_error (h.steps _)

/-- A worksheet's operation waits, opens the worksheet or fails. It has issued no more ranges than
    bytes are retained, so that its revisions never run out after the worksheet is open. -/
theorem State.Sound.advanceOpenTable (h : s.Sound) (p : RangeParsers) (operation : ℕ)
    {o : PendingOpenTable} (hawaiting : o.cursor.awaitingResults = false)
    (hrevision : ∀ source, (o.sourceHandle, source) ∈ s.rangeSources.entries →
      o.cursor.revision ≤ source.indexed.retainedBytes) :
    Advances s operation (s.advanceOpenTable p operation o) := by
  rw [State.advanceOpenTable]
  cases o.fetch with
  | none => exact h.advances_error _ _
  | some fetch =>
    obtain ⟨index, fetch⟩ := fetch
    dsimp only
    cases hget : s.rangeSources.get? o.sourceHandle with
    | none => exact h.advances_error _ _
    | some source =>
      have hsource := get?_eq_some.1 hget
      have hle := hrevision source hsource
      obtain ⟨host, hholds⟩ := h.retains _ hsource
      dsimp only
      cases hadvance : fetch.advance source.indexed index with
      | error e => exact h.advances_error _ _
      | ok advanced =>
        obtain ⟨needed, fetch'⟩ := advanced
        cases needed with
        | some range =>
          dsimp only
          cases hissue : readRangesStep o.cursor range s.operationBudgetBytes with
          | error e => exact h.advances_error _ _
          | ok cursor =>
            have hstops := ((EntryFetch.advance_mono hholds hadvance).2 range rfl).1
            obtain ⟨_, rfl⟩ := AdapterOperationCursor.issue_singleton_eq_ok
              (safe_of_stop_le hstops.stop_le) hissue
            refine ⟨h.steps _, fun tracked htracked => ?_, (fun _ hreply => by cases hreply)⟩
            cases htracked
            refine ⟨source, hsource, fun _ => ⟨range, rfl, rfl, ?_, fun hnot => ?_⟩⟩
            · exact Nat.succ_le_succ hle
            · exact absurd hstops.misses hnot
        | none =>
          dsimp only
          cases compactWorksheet p source o.tableId fetch'.entries with
          | error e => exact h.advances_error _ _
          | ok compact =>
            dsimp only
            rcases State.openCompactTable_cases h p o.sourceHandle o.tableId compact
              source.options with
              ⟨n, e, heq⟩ | ⟨source', value, table, hget', hsource', hruntime, heq⟩
            · rw [heq]
              exact .of_error (h.steps_skip n _)
            · have hlt : o.cursor.revision < maxSafeInteger := by
                have hretained : source.indexed.retainedBytes ≤ _ := hholds.retained_le
                have hlength := host.length_le
                have hmax : maxRangeSourceBytes < maxSafeInteger := by decide
                omega
              rw [heq]
              dsimp only
              rw [AdapterOperationCursor.completeRevision_of_lt hawaiting hlt]
              dsimp only
              obtain ⟨hsteps, hissues⟩ := h.addWorksheet hget' hsource' hruntime _
              refine ⟨hsteps, (fun _ htracked => by cases htracked), fun reply hreply => ?_⟩
              cases hreply
              exact ⟨rfl, fun x hx => by rw [List.mem_singleton.1 hx]; exact hissues⟩

/-! ## Opening a workbook -/

/-- The ranges that an open has come with. -/
def OpenAdvance.indexed : OpenAdvance → IndexedRanges
  | need pending _ => pending.indexed
  | xlsx indexed _ _ _ => indexed
  | xls indexed _ => indexed

namespace PendingOpen

variable {p : RangeParsers} {o : PendingOpen} {found : OpenAdvance}

theorem indexed_of_advanceWorkbook {index : ZipDirectoryIndex} {fetch : EntryFetch}
    (h : o.advanceWorkbook p index fetch = .ok found) : found.indexed = o.indexed := by
  obtain ⟨⟨needed, fetch'⟩, _, h⟩ := Result.bind_eq_ok.1 h
  cases needed with
  | some range =>
    cases h
    rfl
  | none =>
    cases hpath : index.workbookPath with
    | none =>
      rw [hpath] at h
      cases h
    | some path =>
      rw [hpath] at h
      obtain ⟨_, _, h⟩ := Result.bind_eq_ok.1 h
      obtain ⟨_, _, h⟩ := Result.bind_eq_ok.1 h
      obtain ⟨_, _, h⟩ := Result.bind_eq_ok.1 h
      cases h
      rfl

theorem indexed_of_advanceXls (h : o.advanceXls p = .ok found) : found.indexed = o.indexed := by
  obtain ⟨compact, _, h⟩ := Result.bind_eq_ok.1 h
  cases compact with
  | inl range =>
    cases h
    rfl
  | inr compact =>
    cases h
    rfl

theorem indexed_of_advanceCentral (h : o.advanceCentral p = .ok found) :
    found.indexed = o.indexed := by
  obtain ⟨range, _, h⟩ := Result.bind_eq_ok.1 h
  cases htail : o.indexed.bytes range with
  | none =>
    rw [htail] at h
    cases h
  | some tail =>
    rw [htail] at h
    obtain ⟨location, _, h⟩ := Result.bind_eq_ok.1 h
    cases hbytes : o.indexed.bytes location.range with
    | none =>
      rw [hbytes] at h
      cases h
    | some central =>
      rw [hbytes] at h
      obtain ⟨index, _, h⟩ := Result.bind_eq_ok.1 h
      cases hpath : index.workbookPath with
      | none =>
        rw [hpath] at h
        cases h
      | some path =>
        rw [hpath] at h
        dsimp only at h
        split_ifs at h
        exact indexed_of_advanceWorkbook h

theorem indexed_of_advanceDetect (h : o.advanceDetect p = .ok found) :
    found.indexed = o.indexed := by
  obtain ⟨range, _, h⟩ := Result.bind_eq_ok.1 h
  cases hsignature : o.indexed.bytes range with
  | none =>
    rw [hsignature] at h
    cases h
  | some signature =>
    rw [hsignature] at h
    dsimp only at h
    split_ifs at h
    · obtain ⟨_, _, h⟩ := Result.bind_eq_ok.1 h
      exact indexed_of_advanceXls h
    · obtain ⟨_, _, h⟩ := Result.bind_eq_ok.1 h
      obtain ⟨range, _, h⟩ := Result.bind_eq_ok.1 h
      cases htail : o.indexed.bytes range with
      | none =>
        rw [htail] at h
        obtain ⟨_, _, h⟩ := Result.bind_eq_ok.1 h
        cases h
        rfl
      | some tail =>
        rw [htail] at h
        obtain ⟨location, _, h⟩ := Result.bind_eq_ok.1 h
        cases hbytes : o.indexed.bytes location.range with
        | none =>
          rw [hbytes] at h
          obtain ⟨_, _, h⟩ := Result.bind_eq_ok.1 h
          cases h
          rfl
        | some central =>
          rw [hbytes] at h
          exact indexed_of_advanceCentral h

/-- Nothing is retained or forgotten while an open goes on. -/
theorem indexed_of_advance (h : o.advance p = .ok found) : found.indexed = o.indexed := by
  rw [PendingOpen.advance] at h
  cases hphase : o.phase with
  | detect =>
    rw [hphase] at h
    exact indexed_of_advanceDetect h
  | xlsxCentral =>
    rw [hphase] at h
    exact indexed_of_advanceCentral h
  | xlsxWorkbook index fetch =>
    rw [hphase] at h
    exact indexed_of_advanceWorkbook h
  | xlsIndex =>
    rw [hphase] at h
    exact indexed_of_advanceXls h

end PendingOpen

/-- A range source that is registered, or only its handle is taken. -/
theorem State.Sound.registerSource (h : s.Sound) (operation : ℕ) (cursor : AdapterOperationCursor)
    (retainedBytes : Result ℕ) (hinners : source.innerSources = [])
    (hretains : Retains source.indexed) :
    Advances s operation (s.registerSource operation cursor retainedBytes source) := by
  have hnew := h.get?_rangeSources
  have hallocate : Steps s (({ s with nextSource := s.nextSource + 1 } : State),
      (.error closedRangeSource : Result Unit)) := by
    refine ⟨⟨h.owned, h.operations_lt,
      fun e he => (h.sources_lt e he).trans (Nat.lt_succ_self _), h.retains, h.ready⟩,
      ⟨fun x hx => ?_, fun x hx => .inl ?_⟩, rfl, rfl,
      fun _ _ => ⟨fun _ he => he, fun _ he => he⟩⟩
    · cases x with
      | operation n => exact hx
      | source n => exact Nat.lt_succ_of_lt hx
      | registry n => exact hx
    · cases x <;> exact hx
  have hfails : ∀ e : TabularkError, Advances s operation
      (({ s with nextSource := s.nextSource + 1 } : State), .error e) := fun e =>
    .of_error ⟨hallocate.sound, hallocate.onward, rfl, rfl, fun _ _ => hallocate.closed _ rfl⟩
  rw [State.registerSource]
  cases hsource : s.allocateSource with
  | error e => exact h.advances_error _ _
  | ok allocated =>
    obtain ⟨next, hnext, heq⟩ := Result.bind_eq_ok.1 hsource
    obtain ⟨_, rfl⟩ := checkedAdd_eq_ok.1 hnext
    cases heq
    dsimp only
    cases cursor.completeRevision with
    | error e => exact hfails e
    | ok cursor =>
      cases retainedBytes with
      | error e => exact hfails e
      | ok retainedBytes =>
        dsimp only
        have hset := @set_of_get?_eq_none _ _ _ _ _ source hnew
        have hmem : ∀ e ∈ (s.rangeSources.set s.nextSource source).entries,
            e ∈ s.rangeSources.entries ∨ e = (s.nextSource, source) := fun e he =>
          (mem_set.1 he).symm.imp_left And.left
        refine ⟨⟨⟨h.owned.addSource hnew hinners, h.operations_lt, fun e he => ?_, fun e he => ?_,
          fun e he => (h.ready e he).extends fun e' he' => ?_⟩,
          ⟨fun x hx => hallocate.onward.issued x hx, fun x hx => ?_⟩, rfl, rfl,
          fun _ _ => ⟨fun _ he => he, fun _ he => he⟩⟩,
          fun tracked htracked => ?_, fun reply hreply => ?_⟩
        · rcases hmem e he with he | rfl
          · exact (h.sources_lt e he).trans (Nat.lt_succ_self _)
          · exact Nat.lt_succ_self _
        · rcases hmem e he with he | rfl
          · exact h.retains e he
          · exact hretains
        · exact ⟨e'.2, hset ▸ List.mem_append_left _ he', (h.retains e' he').grown_self⟩
        · cases x with
          | operation n => exact .inl hx
          | registry n => exact .inl hx
          | source n =>
            obtain ⟨source', hsource'⟩ := hx
            rcases hmem _ hsource' with he | heq
            · exact .inl ⟨source', he⟩
            · cases heq
              exact .inr (lt_irrefl s.nextSource)
        · rw [State.completeRangeOpen] at htracked
          split_ifs at htracked
          obtain ⟨_, _, htracked⟩ := Result.bind_eq_ok.1 htracked
          cases htracked
        · rw [State.completeRangeOpen] at hreply
          split_ifs at hreply
          obtain ⟨_, _, hreply⟩ := Result.bind_eq_ok.1 hreply
          cases hreply
          refine ⟨rfl, fun x hx => ?_⟩
          rw [List.mem_singleton.1 hx]
          exact ⟨lt_irrefl s.nextSource, Nat.lt_succ_self _⟩

/-- The worksheets of a compound file are listed through a source that is closed again. -/
theorem State.listXls_eq (h : s.Sound) (p : RangeParsers) (compact : List UInt8)
    (options : ExcelOptions) :
    ∃ n result, s.listXls p compact options =
      ({ s with runtime := s.runtime.skip n }, result) := by
  have hsound := h.owned.sound
  rw [State.listXls]
  cases hopen : s.runtime.openSource p.toParsers compact options with
  | error e => exact ⟨0, _, rfl⟩
  | ok opened =>
    obtain ⟨inner, runtime⟩ := opened
    obtain ⟨value, rfl, rfl, _⟩ := ExcelRuntime.openSource_eq_ok hopen
    have hget : (s.runtime.addSource value).sources.get? s.runtime.nextHandle = some value :=
      get?_set_self
    have hclose := ExcelRuntime.closeSource_addSource hsound value 0
    change ((s.runtime.addSource value).closeSource s.runtime.nextHandle).1 = _ at hclose
    dsimp only
    rw [ExcelRuntime.listTables, hget]
    dsimp only
    rw [hclose]
    exact ⟨1, _, rfl⟩

/-- An operation that goes on after handles of the registry were taken. -/
theorem Advances.of_skip {operation n : ℕ} {out : State × Result OperationAdvance} (h : s.Sound)
    (hout : Advances ({ s with runtime := s.runtime.skip n } : State) operation out) :
    Advances s operation out := by
  have honward := (h.steps_skip n (.ok () : Result Unit)).onward
  refine ⟨⟨hout.steps.sound, honward.trans hout.steps.onward, hout.steps.operations,
    hout.steps.nextOperation, hout.steps.closed⟩, hout.pending, fun reply hreply => ?_⟩
  obtain ⟨hof, hopened⟩ := hout.complete reply hreply
  refine ⟨hof, fun x hx => ?_⟩
  obtain ⟨hnew, hissued⟩ := hopened x hx
  exact ⟨fun hold => hnew (honward.issued x hold), hissued⟩

/-- A workbook's operation waits, registers the workbook or fails. -/
theorem State.Sound.advanceOpen (h : s.Sound) (p : RangeParsers) (operation : ℕ) {o : TrackedOpen}
    (hretains : Retains o.pending.indexed) :
    Advances s operation (s.advanceOpen p operation o) := by
  rw [State.advanceOpen]
  cases hadvance : o.pending.advance p with
  | error e => exact h.advances_error _ _
  | ok found =>
    have hindexed := PendingOpen.indexed_of_advance hadvance
    cases found with
    | need pending range =>
      dsimp only
      cases hissue : readRangesStep o.cursor range s.operationBudgetBytes with
      | error e => exact h.advances_error _ _
      | ok cursor =>
        refine ⟨h.steps _, fun tracked htracked => ?_, (fun _ hreply => by cases hreply)⟩
        cases htracked
        change pending.indexed = _ at hindexed
        rw [TrackedOperation.Ready, hindexed]
        exact hretains
    | xlsx indexed index entries tables =>
      change indexed = _ at hindexed
      exact h.registerSource _ _ _ rfl (hindexed ▸ hretains)
    | xls indexed compact =>
      change indexed = _ at hindexed
      dsimp only
      obtain ⟨n, result, hlist⟩ := State.listXls_eq h p compact o.pending.options
      rw [hlist]
      have hskip := (h.steps_skip n result).sound
      cases result with
      | error e => exact .of_error (h.steps_skip n _)
      | ok tables =>
        exact .of_skip h (hskip.registerSource _ _ _ rfl (hindexed ▸ hretains))

/-! ## Calls -/

/-- What a call does. -/
structure Outcome (s : State) (call : Call) (out : State × Result Reply) : Prop where
  sound : out.1.Sound
  onward : Onward s out.1
  closed : ∀ e, out.2 = .error e → Closed s out.1
  issues : ∀ reply, out.2 = .ok reply → (reply.started call ++ reply.opened).Nodup ∧
    ∀ h ∈ reply.started call ++ reply.opened, Issues s out.1 h

/-- The state with an operation registered. -/
theorem State.Sound.register (h : s.Sound) (hlt : operation < s.nextOperation)
    {tracked : TrackedOperation} (hready : tracked.Ready s.rangeSources) :
    ({ s with operations := s.operations.set operation tracked } : State).Sound :=
  ⟨h.owned, forall_mem_set hlt h.operations_lt, h.sources_lt, h.retains,
    forall_mem_set hready h.ready⟩

/-- An operation that is registered was in use, or is new. -/
theorem Onward.register (h : Onward s s') (tracked : TrackedOperation)
    (hoperation : s.Uses (.operation operation) ∨ ¬s.Issued (.operation operation)) :
    Onward s { s' with operations := s'.operations.set operation tracked } := by
  refine ⟨fun x hx => ?_, fun x hx => ?_⟩
  · have hissued := h.issued x hx
    cases x <;> exact hissued
  · cases x with
    | source n => exact h.fresh (.source n) hx
    | registry n => exact h.fresh (.registry n) hx
    | operation n =>
      obtain ⟨tracked', htracked'⟩ := hx
      rcases mem_set.1 htracked' with heq | ⟨he, _⟩
      · cases heq
        exact hoperation
      · exact h.fresh (.operation n) ⟨tracked', he⟩

/-- A call that goes on with an operation: it starts the operation, or found it registered. -/
theorem Advances.settle {out : State × Result OperationAdvance} {call : Call}
    (hout : Advances s' operation out) (honward : Onward s s') (hruntime : s'.runtime = s.runtime)
    (hlt : operation < s'.nextOperation)
    (hoperation : s.Uses (.operation operation) ∨ ¬s.Issued (.operation operation))
    (hstarted : ∀ reply : Reply, ∀ h ∈ reply.started call,
      (reply.Of operation ∨ ∃ revision actions, reply = .pending operation revision actions) →
        h = .operation operation ∧ Issues s s' h)
    (hone : ∀ reply : Reply, (reply.started call).length ≤ 1) :
    Outcome s call (State.settle operation out) := by
  obtain ⟨s'', result⟩ := out
  have hclosed : Closed s' s'' → Closed s s'' := fun h => by
    rw [Closed, hruntime] at h
    exact h
  have honward' := honward.trans hout.steps.onward
  have hissues : ∀ h, Issues s s' h → Issues s s'' h := fun h hissues =>
    ⟨hissues.1, hout.steps.onward.issued h hissues.2⟩
  have hnext : s''.nextOperation = s'.nextOperation := hout.steps.nextOperation
  cases result with
  | error e =>
    exact ⟨hout.steps.sound, honward', fun _ _ => hclosed (hout.steps.closed _ rfl),
      fun _ => Result.error_elim⟩
  | ok advance =>
    cases advance with
    | pending tracked =>
      refine ⟨hout.steps.sound.register (hlt.trans_eq hnext.symm) (hout.pending tracked rfl),
        honward'.register tracked hoperation, fun _ => Result.ok_elim, fun reply hreply => ?_⟩
      cases hreply
      rw [show Reply.opened (.pending operation tracked.cursor.revision
        tracked.cursor.outstanding) = [] from rfl, List.append_nil]
      refine ⟨List.nodup_iff_count_le_one.2 fun x => (List.count_le_length).trans (hone _),
        fun x hx => ?_⟩
      obtain ⟨_, hnew, hissued⟩ := hstarted _ x hx (.inr ⟨_, _, rfl⟩)
      have hissued' := hout.steps.onward.issued x hissued
      exact ⟨hnew, by cases x <;> exact hissued'⟩
    | complete reply =>
      obtain ⟨hof, hopened⟩ := hout.complete reply rfl
      refine ⟨hout.steps.sound, honward', fun _ => Result.ok_elim, fun reply' hreply' => ?_⟩
      cases hreply'
      refine ⟨List.nodup_append.2 ⟨List.nodup_iff_count_le_one.2 fun x =>
        (List.count_le_length).trans (hone _), ?_, fun x hx y hy => ?_⟩, fun x hx => ?_⟩
      · cases reply with
        | openedSource => exact List.nodup_singleton _
        | openedTable => exact List.nodup_singleton _
        | _ => exact List.nodup_nil
      · obtain ⟨rfl, _⟩ := hstarted _ x hx (.inl hof)
        rintro rfl
        cases reply with
        | openedSource => cases List.mem_singleton.1 hy
        | openedTable => cases List.mem_singleton.1 hy
        | _ => cases hy
      · rcases List.mem_append.1 hx with hx | hx
        · exact hissues x (hstarted _ x hx (.inl hof)).2
        · obtain ⟨hnew, hissued⟩ := hopened x hx
          exact ⟨fun hold => hnew (honward.issued x hold), hissued⟩

/-- A call that hands out nothing. -/
theorem Outcome.of_steps {call : Call} {reply : Result Reply} (h : Steps s (s', reply))
    (hissues : ∀ r, reply = .ok r → r.started call ++ r.opened = []) :
    Outcome s call (s', reply) :=
  ⟨h.sound, h.onward, h.closed, fun r hr => by
    rw [hissues r hr]
    exact ⟨List.nodup_nil, nofun⟩⟩

theorem State.Sound.outcome_error (h : s.Sound) (call : Call) (e : TabularkError) :
    Outcome s call (s, .error e) := .of_steps (h.steps _) fun _ => Result.error_elim

/-- A state that differs in its operation handles only has nothing new open in the registry. -/
theorem Closed.of_runtime (h : s'.runtime = s.runtime) : Closed s s' := by
  rw [Closed, h]
  exact ⟨fun _ he => he, fun _ he => he⟩

/-- An operation handle that is taken. -/
theorem State.Sound.allocateOperation (h : s.Sound)
    (hallocate : s.allocateOperation = .ok (operation, s')) :
    operation = s.nextOperation ∧ s' = { s with nextOperation := s.nextOperation + 1 } ∧
      s'.Sound ∧ Onward s s' ∧ Issues s s' (.operation operation) ∧
      ∀ call e, Outcome s call (s', .error e) := by
  obtain ⟨next, hnext, heq⟩ := Result.bind_eq_ok.1 hallocate
  obtain ⟨_, rfl⟩ := checkedAdd_eq_ok.1 hnext
  cases heq
  have hsound : State.Sound { s with nextOperation := s.nextOperation + 1 } :=
    ⟨h.owned, fun e he => (h.operations_lt e he).trans (Nat.lt_succ_self _), h.sources_lt,
      h.retains, h.ready⟩
  have honward : Onward s { s with nextOperation := s.nextOperation + 1 } := by
    refine ⟨fun x hx => ?_, fun x hx => .inl ?_⟩
    · cases x with
      | operation n => exact Nat.lt_succ_of_lt hx
      | source n => exact hx
      | registry n => exact hx
    · cases x <;> exact hx
  exact ⟨rfl, rfl, hsound, honward, ⟨lt_irrefl s.nextOperation, Nat.lt_succ_self _⟩,
    fun _ _ => ⟨hsound, honward, fun _ _ => .of_runtime rfl, fun _ => Result.error_elim⟩⟩

theorem State.Sound.beginOpen (h : s.Sound) (options : ExcelOptions) (sourceLength : ℕ) :
    Outcome s (.beginOpen options sourceLength) (s.beginOpen options sourceLength) := by
  rw [State.beginOpen]
  split_ifs with hmax hmin
  · exact h.outcome_error _ _
  · exact h.outcome_error _ _
  · cases hallocate : s.allocateOperation with
    | error e => exact h.outcome_error _ _
    | ok allocated =>
      obtain ⟨operation, s'⟩ := allocated
      obtain ⟨rfl, -, hsound, honward, hissues, hfails⟩ := h.allocateOperation hallocate
      dsimp only
      cases hrange : HostRange.new 0 8 sourceLength with
      | error e => exact hfails _ e
      | ok range =>
        dsimp only
        cases hissue : readRangesStep {} range s'.operationBudgetBytes with
        | error e => exact hfails _ e
        | ok cursor =>
          have hretains := retains_new (not_lt.1 hmax)
          have hlt : s.nextOperation < s'.nextOperation := hissues.2
          refine ⟨hsound.register hlt hretains, honward.register _ (.inr hissues.1),
            fun _ => Result.ok_elim, fun reply hreply => ?_⟩
          cases hreply
          refine ⟨List.nodup_singleton _, fun x hx => ?_⟩
          rw [List.mem_singleton.1 hx]
          exact hissues

theorem State.Sound.openIndexedTable (h : s.Sound) (p : RangeParsers) (sourceHandle : ℕ)
    (tableId : String) :
    Steps s (s.openIndexedTable p sourceHandle tableId) ∧
      ∀ table, (s.openIndexedTable p sourceHandle tableId).2 = .ok table →
        Issues s (s.openIndexedTable p sourceHandle tableId).1 (.registry table.tableHandle) := by
  rw [State.openIndexedTable]
  cases s.rangeSources.get? sourceHandle with
  | none => exact ⟨h.steps _, fun _ => Result.error_elim⟩
  | some source =>
    dsimp only
    split_ifs
    · cases source.kind with
      | xlsx => exact ⟨h.steps _, fun _ => Result.error_elim⟩
      | xls compact =>
        dsimp only
        rcases State.openCompactTable_cases h p sourceHandle tableId compact source.options with
          ⟨n, e, heq⟩ | ⟨source', value, table, hget', hsource', hruntime, heq⟩
        · rw [heq]
          exact ⟨h.steps_skip n _, fun _ => Result.error_elim⟩
        · rw [heq]
          obtain ⟨hsteps, hissues⟩ := h.addWorksheet hget' hsource' hruntime _
          refine ⟨hsteps, fun opened hopened => ?_⟩
          cases hopened
          exact hissues
    · exact ⟨h.steps _, nofun⟩

theorem State.Sound.openTable (h : s.Sound) (p : RangeParsers) (sourceHandle : ℕ)
    (tableId : String) :
    Outcome s (.openTable sourceHandle tableId) (s.openTable p sourceHandle tableId) := by
  obtain ⟨hsteps, hissues⟩ := h.openIndexedTable p sourceHandle tableId
  rw [State.openTable]
  cases hopen : s.openIndexedTable p sourceHandle tableId with
  | mk s' result =>
    rw [hopen] at hsteps hissues
    cases result with
    | error e =>
      exact ⟨hsteps.sound, hsteps.onward, fun _ _ => hsteps.closed _ rfl,
        fun _ => Result.error_elim⟩
    | ok table =>
      refine ⟨hsteps.sound, hsteps.onward, fun _ => Result.ok_elim, fun reply hreply => ?_⟩
      cases hreply
      refine ⟨List.nodup_singleton _, fun x hx => ?_⟩
      rw [List.mem_singleton.1 hx]
      exact hissues _ rfl

theorem State.Sound.beginOpenTable (h : s.Sound) (p : RangeParsers) (sourceHandle : ℕ)
    (tableId : String) :
    Outcome s (.beginOpenTable sourceHandle tableId)
      (s.beginOpenTable p sourceHandle tableId) := by
  rw [State.beginOpenTable]
  cases hallocate : s.allocateOperation with
  | error e => exact h.outcome_error _ _
  | ok allocated =>
    obtain ⟨operation, s'⟩ := allocated
    obtain ⟨rfl, hs', hsound, honward, hissues, hfails⟩ := h.allocateOperation hallocate
    have hruntime : s'.runtime = s.runtime := by rw [hs']
    dsimp only
    cases s'.rangeSources.get? sourceHandle with
    | none => exact hfails _ _
    | some source =>
      dsimp only
      cases source.tables.find? (fun x => decide (x.id = tableId)) with
      | none => exact hfails _ _
      | some target =>
        dsimp only
        cases source.kind with
        | xls compact =>
          dsimp only
          obtain ⟨hsteps, hopened⟩ := hsound.openIndexedTable p sourceHandle tableId
          have hclosed : ∀ {s'' : State}, Closed s' s'' → Closed s s'' := fun hclosed => by
            rw [Closed, hruntime] at hclosed
            exact hclosed
          cases hopen : s'.openIndexedTable p sourceHandle tableId with
          | mk s'' result =>
            rw [hopen] at hsteps hopened
            cases result with
            | error e =>
              exact ⟨hsteps.sound, honward.trans hsteps.onward,
                fun _ _ => hclosed (hsteps.closed _ rfl), fun _ => Result.error_elim⟩
            | ok table =>
              refine ⟨hsteps.sound, honward.trans hsteps.onward, fun _ => Result.ok_elim,
                fun reply hreply => ?_⟩
              cases hreply
              refine ⟨by simp [Reply.started, Reply.opened], fun x hx => ?_⟩
              rcases List.mem_cons.1 hx with rfl | hx
              · exact ⟨hissues.1, hsteps.onward.issued _ hissues.2⟩
              · obtain ⟨hnew, hissued⟩ := hopened _ rfl
                rw [List.mem_singleton.1 hx]
                exact ⟨fun hold => hnew (honward.issued _ hold), hissued⟩
        | xlsx index workbookEntries =>
          dsimp only
          cases index.workbookPath with
          | none => exact hfails _ _
          | some workbookPath =>
            refine Advances.settle (hsound.advanceOpenTable p _ rfl fun _ _ => Nat.zero_le _)
              honward hruntime hissues.2 (.inr hissues.1) (fun reply x hx hreply => ?_)
              fun reply => ?_
            · rcases hreply with hof | ⟨_, _, rfl⟩
              · cases reply with
                | openedTable operation' table =>
                  cases hof
                  obtain rfl := List.mem_singleton.1 hx
                  exact ⟨rfl, hissues⟩
                | openedSource => cases hx
                | _ => cases hof
              · obtain rfl := List.mem_singleton.1 hx
                exact ⟨rfl, hissues⟩
            · cases reply with
              | pending => exact le_rfl
              | openedTable operation' table => cases operation' <;> simp [Reply.started]
              | _ => exact Nat.zero_le _

/-- A range source that has retained no less, with the same private sources. -/
theorem State.Sound.grow (h : s.Sound) {key : ℕ}
    (hget : (key, source) ∈ s.rangeSources.entries) {indexed : IndexedRanges}
    (hgrown : source.indexed.Grown indexed) :
    ({ s with rangeSources := s.rangeSources.set key { source with indexed } } : State).Sound := by
  have howned : Owned _ (s.rangeSources.set key { source with indexed }) _ := h.owned.set hget rfl
  have hextends : Extends s.rangeSources (s.rangeSources.set key { source with indexed }) :=
    extends_set h.retains hget hgrown
  have hlt := h.sources_lt _ hget
  exact ⟨howned, h.operations_lt, forall_mem_set hlt h.sources_lt,
    forall_mem_set hgrown.holds h.retains, fun e he => (h.ready e he).extends hextends⟩

/-- An operation that is dropped. -/
theorem State.Sound.drop (h : s.Sound) (operation : ℕ) :
    ({ s with operations := s.operations.delete operation } : State).Sound :=
  ⟨h.owned, fun e he => h.operations_lt e (mem_delete.1 he).1, h.sources_lt, h.retains,
    fun e he => h.ready e (mem_delete.1 he).1⟩

theorem Onward.drop (h : Onward s s') (operation : ℕ) :
    Onward s { s' with operations := s'.operations.delete operation } := by
  refine ⟨fun x hx => ?_, fun x hx => ?_⟩
  · have hissued := h.issued x hx
    cases x <;> exact hissued
  · cases x with
    | operation n =>
      obtain ⟨tracked, htracked⟩ := hx
      exact h.fresh (.operation n) ⟨tracked, (mem_delete.1 htracked).1⟩
    | source n => exact h.fresh (.source n) hx
    | registry n => exact h.fresh (.registry n) hx

/-- A range source that stays under its handle. -/
theorem Onward.grow (h : Onward s s') {key : ℕ} {source source' : RangeSource}
    (hget : (key, source) ∈ s'.rangeSources.entries) :
    Onward s { s' with rangeSources := s'.rangeSources.set key source' } := by
  refine ⟨fun x hx => ?_, fun x hx => ?_⟩
  · have hissued := h.issued x hx
    cases x <;> exact hissued
  · cases x with
    | operation n => exact h.fresh (.operation n) hx
    | registry n => exact h.fresh (.registry n) hx
    | source n =>
      obtain ⟨source', hsource'⟩ := hx
      rcases mem_set.1 hsource' with heq | ⟨he, _⟩
      · cases heq
        exact h.fresh (.source key) ⟨source, hget⟩
      · exact h.fresh (.source n) ⟨source', he⟩

/-- A call that goes on with an operation starts none. -/
theorem Reply.started_continue (reply : Reply) (operation operationRevision : ℕ)
    (results : List AdapterActionResult) :
    reply.started (.continueOperation operation operationRevision results) = [] := by
  cases reply with
  | openedTable operation table => cases operation <;> rfl
  | _ => rfl

theorem State.Sound.continueOperation (h : s.Sound) (p : RangeParsers)
    (operation operationRevision : ℕ) (results : List AdapterActionResult) :
    Outcome s (.continueOperation operation operationRevision results)
      (s.continueOperation p operation operationRevision results) := by
  rw [State.continueOperation]
  cases hget : s.operations.get? operation with
  | none => exact h.outcome_error _ _
  | some tracked =>
    have hmem := get?_eq_some.1 hget
    have hready := h.ready _ hmem
    have hlt := h.operations_lt _ hmem
    have huses : s.Uses (.operation operation) := ⟨tracked, hmem⟩
    dsimp only
    cases hvalid : tracked.cursor.validateResults operationRevision results with
    | error e => exact h.outcome_error _ _
    | ok cursor =>
      obtain ⟨hawaiting, _, _, hcursor⟩ := AdapterOperationCursor.validateResults_eq_ok hvalid
      have hdrop := h.drop operation
      have honward := (Onward.refl s).drop operation
      have hstarted : ∀ s' : State, ∀ reply : Reply,
          ∀ x ∈ reply.started (.continueOperation operation operationRevision results),
            (reply.Of operation ∨
                ∃ revision actions, reply = .pending operation revision actions) →
              x = .operation operation ∧ Issues s s' x := fun s' reply x hx => by
        rw [Reply.started_continue] at hx
        cases hx
      have hone : ∀ reply : Reply, (reply.started
          (.continueOperation operation operationRevision results)).length ≤ 1 := fun reply => by
        rw [Reply.started_continue]
        exact zero_le_one
      cases tracked with
      | openSource o =>
        obtain ⟨host, hholds⟩ := hready
        have hgrown := applyIndexedResultsMut_grown hholds o.expected results
        dsimp only
        cases happlied : applyIndexedResultsMut o.expected o.pending.indexed results with
        | mk indexed applied =>
          rw [happlied] at hgrown
          cases applied with
          | error e =>
            exact ⟨hdrop.register hlt hgrown.holds, honward.register _ (.inl huses),
              fun _ _ => .of_runtime rfl, fun _ => Result.error_elim⟩
          | ok _ =>
            have hadvance := @State.Sound.advanceOpen _ hdrop p operation
              { o with cursor, pending := { o.pending with indexed } } hgrown.holds
            exact hadvance.settle honward rfl hlt (.inl huses) (hstarted _) hone
      | openTable o =>
        obtain ⟨source, hsource, hwaits⟩ := hready
        obtain ⟨host, hholds⟩ := h.retains _ hsource
        have hgrown := applyIndexedResultsMut_grown hholds o.expected results
        dsimp only
        rw [get?_eq_some.2 hsource]
        dsimp only
        cases happlied : applyIndexedResultsMut o.expected source.indexed results with
        | mk indexed applied =>
          rw [happlied] at hgrown
          have hgrow := hdrop.grow hsource hgrown
          have honward' := @Onward.grow _ _ honward _ source { source with indexed } hsource
          have hsource' : (o.sourceHandle, { source with indexed }) ∈
              (s.rangeSources.set o.sourceHandle { source with indexed }).entries :=
            mem_set.2 (.inl rfl)
          cases applied with
          | error e =>
            refine ⟨hgrow.register hlt ⟨_, hsource', fun hagain => ?_⟩,
              honward'.register _ (.inl huses), fun _ _ => .of_runtime rfl,
              fun _ => Result.error_elim⟩
            rw [hcursor] at hagain
            cases hagain
          | ok _ =>
            refine (hgrow.advanceOpenTable p operation (by rw [hcursor])
              fun source'' hsource'' => ?_).settle honward' rfl hlt (.inl huses) (hstarted _) hone
            -- The range that was asked for is retained now.
            obtain ⟨gap, hexpected, houtstanding, _⟩ := hwaits hawaiting
            obtain ⟨r, rfl, hindex⟩ :=
              AdapterOperationCursor.singleton_of_validateResults houtstanding hvalid
            rw [hexpected] at happlied
            have hcovered := applyIndexedResultsMut_singleton hholds (by rw [happlied]) hindex
            obtain ⟨gap', hexpected', _, _, hle⟩ := hwaits.grown hgrown hawaiting
            rw [hexpected] at hexpected'
            cases hexpected'
            rw [happlied] at hcovered
            cases eq_of_key hsource'' hsource' rfl
            rw [hcursor]
            exact hle hcovered

theorem State.Sound.cancelOperation (h : s.Sound) (operation : ℕ) :
    Outcome s (.cancelOperation operation) (s.cancelOperation operation) := by
  refine ⟨h.drop operation, (Onward.refl s).drop operation, fun _ => Result.ok_elim,
    fun reply hreply => ?_⟩
  cases hreply
  exact ⟨List.nodup_nil, nofun⟩

/-! ## Closing -/

/-- A worksheet that is closed is closed with its private source, or was not open. -/
theorem State.Sound.closeTable (h : s.Sound) (table : ℕ) :
    Outcome s (.closeTable table) (s.closeTable table) := by
  rw [State.closeTable]
  cases hget : s.tableSources.get? table with
  | none =>
    -- An open worksheet would be listed.
    have hnone : s.runtime.tables.get? table = none := get?_eq_none.2 fun e he heq => by
      obtain ⟨owner, howner⟩ := h.owned.listed e he
      exact get?_eq_none.1 hget _ howner heq
    rw [ExcelRuntime.closeTable, hnone]
    refine .of_steps (h.steps _) fun reply hreply => ?_
    cases hreply
    rfl
  | some owner =>
    obtain ⟨key, inner⟩ := owner
    have hlisted := get?_eq_some.1 hget
    obtain ⟨_, source, hsource, _⟩ := h.owned.opened _ hlisted
    dsimp only
    rw [get?_eq_some.2 hsource]
    dsimp only
    have hclose := @Owned.closeTable _ key inner source
      { source with innerSources := source.innerSources.filter (· ≠ inner) } _ _ table
      h.owned hlisted hsource rfl
    obtain ⟨hsources, htables⟩ := ExcelRuntime.entries_closeTable s.runtime table
    obtain ⟨hsources', htables'⟩ :=
      ExcelRuntime.entries_closeSource (h.owned.sound.closeTable table) inner
    rw [hsources] at hsources'
    rw [htables] at htables'
    have hextends : Extends s.rangeSources (s.rangeSources.set key
        { source with innerSources := source.innerSources.filter (· ≠ inner) }) :=
      extends_set h.retains hsource (h.retains _ hsource).grown_self
    have hlt := h.sources_lt _ hsource
    have hretains := h.retains _ hsource
    refine ⟨⟨hclose, h.operations_lt, forall_mem_set hlt h.sources_lt,
      forall_mem_set hretains h.retains, fun e he => (h.ready e he).extends hextends⟩,
      ⟨fun x hx => ?_, fun x hx => .inl ?_⟩, fun _ => Result.ok_elim, fun reply hreply => ?_⟩
    · cases x with
      | operation n => exact hx
      | source n => exact hx
      | registry n =>
        refine (show n < s.runtime.nextHandle from hx).trans_eq ?_
        exact ((ExcelRuntime.nextHandle_closeSource _ _).trans
          (ExcelRuntime.nextHandle_closeTable _ _)).symm
    · cases x with
      | operation n => exact hx
      | source n =>
        obtain ⟨source', hsource'⟩ := hx
        rcases mem_set.1 hsource' with heq | ⟨he, _⟩
        · cases heq
          exact ⟨source, hsource⟩
        · exact ⟨source', he⟩
      | registry n =>
        refine hx.imp (Exists.imp fun value hvalue => ?_) (Exists.imp fun value hvalue => ?_)
        · change (n, value) ∈ ((s.runtime.closeTable table).1.closeSource inner).1.sources.entries
            at hvalue
          rw [hsources'] at hvalue
          exact (List.mem_filter.1 hvalue).1
        · change (n, value) ∈ ((s.runtime.closeTable table).1.closeSource inner).1.tables.entries
            at hvalue
          rw [htables'] at hvalue
          exact (List.mem_filter.1 (List.mem_filter.1 hvalue).1).1
    · cases hreply
      exact ⟨List.nodup_nil, List.forall_mem_nil _⟩

theorem State.foldl_dropTable (s : State) (tables : List ℕ) :
    tables.foldl State.dropTable s = { s with
      runtime := tables.foldl (fun r table => (r.closeTable table).1) s.runtime
      tableSources := tables.foldl delete s.tableSources } := by
  induction tables generalizing s with
  | nil => rfl
  | cons table tables ih => exact ih _

theorem State.foldl_dropInner (s : State) (inners : List ℕ) :
    inners.foldl State.dropInner s = { s with
      runtime := inners.foldl (fun r inner => (r.closeSource inner).1) s.runtime } := by
  induction inners generalizing s with
  | nil => rfl
  | cons inner inners ih => exact ih _

/-- A workbook that is closed when no operation opens one of its worksheets. -/
theorem State.Sound.closeSource (h : s.Sound) (key : ℕ)
    (hidle : ∀ e ∈ s.operations.entries, ∀ o, e.2 = .openTable o → o.sourceHandle ≠ key) :
    Outcome s (.closeSource key) (s.closeSource key) := by
  rw [State.closeSource]
  cases hget : s.rangeSources.get? key with
  | none =>
    refine .of_steps (h.steps _) fun reply hreply => ?_
    cases hreply
    rfl
  | some source =>
    have hsource := get?_eq_some.1 hget
    dsimp only
    rw [State.foldl_dropTable, State.foldl_dropInner]
    dsimp only
    obtain ⟨hsound, hsources, htables⟩ :=
      ExcelRuntime.entries_closeTables h.owned.sound (s.tablesOf key)
    obtain ⟨hsound', hsources', htables'⟩ :=
      ExcelRuntime.entries_closeSources hsound source.innerSources
    rw [hsources] at hsources'
    rw [htables] at htables'
    have hof : ∀ table, table ∈ s.tablesOf key ↔
        ∃ inner, (table, key, inner) ∈ s.tableSources.entries := by
      intro table
      rw [State.tablesOf, List.mem_map]
      constructor
      · rintro ⟨⟨_, owner, inner⟩, he, rfl⟩
        obtain ⟨he, howner⟩ := List.mem_filter.1 he
        have howner : owner = key := of_decide_eq_true howner
        exact ⟨inner, howner ▸ he⟩
      · rintro ⟨inner, he⟩
        exact ⟨_, List.mem_filter.2 ⟨he, decide_eq_true rfl⟩, rfl⟩
    have howned := h.owned.closeSource hsource hsound' hsources' (fun e => by
      rw [htables', List.mem_filter, List.mem_filter, decide_eq_true_eq, decide_eq_true_eq, hof,
        not_exists, and_assoc]) (by
      rw [entries_deletes]
      refine List.filter_congr fun e he => ?_
      rw [decide_eq_decide, hof, not_iff_not]
      constructor
      · rintro ⟨inner, hinner⟩
        exact congrArg (fun e => e.2.1) (eq_of_key he hinner rfl)
      · rintro rfl
        exact ⟨e.2.2, he⟩)
    refine ⟨⟨howned, h.operations_lt, fun e he => h.sources_lt e (mem_delete.1 he).1,
      fun e he => h.retains e (mem_delete.1 he).1, fun e he => ?_⟩,
      ⟨fun x hx => ?_, fun x hx => .inl ?_⟩, fun _ => Result.ok_elim, fun reply hreply => ?_⟩
    · have hready := h.ready e he
      cases htracked : e.2 with
      | openSource o =>
        rw [htracked] at hready
        exact hready
      | openTable o =>
        -- Its workbook is another one, so it is still there.
        rw [htracked] at hready
        obtain ⟨source', hsource', hwaits⟩ := hready
        exact ⟨source', mem_delete.2 ⟨hsource', hidle e he o htracked⟩, hwaits⟩
    · cases x with
      | operation n => exact hx
      | source n => exact hx
      | registry n =>
        refine (show n < s.runtime.nextHandle from hx).trans_eq ?_
        exact ((ExcelRuntime.nextHandle_closeSources _ _).trans
          (ExcelRuntime.nextHandle_closeTables _ _)).symm
    · cases x with
      | operation n => exact hx
      | source n =>
        obtain ⟨source', hsource'⟩ := hx
        exact ⟨source', (mem_delete.1 hsource').1⟩
      | registry n =>
        refine hx.imp (fun ⟨value, hvalue⟩ => ⟨value, ?_⟩) fun ⟨value, hvalue⟩ => ⟨value, ?_⟩
        · exact (List.mem_filter.1 (hsources' ▸ hvalue)).1
        · exact (List.mem_filter.1 (List.mem_filter.1 (htables' ▸ hvalue)).1).1
    · cases hreply
      exact ⟨List.nodup_nil, nofun⟩

theorem State.shutdown_outcome (s : State) : Outcome s .shutdown s.shutdown := by
  refine ⟨⟨⟨ExcelRuntime.Sound.shutdown _, .nil, fun e he => absurd he List.not_mem_nil,
    fun e he => absurd he List.not_mem_nil, List.nodup_nil⟩,
    fun e he => absurd he List.not_mem_nil, fun e he => absurd he List.not_mem_nil,
    fun e he => absurd he List.not_mem_nil, fun e he => absurd he List.not_mem_nil⟩,
    ⟨fun x hx => ?_, fun x hx => ?_⟩, fun _ => Result.ok_elim, fun reply hreply => ?_⟩
  · cases x <;> exact hx
  · cases x with
    | operation n =>
      obtain ⟨_, he⟩ := hx
      exact absurd he List.not_mem_nil
    | source n =>
      obtain ⟨_, he⟩ := hx
      exact absurd he List.not_mem_nil
    | registry n =>
      rcases hx with ⟨_, he⟩ | ⟨_, he⟩
      · exact absurd he List.not_mem_nil
      · exact absurd he List.not_mem_nil
  · cases hreply
    exact ⟨List.nodup_nil, nofun⟩

/-- A call leaves no operation behind that opens a worksheet of a workbook it closes. -/
def Call.Idle (s : State) : Call → Prop
  | .closeSource key => (s.rangeSources.get? key).isSome →
      ∀ e ∈ s.operations.entries, ∀ o, e.2 = .openTable o → o.sourceHandle ≠ key
  | _ => True

/-- Every call keeps the invariant, except one that leaves such an operation behind. -/
theorem State.Sound.call (h : s.Sound) (p : RangeParsers) {call : Call} (hidle : call.Idle s) :
    Outcome s call (s.call p call) := by
  cases call with
  | beginOpen options sourceLength => exact h.beginOpen options sourceLength
  | continueOperation operation operationRevision results =>
    exact h.continueOperation p operation operationRevision results
  | openTable source tableId => exact h.openTable p source tableId
  | beginOpenTable source tableId => exact h.beginOpenTable p source tableId
  | closeTable table => exact h.closeTable table
  | cancelOperation operation => exact h.cancelOperation operation
  | shutdown => exact s.shutdown_outcome
  | closeSource key =>
    refine h.closeSource key fun e he o ho hkey => ?_
    -- The workbook of an operation is open.
    have hready := h.ready e he
    rw [ho] at hready
    obtain ⟨source, hsource, _⟩ := hready
    rw [hkey] at hsource
    exact hidle (Option.isSome_iff_exists.2 ⟨source, get?_eq_some.2 hsource⟩) e he o ho hkey

end Tabulark.Excel.Wasm
