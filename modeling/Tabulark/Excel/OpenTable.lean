import Tabulark.Excel.EntryFetch

/-!
# Opening worksheets

The operations that open worksheets of one package share its retained ranges,
and each waits for a range it asked for when less was retained. `OpenRun` is any
interleaving of them, every range answered with the source's bytes. A fetch that
completes alone completes from more retained ranges, too (`Completes.advance`).
-/

namespace Tabulark.Excel

open OrderedMap Segments

/-! ## Operations -/

/-- An operation that opens a worksheet. -/
structure PendingOpenTable where
  cursor : AdapterOperationCursor := {}
  expected : List HostRange := []
  fetch : EntryFetch

/-- What a step of an operation returns: it waits for a range, or it has all entries. -/
inductive OperationAdvance
  | pending
  | complete (entries : List RawZipEntry)

/-- The worksheets of one package: its directory, the entries read with it, the retained
    ranges, and the operations that wait. -/
structure OpenTables where
  index : ZipDirectoryIndex
  workbookEntries : List RawZipEntry
  operationBudgetBytes : ℕ
  indexed : IndexedRanges
  operations : List (ℕ × PendingOpenTable) := []
  nextOperation : ℕ := 1

namespace OpenTables

/-- Goes on with an operation that waits for nothing. -/
def advanceOpenTable (s : OpenTables) (op : PendingOpenTable) :
    Result (PendingOpenTable × OperationAdvance) := do
  let advanced ← op.fetch.advance s.indexed s.index
  match advanced.1 with
  | some range => do
    let cursor ← op.cursor.issue [⟨0, range.offset, range.length⟩] s.operationBudgetBytes
    .ok (⟨cursor, [range], advanced.2⟩, .pending)
  | none => do
    let cursor ← op.cursor.completeRevision
    .ok (⟨cursor, op.expected, advanced.2⟩, .complete advanced.2.entries)

/-- Starts an operation that fetches the entries of some paths. -/
def beginOpenTable (s : OpenTables) (paths : List String) :
    OpenTables × Result (ℕ × OperationAdvance) :=
  match checkedAdd u32Max s.nextOperation 1
    (.new .resourceLimit "Excel operation handle space exhausted") with
  | .error e => (s, .error e)
  | .ok nextOperation =>
    let started := { s with nextOperation }
    match started.advanceOpenTable { fetch := ⟨paths, s.workbookEntries⟩ } with
    | .error e => (started, .error e)
    | .ok (op, .pending) =>
      ({ started with operations := insert s.operations s.nextOperation op },
        .ok (s.nextOperation, .pending))
    | .ok (_, .complete entries) => (started, .ok (s.nextOperation, .complete entries))

/-- Goes on with an operation whose results were validated. -/
def continueValidated (s : OpenTables) (handle : ℕ) (op : PendingOpenTable)
    (results : List AdapterActionResult) : OpenTables × Result OperationAdvance :=
  match applyIndexedResults op.expected s.indexed results with
  | .error e => ({ s with operations := insert s.operations handle op }, .error e)
  | .ok indexed =>
    let applied := { s with
      indexed
      operations := erase s.operations handle }
    match applied.advanceOpenTable op with
    | .error e => (applied, .error e)
    | .ok (op, .pending) =>
      ({ applied with operations := insert applied.operations handle op }, .ok .pending)
    | .ok (_, .complete entries) => (applied, .ok (.complete entries))

/-- Supplies results to an operation. -/
def continueOperation (s : OpenTables) (handle operationRevision : ℕ)
    (results : List AdapterActionResult) : OpenTables × Result OperationAdvance :=
  match get? s.operations handle with
  | none => (s, .error (.new .handleClosed "Excel operation handle is closed"))
  | some op =>
    match op.cursor.validateResults operationRevision results with
    | .error e => (s, .error e)
    | .ok cursor => s.continueValidated handle { op with cursor } results

end OpenTables

/-! ## Interleavings -/

/-- A call of the host: a new operation, or the answer that one waits for. -/
inductive OpenEvent
  | start (paths : List String)
  | answer (handle : ℕ)

/-- A run of calls: the state, and a log of what was started, refused, answered, completed and
    failed. -/
structure OpenRun where
  state : OpenTables
  started : List (ℕ × List String) := []
  refused : List (List String) := []
  answered : List ℕ := []
  completed : List (ℕ × List RawZipEntry) := []
  failed : List ℕ := []

/-- The right answers to the ranges that an operation waits for. -/
def HostSource.answers (source : HostSource) (expected : List HostRange) :
    List AdapterActionResult := expected.mapIdx source.answer

namespace OpenRun

/-- One call; an operation that waits for nothing is not answered. -/
def step (source : HostSource) (run : OpenRun) : OpenEvent → OpenRun
  | .start paths =>
    match run.state.beginOpenTable paths with
    | (state, .ok (handle, .pending)) =>
      { run with
        state
        started := (handle, paths) :: run.started }
    | (state, .ok (handle, .complete entries)) =>
      { run with
        state
        started := (handle, paths) :: run.started
        completed := (handle, entries) :: run.completed }
    | (state, .error _) =>
      { run with
        state
        refused := paths :: run.refused }
  | .answer handle =>
    match get? run.state.operations handle with
    | none => run
    | some op =>
      match run.state.continueOperation handle op.cursor.revision (source.answers op.expected) with
      | (state, .ok .pending) =>
        { run with
          state
          answered := handle :: run.answered }
      | (state, .ok (.complete entries)) =>
        { run with
          state
          answered := handle :: run.answered
          completed := (handle, entries) :: run.completed }
      | (state, .error _) =>
        { run with
          state
          failed := handle :: run.failed }

/-- The calls one after the other. -/
def steps (source : HostSource) (run : OpenRun) (events : List OpenEvent) : OpenRun :=
  events.foldl (step source) run

end OpenRun

/-- Fetching some paths alone, with an answer to each range, completes with these entries. -/
def OpenTables.CompletesAlone (s : OpenTables) (source : HostSource) (paths : List String)
    (entries : List RawZipEntry) : Prop :=
  ∃ n, (OpenRun.steps source { state := s }
      (.start paths :: List.replicate n (.answer s.nextOperation))).failed = [] ∧
    (OpenRun.steps source { state := s }
      (.start paths :: List.replicate n (.answer s.nextOperation))).completed =
        [(s.nextOperation, entries)]

/-! ## Fetching alone -/

variable {source : HostSource} {index : ZipDirectoryIndex} {budget : ℕ}

/-- A fetch that completes: every gap is within the budget and is retained in turn. -/
inductive Completes (source : HostSource) (index : ZipDirectoryIndex) (budget : ℕ) :
    IndexedRanges → EntryFetch → List RawZipEntry → Prop
  | complete {ix : IndexedRanges} {f f' : EntryFetch} : f.advance ix index = .ok (none, f') →
    Completes source index budget ix f f'.entries
  | need {ix ix' : IndexedRanges} {f f' : EntryFetch} {gap : HostRange}
    {entries : List RawZipEntry} : f.advance ix index = .ok (some gap, f') →
    gap.length ≤ budget → ix.insert gap (source.slice gap) = .ok ix' →
    Completes source index budget ix' f' entries → Completes source index budget ix f entries

variable {entries : List RawZipEntry}

/-- Where more is retained than when a fetch ran alone, it completes with the same entries or
    waits for a gap within the budget. -/
theorem Completes.advance {ix : IndexedRanges} {f : EntryFetch}
    (h : Completes source index budget ix f entries) (hi : ix.Holds source) {jx : IndexedRanges}
    (hj : jx.Holds source) (hsub : ix.Within jx) :
    (∃ f', f.advance jx index = .ok (none, f') ∧ f'.entries = entries) ∨
      ∃ gap f' ix', f.advance jx index = .ok (some gap, f') ∧ gap.length ≤ budget ∧
        ix'.Holds source ∧ ix'.Within jx ∧ Completes source index budget ix' f' entries := by
  induction h with
  | complete hadvance =>
    exact .inl ⟨_, (EntryFetch.advance_mono hi hadvance).1 rfl jx hj hsub, rfl⟩
  | @need ix ix' f f' gap entries hadvance hbudget hinsert hmore ih =>
    obtain ⟨hstops, hsame⟩ := (EntryFetch.advance_mono hi hadvance).2 gap rfl
    by_cases hcovered : ∀ i, gap.Contains i → jx.Covers i
    · -- Others have retained all of the gap.
      obtain ⟨hi', hcovers⟩ := hi.covers_insert hstops.stop_le hinsert
      rw [hsame jx hj hsub]
      refine ih hi' fun i hi => ?_
      rcases (hcovers i).1 hi with hi | hi
      · exact hsub i hi
      · exact hcovered i hi
    · obtain ⟨gap', hgap', hle⟩ := hstops.mono jx hj hsub hcovered
      refine .inr ⟨gap', f', ix, (hsame jx hj hsub).trans hgap', hle.trans hbudget, hi, hsub, ?_⟩
      exact .need ((hsame ix hi fun _ hi => hi).symm.trans hadvance) hbudget hinsert hmore

/-! ## One call -/

/-- An operation that waits for one range. -/
def waiting (revision : ℕ) (r : HostRange) (f : EntryFetch) : PendingOpenTable :=
  ⟨⟨revision, [⟨0, r.offset, r.length⟩], true⟩, [r], f⟩

/-- An operation that has its range. -/
def supplied (revision : ℕ) (r : HostRange) (f : EntryFetch) : PendingOpenTable :=
  ⟨⟨revision, [], false⟩, [r], f⟩

namespace OpenTables

variable {s : OpenTables} {op : PendingOpenTable}

theorem advanceOpenTable_of_none {f : EntryFetch}
    (hadvance : op.fetch.advance s.indexed s.index = .ok (none, f))
    (hwait : op.cursor.awaitingResults = false) (hrevision : op.cursor.revision < maxSafeInteger) :
    ∃ op', s.advanceOpenTable op = .ok (op', .complete f.entries) := by
  rw [advanceOpenTable, hadvance, Result.ok_bind]
  dsimp only
  rw [AdapterOperationCursor.completeRevision_of_lt hwait hrevision]
  exact ⟨_, rfl⟩

theorem advanceOpenTable_of_some {f : EntryFetch} {gap : HostRange}
    (hadvance : op.fetch.advance s.indexed s.index = .ok (some gap, f))
    (hwait : op.cursor.awaitingResults = false) (hrevision : op.cursor.revision < maxSafeInteger)
    (hgap : gap.stop ≤ source.bytes.length) (hbudget : gap.length ≤ s.operationBudgetBytes) :
    s.advanceOpenTable op = .ok (waiting (op.cursor.revision + 1) gap f, .pending) := by
  rw [advanceOpenTable, hadvance, Result.ok_bind]
  dsimp only
  rw [AdapterOperationCursor.issue_singleton hwait hrevision (safe_of_stop_le hgap) hbudget]
  rfl

theorem advanceOpenTable_eq_complete {op' : PendingOpenTable}
    (h : s.advanceOpenTable op = .ok (op', .complete entries)) :
    ∃ f, op.fetch.advance s.indexed s.index = .ok (none, f) ∧ entries = f.entries := by
  obtain ⟨⟨needed, f⟩, hadvance, h⟩ := Result.bind_eq_ok.1 h
  cases needed with
  | none =>
    obtain ⟨_, _, h⟩ := Result.bind_eq_ok.1 h
    cases h
    exact ⟨f, hadvance, rfl⟩
  | some gap =>
    obtain ⟨_, _, h⟩ := Result.bind_eq_ok.1 h
    cases h

theorem advanceOpenTable_eq_pending (hholds : s.indexed.Holds source) {op' : PendingOpenTable}
    (h : s.advanceOpenTable op = .ok (op', .pending)) :
    ∃ gap f, op.fetch.advance s.indexed s.index = .ok (some gap, f) ∧
      gap.length ≤ s.operationBudgetBytes ∧ op' = waiting (op.cursor.revision + 1) gap f := by
  obtain ⟨⟨needed, f⟩, hadvance, h⟩ := Result.bind_eq_ok.1 h
  cases needed with
  | none =>
    obtain ⟨_, _, h⟩ := Result.bind_eq_ok.1 h
    cases h
  | some gap =>
    obtain ⟨cursor, hissue, h⟩ := Result.bind_eq_ok.1 h
    cases h
    have hstop := ((EntryFetch.advance_mono hholds hadvance).2 gap rfl).1.stop_le
    obtain ⟨hbudget, rfl⟩ := AdapterOperationCursor.issue_singleton_eq_ok
      (safe_of_stop_le hstop) hissue
    exact ⟨gap, f, hadvance, hbudget, rfl⟩

end OpenTables

namespace OpenRun

variable {run : OpenRun} {handle revision : ℕ} {r : HostRange} {f : EntryFetch}

/-- The answer to an operation that waits for one range. -/
theorem step_answer (hholds : run.state.indexed.Holds source)
    (hop : get? run.state.operations handle = some (waiting revision r f))
    (hr : r.stop ≤ source.bytes.length) :
    run.step source (.answer handle) =
      match run.state.indexed.insert r (source.slice r) with
      | .error _ =>
        { run with
          state := { run.state with
            operations := insert run.state.operations handle (supplied revision r f) }
          failed := handle :: run.failed }
      | .ok indexed =>
        let applied := { run.state with
          indexed
          operations := erase run.state.operations handle }
        match applied.advanceOpenTable (supplied revision r f) with
        | .error _ =>
          { run with
            state := applied
            failed := handle :: run.failed }
        | .ok (op, .pending) =>
          { run with
            state := { applied with operations := insert applied.operations handle op }
            answered := handle :: run.answered }
        | .ok (_, .complete entries) =>
          { run with
            state := applied
            answered := handle :: run.answered
            completed := (handle, entries) :: run.completed } := by
  have hvalid : (waiting revision r f).cursor.validateResults revision
      (source.answers [r]) = .ok ⟨revision, [], false⟩ :=
    AdapterOperationCursor.validateResults_singleton rfl rfl
      (HostSource.length_slice hr).symm (safe_of_stop_le hr)
  have happly : applyIndexedResults [r] run.state.indexed (source.answers [r]) =
      run.state.indexed.insert r (source.slice r) := hholds.applyIndexedResults_eq r
  rw [step, hop]
  dsimp only
  rw [OpenTables.continueOperation, hop]
  dsimp only
  have hvalid' : AdapterOperationCursor.validateResults (waiting revision r f).cursor
      (waiting revision r f).cursor.revision (source.answers (waiting revision r f).expected) =
      .ok ⟨revision, [], false⟩ := hvalid
  rw [hvalid']
  dsimp only
  rw [OpenTables.continueValidated]
  have happly' : applyIndexedResults ({ waiting revision r f with
      cursor := ⟨revision, [], false⟩ } : PendingOpenTable).expected run.state.indexed
      (source.answers (waiting revision r f).expected) =
      run.state.indexed.insert r (source.slice r) := happly
  rw [happly']
  cases hinsert : run.state.indexed.insert r (source.slice r) with
  | error e => rfl
  | ok indexed =>
    have hsupplied : ({ waiting revision r f with cursor := ⟨revision, [], false⟩ } :
        PendingOpenTable) = supplied revision r f := rfl
    rw [hsupplied]
    dsimp only
    rcases OpenTables.advanceOpenTable _ (supplied revision r f) with e | ⟨op, _ | entries⟩ <;> rfl

theorem step_answer_of_none (h : get? run.state.operations handle = none) :
    run.step source (.answer handle) = run := by
  rw [step, h]

/-- An operation that was stranded refuses its answer. -/
theorem step_answer_of_stranded {op : PendingOpenTable}
    (hop : get? run.state.operations handle = some op) (hwait : op.cursor.awaitingResults = false) :
    run.step source (.answer handle) = { run with failed := handle :: run.failed } := by
  obtain ⟨e, he⟩ := @AdapterOperationCursor.validateResults_of_consumed _ op.cursor.revision
    (source.answers op.expected) hwait
  rw [step, hop]
  dsimp only
  rw [OpenTables.continueOperation, hop]
  dsimp only
  rw [he]

/-- The start of an operation that gets a handle. -/
theorem step_start {paths : List String} (hspace : run.state.nextOperation < u32Max) :
    run.step source (.start paths) =
      let started := { run.state with nextOperation := run.state.nextOperation + 1 }
      match started.advanceOpenTable { fetch := ⟨paths, run.state.workbookEntries⟩ } with
      | .error _ =>
        { run with
          state := started
          refused := paths :: run.refused }
      | .ok (op, .pending) =>
        { run with
          state := { started with
            operations := insert run.state.operations run.state.nextOperation op }
          started := (run.state.nextOperation, paths) :: run.started }
      | .ok (_, .complete entries) =>
        { run with
          state := started
          started := (run.state.nextOperation, paths) :: run.started
          completed := (run.state.nextOperation, entries) :: run.completed } := by
  rw [step, OpenTables.beginOpenTable, checkedAdd_of_le hspace]
  dsimp only
  rcases OpenTables.advanceOpenTable _ { fetch := ⟨paths, run.state.workbookEntries⟩ } with
    e | ⟨op, _ | entries⟩ <;> rfl

/-- The start of an operation for which there is no handle. -/
theorem step_start_of_full {paths : List String} (hspace : ¬run.state.nextOperation < u32Max) :
    run.step source (.start paths) = { run with refused := paths :: run.refused } := by
  rw [step, OpenTables.beginOpenTable, checkedAdd, if_neg (by omega)]

theorem steps_cons (run : OpenRun) (event : OpenEvent) (events : List OpenEvent) :
    run.steps source (event :: events) = (run.step source event).steps source events := rfl

/-- What a run has logged stays. -/
theorem step_mono (run : OpenRun) (event : OpenEvent) :
    run.failed ⊆ (run.step source event).failed ∧
      run.started ⊆ (run.step source event).started := by
  cases event with
  | start paths =>
    rw [step]
    rcases run.state.beginOpenTable paths with ⟨state, _ | ⟨handle, _ | entries⟩⟩ <;> simp
  | answer handle =>
    rw [step]
    cases get? run.state.operations handle with
    | none => exact ⟨List.Subset.refl _, List.Subset.refl _⟩
    | some op =>
      dsimp only
      rcases run.state.continueOperation handle op.cursor.revision
        (source.answers op.expected) with ⟨state, _ | _ | entries⟩ <;> simp

theorem steps_mono (run : OpenRun) (events : List OpenEvent) :
    run.failed ⊆ (run.steps source events).failed ∧
      run.started ⊆ (run.steps source events).started := by
  induction events generalizing run with
  | nil => exact ⟨List.Subset.refl _, List.Subset.refl _⟩
  | cons event events ih =>
    obtain ⟨hfailed, hstarted⟩ := @step_mono source run event
    obtain ⟨hfailed', hstarted'⟩ := ih (run.step source event)
    exact ⟨List.Subset.trans hfailed hfailed', List.Subset.trans hstarted hstarted'⟩

/-- Answers to an operation that is gone change nothing. -/
theorem steps_replicate_of_none (h : get? run.state.operations handle = none) (n : ℕ) :
    run.steps source (List.replicate n (.answer handle)) = run := by
  induction n with
  | zero => rfl
  | succ n ih => rw [List.replicate_succ, steps, List.foldl_cons, step_answer_of_none h]; exact ih

/-- A lone operation that waits completes by a fetch that completes. -/
theorem completes_of_waiting (hholds : run.state.indexed.Holds source)
    (hop : get? run.state.operations handle = some (waiting revision r f))
    (hr : r.stop ≤ source.bytes.length) (hcompleted : run.completed = []) {n : ℕ}
    (hfailed : (run.steps source (List.replicate n (.answer handle))).failed = [])
    (hdone : (run.steps source (List.replicate n (.answer handle))).completed =
      [(handle, entries)]) :
    ∃ ix, run.state.indexed.insert r (source.slice r) = .ok ix ∧
      Completes source run.state.index run.state.operationBudgetBytes ix f entries := by
  induction n generalizing run revision r f with
  | zero =>
    rw [List.replicate_zero, steps, List.foldl_nil, hcompleted] at hdone
    cases hdone
  | succ n ih =>
    rw [List.replicate_succ, steps_cons] at hfailed hdone
    have hnot : handle ∉ (run.step source (.answer handle)).failed := by
      intro hmem
      have hmem' := (@steps_mono source _
        (List.replicate n (.answer handle))).1 hmem
      rw [hfailed] at hmem'
      cases hmem'
    have hstep := step_answer hholds hop hr
    cases hinsert : run.state.indexed.insert r (source.slice r) with
    | error e =>
      rw [hstep, hinsert] at hnot
      exact (hnot List.mem_cons_self).elim
    | ok ix =>
      obtain ⟨hix, _⟩ := hholds.covers_insert hr hinsert
      refine ⟨ix, rfl, ?_⟩
      rw [hinsert] at hstep
      dsimp only at hstep
      cases hadvance : OpenTables.advanceOpenTable { run.state with
          indexed := ix
          operations := erase run.state.operations handle } (supplied revision r f) with
      | error e =>
        rw [hstep, hadvance] at hnot
        exact (hnot List.mem_cons_self).elim
      | ok advanced =>
        obtain ⟨op, _ | done⟩ := advanced
        · -- The operation waits for its next gap.
          rw [hadvance] at hstep
          rw [hstep] at hfailed hdone
          obtain ⟨gap, f', hf', hbudget, rfl⟩ :=
            @OpenTables.advanceOpenTable_eq_pending source _ _ hix _ hadvance
          have hstop := ((EntryFetch.advance_mono hix hf').2 gap rfl).1.stop_le
          obtain ⟨ix', hinsert', hmore⟩ := ih (by exact hix) (by exact get?_insert_self) hstop
            (by exact hcompleted) hfailed hdone
          exact .need hf' hbudget hinsert' hmore
        · rw [hadvance] at hstep
          rw [hstep, steps_replicate_of_none get?_erase_self] at hdone
          obtain ⟨f', hf', rfl⟩ := OpenTables.advanceOpenTable_eq_complete hadvance
          rw [hcompleted] at hdone
          cases hdone
          exact .complete hf'

end OpenRun

/-- Paths that can be fetched alone: there is a handle for them, and the fetch completes. -/
theorem OpenTables.CompletesAlone.completes {s : OpenTables} (hholds : s.indexed.Holds source)
    (hidle : s.operations = []) {paths : List String}
    (h : s.CompletesAlone source paths entries) :
    s.nextOperation < u32Max ∧ Completes source s.index s.operationBudgetBytes s.indexed
      ⟨paths, s.workbookEntries⟩ entries := by
  obtain ⟨n, hfailed, hdone⟩ := h
  have hnone : get? s.operations s.nextOperation = none := by
    rw [hidle]
    rfl
  rw [OpenRun.steps_cons] at hfailed hdone
  by_cases hspace : s.nextOperation < u32Max
  · refine ⟨hspace, ?_⟩
    have hstep := @OpenRun.step_start source { state := s } paths hspace
    dsimp only at hstep
    cases hadvance : OpenTables.advanceOpenTable
        { s with nextOperation := s.nextOperation + 1 } { fetch := ⟨paths, s.workbookEntries⟩ } with
    | error e =>
      rw [hstep, hadvance, OpenRun.steps_replicate_of_none hnone] at hdone
      cases hdone
    | ok advanced =>
      obtain ⟨op, _ | done⟩ := advanced
      · rw [hstep, hadvance] at hfailed hdone
        obtain ⟨gap, f', hf', hbudget, rfl⟩ :=
          @advanceOpenTable_eq_pending source _ _ hholds _ hadvance
        have hstop := ((EntryFetch.advance_mono hholds hf').2 gap rfl).1.stop_le
        obtain ⟨ix, hinsert, hmore⟩ := OpenRun.completes_of_waiting hholds get?_insert_self hstop
          rfl hfailed hdone
        exact .need hf' hbudget hinsert hmore
      · rw [hstep, hadvance, OpenRun.steps_replicate_of_none hnone] at hdone
        obtain ⟨f', hf', rfl⟩ := advanceOpenTable_eq_complete hadvance
        cases hdone
        exact .complete hf'
  · rw [OpenRun.step_start_of_full hspace, OpenRun.steps_replicate_of_none hnone] at hdone
    cases hdone

end Tabulark.Excel
