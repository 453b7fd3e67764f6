import Tabulark.Excel.OpenTable

/-!
# Opening worksheets at the same time

`openRuns_asAlone_iff` says when none of the operations that open worksheets of one
package disturbs another: no answer may come for a range that others have
retained in the meantime, unless as a segment of its own. Every operation
makes progress on its own slot of the state (`Progress`), whatever the others do.
-/

namespace Tabulark.Excel

open OrderedMap Segments

/-! ## Undisturbed runs -/

namespace OpenRun

/-- An operation of a run from `s` that completes alone with these entries. -/
def FetchesAlone (run : OpenRun) (s : OpenTables) (source : HostSource) (handle : ℕ)
    (entries : List RawZipEntry) : Prop :=
  ∃ paths, (handle, paths) ∈ run.started ∧ s.CompletesAlone source paths entries

/-- In a run from `s` the operations go on as if each were alone: a start is refused only for
    want of a handle, no answer fails, and after at most an answer for each byte of the source an
    operation has the same entries. -/
structure AsAlone (run : OpenRun) (s : OpenTables) (source : HostSource) : Prop where
  starts : ∀ paths ∈ run.refused, (∃ entries, s.CompletesAlone source paths entries) →
    u32Max ≤ run.state.nextOperation
  succeeds : ∀ handle entries, run.FetchesAlone s source handle entries → handle ∉ run.failed
  completes : ∀ handle entries, run.FetchesAlone s source handle entries →
    (handle, entries) ∈ run.completed ∨
      ∃ op, get? run.state.operations handle = some op ∧ op.cursor.awaitingResults = true
  same : ∀ handle entries entries', run.FetchesAlone s source handle entries →
    (handle, entries') ∈ run.completed → entries' = entries
  bounded : ∀ handle, run.answered.count handle ≤ source.bytes.length

end OpenRun

/-- Of the ranges that an operation waits for nothing is retained, or exactly the range is, as a
    segment of its own. -/
def PendingOpenTable.Fits (op : PendingOpenTable) (indexed : IndexedRanges)
    (source : HostSource) : Prop :=
  ∀ r ∈ op.expected, indexed.Misses r ∨ (r.offset, source.slice r) ∈ indexed.ranges

namespace OpenRun

/-- Where an operation that could complete alone is answered, its ranges fit. -/
def Fitting (run : OpenRun) (s : OpenTables) (source : HostSource) : OpenEvent → Prop
  | .start _ => True
  | .answer handle => ∀ op entries, get? run.state.operations handle = some op →
      run.FetchesAlone s source handle entries → op.Fits run.state.indexed source

/-- Every answer of a run fits. -/
def AllFitting (s : OpenTables) (source : HostSource) : OpenRun → List OpenEvent → Prop
  | _, [] => True
  | run, event :: events => run.Fitting s source event ∧
      AllFitting s source (run.step source event) events

end OpenRun

/-! ## Progress -/

variable {source : HostSource} {index : ZipDirectoryIndex} {budget : ℕ}

theorem IndexedRanges.Holds.retained_mono {ix jx : IndexedRanges} (hi : ix.Holds source)
    (hj : jx.Holds source) (h : ix.Within jx) : ix.retainedBytes ≤ jx.retainedBytes := by
  rw [hi.retained, hj.retained]
  exact count_mono h

/-- An operation that waits after some answers: nothing of its range was retained when it was
    issued, and where it completes alone, it goes on with a fetch that completes. -/
structure Waits (source : HostSource) (index : ZipDirectoryIndex) (budget : ℕ)
    (alone : List RawZipEntry → Prop) (indexed : IndexedRanges) (answers : ℕ)
    (r : HostRange) (f : EntryFetch) : Prop where
  stop_le : r.stop ≤ source.bytes.length
  issued : ∃ ix : IndexedRanges, ix.Holds source ∧ ix.Within indexed ∧ ix.Misses r ∧
    answers ≤ ix.retainedBytes
  completes : ∀ entries, alone entries → ∃ ix : IndexedRanges, ix.Holds source ∧
    ix.Within indexed ∧ Completes source index budget ix f entries

/-- The slot of an operation: it waits, it was stranded by an answer that failed, or it is gone;
    alone, it would have had the same entries. -/
structure Progress (source : HostSource) (index : ZipDirectoryIndex) (budget : ℕ)
    (alone : List RawZipEntry → Prop) (indexed : IndexedRanges) (slot : Option PendingOpenTable)
    (answers : ℕ) (failed : Prop) (completed : List RawZipEntry → Prop) : Prop where
  answers_le : answers ≤ indexed.retainedBytes
  waits : ∀ op, slot = some op → op.cursor.awaitingResults = false ∧ failed ∨
    ∃ r f, op = waiting (answers + 1) r f ∧ Waits source index budget alone indexed answers r f
  ended : slot = none → ∀ entries, alone entries → failed ∨ completed entries
  same : ∀ entries entries', alone entries → completed entries' → entries' = entries

variable {alone : List RawZipEntry → Prop} {ix jx : IndexedRanges} {answers : ℕ}

variable {f : EntryFetch} {r : HostRange}

theorem Waits.mono (h : Waits source index budget alone ix answers r f) (hsub : ix.Within jx) :
    Waits source index budget alone jx answers r f := by
  refine ⟨h.stop_le, ?_, fun entries halone => ?_⟩
  · obtain ⟨ix', hholds, hsub', hissued⟩ := h.issued
    exact ⟨ix', hholds, fun i hi => hsub i (hsub' i hi), hissued⟩
  · obtain ⟨ix', hholds, hsub', hmore⟩ := h.completes entries halone
    exact ⟨ix', hholds, fun i hi => hsub i (hsub' i hi), hmore⟩

theorem Waits.imp {alone' : List RawZipEntry → Prop}
    (h : Waits source index budget alone ix answers r f)
    (himp : ∀ entries, alone' entries → alone entries) :
    Waits source index budget alone' ix answers r f :=
  ⟨h.stop_le, h.issued, fun entries halone => h.completes entries (himp entries halone)⟩

theorem Progress.mono {slot : Option PendingOpenTable} {failed : Prop}
    {completed : List RawZipEntry → Prop}
    (h : Progress source index budget alone ix slot answers failed completed)
    (hi : ix.Holds source) (hj : jx.Holds source) (hsub : ix.Within jx) :
    Progress source index budget alone jx slot answers failed completed := by
  refine ⟨h.answers_le.trans (hi.retained_mono hj hsub), fun op hop => ?_, h.ended, h.same⟩
  rcases h.waits op hop with hstranded | ⟨r, f, rfl, hwaits⟩
  · exact .inl hstranded
  · exact .inr ⟨r, f, rfl, hwaits.mono hsub⟩

/-- An answer that is taken counts: what was retained for it was not retained before. -/
theorem Waits.answers_lt (h : Waits source index budget alone ix answers r f) (hj : jx.Holds source)
    (hcovers : ∀ i, jx.Covers i ↔ ix.Covers i ∨ r.Contains i) : answers < jx.retainedBytes := by
  obtain ⟨kx, hk, hsub, hmisses, hle⟩ := h.issued
  obtain ⟨kx', _, hk', hretained, hcovers'⟩ := hk.insert_of_misses h.stop_le hmisses
  have hmono := hk'.retained_mono hj fun i hi =>
    (hcovers i).2 (((hcovers' i).1 hi).imp_left (hsub i))
  have hpos := r.pos
  omega

/-- A fetch goes on as it would alone. -/
theorem OpenTables.advanceOpenTable_progress {s : OpenTables} {op : PendingOpenTable}
    (hholds : s.indexed.Holds source) (hwait : op.cursor.awaitingResults = false)
    (hrevision : op.cursor.revision = answers) (hanswers : answers ≤ s.indexed.retainedBytes)
    (halone : ∀ entries, alone entries → ∃ ix : IndexedRanges, ix.Holds source ∧
      ix.Within s.indexed ∧ Completes source s.index s.operationBudgetBytes ix op.fetch entries) :
    (∀ op', s.advanceOpenTable op = .ok (op', .pending) → ∃ r f, op' = waiting (answers + 1) r f ∧
        Waits source s.index s.operationBudgetBytes alone s.indexed answers r f) ∧
      (∀ op' entries' entries, s.advanceOpenTable op = .ok (op', .complete entries') →
        alone entries → entries' = entries) ∧
      ∀ e entries, s.advanceOpenTable op = .error e → ¬alone entries := by
  have hlt : op.cursor.revision < maxSafeInteger := by
    have hmax : maxRangeSourceBytes < maxSafeInteger := by decide
    have hretained := hholds.retained_le
    have hlength := source.length_le
    omega
  refine ⟨fun op' hop' => ?_, fun op' entries' entries hop' hentries => ?_,
    fun e entries he hentries => ?_⟩
  · obtain ⟨gap, f, hadvance, hbudget, rfl⟩ := advanceOpenTable_eq_pending hholds hop'
    obtain ⟨hstops, _⟩ := (EntryFetch.advance_mono hholds hadvance).2 gap rfl
    refine ⟨gap, f, by rw [hrevision], hstops.stop_le,
      ⟨s.indexed, hholds, fun _ hi => hi, hstops.misses, hanswers⟩, fun entries hentries => ?_⟩
    obtain ⟨ix, hix, hsub, hcompletes⟩ := halone entries hentries
    rcases hcompletes.advance hix hholds hsub with ⟨f', hf', _⟩ | ⟨gap', f', ix', hf', hmore⟩
    · rw [hadvance] at hf'
      cases hf'
    · rw [hadvance] at hf'
      cases hf'
      exact ⟨ix', hmore.2.1, hmore.2.2.1, hmore.2.2.2⟩
  · obtain ⟨f, hadvance, rfl⟩ := advanceOpenTable_eq_complete hop'
    obtain ⟨ix, hix, hsub, hcompletes⟩ := halone entries hentries
    rcases hcompletes.advance hix hholds hsub with ⟨f', hf', rfl⟩ | ⟨gap', f', ix', hf', _⟩
    · rw [hadvance] at hf'
      cases hf'
      rfl
    · rw [hadvance] at hf'
      cases hf'
  · obtain ⟨ix, hix, hsub, hcompletes⟩ := halone entries hentries
    rcases hcompletes.advance hix hholds hsub with ⟨f', hf', _⟩ | ⟨gap', f', ix', hf', hbudget, _⟩
    · obtain ⟨op', hop'⟩ := advanceOpenTable_of_none hf' hwait hlt
      rw [he] at hop'
      cases hop'
    · have hstop := ((EntryFetch.advance_mono hholds hf').2 gap' rfl).1.stop_le
      rw [advanceOpenTable_of_some hf' hwait hlt hstop hbudget] at he
      cases he

/-! ## Steady runs -/

namespace OpenRun

variable {s : OpenTables} {run run' : OpenRun} {handle : ℕ}

/-- The slot of an operation in a run. -/
def Progresses (run : OpenRun) (s : OpenTables) (source : HostSource) (handle : ℕ) : Prop :=
  Progress source s.index s.operationBudgetBytes (run.FetchesAlone s source handle)
    run.state.indexed (get? run.state.operations handle) (run.answered.count handle)
    (handle ∈ run.failed) fun entries => (handle, entries) ∈ run.completed

/-- A call did not touch the slot of an operation. -/
structure SameSlot (run run' : OpenRun) (handle : ℕ) : Prop where
  slot : get? run'.state.operations handle = get? run.state.operations handle
  answers : run'.answered.count handle = run.answered.count handle
  started : ∀ paths, (handle, paths) ∈ run'.started ↔ (handle, paths) ∈ run.started
  failed : handle ∈ run'.failed ↔ handle ∈ run.failed
  completed : ∀ entries, (handle, entries) ∈ run'.completed ↔ (handle, entries) ∈ run.completed

theorem SameSlot.fetchesAlone (h : SameSlot run run' handle) :
    run'.FetchesAlone s source handle = run.FetchesAlone s source handle := by
  funext entries
  simp only [FetchesAlone, h.started]

theorem SameSlot.progresses (h : SameSlot run run' handle) (hp : run.Progresses s source handle)
    (hi : run.state.indexed.Holds source) (hj : run'.state.indexed.Holds source)
    (hsub : run.state.indexed.Within run'.state.indexed) : run'.Progresses s source handle := by
  have hmono := Progress.mono hp hi hj hsub
  rw [Progresses, h.fetchesAlone, h.slot, h.answers]
  simp only [h.failed, h.completed]
  exact hmono

/-- The state of a run from `s`: it holds the source, has the directory of `s`, and every
    operation makes progress on its slot. -/
structure Steady (s : OpenTables) (source : HostSource) (run : OpenRun) : Prop where
  idle : s.operations = []
  holds : run.state.indexed.Holds source
  within : s.indexed.Within run.state.indexed
  package : run.state.index = s.index ∧ run.state.workbookEntries = s.workbookEntries ∧
    run.state.operationBudgetBytes = s.operationBudgetBytes
  starts : ∀ paths ∈ run.refused, (∃ entries, s.CompletesAlone source paths entries) →
    u32Max ≤ run.state.nextOperation
  fresh : ∀ handle, run.state.nextOperation ≤ handle →
    SameSlot { state := s } run handle
  progress : ∀ handle, run.Progresses s source handle

theorem SameSlot.refl (run : OpenRun) (handle : ℕ) : SameSlot run run handle :=
  ⟨rfl, rfl, fun _ => .rfl, .rfl, fun _ => .rfl⟩

/-- A run starts steady, with no operation. -/
theorem steady_start (hholds : s.indexed.Holds source) (hidle : s.operations = []) :
    Steady s source { state := s } where
  idle := hidle
  holds := hholds
  within _ hi := hi
  package := ⟨rfl, rfl, rfl⟩
  starts _ hpaths := absurd hpaths List.not_mem_nil
  fresh handle _ := .refl _ handle
  progress handle := by
    have hnone : get? s.operations handle = none := by
      rw [hidle]
      rfl
    refine ⟨Nat.zero_le _, fun op hop => ?_, fun _ entries halone => ?_, fun _ entries' _ h => ?_⟩
    · rw [hnone] at hop
      cases hop
    · obtain ⟨paths, hpaths, _⟩ := halone
      cases hpaths
    · cases h

/-- A call that touches one slot keeps a run steady if that slot makes progress. -/
theorem Steady.next (h : Steady s source run) (hholds : run'.state.indexed.Holds source)
    (hsub : run.state.indexed.Within run'.state.indexed)
    (hpackage : run'.state.index = run.state.index ∧
      run'.state.workbookEntries = run.state.workbookEntries ∧
      run'.state.operationBudgetBytes = run.state.operationBudgetBytes)
    (hstarts : run'.refused = run.refused)
    (hnext : run.state.nextOperation ≤ run'.state.nextOperation)
    (hlt : handle < run'.state.nextOperation)
    (hsame : ∀ other, other ≠ handle → SameSlot run run' other)
    (hprogress : run'.Progresses s source handle) : Steady s source run' where
  idle := h.idle
  holds := hholds
  within i hi := hsub i (h.within i hi)
  package := by rw [hpackage.1, hpackage.2.1, hpackage.2.2]; exact h.package
  starts paths hpaths halone := (h.starts paths (hstarts ▸ hpaths) halone).trans hnext
  fresh other hle := by
    have hfresh := h.fresh other (hnext.trans hle)
    have hother := hsame other (hlt.trans_le hle).ne'
    exact ⟨hother.slot.trans hfresh.slot, hother.answers.trans hfresh.answers,
      fun paths => (hother.started paths).trans (hfresh.started paths),
      hother.failed.trans hfresh.failed,
      fun entries => (hother.completed entries).trans (hfresh.completed entries)⟩
  progress other := by
    by_cases heq : other = handle
    · rw [heq]
      exact hprogress
    · exact (hsame other heq).progresses (h.progress other) h.holds hholds hsub

/-- What a fetch needs to go on as it would alone, when it starts. -/
theorem Steady.completes (h : Steady s source run) (hholds : s.indexed.Holds source)
    {paths : List String} {entries : List RawZipEntry}
    (halone : s.CompletesAlone source paths entries) :
    ∃ ix : IndexedRanges, ix.Holds source ∧ ix.Within run.state.indexed ∧
      Completes source run.state.index run.state.operationBudgetBytes ix
        ⟨paths, run.state.workbookEntries⟩ entries := by
  refine ⟨s.indexed, hholds, h.within, ?_⟩
  rw [h.package.1, h.package.2.1, h.package.2.2]
  exact (halone.completes hholds h.idle).2

/-- A start keeps a run steady. -/
theorem Steady.start (h : Steady s source run) (hholds : s.indexed.Holds source)
    (paths : List String) : Steady s source (run.step source (.start paths)) := by
  by_cases hspace : run.state.nextOperation < u32Max
  · -- Nothing is known of the next operation handle.
    have hfresh := h.fresh _ le_rfl
    have hnone : get? run.state.operations run.state.nextOperation = none := by
      rw [hfresh.slot, h.idle]
      rfl
    have hzero : run.answered.count run.state.nextOperation = 0 := hfresh.answers
    have hunstarted : ∀ paths, (run.state.nextOperation, paths) ∉ run.started :=
      fun paths hmem => List.not_mem_nil ((hfresh.started paths).1 hmem)
    have huncompleted : ∀ entries, (run.state.nextOperation, entries) ∉ run.completed :=
      fun entries hmem => List.not_mem_nil ((hfresh.completed entries).1 hmem)
    obtain ⟨hpending, hcomplete, herror⟩ := @OpenTables.advanceOpenTable_progress source
      (s.CompletesAlone source paths) 0
      { run.state with nextOperation := run.state.nextOperation + 1 }
      { fetch := ⟨paths, run.state.workbookEntries⟩ } h.holds rfl rfl (Nat.zero_le _)
      fun entries halone => h.completes hholds halone
    have hsingle : ∀ run' : OpenRun,
        run'.started = (run.state.nextOperation, paths) :: run.started →
        ∀ entries, run'.FetchesAlone s source run.state.nextOperation entries →
          s.CompletesAlone source paths entries := by
      rintro run' hstarted entries ⟨paths', hmem, halone⟩
      rw [hstarted] at hmem
      rcases List.mem_cons.1 hmem with heq | hmem
      · cases heq
        exact halone
      · exact absurd hmem (hunstarted _)
    rw [step_start hspace]
    dsimp only
    cases hadvance : OpenTables.advanceOpenTable
        { run.state with nextOperation := run.state.nextOperation + 1 }
        { fetch := ⟨paths, run.state.workbookEntries⟩ } with
    | error e =>
      refine ⟨h.idle, h.holds, h.within, h.package, fun paths' hpaths' halone => ?_,
        fun other hle => ?_, h.progress⟩
      · rcases List.mem_cons.1 hpaths' with rfl | hpaths'
        · obtain ⟨entries, halone⟩ := halone
          exact absurd halone (herror e entries hadvance)
        · exact (h.starts paths' hpaths' halone).trans (Nat.le_succ _)
      · have hother := h.fresh other ((Nat.le_succ _).trans hle)
        exact ⟨hother.slot, hother.answers, hother.started, hother.failed, hother.completed⟩
    | ok advanced =>
      obtain ⟨op, _ | entries⟩ := advanced
      · obtain ⟨r, f, rfl, hwaits⟩ := hpending op hadvance
        refine h.next h.holds (fun _ hi => hi) ⟨rfl, rfl, rfl⟩ rfl (Nat.le_succ _)
          (Nat.lt_succ_self _)
          (fun other hne => ⟨get?_insert_of_ne hne, rfl, by simp [hne], .rfl, fun _ => .rfl⟩) ?_
        refine ⟨(h.progress _).answers_le, fun op hop => ?_, fun hop => ?_,
          fun entries entries' _ hmem => absurd hmem (huncompleted entries')⟩
        · rw [get?_insert_self] at hop
          cases hop
          refine .inr ⟨r, f, congrArg (waiting · r f) (congrArg (· + 1) hzero.symm), ?_⟩
          rw [← hzero, h.package.1, h.package.2.2] at hwaits
          exact hwaits.imp (hsingle _ (by rfl))
        · rw [get?_insert_self] at hop
          cases hop
      · refine h.next h.holds (fun _ hi => hi) ⟨rfl, rfl, rfl⟩ rfl (Nat.le_succ _)
          (Nat.lt_succ_self _)
          (fun other hne => ⟨rfl, rfl, by simp [hne], .rfl, by simp [hne]⟩) ?_
        refine ⟨(h.progress _).answers_le, fun op hop => ?_, fun _ entries' halone => ?_,
          fun entries' entries'' halone hmem => ?_⟩
        · rw [hnone] at hop
          cases hop
        · have hsame := hcomplete op entries entries' hadvance (hsingle _ (by rfl) _ halone)
          exact .inr (hsame ▸ List.mem_cons_self)
        · rcases List.mem_cons.1 hmem with heq | hmem
          · cases heq
            exact hcomplete op entries entries' hadvance (hsingle _ (by rfl) _ halone)
          · exact absurd hmem (huncompleted entries'')
  · rw [step_start_of_full hspace]
    refine ⟨h.idle, h.holds, h.within, h.package, fun paths' hpaths' halone => not_lt.1 hspace,
      fun other hle => ?_, h.progress⟩
    have hother := h.fresh other hle
    exact ⟨hother.slot, hother.answers, hother.started, hother.failed, hother.completed⟩

/-- An answer keeps a run steady; it fails only if its range did not fit, or if the operation
    could not complete alone. -/
theorem Steady.answer (h : Steady s source run) (handle : ℕ) :
    Steady s source (run.step source (.answer handle)) ∧
      ∀ op entries, get? run.state.operations handle = some op →
        run.FetchesAlone s source handle entries → handle ∉ run.failed →
          (handle ∉ (run.step source (.answer handle)).failed ↔
            op.Fits run.state.indexed source) := by
  cases hop : get? run.state.operations handle with
  | none =>
    rw [step_answer_of_none hop]
    exact ⟨h, nofun⟩
  | some op =>
    have hlt : handle < run.state.nextOperation := by
      by_contra hle
      rw [(h.fresh handle (not_lt.1 hle)).slot, h.idle] at hop
      cases hop
    have hprogress := h.progress handle
    rcases hprogress.waits op hop with ⟨hwait, hfailed⟩ | ⟨r, f, rfl, hwaits⟩
    · rw [step_answer_of_stranded hop hwait]
      refine ⟨?_, fun _ _ _ _ hnot => absurd hfailed hnot⟩
      refine h.next h.holds (fun _ hi => hi) ⟨rfl, rfl, rfl⟩ rfl le_rfl hlt
        (fun other hne => ⟨rfl, rfl, fun _ => .rfl, by simp [hne], fun _ => .rfl⟩) ?_
      refine ⟨hprogress.answers_le, fun op' hop' => ?_, fun hnone => ?_, hprogress.same⟩
      · rw [hop] at hop'
        cases hop'
        exact .inl ⟨hwait, List.mem_cons_self⟩
      · rw [hop] at hnone
        cases hnone
    · have hinsertIff := h.holds.insert_eq_ok hwaits.stop_le
      have hfits : (waiting (run.answered.count handle + 1) r f).Fits run.state.indexed source ↔
          ∃ ix, run.state.indexed.insert r (source.slice r) = .ok ix := by
        rw [hinsertIff, PendingOpenTable.Fits]
        exact List.forall_mem_singleton
      rw [step_answer h.holds hop hwaits.stop_le]
      cases hinsert : run.state.indexed.insert r (source.slice r) with
      | error e =>
        -- The operation is stranded.
        refine ⟨?_, fun op' entries hop' _ _ => ?_⟩
        · refine h.next h.holds (fun _ hi => hi) ⟨rfl, rfl, rfl⟩ rfl le_rfl hlt
            (fun other hne => ⟨get?_insert_of_ne hne, rfl, fun _ => .rfl, by simp [hne],
              fun _ => .rfl⟩) ?_
          refine ⟨hprogress.answers_le, fun op' hop' => ?_, fun hnone => ?_, hprogress.same⟩
          · rw [get?_insert_self] at hop'
            cases hop'
            exact .inl ⟨rfl, List.mem_cons_self⟩
          · rw [get?_insert_self] at hnone
            cases hnone
        · cases hop'
          rw [hfits, hinsert]
          exact iff_of_false (not_not.2 List.mem_cons_self) (by rintro ⟨_, ⟨⟩⟩)
      | ok indexed =>
        obtain ⟨hholds, hcovers⟩ := h.holds.covers_insert hwaits.stop_le hinsert
        have hsub : run.state.indexed.Within indexed := fun i hi => (hcovers i).2 (.inl hi)
        obtain ⟨hpending, hcomplete, herror⟩ := @OpenTables.advanceOpenTable_progress source
          (run.FetchesAlone s source handle) (run.answered.count handle + 1)
          { run.state with
            indexed
            operations := erase run.state.operations handle }
          (supplied (run.answered.count handle + 1) r f) hholds rfl rfl
          (hwaits.answers_lt hholds hcovers) (by
            intro entries halone
            obtain ⟨ix, hix, hsub', hcompletes⟩ := hwaits.completes entries halone
            refine ⟨ix, hix, fun i hi => hsub i (hsub' i hi), ?_⟩
            dsimp only
            rw [h.package.1, h.package.2.2]
            exact hcompletes)
        dsimp only
        cases hadvance : OpenTables.advanceOpenTable { run.state with
            indexed
            operations := erase run.state.operations handle }
            (supplied (run.answered.count handle + 1) r f) with
        | error e =>
          refine ⟨?_, fun op' entries _ halone _ => absurd halone (herror e entries hadvance)⟩
          refine h.next hholds hsub ⟨rfl, rfl, rfl⟩ rfl le_rfl hlt
            (fun other hne => ⟨get?_erase_of_ne hne, rfl, fun _ => .rfl, by simp [hne],
              fun _ => .rfl⟩) ?_
          refine ⟨hprogress.answers_le.trans (h.holds.retained_mono hholds hsub),
            fun op' hop' => ?_,
            fun _ entries halone => absurd halone (herror e entries hadvance), hprogress.same⟩
          rw [get?_erase_self] at hop'
          cases hop'
        | ok advanced =>
          have hcount : (handle :: run.answered).count handle = run.answered.count handle + 1 :=
            List.count_cons_self
          obtain ⟨op', _ | entries⟩ := advanced
          · refine ⟨?_, fun op' entries hop' _ hnot => ?_⟩
            · obtain ⟨r', f', rfl, hwaits'⟩ := hpending op' hadvance
              refine h.next hholds hsub ⟨rfl, rfl, rfl⟩ rfl le_rfl hlt
                (fun other hne => ⟨by simp [get?_insert_of_ne hne, get?_erase_of_ne hne],
                  List.count_cons_of_ne hne.symm, fun _ => .rfl, .rfl, fun _ => .rfl⟩) ?_
              refine ⟨?_, fun op' hop' => ?_, fun hnone => ?_, hprogress.same⟩
              · exact hcount.trans_le (hwaits.answers_lt hholds hcovers)
              · rw [get?_insert_self] at hop'
                cases hop'
                refine .inr ⟨r', f', by rw [hcount], ?_⟩
                rw [← hcount, h.package.1, h.package.2.2] at hwaits'
                exact hwaits'
              · rw [get?_insert_self] at hnone
                cases hnone
            · cases hop'
              rw [hfits, hinsert]
              exact iff_of_true hnot ⟨_, rfl⟩
          · refine ⟨?_, fun op' entries hop' _ hnot => ?_⟩
            · refine h.next hholds hsub ⟨rfl, rfl, rfl⟩ rfl le_rfl hlt
                (fun other hne => ⟨get?_erase_of_ne hne, List.count_cons_of_ne hne.symm,
                  fun _ => .rfl, .rfl, by simp [hne]⟩) ?_
              refine ⟨?_, fun op' hop' => ?_, fun _ entries' halone => ?_,
                fun entries' entries'' halone hmem => ?_⟩
              · exact hcount.trans_le (hwaits.answers_lt hholds hcovers)
              · rw [get?_erase_self] at hop'
                cases hop'
              · obtain rfl := hcomplete op' entries entries' hadvance halone
                exact .inr List.mem_cons_self
              · rcases List.mem_cons.1 hmem with heq | hmem
                · cases heq
                  exact hcomplete op' entries entries' hadvance halone
                · exact hprogress.same entries' entries'' halone hmem
            · cases hop'
              rw [hfits, hinsert]
              exact iff_of_true hnot ⟨_, rfl⟩

/-- No operation that could complete alone has failed. -/
def Clean (run : OpenRun) (s : OpenTables) (source : HostSource) : Prop :=
  ∀ handle entries, run.FetchesAlone s source handle entries → handle ∉ run.failed

/-- A steady run where nothing has failed goes on as if each operation were alone. -/
theorem Steady.isAlone_iff (h : Steady s source run) :
    run.AsAlone s source ↔ run.Clean s source := by
  refine ⟨fun halone => halone.succeeds, fun hclean => ?_⟩
  refine ⟨h.starts, hclean, fun handle entries halone => ?_,
    fun handle entries entries' halone hmem =>
      (h.progress handle).same entries entries' halone hmem,
    fun handle => (h.progress handle).answers_le.trans h.holds.retained_le⟩
  cases hop : get? run.state.operations handle with
  | none =>
    rcases (h.progress handle).ended hop entries halone with hfailed | hcompleted
    · exact absurd hfailed (hclean handle entries halone)
    · exact .inl hcompleted
  | some op =>
    rcases (h.progress handle).waits op hop with ⟨_, hfailed⟩ | ⟨r, f, rfl, _⟩
    · exact absurd hfailed (hclean handle entries halone)
    · exact .inr ⟨_, rfl, rfl⟩

/-- A failure stays. -/
theorem Clean.of_steps {events : List OpenEvent}
    (h : (run.steps source events).Clean s source) : run.Clean s source := by
  obtain ⟨hfailed, hstarted⟩ := @steps_mono source run events
  rintro handle entries ⟨paths, hpaths, halone⟩ hmem
  exact h handle entries ⟨paths, hstarted hpaths, halone⟩ (hfailed hmem)

/-- What a start logs. -/
theorem step_start_logs (run : OpenRun) (paths : List String) :
    (run.step source (.start paths)).failed = run.failed ∧
      ∀ started ∈ (run.step source (.start paths)).started,
        started = (run.state.nextOperation, paths) ∨ started ∈ run.started := by
  by_cases hspace : run.state.nextOperation < u32Max
  · rw [step_start hspace]
    dsimp only
    rcases OpenTables.advanceOpenTable _ { fetch := ⟨paths, run.state.workbookEntries⟩ } with
      e | ⟨op, _ | entries⟩ <;> simp +contextual
  · rw [step_start_of_full hspace]
    exact ⟨rfl, fun _ => .inr⟩

/-- What an answer logs. -/
theorem step_answer_logs (run : OpenRun) (handle : ℕ) :
    (run.step source (.answer handle)).started = run.started ∧ ∀ other ≠ handle,
      (other ∈ (run.step source (.answer handle)).failed ↔ other ∈ run.failed) := by
  rw [step]
  cases get? run.state.operations handle with
  | none => exact ⟨rfl, fun _ _ => .rfl⟩
  | some op =>
    dsimp only
    rcases run.state.continueOperation handle op.cursor.revision (source.answers op.expected) with
      ⟨state, _ | _ | entries⟩ <;> simp +contextual

/-- A call keeps a run clean if and only if it fits. -/
theorem Steady.clean_step (h : Steady s source run) (hclean : run.Clean s source)
    (event : OpenEvent) :
    (run.step source event).Clean s source ↔ run.Fitting s source event := by
  cases event with
  | start paths =>
    refine iff_of_true ?_ trivial
    obtain ⟨hfailed, hstarted⟩ := @step_start_logs source run paths
    rintro handle entries ⟨paths', hpaths, halone⟩ hmem
    rw [hfailed] at hmem
    rcases hstarted _ hpaths with heq | hpaths
    · cases heq
      exact List.not_mem_nil ((h.fresh _ le_rfl).failed.1 hmem)
    · exact hclean handle entries ⟨paths', hpaths, halone⟩ hmem
  | answer handle =>
    obtain ⟨hstarted, hfailed⟩ := @step_answer_logs source run handle
    have hsame : ∀ other entries, (run.step source (.answer handle)).FetchesAlone s source other
        entries ↔ run.FetchesAlone s source other entries := by
      intro other entries
      rw [FetchesAlone, hstarted]
      rfl
    constructor
    · intro hstep op entries hop halone
      have hnot := hstep handle entries ((hsame handle entries).2 halone)
      exact ((h.answer handle).2 op entries hop halone (hclean handle entries halone)).1 hnot
    · intro hfits other entries halone hmem
      rw [hsame] at halone
      have hnot := hclean other entries halone
      by_cases heq : other = handle
      · subst heq
        cases hop : get? run.state.operations other with
        | none =>
          rw [step_answer_of_none hop] at hmem
          exact hnot hmem
        | some op =>
          have hok := (h.answer other).2 op entries hop halone hnot
          exact hok.2 (hfits op entries hop halone) hmem
      · exact hnot ((hfailed other heq).1 hmem)

/-- A call keeps a run steady. -/
theorem Steady.step (h : Steady s source run) (hholds : s.indexed.Holds source)
    (event : OpenEvent) : Steady s source (run.step source event) := by
  cases event with
  | start paths => exact h.start hholds paths
  | answer handle => exact (h.answer handle).1

theorem Steady.steps (h : Steady s source run) (hholds : s.indexed.Holds source)
    (events : List OpenEvent) : Steady s source (run.steps source events) := by
  induction events generalizing run with
  | nil => exact h
  | cons event events ih => exact ih (h.step hholds event)

/-- A run stays clean if and only if every answer fits. -/
theorem Steady.clean_steps (h : Steady s source run) (hholds : s.indexed.Holds source)
    (hclean : run.Clean s source) (events : List OpenEvent) :
    (run.steps source events).Clean s source ↔ AllFitting s source run events := by
  induction events generalizing run with
  | nil => exact iff_of_true hclean trivial
  | cons event events ih =>
    rw [AllFitting, ← h.clean_step hclean]
    constructor
    · intro hall
      have hstep := @Clean.of_steps source s (run.step source event) events hall
      exact ⟨hstep, (ih (h.step hholds event) hstep).1 hall⟩
    · rintro ⟨hstep, hall⟩
      exact (ih (h.step hholds event) hstep).2 hall

end OpenRun

/-! ## Interleavings that are as good as none -/

/-- From retained ranges that hold the source and no operation, in every interleaving of starts
    and right answers, every operation goes on as if it were alone if and only if every answer
    comes for ranges of which nothing is retained, or which are segments of their own. -/
theorem openRuns_asAlone_iff (s : OpenTables) (source : HostSource) (events : List OpenEvent)
    (hholds : s.indexed.Holds source) (hidle : s.operations = []) :
    (OpenRun.steps source { state := s } events).AsAlone s source ↔
      OpenRun.AllFitting s source { state := s } events := by
  have hsteady := OpenRun.steady_start hholds hidle
  have hclean : OpenRun.Clean { state := s } s source := fun _ _ _ => List.not_mem_nil
  rw [(hsteady.steps hholds events).isAlone_iff, hsteady.clean_steps hholds hclean]

/-- The entry that every worksheet needs. -/
def contentTypes : ZipEntryIndex := ⟨"[Content_Types].xml", 0, 8, 0, 20, 20, 0⟩

/-- The entry in the file: a local header, the name, and 20 bytes of data. -/
def contentTypesFile : List UInt8 :=
  [0x50, 0x4b, 3, 4, 20, 0, 0, 0, 8, 0, 0, 0, 0, 0, 0, 0, 0, 0, 20, 0, 0, 0, 20, 0, 0, 0, 19, 0,
    0, 0] ++ List.replicate 19 0x61 ++ List.replicate 20 1

/-- A file that is this entry alone. -/
def entryFile : HostSource := ⟨contentTypesFile, by decide⟩

/-- Its package, with nothing retained. -/
def entryTables : OpenTables := ⟨⟨[contentTypes]⟩, [], 8388608, .new 69, [], 1⟩

/-- Two operations that fetch the same header and the same data, with their answers in turn: each
    range is a segment of its own when it comes a second time. -/
theorem openRuns_asAlone_iff_shared : ∃ run : OpenRun,
    run = OpenRun.steps entryFile { state := entryTables } [.start [contentTypes.name],
      .start [contentTypes.name], .answer 1, .answer 2, .answer 2, .answer 1] ∧
    run.completed.map (·.1) = [1, 2] ∧ run.AsAlone entryTables entryFile := by
  refine ⟨_, rfl, by decide, (openRuns_asAlone_iff _ _ _ (IndexedRanges.holds_new entryFile) rfl).2
    ⟨trivial, trivial, ?_, ?_, ?_, ?_, trivial⟩⟩
  · -- Nothing is retained yet.
    rintro op _ hop - r hr
    cases hop
    cases List.mem_singleton.1 hr
    refine .inl fun i _ hcov => ?_
    obtain ⟨s, hs, _⟩ := hcov
    cases hs
  · rintro op _ hop - r hr
    cases hop
    cases List.mem_singleton.1 hr
    exact .inr (by decide)
  · -- The header is retained, but not the data.
    rintro op _ hop - r hr
    cases hop
    cases List.mem_singleton.1 hr
    refine .inl fun i hi hcov => ?_
    obtain ⟨s, hs, _, hlt⟩ := hcov
    cases List.mem_singleton.1 hs
    exact (hi.1.trans_lt hlt).not_ge (by decide)
  · rintro op _ hop - r hr
    cases hop
    cases List.mem_singleton.1 hr
    exact .inr (by decide)

/-! ## A package whose first entry two operations fetch -/

/-- The rest of the file, that is read with the package. -/
def packageTail : List UInt8 := List.replicate 131072 0

/-- The whole file. -/
def packageFile : HostSource where
  bytes := contentTypesFile ++ packageTail
  length_le := by
    rw [List.length_append, packageTail, List.length_replicate]
    decide

/-- The package with the operations that wait. -/
def package (indexed : IndexedRanges) (operations : List (ℕ × PendingOpenTable))
    (nextOperation : ℕ) : OpenTables :=
  ⟨⟨[contentTypes]⟩, [], 8388608, indexed, operations, nextOperation⟩

theorem length_packageFile : packageFile.bytes.length = 131141 := by
  rw [packageFile, List.length_append, packageTail, List.length_replicate]
  rfl

/-- The header of the entry. -/
def headerRange : HostRange := ⟨0, 30, by decide, by decide⟩

/-- The data of the entry. -/
def dataRange : HostRange := ⟨49, 20, by decide, by decide⟩

/-- What of the header was not read with the package. -/
def headerRest : HostRange := ⟨8, 22, by decide, by decide⟩

theorem headerRange_contentTypes :
    RawZipEntry.headerRange contentTypes packageFile.bytes.length = .ok headerRange := by
  rw [length_packageFile]
  rfl

theorem dataRange_contentTypes : RawZipEntry.dataRange contentTypes
    (packageFile.slice headerRange) packageFile.bytes.length = .ok dataRange := by
  have hslice : packageFile.slice headerRange = contentTypesFile.take 30 :=
    List.take_append_of_le_length (by decide)
  rw [length_packageFile, hslice]
  rfl

/-- The fetch of the entry. -/
def contentTypesFetch : EntryFetch := ⟨["[Content_Types].xml"], []⟩

/-- The entry, fetched. -/
def contentTypesEntry : RawZipEntry := ⟨contentTypes, packageFile.slice dataRange⟩

variable {ix : IndexedRanges}

theorem advance_contentTypes (ix : IndexedRanges) :
    contentTypesFetch.advance ix ⟨[contentTypes]⟩ = (ix.fetchEntry contentTypes).bind fun
      | .inl gap => .ok (some gap, contentTypesFetch)
      | .inr raw => .ok (none, ⟨[], [raw]⟩) := by
  rfl

/-- A range between the first bytes and the tail is not retained. -/
theorem misses_of_covers {r : HostRange} {n : ℕ}
    (hcovers : ∀ i, ix.Covers i ↔ i < n ∨ 69 ≤ i ∧ i < 131141) (hle : n ≤ r.offset)
    (hstop : r.stop ≤ 69) : ix.Misses r := by
  rintro i ⟨hi, hlt⟩ hcov
  rw [hcovers] at hcov
  omega

/-- With the first bytes and the tail retained, the rest of the header is needed. -/
theorem needs_headerRest (h : ix.Holds packageFile)
    (hcovers : ∀ i, ix.Covers i ↔ i < 8 ∨ 69 ≤ i ∧ i < 131141) :
    contentTypesFetch.advance ix ⟨[contentTypes]⟩ = .ok (some headerRest, contentTypesFetch) := by
  have hgap : ix.FirstGap headerRange headerRest :=
    ⟨by decide, by decide, fun i _ hi => (hcovers i).2 (.inl hi),
      misses_of_covers hcovers (by decide) (by decide), .inl rfl⟩
  rw [advance_contentTypes, h.fetchEntry_of_headerGap headerRange_contentTypes hgap]
  rfl

/-- With the header retained, too, the data is needed. -/
theorem needs_data (h : ix.Holds packageFile)
    (hcovers : ∀ i, ix.Covers i ↔ i < 30 ∨ 69 ≤ i ∧ i < 131141) :
    contentTypesFetch.advance ix ⟨[contentTypes]⟩ = .ok (some dataRange, contentTypesFetch) := by
  have hgap : ix.FirstGap dataRange dataRange :=
    ⟨le_rfl, le_rfl, fun i hi hlt => absurd hi hlt.not_ge,
      misses_of_covers hcovers (by decide) (by decide), .inl rfl⟩
  rw [advance_contentTypes, h.fetchEntry_of_dataGap headerRange_contentTypes
    (fun i hi => (hcovers i).2 (.inl hi.2)) dataRange_contentTypes hgap]
  rfl

/-- With header and data retained, the entry is there. -/
theorem fetches_contentTypes (h : ix.Holds packageFile)
    (hcovers : ∀ i, headerRange.Contains i ∨ dataRange.Contains i → ix.Covers i) :
    contentTypesFetch.advance ix ⟨[contentTypes]⟩ = .ok (none, ⟨[], [contentTypesEntry]⟩) := by
  rw [advance_contentTypes, h.fetchEntry_of_covers headerRange_contentTypes
    (fun i hi => hcovers i (.inl hi)) dataRange_contentTypes
    (fun i hi => hcovers i (.inr hi)) rfl]
  rfl

variable {run : OpenRun} {operations : List (ℕ × PendingOpenTable)} {k handle : ℕ}

/-- The start of an operation that has to wait. -/
theorem OpenRun.step_start_of_pending {source : HostSource} {paths : List String}
    {op : PendingOpenTable} (hspace : run.state.nextOperation < u32Max)
    (hadvance : OpenTables.advanceOpenTable
      { run.state with nextOperation := run.state.nextOperation + 1 }
      { fetch := ⟨paths, run.state.workbookEntries⟩ } = .ok (op, .pending)) :
    run.step source (.start paths) =
      { run with
        state := { run.state with
          nextOperation := run.state.nextOperation + 1
          operations := OrderedMap.insert run.state.operations run.state.nextOperation op }
        started := (run.state.nextOperation, paths) :: run.started } := by
  rw [OpenRun.step_start hspace]
  dsimp only
  rw [hadvance]

/-- Each start waits for the rest of the header. -/
theorem step_start_package (h : ix.Holds packageFile)
    (hcovers : ∀ i, ix.Covers i ↔ i < 8 ∨ 69 ≤ i ∧ i < 131141)
    (hstate : run.state = package ix operations k) (hk : k < u32Max) :
    run.step packageFile (.start ["[Content_Types].xml"]) =
      { run with
        state := package ix
          (OrderedMap.insert operations k (waiting 1 headerRest contentTypesFetch)) (k + 1)
        started := (k, ["[Content_Types].xml"]) :: run.started } := by
  have hadvance := @OpenTables.advanceOpenTable_of_some packageFile (package ix operations (k + 1))
    { fetch := contentTypesFetch } _ _ (needs_headerRest h hcovers) rfl (by decide)
    (by rw [length_packageFile]; decide) (show 22 ≤ 8388608 by decide)
  obtain ⟨state, _, _, _, _, _⟩ := run
  obtain rfl := hstate
  exact OpenRun.step_start_of_pending hk hadvance

/-- The first answer joins the header. -/
theorem step_answer_header (h : ix.Holds packageFile)
    (hcovers : ∀ i, ix.Covers i ↔ i < 8 ∨ 69 ≤ i ∧ i < 131141)
    (hstate : run.state = package ix operations k)
    (hop : get? operations handle = some (waiting 1 headerRest contentTypesFetch)) :
    ∃ ix' : IndexedRanges, ix'.Holds packageFile ∧
      (∀ i, ix'.Covers i ↔ i < 30 ∨ 69 ≤ i ∧ i < 131141) ∧
      run.step packageFile (.answer handle) =
        { run with
          state := package ix' (OrderedMap.insert (erase operations handle) handle
            (waiting 2 dataRange contentTypesFetch)) k
          answered := handle :: run.answered } := by
  have hr : headerRest.stop ≤ packageFile.bytes.length := by
    rw [length_packageFile]
    decide
  obtain ⟨ix', hinsert, hholds, _, hcovers'⟩ := h.insert_of_misses hr
    (misses_of_covers hcovers (by decide) (by decide))
  have hnew : ∀ i, ix'.Covers i ↔ i < 30 ∨ 69 ≤ i ∧ i < 131141 := by
    intro i
    rw [hcovers', hcovers, HostRange.Contains]
    dsimp only [HostRange.stop, headerRest]
    omega
  have hadvance := @OpenTables.advanceOpenTable_of_some packageFile
    (package ix' (erase operations handle) k) (supplied 1 headerRest contentTypesFetch) _ _
    (needs_data hholds hnew) rfl (by decide) (by rw [length_packageFile]; decide)
    (show 20 ≤ 8388608 by decide)
  refine ⟨ix', hholds, hnew, ?_⟩
  obtain ⟨state, _, _, _, _, _⟩ := run
  obtain rfl := hstate
  rw [OpenRun.step_answer h hop hr]
  dsimp only [package] at hinsert hadvance ⊢
  rw [hinsert]
  dsimp only
  rw [hadvance]
  rfl

/-- The same answer to another operation fails: its range is part of a longer segment now. -/
theorem step_answer_joined (h : ix.Holds packageFile)
    (hcovers : ∀ i, ix.Covers i ↔ i < 30 ∨ 69 ≤ i ∧ i < 131141)
    (hstate : run.state = package ix operations k)
    (hop : get? operations handle = some (waiting 1 headerRest contentTypesFetch)) :
    handle ∈ (run.step packageFile (.answer handle)).failed := by
  have hr : headerRest.stop ≤ packageFile.bytes.length := by
    rw [length_packageFile]
    decide
  have hmisses : ¬ix.Misses headerRest := fun hmisses =>
    hmisses 8 ⟨by decide, by decide⟩ ((hcovers 8).2 (.inl (by decide)))
  have hmem : (headerRest.offset, packageFile.slice headerRest) ∉ ix.ranges := by
    intro hmem
    obtain ⟨t, ht, hle, hlt⟩ := (hcovers 7).2 (.inl (by decide))
    have hstop := h.separate.stop_lt ht hmem (hle.trans_lt (by decide))
    dsimp only [headerRest] at hstop
    omega
  obtain ⟨state, _, _, _, _, _⟩ := run
  obtain rfl := hstate
  rw [OpenRun.step_answer h hop hr, package,
    h.insert_of_overlap hr (HostSource.length_slice hr) hmisses hmem]
  exact List.mem_cons_self

/-- The second answer completes the entry. -/
theorem step_answer_data (h : ix.Holds packageFile)
    (hcovers : ∀ i, ix.Covers i ↔ i < 30 ∨ 69 ≤ i ∧ i < 131141)
    (hstate : run.state = package ix operations k)
    (hop : get? operations handle = some (waiting 2 dataRange contentTypesFetch)) :
    (run.step packageFile (.answer handle)).failed = run.failed ∧
      (run.step packageFile (.answer handle)).completed =
        (handle, [contentTypesEntry]) :: run.completed := by
  have hr : dataRange.stop ≤ packageFile.bytes.length := by
    rw [length_packageFile]
    decide
  obtain ⟨ix', hinsert, hholds, _, hcovers'⟩ := h.insert_of_misses hr
    (misses_of_covers hcovers (by decide) (by decide))
  have hnew : ∀ i, headerRange.Contains i ∨ dataRange.Contains i → ix'.Covers i := by
    intro i hi
    rw [hcovers', hcovers]
    exact hi.imp_left fun hi => .inl hi.2
  obtain ⟨op, hadvance⟩ := @OpenTables.advanceOpenTable_of_none
    (package ix' (erase operations handle) k) (supplied 2 dataRange contentTypesFetch) _
    (fetches_contentTypes hholds hnew) rfl (by decide)
  obtain ⟨state, _, _, _, _, _⟩ := run
  obtain rfl := hstate
  rw [OpenRun.step_answer h hop hr]
  dsimp only [package] at hinsert hadvance ⊢
  rw [hinsert]
  dsimp only
  rw [hadvance]
  exact ⟨rfl, rfl⟩

/-- Alone, the entry is fetched with two answers. -/
theorem completesAlone_contentTypes (h : ix.Holds packageFile)
    (hcovers : ∀ i, ix.Covers i ↔ i < 8 ∨ 69 ≤ i ∧ i < 131141) :
    (package ix [] 1).CompletesAlone packageFile ["[Content_Types].xml"] [contentTypesEntry] := by
  refine ⟨2, ?_⟩
  have hstart := @step_start_package ix { state := package ix [] 1 } _ _ h hcovers rfl (by decide)
  obtain ⟨ix', hholds, hcovers', hheader⟩ := @step_answer_header ix
    { state := package ix (OrderedMap.insert [] 1 (waiting 1 headerRest contentTypesFetch)) 2
      started := [(1, ["[Content_Types].xml"])] } _ _ 1 h hcovers rfl get?_insert_self
  change (OpenRun.step packageFile (OpenRun.step packageFile (OpenRun.step packageFile
    { state := package ix [] 1 } (.start ["[Content_Types].xml"])) (.answer 1))
    (.answer 1)).failed = [] ∧ (OpenRun.step packageFile (OpenRun.step packageFile
    (OpenRun.step packageFile { state := package ix [] 1 } (.start ["[Content_Types].xml"]))
    (.answer 1)) (.answer 1)).completed = _
  rw [hstart, hheader]
  exact step_answer_data hholds hcovers' rfl get?_insert_self

/-- The ranges that are read with the package: the first bytes and the tail. -/
theorem package_ranges : ∃ ix : IndexedRanges, ix.Holds packageFile ∧
    ∀ i, ix.Covers i ↔ i < 8 ∨ 69 ≤ i ∧ i < 131141 := by
  have hlength := length_packageFile
  have hempty : ∀ i, ¬(IndexedRanges.new packageFile.bytes.length).Covers i := by
    rintro i ⟨s, hs, _⟩
    cases hs
  obtain ⟨ix, _, hholds, _, hcovers⟩ := (IndexedRanges.holds_new packageFile).insert_of_misses
    (show HostRange.stop ⟨0, 8, by decide, by decide⟩ ≤ _ by rw [hlength]; decide)
    fun i _ => hempty i
  obtain ⟨ix', _, hholds', _, hcovers'⟩ := hholds.insert_of_misses
    (show HostRange.stop ⟨69, 131072, by decide, by decide⟩ ≤ _ by rw [hlength]; decide) (by
      rintro i ⟨hi, _⟩ hcov
      rcases (hcovers i).1 hcov with hcov | ⟨_, hlt⟩
      · exact hempty i hcov
      · dsimp only [HostRange.stop] at hi hlt
        omega)
  refine ⟨ix', hholds', fun i => ?_⟩
  rw [hcovers', hcovers, HostRange.Contains, HostRange.Contains]
  have hnot := hempty i
  dsimp only [HostRange.stop]
  constructor
  · rintro ((hcov | ⟨_, hlt⟩) | ⟨hi, hlt⟩)
    · exact absurd hcov hnot
    · exact .inl hlt
    · exact .inr ⟨hi, hlt⟩
  · rintro (hlt | ⟨hi, hlt⟩)
    · exact .inl (.inr ⟨Nat.zero_le _, hlt⟩)
    · exact .inr ⟨hi, hlt⟩

/-- Two operations that wait for the rest of one header: when the first is answered, the header
    is joined to a longer segment, and the answer to the second fails. -/
theorem two_starts_disturb : ¬∀ (s : OpenTables) (source : HostSource) (events : List OpenEvent),
    s.indexed.Holds source → s.operations = [] →
      (OpenRun.steps source { state := s } events).AsAlone s source := by
  intro hall
  obtain ⟨ix, hholds, hcovers⟩ := package_ranges
  have hsecond : get? (OrderedMap.insert (OrderedMap.insert [] 1
      (waiting 1 headerRest contentTypesFetch)) 2 (waiting 1 headerRest contentTypesFetch)) 1 =
      some (waiting 1 headerRest contentTypesFetch) := by
    rw [get?_insert_of_ne (by decide), get?_insert_self]
  have hfirst := @step_start_package ix { state := package ix [] 1 } _ _ hholds hcovers rfl
    (by decide)
  have hstarts := @step_start_package ix
    { state := package ix (OrderedMap.insert [] 1 (waiting 1 headerRest contentTypesFetch)) 2
      started := [(1, ["[Content_Types].xml"])] } _ _ hholds hcovers rfl (by decide)
  obtain ⟨ix', hholds', hcovers', hheader⟩ := @step_answer_header ix
    { state := package ix (OrderedMap.insert (OrderedMap.insert [] 1
        (waiting 1 headerRest contentTypesFetch)) 2 (waiting 1 headerRest contentTypesFetch)) 3
      started := [(2, ["[Content_Types].xml"]), (1, ["[Content_Types].xml"])] } _ _ 1
    hholds hcovers rfl hsecond
  have hsucceeds := (hall (package ix [] 1) packageFile
    [.start ["[Content_Types].xml"], .start ["[Content_Types].xml"], .answer 1, .answer 2]
    hholds rfl).succeeds 2 [contentTypesEntry]
  rw [OpenRun.steps_cons, hfirst, OpenRun.steps_cons, hstarts, OpenRun.steps_cons, hheader]
    at hsucceeds
  refine hsucceeds ⟨["[Content_Types].xml"], ?_, completesAlone_contentTypes hholds hcovers⟩ ?_
  · refine (@OpenRun.steps_mono packageFile _ [.answer 2]).2 ?_
    exact List.mem_cons_self
  · rw [OpenRun.steps_cons, OpenRun.steps, List.foldl_nil]
    refine step_answer_joined hholds' hcovers' rfl ?_
    rw [get?_insert_of_ne (by decide), get?_erase_of_ne (by decide), get?_insert_self]

end Tabulark.Excel
