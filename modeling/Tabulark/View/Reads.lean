import Tabulark.Lib.Run
import Tabulark.View.Controller

/-!
# What a view shows

Over every run of a controller whose table gives its own values: a loaded cell
has the value of the table, or says that a read of this one cell was too large,
and a load of an older generation changes nothing any more (`faithful_iff`).

A controller that is disposed of, or whose table is closed, should come to
rest: it refuses to be called, and its load is aborted. Three steps are not held
back by that. The microtask of a queued load only asks whether the controller
is disposed of; an update of the metadata does not ask whether the table is
closed; and after one part of a split range the next one is read, whatever
happened in between. `Sound` excludes them.
-/

namespace Tabulark.View

open Run

/-! ## Values -/

/-- A window shows the values of the table, or that the read of a single cell was refused. -/
def LoadedWindow.Fair (table : ℕ → ℕ → Option String) (refused : List GridRange)
    (window : LoadedWindow) : Prop :=
  ∀ rowIndex columnIndex, window.range.rangeContains rowIndex columnIndex = true →
    window.value rowIndex columnIndex = table rowIndex columnIndex ∨
      window.value rowIndex columnIndex = some oversizedCellPreview ∧
        ⟨rowIndex, rowIndex + 1, columnIndex, columnIndex + 1⟩ ∈ refused

/-- The windows a call is about to return. -/
def Turn.windows : Option Turn → List LoadedWindow
  | some (.returned windows) => windows
  | _ => []

/-- All windows of a load. -/
def Load.windows (load : Load) : List LoadedWindow :=
  load.loaded ++ load.frames.flatMap Frame.windows ++ Turn.windows load.turn

/-- The batch of a request to a table of which some rows exist. -/
def batchOf (table : ℕ → ℕ → Option String) (request : RangeRequest) (existing : ℕ) :
    DisplayBatch where
  range := { request with rowCount := min request.rowCount (existing - request.rowStart) }
  rows := (List.range (min request.rowCount (existing - request.rowStart))).map fun row =>
    (List.range request.columnCount).map fun column =>
      table (request.rowStart + row) (request.columnStart + column)

variable {table : ℕ → ℕ → Option String} {refused : List GridRange}

variable {window : LoadedWindow}

theorem LoadedWindow.Fair.append (h : window.Fair table refused)
    (more : List GridRange) : window.Fair table (refused ++ more) := fun rowIndex columnIndex hc =>
  (h rowIndex columnIndex hc).imp_right fun ho => ⟨ho.1, List.mem_append_left _ ho.2⟩

/-- A batch shows the values of the table. -/
theorem fair_batchWindows (request : RangeRequest) (existing : ℕ) :
    ∀ window ∈ Controller.batchWindows (batchOf table request existing),
      window.Fair table refused := by
  intro window hwindow
  rw [Controller.batchWindows] at hwindow
  split_ifs at hwindow
  · obtain rfl := List.mem_singleton.1 hwindow
    intro rowIndex columnIndex hc
    obtain ⟨hrow, hrow', hcolumn, hcolumn'⟩ := GridRange.rangeContains_iff.1 hc
    dsimp only [batchGridRange, batchOf] at hrow hrow' hcolumn hcolumn'
    have hrows : rowIndex - request.rowStart <
        min request.rowCount (existing - request.rowStart) := by omega
    have hcolumns : columnIndex - request.columnStart < request.columnCount := by omega
    refine .inl ?_
    dsimp only [LoadedWindow.value, batchGridRange, batchOf]
    simp only [List.getD_eq_getElem?_getD, List.getElem?_map, List.getElem?_range hrows,
      List.getElem?_range hcolumns, Option.map_some, Option.getD_some]
    rw [Nat.add_sub_cancel' hrow, Nat.add_sub_cancel' hcolumn]
  · exact absurd hwindow List.not_mem_nil

variable {range : GridRange}

/-- A single cell whose read was refused is shown as such. -/
theorem fair_oversized (hrow : ¬1 < range.rowEnd - range.rowStart)
    (hcolumn : ¬1 < range.columnEnd - range.columnStart) :
    LoadedWindow.Fair table (refused ++ [range]) ⟨range, [[some oversizedCellPreview]]⟩ := by
  intro rowIndex columnIndex hc
  obtain ⟨h₁, h₂, h₃, h₄⟩ := GridRange.rangeContains_iff.1 hc
  dsimp only at h₁ h₂ h₃ h₄
  have hr : rowIndex = range.rowStart := by omega
  have hk : columnIndex = range.columnStart := by omega
  have hre : range.rowEnd = range.rowStart + 1 := by omega
  have hke : range.columnEnd = range.columnStart + 1 := by omega
  refine .inr ⟨?_, ?_⟩
  · rw [hr, hk, LoadedWindow.value, Nat.sub_self, Nat.sub_self]
    rfl
  · rw [hr, hk, ← hre, ← hke]
    exact List.mem_append_right _ List.mem_cons_self

/-- Windows only come from those that were loaded. -/
theorem mem_addWindows {loaded windows : List LoadedWindow}
    (h : window ∈ Controller.addWindows loaded windows) : window ∈ loaded ∨ window ∈ windows := by
  rw [Controller.addWindows] at h
  induction windows generalizing loaded with
  | nil => exact .inl h
  | cons first rest ih =>
    rw [List.foldl_cons] at h
    rcases ih h with hl | hr
    · rcases List.mem_cons.1 hl with rfl | hl
      · exact .inr List.mem_cons_self
      · exact .inl (List.mem_of_mem_filter hl)
    · exact .inr (List.mem_cons_of_mem _ hr)

namespace Controller

variable {screen : Screen}

/-! ## The state of the loads -/

/-- What steps do to the loads, without the layout. -/
structure Core where
  windows : List LoadedWindow
  loadingRanges : List GridRange
  requestAbort : Option ℕ
  generation : ℕ
  loadQueued : Bool
  disposed : Bool
  tableClosed : Bool
  loads : List Load
  reads : List GridRange
  refused : List GridRange
  status : TableViewStatus

/-- The state of the loads of a controller. -/
def core (c : Controller screen) : Core where
  windows := c.windows
  loadingRanges := c.loadingRanges
  requestAbort := c.requestAbort
  generation := c.generation
  loadQueued := c.loadQueued
  disposed := c.disposed
  tableClosed := c.tableClosed
  loads := c.loads
  reads := c.reads
  refused := c.refused
  status := c.snapshot.status

namespace Core

/-- Aborts the current load. -/
def abort (k : Core) : Core :=
  { k with
    loads := abortLoad k.loads k.requestAbort
    requestAbort := none }

/-- A new generation. -/
def advance (k : Core) : Core :=
  { k.abort with
    generation := k.generation + 1
    loadingRanges := []
    status := .loading
    loadQueued := k.loadQueued || !k.disposed }

/-- Nothing should happen any more. -/
def Dead (k : Core) : Prop := k.disposed = true ∨ k.tableClosed = true

end Core

@[simp] theorem core_publish (c : Controller screen) : c.publish.core = c.core := rfl

@[simp] theorem core_clampInteraction (c : Controller screen) :
    c.clampInteraction.core = c.core := by
  rw [clampInteraction]
  cases c.activeCell <;> rfl

@[simp] theorem core_advanceGeneration (c : Controller screen) :
    c.advanceGeneration.core = c.core.advance := by
  rw [advanceGeneration, queueLoad]
  change core (if (c.loadQueued || c.disposed) = true then _ else _) = _
  cases hqueued : c.loadQueued <;> cases hdisposed : c.disposed <;>
    simp [core, Core.advance, Core.abort, abortRequest, rebuildSnapshot, hqueued, hdisposed]

/-- An entry point does nothing, or starts a new generation. -/
structure Entered (c c' : Controller screen) : Prop where
  core : c'.core = c.core ∨ c.isShut = false ∧ c'.core = c.core.advance

theorem Entered.refl (c : Controller screen) : c.Entered c := ⟨.inl rfl⟩

theorem entered_of_advance {c d : Controller screen} (hopen : ¬c.isShut = true)
    (hcore : d.core = c.core) : c.Entered d.advanceGeneration :=
  ⟨.inr ⟨Bool.eq_false_iff.2 hopen, by rw [core_advanceGeneration, hcore]⟩⟩

theorem core_scrollCellIntoView (c : Controller screen) (cell : CellPosition) :
    (c.scrollCellIntoView cell).1.core = c.core := by
  rw [scrollCellIntoView]
  split_ifs <;> rfl

theorem entered_updateViewport (c : Controller screen) (viewport : screen.Viewport) :
    c.Entered (c.updateViewport viewport) := by
  rw [updateViewport]
  split_ifs with hshut
  · exact .refl c
  · exact .refl c
  · exact entered_of_advance hshut rfl

theorem entered_setActiveCell (c : Controller screen) (cell : CellPosition)
    (scrollIntoView : Bool) : c.Entered (c.setActiveCell cell scrollIntoView) := by
  rw [setActiveCell]
  split_ifs with hshut
  · exact .refl c
  · split
    · exact .refl c
    · dsimp only
      split_ifs
      · exact entered_of_advance hshut (core_scrollCellIntoView _ _)
      · exact ⟨.inl rfl⟩

theorem entered_ensureCellVisible (c : Controller screen) (cell : CellPosition) :
    c.Entered (c.ensureCellVisible cell) := by
  rw [ensureCellVisible]
  split_ifs with hshut
  · exact .refl c
  · split
    · exact .refl c
    · dsimp only
      split_ifs
      · exact entered_of_advance hshut (core_scrollCellIntoView _ _)
      · exact .refl c

theorem entered_ensureColumnVisible (c : Controller screen) (columnIndex : ℕ) :
    c.Entered (c.ensureColumnVisible columnIndex) := by
  rw [ensureColumnVisible]
  dsimp only
  split_ifs with hshut
  · exact .refl c
  · exact .refl c
  · exact .refl c
  · exact entered_of_advance hshut rfl

theorem entered_resizeColumn (c : Controller screen) (columnIndex : ℕ) (width : screen.Width) :
    c.Entered (c.resizeColumn columnIndex width) := by
  rw [resizeColumn]
  split_ifs with hshut
  · exact .refl c
  · exact .refl c
  · exact .refl c
  · exact entered_of_advance hshut rfl

theorem entered_applySpreadsheetPresentation (c : Controller screen)
    (presentation : SpreadsheetPresentation screen.Width screen.RowEntry) :
    c.Entered (c.applySpreadsheetPresentation presentation) := by
  rw [applySpreadsheetPresentation]
  dsimp only
  split_ifs with hshut
  · exact .refl c
  · exact .refl c
  · refine ⟨.inr ⟨Bool.eq_false_iff.2 hshut, ?_⟩⟩
    rw [core_publish, core_clampInteraction, core_advanceGeneration]
    rfl

theorem entered_setMergedCells (c : Controller screen) (regions : List MergedCellRegion) :
    c.Entered (c.setMergedCells regions) := by
  rw [setMergedCells]
  dsimp only
  split_ifs with hshut
  · exact .refl c
  · exact .refl c
  · exact entered_of_advance hshut (core_clampInteraction _)

/-! ## Loads -/

namespace Core

/-- All windows are fair. -/
structure Fair (table : ℕ → ℕ → Option String) (k : Core) : Prop where
  windows : ∀ window ∈ k.windows, window.Fair table k.refused
  loads : ∀ load ∈ k.loads, ∀ window ∈ load.windows, window.Fair table k.refused

/-- The current load is the only one that was not aborted, and there is none while one is
    queued. -/
structure Tracked (k : Core) : Prop where
  queued : k.loadQueued = true → k.requestAbort = none
  running : ∀ i load, k.loads[i]? = some load → load.turn ≠ none → load.aborted = false →
    k.requestAbort = some i

/-- What is dead has no current load, and is neither loading nor ready. -/
structure Still (k : Core) : Prop where
  requestAbort : k.Dead → k.requestAbort = none
  status : k.Dead → k.status ≠ .loading ∧ k.status ≠ .ready

variable {k : Core} {i : ℕ} {load load' : Load}

theorem getElem?_abortLoad {loads : List Load} {current : Option ℕ}
    (h : (abortLoad loads current)[i]? = some load') :
    ∃ load, loads[i]? = some load ∧ load' = { load with
      aborted := if current = some i then true else load.aborted } := by
  cases current with
  | none => exact ⟨load', h, by simp⟩
  | some j =>
    rw [abortLoad, List.getElem?_modify] at h
    obtain ⟨load, hload, rfl⟩ := Option.map_eq_some_iff.1 h
    refine ⟨load, hload, ?_⟩
    by_cases hj : j = i <;> simp [hj]

theorem Fair.abort (h : k.Fair table) : k.abort.Fair table where
  windows := h.windows
  loads load' hload' := by
    obtain ⟨i, hi⟩ := List.mem_iff_getElem?.1 hload'
    obtain ⟨load, hload, rfl⟩ := getElem?_abortLoad hi
    exact h.loads load (List.mem_of_getElem? hload)

/-- Every load that still runs was aborted. -/
theorem Tracked.aborted (h : k.Tracked) {load' : Load} (hload' : k.abort.loads[i]? = some load')
    (hturn : load'.turn ≠ none) : load'.aborted = true := by
  obtain ⟨load, hload, rfl⟩ := getElem?_abortLoad hload'
  dsimp only at hturn ⊢
  by_cases haborted : load.aborted = false
  · rw [if_pos (h.running i load hload hturn haborted)]
  · split_ifs
    · rfl
    · simpa using haborted

theorem Tracked.abort (h : k.Tracked) : k.abort.Tracked where
  queued _ := rfl
  running i load hload hturn haborted := by
    rw [h.aborted hload hturn] at haborted
    cases haborted

theorem Fair.set (h : k.Fair table) (i : ℕ) (load : Load)
    (hload : ∀ window ∈ load.windows, window.Fair table k.refused) :
    Fair table { k with loads := k.loads.set i load } where
  windows := h.windows
  loads load' hload' := by
    rcases List.mem_or_eq_of_mem_set hload' with hmem | rfl
    · exact h.loads load' hmem
    · exact hload

/-- A load goes on. -/
theorem Tracked.set (h : k.Tracked) (hload : k.loads[i]? = some load) (hturn : load.turn ≠ none)
    (haborted : load'.aborted = load.aborted) :
    Tracked { k with loads := k.loads.set i load' } where
  queued := h.queued
  running j other hother hturn' haborted' := by
    dsimp only at hother ⊢
    rw [List.getElem?_set] at hother
    split_ifs at hother with hj hlt
    · cases hother
      subst hj
      exact h.running _ load hload hturn (haborted.symm.trans haborted')
    · exact h.running j other hother hturn' haborted'

/-- A load has ended. -/
def ended (k : Core) (i : ℕ) (load : Load) : Core :=
  { k with
    loads := k.loads.set i { load with turn := none }
    requestAbort := if k.requestAbort = some i then none else k.requestAbort }

theorem Fair.ended (h : k.Fair table) (hload : load ∈ k.loads) : (k.ended i load).Fair table := by
  refine ⟨h.windows, (h.set i { load with turn := none } ?_).loads⟩
  intro window hwindow
  refine h.loads load hload window ?_
  rw [Load.windows, List.mem_append] at hwindow ⊢
  exact .inl (hwindow.resolve_right List.not_mem_nil)

theorem Tracked.ended (h : k.Tracked) (i : ℕ) (load : Load) : (k.ended i load).Tracked where
  queued hqueued := by
    have hnone := h.queued hqueued
    dsimp only [Core.ended]
    rw [hnone, if_neg (by simp)]
  running j other hother hturn haborted := by
    dsimp only [Core.ended] at hother ⊢
    rw [List.getElem?_set] at hother
    split_ifs at hother with hj hlt
    · cases hother
      exact absurd rfl hturn
    · have hcurrent := h.running j other hother hturn haborted
      rw [hcurrent, if_neg (by simpa using Ne.symm hj)]

end Core

/-! ## What a settlement does -/

/-- What the settlement of the read of `range` does to a load. -/
inductive Settled (k : Core) (i : ℕ) (load : Load) (range : GridRange) : Settlement → Core → Prop
  | batch (batch : DisplayBatch) : Settled k i load range (.batch batch) { k with
      loads := k.loads.set i { load with turn := some (.returned (batchWindows batch)) } }
  | thrown {refused : List GridRange} (error : TabularkError) : k.refused <+: refused →
    Settled k i load range (.failure error) { k with
      loads := k.loads.set i { load with turn := some (.thrown error) }
      refused }
  | oversized (error : TabularkError) : ¬1 < range.rowEnd - range.rowStart →
    ¬1 < range.columnEnd - range.columnStart →
    Settled k i load range (.failure error) { k with
      loads := k.loads.set i { load with
        turn := some (.returned [⟨range, [[some oversizedCellPreview]]⟩]) }
      refused := k.refused ++ [range] }
  | split {first second : GridRange} (error : TabularkError) : load.aborted = false →
    Settled k i load range (.failure error) { k with
      loads := k.loads.set i { load with
        frames := ⟨[second], []⟩ :: load.frames
        turn := some (.reading first) }
      reads := k.reads ++ [first]
      refused := k.refused ++ [range] }

theorem settled_settleFailure (c : Controller screen) (i : ℕ) (load : Load) (range : GridRange)
    (error : TabularkError) :
    Settled c.core i load range (.failure error) (c.settleFailure i load range error).core := by
  rw [settleFailure]
  dsimp only
  by_cases hadaptive : isAdaptiveRangeByteLimit error = true
  · rw [if_pos hadaptive, hadaptive, Bool.not_true, Bool.or_false, splitRangeAfterByteLimit]
    dsimp only
    by_cases haborted : load.aborted = true
    · rw [if_pos haborted]
      exact .thrown error (List.prefix_append _ _)
    · rw [if_neg haborted]
      have hrunning : load.aborted = false := Bool.eq_false_iff.2 haborted
      split_ifs with hrows hcolumns
      · exact .split error hrunning
      · exact .split error hrunning
      · exact .oversized error hrows hcolumns
  · rw [if_neg hadaptive, Bool.eq_false_iff.2 hadaptive, Bool.not_false, Bool.or_true, if_pos rfl]
    exact .thrown error List.prefix_rfl

theorem settle_cases (c : Controller screen) (i : ℕ) (settlement : Settlement) :
    c.settle i settlement = c ∨ ∃ load range, c.loads[i]? = some load ∧
      load.turn = some (.reading range) ∧
      Settled c.core i load range settlement (c.settle i settlement).core := by
  rw [settle]
  cases hload : c.loads[i]? with
  | none => exact .inl rfl
  | some load =>
    dsimp only
    split
    · next range hturn =>
      refine .inr ⟨load, range, rfl, hturn, ?_⟩
      cases settlement with
      | batch batch => exact .batch batch
      | failure error => exact settled_settleFailure c i load range error
    · exact .inl rfl

/-! ## What a resumption does -/

/-- What the resumption of a load does. -/
inductive Resumed (c : Controller screen) (i : ℕ) (load : Load) : Core → Prop
  | ended : Resumed c i load (c.core.ended i load)
  | failed : c.isStale load = false →
    Resumed c i load (Core.ended { c.core with loadingRanges := [], status := .error } i load)
  | loaded (windows : List LoadedWindow) : c.isStale load = false →
    load.turn = some (.returned windows) →
    Resumed c i load (Core.ended { c.core with
      windows := addWindows load.loaded windows
      loadingRanges := load.ranges
      status := .ready } i { load with loaded := addWindows load.loaded windows })
  | next {range : GridRange} {rest : List GridRange} (windows : List LoadedWindow) :
    c.isStale load = false → load.turn = some (.returned windows) →
    Resumed c i load { c.core with
      windows := addWindows load.loaded windows
      loadingRanges := load.ranges
      status := .ready
      loads := c.loads.set i { load with
        loaded := addWindows load.loaded windows
        ranges := rest
        turn := some (.reading range) }
      reads := c.reads ++ [range] }
  | returned {frame : Frame} {frames : List Frame} (windows : List LoadedWindow) :
    load.turn = some (.returned windows) → load.frames = frame :: frames →
    Resumed c i load { c.core with
      loads := c.loads.set i { load with
        frames
        turn := some (.returned (frame.windows ++ windows)) } }
  | part {frame : Frame} {frames : List Frame} {range : GridRange} {rest : List GridRange}
    (windows : List LoadedWindow) : load.turn = some (.returned windows) →
    load.frames = frame :: frames → frame.rest = range :: rest →
    Resumed c i load { c.core with
      loads := c.loads.set i { load with
        frames := ⟨rest, frame.windows ++ windows⟩ :: frames
        turn := some (.reading range) }
      reads := c.reads ++ [range] }
  | unwound {frame : Frame} {frames : List Frame} (error : TabularkError) :
    load.turn = some (.thrown error) → load.frames = frame :: frames →
    Resumed c i load { c.core with
      loads := c.loads.set i { load with frames, turn := some (.thrown error) } }

theorem core_endLoad (c : Controller screen) (i : ℕ) (load : Load) :
    (c.endLoad i load).core = c.core.ended i load := by
  by_cases hcurrent : c.requestAbort = some i
  · simp only [endLoad, Core.ended, setLoad, core, hcurrent, if_true]
  · simp only [endLoad, Core.ended, setLoad, core, hcurrent, if_false]

theorem resumed_loadWindows (c : Controller screen) (i : ℕ) {load : Load}
    {windows : List LoadedWindow} (hturn : load.turn = some (.returned windows)) :
    Resumed c i load (c.loadWindows i load windows).core := by
  rw [loadWindows]
  split_ifs with hstale
  · rw [core_endLoad]
    exact .ended
  · have hfresh : c.isStale load = false := Bool.eq_false_iff.2 hstale
    dsimp only
    cases hranges : load.ranges with
    | nil =>
      dsimp only
      rw [core_endLoad]
      have hloaded := Resumed.loaded (i := i) windows hfresh hturn
      rw [hranges] at hloaded
      exact hloaded
    | cons range rest =>
      have hnext := @Resumed.next _ c i load range rest windows hfresh hturn
      rw [hranges] at hnext
      exact hnext

theorem resumed_loadFailed (c : Controller screen) (i : ℕ) (load : Load) (error : TabularkError) :
    Resumed c i load (c.loadFailed i load error).core := by
  rw [loadFailed]
  split_ifs with hstale
  · rw [core_endLoad]
    exact .ended
  · rw [core_endLoad]
    rw [Bool.or_eq_true, not_or] at hstale
    exact .failed (Bool.eq_false_iff.2 hstale.1)

theorem resume_cases (c : Controller screen) (i : ℕ) :
    c.resume i = c ∨ ∃ load, c.loads[i]? = some load ∧ load.turn ≠ none ∧
      Resumed c i load (c.resume i).core := by
  rw [resume]
  cases hload : c.loads[i]? with
  | none => exact .inl rfl
  | some load =>
    dsimp only
    split
    · next windows hturn _ =>
      exact .inr ⟨load, rfl, by rw [hturn]; exact Option.some_ne_none _,
        resumed_loadWindows c i hturn⟩
    · next windows frame frames hturn hframes =>
      refine .inr ⟨load, rfl, by rw [hturn]; exact Option.some_ne_none _, ?_⟩
      cases hrest : frame.rest with
      | nil => exact .returned windows hturn hframes
      | cons range rest => exact .part windows hturn hframes hrest
    · next error hturn _ =>
      exact .inr ⟨load, rfl, by rw [hturn]; exact Option.some_ne_none _,
        resumed_loadFailed c i load error⟩
    · next error frame frames hturn hframes =>
      exact .inr ⟨load, rfl, by rw [hturn]; exact Option.some_ne_none _,
        .unwound error hturn hframes⟩
    · exact .inl rfl

/-! ## What a microtask does -/

/-- What the microtask of a queued load does. -/
inductive Started (c : Controller screen) : Core → Prop
  | failed (error : TabularkError) :
    layoutRanges c.snapshot.layout.windows screen.maxWindowCells c.mergedCells = .error error →
    Started c { c.core with loadQueued := false, loadingRanges := [], status := .error }
  | ready {ranges : List GridRange × List GridRange} {windows : List LoadedWindow} :
    layoutRanges c.snapshot.layout.windows screen.maxWindowCells c.mergedCells = .ok ranges →
    windows ⊆ c.windows →
    Started c { c.core with
      loadQueued := false
      windows
      loadingRanges := []
      status := .ready }
  | reading {ranges : List GridRange × List GridRange} (range : GridRange) (rest : List GridRange) :
    layoutRanges c.snapshot.layout.windows screen.maxWindowCells c.mergedCells = .ok ranges →
    Started c { c.core with
      loadQueued := false
      requestAbort := some c.loads.length
      loadingRanges := range :: rest
      loads := c.loads ++ [{
        generation := c.generation
        ranges := rest
        turn := some (.reading range) }]
      reads := c.reads ++ [range] }

theorem started_loadGeneration (c : Controller screen) :
    Started c (loadGeneration { c with loadQueued := false }).core := by
  rw [loadGeneration]
  dsimp only
  cases hranges : layoutRanges c.snapshot.layout.windows screen.maxWindowCells c.mergedCells with
  | error error => exact .failed error hranges
  | ok ranges =>
    obtain ⟨visible, overscan⟩ := ranges
    dsimp only
    split_ifs with hempty hall
    · exact .ready hranges (List.nil_subset _)
    · exact .ready hranges (List.Subset.refl _)
    · split
      · next hnil =>
        -- Nothing to read means that everything is there.
        rw [(List.append_eq_nil_iff.1 hnil).1] at hall
        exact absurd rfl hall
      · next range rest _ =>
        have hset : ∀ first second : Load, (c.loads ++ [first]).set
            ((c.loads ++ [first]).length - 1) second = c.loads ++ [second] := by
          intro first second
          rw [List.length_append, List.length_singleton, Nat.add_sub_cancel,
            List.set_append_right _ _ le_rfl, Nat.sub_self]
          rfl
        have hreading := Started.reading range rest hranges
        rw [← hset { generation := c.generation, ranges := rest, turn := none }] at hreading
        exact hreading

theorem runMicrotask_cases (c : Controller screen) :
    c.loadQueued = false ∧ c.runMicrotask = c ∨
      c.disposed = true ∧ c.runMicrotask = { c with loadQueued := false } ∨
        c.loadQueued = true ∧ c.disposed = false ∧ Started c c.runMicrotask.core := by
  rw [runMicrotask]
  by_cases hqueued : c.loadQueued = true
  · rw [if_pos hqueued]
    dsimp only
    by_cases hdisposed : c.disposed = true
    · rw [if_pos hdisposed]
      exact .inr (.inl ⟨hdisposed, rfl⟩)
    · rw [if_neg hdisposed]
      exact .inr (.inr ⟨hqueued, Bool.eq_false_iff.2 hdisposed, started_loadGeneration c⟩)
  · rw [if_neg hqueued]
    exact .inl ⟨Bool.eq_false_iff.2 hqueued, rfl⟩

/-! ## What the other steps do -/

/-- What an entry point or a table event does to the loads. -/
inductive Interrupted (c : Controller screen) : Event screen → Core → Prop
  | same (event : Event screen) : Interrupted c event c.core
  | entered (event : Event screen) : c.isShut = false → Interrupted c event c.core.advance
  | metadata (metadata : TableMetadata) : c.disposed = false →
    Interrupted c (.table (.metadata metadata)) c.core.advance
  | disposed : Interrupted c .dispose { c.core.abort with
      disposed := true
      windows := []
      loadingRanges := []
      status := .closed }
  | failed (error : TabularkError) : Interrupted c (.table (.runtimeError error))
    { c.core.abort with
      loadingRanges := []
      status := .error }
  | closed : Interrupted c (.table .closed) { c.core.abort with
      tableClosed := true
      loadingRanges := []
      status := .closed }
  | closedInError : c.snapshot.status = .error → Interrupted c (.table .closed) { c.core.abort with
      tableClosed := true
      loadingRanges := [] }

/-- Whether a step is an entry point or a table event. -/
def Event.isOutside : Event screen → Bool
  | .microtask => false
  | .settle _ _ => false
  | .resume _ => false
  | _ => true

theorem Entered.interrupted {c c' : Controller screen} (h : c.Entered c') (event : Event screen) :
    Interrupted c event c'.core := by
  rcases h.core with hsame | ⟨hopen, hadvanced⟩
  · rw [hsame]
    exact .same event
  · rw [hadvanced]
    exact .entered event hopen

theorem interrupted_dispose (c : Controller screen) : Interrupted c .dispose c.dispose.core := by
  rw [dispose]
  split_ifs
  · exact .same _
  · exact .disposed

theorem interrupted_handleTableEvent (c : Controller screen) (event : TableEvent) :
    Interrupted c (.table event) (c.handleTableEvent event).core := by
  unfold handleTableEvent
  split_ifs with hdisposed
  · exact .same _
  · cases event with
    | metadata metadata =>
      dsimp only
      rw [core_publish, core_clampInteraction, core_advanceGeneration]
      exact .metadata metadata (Bool.eq_false_iff.2 hdisposed)
    | runtimeError error => exact .failed error
    | closed =>
      dsimp only
      split_ifs with herror
      · exact .closed
      · exact .closedInError (not_not.1 herror)
    | warning => exact .same _

theorem interrupted_step (c : Controller screen) {event : Event screen}
    (h : event.isOutside = true) : Interrupted c event (c.step event).core := by
  cases event with
  | updateViewport viewport => exact (entered_updateViewport c viewport).interrupted _
  | setActiveCell cell scrollIntoView =>
    exact (entered_setActiveCell c cell scrollIntoView).interrupted _
  | ensureCellVisible cell => exact (entered_ensureCellVisible c cell).interrupted _
  | ensureColumnVisible columnIndex =>
    exact (entered_ensureColumnVisible c columnIndex).interrupted _
  | resizeColumn columnIndex width => exact (entered_resizeColumn c columnIndex width).interrupted _
  | applySpreadsheetPresentation presentation =>
    exact (entered_applySpreadsheetPresentation c presentation).interrupted _
  | setMergedCells regions => exact (entered_setMergedCells c regions).interrupted _
  | dispose => exact interrupted_dispose c
  | table event => exact interrupted_handleTableEvent c event
  | microtask => cases h
  | settle load settlement => cases h
  | resume load => cases h

/-! ## Invariants -/

variable {c : Controller screen} {event : Event screen}

/-- The table settles reads with its own values. -/
def Honest (table : ℕ → ℕ → Option String) (c : Controller screen) : Event screen → Prop
  | .settle i (.batch batch) => ∀ load range, c.loads[i]? = some load →
    load.turn = some (.reading range) →
    ∃ existing, batch = batchOf table range.gridRangeToRequest existing
  | _ => True

theorem Interrupted.fair {k : Core} (h : Interrupted c event k) (hc : c.core.Fair table) :
    k.Fair table := by
  have habort := hc.abort
  cases h with
  | same => exact hc
  | entered _ _ => exact ⟨habort.windows, habort.loads⟩
  | metadata _ _ => exact ⟨habort.windows, habort.loads⟩
  | disposed => exact ⟨fun _ h => absurd h List.not_mem_nil, habort.loads⟩
  | failed _ => exact ⟨habort.windows, habort.loads⟩
  | closed => exact ⟨habort.windows, habort.loads⟩
  | closedInError _ => exact ⟨habort.windows, habort.loads⟩

theorem Interrupted.tracked {k : Core} (h : Interrupted c event k) (hc : c.core.Tracked) :
    k.Tracked := by
  have habort := hc.abort
  cases h with
  | same => exact hc
  | entered _ _ => exact ⟨fun _ => rfl, habort.running⟩
  | metadata _ _ => exact ⟨fun _ => rfl, habort.running⟩
  | disposed => exact ⟨fun _ => rfl, habort.running⟩
  | failed _ => exact ⟨fun _ => rfl, habort.running⟩
  | closed => exact ⟨fun _ => rfl, habort.running⟩
  | closedInError _ => exact ⟨fun _ => rfl, habort.running⟩

theorem Started.fair {k : Core} (h : Started c k) (hc : c.core.Fair table) : k.Fair table := by
  cases h with
  | failed _ _ => exact ⟨hc.windows, hc.loads⟩
  | ready _ hwindows => exact ⟨fun w hw => hc.windows w (hwindows hw), hc.loads⟩
  | reading range rest _ =>
    refine ⟨hc.windows, fun load hload => ?_⟩
    rcases List.mem_append.1 hload with hload | hload
    · exact hc.loads load hload
    · rw [List.mem_singleton.1 hload]
      exact fun _ h => absurd h List.not_mem_nil

theorem Started.tracked {k : Core} (h : Started c k) (hqueued : c.loadQueued = true)
    (hc : c.core.Tracked) : k.Tracked := by
  have hnone := hc.queued hqueued
  cases h with
  | failed _ _ => exact ⟨fun _ => hnone, hc.running⟩
  | ready _ _ => exact ⟨fun _ => hnone, hc.running⟩
  | reading range rest _ =>
    refine ⟨nofun, fun i load hload hturn haborted => ?_⟩
    rcases Nat.lt_or_ge i c.loads.length with hi | hi
    · rw [List.getElem?_append_left hi] at hload
      have hcurrent := hc.running i load hload hturn haborted
      rw [hnone] at hcurrent
      cases hcurrent
    · rw [List.getElem?_append_right hi, List.getElem?_singleton] at hload
      split_ifs at hload with hzero
      have heq : i = c.loads.length := by omega
      rw [heq]

theorem mem_windows_of_returned {load : Load} {windows : List LoadedWindow}
    (h : load.turn = some (.returned windows)) (hw : window ∈ windows) :
    window ∈ load.windows := by
  rw [Load.windows, h]
  exact List.mem_append_right _ hw

theorem mem_windows_of_loaded {load : Load} (hw : window ∈ load.loaded) :
    window ∈ load.windows := by
  rw [Load.windows]
  exact List.mem_append_left _ (List.mem_append_left _ hw)

theorem mem_windows_of_frame {load : Load} {frame : Frame}
    (hframe : frame ∈ load.frames) (hw : window ∈ frame.windows) : window ∈ load.windows := by
  rw [Load.windows]
  exact List.mem_append_left _
    (List.mem_append_right _ (List.mem_flatMap.2 ⟨frame, hframe, hw⟩))

/-- More refused reads explain more. -/
theorem Core.Fair.refuse {k : Core} (h : k.Fair table) {refused : List GridRange}
    (hrefused : k.refused <+: refused) : Core.Fair table { k with refused } := by
  obtain ⟨more, rfl⟩ := hrefused
  exact ⟨fun w hw => (h.windows w hw).append more,
    fun load hload w hw => (h.loads load hload w hw).append more⟩

variable {settlement : Settlement}

theorem Settled.fair {k k' : Core} {i : ℕ} {load : Load}
    (h : Settled k i load range settlement k') (hk : k.Fair table)
    (hload : load ∈ k.loads)
    (hbatch : ∀ batch, settlement = .batch batch →
      ∃ existing, batch = batchOf table range.gridRangeToRequest existing) : k'.Fair table := by
  -- Nothing is returned before the read is settled.
  have hold : ∀ w, w ∈ load.loaded ∨ w ∈ load.frames.flatMap Frame.windows → w ∈ load.windows := by
    intro w hw
    rw [Load.windows, List.mem_append, List.mem_append]
    exact .inl hw
  cases h with
  | batch batch =>
    obtain ⟨existing, rfl⟩ := hbatch batch rfl
    refine hk.set i _ fun w hw => ?_
    rw [Load.windows, List.mem_append, List.mem_append] at hw
    rcases hw with hw | hw
    · exact hk.loads load hload w (hold w hw)
    · exact fair_batchWindows _ existing w hw
  | thrown error hrefused =>
    refine (hk.refuse hrefused).set i _ fun w hw => ?_
    rw [Load.windows, List.mem_append, List.mem_append] at hw
    exact (hk.refuse hrefused).loads load hload w (hold w (hw.resolve_right List.not_mem_nil))
  | oversized error hrow hcolumn =>
    have hmore := hk.refuse (List.prefix_append k.refused [range])
    refine hmore.set i _ fun w hw => ?_
    rw [Load.windows, List.mem_append, List.mem_append] at hw
    rcases hw with hw | hw
    · exact hmore.loads load hload w (hold w hw)
    · rw [List.mem_singleton.1 hw]
      exact fair_oversized hrow hcolumn
  | @split first second error _ =>
    have hmore := hk.refuse (List.prefix_append k.refused [range])
    have hset := hmore.set i { load with
      frames := ⟨[second], []⟩ :: load.frames, turn := some (.reading first) } fun w hw => by
        rw [Load.windows, List.mem_append, List.mem_append] at hw
        exact hmore.loads load hload w (hold w (hw.resolve_right List.not_mem_nil))
    exact ⟨hset.windows, hset.loads⟩

theorem Settled.tracked {k k' : Core} {i : ℕ} {load : Load}
    (h : Settled k i load range settlement k') (hk : k.Tracked)
    (hload : k.loads[i]? = some load) (hturn : load.turn ≠ none) : k'.Tracked := by
  have hset : ∀ load' : Load, load'.aborted = load.aborted →
      Core.Tracked { k with loads := k.loads.set i load' } := fun _ => hk.set hload hturn
  cases h with
  | batch batch => exact hset _ rfl
  | thrown error hrefused =>
    have hthrown := hset { load with turn := some (.thrown error) } rfl
    exact ⟨hthrown.queued, hthrown.running⟩
  | oversized error _ _ =>
    have hreturned := hset { load with
      turn := some (.returned [⟨range, [[some oversizedCellPreview]]⟩]) } rfl
    exact ⟨hreturned.queued, hreturned.running⟩
  | @split first second error _ =>
    have hreading := hset { load with
      frames := ⟨[second], []⟩ :: load.frames, turn := some (.reading first) } rfl
    exact ⟨hreading.queued, hreading.running⟩

theorem Resumed.fair {k : Core} {i : ℕ} {load : Load} (h : Resumed c i load k)
    (hc : c.core.Fair table) (hload : load ∈ c.loads) : k.Fair table := by
  have hfair := hc.loads load hload
  -- The windows that are loaded with those that were returned.
  have hadd : ∀ windows, load.turn = some (.returned windows) →
      ∀ w ∈ addWindows load.loaded windows, w.Fair table c.refused := by
    intro windows hturn w hw
    rcases mem_addWindows hw with hw | hw
    · exact hfair w (mem_windows_of_loaded hw)
    · exact hfair w (mem_windows_of_returned hturn hw)
  -- The windows of the frames below.
  have htail : ∀ {frame : Frame} {frames : List Frame} (w : LoadedWindow),
      load.frames = frame :: frames → w ∈ load.loaded ∨ w ∈ frames.flatMap Frame.windows →
      w.Fair table c.refused := by
    intro frame frames w hframes hw
    rcases hw with hw | hw
    · exact hfair w (mem_windows_of_loaded hw)
    · obtain ⟨below, hbelow, hw⟩ := List.mem_flatMap.1 hw
      exact hfair w (mem_windows_of_frame (hframes ▸ List.mem_cons_of_mem _ hbelow) hw)
  -- The windows of the frame that goes on.
  have hframe : ∀ {frame : Frame} {frames : List Frame} {windows : List LoadedWindow}
      (w : LoadedWindow), load.turn = some (.returned windows) → load.frames = frame :: frames →
      w ∈ frame.windows ++ windows → w.Fair table c.refused := by
    intro frame frames windows w hturn hframes hw
    rcases List.mem_append.1 hw with hw | hw
    · exact hfair w (mem_windows_of_frame (hframes ▸ List.mem_cons_self) hw)
    · exact hfair w (mem_windows_of_returned hturn hw)
  cases h with
  | ended => exact hc.ended hload
  | failed _ =>
    have hended := hc.ended (i := i) hload
    exact ⟨hended.windows, hended.loads⟩
  | loaded windows _ hturn =>
    have hset := hc.set i { load with
      loaded := addWindows load.loaded windows, turn := none } fun w hw => by
        rw [Load.windows, List.mem_append, List.mem_append] at hw
        rcases hw with (hw | hw) | hw
        · exact hadd windows hturn w hw
        · obtain ⟨frame, hmem, hw⟩ := List.mem_flatMap.1 hw
          exact hfair w (mem_windows_of_frame hmem hw)
        · exact absurd hw List.not_mem_nil
    exact ⟨hadd windows hturn, hset.loads⟩
  | @next range rest windows _ hturn =>
    have hset := hc.set i { load with
      loaded := addWindows load.loaded windows
      ranges := rest
      turn := some (.reading range) } fun w hw => by
        rw [Load.windows, List.mem_append, List.mem_append] at hw
        rcases hw with (hw | hw) | hw
        · exact hadd windows hturn w hw
        · obtain ⟨frame, hmem, hw⟩ := List.mem_flatMap.1 hw
          exact hfair w (mem_windows_of_frame hmem hw)
        · exact absurd hw List.not_mem_nil
    exact ⟨hadd windows hturn, hset.loads⟩
  | @returned frame frames windows hturn hframes =>
    refine hc.set i _ fun w hw => ?_
    rw [Load.windows, List.mem_append, List.mem_append] at hw
    rcases hw with hw | hw
    · exact htail w hframes hw
    · exact hframe w hturn hframes hw
  | @part frame frames range rest windows hturn hframes _ =>
    have hset := hc.set i { load with
      frames := ⟨rest, frame.windows ++ windows⟩ :: frames
      turn := some (.reading range) } fun w hw => by
        rw [Load.windows, List.mem_append, List.mem_append, List.flatMap_cons,
          List.mem_append] at hw
        rcases hw with (hw | hw | hw) | hw
        · exact htail w hframes (.inl hw)
        · exact hframe w hturn hframes hw
        · exact htail w hframes (.inr hw)
        · exact absurd hw List.not_mem_nil
    exact ⟨hset.windows, hset.loads⟩
  | @unwound frame frames error _ hframes =>
    refine hc.set i _ fun w hw => ?_
    rw [Load.windows, List.mem_append, List.mem_append] at hw
    exact htail w hframes (hw.resolve_right List.not_mem_nil)

theorem Resumed.tracked {k : Core} {i : ℕ} {load : Load} (h : Resumed c i load k)
    (hc : c.core.Tracked) (hload : c.loads[i]? = some load) (hturn : load.turn ≠ none) :
    k.Tracked := by
  have hset : ∀ load' : Load, load'.aborted = load.aborted →
      Core.Tracked { c.core with loads := c.loads.set i load' } := fun _ => hc.set hload hturn
  cases h with
  | ended => exact hc.ended i load
  | failed _ =>
    have hended := hc.ended i load
    exact ⟨hended.queued, hended.running⟩
  | loaded windows _ _ =>
    have hended := hc.ended i { load with loaded := addWindows load.loaded windows }
    exact ⟨hended.queued, hended.running⟩
  | @next range rest windows _ _ =>
    have hreading := hset { load with
      loaded := addWindows load.loaded windows
      ranges := rest
      turn := some (.reading range) } rfl
    exact ⟨hreading.queued, hreading.running⟩
  | returned windows _ _ => exact hset _ rfl
  | @part frame frames range rest windows _ _ _ =>
    have hreading := hset { load with
      frames := ⟨rest, frame.windows ++ windows⟩ :: frames
      turn := some (.reading range) } rfl
    exact ⟨hreading.queued, hreading.running⟩
  | unwound error _ _ => exact hset _ rfl

/-- Every step keeps the values. -/
theorem fair_step (hc : c.core.Fair table) (hhonest : Honest table c event) :
    (c.step event).core.Fair table := by
  cases houtside : event.isOutside with
  | true => exact (interrupted_step c houtside).fair hc
  | false =>
    cases event with
    | microtask =>
      change c.runMicrotask.core.Fair table
      rcases runMicrotask_cases c with ⟨_, hsame⟩ | ⟨_, hsame⟩ | ⟨_, _, hstarted⟩
      · rwa [hsame]
      · rw [hsame]
        exact ⟨hc.windows, hc.loads⟩
      · exact hstarted.fair hc
    | settle i settlement =>
      change (c.settle i settlement).core.Fair table
      rcases settle_cases c i settlement with hsame | ⟨load, range, hload, hturn, hsettled⟩
      · rwa [hsame]
      · refine hsettled.fair hc (List.mem_of_getElem? hload) ?_
        rintro batch rfl
        exact hhonest load range hload hturn
    | resume i =>
      change (c.resume i).core.Fair table
      rcases resume_cases c i with hsame | ⟨load, hload, _, hresumed⟩
      · rwa [hsame]
      · exact hresumed.fair hc (List.mem_of_getElem? hload)
    | _ => cases houtside

/-- Every step knows the load it may still read for. -/
theorem tracked_step (hc : c.core.Tracked) (event : Event screen) :
    (c.step event).core.Tracked := by
  cases houtside : event.isOutside with
  | true => exact (interrupted_step c houtside).tracked hc
  | false =>
    cases event with
    | microtask =>
      change c.runMicrotask.core.Tracked
      rcases runMicrotask_cases c with ⟨_, hsame⟩ | ⟨_, hsame⟩ | ⟨hqueued, _, hstarted⟩
      · rwa [hsame]
      · rw [hsame]
        exact ⟨nofun, hc.running⟩
      · exact hstarted.tracked hqueued hc
    | settle i settlement =>
      change (c.settle i settlement).core.Tracked
      rcases settle_cases c i settlement with hsame | ⟨load, range, hload, hturn, hsettled⟩
      · rwa [hsame]
      · exact hsettled.tracked hc hload (by rw [hturn]; exact Option.some_ne_none _)
    | resume i =>
      change (c.resume i).core.Tracked
      rcases resume_cases c i with hsame | ⟨load, hload, hturn, hresumed⟩
      · rwa [hsame]
      · exact hresumed.tracked hc hload hturn
    | _ => cases houtside

/-! ## The end of a controller -/

/-- Whether a load goes on with the next part of a split range. -/
def ReadsPart (c : Controller screen) (i : ℕ) : Prop :=
  ∃ load frame frames windows, c.loads[i]? = some load ∧
    load.turn = some (.returned windows) ∧ load.frames = frame :: frames ∧ frame.rest ≠ []

/-- A step that does not bring a dead controller back: no microtask finds the table closed
    with a layout that can be loaded, the metadata of a closed table does not change, and no
    part of a split range is left to read. -/
def Sound (c : Controller screen) : Event screen → Prop
  | .microtask => c.loadQueued = true → c.disposed = false → c.tableClosed = true →
    ∃ error, layoutRanges c.snapshot.layout.windows screen.maxWindowCells c.mergedCells =
      .error error
  | .table (.metadata _) => c.disposed = true ∨ c.tableClosed = false
  | .resume i => c.core.Dead → ¬c.ReadsPart i
  | _ => True

/-- A step leaves a dead controller at rest: it is neither loading nor ready, and reads
    nothing more. -/
structure Quiet (c : Controller screen) (event : Event screen) : Prop where
  status : (c.step event).core.Dead →
    (c.step event).snapshot.status ≠ .loading ∧ (c.step event).snapshot.status ≠ .ready
  reads : c.core.Dead → (c.step event).reads = c.reads

/-- The load of a step that changes what shows is the current one. -/
theorem requestAbort_of_fresh (hc : c.core.Tracked) {i : ℕ} {load : Load}
    (hload : c.loads[i]? = some load) (hturn : load.turn ≠ none) (hfresh : c.isStale load = false) :
    c.requestAbort = some i := by
  rw [isStale, Bool.or_eq_false_iff] at hfresh
  exact hc.running i load hload hturn hfresh.2

theorem not_dead_of_isShut (h : c.isShut = false) : ¬c.core.Dead := by
  rw [isShut, Bool.or_eq_false_iff, Bool.or_eq_false_iff] at h
  rintro (hdisposed | hclosed)
  · exact absurd (hdisposed.symm.trans h.1.1) (by decide)
  · exact absurd (hclosed.symm.trans h.1.2) (by decide)

theorem Interrupted.still {k : Core} (h : Interrupted c event k) (hc : c.core.Still)
    (hsound : Sound c event) : k.Still ∧ k.reads = c.reads := by
  refine ⟨?_, by cases h <;> rfl⟩
  cases h with
  | same => exact hc
  | entered _ hopen =>
    have hlive := not_dead_of_isShut hopen
    exact ⟨fun hdead => absurd hdead hlive, fun hdead => absurd hdead hlive⟩
  | metadata _ hdisposed =>
    have hlive : ¬c.core.Dead := by
      rintro (hdead | hclosed)
      · exact absurd (hdead.symm.trans hdisposed) (by decide)
      · rcases hsound with hdead | hopen
        · exact absurd (hdead.symm.trans hdisposed) (by decide)
        · exact absurd (hclosed.symm.trans hopen) (by decide)
    exact ⟨fun hdead => absurd hdead hlive, fun hdead => absurd hdead hlive⟩
  | disposed => exact ⟨fun _ => rfl, fun _ => ⟨nofun, nofun⟩⟩
  | failed _ => exact ⟨fun _ => rfl, fun _ => ⟨nofun, nofun⟩⟩
  | closed => exact ⟨fun _ => rfl, fun _ => ⟨nofun, nofun⟩⟩
  | closedInError herror =>
    refine ⟨fun _ => rfl, fun _ => ?_⟩
    change c.snapshot.status ≠ _ ∧ c.snapshot.status ≠ _
    rw [herror]
    exact ⟨nofun, nofun⟩

theorem Started.still {k : Core} (h : Started c k) (hc : c.core.Still)
    (hqueued : c.loadQueued = true) (hdisposed : c.disposed = false)
    (hsound : Sound c .microtask) : k.Still ∧ (c.core.Dead → k.reads = c.reads) := by
  have hlayout : ∀ {ranges : List GridRange × List GridRange},
      layoutRanges c.snapshot.layout.windows screen.maxWindowCells c.mergedCells = .ok ranges →
      ¬c.core.Dead := by
    rintro ranges hok (hdead | hclosed)
    · exact absurd (hdead.symm.trans hdisposed) (by decide)
    · obtain ⟨error, herror⟩ := hsound hqueued hdisposed hclosed
      rw [hok] at herror
      cases herror
  cases h with
  | failed _ _ => exact ⟨⟨hc.requestAbort, fun _ => ⟨nofun, nofun⟩⟩, fun _ => rfl⟩
  | ready hok _ =>
    exact ⟨⟨hc.requestAbort, fun hdead => absurd hdead (hlayout hok)⟩, fun _ => rfl⟩
  | reading range rest hok =>
    exact ⟨⟨fun hdead => absurd hdead (hlayout hok), fun hdead => absurd hdead (hlayout hok)⟩,
      fun hdead => absurd hdead (hlayout hok)⟩

theorem Settled.still {k : Core} {i : ℕ} {load : Load}
    (h : Settled c.core i load range settlement k)
    (htracked : c.core.Tracked) (hc : c.core.Still) (hload : c.loads[i]? = some load)
    (hturn : load.turn ≠ none) : k.Still ∧ (c.core.Dead → k.reads = c.reads) := by
  cases h with
  | batch _ => exact ⟨⟨hc.requestAbort, hc.status⟩, fun _ => rfl⟩
  | thrown _ _ => exact ⟨⟨hc.requestAbort, hc.status⟩, fun _ => rfl⟩
  | oversized _ _ _ => exact ⟨⟨hc.requestAbort, hc.status⟩, fun _ => rfl⟩
  | split _ haborted =>
    refine ⟨⟨hc.requestAbort, hc.status⟩, fun hdead => ?_⟩
    have hcurrent := htracked.running i load hload hturn haborted
    rw [hc.requestAbort hdead] at hcurrent
    cases hcurrent

theorem Resumed.still {k : Core} {i : ℕ} {load : Load} (h : Resumed c i load k)
    (htracked : c.core.Tracked) (hc : c.core.Still) (hload : c.loads[i]? = some load)
    (hturn : load.turn ≠ none) (hsound : Sound c (.resume i)) :
    k.Still ∧ (c.core.Dead → k.reads = c.reads) := by
  have hlive : c.isStale load = false → ¬c.core.Dead := by
    intro hfresh hdead
    have hcurrent := requestAbort_of_fresh htracked hload hturn hfresh
    have hnone : c.requestAbort = none := hc.requestAbort hdead
    rw [hnone] at hcurrent
    cases hcurrent
  cases h with
  | ended =>
    refine ⟨⟨fun hdead => ?_, hc.status⟩, fun _ => rfl⟩
    change (if c.core.requestAbort = some i then none else c.core.requestAbort) = none
    rw [hc.requestAbort hdead]
    rfl
  | failed hfresh =>
    exact ⟨⟨fun hdead => absurd hdead (hlive hfresh), fun hdead => absurd hdead (hlive hfresh)⟩,
      fun _ => rfl⟩
  | loaded _ hfresh _ =>
    exact ⟨⟨fun hdead => absurd hdead (hlive hfresh), fun hdead => absurd hdead (hlive hfresh)⟩,
      fun _ => rfl⟩
  | next _ hfresh _ =>
    exact ⟨⟨fun hdead => absurd hdead (hlive hfresh), fun hdead => absurd hdead (hlive hfresh)⟩,
      fun hdead => absurd hdead (hlive hfresh)⟩
  | returned _ _ _ => exact ⟨⟨hc.requestAbort, hc.status⟩, fun _ => rfl⟩
  | part windows hreturned hframes hrest =>
    refine ⟨⟨hc.requestAbort, hc.status⟩, fun hdead => absurd ?_ (hsound hdead)⟩
    exact ⟨load, _, _, windows, hload, hreturned,
      hframes, by rw [hrest]; exact List.cons_ne_nil _ _⟩
  | unwound _ _ _ => exact ⟨⟨hc.requestAbort, hc.status⟩, fun _ => rfl⟩

/-- A sound step leaves a dead controller at rest. -/
theorem still_step (htracked : c.core.Tracked) (hc : c.core.Still) (hsound : Sound c event) :
    (c.step event).core.Still ∧ (c.core.Dead → (c.step event).reads = c.reads) := by
  cases houtside : event.isOutside with
  | true =>
    have hstill := (interrupted_step c houtside).still hc hsound
    exact ⟨hstill.1, fun _ => hstill.2⟩
  | false =>
    cases event with
    | microtask =>
      change c.runMicrotask.core.Still ∧ (_ → c.runMicrotask.core.reads = _)
      rcases runMicrotask_cases c with ⟨_, hsame⟩ | ⟨_, hsame⟩ | ⟨hqueued, hdisposed, hstarted⟩
      · rw [hsame]
        exact ⟨hc, fun _ => rfl⟩
      · rw [hsame]
        exact ⟨⟨hc.requestAbort, hc.status⟩, fun _ => rfl⟩
      · exact hstarted.still hc hqueued hdisposed hsound
    | settle i settlement =>
      change (c.settle i settlement).core.Still ∧ (_ → (c.settle i settlement).core.reads = _)
      rcases settle_cases c i settlement with hsame | ⟨load, range, hload, hturn, hsettled⟩
      · rw [hsame]
        exact ⟨hc, fun _ => rfl⟩
      · exact hsettled.still htracked hc hload (by rw [hturn]; exact Option.some_ne_none _)
    | resume i =>
      change (c.resume i).core.Still ∧ (_ → (c.resume i).core.reads = _)
      rcases resume_cases c i with hsame | ⟨load, hload, hturn, hresumed⟩
      · rw [hsame]
        exact ⟨hc, fun _ => rfl⟩
      · exact hresumed.still htracked hc hload hturn hsound
    | _ => cases houtside

/-- Only sound steps leave a dead controller at rest. -/
theorem sound_of_quiet (h : Quiet c event) : Sound c event := by
  cases event with
  | microtask =>
    intro hqueued hdisposed hclosed
    have hstarted : Started c c.runMicrotask.core := by
      rcases runMicrotask_cases c with ⟨hidle, _⟩ | ⟨hdead, _⟩ | ⟨_, _, hstarted⟩
      · exact absurd (hqueued.symm.trans hidle) (by decide)
      · exact absurd (hdead.symm.trans hdisposed) (by decide)
      · exact hstarted
    have hstatus : c.runMicrotask.core.Dead →
        c.runMicrotask.core.status ≠ .loading ∧ c.runMicrotask.core.status ≠ .ready := h.status
    have hreads : c.runMicrotask.core.reads = c.reads := h.reads (.inr hclosed)
    generalize c.runMicrotask.core = k at hstarted hstatus hreads
    cases hstarted with
    | failed error herror => exact ⟨error, herror⟩
    | ready _ _ => exact absurd rfl (hstatus (.inr hclosed)).2
    | reading range rest _ => exact absurd hreads (by simp)
  | table event =>
    cases event with
    | metadata metadata =>
      change c.disposed = true ∨ c.tableClosed = false
      by_contra hdead
      rw [not_or, Bool.not_eq_true, Bool.not_eq_false] at hdead
      have hcore : (c.step (.table (.metadata metadata))).core = c.core.advance := by
        change (c.handleTableEvent (.metadata metadata)).core = _
        unfold handleTableEvent
        rw [if_neg (by rw [hdead.1]; decide), core_publish, core_clampInteraction,
          core_advanceGeneration]
        rfl
      have hstatus : (c.step (.table (.metadata metadata))).core.Dead →
          (c.step (.table (.metadata metadata))).core.status ≠ .loading ∧
            (c.step (.table (.metadata metadata))).core.status ≠ .ready := h.status
      rw [hcore] at hstatus
      exact (hstatus (.inr hdead.2)).1 rfl
    | _ => trivial
  | resume i =>
    rintro hdead ⟨load, frame, frames, windows, hload, hturn, hframes, hrest⟩
    obtain ⟨range, rest, hrest⟩ := List.exists_cons_of_ne_nil hrest
    have hreads : (c.resume i).reads = c.reads := h.reads hdead
    rw [resume, hload] at hreads
    dsimp only at hreads
    rw [hturn, hframes] at hreads
    dsimp only at hreads
    rw [hrest] at hreads
    exact absurd hreads (by simp [readRange, setLoad])
  | _ => trivial

/-! ## Older generations -/

/-- A load of an older generation that is settled or resumed changes nothing that shows. -/
def KeepsStale (c : Controller screen) (event : Event screen) : Prop :=
  ∀ i load, (event = .resume i ∨ ∃ settlement, event = .settle i settlement) →
    c.loads[i]? = some load → load.generation < c.generation →
    (c.step event).windows = c.windows ∧ (c.step event).loadingRanges = c.loadingRanges ∧
      (c.step event).snapshot.status = c.snapshot.status

theorem keepsStale_step (c : Controller screen) (event : Event screen) : KeepsStale c event := by
  rintro i load (rfl | ⟨settlement, rfl⟩) hload hold
  · have hstale : c.isStale load = true := by
      simp [isStale, hold.ne]
    have hkept : (c.resume i).core.windows = c.windows ∧
        (c.resume i).core.loadingRanges = c.loadingRanges ∧
        (c.resume i).core.status = c.snapshot.status := by
      rcases resume_cases c i with hsame | ⟨load', hload', _, hresumed⟩
      · rw [hsame]
        exact ⟨rfl, rfl, rfl⟩
      · obtain rfl : load = load' := Option.some.inj (hload.symm.trans hload')
        generalize (c.resume i).core = k at hresumed
        cases hresumed with
        | failed hfresh => exact absurd (hstale.symm.trans hfresh) (by decide)
        | loaded _ hfresh _ => exact absurd (hstale.symm.trans hfresh) (by decide)
        | next _ hfresh _ => exact absurd (hstale.symm.trans hfresh) (by decide)
        | _ => exact ⟨rfl, rfl, rfl⟩
    exact hkept
  · have hkept : (c.settle i settlement).core.windows = c.windows ∧
        (c.settle i settlement).core.loadingRanges = c.loadingRanges ∧
        (c.settle i settlement).core.status = c.snapshot.status := by
      rcases settle_cases c i settlement with hsame | ⟨load', range, _, _, hsettled⟩
      · rw [hsame]
        exact ⟨rfl, rfl, rfl⟩
      · generalize (c.settle i settlement).core = k at hsettled
        cases hsettled <;> exact ⟨rfl, rfl, rfl⟩
    exact hkept

/-! ## Runs -/

/-- A loaded cell shows the value of the table, or that the read of this one cell was
    refused. -/
def Shows (table : ℕ → ℕ → Option String) (c : Controller screen) : Prop :=
  ∀ rowIndex columnIndex value, c.getCell rowIndex columnIndex = .loaded value →
    value = table rowIndex columnIndex ∨ value = some oversizedCellPreview ∧
      ⟨rowIndex, rowIndex + 1, columnIndex, columnIndex + 1⟩ ∈ c.refused

theorem shows_of_fair (h : c.core.Fair table) : Shows table c := by
  intro rowIndex columnIndex value hvalue
  rw [getCell] at hvalue
  by_cases hbounds : c.snapshot.layout.rowCount ≤ rowIndex ∨ c.columnWidths.length ≤ columnIndex
  · rw [if_pos hbounds] at hvalue
    cases hvalue
  · rw [if_neg hbounds] at hvalue
    cases hfind : c.windows.find? fun window =>
      window.range.rangeContains rowIndex columnIndex with
    | some window =>
      rw [hfind] at hvalue
      cases hvalue
      have hcontains := List.find?_some hfind
      exact h.windows window (List.mem_of_find?_eq_some hfind) rowIndex columnIndex hcontains
    | none =>
      rw [hfind] at hvalue
      dsimp only at hvalue
      split_ifs at hvalue

/-- The invariant of a controller. -/
structure Invariant (table : ℕ → ℕ → Option String) (c : Controller screen) : Prop where
  fair : c.core.Fair table
  tracked : c.core.Tracked
  still : c.core.Still

theorem invariant_new (table : ℕ → ℕ → Option String) (metadata : TableMetadata)
    (viewport : screen.Viewport) : Invariant table (new screen metadata viewport) where
  fair := ⟨fun _ h => absurd h List.not_mem_nil, fun _ h => absurd h List.not_mem_nil⟩
  tracked := ⟨nofun, fun _ _ h => absurd h (by simp [core, new])⟩
  still := ⟨fun _ => rfl, fun h => absurd h (by simp [Core.Dead, core, new])⟩

theorem Invariant.step (h : Invariant table c) (hhonest : Honest table c event)
    (hsound : Sound c event) : Invariant table (c.step event) where
  fair := fair_step h.fair hhonest
  tracked := tracked_step h.tracked event
  still := (still_step h.tracked h.still hsound).1

/-- A loaded cell is always right and old loads change nothing; and a dead controller stays at
    rest exactly in the runs whose steps are all sound. -/
theorem faithful_iff (table : ℕ → ℕ → Option String) (metadata : TableMetadata)
    (viewport : screen.Viewport) {es : List (Event screen)}
    (hhonest : Along step (Honest table) (new screen metadata viewport) es) :
    Along step (fun c event => Shows table (c.step event) ∧ KeepsStale c event ∧ Quiet c event)
        (new screen metadata viewport) es ↔
      Along step Sound (new screen metadata viewport) es := by
  have hnew := invariant_new table metadata viewport
  constructor
  · intro h
    have hboth := (hhonest.and h).invariant (I := Invariant table)
      (fun c event hc he => hc.step he.1 (sound_of_quiet he.2.2.2)) hnew
    exact hboth.1.imp fun c event he => sound_of_quiet he.2.2.2.2
  · intro h
    have hboth := (hhonest.and h).invariant (I := Invariant table)
      (fun c event hc he => hc.step he.1 he.2) hnew
    refine hboth.1.imp fun c event ⟨hc, hhonest, hsound⟩ => ?_
    have hstill := still_step hc.tracked hc.still hsound
    exact ⟨shows_of_fair (fair_step hc.fair hhonest), keepsStale_step c event,
      hstill.1.status, hstill.2⟩

/-! ## A table of one cell -/

/-- A screen that shows the one cell of a table. -/
def singleScreen : Screen where
  Width := ℕ
  Viewport := ℕ
  RowEntry := Unit
  Pixels := Unit
  maxWindowCells := 1
  columnWidth _ := 1
  clampWidth width := width
  createTableLayout _ _ _ _ _ _ := (⟨⟨0, 1⟩, ⟨0, 1⟩, ⟨0, 1⟩, ⟨0, 1⟩, ⟨0, 0⟩, ⟨0, 0⟩⟩, ())
  physicalViewport _ viewport := viewport
  scrollCell _ viewport _ := viewport
  scrollColumn _ viewport _ := viewport
  visibleCell _ cell := some cell

/-- The metadata of a table of one cell. -/
def singleMetadata : TableMetadata where
  tableId := "table"
  name := "table"
  revision := 0
  extent := ⟨.exact 1, .exact 1⟩
  schema := ⟨0, [⟨"column", [], 0, .utf8, true⟩], Nat.zero_le _, rfl⟩
  capabilities := .delimited .full

/-- The value of that cell. -/
def singleTable (_ _ : ℕ) : Option String := some "value"

/-- The table is closed while a load is queued, and is read all the same. -/
theorem reads_closedTable :
    Along step (Honest singleTable) (new singleScreen singleMetadata (0 : ℕ))
        [.updateViewport (1 : ℕ), .table .closed, .microtask] ∧
      ¬Along step (fun c event => Shows singleTable (c.step event) ∧ KeepsStale c event ∧
          Quiet c event) (new singleScreen singleMetadata (0 : ℕ))
        [.updateViewport (1 : ℕ), .table .closed, .microtask] := by
  refine ⟨⟨trivial, trivial, trivial, trivial⟩, fun h => ?_⟩
  have hquiet := h.2.2.1.2.2
  have hreads := hquiet.reads (.inr rfl)
  revert hreads
  decide +kernel

/-- The range that a load waits for. -/
def readingOf (load : Load) : Option GridRange :=
  match load.turn with
  | some (.reading range) => some range
  | _ => none

/-- The cell is read and shown. -/
theorem faithful_singleTable :
    Along step (fun c event => Shows singleTable (c.step event) ∧ KeepsStale c event ∧
        Quiet c event) (new singleScreen singleMetadata (0 : ℕ))
      [.updateViewport (1 : ℕ), .microtask,
        .settle 0 (.batch (batchOf singleTable ⟨0, 1, 0, 1⟩ 1)), .resume 0] := by
  refine (@faithful_iff singleScreen singleTable singleMetadata (0 : ℕ) _ ?_).2 ?_
  · refine ⟨trivial, trivial, ?_, trivial, trivial⟩
    intro load range hload hturn
    have hloads : ((((new singleScreen singleMetadata (0 : ℕ)).step
        (.updateViewport (1 : ℕ))).step .microtask).loads.map readingOf)[0]? =
          some (some ⟨0, 1, 0, 1⟩) := by
      decide +kernel
    rw [List.getElem?_map, hload, Option.map_some, readingOf, hturn] at hloads
    obtain rfl := Option.some.inj (Option.some.inj hloads)
    exact ⟨1, rfl⟩
  · refine ⟨trivial, ?_, trivial, ?_, trivial⟩
    · rintro - - hclosed
      cases hclosed
    · have hlive : ((((new singleScreen singleMetadata (0 : ℕ)).step
          (.updateViewport (1 : ℕ))).step .microtask).step
            (.settle 0 (.batch (batchOf singleTable ⟨0, 1, 0, 1⟩ 1)))).isShut = false := by
        decide +kernel
      exact fun hdead => absurd hdead (not_dead_of_isShut hlive)

end Controller

end Tabulark.View
