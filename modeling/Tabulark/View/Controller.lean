import Tabulark.View.Windows

/-!
# The view controller

`Controller` keeps the cells that a table view shows. Whatever changes the
layout starts a new generation: the load of the old one is aborted, and a
microtask starts a load of the new one, which reads range after range. A read
that is too large is split, down to a single cell, which is then shown as too
large itself.

What runs without interruption is one step: an entry point, a table event, the
queued microtask, the settlement of a read up to the next `await`, and the
resumption of an awaiting function. A load is a stack of awaiting functions:
`loadGeneration` at the bottom, and above it a `readRangeWindows` for every split
range it is inside of.

Where things are on the screen is computed in floating point, and is left to a
`Screen`. The selection is left out: it is only shown.
-/

namespace Tabulark.View

/-- A position in the table. -/
structure CellPosition where
  rowIndex : ℕ
  columnIndex : ℕ
  deriving DecidableEq, Repr

/-- What the controller keeps of a layout: the extent of the table, what shows, and where. -/
structure Layout (Pixels : Type) where
  rowCount : ℕ
  columnCount : ℕ
  windows : Windows
  pixels : Pixels

/-- The presentation of a worksheet. Row entries are only laid out. -/
structure SpreadsheetPresentation (Width RowEntry : Type) where
  tableId : String
  /-- The index, the size and the visibility of columns. -/
  columns : List (ℕ × Option Width × Bool)
  rows : List RowEntry
  frozenRows : ℕ
  frozenColumns : ℕ

/-- The layout of the screen, and the configured sizes. -/
structure Screen where
  Width : Type
  Viewport : Type
  RowEntry : Type
  Pixels : Type
  [decEqWidth : DecidableEq Width]
  [decEqViewport : DecidableEq Viewport]
  maxWindowCells : ℕ
  /-- The width of a column at first. -/
  columnWidth : String → Width
  clampWidth : Width → Width
  /-- What shows, given the extent, the widths of the columns and whether they are hidden,
      the viewport, the rows of the presentation and the frozen rows and columns. -/
  createTableLayout : ℕ → List (Width × Bool) → Viewport → List RowEntry → ℕ → ℕ →
    Windows × Pixels
  /-- The viewport at the scroll offsets of a layout. -/
  physicalViewport : Pixels → Viewport → Viewport
  /-- The viewport scrolled to a cell or a column. -/
  scrollCell : Pixels → Viewport → CellPosition → Viewport
  scrollColumn : Pixels → Viewport → ℕ → Viewport
  /-- The visible cell closest to a cell. -/
  visibleCell : Pixels → CellPosition → Option CellPosition

attribute [instance] Screen.decEqWidth Screen.decEqViewport

/-- What the controller says of itself. -/
inductive TableViewStatus
  | loading
  | ready
  | error
  | closed
  deriving DecidableEq, Repr

/-- What listeners see. -/
structure TableViewSnapshot (screen : Screen) where
  generation : ℕ
  status : TableViewStatus
  metadata : TableMetadata
  layout : Layout screen.Pixels
  activeCell : Option CellPosition

/-- Loaded cells: the display values of a range, row by row. -/
structure LoadedWindow where
  range : GridRange
  rows : List (List (Option String))
  deriving DecidableEq, Repr

/-- The value of a cell in a window. -/
def LoadedWindow.value (window : LoadedWindow) (rowIndex columnIndex : ℕ) : Option String :=
  (window.rows.getD (rowIndex - window.range.rowStart) []).getD
    (columnIndex - window.range.columnStart) none

/-- The batch of a read. -/
structure DisplayBatch where
  range : RangeRequest
  rows : List (List (Option String))

/-- What an awaiting function waits for, or what it has yet to be told: a read, the windows
    that a call returned, or the error it threw. -/
inductive Turn
  | reading (range : GridRange)
  | returned (windows : List LoadedWindow)
  | thrown (error : TabularkError)

/-- A `readRangeWindows` inside the parts of a range that it split. -/
structure Frame where
  rest : List GridRange
  windows : List LoadedWindow

/-- A call of `loadGeneration` that reads ranges. Its abort controller is its own. -/
structure Load where
  generation : ℕ
  aborted : Bool := false
  /-- The ranges after the current one. -/
  ranges : List GridRange
  loaded : List LoadedWindow := []
  frames : List Frame := []
  /-- What it waits for, until it has ended. -/
  turn : Option Turn

/-- Aborts a load. -/
def abortLoad (loads : List Load) : Option ℕ → List Load
  | some i => loads.modify i fun load => { load with aborted := true }
  | none => loads

/-- The state of a controller, and of the calls of `loadGeneration` that were made. An abort
    controller is named by the position of its load. `reads` are the reads issued so far, and
    `refused` are the ranges of those that exceeded a byte limit. -/
structure Controller (screen : Screen) where
  metadata : TableMetadata
  viewport : screen.Viewport
  columnWidths : List screen.Width
  hiddenColumns : List Bool
  presentationRows : List screen.RowEntry := []
  frozenRows : ℕ := 0
  frozenColumns : ℕ := 0
  mergedCells : List MergedCellRegion := []
  snapshot : TableViewSnapshot screen
  activeCell : Option CellPosition := none
  windows : List LoadedWindow := []
  loadingRanges : List GridRange := []
  requestAbort : Option ℕ := none
  adaptiveRowLimit : ℕ := maxSafeInteger
  adaptiveColumnLimit : ℕ := maxSafeInteger
  generation : ℕ := 0
  loadQueued : Bool := false
  disposed : Bool := false
  tableClosed : Bool := false
  loads : List Load := []
  reads : List GridRange := []
  refused : List GridRange := []

/-- The text in place of a value that cannot be read. -/
def oversizedCellPreview : String := "[Value exceeds the preview byte limit]"

/-- A part of a split range has at most half of its rows, but no later read is cut below
    this many. -/
def minAdaptiveRowLimit : ℕ := 4

/-- Whether an error is that of a read that is too large. -/
def isAdaptiveRangeByteLimit (error : TabularkError) : Bool :=
  error.code = .resourceLimit &&
    [some (.text "typed-batch-output"), some (.text "typed-batch-decoded"),
      some (.text "compressed-pages"), some (.text "decompressed-pages"),
      some (.text "parquet-operation")].contains (error.detail "resource")

/-- The range of a batch. -/
def batchGridRange (batch : DisplayBatch) : GridRange where
  rowStart := batch.range.rowStart
  rowEnd := batch.range.rowStart + batch.range.rowCount
  columnStart := batch.range.columnStart
  columnEnd := batch.range.columnStart + batch.range.columnCount

/-- The value of an exact or partial extent. -/
def extentValue (extent : AxisExtent) : ℕ := extent.value.getD 0

/-- A cell within the table, if it has cells. -/
def clampCell (cell : CellPosition) (rowCount columnCount : ℕ) : Option CellPosition :=
  if rowCount = 0 ∨ columnCount = 0 then none
  else some ⟨min (rowCount - 1) cell.rowIndex, min (columnCount - 1) cell.columnIndex⟩

/-- Merged regions within the table, in order, each of them once. -/
def normalizeMergedCells (regions : List MergedCellRegion) (rowCount columnCount : ℕ) :
    List MergedCellRegion :=
  ((regions.filter fun region => region.rowStart < region.rowEnd &&
    region.columnStart < region.columnEnd && region.rowEnd ≤ rowCount &&
    region.columnEnd ≤ columnCount).eraseDups).mergeSort fun left right =>
      [left.rowStart, left.columnStart, left.rowEnd, left.columnEnd] ≤
        [right.rowStart, right.columnStart, right.rowEnd, right.columnEnd]

namespace Controller

variable {screen : Screen}

/-! ## Snapshots -/

/-- The layout of the current state. -/
def layout (c : Controller screen) : Layout screen.Pixels :=
  let rowCount := extentValue c.metadata.extent.rows
  let shown := screen.createTableLayout rowCount (c.columnWidths.zip c.hiddenColumns) c.viewport
    c.presentationRows c.frozenRows c.frozenColumns
  { rowCount
    columnCount := c.metadata.schema.columns.length
    windows := shown.1
    pixels := shown.2 }

/-- Lays the table out again. -/
def rebuildSnapshot (c : Controller screen) (status : TableViewStatus) : Controller screen :=
  { c with
    viewport := screen.physicalViewport c.layout.pixels c.viewport
    snapshot := {
      generation := c.generation
      status
      metadata := c.metadata
      layout := c.layout
      activeCell := c.activeCell } }

/-- Publishes the active cell. -/
def publish (c : Controller screen) : Controller screen :=
  { c with snapshot := { c.snapshot with activeCell := c.activeCell } }

/-- Aborts the load that may still be read for. -/
def abortRequest (c : Controller screen) : Controller screen :=
  { c with
    loads := abortLoad c.loads c.requestAbort
    requestAbort := none }

/-- Queues a microtask that loads, unless there is one. -/
def queueLoad (c : Controller screen) : Controller screen :=
  if c.loadQueued || c.disposed then c else { c with loadQueued := true }

/-- Starts a new generation. -/
def advanceGeneration (c : Controller screen) : Controller screen :=
  queueLoad (rebuildSnapshot { abortRequest { c with generation := c.generation + 1 } with
    loadingRanges := [] } .loading)

/-! ## Entry points -/

/-- Whether entry points refuse to be called. -/
def isShut (c : Controller screen) : Bool :=
  c.disposed || c.tableClosed || c.snapshot.status = .closed

def updateViewport (c : Controller screen) (viewport : screen.Viewport) : Controller screen :=
  if c.isShut then c
  else if viewport = c.viewport then c
  else { c with viewport }.advanceGeneration

/-- The first cell of the merged region of a cell. -/
def mergeAnchor (c : Controller screen) (cell : CellPosition) : CellPosition :=
  match c.mergedCells.find? fun region => region.rangeContains cell.rowIndex cell.columnIndex with
  | some region => ⟨region.rowStart, region.columnStart⟩
  | none => cell

/-- Scrolls to a cell, and whether that changed the viewport. -/
def scrollCellIntoView (c : Controller screen) (cell : CellPosition) : Controller screen × Bool :=
  let viewport := screen.scrollCell c.snapshot.layout.pixels c.viewport cell
  if viewport = c.viewport then (c, false) else ({ c with viewport }, true)

def setActiveCell (c : Controller screen) (cell : CellPosition) (scrollIntoView : Bool) :
    Controller screen :=
  if c.isShut then c
  else
    match (clampCell cell c.snapshot.layout.rowCount c.snapshot.layout.columnCount).bind
      fun clamped => screen.visibleCell c.snapshot.layout.pixels (c.mergeAnchor clamped) with
    | none => c
    | some next =>
      let c := { c with activeCell := some next }
      let scrolled := c.scrollCellIntoView next
      if scrollIntoView && scrolled.2 then scrolled.1.advanceGeneration else c.publish

def ensureCellVisible (c : Controller screen) (cell : CellPosition) : Controller screen :=
  if c.isShut then c
  else
    match clampCell cell c.snapshot.layout.rowCount c.snapshot.layout.columnCount with
    | none => c
    | some next =>
      let scrolled := c.scrollCellIntoView next
      if scrolled.2 then scrolled.1.advanceGeneration else c

def ensureColumnVisible (c : Controller screen) (columnIndex : ℕ) : Controller screen :=
  if c.isShut then c
  else if c.columnWidths.length ≤ columnIndex then c
  else
    let viewport := screen.scrollColumn c.snapshot.layout.pixels c.viewport columnIndex
    if viewport = c.viewport then c else { c with viewport }.advanceGeneration

def resizeColumn (c : Controller screen) (columnIndex : ℕ) (width : screen.Width) :
    Controller screen :=
  if c.isShut then c
  else if c.columnWidths.length ≤ columnIndex then c
  else if c.columnWidths[columnIndex]? = some (screen.clampWidth width) then c
  else { c with
    columnWidths := c.columnWidths.set columnIndex (screen.clampWidth width) }.advanceGeneration

/-- Keeps the active cell within the table. -/
def clampInteraction (c : Controller screen) : Controller screen :=
  match c.activeCell with
  | none => c
  | some cell =>
    let activeCell := (clampCell cell (extentValue c.metadata.extent.rows)
      c.metadata.schema.columns.length).bind fun clamped =>
        screen.visibleCell c.snapshot.layout.pixels (c.mergeAnchor clamped)
    { c with activeCell }

def applySpreadsheetPresentation (c : Controller screen)
    (presentation : SpreadsheetPresentation screen.Width screen.RowEntry) : Controller screen :=
  if c.isShut then c
  else if presentation.tableId ≠ c.metadata.tableId then c
  else
    let entries := presentation.columns.filter fun entry => entry.1 < c.columnWidths.length
    let hidden := entries.foldl (fun hidden entry => hidden.set entry.1 entry.2.2)
      (List.replicate c.columnWidths.length false)
    let widths := entries.foldl (fun widths entry =>
      match entry.2.1 with
      | some size => widths.set entry.1 (screen.clampWidth size)
      | none => widths) c.columnWidths
    ({ c with
      columnWidths := widths
      hiddenColumns := hidden
      presentationRows := presentation.rows
      frozenRows := presentation.frozenRows
      frozenColumns := presentation.frozenColumns
      mergedCells := [] }.advanceGeneration).clampInteraction.publish

def setMergedCells (c : Controller screen) (regions : List MergedCellRegion) : Controller screen :=
  if c.isShut then c
  else
    let normalized := normalizeMergedCells regions c.snapshot.layout.rowCount
      c.snapshot.layout.columnCount
    if normalized = c.mergedCells then c
    else { c with mergedCells := normalized }.clampInteraction.advanceGeneration

def dispose (c : Controller screen) : Controller screen :=
  if c.disposed then c
  else
    let c := abortRequest { c with disposed := true }
    { c with
      windows := []
      loadingRanges := []
      snapshot := { c.snapshot with status := .closed, activeCell := none } }

/-! ## Table events -/

/-- What a table handle reports. -/
inductive TableEvent
  | metadata (metadata : TableMetadata)
  | runtimeError (error : TabularkError)
  | closed
  | warning

/-- The widths of columns that are still there, and of new ones. -/
def reconcileColumnWidths (c : Controller screen) (next : TableMetadata) : List screen.Width :=
  let byId := ((c.snapshot.metadata.schema.columns.map (·.id)).zip c.columnWidths).reverse
  next.schema.columns.map fun (column : ColumnSchema) =>
    screen.clampWidth ((byId.lookup column.id).getD (screen.columnWidth column.id))

/-- The controller no longer listens once it is disposed of. -/
def handleTableEvent (c : Controller screen) (event : TableEvent) : Controller screen :=
  if c.disposed then c
  else
    match event with
    | .metadata metadata =>
      let hiddenById :=
        ((c.snapshot.metadata.schema.columns.map (·.id)).zip c.hiddenColumns).reverse
      ({ c with
        metadata
        columnWidths := c.reconcileColumnWidths metadata
        hiddenColumns := metadata.schema.columns.map fun (column : ColumnSchema) =>
          (hiddenById.lookup column.id).getD false }.advanceGeneration).clampInteraction.publish
    | .runtimeError _ => { c.abortRequest with loadingRanges := [] }.rebuildSnapshot .error
    | .closed =>
      let c := { abortRequest { c with tableClosed := true } with loadingRanges := [] }
      if c.snapshot.status ≠ .error then c.rebuildSnapshot .closed else c
    | .warning => c

/-! ## Loads -/

/-- Changes one load. -/
def setLoad (c : Controller screen) (i : ℕ) (load : Load) : Controller screen :=
  { c with loads := c.loads.set i load }

/-- Asks the table for a range, on behalf of a load. -/
def readRange (c : Controller screen) (i : ℕ) (load : Load) (range : GridRange) :
    Controller screen :=
  { c.setLoad i { load with turn := some (.reading range) } with reads := c.reads ++ [range] }

/-- Ends a load. Its abort controller is of no more use. -/
def endLoad (c : Controller screen) (i : ℕ) (load : Load) : Controller screen :=
  let c := c.setLoad i { load with turn := none }
  if c.requestAbort = some i then { c with requestAbort := none } else c

/-- Starts the load of the current generation. -/
def loadGeneration (c : Controller screen) : Controller screen :=
  match layoutRanges c.snapshot.layout.windows screen.maxWindowCells c.mergedCells with
  | .error _ => { c with loadingRanges := [] }.rebuildSnapshot .error
  | .ok (visible, overscan) =>
    if visible.isEmpty then { c with windows := [], loadingRanges := [] }.rebuildSnapshot .ready
    else
      let visible := partitionGridRanges visible c.adaptiveRowLimit c.adaptiveColumnLimit
      let overscan := partitionGridRanges overscan c.adaptiveRowLimit c.adaptiveColumnLimit
      if visible.all fun range => c.windows.any fun window =>
          window.range.rangeContainsRange range then
        { c with loadingRanges := [] }.rebuildSnapshot .ready
      else
        match visible ++ overscan.filter fun candidate => !visible.any fun required =>
            candidate.rangeContainsRange required && candidate = required with
        | [] => c
        | range :: rest =>
          let load : Load := { generation := c.generation, ranges := rest, turn := none }
          let c := { c with
            requestAbort := some c.loads.length
            loadingRanges := range :: rest
            loads := c.loads ++ [load] }.publish
          c.readRange (c.loads.length - 1) load range

/-- The queued microtask. -/
def runMicrotask (c : Controller screen) : Controller screen :=
  if c.loadQueued then
    let c := { c with loadQueued := false }
    if c.disposed then c else c.loadGeneration
  else c

/-- Splits a range whose read was too large: the parts, and the limits of later reads. -/
def splitRangeAfterByteLimit (c : Controller screen) (range : GridRange) :
    Controller screen × Option (GridRange × GridRange) :=
  let rowCount := range.rowEnd - range.rowStart
  let columnCount := range.columnEnd - range.columnStart
  if 1 < rowCount then
    let rowMiddle := range.rowStart + rowCount / 2
    let adaptiveRowLimit :=
      min c.adaptiveRowLimit (max minAdaptiveRowLimit (rowCount - rowCount / 2))
    ({ c with adaptiveRowLimit },
      some ({ range with rowEnd := rowMiddle }, { range with rowStart := rowMiddle }))
  else if 1 < columnCount then
    let columnMiddle := range.columnStart + columnCount / 2
    let adaptiveColumnLimit := min c.adaptiveColumnLimit (columnCount - columnCount / 2)
    ({ c with adaptiveColumnLimit },
      some ({ range with columnEnd := columnMiddle }, { range with columnStart := columnMiddle }))
  else (c, none)

/-- The windows of a batch: none if it is empty. -/
def batchWindows (batch : DisplayBatch) : List LoadedWindow :=
  let range := batchGridRange batch
  if range.rowStart < range.rowEnd && range.columnStart < range.columnEnd then
    [⟨range, batch.rows⟩]
  else []

/-- `readRangeWindows`, after the batch of its read. -/
def settleBatch (c : Controller screen) (i : ℕ) (load : Load) (batch : DisplayBatch) :
    Controller screen :=
  c.setLoad i { load with turn := some (.returned (batchWindows batch)) }

/-- `readRangeWindows`, after its read failed: a read that is too large is split, and the
    first part is read. -/
def settleFailure (c : Controller screen) (i : ℕ) (load : Load) (range : GridRange)
    (error : TabularkError) : Controller screen :=
  let c := if isAdaptiveRangeByteLimit error then { c with refused := c.refused ++ [range] } else c
  if load.aborted || !isAdaptiveRangeByteLimit error then
    c.setLoad i { load with turn := some (.thrown error) }
  else
    let split := c.splitRangeAfterByteLimit range
    match split.2 with
    | none =>
      split.1.setLoad i { load with
        turn := some (.returned [⟨range, [[some oversizedCellPreview]]⟩]) }
    | some (first, second) =>
      split.1.readRange i { load with frames := ⟨[second], []⟩ :: load.frames } first

/-- How the table settles a read. -/
inductive Settlement
  | batch (batch : DisplayBatch)
  | failure (error : TabularkError)

/-- The settlement of the read that a load waits for. -/
def settle (c : Controller screen) (i : ℕ) (settlement : Settlement) : Controller screen :=
  match c.loads[i]? with
  | some load =>
    match load.turn with
    | some (.reading range) =>
      match settlement with
      | .batch batch => c.settleBatch i load batch
      | .failure error => c.settleFailure i load range error
    | _ => c
  | none => c

/-- A new window takes the place of those it covers. -/
def addWindows (loaded windows : List LoadedWindow) : List LoadedWindow :=
  windows.foldl (fun loaded window => window :: loaded.filter fun candidate =>
    !window.range.rangeContainsRange candidate.range) loaded

/-- Whether a load that resumes must not change anything. -/
def isStale (c : Controller screen) (load : Load) : Bool :=
  c.disposed || load.generation ≠ c.generation || load.aborted

/-- `loadGeneration`, after a range was read. -/
def loadWindows (c : Controller screen) (i : ℕ) (load : Load) (windows : List LoadedWindow) :
    Controller screen :=
  if c.isStale load then c.endLoad i load
  else
    let load := { load with loaded := addWindows load.loaded windows }
    let c := { c with windows := load.loaded, loadingRanges := load.ranges }.rebuildSnapshot .ready
    match load.ranges with
    | [] => c.endLoad i load
    | range :: rest => c.readRange i { load with ranges := rest } range

/-- `loadGeneration`, after a read failed for good. -/
def loadFailed (c : Controller screen) (i : ℕ) (load : Load) (error : TabularkError) :
    Controller screen :=
  if c.isStale load || error.code = .cancelled then c.endLoad i load
  else ({ c with loadingRanges := [] }.rebuildSnapshot .error).endLoad i load

/-- The function that called the one that returned or threw goes on. -/
def resume (c : Controller screen) (i : ℕ) : Controller screen :=
  match c.loads[i]? with
  | some load =>
    match load.turn, load.frames with
    | some (.returned windows), [] => c.loadWindows i load windows
    | some (.returned windows), frame :: frames =>
      match frame.rest with
      | [] =>
        c.setLoad i { load with frames, turn := some (.returned (frame.windows ++ windows)) }
      | range :: rest =>
        c.readRange i { load with frames := ⟨rest, frame.windows ++ windows⟩ :: frames } range
    | some (.thrown error), [] => c.loadFailed i load error
    | some (.thrown error), _ :: frames =>
      c.setLoad i { load with frames, turn := some (.thrown error) }
    | _, _ => c
  | none => c

/-! ## Cells -/

/-- What is known of a cell. -/
inductive CellLoadState
  | loading
  | unavailable
  | loaded (value : Option String)
  deriving DecidableEq, Repr

def getCell (c : Controller screen) (rowIndex columnIndex : ℕ) : CellLoadState :=
  if c.snapshot.layout.rowCount ≤ rowIndex ∨ c.columnWidths.length ≤ columnIndex then .unavailable
  else
    match c.windows.find? fun window => window.range.rangeContains rowIndex columnIndex with
    | some window => .loaded (window.value rowIndex columnIndex)
    | none =>
      if c.loadingRanges.any fun range => range.rangeContains rowIndex columnIndex then .loading
      else .unavailable

/-! ## Steps -/

/-- A new controller of a table. -/
def new (screen : Screen) (metadata : TableMetadata) (viewport : screen.Viewport) :
    Controller screen :=
  let columnWidths := metadata.schema.columns.map fun column =>
    screen.clampWidth (screen.columnWidth column.id)
  let hiddenColumns := columnWidths.map fun _ => false
  let shown := screen.createTableLayout (extentValue metadata.extent.rows)
    (columnWidths.zip hiddenColumns) viewport [] 0 0
  { metadata
    viewport
    columnWidths
    hiddenColumns
    snapshot := {
      generation := 0
      status := .loading
      metadata
      layout := {
        rowCount := extentValue metadata.extent.rows
        columnCount := metadata.schema.columns.length
        windows := shown.1
        pixels := shown.2 }
      activeCell := none } }

/-- What can happen next. -/
inductive Event (screen : Screen)
  | updateViewport (viewport : screen.Viewport)
  | setActiveCell (cell : CellPosition) (scrollIntoView : Bool)
  | ensureCellVisible (cell : CellPosition)
  | ensureColumnVisible (columnIndex : ℕ)
  | resizeColumn (columnIndex : ℕ) (width : screen.Width)
  | applySpreadsheetPresentation
    (presentation : SpreadsheetPresentation screen.Width screen.RowEntry)
  | setMergedCells (regions : List MergedCellRegion)
  | dispose
  | table (event : TableEvent)
  | microtask
  | settle (load : ℕ) (settlement : Settlement)
  | resume (load : ℕ)

/-- What happens then. -/
def step (c : Controller screen) : Event screen → Controller screen
  | .updateViewport viewport => c.updateViewport viewport
  | .setActiveCell cell scrollIntoView => c.setActiveCell cell scrollIntoView
  | .ensureCellVisible cell => c.ensureCellVisible cell
  | .ensureColumnVisible columnIndex => c.ensureColumnVisible columnIndex
  | .resizeColumn columnIndex width => c.resizeColumn columnIndex width
  | .applySpreadsheetPresentation presentation => c.applySpreadsheetPresentation presentation
  | .setMergedCells regions => c.setMergedCells regions
  | .dispose => c.dispose
  | .table event => c.handleTableEvent event
  | .microtask => c.runMicrotask
  | .settle load settlement => c.settle load settlement
  | .resume load => c.resume load

end Controller

end Tabulark.View
