import Tabulark.Excel.WasmRuntime
import Tabulark.Excel.AnyBytes
import Tabulark.Excel.OpenTable

/-!
# Opening a package from its tail

A package whose directory, workbook and relationships lie in its tail is open
after two answers: its signature and its tail. A worksheet of it whose first entry
is not retained then waits for a range.
-/

namespace Tabulark.Excel.Wasm

open InsertionMap

/-- The range of the signature. -/
def signatureRange : HostRange := ⟨0, 8, by decide, by decide⟩

/-- An operation that opens a package and waits for one range. -/
def waitingOpen (revision : ℕ) (options : ExcelOptions) (indexed : IndexedRanges)
    (r : HostRange) : TrackedOpen :=
  ⟨⟨revision, [⟨0, r.offset, r.length⟩], true⟩, ⟨options, indexed.sourceLength, indexed, .detect⟩,
    [r]⟩

/-- The same operation with its range retained. -/
def suppliedOpen (revision : ℕ) (options : ExcelOptions) (indexed : IndexedRanges)
    (r : HostRange) : TrackedOpen :=
  ⟨⟨revision, [], false⟩, ⟨options, indexed.sourceLength, indexed, .detect⟩, [r]⟩

variable {s : State} {p : RangeParsers} {source : HostSource} {options : ExcelOptions}
  {ix : IndexedRanges} {operation revision : ℕ} {r : HostRange}

/-- An open asks for the signature first. -/
theorem beginOpen_eq (hmin : 8 ≤ source.bytes.length) (hspace : s.nextOperation < u32Max)
    (hbudget : 8 ≤ s.operationBudgetBytes) :
    (s.beginOpen options source.bytes.length).1 = { s with
      nextOperation := s.nextOperation + 1
      operations := s.operations.set s.nextOperation
        (.openSource (waitingOpen 1 options (.new source.bytes.length) signatureRange)) } := by
  have hmax := source.length_le
  have hsignature : HostRange.new 0 8 source.bytes.length = .ok signatureRange := by
    rw [HostRange.new, dif_neg (by decide), dif_pos (by decide), if_neg (by omega)]
    rfl
  have hcursor : readRangesStep {} signatureRange s.operationBudgetBytes =
      .ok ⟨1, [⟨0, 0, 8⟩], true⟩ :=
    AdapterOperationCursor.issue_singleton rfl (by decide) (by decide) hbudget
  rw [State.beginOpen, if_neg (by omega), if_neg (by omega), State.allocateOperation,
    checkedAdd_of_le (by omega), Result.ok_bind]
  dsimp only
  rw [hsignature]
  dsimp only
  rw [hcursor]
  rfl

/-- The right answer to an open is retained. -/
theorem continueOperation_open (hholds : ix.Holds source) (hr : r.stop ≤ source.bytes.length)
    (hmisses : ix.Misses r)
    (hget : s.operations.get? operation = some (.openSource (waitingOpen revision options ix r))) :
    ∃ ix' : IndexedRanges, ix'.Holds source ∧ (∀ i, ix'.Covers i ↔ ix.Covers i ∨ r.Contains i) ∧
      s.continueOperation p operation revision [source.answer 0 r] = State.settle operation
        ({ s with operations := s.operations.delete operation }.advanceOpen p operation
          (suppliedOpen revision options ix' r)) := by
  obtain ⟨ix', happlied, hholds', hcovers⟩ := applyIndexedResultsMut_answer hholds hr hmisses
  refine ⟨ix', hholds', hcovers, ?_⟩
  have hvalid : (waitingOpen revision options ix r).cursor.validateResults revision
      [source.answer 0 r] = .ok ⟨revision, [], false⟩ :=
    AdapterOperationCursor.validateResults_singleton rfl rfl
      (HostSource.length_slice hr).symm (safe_of_stop_le hr)
  rw [State.continueOperation, hget]
  dsimp only
  rw [TrackedOperation.cursor, hvalid]
  dsimp only [waitingOpen]
  rw [happlied]
  dsimp only
  rw [suppliedOpen, hholds'.sourceLength, hholds.sourceLength]

/-- The signature of a package. -/
structure IsPackage (source : HostSource) (options : ExcelOptions) : Prop where
  signature : (source.slice signatureRange).take 2 = [0x50, 0x4b]
  format : ensureRangeFormatHint options.format .xlsx = .ok ()
  length_le : 8 ≤ source.bytes.length

theorem IsPackage.new_signatureRange (h : IsPackage source options) :
    HostRange.new 0 8 source.bytes.length = .ok signatureRange := by
  rw [HostRange.new, dif_neg (by decide), dif_pos (by decide),
    if_neg (by have := h.length_le; omega)]
  rfl

theorem IsPackage.slice_ne (h : IsPackage source options) :
    source.slice signatureRange ≠ PendingOpen.cfbSignature := fun heq => by
  have hsignature := h.signature
  rw [heq] at hsignature
  exact absurd hsignature (by decide)

section Detect

variable (h : IsPackage source options) (hholds : ix.Holds source)
  (hsignature : ∀ i, signatureRange.Contains i → ix.Covers i) {tail : HostRange}
  (htail : tailRange source.bytes.length = .ok tail)

include h hholds hsignature htail

/-- An open that knows the signature asks for the tail. -/
theorem advanceDetect_of_gap (hgap : ix.FirstGap tail tail)
    (hstop : tail.stop ≤ source.bytes.length) :
    PendingOpen.advanceDetect p ⟨options, ix.sourceLength, ix, .detect⟩ =
      .ok (.need ⟨options, ix.sourceLength, ix, .detect⟩ tail) := by
  rw [PendingOpen.advanceDetect, hholds.sourceLength, h.new_signatureRange, Result.ok_bind]
  dsimp only
  rw [hholds.bytes_of_covers hsignature]
  dsimp only
  rw [if_neg h.slice_ne, if_neg (not_not.2 h.signature), h.format, Result.ok_bind,
    htail, Result.ok_bind, (hholds.needed_of_firstGap hstop hgap "").1]
  dsimp only
  rw [IndexedRanges.missing, hholds.firstMissing_of_firstGap hstop hgap, Result.ok_bind]
  rfl

/-- An open that has the tail, and the directory in it, reads the directory. -/
theorem advanceDetect_of_tail {location : CentralDirectoryLocation}
    (hretained : ∀ i, tail.Contains i → ix.Covers i)
    (hlocation : parseEndOfCentralDirectory (source.slice tail) tail.offset source.bytes.length =
      .ok location)
    (hdirectory : ∀ i, location.range.Contains i → ix.Covers i) :
    PendingOpen.advanceDetect p ⟨options, ix.sourceLength, ix, .detect⟩ =
      PendingOpen.advanceCentral p ⟨options, ix.sourceLength, ix, .detect⟩ := by
  rw [PendingOpen.advanceDetect, hholds.sourceLength, h.new_signatureRange, Result.ok_bind]
  dsimp only
  rw [hholds.bytes_of_covers hsignature]
  dsimp only
  rw [if_neg h.slice_ne, if_neg (not_not.2 h.signature), h.format, Result.ok_bind,
    htail, Result.ok_bind, hholds.bytes_of_covers hretained]
  dsimp only
  rw [hlocation, Result.ok_bind, hholds.bytes_of_covers hdirectory]

end Detect

/-! ## The two answers -/

/-- A package whose directory, workbook and relationships lie in its tail. -/
structure TailPackage (p : RangeParsers) (source : HostSource) (options : ExcelOptions)
    (tail : HostRange) where
  location : CentralDirectoryLocation
  index : ZipDirectoryIndex
  workbook : String
  entries : List RawZipEntry
  tables : List RangeSheetDescriptor
  isPackage : IsPackage source options
  tailRange : tailRange source.bytes.length = .ok tail
  behind_signature : 8 ≤ tail.offset
  locate : parseEndOfCentralDirectory (source.slice tail) tail.offset source.bytes.length =
    .ok location
  directory_sub : ∀ i, location.range.Contains i → tail.Contains i
  parse : parseCentralDirectory (source.slice location.range) location.entries
    source.bytes.length = .ok index
  workbookPath : index.workbookPath = some workbook
  contentTypes : (index.entry "[Content_Types].xml").isNone = false
  relationships : (index.entry (workbookRelationshipsPath workbook)).isNone = false
  fetch : ∀ ix : IndexedRanges, ix.Holds source → (∀ i, tail.Contains i → ix.Covers i) →
    EntryFetch.advance ⟨[workbook, workbookRelationshipsPath workbook], []⟩ ix index =
      .ok (none, ⟨[], entries⟩)
  sheets : (do
    let bytes ← decodeEntry p entries workbook "indexed XLSX workbook entry was lost"
    let relationships ← decodeEntry p entries (workbookRelationshipsPath workbook)
      "indexed XLSX relationships entry was lost"
    p.parseWorkbookDescriptors bytes relationships (workbookRelationshipsPath workbook)) =
      .ok tables

variable {tail : HostRange}

theorem TailPackage.tail_stop (h : TailPackage p source options tail) :
    tail.stop = source.bytes.length := by
  have htail := h.tailRange
  rw [Excel.tailRange] at htail
  split_ifs at htail
  obtain ⟨hoffset, hlength, _⟩ := HostRange.new_eq_ok htail
  rw [HostRange.stop, hoffset, hlength]
  omega

/-- The open of a package that has its tail finds its workbook. -/
theorem TailPackage.advanceCentral_eq (h : TailPackage p source options tail)
    (hholds : ix.Holds source) (hretained : ∀ i, tail.Contains i → ix.Covers i) :
    PendingOpen.advanceCentral p ⟨options, ix.sourceLength, ix, .detect⟩ =
      .ok (.xlsx ix h.index h.entries h.tables) := by
  have hdirectory : ∀ i, h.location.range.Contains i → ix.Covers i :=
    fun i hi => hretained i (h.directory_sub i hi)
  rw [PendingOpen.advanceCentral, hholds.sourceLength, h.tailRange, Result.ok_bind]
  dsimp only
  rw [hholds.bytes_of_covers hretained]
  dsimp only
  rw [h.locate, Result.ok_bind, hholds.bytes_of_covers hdirectory]
  dsimp only
  rw [h.parse, Result.ok_bind, h.workbookPath]
  dsimp only
  rw [h.contentTypes, h.relationships, if_neg (by simp), PendingOpen.advanceWorkbook,
    h.fetch ix hholds hretained, Result.ok_bind]
  dsimp only
  rw [h.workbookPath]
  dsimp only
  obtain ⟨bytes, hbytes, hsheets⟩ := Result.bind_eq_ok.1 h.sheets
  obtain ⟨relationships, hrelationships, htables⟩ := Result.bind_eq_ok.1 hsheets
  rw [hbytes, Result.ok_bind, hrelationships, Result.ok_bind, htables, Result.ok_bind]

/-- A directory with the usual workbook has it. -/
theorem workbookPath_of_entry {index : ZipDirectoryIndex} {entry : ZipEntryIndex}
    (h : index.entry "xl/workbook.xml" = some entry) :
    index.workbookPath = some "xl/workbook.xml" := by
  rw [ZipDirectoryIndex.entry] at h
  have hname := List.find?_some h
  rw [ZipDirectoryIndex.workbookPath, if_pos (List.any_eq_true.2 ⟨entry,
    List.mem_of_find?_eq_some h, hname⟩)]

/-- With its signature, the open of a package waits for the tail. -/
theorem TailPackage.continueOperation_signature (h : TailPackage p source options tail)
    (hbudget : tail.length ≤ s.operationBudgetBytes)
    (hget : s.operations.get? operation =
      some (.openSource (waitingOpen 1 options (.new source.bytes.length) signatureRange))) :
    ∃ ix' : IndexedRanges, ix'.Holds source ∧ (∀ i, ix'.Covers i ↔ i < 8) ∧
      (s.continueOperation p operation 1 [source.answer 0 signatureRange]).1 = { s with
        operations := (s.operations.delete operation).set operation
          (.openSource (waitingOpen 2 options ix' tail)) } := by
  have hlength := h.isPackage.length_le
  have hnone : ∀ i, ¬(IndexedRanges.new source.bytes.length).Covers i := by
    rintro i ⟨s, hs, _⟩
    exact absurd hs List.not_mem_nil
  obtain ⟨ix', hholds, hcovers, hcontinue⟩ := @continueOperation_open s p _ _ _ _ _ _
    (IndexedRanges.holds_new source) (by exact hlength) (fun i _ => hnone i) hget
  have hcovers' : ∀ i, ix'.Covers i ↔ i < 8 := fun i => by
    rw [hcovers]
    exact (or_iff_right (hnone i)).trans ⟨fun hi => hi.2, fun hi => ⟨Nat.zero_le i, hi⟩⟩
  refine ⟨ix', hholds, hcovers', ?_⟩
  have hgap : ix'.FirstGap tail tail := by
    refine ⟨le_rfl, le_rfl, fun i hi hlt => absurd hi hlt.not_ge, fun i hi hcov => ?_, .inl rfl⟩
    have hlt := (hcovers' i).1 hcov
    have hle := hi.1
    have hbehind := h.behind_signature
    omega
  have hadvance : PendingOpen.advance p (suppliedOpen 1 options ix' signatureRange).pending =
      .ok (.need ⟨options, ix'.sourceLength, ix', .detect⟩ tail) :=
    advanceDetect_of_gap h.isPackage hholds (fun i hi => (hcovers' i).2 hi.2) h.tailRange hgap
      h.tail_stop.le
  have hcursor : readRangesStep (suppliedOpen 1 options ix' signatureRange).cursor tail
      s.operationBudgetBytes = .ok ⟨2, [⟨0, tail.offset, tail.length⟩], true⟩ :=
    AdapterOperationCursor.issue_singleton rfl (show 1 < maxSafeInteger by decide)
      (safe_of_stop_le h.tail_stop.le) hbudget
  rw [hcontinue, State.advanceOpen, hadvance]
  dsimp only
  rw [hcursor]
  rfl

/-- With its tail, a package is open. -/
theorem TailPackage.continueOperation_tail (h : TailPackage p source options tail)
    (hspace : s.nextSource < u32Max) (hholds : ix.Holds source)
    (hcovers : ∀ i, ix.Covers i ↔ i < 8)
    (hget : s.operations.get? operation = some (.openSource (waitingOpen 2 options ix tail))) :
    ∃ ix' : IndexedRanges, ix'.Holds source ∧ (∀ i, ix'.Covers i ↔ i < 8 ∨ tail.Contains i) ∧
      (s.continueOperation p operation 2 [source.answer 0 tail]).1 = { s with
        nextSource := s.nextSource + 1
        operations := s.operations.delete operation
        rangeSources := s.rangeSources.set s.nextSource
          { options, indexed := ix', kind := .xlsx h.index h.entries, tables := h.tables } } := by
  have hmisses : ix.Misses tail := fun i hi hcov => by
    have hlt := (hcovers i).1 hcov
    have hle := hi.1
    have hbehind := h.behind_signature
    omega
  obtain ⟨ix', hholds', hcovers', hcontinue⟩ := @continueOperation_open s p _ _ _ _ _ _ hholds
    h.tail_stop.le hmisses hget
  have hall : ∀ i, ix'.Covers i ↔ i < 8 ∨ tail.Contains i := fun i => by
    rw [hcovers', hcovers]
  refine ⟨ix', hholds', hall, ?_⟩
  have hretained : ∀ i, tail.Contains i → ix'.Covers i := fun i hi => (hall i).2 (.inr hi)
  have hadvance : PendingOpen.advance p (suppliedOpen 2 options ix' tail).pending =
      .ok (.xlsx ix' h.index h.entries h.tables) :=
    (advanceDetect_of_tail h.isPackage hholds' (fun i hi => (hall i).2 (.inl hi.2)) h.tailRange
      hretained h.locate fun i hi => hretained i (h.directory_sub i hi)).trans
      (h.advanceCentral_eq hholds' hretained)
  have hcomplete : (suppliedOpen 2 options ix' tail).cursor.completeRevision =
      .ok ⟨3, [], false⟩ :=
    AdapterOperationCursor.completeRevision_of_lt rfl (show 2 < maxSafeInteger by decide)
  rw [hcontinue, State.advanceOpen, hadvance]
  dsimp only
  rw [State.registerSource, State.allocateSource, checkedAdd_of_le (by exact hspace),
    Result.ok_bind]
  dsimp only
  rw [hcomplete]
  dsimp only
  rw [State.completeRangeOpen]
  split_ifs
  · rfl
  · cases validateSafeInteger "Excel retained bytes" ix'.retainedBytes <;> rfl

/-! ## A worksheet that waits -/

/-- A worksheet whose first entry is not retained waits for its header. -/
theorem beginOpenTable_waits {key : ℕ} {value : RangeSource} {index : ZipDirectoryIndex}
    {entries : List RawZipEntry} {tableId workbook path : String} {target : RangeSheetDescriptor}
    {paths : List String} {entry : ZipEntryIndex} {gap : HostRange}
    (hspace : s.nextOperation < u32Max) (hget : s.rangeSources.get? key = some value)
    (hkind : value.kind = .xlsx index entries) (hholds : value.indexed.Holds source)
    (htarget : value.tables.find? (·.id = tableId) = some target)
    (hworkbook : index.workbookPath = some workbook)
    (hpaths : State.worksheetPaths index workbook target.path = path :: paths)
    (hnew : (entries.any fun entry => entry.name = path) = false)
    (hentry : index.entry path = some entry)
    (hheader : RawZipEntry.headerRange entry source.bytes.length = .ok r)
    (hgap : value.indexed.FirstGap r gap) (hbudget : gap.length ≤ s.operationBudgetBytes) :
    ∃ o : PendingOpenTable, o.sourceHandle = key ∧ (s.beginOpenTable p key tableId).1 = { s with
      nextOperation := s.nextOperation + 1
      operations := s.operations.set s.nextOperation (.openTable o) } := by
  have hstop : gap.stop ≤ source.bytes.length :=
    hgap.stop_le.trans (HostRange.new_eq_ok hheader).2.2
  have hfetch : EntryFetch.advance ⟨path :: paths, entries⟩ value.indexed index =
      .ok (some gap, ⟨path :: paths, entries⟩) := by
    rw [EntryFetch.advance, advanceEntryFetch, hnew, if_neg Bool.false_ne_true, hentry]
    dsimp only
    rw [hholds.fetchEntry_of_headerGap hheader hgap]
    rfl
  have hcursor : readRangesStep {} gap s.operationBudgetBytes =
      .ok ⟨1, [⟨0, gap.offset, gap.length⟩], true⟩ :=
    AdapterOperationCursor.issue_singleton rfl (by decide) (safe_of_stop_le hstop) hbudget
  refine ⟨⟨key, tableId, ⟨1, [⟨0, gap.offset, gap.length⟩], true⟩, [gap],
    some (index, ⟨path :: paths, entries⟩)⟩, rfl, ?_⟩
  rw [State.beginOpenTable, State.allocateOperation, checkedAdd_of_le (by exact hspace),
    Result.ok_bind]
  dsimp only
  rw [hget]
  dsimp only
  rw [htarget]
  dsimp only
  rw [hkind]
  dsimp only
  rw [hworkbook]
  dsimp only
  rw [hpaths, State.advanceOpenTable]
  dsimp only
  rw [hget]
  dsimp only
  rw [hfetch]
  dsimp only
  rw [hcursor]
  rfl

end Tabulark.Excel.Wasm
