import Tabulark.Excel.Handles
import Tabulark.Excel.PackageOpen
import Tabulark.Excel.ZipRoundTrip
import Tabulark.Lib.Run

/-!
# Runs of the workbook runtime

The host makes one call after another, whatever the parsers return. Every call
leaves the handle tables consistent, as long as no workbook is closed while an
operation opens one of its worksheets (`handles_consistent_iff`).
-/

namespace Tabulark.Excel.Wasm

open InsertionMap

/-! ## Consistency -/

/-- The handle tables agree with each other, and the registry with its budget. -/
structure Consistent (s : State) : Prop where
  /-- What is retained is what the open sources and tables reserve. -/
  retained : s.runtime.retainedBytes = s.runtime.reservedBytes
  retained_le : s.runtime.retainedBytes ≤ s.runtime.config.memoryBudgetBytes
  /-- Every private source belongs to one open range source. -/
  inner : ∀ e ∈ s.runtime.sources.entries,
    ∃! owner, owner ∈ s.rangeSources.entries ∧ e.1 ∈ owner.2.innerSources
  /-- Every open table has one entry, with its private source and an open range source that the
      source belongs to. -/
  table : ∀ e ∈ s.runtime.tables.entries, ∃! owner, (e.1, owner) ∈ s.tableSources.entries ∧
    owner.2 = e.2.source ∧ (s.runtime.sources.get? owner.2).isSome ∧
    ∃ source, s.rangeSources.get? owner.1 = some source ∧ owner.2 ∈ source.innerSources
  /-- Every operation that opens a worksheet refers to an open range source. -/
  pending : ∀ e ∈ s.operations.entries, ∀ o, e.2 = .openTable o →
    (s.rangeSources.get? o.sourceHandle).isSome

variable {s : State}

/-- The invariant makes the tables consistent. -/
theorem State.Sound.consistent (h : s.Sound) : Consistent s where
  retained := h.owned.sound.retained
  retained_le := h.owned.sound.retained_le
  inner e he := by
    obtain ⟨owner, howner, hinner⟩ := mem_innersOf.1
      (h.owned.inners.mem_iff.2 (List.mem_map.2 ⟨e, he, rfl⟩))
    refine ⟨owner, ⟨howner, hinner⟩, fun owner' howner' => ?_⟩
    exact eq_of_inner h.owned.nodup howner'.1 howner howner'.2 hinner
  table e he := by
    obtain ⟨owner, howner⟩ := h.owned.listed e he
    obtain ⟨_, source, hsource, hinner⟩ := h.owned.opened _ howner
    obtain ⟨value, hvalue⟩ := h.owned.sound.owned e he
    refine ⟨(owner, e.2.source), ⟨howner, rfl, ?_, source, get?_eq_some.2 hsource, hinner⟩,
      fun owner' howner' => ?_⟩
    · exact Option.isSome_iff_exists.2 ⟨value, get?_eq_some.2 hvalue⟩
    · exact congrArg Prod.snd (eq_of_key howner'.1 howner rfl)
  pending e he o ho := by
    have hready := h.ready e he
    rw [ho] at hready
    obtain ⟨source, hsource, _⟩ := hready
    exact Option.isSome_iff_exists.2 ⟨source, get?_eq_some.2 hsource⟩

/-- A workbook that is closed under an operation leaves it without its range source. -/
theorem not_consistent_closeSource {key : ℕ} (h : ¬Call.Idle s (.closeSource key)) :
    ¬Consistent (s.closeSource key).1 := by
  rw [Call.Idle] at h
  push Not at h
  obtain ⟨hopen, e, he, o, ho, rfl⟩ := h
  obtain ⟨source, hsource⟩ := Option.isSome_iff_exists.1 hopen
  intro hconsistent
  rw [State.closeSource, hsource] at hconsistent
  dsimp only at hconsistent
  rw [State.foldl_dropTable, State.foldl_dropInner] at hconsistent
  have hsome := hconsistent.pending e he o ho
  dsimp only at hsome
  rw [get?_delete_self] at hsome
  exact Bool.noConfusion hsome

/-- An empty runtime is sound. -/
theorem State.sound_new {config : WasmConfig} (h : State.new config = .ok s) :
    s.Sound := by
  rw [State.new] at h
  split_ifs at h
  obtain ⟨runtime, hruntime, h⟩ := Result.bind_eq_ok.1 h
  cases h
  rw [ExcelRuntime.new] at hruntime
  obtain ⟨_, _, hruntime⟩ := Result.bind_eq_ok.1 hruntime
  split_ifs at hruntime
  cases hruntime
  have hnone {α : Type} : ∀ e ∈ (InsertionMap.empty : InsertionMap ℕ α).entries, False :=
    fun e he => absurd he List.not_mem_nil
  refine ⟨⟨⟨rfl, Nat.zero_le _, fun e he => (hnone e he).elim, fun e he => (hnone e he).elim,
    fun e he => (hnone e he).elim⟩, .nil, fun e he => (hnone e he).elim,
    fun e he => (hnone e he).elim, List.nodup_nil⟩, fun e he => (hnone e he).elim,
    fun e he => (hnone e he).elim, fun e he => (hnone e he).elim, fun e he => (hnone e he).elim⟩

/-! ## The host -/

/-- The runtime, and the handles that its replies have handed out. -/
structure Host where
  state : State
  issued : List Handle := []

namespace Host

/-- The handles that a reply to a call hands out. -/
def handedOut (call : Call) : Result Reply → List Handle
  | .error _ => []
  | .ok reply => reply.started call ++ reply.opened

/-- One call, with what the parsers return during it. -/
def step (h : Host) (event : RangeParsers × Call) : Host where
  state := (h.state.call event.1 event.2).1
  issued := h.issued ++ handedOut event.2 (h.state.call event.1 event.2).2

/-- A call does what it should: the tables are consistent after it, it leaves nothing open in the
    registry if it fails, and no handle that was taken before it is taken again or handed out
    twice. -/
structure Good (h : Host) (event : RangeParsers × Call) : Prop where
  consistent : Consistent (h.step event).state
  closed : ∀ e, (h.state.call event.1 event.2).2 = .error e → Closed h.state (h.step event).state
  onward : Onward h.state (h.step event).state
  nodup : (h.step event).issued.Nodup

/-- No workbook is closed by a call while an operation opens one of its worksheets. -/
def Idle (h : Host) (event : RangeParsers × Call) : Prop := event.2.Idle h.state

/-- The invariant of a run: the handles handed out are different, and the counters have passed
    them. -/
structure Sound (h : Host) : Prop where
  state : h.state.Sound
  nodup : h.issued.Nodup
  issued : ∀ x ∈ h.issued, h.state.Issued x

variable {h : Host} {event : RangeParsers × Call}

/-- What a call hands out is new. -/
theorem handedOut_issues {s s' : State} {call : Call} {result : Result Reply}
    (hout : Outcome s call (s', result)) :
    (handedOut call result).Nodup ∧ ∀ x ∈ handedOut call result, Issues s s' x := by
  cases result with
  | error e => exact ⟨List.nodup_nil, fun x hx => absurd hx List.not_mem_nil⟩
  | ok reply => exact hout.issues reply rfl

theorem Sound.step (hs : h.Sound) (hidle : h.Idle event) : (h.step event).Sound := by
  have hout := hs.state.call event.1 hidle
  obtain ⟨hnodup, hissues⟩ := handedOut_issues hout
  refine ⟨hout.sound, List.nodup_append.2 ⟨hs.nodup, hnodup, ?_⟩, fun x hx => ?_⟩
  · -- A handle of before is issued, a new one was not.
    rintro x hx y hy rfl
    exact (hissues x hy).1 (hs.issued x hx)
  · rcases List.mem_append.1 hx with hx | hx
    · exact hout.onward.issued x (hs.issued x hx)
    · exact (hissues x hx).2

/-- A call does what it should if and only if it closes no workbook with an operation. -/
theorem Sound.good_iff (hs : h.Sound) : h.Good event ↔ h.Idle event := by
  constructor
  · intro hgood
    by_contra hidle
    obtain ⟨p, call⟩ := event
    cases call with
    | closeSource key => exact not_consistent_closeSource hidle hgood.consistent
    | _ => exact hidle trivial
  · intro hidle
    have hout := hs.state.call event.1 hidle
    have hs' := hs.step hidle
    exact ⟨hs'.state.consistent, hout.closed, hout.onward, hs'.nodup⟩

theorem sound_new {config : WasmConfig} (hnew : State.new config = .ok s) :
    Sound { state := s } :=
  ⟨State.sound_new hnew, List.nodup_nil, fun _ hx => absurd hx List.not_mem_nil⟩

end Host

/-- In a run from an empty runtime every call does what it should if and only if none closes a
    workbook while an operation opens one of its worksheets. -/
theorem handles_consistent_iff (config : WasmConfig) (s : State) (hnew : State.new config = .ok s)
    (events : List (RangeParsers × Call)) :
    Run.Along Host.step Host.Good { state := s } events ↔
      Run.Along Host.step Host.Idle { state := s } events :=
  Run.along_iff (fun _ _ hs => hs.step) (fun _ _ hs => hs.good_iff) (I := Host.Sound)
    (Host.sound_new hnew)

/-! ## A workbook closed under an operation -/

/-- Spaces. -/
def padding : List UInt8 := List.replicate 131072 0x20

/-- The first entry, larger than the tail. -/
def typesText : String × List UInt8 := ("[Content_Types].xml", nameBytes "<Types/>" ++ padding)

/-- The workbook. -/
def workbookText : String × List UInt8 := ("xl/workbook.xml", nameBytes "<sheet id=\"a\"/>")

/-- Its relationships. -/
def relationshipsText : String × List UInt8 := ("xl/_rels/workbook.xml.rels",
  nameBytes "<Relationship Id=\"a\" Type=\"/worksheet\" Target=\"s\"/>")

/-- The entries of a workbook. -/
def largeTexts : List (String × List UInt8) :=
  [typesText, ("xl/s", nameBytes "<worksheet/>"), workbookText, relationshipsText]

/-- The workbook as the writer writes it. -/
def largeEntries : List Appended := appendedEntries [] largeTexts

/-- What the parsers return for the workbook. -/
def largeParsers : RangeParsers where
  inspectExcelSource _ _ _ := .error missingWorkbook
  parsePresentation _ _ _ := .error missingWorkbook
  openWorkbook _ _ _ := .error missingWorkbook
  worksheetRange _ _ := .error missingWorkbook
  worksheetFormula _ _ := .error missingWorkbook
  buildMetadata _ _ := .error missingWorkbook
  toJs _ := .ok ()
  dataBytes := 0
  stringBytes := 0
  decode entry := .ok entry.compressed
  parseWorkbookDescriptors _ _ _ := .ok [⟨"sheet-0", "Sheet 1", .visible, "xl/s"⟩]
  buildCompactXlsx := buildCompactXlsx
  compactXls _ := .error missingWorkbook

/-- The sizes of the texts. -/
theorem lengths_largeTexts : largeTexts.map (fun t => t.2.length) = [131080, 12, 15, 51] := by
  have htypes : typesText.2.length = 131080 := by
    have htext : (nameBytes "<Types/>").length = 8 := by decide
    have hpadding : padding.length = 131072 := List.length_replicate
    rw [typesText, List.length_append, htext, hpadding]
  have hsheet : (nameBytes "<worksheet/>").length = 12 := by decide
  have hworkbook : workbookText.2.length = 15 := by decide
  have hrels : relationshipsText.2.length = 51 := by decide
  rw [largeTexts, List.map_cons, List.map_cons, List.map_cons, List.map_cons, List.map_nil,
    htypes, hsheet, hworkbook, hrels]

theorem length_placeholder (name : String) (bytes : List UInt8) :
    (placeholder name bytes).bytes.length = 30 + (nameBytes name).length + bytes.length :=
  Appended.length_bytes _

theorem lengths_placeholders (texts : List (String × List UInt8)) :
    (appendedEntries [] texts).map (fun e => e.bytes.length) =
      List.zipWith (· + ·) (texts.map fun t => 30 + (nameBytes t.1).length)
        (texts.map fun t => t.2.length) := by
  rw [appendedEntries, List.map_nil, List.nil_append, List.map_map, List.zipWith_map,
    List.zipWith_self]
  exact List.map_congr_left fun t _ => length_placeholder t.1 t.2

/-- The sizes of the entries. -/
theorem lengths_largeEntries : largeEntries.map (fun e => e.bytes.length) =
    [131129, 46, 60, 107] := by
  have hnames : largeTexts.map (fun t => 30 + (nameBytes t.1).length) = [49, 34, 45, 56] := by
    decide
  rw [largeEntries, lengths_placeholders, hnames, lengths_largeTexts]
  rfl

theorem compact_largeEntries : Compact largeEntries := by
  refine .of_placeholders (List.cons_ne_nil _ _) ?_ ?_ ?_ (by decide) (by decide)
  · have hnames : (largeTexts.map Prod.fst).Pairwise (· ≠ ·) := by decide
    exact List.pairwise_map.1 hnames
  · have hpaths : ∀ n ∈ largeTexts.map Prod.fst, validateZipPath n = .ok () := by decide
    exact List.forall_mem_map.1 hpaths
  · have hlengths : ∀ n ∈ largeTexts.map (fun t => t.2.length), n ≤ maxCompressedEntryBytes := by
      rw [lengths_largeTexts]
      decide
    exact List.forall_mem_map.1 hlengths

theorem fits_largeEntries : ∀ e ∈ largeEntries, e.Fits := by
  intro e he
  have hname : ∀ n ∈ largeTexts.map fun t => (nameBytes t.1).length, n ≤ u16Max := by
    decide
  have hbytes : ∀ n ∈ largeEntries.map fun e => e.bytes.length, n ≤ u32Max := by
    rw [lengths_largeEntries]
    decide
  obtain ⟨t, ht, rfl⟩ := List.mem_map.1 he
  have hlength := List.forall_mem_map.1 hbytes _ he
  rw [length_placeholder] at hlength
  exact ⟨List.forall_mem_map.1 hname t ht, by change t.2.length ≤ _; omega,
    by change t.2.length ≤ _; omega⟩

theorem before_largePackage : (compactPackage largeEntries).before.length = 131342 := by
  change (largeEntries.flatMap Appended.bytes).length = _
  rw [List.length_flatMap, lengths_largeEntries]
  simp only [List.sum_cons, List.sum_nil, Nat.reduceAdd]

theorem directory_largePackage : (compactPackage largeEntries).directory.length = 248 := by
  have hsum : (largeTexts.map fun t => 46 + (nameBytes t.1).length).sum = 248 := by
    decide
  refine (Compact.length_directory_placed _ 0).trans (Eq.trans ?_ hsum)
  rw [largeEntries, appendedEntries, List.map_nil, List.nil_append, List.map_map]
  rfl

theorem length_largePackage : (compactPackage largeEntries).encode.length = 131612 := by
  have hzip64 : (compactPackage largeEntries).zip64Bytes.length = 0 := rfl
  have hcomment : (compactPackage largeEntries).comment.length = 0 := rfl
  rw [Package.length_encode, Package.endOffset, before_largePackage, directory_largePackage,
    hzip64, hcomment]

/-- The file of the workbook. -/
def largeSource : HostSource where
  bytes := (compactPackage largeEntries).encode
  length_le := by
    rw [length_largePackage]
    decide

/-- The tail of the file. -/
def largeTail : HostRange := ⟨540, 131072, by decide, by decide⟩

theorem wellFormed_largePackage : (compactPackage largeEntries).WellFormed := by
  have hle : (compactPackage largeEntries).before.length +
    (compactPackage largeEntries).directory.length ≤ u32Max := by
    rw [before_largePackage, directory_largePackage]
    decide
  exact compact_largeEntries.wellFormed fits_largeEntries hle

variable {t : String × List UInt8}

/-- An entry of the workbook, and where it starts. -/
theorem mem_placed_largeEntries {k offset : ℕ}
    (ht : largeTexts[k]? = some t) (hoffset : [0, 131129, 131175, 131235][k]? = some offset) :
    (placeholder t.1 t.2, offset) ∈ placed 0 largeEntries := by
  refine Compact.mem_placed (k := k) ?_ ?_
  · rw [largeEntries, appendedEntries, List.map_nil, List.nil_append, List.getElem?_map, ht]
    rfl
  · rw [lengths_largeEntries]
    exact hoffset

/-- The file is a package. -/
theorem isPackage_largeSource : IsPackage largeSource {} where
  signature := by
    change (((compactPackage largeEntries).encode.drop 0).take 8).take 2 = _
    rfl
  format := rfl
  length_le := by
    rw [largeSource, length_largePackage]
    decide

theorem tailRange_largeSource : tailRange largeSource.bytes.length = .ok largeTail := by
  rw [largeSource, length_largePackage]
  rfl

/-- An entry of the workbook as it is fetched. -/
def largeEntry (t : String × List UInt8) (offset : ℕ) : RawZipEntry :=
  ⟨((placeholder t.1 t.2).record offset).index, t.2⟩

/-- The directory entry of an entry of the workbook. -/
theorem entry_largeEntries {k offset : ℕ}
    (ht : largeTexts[k]? = some t) (hoffset : [0, 131129, 131175, 131235][k]? = some offset) :
    (Compact.index largeEntries).entry t.1 =
      some (largeEntry t offset).index :=
  compact_largeEntries.entry_eq (mem_placed_largeEntries ht hoffset)

/-- An entry of the workbook that lies in the tail is fetched with it. -/
theorem fetchEntry_largeEntries {k offset : ℕ}
    (ht : largeTexts[k]? = some t) (hoffset : [0, 131129, 131175, 131235][k]? = some offset)
    (hbehind : 540 ≤ offset) (hdata : t.2 ≠ []) {ix : IndexedRanges} (hholds : ix.Holds largeSource)
    (hretained : ∀ i, largeTail.Contains i → ix.Covers i) :
    ix.fetchEntry (largeEntry t offset).index = .ok (.inr (largeEntry t offset)) := by
  have hback := compact_largeEntries.readBack fits_largeEntries
    (mem_placed_largeEntries ht hoffset) (by rw [length_largePackage]; decide)
  refine @Appended.ReadBack.fetchEntry_eq _ largeSource _ _ hback hdata hholds
    fun i hi hlt => hretained i ⟨hbehind.trans hi, ?_⟩
  rw [largeSource, length_largePackage] at hlt
  exact hlt

/-- The workbook opens from its tail. -/
theorem exists_tailPackage : ∃ h : TailPackage largeParsers largeSource {} largeTail,
    h.index = Compact.index largeEntries ∧
      h.entries = [largeEntry workbookText 131175, largeEntry relationshipsText 131235] ∧
      h.tables = [⟨"sheet-0", "Sheet 1", .visible, "xl/s"⟩] := by
  obtain ⟨location, hlocate, hparse, hoffset, hlength⟩ := @Package.parse_of_tail _
    wellFormed_largePackage compact_largeEntries.readable largeSource rfl _
    tailRange_largeSource
  rw [before_largePackage] at hoffset
  rw [directory_largePackage] at hlength
  have htypes : (Compact.index largeEntries).entry "[Content_Types].xml" =
      some (largeEntry typesText 0).index := entry_largeEntries (k := 0) (t := typesText) rfl rfl
  have hworkbook : (Compact.index largeEntries).entry "xl/workbook.xml" =
      some (largeEntry workbookText 131175).index :=
    entry_largeEntries (k := 2) (t := workbookText) rfl rfl
  have hrels : (Compact.index largeEntries).entry "xl/_rels/workbook.xml.rels" =
      some (largeEntry relationshipsText 131235).index :=
    entry_largeEntries (k := 3) (t := relationshipsText) rfl rfl
  have hpath : workbookRelationshipsPath "xl/workbook.xml" = "xl/_rels/workbook.xml.rels" := by
    decide
  have hfetch : ∀ ix : IndexedRanges, ix.Holds largeSource →
      (∀ i, largeTail.Contains i → ix.Covers i) →
      EntryFetch.advance ⟨["xl/workbook.xml", workbookRelationshipsPath "xl/workbook.xml"], []⟩ ix
        (Compact.index largeEntries) = .ok (none,
          ⟨[], [largeEntry workbookText 131175, largeEntry relationshipsText 131235]⟩) := by
    intro ix hholds hretained
    have hfirst := @fetchEntry_largeEntries workbookText 2 131175 rfl rfl
      (by decide) (by decide) _ hholds hretained
    have hsecond := @fetchEntry_largeEntries relationshipsText 3 131235 rfl
      rfl (by decide) (by decide) _ hholds hretained
    rw [EntryFetch.advance, hpath, advanceEntryFetch, List.any_nil, if_neg Bool.false_ne_true,
      hworkbook]
    dsimp only
    rw [hfirst, Result.ok_bind]
    dsimp only
    rw [advanceEntryFetch, if_neg (by decide), hrels]
    dsimp only
    rw [hsecond, Result.ok_bind]
    rfl
  refine ⟨{
    location
    index := Compact.index largeEntries
    workbook := "xl/workbook.xml"
    entries := [largeEntry workbookText 131175, largeEntry relationshipsText 131235]
    tables := [⟨"sheet-0", "Sheet 1", .visible, "xl/s"⟩]
    isPackage := isPackage_largeSource
    tailRange := tailRange_largeSource
    behind_signature := by decide
    locate := hlocate
    directory_sub := fun i hi => ?_
    parse := hparse
    workbookPath := workbookPath_of_entry hworkbook
    contentTypes := by rw [htypes]; rfl
    relationships := by rw [hpath, hrels]; rfl
    fetch := hfetch
    sheets := ?_ }, rfl, rfl, rfl⟩
  · have hstop := hi.2
    have hstart := hi.1
    rw [HostRange.stop, hoffset, hlength] at hstop
    rw [hoffset] at hstart
    exact ⟨show 540 ≤ i by omega, show i < 540 + 131072 by omega⟩
  · rw [hpath]
    rfl

/-- The paths that the worksheet needs. -/
theorem worksheetPaths_largeEntries :
    State.worksheetPaths (Compact.index largeEntries) "xl/workbook.xml" "xl/s" =
      ["[Content_Types].xml", "xl/_rels/workbook.xml.rels", "xl/s", "xl/workbook.xml"] := by
  have hpath : workbookRelationshipsPath "xl/workbook.xml" = "xl/_rels/workbook.xml.rels" := by
    decide
  have hnone : ∀ name ∈ ["_rels/.rels", "xl/styles.xml", "xl/sharedStrings.xml",
      "xl/theme/theme1.xml"], ¬((Compact.index largeEntries).entry name).isSome = true := by
    intro name hname
    have hnot : ∀ n ∈ ["_rels/.rels", "xl/styles.xml", "xl/sharedStrings.xml",
        "xl/theme/theme1.xml"], n ∉ largeEntries.map Appended.name := by decide
    rw [Compact.entry_eq_none (hnot name hname)]
    exact Bool.false_ne_true
  rw [State.worksheetPaths, hpath, List.filter_eq_nil_iff.2 hnone]
  have hsorted : (["[Content_Types].xml", "xl/workbook.xml", "xl/_rels/workbook.xml.rels"] ++ [] ++
      ["xl/s"]).mergeSort = ["[Content_Types].xml", "xl/_rels/workbook.xml.rels", "xl/s",
        "xl/workbook.xml"] := by
    simp [List.mergeSort]
  rw [hsorted]
  decide

/-- A workbook is opened, and a worksheet of it waits. -/
def openingCalls : List (RangeParsers × Call) :=
  [(largeParsers, .beginOpen {} largeSource.bytes.length),
    (largeParsers, .continueOperation 1 1 [largeSource.answer 0 signatureRange]),
    (largeParsers, .continueOperation 1 2 [largeSource.answer 0 largeTail]),
    (largeParsers, .beginOpenTable 1 "sheet-0")]

/-- Then the workbook is closed. -/
def closingCalls : List (RangeParsers × Call) := openingCalls ++ [(largeParsers, .closeSource 1)]

theorem run_four {s : State} {p : RangeParsers} {c₁ c₂ c₃ c₄ : Call} :
    (Run.run Host.step { state := s } [(p, c₁), (p, c₂), (p, c₃), (p, c₄)]).state =
      ((((s.call p c₁).1.call p c₂).1.call p c₃).1.call p c₄).1 := rfl

/-- After the calls that open it, an operation on the open workbook waits. -/
theorem exists_waiting (hnew : State.new {} = .ok s) :
    ∃ s', s' = (Run.run Host.step { state := s } openingCalls).state ∧
      (s'.rangeSources.get? 1).isSome ∧ ∃ operation o,
        (operation, .openTable o) ∈ s'.operations.entries ∧ o.sourceHandle = 1 := by
  have hstart : s.nextOperation = 1 ∧ s.nextSource = 1 ∧ s.operationBudgetBytes = 268435456 := by
    cases hnew
    exact ⟨rfl, rfl, rfl⟩
  obtain ⟨hoperation, hsource, hbudget⟩ := hstart
  obtain ⟨h, hindex, hentries, htables⟩ := exists_tailPackage
  have hlength : largeSource.bytes.length = 131612 := length_largePackage
  -- The workbook is opened in three calls.
  obtain ⟨s₁, hs₁⟩ : ∃ s₁, s₁ = (s.beginOpen {} largeSource.bytes.length).1 := ⟨_, rfl⟩
  have hs₁' := hs₁.trans (@beginOpen_eq _ largeSource {}
    h.isPackage.length_le (by rw [hoperation]; decide) (by rw [hbudget]; decide))
  rw [hoperation] at hs₁'
  have hget₁ : s₁.operations.get? 1 = some (.openSource
      (waitingOpen 1 {} (.new largeSource.bytes.length) signatureRange)) := by
    rw [hs₁']
    exact get?_set_self
  obtain ⟨ix₁, hholds₁, hcovers₁, hs₂⟩ := h.continueOperation_signature
    (by rw [hs₁', hbudget]; decide) hget₁
  obtain ⟨s₂, hs₂'⟩ : ∃ s₂, s₂ =
    (s₁.continueOperation largeParsers 1 1 [largeSource.answer 0 signatureRange]).1 := ⟨_, rfl⟩
  rw [← hs₂'] at hs₂
  have hget₂ : s₂.operations.get? 1 = some (.openSource (waitingOpen 2 {} ix₁ largeTail)) := by
    rw [hs₂]
    exact get?_set_self
  obtain ⟨ix₂, hholds₂, hcovers₂, hs₃⟩ := h.continueOperation_tail
    (by rw [hs₂, hs₁', hsource]; decide) hholds₁ hcovers₁ hget₂
  obtain ⟨s₃, hs₃'⟩ : ∃ s₃, s₃ =
    (s₂.continueOperation largeParsers 1 2 [largeSource.answer 0 largeTail]).1 := ⟨_, rfl⟩
  rw [← hs₃'] at hs₃
  have hsource₂ : s₂.nextSource = 1 := by rw [hs₂, hs₁', hsource]
  rw [hsource₂] at hs₃
  have hoperation₃ : s₃.nextOperation = 2 := by rw [hs₃, hs₂, hs₁']
  have hbudget₃ : s₃.operationBudgetBytes = 268435456 := by rw [hs₃, hs₂, hs₁', hbudget]
  have hget₃ : s₃.rangeSources.get? 1 = some
      { options := {}, indexed := ix₂, kind := .xlsx h.index h.entries, tables := h.tables } := by
    rw [hs₃]
    exact get?_set_self
  -- The header of the first entry is not retained.
  have htypes : h.index.entry "[Content_Types].xml" = some (largeEntry typesText 0).index := by
    rw [hindex]
    exact entry_largeEntries (k := 0) (t := typesText) rfl rfl
  have hworkbook : h.index.workbookPath = some "xl/workbook.xml" := by
    rw [hindex]
    exact workbookPath_of_entry (entry_largeEntries (k := 2) (t := workbookText) rfl rfl)
  have hheader : RawZipEntry.headerRange (largeEntry typesText 0).index largeSource.bytes.length =
      .ok ⟨0, 30, by decide, by decide⟩ := by
    rw [hlength]
    rfl
  have hgap : ix₂.FirstGap ⟨0, 30, by decide, by decide⟩ ⟨8, 22, by decide, by decide⟩ := by
    refine ⟨by decide, by decide, fun i _ hi => (hcovers₂ i).2 (.inl hi), ?_, .inl rfl⟩
    rintro i ⟨hi, hlt⟩ hcov
    have hlt' : i < 8 + 22 := hlt
    rcases (hcovers₂ i).1 hcov with hcov | hcov
    · exact absurd hcov (not_lt.2 hi)
    · have hstart : 540 ≤ i := hcov.1
      omega
  have htarget : h.tables.find? (·.id = "sheet-0") =
      some ⟨"sheet-0", "Sheet 1", .visible, "xl/s"⟩ := by
    rw [htables]
    rfl
  obtain ⟨o, ho, hs₄⟩ := beginOpenTable_waits (p := largeParsers) (s := s₃)
    (by rw [hoperation₃]; decide) hget₃ rfl hholds₂ htarget hworkbook
    (by rw [hindex]; exact worksheetPaths_largeEntries)
    (by rw [hentries]; decide) htypes hheader hgap (by rw [hbudget₃]; decide)
  refine ⟨_, rfl, ?_⟩
  rw [openingCalls, run_four]
  simp only [State.call]
  rw [← hs₁, ← hs₂', ← hs₃', hs₄]
  refine ⟨by rw [hget₃]; rfl, s₃.nextOperation, o, ?_, ho⟩
  exact mem_set.2 (.inl rfl)

/-- A host that opens a workbook and starts on a worksheet finds the tables consistent. -/
theorem handles_consistent_iff_waiting : ∃ s s', State.new {} = .ok s ∧
    s' = (Run.run Host.step { state := s } openingCalls).state ∧
    (s'.rangeSources.get? 1).isSome ∧
    (∃ operation o, (operation, .openTable o) ∈ s'.operations.entries ∧ o.sourceHandle = 1) ∧
    Run.Along Host.step Host.Good { state := s } openingCalls := by
  obtain ⟨s, hnew⟩ : ∃ s, State.new {} = .ok s := ⟨_, rfl⟩
  obtain ⟨s', hs', hsource, hwaits⟩ := exists_waiting hnew
  exact ⟨s, s', hnew, hs', hsource, hwaits, (handles_consistent_iff {} s hnew openingCalls).2
    ⟨trivial, trivial, trivial, trivial, trivial⟩⟩

/-- A host that then closes the workbook finds them inconsistent. -/
theorem handles_inconsistent :
    ∃ s, State.new {} = .ok s ∧ ¬Run.Along Host.step Host.Good { state := s } closingCalls := by
  obtain ⟨s, hnew⟩ : ∃ s, State.new {} = .ok s := ⟨_, rfl⟩
  refine ⟨s, hnew, fun hgood => ?_⟩
  have hidle := (Run.along_iff (fun _ _ hs => hs.step) (fun _ _ hs => hs.good_iff)
    (I := Host.Sound) (Host.sound_new hnew)).1 hgood
  obtain ⟨s', hs', hsource, operation, o, hmem, ho⟩ := exists_waiting hnew
  have hclose : Call.Idle s' (.closeSource 1) := by
    rw [hs']
    exact ((Run.along_append _ _ _).1 hidle).2.1
  exact hclose hsource _ hmem o rfl ho

end Tabulark.Excel.Wasm
