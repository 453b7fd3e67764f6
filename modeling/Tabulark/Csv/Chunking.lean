import Mathlib
import Tabulark.Csv.Feed

/-!
# Where chunks are cut

In lenient mode the index of a scan is that of its source (`summary_scanChunks`),
wherever the chunks are cut, as long as the reader keeps every byte of the
table. A reader that drops a leading byte order mark drops a second one, but
only from a chunk that holds all of it: `chunkingIndependent_iff` says that the
second mark is the only way to tell two cuts apart.
-/

namespace Tabulark.Csv

variable {o : DelimitedOptions}

/-! ## Within the limits -/

namespace ScanIndex

variable {x : ScanIndex o}

theorem exists_closeHeader {fields : ℕ} (hfields : fields ≤ o.limits.maxColumns)
    (hversion : x.schemaVersion < u64Max) : ∃ y, x.closeHeader fields = .ok y := by
  rw [closeHeader, ensureColumns_eq (x := { x with headerNames := [] }) hfields hversion]
  exact ⟨_, rfl⟩

theorem exists_closeRow {fields : ℕ} (hfields : fields ≤ o.limits.maxColumns)
    (hrows : x.rows + 1 ≤ u64Max) (hversion : x.schemaVersion < u64Max) :
    ∃ y, x.closeRow fields = .ok y := by
  have hadd : ∀ y : ScanIndex o, y.rows = x.rows → ∃ z, y.addRow = .ok z := by
    intro y hy
    rw [addRow, hy, checkedAdd_of_le hrows]
    exact ⟨_, rfl⟩
  rw [closeRow]
  split_ifs
  · rw [ensureColumns_eq (x := x.withCheckpoint) hfields hversion, Result.ok_bind]
    exact hadd _ rfl
  · exact hadd _ rfl

/-- A field ends within the limits. -/
theorem endField_of_le (hfields : x.recordFields + 1 ≤ o.limits.maxColumns)
    (hrows : x.rows + 1 ≤ u64Max) (hversion : x.schemaVersion < u64Max) (recordEnd : Bool) :
    (x.endField recordEnd).result = .ok (x.nextField recordEnd) := by
  have hok : ∃ y, (x.endField recordEnd).result = .ok y := by
    have hmax := o.limits.maxColumns_le
    rw [endField, finishField, if_neg (by omega), if_neg (by omega), Emit.bind_mk_ok]
    cases recordEnd with
    | false => exact ⟨_, rfl⟩
    | true =>
      dsimp only
      rw [if_pos rfl, finishRecord]
      split_ifs
      · obtain ⟨y, hy⟩ := exists_closeHeader (x := { x.closeField with recordFields := 0 })
          hfields hversion
        exact ⟨_, congrArg (Except.map startRecord) hy⟩
      · obtain ⟨y, hy⟩ := exists_closeRow (x := { x.closeField with recordFields := 0 })
          hfields hrows hversion
        exact ⟨_, congrArg (Except.map startRecord) hy⟩
  obtain ⟨y, hy⟩ := hok
  rw [hy, (endField_eq_ok hy).2]

/-- Room for `n` more bytes. -/
structure Roomy (x : ScanIndex o) (n : ℕ) : Prop where
  field : x.field.1.length + n ≤ o.limits.maxFieldBytes
  recordFields : x.recordFields + n ≤ o.limits.maxColumns
  rows : x.rows + n ≤ u64Max
  schemaVersion : x.schemaVersion + n ≤ u64Max

/-- A field that ends takes at most one more row and one more version. -/
theorem roomy_nextField {n : ℕ} (hfield : n ≤ o.limits.maxFieldBytes)
    (hfields : x.recordFields + (n + 1) ≤ o.limits.maxColumns) (hrows : x.rows + (n + 1) ≤ u64Max)
    (hversion : x.schemaVersion + (n + 1) ≤ u64Max) (recordEnd : Bool) :
    (x.nextField recordEnd).Roomy n := by
  have hempty : 0 + n ≤ o.limits.maxFieldBytes := by omega
  have hclosed : 0 + n ≤ o.limits.maxColumns := by omega
  have hwiden : ∀ (y : ScanIndex o) count names, y.schemaVersion = x.schemaVersion →
      (y.widen count names).schemaVersion + n ≤ u64Max := by
    intro y count names hy
    rw [widen]
    dsimp only
    split_ifs <;> omega
  cases recordEnd with
  | false => exact ⟨hempty, by change x.recordFields + 1 + n ≤ _; omega,
      by change x.rows + n ≤ _; omega, by change x.schemaVersion + n ≤ _; omega⟩
  | true =>
    rw [nextField, if_pos rfl, nextRecord]
    split_ifs
    · exact ⟨hempty, hclosed, by change x.rows + n ≤ _; omega,
        hwiden { x.closeField with recordFields := 0, headerNames := [] } _
          (some x.closeField.headerNames) rfl⟩
    · exact ⟨hempty, hclosed, by change x.rows + 1 + n ≤ _; omega,
        hwiden (withCheckpoint { x.closeField with recordFields := 0 }) _ none rfl⟩

theorem Roomy.byte {n : ℕ} (h : x.Roomy (n + 1)) (l : LexState) (c : UInt8) :
    ∃ y, (x.byte l c).result = .ok ((l.step o.delimiter c).1, y) ∧ y.Roomy n := by
  obtain ⟨hfield, hfields, hrows, hversion⟩ := h
  have hcopied : (l.step o.delimiter c).2.toList.length ≤ 1 := by
    cases (l.step o.delimiter c).2 <;> simp
  have hlength : (x.field.1 ++ (l.step o.delimiter c).2.toList).length ≤
    o.limits.maxFieldBytes := by
    rw [List.length_append]
    omega
  rw [ScanIndex.byte, appendField, FieldBytes.append, dif_pos hlength, Result.ok_bind,
    Emit.silent, Emit.bind_mk_ok, enter]
  cases (l.step o.delimiter c).1.fieldEnd with
  | none =>
    refine ⟨_, rfl, ?_, ?_, ?_, ?_⟩
    · change (x.field.1 ++ (l.step o.delimiter c).2.toList).length + n ≤ _
      rw [List.length_append]
      omega
    · change x.recordFields + n ≤ _
      omega
    · change x.rows + n ≤ _
      omega
    · change x.schemaVersion + n ≤ _
      omega
  | some recordEnd =>
    dsimp only
    rw [Emit.bind_result, endField_of_le (by
      change x.recordFields + 1 ≤ _
      omega) (by
      change x.rows + 1 ≤ _
      omega) (by
      change x.schemaVersion < _
      omega)]
    refine ⟨_, rfl, roomy_nextField ?_ ?_ ?_ ?_ recordEnd⟩
    · omega
    · exact hfields
    · exact hrows
    · exact hversion

/-- A text that fits in the limits is indexed. -/
theorem Roomy.bytes {input : List UInt8} (h : x.Roomy (input.length + 1))
    (l : LexState) : ∃ q, (x.bytes l input).result = .ok q ∧ q.2.Roomy 1 := by
  induction input generalizing x l with
  | nil => exact ⟨_, rfl, by simpa using h⟩
  | cons c cs ih =>
    obtain ⟨y, hy, hroomy⟩ := Roomy.byte (by simpa using h) l c
    obtain ⟨q, hq, hlast⟩ := ih hroomy (l.step o.delimiter c).1
    refine ⟨q, ?_, hlast⟩
    rw [ScanIndex.bytes, Emit.bind_result, hy]
    exact hq

theorem Roomy.eof (h : x.Roomy 1) (l : LexState) :
    ∃ y, (x.eof l).result = .ok y := by
  rw [ScanIndex.eof]
  split_ifs
  · exact ⟨_, rfl⟩
  · exact ⟨_, endField_of_le h.recordFields h.rows h.schemaVersion true⟩

end ScanIndex

/-- A source that fits in the limits has an index. -/
theorem exists_sourceIndex {source : List UInt8}
    (hfield : source.length < o.limits.maxFieldBytes)
    (hcolumns : source.length < o.limits.maxColumns)
    (hlen : source.length < u64Max) : ∃ x, sourceIndex o source = .ok x := by
  have htable : (tableBytes source).length ≤ source.length := by
    rw [tableBytes, List.length_drop]
    omega
  have hroomy : (startIndex o (tableBase source)).Roomy ((tableBytes source).length + 1) := by
    refine ⟨?_, ?_, ?_, ?_⟩
    · change 0 + _ ≤ _
      omega
    · change 0 + _ ≤ _
      omega
    · change 0 + _ ≤ _
      omega
    · change 0 + _ ≤ _
      omega
  obtain ⟨q, hq, hlast⟩ := hroomy.bytes .startRecord
  obtain ⟨x, hx⟩ := hlast.eof q.1
  exact ⟨x, by rw [sourceIndex, hq]; exact hx⟩

/-! ## First fields -/

/-- The bytes that no field can contain unquoted. -/
def isPlain (d c : UInt8) : Bool := c ≠ d ∧ c ≠ cr ∧ c ≠ lf

/-- The first field that ends in `input`, or the one the end of the input ends. -/
def firstField (d : UInt8) : LexState → List UInt8 → List UInt8 → List UInt8
  | _, field, [] => field
  | l, field, c :: cs =>
    if (l.step d c).1.fieldEnd.isSome then field ++ (l.step d c).2.toList
    else firstField d (l.step d c).1 (field ++ (l.step d c).2.toList) cs

namespace OpenRecord

variable {d : UInt8}

/-- An open record keeps the fields it has. -/
theorem head_records_of_fields {p : OpenRecord} (hl : p.lex.isBoundary = false)
    {field : List UInt8} {fields : Record} (hp : p.fields = field :: fields) (input : List UInt8) :
    ∃ record more, p.records d input = (field :: record) :: more := by
  induction input generalizing p fields with
  | nil =>
    rw [records, feed, finish, if_neg (by simp [hl]), hp]
    exact ⟨_, _, rfl⟩
  | cons c cs ih =>
    rw [records, feed, byte]
    cases hend : (p.lex.step d c).1.fieldEnd with
    | none => exact ih (LexState.not_isBoundary_step hl hend) hp
    | some recordEnd =>
      cases recordEnd with
      | false =>
        dsimp only
        exact ih (LexState.not_isBoundary_of_fieldEnd hend) (by rw [hp]; rfl)
      | true =>
        dsimp only
        rw [hp]
        exact ⟨_, _, rfl⟩

/-- The first field of an open record. -/
theorem head_records {p : OpenRecord} (hl : p.lex.isBoundary = false) (hp : p.fields = [])
    (input : List UInt8) :
    ∃ record more, p.records d input = (firstField d p.lex p.field input :: record) :: more := by
  induction input generalizing p with
  | nil =>
    rw [records, feed, finish, if_neg (by simp [hl]), hp]
    exact ⟨_, _, rfl⟩
  | cons c cs ih =>
    rw [records, feed, byte, firstField]
    cases hend : (p.lex.step d c).1.fieldEnd with
    | none => exact ih (LexState.not_isBoundary_step hl hend) hp
    | some recordEnd =>
      cases recordEnd with
      | false =>
        dsimp only
        exact head_records_of_fields (LexState.not_isBoundary_of_fieldEnd hend)
          (by rw [hp]; rfl) cs
      | true =>
        dsimp only
        rw [hp]
        exact ⟨_, _, rfl⟩

end OpenRecord

/-- An unquoted field ends before the first byte it cannot contain. -/
theorem firstField_inField {d : UInt8} (field input : List UInt8) :
    firstField d .inField field input = field ++ input.takeWhile (isPlain d) := by
  induction input generalizing field with
  | nil => simp [firstField]
  | cons c cs ih =>
    rw [firstField, LexState.step, LexState.fieldByte, List.takeWhile_cons, isPlain]
    split_ifs <;> simp_all [LexState.fieldEnd]

theorem prefix_firstField (d : UInt8) (l : LexState) (field input : List UInt8) :
    field <+: firstField d l field input := by
  induction input generalizing l field with
  | nil => exact List.prefix_rfl
  | cons c cs ih =>
    rw [firstField]
    split_ifs
    · exact List.prefix_append _ _
    · exact (List.prefix_append _ _).trans (ih _ _)

/-- A quoted field contains a byte it could not contain unquoted, or no more quotes than
    the source. -/
theorem firstField_quoted {d : UInt8} (hd : d ≠ quote) {l : LexState} (field input : List UInt8)
    (hl : l = .inQuotedField ∨ l = .inDoubleEscapedQuote) :
    (∃ c ∈ firstField d l field input, isPlain d c = false) ∨
      (firstField d l field input).count quote ≤
        field.count quote + (input.takeWhile (isPlain d)).count quote := by
  have hquote : isPlain d quote = true := by
    simpa [isPlain, quote, cr, lf] using hd.symm
  induction input generalizing l field with
  | nil => exact .inr (Nat.le_add_right _ _)
  | cons c cs ih =>
    rcases hl with rfl | rfl
    · by_cases hc : c = quote
      · -- The closing quote, or the first of two: nothing is copied yet.
        subst hc
        rw [firstField, LexState.step, if_pos rfl, List.takeWhile_cons, if_pos hquote,
          List.count_cons_self]
        have hrest := ih field (l := .inDoubleEscapedQuote) (.inr rfl)
        simp only [LexState.fieldEnd, Option.isSome_none, Bool.false_eq_true, if_false,
          Option.toList_none, List.append_nil]
        exact hrest.imp_right fun hle => by omega
      · rw [firstField, LexState.step, if_neg hc, List.takeWhile_cons]
        simp only [LexState.fieldEnd, Option.isSome_none, Bool.false_eq_true, if_false,
          Option.toList_some]
        by_cases hplain : isPlain d c = true
        · rw [if_pos hplain, List.count_cons_of_ne hc]
          have hrest := ih (field ++ [c]) (l := .inQuotedField) (.inl rfl)
          rw [List.count_append, List.count_singleton, if_neg (by simpa using hc)] at hrest
          exact hrest
        · refine .inl ⟨c, ?_, Bool.eq_false_iff.2 hplain⟩
          exact (prefix_firstField _ _ _ _).subset (List.mem_append_right _ List.mem_cons_self)
    · by_cases hc : c = quote
      · subst hc
        rw [firstField, LexState.step, if_pos rfl, List.takeWhile_cons, if_pos hquote,
          List.count_cons_self]
        have hrest := ih (field ++ [quote]) (l := .inQuotedField) (.inl rfl)
        rw [List.count_append, List.count_singleton, if_pos (by simp)] at hrest
        simp only [LexState.fieldEnd, Option.isSome_none, Bool.false_eq_true, if_false,
          Option.toList_some]
        exact hrest.imp_right fun hle => by omega
      · rw [firstField, LexState.step, if_neg hc, List.takeWhile_cons]
        by_cases hplain : isPlain d c = true
        · have hbyte : LexState.fieldByte d c = (.inField, some c) := by
            simp only [isPlain, decide_eq_true_eq, Bool.decide_and, Bool.and_eq_true] at hplain
            rw [LexState.fieldByte, if_neg hplain.1, if_neg hplain.2.1, if_neg hplain.2.2]
          rw [hbyte, if_pos hplain, List.count_cons_of_ne hc]
          simp only [LexState.fieldEnd, Option.isSome_none, Bool.false_eq_true, if_false,
            Option.toList_some]
          rw [firstField_inField, List.count_append, List.count_append, List.count_singleton,
            if_neg (by simpa using hc)]
          exact .inr le_rfl
        · have hend : (LexState.fieldByte d c).1.fieldEnd.isSome = true ∧
              (LexState.fieldByte d c).2 = none := by
            rw [LexState.fieldByte]
            simp only [isPlain, Bool.decide_and, Bool.and_eq_true, decide_eq_true_eq, not_and_or,
              not_not] at hplain
            split_ifs with h1 h2 h3
            · exact ⟨rfl, rfl⟩
            · exact ⟨rfl, rfl⟩
            · exact ⟨rfl, rfl⟩
            · exact absurd hplain (by simp [h1, h2, h3])
          rw [if_pos hend.1, hend.2, if_neg hplain]
          exact .inr (by simp)

/-! ## What a finished scan says of its table -/

/-- What a scan tells of its table. -/
structure ScanSummary where
  rows : ℕ
  columns : List ColumnSchema
  schemaVersion : ℕ
  checkpoints : List CsvCheckpoint
  bytesScanned : ℕ

namespace CsvScanner

variable {reader : Reader o.delimiter}

/-- The summary of a finished scan. -/
def summary (c : CsvScanner reader) : ScanSummary where
  rows := c.scan.index.rows
  columns := c.scan.index.columns
  schemaVersion := c.scan.index.schemaVersion
  checkpoints := c.scan.index.checkpoints
  bytesScanned := c.bytesReceived

/-- The scans of a source finish all alike or not at all, wherever its chunks are cut. -/
def ChunkingIndependent (reader : (d : UInt8) → Reader d) (source : ByteSource) : Prop :=
  ∀ o : DelimitedOptions, o.validate = .ok () → o.mode = .lenient →
    ∀ chunks chunks', IsCut source chunks → IsCut source chunks' →
      (scanChunks (reader o.delimiter) chunks).toOption.map summary =
        (scanChunks (reader o.delimiter) chunks').toOption.map summary

/-- The summary of a scan, if the reader keeps every byte. -/
theorem summary_scanChunks (hvalid : o.validate = .ok ()) (hmode : o.mode = .lenient)
    {source : ByteSource} (hkeeps : reader.Keeps source.bytes) {chunks : List (List UInt8)}
    (hcut : IsCut source chunks) :
    (scanChunks reader chunks).toOption.map summary =
      (sourceIndex o source.bytes).toOption.map fun x =>
        ⟨x.rows, x.columns, x.schemaVersion, x.checkpoints, source.bytes.length⟩ := by
  obtain ⟨hne, hflatten⟩ := hcut
  rw [← hflatten] at hkeeps
  have hscan := scanChunks_eq hvalid hne (by rw [hflatten]; exact source.length_le) hkeeps
  have hresult := result_scanPieces o hne
  rw [tableStart] at hresult
  rw [Emit.run_lenient hmode, hresult, hflatten] at hscan
  cases hx : sourceIndex o source.bytes with
  | error e =>
    rw [hx] at hscan
    cases hr : scanChunks reader chunks with
    | error e' => rfl
    | ok c =>
      rw [hr] at hscan
      cases hscan
  | ok x =>
    rw [hx] at hscan
    cases hr : scanChunks reader chunks with
    | error e' =>
      rw [hr] at hscan
      cases hscan
    | ok c =>
      rw [hr] at hscan
      have houtcome := Except.ok.inj hscan
      have hindex : c.scan.index = x := congrArg (fun p => p.1.index) houtcome
      have hreceived : c.bytesReceived = source.bytes.length := congrArg (fun p => p.2.1) houtcome
      change some c.summary = some _
      rw [summary, hindex, hreceived]

/-- A source without a second mark keeps every byte. -/
theorem keeps_of_not_double {source : List UInt8} (h : ¬utf8Bom ++ utf8Bom <+: source) :
    reader.Keeps source := by
  intro _ htake
  by_cases hbom : utf8Bom <+: source
  · obtain ⟨rest, rfl⟩ := hbom
    rw [tableBytes, tableBase_of_marked (List.prefix_append _ _)] at htake
    exact h ((List.prefix_append_right_inj utf8Bom).2 htake)
  · rw [tableBytes, tableBase_of_unmarked hbom] at htake
    exact hbom htake

end CsvScanner

/-! ## A dropped mark -/

/-- The widest limits. -/
def wideOptions (delimiter : UInt8) (header : Bool) : DelimitedOptions where
  delimiter
  header
  mode := .lenient
  checkpointInterval := 1
  tableName := "Table 1"
  limits := {
    maxFieldBytes := usizeMax
    maxColumns := usizeMax
    maxCellsPerRange := usizeMax
    maxBatchBytes := usizeMax
    maxDiagnostics := usizeMax }

namespace CsvScanner

variable {reader : Reader o.delimiter} {rest : List UInt8}

/-- Cut inside the second mark, the scan keeps it. -/
theorem exists_scan_kept (hvalid : o.validate = .ok ()) (hmode : o.mode = .lenient)
    (hlen : (utf8Bom ++ (utf8Bom ++ rest)).length ≤ maxSafeInteger)
    (hindex : ∃ x, sourceIndex o (utf8Bom ++ (utf8Bom ++ rest)) = .ok x) :
    ∃ c, scanChunks reader [utf8Bom ++ [0xEF], [0xBB, 0xBF] ++ rest] = .ok c ∧
      c.scan.index.Indexes 3 (utf8Bom ++ rest) := by
  obtain ⟨x, hx⟩ := hindex
  have hindexes := indexes_sourceIndex hx
  rw [tableBytes, tableBase_of_marked (List.prefix_append _ _)] at hindexes
  have hkeeps : reader.KeepsPieces reader.fresh
      ((holdBom [] (utf8Bom ++ [0xEF])).2 :: [[0xBB, 0xBF] ++ rest]) :=
    ⟨fun h => absurd h.2.2 (by decide), fun h => absurd h (by decide)⟩
  have hscan := feedAll_of_mark rfl (by simpa [utf8Bom] using hlen) hkeeps
  rw [ScansPieces] at hscan
  have hflatten : [] ++ [utf8Bom ++ [0xEF], [0xBB, 0xBF] ++ rest].flatten =
      utf8Bom ++ (utf8Bom ++ rest) := by
    simp [utf8Bom]
  have hresult := result_scanPieces o
    (List.cons_ne_nil (utf8Bom ++ [0xEF]) [[0xBB, 0xBF] ++ rest])
  rw [← List.nil_append [utf8Bom ++ [0xEF], [0xBB, 0xBF] ++ rest].flatten, tableStart] at hresult
  rw [Emit.run_lenient hmode, hresult, hflatten, hx] at hscan
  have hnew : scanChunks reader [utf8Bom ++ [0xEF], [0xBB, 0xBF] ++ rest] =
      (holding reader []).feedAll (List.length ([] : List UInt8))
        [utf8Bom ++ [0xEF], [0xBB, 0xBF] ++ rest] := by
    rw [scanChunks, new, hvalid]
    rfl
  rw [hnew]
  cases hr : (holding reader []).feedAll (List.length ([] : List UInt8))
      [utf8Bom ++ [0xEF], [0xBB, 0xBF] ++ rest] with
  | error e =>
    rw [hr] at hscan
    cases hscan
  | ok c =>
    rw [hr] at hscan
    refine ⟨c, rfl, ?_⟩
    rw [show c.scan.index = x from congrArg (fun p => p.1.index) (Except.ok.inj hscan)]
    exact hindexes

/-- The reader loop over a mark and `rest` parses only `rest`, if it does not fail. -/
theorem bytes_of_drive_bom (hdrops : reader.dropsBom = true) {st st' : reader.State}
    (hst : reader.hasRead st = false) {s s' : ScanState o}
    (hlen : s.index.parserOffset + (utf8Bom ++ rest).length ≤ u64Max)
    (h : drive reader (scanHandler o) (utf8Bom ++ rest).length st s (utf8Bom ++ rest) =
      .ok (st', s')) :
    (scanHandler o).bytes o.delimiter (reader.lex st)
      ((scanHandler o).setOffset s (s.index.parserOffset + 3)) rest = .ok (reader.lex st', s') := by
  by_cases hrest : rest = []
  · -- The mark alone leaves nothing to parse.
    subst hrest
    obtain ⟨hconsumed, houtput, hlex, hresult⟩ := reader.reads_bom_alone st fieldScratchBytes hdrops
      hst (by decide)
    rw [List.append_nil] at h
    change (if _ then _ else _) = _ at h
    rw [if_neg (show ¬(utf8Bom.isEmpty || (scanHandler o).done s) = true from
      Bool.false_ne_true)] at h
    dsimp only at h
    obtain ⟨s₁, happ, h⟩ := Result.bind_eq_ok.1 h
    rw [houtput] at happ
    obtain rfl : s = s₁ := by
      rw [show (scanHandler o).appendField s [] = .ok s from ScanState.appendField_nil s] at happ
      exact Except.ok.inj happ
    obtain ⟨offset, hoffset, h⟩ := Result.bind_eq_ok.1 h
    have hoverflow : (scanHandler o).offset s + 3 ≤ u64Max := hlen
    rw [hconsumed, checkedAdd_of_le hoverflow] at hoffset
    cases hoffset
    rcases hresult with hresult | hresult
    · rw [hresult] at h
      cases h
      rw [hlex]
      rfl
    · rw [hresult] at h
      cases h
  · have hdrive := @drive_bom _ _ reader _ st (utf8Bom ++ rest).length (scanHandler_lawful o) s rest
      (by rw [List.length_append]; exact Nat.lt_add_of_pos_left (Nat.zero_lt_succ 2)) hlen
      hdrops hst hrest rfl
    rw [h] at hdrive
    exact hdrive.symm

/-- Where the second mark is dropped, the table is that of the rest. -/
theorem describes_scan_dropped (hvalid : o.validate = .ok ()) (hdrops : reader.dropsBom = true)
    (hlen : (utf8Bom ++ (utf8Bom ++ rest)).length ≤ maxSafeInteger) {c : CsvScanner reader}
    (hc : scanChunks reader [utf8Bom, utf8Bom ++ rest] = .ok c) :
    c.scan.index.IndexesWith (fun _ _ => True) 6 rest := by
  have hlen' : 3 + (utf8Bom ++ rest).length ≤ maxSafeInteger := by
    rwa [List.length_append] at hlen
  have hsafe := hlen'.trans maxSafeInteger_le_u64Max
  have hstart := parsing_starting reader 3 3
  have hfeed := @feedAll_of_resolve o reader (holding reader []) (starting reader 3 3) rfl
    utf8Bom [] [utf8Bom ++ rest]
    (show 0 + 3 ≤ maxSafeInteger by decide) rfl rfl rfl rfl
  rw [scanChunks, new, hvalid] at hc
  change (holding reader []).feedAll _ _ = _ at hc
  rw [show (0 : ℕ) = (holding reader []).bytesReceived from rfl, hfeed, parseAll, parseRest_nil,
    Result.ok_bind, List.isEmpty_cons, closeChunk_false_eq hstart (Nat.zero_le _), Result.ok_bind,
    if_neg Bool.false_ne_true, feedAll_of_parsing hstart rfl hlen', parseAll] at hc
  obtain ⟨c₁, hparse, hc⟩ := Result.bind_eq_ok.1 hc
  obtain ⟨c₂, hclose, hc⟩ := Result.bind_eq_ok.1 hc
  obtain rfl : c₂ = c := Except.ok.inj hc
  -- The quotes of the piece only add diagnostics.
  rw [parseRest, processBytes, if_neg (not_not.2 rfl)] at hparse
  obtain ⟨scan, hscan, hparse⟩ := Result.bind_eq_ok.1 hparse
  obtain ⟨⟨st, s⟩, hdrive, hparse⟩ := Result.bind_eq_ok.1 hparse
  cases hparse
  obtain ⟨ds, _, rfl⟩ := Result.map_eq_ok.1 ((reportQuotes_eq _ _ _).symm.trans hscan)
  have hbytes := bytes_of_drive_bom hdrops reader.hasRead_fresh hsafe hdrive
  change (scanHandler o).bytes o.delimiter _
    ⟨{ parserOffset := 6, recordStartOffset := 3 }, ds⟩ rest = _ at hbytes
  rw [ScanState.bytes_eq, reader.lex_fresh] at hbytes
  obtain ⟨⟨⟨l, x⟩, ds'⟩, hrun, hs⟩ := Result.map_eq_ok.1 hbytes
  have hresult := (Emit.run_eq_ok.1 hrun).2
  have hlex : l = reader.lex st := congrArg Prod.fst hs
  have hindex : x = s.index := congrArg (fun p => p.2.index) hs
  have hstarts : StartsAt o.delimiter 6 fun _ _ _ => True := ⟨fun _ _ _ _ => id, fun _ _ => trivial⟩
  obtain ⟨hfeed, htracks⟩ := @ScanIndex.Tracks.bytes o _ _ _ [] _ hstarts
    (ScanIndex.describes_start o trivial) _ _ hresult
  -- The end of the file closes the last record.
  rw [List.isEmpty_nil, closeChunk, if_pos rfl] at hclose
  obtain ⟨c₁, hfinish, hclose⟩ := Result.bind_eq_ok.1 hclose
  obtain ⟨_, _, hclose⟩ := Result.bind_eq_ok.1 hclose
  cases hclose
  rw [finish_eq] at hfinish
  obtain ⟨p, hp, rfl⟩ := Result.map_eq_ok.1 hfinish
  have heof := (Emit.run_eq_ok.1 hp).2
  rw [ScanPoint.finish, Emit.bind_mk_ok, point] at heof
  dsimp only at heof
  rw [← hlex, ← hindex, hfeed] at heof
  exact ScanIndex.Tracks.eof htracks (fun _ _ => id) trivial heof

end CsvScanner

/-! ## The two tables -/

/-- The name of the first column under a header. -/
def firstName (field : List UInt8) : List UInt8 :=
  if (Utf8.lossy field).isEmpty then asciiBytes "column_1" else Utf8.lossy field

/-- The first field of the header names the first column. -/
theorem head_column {x : ScanIndex o} {base len : ℕ} {recs : List Record} {p : OpenRecord}
    {startsAt : ℕ → ℕ → Prop} (h : x.Describes base len recs p startsAt) (hheader : o.header = true)
    {field : List UInt8} {record : Record} {more : List Record}
    (hrecs : recs = (field :: record) :: more) :
    x.columns.head?.map (·.name) = some (firstName field) := by
  have hnames : headerNames o recs = some (Utf8.lossy field :: record.map Utf8.lossy) := by
    rw [headerNames, if_pos hheader, hrecs]
    rfl
  have hlen := h.header_le _ hnames
  rw [List.length_cons] at hlen
  obtain ⟨n, hn⟩ := Nat.exists_eq_succ_of_ne_zero (show x.columns.length ≠ 0 by omega)
  rw [h.columns, hn, hnames, List.range_succ_eq_map, List.map_cons, List.head?_cons,
    Option.map_some, firstName]
  cases hempty : (Utf8.lossy field).isEmpty with
  | true =>
    rw [if_pos rfl]
    simp only [columnAt, columnName, Option.bind_some, List.getElem?_cons_zero,
      Option.filter, hempty, Bool.not_true, Bool.false_eq_true, if_false, Option.getD_none]
    decide
  | false =>
    simp [columnAt, columnName, Option.filter, hempty]

theorem isValid_utf8Bom : Utf8.isValid utf8Bom = true := by decide

/-- A mark in front of a name shows, unless the name differs otherwise. -/
theorem firstName_mark_ne {u v : List UInt8}
    (h : v = u ∨ ∃ a : UInt8, a ≤ 0x7F ∧ (utf8Bom ++ u).count a ≠ v.count a) :
    firstName (utf8Bom ++ u) ≠ firstName v := by
  have hmark : firstName (utf8Bom ++ u) = utf8Bom ++ Utf8.lossy u := by
    rw [firstName, Utf8.lossy_append isValid_utf8Bom]
    rfl
  intro heq
  rw [firstName.eq_def v] at heq
  split_ifs at heq
  · rw [hmark] at heq
    exact absurd (congrArg List.head? heq)
      (show some 0xEF ≠ (asciiBytes "column_1").head? by decide)
  · rcases h with rfl | ⟨a, ha, hcount⟩
    · rw [hmark] at heq
      have hlen := congrArg List.length heq
      rw [List.length_append] at hlen
      exact absurd hlen (by simp [utf8Bom])
    · refine hcount ?_
      rw [← Utf8.count_lossy ha (utf8Bom ++ u), ← Utf8.count_lossy ha v, ← heq, hmark,
        Utf8.lossy_append isValid_utf8Bom]

section Tables

variable {d : UInt8}

/-- A kept mark opens a record. -/
theorem records_mark (hd : d ≤ 0x7F) (rest : List UInt8) :
    records d (utf8Bom ++ rest) = OpenRecord.records d ⟨.inField, utf8Bom, []⟩ rest := by
  have hne : ∀ c : UInt8, ¬c ≤ 0x7F → c ≠ d := fun c hc h => hc (h ▸ hd)
  have hfeed : OpenRecord.start.feed d utf8Bom = ([], ⟨.inField, utf8Bom, []⟩) := by
    simp [utf8Bom, OpenRecord.feed, OpenRecord.byte, OpenRecord.start, LexState.step,
      LexState.recordStart, LexState.fieldStart, LexState.fieldByte, LexState.fieldEnd, cr, lf,
      quote, hne 0xEF (by decide), hne 0xBB (by decide), hne 0xBF (by decide)]
  rw [records, OpenRecord.records_append, hfeed]
  rfl

/-- A kept mark with nothing after it on its line is a record of its own. -/
theorem length_records_mark (rest : List UInt8)
    (hrest : rest = [] ∨ ∃ c cs, rest = c :: cs ∧ (c = cr ∨ c = lf)) :
    (records 44 (utf8Bom ++ rest)).length = (records 44 rest).length + 1 := by
  rw [records_mark (by decide)]
  rcases hrest with rfl | ⟨c, cs, rfl, hc⟩
  · rfl
  · have hblank : records 44 (c :: cs) = records 44 cs := by
      rcases hc with rfl | rfl <;> rfl
    have hline : ∃ l : LexState, l.isBoundary = true ∧
        OpenRecord.records 44 ⟨.inField, utf8Bom, []⟩ (c :: cs) =
          [utf8Bom] :: OpenRecord.records 44 ⟨l, [], []⟩ cs := by
      rcases hc with rfl | rfl
      · exact ⟨.crlf, rfl, rfl⟩
      · exact ⟨.endRecord, rfl, rfl⟩
    obtain ⟨l, hl, hline⟩ := hline
    rw [hblank, hline, List.length_cons,
      OpenRecord.records_of_isBoundary (fun _ => ⟨rfl, rfl⟩) hl]
    rfl

/-- Elsewhere the mark is part of the first name. -/
theorem exists_records_mark (hd : d ≤ 0x7F) (hquote : d ≠ quote) {c : UInt8} (hdelimiter : c ≠ d)
    (hcr : c ≠ cr) (hlf : c ≠ lf) (cs : List UInt8) :
    ∃ u v record record' more more',
      records d (utf8Bom ++ c :: cs) = ((utf8Bom ++ u) :: record) :: more ∧
      records d (c :: cs) = (v :: record') :: more' ∧
      firstName (utf8Bom ++ u) ≠ firstName v := by
  obtain ⟨record, more, hkept⟩ := OpenRecord.head_records (d := d)
    (p := ⟨.inField, utf8Bom, []⟩) rfl rfl (c :: cs)
  rw [firstField_inField, ← records_mark hd] at hkept
  have hplain : isPlain d c = true := by simp [isPlain, hdelimiter, hcr, hlf]
  by_cases hc : c = quote
  · subst hc
    obtain ⟨record', more', hdropped⟩ := OpenRecord.head_records (d := d)
      (p := ⟨.inQuotedField, [], []⟩) rfl rfl cs
    refine ⟨_, _, record, record', more, more', hkept, hdropped, firstName_mark_ne (.inr ?_)⟩
    rw [List.takeWhile_cons, if_pos hplain]
    rcases firstField_quoted hquote [] cs (.inl rfl) with ⟨t, ht, hterminator⟩ | hle
    · have hascii : t ≤ 0x7F := by
        simp only [isPlain, Bool.decide_and, Bool.and_eq_false_iff, decide_eq_false_iff_not,
          not_not] at hterminator
        rcases hterminator with rfl | rfl | rfl
        · exact hd
        · decide
        · decide
      have hmark : ∀ b ∈ utf8Bom, ¬b ≤ 0x7F := by
        intro b hb
        simp only [utf8Bom, List.mem_cons, List.not_mem_nil, or_false] at hb
        rcases hb with rfl | rfl | rfl <;> decide
      have hkeptCount : (utf8Bom ++ quote :: cs.takeWhile (isPlain d)).count t = 0 := by
        rw [List.count_eq_zero]
        intro hmem
        rcases List.mem_append.1 hmem with hmem | hmem
        · exact hmark t hmem hascii
        · rcases List.mem_cons.1 hmem with rfl | hmem
          · rw [hplain] at hterminator
            cases hterminator
          · rw [List.mem_takeWhile_imp hmem] at hterminator
            cases hterminator
      exact ⟨t, hascii, by rw [hkeptCount]; exact (List.count_pos_iff.2 ht).ne⟩
    · refine ⟨quote, by decide, ?_⟩
      rw [List.count_append, List.count_cons_self]
      rw [List.count_nil] at hle
      dsimp only
      omega
  · obtain ⟨record', more', hdropped⟩ := OpenRecord.head_records (d := d)
      (p := ⟨.inField, [c], []⟩) rfl rfl cs
    have hbyte : OpenRecord.start.byte d c = ([], ⟨.inField, [c], []⟩) := by
      simp [OpenRecord.byte, OpenRecord.start, LexState.step, LexState.recordStart,
        LexState.fieldStart, LexState.fieldByte, LexState.fieldEnd, hcr, hlf, hc, hdelimiter]
    rw [firstField_inField] at hdropped
    refine ⟨_, _, record, record', more, more', hkept, ?_, firstName_mark_ne (.inl rfl)⟩
    rw [records, OpenRecord.records, OpenRecord.feed, hbyte, List.takeWhile_cons, if_pos hplain]
    exact hdropped

end Tables

namespace CsvScanner

/-- Independent chunks find the same table with the second mark and without it. -/
theorem tables_of_independent {reader : (d : UInt8) → Reader d}
    (hdrops : ∀ d, (reader d).dropsBom = true) {source : ByteSource} {rest : List UInt8}
    (hsource : source.bytes = utf8Bom ++ (utf8Bom ++ rest))
    (hlen : source.bytes.length < usizeMax) (h : ChunkingIndependent reader source)
    {d : UInt8} {header : Bool} (hvalid : (wideOptions d header).validate = .ok ()) :
    ∃ x y : ScanIndex (wideOptions d header), x.Indexes 3 (utf8Bom ++ rest) ∧
      y.IndexesWith (fun _ _ => True) 6 rest ∧ x.rows = y.rows ∧ x.columns = y.columns := by
  have hle := source.length_le
  have husize : usizeMax ≤ u64Max := by decide
  rw [hsource] at hlen hle
  obtain ⟨c, hc, hindexes⟩ := @exists_scan_kept (wideOptions d header) (reader d) _
    hvalid rfl hle (exists_sourceIndex hlen hlen (hlen.trans_le husize))
  have hkept : IsCut source [utf8Bom ++ [0xEF], [0xBB, 0xBF] ++ rest] :=
    ⟨List.cons_ne_nil _ _, by rw [hsource]; simp [utf8Bom]⟩
  have hdropped : IsCut source [utf8Bom, utf8Bom ++ rest] :=
    ⟨List.cons_ne_nil _ _, by rw [hsource]; simp⟩
  have hsame := h (wideOptions d header) hvalid rfl _ _ hkept hdropped
  change (scanChunks (o := wideOptions d header) (reader d) _).toOption.map summary = _ at hsame
  rw [hc] at hsame
  cases hr : scanChunks (o := wideOptions d header) (reader d) [utf8Bom, utf8Bom ++ rest] with
  | error e =>
    have hnone := hsame.trans (congrArg (fun r => (Except.toOption r).map summary) hr)
    cases hnone
  | ok c' =>
    have hsome := Option.some.inj
      (hsame.trans (congrArg (fun r => (Except.toOption r).map summary) hr))
    exact ⟨_, _, hindexes, describes_scan_dropped hvalid (hdrops d) hle hr,
      congrArg ScanSummary.rows hsome, congrArg ScanSummary.columns hsome⟩

/-- The index of a source does not depend on its chunks if it has no second mark; within the
    limits, only then. -/
theorem chunkingIndependent_iff (reader : (d : UInt8) → Reader d)
    (hdrops : ∀ d, (reader d).dropsBom = true) (source : ByteSource) :
    (¬utf8Bom ++ utf8Bom <+: source.bytes → ChunkingIndependent reader source) ∧
      (source.bytes.length < usizeMax → ChunkingIndependent reader source →
        ¬utf8Bom ++ utf8Bom <+: source.bytes) := by
  constructor
  · intro h o hvalid hmode chunks chunks' hcut hcut'
    have hkeeps := @keeps_of_not_double o (reader o.delimiter) _ h
    rw [summary_scanChunks hvalid hmode hkeeps hcut, summary_scanChunks hvalid hmode hkeeps hcut']
  · rintro hlen h ⟨rest, hsource⟩
    rw [List.append_assoc, eq_comm] at hsource
    by_cases hline : rest = [] ∨ ∃ c cs, rest = c :: cs ∧ (c = cr ∨ c = lf)
    · -- The kept mark is a row of its own.
      obtain ⟨x, y, hx, hy, hrows, _⟩ :=
        @tables_of_independent reader hdrops source _ hsource hlen h
        44 false rfl
      have hlength := length_records_mark rest hline
      rw [hx.rows, hy.rows] at hrows
      change (records 44 _).length = (records 44 _).length at hrows
      omega
    · obtain ⟨c, cs, rfl⟩ := List.exists_cons_of_ne_nil fun hnil => hline (.inl hnil)
      have hne : c ≠ cr ∧ c ≠ lf := by
        constructor
        · exact fun hc => hline (.inr ⟨c, cs, rfl, .inl hc⟩)
        · exact fun hc => hline (.inr ⟨c, cs, rfl, .inr hc⟩)
      -- One of two delimiters is not the next byte.
      obtain ⟨d, hd, hquote, hdelimiter, hvalid⟩ : ∃ d : UInt8, d ≤ 0x7F ∧ d ≠ quote ∧ c ≠ d ∧
          (wideOptions d true).validate = .ok () := by
        by_cases hc : c = 44
        · exact ⟨9, by decide, by decide, by rw [hc]; decide, rfl⟩
        · exact ⟨44, by decide, by decide, hc, rfl⟩
      obtain ⟨x, y, hx, hy, _, hcolumns⟩ := tables_of_independent hdrops hsource hlen h hvalid
      obtain ⟨u, v, record, record', more, more', hkept, hdropped, hnames⟩ :=
        exists_records_mark hd hquote hdelimiter hne.1 hne.2 cs
      have hxname := head_column hx rfl hkept
      have hyname := head_column hy rfl hdropped
      rw [hcolumns, hyname] at hxname
      exact hnames (Option.some.inj hxname).symm

/-- A source with one mark. -/
def oneMark : ByteSource := ⟨utf8Bom ++ asciiBytes "a,b\n1,2\n", by decide⟩

theorem chunkingIndependent_iff_oneMark :
    ¬utf8Bom ++ utf8Bom <+: oneMark.bytes ∧
      ChunkingIndependent (fun d => .reference d true) oneMark := by
  have hone : ¬utf8Bom ++ utf8Bom <+: oneMark.bytes := by decide
  exact ⟨hone, (chunkingIndependent_iff (fun d => .reference d true) (fun _ => rfl) oneMark).1 hone⟩

/-- A source with two marks. -/
def twoMarks : ByteSource := ⟨utf8Bom ++ utf8Bom ++ asciiBytes "a\n", by decide⟩

/-- The columns a CSV scan finds. -/
def columnNames (chunks : List (List UInt8)) : Option (List (List UInt8)) :=
  (scanChunks (o := .csv) (.reference 44 true) chunks).toOption.map fun c =>
    c.scan.index.columns.map (·.name)

/-- In one chunk the second mark is dropped, byte by byte it belongs to the name of the
    column. -/
theorem not_chunkingIndependent_twoMarks :
    IsCut twoMarks [utf8Bom ++ utf8Bom ++ asciiBytes "a\n"] ∧
      IsCut twoMarks ((utf8Bom ++ utf8Bom ++ asciiBytes "a\n").map fun c => [c]) ∧
      columnNames [utf8Bom ++ utf8Bom ++ asciiBytes "a\n"] = some [asciiBytes "a"] ∧
      columnNames ((utf8Bom ++ utf8Bom ++ asciiBytes "a\n").map fun c => [c]) =
        some [utf8Bom ++ asciiBytes "a"] ∧
      ¬ChunkingIndependent (fun d => .reference d true) twoMarks := by
  have hwhole : IsCut twoMarks [utf8Bom ++ utf8Bom ++ asciiBytes "a\n"] :=
    ⟨List.cons_ne_nil _ _, by decide⟩
  have hbytes : IsCut twoMarks ((utf8Bom ++ utf8Bom ++ asciiBytes "a\n").map fun c => [c]) :=
    ⟨List.cons_ne_nil _ _, by decide⟩
  refine ⟨hwhole, hbytes, by decide, by decide, fun h => ?_⟩
  have hsame := h .csv rfl rfl _ _ hwhole hbytes
  have hnames := congrArg (Option.map fun s => s.columns.map (·.name)) hsame
  rw [Option.map_map, Option.map_map] at hnames
  exact absurd hnames (by decide)

end CsvScanner

end Tabulark.Csv
