import Tabulark.Csv.Index

/-!
# Feeding the scanner

A scanner is fed chunk by chunk. What the chunks come to is a list of pieces of
the table's bytes (`pieces`), each parsed on its own: the quotes of the whole
piece first, then its records. `scanChunks_eq` says that a scan is nothing else.
-/

namespace Tabulark.Csv

variable {o : DelimitedOptions}

/-! ## Pieces -/

/-- The diagnostics of malformed quotes. -/
def quoteEvents (issues : List QuoteIssue) : List CsvDiagnostic :=
  issues.map fun issue => {
    kind := .malformedQuote
    row := none
    byteOffset := issue.offset
    message := issue.message }

theorem quoteEvents_append (xs ys : List QuoteIssue) :
    quoteEvents (xs ++ ys) = quoteEvents xs ++ quoteEvents ys := List.map_append

/-- The diagnostic of a quote still open at the end of the file. -/
def unclosedEvents (t : QuoteTracker) : List CsvDiagnostic :=
  match t.unclosedQuoteOffset with
  | some offset => [{
      kind := .malformedQuote
      row := none
      byteOffset := offset
      message := "quoted field is not terminated before end-of-file" }]
  | none => []

/-- Where a scan is between two pieces. -/
structure ScanPoint (o : DelimitedOptions) where
  lexical : QuoteTracker := {}
  lex : LexState := .startRecord
  index : ScanIndex o

namespace ScanPoint

/-- One piece. -/
def piece (p : ScanPoint o) (bytes : List UInt8) : Emit (ScanPoint o) :=
  let read := p.lexical.consume o.delimiter p.index.parserOffset bytes
  (Emit.mk (quoteEvents read.2) (.ok ())).bind fun _ =>
    (p.index.bytes p.lex bytes).bind fun q => .silent (.ok ⟨read.1, q.1, q.2⟩)

/-- Piece after piece. -/
def pieces : ScanPoint o → List (List UInt8) → Emit (ScanPoint o)
  | p, [] => .silent (.ok p)
  | p, bytes :: more => (p.piece bytes).bind fun p => pieces p more

/-- The end of the file. -/
def finish (p : ScanPoint o) : Emit (ScanIndex o) :=
  (Emit.mk (unclosedEvents p.lexical) (.ok ())).bind fun _ => p.index.eof p.lex

/-- A whole table. -/
def table (p : ScanPoint o) (parts : List (List UInt8)) : Emit (ScanIndex o) :=
  (p.pieces parts).bind finish

theorem piece_eq_ok {p q : ScanPoint o} {bytes : List UInt8} (h : (p.piece bytes).result = .ok q) :
    q.lexical = (p.lexical.consume o.delimiter p.index.parserOffset bytes).1 ∧
      (p.index.bytes p.lex bytes).result = .ok (q.lex, q.index) := by
  rw [piece, Emit.bind_mk_ok, Emit.bind_result] at h
  obtain ⟨⟨l, x⟩, hx, h⟩ := Result.bind_eq_ok.1 h
  cases h
  exact ⟨rfl, hx⟩

theorem table_cons (p : ScanPoint o) (bytes : List UInt8) (more : List (List UInt8)) :
    p.table (bytes :: more) = (p.piece bytes).bind fun p => p.table more := by
  rw [table, pieces, Emit.bind_assoc]
  rfl

/-- The index does not depend on the cut. -/
theorem result_pieces (p : ScanPoint o) (cut : List (List UInt8)) :
    (p.pieces cut).result.map (fun q => (q.lex, q.index)) =
      (p.index.bytes p.lex cut.flatten).result := by
  induction cut generalizing p with
  | nil => rfl
  | cons bytes more ih =>
    rw [pieces, Emit.bind_result, List.flatten_cons, ScanIndex.bytes_append, Emit.bind_result,
      piece, Emit.bind_mk_ok, Emit.bind_result]
    cases (p.index.bytes p.lex bytes).result with
    | error e => rfl
    | ok q => exact ih _

/-- Nor does the index of the whole table. -/
theorem result_table (p : ScanPoint o) (cut : List (List UInt8)) :
    (p.table cut).result =
      (p.index.bytes p.lex cut.flatten).result >>= fun q => (q.2.eof q.1).result := by
  rw [table, Emit.bind_result, ← result_pieces]
  cases (p.pieces cut).result with
  | error e => rfl
  | ok q =>
    change q.finish.result = _
    rw [finish, Emit.bind_mk_ok]
    rfl

end ScanPoint

namespace CsvScanner

variable {reader : Reader o.delimiter}

/-- Where a scanner is. -/
def point (c : CsvScanner reader) : ScanPoint o where
  lexical := c.lexical
  lex := reader.lex c.readerState
  index := c.scan.index

theorem reportQuotes_eq (x : ScanIndex o) (ds : List CsvDiagnostic) (issues : List QuoteIssue) :
    reportQuotes ⟨x, ds⟩ issues =
      (Emit.handleAll o ds (quoteEvents issues)).map fun ds => ⟨x, ds⟩ := by
  induction issues generalizing ds with
  | nil => rfl
  | cons issue issues ih =>
    rw [reportQuotes, List.foldlM_cons, quoteEvents, List.map_cons, Emit.handleAll,
      List.foldlM_cons, ScanState.handleDiagnostic]
    cases handleDiagnostic o ds _ with
    | error e => rfl
    | ok ds' => exact ih ds'

variable {c : CsvScanner reader}

/-- `processBytes` parses a piece. -/
theorem processBytes_eq {base : ℕ} {bytes : List UInt8}
    (hbase : base = c.scan.index.parserOffset) (hlen : base + bytes.length ≤ u64Max)
    (hbom : ¬reader.DropsBom c.readerState bytes) :
    match (c.point.piece bytes).run o c.scan.diagnostics with
    | .error e => c.processBytes base bytes = .error e
    | .ok (p, ds) => ∃ st,
      c.processBytes base bytes =
        .ok { c with readerState := st, lexical := p.lexical, scan := ⟨p.index, ds⟩ } ∧
      reader.lex st = p.lex ∧ (bytes ≠ [] → reader.hasRead st = true) := by
  subst hbase
  rw [ScanPoint.piece, Emit.run_bind, Emit.run_ok, processBytes, if_neg (not_not.2 rfl)]
  dsimp only [point]
  rw [show c.scan = ⟨c.scan.index, c.scan.diagnostics⟩ from rfl, reportQuotes_eq]
  cases hquotes : Emit.handleAll o c.scan.diagnostics (quoteEvents
      (c.lexical.consume o.delimiter c.scan.index.parserOffset bytes).2) with
  | error e => rfl
  | ok ds =>
    have hdrive := drive_eq_bytes (scanHandler_lawful o) le_rfl
      (s := ⟨c.scan.index, ds⟩) hlen hbom
    rw [ScanState.bytes_eq] at hdrive
    dsimp only [Except.map, Result.ok_bind, point]
    rw [Emit.run_bind]
    cases hrun : (c.scan.index.bytes (reader.lex c.readerState) bytes).run o ds with
    | error e =>
      rw [hrun] at hdrive
      rw [Reader.lexed, Except.map, Result.map_eq_error] at hdrive
      dsimp only [Result.error_bind]
      rw [hdrive]
      rfl
    | ok p =>
      rw [hrun] at hdrive
      obtain ⟨⟨st, s⟩, hst, hp⟩ := Result.map_eq_ok.1 hdrive
      have hlex : reader.lex st = p.1.1 := congrArg Prod.fst hp
      obtain rfl : s = ⟨p.1.2, p.2⟩ := congrArg Prod.snd hp
      refine ⟨st, ?_, hlex, fun hne => ?_⟩
      · dsimp only [Result.ok_bind]
        rw [hst]
        rfl
      · exact hasRead_drive hst hne (by simpa using hne) rfl

/-- `finish` ends the table. -/
theorem finish_eq (c : CsvScanner reader) :
    c.finish = (c.point.finish.run o c.scan.diagnostics).map fun p =>
      { c with scan := ScanState.ofRun p, finished := true } := by
  have heof : ∀ ds, driveEof reader (scanHandler o) 4 c.readerState ⟨c.scan.index, ds⟩ =
      ((c.scan.index.eof (reader.lex c.readerState)).run o ds).map fun p =>
        (false, ScanState.ofRun p) := fun ds => by
    rw [driveEof_eq_eof, ScanState.eof_eq]
  rw [finish, ScanPoint.finish, Emit.run_bind, Emit.run_ok, unclosedEvents]
  dsimp only [point]
  cases c.lexical.unclosedQuoteOffset with
  | none =>
    dsimp only [Result.ok_bind]
    rw [show c.scan = ⟨c.scan.index, c.scan.diagnostics⟩ from rfl, heof]
    change _ = Except.map _ (Emit.run o c.scan.diagnostics _)
    cases (c.scan.index.eof (reader.lex c.readerState)).run o c.scan.diagnostics <;> rfl
  | some offset =>
    dsimp only
    rw [handleAll_singleton, ScanState.handleDiagnostic]
    cases handleDiagnostic o c.scan.diagnostics _ with
    | error e => rfl
    | ok ds =>
      dsimp only [Result.ok_bind, Except.map]
      rw [heof]
      cases (c.scan.index.eof (reader.lex c.readerState)).run o ds <;> rfl

/-- A described index gives a valid schema. -/
theorem schema_of_describes {base len : ℕ} {recs : List Record}
    {p : OpenRecord} {startsAt : ℕ → ℕ → Prop}
    (h : c.scan.index.Describes base len recs p startsAt) :
    ∃ schema, Schema.new c.scan.index.schemaVersion c.scan.index.columns = .ok schema ∧
      schema.columns = c.scan.index.columns := by
  have hcolumns : c.scan.index.columns.length ≤ maxSafeInteger :=
    h.columns_le.trans (o.limits.maxColumns_le.trans (by decide))
  have hcontiguous : Contiguous c.scan.index.columns := by
    rw [Contiguous, h.columns, List.map_map, List.length_map, List.length_range]
    exact List.map_id _
  exact ⟨_, Schema.new_eq_ok (h.schemaVersion_le.trans hcolumns) hcontiguous, rfl⟩

/-- A described index gives valid metadata. -/
theorem metadata_ne_error {base len : ℕ} {recs : List Record}
    {p : OpenRecord} {startsAt : ℕ → ℕ → Prop}
    (h : c.scan.index.Describes base len recs p startsAt) (hrecs : recs.length ≤ maxSafeInteger) :
    ∃ metadata, c.metadata = .ok metadata := by
  have hrows : c.scan.index.rows ≤ maxSafeInteger := by
    rw [h.rows, length_dataRecords]
    omega
  have hcolumns : c.scan.index.columns.length ≤ maxSafeInteger :=
    h.columns_le.trans (o.limits.maxColumns_le.trans (by decide))
  obtain ⟨schema, hschema, _⟩ := schema_of_describes h
  rw [metadata, hschema, AxisExtent.newExact_of_le hrows, AxisExtent.newExact_of_le hcolumns,
    AxisExtent.newAtLeast_of_le hrows, AxisExtent.newAtLeast_of_le hcolumns]
  cases c.finished with
  | true => exact ⟨_, rfl⟩
  | false =>
    cases c.scan.index.columns.isEmpty <;> simp

/-! ## Chunks -/

end CsvScanner

/-- The first of these slices that is not empty is read whole. -/
def Reader.KeepsPieces (reader : Reader o.delimiter) (st : reader.State) :
    List (List UInt8) → Prop
  | [] => True
  | bytes :: more => ¬reader.DropsBom st bytes ∧ (bytes = [] → reader.KeepsPieces st more)

theorem Reader.keepsPieces_of_hasRead {reader : Reader o.delimiter} {st : reader.State}
    (h : reader.hasRead st = true) (parts : List (List UInt8)) : reader.KeepsPieces st parts := by
  induction parts with
  | nil => trivial
  | cons bytes more ih => exact ⟨Reader.not_dropsBom_of_hasRead h bytes, fun _ => ih⟩

theorem Reader.keepsPieces_of_flatten {reader : Reader o.delimiter} {st : reader.State}
    {parts : List (List UInt8)} (h : ¬reader.DropsBom st parts.flatten) :
    reader.KeepsPieces st parts := by
  induction parts with
  | nil => trivial
  | cons bytes more ih =>
    rw [List.flatten_cons] at h
    refine ⟨fun hd => h ⟨hd.1, hd.2.1, hd.2.2.trans (List.prefix_append _ _)⟩, ?_⟩
    rintro rfl
    exact ih h

namespace CsvScanner

variable {reader : Reader o.delimiter}

/-- A scanner that has parsed the table bytes `pre` and is ready for more. -/
structure Parsing (c : CsvScanner reader) (base : ℕ) (pre : List UInt8) : Prop where
  bomResolved : c.bomResolved = true
  finished : c.finished = false
  lex : reader.lex c.readerState = (OpenRecord.start.feed o.delimiter pre).2.lex
  tracks : c.scan.index.Tracks base pre

/-- What is left of a chunk after its mark was resolved. -/
def parseRest (c : CsvScanner reader) (rest : List UInt8) : Result (CsvScanner reader) :=
  c.processBytes c.scan.index.parserOffset rest

theorem parseRest_nil (c : CsvScanner reader) : c.parseRest [] = .ok c := by
  rw [parseRest, processBytes, if_neg (not_not.2 rfl)]
  rfl

variable {c : CsvScanner reader} {pre : List UInt8} {base : ℕ}

theorem parseRest_eq {rest : List UInt8}
    (hc : c.Parsing base pre) (hlen : c.scan.index.parserOffset + rest.length ≤ maxSafeInteger)
    (hbom : ¬reader.DropsBom c.readerState rest) :
    match (c.point.piece rest).run o c.scan.diagnostics with
    | .error e => c.parseRest rest = .error e
    | .ok (p, ds) => ∃ st,
      c.parseRest rest =
        .ok { c with readerState := st, lexical := p.lexical, scan := ⟨p.index, ds⟩ } ∧
      Parsing { c with readerState := st, lexical := p.lexical, scan := ⟨p.index, ds⟩ } base
        (pre ++ rest) ∧
      point { c with readerState := st, lexical := p.lexical, scan := ⟨p.index, ds⟩ } = p ∧
      p.index.parserOffset = c.scan.index.parserOffset + rest.length ∧
      ∀ more, reader.KeepsPieces c.readerState (rest :: more) → reader.KeepsPieces st more := by
  cases rest with
  | nil =>
    refine ⟨c.readerState, c.parseRest_nil, ?_, rfl, rfl, fun more h => h.2 rfl⟩
    rw [List.append_nil]
    exact hc
  | cons b bs =>
    have hprocess := processBytes_eq rfl (hlen.trans maxSafeInteger_le_u64Max) hbom
    cases hrun : (c.point.piece (b :: bs)).run o c.scan.diagnostics with
    | error e =>
      rw [hrun] at hprocess
      exact hprocess
    | ok run =>
      obtain ⟨p, ds⟩ := run
      rw [hrun] at hprocess
      obtain ⟨st, hprocess, hlex, hread⟩ := hprocess
      have hbytes := (ScanPoint.piece_eq_ok (Emit.run_eq_ok.1 hrun).2).2
      dsimp only [point] at hbytes
      rw [hc.lex] at hbytes
      obtain ⟨hlex', htracks⟩ :=
        ScanIndex.Tracks.bytes (startsAt_recordStarts _ _) hc.tracks hbytes
      refine ⟨st, hprocess, ⟨hc.bomResolved, hc.finished, hlex.trans hlex', htracks⟩, ?_, ?_, ?_⟩
      · rw [point, hlex]
      · rw [htracks.parserOffset, hc.tracks.parserOffset, List.length_append, Nat.add_assoc]
      · exact fun more _ => Reader.keepsPieces_of_hasRead (hread (List.cons_ne_nil b bs)) more

/-- The scanner after a chunk whose mark is resolved. -/
def closeChunk (c : CsvScanner reader) (eof : Bool) : Result (CsvScanner reader) := do
  let c ← if eof then c.finish else .ok c
  let _ ← c.metadata
  .ok c

/-- The scanner after a chunk, its update apart. -/
theorem feedChunk_eq (hfinished : c.finished = false) {chunk : List UInt8}
    (hlen : c.bytesReceived + chunk.length ≤ maxSafeInteger) (eof : Bool) :
    (c.feedChunk c.bytesReceived chunk eof).map Prod.fst = (do
      let r ← { c with bytesReceived := c.bytesReceived + chunk.length }.resolveBom chunk eof
      let c ← if r.1.bomResolved && !r.2.isEmpty then
          r.1.processBytes (c.bytesReceived + (chunk.length - r.2.length)) r.2
        else .ok r.1
      c.closeChunk eof) := by
  have htail : ∀ (before : ScanState o) (c : CsvScanner reader), ((do
      let c ← if eof then c.finish else .ok c
      let metadata ← c.metadata
      .ok (c, ({
        metadata
        bytesScanned := c.bytesReceived
        rowsDiscovered := c.scan.index.rows
        checkpointsAdded := c.scan.index.checkpoints.drop before.index.checkpoints.length
        warnings := c.scan.diagnostics.drop before.diagnostics.length
        done := c.finished } : ScanUpdate))) : Result _).map Prod.fst = c.closeChunk eof := by
    intro before c
    rw [closeChunk]
    cases eof with
    | false =>
      simp only [Bool.false_eq_true, if_false, Result.ok_bind]
      cases c.metadata <;> rfl
    | true =>
      simp only [if_true]
      cases c.finish with
      | error e => rfl
      | ok c' =>
        simp only [Result.ok_bind]
        cases c'.metadata <;> rfl
  rw [feedChunk, if_neg (by rw [hfinished]; decide), if_neg (not_not.2 rfl),
    checkedAdd_of_le (hlen.trans maxSafeInteger_le_u64Max), Result.ok_bind]
  cases resolveBom { c with bytesReceived := c.bytesReceived + chunk.length } chunk eof with
  | error e => rfl
  | ok r =>
    simp only [Result.ok_bind]
    by_cases hrest : (r.1.bomResolved && !r.2.isEmpty) = true
    · rw [if_pos hrest, if_pos hrest]
      cases r.1.processBytes (c.bytesReceived + (chunk.length - r.2.length)) r.2 with
      | error e => rfl
      | ok c' => exact htail _ _
    · rw [if_neg hrest, if_neg hrest]
      exact htail _ _

/-- A chunk whose mark is resolved leaves a piece to parse. -/
theorem feedChunk_of_resolve {c c' : CsvScanner reader} (hfinished : c.finished = false)
    {chunk rest : List UInt8} (hlen : c.bytesReceived + chunk.length ≤ maxSafeInteger)
    {eof : Bool}
    (hresolve : { c with bytesReceived := c.bytesReceived + chunk.length }.resolveBom chunk eof =
      .ok (c', rest))
    (hresolved : c'.bomResolved = true)
    (hoffset : c'.scan.index.parserOffset = c.bytesReceived + (chunk.length - rest.length)) :
    (c.feedChunk c.bytesReceived chunk eof).map Prod.fst =
      c'.parseRest rest >>= fun c => c.closeChunk eof := by
  rw [feedChunk_eq hfinished hlen, hresolve, Result.ok_bind]
  dsimp only
  cases rest with
  | nil =>
    rw [parseRest_nil, List.isEmpty_nil, Bool.not_true, Bool.and_false]
    rfl
  | cons b bs =>
    rw [hresolved, parseRest, hoffset]
    rfl

/-! ## A whole scan -/

/-- Feeds all chunks of a source, the last one with `eof`. -/
def feedAll (c : CsvScanner reader) (offset : ℕ) : List (List UInt8) → Result (CsvScanner reader)
  | [] => .ok c
  | [chunk] => (c.feedChunk offset chunk true).map Prod.fst
  | chunk :: next :: more => do
    let c ← (c.feedChunk offset chunk false).map Prod.fst
    feedAll c (offset + chunk.length) (next :: more)

/-- A cut of a source into contiguous chunks. -/
structure IsCut (source : ByteSource) (chunks : List (List UInt8)) : Prop where
  ne_nil : chunks ≠ []
  flatten : chunks.flatten = source.bytes

/-- Scans a source cut into chunks. -/
def scanChunks (reader : Reader o.delimiter) (chunks : List (List UInt8)) :
    Result (CsvScanner reader) := do
  let c ← new reader
  c.feedAll 0 chunks

/-- What a finished scan is compared by. -/
def outcome (c : CsvScanner reader) : ScanState o × ℕ × Bool :=
  (c.scan, c.bytesReceived, c.finished)

/-- Parses what is left of a chunk, and then the chunks after it. -/
def parseAll (c : CsvScanner reader) (rest : List UInt8) (more : List (List UInt8)) :
    Result (CsvScanner reader) := do
  let c ← c.parseRest rest
  let c ← c.closeChunk more.isEmpty
  if more.isEmpty then .ok c else c.feedAll c.bytesReceived more

theorem bytesReceived_parseRest {c c' : CsvScanner reader} {rest : List UInt8}
    (h : c.parseRest rest = .ok c') : c'.bytesReceived = c.bytesReceived := by
  rw [parseRest, processBytes, if_neg (not_not.2 rfl)] at h
  obtain ⟨scan, _, h⟩ := Result.bind_eq_ok.1 h
  obtain ⟨parsed, _, h⟩ := Result.bind_eq_ok.1 h
  cases h
  rfl

theorem closeChunk_false_eq (hc : c.Parsing base pre) (hlen : pre.length ≤ maxSafeInteger) :
    c.closeChunk false = .ok c := by
  have hrecs := OpenRecord.length_feed_le (d := o.delimiter) OpenRecord.start pre
  have hopened : OpenRecord.start.opened = 0 := rfl
  obtain ⟨metadata, hmetadata⟩ := metadata_ne_error hc.tracks (by omega)
  rw [closeChunk, if_neg Bool.false_ne_true]
  dsimp only [Result.ok_bind]
  rw [hmetadata]
  rfl

theorem closeChunk_true_eq (hc : c.Parsing base pre) (hlen : pre.length ≤ maxSafeInteger) :
    c.closeChunk true = (c.point.finish.run o c.scan.diagnostics).map fun p =>
      { c with scan := ScanState.ofRun p, finished := true } := by
  rw [closeChunk, if_pos rfl, finish_eq]
  cases hrun : c.point.finish.run o c.scan.diagnostics with
  | error e => rfl
  | ok p =>
    have heof := (Emit.run_eq_ok.1 hrun).2
    rw [ScanPoint.finish, Emit.bind_mk_ok, point, hc.lex] at heof
    have hindex := ScanIndex.Tracks.indexes hc.tracks heof
    obtain ⟨metadata, hmetadata⟩ := metadata_ne_error (c := { c with
      scan := ScanState.ofRun p
      finished := true }) hindex ((length_records_le _ _).trans hlen)
    dsimp only [Except.map, Result.ok_bind]
    rw [hmetadata]
    rfl

theorem bytesReceived_closeChunk {c c' : CsvScanner reader} {eof : Bool}
    (h : c.closeChunk eof = .ok c') : c'.bytesReceived = c.bytesReceived := by
  have hmetadata : ∀ c₁ : CsvScanner reader, (do
      let _ ← c₁.metadata
      .ok c₁ : Result (CsvScanner reader)) = .ok c' → c' = c₁ := by
    intro c₁ h
    obtain ⟨_, _, h⟩ := Result.bind_eq_ok.1 h
    exact (Except.ok.inj h).symm
  rw [closeChunk] at h
  cases eof with
  | false => rw [hmetadata c h]
  | true =>
    obtain ⟨c₁, h₁, h⟩ := Result.bind_eq_ok.1 h
    rw [hmetadata c₁ h]
    rw [finish_eq] at h₁
    obtain ⟨p, _, rfl⟩ := Result.map_eq_ok.1 h₁
    rfl

theorem feedAll_cons (c : CsvScanner reader) (offset : ℕ) (chunk : List UInt8)
    (more : List (List UInt8)) :
    c.feedAll offset (chunk :: more) = (do
      let c ← (c.feedChunk offset chunk more.isEmpty).map Prod.fst
      if more.isEmpty then .ok c else c.feedAll (offset + chunk.length) more) := by
  cases more with
  | nil =>
    rw [feedAll, List.isEmpty_nil]
    cases (c.feedChunk offset chunk true).map Prod.fst <;> rfl
  | cons next more => rfl

theorem feedAll_of_resolve {c c' : CsvScanner reader} (hfinished : c.finished = false)
    {chunk rest : List UInt8} {more : List (List UInt8)}
    (hlen : c.bytesReceived + chunk.length ≤ maxSafeInteger)
    (hresolve : { c with bytesReceived := c.bytesReceived + chunk.length }.resolveBom chunk
      more.isEmpty = .ok (c', rest))
    (hresolved : c'.bomResolved = true)
    (hoffset : c'.scan.index.parserOffset = c.bytesReceived + (chunk.length - rest.length))
    (hreceived : c'.bytesReceived = c.bytesReceived + chunk.length) :
    c.feedAll c.bytesReceived (chunk :: more) = c'.parseAll rest more := by
  rw [feedAll_cons, feedChunk_of_resolve hfinished hlen hresolve hresolved hoffset, parseAll]
  cases hparse : c'.parseRest rest with
  | error e => rfl
  | ok c₁ =>
    dsimp only [Result.ok_bind]
    cases hclose : c₁.closeChunk more.isEmpty with
    | error e => rfl
    | ok c₂ =>
      dsimp only [Result.ok_bind]
      rw [bytesReceived_closeChunk hclose, bytesReceived_parseRest hparse, hreceived]

theorem feedAll_of_parsing
    (hc : c.Parsing base pre) (hreceived : c.bytesReceived = c.scan.index.parserOffset)
    {chunk : List UInt8} (hlen : c.bytesReceived + chunk.length ≤ maxSafeInteger)
    (more : List (List UInt8)) :
    c.feedAll c.bytesReceived (chunk :: more) =
      { c with bytesReceived := c.bytesReceived + chunk.length }.parseAll chunk more := by
  refine feedAll_of_resolve hc.finished hlen ?_ hc.bomResolved ?_ rfl
  · rw [resolveBom, if_pos hc.bomResolved]
  · rw [Nat.sub_self, Nat.add_zero]
    exact hreceived.symm

/-- The table that is left is parsed piece by piece. -/
theorem parseAll_eq {pre rest : List UInt8} {more : List (List UInt8)} (hc : c.Parsing base pre)
    (hreceived : c.scan.index.parserOffset + rest.length = c.bytesReceived)
    (hlen : c.bytesReceived + more.flatten.length ≤ maxSafeInteger)
    (hbom : reader.KeepsPieces c.readerState (rest :: more)) :
    (c.parseAll rest more).map outcome =
      ((c.point.table (rest :: more)).run o c.scan.diagnostics).map fun p =>
        (ScanState.ofRun p, c.bytesReceived + more.flatten.length, true) := by
  induction more generalizing c pre rest with
  | nil =>
    have hrest := parseRest_eq hc (by omega) hbom.1
    rw [parseAll, ScanPoint.table_cons, Emit.run_bind]
    cases hrun : (c.point.piece rest).run o c.scan.diagnostics with
    | error e =>
      rw [hrun] at hrest
      rw [hrest]
      rfl
    | ok run =>
      obtain ⟨p, ds⟩ := run
      rw [hrun] at hrest
      obtain ⟨st, hparse, hc', hpoint, hoffset, _⟩ := hrest
      have hpre := hc'.tracks.parserOffset
      dsimp only at hpre
      rw [hparse, Result.ok_bind, List.isEmpty_nil, closeChunk_true_eq hc' (by omega), hpoint]
      change _ = Except.map _ (Emit.run o ds p.finish)
      dsimp only
      cases p.finish.run o ds <;> rfl
  | cons next more ih =>
    rw [List.flatten_cons] at hlen
    have hrest := parseRest_eq hc (by omega) hbom.1
    rw [parseAll, ScanPoint.table_cons, Emit.run_bind]
    cases hrun : (c.point.piece rest).run o c.scan.diagnostics with
    | error e =>
      rw [hrun] at hrest
      rw [hrest]
      rfl
    | ok run =>
      obtain ⟨p, ds⟩ := run
      rw [hrun] at hrest
      obtain ⟨st, hparse, hc', hpoint, hoffset, hbom'⟩ := hrest
      have hpre := hc'.tracks.parserOffset
      dsimp only at hpre
      rw [List.length_append] at hlen
      rw [hparse, Result.ok_bind, List.isEmpty_cons, closeChunk_false_eq hc' (by omega),
        Result.ok_bind, if_neg Bool.false_ne_true, feedAll_of_parsing hc' (by
          dsimp only
          omega) (by
          dsimp only
          omega) more]
      have hnext := ih (c := { c with
        readerState := st
        lexical := p.lexical
        scan := ⟨p.index, ds⟩
        bytesReceived := c.bytesReceived + next.length })
        ⟨hc'.bomResolved, hc'.finished, hc'.lex, hc'.tracks⟩
        (by
          dsimp only
          omega) (by
          dsimp only
          omega) (hbom' _ hbom)
      rw [hnext, List.flatten_cons, List.length_append, ← Nat.add_assoc]
      dsimp only [Result.ok_bind]
      rw [← hpoint]
      rfl

end CsvScanner

/-! ## The byte order mark -/

/-- Where the table of a source starts: after its mark. -/
def tableBase (source : List UInt8) : ℕ := if utf8Bom.isPrefixOf source then 3 else 0

/-- The index of a table that starts at `base`. -/
def startIndex (o : DelimitedOptions) (base : ℕ) : ScanIndex o where
  parserOffset := base
  recordStartOffset := base

/-- The bytes of a source without its mark. -/
def tableBytes (source : List UInt8) : List UInt8 := source.drop (tableBase source)

/-- The reader drops no second mark from a table. -/
def Reader.Keeps (reader : Reader o.delimiter) (source : List UInt8) : Prop :=
  reader.dropsBom = true → ¬utf8Bom <+: tableBytes source

/-- What may still be the start of a mark. -/
def PartOfBom (held : List UInt8) : Prop := held <+: utf8Bom ∧ held.length < 3

theorem holdBom_append (held chunk : List UInt8) :
    (holdBom held chunk).1 ++ (holdBom held chunk).2 = held ++ chunk := by
  induction chunk generalizing held with
  | nil => rfl
  | cons b bs ih =>
    rw [holdBom]
    split_ifs
    · rw [ih, List.append_assoc]
      rfl
    · rw [List.append_assoc]
      rfl
    · rfl

theorem holdBom_flatten (held chunk : List UInt8) (more : List (List UInt8)) :
    held ++ (chunk :: more).flatten =
      (holdBom held chunk).1 ++ ((holdBom held chunk).2 ++ more.flatten) := by
  rw [List.flatten_cons, ← List.append_assoc, ← holdBom_append held chunk, List.append_assoc]

theorem length_holdBom_le (held chunk : List UInt8) :
    (holdBom held chunk).2.length ≤ chunk.length := by
  induction chunk generalizing held with
  | nil => exact le_rfl
  | cons b bs ih =>
    rw [holdBom]
    split_ifs
    · exact (ih _).trans (Nat.le_succ _)
    · exact Nat.le_succ _
    · exact le_rfl

variable {held : List UInt8}

/-- Bytes are held back up to the first that cannot belong to a mark. -/
theorem holdBom_cases (h : PartOfBom held) (chunk : List UInt8) :
    PartOfBom (holdBom held chunk).1 ∧ (holdBom held chunk).2 = [] ∨
      (holdBom held chunk).1 = utf8Bom ∨
      ¬(holdBom held chunk).1 <+: utf8Bom ∧ (holdBom held chunk).1.length ≤ 3 := by
  induction chunk generalizing held with
  | nil => exact .inl ⟨h, rfl⟩
  | cons b bs ih =>
    have hlt : held.length < utf8Bom.length := h.2
    have hlen : (held ++ [b]).length = held.length + 1 := List.length_append
    rw [holdBom, if_pos hlt]
    split_ifs with htake
    · rw [List.isPrefixOf_iff_prefix] at htake
      by_cases hfull : (held ++ [b]).length < 3
      · exact ih ⟨htake, hfull⟩
      · -- All three bytes are there, and nothing more is held back.
        have hbom : held ++ [b] = utf8Bom := htake.eq_of_length_le (by
          rw [not_lt] at hfull
          exact hfull)
        refine .inr (.inl ?_)
        rw [hbom]
        cases bs <;> rfl
    · refine .inr (.inr ⟨fun hp => htake (List.isPrefixOf_iff_prefix.2 hp), ?_⟩)
      change (held ++ [b]).length ≤ 3
      rw [hlen]
      exact hlt

/-- The pieces of the table that chunks come to, after `held` bytes were held back. -/
def scanPieces : List UInt8 → List (List UInt8) → List (List UInt8)
  | _, [] => []
  | held, chunk :: more =>
    let read := holdBom held chunk
    if read.1.isPrefixOf utf8Bom && read.1.length != utf8Bom.length && !more.isEmpty then
      scanPieces read.1 more
    else if read.1 = utf8Bom then read.2 :: more
    else read.1 :: read.2 :: more

variable {source : List UInt8}

theorem tableBase_of_marked (h : utf8Bom <+: source) :
    tableBase source = 3 := by
  rw [tableBase, if_pos (List.isPrefixOf_iff_prefix.2 h)]

theorem tableBase_of_unmarked (h : ¬utf8Bom <+: source) :
    tableBase source = 0 := by
  rw [tableBase, if_neg (by rwa [List.isPrefixOf_iff_prefix])]

theorem Reader.Keeps.of_prefix {reader : Reader o.delimiter} {pre : List UInt8}
    (h : reader.Keeps source) (hpre : pre <+: source) : reader.Keeps pre := by
  obtain ⟨more, rfl⟩ := hpre
  intro hdrops hbom
  refine h hdrops ?_
  by_cases hmark : utf8Bom <+: pre
  · obtain ⟨body, rfl⟩ := hmark
    rw [tableBytes, tableBase_of_marked (List.prefix_append _ _)] at hbom
    rw [List.append_assoc, tableBytes, tableBase_of_marked (List.prefix_append _ _)]
    exact hbom.trans (List.prefix_append body more)
  · rw [tableBytes, tableBase_of_unmarked hmark] at hbom
    exact absurd hbom hmark

/-- Held-back bytes that are no part of a mark settle that there is none. -/
theorem not_prefix_of_held {held rest : List UInt8} (hlen : held.length ≤ 3)
    (hheld : ¬held <+: utf8Bom) : ¬utf8Bom <+: held ++ rest := fun h =>
  hheld (List.prefix_of_prefix_length_le (List.prefix_append held rest) h hlen)

theorem not_prefix_of_part (h : PartOfBom held) : ¬utf8Bom <+: held :=
  fun hp => absurd hp.length_le (not_le.2 h.2)

namespace CsvScanner

variable {reader : Reader o.delimiter}

/-- A scanner that still holds back what may be a mark. -/
def holding (reader : Reader o.delimiter) (held : List UInt8) : CsvScanner reader where
  bomPrefix := held
  bytesReceived := held.length

/-- A scanner that found out where the table starts. -/
def starting (reader : Reader o.delimiter) (received base : ℕ) : CsvScanner reader where
  bomResolved := true
  bytesReceived := received
  scan := { index := startIndex o base }

theorem parsing_starting (reader : Reader o.delimiter) (received base : ℕ) :
    (starting reader received base).Parsing base [] where
  bomResolved := rfl
  finished := rfl
  lex := reader.lex_fresh
  tracks := ScanIndex.tracks_start o base

theorem point_starting (reader : Reader o.delimiter) (received base : ℕ) :
    (starting reader received base).point = { index := startIndex o base } := by
  rw [point, starting, reader.lex_fresh]

theorem resolveBom_holding (held chunk : List UInt8) (received : ℕ) (eof : Bool) :
    { holding reader held with bytesReceived := received }.resolveBom chunk eof =
      if (holdBom held chunk).1.isPrefixOf utf8Bom &&
          (holdBom held chunk).1.length != utf8Bom.length && !eof then
        .ok ({ holding reader (holdBom held chunk).1 with bytesReceived := received },
          (holdBom held chunk).2)
      else if (holdBom held chunk).1 = utf8Bom then
        .ok (starting reader received 3, (holdBom held chunk).2)
      else (do
        let c ← (starting reader received 0).parseRest (holdBom held chunk).1
        .ok (c, (holdBom held chunk).2)) := rfl

variable {more : List (List UInt8)}

/-- The pieces of a table without a mark are read whole. -/
theorem keepsPieces_of_mark {held chunk : List UInt8} (hmark : (holdBom held chunk).1 = utf8Bom)
    (hkeeps : reader.Keeps (held ++ (chunk :: more).flatten)) :
    reader.KeepsPieces reader.fresh ((holdBom held chunk).2 :: more) := by
  have hsource := holdBom_flatten held chunk more
  rw [hmark] at hsource
  refine Reader.keepsPieces_of_flatten ?_
  rintro ⟨hdrops, _, htake⟩
  refine hkeeps hdrops ?_
  rw [tableBytes, tableBase_of_marked ⟨_, hsource.symm⟩, hsource]
  exact htake

/-- A scanner that holds bytes back reads the chunks as the pieces of a table. -/
def ScansPieces (reader : Reader o.delimiter) (held : List UInt8) (chunks : List (List UInt8)) :
    Prop :=
  ((holding reader held).feedAll held.length chunks).map outcome =
    (((ScanPoint.mk {} .startRecord (startIndex o (tableBase (held ++ chunks.flatten)))).table
      (scanPieces held chunks)).run o []).map fun p =>
        (ScanState.ofRun p, held.length + chunks.flatten.length, true)

/-- A chunk that completes the mark. -/
theorem feedAll_of_mark {held chunk : List UInt8} (hmark : (holdBom held chunk).1 = utf8Bom)
    (hlen : held.length + (chunk :: more).flatten.length ≤ maxSafeInteger)
    (hbom : reader.KeepsPieces reader.fresh ((holdBom held chunk).2 :: more)) :
    ScansPieces reader held (chunk :: more) := by
  rw [ScansPieces]
  have happ := holdBom_append held chunk
  rw [hmark] at happ
  have hsource := holdBom_flatten held chunk more
  rw [hmark] at hsource
  have hbase : tableBase (held ++ (chunk :: more).flatten) = 3 :=
    tableBase_of_marked ⟨_, hsource.symm⟩
  have hlength : held.length + chunk.length = 3 + (holdBom held chunk).2.length := by
    rw [← List.length_append, ← happ, List.length_append]
    rfl
  rw [List.flatten_cons, List.length_append] at hlen
  have hpieces : scanPieces held (chunk :: more) = (holdBom held chunk).2 :: more := by
    rw [scanPieces, hmark, if_neg (by simp), if_pos rfl]
  have hparse := parseAll_eq (parsing_starting reader (held.length + chunk.length) 3)
    hlength.symm (by
      change held.length + chunk.length + _ ≤ _
      omega) hbom
  have hfeed := @feedAll_of_resolve o reader (holding reader held)
    (starting reader (held.length + chunk.length) 3) rfl chunk _ more (by
      change held.length + chunk.length ≤ _
      omega) (by
      rw [resolveBom_holding, hmark, if_neg (by simp), if_pos rfl]
      rfl) rfl (by
      have hle := length_holdBom_le held chunk
      change 3 = held.length + (chunk.length - (holdBom held chunk).2.length)
      omega) rfl
  rw [point_starting] at hparse
  rw [hbase, hpieces, List.flatten_cons, List.length_append, ← Nat.add_assoc]
  exact (congrArg (Except.map outcome) hfeed).trans hparse

/-- A chunk that settles that there is no mark. -/
theorem feedAll_of_no_mark {held chunk : List UInt8}
    (hsettled : ((holdBom held chunk).1.isPrefixOf utf8Bom &&
      (holdBom held chunk).1.length != utf8Bom.length && !more.isEmpty) = false)
    (hmark : (holdBom held chunk).1 ≠ utf8Bom) (hheld : (holdBom held chunk).1.length ≤ 3)
    (hnone : ¬utf8Bom <+: held ++ (chunk :: more).flatten)
    (hlen : held.length + (chunk :: more).flatten.length ≤ maxSafeInteger) :
    ScansPieces reader held (chunk :: more) := by
  rw [ScansPieces]
  have happ := holdBom_append held chunk
  have hsource := holdBom_flatten held chunk more
  have hlength : held.length + chunk.length =
      (holdBom held chunk).1.length + (holdBom held chunk).2.length := by
    rw [← List.length_append, ← happ, List.length_append]
  rw [List.flatten_cons, List.length_append] at hlen
  have hpieces : scanPieces held (chunk :: more) =
      (holdBom held chunk).1 :: (holdBom held chunk).2 :: more := by
    rw [scanPieces, hsettled, if_neg Bool.false_ne_true, if_neg hmark]
  have hbom : ∀ rest, ¬utf8Bom <+: rest →
      ¬reader.DropsBom (starting reader (held.length + chunk.length) 0).readerState rest :=
    fun rest hrest hd => hrest hd.2.2
  have hfirst : ¬utf8Bom <+: (holdBom held chunk).1 := fun h =>
    hmark (h.eq_of_length_le hheld).symm
  have hstart := parsing_starting reader (held.length + chunk.length) 0
  have hrest := parseRest_eq hstart (by
    change 0 + _ ≤ _
    omega) (hbom _ hfirst)
  have hresolve : { holding reader held with
      bytesReceived := held.length + chunk.length }.resolveBom chunk more.isEmpty = (do
        let c ← (starting reader (held.length + chunk.length) 0).parseRest (holdBom held chunk).1
        .ok (c, (holdBom held chunk).2)) := by
    rw [resolveBom_holding, hsettled, if_neg Bool.false_ne_true, if_neg hmark]
  rw [tableBase_of_unmarked hnone, hpieces, ScanPoint.table_cons, Emit.run_bind,
    List.flatten_cons, List.length_append, ← Nat.add_assoc]
  have hdiagnostics : (starting reader (held.length + chunk.length) 0).scan.diagnostics = [] := rfl
  rw [point_starting, hdiagnostics] at hrest
  cases hrun : ((ScanPoint.mk {} .startRecord (startIndex o 0)).piece
      (holdBom held chunk).1).run o [] with
  | error e =>
    rw [hrun] at hrest
    rw [hrest] at hresolve
    have hfeed := feedChunk_eq (c := holding reader held) rfl (by
      change held.length + chunk.length ≤ _
      omega) more.isEmpty
    change (feedChunk _ held.length chunk more.isEmpty).map Prod.fst = _ at hfeed
    rw [feedAll_cons, hfeed]
    change (({ holding reader held with
      bytesReceived := held.length + chunk.length }.resolveBom chunk more.isEmpty >>= _) >>= _).map
        outcome = _
    rw [hresolve]
    rfl
  | ok run =>
    obtain ⟨p, ds⟩ := run
    rw [hrun] at hrest
    obtain ⟨st, hparse, hc, hpoint, hoffset, hbom'⟩ := hrest
    rw [hparse] at hresolve
    have hsum : p.index.parserOffset = (holdBom held chunk).1.length :=
      hoffset.trans (Nat.zero_add _)
    have hall := @parseAll_eq o reader _ _ _ (holdBom held chunk).2 more hc (by
      change p.index.parserOffset + _ = held.length + chunk.length
      omega) (by
      change held.length + chunk.length + _ ≤ _
      omega) (hbom' _ (Reader.keepsPieces_of_flatten (hbom _ (by rwa [hsource] at hnone))))
    rw [hpoint] at hall
    have hfeed := feedAll_of_resolve (c := holding reader held) rfl (by
      change held.length + chunk.length ≤ _
      omega) hresolve rfl (by
      have hle := length_holdBom_le held chunk
      change p.index.parserOffset = held.length + (chunk.length - (holdBom held chunk).2.length)
      omega) rfl
    exact (congrArg (Except.map outcome) hfeed).trans hall

/-- The first chunks resolve the mark, and the rest of the source is the table. -/
theorem feedAll_holding {held chunk : List UInt8} (hheld : PartOfBom held)
    (hlen : held.length + (chunk :: more).flatten.length ≤ maxSafeInteger)
    (hkeeps : reader.Keeps (held ++ (chunk :: more).flatten)) :
    ScansPieces reader held (chunk :: more) := by
  induction more generalizing held chunk with
  | nil =>
    rcases holdBom_cases hheld chunk with ⟨hpart, hrest⟩ | hmark | ⟨hnone, hle⟩
    · -- The file ends before the mark could be complete.
      refine feedAll_of_no_mark (by simp) ?_ hpart.2.le ?_ hlen
      · intro h
        exact absurd hpart.2 (by rw [h]; decide)
      · rw [holdBom_flatten, hrest, List.nil_append, List.flatten_nil, List.append_nil]
        exact not_prefix_of_part hpart
    · exact feedAll_of_mark hmark hlen (keepsPieces_of_mark hmark hkeeps)
    · refine feedAll_of_no_mark (by simp) ?_ hle ?_ hlen
      · exact fun h => hnone (h ▸ List.prefix_rfl)
      · rw [holdBom_flatten]
        exact not_prefix_of_held hle hnone
  | cons next more ih =>
    rcases holdBom_cases hheld chunk with ⟨hpart, hrest⟩ | hmark | ⟨hnone, hle⟩
    · -- The chunk is held back, and the next one goes on.
      have hall := holdBom_append held chunk
      rw [hrest, List.append_nil] at hall
      have hlength : (holdBom held chunk).1.length = held.length + chunk.length := by
        rw [hall, List.length_append]
      have happ : held ++ (chunk :: next :: more).flatten =
          (holdBom held chunk).1 ++ (next :: more).flatten := by
        rw [holdBom_flatten, hrest, List.nil_append]
      have hcond : ((holdBom held chunk).1.isPrefixOf utf8Bom &&
          (holdBom held chunk).1.length != utf8Bom.length && !(next :: more).isEmpty) = true := by
        have hne : (holdBom held chunk).1.length ≠ utf8Bom.length := hpart.2.ne
        simp [hpart.1, hne]
      have hpieces : scanPieces held (chunk :: next :: more) =
          scanPieces (holdBom held chunk).1 (next :: more) := by
        rw [scanPieces, if_pos hcond]
      have hnext := @ih (holdBom held chunk).1 next hpart (by
        rw [hlength]
        rw [List.flatten_cons, List.length_append] at hlen
        omega) (by rwa [← happ])
      have hclose : (holding reader (holdBom held chunk).1).closeChunk false =
          .ok (holding reader (holdBom held chunk).1) := by
        obtain ⟨metadata, hmetadata⟩ := metadata_ne_error
          (c := holding reader (holdBom held chunk).1) (ScanIndex.tracks_start o 0)
          (Nat.zero_le _)
        rw [closeChunk, if_neg Bool.false_ne_true]
        dsimp only [Result.ok_bind]
        rw [hmetadata]
        rfl
      have hfeed : (holding reader held).feedAll held.length (chunk :: next :: more) =
          (holding reader (holdBom held chunk).1).feedAll (holdBom held chunk).1.length
            (next :: more) := by
        have hchunk := feedChunk_eq (c := holding reader held) rfl (by
          rw [List.flatten_cons, List.length_append] at hlen
          change held.length + chunk.length ≤ _
          omega) false
        change (feedChunk _ held.length chunk false).map Prod.fst = _ at hchunk
        rw [feedAll_cons, List.isEmpty_cons, hchunk, resolveBom_holding]
        rw [List.isEmpty_cons] at hcond
        rw [if_pos hcond, hlength]
        change (closeChunk { holding reader (holdBom held chunk).1 with
          bytesReceived := held.length + chunk.length } false >>= _) = _
        rw [← hlength]
        change (closeChunk (holding reader (holdBom held chunk).1) false >>= _) = _
        rw [hclose]
        rfl
      rw [ScansPieces] at hnext ⊢
      rw [hfeed, hnext, happ, hpieces, hlength, List.flatten_cons (l := chunk), List.length_append,
        Nat.add_assoc]
    · exact feedAll_of_mark hmark hlen (keepsPieces_of_mark hmark hkeeps)
    · refine feedAll_of_no_mark ?_ ?_ hle ?_ hlen
      · simp [hnone]
      · exact fun h => hnone (h ▸ List.prefix_rfl)
      · rw [holdBom_flatten]
        exact not_prefix_of_held hle hnone

/-- A scan is the parse of the table of its source, piece by piece. -/
theorem scanChunks_eq (hvalid : o.validate = .ok ()) {chunks : List (List UInt8)}
    (hne : chunks ≠ []) (hlen : chunks.flatten.length ≤ maxSafeInteger)
    (hkeeps : reader.Keeps chunks.flatten) :
    (scanChunks reader chunks).map outcome =
      (((ScanPoint.mk {} .startRecord (startIndex o (tableBase chunks.flatten))).table
        (scanPieces [] chunks)).run o []).map fun p =>
          (ScanState.ofRun p, chunks.flatten.length, true) := by
  obtain ⟨chunk, more, rfl⟩ := List.exists_cons_of_ne_nil hne
  have hpart : PartOfBom [] := ⟨List.nil_prefix, Nat.zero_lt_succ 2⟩
  have hall := feedAll_holding hpart (by simpa using hlen) (by simpa using hkeeps)
  rw [ScansPieces, List.length_nil, Nat.zero_add, List.nil_append] at hall
  rw [scanChunks, new, hvalid]
  exact hall

end CsvScanner

variable {chunks : List (List UInt8)}

/-- The pieces make up the table. -/
theorem flatten_scanPieces (hheld : PartOfBom held) (hne : chunks ≠ []) :
    (scanPieces held chunks).flatten = tableBytes (held ++ chunks.flatten) := by
  induction chunks generalizing held with
  | nil => exact absurd rfl hne
  | cons chunk more ih =>
    rw [scanPieces, holdBom_flatten]
    by_cases hmark : (holdBom held chunk).1 = utf8Bom
    · rw [hmark, if_neg (by simp), if_pos rfl, tableBytes,
        tableBase_of_marked (List.prefix_append _ _)]
      rfl
    · rcases holdBom_cases hheld chunk with ⟨hpart, hrest⟩ | h | ⟨hnone, hle⟩
      · cases more with
        | nil =>
          rw [if_neg (by simp), if_neg hmark, hrest, tableBytes, tableBase_of_unmarked]
          · simp
          · simpa using not_prefix_of_part hpart
        | cons next more =>
          have hlt : (holdBom held chunk).1.length ≠ utf8Bom.length := hpart.2.ne
          rw [if_pos (by simp [hpart.1, hlt]), hrest]
          exact ih hpart (List.cons_ne_nil _ _)
      · exact absurd h hmark
      · rw [if_neg (by simp [hnone]), if_neg hmark, tableBytes,
          tableBase_of_unmarked (not_prefix_of_held hle hnone)]
        rfl

/-- The table of a source, before its first byte. -/
def tableStart (o : DelimitedOptions) (source : List UInt8) : ScanPoint o where
  index := startIndex o (tableBase source)

/-- The index of a source. -/
def sourceIndex (o : DelimitedOptions) (source : List UInt8) : Result (ScanIndex o) := do
  let q ← ((startIndex o (tableBase source)).bytes .startRecord (tableBytes source)).result
  (q.2.eof q.1).result

theorem indexes_sourceIndex {x : ScanIndex o}
    (h : sourceIndex o source = .ok x) : x.Indexes (tableBase source) (tableBytes source) := by
  obtain ⟨⟨l, y⟩, hy, hx⟩ := Result.bind_eq_ok.1 h
  obtain ⟨rfl, htracks⟩ := ScanIndex.Tracks.bytes (startsAt_recordStarts _ _)
    (ScanIndex.tracks_start o (tableBase source)) hy
  exact ScanIndex.Tracks.indexes htracks hx

/-- The index of a scan is that of its source. -/
theorem result_scanPieces (o : DelimitedOptions) (hne : chunks ≠ []) :
    ((tableStart o chunks.flatten).table (scanPieces [] chunks)).result =
      sourceIndex o chunks.flatten := by
  have hflatten := flatten_scanPieces ⟨List.nil_prefix, Nat.zero_lt_succ 2⟩ hne
  rw [List.nil_append] at hflatten
  rw [ScanPoint.result_table, hflatten]
  rfl

/-- Holding back goes on with the next bytes while it may. -/
theorem holdBom_right (hheld : PartOfBom held) (xs ys : List UInt8) :
    holdBom held (xs ++ ys) =
      if (holdBom held xs).1.isPrefixOf utf8Bom && (holdBom held xs).1.length != utf8Bom.length then
        holdBom (holdBom held xs).1 ys
      else ((holdBom held xs).1, (holdBom held xs).2 ++ ys) := by
  induction xs generalizing held with
  | nil =>
    have hne : held.length ≠ utf8Bom.length := hheld.2.ne
    rw [List.nil_append, holdBom, if_pos (by simp [hheld.1, hne])]
  | cons b bs ih =>
    have hlt : held.length < utf8Bom.length := hheld.2
    rw [List.cons_append, holdBom, holdBom, if_pos hlt, if_pos hlt]
    by_cases htake : (held ++ [b]).isPrefixOf utf8Bom = true
    · rw [if_pos htake, if_pos htake]
      by_cases hfull : (held ++ [b]).length < 3
      · exact ih ⟨List.isPrefixOf_iff_prefix.1 htake, hfull⟩
      · have hbom : held ++ [b] = utf8Bom :=
          (List.isPrefixOf_iff_prefix.1 htake).eq_of_length_le (by
            rw [not_lt] at hfull
            exact hfull)
        rw [hbom]
        cases bs <;> cases ys <;> rfl
    · rw [if_neg htake, if_neg htake, if_neg (by
        rw [Bool.and_eq_true]
        exact fun h => htake h.1)]

/-- What is parsed of the held-back bytes: nothing, if they are the mark. -/
def headPieces (held : List UInt8) : List (List UInt8) := if held = utf8Bom then [] else [held]

/-- Whatever the chunks, the first piece is what was held back, and the others cut
    the rest of the source. -/
theorem exists_scanPieces (hheld : PartOfBom held) (hne : chunks ≠ []) :
    ∃ parts, scanPieces held chunks = headPieces (holdBom held chunks.flatten).1 ++ parts ∧
      parts.flatten = (holdBom held chunks.flatten).2 := by
  induction chunks generalizing held with
  | nil => exact absurd rfl hne
  | cons chunk more ih =>
    rw [scanPieces, List.flatten_cons, holdBom_right hheld]
    by_cases hcond : ((holdBom held chunk).1.isPrefixOf utf8Bom &&
        (holdBom held chunk).1.length != utf8Bom.length) = true
    · have hpart : PartOfBom (holdBom held chunk).1 ∧ (holdBom held chunk).2 = [] := by
        rw [Bool.and_eq_true, List.isPrefixOf_iff_prefix, bne_iff_ne] at hcond
        rcases holdBom_cases hheld chunk with h | h | ⟨h, _⟩
        · exact h
        · exact absurd (congrArg List.length h) hcond.2
        · exact absurd hcond.1 h
      rw [if_pos hcond, hcond, Bool.true_and]
      cases more with
      | nil =>
        refine ⟨[[]], ?_, rfl⟩
        have hbom : (holdBom held chunk).1 ≠ utf8Bom := fun h =>
          absurd hpart.1.2 (by rw [h]; decide)
        rw [List.isEmpty_nil, Bool.not_true, if_neg Bool.false_ne_true, if_neg hbom, hpart.2]
        change _ = headPieces (holdBom held chunk).1 ++ [[]]
        rw [headPieces, if_neg hbom]
        rfl
      | cons next more =>
        rw [List.isEmpty_cons, Bool.not_false, if_pos rfl]
        exact ih hpart.1 (List.cons_ne_nil _ _)
    · rw [if_neg hcond, Bool.eq_false_iff.2 hcond, Bool.false_and, if_neg Bool.false_ne_true]
      refine ⟨(holdBom held chunk).2 :: more, ?_, rfl⟩
      rw [headPieces]
      split_ifs <;> rfl

theorem flatten_headPieces (source : List UInt8) :
    (headPieces (holdBom [] source).1).flatten ++ (holdBom [] source).2 = tableBytes source := by
  have hpart : PartOfBom [] := ⟨List.nil_prefix, Nat.zero_lt_succ 2⟩
  obtain ⟨parts, hpieces, hparts⟩ := exists_scanPieces hpart (List.cons_ne_nil source [])
  have hflatten := flatten_scanPieces hpart (List.cons_ne_nil source [])
  rw [List.flatten_singleton] at hparts
  rwa [hpieces, List.flatten_append, hparts, List.flatten_singleton, List.nil_append] at hflatten

/-- The held-back bytes are held back on their own. -/
theorem exists_held (held chunk : List UInt8) :
    ∃ xs, chunk = xs ++ (holdBom held chunk).2 ∧
    holdBom held xs = ((holdBom held chunk).1, []) := by
  induction chunk generalizing held with
  | nil => exact ⟨[], rfl, rfl⟩
  | cons b bs ih =>
    rw [holdBom]
    split_ifs with hlt htake
    · obtain ⟨xs, hxs, hheld⟩ := ih (held ++ [b])
      exact ⟨b :: xs, congrArg (b :: ·) hxs, by rw [holdBom, if_pos hlt, if_pos htake, hheld]⟩
    · exact ⟨[b], rfl, by rw [holdBom, if_pos hlt, if_neg htake]⟩
    · exact ⟨[], rfl, rfl⟩

/-- Every cut of the rest of the source is that of some chunks. -/
theorem exists_chunks (source : List UInt8) {parts : List (List UInt8)}
    (hparts : parts.flatten = (holdBom [] source).2) (hrest : (holdBom [] source).2 ≠ []) :
    ∃ chunks, chunks ≠ [] ∧ chunks.flatten = source ∧
      scanPieces [] chunks = headPieces (holdBom [] source).1 ++ [] :: parts := by
  have hpart : PartOfBom [] := ⟨List.nil_prefix, Nat.zero_lt_succ 2⟩
  obtain ⟨xs, hxs, hheld⟩ := exists_held [] source
  have hall := holdBom_append [] xs
  rw [hheld, List.append_nil, List.nil_append] at hall
  rw [hall] at hheld ⊢
  refine ⟨xs :: parts, List.cons_ne_nil _ _, ?_, ?_⟩
  · rw [List.flatten_cons, hparts, ← hxs]
  · have hcond : (xs.isPrefixOf utf8Bom && xs.length != utf8Bom.length) = false := by
      rw [Bool.eq_false_iff]
      intro hboth
      rw [Bool.and_eq_true, List.isPrefixOf_iff_prefix, bne_iff_ne] at hboth
      obtain ⟨htake, hlen⟩ := hboth
      rcases holdBom_cases hpart source with ⟨_, h⟩ | h | ⟨h, _⟩
      · exact hrest h
      · exact hlen (by rw [← hall, h])
      · exact h (by rwa [hall])
    rw [scanPieces, hheld]
    dsimp only
    rw [hcond, Bool.false_and, if_neg Bool.false_ne_true, headPieces]
    split_ifs <;> rfl

end Tabulark.Csv
