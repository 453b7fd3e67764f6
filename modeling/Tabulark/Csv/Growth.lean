import Tabulark.Csv.Chunking

/-!
# How the metadata of a scan grows

A scanner publishes its metadata after every chunk, and what it has published
stays true: rows, columns and checkpoints are only ever added
(`ScanIndex.Grows`), and every checkpoint is the start of the record it names.

The reader's own handling of a mark is the exception. It drops a second mark
that follows the first, and the scanner, which does not know, takes the place of
that mark for the start of the first record (`progressive_of_single_mark`).
-/

namespace Tabulark.Csv

variable {o : DelimitedOptions}

/-! ## Growth -/

/-- What is known of a table in `x` is still known in `y`: rows, columns and
    checkpoints are only added, and the version tells whether columns were. -/
structure ScanIndex.Grows (x y : ScanIndex o) : Prop where
  rows : x.rows ≤ y.rows
  checkpoints : x.checkpoints <+: y.checkpoints
  columns : x.columns <+: y.columns
  version : x.schemaVersion ≤ y.schemaVersion
  version_iff : x.schemaVersion < y.schemaVersion ↔ x.columns.length < y.columns.length

namespace ScanIndex

variable {x y z : ScanIndex o}

/-- What is no part of the metadata may change. -/
theorem Grows.of_eq (hrows : y.rows = x.rows) (hcheckpoints : y.checkpoints = x.checkpoints)
    (hcolumns : y.columns = x.columns) (hversion : y.schemaVersion = x.schemaVersion) :
    x.Grows y where
  rows := hrows.ge
  checkpoints := hcheckpoints ▸ List.prefix_rfl
  columns := hcolumns ▸ List.prefix_rfl
  version := hversion.ge
  version_iff := by rw [hversion, hcolumns, lt_self_iff_false, lt_self_iff_false]

theorem Grows.refl (x : ScanIndex o) : x.Grows x := .of_eq rfl rfl rfl rfl

theorem Grows.trans (hxy : x.Grows y) (hyz : y.Grows z) : x.Grows z where
  rows := hxy.rows.trans hyz.rows
  checkpoints := hxy.checkpoints.trans hyz.checkpoints
  columns := hxy.columns.trans hyz.columns
  version := hxy.version.trans hyz.version
  version_iff := by
    have hx := hxy.version_iff
    have hy := hyz.version_iff
    have hxc := hxy.columns.length_le
    have hyc := hyz.columns.length_le
    have hxv := hxy.version
    have hyv := hyz.version
    omega

theorem grows_widen (x : ScanIndex o) (count : ℕ) (names : Option (List (List UInt8))) :
    x.Grows (x.widen count names) where
  rows := le_rfl
  checkpoints := List.prefix_rfl
  columns := List.prefix_append _ _
  version := Nat.le_add_right _ _
  version_iff := by
    rw [widen]
    dsimp only
    rw [List.length_append, List.length_map, List.length_range']
    split_ifs <;> omega

theorem grows_nextRecord (x : ScanIndex o) : x.Grows x.nextRecord := by
  rw [nextRecord]
  split_ifs
  · have hopen : x.Grows { x with recordFields := 0, headerNames := [] } := .of_eq rfl rfl rfl rfl
    exact (hopen.trans (grows_widen _ x.recordFields (some x.headerNames))).trans
      (.of_eq rfl rfl rfl rfl)
  · have hcheckpoint : x.Grows (withCheckpoint { x with recordFields := 0 }) :=
      ⟨le_rfl, List.prefix_append _ _, List.prefix_rfl, le_rfl,
        iff_of_false (lt_irrefl _) (lt_irrefl _)⟩
    have hrow : ∀ y : ScanIndex o, y.rows = x.rows →
        y.Grows (startRecord { y with rows := x.rows + 1 }) := fun y hy =>
      ⟨hy.le.trans (Nat.le_succ _), List.prefix_rfl, List.prefix_rfl, le_rfl,
        iff_of_false (lt_irrefl _) (lt_irrefl _)⟩
    exact (hcheckpoint.trans (grows_widen _ x.recordFields none)).trans (hrow _ rfl)

theorem grows_nextField (x : ScanIndex o) (recordEnd : Bool) : x.Grows (x.nextField recordEnd) := by
  have hclose : x.Grows x.closeField := .of_eq rfl rfl rfl rfl
  rw [nextField]
  split_ifs
  · exact hclose.trans (grows_nextRecord _)
  · exact hclose

theorem grows_byte {l l' : LexState} {c : UInt8} (h : (x.byte l c).result = .ok (l', y)) :
    x.Grows y := by
  obtain ⟨_, _, field, _, rfl⟩ := byte_eq_ok h
  have hadvance : x.Grows { x with field }.advance := .of_eq rfl rfl rfl rfl
  rw [nextByte]
  cases l'.fieldEnd with
  | none => exact hadvance
  | some recordEnd => exact hadvance.trans (grows_nextField _ recordEnd)

theorem grows_bytes {l l' : LexState} {input : List UInt8}
    (h : (x.bytes l input).result = .ok (l', y)) : x.Grows y := by
  induction input generalizing x l with
  | nil =>
    cases h
    exact .refl _
  | cons c cs ih =>
    rw [bytes, Emit.bind_result] at h
    obtain ⟨⟨l₁, x₁⟩, h₁, h⟩ := Result.bind_eq_ok.1 h
    exact (grows_byte h₁).trans (ih h)

theorem grows_eof {l : LexState} (h : (x.eof l).result = .ok y) : x.Grows y := by
  rw [ScanIndex.eof] at h
  split_ifs at h
  · cases h
    exact .refl x
  · obtain ⟨_, rfl⟩ := endField_eq_ok h
    exact grows_nextField x true

end ScanIndex

/-! ## Where checkpoints are -/

/-- The multiples of `k` below `n`. -/
theorem filter_range_mod (n k : ℕ) (hk : 0 < k) :
    ∃ m, ((List.range n).filter fun row => row % k = 0) = (List.range m).map (· * k) ∧
      n ≤ m * k ∧ m * k < n + k := by
  induction n with
  | zero => exact ⟨0, rfl, by simp, by simpa using hk⟩
  | succ n ih =>
    obtain ⟨m, hm, hle, hlt⟩ := ih
    rw [List.range_succ, List.filter_append, hm, List.filter_singleton]
    by_cases hdue : n % k = 0
    · obtain ⟨q, rfl⟩ := Nat.dvd_of_mod_eq_zero hdue
      rw [Nat.mul_comm k q] at hle hlt ⊢
      have hq : m = q := by
        have hlt' : m * k < (q + 1) * k := by rwa [Nat.succ_mul]
        have := Nat.lt_of_mul_lt_mul_right hlt'
        have := Nat.le_of_mul_le_mul_right hle hk
        omega
      subst hq
      refine ⟨m + 1, ?_, ?_, ?_⟩
      · rw [List.range_succ, List.map_append, Nat.mul_mod_left]
        rfl
      · rw [Nat.succ_mul]
        omega
      · rw [Nat.succ_mul]
        omega
    · have hne : m * k ≠ n := fun h => hdue (h ▸ Nat.mul_mod_left m k)
      refine ⟨m, ?_, by omega, by omega⟩
      rw [decide_eq_false hdue, cond_false, List.append_nil]

namespace RecordAt

variable {d : UInt8} {text : List UInt8} {i j m n : ℕ}

/-- Later records start later. -/
theorem lt_of_lt (hi : RecordAt d text i m) (hj : RecordAt d text j n) (h : m < n) : i < j := by
  by_contra hle
  rw [not_lt] at hle
  obtain ⟨more, hmore⟩ : text.take j <+: text.take i := List.take_prefix_take_left hle
  have hfeed := OpenRecord.feed_append (d := d) OpenRecord.start (text.take j) more
  have hlength := hi.length
  rw [hmore] at hfeed
  rw [hfeed, List.length_append, hj.length] at hlength
  omega

end RecordAt

/-- A text with a record in it starts with blank lines, if any, and the first byte of the
    record. -/
theorem exists_blank {d : UInt8} {text : List UInt8} (h : records d text ≠ []) :
    ∃ blank c more, text = blank ++ c :: more ∧ (∀ b ∈ blank, b = cr ∨ b = lf) ∧ c ≠ cr ∧
      c ≠ lf := by
  induction text with
  | nil => exact absurd rfl h
  | cons c cs ih =>
    by_cases hc : c = cr ∨ c = lf
    · have hstep : OpenRecord.start.byte d c = ([], .start) := by
        rw [OpenRecord.byte, OpenRecord.start, LexState.step, LexState.recordStart, if_pos hc]
        rfl
      rw [records, OpenRecord.records_cons, hstep] at h
      obtain ⟨blank, c', more, rfl, hblank, hc'⟩ := ih h
      refine ⟨c :: blank, c', more, rfl, ?_, hc'⟩
      intro b hb
      rcases List.mem_cons.1 hb with rfl | hb
      · exact hc
      · exact hblank b hb
    · rw [not_or] at hc
      exact ⟨[], c, cs, rfl, fun _ h => absurd h List.not_mem_nil, hc⟩

/-- Record number `n` of the text begins `i` bytes into it, after blank lines if any. -/
structure BeginsAt (d : UInt8) (text : List UInt8) (i n : ℕ) : Prop where
  recordAt : RecordAt d text i n
  blank : ∃ blank c more, text.drop i = blank ++ c :: more ∧ (∀ b ∈ blank, b = cr ∨ b = lf) ∧
    c ≠ cr ∧ c ≠ lf

theorem RecordAt.beginsAt {d : UInt8} {text : List UInt8} {i n : ℕ} (h : RecordAt d text i n)
    (hn : n < (records d text).length) : BeginsAt d text i n where
  recordAt := h
  blank := exists_blank (d := d) (by
    rw [h.records_drop]
    exact List.ne_nil_of_length_pos (by rw [List.length_drop]; omega))

/-! ## Where the text starts -/

/-- The length of the mark that the reader drops from a slice. -/
def Reader.dropped (reader : Reader o.delimiter) (st : reader.State) (bytes : List UInt8) : ℕ :=
  if reader.dropsBom && !reader.hasRead st && utf8Bom.isPrefixOf bytes then 3 else 0

variable {bytes : List UInt8}

theorem Reader.dropped_of_dropsBom {reader : Reader o.delimiter} {st : reader.State}
    (h : reader.DropsBom st bytes) : reader.dropped st bytes = 3 := by
  rw [dropped, h.1, h.2.1, List.isPrefixOf_iff_prefix.2 h.2.2]
  rfl

theorem Reader.dropped_of_not_dropsBom {reader : Reader o.delimiter} {st : reader.State}
    (h : ¬reader.DropsBom st bytes) : reader.dropped st bytes = 0 := by
  rw [dropped, if_neg]
  intro hd
  simp only [Bool.and_eq_true, Bool.not_eq_true', List.isPrefixOf_iff_prefix] at hd
  exact h ⟨hd.1.1, hd.1.2, hd.2⟩

/-- What the chunks so far tell of where the text starts: nothing while they may be part of
    a mark, that it does not start before the end of the mark, or where it starts. -/
inductive TextStart
  | held (bytes : List UInt8)
  | marked
  | known (start : ℕ)
  deriving DecidableEq, Repr

namespace TextStart

/-- The first slice after a mark: a reader that drops marks drops one more. -/
def slice (dropsBom : Bool) (bytes : List UInt8) : TextStart :=
  if bytes.isEmpty then .marked
  else .known (if dropsBom && utf8Bom.isPrefixOf bytes then 6 else 3)

/-- One more chunk. -/
def feed (dropsBom : Bool) (t : TextStart) (chunk : List UInt8) : TextStart :=
  match t with
  | .held bytes =>
    let read := holdBom bytes chunk
    if read.1.isPrefixOf utf8Bom && read.1.length != utf8Bom.length then .held read.1
    else if read.1 = utf8Bom then slice dropsBom read.2
    else .known 0
  | .marked => slice dropsBom chunk
  | .known start => .known start

/-- Where the text starts, as far as the chunks tell. -/
def start : TextStart → ℕ
  | held _ => 0
  | marked => 3
  | known start => start

end TextStart

/-- Where the text of a source starts for a reader, which depends on the chunks: behind the
    mark, and behind a second one that the reader drops. -/
def textStart (dropsBom : Bool) (chunks : List (List UInt8)) : ℕ :=
  (chunks.foldl (TextStart.feed dropsBom) (.held [])).start

/-- Record number `n` of the text starts at the offset `k`, if a dropped mark counts as part
    of the first record. -/
def ScanStarts (d : UInt8) (start : ℕ) (pre : List UInt8) (k n : ℕ) : Prop :=
  RecordStarts d start pre k n ∨ (start = 6 ∧ k = 3 ∧ n = 0)

theorem startsAt_scanStarts (d : UInt8) (start : ℕ) : StartsAt d start (ScanStarts d start) where
  mono pre c k n := Or.imp_left ((startsAt_recordStarts d start).mono pre c k n)
  boundary pre h := .inl ((startsAt_recordStarts d start).boundary pre h)

namespace ScanStarts

variable {d : UInt8} {start : ℕ} {pre : List UInt8} {k k' n n' : ℕ}

theorem le (h : ScanStarts d start pre k n) : k ≤ start + pre.length := by
  rcases h with ⟨i, rfl, hi⟩ | ⟨rfl, rfl, rfl⟩
  · exact Nat.add_le_add_left hi.le start
  · omega

theorem lt_of_lt (h : ScanStarts d start pre k n) (h' : ScanStarts d start pre k' n')
    (hn : n < n') : k < k' := by
  rcases h' with ⟨i', rfl, hi'⟩ | ⟨_, _, rfl⟩
  · rcases h with ⟨i, rfl, hi⟩ | ⟨rfl, rfl, _⟩
    · exact Nat.add_lt_add_left (hi.lt_of_lt hi' hn) start
    · omega
  · exact absurd hn (Nat.not_lt_zero n)

end ScanStarts

/-! ## Runs -/

namespace CsvScanner

variable {reader : Reader o.delimiter}

/-- A scanner that has accepted these chunks. -/
inductive FedBy (reader : Reader o.delimiter) : List (List UInt8) → CsvScanner reader → Prop
  | new {c : CsvScanner reader} : new reader = .ok c → FedBy reader [] c
  | feed {c c' : CsvScanner reader} {chunks : List (List UInt8)} {offset : ℕ}
    {chunk : List UInt8} {eof : Bool} {update : ScanUpdate} :
    FedBy reader chunks c → c.feedChunk offset chunk eof = .ok (c', update) →
    FedBy reader (chunks ++ [chunk]) c'

variable {base : ℕ}

/-- What an accepted slice comes to: its bytes, less a mark that the reader drops. -/
theorem processBytes_eq_ok {c c' : CsvScanner reader}
    (h : c.processBytes base bytes = .ok c') (hlen : base + bytes.length ≤ u64Max) :
    base = c.scan.index.parserOffset ∧ ∃ st lexical scan,
      c' = { c with readerState := st, lexical, scan } ∧
      (bytes ≠ [] → reader.hasRead st = true) ∧
      ({ c.scan.index with
        parserOffset := base + reader.dropped c.readerState bytes }.bytes
          (reader.lex c.readerState) (bytes.drop (reader.dropped c.readerState bytes))).result =
        .ok (reader.lex st, scan.index) := by
  rw [processBytes] at h
  split_ifs at h with hbase
  obtain rfl : base = c.scan.index.parserOffset := not_not.1 hbase
  obtain ⟨scan, hscan, h⟩ := Result.bind_eq_ok.1 h
  obtain ⟨⟨st, s⟩, hdrive, h⟩ := Result.bind_eq_ok.1 h
  cases h
  -- The quotes of the slice only add diagnostics.
  obtain ⟨ds, _, rfl⟩ := Result.map_eq_ok.1 ((reportQuotes_eq _ _ _).symm.trans hscan)
  refine ⟨rfl, st, _, s, rfl, fun hne => ?_, ?_⟩
  · exact hasRead_drive hdrive hne (by simpa using hne) rfl
  · have hbytes : (scanHandler o).bytes o.delimiter (reader.lex c.readerState)
        ⟨{ c.scan.index with
          parserOffset := c.scan.index.parserOffset + reader.dropped c.readerState bytes }, ds⟩
        (bytes.drop (reader.dropped c.readerState bytes)) = .ok (reader.lex st, s) := by
      by_cases hd : reader.DropsBom c.readerState bytes
      · rw [Reader.dropped_of_dropsBom hd]
        obtain ⟨hdrops, hread, rest, rfl⟩ := hd
        exact bytes_of_drive_bom hdrops hread (s := ⟨c.scan.index, ds⟩) hlen hdrive
      · have hkept := drive_eq_bytes (scanHandler_lawful o) le_rfl
          (s := ⟨c.scan.index, ds⟩) hlen hd
        rw [Reader.dropped_of_not_dropsBom hd]
        rw [hdrive] at hkept
        exact hkept.symm
    rw [ScanState.bytes_eq] at hbytes
    obtain ⟨⟨⟨l, x⟩, ds'⟩, hrun, hs⟩ := Result.map_eq_ok.1 hbytes
    have hlex : l = reader.lex st := congrArg Prod.fst hs
    have hindex : x = s.index := congrArg (fun p => p.2.index) hs
    rw [(Emit.run_eq_ok.1 hrun).2, hlex, hindex]

theorem grows_processBytes {c c' : CsvScanner reader}
    (h : c.processBytes base bytes = .ok c') (hlen : base + bytes.length ≤ u64Max) :
    c.scan.index.Grows c'.scan.index := by
  obtain ⟨_, st, lexical, scan, rfl, _, hbytes⟩ := processBytes_eq_ok h hlen
  have hoffset : c.scan.index.Grows { c.scan.index with
    parserOffset := base + reader.dropped c.readerState bytes } := .of_eq rfl rfl rfl rfl
  exact hoffset.trans (ScanIndex.grows_bytes hbytes)

/-- What `finish` does to the index. -/
theorem finish_eq_ok {c c' : CsvScanner reader} (h : c.finish = .ok c') :
    ∃ scan, c' = { c with scan, finished := true } ∧
      (c.scan.index.eof (reader.lex c.readerState)).result = .ok scan.index := by
  rw [finish_eq] at h
  obtain ⟨p, hp, rfl⟩ := Result.map_eq_ok.1 h
  have heof := (Emit.run_eq_ok.1 hp).2
  rw [ScanPoint.finish, Emit.bind_mk_ok] at heof
  exact ⟨_, rfl, heof⟩

variable {eof : Bool}

/-- What `feedChunk` does, when it succeeds. -/
theorem feedChunk_eq_ok {c c' : CsvScanner reader} {offset : ℕ} {chunk : List UInt8}
    {update : ScanUpdate} (h : c.feedChunk offset chunk eof = .ok (c', update)) :
    c.finished = false ∧ offset = c.bytesReceived ∧
      c.bytesReceived + chunk.length ≤ u64Max ∧ c'.metadata = .ok update.metadata ∧
      ∃ c₁ rest c₂,
        { c with bytesReceived := c.bytesReceived + chunk.length }.resolveBom chunk eof =
          .ok (c₁, rest) ∧
        (if c₁.bomResolved && !rest.isEmpty then
          c₁.processBytes (c.bytesReceived + (chunk.length - rest.length)) rest
          else .ok c₁) = .ok c₂ ∧
        (if eof then c₂.finish else .ok c₂) = .ok c' := by
  rw [feedChunk] at h
  by_cases hfinished : c.finished = true
  · rw [if_pos hfinished] at h
    cases h
  rw [if_neg hfinished] at h
  by_cases hoffset : offset = c.bytesReceived
  swap
  · rw [if_pos hoffset] at h
    cases h
  rw [if_neg (not_not.2 hoffset)] at h
  subst hoffset
  obtain ⟨received, hreceived, h⟩ := Result.bind_eq_ok.1 h
  rw [checkedAdd] at hreceived
  split_ifs at hreceived with hle
  cases hreceived
  obtain ⟨⟨c₁, rest⟩, hresolve, h⟩ := Result.bind_eq_ok.1 h
  dsimp only at h
  obtain ⟨c₂, hrest, h⟩ := Result.ite_bind_eq_ok h
  obtain ⟨c₃, hclose, h⟩ := Result.ite_bind_eq_ok h
  obtain ⟨metadata, hmetadata, h⟩ := Result.bind_eq_ok.1 h
  cases h
  exact ⟨Bool.eq_false_iff.2 hfinished, rfl, hle, hmetadata, c₁, rest, c₂, hresolve, hrest, hclose⟩

/-- A scanner that has parsed the first bytes `pre` of the text. -/
structure Scanned (c : CsvScanner reader) (start : ℕ) (pre : List UInt8) : Prop where
  bomResolved : c.bomResolved = true
  lex : reader.lex c.readerState = (OpenRecord.start.feed o.delimiter pre).2.lex
  tracks : c.scan.index.TracksWith (ScanStarts o.delimiter start) start pre

theorem scanned_of_startIndex {c : CsvScanner reader} {start base : ℕ}
    (hresolved : c.bomResolved = true) (hfresh : c.readerState = reader.fresh)
    (hindex : c.scan.index = { parserOffset := start, recordStartOffset := base })
    (hbase : ScanStarts o.delimiter start [] base 0) : c.Scanned start [] where
  bomResolved := hresolved
  lex := by
    rw [hfresh]
    exact reader.lex_fresh
  tracks := hindex ▸ ScanIndex.describes_start o hbase

/-- A slice that the reader keeps is parsed whole. -/
theorem Scanned.read {c c' : CsvScanner reader} {start base : ℕ} {pre rest : List UInt8}
    (h : c.Scanned start pre) (hkept : reader.dropped c.readerState rest = 0)
    (hlen : base + rest.length ≤ u64Max) (hread : c.processBytes base rest = .ok c') :
    c'.Scanned start (pre ++ rest) := by
  obtain ⟨rfl, st, lexical, scan, rfl, _, hbytes⟩ := processBytes_eq_ok hread hlen
  rw [hkept, h.lex] at hbytes
  obtain ⟨hlex, htracks⟩ := ScanIndex.Tracks.bytes (startsAt_scanStarts _ _) h.tracks hbytes
  exact ⟨h.bomResolved, hlex, htracks⟩

/-- A mark that the reader drops is taken for the start of the first record. -/
theorem scanned_of_dropped {c c' : CsvScanner reader} {rest : List UInt8}
    (hresolved : c.bomResolved = true) (hfresh : c.readerState = reader.fresh)
    (hindex : c.scan.index = startIndex o 3)
    (hdropped : reader.dropped c.readerState rest = 3) (hlen : base + rest.length ≤ u64Max)
    (hread : c.processBytes base rest = .ok c') : c'.Scanned 6 (rest.drop 3) := by
  obtain ⟨rfl, st, lexical, scan, rfl, _, hbytes⟩ := processBytes_eq_ok hread hlen
  rw [hdropped, hindex, hfresh, reader.lex_fresh] at hbytes
  obtain ⟨hlex, htracks⟩ := @ScanIndex.Tracks.bytes o _ _ _ [] _ (startsAt_scanStarts _ 6)
    (ScanIndex.describes_start o (.inr ⟨rfl, rfl, rfl⟩)) _ _ hbytes
  exact ⟨hresolved, hlex, htracks⟩

/-- A scanner that has accepted `source` and found out that there is a mark, or that its
    text has begun. -/
inductive Open (reader : Reader o.delimiter) :
    CsvScanner reader → List UInt8 → TextStart → Prop
  | marked {c : CsvScanner reader} : c.bomResolved = true → c.readerState = reader.fresh →
    c.scan.index = startIndex o 3 → Open reader c utf8Bom .marked
  | known {c : CsvScanner reader} {source : List UInt8} {start : ℕ} : start ≤ source.length →
    reader.hasRead c.readerState = true → c.Scanned start (source.drop start) →
    Open reader c source (.known start)

variable {source : List UInt8} {t : TextStart}

theorem Open.scanned {c : CsvScanner reader} (h : Open reader c source t) :
    t.start ≤ source.length ∧ c.Scanned t.start (source.drop t.start) := by
  cases h with
  | marked hresolved hfresh hindex =>
    exact ⟨le_rfl, scanned_of_startIndex hresolved hfresh hindex (.inl ⟨0, rfl, RecordAt.zero _ _⟩)⟩
  | known hle _ hscanned => exact ⟨hle, hscanned⟩

/-- The rest of a chunk goes on with the text. -/
theorem Open.slice {c c' : CsvScanner reader} {source rest : List UInt8}
    (h : Open reader c source t) (hlen : base + rest.length ≤ u64Max)
    (hread : (if c.bomResolved && !rest.isEmpty then c.processBytes base rest else .ok c) =
      .ok c') :
    Open reader c' (source ++ rest) (t.feed reader.dropsBom rest) ∧
      c.scan.index.Grows c'.scan.index := by
  rw [h.scanned.2.bomResolved, Bool.true_and] at hread
  by_cases hempty : rest = []
  · subst hempty
    obtain rfl : c = c' := Except.ok.inj hread
    rw [List.append_nil]
    refine ⟨?_, .refl _⟩
    cases h with
    | marked hresolved hfresh hindex => exact .marked hresolved hfresh hindex
    | known hle hhas hscanned => exact .known hle hhas hscanned
  · have hisEmpty : rest.isEmpty = false := by simpa using hempty
    rw [hisEmpty, Bool.not_false, if_pos rfl] at hread
    refine ⟨?_, grows_processBytes hread hlen⟩
    obtain ⟨_, st, lexical, scan, hc', hhas', _⟩ := processBytes_eq_ok hread hlen
    have hhas : reader.hasRead c'.readerState = true := by
      rw [hc']
      exact hhas' hempty
    cases h with
    | marked hresolved hfresh hindex =>
      rw [TextStart.feed, TextStart.slice, hisEmpty, if_neg Bool.false_ne_true]
      have hdropped : reader.dropped c.readerState rest =
          if reader.dropsBom && utf8Bom.isPrefixOf rest then 3 else 0 := by
        rw [Reader.dropped, hfresh, reader.hasRead_fresh, Bool.not_false, Bool.and_true]
      split_ifs at hdropped ⊢ with hmark
      · rw [Bool.and_eq_true, List.isPrefixOf_iff_prefix] at hmark
        refine .known ?_ hhas (scanned_of_dropped hresolved hfresh hindex hdropped hlen hread)
        rw [List.length_append]
        exact Nat.add_le_add_left hmark.2.length_le 3
      · have hscanned := (Open.marked hresolved hfresh hindex).scanned.2
        exact .known (by simp [utf8Bom]) hhas (hscanned.read hdropped hlen hread)
    | known hle hstarted hscanned =>
      refine .known (hle.trans (by simp)) hhas ?_
      rw [List.drop_append_of_le_length hle]
      exact hscanned.read (Reader.dropped_of_not_dropsBom
        (Reader.not_dropsBom_of_hasRead hstarted rest)) hlen hread

/-- What a scanner knows after `source`. -/
inductive Progress (reader : Reader o.delimiter) :
    CsvScanner reader → List UInt8 → TextStart → Prop
  | holding {source : List UInt8} : PartOfBom source →
    Progress reader (holding reader source) source (.held source)
  | parsing {c : CsvScanner reader} {source : List UInt8} {t : TextStart} :
    Open reader c source t → c.finished = false → c.bytesReceived = source.length →
    Progress reader c source t
  | finished {c : CsvScanner reader} {source : List UInt8} {t : TextStart} : c.finished = true →
    c.scan.index.IndexesWith (fun k n =>
      ScanStarts o.delimiter t.start (source.drop t.start) k n ∨
        k = t.start + (source.drop t.start).length ∧
          n = (records o.delimiter (source.drop t.start)).length) t.start (source.drop t.start) →
    Progress reader c source t

/-- The end of the file ends the text. -/
theorem Scanned.finish {c c' : CsvScanner reader}
    (h : c.Scanned t.start (source.drop t.start)) (hfinish : c.finish = .ok c') :
    Progress reader c' source t ∧ c.scan.index.Grows c'.scan.index := by
  obtain ⟨scan, rfl, heof⟩ := finish_eq_ok hfinish
  refine ⟨.finished rfl ?_, ScanIndex.grows_eof heof⟩
  rw [h.lex] at heof
  exact ScanIndex.Tracks.eof h.tracks (fun _ _ => .inl) (.inr ⟨rfl, rfl⟩) heof

/-- The end of a chunk, which may be that of the file. -/
theorem Open.close {c c' : CsvScanner reader}
    (h : Open reader c source t) (hfinished : c.finished = false)
    (hreceived : c.bytesReceived = source.length)
    (hclose : (if eof then c.finish else .ok c) = .ok c') :
    Progress reader c' source t ∧ c.scan.index.Grows c'.scan.index := by
  cases eof with
  | true => exact h.scanned.2.finish hclose
  | false =>
    obtain rfl : c = c' := Except.ok.inj hclose
    exact ⟨.parsing h hfinished hreceived, .refl _⟩

/-- What a slice leaves of the scanner. -/
theorem frame_slice {c c' : CsvScanner reader} {rest : List UInt8}
    (hlen : base + rest.length ≤ u64Max)
    (hread : (if c.bomResolved && !rest.isEmpty then c.processBytes base rest else .ok c) =
      .ok c') :
    c'.finished = c.finished ∧ c'.bytesReceived = c.bytesReceived := by
  split_ifs at hread
  · obtain ⟨_, st, lexical, scan, rfl, _⟩ := processBytes_eq_ok hread hlen
    exact ⟨rfl, rfl⟩
  · cases hread
    exact ⟨rfl, rfl⟩

/-- A chunk after held-back bytes: more of them, the end of the mark, or no mark. -/
theorem progress_of_holding {c₁ c₂ c' : CsvScanner reader} {source chunk rest : List UInt8}
    (hpart : PartOfBom source) (hlen : source.length + chunk.length ≤ u64Max)
    (hresolve : { holding reader source with
      bytesReceived := source.length + chunk.length }.resolveBom chunk eof = .ok (c₁, rest))
    (hread : (if c₁.bomResolved && !rest.isEmpty then
      c₁.processBytes (source.length + (chunk.length - rest.length)) rest else .ok c₁) = .ok c₂)
    (hclose : (if eof then c₂.finish else .ok c₂) = .ok c') :
    Progress reader c' (source ++ chunk) (TextStart.feed reader.dropsBom (.held source) chunk) ∧
      (holding reader source).scan.index.Grows c'.scan.index := by
  have happ := holdBom_append source chunk
  have hle := length_holdBom_le source chunk
  rw [resolveBom_holding] at hresolve
  rw [TextStart.feed]
  by_cases hpossible : ((holdBom source chunk).1.isPrefixOf utf8Bom &&
      (holdBom source chunk).1.length != utf8Bom.length) = true
  · rw [if_pos hpossible]
    rcases holdBom_cases hpart chunk with ⟨hpart', hrest⟩ | hmark | ⟨hnone, _⟩
    · rw [hrest, List.append_nil] at happ
      rw [hpossible, Bool.true_and, hrest] at hresolve
      rw [happ] at hresolve ⊢
      cases eof with
      | false =>
        -- The mark is still not settled.
        rw [Bool.not_false, if_pos rfl] at hresolve
        cases hresolve
        cases hread
        cases hclose
        rw [← List.length_append]
        exact ⟨.holding (happ ▸ hpart'), .refl _⟩
      | true =>
        -- The end of the file settles that there is none.
        have hne : source ++ chunk ≠ utf8Bom := fun h => by
          have hlt := hpart'.2
          rw [happ, h] at hlt
          exact absurd hlt (by decide)
        rw [Bool.not_true, if_neg Bool.false_ne_true, if_neg hne] at hresolve
        obtain ⟨c₀, hparse, hresolve⟩ := Result.bind_eq_ok.1 hresolve
        cases hresolve
        rw [List.isEmpty_nil, Bool.not_true, Bool.and_false, if_neg Bool.false_ne_true] at hread
        cases hread
        have hlen' : 0 + (source ++ chunk).length ≤ u64Max := by
          rwa [Nat.zero_add, List.length_append]
        have hkept : reader.dropped reader.fresh (source ++ chunk) = 0 :=
          Reader.dropped_of_not_dropsBom fun hd => not_prefix_of_part hpart' (happ ▸ hd.2.2)
        have hstart := scanned_of_startIndex (c := starting reader
          (source.length + chunk.length) 0) rfl rfl rfl (.inl ⟨0, rfl, RecordAt.zero _ []⟩)
        obtain ⟨hprogress, hgrows⟩ := Scanned.finish (t := .held (source ++ chunk))
          (hstart.read hkept hlen' hparse) hclose
        have hbefore : (holding reader source).scan.index.Grows (starting reader
          (source.length + chunk.length) 0).scan.index := .of_eq rfl rfl rfl rfl
        exact ⟨hprogress, (hbefore.trans (grows_processBytes hparse hlen')).trans hgrows⟩
    · rw [hmark] at hpossible
      exact absurd hpossible (by decide)
    · rw [Bool.and_eq_true, List.isPrefixOf_iff_prefix] at hpossible
      exact absurd hpossible.1 hnone
  · have hlength : (holdBom source chunk).1.length + (holdBom source chunk).2.length =
        source.length + chunk.length := by
      rw [← List.length_append, happ, List.length_append]
    rw [if_neg hpossible]
    rw [if_neg (by rw [Bool.and_eq_true]; exact fun h => hpossible h.1)] at hresolve
    by_cases hmark : (holdBom source chunk).1 = utf8Bom
    · rw [if_pos hmark] at hresolve ⊢
      cases hresolve
      have hopen : Open reader (starting reader (source.length + chunk.length) 3) utf8Bom .marked :=
        .marked rfl rfl rfl
      have hlen' : source.length + (chunk.length - (holdBom source chunk).2.length) +
          (holdBom source chunk).2.length ≤ u64Max := by omega
      obtain ⟨hslice, hgrows⟩ := hopen.slice hlen' hread
      obtain ⟨hfinished, hreceived⟩ := frame_slice hlen' hread
      rw [← hmark, happ] at hslice
      obtain ⟨hprogress, hgrows'⟩ := hslice.close hfinished
        (hreceived.trans List.length_append.symm) hclose
      have hbefore : (holding reader source).scan.index.Grows (starting reader
        (source.length + chunk.length) 3).scan.index := .of_eq rfl rfl rfl rfl
      exact ⟨hprogress, (hbefore.trans hgrows).trans hgrows'⟩
    · rw [if_neg hmark] at hresolve ⊢
      obtain ⟨c₀, hparse, hresolve⟩ := Result.bind_eq_ok.1 hresolve
      cases hresolve
      rcases holdBom_cases hpart chunk with ⟨hpart', _⟩ | hmark' | ⟨hnone, hshort⟩
      · exact absurd (by
          rw [Bool.and_eq_true, List.isPrefixOf_iff_prefix, bne_iff_ne]
          exact ⟨hpart'.1, hpart'.2.ne⟩) hpossible
      · exact absurd hmark' hmark
      · have hlen₀ : 0 + (holdBom source chunk).1.length ≤ u64Max := by omega
        have hkept : reader.dropped reader.fresh (holdBom source chunk).1 = 0 :=
          Reader.dropped_of_not_dropsBom fun hd => hnone
            ((hd.2.2.eq_of_length_le hshort) ▸ List.prefix_rfl)
        have hne : (holdBom source chunk).1 ≠ [] := fun h => hnone (h ▸ List.nil_prefix)
        have hstart := scanned_of_startIndex (c := starting reader
          (source.length + chunk.length) 0) rfl rfl rfl (.inl ⟨0, rfl, RecordAt.zero _ []⟩)
        have hscanned := hstart.read hkept hlen₀ hparse
        obtain ⟨_, st, lexical, scan, hc₀, hhas, _⟩ := processBytes_eq_ok hparse hlen₀
        have hopen : Open reader c₁ (holdBom source chunk).1 (.known 0) :=
          .known (Nat.zero_le _) (by rw [hc₀]; exact hhas hne) hscanned
        have hlen' : source.length + (chunk.length - (holdBom source chunk).2.length) +
            (holdBom source chunk).2.length ≤ u64Max := by omega
        obtain ⟨hslice, hgrows⟩ := hopen.slice hlen' hread
        obtain ⟨hfinished, hreceived⟩ := frame_slice hlen' hread
        rw [happ] at hslice
        obtain ⟨hprogress, hgrows'⟩ := hslice.close (by rw [hfinished, hc₀]; rfl)
          (by rw [hreceived, hc₀, List.length_append]; rfl) hclose
        have hbefore : (holding reader source).scan.index.Grows (starting reader
          (source.length + chunk.length) 0).scan.index := .of_eq rfl rfl rfl rfl
        exact ⟨hprogress,
          ((hbefore.trans (grows_processBytes hparse hlen₀)).trans hgrows).trans hgrows'⟩

/-- A chunk that a scanner accepts. -/
theorem Progress.feed {c c' : CsvScanner reader} {source chunk : List UInt8}
    {offset : ℕ} {update : ScanUpdate} (h : Progress reader c source t)
    (hfeed : c.feedChunk offset chunk eof = .ok (c', update)) :
    Progress reader c' (source ++ chunk) (t.feed reader.dropsBom chunk) ∧
      c.scan.index.Grows c'.scan.index := by
  obtain ⟨hfinished, rfl, hlen, _, c₁, rest, c₂, hresolve, hread, hclose⟩ := feedChunk_eq_ok hfeed
  cases h with
  | holding hpart => exact progress_of_holding hpart hlen hresolve hread hclose
  | finished hdone _ =>
    rw [hdone] at hfinished
    cases hfinished
  | parsing hopen _ hreceived =>
    have hresolved := hopen.scanned.2.bomResolved
    rw [resolveBom, if_pos hresolved] at hresolve
    cases hresolve
    have hopen' : Open reader { c with bytesReceived := c.bytesReceived + chunk.length } source
        t := by
      cases hopen with
      | marked hresolved hfresh hindex => exact .marked hresolved hfresh hindex
      | known hle hhas hscanned =>
        exact .known hle hhas ⟨hscanned.bomResolved, hscanned.lex, hscanned.tracks⟩
    rw [Nat.sub_self, Nat.add_zero] at hread
    obtain ⟨hslice, hgrows⟩ := hopen'.slice hlen hread
    obtain ⟨hfinished', hreceived'⟩ := frame_slice hlen hread
    obtain ⟨hprogress, hgrows'⟩ := hslice.close (hfinished'.trans hfinished)
      (by rw [hreceived', List.length_append, ← hreceived]) hclose
    exact ⟨hprogress, hgrows.trans hgrows'⟩

variable {chunks : List (List UInt8)}

/-- Every state of a scan. -/
theorem FedBy.progress {c : CsvScanner reader} (h : FedBy reader chunks c) :
    Progress reader c chunks.flatten
      (chunks.foldl (TextStart.feed reader.dropsBom) (.held [])) := by
  induction h with
  | new hnew =>
    obtain ⟨_, _, hnew⟩ := Result.bind_eq_ok.1 hnew
    cases hnew
    exact .holding ⟨List.nil_prefix, Nat.zero_lt_succ 2⟩
  | feed _ hfeed ih =>
    rw [List.flatten_append, List.flatten_singleton, List.foldl_append]
    exact (ih.feed hfeed).1

/-! ## Checkpoints -/

/-- The checkpoints are sparse: one every `checkpointInterval` rows, in the order of the
    source, none beyond what was parsed. -/
structure Sparse (c : CsvScanner reader) : Prop where
  row : ∀ (i : ℕ) (p : CsvCheckpoint), c.scan.index.checkpoints[i]? = some p →
    p.row = i * o.checkpointInterval
  increasing : c.scan.index.checkpoints.Pairwise fun p q => p.byteOffset < q.byteOffset
  le : ∀ p ∈ c.scan.index.checkpoints, p.byteOffset ≤ c.scan.index.parserOffset

/-- Every checkpoint is where the record of its row begins in the text from `start` on. -/
def Begins (c : CsvScanner reader) (start : ℕ) (source : List UInt8) : Prop :=
  ∀ p ∈ c.scan.index.checkpoints, ∃ i, p.byteOffset = start + i ∧
    BeginsAt o.delimiter (source.drop start) i (p.row + headerRecords o)

/-- The metadata of an update is that of the index. -/
structure Publishes (metadata : TableMetadata) (x : ScanIndex o) : Prop where
  rows : metadata.extent.rows.value = some x.rows
  columns : metadata.schema.columns = x.columns
  version : metadata.schema.version = x.schemaVersion

theorem publishes_metadata {c : CsvScanner reader} {metadata : TableMetadata}
    (h : c.metadata = .ok metadata) : Publishes metadata c.scan.index := by
  have hrest : ∀ {rows columns : AxisExtent} {capabilities : Capabilities},
      rows.value = some c.scan.index.rows →
      (do
        let schema ← Schema.new c.scan.index.schemaVersion c.scan.index.columns
        .ok ({
          tableId := "table-0"
          name := o.tableName
          revision := 0
          extent := { rows, columns }
          schema
          capabilities } : TableMetadata)) = .ok metadata →
      Publishes metadata c.scan.index := by
    intro rows columns capabilities hrows h
    obtain ⟨schema, hschema, h⟩ := Result.bind_eq_ok.1 h
    cases h
    rw [Schema.new] at hschema
    split_ifs at hschema
    cases hschema
    exact ⟨hrows, rfl, rfl⟩
  rw [CsvScanner.metadata] at h
  dsimp only at h
  by_cases hfinished : c.finished = true
  · simp only [if_pos hfinished] at h
    obtain ⟨rows, hrows, h⟩ := Result.bind_eq_ok.1 h
    obtain ⟨columns, _, h⟩ := Result.bind_eq_ok.1 h
    exact hrest (AxisExtent.value_of_newExact hrows) h
  · simp only [if_neg hfinished] at h
    obtain ⟨rows, hrows, h⟩ := Result.bind_eq_ok.1 h
    split_ifs at h
    · exact hrest (AxisExtent.value_of_newAtLeast hrows) h
    · obtain ⟨columns, _, h⟩ := Result.bind_eq_ok.1 h
      exact hrest (AxisExtent.value_of_newAtLeast hrows) h

section Describes

variable {c : CsvScanner reader} {start len : ℕ} {pre : List UInt8} {recs : List Record}
  {p : OpenRecord} {startsAt : ℕ → ℕ → Prop}

/-- A checkpoint is at the start of a record that was read to its end. -/
theorem starts_of_describes (h : c.scan.index.Describes start len recs p startsAt)
    (hstarts : ∀ k n, n < recs.length → startsAt k n → ScanStarts o.delimiter start pre k n)
    {q : CsvCheckpoint} (hq : q ∈ c.scan.index.checkpoints) :
    q.row + headerRecords o < recs.length ∧
      ScanStarts o.delimiter start pre q.byteOffset (q.row + headerRecords o) := by
  have hrow : q.row ∈ c.scan.index.checkpoints.map (·.row) := List.mem_map_of_mem hq
  rw [h.checkpoint_rows, List.mem_filter, List.mem_range, h.rows, length_dataRecords] at hrow
  have hlt : q.row + headerRecords o < recs.length := by omega
  exact ⟨hlt, hstarts _ _ hlt (h.checkpoints q hq)⟩

/-- What the offsets of an index say of its checkpoints. -/
theorem sparse_of_describes (hinterval : 0 < o.checkpointInterval)
    (h : c.scan.index.Describes start pre.length recs p startsAt)
    (hstarts : ∀ k n, n < recs.length → startsAt k n → ScanStarts o.delimiter start pre k n) :
    c.Sparse where
  row i q hq := by
    obtain ⟨m, hm, _⟩ := filter_range_mod c.scan.index.rows o.checkpointInterval hinterval
    have hrow : (c.scan.index.checkpoints.map (·.row))[i]? = some q.row := by
      rw [List.getElem?_map, hq]
      rfl
    rw [h.checkpoint_rows, hm, List.getElem?_map, Option.map_eq_some_iff] at hrow
    obtain ⟨j, hj, hrow⟩ := hrow
    obtain ⟨_, rfl⟩ := List.getElem?_eq_some_iff.1 hj
    rw [List.getElem_range] at hrow
    exact hrow.symm
  increasing := by
    have hrows : (c.scan.index.checkpoints.map (·.row)).Pairwise (· < ·) := by
      rw [h.checkpoint_rows]
      exact List.pairwise_lt_range.filter _
    rw [List.pairwise_map] at hrows
    refine hrows.imp_of_mem fun hp hq hlt => ?_
    exact (starts_of_describes h hstarts hp).2.lt_of_lt (starts_of_describes h hstarts hq).2
      (Nat.add_lt_add_right hlt _)
  le q hq := by
    rw [h.parserOffset]
    exact (starts_of_describes h hstarts hq).2.le

/-- Unless the reader dropped a mark before the first row, the offsets are those of the
    records. -/
theorem begins_of_describes (hpre : source.drop start = pre) (hmark : o.header = true ∨ start ≠ 6)
    (h : c.scan.index.Describes start len recs p startsAt)
    (hrecs : recs.length ≤ (records o.delimiter pre).length)
    (hstarts : ∀ k n, n < recs.length → startsAt k n → ScanStarts o.delimiter start pre k n) :
    c.Begins start source := by
  intro q hq
  obtain ⟨hlt, hstart⟩ := starts_of_describes h hstarts hq
  rw [hpre]
  rcases hstart with ⟨i, hi, hat⟩ | ⟨hsix, _, hzero⟩
  · exact ⟨i, hi, hat.beginsAt (hlt.trans_le hrecs)⟩
  · rcases hmark with hheader | hne
    · rw [headerRecords, if_pos hheader] at hzero
      exact absurd hzero (Nat.succ_ne_zero _)
    · exact absurd hsix hne

end Describes

theorem FedBy.interval_pos {c : CsvScanner reader}
    (h : FedBy reader chunks c) : 0 < o.checkpointInterval := by
  induction h with
  | new hnew =>
    obtain ⟨_, hvalid, _⟩ := Result.bind_eq_ok.1 hnew
    rw [DelimitedOptions.validate] at hvalid
    split_ifs at hvalid with _ hinterval
    exact Nat.pos_of_ne_zero hinterval
  | feed _ _ ih => exact ih

theorem FedBy.sparse {c : CsvScanner reader} (h : FedBy reader chunks c) : c.Sparse := by
  have hprogress := h.progress
  generalize chunks.foldl (TextStart.feed reader.dropsBom) (.held []) = t at hprogress
  generalize chunks.flatten = source at hprogress
  cases hprogress with
  | holding _ =>
    refine ⟨fun i p hp => ?_, .nil, fun _ h => absurd h List.not_mem_nil⟩
    change ([] : List CsvCheckpoint)[i]? = some p at hp
    rw [List.getElem?_nil] at hp
    cases hp
  | parsing hopen _ _ =>
    exact sparse_of_describes h.interval_pos hopen.scanned.2.tracks fun _ _ _ => id
  | finished _ hindex =>
    refine sparse_of_describes h.interval_pos hindex fun k n hn hk => ?_
    exact hk.resolve_right fun hend => absurd hend.2 hn.ne

theorem FedBy.begins {c : CsvScanner reader} (h : FedBy reader chunks c)
    (hmark : o.header = true ∨ textStart reader.dropsBom chunks ≠ 6) :
    c.Begins (textStart reader.dropsBom chunks) chunks.flatten := by
  have hprogress := h.progress
  rw [textStart] at hmark ⊢
  generalize chunks.foldl (TextStart.feed reader.dropsBom) (.held []) = t at hprogress hmark ⊢
  generalize chunks.flatten = source at hprogress ⊢
  cases hprogress with
  | holding _ => exact fun _ h => absurd h List.not_mem_nil
  | parsing hopen _ _ =>
    refine begins_of_describes rfl hmark hopen.scanned.2.tracks ?_ fun _ _ _ => id
    rw [records, OpenRecord.records, List.length_append]
    exact Nat.le_add_right _ _
  | finished _ hindex =>
    refine begins_of_describes rfl hmark hindex le_rfl fun k n hn hk => ?_
    exact hk.resolve_right fun hend => absurd hend.2 hn.ne

/-- The metadata of a scan only grows, and its checkpoints are sparse and in the order of the
    source. They are where the records of their rows begin, unless the reader drops a second
    mark from a table without a header. -/
theorem progressive_of_single_mark {c : CsvScanner reader} {chunks : List (List UInt8)}
    (h : FedBy reader chunks c)
    (hmark : o.header = true ∨ textStart reader.dropsBom chunks ≠ 6) :
    c.Sparse ∧ c.Begins (textStart reader.dropsBom chunks) chunks.flatten ∧
      ∀ (offset : ℕ) (chunk : List UInt8) (eof : Bool) (c' : CsvScanner reader)
        (update : ScanUpdate), c.feedChunk offset chunk eof = .ok (c', update) →
        c.scan.index.Grows c'.scan.index ∧ Publishes update.metadata c'.scan.index := by
  refine ⟨h.sparse, h.begins hmark, fun offset chunk eof c' update hfeed => ?_⟩
  obtain ⟨_, _, _, hmetadata, _⟩ := feedChunk_eq_ok hfeed
  exact ⟨(h.progress.feed hfeed).2, publishes_metadata hmetadata⟩

/-- A new scanner that is fed one chunk, not the last one. -/
def feedOne (reader : Reader o.delimiter) (chunk : List UInt8) : Result (CsvScanner reader) := do
  let c ← new reader
  let fed ← c.feedChunk 0 chunk false
  .ok fed.1

theorem fedBy_feedOne {c : CsvScanner reader} {chunk : List UInt8}
    (h : feedOne reader chunk = .ok c) : FedBy reader [chunk] c := by
  obtain ⟨c₀, hnew, h⟩ := Result.bind_eq_ok.1 h
  obtain ⟨⟨c₁, update⟩, hfeed, h⟩ := Result.bind_eq_ok.1 h
  cases h
  exact .feed (.new hnew) hfeed

/-- A table with one mark and a row. -/
theorem progressive_of_single_mark_oneRow :
    ∃ c : CsvScanner (o := .csv) (.reference 44 true),
      FedBy _ [utf8Bom ++ asciiBytes "a,b\n1,2\n"] c ∧ c.Sparse ∧
        c.Begins 3 (utf8Bom ++ asciiBytes "a,b\n1,2\n") := by
  obtain ⟨c, h⟩ : ∃ c, feedOne (o := .csv) (.reference 44 true)
      (utf8Bom ++ asciiBytes "a,b\n1,2\n") = .ok c := ⟨_, rfl⟩
  obtain ⟨hsparse, hbegins, _⟩ := progressive_of_single_mark (fedBy_feedOne h) (.inl rfl)
  exact ⟨c, fedBy_feedOne h, hsparse, hbegins⟩

/-- A table without a header, and a checkpoint at every row. -/
def everyRow : DelimitedOptions :=
  { DelimitedOptions.csv with header := false, checkpointInterval := 1 }

/-- Two marks, and two records. -/
def markedTwice : List UInt8 := utf8Bom ++ utf8Bom ++ asciiBytes "\"a\nb\"\nc\n"

/-- The reader drops the second mark, and reads two records that begin at the offsets 6 and
    12; the first checkpoint is the dropped mark. Nor are the checkpoints those of a text
    that starts with the second mark, or elsewhere. -/
theorem not_begins_markedTwice :
    ∃ c : CsvScanner (o := everyRow) (.reference everyRow.delimiter true),
      FedBy _ [markedTwice] c ∧
      c.scan.index.checkpoints = [⟨0, 3⟩, ⟨1, 12⟩] ∧ textStart true [markedTwice] = 6 ∧
      ∀ start, ¬c.Begins start markedTwice := by
  obtain ⟨c, h⟩ : ∃ c, feedOne (o := everyRow) (.reference everyRow.delimiter true) markedTwice =
      .ok c := ⟨_, rfl⟩
  have hcheckpoints :
      (feedOne (o := everyRow) (.reference everyRow.delimiter true) markedTwice).toOption.map
        (fun c => c.scan.index.checkpoints) = some [⟨0, 3⟩, ⟨1, 12⟩] := by decide
  rw [h] at hcheckpoints
  have hindex : c.scan.index.checkpoints = [⟨0, 3⟩, ⟨1, 12⟩] := Option.some.inj hcheckpoints
  refine ⟨c, fedBy_feedOne h, hindex, by decide, fun start hbegins => ?_⟩
  obtain ⟨i, hi, hfirst⟩ := hbegins ⟨0, 3⟩ (hindex ▸ List.mem_cons_self)
  obtain ⟨j, hj, hsecond⟩ := hbegins ⟨1, 12⟩
    (hindex ▸ List.mem_cons_of_mem _ List.mem_cons_self)
  have hboundary := hfirst.recordAt.isBoundary
  have hlength := hsecond.recordAt.length
  dsimp only at hi hj
  obtain ⟨rfl, rfl⟩ | ⟨rfl, rfl⟩ | ⟨rfl, rfl⟩ | ⟨rfl, rfl⟩ : start = 0 ∧ i = 3 ∨
      start = 1 ∧ i = 2 ∨ start = 2 ∧ i = 1 ∨ start = 3 ∧ j = 9 := by omega
  · exact absurd hboundary (by decide)
  · exact absurd hboundary (by decide)
  · exact absurd hboundary (by decide)
  · exact absurd hlength (by decide)

end CsvScanner

end Tabulark.Csv
