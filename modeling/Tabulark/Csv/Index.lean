import Mathlib
import Tabulark.Csv.Events
import Tabulark.Csv.Pass

/-!
# What the index says of the source

The scanner keeps a handful of counters and offsets. `ScanIndex.Tracks` ties
them to the sequential parse of the bytes read so far, above all the offsets:
every checkpoint is the start of the record whose row it names. One byte keeps
the relation (`Tracks.byte`), so every scan does.
-/

namespace Tabulark.Csv

/-- The records that are rows of the table. -/
def dataRecords (o : DelimitedOptions) (recs : List Record) : List Record :=
  if o.header then recs.tail else recs

/-- The column names the header gives. -/
def headerNames (o : DelimitedOptions) (recs : List Record) : Option (List (List UInt8)) :=
  if o.header then recs.head?.map fun record => record.map Utf8.lossy else none

/-- The number of records before the first row. -/
def headerRecords (o : DelimitedOptions) : ℕ := if o.header then 1 else 0

theorem length_dataRecords (o : DelimitedOptions) (recs : List Record) :
    (dataRecords o recs).length = recs.length - headerRecords o := by
  rw [dataRecords, headerRecords]
  split_ifs
  · exact List.length_tail
  · rfl

theorem drop_dataRecords (o : DelimitedOptions) (recs : List Record) (n : ℕ) :
    (dataRecords o recs).drop n = recs.drop (n + headerRecords o) := by
  rw [dataRecords, headerRecords]
  split_ifs
  · rw [List.drop_tail]
  · rfl

variable {o : DelimitedOptions}

/-- The index of a parse that has read `len` bytes from the offset `base`: it has
    completed `recs` and left `p` open, and `startsAt k n` says that record number
    `n` starts at the offset `k`. -/
structure ScanIndex.Describes (x : ScanIndex o) (base len : ℕ) (recs : List Record)
    (p : OpenRecord) (startsAt : ℕ → ℕ → Prop) : Prop where
  parserOffset : x.parserOffset = base + len
  field : x.field.1 = p.field
  recordFields : x.recordFields = p.fields.length
  headerPending : x.headerPending = (o.header && recs.isEmpty)
  headerNames : x.headerNames = if x.headerPending then p.fields.map Utf8.lossy else []
  rows : x.rows = (dataRecords o recs).length
  recordStart : startsAt x.recordStartOffset recs.length
  checkpoint_rows : x.checkpoints.map (·.row) =
    (List.range x.rows).filter fun row => row % o.checkpointInterval = 0
  checkpoints : ∀ p ∈ x.checkpoints, startsAt p.byteOffset (p.row + headerRecords o)
  columns : x.columns =
    (List.range x.columns.length).map (columnAt (Csv.headerNames o recs))
  header_le : ∀ names, Csv.headerNames o recs = some names → names.length ≤ x.columns.length
  columns_nil : recs = [] → x.columns = []
  columns_le : x.columns.length ≤ o.limits.maxColumns
  schemaVersion_le : x.schemaVersion ≤ x.columns.length

/-- What may be said of the offsets of record starts, as the bytes read grow. -/
structure StartsAt (d : UInt8) (base : ℕ) (startsAt : List UInt8 → ℕ → ℕ → Prop) : Prop where
  mono : ∀ pre c k n, startsAt pre k n → startsAt (pre ++ [c]) k n
  boundary : ∀ pre, (OpenRecord.start.feed d pre).2.lex.isBoundary →
    startsAt pre (base + pre.length) (OpenRecord.start.feed d pre).1.length

/-- After `pre`, record number `n` starts at the offset `k`. -/
def RecordStarts (d : UInt8) (base : ℕ) (pre : List UInt8) (k n : ℕ) : Prop :=
  ∃ i, k = base + i ∧ RecordAt d pre i n

theorem startsAt_recordStarts (d : UInt8) (base : ℕ) : StartsAt d base (RecordStarts d base) where
  mono _ c _ _ := fun ⟨i, hk, hi⟩ => ⟨i, hk, hi.append [c]⟩
  boundary _ h := ⟨_, rfl, RecordAt.of_isBoundary h⟩

/-- The index is that of the bytes `pre`, which start at the offset `base`. -/
abbrev ScanIndex.TracksWith (x : ScanIndex o) (startsAt : List UInt8 → ℕ → ℕ → Prop) (base : ℕ)
    (pre : List UInt8) : Prop :=
  x.Describes base pre.length (OpenRecord.start.feed o.delimiter pre).1
    (OpenRecord.start.feed o.delimiter pre).2 (startsAt pre)

/-- The index is that of the bytes `pre`, and its offsets are those of records. -/
abbrev ScanIndex.Tracks (x : ScanIndex o) (base : ℕ) (pre : List UInt8) : Prop :=
  x.TracksWith (RecordStarts o.delimiter base) base pre

/-- The index is that of the whole text `body`, which starts at the offset `base`. -/
abbrev ScanIndex.IndexesWith (x : ScanIndex o) (startsAt : ℕ → ℕ → Prop) (base : ℕ)
    (body : List UInt8) : Prop :=
  x.Describes base body.length (records o.delimiter body) .start startsAt

/-- The index is that of the whole text `body`, and its offsets are those of records. -/
abbrev ScanIndex.Indexes (x : ScanIndex o) (base : ℕ) (body : List UInt8) : Prop :=
  x.IndexesWith (fun k n => ∃ i, k = base + i ∧ i ≤ body.length ∧
    records o.delimiter (body.drop i) = (records o.delimiter body).drop n) base body

namespace ScanIndex

/-- The index before the first byte. -/
theorem describes_start (o : DelimitedOptions) {base start : ℕ} {startsAt : ℕ → ℕ → Prop}
    (h : startsAt start 0) :
    Describes ({ parserOffset := base, recordStartOffset := start } : ScanIndex o) base 0 [] .start
      startsAt where
  parserOffset := rfl
  field := rfl
  recordFields := rfl
  headerPending := (Bool.and_true _).symm
  headerNames := by
    dsimp only [OpenRecord.start, List.map_nil]
    split_ifs <;> rfl
  rows := by
    rw [length_dataRecords]
    exact (Nat.zero_sub _).symm
  recordStart := h
  checkpoint_rows := rfl
  checkpoints := nofun
  columns := rfl
  header_le := by
    intro names h
    rw [Csv.headerNames] at h
    split_ifs at h
    cases h
  columns_nil := fun _ => rfl
  columns_le := Nat.zero_le _
  schemaVersion_le := le_rfl

theorem tracks_start (o : DelimitedOptions) (base : ℕ) :
    Tracks ({ parserOffset := base, recordStartOffset := base } : ScanIndex o) base [] :=
  describes_start o ⟨0, rfl, RecordAt.zero _ _⟩

/-- Columns beyond the header have default names. -/
theorem columnAt_of_le {names : Option (List (List UInt8))} {index : ℕ}
    (h : ∀ names', names = some names' → names'.length ≤ index) :
    columnAt none index = columnAt names index := by
  cases names with
  | none => rfl
  | some names' =>
    have hnone : names'[index]? = none := List.getElem?_eq_none (h names' rfl)
    rw [columnAt, columnAt, columnName, columnName, Option.bind_some, hnone]
    rfl

/-- Widening a schema goes on with the columns of the same header. -/
theorem columns_widen {x : ScanIndex o} {names : Option (List (List UInt8))}
    (hcolumns : x.columns = (List.range x.columns.length).map (columnAt names))
    {names' : Option (List (List UInt8))}
    (hnames : ∀ index, x.columns.length ≤ index → columnAt names' index = columnAt names index)
    (count : ℕ) :
    (x.widen count names').columns =
        (List.range (x.widen count names').columns.length).map (columnAt names) ∧
      (x.widen count names').columns.length = max x.columns.length count := by
  have hlength : (x.widen count names').columns.length = max x.columns.length count := by
    rw [widen, List.length_append, List.length_map, List.length_range']
    omega
  have hadded : (List.range' x.columns.length (count - x.columns.length)).map (columnAt names') =
      (List.range' x.columns.length (count - x.columns.length)).map (columnAt names) :=
    List.map_congr_left fun index hindex => hnames index (List.mem_range'_1.1 hindex).1
  refine ⟨?_, hlength⟩
  rw [hlength, show max x.columns.length count = x.columns.length + (count - x.columns.length) by
    omega, List.range_add, List.map_append, ← hcolumns, widen]
  dsimp only
  rw [hadded, List.range'_eq_map_range]

namespace Describes

variable {x y : ScanIndex o} {base len len' : ℕ} {recs : List Record} {record : Record}
  {p q : OpenRecord} {startsAt startsAt' : ℕ → ℕ → Prop}

/-- A byte that completes no record only changes what is open. -/
theorem open_byte (h : x.Describes base len recs p startsAt)
    (hat : ∀ k n, startsAt k n → startsAt' k n) {f : FieldBytes o}
    {n : List (List UInt8)} (hfield : f.1 = q.field)
    (hnames : n = if x.headerPending then q.fields.map Utf8.lossy else []) :
    Describes { x with
      parserOffset := x.parserOffset + 1
      field := f
      recordFields := q.fields.length
      headerNames := n } base (len + 1) recs q startsAt' :=
  { h with
    parserOffset := by rw [h.parserOffset, Nat.add_assoc]
    field := hfield
    recordFields := rfl
    headerNames := hnames
    recordStart := hat _ _ h.recordStart
    checkpoints := fun p hp => hat _ _ (h.checkpoints p hp) }

/-- `y` has read `len` bytes, up to the end of the last field of `record`. -/
structure Ended (x y : ScanIndex o) (base len : ℕ) (record : Record) : Prop where
  pos : 0 < record.length
  le : record.length ≤ o.limits.maxColumns
  parserOffset : y.parserOffset = base + len
  field : y.field.1 = []
  recordFields : y.recordFields = record.length
  recordStartOffset : y.recordStartOffset = x.recordStartOffset
  headerPending : y.headerPending = x.headerPending
  rows : y.rows = x.rows
  columns : y.columns = x.columns
  schemaVersion : y.schemaVersion = x.schemaVersion
  checkpoints : y.checkpoints = x.checkpoints

/-- A header record names the columns. -/
theorem header_record (h : x.Describes base len recs p startsAt) (he : Ended x y base len' record)
    (hat : ∀ k n, startsAt k n → startsAt' k n)
    (hend : startsAt' (base + len') (recs ++ [record]).length)
    (hfield : q.field = []) (hfields : q.fields = [])
    (hp : x.headerPending = true) (hnames : y.headerNames = record.map Utf8.lossy) :
    y.nextRecord.Describes base len' (recs ++ [record]) q startsAt' := by
  have hpending := h.headerPending
  rw [hp, eq_comm, Bool.and_eq_true, List.isEmpty_iff] at hpending
  obtain ⟨hheader, rfl⟩ := hpending
  have hcolumns : x.columns = [] := h.columns_nil rfl
  have hrows : x.rows = 0 := by
    rw [h.rows, length_dataRecords]
    exact Nat.zero_sub _
  have hversion : x.schemaVersion = 0 := by
    have hle := h.schemaVersion_le
    rw [hcolumns] at hle
    exact Nat.le_zero.1 hle
  have hnames' : Csv.headerNames o [record] = some (record.map Utf8.lossy) := by
    rw [Csv.headerNames, hheader]
    rfl
  have hycolumns : y.columns.length = 0 := by rw [he.columns, hcolumns, List.length_nil]
  obtain ⟨hcols, hmax⟩ := columns_widen
    (x := { y with recordFields := 0, headerNames := [] }) (by rw [he.columns, hcolumns]; rfl)
    (fun _ _ => rfl) record.length
  have hlen := hmax.trans (show max y.columns.length record.length = record.length by omega)
  rw [nextRecord, if_pos (he.headerPending.trans hp), he.recordFields, nextHeader, hnames]
  exact {
    parserOffset := he.parserOffset
    field := he.field.trans hfield.symm
    recordFields := by rw [hfields]; rfl
    headerPending := by rw [hheader]; rfl
    headerNames := rfl
    rows := by
      rw [length_dataRecords, headerRecords, hheader]
      exact he.rows.trans hrows
    recordStart := he.parserOffset ▸ hend
    checkpoint_rows := by
      have hc := h.checkpoint_rows
      rw [← he.checkpoints, ← he.rows] at hc
      exact hc
    checkpoints := fun p hp => hat _ _ (h.checkpoints p (he.checkpoints ▸ hp))
    columns := by
      rw [List.nil_append, hnames']
      exact hcols
    header_le := by
      intro names hn
      rw [List.nil_append, hnames'] at hn
      cases hn
      rw [List.length_map]
      exact hlen.ge
    columns_nil := fun hnil => absurd hnil (List.cons_ne_nil _ _)
    columns_le := hlen.trans_le he.le
    schemaVersion_le := by
      refine le_of_le_of_eq ?_ hlen.symm
      have hpos := he.pos
      change y.schemaVersion + (if y.columns.length < record.length then 1 else 0) ≤ _
      rw [he.schemaVersion, hversion, hycolumns, if_pos hpos]
      omega }

/-- A data record is the next row. -/
theorem data_record (h : x.Describes base len recs p startsAt) (he : Ended x y base len' record)
    (hat : ∀ k n, startsAt k n → startsAt' k n)
    (hend : startsAt' (base + len') (recs ++ [record]).length)
    (hfield : q.field = []) (hfields : q.fields = [])
    (hp : x.headerPending = false) (hnames : y.headerNames = []) :
    y.nextRecord.Describes base len' (recs ++ [record]) q startsAt' := by
  have hpending := h.headerPending
  rw [hp] at hpending
  have hheader : headerRecords o ≤ recs.length := by
    rw [headerRecords]
    split_ifs with ho
    · rw [ho, Bool.true_and, eq_comm, Bool.eq_false_iff, ne_eq, List.isEmpty_iff] at hpending
      exact List.length_pos_of_ne_nil hpending
    · exact Nat.zero_le _
  have hrows : y.rows + headerRecords o = recs.length := by
    rw [he.rows, h.rows, length_dataRecords]
    omega
  have hnames' : Csv.headerNames o (recs ++ [record]) = Csv.headerNames o recs := by
    rw [Csv.headerNames, Csv.headerNames]
    split_ifs with ho
    · rw [headerRecords, if_pos ho] at hheader
      rw [List.head?_append_of_ne_nil _ (List.ne_nil_of_length_pos hheader)]
    · rfl
  obtain ⟨hcols, hmax⟩ := columns_widen
    (x := { y with recordFields := 0 }.withCheckpoint)
    (he.columns ▸ h.columns)
    (fun index hindex => columnAt_of_le fun names hn => (h.header_le names hn).trans <|
      he.columns ▸ hindex) record.length
  have hlen := hmax.trans (congrArg (max · record.length) (congrArg List.length he.columns))
  have hcheckpoint : y.checkpoints ++ (if y.rows % o.checkpointInterval = 0 then
        [⟨y.rows, y.recordStartOffset⟩] else []) =
      x.checkpoints ++ if x.rows % o.checkpointInterval = 0 then
        [⟨x.rows, x.recordStartOffset⟩] else [] := by
    rw [he.rows, he.recordStartOffset, he.checkpoints]
  rw [nextRecord, if_neg (by rw [he.headerPending, hp]; decide), he.recordFields]
  exact {
    parserOffset := he.parserOffset
    field := he.field.trans hfield.symm
    recordFields := by rw [hfields]; rfl
    headerPending := by
      have hne : (recs ++ [record]).isEmpty = false := by simp
      rw [hne, Bool.and_false]
      exact he.headerPending.trans hp
    headerNames := by
      have hy : y.headerPending = false := he.headerPending.trans hp
      change y.headerNames = if y.headerPending then _ else []
      rw [hy, hnames]
      rfl
    rows := by
      rw [length_dataRecords, List.length_append, List.length_singleton]
      change y.rows + 1 = _
      omega
    recordStart := he.parserOffset ▸ hend
    checkpoint_rows := by
      change (y.checkpoints ++ _).map _ = (List.range (y.rows + 1)).filter _
      rw [hcheckpoint, List.map_append, h.checkpoint_rows, List.range_succ, List.filter_append,
        he.rows, List.filter_singleton]
      congr 1
      by_cases hdue : x.rows % o.checkpointInterval = 0 <;> simp [hdue]
    checkpoints := by
      intro p hp
      change p ∈ y.checkpoints ++ _ at hp
      rw [hcheckpoint] at hp
      rcases List.mem_append.1 hp with hp | hp
      · exact hat _ _ (h.checkpoints p hp)
      · -- The new checkpoint is the start of the record just ended.
        split_ifs at hp
        · rw [List.mem_singleton.1 hp]
          rw [he.rows] at hrows
          exact hrows ▸ hat _ _ h.recordStart
        · cases hp
    columns := by
      rw [hnames']
      exact hcols
    header_le := by
      intro names hn
      rw [hnames'] at hn
      exact (h.header_le names hn).trans ((le_max_left _ _).trans hlen.ge)
    columns_nil := fun hnil => absurd hnil (by simp)
    columns_le := hlen.trans_le (max_le h.columns_le he.le)
    schemaVersion_le := by
      refine le_of_le_of_eq ?_ hlen.symm
      have hle := h.schemaVersion_le
      change y.schemaVersion + (if y.columns.length < record.length then 1 else 0) ≤ _
      rw [he.schemaVersion, he.columns]
      split_ifs <;> omega }

/-- The end of the last field of a record is the end of the record. -/
theorem end_record (h : x.Describes base len recs p startsAt) {field : FieldBytes o} {offset : ℕ}
    (hoffset : offset = base + len') (hmax : x.recordFields + 1 ≤ o.limits.maxColumns)
    (hat : ∀ k n, startsAt k n → startsAt' k n)
    (hend : startsAt' (base + len') (recs ++ [p.fields ++ [field.1]]).length)
    (hfield : q.field = []) (hfields : q.fields = []) :
    ({ x with parserOffset := offset, field }.nextField true).Describes base len'
      (recs ++ [p.fields ++ [field.1]]) q startsAt' := by
  have he : Ended x { x with parserOffset := offset, field }.closeField base len'
      (p.fields ++ [field.1]) :=
    { pos := by simp
      le := by simpa [h.recordFields] using hmax
      parserOffset := hoffset
      field := rfl
      recordFields := by
        rw [List.length_append, List.length_singleton, ← h.recordFields]
        rfl
      recordStartOffset := rfl
      headerPending := rfl
      rows := rfl
      columns := rfl
      schemaVersion := rfl
      checkpoints := rfl }
  have hnames : { x with parserOffset := offset, field }.closeField.headerNames =
      if x.headerPending then (p.fields ++ [field.1]).map Utf8.lossy else [] := by
    change (if x.headerPending then x.headerNames ++ [Utf8.lossy field.1] else x.headerNames) = _
    rw [h.headerNames]
    split_ifs
    · rw [List.map_append]
      rfl
    · rfl
  change { x with parserOffset := offset, field }.closeField.nextRecord.Describes base len' _ q _
  by_cases hp : x.headerPending = true
  · rw [if_pos hp] at hnames
    exact h.header_record he hat hend hfield hfields hp hnames
  · rw [if_neg hp] at hnames
    exact h.data_record he hat hend hfield hfields (Bool.eq_false_iff.2 hp) hnames

end Describes

namespace Tracks

variable {x y : ScanIndex o} {base : ℕ} {pre : List UInt8} {c : UInt8}
  {startsAt : List UInt8 → ℕ → ℕ → Prop}

/-- One byte of the scan keeps the relation. -/
theorem byte (hs : StartsAt o.delimiter base startsAt) (h : x.TracksWith startsAt base pre)
    {l' : LexState}
    (hy : (x.byte (OpenRecord.start.feed o.delimiter pre).2.lex c).result = .ok (l', y)) :
    l' = (OpenRecord.start.feed o.delimiter (pre ++ [c])).2.lex ∧
      y.TracksWith startsAt base (pre ++ [c]) := by
  obtain ⟨rfl, hmax, field, hfield, rfl⟩ := byte_eq_ok hy
  have hfeed := OpenRecord.feed_snoc (d := o.delimiter) OpenRecord.start pre c
  have hclean := OpenRecord.clean_feed (d := o.delimiter) OpenRecord.clean_start (pre ++ [c])
  have hat := hs.mono pre c
  have hlen : (pre ++ [c]).length = pre.length + 1 := List.length_append
  have hoffset : x.parserOffset + 1 = base + (pre.length + 1) := by
    rw [h.parserOffset, Nat.add_assoc]
  rw [OpenRecord.byte, ← h.field, ← hfield] at hfeed
  rw [nextByte]
  cases hend : ((OpenRecord.start.feed o.delimiter pre).2.lex.step o.delimiter c).1.fieldEnd with
  | none =>
    rw [hend, List.append_nil] at hfeed
    refine ⟨by rw [hfeed], ?_⟩
    have hopen := h.open_byte (n := x.headerNames) hat (q :=
      (OpenRecord.start.feed o.delimiter (pre ++ [c])).2) (by rw [hfeed]) (by
        rw [hfeed]
        exact h.headerNames)
    rw [TracksWith, hlen]
    rw [hfeed] at hopen ⊢
    rw [← h.recordFields] at hopen
    exact hopen
  | some recordEnd =>
    have hcount := hmax (by rw [hend]; exact Option.some_ne_none _)
    cases recordEnd with
    | false =>
      rw [hend, List.append_nil] at hfeed
      refine ⟨by rw [hfeed], ?_⟩
      have hopen := h.open_byte (f := .empty o) hat (q :=
        (OpenRecord.start.feed o.delimiter (pre ++ [c])).2)
        (n := if x.headerPending then x.headerNames ++ [Utf8.lossy field.1]
          else x.headerNames) (by rw [hfeed]; rfl) (by
          rw [hfeed, h.headerNames]
          split_ifs
          · rw [List.map_append]
            rfl
          · rfl)
      rw [TracksWith, hlen]
      rw [hfeed] at hopen ⊢
      rw [List.length_append, ← h.recordFields] at hopen
      exact hopen
    | true =>
      rw [hend] at hfeed
      have hb : (OpenRecord.start.feed o.delimiter (pre ++ [c])).2.lex.isBoundary := by
        rw [hfeed]
        exact LexState.isBoundary_of_fieldEnd hend
      refine ⟨by rw [hfeed], ?_⟩
      have hstart := hs.boundary _ hb
      have hend := h.end_record
        (q := (OpenRecord.start.feed o.delimiter (pre ++ [c])).2)
        (hoffset.trans (congrArg _ hlen.symm)) hcount hat (by
          rw [hfeed] at hstart
          exact hstart) (hclean hb).1 (hclean hb).2
      rw [TracksWith]
      rw [hfeed] at hend ⊢
      exact hend

/-- So does a slice. -/
theorem bytes (hs : StartsAt o.delimiter base startsAt) (h : x.TracksWith startsAt base pre)
    {input : List UInt8} {l' : LexState}
    (hy : (x.bytes (OpenRecord.start.feed o.delimiter pre).2.lex input).result = .ok (l', y)) :
    l' = (OpenRecord.start.feed o.delimiter (pre ++ input)).2.lex ∧
      y.TracksWith startsAt base (pre ++ input) := by
  induction input generalizing x pre with
  | nil =>
    cases hy
    rw [List.append_nil]
    exact ⟨rfl, h⟩
  | cons c cs ih =>
    rw [ScanIndex.bytes, Emit.bind_result] at hy
    obtain ⟨⟨l₁, x₁⟩, h₁, hy⟩ := Result.bind_eq_ok.1 hy
    obtain ⟨rfl, hx₁⟩ := byte hs h h₁
    have hrest := ih hx₁ hy
    rwa [List.append_assoc] at hrest

/-- The end of the file completes the index. -/
theorem eof (h : x.TracksWith startsAt base pre) {startsAt' : ℕ → ℕ → Prop}
    (hat : ∀ k n, startsAt pre k n → startsAt' k n)
    (hend : startsAt' (base + pre.length) (records o.delimiter pre).length)
    (hy : (x.eof (OpenRecord.start.feed o.delimiter pre).2.lex).result = .ok y) :
    y.IndexesWith startsAt' base pre := by
  have hrecords : records o.delimiter pre = (OpenRecord.start.feed o.delimiter pre).1 ++
      (OpenRecord.start.feed o.delimiter pre).2.finish := rfl
  rw [ScanIndex.eof] at hy
  rw [OpenRecord.finish] at hrecords
  rw [IndexesWith]
  split_ifs at hy hrecords with hb
  · obtain rfl : x = y := Except.ok.inj hy
    obtain ⟨hfield, hfields⟩ := OpenRecord.clean_feed OpenRecord.clean_start pre hb
    rw [List.append_nil] at hrecords
    rw [hrecords]
    exact { h with
      field := h.field.trans hfield
      recordFields := h.recordFields.trans (congrArg List.length hfields)
      headerNames := by
        rw [h.headerNames, hfields]
        rfl
      recordStart := hat _ _ h.recordStart
      checkpoints := fun p hp => hat _ _ (h.checkpoints p hp) }
  · obtain ⟨hmax, rfl⟩ := endField_eq_ok hy
    rw [← h.field] at hrecords
    have hdone := h.end_record (q := .start) h.parserOffset hmax hat
      (by rwa [← hrecords]) rfl rfl
    rw [← hrecords] at hdone
    exact hdone

/-- The end of the file completes an index whose offsets are those of records, or the end of
    the text. -/
theorem closes (h : x.Tracks base pre)
    (hy : (x.eof (OpenRecord.start.feed o.delimiter pre).2.lex).result = .ok y) :
    y.IndexesWith (fun k n => RecordStarts o.delimiter base pre k n ∨
      k = base + pre.length ∧ n = (records o.delimiter pre).length) base pre :=
  eof h (fun _ _ => .inl) (.inr ⟨rfl, rfl⟩) hy

/-- The end of the file completes an index whose offsets are those of records. -/
theorem indexes (h : x.Tracks base pre)
    (hy : (x.eof (OpenRecord.start.feed o.delimiter pre).2.lex).result = .ok y) :
    y.Indexes base pre :=
  eof h (fun _ _ => fun ⟨i, hk, hi⟩ => ⟨i, hk, hi.1, hi.records_drop⟩)
    ⟨_, rfl, le_rfl, by rw [List.drop_length, List.drop_length]; rfl⟩ hy

end Tracks

end ScanIndex

end Tabulark.Csv
