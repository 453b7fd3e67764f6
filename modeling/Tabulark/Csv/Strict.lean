import Tabulark.Csv.Chunking
import Tabulark.Csv.Diagnostics
import Tabulark.Csv.Limits
import Tabulark.Csv.Quotes

/-!
# What strict scans accept

A strict scan stops at the first diagnostic, so it accepts a source if and only
if nothing is reported. `scanChunks_strict_iff` puts that in terms of the
source alone: well quoted, every record as long as the first, every field valid
UTF-8. Quotes are the business of `clean_iff`; for records, `Uniform` is what a
silent scan keeps.
-/

namespace Tabulark.Csv

variable {o : DelimitedOptions}

/-! ## Well-formed sources -/

/-- Records of one length, all of them text. -/
structure WellRecords (recs : List Record) : Prop where
  utf8 : ∀ record ∈ recs, ∀ field ∈ record, Utf8.isValid field
  length : ∀ record ∈ recs, ∀ first ∈ recs.head?, record.length = first.length

/-- A source without any problem a diagnostic would name. -/
structure WellFormed (d : UInt8) (text : List UInt8) : Prop where
  quoted : WellQuoted d text
  records : WellRecords (records d text)

/-- What has been read of a source is free of record problems. -/
structure WellRecorded (recs : List Record) (p : OpenRecord) : Prop where
  records : WellRecords recs
  fields : ∀ field ∈ p.fields, Utf8.isValid field

theorem WellRecords.of_append {recs more : List Record} (h : WellRecords (recs ++ more)) :
    WellRecords recs where
  utf8 record hrecord := h.utf8 record (List.mem_append_left _ hrecord)
  length record hrecord first hfirst := by
    refine h.length record (List.mem_append_left _ hrecord) first ?_
    rw [List.head?_append, Option.mem_def.1 hfirst]
    exact rfl

variable {recs : List Record} {p : OpenRecord}

/-- A problem stays a problem after one more byte. -/
theorem WellRecorded.of_byte {d c : UInt8}
    (h : WellRecorded (recs ++ (p.byte d c).1) (p.byte d c).2) : WellRecorded recs p := by
  refine ⟨h.records.of_append, fun field hfield => ?_⟩
  obtain ⟨hrecords, hfields⟩ := h
  rw [OpenRecord.byte] at hrecords hfields
  cases hend : (p.lex.step d c).1.fieldEnd with
  | none =>
    rw [hend] at hfields
    exact hfields field hfield
  | some recordEnd =>
    rw [hend] at hrecords hfields
    cases recordEnd with
    | false => exact hfields field (List.mem_append_left _ hfield)
    | true =>
      exact hrecords.utf8 _ (List.mem_append_right _ List.mem_cons_self) field
        (List.mem_append_left _ hfield)

/-- A problem stays a problem. -/
theorem WellRecorded.of_feed {d : UInt8}
    {input : List UInt8} (h : WellRecorded (recs ++ (p.feed d input).1) (p.feed d input).2) :
    WellRecorded recs p := by
  induction input generalizing recs p with
  | nil => exact ⟨h.records.of_append, h.fields⟩
  | cons c cs ih =>
    rw [OpenRecord.feed] at h
    dsimp only at h
    rw [← List.append_assoc] at h
    exact (ih h).of_byte

/-- The end of the file completes the open record. -/
theorem WellRecorded.of_records {d : UInt8} {input : List UInt8}
    (h : WellRecords (Csv.records d input)) : WellRecorded (OpenRecord.start.feed d input).1
      (OpenRecord.start.feed d input).2 := by
  rw [Csv.records, OpenRecord.records] at h
  refine ⟨h.of_append, fun field hfield => ?_⟩
  rw [OpenRecord.finish] at h
  by_cases hb : (OpenRecord.start.feed d input).2.lex.isBoundary = true
  · rw [(OpenRecord.clean_feed OpenRecord.clean_start input hb).2] at hfield
    cases hfield
  · rw [if_neg hb] at h
    exact h.utf8 _ (List.mem_append_right _ List.mem_cons_self) field
      (List.mem_append_left _ hfield)

/-! ## Silent steps -/

theorem Emit.bind_events_of_ok {α β : Type} {m : Emit α} {a : α} (h : m.result = .ok a)
    (f : α → Emit β) : (m.bind f).events = m.events ++ (f a).events := by
  obtain ⟨events, result⟩ := m
  obtain rfl : result = .ok a := h
  rfl

/-- A strict run that succeeds was silent. -/
theorem Emit.events_of_run {α : Type} (hmode : o.mode = .strict) {m : Emit α}
    {ds : List CsvDiagnostic} {p : α × List CsvDiagnostic} (h : m.run o ds = .ok p) :
    m.events = [] := by
  rw [Emit.run_strict hmode] at h
  obtain ⟨events, result⟩ := m
  cases events with
  | nil => rfl
  | cons event events => cases h

theorem unclosedEvents_eq_nil {t : QuoteTracker} :
    unclosedEvents t = [] ↔ t.unclosedQuoteOffset = none := by
  rw [unclosedEvents]
  cases t.unclosedQuoteOffset with
  | none => exact iff_of_true rfl rfl
  | some offset => exact iff_of_false (List.cons_ne_nil _ _) (Option.some_ne_none _)

namespace ScanIndex

/-- What an index that nothing was reported for knows of the records read. -/
structure Uniform (x : ScanIndex o) (recs : List Record) (p : OpenRecord) : Prop where
  recorded : WellRecorded recs p
  columns : ∀ record ∈ recs, record.length = x.columns.length
  pos : ∀ record ∈ recs, 0 < record.length

variable {x : ScanIndex o}

theorem finishField_events (h : x.recordFields + 1 ≤ o.limits.maxColumns) :
    x.finishField = ⟨x.fieldEvents, .ok x.closeField⟩ := by
  have hmax := o.limits.maxColumns_le
  rw [finishField, if_neg (by omega), if_neg (by omega)]

/-- The diagnostics at the end of a field. -/
theorem endField_events (hmax : x.recordFields + 1 ≤ o.limits.maxColumns) {recordEnd : Bool} :
    (x.endField recordEnd).events = x.fieldEvents ++
      if recordEnd = true ∧ x.headerPending = false then x.rowEvents (x.recordFields + 1)
      else [] := by
  rw [endField, finishField_events hmax, Emit.bind_mk_ok]
  cases recordEnd with
  | false => rfl
  | true =>
    rw [if_pos rfl, finishRecord]
    cases hp : x.headerPending with
    | true =>
      rw [if_pos (show x.closeField.headerPending = true from hp)]
      rfl
    | false =>
      rw [if_neg (show ¬x.closeField.headerPending = true by
        change ¬x.headerPending = true
        rw [hp]
        exact Bool.false_ne_true), if_pos ⟨rfl, rfl⟩]
      rfl

/-- The diagnostics of one byte. -/
theorem byte_events {x y : ScanIndex o} {l l' : LexState} {c : UInt8}
    (hy : (x.byte l c).result = .ok (l', y)) {field : FieldBytes o}
    (hfield : field.1 = x.field.1 ++ (l.step o.delimiter c).2.toList) :
    (x.byte l c).events = match (l.step o.delimiter c).1.fieldEnd with
      | none => []
      | some recordEnd => ({ x with field }.advance.endField recordEnd).events := by
  rw [byte, Emit.bind_result] at hy
  obtain ⟨x₁, h₁, hy⟩ := Result.bind_eq_ok.1 hy
  obtain ⟨field', rfl, hfield'⟩ := appendField_eq_ok h₁
  obtain rfl : field' = field := Subtype.ext (hfield'.trans hfield.symm)
  rw [Emit.bind_result] at hy
  obtain ⟨x₂, h₂, hy⟩ := Result.bind_eq_ok.1 hy
  rw [byte, Emit.bind_events_of_ok h₁, Emit.bind_events_of_ok h₂, enter]
  cases (l.step o.delimiter c).1.fieldEnd with
  | none => rfl
  | some recordEnd => exact List.append_nil _

theorem fieldEvents_eq_nil : x.fieldEvents = [] ↔ Utf8.isValid x.field.1 := by
  rw [fieldEvents]
  by_cases h : Utf8.isValid x.field.1 = true
  · rw [if_pos h]
    exact iff_of_true rfl h
  · rw [if_neg h]
    exact iff_of_false (List.cons_ne_nil _ _) h

theorem rowEvents_eq_nil {fields : ℕ} :
    x.rowEvents fields = [] ↔ x.columns = [] ∨ fields = x.columns.length := by
  rw [rowEvents]
  by_cases h : x.columns.isEmpty = true ∨ fields = x.columns.length
  · rw [if_pos h]
    exact iff_of_true rfl (h.imp_left List.isEmpty_iff.1)
  · rw [if_neg h]
    exact iff_of_false (List.cons_ne_nil _ _) fun h' => h (h'.imp_left List.isEmpty_iff.2)

/-- A record that ends is as long as the first, or it is reported. -/
theorem Uniform.record {base len : ℕ} {startsAt : ℕ → ℕ → Prop} (h : x.Uniform recs p)
    (hx : x.Describes base len recs p startsAt) {q : OpenRecord} (hq : q.fields = [])
    {z y : ScanIndex o} (hz : z.columns = x.columns) (hcolumns : y.columns.length =
      max x.columns.length (p.fields.length + 1)) :
    (z.fieldEvents ++ (if x.headerPending = false then z.rowEvents (x.recordFields + 1) else []) =
        [] → y.Uniform (recs ++ [p.fields ++ [z.field.1]]) q) ∧
      (z.fieldEvents ++ (if x.headerPending = false then z.rowEvents (x.recordFields + 1) else [])
        ≠ [] → ¬WellRecorded (recs ++ [p.fields ++ [z.field.1]]) q) := by
  have hlength : (p.fields ++ [z.field.1]).length = p.fields.length + 1 := List.length_append
  have hpending : recs ≠ [] → x.headerPending = false := by
    intro hne
    rw [hx.headerPending, Bool.and_eq_false_iff]
    exact .inr (by rwa [← Bool.not_eq_true, List.isEmpty_iff])
  rw [ne_eq, List.append_eq_nil_iff, fieldEvents_eq_nil, hx.recordFields]
  constructor
  · rintro ⟨hvalid, hrow⟩
    have hcount : recs ≠ [] → p.fields.length + 1 = x.columns.length := by
      intro hne
      rw [if_pos (hpending hne), rowEvents_eq_nil, hz] at hrow
      refine hrow.resolve_left fun hnil => ?_
      obtain ⟨record, more, rfl⟩ := List.exists_cons_of_ne_nil hne
      have hpos := h.pos record List.mem_cons_self
      rw [h.columns record List.mem_cons_self, hnil] at hpos
      exact absurd hpos (Nat.lt_irrefl 0)
    have hall : ∀ record ∈ recs ++ [p.fields ++ [z.field.1]],
        record.length = y.columns.length := by
      intro record hrecord
      rw [hcolumns]
      rcases List.mem_append.1 hrecord with hrecord | hrecord
      · rw [hcount (List.ne_nil_of_mem hrecord), h.columns record hrecord, max_self]
      · rw [List.mem_singleton.1 hrecord, hlength]
        by_cases hne : recs = []
        · rw [hx.columns_nil hne]
          exact (Nat.zero_max _).symm
        · rw [hcount hne, max_self]
    refine ⟨⟨⟨fun record hrecord => ?_, fun record hrecord first hfirst => ?_⟩, ?_⟩, hall,
      fun record hrecord => ?_⟩
    · rcases List.mem_append.1 hrecord with hrecord | hrecord
      · exact h.recorded.records.utf8 record hrecord
      · rw [List.mem_singleton.1 hrecord]
        intro field hfield
        rcases List.mem_append.1 hfield with hfield | hfield
        · exact h.recorded.fields field hfield
        · rwa [List.mem_singleton.1 hfield]
    · rw [hall record hrecord, hall first (List.mem_of_mem_head? hfirst)]
    · rw [hq]
      nofun
    · rcases List.mem_append.1 hrecord with hrecord | hrecord
      · exact h.pos record hrecord
      · rw [List.mem_singleton.1 hrecord, hlength]
        exact Nat.succ_pos _
  · intro hevents hwell
    refine hevents ⟨?_, ?_⟩
    · exact hwell.records.utf8 _ (List.mem_append_right _ List.mem_cons_self) _
        (List.mem_append_right _ List.mem_cons_self)
    · split_ifs
      · rw [rowEvents_eq_nil, hz]
        cases recs with
        | nil => exact .inl (hx.columns_nil rfl)
        | cons first more =>
          refine .inr ?_
          rw [← h.columns first List.mem_cons_self, ← hlength]
          exact hwell.records.length _ (List.mem_append_right _ List.mem_cons_self) first rfl
      · rfl

theorem columns_nextRecord (x : ScanIndex o) :
    x.nextRecord.columns.length = max x.columns.length x.recordFields := by
  have hwiden : ∀ (y : ScanIndex o) count names,
      (y.widen count names).columns.length = max y.columns.length count := by
    intro y count names
    rw [widen, List.length_append, List.length_map, List.length_range']
    omega
  rw [nextRecord]
  split_ifs
  · exact hwiden _ _ _
  · exact hwiden _ _ _

variable {base : ℕ}

/-- A silent byte keeps the records uniform, any other does not. -/
theorem Uniform.byte {x y : ScanIndex o} {pre : List UInt8} {c : UInt8}
    {l' : LexState} (hx : x.Tracks base pre)
    (h : x.Uniform (OpenRecord.start.feed o.delimiter pre).1
      (OpenRecord.start.feed o.delimiter pre).2)
    (hy : (x.byte (OpenRecord.start.feed o.delimiter pre).2.lex c).result = .ok (l', y)) :
    ((x.byte (OpenRecord.start.feed o.delimiter pre).2.lex c).events = [] →
      y.Uniform (OpenRecord.start.feed o.delimiter (pre ++ [c])).1
        (OpenRecord.start.feed o.delimiter (pre ++ [c])).2) ∧
    ((x.byte (OpenRecord.start.feed o.delimiter pre).2.lex c).events ≠ [] →
      ¬WellRecorded (OpenRecord.start.feed o.delimiter (pre ++ [c])).1
        (OpenRecord.start.feed o.delimiter (pre ++ [c])).2) := by
  obtain ⟨rfl, hmax, field, hfield, rfl⟩ := byte_eq_ok hy
  have hevents := byte_events hy hfield
  rw [hevents, OpenRecord.feed_snoc, OpenRecord.byte, ← hx.field, ← hfield]
  rw [nextByte]
  cases hend : ((OpenRecord.start.feed o.delimiter pre).2.lex.step o.delimiter c).1.fieldEnd with
  | none =>
    rw [List.append_nil]
    exact ⟨fun _ => ⟨⟨h.recorded.records, h.recorded.fields⟩, h.columns, h.pos⟩,
      fun h => absurd rfl h⟩
  | some recordEnd =>
    have hcount : ({ x with field }.advance).recordFields + 1 ≤ o.limits.maxColumns :=
      hmax (by rw [hend]; exact Option.some_ne_none _)
    dsimp only
    have hend : ({ x with field }.advance.endField recordEnd).events =
        ({ x with field } : ScanIndex o).advance.fieldEvents ++
          if recordEnd = true ∧ x.headerPending = false then
            ({ x with field } : ScanIndex o).advance.rowEvents (x.recordFields + 1) else [] :=
      endField_events hcount
    rw [hend]
    cases recordEnd with
    | false =>
      rw [if_neg (by simp), List.append_nil, List.append_nil, ne_eq, fieldEvents_eq_nil]
      refine ⟨fun hvalid => ⟨⟨h.recorded.records, fun f hf => ?_⟩, h.columns, h.pos⟩,
        fun hinvalid hwell => hinvalid ?_⟩
      · rcases List.mem_append.1 hf with hf | hf
        · exact h.recorded.fields f hf
        · rwa [List.mem_singleton.1 hf]
      · exact hwell.fields _ (List.mem_append_right _ List.mem_cons_self)
    | true =>
      simp only [true_and]
      refine h.record hx (z := ({ x with field } : ScanIndex o).advance)
        (q := ⟨_, [], []⟩) rfl rfl ?_
      rw [nextField, if_pos rfl, columns_nextRecord, ← hx.recordFields]
      rfl

/-- So do the bytes of a slice. -/
theorem Uniform.bytes {x y : ScanIndex o} {pre input : List UInt8} {l' : LexState}
    (hx : x.Tracks base pre)
    (h : x.Uniform (OpenRecord.start.feed o.delimiter pre).1
      (OpenRecord.start.feed o.delimiter pre).2)
    (hy : (x.bytes (OpenRecord.start.feed o.delimiter pre).2.lex input).result = .ok (l', y)) :
    ((x.bytes (OpenRecord.start.feed o.delimiter pre).2.lex input).events = [] →
      y.Uniform (OpenRecord.start.feed o.delimiter (pre ++ input)).1
        (OpenRecord.start.feed o.delimiter (pre ++ input)).2) ∧
    ((x.bytes (OpenRecord.start.feed o.delimiter pre).2.lex input).events ≠ [] →
      ¬WellRecorded (OpenRecord.start.feed o.delimiter (pre ++ input)).1
        (OpenRecord.start.feed o.delimiter (pre ++ input)).2) := by
  induction input generalizing x pre with
  | nil =>
    cases hy
    rw [List.append_nil]
    exact ⟨fun _ => h, fun hne => absurd rfl hne⟩
  | cons c cs ih =>
    rw [ScanIndex.bytes, Emit.bind_result] at hy
    obtain ⟨⟨l₁, x₁⟩, h₁, hy⟩ := Result.bind_eq_ok.1 hy
    obtain ⟨rfl, hx₁⟩ := Tracks.byte (startsAt_recordStarts _ _) hx h₁
    obtain ⟨hsilent, hreported⟩ := Uniform.byte hx h h₁
    rw [ScanIndex.bytes, Emit.bind_events_of_ok h₁, ne_eq, List.append_eq_nil_iff,
      show pre ++ c :: cs = pre ++ [c] ++ cs by rw [List.append_assoc]; rfl]
    by_cases hevents : (x.byte (OpenRecord.start.feed o.delimiter pre).2.lex c).events = []
    · obtain ⟨hsilent', hreported'⟩ := ih hx₁ (hsilent hevents) hy
      exact ⟨fun h => hsilent' h.2, fun h => hreported' fun hnil => h ⟨hevents, hnil⟩⟩
    · refine ⟨fun h => absurd h.1 hevents, fun _ hwell => hreported hevents ?_⟩
      rw [OpenRecord.feed_append _ (pre ++ [c]) cs] at hwell
      exact hwell.of_feed

/-- The end of the file completes a uniform record, or reports it. -/
theorem Uniform.eof {x y : ScanIndex o} {text : List UInt8} (hx : x.Tracks base text)
    (h : x.Uniform (OpenRecord.start.feed o.delimiter text).1
      (OpenRecord.start.feed o.delimiter text).2)
    (hy : (x.eof (OpenRecord.start.feed o.delimiter text).2.lex).result = .ok y) :
    ((x.eof (OpenRecord.start.feed o.delimiter text).2.lex).events = [] →
      y.Uniform (records o.delimiter text) .start) ∧
    ((x.eof (OpenRecord.start.feed o.delimiter text).2.lex).events ≠ [] →
      ¬WellRecords (records o.delimiter text)) := by
  rw [ScanIndex.eof] at hy ⊢
  rw [records, OpenRecord.records, OpenRecord.finish]
  by_cases hb : (OpenRecord.start.feed o.delimiter text).2.lex.isBoundary = true
  · rw [if_pos hb] at hy
    cases hy
    rw [if_pos hb, if_pos hb, List.append_nil]
    exact ⟨fun _ => ⟨⟨h.recorded.records, List.forall_mem_nil _⟩, h.columns, h.pos⟩,
      fun hne => absurd rfl hne⟩
  · rw [if_neg hb] at hy
    obtain ⟨hmax, rfl⟩ := endField_eq_ok hy
    rw [if_neg hb, if_neg hb, endField_events hmax]
    simp only [true_and]
    obtain ⟨hrecord, hragged⟩ := h.record hx (z := x) (y := x.nextField true)
      (q := .start) rfl rfl (by
        rw [nextField, if_pos rfl, columns_nextRecord, ← hx.recordFields]
        rfl)
    rw [← hx.field]
    exact ⟨hrecord, fun hne hwell => hragged hne ⟨hwell, List.forall_mem_nil _⟩⟩

/-- A whole table is silent if and only if its records are well-formed. -/
theorem table_events_eq_nil {text : List UInt8} {q : LexState × ScanIndex o}
    (hq : ((startIndex o base).bytes .startRecord text).result = .ok q)
    (hx : (q.2.eof q.1).result = .ok x) :
    ((startIndex o base).bytes .startRecord text).events = [] ∧ (q.2.eof q.1).events = [] ↔
      WellRecords (records o.delimiter text) := by
  obtain ⟨l, y⟩ := q
  have hstart := tracks_start o base
  have huniform : (startIndex o base).Uniform [] .start :=
    ⟨⟨⟨nofun, nofun⟩, nofun⟩, nofun, nofun⟩
  obtain ⟨rfl, htracks⟩ := Tracks.bytes (startsAt_recordStarts _ _) hstart hq
  obtain ⟨hsilent, hreported⟩ := Uniform.bytes hstart huniform hq
  rw [List.nil_append] at hsilent hreported htracks
  have hend := fun h => Uniform.eof htracks (h : y.Uniform _ _) hx
  constructor
  · rintro ⟨hnil, heof⟩
    exact ((hend (hsilent hnil)).1 heof).recorded.records
  · intro hwell
    have hnil : ((startIndex o base).bytes .startRecord text).events = [] := by
      by_contra hne
      exact hreported hne (WellRecorded.of_records hwell)
    refine ⟨hnil, ?_⟩
    by_contra hne
    exact (hend (hsilent hnil)).2 hne hwell

end ScanIndex

/-! ## Strict scans -/

theorem delimiter_ne_quote (hvalid : o.validate = .ok ()) : o.delimiter ≠ quote := by
  intro h
  rw [DelimitedOptions.validate, if_pos (by simp [h])] at hvalid
  cases hvalid

namespace ScanPoint

/-- Pieces are silent if and only if their bytes are. -/
theorem pieces_events_eq_nil {p q : ScanPoint o} {cut : List (List UInt8)}
    (hq : (p.pieces cut).result = .ok q) :
    q.lexical = (p.lexical.consume o.delimiter p.index.parserOffset cut.flatten).1 ∧
      ((p.pieces cut).events = [] ↔
        (p.lexical.consume o.delimiter p.index.parserOffset cut.flatten).2 = [] ∧
          (p.index.bytes p.lex cut.flatten).events = []) := by
  induction cut generalizing p with
  | nil =>
    cases hq
    exact ⟨rfl, iff_of_true rfl ⟨rfl, rfl⟩⟩
  | cons bytes more ih =>
    rw [pieces, Emit.bind_result] at hq
    obtain ⟨p₁, h₁, hq⟩ := Result.bind_eq_ok.1 hq
    obtain ⟨hlexical, hbytes⟩ := piece_eq_ok h₁
    obtain ⟨hrest, hevents⟩ := ih hq
    have hoffset := parserOffset_of_bytes hbytes
    have hpiece : (p.piece bytes).events = quoteEvents (p.lexical.consume o.delimiter
        p.index.parserOffset bytes).2 ++ (p.index.bytes p.lex bytes).events := by
      rw [piece, Emit.bind_mk_ok]
      dsimp only
      rw [Emit.bind_events_of_ok hbytes]
      exact congrArg _ (List.append_nil _)
    rw [hlexical, hoffset] at hrest hevents
    rw [List.flatten_cons, QuoteTracker.consume_append, ScanIndex.bytes_append,
      Emit.bind_events_of_ok hbytes]
    refine ⟨hrest, ?_⟩
    rw [pieces, Emit.bind_events_of_ok h₁, List.append_eq_nil_iff, hevents, hpiece,
      List.append_eq_nil_iff, List.append_eq_nil_iff, List.append_eq_nil_iff, quoteEvents,
      List.map_eq_nil_iff]
    tauto

end ScanPoint

/-! ## Within the limits -/

namespace ScanIndex

/-- A field of a record within the limits ends. -/
theorem exists_endField {x : ScanIndex o} {base len : ℕ}
    {startsAt : ℕ → ℕ → Prop} (hx : x.Describes base len recs p startsAt) {z : ScanIndex o}
    (hfields : z.recordFields = x.recordFields) (hrows : z.rows = x.rows)
    (hversion : z.schemaVersion = x.schemaVersion)
    (hmax : x.recordFields + 1 ≤ o.limits.maxColumns) (hlen : recs.length < u64Max)
    (recordEnd : Bool) : ∃ y, (z.endField recordEnd).result = .ok y := by
  have husize : usizeMax < u64Max := by decide
  have hcolumns := hx.columns_le
  have hcolumnsMax := o.limits.maxColumns_le
  have hschema := hx.schemaVersion_le
  refine ⟨_, endField_of_le (by rwa [hfields]) ?_ (by omega) recordEnd⟩
  rw [hrows, hx.rows, length_dataRecords]
  omega

/-- A text whose records are within the limits is indexed. -/
theorem exists_bytes {x : ScanIndex o} {base : ℕ} {pre input : List UInt8}
    (hx : x.Tracks base pre)
    (hfits : ∀ record ∈ (OpenRecord.start.feed o.delimiter pre).2.records o.delimiter input,
      Fits o record) (hlen : (pre ++ input).length < u64Max) :
    ∃ q, (x.bytes (OpenRecord.start.feed o.delimiter pre).2.lex input).result = .ok q := by
  induction input generalizing x pre with
  | nil => exact ⟨_, rfl⟩
  | cons c cs ih =>
    have happ : pre ++ c :: cs = pre ++ [c] ++ cs := by rw [List.append_assoc]; rfl
    have hclean := OpenRecord.clean_feed (d := o.delimiter) OpenRecord.clean_start pre
    obtain ⟨hfield, hcount⟩ := le_of_fits hclean hfits
    have hcompleted := OpenRecord.length_feed_le (d := o.delimiter) OpenRecord.start pre
    have hstep : ∃ q, (x.byte (OpenRecord.start.feed o.delimiter pre).2.lex c).result = .ok q := by
      rw [byte, appendField, FieldBytes.append, dif_pos (by rwa [hx.field]), Result.ok_bind,
        Emit.silent, Emit.bind_mk_ok, enter]
      cases hend :
        ((OpenRecord.start.feed o.delimiter pre).2.lex.step o.delimiter c).1.fieldEnd with
      | none => exact ⟨_, rfl⟩
      | some recordEnd =>
        dsimp only
        have hone : (OpenRecord.start).opened = 0 := rfl
        rw [List.length_append, List.length_cons] at hlen
        obtain ⟨y, hy⟩ := exists_endField hx (z := { x with
          field := ⟨x.field.1 ++ ((OpenRecord.start.feed o.delimiter pre).2.lex.step o.delimiter
            c).2.toList, by rwa [hx.field]⟩ }.advance) rfl rfl rfl (by
          rw [hx.recordFields]
          exact hcount (by rw [hend]; exact Option.some_ne_none _)) (by omega) recordEnd
        rw [Emit.bind_result, hy]
        exact ⟨_, rfl⟩
    obtain ⟨⟨l₁, x₁⟩, h₁⟩ := hstep
    obtain ⟨rfl, hx₁⟩ := Tracks.byte (startsAt_recordStarts _ _) hx h₁
    rw [happ] at hlen
    obtain ⟨q, hq⟩ := ih hx₁ (fun record hrecord => hfits record (by
      rw [OpenRecord.feed_snoc] at hrecord
      rw [OpenRecord.records_cons]
      exact List.mem_append_right _ hrecord)) hlen
    refine ⟨q, ?_⟩
    rw [ScanIndex.bytes, Emit.bind_result, h₁]
    exact hq

end ScanIndex

/-- A source whose records are within the limits has an index. -/
theorem exists_sourceIndex_of_fits {source : List UInt8} (hlen : source.length < u64Max)
    (hfits : ∀ record ∈ records o.delimiter (tableBytes source), Fits o record) :
    ∃ x, sourceIndex o source = .ok x := by
  have hlength : (tableBytes source).length ≤ source.length := (List.drop_sublist _ _).length_le
  obtain ⟨⟨l, y⟩, hq⟩ := @ScanIndex.exists_bytes o _ _ [] _
    (ScanIndex.tracks_start o (tableBase source)) hfits (hlength.trans_lt hlen)
  obtain ⟨rfl, htracks⟩ := ScanIndex.Tracks.bytes (startsAt_recordStarts _ _)
    (ScanIndex.tracks_start o (tableBase source)) hq
  rw [List.nil_append] at htracks
  have heof : ∃ x, (y.eof (OpenRecord.start.feed o.delimiter (tableBytes source)).2.lex).result =
      .ok x := by
    rw [ScanIndex.eof]
    split_ifs with hb
    · exact ⟨_, rfl⟩
    · have hcompleted := OpenRecord.length_feed_le (d := o.delimiter) OpenRecord.start
        (tableBytes source)
      have hone : (OpenRecord.start).opened = 0 := rfl
      refine ScanIndex.exists_endField htracks rfl rfl rfl ?_ (by omega) true
      rw [htracks.recordFields]
      have hlast := (hfits ((OpenRecord.start.feed o.delimiter (tableBytes source)).2.fields ++
        [(OpenRecord.start.feed o.delimiter (tableBytes source)).2.field]) (by
          rw [records, OpenRecord.records, OpenRecord.finish, if_neg hb]
          exact List.mem_append_right _ List.mem_cons_self)).1
      rwa [List.length_append] at hlast
  obtain ⟨x, hx⟩ := heof
  exact ⟨x, by rw [sourceIndex]; exact (Result.bind_eq_ok.2 ⟨_, hq, hx⟩)⟩

namespace CsvScanner

variable {reader : Reader o.delimiter}

/-- A strict scan succeeds if and only if its source is well-formed. -/
theorem scanChunks_strict_iff (hvalid : o.validate = .ok ()) (hmode : o.mode = .strict)
    (source : ByteSource) (hkeeps : reader.Keeps source.bytes)
    (hfits : ∀ record ∈ records o.delimiter (tableBytes source.bytes), Fits o record)
    {chunks : List (List UInt8)} (hcut : IsCut source chunks) :
    (∃ c, scanChunks reader chunks = .ok c) ↔
      WellFormed o.delimiter (tableBytes source.bytes) := by
  have hd : o.delimiter ≠ quote := delimiter_ne_quote hvalid
  have hlen := source.length_le.trans_lt (show maxSafeInteger < u64Max by decide)
  obtain ⟨x, hx⟩ := exists_sourceIndex_of_fits (o := o) hlen hfits
  have hscan := scanChunks_eq_run hvalid hkeeps hcut
  have hresult := result_scanPieces o hcut.ne_nil
  have hflatten := flatten_scanPieces ⟨List.nil_prefix, Nat.zero_lt_succ 2⟩ hcut.ne_nil
  rw [List.nil_append] at hflatten
  rw [hcut.flatten] at hresult hflatten
  rw [hx] at hresult
  -- Nothing fails but what is reported, so success is silence.
  have hsilent : (∃ c, scanChunks reader chunks = .ok c) ↔
      ((tableStart o source.bytes).table (scanPieces [] chunks)).events = [] := by
    rw [Emit.run_strict hmode, Emit.outcomes_of_ok hresult, hresult] at hscan
    cases hevents : ((tableStart o source.bytes).table (scanPieces [] chunks)).events with
    | nil =>
      rw [hevents] at hscan
      obtain ⟨c, hc, _⟩ := Result.map_eq_ok.1 hscan
      exact iff_of_true ⟨c, hc⟩ rfl
    | cons event events =>
      rw [hevents] at hscan
      refine iff_of_false ?_ (List.cons_ne_nil _ _)
      rintro ⟨c, hc⟩
      rw [hc] at hscan
      cases hscan
  rw [hsilent]
  rw [ScanPoint.table, Emit.bind_result] at hresult
  obtain ⟨q, hq, hfinish⟩ := Result.bind_eq_ok.1 hresult
  obtain ⟨hlexical, hevents⟩ := ScanPoint.pieces_events_eq_nil hq
  have hpieces := ScanPoint.result_pieces (tableStart o source.bytes) (scanPieces [] chunks)
  rw [hq, hflatten] at hpieces
  rw [ScanPoint.finish, Emit.bind_mk_ok] at hfinish
  have htable := ScanIndex.table_events_eq_nil hpieces.symm hfinish
  have hquotes := QuoteTracker.clean_iff hd (tableBase source.bytes) (tableBytes source.bytes)
  rw [QuoteTracker.Clean] at hquotes
  rw [hflatten] at hlexical hevents
  rw [ScanPoint.table, Emit.bind_events_of_ok hq, ScanPoint.finish, Emit.bind_mk_ok]
  dsimp only
  rw [List.append_eq_nil_iff, List.append_eq_nil_iff, hevents,
    unclosedEvents_eq_nil, hlexical]
  constructor
  · rintro ⟨⟨hissues, hbytes⟩, hopen, heof⟩
    exact ⟨hquotes.1 ⟨hissues, hopen⟩, htable.1 ⟨hbytes, heof⟩⟩
  · rintro ⟨hquoted, hrecords⟩
    obtain ⟨hissues, hopen⟩ := hquotes.2 hquoted
    obtain ⟨hbytes, heof⟩ := htable.2 hrecords
    exact ⟨⟨hissues, hbytes⟩, hopen, heof⟩

/-- A quoted field with a doubled quote and a line end in it. -/
def quotedLines : ByteSource := ⟨asciiBytes "a,b\n\"1\"\"\n\",2\n", by decide⟩

theorem scanChunks_strict_iff_quotedLines :
    (∃ c, scanChunks (o := headless .strict) (.reference 44 false) [quotedLines.bytes] = .ok c) ↔
      WellFormed 44 quotedLines.bytes :=
  scanChunks_strict_iff (o := headless .strict) rfl rfl quotedLines
    (fun h => absurd h Bool.false_ne_true) (by unfold Fits; decide)
    ⟨List.cons_ne_nil _ _, List.flatten_singleton⟩

end CsvScanner

end Tabulark.Csv
