import Tabulark.Csv.RangeRead

/-!
# Reading accepted rows in strict mode

A strict decoder stops at the first diagnostic. The rows a strict scanner has
accepted give none, but the quotes of a chunk are checked before its records,
up to the end of the chunk: what comes after the last requested record in that
chunk can stop a read that needs none of it. `read_strict_iff` says that nothing
else can.
-/

namespace Tabulark.Csv

variable {o : DelimitedOptions}

/-! ## Where records end -/

/-- The number of bytes up to the end of record number `k`, or of the input. -/
def recordsLength (d : UInt8) : ℕ → OpenRecord → List UInt8 → ℕ
  | 0, _, _ => 0
  | _ + 1, _, [] => 0
  | k + 1, p, c :: cs => 1 + recordsLength d (k + 1 - (p.byte d c).1.length) (p.byte d c).2 cs

variable {d : UInt8}

theorem recordsLength_le (k : ℕ) (p : OpenRecord) (input : List UInt8) :
    recordsLength d k p input ≤ input.length := by
  induction input generalizing k p with
  | nil => cases k <;> exact le_rfl
  | cons c cs ih =>
    cases k with
    | zero => exact Nat.zero_le _
    | succ k =>
      rw [recordsLength, List.length_cons, Nat.add_comm]
      exact Nat.succ_le_succ (ih _ _)

variable {p : OpenRecord}

/-- The bytes up to there complete the records, or they are all. -/
theorem feed_take_recordsLength {k : ℕ} (hk : k = 0 → p.lex.isBoundary) (input : List UInt8) :
    (p.feed d (input.take (recordsLength d k p input))).1.length = k ∧
        (p.feed d (input.take (recordsLength d k p input))).2.lex.isBoundary ∨
      recordsLength d k p input = input.length ∧ (p.feed d input).1.length < k := by
  induction input generalizing k p with
  | nil =>
    cases k with
    | zero => exact .inl ⟨rfl, hk rfl⟩
    | succ k => exact .inr ⟨rfl, Nat.succ_pos _⟩
  | cons c cs ih =>
    cases k with
    | zero => exact .inl ⟨rfl, hk rfl⟩
    | succ k =>
      have hone := OpenRecord.length_byte_le (d := d) p c
      rw [recordsLength, Nat.add_comm 1, List.take_succ_cons, OpenRecord.feed, OpenRecord.feed,
        List.length_append, List.length_append, List.length_cons]
      dsimp only
      rcases ih (k := k + 1 - (p.byte d c).1.length) (p := (p.byte d c).2) (by
        intro hzero
        rw [OpenRecord.opened] at hone
        by_contra hb
        rw [if_neg hb] at hone
        omega) with ⟨hlength, hb⟩ | ⟨hlength, hlt⟩
      · exact .inl ⟨by omega, hb⟩
      · exact .inr ⟨by omega, by omega⟩

/-- Fewer bytes complete fewer records. -/
theorem feed_lt_of_lt_recordsLength {k : ℕ} {input : List UInt8} {n : ℕ}
    (hn : n < recordsLength d k p input) : (p.feed d (input.take n)).1.length < k := by
  induction input generalizing k p n with
  | nil =>
    have hle := recordsLength_le (d := d) k p []
    exact absurd (hn.trans_le hle) (Nat.not_lt_zero n)
  | cons c cs ih =>
    cases k with
    | zero => exact absurd hn (Nat.not_lt_zero n)
    | succ k =>
      cases n with
      | zero => exact Nat.succ_pos _
      | succ n =>
        rw [recordsLength] at hn
        have hrest := ih (k := k + 1 - (p.byte d c).1.length) (p := (p.byte d c).2) (n := n)
          (by omega)
        rw [List.take_succ_cons, OpenRecord.feed, List.length_append]
        omega

/-- Records that are completed early end early. -/
theorem recordsLength_append {k : ℕ} {input : List UInt8}
    (h : k ≤ (p.feed d input).1.length) (more : List UInt8) :
    recordsLength d k p (input ++ more) = recordsLength d k p input := by
  induction input generalizing k p with
  | nil =>
    obtain rfl : k = 0 := Nat.le_zero.1 h
    rw [recordsLength, recordsLength]
  | cons c cs ih =>
    cases k with
    | zero => rw [recordsLength, recordsLength]
    | succ k =>
      rw [List.cons_append, recordsLength, recordsLength, ih]
      rw [OpenRecord.feed, List.length_append] at h
      omega

/-- The records up to there. -/
theorem records_take_recordsLength (k : ℕ) (input : List UInt8) :
    records d (input.take (recordsLength d k .start input)) = (records d input).take k := by
  rcases feed_take_recordsLength (d := d) (fun _ => rfl : k = 0 → OpenRecord.start.lex.isBoundary)
    input with ⟨hlength, hb⟩ | ⟨hlength, hlt⟩
  · have hall := OpenRecord.records_append (d := d) OpenRecord.start
      (input.take (recordsLength d k .start input))
      (input.drop (recordsLength d k .start input))
    rw [List.take_append_drop] at hall
    have htake := @List.take_left _ (OpenRecord.start.feed d
      (input.take (recordsLength d k .start input))).1 (OpenRecord.records d
        (OpenRecord.start.feed d (input.take (recordsLength d k .start input))).2
          (input.drop (recordsLength d k .start input)))
    rw [hlength] at htake
    rw [records, records, hall, htake, OpenRecord.records, OpenRecord.finish, if_pos hb,
      List.append_nil]
  · rw [hlength, List.take_length, List.take_of_length_le]
    rw [records, OpenRecord.records, List.length_append, OpenRecord.length_finish,
      OpenRecord.opened]
    split_ifs <;> omega

/-! ## Accepted rows -/

/-- A text that begins with `k` rows a strict scanner has accepted. -/
structure Accepts (d : UInt8) (columns k : ℕ) (rest : List UInt8) : Prop where
  le : k ≤ (records d rest).length
  uniform : ∀ record ∈ (records d rest).take k, record.length = columns ∧
    ∀ field ∈ record, Utf8.isValid field
  quotes : ∀ base, (QuoteTracker.consume d {} base
    (rest.take (recordsLength d k .start rest))).2 = []
  /-- If the rows need all of the text, it does not end in a quoted field. -/
  closed : recordsLength d k .start rest = rest.length →
    ∀ base, (QuoteTracker.consume d {} base rest).1.unclosedQuoteOffset = none

/-- Two silent trackers, one after the other. -/
theorem consume_take {t : QuoteTracker} {base : ℕ} {text : List UInt8}
    (h : (t.consume d base text).2 = []) (n : ℕ) : (t.consume d base (text.take n)).2 = [] := by
  rw [← List.take_append_drop n text, QuoteTracker.consume_append] at h
  exact (List.append_eq_nil_iff.1 h).1

/-- A silent tracker is between two fields where the parse is between two records. -/
theorem state_of_isBoundary {base : ℕ} {text : List UInt8}
    (h : (QuoteTracker.consume d {} base text).2 = [])
    (hl : (OpenRecord.start.feed d text).2.lex.isBoundary) :
    (QuoteTracker.consume d {} base text).1.state = .startField :=
  QuoteTracker.state_of_lockstep
    (QuoteTracker.lockstep_consume (t := {}) (p := .start) (.inl rfl) h) hl

/-- From a record boundary on, a fresh tracker finds what the first one does. -/
theorem consume_drop {base : ℕ} {text : List UInt8} {i n : ℕ} (h : RecordAt d text i n)
    (hquotes : (QuoteTracker.consume d {} base text).2 = []) (base' : ℕ) :
    (QuoteTracker.consume d {} base' (text.drop i)).2 = [] ∧
      ((QuoteTracker.consume d {} base text).1.unclosedQuoteOffset = none →
        (QuoteTracker.consume d {} base' (text.drop i)).1.unclosedQuoteOffset = none) := by
  have hstate := state_of_isBoundary (consume_take hquotes i) h.isBoundary
  rw [← List.take_append_drop i text, QuoteTracker.consume_append] at hquotes
  have hall := QuoteTracker.consume_append d {} base (text.take i) (text.drop i)
  rw [List.take_append_drop] at hall
  obtain ⟨halike, hissues⟩ := @QuoteTracker.consume_alike d
    (QuoteTracker.consume d {} base (text.take i)).1 {} (by rw [hstate]; trivial)
    (base + (text.take i).length) base' (text.drop i)
  refine ⟨hissues.1 (List.append_eq_nil_iff.1 hquotes).2, fun hnone => ?_⟩
  rw [hall] at hnone
  exact QuoteTracker.unclosedQuoteOffset_of_alike halike hnone

namespace Accepts

variable {columns k : ℕ} {text : List UInt8}

/-- Rows that are complete, whatever comes after them. -/
theorem of_completed (hk : k ≤ (OpenRecord.start.feed d text).1.length)
    (huniform : ∀ record ∈ (OpenRecord.start.feed d text).1, record.length = columns ∧
      ∀ field ∈ record, Utf8.isValid field)
    (hquotes : ∀ base, (QuoteTracker.consume d {} base text).2 = []) (more : List UInt8) :
    Accepts d columns k (text ++ more) := by
  have hrecords : records d (text ++ more) = (OpenRecord.start.feed d text).1 ++
      (OpenRecord.start.feed d text).2.records d more := OpenRecord.records_append _ _ _
  have hlength := recordsLength_append hk more
  have hle := recordsLength_le (d := d) k .start text
  have hsilent : ∀ base, (QuoteTracker.consume d {} base ((text ++ more).take
      (recordsLength d k .start (text ++ more)))).2 = [] := by
    intro base
    rw [hlength, List.take_append_of_le_length hle]
    exact consume_take (hquotes base) _
  refine ⟨?_, ?_, hsilent, fun hall base => ?_⟩
  · rw [hrecords, List.length_append]
    omega
  · rw [hrecords, List.take_append_of_le_length hk]
    exact fun record hrecord => huniform record (List.mem_of_mem_take hrecord)
  · rcases feed_take_recordsLength (d := d) (fun _ => rfl : k = 0 →
        OpenRecord.start.lex.isBoundary) (text ++ more) with ⟨_, hb⟩ | ⟨_, hlt⟩
    · have hstate := state_of_isBoundary (hsilent base) hb
      rw [hall, List.take_length] at hstate
      rw [QuoteTracker.unclosedQuoteOffset, hstate]
    · rw [OpenRecord.feed_append, List.length_append] at hlt
      omega

/-- Rows of a whole text. -/
theorem of_whole (hk : k ≤ (records d text).length)
    (huniform : ∀ record ∈ records d text, record.length = columns ∧
      ∀ field ∈ record, Utf8.isValid field)
    (hquotes : ∀ base, (QuoteTracker.consume d {} base text).2 = [] ∧
      (QuoteTracker.consume d {} base text).1.unclosedQuoteOffset = none) :
    Accepts d columns k text :=
  ⟨hk, fun record hrecord => huniform record (List.mem_of_mem_take hrecord),
    fun base => consume_take (hquotes base).1 _, fun _ base => (hquotes base).2⟩

end Accepts

namespace CsvScanner

variable {reader : Reader o.delimiter}

variable {c : CsvScanner reader}

/-- A plan for indexed rows starts at one of the checkpoints. -/
theorem mem_checkpoints_of_planRange {base len : ℕ} {recs : List Record} {startsAt : ℕ → ℕ → Prop}
    (h : c.scan.index.Describes base len recs p startsAt) {request : RangeRequest}
    {plan : RangePlan} (hplan : c.planRange request = .ok plan)
    (hrow : request.rowStart < c.scan.index.rows) :
    plan.checkpoint ∈ c.scan.index.checkpoints ∧ plan.checkpoint.row ≤ request.rowStart := by
  obtain ⟨_, _, _, _, hcheckpoint⟩ := planRange_eq_ok hplan
  rcases nearestCheckpoint_cases h request.rowStart with
    ⟨checkpoint, hnearest, hmem, hle⟩ | ⟨_, hzero⟩
  · rw [hcheckpoint, hnearest]
    exact ⟨hmem, hle⟩
  · rw [hzero] at hrow
    exact absurd hrow (Nat.not_lt_zero _)

/-- The rows from the checkpoint of a plan on are accepted rows. -/
theorem Stage.accepts {pre source : List UInt8} (hstage : Stage c pre)
    (hmode : o.mode = .strict) (hpre : pre <+: source)
    (hwhole : c.finished = true → pre = source) {request : RangeRequest} {plan : RangePlan}
    (hplan : c.planRange request = .ok plan) (hpos : 0 < request.rowCount)
    (hrows : request.rowStart + request.rowCount ≤ c.scan.index.rows) :
    Accepts o.delimiter c.scan.index.columns.length
      (request.rowStart + request.rowCount - plan.checkpoint.row)
      (source.drop plan.sourceOffset) := by
  have hrow : request.rowStart < c.scan.index.rows := by omega
  cases hstage with
  | holding _ => exact absurd hrow (Nat.not_lt_zero _)
  | @parsing _ _ body base hc hsilent _ hsettles _ =>
    obtain ⟨more, rfl⟩ := hpre
    obtain ⟨hbase, htable⟩ := hsettles.table more nofun
    obtain ⟨_, hquotes, huniform⟩ := hsilent hmode
    obtain ⟨hmem, hle⟩ := mem_checkpoints_of_planRange hc.tracks hplan hrow
    obtain ⟨i, hoffset, hat⟩ := hc.tracks.checkpoints _ hmem
    have hrest : (pre ++ more).drop plan.sourceOffset = body.drop i ++ more := by
      rw [RangePlan.sourceOffset, hoffset, ← hbase, ← List.drop_drop, ← tableBytes, htable,
        List.drop_append_of_le_length hat.le]
    have hindexed := hc.tracks.rows
    rw [length_dataRecords] at hindexed
    rw [hrest]
    refine .of_completed ?_ (fun record hrecord => ?_) (fun base' => (consume_drop hat hquotes
      base').1) more
    · rw [hat.feed_drop, List.length_drop]
      omega
    · rw [hat.feed_drop] at hrecord
      have hrecord := List.mem_of_mem_drop hrecord
      exact ⟨huniform.columns _ hrecord, huniform.recorded.records.utf8 _ hrecord⟩
  | finished hfinished hindexes haccepted =>
    obtain rfl := hwhole hfinished
    obtain ⟨⟨hquotes, hclosed⟩, huniform⟩ := haccepted hmode
    obtain ⟨hmem, hle⟩ := mem_checkpoints_of_planRange hindexes hplan hrow
    have hindexed := hindexes.rows
    rw [length_dataRecords] at hindexed
    -- The checkpoint is before the last row, so it is not the end of the file.
    rcases hindexes.checkpoints _ hmem with ⟨i, hoffset, hat⟩ | ⟨_, hend⟩
    · have hrest : pre.drop plan.sourceOffset = (tableBytes pre).drop i := by
        rw [RangePlan.sourceOffset, hoffset, ← List.drop_drop, ← tableBytes]
      rw [hrest]
      refine .of_whole ?_ (fun record hrecord => ?_) fun base' => ?_
      · rw [hat.records_drop, List.length_drop]
        omega
      · rw [hat.records_drop] at hrecord
        have hrecord := List.mem_of_mem_drop hrecord
        exact ⟨huniform.columns _ hrecord, huniform.recorded.records.utf8 _ hrecord⟩
      · obtain ⟨hissues, hopen⟩ := consume_drop hat hquotes base'
        exact ⟨hissues, hopen hclosed⟩
    · omega

/-- Every stage has a schema. -/
theorem Stage.schema {pre : List UInt8} (hstage : Stage c pre) :
    ∃ schema, Schema.new c.scan.index.schemaVersion c.scan.index.columns = .ok schema ∧
      schema.columns = c.scan.index.columns ∧ c.scan.index.columns.length ≤ usizeMax := by
  cases hstage with
  | holding _ => exact ⟨_, rfl, rfl, Nat.zero_le _⟩
  | parsing hc _ _ _ _ =>
    obtain ⟨schema, hschema, heq⟩ := schema_of_describes hc.tracks
    exact ⟨schema, hschema, heq, hc.tracks.columns_le.trans o.limits.maxColumns_le⟩
  | finished _ hindexes _ =>
    obtain ⟨schema, hschema, heq⟩ := schema_of_describes hindexes
    exact ⟨schema, hschema, heq, hindexes.columns_le.trans o.limits.maxColumns_le⟩

/-- The rows scanned so far are rows of the source. -/
theorem Stage.rows_le {pre source : List UInt8} (hstage : Stage c pre)
    (hpre : pre <+: source) (hwhole : c.finished = true → pre = source) :
    c.scan.index.rows ≤
      (dataRecords o (records o.delimiter (tableBytes source))).length := by
  rw [length_dataRecords]
  cases hstage with
  | holding _ => exact Nat.zero_le _
  | parsing hc _ _ hsettles _ =>
    obtain ⟨more, rfl⟩ := hpre
    rw [(hsettles.table more nofun).2, hc.tracks.rows, length_dataRecords, records,
      OpenRecord.records_append, List.length_append]
    omega
  | finished hfinished hindexes _ =>
    obtain rfl := hwhole hfinished
    rw [hindexes.rows, length_dataRecords]

end CsvScanner

/-! ## Stopped by a quote -/

namespace RangeDecoder

variable {reader : Reader o.delimiter}

theorem overshoot_length_flatten (chunks : List (List UInt8)) :
    overshoot chunks.flatten.length chunks = [] := by
  induction chunks with
  | nil => rfl
  | cons chunk more ih =>
    rw [List.flatten_cons, List.length_append, overshoot, Nat.add_sub_cancel_left, ih]
    split_ifs
    · exact List.drop_of_length_le (Nat.le_add_right _ _)
    · rfl

/-- A strict decoder stops at the first malformed quote of a chunk. -/
theorem feedChunk_of_issue {r : RangeDecoder reader} (hmode : o.mode = .strict) {offset : ℕ}
    {chunk : List UInt8} (hloud : (r.lexical.consume o.delimiter offset chunk).2 ≠ [])
    (hdone : r.decode.done = false) (hoffset : offset = r.decode.expectedOffset) (eof : Bool) :
    ∃ e, r.feedChunk offset chunk eof = .error e ∧ e.code = .parseFailed := by
  rw [feedChunk, hdone, if_neg Bool.false_ne_true, if_neg (not_not.2 hoffset)]
  cases hissues : (r.lexical.consume o.delimiter offset chunk).2 with
  | nil => exact absurd hissues hloud
  | cons issue issues =>
    dsimp only
    rw [hissues, reportQuotes, List.foldlM_cons, DecodeState.handleDiagnostic,
      Csv.handleDiagnostic, hmode]
    exact ⟨_, rfl, rfl⟩

/-- A malformed quote after the last row, in the chunk that ends it, stops a strict
    decoder. -/
theorem decodeChunks_of_overshoot {r : RangeDecoder reader}
    {pre rest : List UInt8} (h : r.Following pre) {rows : List Record}
    (ha : r.Ahead (pre ++ rest) rows) (hmode : o.mode = .strict) {chunks : List (List UInt8)}
    (hne : chunks ≠ []) (hbom : reader.KeepsPieces r.readerState chunks)
    (hrest : rest <+: chunks.flatten)
    (hsilent : (r.lexical.consume o.delimiter (r.plan.sourceOffset + pre.length) rest).2 = [])
    (hloud : (r.lexical.consume o.delimiter (r.plan.sourceOffset + pre.length)
      (rest ++ overshoot rest.length chunks)).2 ≠ [])
    (hearly : ∀ n < rest.length, (r.plan.window
      (OpenRecord.start.feed o.delimiter (pre ++ rest.take n)).1).length < r.plan.request.rowCount)
    (hlen : r.plan.sourceOffset + (pre ++ chunks.flatten).length ≤ u64Max) :
    ∃ e, r.decodeChunks (r.plan.sourceOffset + pre.length) chunks = .error e ∧
      e.code = .parseFailed := by
  induction chunks generalizing r pre rest with
  | nil => exact absurd rfl hne
  | cons chunk more ih =>
    rw [List.flatten_cons] at hrest hlen
    rw [overshoot] at hloud
    rw [← List.append_assoc, List.length_append] at hlen
    by_cases hle : rest.length ≤ chunk.length
    · obtain ⟨extra, rfl⟩ : rest <+: chunk := List.prefix_of_prefix_length_le hrest
        (List.prefix_append _ _) hle
      rw [if_pos hle, List.drop_left] at hloud
      obtain ⟨e, hfeed, he⟩ := feedChunk_of_issue hmode hloud h.done
        h.decodes.expectedOffset.symm more.isEmpty
      rw [decodeChunks, hfeed]
      exact ⟨e, rfl, he⟩
    · obtain ⟨post, rfl, hpost, hmore⟩ := exists_split_of_lt hrest hle
      rw [if_neg hle, List.length_append, Nat.add_sub_cancel_left, List.append_assoc,
        QuoteTracker.consume_append] at hloud
      rw [QuoteTracker.consume_append, List.append_eq_nil_iff] at hsilent
      obtain ⟨hchunk, hsilent⟩ := hsilent
      rw [hchunk, List.nil_append] at hloud
      have hempty : more.isEmpty = false := by rwa [← Bool.not_eq_true, List.isEmpty_iff]
      obtain ⟨r', status, hfeed, hstatus⟩ := feedChunk_of_following h chunk [] post
        more.isEmpty (by
          rw [List.append_nil]
          exact hbom.1) ha (fun hextra => absurd rfl hextra) (fun _ => by
          rw [List.append_nil]
          exact hchunk) (by
          rw [List.append_nil]
          omega) (fun hempty' => absurd hempty' (by rw [hempty]; decide))
      rw [List.append_nil] at hfeed
      rw [decodeChunks, hfeed, Result.ok_bind]
      cases status with
      | complete batch =>
        -- The last row is not in this chunk.
        have hfull := hstatus.2.resolve_left (by rw [hempty]; decide)
        have hlt := hearly chunk.length (by
          rw [List.length_append] at hle ⊢
          omega)
        rw [List.take_left] at hlt
        exact absurd hfull hlt.ne
      | needMore =>
        obtain ⟨_, _, hplan, hschema, hlexical, hfollowing, hpieces⟩ := hstatus
        rw [← List.append_assoc] at ha
        have hnext := ih hfollowing (ha.congr hplan hschema) hmore (hpieces _ hbom) hpost (by
            rw [hlexical, hplan, List.length_append, ← Nat.add_assoc]
            exact hsilent) (by
            rw [hlexical, hplan, List.length_append, ← Nat.add_assoc]
            exact hloud) (fun n hn => by
            have hlt := hearly (chunk.length + n) (by
              rw [List.length_append]
              omega)
            rw [List.take_length_add_append, ← List.append_assoc] at hlt
            rw [hplan]
            exact hlt) (by
            rw [hplan, List.length_append]
            exact hlen)
        rw [hplan, List.length_append, ← Nat.add_assoc] at hnext
        exact hnext

end RangeDecoder

/-! ## Strict range reads -/

/-- The requested rows and those before them are within the limits. -/
structure RowsFit (o : DelimitedOptions) (source : List UInt8) (request : RangeRequest) :
    Prop where
  fits : ∀ record ∈ (dataRecords o (records o.delimiter (tableBytes source))).take
    (request.rowStart + request.rowCount), Fits o record
  batch : encodedRows request
    (((dataRecords o (records o.delimiter (tableBytes source))).drop request.rowStart).take
      request.rowCount) ≤ o.limits.maxBatchBytes

/-- The number of bytes from the checkpoint of a plan up to the end of its last row. -/
def RangePlan.neededBytes (plan : RangePlan) (d : UInt8) (rest : List UInt8) : ℕ :=
  recordsLength d (plan.request.rowStart + plan.request.rowCount - plan.checkpoint.row) .start rest

/-- After the last row of a plan, the chunk that ends it has no malformed quote. -/
def RangePlan.EndsQuietly (plan : RangePlan) (d : UInt8) (chunks : List (List UInt8)) : Prop :=
  (QuoteTracker.consume d {} 0
    (RangeDecoder.overshoot (plan.neededBytes d chunks.flatten) chunks)).2 = []

namespace CsvScanner

variable {reader : Reader o.delimiter}

/-- What a strict decoder has ahead of it: the bytes `needed` up to the last requested row. -/
structure Reads (decoder : RangeDecoder reader) (rows : List Record)
    (chunks : List (List UInt8)) (needed : List UInt8) : Prop where
  fresh : decoder.readerState = reader.fresh
  following : decoder.Following []
  ahead : decoder.Ahead needed rows
  initial : needed <+: chunks.flatten
  length : needed.length = decoder.plan.neededBytes o.delimiter chunks.flatten
  quotes : (decoder.lexical.consume o.delimiter decoder.plan.sourceOffset needed).2 = []
  closed : needed = chunks.flatten → (decoder.lexical.consume o.delimiter
    decoder.plan.sourceOffset needed).1.unclosedQuoteOffset = none
  full : needed = chunks.flatten ∨ (decoder.plan.window
    (OpenRecord.start.feed o.delimiter needed).1).length = decoder.plan.request.rowCount
  early : ∀ n < needed.length, (decoder.plan.window
    (OpenRecord.start.feed o.delimiter (needed.take n)).1).length < decoder.plan.request.rowCount
  endsQuietly : decoder.plan.EndsQuietly o.delimiter chunks ↔
    (decoder.lexical.consume o.delimiter decoder.plan.sourceOffset
      (needed ++ RangeDecoder.overshoot needed.length chunks)).2 = []

variable {chunks : List (List UInt8)}

/-- A decoder whose text begins with accepted rows needs the bytes up to the last of
    them. -/
theorem reads_of_accepts {decoder : RangeDecoder reader}
    (hfresh : decoder.readerState = reader.fresh) (hfollowing : decoder.Following [])
    (hlexical : decoder.lexical = {}) (hsound : decoder.plan.Sound) {rows : List Record}
    (hrecords : records o.delimiter chunks.flatten = rows.drop decoder.plan.checkpoint.row)
    (haccepts : Accepts o.delimiter decoder.schema.columns.length
      (decoder.plan.request.rowStart + decoder.plan.request.rowCount -
        decoder.plan.checkpoint.row) chunks.flatten)
    (hfits : ∀ record ∈ rows.take (decoder.plan.request.rowStart + decoder.plan.request.rowCount),
      Fits o record)
    (hbatch : encodedRows decoder.plan.request ((rows.drop decoder.plan.request.rowStart).take
      decoder.plan.request.rowCount) ≤ o.limits.maxBatchBytes)
    (hlen : decoder.plan.checkpoint.row + chunks.flatten.length ≤ u64Max) :
    Reads decoder rows chunks
      (chunks.flatten.take (decoder.plan.neededBytes o.delimiter chunks.flatten)) := by
  have hcheckpoint := hsound.checkpoint_le
  have hstop := recordsLength_le (d := o.delimiter) (decoder.plan.request.rowStart +
    decoder.plan.request.rowCount - decoder.plan.checkpoint.row) .start chunks.flatten
  rw [← RangePlan.neededBytes] at hstop
  have hlength : (chunks.flatten.take
      (decoder.plan.neededBytes o.delimiter chunks.flatten)).length =
      decoder.plan.neededBytes o.delimiter chunks.flatten := by
    rw [List.length_take]
    exact min_eq_left hstop
  have htake : records o.delimiter (chunks.flatten.take
      (decoder.plan.neededBytes o.delimiter chunks.flatten)) =
      (rows.take (decoder.plan.request.rowStart + decoder.plan.request.rowCount)).drop
        decoder.plan.checkpoint.row := by
    rw [RangePlan.neededBytes, records_take_recordsLength, hrecords, List.drop_take]
  have hwindow : decoder.plan.window (records o.delimiter (chunks.flatten.take
      (decoder.plan.neededBytes o.delimiter chunks.flatten))) =
      (rows.drop decoder.plan.request.rowStart).take decoder.plan.request.rowCount := by
    rw [htake, RangePlan.window, List.drop_drop, Nat.add_sub_cancel' hcheckpoint, List.drop_take,
      Nat.add_sub_cancel_left, List.take_take, min_self]
  -- The needed bytes end with the last requested record, or with the text.
  have hends := feed_take_recordsLength (d := o.delimiter) (k := decoder.plan.request.rowStart +
    decoder.plan.request.rowCount - decoder.plan.checkpoint.row) (p := .start) (fun _ => rfl)
    chunks.flatten
  rw [← RangePlan.neededBytes] at hends
  obtain ⟨_, huniform, hquotes, hclosed⟩ := haccepts
  refine {
    fresh := hfresh
    following := hfollowing
    ahead := ⟨hsound, hwindow, fun _ => ?_, ?_, ?_, ?_⟩
    initial := List.take_prefix _ _
    length := hlength
    quotes := by
      rw [hlexical]
      exact hquotes _
    closed := fun h => ?_
    full := ?_
    early := fun n hn => ?_
    endsQuietly := ?_ }
  · rw [RangePlan.neededBytes, records_take_recordsLength]
    exact huniform
  · rw [htake]
    exact fun record hrecord => hfits record (List.mem_of_mem_drop hrecord)
  · rw [List.nil_append, hwindow]
    exact hbatch
  · have hcount := length_records_le o.delimiter (chunks.flatten.take
      (decoder.plan.neededBytes o.delimiter chunks.flatten))
    rw [List.nil_append]
    omega
  · rw [h] at hlength
    rw [h, hlexical]
    exact hclosed hlength.symm _
  · rcases hends with ⟨hcount, _⟩ | ⟨hall, _⟩
    · refine .inr ?_
      rw [RangePlan.window, List.length_take, List.length_drop, hcount]
      omega
    · exact .inl (by rw [hall, List.take_length])
  · rw [hlength] at hn
    have hlt := feed_lt_of_lt_recordsLength hn
    have hpos := hsound.pos
    rw [List.take_take, min_eq_left hn.le, RangePlan.window, List.length_take, List.length_drop]
    omega
  · rw [RangePlan.EndsQuietly, QuoteTracker.consume_append, hlexical, RangePlan.neededBytes,
      hquotes, List.nil_append, ← RangePlan.neededBytes, hlength]
    rcases hends with ⟨_, hb⟩ | ⟨hall, _⟩
    · exact (QuoteTracker.consume_startField (state_of_isBoundary (hquotes _) hb) _ _ _).symm
    · rw [hall, RangeDecoder.overshoot_length_flatten]
      exact iff_of_true rfl rfl

variable {plan : RangePlan}

variable {c : CsvScanner reader}

/-- A plan starts in the source. -/
theorem Planned.sourceOffset_add_le {source : ByteSource} (h : c.Planned source.bytes plan) :
    plan.sourceOffset + (source.bytes.drop plan.sourceOffset).length ≤ u64Max := by
  obtain ⟨i, hoffset, hi, _⟩ := h.rowStartsAt
  have hsafe : 3 + maxSafeInteger + maxSafeInteger ≤ u64Max := by decide
  have hsource := source.length_le
  have hbase : tableBase source.bytes ≤ 3 := by
    rw [tableBase]
    split_ifs <;> omega
  rw [tableBytes, List.length_drop] at hi
  rw [List.length_drop]
  omega

variable {request : RangeRequest}

/-- A decoder of accepted rows. -/
theorem exists_reads (hmode : o.mode = .strict) (source : ByteSource)
    (hkeeps : reader.Keeps source.bytes) {pre : List UInt8} (hfed : Fed reader c pre)
    (hpre : pre <+: source.bytes) (hwhole : c.finished = true → pre = source.bytes)
    (hpos : 0 < request.rowCount)
    (hrows : request.rowStart + request.rowCount ≤ c.scan.index.rows)
    (hplan : c.planRange request = .ok plan) (hfit : RowsFit o source.bytes request)
    (hchunks : chunks.flatten = source.bytes.drop plan.sourceOffset) :
    ∃ decoder, c.rangeDecoder plan = .ok decoder ∧ decoder.plan = plan ∧
      Reads decoder (dataRecords o (records o.delimiter (tableBytes source.bytes))) chunks
        (chunks.flatten.take (plan.neededBytes o.delimiter chunks.flatten)) := by
  obtain rfl := (planRange_eq_ok hplan).1
  have hstage := hfed.stage (hkeeps.of_prefix hpre) (hpre.length_le.trans source.length_le)
  have hplanned := hstage.planned hpre hwhole hplan hpos
  have haccepts := hstage.accepts hmode hpre hwhole hplan hpos hrows
  obtain ⟨decoder, hdecoder, rfl, hcolumns, hlexical, hfresh, hfollowing⟩ :=
    rangeDecoder_of_planned hplanned ((Nat.le_add_right _ _).trans hfit.batch)
  obtain ⟨i, hoffset, _, hrecords⟩ := hplanned.rowStartsAt
  rw [← hcolumns, ← hchunks] at haccepts
  refine ⟨decoder, hdecoder, rfl, reads_of_accepts hfresh hfollowing hlexical hplanned.sound ?_
    haccepts hfit.fits hfit.batch ?_⟩
  · rw [← hrecords, hchunks, hoffset, tableBytes, List.drop_drop]
  · have hsafe : maxSafeInteger + maxSafeInteger ≤ u64Max := by decide
    have hsource := source.length_le
    have hcheckpoint := hplanned.sound.checkpoint_le
    have hle := hplanned.sound.rows_le
    rw [hchunks, List.length_drop]
    omega

/-- A request for no rows is answered at once. -/
theorem read_of_rowCount_eq_zero (source : ByteSource) (hkeeps : reader.Keeps source.bytes)
    {pre : List UInt8} (hfed : Fed reader c pre)
    (hpre : pre <+: source.bytes) (hwhole : c.finished = true → pre = source.bytes)
    (hzero : request.rowCount = 0)
    (hrows : request.rowStart + request.rowCount ≤ c.scan.index.rows)
    (hplan : c.planRange request = .ok plan) (hfit : RowsFit o source.bytes request)
    (chunks : List (List UInt8)) :
    ∃ decoder batch, c.rangeDecoder plan = .ok decoder ∧
      decoder.read plan.sourceOffset chunks = .ok batch ∧ batch.complete = true ∧
      Shows batch request (dataRecords o (records o.delimiter (tableBytes source.bytes))) := by
  have hstage := hfed.stage (hkeeps.of_prefix hpre) (hpre.length_le.trans source.length_le)
  obtain ⟨rfl, hpublic, hcolumns, _, _⟩ := planRange_eq_ok hplan
  obtain ⟨schema, hschema, heq, hmax⟩ := hstage.schema
  have hle := hstage.rows_le hpre hwhole
  have hrowsLe := (RangeRequest.le_of_validatePublic hpublic).1
  obtain ⟨decoder, hdecoder, hsame, _, _, _, hdecodes⟩ := rangeDecoder_eq hschema
    (hcolumns.trans hmax) (heq ▸ hcolumns) ((Nat.le_add_right _ _).trans hfit.batch)
  obtain rfl := hsame
  have hwindow : decoder.plan.window [] = [] := by
    rw [RangePlan.window, List.drop_nil, List.take_nil]
  have hreturned : decoder.decode.returnedRows = 0 := by
    rw [hdecodes.returnedRows, hwindow]
    rfl
  have hdone : decoder.decode.done = true := by
    rw [hdecodes.done, hwindow, hzero]
    rfl
  obtain ⟨batch, hbatch, hshows⟩ := @RangeDecoder.buildBatch_of_answers _ _ decoder hrowsLe
    (hcolumns.trans hmax) _ [] (dataRecords o (records o.delimiter (tableBytes source.bytes)))
    (fun _ => by omega) (by rw [hwindow, hzero, List.take_zero])
    ⟨hdecodes.builders, hdecodes.returnedRows⟩
  rw [decide_eq_true (hreturned.trans hzero.symm)] at hbatch
  refine ⟨decoder, batch, hdecoder, ?_, hshows.complete.2 (by omega), hshows⟩
  rw [RangeDecoder.read, RangeDecoder.immediateBatch, if_pos ⟨hdone, hreturned, hzero⟩, hbatch]
  rfl

/-- A decoder with rows to read is fed the chunks. -/
theorem Reads.read_eq {decoder : RangeDecoder reader} {rows : List Record}
    {needed : List UInt8} (h : Reads decoder rows chunks needed)
    (offset : ℕ) : decoder.read offset chunks = decoder.decodeChunks offset chunks := by
  rw [RangeDecoder.read, RangeDecoder.immediateBatch, h.following.done,
    if_neg fun hdone => absurd hdone.1 Bool.false_ne_true]
  rfl

/-- A range of rows that a strict scanner has accepted is read if and only if no malformed
    quote follows its last row in the chunk that ends it. -/
theorem read_strict_iff (hmode : o.mode = .strict) (source : ByteSource)
    (hkeeps : reader.Keeps source.bytes) {c : CsvScanner reader} {pre : List UInt8}
    (hfed : Fed reader c pre) (hpre : pre <+: source.bytes)
    (hwhole : c.finished = true → pre = source.bytes)
    {request : RangeRequest} (hrows : request.rowStart + request.rowCount ≤ c.scan.index.rows)
    {plan : RangePlan} (hplan : c.planRange request = .ok plan)
    (hfit : RowsFit o source.bytes request) {chunks : List (List UInt8)} (hne : chunks ≠ [])
    (hbom : reader.KeepsPieces reader.fresh chunks)
    (hchunks : chunks.flatten = source.bytes.drop plan.sourceOffset) :
    (∃ decoder batch, c.rangeDecoder plan = .ok decoder ∧
      decoder.read plan.sourceOffset chunks = .ok batch ∧ batch.complete = true ∧
      Shows batch request (dataRecords o (records o.delimiter (tableBytes source.bytes)))) ↔
    request.rowCount = 0 ∨ plan.EndsQuietly o.delimiter chunks := by
  by_cases hzero : request.rowCount = 0
  · exact iff_of_true (read_of_rowCount_eq_zero source hkeeps hfed hpre hwhole hzero hrows hplan
      hfit chunks) (.inl hzero)
  · have hstage := hfed.stage (hkeeps.of_prefix hpre) (hpre.length_le.trans source.length_le)
    have hle := hstage.rows_le hpre hwhole
    obtain ⟨decoder, hdecoder, rfl, hreads⟩ := exists_reads hmode source hkeeps hfed hpre hwhole
      (Nat.pos_of_ne_zero hzero) hrows hplan hfit hchunks
    obtain rfl := (planRange_eq_ok hplan).1
    rw [← hreads.fresh] at hbom
    have hlen : decoder.plan.sourceOffset + ([] ++ chunks.flatten).length ≤ u64Max := by
      rw [List.nil_append, hchunks]
      exact (hstage.planned hpre hwhole hplan (Nat.pos_of_ne_zero hzero)).sourceOffset_add_le
    rw [or_iff_right hzero, hreads.endsQuietly]
    constructor
    · rintro ⟨decoder', batch, hdecoder', hread, _⟩
      obtain rfl : decoder = decoder' := by
        rw [hdecoder] at hdecoder'
        exact Except.ok.inj hdecoder'
      by_contra hloud
      obtain ⟨e, herror, _⟩ := decoder.decodeChunks_of_overshoot hreads.following
        hreads.ahead hmode hne hbom hreads.initial hreads.quotes hloud hreads.early hlen
      rw [hreads.read_eq] at hread
      exact absurd (herror.symm.trans hread) nofun
    · intro hquiet
      obtain ⟨batch, hbatch, hshows⟩ := decoder.decodeChunks_of_following hreads.following
        hreads.ahead hne hbom hreads.initial hreads.full (fun _ => hquiet)
        (fun _ => hreads.closed) hlen
      exact ⟨decoder, batch, hdecoder, (hreads.read_eq _).trans hbatch,
        hshows.complete.2 (by omega), hshows⟩

/-- Two good rows and a row with a malformed quote. -/
def lateQuote : ByteSource := ⟨asciiBytes "a\nb\n\"x\"y\n", by decide⟩

/-- A strict scan of the two good rows, a plan and its decoder. -/
def scanGoodRows (request : RangeRequest) : Result
    (CsvScanner (o := headless .strict) (.reference 44 true) × RangePlan ×
      RangeDecoder (o := headless .strict) (.reference 44 true)) := do
  let c ← new _
  let fed ← c.feedChunk 0 (lateQuote.bytes.take 4) false
  let plan ← fed.1.planRange request
  let decoder ← fed.1.rangeDecoder plan
  .ok (fed.1, plan, decoder)

theorem scanGoodRows_eq_ok {c : CsvScanner (o := headless .strict) (.reference 44 true)}
    {decoder : RangeDecoder (o := headless .strict) (.reference 44 true)}
    (h : scanGoodRows request = .ok (c, plan, decoder)) :
    Fed _ c (lateQuote.bytes.take 4) ∧ c.planRange request = .ok plan ∧
      c.rangeDecoder plan = .ok decoder := by
  obtain ⟨c₀, hnew, h⟩ := Result.bind_eq_ok.1 h
  obtain ⟨⟨c₁, update⟩, hfeed, h⟩ := Result.bind_eq_ok.1 h
  obtain ⟨plan', hplan, h⟩ := Result.bind_eq_ok.1 h
  obtain ⟨decoder', hdecoder, h⟩ := Result.bind_eq_ok.1 h
  cases h
  exact ⟨.feed (.new hnew) hfeed, hplan, hdecoder⟩

/-- The second of the accepted rows, with the quote after it in the next chunk. -/
theorem read_strict_iff_nextChunk :
    ∃ (c : CsvScanner (o := headless .strict) (.reference 44 true)) (plan : RangePlan)
      (decoder : _) (batch : TableBatch), c.planRange ⟨1, 1, 0, 1⟩ = .ok plan ∧
      c.rangeDecoder plan = .ok decoder ∧
      decoder.read plan.sourceOffset [asciiBytes "a\nb\n", asciiBytes "\"x\"y\n"] = .ok batch ∧
      batch.complete = true := by
  obtain ⟨⟨c, plan, decoder⟩, h⟩ : ∃ p, scanGoodRows ⟨1, 1, 0, 1⟩ = .ok p := ⟨_, rfl⟩
  have hfacts : (scanGoodRows ⟨1, 1, 0, 1⟩).map (fun p => (p.1.finished, p.1.scan.index.rows,
      p.2.1.checkpoint.row, p.2.1.sourceOffset)) = .ok (false, 2, 0, 0) := rfl
  rw [h] at hfacts
  have hfacts : (c.finished, c.scan.index.rows, plan.checkpoint.row, plan.sourceOffset) =
    (false, 2, 0, 0) := Except.ok.inj hfacts
  obtain ⟨hfed, hplan, hdecoder⟩ := scanGoodRows_eq_ok h
  simp only [Prod.mk.injEq] at hfacts
  obtain ⟨hfinished, hrows, hcheckpoint, hoffset⟩ := hfacts
  have hle : (⟨1, 1, 0, 1⟩ : RangeRequest).rowStart + (⟨1, 1, 0, 1⟩ : RangeRequest).rowCount ≤
    c.scan.index.rows := hrows.ge
  have hquiet : plan.EndsQuietly 44 [asciiBytes "a\nb\n", asciiBytes "\"x\"y\n"] := by
    rw [RangePlan.EndsQuietly, RangePlan.neededBytes, (planRange_eq_ok hplan).1, hcheckpoint]
    decide
  obtain ⟨decoder', batch, hdecoder', hread, hcomplete, _⟩ := (read_strict_iff rfl lateQuote
    (fun _ => by decide) hfed (List.take_prefix _ _) (by rw [hfinished]; exact nofun) hle hplan
    ⟨by unfold Fits; decide, by decide⟩ (List.cons_ne_nil _ _)
    (Reader.keepsPieces_of_flatten fun hd => absurd hd.2.2 (by decide)) (by rw [hoffset]; rfl)).2
    (.inr hquiet)
  exact ⟨c, plan, decoder', batch, hplan, hdecoder', hread, hcomplete⟩

/-- The first of the accepted rows, with the quote after them in the same chunk. -/
theorem read_parseFailed_sameChunk :
    ∃ (c : CsvScanner (o := headless .strict) (.reference 44 true)) (plan : RangePlan)
      (decoder : _) (e : TabularkError), Fed _ c (lateQuote.bytes.take 4) ∧
      c.finished = false ∧ c.scan.index.rows = 2 ∧ c.planRange ⟨0, 1, 0, 1⟩ = .ok plan ∧
      c.rangeDecoder plan = .ok decoder ∧ plan.sourceOffset = 0 ∧
      decoder.read plan.sourceOffset [lateQuote.bytes] = .error e ∧ e.code = .parseFailed := by
  obtain ⟨⟨c, plan, decoder⟩, h⟩ : ∃ p, scanGoodRows ⟨0, 1, 0, 1⟩ = .ok p := ⟨_, rfl⟩
  have hfacts : (scanGoodRows ⟨0, 1, 0, 1⟩).map (fun p => (p.1.finished, p.1.scan.index.rows,
      p.2.1.sourceOffset)) = .ok (false, 2, 0) := rfl
  have hread : ∃ e, (scanGoodRows ⟨0, 1, 0, 1⟩ >>= fun p =>
      p.2.2.read p.2.1.sourceOffset [lateQuote.bytes]) = .error e ∧ e.code = .parseFailed :=
    ⟨_, rfl, rfl⟩
  rw [h] at hfacts hread
  have hfacts : (c.finished, c.scan.index.rows, plan.sourceOffset) = (false, 2, 0) :=
    Except.ok.inj hfacts
  simp only [Prod.mk.injEq] at hfacts
  obtain ⟨hfinished, hrows, hoffset⟩ := hfacts
  obtain ⟨hfed, hplan, hdecoder⟩ := scanGoodRows_eq_ok h
  obtain ⟨e, hread, he⟩ := hread
  exact ⟨c, plan, decoder, e, hfed, hfinished, hrows, hplan, hdecoder, hoffset, hread, he⟩

end CsvScanner

end Tabulark.Csv
