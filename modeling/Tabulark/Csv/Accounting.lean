import Mathlib
import Tabulark.Csv.RangeRead

/-!
# The bytes of a batch

A decoder counts the bytes of its batch as it pushes values: the value, four
bytes for its offset, and one validity byte for every eighth value. `Accounted`
says that the count is the size of the columns. It is kept by whatever can
happen to a decoder (`Step`), in any order and also by a row that is pushed
into some of the columns only, so it holds in every state of a run.
-/

namespace Tabulark

/-! ## The size of a column -/

namespace StringColumnBuilder

/-- The bytes of a column: its data, four for each offset, and its validity. -/
def encodedSize (b : StringColumnBuilder) : ℕ :=
  b.data.length + 4 * b.offsets.length + b.validity.length

/-- The column holds values that are valid UTF-8. -/
def Sound (b : StringColumnBuilder) : Prop :=
  ∃ held, b.Holds held ∧ ∀ bytes, some bytes ∈ held → Utf8.isValid bytes

theorem sound_new (columnId : String) : Sound { columnId } := ⟨[], holds_nil columnId, nofun⟩

variable {b : StringColumnBuilder}

theorem Holds.encodedSize_eq {held : List (Option (List UInt8))} (h : b.Holds held) :
    b.encodedSize = (flat held).length + 4 * (held.length + 1) + (held.length + 7) / 8 := by
  rw [encodedSize, h.data, h.offsets, h.length_validity, List.length_map, List.length_range]

theorem Sound.pushed (h : b.Sound) {value : Option (List UInt8)}
    (hvalue : ∀ bytes, value = some bytes → Utf8.isValid bytes) : (b.pushed value).Sound := by
  obtain ⟨held, hheld, hutf8⟩ := h
  refine ⟨held ++ [value], holds_pushed hheld value, fun bytes hbytes => ?_⟩
  rcases List.mem_append.1 hbytes with hbytes | hbytes
  · exact hutf8 bytes hbytes
  · exact hvalue bytes (List.mem_singleton.1 hbytes).symm

/-- A pushed value takes the bytes that it is charged. -/
theorem Sound.encodedSize_pushed (h : b.Sound) (value : Option (List UInt8)) :
    (b.pushed value).encodedSize = b.encodedSize + encodedBytes b.values value := by
  obtain ⟨held, hheld, -⟩ := h
  have hflat : (flat (held ++ [value])).length = (flat held).length + (value.getD []).length := by
    rw [flat_append, List.length_append]
    simp [flat]
  rw [(holds_pushed hheld value).encodedSize_eq, hheld.encodedSize_eq, hflat, List.length_append,
    List.length_singleton, encodedBytes, hheld.values]
  split_ifs <;> omega

end StringColumnBuilder

/-- The bytes of a finished column. -/
def StringColumnBatch.encodedSize (c : StringColumnBatch) : ℕ :=
  c.data.length + 4 * c.offsets.length + c.validity.length

/-- The bytes of the columns of a batch. -/
def TableBatch.encodedSize (b : TableBatch) : ℕ := (b.columns.map (·.encodedSize)).sum

/-- A sound column is finished without an error, as it is. -/
theorem StringColumnBuilder.Sound.finish {b : StringColumnBuilder} (h : b.Sound) :
    ∃ column, b.finish = .ok column ∧ column.encodedSize = b.encodedSize := by
  obtain ⟨held, hheld, hutf8⟩ := h
  obtain ⟨column, hfinish, -⟩ := finish_of_holds hheld hutf8
  refine ⟨column, hfinish, ?_⟩
  rw [StringColumnBuilder.finish, StringColumnBatch.new] at hfinish
  split_ifs at hfinish
  cases hfinish
  rfl

theorem mapM_finish_of_sound {bs : List StringColumnBuilder} (h : ∀ b ∈ bs, b.Sound) :
    ∃ columns, bs.mapM StringColumnBuilder.finish = .ok columns ∧
      (columns.map (·.encodedSize)).sum = (bs.map (·.encodedSize)).sum := by
  induction bs with
  | nil => exact ⟨[], rfl, rfl⟩
  | cons b bs ih =>
    obtain ⟨column, hcolumn, hsize⟩ := (h b List.mem_cons_self).finish
    obtain ⟨columns, hcolumns, hsum⟩ := ih fun b hb => h b (List.mem_cons_of_mem _ hb)
    refine ⟨column :: columns, ?_, ?_⟩
    · rw [List.mapM_cons, hcolumn, Result.ok_bind, hcolumns]
      rfl
    · rw [List.map_cons, List.sum_cons, hsize, hsum, List.map_cons, List.sum_cons]

namespace Csv

variable {o : DelimitedOptions}

/-! ## What keeps the count -/

namespace DecodeState

/-- The columns of a decoder can be finished, and its count of their bytes is exact. -/
structure Accounted (s : DecodeState o) : Prop where
  builders : ∀ b ∈ s.builders, b.Sound
  selected : ∀ value ∈ s.selectedValues, Utf8.isValid value
  batchBytes : s.batchBytes = (s.builders.map (·.encodedSize)).sum
  batchBytes_le : s.batchBytes ≤ o.limits.maxBatchBytes

/-- What can happen to a decoder, one operation at a time: the reader loop does nothing else.
    A row may be pushed into the first columns only. -/
inductive Step (plan : RangePlan) (schema : Schema) : DecodeState o → DecodeState o → Prop
  | handleDiagnostic {s s' : DecodeState o} {diagnostic : CsvDiagnostic} :
    s.handleDiagnostic diagnostic = .ok s' → Step plan schema s s'
  | appendField {s s' : DecodeState o} {bytes : List UInt8} :
    s.appendField bytes = .ok s' → Step plan schema s s'
  | setOffset (s : DecodeState o) (expectedOffset : ℕ) :
    Step plan schema s { s with expectedOffset }
  | finishField {s s' : DecodeState o} : s.finishField plan = .ok s' → Step plan schema s s'
  | pushColumns {s : DecodeState o} {columns : ℕ} {builders : List StringColumnBuilder}
    {batchBytes : ℕ} : pushRow o.limits.maxBatchBytes s.builders
      ((s.selectedValues.zip s.selectedValid).take columns) s.batchBytes =
        .ok (builders, batchBytes) →
    Step plan schema s { s with builders, batchBytes }
  | finishRecord {s s' : DecodeState o} :
    s.finishRecord plan schema = .ok s' → Step plan schema s s'

/-- The second state comes after the first in a run. -/
abbrev Reaches (plan : RangePlan) (schema : Schema) : DecodeState o → DecodeState o → Prop :=
  Relation.ReflTransGen (Step plan schema)

/-- Whatever part of a row is pushed, the count grows by the bytes of the columns. -/
theorem pushRow_accounted {bs bs' : List StringColumnBuilder} {cells : List (List UInt8 × Bool)}
    {n n' maxBatchBytes : ℕ} (hbs : ∀ b ∈ bs, b.Sound) (hcells : ∀ c ∈ cells, Utf8.isValid c.1)
    (hn : n ≤ maxBatchBytes) (h : pushRow maxBatchBytes bs cells n = .ok (bs', n')) :
    (∀ b ∈ bs', b.Sound) ∧ n' ≤ maxBatchBytes ∧
      (bs'.map (·.encodedSize)).sum + n = (bs.map (·.encodedSize)).sum + n' := by
  induction bs generalizing cells n bs' n' with
  | nil =>
    cases cells <;> cases h <;> exact ⟨hbs, hn, rfl⟩
  | cons b bs ih =>
    cases cells with
    | nil =>
      cases h
      exact ⟨hbs, hn, rfl⟩
    | cons c cells =>
      obtain ⟨⟨b₁, n₁⟩, hpush, h⟩ := Result.bind_eq_ok.1 h
      obtain ⟨⟨bs₁, n₂⟩, hrest, h⟩ := Result.bind_eq_ok.1 h
      cases h
      obtain ⟨rfl, hcharged, hle⟩ := StringColumnBuilder.push_eq_ok hpush
      have hb := hbs b List.mem_cons_self
      have hcell : ∀ bytes, cellValue c = some bytes → Utf8.isValid bytes := by
        intro bytes hbytes
        rw [cellValue] at hbytes
        split_ifs at hbytes
        cases hbytes
        exact hcells c List.mem_cons_self
      obtain ⟨hsound, hle', hsum⟩ := ih (fun b hb => hbs b (List.mem_cons_of_mem _ hb))
        (fun c hc => hcells c (List.mem_cons_of_mem _ hc)) hle hrest
      refine ⟨List.forall_mem_cons.2 ⟨hb.pushed hcell, hsound⟩, hle', ?_⟩
      have hsize := hb.encodedSize_pushed (cellValue c)
      rw [List.map_cons, List.sum_cons, List.map_cons, List.sum_cons, hsize]
      dsimp only
      omega

namespace Accounted

variable {s s' : DecodeState o} {plan : RangePlan} {schema : Schema}

/-- A decoder that keeps its columns and its count, and selects valid values. -/
theorem congr (h : s.Accounted) (hbuilders : s'.builders = s.builders)
    (hbytes : s'.batchBytes = s.batchBytes)
    (hselected : ∀ value ∈ s'.selectedValues, Utf8.isValid value) : s'.Accounted where
  builders := hbuilders ▸ h.builders
  selected := hselected
  batchBytes := by rw [hbytes, hbuilders, h.batchBytes]
  batchBytes_le := hbytes ▸ h.batchBytes_le

theorem handleDiagnostic (h : s.Accounted) {diagnostic : CsvDiagnostic}
    (hs : s.handleDiagnostic diagnostic = .ok s') : s'.Accounted := by
  obtain ⟨diagnostics, _, hs⟩ := Result.bind_eq_ok.1 hs
  cases hs
  exact h.congr rfl rfl h.selected

theorem appendField (h : s.Accounted) {bytes : List UInt8} (hs : s.appendField bytes = .ok s') :
    s'.Accounted := by
  obtain ⟨field, _, hs⟩ := Result.bind_eq_ok.1 hs
  cases hs
  exact h.congr rfl rfl h.selected

theorem finishField (h : s.Accounted) (hs : s.finishField plan = .ok s') : s'.Accounted := by
  obtain ⟨fieldIndex, _, hs⟩ := Result.bind_eq_ok.1 hs
  split_ifs at hs
  obtain ⟨start, _, hs⟩ := Result.bind_eq_ok.1 hs
  obtain ⟨requested, _, hs⟩ := Result.bind_eq_ok.1 hs
  dsimp only at hs
  have hset : ∀ {values : List (List UInt8)} {i : ℕ} {field : List UInt8},
      (∀ value ∈ values, Utf8.isValid value) → Utf8.isValid field →
      ∀ value ∈ values.set i field, Utf8.isValid value := by
    intro values i field hvalues hfield value hvalue
    rcases List.mem_or_eq_of_mem_set hvalue with hvalue | rfl
    · exact hvalues value hvalue
    · exact hfield
  by_cases hkeep : (requested && decide (start ≤ fieldIndex - 1) &&
      decide (fieldIndex - 1 < start + s.selectedValues.length)) = true
  · rw [if_pos hkeep] at hs
    by_cases hvalid : Utf8.isValid s.field.1 = true
    · rw [if_pos hvalid] at hs
      cases hs
      refine h.congr rfl rfl (hset h.selected ?_)
      rwa [if_pos hvalid]
    · rw [if_neg hvalid] at hs
      obtain ⟨s₁, h₁, hs⟩ := Result.bind_eq_ok.1 hs
      cases hs
      have hfield : ({ s with fieldIndex } : DecodeState o).Accounted :=
        h.congr rfl rfl h.selected
      have hs₁ := hfield.handleDiagnostic h₁
      refine hs₁.congr rfl rfl (hset hs₁.selected ?_)
      rw [if_neg hvalid]
      exact Utf8.isValid_lossy _
  · rw [if_neg hkeep] at hs
    cases hs
    exact h.congr rfl rfl h.selected

theorem pushColumns (h : s.Accounted) {columns : ℕ} {builders : List StringColumnBuilder}
    {batchBytes : ℕ} (hpush : pushRow o.limits.maxBatchBytes s.builders
      ((s.selectedValues.zip s.selectedValid).take columns) s.batchBytes =
        .ok (builders, batchBytes)) :
    ({ s with builders, batchBytes } : DecodeState o).Accounted := by
  have hcells : ∀ c ∈ (s.selectedValues.zip s.selectedValid).take columns, Utf8.isValid c.1 :=
    fun c hc => h.selected c.1 (List.of_mem_zip (List.mem_of_mem_take hc)).1
  obtain ⟨hsound, hle, hsum⟩ := pushRow_accounted h.builders hcells h.batchBytes_le hpush
  refine ⟨hsound, h.selected, ?_, hle⟩
  have hbytes := h.batchBytes
  dsimp only
  omega

theorem finishRecord (h : s.Accounted) (hs : s.finishRecord plan schema = .ok s') :
    s'.Accounted := by
  obtain ⟨s₁, hragged, hs⟩ := Result.bind_eq_ok.1 hs
  obtain ⟨s₂, hreturn, hs⟩ := Result.bind_eq_ok.1 hs
  obtain ⟨currentRow, _, hs⟩ := Result.bind_eq_ok.1 hs
  cases hs
  have h₁ : s₁.Accounted := by
    rw [reportRagged] at hragged
    split_ifs at hragged
    · exact h.handleDiagnostic hragged
    · cases hragged
      exact h
  have h₂ : s₂.Accounted := by
    obtain ⟨requested, _, hreturn⟩ := Result.bind_eq_ok.1 hreturn
    split_ifs at hreturn
    · obtain ⟨⟨builders, batchBytes⟩, hpush, hreturn⟩ := Result.bind_eq_ok.1 hreturn
      cases hreturn
      have hall := List.take_length (l := s₁.selectedValues.zip s₁.selectedValid)
      rw [← hall] at hpush
      exact (h₁.pushColumns hpush).congr rfl rfl h₁.selected
    · cases hreturn
      exact h₁
  refine h₂.congr rfl rfl fun value hvalue => ?_
  obtain ⟨_, _, rfl⟩ := List.mem_map.1 hvalue
  exact Utf8.isValid_nil

/-- Every operation keeps the count exact. -/
theorem step (h : s.Accounted) (hstep : Step plan schema s s') : s'.Accounted := by
  cases hstep with
  | handleDiagnostic hs => exact h.handleDiagnostic hs
  | appendField hs => exact h.appendField hs
  | setOffset expectedOffset => exact h.congr rfl rfl h.selected
  | finishField hs => exact h.finishField hs
  | pushColumns hpush => exact h.pushColumns hpush
  | finishRecord hs => exact h.finishRecord hs

theorem reaches (h : s.Accounted) (hs : Reaches plan schema s s') : s'.Accounted := by
  induction hs with
  | refl => exact h
  | tail _ hstep ih => exact ih.step hstep

end Accounted

end DecodeState

/-! ## Runs of a decoder -/

namespace RangeDecoder

open DecodeState

variable {reader : Reader o.delimiter} {plan : RangePlan} {schema : Schema}

/-- A decoder that was fed some slices and wants more. -/
inductive FedFrom (start : RangeDecoder reader) : RangeDecoder reader → Prop
  | start : FedFrom start start
  | feed {r r' : RangeDecoder reader} {offset : ℕ} {bytes : List UInt8} {eof : Bool} :
    FedFrom start r → r.feedChunk offset bytes eof = .ok (r', .needMore) → FedFrom start r'

/-- The decoder returns the batch, at once or when it is fed a slice. -/
def Returns (r : RangeDecoder reader) (batch : TableBatch) : Prop :=
  r.immediateBatch = .ok (some batch) ∨
    ∃ offset bytes eof r', r.feedChunk offset bytes eof = .ok (r', .complete batch)

variable {r : RangeDecoder reader}

/-- A new decoder counts the first offset of every column. The slice of the schema's columns
    aborts the constructor where it is out of bounds. -/
theorem accounted_new (h : new reader plan schema = .ok r)
    (hslice : plan.request.columnStart + plan.request.columnCount ≤ schema.columns.length) :
    r.decode.Accounted := by
  obtain ⟨selected, hselected, h⟩ := Result.bind_eq_ok.1 h
  obtain ⟨start, hstart, h⟩ := Result.bind_eq_ok.1 h
  obtain ⟨batchBytes, hbytes, h⟩ := Result.bind_eq_ok.1 h
  split_ifs at h with hle
  cases h
  obtain rfl := toUsize_eq_ok hselected
  obtain rfl := toUsize_eq_ok hstart
  have hcount : batchBytes = plan.request.columnCount * 4 := by
    rw [checkedMul] at hbytes
    split_ifs at hbytes
    cases hbytes
    rfl
  refine ⟨?_, ?_, ?_, not_lt.1 hle⟩
  · intro b hb
    obtain ⟨column, _, rfl⟩ := List.mem_map.1 hb
    exact StringColumnBuilder.sound_new column.id
  · intro value hvalue
    rw [List.eq_of_mem_replicate hvalue]
    exact Utf8.isValid_nil
  · have hfour : ((·.encodedSize) ∘ fun column : ColumnSchema =>
        ({ columnId := column.id } : StringColumnBuilder)) = Function.const _ 4 := rfl
    dsimp only
    rw [List.map_map, hfour, List.map_const, List.sum_replicate_nat,
      List.length_take, List.length_drop, hcount]
    congr 1
    omega

variable {s₀ s s' : DecodeState o}

/-- What the reader loop does to a decoder are steps. -/
theorem reaches_endField {recordEnd : Bool} (hs : Reaches plan schema s₀ s)
    (h : (decodeHandler o plan schema).endField s recordEnd = .ok s') :
    Reaches plan schema s₀ s' := by
  obtain ⟨s₁, hfield, h⟩ := Result.bind_eq_ok.1 h
  have hs₁ := hs.tail (.finishField hfield)
  split_ifs at h
  · exact hs₁.tail (.finishRecord h)
  · cases h
    exact hs₁

theorem reaches_reportQuotes {issues : List QuoteIssue}
    (hs : Reaches plan schema s₀ s) (h : reportQuotes s issues = .ok s') :
    Reaches plan schema s₀ s' := by
  induction issues generalizing s with
  | nil =>
    cases h
    exact hs
  | cons issue issues ih =>
    obtain ⟨s₁, hissue, h⟩ := Result.bind_eq_ok.1 h
    exact ih (hs.tail (.handleDiagnostic hissue)) h

theorem reaches_drive {turns : ℕ} {st st' : reader.State}
    {input : List UInt8} (hs : Reaches plan schema s₀ s)
    (h : drive reader (decodeHandler o plan schema) turns st s input = .ok (st', s')) :
    Reaches plan schema s₀ s' :=
  drive_keeps (P := Reaches plan schema s₀) (fun _ _ _ hs happ => hs.tail (.appendField happ))
    (fun _ _ hs => hs.tail (.setOffset _ _)) (fun _ _ _ => reaches_endField) hs h

variable {batch : TableBatch}

/-- The batch at the end of the file is built from a state of the run. -/
theorem reaches_finishEof {s₀ : DecodeState o}
    (hs : Reaches r.plan r.schema s₀ r.decode) (h : r.finishEof = .ok batch) :
    ∃ s complete, Reaches r.plan r.schema s₀ s ∧ r.buildBatch s complete = .ok batch := by
  obtain ⟨s₁, hunclosed, h⟩ := Result.bind_eq_ok.1 h
  obtain ⟨⟨stopped, s₂⟩, hdrive, h⟩ := Result.bind_eq_ok.1 h
  have hs₁ : Reaches r.plan r.schema s₀ s₁ := by
    rw [reportUnclosed] at hunclosed
    split at hunclosed
    · exact hs.tail (.handleDiagnostic hunclosed)
    · cases hunclosed
      exact hs
  refine ⟨s₂, _, ?_, h⟩
  exact driveEof_keeps (P := Reaches r.plan r.schema s₀)
    (fun _ _ _ hs happ => hs.tail (.appendField happ))
    (fun _ _ _ => reaches_endField) hs₁ hdrive

/-- A slice leads to a state of the run, and what it returns is built from one. -/
theorem reaches_feedChunk {r r' : RangeDecoder reader} {s₀ : DecodeState o} {offset : ℕ}
    {bytes : List UInt8} {eof : Bool} {status : RangeDecodeStatus}
    (hs : Reaches r.plan r.schema s₀ r.decode)
    (h : r.feedChunk offset bytes eof = .ok (r', status)) :
    match (motive := RangeDecodeStatus → Prop) status with
    | .needMore => r'.plan = r.plan ∧ r'.schema = r.schema ∧ Reaches r.plan r.schema s₀ r'.decode
    | .complete batch =>
      ∃ s complete, Reaches r.plan r.schema s₀ s ∧ r.buildBatch s complete = .ok batch := by
  rw [feedChunk] at h
  by_cases hdone : r.decode.done = true
  · rw [if_pos hdone] at h
    cases h
  rw [if_neg hdone] at h
  by_cases hoffset : offset ≠ r.decode.expectedOffset
  · rw [if_pos hoffset] at h
    cases h
  rw [if_neg hoffset] at h
  obtain ⟨s₁, hquotes, h⟩ := Result.bind_eq_ok.1 h
  obtain ⟨⟨st, s₂⟩, hdrive, h⟩ := Result.bind_eq_ok.1 h
  have hs₂ := reaches_drive (reaches_reportQuotes hs hquotes) hdrive
  dsimp only at h
  split_ifs at h
  · obtain ⟨batch, hbatch, h⟩ := Result.bind_eq_ok.1 h
    cases h
    exact ⟨s₂, true, hs₂, hbatch⟩
  · obtain ⟨batch, hbatch, h⟩ := Result.bind_eq_ok.1 h
    cases h
    obtain ⟨s, complete, hs, hbuild⟩ := reaches_finishEof (r := _) hs₂ hbatch
    exact ⟨s, complete, hs, hbuild⟩
  · cases h
    exact ⟨rfl, rfl, hs₂⟩

/-- What a run comes to: its state is one that steps lead to. -/
theorem FedFrom.reaches {start r : RangeDecoder reader} (h : start.FedFrom r) :
    r.plan = start.plan ∧ r.schema = start.schema ∧
      Reaches start.plan start.schema start.decode r.decode := by
  induction h with
  | start => exact ⟨rfl, rfl, .refl⟩
  | feed _ hfeed ih =>
    obtain ⟨hplan, hschema, hs⟩ := ih
    rw [← hplan, ← hschema] at hs ⊢
    exact reaches_feedChunk hs hfeed

/-- A batch is built from a state of the run. -/
theorem Returns.reaches {s₀ : DecodeState o}
    (hs : Reaches r.plan r.schema s₀ r.decode) (h : r.Returns batch) :
    ∃ s complete, Reaches r.plan r.schema s₀ s ∧ r.buildBatch s complete = .ok batch := by
  rcases h with h | ⟨offset, bytes, eof, r', h⟩
  · rw [immediateBatch] at h
    split_ifs at h
    · obtain ⟨batch', hbatch, h⟩ := Result.bind_eq_ok.1 h
      cases h
      exact ⟨r.decode, true, hs, hbatch⟩
    · cases h
  · exact reaches_feedChunk hs h

/-- A batch has the columns of its state. -/
theorem encodedSize_of_buildBatch {s : DecodeState o} {complete : Bool}
    (hs : s.Accounted) (h : r.buildBatch s complete = .ok batch) :
    batch.encodedSize = s.batchBytes := by
  obtain ⟨range, _, h⟩ := Result.bind_eq_ok.1 h
  obtain ⟨columns, hcolumns, h⟩ := Result.bind_eq_ok.1 h
  cases h
  obtain ⟨columns', hfinish, hsum⟩ := mapM_finish_of_sound hs.builders
  obtain rfl := Except.ok.inj (hcolumns.symm.trans hfinish)
  rw [TableBatch.encodedSize, hsum, hs.batchBytes]

/-- The count of a decoder is exact and within the limit after every operation of every run, its
    columns can always be finished, and so a returned batch is within the limit. -/
theorem batch_bytes_exact {start : RangeDecoder reader} (hnew : new reader plan schema = .ok start)
    (hslice : plan.request.columnStart + plan.request.columnCount ≤ schema.columns.length) :
    (∀ s, Reaches plan schema start.decode s →
      s.batchBytes = (s.builders.map (·.encodedSize)).sum ∧
      s.batchBytes ≤ o.limits.maxBatchBytes ∧
      ∃ columns, s.builders.mapM StringColumnBuilder.finish = .ok columns) ∧
    ∀ r, start.FedFrom r →
      Reaches plan schema start.decode r.decode ∧
      ∀ batch, r.Returns batch → ∃ s complete, Reaches plan schema start.decode s ∧
        r.buildBatch s complete = .ok batch ∧
        batch.encodedSize = s.batchBytes ∧ batch.encodedSize ≤ o.limits.maxBatchBytes := by
  have hstart := accounted_new hnew hslice
  have hown : start.plan = plan ∧ start.schema = schema := by
    obtain ⟨_, _, hnew⟩ := Result.bind_eq_ok.1 hnew
    obtain ⟨_, _, hnew⟩ := Result.bind_eq_ok.1 hnew
    obtain ⟨_, _, hnew⟩ := Result.bind_eq_ok.1 hnew
    split_ifs at hnew
    cases hnew
    exact ⟨rfl, rfl⟩
  obtain ⟨rfl, rfl⟩ := hown
  refine ⟨fun s hs => ?_, fun r hr => ?_⟩
  · have haccounted := hstart.reaches hs
    obtain ⟨columns, hcolumns, _⟩ := mapM_finish_of_sound haccounted.builders
    exact ⟨haccounted.batchBytes, haccounted.batchBytes_le, columns, hcolumns⟩
  · obtain ⟨hplan, hschema, hreaches⟩ := hr.reaches
    refine ⟨hreaches, fun batch hbatch => ?_⟩
    rw [← hplan, ← hschema] at hreaches
    obtain ⟨s, complete, hs, hbuild⟩ := Returns.reaches hreaches hbatch
    rw [hplan, hschema] at hs
    have haccounted := hstart.reaches hs
    have hsize := encodedSize_of_buildBatch haccounted hbuild
    exact ⟨s, complete, hs, hbuild, hsize, hsize ▸ haccounted.batchBytes_le⟩

end RangeDecoder

/-- The decoder of a plan slices the schema within its columns. -/
theorem CsvScanner.new_of_planRange {reader : Reader o.delimiter} {c : CsvScanner reader}
    {request : RangeRequest} {plan : RangePlan} {decoder : RangeDecoder reader}
    (hplan : c.planRange request = .ok plan) (hdecoder : c.rangeDecoder plan = .ok decoder) :
    ∃ schema, RangeDecoder.new reader plan schema = .ok decoder ∧
      plan.request.columnStart + plan.request.columnCount ≤ schema.columns.length := by
  obtain ⟨schema, hschema, hnew⟩ := Result.bind_eq_ok.1 hdecoder
  obtain ⟨hrequest, _, hcolumns, _⟩ := planRange_eq_ok hplan
  refine ⟨schema, hnew, ?_⟩
  rw [Schema.new] at hschema
  split_ifs at hschema
  cases hschema
  rw [hrequest]
  exact hcolumns

/-- The batch of a table whose second row is short. -/
theorem RangeDecoder.batch_bytes_exact_shortRow :
    ∃ (c : CsvScanner (o := .csv) (.reference 44 false)) (plan : RangePlan) (decoder : _),
      c.planRange ⟨0, 3, 0, 2⟩ = .ok plan ∧ c.rangeDecoder plan = .ok decoder ∧
      ∀ batch, decoder.Returns batch →
        batch.encodedSize ≤ DelimitedOptions.csv.limits.maxBatchBytes := by
  obtain ⟨decoder, h⟩ : ∃ decoder, (do
      let p ← CsvScanner.scanAndPlan CsvScanner.shortRow.bytes ⟨0, 3, 0, 2⟩
      p.1.rangeDecoder p.2) = .ok decoder := ⟨_, rfl⟩
  obtain ⟨⟨c, plan⟩, hscan, hdecoder⟩ := Result.bind_eq_ok.1 h
  obtain ⟨_, _, hscan⟩ := Result.bind_eq_ok.1 hscan
  obtain ⟨_, _, hscan⟩ := Result.bind_eq_ok.1 hscan
  obtain ⟨_, hplan, hscan⟩ := Result.bind_eq_ok.1 hscan
  cases hscan
  obtain ⟨schema, hnew, hslice⟩ := CsvScanner.new_of_planRange hplan hdecoder
  refine ⟨_, _, decoder, hplan, hdecoder, fun batch hbatch => ?_⟩
  obtain ⟨s, complete, -, -, -, hle⟩ :=
    ((batch_bytes_exact hnew hslice).2 decoder .start).2 batch hbatch
  exact hle

end Csv

end Tabulark
