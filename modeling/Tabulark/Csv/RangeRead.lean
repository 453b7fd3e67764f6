import Mathlib
import Tabulark.Csv.Decoder
import Tabulark.Csv.Feed
import Tabulark.Csv.Limits
import Tabulark.Csv.Strict

/-!
# Reading a range again

A decoder starts at a checkpoint with a reader of its own. It follows the
sequential parse of what is left of the table (`Decodes`), one byte after the
other, so its batch is a window of the table's rows: `decodeChunks_of_following`
for any plan whose checkpoint is a record boundary, `decodeChunks_eq_window` for
the plans of any scanner state.
-/

namespace Tabulark.Csv

variable {o : DelimitedOptions}

/-! ## Windows -/

/-- A cell of a record, with replacement characters for invalid UTF-8. -/
def cell (record : Record) (column : ℕ) : Option (List UInt8) := record[column]?.map Utf8.lossy

/-- The cells of one column. -/
def columnCells (rows : List Record) (column : ℕ) : List (Option (List UInt8)) :=
  rows.map fun record => cell record column

/-- The requested rows among the records from the checkpoint on. -/
def RangePlan.window (plan : RangePlan) (recs : List Record) : List Record :=
  (recs.drop (plan.request.rowStart - plan.checkpoint.row)).take plan.request.rowCount

/-- The bytes of row number `n` of a batch. -/
def encodedRow (request : RangeRequest) (n : ℕ) (record : Record) : ℕ :=
  ((List.range request.columnCount).map fun j =>
    StringColumnBuilder.encodedBytes n (cell record (request.columnStart + j))).sum

/-- The bytes of a batch. -/
def encodedRows (request : RangeRequest) (rows : List Record) : ℕ :=
  request.columnCount * 4 + (rows.zipIdx.map fun r => encodedRow request r.2 r.1).sum

theorem encodedRows_concat (request : RangeRequest) (rows : List Record) (record : Record) :
    encodedRows request (rows ++ [record]) =
      encodedRows request rows + encodedRow request rows.length record := by
  rw [encodedRows, encodedRows, List.zipIdx_append, List.map_append, List.sum_append]
  simp [Nat.add_assoc]

variable {request : RangeRequest}

theorem encodedRows_mono {rows rows' : List Record}
    (h : rows <+: rows') : encodedRows request rows ≤ encodedRows request rows' := by
  obtain ⟨more, rfl⟩ := h
  rw [encodedRows, encodedRows, List.zipIdx_append, List.map_append, List.sum_append]
  omega

/-- What a decoder relies on in its plan. -/
structure RangePlan.Sound (plan : RangePlan) : Prop where
  rows_le : plan.request.rowStart + plan.request.rowCount ≤ maxSafeInteger
  columns_le : plan.request.columnStart + plan.request.columnCount ≤ usizeMax
  pos : 0 < plan.request.rowCount
  checkpoint_le : plan.checkpoint.row ≤ plan.request.rowStart

namespace RangePlan

variable {plan : RangePlan}

theorem requests_eq (h : plan.Sound) (row : ℕ) :
    plan.requests row = .ok (decide (plan.request.rowStart ≤ row ∧
      row < plan.request.rowStart + plan.request.rowCount)) := by
  rw [requests]
  split_ifs with hlt
  · rw [decide_eq_false (by omega)]
  · rw [RangeRequest.rowEnd, checkedEnd_of_le h.rows_le, Result.ok_bind]
    simp [not_lt.1 hlt]

theorem window_mono {recs recs' : List Record} (h : recs <+: recs') :
    plan.window recs <+: plan.window recs' := by
  obtain ⟨more, rfl⟩ := h
  rw [window, window, List.drop_append, List.take_append]
  exact List.prefix_append _ _

/-- A window with all its rows stays as it is. -/
theorem window_eq_of_full {recs recs' : List Record} (h : recs <+: recs')
    (hfull : (plan.window recs).length = plan.request.rowCount) :
    plan.window recs = plan.window recs' :=
  (window_mono h).eq_of_length_le (by
    rw [hfull]
    exact List.length_take_le _ _)

theorem window_concat {recs : List Record} (record : Record)
    (hlt : (plan.window recs).length < plan.request.rowCount) :
    plan.window (recs ++ [record]) =
      if plan.request.rowStart - plan.checkpoint.row ≤ recs.length then
        plan.window recs ++ [record]
      else plan.window recs := by
  rw [window, List.length_take, List.length_drop] at hlt
  rw [window, window, List.drop_append]
  split_ifs with hle
  · rw [Nat.sub_eq_zero_of_le hle, List.drop_zero, List.take_append, List.length_drop,
      List.take_of_length_le (l := [record])]
    rw [List.length_singleton]
    omega
  · rw [List.drop_of_length_le (l := [record]) (by rw [List.length_singleton]; omega),
      List.append_nil]

end RangePlan

/-! ## Following the parse -/

/-- The decoder has read `len` bytes from its checkpoint: it has completed `recs` and left
    `p` open. -/
structure Decodes (plan : RangePlan) (s : DecodeState o) (len : ℕ) (recs : List Record)
    (p : OpenRecord) : Prop where
  expectedOffset : s.expectedOffset = plan.sourceOffset + len
  field : s.field.1 = p.field
  fieldIndex : s.fieldIndex = p.fields.length
  currentRow : s.currentRow = plan.checkpoint.row + recs.length
  length_values : s.selectedValues.length = plan.request.columnCount
  length_valid : s.selectedValid.length = plan.request.columnCount
  selected : (s.selectedValues.zip s.selectedValid).map DecodeState.cellValue =
    (List.range plan.request.columnCount).map fun j =>
      if plan.request.rowStart ≤ s.currentRow then cell p.fields (plan.request.columnStart + j)
      else none
  builders : List.Forall₂ StringColumnBuilder.Holds s.builders
    ((List.range plan.request.columnCount).map fun j =>
      columnCells (plan.window recs) (plan.request.columnStart + j))
  data_le : ∀ b ∈ s.builders, b.data.length ≤ s.batchBytes
  returnedRows : s.returnedRows = (plan.window recs).length
  batchBytes : s.batchBytes = encodedRows plan.request (plan.window recs)
  done : s.done = decide ((plan.window recs).length = plan.request.rowCount)

namespace DecodeState

theorem handleDiagnostic_lenient (hmode : o.mode = .lenient) (s : DecodeState o)
    (d : CsvDiagnostic) :
    ∃ diagnostics, s.handleDiagnostic d = .ok { s with diagnostics } := by
  rw [handleDiagnostic, Csv.handleDiagnostic, hmode]
  dsimp only
  split_ifs <;> exact ⟨_, rfl⟩

/-- Within the limits, a row is appended to every column. -/
theorem pushRow_of_holds {bs : List StringColumnBuilder}
    {hs : List (List (Option (List UInt8)))} {cells : List (List UInt8 × Bool)}
    {n batchBytes maxBatchBytes : ℕ} (hbs : List.Forall₂ StringColumnBuilder.Holds bs hs)
    (hn : ∀ h ∈ hs, h.length = n) (hcells : cells.length = bs.length)
    (hdata : ∀ b ∈ bs, b.data.length ≤ batchBytes)
    (hbatch : batchBytes +
      (cells.map fun c => StringColumnBuilder.encodedBytes n (cellValue c)).sum ≤ maxBatchBytes)
    (hmax : maxBatchBytes ≤ usizeMax) :
    ∃ bs', pushRow maxBatchBytes bs cells batchBytes = .ok (bs', batchBytes +
        (cells.map fun c => StringColumnBuilder.encodedBytes n (cellValue c)).sum) ∧
      List.Forall₂ StringColumnBuilder.Holds bs'
        (List.zipWith (fun h c => h ++ [cellValue c]) hs cells) ∧
      ∀ b ∈ bs', b.data.length ≤ batchBytes +
        (cells.map fun c => StringColumnBuilder.encodedBytes n (cellValue c)).sum := by
  induction hbs generalizing cells batchBytes with
  | nil =>
    obtain rfl : cells = [] := List.length_eq_zero_iff.1 hcells
    exact ⟨[], rfl, .nil, nofun⟩
  | @cons b h bs hs hb hbs ih =>
    cases cells with
    | nil => cases hcells
    | cons c cells =>
      rw [List.map_cons, List.sum_cons, ← Nat.add_assoc] at hbatch ⊢
      have hlength : h.length = n := hn h List.mem_cons_self
      obtain ⟨b', hpush, hb', hle⟩ := @StringColumnBuilder.push_of_holds h b hb (cellValue c) _ _
        (by rw [hlength]; omega) hmax (hdata b List.mem_cons_self)
      rw [hlength] at hpush hle
      obtain ⟨bs', hrest, hbs', hle'⟩ := ih
        (fun h hh => hn h (List.mem_cons_of_mem _ hh)) (Nat.succ.inj hcells)
        (fun b hb => (hdata b (List.mem_cons_of_mem _ hb)).trans (Nat.le_add_right _ _)) hbatch
      refine ⟨b' :: bs', ?_, .cons hb' hbs', ?_⟩
      · rw [pushRow, hpush, Result.ok_bind]
        dsimp only
        rw [hrest]
        rfl
      · intro b hb
        rcases List.mem_cons.1 hb with rfl | hb
        · exact hle.trans (Nat.le_add_right _ _)
        · exact hle' b hb

theorem selected_set {values : List (List UInt8)} {valid : List Bool} {i n : ℕ}
    {f : ℕ → Option (List UInt8)} (hvalues : values.length = n) (hvalid : valid.length = n)
    (hselected : (values.zip valid).map cellValue = (List.range n).map f) (value : List UInt8) :
    ((values.set i value).zip (valid.set i true)).map cellValue =
      (List.range n).map fun j => if j = i then some value else f j := by
  refine List.ext_getElem (by simp [hvalues, hvalid]) fun j hj _ => ?_
  simp only [List.length_map, List.length_zip, List.length_set] at hj
  have hold := List.getElem_of_eq hselected (i := j) (by simpa using hj)
  simp only [List.getElem_map, List.getElem_zip, List.getElem_set, List.getElem_range] at hold ⊢
  by_cases hij : i = j
  · rw [if_pos hij, if_pos hij, if_pos hij.symm, cellValue, if_pos rfl]
  · rw [if_neg hij, if_neg hij, if_neg (Ne.symm hij)]
    exact hold

variable {s : DecodeState o}

variable {recs : List Record} {plan : RangePlan}

/-- A decoder that is not done is before the end of the range. -/
theorem currentRow_lt (hplan : plan.Sound) {len : ℕ}
    {p : OpenRecord} (h : Decodes plan s len recs p) (hdone : s.done = false) :
    (plan.window recs).length < plan.request.rowCount ∧
      s.currentRow < plan.request.rowStart + plan.request.rowCount := by
  have hle := hplan.checkpoint_le
  have hpos := hplan.pos
  have hcount : (plan.window recs).length ≤ plan.request.rowCount := List.length_take_le _ _
  rw [h.done, decide_eq_false_iff_not] at hdone
  have hlt : (plan.window recs).length < plan.request.rowCount := by omega
  refine ⟨hlt, ?_⟩
  rw [RangePlan.window, List.length_take, List.length_drop] at hlt
  rw [h.currentRow]
  omega

/-- What strict mode excludes is only reported. -/
theorem handleDiagnostic_of_not {problem : Prop} (hquiet : o.mode = .strict → ¬problem)
    (h : problem) (s : DecodeState o) (d : CsvDiagnostic) :
    ∃ diagnostics, s.handleDiagnostic d = .ok { s with diagnostics } := by
  cases hmode : o.mode with
  | lenient => exact handleDiagnostic_lenient hmode s d
  | strict => exact absurd h (hquiet hmode)

/-- Within the limits, a field ends. -/
theorem finishField_of_decodes (hplan : plan.Sound)
    {len : ℕ} {p : OpenRecord} (h : Decodes plan s len recs p)
    (hquiet : o.mode = .strict → Utf8.isValid p.field) (hdone : s.done = false)
    (hmax : p.fields.length + 1 ≤ o.limits.maxColumns) (l : LexState) :
    ∃ s', s.finishField plan = .ok s' ∧
      Decodes plan s' len recs ⟨l, [], p.fields ++ [p.field]⟩ := by
  have husize := o.limits.maxColumns_le
  have hcolumns := hplan.columns_le
  have hcell : ∀ k, cell (p.fields ++ [p.field]) k =
      if k = p.fields.length then some (Utf8.lossy p.field) else cell p.fields k := by
    intro k
    rw [cell, cell, List.getElem?_append]
    split_ifs with h1 h2 h2
    · omega
    · rfl
    · rw [h2, Nat.sub_self]
      rfl
    · rw [List.getElem?_eq_none (by rw [List.length_singleton]; omega),
        List.getElem?_eq_none (by omega)]
  rw [finishField, h.fieldIndex, checkedAdd_of_le (by omega), Result.ok_bind, if_neg (by omega),
    toUsize_of_le (by omega), Result.ok_bind]
  dsimp only
  rw [RangePlan.requests_eq hplan, Result.ok_bind, Nat.add_sub_cancel, h.length_values]
  simp only [Bool.and_eq_true, decide_eq_true_eq]
  by_cases hkeep : ((plan.request.rowStart ≤ s.currentRow ∧
      s.currentRow < plan.request.rowStart + plan.request.rowCount) ∧
      plan.request.columnStart ≤ p.fields.length) ∧
      p.fields.length < plan.request.columnStart + plan.request.columnCount
  · rw [if_pos hkeep]
    have hdecoded : (if Utf8.isValid s.field.1 = true then s.field.1 else Utf8.lossy s.field.1) =
        Utf8.lossy p.field := by
      rw [h.field]
      split_ifs with hvalid
      · exact (Utf8.lossy_of_isValid hvalid).symm
      · rfl
    have hdecodes : ∀ diagnostics, Decodes plan { s with
        field := .empty o
        fieldIndex := p.fields.length + 1
        selectedValues := s.selectedValues.set (p.fields.length - plan.request.columnStart)
          (Utf8.lossy p.field)
        selectedValid := s.selectedValid.set (p.fields.length - plan.request.columnStart) true
        diagnostics } len recs ⟨l, [], p.fields ++ [p.field]⟩ := fun diagnostics =>
      { h with
        field := rfl
        fieldIndex := by rw [List.length_append]; rfl
        length_values := by rw [List.length_set, h.length_values]
        length_valid := by rw [List.length_set, h.length_valid]
        selected := by
          dsimp only
          rw [selected_set h.length_values h.length_valid h.selected]
          refine List.map_congr_left fun j hj => ?_
          rw [hcell, if_pos hkeep.1.1.1]
          split_ifs <;> first | rfl | omega }
    by_cases hvalid : Utf8.isValid s.field.1 = true
    · rw [if_pos hvalid] at hdecoded
      rw [if_pos hvalid, Result.ok_bind, if_pos hvalid]
      dsimp only
      rw [hdecoded]
      exact ⟨_, rfl, hdecodes _⟩
    · rw [if_neg hvalid] at hdecoded
      rw [if_neg hvalid]
      obtain ⟨diagnostics, hdiagnostics⟩ := handleDiagnostic_of_not
        (fun hstrict => not_not.2 (h.field ▸ hquiet hstrict)) hvalid
        { s with fieldIndex := p.fields.length + 1 } _
      rw [hdiagnostics, Result.ok_bind, if_neg hvalid]
      dsimp only
      rw [hdecoded]
      exact ⟨_, rfl, hdecodes _⟩
  · rw [if_neg hkeep]
    refine ⟨_, rfl, { h with
      field := rfl
      fieldIndex := by rw [List.length_append]; rfl
      selected := ?_ }⟩
    dsimp only
    rw [h.selected]
    refine List.map_congr_left fun j hj => ?_
    rw [List.mem_range] at hj
    split_ifs with hrow
    · have hlt := (currentRow_lt hplan h hdone).2
      rw [hcell, if_neg (by omega)]
    · rfl

/-- A ragged row is only reported, unless the mode is strict. -/
theorem reportRagged_of_quiet {schema : Schema}
    (hquiet : o.mode = .strict → s.fieldIndex = schema.columns.length) :
    ∃ diagnostics, s.reportRagged schema = .ok { s with diagnostics } := by
  rw [reportRagged]
  split_ifs with hragged
  · exact handleDiagnostic_of_not (fun hstrict => not_not.2 (hquiet hstrict)) hragged s _
  · exact ⟨_, rfl⟩

theorem selected_clear {values : List (List UInt8)} {valid : List Bool} {n : ℕ}
    (hvalues : values.length = n) (hvalid : valid.length = n) :
    ((values.map fun _ => []).zip (valid.map fun _ => false)).map cellValue =
      (List.range n).map fun _ => none := by
  refine List.ext_getElem (by simp [hvalues, hvalid]) fun j hj _ => ?_
  simp [cellValue]

/-- Within the limits, a record ends. -/
theorem finishRecord_of_decodes (hplan : plan.Sound) {schema : Schema}
    {len : ℕ} {record : Record} {l : LexState}
    (h : Decodes plan s len recs ⟨l, [], record⟩)
    (hquiet : o.mode = .strict → record.length = schema.columns.length) (hdone : s.done = false)
    (hbatch : encodedRows plan.request (plan.window (recs ++ [record])) ≤ o.limits.maxBatchBytes)
    (hrows : s.currentRow < u64Max) (l' : LexState) :
    ∃ s', s.finishRecord plan schema = .ok s' ∧
      Decodes plan s' len (recs ++ [record]) ⟨l', [], []⟩ := by
  obtain ⟨hlt, hend⟩ := currentRow_lt hplan h hdone
  have hle := hplan.checkpoint_le
  have hcurrent := h.currentRow
  obtain ⟨diagnostics, hragged⟩ := reportRagged_of_quiet (s := s) (h.fieldIndex ▸ hquiet)
  have hwindow := RangePlan.window_concat record hlt
  have hsuccessor : s.currentRow + 1 = plan.checkpoint.row + (recs ++ [record]).length := by
    rw [List.length_append, List.length_singleton, hcurrent, Nat.add_assoc]
  have hselected : ((s.selectedValues.map fun _ => []).zip
      (s.selectedValid.map fun _ => false)).map cellValue =
      (List.range plan.request.columnCount).map fun j =>
        if plan.request.rowStart ≤ s.currentRow + 1 then
          cell [] (plan.request.columnStart + j) else none := by
    rw [selected_clear h.length_values h.length_valid]
    refine List.map_congr_left fun j _ => ?_
    split_ifs <;> rfl
  rw [finishRecord, hragged, Result.ok_bind, returnRow, RangePlan.requests_eq hplan,
    Result.ok_bind]
  dsimp only
  simp only [decide_eq_true_eq]
  by_cases hin : plan.request.rowStart ≤ s.currentRow
  · -- A row of the range goes into the builders.
    rw [if_pos (by omega)] at hwindow
    rw [if_pos ⟨hin, hend⟩]
    have hcells := h.selected
    simp only [if_pos hin] at hcells
    have hsum : ((s.selectedValues.zip s.selectedValid).map fun c =>
        StringColumnBuilder.encodedBytes (plan.window recs).length (cellValue c)).sum =
        encodedRow plan.request (plan.window recs).length record := by
      have hmap := congrArg (fun values => (values.map (StringColumnBuilder.encodedBytes
        (plan.window recs).length)).sum) hcells
      rw [List.map_map, List.map_map] at hmap
      exact hmap
    rw [hwindow, encodedRows_concat, ← hsum] at hbatch
    obtain ⟨bs, hpush, hbs, hdata⟩ := @pushRow_of_holds s.builders _
      (s.selectedValues.zip s.selectedValid) (plan.window recs).length _ _ h.builders (by
        intro held hheld
        obtain ⟨j, _, rfl⟩ := List.mem_map.1 hheld
        rw [columnCells, List.length_map]) (by
        rw [h.builders.length_eq]
        simp [h.length_values, h.length_valid]) h.data_le (by rw [h.batchBytes]; exact hbatch)
      o.limits.maxBatchBytes_le
    rw [hpush, Result.ok_bind, Result.ok_bind, nextRow, checkedAdd_of_le hrows, Result.ok_bind]
    refine ⟨_, rfl, {
      expectedOffset := h.expectedOffset
      field := h.field
      fieldIndex := rfl
      currentRow := hsuccessor
      length_values := by rw [List.length_map, h.length_values]
      length_valid := by rw [List.length_map, h.length_valid]
      selected := hselected
      builders := ?_
      data_le := hdata
      returnedRows := by rw [hwindow, List.length_append, ← h.returnedRows]; rfl
      batchBytes := by rw [hwindow, encodedRows_concat, ← hsum, ← h.batchBytes]
      done := ?_ }⟩
    · have hcolumns : List.zipWith (fun held c => held ++ [cellValue c])
          ((List.range plan.request.columnCount).map fun j =>
            columnCells (plan.window recs) (plan.request.columnStart + j))
          (s.selectedValues.zip s.selectedValid) =
          (List.range plan.request.columnCount).map fun j =>
            columnCells (plan.window (recs ++ [record])) (plan.request.columnStart + j) := by
        rw [← List.zipWith_map_right (f := cellValue) (g := fun held value => held ++ [value]),
          hcells, List.zipWith_map, List.zipWith_self, hwindow]
        simp [columnCells]
      exact hcolumns ▸ hbs
    · dsimp only
      rw [hdone, Bool.false_or, hwindow, List.length_append, h.returnedRows]
      rfl
  · -- A row before the range is passed over.
    rw [if_neg (by omega)] at hwindow
    rw [if_neg fun hcontra => hin hcontra.1, Result.ok_bind, nextRow, checkedAdd_of_le hrows,
      Result.ok_bind]
    refine ⟨_, rfl, {
      expectedOffset := h.expectedOffset
      field := h.field
      fieldIndex := rfl
      currentRow := hsuccessor
      length_values := by rw [List.length_map, h.length_values]
      length_valid := by rw [List.length_map, h.length_valid]
      selected := hselected
      builders := hwindow ▸ h.builders
      data_le := h.data_le
      returnedRows := hwindow ▸ h.returnedRows
      batchBytes := hwindow ▸ h.batchBytes
      done := ?_ }⟩
    dsimp only
    rw [hdone, Bool.false_or, hwindow, h.returnedRows]

end DecodeState

/-! ## The laws -/

namespace DecodeState

variable {s s' : DecodeState o}

theorem expectedOffset_handleDiagnostic {d : CsvDiagnostic}
    (h : s.handleDiagnostic d = .ok s') : s'.expectedOffset = s.expectedOffset := by
  obtain ⟨_, _, h⟩ := Result.bind_eq_ok.1 h
  cases h
  rfl

theorem expectedOffset_finishField {plan : RangePlan}
    (h : s.finishField plan = .ok s') : s'.expectedOffset = s.expectedOffset := by
  obtain ⟨fieldIndex, _, h⟩ := Result.bind_eq_ok.1 h
  split_ifs at h
  obtain ⟨start, _, h⟩ := Result.bind_eq_ok.1 h
  obtain ⟨requested, _, h⟩ := Result.bind_eq_ok.1 h
  dsimp only at h
  by_cases hkeep : (requested && decide (start ≤ fieldIndex - 1) &&
      decide (fieldIndex - 1 < start + s.selectedValues.length)) = true
  · rw [if_pos hkeep] at h
    by_cases hvalid : Utf8.isValid s.field.1 = true
    · rw [if_pos hvalid] at h
      cases h
      rfl
    · rw [if_neg hvalid] at h
      obtain ⟨s₁, h₁, h⟩ := Result.bind_eq_ok.1 h
      cases h
      have hoffset := expectedOffset_handleDiagnostic h₁
      exact hoffset
  · rw [if_neg hkeep] at h
    cases h
    rfl

theorem expectedOffset_finishRecord {plan : RangePlan} {schema : Schema}
    (h : s.finishRecord plan schema = .ok s') : s'.expectedOffset = s.expectedOffset := by
  obtain ⟨s₁, h₁, h⟩ := Result.bind_eq_ok.1 h
  obtain ⟨s₂, h₂, h⟩ := Result.bind_eq_ok.1 h
  obtain ⟨_, _, h⟩ := Result.bind_eq_ok.1 h
  cases h
  have hragged : s₁.expectedOffset = s.expectedOffset := by
    rw [reportRagged] at h₁
    split_ifs at h₁
    · exact expectedOffset_handleDiagnostic h₁
    · cases h₁
      rfl
  obtain ⟨requested, _, h₂⟩ := Result.bind_eq_ok.1 h₂
  split_ifs at h₂
  · obtain ⟨_, _, h₂⟩ := Result.bind_eq_ok.1 h₂
    cases h₂
    exact hragged
  · cases h₂
    exact hragged

end DecodeState

/-- The decoder's handler follows the laws. -/
theorem decodeHandler_lawful (o : DelimitedOptions) (plan : RangePlan) (schema : Schema) :
    (decodeHandler o plan schema).Lawful where
  append_append s xs ys := by
    change (DecodeState.appendField s xs >>= fun s => s.appendField ys) = s.appendField (xs ++ ys)
    rw [DecodeState.appendField, DecodeState.appendField, ← FieldBytes.append_append]
    cases s.field.append xs _ <;> rfl
  append_setOffset s n xs := by
    change DecodeState.appendField _ xs = (DecodeState.appendField s xs).map _
    rw [DecodeState.appendField, DecodeState.appendField]
    dsimp only [decodeHandler]
    cases s.field.append xs _ <;> rfl
  offset_append s xs s' h := by
    obtain ⟨_, _, h⟩ := Result.bind_eq_ok.1 h
    cases h
    rfl
  offset_endField s b s' h := by
    obtain ⟨s₁, h₁, h⟩ := Result.bind_eq_ok.1 h
    cases b with
    | false =>
      cases h
      exact DecodeState.expectedOffset_finishField h₁
    | true =>
      exact (DecodeState.expectedOffset_finishRecord h).trans
        (DecodeState.expectedOffset_finishField h₁)
  offset_setOffset s n := rfl
  setOffset_setOffset s m n := rfl
  setOffset_offset s := rfl
  done_append s xs s' h := by
    obtain ⟨_, _, h⟩ := Result.bind_eq_ok.1 h
    cases h
    rfl
  done_setOffset s n := rfl

/-! ## Steps of a decoder -/

/-- Records that a strict decoder does not stop at. -/
def Quiet (o : DelimitedOptions) (schema : Schema) (rest : List Record) : Prop :=
  o.mode = .strict → ∀ record ∈ rest, record.length = schema.columns.length ∧
    ∀ field ∈ record, Utf8.isValid field

theorem quiet_of_lenient (hmode : o.mode = .lenient) (schema : Schema) (rest : List Record) :
    Quiet o schema rest := by
  intro hstrict
  rw [hmode] at hstrict
  cases hstrict

/-- What is left to decode is within the limits. -/
structure RangePlan.Room (plan : RangePlan) (o : DelimitedOptions) (recs rest : List Record) :
    Prop where
  fits : ∀ record ∈ rest, Fits o record
  batch : encodedRows plan.request (plan.window (recs ++ rest)) ≤ o.limits.maxBatchBytes
  rows : plan.checkpoint.row + (recs ++ rest).length ≤ u64Max

namespace Decodes

variable {plan : RangePlan} {s : DecodeState o} {len : ℕ} {recs : List Record} {p : OpenRecord}

/-- One byte follows the parse. -/
theorem byte (hplan : plan.Sound) {schema : Schema} (h : Decodes plan s len recs p)
    (hclean : p.Clean) (hdone : s.done = false) {c : UInt8} {post : List UInt8}
    (hquiet : Quiet o schema (p.records o.delimiter (c :: post)))
    (hroom : plan.Room o recs (p.records o.delimiter (c :: post))) :
    ∃ s', (decodeHandler o plan schema).byte o.delimiter p.lex s c =
        .ok ((p.byte o.delimiter c).2.lex, s') ∧
      Decodes plan s' (len + 1) (recs ++ (p.byte o.delimiter c).1) (p.byte o.delimiter c).2 := by
  obtain ⟨hfield, hcolumns⟩ := le_of_fits hclean hroom.fits
  have hread : s.appendField (p.lex.step o.delimiter c).2.toList = .ok { s with
      field := ⟨s.field.1 ++ (p.lex.step o.delimiter c).2.toList, by rwa [h.field]⟩ } := by
    rw [DecodeState.appendField, FieldBytes.append, dif_pos (by rwa [h.field])]
    rfl
  have hopen : ∀ l, Decodes plan { s with
      field := ⟨s.field.1 ++ (p.lex.step o.delimiter c).2.toList, by rwa [h.field]⟩
      expectedOffset := s.expectedOffset + 1 } (len + 1) recs
      ⟨l, p.field ++ (p.lex.step o.delimiter c).2.toList, p.fields⟩ := fun l =>
    { h with
      expectedOffset := by rw [h.expectedOffset, Nat.add_assoc]
      field := congrArg (· ++ _) h.field }
  have hrecords := OpenRecord.records_cons (d := o.delimiter) p c post
  have hbatch := hroom.batch
  have hrows := hroom.rows
  rw [hrecords] at hbatch hrows
  rw [OpenRecord.byte] at hbatch hrows ⊢
  rw [Handler.byte]
  change ∃ s', (DecodeState.appendField s _ >>= _) = _ ∧ _
  rw [hread, Result.ok_bind]
  change ∃ s', ((decodeHandler o plan schema).enter { s with
      field := ⟨s.field.1 ++ (p.lex.step o.delimiter c).2.toList, _⟩
      expectedOffset := s.expectedOffset + 1 } _ >>= _) = _ ∧ _
  rw [Handler.enter]
  cases hend : (p.lex.step o.delimiter c).1.fieldEnd with
  | none => exact ⟨_, rfl, by rw [List.append_nil]; exact hopen _⟩
  | some recordEnd =>
    obtain ⟨rest, hmem, hlast⟩ := OpenRecord.exists_mem hend post
    obtain ⟨s₁, hs₁, hdecodes⟩ := DecodeState.finishField_of_decodes hplan (hopen .endRecord)
      (fun hstrict => (hquiet hstrict _ hmem).2 _ (List.mem_append_right _ List.mem_cons_self))
      hdone (hcolumns (by rw [hend]; exact Option.some_ne_none _)) (p.lex.step o.delimiter c).1
    have hfinish : (decodeHandler o plan schema).finishField { s with
        field := ⟨s.field.1 ++ (p.lex.step o.delimiter c).2.toList, by rwa [h.field]⟩
        expectedOffset := s.expectedOffset + 1 } = .ok s₁ := hs₁
    rw [hend] at hbatch hrows
    dsimp only
    rw [Handler.endField, hfinish, Result.ok_bind]
    cases recordEnd with
    | false => exact ⟨s₁, rfl, by rw [List.append_nil]; exact hdecodes⟩
    | true =>
      have hdone₁ : s₁.done = false := by
        rw [hdecodes.done, ← hdone, h.done]
      dsimp only at hbatch hrows hdecodes
      rw [hlast rfl] at hmem
      obtain ⟨s₂, hs₂, hdecodes₂⟩ := DecodeState.finishRecord_of_decodes hplan hdecodes
        (fun hstrict => (hquiet hstrict _ hmem).1) hdone₁
        (le_trans (encodedRows_mono (RangePlan.window_mono (by
          rw [← List.append_assoc]
          exact List.prefix_append _ _))) hbatch) (by
        rw [hdecodes.currentRow]
        rw [List.length_append, List.length_append, List.length_singleton] at hrows
        omega) (p.lex.step o.delimiter c).1
      refine ⟨s₂, ?_, hdecodes₂⟩
      have hrecord : (decodeHandler o plan schema).finishRecord s₁ = .ok s₂ := hs₂
      rw [if_pos rfl, hrecord]
      rfl

end Decodes

/-- The decoder has all the rows of the window. -/
structure Answers (plan : RangePlan) (s : DecodeState o) (recs : List Record) : Prop where
  builders : List.Forall₂ StringColumnBuilder.Holds s.builders
    ((List.range plan.request.columnCount).map fun j =>
      columnCells (plan.window recs) (plan.request.columnStart + j))
  returnedRows : s.returnedRows = (plan.window recs).length

namespace Decodes

variable {plan : RangePlan} {s : DecodeState o} {len : ℕ} {recs : List Record} {p : OpenRecord}

/-- A decoder that is done needs no more records. -/
theorem answers (h : Decodes plan s len recs p) (hdone : s.done = true) {recs' : List Record}
    (hrecs : recs <+: recs') :
    Answers plan s recs' ∧ s.returnedRows = plan.request.rowCount := by
  rw [h.done, decide_eq_true_eq] at hdone
  have hwindow := RangePlan.window_eq_of_full hrecs hdone
  exact ⟨⟨hwindow ▸ h.builders, hwindow ▸ h.returnedRows⟩, h.returnedRows.trans hdone⟩

/-- A slice follows the parse, up to where the decoder is done. -/
theorem bytes (hplan : plan.Sound) {schema : Schema} (h : Decodes plan s len recs p)
    (hclean : p.Clean) (hdone : s.done = false) {input post : List UInt8}
    (hquiet : Quiet o schema (p.records o.delimiter (input ++ post)))
    (hroom : plan.Room o recs (p.records o.delimiter (input ++ post))) :
    ∃ l' s', (decodeHandler o plan schema).bytes o.delimiter p.lex s input = .ok (l', s') ∧
      (s'.done = true ∧ Answers plan s' (recs ++ p.records o.delimiter (input ++ post)) ∧
          s'.returnedRows = plan.request.rowCount ∧
          (plan.window (recs ++ (p.feed o.delimiter input).1)).length = plan.request.rowCount ∨
        s'.done = false ∧ l' = (p.feed o.delimiter input).2.lex ∧
          Decodes plan s' (len + input.length) (recs ++ (p.feed o.delimiter input).1)
            (p.feed o.delimiter input).2) := by
  induction input generalizing s len recs p with
  | nil =>
    refine ⟨_, s, rfl, .inr ⟨hdone, rfl, ?_⟩⟩
    rw [OpenRecord.feed, List.append_nil]
    exact h
  | cons c cs ih =>
    obtain ⟨s₁, hs₁, hdecodes⟩ := h.byte hplan hclean hdone hquiet hroom
    have hrecords : recs ++ p.records o.delimiter (c :: cs ++ post) =
        (recs ++ (p.byte o.delimiter c).1) ++
          (p.byte o.delimiter c).2.records o.delimiter (cs ++ post) := by
      rw [List.cons_append, OpenRecord.records_cons, List.append_assoc]
    have hnotdone : (decodeHandler o plan schema).done s = false := hdone
    rw [Handler.bytes, hnotdone, if_neg Bool.false_ne_true, hs₁, Result.ok_bind]
    cases hdone₁ : s₁.done with
    | true =>
      obtain ⟨hanswers, hreturned⟩ := hdecodes.answers hdone₁
        (show _ <+: recs ++ p.records o.delimiter (c :: cs ++ post) by
          rw [hrecords]
          exact List.prefix_append _ _)
      have hstop : (decodeHandler o plan schema).bytes o.delimiter
          (p.byte o.delimiter c).2.lex s₁ cs = .ok ((p.byte o.delimiter c).2.lex, s₁) := by
        have hdone' : (decodeHandler o plan schema).done s₁ = true := hdone₁
        cases cs with
        | nil => rfl
        | cons b bs => rw [Handler.bytes, if_pos hdone']
      refine ⟨_, s₁, hstop, .inl ⟨hdone₁, hanswers, hreturned, ?_⟩⟩
      have hfull := hdecodes.done
      rw [hdone₁, eq_comm, decide_eq_true_eq] at hfull
      rw [OpenRecord.feed]
      dsimp only
      rw [← List.append_assoc, ← RangePlan.window_eq_of_full (List.prefix_append _ _) hfull, hfull]
    | false =>
      have hroom₁ : plan.Room o (recs ++ (p.byte o.delimiter c).1)
          ((p.byte o.delimiter c).2.records o.delimiter (cs ++ post)) := by
        obtain ⟨hfits, hbatch, hrows⟩ := hroom
        rw [hrecords] at hbatch hrows
        refine ⟨fun record hrecord => hfits record ?_, hbatch, hrows⟩
        rw [List.cons_append, OpenRecord.records_cons]
        exact List.mem_append_right _ hrecord
      have hquiet₁ : Quiet o schema
          ((p.byte o.delimiter c).2.records o.delimiter (cs ++ post)) := by
        intro hstrict record hrecord
        refine hquiet hstrict record ?_
        rw [List.cons_append, OpenRecord.records_cons]
        exact List.mem_append_right _ hrecord
      obtain ⟨l', s', hs', hcases⟩ := ih hdecodes (OpenRecord.clean_byte hclean c) hdone₁ hquiet₁
        hroom₁
      refine ⟨l', s', hs', ?_⟩
      rw [hrecords]
      rcases hcases with ⟨hdone', hanswers, hreturned, hfull⟩ | ⟨hdone', hl', hdecodes'⟩
      · refine .inl ⟨hdone', hanswers, hreturned, ?_⟩
        rw [List.append_assoc] at hfull
        exact hfull
      · refine .inr ⟨hdone', hl', ?_⟩
        rw [OpenRecord.feed, List.length_cons, Nat.add_comm cs.length, ← Nat.add_assoc,
          ← List.append_assoc]
        exact hdecodes'

end Decodes

namespace Decodes

variable {plan : RangePlan} {s : DecodeState o} {len : ℕ} {recs : List Record} {p : OpenRecord}

/-- The end of the file completes the parse. -/
theorem eof (hplan : plan.Sound) {schema : Schema} (h : Decodes plan s len recs p)
    (hdone : s.done = false) (hquiet : Quiet o schema p.finish)
    (hroom : plan.Room o recs p.finish) :
    ∃ stopped s', (decodeHandler o plan schema).eof p.lex s = .ok (stopped, s') ∧
      Answers plan s' (recs ++ p.finish) ∧
      (stopped = true → s'.returnedRows = plan.request.rowCount) := by
  have hnil : ∀ s : DecodeState o, (decodeHandler o plan schema).appendField s [] = .ok s := by
    intro s
    change DecodeState.appendField s [] = _
    rw [DecodeState.appendField, FieldBytes.append_nil]
    rfl
  rw [Handler.eof, hnil, Result.ok_bind]
  rw [OpenRecord.finish] at hroom hquiet ⊢
  by_cases hl : p.lex.isBoundary = true
  · rw [if_pos hl, if_pos hl, List.append_nil]
    exact ⟨false, s, rfl, ⟨h.builders, h.returnedRows⟩, fun h => absurd h Bool.false_ne_true⟩
  · rw [if_neg hl] at hroom hquiet
    rw [if_neg hl, if_neg hl]
    obtain ⟨hfits, hbatch, hrows⟩ := hroom
    have hmax := (hfits _ List.mem_cons_self).1
    rw [List.length_append, List.length_singleton] at hmax
    obtain ⟨s₁, hs₁, hdecodes₁⟩ := DecodeState.finishField_of_decodes hplan h
      (fun hstrict => (hquiet hstrict _ List.mem_cons_self).2 _
        (List.mem_append_right _ List.mem_cons_self)) hdone hmax .endRecord
    have hdone₁ : s₁.done = false := by rw [hdecodes₁.done, ← hdone, h.done]
    obtain ⟨s₂, hs₂, hdecodes₂⟩ := DecodeState.finishRecord_of_decodes hplan hdecodes₁
      (fun hstrict => (hquiet hstrict _ List.mem_cons_self).1) hdone₁ hbatch (by
      rw [hdecodes₁.currentRow]
      rw [List.length_append, List.length_singleton] at hrows
      omega) .endRecord
    have hend : (decodeHandler o plan schema).endField s true = .ok s₂ := by
      have hfield : (decodeHandler o plan schema).finishField s = .ok s₁ := hs₁
      have hrecord : (decodeHandler o plan schema).finishRecord s₁ = .ok s₂ := hs₂
      rw [Handler.endField, hfield, Result.ok_bind, if_pos rfl, hrecord]
    rw [hend, Result.ok_bind]
    have hanswers : Answers plan s₂ (recs ++ [p.fields ++ [p.field]]) :=
      ⟨hdecodes₂.builders, hdecodes₂.returnedRows⟩
    cases hdone₂ : s₂.done with
    | true =>
      have hstop : (decodeHandler o plan schema).done s₂ = true := hdone₂
      rw [if_pos hstop]
      exact ⟨true, s₂, rfl, hanswers, fun _ => (hdecodes₂.answers hdone₂ List.prefix_rfl).2⟩
    | false =>
      have hstop : (decodeHandler o plan schema).done s₂ = false := hdone₂
      rw [hstop, if_neg Bool.false_ne_true, hnil]
      exact ⟨false, s₂, rfl, hanswers, fun h => absurd h Bool.false_ne_true⟩

end Decodes

/-! ## Batches -/

/-- A batch is the window of the table that a request asks for. -/
structure Shows (batch : TableBatch) (request : RangeRequest) (rows : List Record) :
    Prop where
  rowStart : batch.range.rowStart = request.rowStart
  rowCount : batch.range.rowCount = min request.rowCount (rows.length - request.rowStart)
  columnStart : batch.range.columnStart = request.columnStart
  columnCount : batch.range.columnCount = request.columnCount
  complete : batch.complete = true ↔ request.rowStart + request.rowCount ≤ rows.length
  columns : batch.columns.length = request.columnCount
  len : ∀ column ∈ batch.columns, column.len = batch.range.rowCount
  value : ∀ i j record, i < request.rowCount → rows[request.rowStart + i]? = some record →
    j < request.columnCount →
    batch.columns[j]?.bind (fun column => column.value i) =
      some (cell record (request.columnStart + j))

variable {rows : List Record}

theorem isValid_of_mem_columnCells {column : ℕ} {bytes : List UInt8}
    (h : some bytes ∈ columnCells rows column) : Utf8.isValid bytes := by
  obtain ⟨record, _, hcell⟩ := List.mem_map.1 h
  obtain ⟨field, _, rfl⟩ := Option.map_eq_some_iff.1 hcell
  exact Utf8.isValid_lossy field

/-- Columns that hold valid values are finished. -/
theorem mapM_finish {bs : List StringColumnBuilder} {hs : List (List (Option (List UInt8)))}
    (hbs : List.Forall₂ StringColumnBuilder.Holds bs hs)
    (hutf8 : ∀ held ∈ hs, ∀ bytes, some bytes ∈ held → Utf8.isValid bytes) :
    ∃ columns, bs.mapM StringColumnBuilder.finish = .ok columns ∧
      List.Forall₂ (fun (column : StringColumnBatch) held => column.len = held.length ∧
        ∀ i, i < held.length → column.value i = held[i]?) columns hs := by
  induction hbs with
  | nil => exact ⟨[], rfl, .nil⟩
  | @cons b held bs hs hb hbs ih =>
    obtain ⟨column, hcolumn, hvalues⟩ := StringColumnBuilder.finish_of_holds hb
      (hutf8 held List.mem_cons_self)
    obtain ⟨columns, hcolumns, hall⟩ := ih fun held hheld =>
      hutf8 held (List.mem_cons_of_mem _ hheld)
    refine ⟨column :: columns, ?_, .cons hvalues hall⟩
    rw [List.mapM_cons, hcolumn, Result.ok_bind, hcolumns]
    rfl

namespace RangeDecoder

variable {reader : Reader o.delimiter}

variable {r : RangeDecoder reader}

/-- The batch of a decoder that has all the rows. -/
theorem buildBatch_of_answers
    (hrowsLe : r.plan.request.rowStart + r.plan.request.rowCount ≤ maxSafeInteger)
    (hcolumnsLe : r.plan.request.columnStart + r.plan.request.columnCount ≤ usizeMax)
    {s : DecodeState o} {recs rows : List Record}
    (hsome : r.plan.request.rowCount = 0 → r.plan.request.rowStart ≤ rows.length)
    (hwindow : r.plan.window recs =
      (rows.drop r.plan.request.rowStart).take r.plan.request.rowCount)
    (h : Answers r.plan s recs) :
    ∃ batch, r.buildBatch s (s.returnedRows = r.plan.request.rowCount) = .ok batch ∧
      Shows batch r.plan.request rows := by
  have husize : usizeMax ≤ maxSafeInteger := by decide
  have hreturned : s.returnedRows =
      min r.plan.request.rowCount (rows.length - r.plan.request.rowStart) := by
    rw [h.returnedRows, hwindow, List.length_take, List.length_drop]
  obtain ⟨columns, hcolumns, hall⟩ := mapM_finish h.builders (by
    intro held hheld bytes hbytes
    obtain ⟨j, _, rfl⟩ := List.mem_map.1 hheld
    exact isValid_of_mem_columnCells hbytes)
  obtain ⟨hlength, hget⟩ := List.forall₂_iff_get.1 hall
  rw [List.length_map, List.length_range] at hlength
  have hcolumn : ∀ j, j < r.plan.request.columnCount → ∃ column, columns[j]? = some column ∧
      column.len = s.returnedRows ∧ ∀ i, i < s.returnedRows → column.value i =
        (columnCells (r.plan.window recs) (r.plan.request.columnStart + j))[i]? := by
    intro j hj
    obtain ⟨hlen, hvalue⟩ := hget j (by omega) (by simpa using hj)
    simp only [List.get_eq_getElem, List.getElem_map, List.getElem_range, columnCells,
      List.length_map] at hlen hvalue
    rw [← h.returnedRows] at hlen hvalue
    exact ⟨columns[j], List.getElem?_eq_getElem _, hlen, hvalue⟩
  rw [buildBatch, RangeRequest.new_of_le (by omega) (by omega), Result.ok_bind, hcolumns,
    Result.ok_bind]
  refine ⟨_, rfl, rfl, hreturned, rfl, rfl, ?_, hlength, ?_, ?_⟩
  · dsimp only
    rw [decide_eq_true_eq, hreturned]
    omega
  · intro column hmem
    obtain ⟨j, hj, rfl⟩ := List.mem_iff_getElem.1 hmem
    obtain ⟨column, hcolumn, hlen, _⟩ := hcolumn j (hlength ▸ hj)
    rw [List.getElem?_eq_getElem hj] at hcolumn
    rw [Option.some.inj hcolumn]
    exact hlen
  · intro i j record hi hrecord hj
    obtain ⟨column, hcolumn, _, hvalue⟩ := hcolumn j hj
    have hlt := (List.getElem?_eq_some_iff.1 hrecord).1
    dsimp only
    rw [hcolumn, Option.bind_some, hvalue i (by omega), hwindow, columnCells, List.getElem?_map,
      List.getElem?_take_of_lt hi, List.getElem?_drop, hrecord]
    rfl

/-- A decoder that has read `pre` from its checkpoint and wants more. -/
structure Following (r : RangeDecoder reader) (pre : List UInt8) : Prop where
  done : r.decode.done = false
  lex : reader.lex r.readerState = (OpenRecord.start.feed o.delimiter pre).2.lex
  decodes : Decodes r.plan r.decode pre.length (OpenRecord.start.feed o.delimiter pre).1
    (OpenRecord.start.feed o.delimiter pre).2

/-- What a decoder will have read when it is done: a text whose records give the window of
    the table. -/
structure Ahead (r : RangeDecoder reader) (text : List UInt8) (rows : List Record) : Prop where
  sound : r.plan.Sound
  window : r.plan.window (records o.delimiter text) =
    (rows.drop r.plan.request.rowStart).take r.plan.request.rowCount
  quiet : Quiet o r.schema (records o.delimiter text)
  room : r.plan.Room o [] (records o.delimiter text)

theorem Ahead.congr {r r' : RangeDecoder reader} {text : List UInt8} {rows : List Record}
    (h : r.Ahead text rows) (hplan : r'.plan = r.plan) (hschema : r'.schema = r.schema) :
    r'.Ahead text rows := by
  obtain ⟨hsound, hwindow, hquiet, hroom⟩ := h
  rw [← hplan] at hsound hwindow hroom
  rw [← hschema] at hquiet
  exact ⟨hsound, hwindow, hquiet, hroom⟩

/-- Quote issues are only reported, unless the mode is strict. -/
theorem reportQuotes_of_quiet (s : DecodeState o) {issues : List QuoteIssue}
    (hquiet : o.mode = .strict → issues = []) :
    ∃ diagnostics, reportQuotes s issues = .ok { s with diagnostics } := by
  induction issues generalizing s with
  | nil => exact ⟨s.diagnostics, rfl⟩
  | cons issue issues ih =>
    have hne : o.mode ≠ .strict := fun hstrict => absurd (hquiet hstrict) (List.cons_ne_nil _ _)
    obtain ⟨diagnostics, hfirst⟩ := DecodeState.handleDiagnostic_of_not
      (fun hstrict => absurd hstrict hne) trivial s {
        kind := .malformedQuote
        row := some s.currentRow
        byteOffset := issue.offset
        message := issue.message }
    obtain ⟨diagnostics', hrest⟩ := ih { s with diagnostics } fun hstrict => absurd hstrict hne
    refine ⟨diagnostics', ?_⟩
    rw [reportQuotes, List.foldlM_cons, hfirst]
    exact hrest

/-- The end of the file. -/
theorem finishEof_of_following {text : List UInt8} (h : r.Following text) (ha : r.Ahead text rows)
    (hopen : o.mode = .strict → r.lexical.unclosedQuoteOffset = none) :
    ∃ batch, r.finishEof = .ok batch ∧ Shows batch r.plan.request rows := by
  obtain ⟨diagnostics, hquote⟩ : ∃ diagnostics,
      r.reportUnclosed = .ok { r.decode with diagnostics } := by
    rw [reportUnclosed]
    cases hlexical : r.lexical.unclosedQuoteOffset with
    | none => exact ⟨_, rfl⟩
    | some offset =>
      refine DecodeState.handleDiagnostic_of_not (fun hstrict => ?_) hlexical _ _
      rw [hopen hstrict]
      exact nofun
  have hdecodes : Decodes r.plan { r.decode with diagnostics } text.length
      (OpenRecord.start.feed o.delimiter text).1 (OpenRecord.start.feed o.delimiter text).2 :=
    { h.decodes with }
  obtain ⟨stopped, s, heof, hanswers, hstopped⟩ := hdecodes.eof ha.sound h.done
    (fun hstrict record hrecord => ha.quiet hstrict record (List.mem_append_right _ hrecord))
    ⟨fun record hrecord => ha.room.fits record (List.mem_append_right _ hrecord), ha.room.batch,
      ha.room.rows⟩
  obtain ⟨batch, hbatch, hshows⟩ := buildBatch_of_answers ha.sound.rows_le
    ha.sound.columns_le (fun hzero => absurd hzero ha.sound.pos.ne') ha.window hanswers
  refine ⟨batch, ?_, hshows⟩
  rw [finishEof, hquote, Result.ok_bind, driveEof_eq_eof, h.lex, heof, Result.ok_bind, ← hbatch]
  cases stopped with
  | false => rw [Bool.false_or]
  | true => rw [hstopped rfl]; simp

/-- One chunk is decoded, or the batch is complete. Bytes `extra` come after the last row. -/
theorem feedChunk_of_following
    {pre : List UInt8} (h : r.Following pre) (chunk extra post : List UInt8) (eof : Bool)
    (hbom : ¬reader.DropsBom r.readerState (chunk ++ extra))
    (ha : r.Ahead (pre ++ (chunk ++ post)) rows)
    (hextra : extra ≠ [] → post = [] ∧
      (r.plan.window (OpenRecord.start.feed o.delimiter (pre ++ chunk)).1).length =
        r.plan.request.rowCount)
    (hquiet : o.mode = .strict → (r.lexical.consume o.delimiter
      (r.plan.sourceOffset + pre.length) (chunk ++ extra)).2 = [])
    (hlen : r.plan.sourceOffset + (pre ++ (chunk ++ extra)).length ≤ u64Max)
    (heof : eof = true → post = [] ∧ (o.mode = .strict → extra = [] →
      (r.lexical.consume o.delimiter (r.plan.sourceOffset + pre.length)
        chunk).1.unclosedQuoteOffset = none)) :
    ∃ r' status, r.feedChunk (r.plan.sourceOffset + pre.length) (chunk ++ extra) eof =
        .ok (r', status) ∧
      match status with
      | .complete batch => Shows batch r.plan.request rows ∧ (eof = true ∨
          (r.plan.window (OpenRecord.start.feed o.delimiter (pre ++ chunk)).1).length =
            r.plan.request.rowCount)
      | .needMore => eof = false ∧ extra = [] ∧ r'.plan = r.plan ∧ r'.schema = r.schema ∧
          r'.lexical = (r.lexical.consume o.delimiter (r.plan.sourceOffset + pre.length)
            chunk).1 ∧ r'.Following (pre ++ chunk) ∧ ∀ more,
            reader.KeepsPieces r.readerState (chunk :: more) →
              reader.KeepsPieces r'.readerState more := by
  have hrecords : records o.delimiter (pre ++ (chunk ++ post)) =
      (OpenRecord.start.feed o.delimiter pre).1 ++
        (OpenRecord.start.feed o.delimiter pre).2.records o.delimiter (chunk ++ post) :=
    OpenRecord.records_append OpenRecord.start pre (chunk ++ post)
  have hfeed := OpenRecord.feed_append (d := o.delimiter) OpenRecord.start pre chunk
  have hoffset := h.decodes.expectedOffset
  simp only [List.length_append] at hlen
  obtain ⟨diagnostics, hquotes⟩ := reportQuotes_of_quiet r.decode hquiet
  have hdecodes : Decodes r.plan { r.decode with diagnostics } pre.length
      (OpenRecord.start.feed o.delimiter pre).1 (OpenRecord.start.feed o.delimiter pre).2 :=
    { h.decodes with }
  have hclean := OpenRecord.clean_feed (d := o.delimiter) OpenRecord.clean_start pre
  obtain ⟨hfits, hbatch, hrows⟩ := ha.room
  have hquietRecords := ha.quiet
  rw [hrecords] at hfits hbatch hrows hquietRecords
  obtain ⟨l, s, hbytes, hcases⟩ := hdecodes.bytes ha.sound hclean h.done
    (fun hstrict record hrecord => hquietRecords hstrict record (List.mem_append_right _ hrecord))
    ⟨fun record hrecord => hfits record (List.mem_append_right _ hrecord), hbatch, hrows⟩
  -- Nothing is read after the last row.
  have hall : (decodeHandler o r.plan r.schema).bytes o.delimiter
      (OpenRecord.start.feed o.delimiter pre).2.lex { r.decode with diagnostics }
      (chunk ++ extra) = .ok (l, s) := by
    rw [Handler.bytes_append, hbytes, Result.ok_bind]
    cases hcase : extra with
    | nil => rfl
    | cons b bs =>
      have hdone : (decodeHandler o r.plan r.schema).done s = true := by
        rcases hcases with ⟨hdone, _⟩ | ⟨_, _, hdecodes'⟩
        · exact hdone
        · refine hdecodes'.done.trans (decide_eq_true ?_)
          have hfull := (hextra (by rw [hcase]; exact List.cons_ne_nil _ _)).2
          rw [hfeed] at hfull
          exact hfull
      rw [Handler.bytes, if_pos hdone]
  have hdrive := @drive_eq_bytes _ _ reader _ r.readerState (chunk ++ extra)
    (chunk ++ extra).length (decodeHandler_lawful o r.plan r.schema)
    { r.decode with diagnostics } le_rfl (by
    change r.decode.expectedOffset + _ ≤ _
    rw [List.length_append]
    omega) hbom
  rw [h.lex, hall] at hdrive
  obtain ⟨⟨st, s'⟩, hst, hp⟩ := Result.map_eq_ok.1 hdrive
  have hlex : reader.lex st = l := congrArg Prod.fst hp
  obtain rfl : s' = s := congrArg Prod.snd hp
  rw [feedChunk, h.done, if_neg Bool.false_ne_true, hoffset, if_neg (not_not.2 rfl)]
  dsimp only
  rw [hquotes, Result.ok_bind, hst, Result.ok_bind]
  rcases hcases with ⟨hdone, hanswers, hreturned, hfull⟩ | ⟨hdone, hl, hdecodes'⟩
  · rw [← hrecords] at hanswers
    obtain ⟨batch, hbatch, hshows⟩ := buildBatch_of_answers
      (r := { r with
        lexical := (r.lexical.consume o.delimiter (r.plan.sourceOffset + pre.length)
          (chunk ++ extra)).1
        readerState := st
        decode := s' }) ha.sound.rows_le ha.sound.columns_le
      (fun hzero => absurd hzero ha.sound.pos.ne') ha.window hanswers
    rw [decide_eq_true hreturned] at hbatch
    rw [hdone, if_pos rfl, hbatch]
    refine ⟨_, _, rfl, hshows, .inr ?_⟩
    rw [hfeed]
    exact hfull
  · have hnil : extra = [] := by
      by_contra hne
      have hfull := (hextra hne).2
      rw [hfeed] at hfull
      rw [hdecodes'.done, decide_eq_false_iff_not] at hdone
      exact hdone hfull
    rw [hnil, List.append_nil] at hst ⊢
    -- A chunk that is not empty uses up the reader's look for a mark.
    have hpieces : ∀ more, reader.KeepsPieces r.readerState (chunk :: more) →
        reader.KeepsPieces st more := by
      intro more hmore
      cases hchunk : chunk with
      | nil =>
        rw [hchunk] at hst
        cases hst
        exact hmore.2 hchunk
      | cons b bs =>
        exact Reader.keepsPieces_of_hasRead (hasRead_drive hst (by simp [hchunk])
          (by simp [hchunk]) h.done) more
    have hfollowing : Following { r with
        lexical := (r.lexical.consume o.delimiter (r.plan.sourceOffset + pre.length) chunk).1
        readerState := st
        decode := s' } (pre ++ chunk) := by
      refine ⟨hdone, ?_, ?_⟩
      · rw [hfeed]
        exact hlex.trans hl
      · rw [hfeed, List.length_append]
        exact hdecodes'
    rw [hdone, if_neg Bool.false_ne_true]
    cases eof with
    | false => exact ⟨_, _, rfl, rfl, rfl, rfl, rfl, rfl, hfollowing, hpieces⟩
    | true =>
      obtain ⟨hpost, hopen⟩ := heof rfl
      rw [hpost, List.append_nil] at ha
      obtain ⟨batch, hbatch, hshows⟩ := finishEof_of_following
        (r := { r with
          lexical := (r.lexical.consume o.delimiter (r.plan.sourceOffset + pre.length) chunk).1
          readerState := st
          decode := s' }) hfollowing ⟨ha.sound, ha.window, ha.quiet, ha.room⟩
        fun hstrict => hopen hstrict hnil
      rw [if_pos rfl, hbatch]
      exact ⟨_, _, rfl, hshows, .inl rfl⟩

/-- What a decoder is fed after the `n` bytes it needs: the rest of the chunk with the last of
    them. -/
def overshoot : ℕ → List (List UInt8) → List UInt8
  | _, [] => []
  | n, chunk :: more => if n ≤ chunk.length then chunk.drop n else overshoot (n - chunk.length) more

theorem overshoot_of_flatten {n : ℕ} {chunks : List (List UInt8)} (h : chunks.flatten = []) :
    overshoot n chunks = [] := by
  induction chunks generalizing n with
  | nil => rfl
  | cons chunk more ih =>
    rw [List.flatten_cons, List.append_eq_nil_iff] at h
    rw [overshoot, h.1, List.drop_nil, ih h.2, ite_self]

/-- A chunk before the last of the needed bytes, and the others. -/
theorem exists_split_of_lt {chunk rest : List UInt8} {more : List (List UInt8)}
    (hrest : rest <+: chunk ++ more.flatten) (hlt : ¬rest.length ≤ chunk.length) :
    ∃ post, rest = chunk ++ post ∧ post <+: more.flatten ∧ more ≠ [] := by
  obtain ⟨post, rfl⟩ : chunk <+: rest := List.prefix_of_prefix_length_le
    (List.prefix_append _ _) hrest (Nat.le_of_not_le hlt)
  have hpost : post <+: more.flatten := (List.prefix_append_right_inj chunk).1 hrest
  refine ⟨post, rfl, hpost, ?_⟩
  rintro rfl
  rw [List.eq_nil_of_prefix_nil hpost, List.append_nil] at hlt
  exact hlt le_rfl

/-- A decoder reads its window, whatever the chunks, as long as no quote stops it. -/
theorem decodeChunks_of_following {pre rest : List UInt8} (h : r.Following pre)
    (ha : r.Ahead (pre ++ rest) rows) {chunks : List (List UInt8)} (hne : chunks ≠ [])
    (hbom : reader.KeepsPieces r.readerState chunks)
    (hrest : rest <+: chunks.flatten) (hfull : rest = chunks.flatten ∨
      (r.plan.window (OpenRecord.start.feed o.delimiter (pre ++ rest)).1).length =
        r.plan.request.rowCount)
    (hquiet : o.mode = .strict → (r.lexical.consume o.delimiter
      (r.plan.sourceOffset + pre.length) (rest ++ overshoot rest.length chunks)).2 = [])
    (hopen : o.mode = .strict → rest = chunks.flatten → (r.lexical.consume o.delimiter
      (r.plan.sourceOffset + pre.length) rest).1.unclosedQuoteOffset = none)
    (hlen : r.plan.sourceOffset + (pre ++ chunks.flatten).length ≤ u64Max) :
    ∃ batch, r.decodeChunks (r.plan.sourceOffset + pre.length) chunks = .ok batch ∧
      Shows batch r.plan.request rows := by
  induction chunks generalizing r pre rest with
  | nil => exact absurd rfl hne
  | cons chunk more ih =>
    rw [List.flatten_cons] at hrest hfull hlen hopen
    rw [overshoot] at hquiet
    rw [← List.append_assoc, List.length_append] at hlen
    by_cases hle : rest.length ≤ chunk.length
    · -- The last byte is in this chunk.
      obtain ⟨extra, rfl⟩ : rest <+: chunk := List.prefix_of_prefix_length_le hrest
        (List.prefix_append _ _) hle
      rw [if_pos hle, List.drop_left] at hquiet
      have hwhole : rest = rest ++ extra ++ more.flatten → extra = [] ∧ more.flatten = [] := by
        intro h
        have hlength := congrArg List.length h
        rw [List.length_append, List.length_append] at hlength
        exact ⟨List.length_eq_zero_iff.1 (by omega), List.length_eq_zero_iff.1 (by omega)⟩
      obtain ⟨r', status, hfeed, hstatus⟩ := feedChunk_of_following h rest extra []
        more.isEmpty hbom.1 (by rwa [List.append_nil]) (fun hextra => ⟨rfl, hfull.resolve_left
          fun h => hextra (hwhole h).1⟩) hquiet (by omega) (fun hempty =>
            ⟨rfl, fun hstrict hextra =>
              hopen hstrict (by rw [List.isEmpty_iff.1 hempty, hextra]; simp)⟩)
      rw [decodeChunks, hfeed, Result.ok_bind]
      cases status with
      | complete batch => exact ⟨batch, rfl, hstatus.1⟩
      | needMore =>
        obtain ⟨hmore, hextra, hplan, hschema, hlexical, hfollowing, hpieces⟩ := hstatus
        rw [hextra, List.append_nil] at hbom
        have hall : rest = rest ++ extra ++ more.flatten := hfull.resolve_right fun hfull => by
          have hdone := hfollowing.decodes.done
          rw [hfollowing.done, hplan, eq_comm, decide_eq_false_iff_not] at hdone
          exact hdone hfull
        have hnil := (hwhole hall).2
        have hnext := @ih _ _ [] hfollowing (by
            rw [List.append_nil]
            exact ha.congr hplan hschema) (by
            rwa [ne_eq, ← List.isEmpty_iff, Bool.not_eq_true]) (hpieces _ hbom)
          List.nil_prefix (.inl hnil.symm) (fun _ => by
            rw [overshoot_of_flatten hnil]
            rfl) (fun hstrict _ => by
            rw [hlexical]
            exact hopen hstrict hall) (by
            rw [hplan, List.length_append, hnil, List.length_nil]
            rw [hextra, List.append_nil] at hlen
            omega)
        rw [hextra, List.append_nil]
        rw [hplan, List.length_append, ← Nat.add_assoc] at hnext
        exact hnext
    · -- There is more to come after this chunk.
      obtain ⟨post, rfl, hpost, hmore⟩ := exists_split_of_lt hrest hle
      rw [if_neg hle, List.length_append, Nat.add_sub_cancel_left, List.append_assoc,
        QuoteTracker.consume_append] at hquiet
      obtain ⟨r', status, hfeed, hstatus⟩ := feedChunk_of_following h chunk [] post
        more.isEmpty (by
          rw [List.append_nil]
          exact hbom.1) ha (fun hextra => absurd rfl hextra) (fun hstrict => by
          rw [List.append_nil]
          exact (List.append_eq_nil_iff.1 (hquiet hstrict)).1) (by
          rw [List.append_nil]
          omega) (fun hempty => absurd (List.isEmpty_iff.1 hempty) hmore)
      rw [List.append_nil] at hfeed
      rw [decodeChunks, hfeed, Result.ok_bind]
      cases status with
      | complete batch => exact ⟨batch, rfl, hstatus.1⟩
      | needMore =>
        obtain ⟨_, _, hplan, hschema, hlexical, hfollowing, hpieces⟩ := hstatus
        rw [← List.append_assoc] at ha hfull
        have hnext := ih hfollowing (ha.congr hplan hschema) hmore (hpieces _ hbom) hpost (by
            rw [hplan]
            exact hfull.imp_left fun h => List.append_cancel_left h) (fun hstrict => by
            rw [hlexical, hplan, List.length_append, ← Nat.add_assoc]
            exact (List.append_eq_nil_iff.1 (hquiet hstrict)).2) (fun hstrict hall => by
            have hunclosed := hopen hstrict (congrArg (chunk ++ ·) hall)
            rw [QuoteTracker.consume_append] at hunclosed
            rw [hlexical, hplan, List.length_append, ← Nat.add_assoc]
            exact hunclosed) (by
            rw [hplan, List.length_append]
            exact hlen)
        rw [hplan, List.length_append, ← Nat.add_assoc] at hnext
        exact hnext

end RangeDecoder

/-! ## Scanner states -/

namespace CsvScanner

variable {reader : Reader o.delimiter}

/-- A scanner that has accepted the bytes `pre`, in any chunks. -/
inductive Fed (reader : Reader o.delimiter) : CsvScanner reader → List UInt8 → Prop
  | new {c : CsvScanner reader} : new reader = .ok c → Fed reader c []
  | feed {c c' : CsvScanner reader} {pre chunk : List UInt8} {eof : Bool} {update : ScanUpdate} :
    Fed reader c pre → c.feedChunk pre.length chunk eof = .ok (c', update) →
    Fed reader c' (pre ++ chunk)

/-- After `pre`, which `eof` says is all, it is settled where the table starts, and that it
    starts with `body`. -/
structure Settles (eof : Bool) (pre : List UInt8) (base : ℕ) (body : List UInt8) : Prop where
  length : base + body.length = pre.length
  table : ∀ more, (eof = true → more = []) →
    tableBase (pre ++ more) = base ∧ tableBytes (pre ++ more) = body ++ more

theorem settles_mark (eof : Bool) (body : List UInt8) : Settles eof (utf8Bom ++ body) 3 body where
  length := by
    rw [List.length_append]
    rfl
  table more _ := by
    rw [List.append_assoc, tableBytes, tableBase_of_marked (List.prefix_append _ _)]
    exact ⟨rfl, rfl⟩

variable {eof : Bool}

theorem settles_of_unmarked {body : List UInt8}
    (h : ∀ more, (eof = true → more = []) → ¬utf8Bom <+: body ++ more) :
    Settles eof body 0 body where
  length := Nat.zero_add _
  table more hmore := by
    rw [tableBytes, tableBase_of_unmarked (h more hmore)]
    exact ⟨rfl, rfl⟩

variable {base : ℕ}

theorem Settles.append {pre body : List UInt8} (h : Settles false pre base body)
    (eof : Bool) (chunk : List UInt8) : Settles eof (pre ++ chunk) base (body ++ chunk) where
  length := by rw [List.length_append, List.length_append, ← h.length, Nat.add_assoc]
  table more _ := by
    rw [List.append_assoc, List.append_assoc]
    exact h.table _ nofun

/-- A strict scanner that has parsed `body` had nothing to report. -/
def Silent (c : CsvScanner reader) (base : ℕ) (body : List UInt8) : Prop :=
  o.mode = .strict →
    c.lexical = (QuoteTracker.consume o.delimiter {} base body).1 ∧
      (QuoteTracker.consume o.delimiter {} base body).2 = [] ∧
      c.scan.index.Uniform (OpenRecord.start.feed o.delimiter body).1
        (OpenRecord.start.feed o.delimiter body).2

/-- A strict scanner that has parsed all of `pre` had nothing to report. -/
def Accepted (c : CsvScanner reader) (pre : List UInt8) : Prop :=
  o.mode = .strict → QuoteTracker.Clean o.delimiter {} (tableBase pre) (tableBytes pre) ∧
    c.scan.index.Uniform (records o.delimiter (tableBytes pre)) .start

/-- What a scanner knows after `pre`. -/
inductive Stage : CsvScanner reader → List UInt8 → Prop
  | holding {pre : List UInt8} : PartOfBom pre → Stage (holding reader pre) pre
  | parsing {c : CsvScanner reader} {pre body : List UInt8} {base : ℕ} : c.Parsing base body →
    c.Silent base body → c.bytesReceived = pre.length → Settles false pre base body →
    (∀ more, reader.Keeps (pre ++ more) → ¬reader.DropsBom c.readerState more) → Stage c pre
  | finished {c : CsvScanner reader} {pre : List UInt8} : c.finished = true →
    c.scan.index.IndexesWith (fun k n =>
      RecordStarts o.delimiter (tableBase pre) (tableBytes pre) k n ∨
      k = tableBase pre + (tableBytes pre).length ∧
        n = (records o.delimiter (tableBytes pre)).length) (tableBase pre) (tableBytes pre) →
    c.Accepted pre → Stage c pre

theorem silent_starting (reader : Reader o.delimiter) (received base : ℕ) :
    (starting reader received base).Silent base [] := fun _ =>
  ⟨rfl, rfl, ⟨⟨⟨nofun, nofun⟩, nofun⟩, nofun, nofun⟩⟩

variable {c : CsvScanner reader}

/-- A piece that a strict scanner accepts was silent. -/
theorem silent_of_piece {body rest : List UInt8}
    (hc : c.Parsing base body) (hs : c.Silent base body) {p : ScanPoint o}
    {ds : List CsvDiagnostic} (hrun : (c.point.piece rest).run o c.scan.diagnostics = .ok (p, ds))
    (st : reader.State) :
    Silent { c with readerState := st, lexical := p.lexical, scan := ⟨p.index, ds⟩ } base
      (body ++ rest) := by
  intro hstrict
  obtain ⟨hlexical, hissues, huniform⟩ := hs hstrict
  have hevents := Emit.events_of_run hstrict hrun
  obtain ⟨hp, hbytes⟩ := ScanPoint.piece_eq_ok (Emit.run_eq_ok.1 hrun).2
  rw [ScanPoint.piece, Emit.bind_mk_ok] at hevents
  obtain ⟨hquotes, hrecords⟩ := List.append_eq_nil_iff.1 hevents
  rw [Emit.bind_events_of_ok hbytes] at hrecords
  rw [quoteEvents, List.map_eq_nil_iff] at hquotes
  dsimp only [point] at hp hquotes hrecords hbytes
  rw [hlexical, hc.tracks.parserOffset] at hp hquotes
  rw [hc.lex] at hrecords hbytes
  rw [QuoteTracker.consume_append, hissues]
  exact ⟨hp, hquotes, (ScanIndex.Uniform.bytes hc.tracks huniform hbytes).1
    (List.append_eq_nil_iff.1 hrecords).1⟩

theorem parsing_of_parseRest {c c' : CsvScanner reader}
    {body rest : List UInt8} (hc : c.Parsing base body) (hs : c.Silent base body)
    (hlen : c.scan.index.parserOffset + rest.length ≤ maxSafeInteger)
    (hbom : ¬reader.DropsBom c.readerState rest) (h : c.parseRest rest = .ok c') :
    c'.Parsing base (body ++ rest) ∧ c'.Silent base (body ++ rest) ∧ ∀ more,
      reader.KeepsPieces c.readerState (rest :: more) → reader.KeepsPieces c'.readerState more := by
  have hparse := parseRest_eq hc hlen hbom
  cases hrun : (c.point.piece rest).run o c.scan.diagnostics with
  | error e =>
    rw [hrun] at hparse
    rw [hparse] at h
    cases h
  | ok run =>
    rw [hrun] at hparse
    obtain ⟨st, hok, hparsing, _, _, hpieces⟩ := hparse
    rw [hok] at h
    cases h
    exact ⟨hparsing, silent_of_piece hc hs hrun st, hpieces⟩

/-- The rest of a chunk is parsed, and the chunk closed. -/
theorem stage_of_parseRest {c c' : CsvScanner reader}
    {pre body rest : List UInt8} (hc : c.Parsing base body)
    (hs : c.Silent base body) (hreceived : c.bytesReceived = pre.length)
    (hsettles : Settles eof pre base (body ++ rest))
    (hlen : pre.length ≤ maxSafeInteger) (hkeeps : reader.Keeps pre)
    (hbom : ∀ more, (eof = true → more = []) → reader.Keeps (pre ++ more) →
      reader.KeepsPieces c.readerState [rest, more])
    (h : (c.parseRest rest >>= fun c => c.closeChunk eof) = .ok c') : Stage c' pre := by
  obtain ⟨c₁, hparse, h⟩ := Result.bind_eq_ok.1 h
  have hlength := hsettles.length
  rw [List.length_append] at hlength
  obtain ⟨hparsing, hsilent, hpieces⟩ := parsing_of_parseRest hc hs
    (by rw [hc.tracks.parserOffset]; omega)
    (hbom [] (fun _ => rfl) (by rwa [List.append_nil])).1 hparse
  have hbody : (body ++ rest).length ≤ maxSafeInteger := by
    rw [List.length_append]
    omega
  cases eof with
  | false =>
    rw [closeChunk_false_eq hparsing hbody] at h
    cases h
    exact .parsing hparsing hsilent ((bytesReceived_parseRest hparse).trans hreceived) hsettles
      fun more hmore => (hpieces _ (hbom more (absurd · Bool.false_ne_true) hmore)).1
  | true =>
    rw [closeChunk_true_eq hparsing hbody] at h
    obtain ⟨p, hp, rfl⟩ := Result.map_eq_ok.1 h
    have heof := (Emit.run_eq_ok.1 hp).2
    rw [ScanPoint.finish, Emit.bind_mk_ok, point, hparsing.lex] at heof
    obtain ⟨hbase, htable⟩ := hsettles.table [] fun _ => rfl
    rw [List.append_nil] at htable hbase
    rw [List.append_nil] at htable
    refine .finished rfl ?_ fun hstrict => ?_
    · rw [hbase, htable]
      exact ScanIndex.Tracks.closes hparsing.tracks heof
    · obtain ⟨hlexical, hissues, huniform⟩ := hsilent hstrict
      have hevents := Emit.events_of_run hstrict hp
      rw [ScanPoint.finish, Emit.bind_mk_ok, point, hparsing.lex, hlexical] at hevents
      obtain ⟨hopen, hend⟩ := List.append_eq_nil_iff.1 hevents
      rw [hbase, htable]
      exact ⟨⟨hissues, unclosedEvents_eq_nil.1 hopen⟩, (huniform.eof hparsing.tracks heof).1 hend⟩

/-- A chunk after held-back bytes: more of them, the end of the mark, or no mark. -/
theorem stage_of_holding {c' : CsvScanner reader}
    {pre chunk : List UInt8} (hpart : PartOfBom pre)
    (hlen : pre.length + chunk.length ≤ maxSafeInteger) (hkeeps : reader.Keeps (pre ++ chunk))
    (h : ((holding reader pre).feedChunk (holding reader pre).bytesReceived chunk eof).map
      Prod.fst = .ok c') :
    Stage c' (pre ++ chunk) := by
  have happ := holdBom_append pre chunk
  have hlength : (holdBom pre chunk).1.length + (holdBom pre chunk).2.length =
      pre.length + chunk.length := by
    rw [← List.length_append, happ, List.length_append]
  have hle := length_holdBom_le pre chunk
  have hresolve := @resolveBom_holding o reader pre chunk (pre.length + chunk.length) eof
  have hchunk : (pre ++ chunk).length = pre.length + chunk.length := List.length_append
  have hclosed := h
  rw [feedChunk_eq (c := holding reader pre) rfl hlen eof] at h
  change (resolveBom { holding reader pre with
    bytesReceived := pre.length + chunk.length } chunk eof >>= _) = _ at h
  by_cases hwait : ((holdBom pre chunk).1.isPrefixOf utf8Bom &&
      (holdBom pre chunk).1.length != utf8Bom.length && !eof) = true
  · rw [hresolve, if_pos hwait] at h
    simp only [Bool.and_eq_true, List.isPrefixOf_iff_prefix, bne_iff_ne, Bool.not_eq_true'] at hwait
    obtain ⟨⟨htake, hne⟩, rfl⟩ := hwait
    rcases holdBom_cases hpart chunk with ⟨hpart', hrest⟩ | hmark | ⟨hnone, _⟩
    · rw [hrest, List.append_nil] at happ
      rw [happ] at h hpart'
      have hclose := h
      change (closeChunk { holding reader (pre ++ chunk) with
        bytesReceived := pre.length + chunk.length } false) = _ at hclose
      rw [closeChunk, if_neg Bool.false_ne_true, Result.ok_bind] at hclose
      obtain ⟨_, _, hclose⟩ := Result.bind_eq_ok.1 hclose
      obtain rfl : holding reader (pre ++ chunk) = c' := by
        rw [← Except.ok.inj hclose, ← hchunk]
        rfl
      exact .holding hpart'
    · exact absurd (congrArg List.length hmark) hne
    · exact absurd htake hnone
  · rw [if_neg hwait] at hresolve
    by_cases hmark : (holdBom pre chunk).1 = utf8Bom
    · rw [if_pos hmark] at hresolve
      rw [hmark] at happ hlength
      change 3 + _ = _ at hlength
      rw [feedChunk_of_resolve (c := holding reader pre) rfl hlen hresolve rfl (by
          change 3 = pre.length + _
          omega)] at hclosed
      refine stage_of_parseRest (parsing_starting reader _ 3) (silent_starting reader _ 3)
        hchunk.symm
        (by rw [← happ]; exact settles_mark eof _) (by rw [hchunk]; exact hlen) hkeeps
        (fun more _ hmore => keepsPieces_of_mark hmark ?_) hclosed
      rwa [List.flatten_cons, List.flatten_singleton, ← List.append_assoc]
    · rw [if_neg hmark] at hresolve
      rw [hresolve] at h
      obtain ⟨⟨c₁, rest⟩, hr, _⟩ := Result.bind_eq_ok.1 h
      obtain ⟨c₂, hparse, hr⟩ := Result.bind_eq_ok.1 hr
      cases hr
      rw [hparse, Result.ok_bind] at hresolve
      have hunmarked : ∀ more, (eof = true → more = []) → ¬utf8Bom <+: pre ++ chunk ++ more := by
        intro more hmore
        rw [← happ, List.append_assoc]
        rcases holdBom_cases hpart chunk with ⟨hpart', hrest⟩ | h | ⟨hnone, hle'⟩
        · -- Only the end of the file can settle this.
          have heof : eof = true := by
            by_contra hne
            exact hwait (by simp [hpart'.1, hpart'.2.ne, hne, show utf8Bom.length = 3 from rfl])
          rw [hrest, hmore heof, List.append_nil, List.append_nil]
          exact not_prefix_of_part hpart'
        · exact absurd h hmark
        · exact not_prefix_of_held hle' hnone
      have hpieces : ∀ more, (eof = true → more = []) → reader.KeepsPieces reader.fresh
          [(holdBom pre chunk).1, (holdBom pre chunk).2, more] := fun more hmore =>
        Reader.keepsPieces_of_flatten fun hd => hunmarked more hmore (by
          rw [← happ, List.append_assoc]
          simpa using hd.2.2)
      obtain ⟨hparsing, hsilent, hkept⟩ := parsing_of_parseRest (parsing_starting reader _ 0)
        (silent_starting reader _ 0) (show 0 + _ ≤ _ by omega) (hpieces [] fun _ => rfl).1 hparse
      rw [List.nil_append] at hparsing hsilent
      have hreceived := bytesReceived_parseRest hparse
      rw [feedChunk_of_resolve (c := holding reader pre) rfl hlen hresolve hparsing.bomResolved (by
          rw [hparsing.tracks.parserOffset]
          change 0 + _ = pre.length + _
          omega)] at hclosed
      refine stage_of_parseRest hparsing hsilent (hreceived.trans hchunk.symm) ?_
        (by rw [hchunk]; exact hlen) hkeeps
        (fun more hmore _ => hkept _ (hpieces more hmore)) hclosed
      rw [happ]
      exact settles_of_unmarked hunmarked

/-- A chunk that a scanner accepts takes it to its next stage. -/
theorem Stage.feed {c c' : CsvScanner reader}
    {pre chunk : List UInt8} {update : ScanUpdate} (h : Stage c pre)
    (hlen : (pre ++ chunk).length ≤ maxSafeInteger) (hkeeps : reader.Keeps (pre ++ chunk))
    (hfeed : c.feedChunk pre.length chunk eof = .ok (c', update)) : Stage c' (pre ++ chunk) := by
  have hmap : (c.feedChunk pre.length chunk eof).map Prod.fst = .ok c' := by rw [hfeed]; rfl
  rw [List.length_append] at hlen
  cases h with
  | @parsing _ _ body base hc hsilent hreceived hsettles hbom =>
    rw [← hreceived, @feedChunk_of_resolve o reader c
      { c with bytesReceived := c.bytesReceived + chunk.length } hc.finished chunk _
      (by omega) _ (by
        rw [resolveBom, if_pos hc.bomResolved]) hc.bomResolved (by
        change c.scan.index.parserOffset = _
        rw [hc.tracks.parserOffset, hsettles.length, hreceived, Nat.sub_self]
        rfl)] at hmap
    refine stage_of_parseRest (c := { c with
      bytesReceived := c.bytesReceived + chunk.length })
      ⟨hc.bomResolved, hc.finished, hc.lex, hc.tracks⟩ hsilent ?_ (hsettles.append eof chunk) ?_
      hkeeps (fun more _ hmore => ⟨hbom _ hkeeps, ?_⟩) hmap
    · rw [List.length_append, ← hreceived]
    · rw [List.length_append]
      exact hlen
    · rintro rfl
      rw [List.append_nil] at hmore
      exact ⟨hbom _ hmore, fun _ => trivial⟩
  | finished hfinished _ _ =>
    rw [feedChunk, hfinished, if_pos rfl] at hmap
    cases hmap
  | holding hpart => exact stage_of_holding hpart hlen hkeeps hmap

/-- Every scanner state is at a stage. -/
theorem Fed.stage {pre : List UInt8} (h : Fed reader c pre) (hkeeps : reader.Keeps pre)
    (hlen : pre.length ≤ maxSafeInteger) : Stage c pre := by
  induction h with
  | new hnew =>
    obtain ⟨_, _, hnew⟩ := Result.bind_eq_ok.1 hnew
    cases hnew
    exact .holding ⟨List.nil_prefix, Nat.zero_lt_succ 2⟩
  | feed hfed hfeed ih =>
    refine (ih (hkeeps.of_prefix (List.prefix_append _ _)) ?_).feed hlen hkeeps hfeed
    rw [List.length_append] at hlen
    omega

/-! ## Plans -/

/-- The nearest checkpoint is at or before the row, and is missing only before the first
    row. -/
theorem nearestCheckpoint_cases {base len : ℕ} {recs : List Record}
    {p : OpenRecord} {startsAt : ℕ → ℕ → Prop}
    (h : c.scan.index.Describes base len recs p startsAt) (row : ℕ) :
    (∃ checkpoint, c.nearestCheckpoint row = some checkpoint ∧
        checkpoint ∈ c.scan.index.checkpoints ∧ checkpoint.row ≤ row) ∨
      c.nearestCheckpoint row = none ∧ c.scan.index.rows = 0 := by
  rw [nearestCheckpoint]
  cases hcheckpoints : c.scan.index.checkpoints with
  | nil =>
    refine .inr ⟨rfl, ?_⟩
    have hrows := h.checkpoint_rows
    rw [hcheckpoints] at hrows
    by_contra hne
    -- Row 0 always has a checkpoint.
    have hzero : 0 ∈ (List.range c.scan.index.rows).filter
        fun row => row % o.checkpointInterval = 0 := by
      rw [List.mem_filter, List.mem_range]
      exact ⟨Nat.pos_of_ne_zero hne, by simp⟩
    rw [← hrows] at hzero
    cases hzero
  | cons checkpoint more =>
    have hrow : checkpoint.row = 0 := by
      have hrows := h.checkpoint_rows
      rw [hcheckpoints, List.map_cons] at hrows
      cases hn : c.scan.index.rows with
      | zero =>
        rw [hn] at hrows
        cases hrows
      | succ n =>
        rw [hn, List.range_succ_eq_map, List.filter_cons, if_pos (by simp)] at hrows
        exact (List.cons.inj hrows).1
    have hpositive : 0 < ((checkpoint :: more).takeWhile fun p => p.row ≤ row).length := by
      rw [List.takeWhile_cons, if_pos (by simp [hrow]), List.length_cons]
      exact Nat.succ_pos _
    have htake := List.takeWhile_prefix (l := checkpoint :: more)
      fun p : CsvCheckpoint => decide (p.row ≤ row)
    have hlt : ((checkpoint :: more).takeWhile fun p => p.row ≤ row).length - 1 <
        ((checkpoint :: more).takeWhile fun p => p.row ≤ row).length := by omega
    have hmem := List.getElem_mem hlt
    rw [if_neg (by omega), List.prefix_iff_getElem?.1 htake _ hlt]
    have hle := List.mem_takeWhile_imp hmem
    exact .inl ⟨_, rfl, htake.subset hmem, of_decide_eq_true hle⟩

/-- What a scanner checked and chose for a plan. -/
theorem planRange_eq_ok {plan : RangePlan} (h : c.planRange request = .ok plan) :
    plan.request = request ∧ request.validatePublic = .ok () ∧
      request.columnStart + request.columnCount ≤ c.scan.index.columns.length ∧
      (0 < request.rowCount → c.finished = false → request.rowStart < c.scan.index.rows) ∧
      plan.checkpoint = (c.nearestCheckpoint request.rowStart).getD
        ⟨c.scan.index.rows, c.scan.index.parserOffset⟩ := by
  obtain ⟨_, hvalid, h⟩ := Result.bind_eq_ok.1 h
  obtain ⟨_, hpublic, hvalid⟩ := Result.bind_eq_ok.1 hvalid
  obtain ⟨cells, _, hvalid⟩ := Result.bind_eq_ok.1 hvalid
  have hcolumns : request.columnStart + request.columnCount ≤ c.scan.index.columns.length := by
    split_ifs at hvalid with hcells
    obtain ⟨columnEnd, hend, hvalid⟩ := Result.bind_eq_ok.1 hvalid
    split_ifs at hvalid with hcolumns
    rw [← (checkedEnd_eq_ok hend).1]
    exact not_lt.1 hcolumns
  split_ifs at h with hindexed
  cases h
  refine ⟨rfl, hpublic, hcolumns, fun hpos hfinished => ?_, rfl⟩
  by_contra hle
  exact hindexed ⟨hpos, hfinished, not_lt.1 hle⟩

/-- At the offset `k` of a source, its rows go on with row number `n`. -/
def RowStartsAt (o : DelimitedOptions) (source : List UInt8) (k n : ℕ) : Prop :=
  ∃ i, k = tableBase source + i ∧ i ≤ (tableBytes source).length ∧
    records o.delimiter ((tableBytes source).drop i) =
      (dataRecords o (records o.delimiter (tableBytes source))).drop n

/-- A plan starts at a row at or before the requested ones. -/
theorem rowStartsAt_of_describes {source : List UInt8}
    {base len : ℕ} {recs : List Record} {p : OpenRecord} {startsAt : ℕ → ℕ → Prop}
    (h : c.scan.index.Describes base len recs p startsAt)
    (hat : ∀ k row, startsAt k (row + headerRecords o) → RowStartsAt o source k row)
    (hend : c.finished = true → c.scan.index.rows = 0 →
      RowStartsAt o source c.scan.index.parserOffset 0)
    {plan : RangePlan} (hplan : c.planRange request = .ok plan)
    (hpos : 0 < request.rowCount) :
    plan.Sound ∧ RowStartsAt o source plan.sourceOffset plan.checkpoint.row := by
  obtain ⟨rfl, hvalid, hcolumns, hindexed, hcheckpoint⟩ := planRange_eq_ok hplan
  obtain ⟨hrows, _⟩ := RangeRequest.le_of_validatePublic hvalid
  have hcolumnsLe := hcolumns.trans (h.columns_le.trans o.limits.maxColumns_le)
  rw [RangePlan.sourceOffset]
  rcases nearestCheckpoint_cases h plan.request.rowStart with
    ⟨checkpoint, hnearest, hmem, hle⟩ | ⟨hnearest, hzero⟩
  · rw [hnearest, Option.getD_some] at hcheckpoint
    rw [← hcheckpoint] at hmem hle
    exact ⟨⟨hrows, hcolumnsLe, hpos, hle⟩, hat _ _ (h.checkpoints _ hmem)⟩
  · -- No row is indexed, so only the end of the file accepts the request.
    have hfinished : c.finished = true := by
      by_contra hne
      have := hindexed hpos (by rwa [Bool.not_eq_true] at hne)
      omega
    rw [hnearest, Option.getD_none, hzero] at hcheckpoint
    rw [hcheckpoint]
    exact ⟨⟨hrows, hcolumnsLe, hpos, by rw [hcheckpoint]; exact Nat.zero_le _⟩,
      hend hfinished hzero⟩

/-- What a range read relies on in the plan of a scanner. -/
structure Planned (c : CsvScanner reader) (source : List UInt8) (plan : RangePlan) : Prop where
  sound : plan.Sound
  rowStartsAt : RowStartsAt o source plan.sourceOffset plan.checkpoint.row
  schema : ∃ schema, Schema.new c.scan.index.schemaVersion c.scan.index.columns = .ok schema ∧
    schema.columns = c.scan.index.columns ∧
      plan.request.columnStart + plan.request.columnCount ≤ schema.columns.length

/-- The plans of a scanner that has accepted part of a source, or all of it if it is
    finished. -/
theorem Stage.planned {pre source : List UInt8} (hstage : Stage c pre)
    (hpre : pre <+: source) (hwhole : c.finished = true → pre = source)
    {plan : RangePlan} (hplan : c.planRange request = .ok plan) (hpos : 0 < request.rowCount) :
    c.Planned source plan := by
  obtain ⟨hrequest, _, hcolumns, hindexed, _⟩ := planRange_eq_ok hplan
  rw [← hrequest] at hcolumns
  cases hstage with
  | holding _ => exact absurd (hindexed hpos rfl) (Nat.not_lt_zero _)
  | @parsing _ _ body base hc _ _ hsettles _ =>
    obtain ⟨more, rfl⟩ := hpre
    obtain ⟨hbase, htable⟩ := hsettles.table more nofun
    obtain ⟨schema, hschema, heq⟩ := schema_of_describes hc.tracks
    obtain ⟨hsound, hstarts⟩ := rowStartsAt_of_describes hc.tracks
      (fun k row ⟨i, hk, hi⟩ => by
        have hmore := hi.append more
        rw [RowStartsAt, hbase, htable, drop_dataRecords]
        exact ⟨i, hk, hmore.1, hmore.records_drop⟩)
      (fun hfinished => absurd hfinished (by simp [hc.finished])) hplan hpos
    exact ⟨hsound, hstarts, schema, hschema, heq, heq ▸ hcolumns⟩
  | finished hfinished hindexes _ =>
    obtain rfl := hwhole hfinished
    obtain ⟨schema, hschema, heq⟩ := schema_of_describes hindexes
    obtain ⟨hsound, hstarts⟩ := rowStartsAt_of_describes hindexes
      (fun k row hat => by
        rw [RowStartsAt, drop_dataRecords]
        rcases hat with ⟨i, hk, hi⟩ | ⟨hk, hrow⟩
        · exact ⟨i, hk, hi.le, hi.records_drop⟩
        · exact ⟨_, hk, le_rfl, by rw [hrow, List.drop_length, List.drop_length]; rfl⟩)
      (fun _ hrows => ⟨_, hindexes.parserOffset, le_rfl, by
        rw [hindexes.rows] at hrows
        rw [List.drop_length, List.drop_zero, List.eq_nil_of_length_eq_zero hrows]
        rfl⟩) hplan hpos
    exact ⟨hsound, hstarts, schema, hschema, heq, heq ▸ hcolumns⟩

end CsvScanner

/-! ## Range reads -/

/-- A source whose records and requested rows are within the limits. -/
structure WithinLimits (o : DelimitedOptions) (source : List UInt8) (request : RangeRequest) :
    Prop where
  fits : ∀ record ∈ records o.delimiter (tableBytes source), Fits o record
  batch : encodedRows request
    (((dataRecords o (records o.delimiter (tableBytes source))).drop request.rowStart).take
      request.rowCount) ≤ o.limits.maxBatchBytes

namespace CsvScanner

variable {reader : Reader o.delimiter}

/-- A fresh decoder has followed the parse of no bytes. -/
theorem rangeDecoder_eq {c : CsvScanner reader} {plan : RangePlan} {schema : Schema}
    (hschema : Schema.new c.scan.index.schemaVersion c.scan.index.columns = .ok schema)
    (hcolumns : plan.request.columnStart + plan.request.columnCount ≤ usizeMax)
    (hstop : plan.request.columnStart + plan.request.columnCount ≤ schema.columns.length)
    (hbatch : plan.request.columnCount * 4 ≤ o.limits.maxBatchBytes) :
    ∃ decoder, c.rangeDecoder plan = .ok decoder ∧ decoder.plan = plan ∧
      decoder.schema = schema ∧ decoder.lexical = {} ∧
      decoder.readerState = reader.fresh ∧ Decodes plan decoder.decode 0 [] .start := by
  have hbatchMax := o.limits.maxBatchBytes_le
  have hwindow : plan.window [] = [] := by rw [RangePlan.window, List.drop_nil, List.take_nil]
  rw [rangeDecoder, hschema, Result.ok_bind, RangeDecoder.new, toUsize_of_le (by omega),
    Result.ok_bind, toUsize_of_le (by omega), Result.ok_bind, checkedMul, if_pos (by omega),
    Result.ok_bind, if_neg (not_lt.2 hbatch)]
  refine ⟨_, rfl, rfl, rfl, rfl, rfl, ?_⟩
  exact {
    expectedOffset := rfl
    field := rfl
    fieldIndex := rfl
    currentRow := rfl
    length_values := List.length_replicate
    length_valid := List.length_replicate
    selected := by
      refine List.ext_getElem (by simp) fun j hj _ => ?_
      simp [DecodeState.cellValue, cell, OpenRecord.start]
    builders := by
      refine List.forall₂_iff_get.2 ⟨?_, fun j hj _ => ?_⟩
      · simp
        omega
      · simp [hwindow, columnCells, StringColumnBuilder.holds_nil]
    data_le := by
      intro b hb
      obtain ⟨column, _, rfl⟩ := List.mem_map.1 hb
      exact Nat.zero_le _
    returnedRows := by
      simp [hwindow]
    batchBytes := by
      simp [hwindow, encodedRows]
    done := by
      simp [hwindow, eq_comm] }

/-- A decoder of a planned range starts where its rows do. -/
theorem rangeDecoder_of_planned {c : CsvScanner reader} {source : List UInt8} {plan : RangePlan}
    (h : c.Planned source plan) (hbatch : plan.request.columnCount * 4 ≤ o.limits.maxBatchBytes) :
    ∃ decoder, c.rangeDecoder plan = .ok decoder ∧ decoder.plan = plan ∧
      decoder.schema.columns = c.scan.index.columns ∧ decoder.lexical = {} ∧
      decoder.readerState = reader.fresh ∧ decoder.Following [] := by
  obtain ⟨⟨_, hcolumns, hpos, _⟩, _, schema, hschema, heq, hstop⟩ := h
  obtain ⟨decoder, hdecoder, hplan, rfl, hlexical, hfresh, hdecodes⟩ := rangeDecoder_eq hschema
    hcolumns hstop hbatch
  obtain rfl := hplan
  refine ⟨decoder, hdecoder, rfl, heq, hlexical, hfresh, ?_, hfresh ▸ reader.lex_fresh, hdecodes⟩
  rw [hdecodes.done, RangePlan.window, List.drop_nil, List.take_nil]
  exact decide_eq_false hpos.ne

/-- Every range read from a planned offset gives the requested window of the table, whichever
    way the scanner and the decoder are fed. -/
theorem decodeChunks_eq_window (hdrops : reader.dropsBom = false) (hmode : o.mode = .lenient)
    (source : ByteSource) {c : CsvScanner reader} {pre : List UInt8} (hfed : Fed reader c pre)
    (hpre : pre <+: source.bytes) (hwhole : c.finished = true → pre = source.bytes)
    {request : RangeRequest} (hpos : 0 < request.rowCount) {plan : RangePlan}
    (hplan : c.planRange request = .ok plan) (hlimits : WithinLimits o source.bytes request)
    {chunks : List (List UInt8)} (hne : chunks ≠ [])
    (hchunks : chunks.flatten = source.bytes.drop plan.sourceOffset) :
    ∃ decoder batch, c.rangeDecoder plan = .ok decoder ∧
      decoder.decodeChunks plan.sourceOffset chunks = .ok batch ∧
      Shows batch request (dataRecords o (records o.delimiter (tableBytes source.bytes))) := by
  obtain rfl := (planRange_eq_ok hplan).1
  have hstage := hfed.stage (absurd · (by simp [hdrops])) (hpre.length_le.trans source.length_le)
  have hplanned := hstage.planned hpre hwhole hplan hpos
  obtain ⟨decoder, hdecoder, rfl, _, _, _, hfollowing⟩ := rangeDecoder_of_planned hplanned
    ((Nat.le_add_right _ _).trans hlimits.batch)
  obtain ⟨i, hoffset, hi, hrecords⟩ := hplanned.rowStartsAt
  have hrest : chunks.flatten = (tableBytes source.bytes).drop i := by
    rw [hchunks, hoffset, tableBytes, List.drop_drop]
  have hlength : (tableBytes source.bytes).length ≤ source.bytes.length :=
    (List.drop_sublist _ _).length_le
  have hsafe : 3 + maxSafeInteger + maxSafeInteger ≤ u64Max := by decide
  have hsource := source.length_le
  have hwindow : decoder.plan.window (records o.delimiter chunks.flatten) =
      ((dataRecords o (records o.delimiter (tableBytes source.bytes))).drop
        decoder.plan.request.rowStart).take decoder.plan.request.rowCount := by
    rw [RangePlan.window, hrest, hrecords, List.drop_drop,
      Nat.add_sub_cancel' hplanned.sound.checkpoint_le]
  have hlengths := congrArg List.length hrest
  rw [List.length_drop] at hlengths
  have hroom : decoder.plan.Room o [] (records o.delimiter chunks.flatten) := by
    refine ⟨fun record hrecord => hlimits.fits record ?_, ?_, ?_⟩
    · rw [hrest, hrecords, drop_dataRecords] at hrecord
      exact List.mem_of_mem_drop hrecord
    · rw [List.nil_append, hwindow]
      exact hlimits.batch
    · have hcount := length_records_le o.delimiter chunks.flatten
      have hcheckpoint := hplanned.sound.checkpoint_le
      have hrows := hplanned.sound.rows_le
      rw [List.nil_append]
      omega
  have hbase : tableBase source.bytes ≤ 3 := by
    rw [tableBase]
    split_ifs <;> omega
  obtain ⟨batch, hbatch, hshows⟩ := decoder.decodeChunks_of_following hfollowing
    (show decoder.Ahead ([] ++ chunks.flatten) _ from
      ⟨hplanned.sound, hwindow, quiet_of_lenient hmode _ _, hroom⟩) hne
    (Reader.keepsPieces_of_flatten fun hd => absurd hd.1 (by simp [hdrops])) List.prefix_rfl
    (.inl rfl) (fun hstrict => absurd hstrict (by simp [hmode]))
    (fun hstrict => absurd hstrict (by simp [hmode])) (by
      rw [List.nil_append]
      omega)
  exact ⟨decoder, batch, hdecoder, hbatch, hshows⟩

/-- A table whose second row is short. -/
def shortRow : ByteSource := ⟨asciiBytes "a,b\n1,\n2\n", by decide⟩

/-- A scan of the whole source and a plan. -/
def scanAndPlan (source : List UInt8) (request : RangeRequest) :
    Result (CsvScanner (o := .csv) (.reference 44 false) × RangePlan) := do
  let c ← new _
  let fed ← c.feedChunk 0 source true
  let plan ← fed.1.planRange request
  .ok (fed.1, plan)

/-- The first two rows, and one that the source does not have. -/
theorem decodeChunks_eq_window_shortRow :
    ∃ (c : CsvScanner (o := .csv) (.reference 44 false)) (plan : RangePlan) (decoder : _)
      (batch : TableBatch), c.planRange ⟨0, 3, 0, 2⟩ = .ok plan ∧
      c.rangeDecoder plan = .ok decoder ∧
      decoder.decodeChunks plan.sourceOffset [shortRow.bytes.drop plan.sourceOffset] = .ok batch ∧
      Shows batch ⟨0, 3, 0, 2⟩ [[asciiBytes "1", []], [asciiBytes "2"]] := by
  obtain ⟨⟨c, plan⟩, h⟩ : ∃ p, scanAndPlan shortRow.bytes ⟨0, 3, 0, 2⟩ = .ok p := ⟨_, rfl⟩
  obtain ⟨c₀, hnew, h⟩ := Result.bind_eq_ok.1 h
  obtain ⟨⟨c₁, update⟩, hfeed, h⟩ := Result.bind_eq_ok.1 h
  obtain ⟨plan', hplan, h⟩ := Result.bind_eq_ok.1 h
  cases h
  have hfed : Fed _ c₁ shortRow.bytes := .feed (.new hnew) hfeed
  obtain ⟨decoder, batch, hdecoder, hbatch, hshows⟩ := decodeChunks_eq_window rfl rfl shortRow hfed
    List.prefix_rfl (fun _ => rfl) (by decide) hplan ⟨by unfold Fits; decide, by decide⟩
    (List.cons_ne_nil _ _) List.flatten_singleton
  exact ⟨c₁, plan, decoder, batch, hplan, hdecoder, hbatch, hshows⟩

end CsvScanner

end Tabulark.Csv
