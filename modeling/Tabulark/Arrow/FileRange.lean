import Tabulark.Arrow.FileRead

/-!
# What a File range returns

The blocks that a range operation skips have none of its rows, so what it joins
of the others are the rows of all blocks. Over a file whose blocks decode to
some batches, it returns what a read of these batches in memory returns
(`fileRead_eq_readRange`).
-/

namespace Tabulark.Arrow

open Window

variable {α ν τ δ : Type} {arrays : ArrowArrays α ν}

/-! ## Blocks of a file -/

/-- Bytes of a file. -/
def bytesAt (file : List UInt8) (offset length : ℕ) : List UInt8 := (file.drop offset).take length

/-- The bytes of a block. -/
def FileBlockSpec.bytes (spec : FileBlockSpec) (file : List UInt8) : List UInt8 :=
  bytesAt file spec.offset (spec.metadataLength + spec.bodyLength)

namespace FileDecoder

variable (decoder : FileDecoder arrays δ) (file : List UInt8)

/-- Reads a dictionary block of a file. -/
def readDictionaryAt (state : δ) (spec : FileBlockSpec) : Result δ := do
  let block ← spec.asArrowBlock
  decoder.readDictionary state block (spec.bytes file)

/-- The decoder with all dictionaries that a projection needs. -/
def withDictionaries (source : ArrowIndexedFileSource) (projection : List ℕ) : Result δ :=
  (neededDictionaries source projection).foldlM (decoder.readDictionaryAt file)
    (decoder.start source.schema source.version projection)

/-- The record blocks of a file have the rows of some batches, and a decoder with the dictionaries
    that a projection needs decodes each to the projection of its batch. -/
structure Decodes (source : ArrowIndexedFileSource) (batches : List (RecordBatch arrays))
    (projection : List ℕ) : Prop where
  rows : source.records.map (·.rowCount) = batches.map (·.numRows)
  columns : ∀ (state : δ) (index : ℕ) (record : IndexedRecordBlock) (batch : RecordBatch arrays)
      (block : ArrowBlock) (out : RecordBatch arrays),
    decoder.withDictionaries file source projection = .ok state →
    source.records[index]? = some record → batches[index]? = some batch →
    record.block.asArrowBlock = .ok block →
    decoder.readRecordBatch state block (record.block.bytes file) = .ok (some out) →
    out.columns.map arrays.values = projection.map batch.column

end FileDecoder

/-! ## Required blocks -/

namespace RequiredFileBlock

/-- The block of a dictionary. -/
def dictionary? (block : RequiredFileBlock) : Option FileBlockSpec :=
  match block.kind with
  | .dictionary => some block.spec
  | .record _ => none

/-- The index of a record block. -/
def record? (block : RequiredFileBlock) : Option ℕ :=
  match block.kind with
  | .dictionary => none
  | .record index => some index

end RequiredFileBlock

variable {source : ArrowIndexedFileSource} {plan : RangePlan}

/-- The record blocks that have some of the rows of a plan. -/
def hitRecords (source : ArrowIndexedFileSource) (plan : RangePlan) :
    List (IndexedRecordBlock × ℕ) :=
  source.records.zipIdx.filter fun indexed =>
    indexed.1.hits plan.rowStart (plan.rowStart + plan.returnedRows)

theorem requiredBlocks_of_pos (h : 0 < plan.returnedRows ∧ 0 < plan.returnedColumns) :
    requiredBlocks source plan =
      (neededDictionaries source plan.projection).map (fun spec => ⟨spec, .dictionary⟩) ++
        (hitRecords source plan).map fun indexed => ⟨indexed.1.block, .record indexed.2⟩ := by
  rw [requiredBlocks, if_pos h]
  rfl

theorem filterMap_dictionaries (specs : List FileBlockSpec) :
    (specs.map fun spec => (⟨spec, .dictionary⟩ : RequiredFileBlock)).filterMap
      RequiredFileBlock.dictionary? = specs ∧
    (specs.map fun spec => (⟨spec, .dictionary⟩ : RequiredFileBlock)).filterMap
      RequiredFileBlock.record? = [] := by
  rw [List.filterMap_map, List.filterMap_map]
  exact ⟨List.filterMap_some, List.filterMap_none _⟩

theorem filterMap_records (records : List (IndexedRecordBlock × ℕ)) :
    (records.map fun indexed =>
      (⟨indexed.1.block, .record indexed.2⟩ : RequiredFileBlock)).filterMap
      RequiredFileBlock.dictionary? = [] ∧
    (records.map fun indexed =>
      (⟨indexed.1.block, .record indexed.2⟩ : RequiredFileBlock)).filterMap
      RequiredFileBlock.record? = records.map (·.2) := by
  rw [List.filterMap_map, List.filterMap_map]
  refine ⟨List.filterMap_none _, ?_⟩
  rw [← List.filterMap_eq_map]
  rfl

/-- The indexes of all required record blocks are those that have some of the rows. -/
theorem filterMap_requiredBlocks (h : 0 < plan.returnedRows ∧ 0 < plan.returnedColumns) :
    (requiredBlocks source plan).filterMap RequiredFileBlock.record? =
      (hitRecords source plan).map (·.2) := by
  rw [requiredBlocks_of_pos h, List.filterMap_append, (filterMap_dictionaries _).2,
    (filterMap_records _).2, List.nil_append]

/-- When a record block is read, it is one of the source, and the dictionaries that the projection
    needs are read before it. -/
theorem requiredBlocks_record {n index : ℕ} {spec : FileBlockSpec}
    (h : (requiredBlocks source plan)[n]? = some ⟨spec, .record index⟩) :
    ((requiredBlocks source plan).take n).filterMap RequiredFileBlock.dictionary? =
      neededDictionaries source plan.projection ∧
    ∃ record, source.records[index]? = some record ∧ record.block = spec := by
  by_cases hpos : 0 < plan.returnedRows ∧ 0 < plan.returnedColumns
  · rw [requiredBlocks_of_pos hpos] at h ⊢
    have hle : (neededDictionaries source plan.projection).length ≤ n := by
      by_contra hlt
      rw [List.getElem?_append_left (by rw [List.length_map]; omega), List.getElem?_map] at h
      obtain ⟨_, _, h⟩ := Option.map_eq_some_iff.1 h
      cases h
    rw [List.getElem?_append_right (by rw [List.length_map]; exact hle), List.getElem?_map] at h
    obtain ⟨⟨record, i⟩, hmem, h⟩ := Option.map_eq_some_iff.1 h
    cases h
    constructor
    · rw [List.take_append, List.take_of_length_le (by rw [List.length_map]; exact hle),
        List.filterMap_append, (filterMap_dictionaries _).1, ← List.map_take,
        (filterMap_records _).1, List.append_nil]
    · have hrecord := List.mem_of_getElem? hmem
      rw [hitRecords, List.mem_filter, List.mk_mem_zipIdx_iff_getElem?] at hrecord
      exact ⟨record, hrecord.1, rfl⟩
  · rw [requiredBlocks, if_neg hpos] at h
    cases h

/-! ## Reading the blocks -/

theorem values_detachRecordBatch {batch detached : RecordBatch arrays}
    (h : detachRecordBatchFromIngress arrays batch = .ok detached) :
    detached.columns.map arrays.values = batch.columns.map arrays.values := by
  obtain ⟨columns, hcolumns, h⟩ := Result.bind_eq_ok.1 h
  have hvalues : columns.map arrays.values =
      (batch.schema.zip batch.columns).map fun column => arrays.values column.2 :=
    Result.map_of_mapM_eq_ok hcolumns fun column made _ hmade =>
      values_detachArrayFromIngress arrays hmade
  have hzip : (batch.schema.zip batch.columns).map (fun column => arrays.values column.2) =
      batch.columns.map arrays.values := by
    have hsnd := congrArg (List.map arrays.values) (List.map_snd_zip batch.length_columns.le)
    rwa [List.map_map] at hsnd
  rw [← hzip, ← hvalues]
  cases columns with
  | nil => cases h
  | cons column columns =>
    rw [RecordBatch.tryNew] at h
    dsimp only at h
    split_ifs at h
    cases h
    rfl

namespace ArrowFileReadOperation

variable {encode : BatchEncoder α τ} {verify : MessageVerifier} {decoder : FileDecoder arrays δ}
  {file : List UInt8} {batches : List (RecordBatch arrays)}
  {op op' : ArrowFileReadOperation arrays δ τ}

/-- What holds between the blocks of an operation: the decoder has the dictionaries that are read,
    and the record blocks that are read are decoded to projections of their batches. -/
structure Reading (decoder : FileDecoder arrays δ) (file : List UInt8)
    (batches : List (RecordBatch arrays)) (op : ArrowFileReadOperation arrays δ τ) : Prop where
  required : op.required = requiredBlocks op.source op.plan
  decoder : ∀ state, op.decoder = some state →
    ((op.required.take op.nextBlock).filterMap RequiredFileBlock.dictionary?).foldlM
      (decoder.readDictionaryAt file)
      (decoder.start op.source.schema op.source.version op.plan.projection) = .ok state
  indexes : op.decoded.map (·.1) =
    (op.required.take op.nextBlock).filterMap RequiredFileBlock.record?
  columns : ∀ decoded ∈ op.decoded, ∃ batch, batches[decoded.1]? = some batch ∧
    decoded.2.columns.map arrays.values = op.plan.projection.map batch.column

/-- An operation of the same range. -/
structure SameRange (op op' : ArrowFileReadOperation arrays δ τ) : Prop where
  source : op'.source = op.source
  plan : op'.plan = op.plan
  mode : op'.mode = op.mode
  required : op'.required = op.required

/-- A required block is decoded. -/
theorem Reading.decodeBlock {declaredForBlock : ℕ} {block : RequiredFileBlock}
    {arrowBlock : ArrowBlock} {state : δ} (h : op.Reading decoder file batches) (n : ℕ)
    (hdecodes : decoder.Decodes file op.source batches op.plan.projection)
    (hnext : op.required[op.nextBlock]? = some block)
    (hblock : block.spec.asArrowBlock = .ok arrowBlock) (hstate : op.decoder = some state)
    (hdecode : op.decodeBlock decoder block arrowBlock state (block.spec.bytes file)
      declaredForBlock = .ok op') :
    Reading decoder file batches { op' with
      declaredDecompressedBytes := n
      nextBlock := op.nextBlock + 1 } ∧ op.SameRange op' := by
  have htake : op.required.take (op.nextBlock + 1) =
      op.required.take op.nextBlock ++ [block] := by
    rw [List.take_add_one, hnext]
    rfl
  obtain ⟨spec, kind⟩ := block
  rw [ArrowFileReadOperation.decodeBlock] at hdecode
  cases kind with
  | dictionary =>
    -- The decoder has read one dictionary more.
    obtain ⟨read, hread, hdecode⟩ := Result.bind_eq_ok.1 hdecode
    obtain ⟨retained, _, hdecode⟩ := Result.bind_eq_ok.1 hdecode
    obtain ⟨_, _, hdecode⟩ := Result.bind_eq_ok.1 hdecode
    cases hdecode
    refine ⟨⟨h.required, fun later hlater => ?_, ?_, h.columns⟩, rfl, rfl, rfl, rfl⟩
    · cases hlater
      dsimp only
      rw [htake, List.filterMap_append, List.foldlM_append, h.decoder state hstate,
        Result.ok_bind]
      dsimp only at hblock hread
      simp only [List.filterMap_cons, List.filterMap_nil, RequiredFileBlock.dictionary?,
        List.foldlM_cons, List.foldlM_nil, FileDecoder.readDictionaryAt, hblock, Result.ok_bind,
        hread]
      rfl
    · dsimp only
      rw [htake, List.filterMap_append, h.indexes]
      exact (List.append_nil _).symm
  | record index =>
    -- Its dictionaries stand before it, so the decoder has them all.
    obtain ⟨made, hmade, hdecode⟩ := Result.bind_eq_ok.1 hdecode
    cases made with
    | none => cases hdecode
    | some made =>
      obtain ⟨detached, hdetached, hdecode⟩ := Result.bind_eq_ok.1 hdecode
      obtain ⟨decodedBytes, _, hdecode⟩ := Result.bind_eq_ok.1 hdecode
      obtain ⟨_, _, hdecode⟩ := Result.bind_eq_ok.1 hdecode
      cases hdecode
      have hrequired := hnext
      rw [h.required] at hrequired
      obtain ⟨hdictionaries, record, hrecord, hspec⟩ := requiredBlocks_record hrequired
      have hready := h.decoder state hstate
      rw [h.required, hdictionaries] at hready
      refine ⟨⟨h.required, fun later hlater => ?_, ?_, fun decoded hmem => ?_⟩, rfl, rfl, rfl, rfl⟩
      · dsimp only
        rw [htake, List.filterMap_append]
        exact (List.append_nil _).symm ▸ h.decoder later hlater
      · dsimp only
        rw [htake, List.filterMap_append, List.map_append, h.indexes]
        rfl
      · dsimp only at hmem ⊢
        rcases List.mem_append.1 hmem with hmem | hmem
        · exact h.columns decoded hmem
        · rw [List.mem_singleton] at hmem
          subst hmem
          have hlt : index < batches.length := by
            have hlength := congrArg List.length hdecodes.rows
            rw [List.length_map, List.length_map] at hlength
            exact hlength ▸ (List.getElem?_eq_some_iff.1 hrecord).1
          refine ⟨batches[index], List.getElem?_eq_getElem hlt, ?_⟩
          rw [values_detachRecordBatch hdetached]
          subst hspec
          exact hdecodes.columns state index record _ arrowBlock made hready hrecord
            (List.getElem?_eq_getElem hlt) hblock hmade

/-- An answer has the bytes of a file. -/
def Truthful (file : List UInt8) (response : ActionResponse) : Prop :=
  response.bytes = bytesAt file response.offset response.bytes.length

theorem nextAction_eq_ok {action : Option ReadBytesAction} {block : RequiredFileBlock}
    (hnext : op.required[op.nextBlock]? = some block) (h : op.nextAction = .ok action) :
    action = some ⟨block.spec.offset, block.spec.metadataLength + block.spec.bodyLength⟩ := by
  rw [nextAction, hnext] at h
  obtain ⟨length, hlength, h⟩ := Result.bind_eq_ok.1 h
  obtain ⟨made, hmade, h⟩ := Result.bind_eq_ok.1 h
  obtain ⟨stop, _, hmade⟩ := Result.bind_eq_ok.1 hmade
  rw [FileBlockSpec.totalLength, checkedAdd] at hlength
  split_ifs at hlength hmade
  cases hlength
  cases hmade
  exact (Except.ok.inj h).symm

theorem validateActionResponse_eq_ok {action : ReadBytesAction} {response : ActionResponse}
    {sourceLength : ℕ} (h : validateActionResponse action response sourceLength = .ok ()) :
    response.offset = action.offset ∧ response.bytes.length = action.length := by
  rw [validateActionResponse] at h
  split_ifs at h with hmismatch
  push Not at hmismatch
  exact ⟨hmismatch.1, hmismatch.2.1⟩

/-- A block is read; after the last one, the range is built. -/
theorem Reading.feedBuffer {response : ActionResponse} {out : Option τ}
    (h : op.Reading decoder file batches)
    (hdecodes : decoder.Decodes file op.source batches op.plan.projection)
    (hfile : Truthful file response)
    (hfeed : op.feedBuffer encode verify decoder response = .ok (op', out)) :
    (out = none ∧ op'.Reading decoder file batches ∧ op.SameRange op') ∨
    ∃ last batch, out = some batch ∧ last.Reading decoder file batches ∧ op.SameRange last ∧
      last.nextBlock = last.required.length ∧ last.required ≠ [] ∧
      last.buildBatch encode = .ok batch := by
  obtain ⟨expected, hexpected, hfeed⟩ := Result.bind_eq_ok.1 hfeed
  cases hnext : op.required[op.nextBlock]? with
  | none =>
    rw [nextAction, hnext] at hexpected
    cases hexpected
    cases hfeed
  | some block =>
    obtain rfl := nextAction_eq_ok hnext hexpected
    rw [hnext] at hfeed
    obtain ⟨_, hvalid, hfeed⟩ := Result.bind_eq_ok.1 hfeed
    obtain ⟨declared, _, hfeed⟩ := Result.bind_eq_ok.1 hfeed
    obtain ⟨_, _, hfeed⟩ := Result.bind_eq_ok.1 hfeed
    obtain ⟨arrowBlock, hblock, hfeed⟩ := Result.bind_eq_ok.1 hfeed
    have hbytes : response.bytes = block.spec.bytes file := by
      obtain ⟨hoffset, hlength⟩ := validateActionResponse_eq_ok hvalid
      rw [hfile, hoffset, hlength]
      rfl
    cases hstate : op.decoder with
    | none =>
      rw [hstate] at hfeed
      cases hfeed
    | some state =>
      rw [hstate] at hfeed
      obtain ⟨decoded, hdecode, hfeed⟩ := Result.bind_eq_ok.1 hfeed
      rw [hbytes] at hdecode
      obtain ⟨hreading, hsame⟩ := h.decodeBlock declared hdecodes hnext hblock hstate hdecode
      dsimp only at hfeed
      split_ifs at hfeed with hlast
      · obtain ⟨batch, hbatch, hfeed⟩ := Result.bind_eq_ok.1 hfeed
        cases hfeed
        refine .inr ⟨_, batch, rfl, hreading, ⟨hsame.source, hsame.plan, hsame.mode,
          hsame.required⟩, hlast, ?_, hbatch⟩
        intro hnil
        rw [hsame.required.symm.trans hnil] at hnext
        cases hnext
      · cases hfeed
        refine .inl ⟨rfl, hreading, ⟨hsame.source, hsame.plan, hsame.mode, hsame.required⟩⟩

theorem SameRange.trans {op'' : ArrowFileReadOperation arrays δ τ} (h : op.SameRange op')
    (h' : op'.SameRange op'') : op.SameRange op'' :=
  ⟨h'.source.trans h.source, h'.plan.trans h.plan, h'.mode.trans h.mode,
    h'.required.trans h.required⟩

/-- A range is built once all its blocks are read. -/
theorem Reading.feedAll {responses : List ActionResponse} {batch : τ}
    (h : op.Reading decoder file batches)
    (hdecodes : decoder.Decodes file op.source batches op.plan.projection)
    (hfile : ∀ response ∈ responses, Truthful file response)
    (hfeed : op.feedAll encode verify decoder responses = .ok (some batch)) :
    ∃ last : ArrowFileReadOperation arrays δ τ, last.Reading decoder file batches ∧
      op.SameRange last ∧ last.nextBlock = last.required.length ∧ last.required ≠ [] ∧
      last.buildBatch encode = .ok batch := by
  induction responses generalizing op with
  | nil => cases hfeed
  | cons response rest ih =>
    rw [ArrowFileReadOperation.feedAll] at hfeed
    obtain ⟨⟨fed, out⟩, hfed, hfeed⟩ := Result.bind_eq_ok.1 hfeed
    rcases h.feedBuffer hdecodes (hfile response List.mem_cons_self) hfed with
      ⟨rfl, hreading, hsame⟩ | ⟨last, made, rfl, hreading, hsame, hlast, hne, hbuild⟩
    · rw [← hsame.source, ← hsame.plan] at hdecodes
      obtain ⟨last, hreading', hsame', hlast⟩ := ih hreading hdecodes
        (fun r hr => hfile r (List.mem_cons_of_mem response hr)) hfeed
      exact ⟨last, hreading', hsame.trans hsame', hlast⟩
    · cases hfeed
      exact ⟨last, hreading, hsame, hlast, hne, hbuild⟩

end ArrowFileReadOperation

/-! ## Building the range -/

/-- The rows that a record block has of a column of its batch. -/
def recordWindow (records : List IndexedRecordBlock) (batches : List (RecordBatch arrays))
    (column a b index : ℕ) : List ν :=
  match records[index]?, batches[index]? with
  | some record, some batch => window record.rowStart (batch.column column) a b
  | _, _ => []

/-- The rows of consecutive record blocks are those of the batches one after the other. -/
theorem flatMap_recordWindow {records : List IndexedRecordBlock}
    {batches : List (RecordBatch arrays)} {column a b row n : ℕ}
    {more : List IndexedRecordBlock} {moreBatches : List (RecordBatch arrays)}
    (hrecords : more.drop n = records) (hbatches : moreBatches.drop n = batches)
    (hrows : records.map (·.rowCount) = batches.map (·.numRows))
    (hconsecutive : Consecutive row records)
    (hcolumn : ∀ batch ∈ batches, column < batch.schema.length) :
    (records.zipIdx n).flatMap (fun indexed => recordWindow more moreBatches column a b indexed.2) =
      window row (tableColumn batches column) a b := by
  rw [tableColumn, ← flatten_windows]
  induction records generalizing batches row n with
  | nil =>
    cases batches with
    | nil => rfl
    | cons batch batches => cases hrows
  | cons record records ih =>
    cases batches with
    | nil => cases hrows
    | cons batch batches =>
      rw [List.map_cons, List.map_cons] at hrows
      obtain ⟨hcount, hrows⟩ := List.cons.inj hrows
      obtain ⟨hstart, hconsecutive⟩ := hconsecutive
      have hrecord : more[n]? = some record := by
        rw [← List.head?_drop, hrecords]
        rfl
      have hbatch : moreBatches[n]? = some batch := by
        rw [← List.head?_drop, hbatches]
        rfl
      have hlength := RecordBatch.length_column (hcolumn batch List.mem_cons_self)
      have hwindow : recordWindow more moreBatches column a b n =
          window row (batch.column column) a b := by
        rw [recordWindow, hrecord, hbatch, ← hstart]
      rw [List.zipIdx_cons, List.flatMap_cons, List.map_cons, windows, List.flatten_cons, hlength,
        hwindow, ← hcount]
      congr 1
      refine ih ?_ ?_ hrows hconsecutive fun b hb => hcolumn b (List.mem_cons_of_mem batch hb)
      · rw [← List.drop_drop, hrecords, List.drop_one, List.tail_cons]
      · rw [← List.drop_drop, hbatches, List.drop_one, List.tail_cons]

/-- A record block that has none of the rows adds nothing. -/
theorem recordWindow_of_not_hits {records : List IndexedRecordBlock}
    {batches : List (RecordBatch arrays)} {record : IndexedRecordBlock} {column a b index : ℕ}
    (hrows : records.map (·.rowCount) = batches.map (·.numRows))
    (hcolumn : ∀ batch ∈ batches, column < batch.schema.length)
    (hrecord : records[index]? = some record) (hhits : record.hits a b = false) :
    recordWindow records batches column a b index = [] := by
  rw [recordWindow, hrecord]
  cases hbatch : batches[index]? with
  | none => rfl
  | some batch =>
    have hcount : record.rowCount = batch.numRows := by
      have hget := congrArg (fun counts => counts[index]?) hrows
      simp only [List.getElem?_map, hrecord, hbatch, Option.map_some, Option.some.injEq] at hget
      exact hget
    rw [IndexedRecordBlock.hits, decide_eq_false_iff_not] at hhits
    refine window_eq_nil ?_
    rw [RecordBatch.length_column (hcolumn batch (List.mem_of_getElem? hbatch)), ← hcount]
    omega

/-- The rows of the blocks that a plan needs are all its rows. -/
theorem flatMap_hitRecords {batches : List (RecordBatch arrays)} {column : ℕ}
    (hrows : source.records.map (·.rowCount) = batches.map (·.numRows))
    (hconsecutive : Consecutive 0 source.records)
    (hcolumn : ∀ batch ∈ batches, column < batch.schema.length)
    (hle : plan.rowStart + plan.returnedRows ≤ totalRows batches) :
    ((hitRecords source plan).map (·.2)).flatMap (recordWindow source.records batches column
      plan.rowStart (plan.rowStart + plan.returnedRows)) =
        ((tableColumn batches column).drop plan.rowStart).take plan.returnedRows := by
  have hall : source.records.zipIdx.flatMap (fun indexed => recordWindow source.records batches
      column plan.rowStart (plan.rowStart + plan.returnedRows) indexed.2) =
        window 0 (tableColumn batches column) plan.rowStart (plan.rowStart + plan.returnedRows) :=
    flatMap_recordWindow List.drop_zero List.drop_zero hrows hconsecutive hcolumn
  rw [List.flatMap_map, hitRecords, flatMap_filter, hall, window_zero, Nat.add_sub_cancel_left]
  · rw [length_tableColumn hcolumn]
    exact hle
  · rintro ⟨record, index⟩ hmem hhits
    rw [List.mk_mem_zipIdx_iff_getElem?] at hmem
    exact recordWindow_of_not_hits hrows hcolumn hmem hhits

namespace ArrowFileReadOperation

variable {encode : BatchEncoder α τ} {verify : MessageVerifier} {decoder : FileDecoder arrays δ}
  {file : List UInt8} {batches : List (RecordBatch arrays)}
  {op op' : ArrowFileReadOperation arrays δ τ}

theorem flatten_filterMap {β γ : Type} {f : β → Option γ} {g : γ → List ν} {items : List β} :
    ((items.filterMap f).map g).flatten = items.flatMap fun x => ((f x).toList.map g).flatten := by
  induction items with
  | nil => rfl
  | cons x items ih =>
    rw [List.filterMap_cons, List.flatMap_cons, ← ih]
    cases f x with
    | none => rfl
    | some y =>
      rw [List.map_cons, List.flatten_cons, Option.toList_some, List.map_singleton,
        List.flatten_singleton]

/-- The part of a decoded block is what its record block has of the range. -/
theorem values_partOfRecord {decoded : ℕ × RecordBatch arrays} {batch : RecordBatch arrays}
    {column projected : ℕ} (hbatch : batches[decoded.1]? = some batch)
    (hrows : op.source.records.map (·.rowCount) = batches.map (·.numRows))
    (hlt : column < batch.schema.length) (hcolumn : op.plan.projection[projected]? = some column)
    (hcolumns : decoded.2.columns.map arrays.values = op.plan.projection.map batch.column) :
    ((op.partOfRecord projected decoded).toList.map arrays.values).flatten =
      recordWindow op.source.records batches column op.plan.rowStart
        (op.plan.rowStart + op.plan.returnedRows) decoded.1 := by
  rw [partOfRecord, recordWindow, hbatch]
  cases hrecord : op.source.records[decoded.1]? with
  | none => rfl
  | some record =>
    have hcount : record.rowCount = batch.numRows := by
      have hget := congrArg (fun counts => counts[decoded.1]?) hrows
      simp only [List.getElem?_map, hrecord, hbatch, Option.map_some, Option.some.injEq] at hget
      exact hget
    have hlength := RecordBatch.length_column hlt
    have hget := congrArg (fun columns => columns[projected]?) hcolumns
    simp only [List.getElem?_map, hcolumn, Option.map_some, Option.map_eq_some_iff] at hget
    obtain ⟨array, harray, hvalues⟩ := hget
    dsimp only [Option.bind_some]
    rw [harray]
    split_ifs with hsome
    · rw [Option.map_some, Option.toList_some, List.map_singleton, List.flatten_singleton,
        arrays.values_slice, hvalues, window, hlength, hcount]
      rw [hvalues, hlength, ← hcount]
      exact window_bounds hsome
    · rw [window_eq_nil]
      · rfl
      · rw [hlength, ← hcount]
        exact not_lt.1 hsome

/-- A batch encodes the rows and columns of a plan. -/
def Returns (encode : BatchEncoder α τ) (schema : ArrowSchema) (limits : ArrowIpcLimits)
    (mode : ArrowBatchMode) (batches : List (RecordBatch arrays)) (plan : RangePlan) (out : τ) :
    Prop :=
  ∃ columns, columns.map (fun column => (column.1, arrays.values column.2)) =
      tableRange batches plan ∧
    encode schema columns plan.returnedRange plan.complete limits mode = .ok out

variable {request : RangeRequest}

/-- What is built of the blocks that a plan needs. -/
theorem Reading.buildBatch {out : τ} (h : op.Reading decoder file batches)
    (hdecodes : decoder.Decodes file op.source batches op.plan.projection)
    (hconsecutive : Consecutive 0 op.source.records)
    (hschema : ∀ batch ∈ batches, batch.schema = op.source.schema)
    (hplans : PlansRange request (totalRows batches) op.source.schema.length op.plan)
    (hlast : op.nextBlock = op.required.length) (hne : op.required ≠ [])
    (hbuild : op.buildBatch encode = .ok out) :
    Returns encode op.source.schema op.source.limits op.mode batches op.plan out := by
  have hpos : 0 < op.plan.returnedRows ∧ 0 < op.plan.returnedColumns := by
    by_contra hzero
    exact hne (by rw [h.required, requiredBlocks, if_neg hzero])
  have hindexes : op.decoded.map (·.1) = (hitRecords op.source op.plan).map (·.2) := by
    rw [h.indexes, hlast, List.take_length, h.required, filterMap_requiredBlocks hpos]
  have hrow := hplans.rows
  have hrowStart := hplans.rowStart
  have hrow_le := hplans.rowStart_le
  have hcolumns := hplans.columns
  have hcolumnStart := hplans.columnStart
  rw [ArrowFileReadOperation.buildBatch, if_neg (by rwa [List.isEmpty_iff])] at hbuild
  obtain ⟨_, _, hbuild⟩ := Result.bind_eq_ok.1 hbuild
  obtain ⟨columns, hmapped, hbuild⟩ := Result.bind_eq_ok.1 hbuild
  refine ⟨columns, ?_, hbuild⟩
  have hvalues := Result.map_of_mapM_eq_ok
    (g := fun column => (column.1, arrays.values column.2))
    (k := fun indexed => (indexed.1,
      ((tableColumn batches indexed.1).drop op.plan.rowStart).take op.plan.returnedRows))
    hmapped fun indexed made hmem hmade => by
      rw [List.mk_mem_zipIdx_iff_getElem?] at hmem
      obtain ⟨joined, hjoined, hmade⟩ := Result.bind_eq_ok.1 hmade
      cases hmade
      have hindex := List.mem_of_getElem? hmem
      rw [RangePlan.projection, List.mem_range'_1] at hindex
      have hlt : ∀ batch ∈ batches, indexed.1 < batch.schema.length := fun batch hb => by
        rw [hschema batch hb]
        omega
      have hparts : op.decoded.flatMap (fun decoded =>
          ((op.partOfRecord indexed.2 decoded).toList.map arrays.values).flatten) =
            (op.decoded.map (·.1)).flatMap (recordWindow op.source.records batches indexed.1
              op.plan.rowStart (op.plan.rowStart + op.plan.returnedRows)) := by
        rw [List.flatMap_map]
        refine List.flatMap_congr fun decoded hdecoded => ?_
        obtain ⟨batch, hbatch, hcolumns⟩ := h.columns decoded hdecoded
        exact values_partOfRecord hbatch hdecodes.rows
          (hlt batch (List.mem_of_getElem? hbatch)) hmem hcolumns
      rw [values_normalizeArrayParts arrays hjoined, flatten_filterMap, hparts, hindexes,
        flatMap_hitRecords hdecodes.rows hconsecutive hlt (by omega)]
  rw [hvalues, tableRange]
  conv_rhs => rw [← List.zipIdx_map_fst 0 op.plan.projection, List.map_map]
  rfl

/-- A range that needs no blocks has no rows or no columns. -/
theorem eq_zero_of_requiredBlocks_eq_nil {source : ArrowIndexedFileSource} {plan : RangePlan}
    (hrows : source.records.map (·.rowCount) = batches.map (·.numRows))
    (hconsecutive : Consecutive 0 source.records)
    (hschema : ∀ batch ∈ batches, batch.schema = source.schema)
    (hplans : PlansRange request (totalRows batches) source.schema.length plan)
    (hnil : requiredBlocks source plan = []) :
    plan.returnedRows = 0 ∨ plan.returnedColumns = 0 := by
  by_contra hzero
  push Not at hzero
  have hpos : 0 < plan.returnedRows ∧ 0 < plan.returnedColumns := by omega
  have hrow := hplans.rows
  have hrowStart := hplans.rowStart
  have hcolumns := hplans.columns
  have hcolumnStart := hplans.columnStart
  have hlt : ∀ batch ∈ batches, plan.columnStart < batch.schema.length := fun batch hb => by
    rw [hschema batch hb]
    omega
  rw [requiredBlocks_of_pos hpos, List.append_eq_nil_iff, List.map_eq_nil_iff,
    List.map_eq_nil_iff] at hnil
  have hrange := @flatMap_hitRecords _ _ _ source plan _ _ hrows hconsecutive hlt (by omega)
  have hlength := congrArg List.length hrange
  rw [hnil.2, List.map_nil, List.flatMap_nil, List.length_take, List.length_drop,
    length_tableColumn hlt, List.length_nil] at hlength
  omega

/-- What is built without blocks. -/
theorem buildBatch_of_nil {out : τ}
    (hrows : op.source.records.map (·.rowCount) = batches.map (·.numRows))
    (hconsecutive : Consecutive 0 op.source.records)
    (hschema : ∀ batch ∈ batches, batch.schema = op.source.schema)
    (hplans : PlansRange request (totalRows batches) op.source.schema.length op.plan)
    (hrequired : op.required = requiredBlocks op.source op.plan) (hnil : op.required = [])
    (hbuild : op.buildBatch encode = .ok out) :
    Returns encode op.source.schema op.source.limits op.mode batches op.plan out := by
  rw [ArrowFileReadOperation.buildBatch, if_pos (List.isEmpty_iff.2 hnil)] at hbuild
  refine ⟨_, ?_, hbuild⟩
  rw [tableRange, List.map_map]
  rcases eq_zero_of_requiredBlocks_eq_nil hrows hconsecutive hschema hplans
    (hrequired.symm.trans hnil) with hzero | hzero
  · refine List.map_congr_left fun index _ => ?_
    rw [hzero, List.take_zero, Function.comp_apply, arrays.values_newEmpty]
  · rw [RangePlan.projection, hzero, List.range'_zero, List.map_nil, List.map_nil]

variable {mode : ArrowBatchMode}

theorem ofPlan_reading {source : ArrowIndexedFileSource} {plan : RangePlan} :
    Reading decoder file batches
      (ofPlan decoder source mode plan : ArrowFileReadOperation arrays δ τ) where
  required := rfl
  decoder state hstate := by
    rw [ofPlan] at hstate
    dsimp only at hstate
    split_ifs at hstate
    cases hstate
    rfl
  indexes := rfl
  columns := fun _ hmem => absurd hmem List.not_mem_nil

/-- An operation starts with a plan; it is ready if that needs no blocks. -/
theorem new_eq_ok {source : ArrowIndexedFileSource}
    (h : new encode decoder source request mode = .ok op) :
    ∃ plan, planRange request source.totalRows source.schema.length source.limits = .ok plan ∧
      (requiredBlocks source plan = [] ∧ (∃ batch, op.ready = some batch ∧
        (ofPlan decoder source mode plan).buildBatch encode = .ok batch) ∨
      op = ofPlan decoder source mode plan) := by
  obtain ⟨rowTotal, hrowTotal, h⟩ := Result.bind_eq_ok.1 h
  obtain rfl := toUsize_eq_ok hrowTotal
  obtain ⟨plan, hplan, h⟩ := Result.bind_eq_ok.1 h
  dsimp only at h
  split_ifs at h with hempty
  · obtain ⟨batch, hbatch, h⟩ := Result.bind_eq_ok.1 h
    cases h
    exact ⟨plan, hplan, .inl ⟨List.isEmpty_iff.1 hempty, batch, rfl, hbatch⟩⟩
  · exact ⟨plan, hplan, .inr (Except.ok.inj h).symm⟩

/-- A range read of a file encodes the rows and columns of the plan. -/
theorem read_eq_ok {source : ArrowIndexedFileSource}
    {plan : RangePlan} {responses : List ActionResponse} {out : τ}
    (hindexed : source.Indexed) (hschema : ∀ batch ∈ batches, batch.schema = source.schema)
    (hplan : planRange request (totalRows batches) source.schema.length source.limits = .ok plan)
    (hdecodes : decoder.Decodes file source batches plan.projection)
    (hfile : ∀ response ∈ responses, Truthful file response)
    (hread : read encode verify decoder source request mode responses = .ok (some out)) :
    Returns encode source.schema source.limits mode batches plan out := by
  have hrows : source.totalRows = totalRows batches := by
    rw [hindexed.rows, recordRows, hdecodes.rows]
    rfl
  have hplans := planRange_eq_ok hplan
  obtain ⟨op, hnew, hread⟩ := Result.bind_eq_ok.1 hread
  obtain ⟨made, hmade, hop⟩ := new_eq_ok hnew
  rw [hrows, hplan] at hmade
  cases hmade
  rcases hop with ⟨hnil, batch, hready, hbuild⟩ | rfl
  · rw [hready] at hread
    cases hread
    exact buildBatch_of_nil hdecodes.rows hindexed.consecutive hschema hplans rfl hnil hbuild
  · obtain ⟨last, hreading, hsame, hlast, hne, hbuild⟩ :=
      ofPlan_reading.feedAll hdecodes hfile hread
    have hbuilt := @Reading.buildBatch _ _ _ _ _ encode decoder file batches last request out
      hreading
    rw [hsame.source, hsame.plan, hsame.mode] at hbuilt
    exact hbuilt hdecodes hindexed.consecutive hschema hplans hlast hne hbuild

end ArrowFileReadOperation

/-! ## The two reads -/

theorem schema_of_indexBatches {schema : ArrowSchema} {message : String}
    {limits : Option ArrowIpcLimits} {batches : List (RecordBatch arrays)} {row decodedBytes : ℕ}
    {indexed : List ℕ × ℕ × ℕ}
    (h : indexBatches schema message limits batches row decodedBytes = .ok indexed) :
    ∀ batch ∈ batches, batch.schema = schema := by
  induction batches generalizing row decodedBytes indexed with
  | nil => exact fun _ hmem => absurd hmem List.not_mem_nil
  | cons batch batches ih =>
    rw [indexBatches] at h
    split_ifs at h with hschema
    obtain ⟨next, _, h⟩ := Result.bind_eq_ok.1 h
    have hrest : ∃ rest, indexBatches schema message limits batches next.1 next.2 = .ok rest := by
      cases limits with
      | none =>
        obtain ⟨rest, hrest, _⟩ := Result.bind_eq_ok.1 h
        exact ⟨rest, hrest⟩
      | some limits =>
        dsimp only at h
        split_ifs at h
        obtain ⟨rest, hrest, _⟩ := Result.bind_eq_ok.1 h
        exact ⟨rest, hrest⟩
    obtain ⟨rest, hrest⟩ := hrest
    intro b hb
    rcases List.mem_cons.1 hb with rfl | hb
    · exact not_not.1 hschema
    · exact ih hrest b hb

/-- A source of all its batches has their rows. -/
theorem tabular_of_fromBatches {model : SchemaModel} {container : ResolvedArrowIpcContainer}
    {schema : ArrowSchema} {batches : List (RecordBatch arrays)} {options : ArrowIpcOptions}
    {exact : Bool} {memory : ArrowIpcSource arrays}
    (h : ArrowIpcSource.fromBatchesWithExtent model container schema batches options exact =
      .ok memory) : memory.Tabular := by
  obtain ⟨hindexes, _, hschema, hbatches, _, _⟩ := ArrowIpcSource.fromBatchesWithExtent_eq_ok h
  obtain ⟨_, _, h⟩ := Result.bind_eq_ok.1 h
  obtain ⟨indexed, hindexed, _⟩ := Result.bind_eq_ok.1 h
  refine ⟨hindexes, ?_⟩
  rw [hbatches, hschema]
  exact schema_of_indexBatches hindexed

/-- A range read of an indexed file and one of the same batches in memory return the rows and
    columns of the clipped request, and say that they are complete if nothing was clipped. -/
theorem fileRead_eq_readRange {verify : MessageVerifier} {model : SchemaModel}
    {options : ArrowIpcOptions} {sourceLength version : ℕ} {schema : ArrowSchema}
    {dictionaries blocks : List FileBlockSpec} {metadata : List (List UInt8)}
    {state : FileIndexState} {source : ArrowIndexedFileSource} {memory : ArrowIpcSource arrays}
    {batches : List (RecordBatch arrays)} {container : ResolvedArrowIpcContainer} {exact : Bool}
    {decoder : FileDecoder arrays δ} {file : List UInt8} {request : RangeRequest}
    {plan : RangePlan} (encode : BatchEncoder α τ) (mode : ArrowBatchMode)
    (hindex : (FileIndexState.ofFooter schema version dictionaries blocks).indexAll verify
      options.limits metadata = .ok state)
    (hcomplete : state.metadataComplete)
    (hsource : completeFile model options sourceLength state = .ok source)
    (hmemory : ArrowIpcSource.fromBatchesWithExtent model container schema batches options exact =
      .ok memory)
    (hplan : planRange request (totalRows batches) schema.length options.limits = .ok plan)
    (hdecodes : decoder.Decodes file source batches plan.projection) :
    (∀ out, memory.readRange encode request mode = .ok out →
      ArrowFileReadOperation.Returns encode schema options.limits mode batches plan out) ∧
    (∀ responses out, (∀ response ∈ responses, ArrowFileReadOperation.Truthful file response) →
      ArrowFileReadOperation.read encode verify decoder source request mode responses =
        .ok (some out) →
      ArrowFileReadOperation.Returns encode schema options.limits mode batches plan out) ∧
    plan.rowStart = request.rowStart ∧ plan.columnStart = request.columnStart ∧
    plan.returnedRows = min request.rowCount (totalRows batches - request.rowStart) ∧
    plan.returnedColumns = min request.columnCount (schema.length - request.columnStart) ∧
    (plan.complete = true ↔ request.rowStart + request.rowCount ≤ totalRows batches ∧
      request.columnStart + request.columnCount ≤ schema.length) := by
  obtain ⟨hindexed, hschema, hlimits⟩ :=
    ArrowIndexedFileSource.indexed_of_completeFile hindex hcomplete hsource
  obtain ⟨_, _, hschema', hbatches, hlimits', _⟩ :=
    ArrowIpcSource.fromBatchesWithExtent_eq_ok hmemory
  have htabular := tabular_of_fromBatches hmemory
  have hplans := planRange_eq_ok hplan
  refine ⟨fun out hread => ?_, fun responses out hfile hread => ?_, hplans.rowStart,
    hplans.columnStart, hplans.rows, hplans.columns, hplans.complete⟩
  · obtain ⟨made, columns, hmade, hcolumns, hencode⟩ :=
      ArrowIpcSource.readRange_eq_ok htabular hread
    rw [hbatches, hschema', hlimits', hplan] at hmade
    cases hmade
    rw [hbatches] at hcolumns
    rw [hschema', hlimits'] at hencode
    exact ⟨columns, hcolumns, hencode⟩
  · have hbatchSchema := htabular.schema
    rw [hbatches, hschema', ← hschema] at hbatchSchema
    rw [← hschema, ← hlimits] at hplan ⊢
    exact ArrowFileReadOperation.read_eq_ok hindexed hbatchSchema hplan hdecodes hfile hread

/-- Blocks whose metadata is the number of their rows, which count on from their offset. -/
def countingDecoder : FileDecoder listArrays Unit where
  start _ _ _ := ()
  readDictionary _ _ _ := .ok ()
  readRecordBatch _ block bytes :=
    .ok (some (oneColumnBatch (List.range' block.offset (bytes.getD 4 0).toNat)))

/-- Metadata that is the number of rows of a record block. -/
def rowCountVerifier : MessageVerifier := fun _ bytes =>
  .ok ⟨.recordBatch (some ⟨(bytes.getD 0 0).toNat, false, none⟩), 0⟩

/-- A range across two record blocks, clipped to the table. -/
theorem fileRead_eq_readRange_two :
    ∃ state source memory plan out,
      (FileIndexState.ofFooter [⟨[0x61], .plain "Int64", false⟩] 4 []
        [⟨0, 5, 0⟩, ⟨5, 5, 0⟩]).indexAll
        rowCountVerifier smallOptions.limits [[0, 0, 0, 0, 2], [0, 0, 0, 0, 1]] = .ok state ∧
      completeFile ⟨fun _ _ => .ok (), fun _ => .ok []⟩ smallOptions 10 state = .ok source ∧
      ArrowIpcSource.fromBatchesWithExtent ⟨fun _ _ => .ok (), fun _ => .ok []⟩ .file
        [⟨[0x61], .plain "Int64", false⟩] [oneColumnBatch [0, 1], oneColumnBatch [5]] smallOptions
        true = .ok memory ∧
      planRange ⟨1, 5, 0, 1⟩ 3 1 smallOptions.limits = .ok plan ∧
      ArrowFileReadOperation.read (fun _ columns range complete _ _ =>
        .ok (columns, range, complete))
        rowCountVerifier countingDecoder source ⟨1, 5, 0, 1⟩ .typed
        [⟨0, [0, 0, 0, 0, 2], 5, false⟩, ⟨5, [0, 0, 0, 0, 1], 5, true⟩] = .ok (some out) ∧
      ArrowFileReadOperation.Returns
        (fun _ columns range complete _ _ => .ok (columns, range, complete))
        [⟨[0x61], .plain "Int64", false⟩] smallOptions.limits .typed
        [oneColumnBatch [0, 1], oneColumnBatch [5]] plan out := by
  refine ⟨_, _, _, _, ([(0, [1, 5])], ⟨1, 2, 0, 1⟩, false), rfl, rfl, rfl, rfl, rfl, ?_⟩
  refine (@fileRead_eq_readRange _ _ _ _ listArrays rowCountVerifier
    ⟨fun _ _ => .ok (), fun _ => .ok []⟩ smallOptions 10 4 [⟨[0x61], .plain "Int64", false⟩] []
    [⟨0, 5, 0⟩, ⟨5, 5, 0⟩] [[0, 0, 0, 0, 2], [0, 0, 0, 0, 1]] _ _ _
    [oneColumnBatch [0, 1], oneColumnBatch [5]] .file true
    countingDecoder [0, 0, 0, 0, 2, 0, 0, 0, 0, 1] ⟨1, 5, 0, 1⟩ _ _ .typed rfl rfl rfl rfl rfl
    ⟨rfl, ?_⟩).2.1 [⟨0, [0, 0, 0, 0, 2], 5, false⟩, ⟨5, [0, 0, 0, 0, 1], 5, true⟩] _ ?_ rfl
  · intro state index record batch block out _ hrecord hbatch hblock hout
    match index with
    | 0 =>
      cases hrecord
      cases hbatch
      cases hblock
      cases hout
      rfl
    | 1 =>
      cases hrecord
      cases hbatch
      cases hblock
      cases hout
      rfl
    | index + 2 => cases hbatch
  · intro response hmem
    simp only [List.mem_cons, List.not_mem_nil, or_false] at hmem
    rcases hmem with rfl | rfl <;> rfl

end Tabulark.Arrow
