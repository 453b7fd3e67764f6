import Tabulark.Typed

/-!
# Typed batches lose nothing

Interning only ever adds buffers to a pool, so that a slice keeps its bytes
(`BufferSlice.bytes_mono`) and a column, once converted, keeps its values. What
`ArrayDescriptor.text` reads from the pool is `StringColumnBatch.value`
(`Describes.text_eq`), whatever buffers are shared and whatever fingerprints
collide.
-/

namespace Tabulark

open Interner

/-! ## Numbers as bytes -/

theorem ofLeBytes_toLeBytes {value : ℕ} (h : value ≤ u32Max) :
    ofLeBytes (toLeBytes value) = value := by
  rw [u32Max] at h
  simp only [toLeBytes, ofLeBytes, List.foldr_cons, List.foldr_nil, UInt8.toNat_ofNat']
  omega

/-- The numbers that some bytes were made of. -/
theorem u32At_flatMap {values : List ℕ} (h : ∀ value ∈ values, value ≤ u32Max) {i : ℕ}
    (hi : i < values.length) : u32At (values.flatMap toLeBytes) i = values.getD i 0 := by
  induction values generalizing i with
  | nil => cases hi
  | cons value values ih =>
    obtain ⟨hvalue, hvalues⟩ := List.forall_mem_cons.1 h
    have hlength : (toLeBytes value).length = 4 := rfl
    rw [List.flatMap_cons, u32At]
    cases i with
    | zero =>
      rw [Nat.mul_zero, List.drop_zero, List.take_append_of_le_length hlength.ge,
        List.take_of_length_le hlength.le, ofLeBytes_toLeBytes hvalue]
      rfl
    | succ i =>
      rw [List.drop_append, List.drop_of_length_le (by rw [hlength]; omega), List.nil_append,
        hlength, show 4 * (i + 1) - 4 = 4 * i by omega, ← u32At,
        ih hvalues (Nat.lt_of_succ_lt_succ hi)]
      rfl

/-! ## Slices of a pool -/

/-- A slice of the whole of a buffer. -/
structure BufferSlice.Whole (s : BufferSlice) (buffers : List BatchBuffer) (bytes : List UInt8) :
    Prop where
  entry : buffers[s.bufferIndex]? = some ⟨bytes⟩
  byteOffset : s.byteOffset = 0
  byteLength : s.byteLength = bytes.length

namespace BufferSlice

variable {s : BufferSlice} {buffers buffers' : List BatchBuffer} {bytes : List UInt8}

/-- A pool that grows keeps its buffers. -/
theorem Whole.mono (h : s.Whole buffers bytes) (hbuffers : buffers <+: buffers') :
    s.Whole buffers' bytes := by
  obtain ⟨hlt, hentry⟩ := List.getElem?_eq_some_iff.1 h.entry
  refine ⟨?_, h.byteOffset, h.byteLength⟩
  rw [List.prefix_iff_getElem?.1 hbuffers _ hlt, hentry]

theorem Whole.bytes_eq (h : s.Whole buffers bytes) : s.bytes buffers = some bytes := by
  rw [BufferSlice.bytes, h.entry, h.byteOffset, h.byteLength]
  exact congrArg some (List.take_length)

theorem eq_of_new {index length : ℕ} (h : new index 0 length = .ok s) : s = ⟨index, 0, length⟩ := by
  obtain ⟨_, _, h⟩ := Result.bind_eq_ok.1 h
  obtain ⟨_, _, h⟩ := Result.bind_eq_ok.1 h
  obtain ⟨_, _, h⟩ := Result.bind_eq_ok.1 h
  exact (Except.ok.inj h).symm

theorem new_of_le (index : ℕ) {length : ℕ} (h : length ≤ maxSafeInteger) :
    new index 0 length = .ok ⟨index, 0, length⟩ := by
  rw [new, validateSafeInteger_of_le (Nat.zero_le _), Result.ok_bind, validateSafeInteger_of_le h,
    Result.ok_bind, checkedEnd_of_le (by rwa [Nat.zero_add]), Result.ok_bind]

/-- The whole of a buffer is checked. -/
theorem Whole.validate (h : s.Whole buffers bytes) (hbytes : bytes.length ≤ usizeMax) :
    validateBuffer s buffers = .ok () := by
  have hsafe : usizeMax ≤ maxSafeInteger := by decide
  rw [validateBuffer, h.entry]
  dsimp only
  rw [byteEnd, h.byteOffset, h.byteLength, checkedEnd_of_le (by omega), Result.ok_bind,
    if_neg (by omega)]

end BufferSlice

theorem tryFrom_eq_ok {bound value n : ℕ} {error : TabularkError}
    (h : tryFrom bound value error = .ok n) : n = value := by
  rw [tryFrom] at h
  split_ifs at h
  exact (Except.ok.inj h).symm

section Interning

variable {fingerprint : List UInt8 → UInt64} {pool pool' : BufferPool} {bytes : List UInt8}

/-- The pool is sound for the fingerprint of its buffers. -/
abbrev SoundPool (fingerprint : List UInt8 → UInt64) (pool : BufferPool) : Prop :=
  pool.Sound fun buffer => fingerprint buffer.data

/-- One pool comes from another by interning, with at most so many new buffers. -/
structure Grows (fingerprint : List UInt8 → UInt64) (more : ℕ) (pool pool' : BufferPool) :
    Prop where
  sound : SoundPool fingerprint pool'
  entries : pool.entries <+: pool'.entries
  length_le : pool'.entries.length ≤ pool.entries.length + more

theorem Grows.trans {m n : ℕ} {pool₁ pool₂ pool₃ : BufferPool}
    (h₁ : Grows fingerprint m pool₁ pool₂) (h₂ : Grows fingerprint n pool₂ pool₃) :
    Grows fingerprint (m + n) pool₁ pool₃ where
  sound := h₂.sound
  entries := h₁.entries.trans h₂.entries
  length_le := by
    have hle₁ := h₁.length_le
    have hle₂ := h₂.length_le
    omega

/-- An interned buffer is in the pool. -/
theorem internBatchBuffer_eq_ok (hp : SoundPool fingerprint pool) {slice : BufferSlice}
    (h : internBatchBuffer fingerprint pool bytes = .ok (slice, pool')) :
    Grows fingerprint 1 pool pool' ∧ slice.Whole pool'.entries bytes := by
  obtain ⟨length, hlength, h⟩ := Result.bind_eq_ok.1 h
  obtain rfl := tryFrom_eq_ok hlength
  split at h
  · rename_i index hfind
    obtain ⟨s, hs, h⟩ := Result.bind_eq_ok.1 h
    cases h
    obtain rfl := BufferSlice.eq_of_new hs
    exact ⟨⟨hp, List.prefix_rfl, Nat.le_succ _⟩, Pool.getElem?_of_find? hfind, rfl, rfl⟩
  · rename_i hfind
    obtain ⟨index, hindex, h⟩ := Result.bind_eq_ok.1 h
    obtain ⟨s, hs, h⟩ := Result.bind_eq_ok.1 h
    cases h
    obtain rfl := tryFrom_eq_ok hindex
    obtain rfl := BufferSlice.eq_of_new hs
    refine ⟨⟨hp.push (hp.not_mem_of_find? hfind), List.prefix_append _ _, ?_⟩, ?_, rfl, rfl⟩
    · rw [Pool.push, List.length_append, List.length_singleton]
    · rw [Pool.push]
      exact List.getElem?_concat_length

/-- A buffer is interned if the pool has room. -/
theorem internBatchBuffer_of_le (hbytes : bytes.length ≤ maxSafeInteger)
    (hpool : pool.entries.length ≤ u32Max) :
    ∃ slice pool', internBatchBuffer fingerprint pool bytes = .ok (slice, pool') := by
  rw [internBatchBuffer, tryFrom, if_pos (hbytes.trans maxSafeInteger_le_u64Max), Result.ok_bind]
  split
  · rw [BufferSlice.new_of_le _ hbytes]
    exact ⟨_, _, rfl⟩
  · rw [tryFrom, if_pos hpool, Result.ok_bind, BufferSlice.new_of_le _ hbytes]
    exact ⟨_, _, rfl⟩

end Interning

/-! ## Columns -/

/-- An array has the buffers of a string column in the pool. -/
structure Describes (buffers : List BatchBuffer) (column : StringColumnBatch)
    (offsets values validity : BufferSlice) (a : ArrayDescriptor) : Prop where
  eq : a = ⟨.utf8, column.len, some ⟨validity, 0⟩, .variableWidth offsets values⟩
  offsets : offsets.Whole buffers (column.offsets.flatMap toLeBytes)
  values : values.Whole buffers column.data
  validity : validity.Whole buffers column.validity

/-- The vectors of a column fit the memory of wasm32. -/
structure StringColumnBatch.Sized (c : StringColumnBatch) : Prop where
  data : c.data.length ≤ usizeMax
  offsets : c.offsets.length ≤ usizeMax

theorem StringColumnBatch.Sized.offset_le {c : StringColumnBatch} (h : c.Sized) :
    ∀ offset ∈ c.offsets, offset ≤ u32Max := by
  intro offset hoffset
  have hlast := c.last_offsets
  rw [List.getLast?_eq_some_iff] at hlast
  obtain ⟨before, hbefore⟩ := hlast
  have hpairwise := List.isChain_iff_pairwise.1 c.monotonic
  rw [hbefore, List.pairwise_append] at hpairwise
  rw [hbefore] at hoffset
  have hdata : c.data.length ≤ u32Max := h.data
  rcases List.mem_append.1 hoffset with hoffset | hoffset
  · exact (hpairwise.2.2 offset hoffset _ (List.mem_singleton_self _)).trans hdata
  · rw [List.mem_singleton.1 hoffset]
    exact hdata

namespace Describes

variable {buffers buffers' : List BatchBuffer} {column : StringColumnBatch}
  {offsets values validity : BufferSlice} {a : ArrayDescriptor}

theorem mono (h : Describes buffers column offsets values validity a)
    (hbuffers : buffers <+: buffers') : Describes buffers' column offsets values validity a :=
  ⟨h.eq, h.offsets.mono hbuffers, h.values.mono hbuffers, h.validity.mono hbuffers⟩

/-- What is read from the pool is what the column holds. -/
theorem text_eq (h : Describes buffers column offsets values validity a) (hsized : column.Sized)
    (index : ℕ) : a.text buffers index = column.value index := by
  rw [h.eq, ArrayDescriptor.text, StringColumnBatch.value]
  dsimp only
  by_cases hindex : column.len ≤ index
  · rw [if_pos hindex, if_pos hindex]
  rw [if_neg hindex, if_neg hindex, BitmapSlice.bit, h.validity.bytes_eq, Option.map_some]
  dsimp only
  rw [Nat.zero_add, Option.bind_eq_bind, Option.bind_some]
  by_cases hbit : bitSet (column.validity.getD (index / 8) 0) (index % 8) = false
  · rw [if_pos hbit, if_pos hbit]
  · have hlen : index + 1 < column.offsets.length := by
      rw [StringColumnBatch.len] at hindex
      omega
    have hstart := u32At_flatMap hsized.offset_le (Nat.lt_of_succ_lt hlen)
    have hstop := u32At_flatMap hsized.offset_le hlen
    rw [if_neg hbit, if_neg hbit, h.offsets.bytes_eq, h.values.bytes_eq, Option.bind_eq_bind,
      Option.bind_some, Option.bind_some, hstart, hstop]

/-- The buffers of an array are checked. -/
theorem validate (h : Describes buffers column offsets values validity a) (hsized : column.Sized)
    (hbytes : 4 * column.offsets.length ≤ usizeMax) :
    validateArrayBuffers a buffers = .ok () := by
  have hlength := column.length_validity
  have hlen : column.len = column.offsets.length - 1 := rfl
  have husize : usizeMax * 8 + 8 ≤ u64Max := by decide
  have hoffsets : (column.offsets.flatMap toLeBytes).length ≤ usizeMax := by
    rw [List.length_flatMap, List.map_congr_left fun _ _ => show (toLeBytes _).length = 4 from rfl,
      List.map_const', List.sum_replicate_nat]
    omega
  rw [h.eq, validateArrayBuffers]
  dsimp only
  have hadd : 0 + column.len ≤ u64Max := by omega
  rw [validateBitmap, h.validity.validate (by omega), Result.ok_bind, h.validity.byteLength,
    checkedMul, if_pos (by omega), Result.ok_bind, checkedAdd_of_le hadd, Result.ok_bind,
    if_neg (by omega), Result.ok_bind, h.offsets.validate hoffsets, Result.ok_bind,
    h.values.validate hsized.data]

end Describes

/-- A typed column has the buffers of a string column, natively and to display. -/
structure TypesColumn (buffers : List BatchBuffer) (column : StringColumnBatch)
    (typed : TypedColumnBatch) : Prop where
  columnId : typed.columnId = column.columnId
  native : ∃ offsets values validity, Describes buffers column offsets values validity typed.native
  display : typed.display = typed.native

theorem TypesColumn.mono {buffers buffers' : List BatchBuffer} {column : StringColumnBatch}
    {typed : TypedColumnBatch} (h : TypesColumn buffers column typed)
    (hbuffers : buffers <+: buffers') : TypesColumn buffers' column typed := by
  obtain ⟨offsets, values, validity, hnative⟩ := h.native
  exact ⟨h.columnId, ⟨offsets, values, validity, hnative.mono hbuffers⟩, h.display⟩

section Columns

variable {fingerprint : List UInt8 → UInt64} {pool pool' : BufferPool}

/-- A converted column is in the pool. -/
theorem toTypedColumn_eq_ok (hp : SoundPool fingerprint pool) {column : StringColumnBatch}
    {typed : TypedColumnBatch} (h : toTypedColumn fingerprint pool column = .ok (typed, pool')) :
    Grows fingerprint 3 pool pool' ∧ TypesColumn pool'.entries column typed := by
  obtain ⟨⟨values, pool₁⟩, hvalues, h⟩ := Result.bind_eq_ok.1 h
  obtain ⟨⟨offsets, pool₂⟩, hoffsets, h⟩ := Result.bind_eq_ok.1 h
  obtain ⟨⟨validity, pool₃⟩, hvalidity, h⟩ := Result.bind_eq_ok.1 h
  obtain ⟨length, hlength, h⟩ := Result.bind_eq_ok.1 h
  obtain ⟨bitmap, hbitmap, h⟩ := Result.bind_eq_ok.1 h
  obtain ⟨descriptor, hdescriptor, h⟩ := Result.bind_eq_ok.1 h
  obtain ⟨typed', htyped, h⟩ := Result.bind_eq_ok.1 h
  cases h
  obtain ⟨hgrows₁, hwhole₁⟩ := internBatchBuffer_eq_ok hp hvalues
  obtain ⟨hgrows₂, hwhole₂⟩ := internBatchBuffer_eq_ok hgrows₁.sound hoffsets
  obtain ⟨hgrows₃, hwhole₃⟩ := internBatchBuffer_eq_ok hgrows₂.sound hvalidity
  refine ⟨(hgrows₁.trans hgrows₂).trans hgrows₃, ?_⟩
  obtain rfl := tryFrom_eq_ok hlength
  obtain ⟨_, _, hbitmap⟩ := Result.bind_eq_ok.1 hbitmap
  cases hbitmap
  obtain ⟨_, _, hdescriptor⟩ := Result.bind_eq_ok.1 hdescriptor
  split_ifs at hdescriptor
  cases hdescriptor
  rw [TypedColumnBatch.new] at htyped
  split_ifs at htyped
  cases htyped
  exact ⟨rfl, ⟨offsets, values, validity, rfl, hwhole₂.mono hgrows₃.entries,
    hwhole₁.mono (hgrows₂.entries.trans hgrows₃.entries), hwhole₃⟩, rfl⟩

/-- Converted columns are in the pool. -/
theorem typedColumns_eq_ok (hp : SoundPool fingerprint pool) {columns : List StringColumnBatch}
    {typed : List TypedColumnBatch}
    (h : typedColumns (toTypedColumn fingerprint) pool columns = .ok (typed, pool')) :
    Grows fingerprint (3 * columns.length) pool pool' ∧
      List.Forall₂ (TypesColumn pool'.entries) columns typed := by
  induction columns generalizing pool typed with
  | nil =>
    cases h
    exact ⟨⟨hp, List.prefix_rfl, Nat.le_refl _⟩, .nil⟩
  | cons column columns ih =>
    obtain ⟨⟨first, pool₁⟩, hfirst, h⟩ := Result.bind_eq_ok.1 h
    obtain ⟨⟨rest, pool₂⟩, hrest, h⟩ := Result.bind_eq_ok.1 h
    cases h
    obtain ⟨hgrows, htypes⟩ := toTypedColumn_eq_ok hp hfirst
    obtain ⟨hgrowsRest, hall⟩ := ih hgrows.sound hrest
    refine ⟨?_, .cons (htypes.mono hgrowsRest.entries) hall⟩
    have hgrows := hgrows.trans hgrowsRest
    rwa [show 3 + 3 * columns.length = 3 * (column :: columns).length by
      rw [List.length_cons]; omega] at hgrows

/-- Counting the rows first or last makes no difference to a column that fits the memory. -/
theorem intoTypedColumn_eq {column : StringColumnBatch} (h : column.Sized) :
    intoTypedColumn fingerprint pool column = toTypedColumn fingerprint pool column := by
  have hle : column.offsets.length - 1 ≤ u64Max := by
    have hoffsets := h.offsets
    have husize : usizeMax ≤ u64Max := by decide
    omega
  have hlength : tryFrom u64Max (column.offsets.length - 1) tooManyRows =
      .ok (column.offsets.length - 1) := if_pos hle
  rw [intoTypedColumn, toTypedColumn, StringColumnBatch.len, hlength]
  rfl

theorem typedColumns_congr {convert convert' : BufferPool → StringColumnBatch →
    Result (TypedColumnBatch × BufferPool)} {columns : List StringColumnBatch}
    (h : ∀ column ∈ columns, ∀ pool, convert pool column = convert' pool column) :
    typedColumns convert pool columns = typedColumns convert' pool columns := by
  induction columns generalizing pool with
  | nil => rfl
  | cons column columns ih =>
    obtain ⟨hcolumn, hcolumns⟩ := List.forall_mem_cons.1 h
    rw [typedColumns, typedColumns, hcolumn]
    congr 1
    funext ⟨typed, pool₁⟩
    dsimp only
    rw [ih hcolumns]

end Columns

/-! ## Batches -/

/-- What a string batch needs to become a typed one. -/
structure TableBatch.Convertible (b : TableBatch) : Prop where
  range : b.range.validatePublic = .ok ()
  revision : b.revision ≤ maxSafeInteger
  schemaVersion : b.schemaVersion ≤ maxSafeInteger
  columnCount : b.columns.length = b.range.columnCount
  rowCount : ∀ column ∈ b.columns, column.len = b.range.rowCount
  columnId : ∀ column ∈ b.columns, column.columnId.isEmpty = false
  offsets : ∀ column ∈ b.columns, 4 * column.offsets.length ≤ usizeMax
  buffers : 3 * b.columns.length ≤ u32Max

section Batches

variable {fingerprint : List UInt8 → UInt64} {pool : BufferPool}

/-- A column is converted if the pool has room. -/
theorem toTypedColumn_of_le (hp : SoundPool fingerprint pool) {column : StringColumnBatch}
    (hsized : column.Sized) (hid : column.columnId.isEmpty = false)
    (hoffsets : 4 * column.offsets.length ≤ usizeMax)
    (hpool : pool.entries.length + 3 ≤ u32Max + 1) :
    ∃ typed pool', toTypedColumn fingerprint pool column = .ok (typed, pool') := by
  have hsafe : usizeMax ≤ maxSafeInteger := by decide
  have hu64 := maxSafeInteger_le_u64Max
  have hdata := hsized.data
  have hvalidity := column.length_validity
  have hlen : column.len = column.offsets.length - 1 := rfl
  have hbytes : (column.offsets.flatMap toLeBytes).length = column.offsets.length * 4 := by
    rw [List.length_flatMap, List.map_congr_left fun _ _ => show (toLeBytes _).length = 4 from rfl,
      List.map_const', List.sum_replicate_nat]
  obtain ⟨values, pool₁, hvalues⟩ := @internBatchBuffer_of_le fingerprint pool column.data
    (by omega) (by omega)
  have hgrows₁ := (internBatchBuffer_eq_ok hp hvalues).1
  have hle₁ := hgrows₁.length_le
  obtain ⟨offsets, pool₂, hoffsets'⟩ := @internBatchBuffer_of_le fingerprint pool₁
    (column.offsets.flatMap toLeBytes) (by omega) (by omega)
  have hgrows₂ := (internBatchBuffer_eq_ok hgrows₁.sound hoffsets').1
  have hle₂ := hgrows₂.length_le
  obtain ⟨validity, pool₃, hvalidity'⟩ := @internBatchBuffer_of_le fingerprint pool₂
    column.validity (by omega) (by omega)
  let a : ArrayDescriptor :=
    ⟨.utf8, column.len, some ⟨validity, 0⟩, .variableWidth offsets values⟩
  refine ⟨⟨column.columnId, a, a⟩, pool₃, ?_⟩
  rw [toTypedColumn, hvalues, Result.ok_bind]
  dsimp only
  rw [hoffsets', Result.ok_bind]
  dsimp only
  rw [hvalidity', Result.ok_bind]
  dsimp only
  rw [tryFrom, if_pos (by omega), Result.ok_bind, BitmapSlice.new,
    validateSafeInteger_of_le (Nat.zero_le _), Result.ok_bind, Result.ok_bind, ArrayDescriptor.new,
    validateSafeInteger_of_le (by omega), Result.ok_bind, if_neg (by decide), Result.ok_bind,
    TypedColumnBatch.new, hid, if_neg (by decide), if_neg (by simp)]
  rfl

theorem typedColumns_of_le (hp : SoundPool fingerprint pool) {columns : List StringColumnBatch}
    (hsized : ∀ column ∈ columns, column.Sized)
    (hid : ∀ column ∈ columns, column.columnId.isEmpty = false)
    (hoffsets : ∀ column ∈ columns, 4 * column.offsets.length ≤ usizeMax)
    (hpool : pool.entries.length + 3 * columns.length ≤ u32Max) :
    ∃ typed pool', typedColumns (toTypedColumn fingerprint) pool columns = .ok (typed, pool') := by
  induction columns generalizing pool with
  | nil => exact ⟨[], pool, rfl⟩
  | cons column columns ih =>
    rw [List.length_cons] at hpool
    obtain ⟨hsize, hsizes⟩ := List.forall_mem_cons.1 hsized
    obtain ⟨hcolumnId, hids⟩ := List.forall_mem_cons.1 hid
    obtain ⟨hoffset, hoffsets⟩ := List.forall_mem_cons.1 hoffsets
    obtain ⟨first, pool₁, hfirst⟩ := toTypedColumn_of_le hp hsize hcolumnId hoffset (by omega)
    have hgrows := (toTypedColumn_eq_ok hp hfirst).1
    have hle := hgrows.length_le
    obtain ⟨rest, pool₂, hrest⟩ := ih hgrows.sound hsizes hids hoffsets (by omega)
    refine ⟨first :: rest, pool₂, ?_⟩
    rw [typedColumns, hfirst, Result.ok_bind]
    dsimp only
    rw [hrest]
    rfl

/-- Columns that are in the pool are checked. -/
theorem validateColumns_of_types {range : RangeRequest} {buffers : List BatchBuffer}
    {columns : List StringColumnBatch} {typed : List TypedColumnBatch}
    (h : List.Forall₂ (TypesColumn buffers) columns typed)
    (hsized : ∀ column ∈ columns, column.Sized)
    (hrows : ∀ column ∈ columns, column.len = range.rowCount)
    (hoffsets : ∀ column ∈ columns, 4 * column.offsets.length ≤ usizeMax) :
    TypedTableBatch.validateColumns range buffers typed = .ok () := by
  induction h with
  | nil => rfl
  | @cons column typed columns rest hcolumn _ ih =>
    obtain ⟨hsize, hsizes⟩ := List.forall_mem_cons.1 hsized
    obtain ⟨hrow, hrows⟩ := List.forall_mem_cons.1 hrows
    obtain ⟨hoffset, hoffsets⟩ := List.forall_mem_cons.1 hoffsets
    obtain ⟨offsets, values, validity, hnative⟩ := hcolumn.native
    have hlength : typed.native.length = range.rowCount := by rw [hnative.eq, hrow]
    rw [TypedTableBatch.validateColumns, if_neg (not_not.2 hlength), hcolumn.display,
      hnative.validate hsize hoffset, Result.ok_bind, Result.ok_bind, ih hsizes hrows hoffsets]

end Batches

/-- Both conversions are one and the same; they succeed where the batch is well formed; the pool
    has no buffer twice; and every value can be read from it, whatever fingerprints collide. -/
theorem TableBatch.typed_lossless (fingerprint : List UInt8 → UInt64) (b : TableBatch)
    (hsized : ∀ column ∈ b.columns, column.Sized) :
    b.intoTyped fingerprint = b.toTyped fingerprint ∧
    (b.Convertible → ∃ typed, b.toTyped fingerprint = .ok typed) ∧
    ∀ typed, b.toTyped fingerprint = .ok typed →
      typed.buffers.Nodup ∧
      List.Forall₂ (fun (column : StringColumnBatch) (t : TypedColumnBatch) =>
        t.columnId = column.columnId ∧ t.native.length = column.len ∧ t.display = t.native ∧
        ∀ index, t.native.text typed.buffers index = column.value index ∧
          t.display.text typed.buffers index = column.value index) b.columns typed.columns := by
  have hempty : SoundPool fingerprint {} := Pool.sound_empty
  refine ⟨?_, fun hb => ?_, fun typed h => ?_⟩
  · rw [intoTyped, toTyped,
      typedColumns_congr fun column hcolumn pool => intoTypedColumn_eq (hsized column hcolumn)]
  · obtain ⟨columns, pool, hcolumns⟩ := typedColumns_of_le hempty hsized hb.columnId hb.offsets
      (by rw [List.length_nil, Nat.zero_add]; exact hb.buffers)
    obtain ⟨-, hall⟩ := typedColumns_eq_ok hempty hcolumns
    rw [toTyped, hcolumns, Result.ok_bind]
    dsimp only
    rw [TypedTableBatch.new, hb.range, Result.ok_bind, validateSafeInteger_of_le hb.revision,
      Result.ok_bind, validateSafeInteger_of_le hb.schemaVersion, Result.ok_bind,
      if_neg (not_not.2 (hall.length_eq.symm.trans hb.columnCount)),
      validateColumns_of_types hall hsized hb.rowCount hb.offsets]
    exact ⟨_, rfl⟩
  · obtain ⟨⟨columns, pool⟩, hcolumns, h⟩ := Result.bind_eq_ok.1 h
    obtain ⟨hgrows, hall⟩ := typedColumns_eq_ok hempty hcolumns
    obtain ⟨_, _, h⟩ := Result.bind_eq_ok.1 h
    obtain ⟨_, _, h⟩ := Result.bind_eq_ok.1 h
    obtain ⟨_, _, h⟩ := Result.bind_eq_ok.1 h
    split_ifs at h
    obtain ⟨_, _, h⟩ := Result.bind_eq_ok.1 h
    cases h
    refine ⟨hgrows.sound.nodup, ?_⟩
    refine List.forall₂_iff_get.2 ⟨hall.length_eq, fun i hi hi' => ?_⟩
    have htypes := (List.forall₂_iff_get.1 hall).2 i hi hi'
    obtain ⟨offsets, values, validity, hnative⟩ := htypes.native
    have htext := hnative.text_eq (hsized _ (List.get_mem _ _))
    refine ⟨htypes.columnId, ?_, htypes.display, fun index => ⟨htext index, ?_⟩⟩
    · rw [hnative.eq]
    · rw [htypes.display]
      exact htext index

/-- Two columns of two rows whose data, offsets and validity are the same: the second has no
    buffer of its own. -/
theorem TableBatch.typed_lossless_twins :
    ∃ column : StringColumnBatch, column.value 0 = some (some [97]) ∧ column.value 1 = some none ∧
      ∃ typed, (TableBatch.mk "table-0" 0 1 ⟨0, 2, 0, 2⟩ true [column, column]).toTyped
          batchBufferFingerprint = .ok typed ∧
        typed.buffers.Nodup ∧ ∀ t ∈ typed.columns, t.native.text typed.buffers 0 =
          some (some [97]) := by
  let column : StringColumnBatch := ⟨"a", [97], [0, 1, 1], [1], rfl, by decide, rfl, rfl, by decide⟩
  have hsized : ∀ c ∈ [column, column], c.Sized := by
    intro c hc
    obtain rfl : c = column := by simpa using hc
    exact ⟨by decide, by decide⟩
  refine ⟨column, by decide, by decide, ?_⟩
  obtain ⟨-, hok, hlossless⟩ := typed_lossless batchBufferFingerprint
    (TableBatch.mk "table-0" 0 1 ⟨0, 2, 0, 2⟩ true [column, column]) hsized
  obtain ⟨typed, htyped⟩ := hok ⟨rfl, by decide, by decide, rfl, by simp [column]; rfl, by
    simp [column], by simp [column]; decide, by decide⟩
  obtain ⟨hnodup, hall⟩ := hlossless typed htyped
  refine ⟨typed, htyped, hnodup, fun t ht => ?_⟩
  obtain ⟨i, hi, rfl⟩ := List.mem_iff_getElem.1 ht
  have hcolumn := (List.forall₂_iff_get.1 hall).2 i (hall.length_eq ▸ hi) hi
  have hsame : [column, column].get ⟨i, hall.length_eq ▸ hi⟩ = column := by
    have hmem := List.get_mem [column, column] ⟨i, hall.length_eq ▸ hi⟩
    exact (List.mem_pair.1 hmem).elim id id
  have htext := (hcolumn.2.2.2 0).1
  dsimp only at htext
  rw [hsame] at htext
  exact htext.trans (by decide)

end Tabulark
