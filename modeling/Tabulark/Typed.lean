import Tabulark.Lib.Interner
import Tabulark.Model

/-!
# Typed batches

A typed batch has one pool of byte buffers, and arrays that refer to slices of
them. A string batch becomes one by interning the values, the offsets and the
validity of each column: equal buffers are shared, across columns and whatever
they are for. `TableBatch.toTyped` copies the buffers and `TableBatch.intoTyped`
moves them.
-/

namespace Tabulark

open Interner

/-! ## Buffers and slices -/

/-- One transferable byte buffer of a pool. -/
structure BatchBuffer where
  data : List UInt8
  deriving DecidableEq

/-- A view into one buffer of a pool. -/
structure BufferSlice where
  bufferIndex : ℕ
  byteOffset : ℕ
  byteLength : ℕ

/-- A slice, checked. -/
def BufferSlice.new (bufferIndex byteOffset byteLength : ℕ) : Result BufferSlice := do
  validateSafeInteger "buffer byte offset" byteOffset
  validateSafeInteger "buffer byte length" byteLength
  let _ ← checkedEnd "buffer byte" byteOffset byteLength
  .ok { bufferIndex, byteOffset, byteLength }

/-- Where a slice ends, checked. -/
def BufferSlice.byteEnd (s : BufferSlice) : Result ℕ :=
  checkedEnd "buffer byte" s.byteOffset s.byteLength

/-- A view of bits in a slice. -/
structure BitmapSlice where
  buffer : BufferSlice
  bitOffset : ℕ

/-- A view of bits, checked. -/
def BitmapSlice.new (buffer : BufferSlice) (bitOffset : ℕ) : Result BitmapSlice := do
  validateSafeInteger "bitmap bit offset" bitOffset
  .ok { buffer, bitOffset }

/-- The buffers of an array without children. -/
inductive ArrayLayout
  | null
  | bitmap (values : BitmapSlice)
  | fixedWidth (values : BufferSlice)
  | variableWidth (offsets values : BufferSlice)

/-! ## Arrays and columns -/

/-- The deepest nesting of a data type. -/
def maxDataTypeNestingDepth : ℕ := 64

/-- How deep a type nests: a type without children is one deep. -/
def TableDataType.nestingDepth (_ : TableDataType) : ℕ := 1

/-- An array in the buffers of a pool. -/
structure ArrayDescriptor where
  dataType : TableDataType
  length : ℕ
  validity : Option BitmapSlice
  layout : ArrayLayout

/-- An array, checked. -/
def ArrayDescriptor.new (dataType : TableDataType) (length : ℕ) (validity : Option BitmapSlice)
    (layout : ArrayLayout) : Result ArrayDescriptor := do
  validateSafeInteger "array length" length
  if maxDataTypeNestingDepth < dataType.nestingDepth then
    .error (((TabularkError.new .resourceLimit
      "array data type exceeds the maximum nesting depth").withDetail
      "nestingDepth" (.number dataType.nestingDepth)).withDetail
      "maxNestingDepth" (.number maxDataTypeNestingDepth))
  else .ok { dataType, length, validity, layout }

/-- The native values of a column and those to display. -/
structure TypedColumnBatch where
  columnId : String
  native : ArrayDescriptor
  display : ArrayDescriptor

/-- A typed column, checked. -/
def TypedColumnBatch.new (columnId : String) (native display : ArrayDescriptor) :
    Result TypedColumnBatch :=
  if columnId.isEmpty then
    .error (.new .invalidArgument "typed batch column id must not be empty")
  else if native.length ≠ display.length then
    .error (.new .invalidArgument "native and display arrays must have equal lengths")
  else match display.dataType, display.layout with
    | .utf8, .variableWidth _ _ => .ok { columnId, native, display }
    | _, _ => .error (.new .invalidArgument
      "display arrays must use the UTF-8 variable-width layout")

/-! ## Typed batches -/

/-- Checks that a slice lies in its buffer. -/
def validateBuffer (slice : BufferSlice) (buffers : List BatchBuffer) : Result Unit :=
  match buffers[slice.bufferIndex]? with
  | none => .error ((TabularkError.new .invalidArgument
    "buffer slice references a missing pool entry").withDetail
    "bufferIndex" (.number slice.bufferIndex))
  | some buffer => do
    let byteEnd ← slice.byteEnd
    if usizeMax < byteEnd ∨ buffer.data.length < byteEnd then
      .error ((((TabularkError.new .invalidArgument
        "buffer slice exceeds its pool entry").withDetail
        "bufferIndex" (.number slice.bufferIndex)).withDetail
        "byteEnd" (.number byteEnd)).withDetail
        "bufferLength" (.number buffer.data.length))
    else .ok ()

/-- Checks that a bitmap has a bit for every value. -/
def validateBitmap (bitmap : BitmapSlice) (length : ℕ) (buffers : List BatchBuffer) :
    Result Unit := do
  validateBuffer bitmap.buffer buffers
  let availableBits ← checkedMul u64Max bitmap.buffer.byteLength 8
    (.new .invalidArgument "bitmap size overflows")
  let requiredBits ← checkedAdd u64Max bitmap.bitOffset length
    (.new .invalidArgument "bitmap range overflows")
  if availableBits < requiredBits then
    .error (.new .invalidArgument "bitmap slice is shorter than its logical array")
  else .ok ()

/-- Checks the buffers of an array. -/
def validateArrayBuffers (array : ArrayDescriptor) (buffers : List BatchBuffer) :
    Result Unit := do
  match array.validity with
  | some validity => validateBitmap validity array.length buffers
  | none => .ok ()
  match array.layout with
  | .null => .ok ()
  | .bitmap values => validateBitmap values array.length buffers
  | .fixedWidth values => validateBuffer values buffers
  | .variableWidth offsets values => do
    validateBuffer offsets buffers
    validateBuffer values buffers

/-- The version of the layout of typed batches. -/
def batchLayoutVersion : ℕ := 1

/-- The rows of a range as typed columns in a pool of buffers. -/
structure TypedTableBatch where
  layoutVersion : ℕ
  tableId : String
  revision : ℕ
  schemaVersion : ℕ
  range : RangeRequest
  complete : Bool
  buffers : List BatchBuffer
  columns : List TypedColumnBatch

namespace TypedTableBatch

/-- Checks the columns of a batch. -/
def validateColumns (range : RangeRequest) (buffers : List BatchBuffer) :
    List TypedColumnBatch → Result Unit
  | [] => .ok ()
  | column :: columns => do
    if column.native.length ≠ range.rowCount then
      .error ((TabularkError.new .invalidArgument
        "typed batch array length does not match its returned range").withDetail
        "columnId" (.text column.columnId))
    else do
      validateArrayBuffers column.native buffers
      validateArrayBuffers column.display buffers
      validateColumns range buffers columns

/-- A typed batch, checked. -/
def new (tableId : String) (revision schemaVersion : ℕ) (range : RangeRequest) (complete : Bool)
    (buffers : List BatchBuffer) (columns : List TypedColumnBatch) : Result TypedTableBatch := do
  range.validatePublic
  validateSafeInteger "batch revision" revision
  validateSafeInteger "batch schema version" schemaVersion
  if columns.length ≠ range.columnCount then
    .error (.new .invalidArgument
      "typed batch column count does not match its returned range")
  else do
    validateColumns range buffers columns
    .ok {
      layoutVersion := batchLayoutVersion
      tableId
      revision
      schemaVersion
      range
      complete
      buffers
      columns }

end TypedTableBatch

/-! ## Interning -/

/-- A conversion to an unsigned type. -/
def tryFrom (bound value : ℕ) (error : TabularkError) : Result ℕ :=
  if value ≤ bound then .ok value else .error error

/-- The hash of a buffer: FNV-1a, with the length mixed in. -/
def batchBufferFingerprint (bytes : List UInt8) : UInt64 :=
  let hash := bytes.foldl (fun hash byte => (hash ^^^ byte.toUInt64) * 0x100000001b3)
    (0xcbf29ce484222325 : UInt64)
  let length := UInt64.ofNat bytes.length
  hash ^^^ (length <<< 32 ||| length >>> 32)

/-- The buffers of a batch so far. -/
abbrev BufferPool := Pool BatchBuffer UInt64

section

variable (fingerprint : List UInt8 → UInt64)

/-- The slice of a buffer with these bytes, which joins the pool unless it is there. -/
def internBatchBuffer (pool : BufferPool) (bytes : List UInt8) :
    Result (BufferSlice × BufferPool) := do
  let length ← tryFrom u64Max bytes.length
    (.new .resourceLimit "typed batch buffer length exceeds the public range")
  match pool.find? (fun buffer => fingerprint buffer.data) ⟨bytes⟩ with
  | some index => do
    let slice ← BufferSlice.new index 0 length
    .ok (slice, pool)
  | none => do
    let index ← tryFrom u32Max pool.entries.length
      (.new .resourceLimit "typed batch contains too many buffer-pool entries")
    let slice ← BufferSlice.new index 0 length
    .ok (slice, pool.push (fun buffer => fingerprint buffer.data) ⟨bytes⟩)

/-- The four bytes of a `u32`, least significant first. -/
def toLeBytes (value : ℕ) : List UInt8 :=
  [UInt8.ofNat value, UInt8.ofNat (value / 2 ^ 8), UInt8.ofNat (value / 2 ^ 16),
    UInt8.ofNat (value / 2 ^ 24)]

/-- Too many rows for the public range. -/
def tooManyRows : TabularkError :=
  .new .resourceLimit "delimited batch row count exceeds the public range"

/-- A column of a batch that is kept. -/
def toTypedColumn (pool : BufferPool) (column : StringColumnBatch) :
    Result (TypedColumnBatch × BufferPool) := do
  let (values, pool) ← internBatchBuffer fingerprint pool column.data
  let offsetBytes := column.offsets.flatMap toLeBytes
  let (offsets, pool) ← internBatchBuffer fingerprint pool offsetBytes
  let (validityBuffer, pool) ← internBatchBuffer fingerprint pool column.validity
  let length ← tryFrom u64Max column.len tooManyRows
  let validity ← BitmapSlice.new validityBuffer 0
  let descriptor ← ArrayDescriptor.new .utf8 length (some validity) (.variableWidth offsets values)
  let typed ← TypedColumnBatch.new column.columnId descriptor descriptor
  .ok (typed, pool)

/-- A column of a batch that is consumed: its rows are counted first. -/
def intoTypedColumn (pool : BufferPool) (column : StringColumnBatch) :
    Result (TypedColumnBatch × BufferPool) := do
  let length ← tryFrom u64Max (column.offsets.length - 1) tooManyRows
  let (values, pool) ← internBatchBuffer fingerprint pool column.data
  let offsetBytes := column.offsets.flatMap toLeBytes
  let (offsets, pool) ← internBatchBuffer fingerprint pool offsetBytes
  let (validityBuffer, pool) ← internBatchBuffer fingerprint pool column.validity
  let validity ← BitmapSlice.new validityBuffer 0
  let descriptor ← ArrayDescriptor.new .utf8 length (some validity) (.variableWidth offsets values)
  let typed ← TypedColumnBatch.new column.columnId descriptor descriptor
  .ok (typed, pool)

end

/-- Converts the columns of a batch into one pool. -/
def typedColumns
    (convert : BufferPool → StringColumnBatch → Result (TypedColumnBatch × BufferPool)) :
    BufferPool → List StringColumnBatch → Result (List TypedColumnBatch × BufferPool)
  | pool, [] => .ok ([], pool)
  | pool, column :: columns => do
    let (typed, pool) ← convert pool column
    let (rest, pool) ← typedColumns convert pool columns
    .ok (typed :: rest, pool)

namespace TableBatch

variable (fingerprint : List UInt8 → UInt64) (b : TableBatch)

/-- The batch as a typed batch. -/
def toTyped : Result TypedTableBatch := do
  let (columns, pool) ← typedColumns (toTypedColumn fingerprint) {} b.columns
  TypedTableBatch.new b.tableId b.revision b.schemaVersion b.range b.complete pool.entries columns

/-- The batch turned into a typed batch. -/
def intoTyped : Result TypedTableBatch := do
  let (columns, pool) ← typedColumns (intoTypedColumn fingerprint) {} b.columns
  TypedTableBatch.new b.tableId b.revision b.schemaVersion b.range b.complete pool.entries columns

end TableBatch

/-! ## Reading a typed batch -/

/-- The bytes of a slice. -/
def BufferSlice.bytes (s : BufferSlice) (buffers : List BatchBuffer) : Option (List UInt8) :=
  buffers[s.bufferIndex]?.map fun buffer => (buffer.data.drop s.byteOffset).take s.byteLength

/-- Bit number `i` of a bitmap. -/
def BitmapSlice.bit (s : BitmapSlice) (buffers : List BatchBuffer) (i : ℕ) : Option Bool :=
  (s.buffer.bytes buffers).map fun bytes =>
    bitSet (bytes.getD ((s.bitOffset + i) / 8) 0) ((s.bitOffset + i) % 8)

/-- The `u32` that four bytes are, least significant first. -/
def ofLeBytes (bytes : List UInt8) : ℕ := bytes.foldr (fun byte rest => byte.toNat + 2 ^ 8 * rest) 0

/-- The `u32` number `i` of some bytes. -/
def u32At (bytes : List UInt8) (i : ℕ) : ℕ := ofLeBytes ((bytes.drop (4 * i)).take 4)

/-- One value of an array of texts: `none` beyond the array and where its buffers are missing,
    `some none` where the value is. -/
def ArrayDescriptor.text (a : ArrayDescriptor) (buffers : List BatchBuffer) (index : ℕ) :
    Option (Option (List UInt8)) :=
  match a.layout with
  | .variableWidth offsets values => do
    if a.length ≤ index then none
    else do
      let present ← match a.validity with
        | some validity => validity.bit buffers index
        | none => some true
      if present = false then some none
      else do
        let offsetBytes ← offsets.bytes buffers
        let valueBytes ← values.bytes buffers
        let start := u32At offsetBytes index
        let stop := u32At offsetBytes (index + 1)
        let bytes := (valueBytes.drop start).take (stop - start)
        some (if Utf8.isValid bytes then some bytes else none)
  | _ => none

end Tabulark
