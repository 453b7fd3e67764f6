import Tabulark.Error
import Tabulark.Lib.Utf8

/-!
# The shared table model

Extents, schemas, range requests and the string batches of untyped formats.
A value that its source constructor validates is a structure whose fields
carry what the constructor checked.

Texts of the source file (column names, cell values) are byte lists, the UTF-8
that a Rust `String` stores; ids the program makes up itself are `String`s.
-/

namespace Tabulark

/-- A byte source: its length crosses the JavaScript boundary before a scan opens. -/
structure ByteSource where
  bytes : List UInt8
  length_le : bytes.length ≤ maxSafeInteger

/-- The bytes of an ASCII text. -/
def asciiBytes (text : String) : List UInt8 := text.toList.map fun c => UInt8.ofNat c.toNat

/-! ## Extents -/

/-- Progressive knowledge about the length of one table axis. -/
inductive AxisExtent
  | exact (value : ℕ)
  | atLeast (value : ℕ)
  | unknown
  deriving DecidableEq, Repr

namespace AxisExtent

/-- An exact extent, checked against the JavaScript-safe boundary. -/
def newExact (value : ℕ) : Result AxisExtent := do
  validateSafeInteger "extent" value
  .ok (exact value)

/-- A discovered lower bound, checked against the public boundary. -/
def newAtLeast (value : ℕ) : Result AxisExtent := do
  validateSafeInteger "extent" value
  .ok (atLeast value)

/-- The exact or lower-bound value. -/
def value : AxisExtent → Option ℕ
  | exact value => some value
  | atLeast value => some value
  | unknown => none

variable {value : ℕ}

theorem newExact_of_le (h : value ≤ maxSafeInteger) :
    newExact value = .ok (exact value) := by
  rw [newExact, validateSafeInteger_of_le h, Result.ok_bind]

theorem newAtLeast_of_le (h : value ≤ maxSafeInteger) :
    newAtLeast value = .ok (atLeast value) := by
  rw [newAtLeast, validateSafeInteger_of_le h, Result.ok_bind]

theorem value_of_newExact {extent : AxisExtent} (h : newExact value = .ok extent) :
    extent.value = some value := by
  obtain ⟨_, _, h⟩ := Result.bind_eq_ok.1 h
  cases h
  rfl

theorem value_of_newAtLeast {extent : AxisExtent} (h : newAtLeast value = .ok extent) :
    extent.value = some value := by
  obtain ⟨_, _, h⟩ := Result.bind_eq_ok.1 h
  cases h
  rfl

end AxisExtent

/-- Progressive row and column bounds for a table. -/
structure TableExtent where
  rows : AxisExtent
  columns : AxisExtent
  deriving DecidableEq, Repr

/-! ## Schemas -/

/-- The types of the untyped formats: everything is text. -/
inductive TableDataType
  | unknown
  | utf8
  deriving DecidableEq, Repr

/-- Schema metadata for one logical column. -/
structure ColumnSchema where
  id : String
  name : List UInt8
  index : ℕ
  dataType : TableDataType
  nullable : Bool
  deriving DecidableEq, Repr

/-- Column metadata, checked. -/
def ColumnSchema.new (id : String) (name : List UInt8) (index : ℕ) (dataType : TableDataType)
    (nullable : Bool) : Result ColumnSchema := do
  validateSafeInteger "column index" index
  if id.isEmpty then .error (.new .invalidArgument "column id must not be empty")
  else .ok { id, name, index, dataType, nullable }

/-- The indexes of a schema's columns count from zero. -/
def Contiguous (columns : List ColumnSchema) : Prop :=
  columns.map (·.index) = List.range columns.length

instance (columns : List ColumnSchema) : Decidable (Contiguous columns) :=
  inferInstanceAs (Decidable (_ = _))

/-- A versioned ordered column schema. -/
structure Schema where
  version : ℕ
  columns : List ColumnSchema
  version_le : version ≤ maxSafeInteger
  contiguous : Contiguous columns

namespace Schema

/-- A schema snapshot, checked. -/
def new (version : ℕ) (columns : List ColumnSchema) : Result Schema :=
  if hv : version ≤ maxSafeInteger then
    if hc : Contiguous columns then .ok ⟨version, columns, hv, hc⟩
    else .error (.new .invalidArgument "schema column indexes must be contiguous and ordered")
  else .error (unsafeInteger "schema version" version)

theorem new_eq_ok {version : ℕ} {columns : List ColumnSchema} (hv : version ≤ maxSafeInteger)
    (hc : Contiguous columns) : new version columns = .ok ⟨version, columns, hv, hc⟩ := by
  rw [new, dif_pos hv, dif_pos hc]

end Schema

/-- Random access currently available for a table. -/
inductive RandomAccess
  | indexedPrefix
  | full
  deriving DecidableEq, Repr

/-- Optional operations and representations exposed by a table. -/
structure Capabilities where
  randomAccess : RandomAccess
  typedValues : Bool := false
  search : Bool := false
  sort : Bool := false
  filter : Bool := false
  multiTable : Bool := false
  deriving DecidableEq, Repr

/-- The baseline CSV and TSV capabilities. -/
def Capabilities.delimited (randomAccess : RandomAccess) : Capabilities where
  randomAccess

/-- An immutable metadata snapshot of a logical table. -/
structure TableMetadata where
  tableId : String
  name : String
  revision : ℕ
  extent : TableExtent
  schema : Schema
  capabilities : Capabilities

/-! ## Range requests -/

/-- A zero-based rectangular table range. -/
structure RangeRequest where
  rowStart : ℕ
  rowCount : ℕ
  columnStart : ℕ
  columnCount : ℕ
  deriving DecidableEq, Repr

namespace RangeRequest

/-- The exclusive row end. -/
def rowEnd (r : RangeRequest) : Result ℕ := checkedEnd "row" r.rowStart r.rowCount

/-- The exclusive column end. -/
def columnEnd (r : RangeRequest) : Result ℕ := checkedEnd "column" r.columnStart r.columnCount

/-- The requested cell count. -/
def cellCount (r : RangeRequest) : Result ℕ :=
  checkedMul u64Max r.rowCount r.columnCount (.new .invalidRange "range cell count overflows u64")

/-- Checks the safe-integer and half-open range invariants. -/
def validatePublic (r : RangeRequest) : Result Unit := do
  validateSafeInteger "row start" r.rowStart
  validateSafeInteger "row count" r.rowCount
  validateSafeInteger "column start" r.columnStart
  validateSafeInteger "column count" r.columnCount
  let _ ← r.rowEnd
  let _ ← r.columnEnd
  .ok ()

/-- A range request, checked. -/
def new (rowStart rowCount columnStart columnCount : ℕ) : Result RangeRequest := do
  let request : RangeRequest := { rowStart, rowCount, columnStart, columnCount }
  request.validatePublic
  .ok request

theorem eq_of_new {rowStart rowCount columnStart columnCount : ℕ} {r : RangeRequest}
    (h : new rowStart rowCount columnStart columnCount = .ok r) :
    r = { rowStart, rowCount, columnStart, columnCount } := by
  obtain ⟨_, _, h⟩ := Result.bind_eq_ok.1 h
  exact (Except.ok.inj h).symm

theorem le_of_validatePublic {r : RangeRequest} (h : r.validatePublic = .ok ()) :
    r.rowStart + r.rowCount ≤ maxSafeInteger ∧
      r.columnStart + r.columnCount ≤ maxSafeInteger := by
  simp only [validatePublic, Result.bind_eq_ok] at h
  obtain ⟨_, _, _, _, _, _, _, _, stop, hrow, stop', hcolumn, _⟩ := h
  exact ⟨(checkedEnd_eq_ok hrow).2, (checkedEnd_eq_ok hcolumn).2⟩

theorem new_of_le {rowStart rowCount columnStart columnCount : ℕ}
    (hrow : rowStart + rowCount ≤ maxSafeInteger)
    (hcolumn : columnStart + columnCount ≤ maxSafeInteger) :
    new rowStart rowCount columnStart columnCount =
      .ok { rowStart, rowCount, columnStart, columnCount } := by
  have h1 : rowStart ≤ maxSafeInteger := (Nat.le_add_right _ _).trans hrow
  have h2 : rowCount ≤ maxSafeInteger := (Nat.le_add_left _ _).trans hrow
  have h3 : columnStart ≤ maxSafeInteger := (Nat.le_add_right _ _).trans hcolumn
  have h4 : columnCount ≤ maxSafeInteger := (Nat.le_add_left _ _).trans hcolumn
  simp only [new, validatePublic, validateSafeInteger_of_le h1, validateSafeInteger_of_le h2,
    validateSafeInteger_of_le h3, validateSafeInteger_of_le h4, rowEnd, columnEnd,
    checkedEnd_of_le hrow, checkedEnd_of_le hcolumn, Result.ok_bind]

end RangeRequest

/-! ## String batches -/

/-- Whether bit `k` of a validity byte is set, as the code tests it. -/
def bitSet (b : UInt8) (k : ℕ) : Bool := (b &&& 1 <<< UInt8.ofNat k) != 0

/-- A validity byte with bit `k` set. -/
def setBit (b : UInt8) (k : ℕ) : UInt8 := b ||| 1 <<< UInt8.ofNat k

theorem bitSet_zero (k : ℕ) : bitSet 0 k = false := by
  simp [bitSet]

theorem bitSet_setBit {b : UInt8} {j k : ℕ} (hj : j < 8) (hk : k < 8) :
    bitSet (setBit b j) k = (bitSet b k || j == k) := by
  have hmask : ∀ j < 8, ∀ k < 8, (1 : UInt8) <<< UInt8.ofNat j &&& 1 <<< UInt8.ofNat k =
      if j = k then 1 <<< UInt8.ofNat k else 0 := by decide
  have hne : ∀ k < 8, (1 : UInt8) <<< UInt8.ofNat k ≠ 0 := by decide
  have hdistrib : ∀ x y z : UInt8, (x ||| y) &&& z = x &&& z ||| y &&& z := fun x y z =>
    UInt8.toBitVec_inj.1 BitVec.and_or_distrib_right
  rw [bitSet, setBit, bitSet, hdistrib, hmask j hj k hk]
  by_cases h : j = k
  · have hor : b &&& 1 <<< UInt8.ofNat k ||| 1 <<< UInt8.ofNat k ≠ 0 := by
      intro h0
      exact hne k hk (UInt8.or_eq_zero_iff.1 h0).2
    simp [h, hor]
  · simp [h]

/-- One UTF-8 column encoded as data, offsets and a validity bitmap. -/
structure StringColumnBatch where
  columnId : String
  data : List UInt8
  offsets : List ℕ
  validity : List UInt8
  head_offsets : offsets.head? = some 0
  monotonic : offsets.IsChain (· ≤ ·)
  last_offsets : offsets.getLast? = some data.length
  length_validity : validity.length = (offsets.length - 1 + 7) / 8
  utf8 : Utf8.isValid data

namespace StringColumnBatch

/-- A string column batch, checked. -/
def new (columnId : String) (data : List UInt8) (offsets : List ℕ) (validity : List UInt8) :
    Result StringColumnBatch :=
  if hhead : offsets.head? = some 0 then
    if hmono : offsets.IsChain (· ≤ ·) then
      if hlast : offsets.getLast? = some data.length then
        if hval : validity.length = (offsets.length - 1 + 7) / 8 then
          if hutf : Utf8.isValid data then
            .ok ⟨columnId, data, offsets, validity, hhead, hmono, hlast, hval, hutf⟩
          else .error (.new .invalidArgument "string column data must be valid UTF-8")
        else .error
          (.new .invalidArgument "validity bitmap length does not match the value count")
      else .error
        (.new .invalidArgument "the final string offset must equal the data length")
    else .error (.new .invalidArgument "string offsets must be monotonic")
  else .error (.new .invalidArgument "string offsets must start with zero")

/-- The number of values in the column. -/
def len (b : StringColumnBatch) : ℕ := b.offsets.length - 1

/-- One value: `none` beyond the column, `some none` when it is missing. -/
def value (b : StringColumnBatch) (index : ℕ) : Option (Option (List UInt8)) :=
  if b.len ≤ index then none
  else if bitSet (b.validity.getD (index / 8) 0) (index % 8) = false then some none
  else
    let start := b.offsets.getD index 0
    let stop := b.offsets.getD (index + 1) 0
    let bytes := (b.data.drop start).take (stop - start)
    some (if Utf8.isValid bytes then some bytes else none)

end StringColumnBatch

/-- The rows of one range read. -/
structure TableBatch where
  tableId : String
  revision : ℕ
  schemaVersion : ℕ
  range : RangeRequest
  complete : Bool
  columns : List StringColumnBatch

end Tabulark
