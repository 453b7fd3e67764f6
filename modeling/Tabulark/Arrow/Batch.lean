import Tabulark.Arrow.Message
import Tabulark.Model

/-!
# Arrow arrays and record batches

Arrays come from arrow-rs: `ArrowArrays` has the operations that the adapter
uses, and what they do to the values of an array. A record batch is a list of
arrays of one length.
-/

namespace Tabulark.Arrow

/-! ## Schemas -/

mutual

/-- Arrow data types, as far as dictionaries are concerned: lists, maps, structures, unions and
    run-end encodings are nested. -/
inductive ArrowDataType
  | plain (name : String)
  | dictionary (key value : ArrowDataType)
  | nested (kind : String) (children : ArrowDataTypes)
  deriving DecidableEq

/-- The data types of the children of a nested type. -/
inductive ArrowDataTypes
  | nil
  | cons (type : ArrowDataType) (types : ArrowDataTypes)
  deriving DecidableEq

end

mutual

/-- Whether values of a type refer to a dictionary. -/
def dataTypeUsesDictionary : ArrowDataType → Bool
  | .plain _ => false
  | .dictionary _ _ => true
  | .nested _ children => anyUsesDictionary children

/-- Whether values of one of some types refer to a dictionary. -/
def anyUsesDictionary : ArrowDataTypes → Bool
  | .nil => false
  | .cons type types => dataTypeUsesDictionary type || anyUsesDictionary types

end

/-- A field of a schema. -/
structure ArrowField where
  name : List UInt8
  dataType : ArrowDataType
  nullable : Bool
  deriving DecidableEq

/-- The fields of a table. -/
abbrev ArrowSchema := List ArrowField

/-! ## Arrays -/

/-- The arrays of arrow-rs: slices share their buffers, `concat` and the garbage collection of
    views copy them. -/
structure ArrowArrays (α ν : Type) where
  values : α → List ν
  memorySize : α → ℕ
  slice : α → ℕ → ℕ → α
  newEmpty : ArrowDataType → α
  concat : List α → Result α
  compactViews : α → Result α
  values_slice : ∀ a offset length, offset + length ≤ (values a).length →
    values (slice a offset length) = ((values a).drop offset).take length
  values_newEmpty : ∀ type, values (newEmpty type) = []
  values_concat : ∀ parts a, concat parts = .ok a → values a = (parts.map values).flatten
  values_compactViews : ∀ a a', compactViews a = .ok a' → values a' = values a

/-- Arrays that are lists of numbers. -/
def listArrays : ArrowArrays (List ℕ) ℕ where
  values a := a
  memorySize a := a.length
  slice a offset length := (a.drop offset).take length
  newEmpty _ := []
  concat parts := .ok parts.flatten
  compactViews a := .ok a
  values_slice _ _ _ _ := rfl
  values_newEmpty _ := rfl
  values_concat parts a h := by
    cases h
    rw [List.map_id']
  values_compactViews _ _ h := (Except.ok.inj h).symm

variable {α ν : Type} (arrays : ArrowArrays α ν)

/-- Joins parts with an empty array, so that the result has buffers of its own. -/
def normalizeArrayParts (parts : List α) (type : ArrowDataType) : Result α :=
  match parts with
  | [] => .ok (arrays.newEmpty type)
  | part :: parts => arrays.concat (part :: parts ++ [arrays.newEmpty type])

/-- Copies an array out of the buffer that it was decoded from. -/
def detachArrayFromIngress (type : ArrowDataType) (array : α) : Result α := do
  let normalized ← normalizeArrayParts arrays [array] type
  arrays.compactViews normalized

theorem values_normalizeArrayParts {parts : List α} {type : ArrowDataType} {a : α}
    (h : normalizeArrayParts arrays parts type = .ok a) :
    arrays.values a = (parts.map arrays.values).flatten := by
  cases parts with
  | nil =>
    cases h
    exact arrays.values_newEmpty type
  | cons part parts =>
    rw [arrays.values_concat _ a h, List.map_append, List.flatten_append, List.map_singleton,
      arrays.values_newEmpty, List.flatten_singleton, List.append_nil]

theorem values_detachArrayFromIngress {type : ArrowDataType} {array a : α}
    (h : detachArrayFromIngress arrays type array = .ok a) :
    arrays.values a = arrays.values array := by
  obtain ⟨normalized, hnormalized, h⟩ := Result.bind_eq_ok.1 h
  rw [arrays.values_compactViews _ _ h, values_normalizeArrayParts arrays hnormalized,
    List.map_singleton, List.flatten_singleton]

/-! ## Record batches -/

/-- Arrays of one length, one for each field. -/
structure RecordBatch where
  schema : ArrowSchema
  numRows : ℕ
  columns : List α
  length_columns : columns.length = schema.length
  length_values : ∀ column ∈ columns, (arrays.values column).length = numRows

namespace RecordBatch

variable {arrays}

/-- The memory that the arrays of a batch retain. -/
def arrayMemorySize (batch : RecordBatch arrays) : ℕ :=
  (batch.columns.map arrays.memorySize).sum

/-- The values of a column. -/
def column (batch : RecordBatch arrays) (index : ℕ) : List ν :=
  (batch.columns[index]?.map arrays.values).getD []

/-- A batch of arrays, checked: there is one for each field, at least one, and their lengths are
    the same. -/
def tryNew (schema : ArrowSchema) (columns : List α) : Result (RecordBatch arrays) :=
  let failed (reason : String) :=
    (TabularkError.new .parseFailed "failed to detach decoded IPC arrays from ingress").withDetail
      "reason" (.text reason)
  match columns with
  | [] => .error (failed "must either specify a row count or at least one column")
  | first :: rest =>
    if hcolumns : (first :: rest).length = schema.length then
      if hvalues : ∀ column ∈ first :: rest,
          (arrays.values column).length = (arrays.values first).length then
        .ok ⟨schema, (arrays.values first).length, first :: rest, hcolumns, hvalues⟩
      else .error (failed "all columns in a record batch must have the same length")
    else .error (failed "number of columns must match number of fields in schema")

end RecordBatch

/-- Copies the arrays of a batch out of the buffer that they were decoded from. -/
def detachRecordBatchFromIngress (batch : RecordBatch arrays) : Result (RecordBatch arrays) := do
  let columns ← (batch.schema.zip batch.columns).mapM fun column =>
    detachArrayFromIngress arrays column.1.dataType column.2
  RecordBatch.tryNew batch.schema columns

end Tabulark.Arrow
