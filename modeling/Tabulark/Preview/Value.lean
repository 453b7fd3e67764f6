import Tabulark.Error
import Tabulark.Lib.Double
import Tabulark.Lib.Text

/-!
# Parsed documents

The values that the parsers of a preview make of a text. An object has its
properties in the order in which they are listed, and a prototype: some parsers
make objects without one.
-/

namespace Tabulark.Preview

/-! ## Errors -/

inductive PreviewErrorCode
  | unsupportedFormat
  | parseFailed
  | resourceLimit
  | cancelled
  | handleClosed
  | sourceChanged
  | runtimeFailure
  deriving DecidableEq, Repr

structure PreviewError where
  code : PreviewErrorCode
  message : String
  details : List (String × Detail) := []
  deriving DecidableEq, Repr

/-- A document that does not parse. -/
def parseFailed (message : String) : PreviewError := { code := .parseFailed, message }

def resourceLimit (resource : String) (actual limit : ℕ) : PreviewError where
  code := .resourceLimit
  message := s!"The preview exceeds the {resource} limit"
  details := [("resource", .text resource), ("actual", .number actual), ("limit", .number limit)]

abbrev PreviewResult (α : Type) := Except PreviewError α

/-! ## Values -/

/-- What an object inherits from: `Object.prototype`, or nothing. -/
inductive Prototype
  | object
  | none
  deriving DecidableEq, Repr

/-- A value with texts of some kind. The properties of an object are in order. -/
inductive Value (σ : Type)
  | null
  | boolean (value : Bool)
  | number (value : JsNumber)
  | string (value : σ)
  | array (items : List (Value σ))
  | object (prototype : Prototype) (fields : List (σ × Value σ))

variable {σ α : Type}

/-- The index that a property name stands for: such properties are listed first, in order. -/
def arrayIndex? (key : Text) : Option ℕ :=
  let n := Nat.ofDigitChars 10 key 0
  if key ≠ [] ∧ key.all Char.isDigit ∧ (key.head? = some '0' → key = ['0']) ∧ n < 2 ^ 32 - 1 then
    some n
  else none

/-- Lists a new property. -/
def insertField (index? : σ → Option ℕ) (key : σ) (value : α) : List (σ × α) → List (σ × α)
  | [] => [(key, value)]
  | field :: fields =>
    let before : Bool :=
      match index? key, index? field.1 with
      | some i, some k => i < k
      | some _, none => true
      | none, _ => false
    if before then (key, value) :: field :: fields
    else field :: insertField index? key value fields

/-- Whether an object has a property of its own. -/
def hasOwn [DecidableEq σ] (fields : List (σ × α)) (key : σ) : Bool := fields.any (·.1 = key)

/-- Sets a property, in its place if there is one. -/
def setField [DecidableEq σ] (index? : σ → Option ℕ) (fields : List (σ × α)) (key : σ)
    (value : α) : List (σ × α) :=
  if hasOwn fields key then fields.map fun field => if field.1 = key then (key, value) else field
  else insertField index? key value fields

variable {index? : σ → Option ℕ} {fields : List (σ × α)} {key : σ} {value : α}

theorem insertField_of_none (h : index? key = none) :
    insertField index? key value fields = fields ++ [(key, value)] := by
  induction fields with
  | nil => rfl
  | cons field fields ih => simp [insertField, h, ih]

/-- A new property that is no index comes last. -/
theorem setField_of_new [DecidableEq σ] (hnew : hasOwn fields key = false) (h : index? key = none) :
    setField index? fields key value = fields ++ [(key, value)] := by
  rw [setField, hnew, insertField_of_none h]
  rfl

end Tabulark.Preview
