import Mathlib

/-!
# JavaScript values

The values that a message between threads can carry, as far as code that checks
them can tell them apart. Finite numbers are rational; values that no check
accepts, such as `NaN` or a function, are `other`.
-/

namespace Tabulark

/-- A JavaScript value. A buffer and a view of one are their bytes. -/
inductive JsValue
  | undefined
  | null
  | boolean (value : Bool)
  | number (value : ℚ)
  | text (value : String)
  | buffer (bytes : List UInt8)
  | view (bytes : List UInt8)
  | record (fields : List (String × JsValue))
  | other

namespace JsValue

/-- The largest integer that is safe. -/
def maxSafe : ℕ := 2 ^ 53 - 1

/-- A property of a value. -/
def prop (value : JsValue) (name : String) : JsValue :=
  match value with
  | record fields => (fields.lookup name).getD undefined
  | _ => undefined

/-- An object that is not an array. -/
def isRecord : JsValue → Bool
  | record _ | buffer _ | view _ => true
  | _ => false

/-- The text of a string. -/
def text? : JsValue → Option String
  | text value => some value
  | _ => none

/-- The value of a safe integer that is not negative. -/
def safeNat? : JsValue → Option ℕ
  | number value =>
    if value.den = 1 ∧ 0 ≤ value ∧ value ≤ maxSafe then some value.num.toNat else none
  | _ => none

/-- Strictly equal to a text. -/
def isText (value : JsValue) (expected : String) : Bool :=
  match value with
  | text value => value == expected
  | _ => false

/-- Strictly equal to a number. -/
def isNumber (value : JsValue) (expected : ℕ) : Bool :=
  match value with
  | number value => value == expected
  | _ => false

def isUndefined : JsValue → Bool
  | undefined => true
  | _ => false

def isTrue : JsValue → Bool
  | boolean value => value
  | _ => false

def isFalse : JsValue → Bool
  | boolean value => !value
  | _ => false

variable {value : JsValue}

theorem isText_iff {expected : String} : value.isText expected = true ↔ value = .text expected := by
  cases value <;> simp [isText]

theorem isNumber_iff {expected : ℕ} :
    value.isNumber expected = true ↔ value = .number expected := by
  cases value <;> simp [isNumber]

theorem text?_eq_some {text : String} : value.text? = some text ↔ value = .text text := by
  cases value <;> simp [text?]

end JsValue

end Tabulark
