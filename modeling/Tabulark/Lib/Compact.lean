import Tabulark.Lib.Varint

/-!
# The compact protocol

The bytes of a value in the compact protocol of Thrift: a value knows its kind
from what stands before it, a struct is a sequence of fields that ends in a zero
byte, and collections begin with their length and the kind of their elements.
The grammar counts the values of a part (`steps`) and how deep they are nested.
-/

namespace Tabulark.Compact

/-- Where a value stands. A field has the value of a Boolean in its kind. -/
inductive Place
  | field
  | element
  deriving DecidableEq, Repr

/-- A part of an encoding. -/
inductive Part
  | value (place : Place) (kind : ℕ)
  | elements (kind count : ℕ)
  | pairs (keyKind valueKind count : ℕ)
  | fields (previous : ℕ)

/-- A number of at most 64 bits in at most ten bytes. -/
def Number (n : ℕ) (bytes : List UInt8) : Prop :=
  Varint.Encodes n bytes ∧ bytes.length ≤ 10 ∧ n < 2 ^ 64

/-- The kind and the identifier of a field: the distance to the one before it, or all of it. -/
inductive FieldHeader (previous id kind : ℕ) : List UInt8 → Prop
  | short (byte : UInt8) {delta : ℕ} (hdelta : 0 < delta) (hid : id = previous + delta)
      (hbyte : byte.toNat = delta * 16 + kind) : FieldHeader previous id kind [byte]
  | long (byte : UInt8) {bytes : List UInt8} (hbyte : byte.toNat = kind)
      (hbytes : Number (2 * id) bytes) : FieldHeader previous id kind (byte :: bytes)

/-- The length of a list or set and the kind of its elements. -/
inductive ListHeader (kind count : ℕ) : List UInt8 → Prop
  | short (byte : UInt8) (hcount : count < 15) (hbyte : byte.toNat = count * 16 + kind) :
    ListHeader kind count [byte]
  | long (byte : UInt8) {bytes : List UInt8} (hbyte : byte.toNat = 15 * 16 + kind)
      (hbytes : Number count bytes) : ListHeader kind count (byte :: bytes)

/-- The largest identifier of a field. -/
def maxField : ℕ := 32767

/-- The bytes of a part with collections of at most `maxItems` elements, that is nested `height`
    levels deep at most and has `steps` values. -/
inductive Encodes (maxItems : ℕ) : Part → (height steps : ℕ) → List UInt8 → Prop
  | boolField {kind h : ℕ} (hkind : kind = 1 ∨ kind = 2) :
    Encodes maxItems (.value .field kind) (h + 1) 1 []
  | boolElement {kind h : ℕ} (hkind : kind = 1 ∨ kind = 2) (byte : UInt8) (hbyte : byte.toNat ≤ 2) :
    Encodes maxItems (.value .element kind) (h + 1) 1 [byte]
  | byte {place : Place} {h : ℕ} (byte : UInt8) : Encodes maxItems (.value place 3) (h + 1) 1 [byte]
  | integer {place : Place} {kind h n : ℕ} {bytes : List UInt8}
    (hkind : kind = 4 ∨ kind = 5 ∨ kind = 6)
      (hbytes : Number n bytes) : Encodes maxItems (.value place kind) (h + 1) 1 bytes
  | double {place : Place} {h : ℕ} {bytes : List UInt8} (hlength : bytes.length = 8) :
    Encodes maxItems (.value place 7) (h + 1) 1 bytes
  | binary {place : Place} {h : ℕ} {header bytes : List UInt8}
    (hheader : Number bytes.length header) :
    Encodes maxItems (.value place 8) (h + 1) 1 (header ++ bytes)
  | list {place : Place} {kind elementKind count h steps : ℕ} {header bytes : List UInt8}
      (hkind : kind = 9 ∨ kind = 10) (hheader : ListHeader elementKind count header)
      (helement : elementKind < 16) (hcount : count ≤ maxItems)
      (helements : Encodes maxItems (.elements elementKind count) h steps bytes) :
    Encodes maxItems (.value place kind) (h + 1) (steps + 1) (header ++ bytes)
  | emptyMap {place : Place} {h : ℕ} {header : List UInt8} (hheader : Number 0 header) :
    Encodes maxItems (.value place 11) (h + 1) 1 header
  | map {place : Place} {keyKind valueKind count h steps : ℕ} {header bytes : List UInt8}
      (hheader : Number count header) (hpos : 0 < count) (hcount : count ≤ maxItems) (kinds : UInt8)
      (hkinds : kinds.toNat = keyKind * 16 + valueKind) (hvalue : valueKind < 16)
      (hpairs : Encodes maxItems (.pairs keyKind valueKind count) h steps bytes) :
    Encodes maxItems (.value place 11) (h + 1) (steps + 1) (header ++ kinds :: bytes)
  | struct {place : Place} {h steps : ℕ} {bytes : List UInt8}
      (hfields : Encodes maxItems (.fields 0) h steps bytes) :
    Encodes maxItems (.value place 12) (h + 1) (steps + 1) bytes
  | noElements {kind h : ℕ} : Encodes maxItems (.elements kind 0) h 0 []
  | element {kind count h steps steps' : ℕ} {first rest : List UInt8}
      (hfirst : Encodes maxItems (.value .element kind) h steps first)
      (hrest : Encodes maxItems (.elements kind count) h steps' rest) :
    Encodes maxItems (.elements kind (count + 1)) h (steps + steps') (first ++ rest)
  | noPairs {keyKind valueKind h : ℕ} : Encodes maxItems (.pairs keyKind valueKind 0) h 0 []
  | pair {keyKind valueKind count h keySteps steps steps' : ℕ} {key first rest : List UInt8}
      (hkey : Encodes maxItems (.value .element keyKind) h keySteps key)
      (hfirst : Encodes maxItems (.value .element valueKind) h steps first)
      (hrest : Encodes maxItems (.pairs keyKind valueKind count) h steps' rest) :
    Encodes maxItems (.pairs keyKind valueKind (count + 1)) h (keySteps + (steps + steps'))
      (key ++ (first ++ rest))
  | stop {previous h : ℕ} : Encodes maxItems (.fields previous) h 0 [0]
  | field {previous id kind h steps steps' : ℕ} {header first rest : List UInt8}
      (hheader : FieldHeader previous id kind header) (hid : 0 < id) (hmax : id ≤ maxField)
      (hkind : kind < 16) (hfirst : Encodes maxItems (.value .field kind) h steps first)
      (hrest : Encodes maxItems (.fields id) h steps' rest) :
    Encodes maxItems (.fields previous) h (steps + steps') (header ++ (first ++ rest))

variable {maxItems height steps : ℕ} {bytes : List UInt8}

/-- Only some kinds have values. -/
theorem Encodes.kind_pos {place : Place} {kind : ℕ}
    (h : Encodes maxItems (.value place kind) height steps bytes) : 0 < kind := by
  cases h <;> omega

end Tabulark.Compact
