import Tabulark.Error

/-!
# Page headers

A page begins with a header in the compact protocol of Thrift. The reader takes
the type and the sizes of the page from it and passes over everything else, with
bounds on how deep it goes and how many values it reads.
-/

namespace Tabulark.Parquet

/-- What a page header says. -/
structure CompactPageHeader where
  encodedBytes : ℕ
  pageType : ℤ
  compressedBytes : ℕ
  uncompressedBytes : ℕ
  deriving DecidableEq, Repr

/-- Where a value that is passed over stands. -/
inductive CompactValueContext
  | structField
  | collectionElement
  deriving DecidableEq, Repr

/-- The values that are read at most. -/
def maxCompactParseSteps : ℕ := 16384

/-- The elements of a collection that are read at most. -/
def maxCompactContainerItems : ℕ := 4096

/-- The levels of nested values that are read at most. -/
def maxCompactDepth : ℕ := 32

/-- What is read, and where. -/
structure CompactInput where
  bytes : List UInt8
  offset : ℕ
  remainingSteps : ℕ
  deriving DecidableEq, Repr

/-- A part of the input that may be missing or malformed. -/
abbrev CompactReader (α : Type) := StateT CompactInput Option α

namespace CompactInput

def new (bytes : List UInt8) : CompactInput :=
  { bytes, offset := 0, remainingSteps := maxCompactParseSteps }

def byte : CompactReader UInt8 := fun input =>
  match input.bytes[input.offset]? with
  | none => none
  | some value => some (value, { input with offset := input.offset + 1 })

/-- The digits of a number from an index on. -/
def digits : List ℕ → ℕ → CompactReader ℕ
  | [], _ => failure
  | index :: indices, value => do
    let byte ← byte
    if index = 9 ∧ byte.toNat &&& 0xfe ≠ 0 then failure
    else
      let value := value ||| (byte.toNat &&& 0x7f) <<< (index * 7)
      if byte.toNat &&& 0x80 = 0 then pure value else digits indices value

def varint : CompactReader ℕ := digits (List.range 10) 0

/-- The signed number of a zigzag encoding. -/
def unzigzag (value : ℕ) : ℤ :=
  if value &&& 1 = 0 then ((value >>> 1 : ℕ) : ℤ) else -((value >>> 1 : ℕ) : ℤ) - 1

def zigzagI16 : CompactReader ℤ := do
  let value ← varint
  if value < 2 ^ 16 then pure (unzigzag value) else failure

def zigzagI32 : CompactReader ℤ := do
  let value ← varint
  if value < 2 ^ 32 then pure (unzigzag value) else failure

/-- A length in memory. -/
def length : CompactReader ℕ := do
  let value ← varint
  if value ≤ usizeMax then pure value else failure

def skipBytes (length : ℕ) : CompactReader Unit := fun input =>
  if input.offset + length ≤ usizeMax ∧ input.offset + length ≤ input.bytes.length then
    some ((), { input with offset := input.offset + length })
  else none

/-- Counts a value. -/
def takeStep : CompactReader Unit := fun input =>
  if 0 < input.remainingSteps then
    some ((), { input with remainingSteps := input.remainingSteps - 1 })
  else none

/-- Reads a number of parts. -/
def times : ℕ → CompactReader Unit → CompactReader Unit
  | 0, _ => pure ()
  | n + 1, read => do
    read
    times n read

/-- The identifier of a field, after the one before it. -/
def fieldId (previousField : ℤ) (delta : ℕ) : CompactReader ℤ :=
  if delta = 0 then zigzagI16
  else if previousField + delta ≤ 32767 then pure (previousField + delta)
  else failure

/-- Reads the fields of a struct up to its end. Each field has a byte at least, so that `fuel` above
    the number of bytes suffices. -/
def fields {σ : Type} (read : ℤ → ℕ → σ → CompactReader σ) : ℕ → ℤ → σ → CompactReader σ
  | 0, _, _ => failure
  | fuel + 1, previousField, state => do
    let header ← byte
    let valueType := header.toNat &&& 0x0f
    if valueType = 0 then
      if header.toNat ≠ 0 then failure else pure state
    else do
      let field ← fieldId previousField (header.toNat >>> 4)
      if field ≤ 0 then failure
      else do
        let state ← read field valueType state
        fields read fuel field state

def skipBoolean : CompactValueContext → CompactReader Unit
  | .structField => pure ()
  | .collectionElement => do
    let value ← byte
    if value.toNat ≤ 2 then pure () else failure

def skipByte : CompactReader Unit := do
  let _ ← byte

def skipVarint : CompactReader Unit := do
  let _ ← varint

def skipBinary : CompactReader Unit := do
  let length ← length
  skipBytes length

/-- The length of a list, which is in its header or after it. -/
def listLength (inlineLength : ℕ) : CompactReader ℕ :=
  if inlineLength = 15 then length else pure inlineLength

def skipList (skipElement : ℕ → CompactReader Unit) : CompactReader Unit := do
  let header ← byte
  let elementType := header.toNat &&& 0x0f
  let length ← listLength (header.toNat >>> 4)
  if maxCompactContainerItems < length ∨ (0 < length ∧ elementType = 0) then failure
  else times length (skipElement elementType)

def skipMap (skipElement : ℕ → CompactReader Unit) : CompactReader Unit := do
  let length ← length
  if length = 0 then pure ()
  else if maxCompactContainerItems < length then failure
  else do
    let types ← byte
    let keyType := types.toNat >>> 4
    let valueType := types.toNat &&& 0x0f
    if keyType = 0 ∨ valueType = 0 then failure
    else times length do
      skipElement keyType
      skipElement valueType

/-- Passes over a value that is allowed a number of levels. -/
def skipBelow (fuel : ℕ) : ℕ → ℕ → CompactValueContext → CompactReader Unit
  | 0, _, _ => failure
  | levels + 1, valueType, context => do
    takeStep
    match valueType with
    | 1 | 2 => skipBoolean context
    | 3 => skipByte
    | 4 | 5 | 6 => skipVarint
    | 7 => skipBytes 8
    | 8 => skipBinary
    | 9 | 10 => skipList fun elementType => skipBelow fuel levels elementType .collectionElement
    | 11 => skipMap fun elementType => skipBelow fuel levels elementType .collectionElement
    | 12 => fields (fun _ nestedType _ => skipBelow fuel levels nestedType .structField) fuel 0 ()
    | _ => failure

/-- Passes over a value at some depth. -/
def skip (fuel valueType depth : ℕ) (context : CompactValueContext) : CompactReader Unit :=
  skipBelow fuel (maxCompactDepth - depth) valueType context

end CompactInput

/-- The fields of a page header that were read. -/
structure PageHeaderFields where
  pageType : Option ℤ := none
  uncompressed : Option ℤ := none
  compressed : Option ℤ := none
  deriving DecidableEq, Repr

/-- A field of 32 bits that is read once. -/
def onceI32 (valueType : ℕ) (seen : Option ℤ) : CompactReader (Option ℤ) :=
  if valueType ≠ 5 ∨ seen.isSome then failure
  else do
    let value ← CompactInput.zigzagI32
    pure (some value)

/-- A field of a page header. -/
def pageHeaderField (fuel : ℕ) (field : ℤ) (valueType : ℕ) (seen : PageHeaderFields) :
    CompactReader PageHeaderFields :=
  if field = 1 then do
    let pageType ← onceI32 valueType seen.pageType
    pure { seen with pageType }
  else if field = 2 then do
    let uncompressed ← onceI32 valueType seen.uncompressed
    pure { seen with uncompressed }
  else if field = 3 then do
    let compressed ← onceI32 valueType seen.compressed
    pure { seen with compressed }
  else do
    CompactInput.skip fuel valueType 0 .structField
    pure seen

/-- What the fields of a page header say, if all of them are there and valid. -/
def PageHeaderFields.header (seen : PageHeaderFields) (encodedBytes : ℕ) :
    Option CompactPageHeader := do
  let pageType ← seen.pageType
  let uncompressed ← seen.uncompressed
  let compressed ← seen.compressed
  if pageType < 0 ∨ 3 < pageType ∨ uncompressed < 0 ∨ compressed < 0 then none
  else some {
    encodedBytes
    pageType
    compressedBytes := compressed.toNat
    uncompressedBytes := uncompressed.toNat }

/-- Reads a page header, with loops of at most `fuel` rounds. -/
def compactPageHeaderWithin (fuel : ℕ) (bytes : List UInt8) : Option CompactPageHeader := do
  let (seen, input) ← CompactInput.fields (pageHeaderField fuel) fuel 0 {} (CompactInput.new bytes)
  seen.header input.offset

/-- Reads a page header. -/
def compactPageHeader (bytes : List UInt8) : Option CompactPageHeader :=
  compactPageHeaderWithin (bytes.length + 1) bytes

end Tabulark.Parquet
