import Tabulark.Lib.BitPacking
import Tabulark.Lib.Varint
import Tabulark.Parquet.Sparse

/-!
# The hybrid run-length decoder

Levels and dictionary indices are encoded as runs of one repeated value and runs
of bit-packed values. A preview decodes them one at a time, and passes over
those that it does not need.
-/

namespace Tabulark.Parquet

/-- The error of a preview that cannot be parsed. -/
def previewParseError (message : String) : ParquetError := .general message

/-- An addition of offsets. -/
def checkedOffset (a b : ℕ) (message : String) : ParquetResult ℕ :=
  if a + b ≤ usizeMax then .ok (a + b) else .error (previewParseError message)

/-- A length in values or bytes. -/
def checkedLength (a b : ℕ) (message : String) : ParquetResult ℕ :=
  if a * b ≤ usizeMax then .ok (a * b) else .error (previewParseError message)

/-- A conversion of a run header to `usize`. -/
def usizeFrom (value : ℕ) : ParquetResult ℕ :=
  if value ≤ usizeMax then .ok value
  else .error (.external "out of range integral type conversion attempted")

/-- Reads the digits of a number at the given shifts. -/
def readDigits (bytes : List UInt8) : List ℕ → ℕ → ℕ → ParquetResult (ℕ × ℕ)
  | [], _, _ => .error (previewParseError "Parquet RLE run header exceeds ten bytes")
  | shift :: shifts, value, offset =>
    match bytes[offset]? with
    | none => .error (previewParseError "Parquet RLE run header ended early")
    | some byte => do
      let offset ← checkedOffset offset 1 "Parquet RLE offset overflows"
      if shift = 63 ∧ byte.toNat &&& 0x7e ≠ 0 then
        .error (previewParseError "Parquet RLE run header overflows u64")
      else
        let value := value ||| (byte.toNat &&& 0x7f) <<< shift
        if byte.toNat &&& 0x80 = 0 then .ok (value, offset)
        else readDigits bytes shifts value offset

/-- A number and the offset after it. -/
def readUnsignedVarint (bytes : List UInt8) (offset : ℕ) : ParquetResult (ℕ × ℕ) :=
  readDigits bytes ((List.range 10).map (7 * ·)) 0 offset

/-- Reads the bits of a value from the low ones on. -/
def readBits (bytes : List UInt8) (bitOffset : ℕ) : List ℕ → ℕ → ParquetResult ℕ
  | [], value => .ok value
  | bit :: bits, value => do
    let source ← checkedOffset bitOffset bit "Parquet packed bit offset overflows"
    match bytes[source / 8]? with
    | none => .error (previewParseError "Parquet packed value exceeds its run buffer")
    | some byte =>
        readBits bytes bitOffset bits
          (value ||| ((byte.toNat >>> (source % 8)) &&& 1) <<< bit)

/-- A bit-packed value. -/
def readPackedU32 (bytes : List UInt8) (bitOffset bitWidth : ℕ) : ParquetResult ℕ :=
  if bitWidth = 0 then .ok 0 else readBits bytes bitOffset (List.range bitWidth) 0

/-- The run that is read. -/
inductive HybridRleRun
  | empty
  | repeated (value remaining : ℕ)
  | bitPacked (bytes : List UInt8) (bitOffset remaining : ℕ)
  deriving DecidableEq, Repr

/-- A decoder of hybrid runs. -/
structure HybridRleDecoder where
  bytes : List UInt8
  offset : ℕ
  bitWidth : ℕ
  valuesLeft : ℕ
  run : HybridRleRun
  deriving DecidableEq, Repr

/-- A run without values is over. -/
def HybridRleRun.settled : HybridRleRun → HybridRleRun
  | .empty => .empty
  | .repeated value remaining => if remaining = 0 then .empty else .repeated value remaining
  | .bitPacked bytes bitOffset remaining =>
    if remaining = 0 then .empty else .bitPacked bytes bitOffset remaining

/-- The values that are left of a run. -/
def HybridRleRun.remaining : HybridRleRun → ℕ
  | .empty => 0
  | .repeated _ remaining => remaining
  | .bitPacked _ _ remaining => remaining

namespace HybridRleDecoder

def new (bytes : List UInt8) (bitWidth valuesLeft : ℕ) : HybridRleDecoder :=
  { bytes, offset := 0, bitWidth, valuesLeft, run := .empty }

/-- Reads the header of the next run, if none is read. -/
def ensureRun (d : HybridRleDecoder) : ParquetResult HybridRleDecoder :=
  match d.run with
  | .repeated _ _ => .ok d
  | .bitPacked _ _ _ => .ok d
  | .empty => do
    let (header, offset) ← readUnsignedVarint d.bytes d.offset
    if header = 0 then .error (previewParseError "Parquet RLE run header is zero")
    else if header &&& 1 = 0 then do
      let remaining ← usizeFrom (header >>> 1)
      let stop ← checkedOffset offset ((d.bitWidth + 7) / 8)
        "Parquet RLE repeated value length overflows"
      if d.bytes.length < stop then
        .error (previewParseError "Parquet RLE repeated value ended early")
      else
        let encoded := (d.bytes.drop offset).take ((d.bitWidth + 7) / 8)
        let value := encoded.zipIdx.foldl (fun value byte =>
          value ||| byte.1.toNat <<< (byte.2 * 8)) 0
        .ok { d with offset := stop, run := .repeated value remaining }
    else do
      let groups ← usizeFrom (header >>> 1)
      let remaining ← checkedLength groups 8 "Parquet bit-packed run length overflows"
      if remaining = 0 then
        .error (previewParseError "Parquet bit-packed run has no value groups")
      else do
        let byteLength ← checkedLength groups d.bitWidth
          "Parquet bit-packed byte length overflows"
        let stop ← checkedOffset offset byteLength "Parquet bit-packed stream offset overflows"
        if d.bytes.length < stop then
          .error (previewParseError "Parquet bit-packed stream ended early")
        else
          .ok { d with
            offset := stop
            run := .bitPacked ((d.bytes.drop offset).take byteLength) 0 remaining }

/-- The next value, which stays the next one. -/
def peek (d : HybridRleDecoder) : ParquetResult (Option ℕ × HybridRleDecoder) :=
  if d.valuesLeft = 0 then .ok (none, d)
  else do
    let d ← d.ensureRun
    match d.run with
    | .repeated value _ => .ok (some value, d)
    | .bitPacked bytes bitOffset _ => do
      let value ← readPackedU32 bytes bitOffset d.bitWidth
      .ok (some value, d)
    | .empty => .error (previewParseError "ensure_run populated a run")

/-- Counts the bit-packed values that are `first`, up to `left` more. -/
def sameValues (bytes : List UInt8) (bitOffset bitWidth first : ℕ) : ℕ → ℕ → ParquetResult ℕ
  | 0, consumed => .ok consumed
  | left + 1, consumed => do
    let relativeBits ← checkedLength consumed bitWidth "Parquet bit offset overflows"
    let nextOffset ← checkedOffset bitOffset relativeBits "Parquet bit offset overflows"
    let value ← readPackedU32 bytes nextOffset bitWidth
    if value ≠ first then .ok consumed
    else sameValues bytes bitOffset bitWidth first left (consumed + 1)

/-- The value of the run, and how many values from there on are the same. -/
def sameRun (d : HybridRleDecoder) (maxCount : ℕ) : ParquetResult (ℕ × ℕ) :=
  match d.run with
  | .repeated value remaining => .ok (value, min (min maxCount remaining) d.valuesLeft)
  | .bitPacked bytes bitOffset remaining => do
    let first ← readPackedU32 bytes bitOffset d.bitWidth
    let consumed ← sameValues bytes bitOffset d.bitWidth first
      (min (min maxCount remaining) d.valuesLeft - 1) 1
    .ok (first, consumed)
  | .empty => .error (previewParseError "ensure_run populated a run")

/-- The decoder after `consumed` values, with what is left of the run. -/
def took (d : HybridRleDecoder) (consumed : ℕ) (run : HybridRleRun) : HybridRleDecoder :=
  { d with run := run.settled, valuesLeft := d.valuesLeft - consumed }

/-- Takes values of the run, with the bits that they have. -/
def takeRun (d : HybridRleDecoder) (consumed : ℕ) (consumedBits : ParquetResult ℕ) :
    ParquetResult HybridRleDecoder :=
  match d.run with
  | .repeated value remaining => .ok (d.took consumed (.repeated value (remaining - consumed)))
  | .bitPacked bytes bitOffset remaining => do
    let bits ← consumedBits
    let bitOffset ← checkedOffset bitOffset bits "Parquet bit offset overflows"
    .ok (d.took consumed (.bitPacked bytes bitOffset (remaining - consumed)))
  | .empty => .error (previewParseError "ensure_run populated a run")

/-- Takes the longest part of the run with one value, up to `maxCount` values. -/
def consumeRun (d : HybridRleDecoder) (maxCount : ℕ) :
    ParquetResult (Option (ℕ × ℕ) × HybridRleDecoder) :=
  if maxCount = 0 ∨ d.valuesLeft = 0 then .ok (none, d)
  else do
    let d ← d.ensureRun
    let (value, consumed) ← d.sameRun maxCount
    let d ← d.takeRun consumed
      (checkedLength consumed d.bitWidth "Parquet bit offset overflows")
    .ok (some (value, consumed), d)

/-- The next value. -/
def next (d : HybridRleDecoder) : ParquetResult (Option ℕ × HybridRleDecoder) := do
  let (run, d) ← d.consumeRun 1
  .ok (run.map Prod.fst, d)

/-- The rounds of `skipRepeated`. Each takes a value at least, so `maxCount` of them suffice. -/
def skipRepeatedRounds (expected maxCount : ℕ) :
    ℕ → HybridRleDecoder → ℕ → ParquetResult (ℕ × HybridRleDecoder)
  | 0, d, skipped => .ok (skipped, d)
  | fuel + 1, d, skipped =>
    if skipped < maxCount then do
      let (value, d) ← d.peek
      if value ≠ some expected then .ok (skipped, d)
      else do
        match ← d.consumeRun (maxCount - skipped) with
        | (none, _) => .error (previewParseError "peeked hybrid RLE value")
        | (some (_, consumed), d) =>
          skipRepeatedRounds expected maxCount fuel d (skipped + consumed)
    else .ok (skipped, d)

/-- Passes over values that are `expected`, up to `maxCount`. -/
def skipRepeated (d : HybridRleDecoder) (expected maxCount : ℕ) :
    ParquetResult (ℕ × HybridRleDecoder) :=
  skipRepeatedRounds expected maxCount maxCount d 0

/-- The rounds of `skip`, one for a run. Each takes a value at least, so that `count` of them
    suffice. -/
def skipRounds : ℕ → HybridRleDecoder → ℕ → ParquetResult (ℕ × HybridRleDecoder)
  | 0, d, count => .ok (count, d)
  | fuel + 1, d, count =>
    if 0 < count ∧ 0 < d.valuesLeft then do
      let d ← d.ensureRun
      let skipped := min (min count d.run.remaining) d.valuesLeft
      let d ← d.takeRun skipped (.ok (min (skipped * d.bitWidth) usizeMax))
      skipRounds fuel d (count - skipped)
    else .ok (count, d)

/-- Passes over values, up to `count`. -/
def skip (d : HybridRleDecoder) (count : ℕ) : ParquetResult (ℕ × HybridRleDecoder) := do
  let (left, d) ← skipRounds count d count
  .ok (count - left, d)

end HybridRleDecoder

end Tabulark.Parquet
