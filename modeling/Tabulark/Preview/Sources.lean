import Tabulark.Lib.JsValue
import Tabulark.Preview.Value

/-!
# Sources of previews

A preview reads a source, which is local, or has a reader that a provider opens. What
a provider returns is not trusted: the reader is checked when it is opened, and what
it reads every time.
-/

namespace Tabulark.Preview

/-! ## Formats -/

inductive PreviewFormat
  | json | jsonl | yaml | xml | toml
  | text | markdown | log | ini | env | properties | code
  | png | jpeg | gif | webp | svg | bmp | tiff | heic
  | pdf
  deriving DecidableEq, Repr

def isStructured (format : PreviewFormat) : Bool :=
  [.json, .jsonl, .yaml, .xml, .toml].contains format

def isImage (format : PreviewFormat) : Bool :=
  [.png, .jpeg, .gif, .webp, .svg, .bmp, .tiff, .heic].contains format

def isTextual (format : PreviewFormat) : Bool :=
  isStructured format || [.text, .markdown, .log, .ini, .env, .properties, .code].contains format

structure PreviewLimits where
  maxSourceBytes : ℕ
  maxInputBytes : ℕ
  maxTextBytes : ℕ
  maxTextLines : ℕ
  maxRangeConcurrency : ℕ

/-! ## Errors -/

/-- What is thrown: an error of a preview, of a range or of a type, or what a provider threw. -/
inductive Thrown
  | preview (error : PreviewError)
  | range (message : String)
  | type (message : String)
  | foreign
  deriving DecidableEq, Repr

def cancelled : Thrown :=
  .preview { code := .cancelled, message := "The preview operation was cancelled" }

def closed : Thrown :=
  .preview { code := .handleClosed, message := "The preview session is closed" }

def sourceReaderClosed : Thrown :=
  .preview { code := .handleClosed, message := "The source reader is closed" }

def unsupportedFormat (message : String) : Thrown :=
  .preview { code := .unsupportedFormat, message }

/-! ## Readers -/

/-- What a provider returns for a reader. -/
structure RangeSourceReader where
  isObject : Bool
  size : JsValue
  snapshot : JsValue
  hasRead : Bool
  hasClose : Bool
  maxConcurrency : JsValue

structure RangeSourceSnapshot where
  id : String
  strength : String
  deriving DecidableEq, Repr

def maxPreviewSourceBytes : ℕ := JsValue.maxSafe

/-- The length of a text in code units. -/
def codeUnits (text : String) : ℕ :=
  (text.toList.map fun c => if c.toNat < 0x10000 then 1 else 2).sum

/-- A size that a reader may have. -/
def readerSize? (reader : RangeSourceReader) (limits : PreviewLimits) : Option ℕ :=
  if reader.isObject then
    reader.size.safeNat?.filter fun size =>
      size ≤ limits.maxSourceBytes ∧ size ≤ maxPreviewSourceBytes
  else none

/-- A snapshot that a reader may have. -/
def snapshot? (snapshot : JsValue) : Option RangeSourceSnapshot := do
  let id ← (snapshot.prop "id").text?
  let strength ← (snapshot.prop "strength").text?
  if codeUnits id = 0 ∨ 256 < codeUnits id ∨ strength ∉ ["strong", "weak"] then none
  else some ⟨id, strength⟩

/-- Checks a reader, and gives its size and snapshot. -/
def validateReader (reader : RangeSourceReader) (limits : PreviewLimits) :
    Except Thrown (ℕ × RangeSourceSnapshot) :=
  match readerSize? reader limits with
  | none => .error (.range "RangeSource reader size is invalid")
  | some size =>
    match snapshot? reader.snapshot with
    | none => .error (.range "RangeSource snapshot is invalid")
    | some snapshot =>
      if ¬reader.hasRead ∨ ¬reader.hasClose then
        .error (.type "RangeSource reader is invalid")
      else if ¬reader.maxConcurrency.isUndefined ∧ (reader.maxConcurrency.safeNat?.filter
          fun n => 1 ≤ n ∧ n ≤ limits.maxRangeConcurrency) = none then
        .error (.range "RangeSource concurrency exceeds the preview limit")
      else .ok (size, snapshot)

/-! ## Opened sources -/

inductive PreviewSource
  | range (name : Option String)
  | blob (bytes : List UInt8) (name : Option String)
  | other

structure OpenedSource where
  size : ℕ
  name : Option String
  snapshot : RangeSourceSnapshot
  remoteRange : Bool
  isClosed : Bool := false

/-- What is read from a source that is not closed. -/
def OpenedSource.checkRead (source : OpenedSource) (offset length : ℕ) (aborted : Bool) :
    Except Thrown Unit :=
  if source.isClosed then .error sourceReaderClosed
  else if ¬source.remoteRange ∧ aborted then .error cancelled
  else if source.size < offset ∨ source.size - offset < length then
    .error (.range "byte range is outside the source")
  else .ok ()

def copyBytes : JsValue → Except Thrown (List UInt8)
  | .buffer bytes | .view bytes => .ok bytes
  | _ => .error (.type "RangeSource returned a non-buffer value")

/-- Whether a reader still has the snapshot that it had. -/
def OpenedSource.hasSnapshot (source : OpenedSource) (snapshot : JsValue) : Bool :=
  (snapshot.prop "id").isText source.snapshot.id &&
    (snapshot.prop "strength").isText source.snapshot.strength

/-- The bytes that a reader returned, given the snapshot that it has then. -/
def OpenedSource.rangeBytes (source : OpenedSource) (offset length : ℕ) (value snapshot : JsValue) :
    Except Thrown (List UInt8) := do
  let bytes ← copyBytes value
  if bytes.length ≠ length then
    .error (.preview {
      code := .sourceChanged
      message := "The range source returned a short or long read"
      details := [("offset", .number offset), ("expected", .number length),
        ("actual", .number bytes.length)] })
  else if ¬source.hasSnapshot snapshot then
    .error (.preview {
      code := .sourceChanged
      message := "The range source snapshot changed while previewing" })
  else .ok bytes

end Tabulark.Preview
