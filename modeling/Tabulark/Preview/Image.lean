import Mathlib
import Tabulark.Lib.JsValue
import Tabulark.Preview.Sources

/-!
# Headers of images

An image is not decoded before its size is known: `inspectImage` reads the size from
the header, and rejects an image that has too many pixels. Not every header is
understood. An image without a size passes.
-/

namespace Tabulark.Preview

/-! ## Bytes -/

section bytes

variable (bytes : List UInt8) (offset : ℕ)

/-- A byte; what is behind the end counts as zero. -/
def byteAt : ℕ := bytes[offset]?.elim 0 UInt8.toNat

/-- A number of two bytes, the most significant first. -/
def uint16 : ℕ := byteAt bytes offset <<< 8 ||| byteAt bytes (offset + 1)

def uint16LE : ℕ := byteAt bytes (offset + 1) <<< 8 ||| byteAt bytes offset

def uint24 : ℕ :=
  byteAt bytes (offset + 2) <<< 16 ||| (byteAt bytes (offset + 1) <<< 8 ||| byteAt bytes offset)

def uint32 : ℕ := uint16 bytes offset <<< 16 ||| uint16 bytes (offset + 2)

def uint32LE : ℕ := byteAt bytes (offset + 3) <<< 24 ||| uint24 bytes offset

/-- The absolute value of a signed number of 32 bits. -/
def absInt32 (n : ℕ) : ℕ := if n < 2 ^ 31 then n else 2 ^ 32 - n

end bytes

/-- How often some bytes occur. -/
def count (bytes signature : List UInt8) : ℕ :=
  (List.range (bytes.length + 1 - signature.length)).countP fun index =>
    signature.isPrefixOf (bytes.drop index)

/-! ## Sizes -/

/-- The markers that start a frame. -/
def frameMarkers : List ℕ :=
  [0xc0, 0xc1, 0xc2, 0xc3, 0xc5, 0xc6, 0xc7, 0xc9, 0xca, 0xcb, 0xcd, 0xce, 0xcf]

/-- The width and the height behind the first marker of a frame that the walk over the markers from
    an offset comes to. -/
def jpegSizeFrom (bytes : List UInt8) (offset : ℕ) : Option (ℕ × ℕ) :=
  if offset + 9 < bytes.length then
    if byteAt bytes offset ≠ 0xff then jpegSizeFrom bytes (offset + 1)
    else if byteAt bytes (offset + 1) ∈ frameMarkers then
      some (uint16 bytes (offset + 7), uint16 bytes (offset + 5))
    else if uint16 bytes (offset + 2) < 2 then none
    else jpegSizeFrom bytes (offset + (2 + uint16 bytes (offset + 2)))
  else none
termination_by bytes.length - offset

def jpegSize (bytes : List UInt8) : Option (ℕ × ℕ) := jpegSizeFrom bytes 2

def webpSize (bytes : List UInt8) : Option (ℕ × ℕ) :=
  let chunk := (bytes.drop 12).take 4
  if chunk = [0x56, 0x50, 0x38, 0x58] ∧ 30 ≤ bytes.length then
    some (1 + uint24 bytes 24, 1 + uint24 bytes 27)
  else if chunk = [0x56, 0x50, 0x38, 0x4c] ∧ 25 ≤ bytes.length then
    let bits := uint32LE bytes 21
    some ((bits &&& 0x3fff) + 1, (bits >>> 14 &&& 0x3fff) + 1)
  else none

/-! ## Images -/

/-- The name of a format. -/
def formatName : PreviewFormat → String
  | .json => "json"
  | .jsonl => "jsonl"
  | .yaml => "yaml"
  | .xml => "xml"
  | .toml => "toml"
  | .text => "text"
  | .markdown => "markdown"
  | .log => "log"
  | .ini => "ini"
  | .env => "env"
  | .properties => "properties"
  | .code => "code"
  | .png => "png"
  | .jpeg => "jpeg"
  | .gif => "gif"
  | .webp => "webp"
  | .svg => "svg"
  | .bmp => "bmp"
  | .tiff => "tiff"
  | .heic => "heic"
  | .pdf => "pdf"

def mediaType : PreviewFormat → String
  | .jpeg => "image/jpeg"
  | .svg => "image/svg+xml"
  | .tiff => "image/tiff"
  | .heic => "image/heic"
  | format => "image/" ++ formatName format

structure ImageInfo where
  width : Option ℕ
  height : Option ℕ
  frameCount : Option ℕ
  mediaType : String
  deriving DecidableEq, Repr

/-- The size of an image that is not a text, and how many frames it has. -/
def imageSize (format : PreviewFormat) (bytes : List UInt8) : Option (ℕ × ℕ) × Option ℕ :=
  match format with
  | .png => (if 24 ≤ bytes.length then some (uint32 bytes 16, uint32 bytes 20) else none, none)
  | .gif =>
    if 10 ≤ bytes.length then
      (some (uint16LE bytes 6, uint16LE bytes 8), some (count bytes [0x2c]))
    else (none, none)
  | .bmp =>
    (if 26 ≤ bytes.length then
      some (absInt32 (uint32LE bytes 18), absInt32 (uint32LE bytes 22)) else none, none)
  | .jpeg => (jpegSize bytes, none)
  | .webp => (webpSize bytes, none)
  | _ => (none, none)

/-- Inspects an image, which may have so many pixels. An SVG image is a text: what becomes of it is
    a parameter. -/
def inspectImage (inspectSvg : List UInt8 → ℕ → PreviewResult ImageInfo) (format : PreviewFormat)
    (bytes : List UInt8) (maxPixels : ℕ) : PreviewResult ImageInfo :=
  if format = .svg then inspectSvg bytes maxPixels
  else
    let (size, frameCount) := imageSize format bytes
    match size with
    | none => .ok { width := none, height := none, frameCount, mediaType := mediaType format }
    | some (width, height) =>
      if JsValue.maxSafe < width * height ∨ maxPixels < width * height then
        .error (resourceLimit "image-pixels" (width * height) maxPixels)
      else
        .ok { width := some width, height := some height, frameCount,
              mediaType := mediaType format }

end Tabulark.Preview
