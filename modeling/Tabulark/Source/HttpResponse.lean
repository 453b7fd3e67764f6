import Mathlib
import Tabulark.Source.Errors

/-!
# Responses to range requests

What is read off the headers of a response: the range it says it holds, its
length, and the validator that tells one version of a source from another. Header
values are texts, and the numbers in them are exact: one that a JavaScript number
cannot hold is above every bound it is compared with.

Whether the runtime reads a text as a date is left to `dateParses`, after the
forms of a date were checked here.
-/

namespace Tabulark.Source

/-- The headers that are read. -/
inductive HeaderName
  | contentRange
  | contentLength
  | etag
  | lastModified
  deriving DecidableEq, Repr

/-- What a read of a body stream yields. -/
inductive ReadResult
  | chunk (bytes : List UInt8)
  /-- A value that is not bytes. -/
  | invalid
  | done
  | failure (thrown : Thrown)
  deriving DecidableEq, Repr

/-- The body of a response: a stream, which is done once its reads are over, or a buffer that
    comes as a whole. A cancelled stream has no further chunks. -/
inductive Body
  | stream (reads : List ReadResult)
  | buffer (result : ReadResult)
  | unreadable
  deriving DecidableEq, Repr

structure Response where
  status : ℕ
  responseHeader : HeaderName → Option String
  body : Body

/-- The bytes of a stream, if all of it is delivered. -/
def streamBytes : List ReadResult → Option (List UInt8)
  | [] => some []
  | .done :: _ => some []
  | .chunk bytes :: reads => (streamBytes reads).map (bytes ++ ·)
  | .invalid :: _ => none
  | .failure _ :: _ => none

/-- The bytes of a body, if all of it is delivered. -/
def Body.bytes? : Body → Option (List UInt8)
  | stream reads => streamBytes reads
  | buffer (.chunk bytes) => some bytes
  | _ => none

/-! ## Texts -/

/-- White space and line ends, as `trim` removes them. -/
def isTrimmed (c : Char) : Bool :=
  [0x9, 0xA, 0xB, 0xC, 0xD, 0x20, 0xA0, 0x1680, 0x2028, 0x2029, 0x202F, 0x205F, 0x3000,
    0xFEFF].contains c.toNat || (0x2000 ≤ c.toNat && c.toNat ≤ 0x200A)

def trim (text : String) : List Char := (text.toList.dropWhile isTrimmed).rdropWhile isTrimmed

/-- The text after a given start. -/
def dropText (start : String) (cs : List Char) : Option (List Char) :=
  if start.toList.isPrefixOf cs then some (cs.drop start.toList.length) else none

/-- The value of decimal digits. -/
def numberOf (digits : List Char) : ℕ := digits.foldl (fun n c => 10 * n + (c.toNat - 48)) 0

/-- The number at the start of a text, and what follows. -/
def takeNumber (cs : List Char) : Option (ℕ × List Char) :=
  if (cs.takeWhile Char.isDigit).isEmpty then none
  else some (numberOf (cs.takeWhile Char.isDigit), cs.dropWhile Char.isDigit)

/-! ## Ranges and lengths -/

/-- The start, the end and the total length in `bytes start-end/total`. -/
def matchContentRange (value : List Char) : Option (ℕ × ℕ × ℕ) := do
  let (start, rest) ← takeNumber (← dropText "bytes " value)
  let (stop, rest) ← takeNumber (← dropText "-" rest)
  let (total, rest) ← takeNumber (← dropText "/" rest)
  if rest.isEmpty then some (start, stop, total) else none

/-- The total length, if the response holds exactly the expected range. -/
def parseContentRange (response : Response) (expectedOffset expectedLength : ℕ) : Option ℕ := do
  let value ← response.responseHeader .contentRange
  let (start, stop, total) ← matchContentRange (trim value)
  if maxSafeInteger < start ∨ maxSafeInteger < stop ∨ maxSafeInteger < total ∨
      start ≠ expectedOffset ∨ stop < start ∨ stop - start + 1 ≠ expectedLength ∨ total ≤ stop then
    none
  else some total

def parseContentLength (response : Response) : Option ℕ := do
  let value ← response.responseHeader .contentLength
  let (length, rest) ← takeNumber (trim value)
  if rest.isEmpty ∧ length ≤ maxSafeInteger then some length else none

/-- The total length in `bytes */total`. -/
def parseUnsatisfiedContentRange (response : Response) : Option ℕ := do
  let value ← response.responseHeader .contentRange
  let (total, rest) ← takeNumber (← dropText "bytes */" (trim value))
  if rest.isEmpty ∧ total ≤ maxSafeInteger then some total else none

/-! ## Validators -/

/-- The configured validation. -/
inductive HttpValidationStrength
  | strong
  | weak
  | etag
  | lastModified
  deriving DecidableEq, Repr

inductive ValidatorKind
  | etag
  | lastModified
  deriving DecidableEq, Repr

inductive Strength
  | strong
  | weak
  deriving DecidableEq, Repr

structure Validator where
  kind : ValidatorKind
  value : List Char
  strength : Strength
  deriving DecidableEq, Repr

def maxValidatorLength : ℕ := 4096

/-- The number of UTF-16 code units of a text. -/
def utf16Length (cs : List Char) : ℕ := (cs.map fun c => if c.toNat < 0x10000 then 1 else 2).sum

/-- Characters of an entity tag. -/
def isEtagChar (c : Char) : Bool :=
  c.toNat = 0x21 || (0x23 ≤ c.toNat && c.toNat ≤ 0x7e) || (0x80 ≤ c.toNat && c.toNat ≤ 0xff)

def isWeakEtag (etag : List Char) : Bool := "W/".toList.isPrefixOf etag

/-- A quoted entity tag, which may be a weak one. -/
def isEtag (etag : List Char) : Bool :=
  match if isWeakEtag etag then etag.drop 2 else etag with
  | '"' :: rest => rest.getLast? = some '"' && rest.dropLast.all isEtagChar
  | _ => false

/-- Whether a text is two digits of a number within bounds. -/
def isTwoDigits (low high : ℕ) (cs : List Char) : Bool :=
  cs.length = 2 && cs.all Char.isDigit && low ≤ numberOf cs && numberOf cs ≤ high

def isTime (cs : List Char) : Bool :=
  match cs with
  | [h₁, h₂, ':', m₁, m₂, ':', s₁, s₂] =>
    isTwoDigits 0 23 [h₁, h₂] && isTwoDigits 0 59 [m₁, m₂] && isTwoDigits 0 59 [s₁, s₂]
  | _ => false

def isYear (count : ℕ) (cs : List Char) : Bool := cs.length = count && cs.all Char.isDigit

def months : List String :=
  ["Jan", "Feb", "Mar", "Apr", "May", "Jun", "Jul", "Aug", "Sep", "Oct", "Nov", "Dec"]

def weekdays : List String := ["Mon", "Tue", "Wed", "Thu", "Fri", "Sat", "Sun"]

def longWeekdays : List String :=
  ["Monday", "Tuesday", "Wednesday", "Thursday", "Friday", "Saturday", "Sunday"]

/-- Whether the words of a text, split at every blank, are a date: the preferred form, or one of
    the two obsolete ones. -/
def isDateForm (value : List Char) : Bool :=
  match value.splitOn ' ' with
  | [weekday, day, month, year, time, zone] =>
    weekdays.any (fun name => weekday = name.toList ++ [',']) && isTwoDigits 1 31 day &&
      months.any (fun name => month = name.toList) && isYear 4 year && isTime time &&
      zone = "GMT".toList ||
    -- A day of one digit has a blank before it.
    weekdays.any (fun name => weekday = name.toList) &&
    months.any (fun name => day = name.toList) &&
      month = [] && isTwoDigits 1 9 ('0' :: year) && isTime time && isYear 4 zone
  | [weekday, day, time, zone] =>
    longWeekdays.any (fun name => weekday = name.toList ++ [',']) &&
      (match day.splitOn '-' with
      | [day, month, year] =>
        isTwoDigits 1 31 day && months.any (fun name => month = name.toList) && isYear 2 year
      | _ => false) && isTime time && zone = "GMT".toList
  | [weekday, month, day, time, year] =>
    weekdays.any (fun name => weekday = name.toList) &&
      months.any (fun name => month = name.toList) && isTwoDigits 10 31 day && isTime time &&
      isYear 4 year
  | _ => false

def isHttpDate (dateParses : List Char → Bool) (value : List Char) : Bool :=
  isDateForm value && dateParses value

/-- The validator of a source, as strong as is asked for. -/
def selectValidator (dateParses : List Char → Bool) (response : Response) (size : ℕ)
    (strength : HttpValidationStrength) : Except Thrown Validator :=
  let etag := (response.responseHeader .etag).map trim
  let validEtag := etag.filter fun etag =>
    utf16Length etag ≤ maxValidatorLength && isEtag etag &&
      (strength = .weak || strength = .lastModified || !isWeakEtag etag)
  if strength = .etag ∧ validEtag = none then
    .error (.error (sourceError .sourceUnavailable "The source has no usable ETag validator"))
  else
    match if strength = .lastModified then none else validEtag with
    | some etag => .ok ⟨.etag, etag, if isWeakEtag etag then .weak else .strong⟩
    | none =>
      match (response.responseHeader .lastModified).map trim with
      | some lastModified =>
        if 0 < lastModified.length ∧ utf16Length lastModified ≤ maxValidatorLength ∧
            isHttpDate dateParses lastModified then
          .ok ⟨.lastModified, lastModified ++ '|' :: (toString size).toList, .weak⟩
        else .error (.error (sourceError .sourceUnavailable "The source has no usable validator"))
      | none =>
        .error (.error (sourceError .sourceUnavailable "The source has no usable validator"))

/-- The validator that a response carries of a kind. -/
def currentValidator (response : Response) (kind : ValidatorKind) (size : ℕ) :
    Option (List Char) :=
  match kind with
  | .etag => (response.responseHeader .etag).map trim
  | .lastModified => (response.responseHeader .lastModified).map fun value =>
    trim value ++ '|' :: (toString size).toList

def validateValidator (response : Response) (validator : Validator) (size : ℕ) :
    Except Thrown Unit :=
  if currentValidator response validator.kind size = some validator.value then .ok ()
  else .error (.error (sourceError .sourceChanged "The source changed while it was open"))

/-! ## Snapshots -/

structure Snapshot where
  id : String
  strength : Strength
  deriving DecidableEq, Repr

/-- The UTF-16 code units of a character. -/
def utf16Units (c : Char) : List ℕ :=
  if c.toNat < 0x10000 then [c.toNat]
  else [0xd800 + (c.toNat - 0x10000) / 0x400, 0xdc00 + (c.toNat - 0x10000) % 0x400]

/-- FNV-1a over the code units of a text, in hexadecimal. -/
def hashOpaque (value : List Char) : String :=
  let hash := (value.flatMap utf16Units).foldl
    (fun hash unit => (hash ^^^ unit) * 0x100000001b3 % 2 ^ 64) 0xcbf29ce484222325
  let digits := Nat.toDigits 16 hash
  String.ofList (List.replicate (16 - digits.length) '0' ++ digits)

def ValidatorKind.text : ValidatorKind → String
  | etag => "etag"
  | lastModified => "last-modified"

def createSnapshot (validator : Validator) (size : ℕ) : Snapshot where
  id := "http-" ++ hashOpaque (validator.kind.text.toList ++ Char.ofNat 0 :: validator.value ++
    Char.ofNat 0 :: (toString size).toList)
  strength := validator.strength

/-! ## What the parsers accept -/

/-- A response that holds the expected range says so. -/
theorem parseContentRange_eq_some {response : Response} {offset length total : ℕ}
    (h : parseContentRange response offset length = some total) :
    ∃ value, response.responseHeader .contentRange = some value ∧
      matchContentRange (trim value) = some (offset, offset + length - 1, total) ∧
      0 < length ∧ offset + length ≤ total := by
  simp only [parseContentRange, bind, Option.bind_eq_some_iff] at h
  obtain ⟨value, hvalue, ⟨start, stop, _⟩, hmatch, h⟩ := h
  dsimp only at h
  split_ifs at h with hbounds
  cases h
  simp only [not_or, not_lt, not_le, ne_eq, not_not] at hbounds
  obtain ⟨-, -, -, rfl, hle, rfl, hlt⟩ := hbounds
  refine ⟨value, hvalue, ?_, by omega, by omega⟩
  rw [hmatch, show start + (stop - start + 1) - 1 = stop by omega]

end Tabulark.Source
