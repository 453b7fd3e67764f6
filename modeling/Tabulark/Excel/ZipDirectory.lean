import Tabulark.Excel.EntryFetch
import Tabulark.Excel.Limits

/-!
# The directory of a package

A ZIP package is read from its end: the end record in the last bytes of the source
names the central directory, and each entry of that its local header. Where a
field holds the largest value of its width, the ZIP64 records hold the value.
-/

namespace Tabulark.Excel

/-! ## Limits -/

/-- How much of the end of the source is searched for the end record. -/
def rangeTailBytes : ℕ := 128 * 1024

/-- The largest central directory. -/
def maxCentralDirectoryBytes : ℕ := 32 * 1024 * 1024

/-- The most entries of a package. -/
def maxZipEntries : ℕ := 16384

/-- The largest entry, compressed. -/
def maxCompressedEntryBytes : ℕ := 64 * 1024 * 1024

/-- The largest entry, expanded. -/
def maxExpandedEntryBytes : ℕ := 128 * 1024 * 1024

/-- The largest value of a `u16` field. -/
def u16Max : ℕ := 2 ^ 16 - 1

/-- A little-endian `u64`. -/
def readU64 : List UInt8 → ℕ → Result ℕ := readLittleEndian 8

/-! ## The end record -/

/-- Where the central directory lies, and how many entries it has. -/
structure CentralDirectoryLocation where
  range : HostRange
  entries : ℕ

/-- The end of the source. -/
def tailRange (sourceLength : ℕ) : Result HostRange :=
  let length := min sourceLength rangeTailBytes
  if length < 22 then
    .error (.new .parseFailed
      "XLSX source is too short to contain an end-of-central-directory record")
  else HostRange.new (sourceLength - length) length sourceLength

/-- A central directory within the limits. -/
def centralLocation (offset size entries sourceLength : ℕ) : Result CentralDirectoryLocation :=
  if entries = 0 ∨ maxZipEntries < entries then
    .error (((TabularkError.new .resourceLimit
      "XLSX ZIP entry count exceeds the configured limit").withDetail
      "required" (.number entries)).withDetail
      "available" (.number maxZipEntries))
  else if size = 0 ∨ maxCentralDirectoryBytes < size then
    .error (((TabularkError.new .resourceLimit
      "XLSX central directory exceeds the configured limit").withDetail
      "requiredBytes" (.number size)).withDetail
      "availableBytes" (.number maxCentralDirectoryBytes))
  else do
    let range ← HostRange.new offset size sourceLength
    .ok ⟨range, entries⟩

/-- The error of a package on more than one disk. -/
def multiDiskZip64 : TabularkError :=
  .new .unsupportedFeature "multi-disk XLSX ZIP64 archives are unsupported"

/-- The error of an end record that has no locator before it. -/
def missingLocator : TabularkError := .new .parseFailed "XLSX ZIP64 locator is missing"

/-- The ZIP64 end record that the locator before the end record names. -/
def parseZip64End (tail : List UInt8) (tailOffset eocdIndex sourceLength : ℕ) :
    Result CentralDirectoryLocation :=
  if eocdIndex < 20 then .error missingLocator
  else do
    let locator := eocdIndex - 20
    let signature ← readU32 tail locator
    if signature ≠ 0x07064b50 then .error missingLocator
    else do
      let disk ← readU32 tail (locator + 4)
      let disks ← readU32 tail (locator + 16)
      if disk ≠ 0 ∨ disks ≠ 1 then .error multiDiskZip64
      else do
        let recordOffset ← readU64 tail (locator + 8)
        if recordOffset < tailOffset then
          .error (.new .parseFailed "XLSX ZIP64 record is outside the indexed tail")
        else do
          let relative ← toUsize (recordOffset - tailOffset)
            (.new .resourceLimit "XLSX ZIP64 record offset exceeds usize")
          let invalid := TabularkError.new .parseFailed
            "XLSX ZIP64 record is invalid or truncated"
          -- A sum that overflows lies beyond the tail, too.
          if tail.length < relative + 56 then .error invalid
          else do
            let signature ← readU32 tail relative
            if signature ≠ 0x06064b50 then .error invalid
            else do
              let recordSize ← readU64 tail (relative + 4)
              if recordSize < 44 then
                .error (.new .parseFailed "XLSX ZIP64 record is truncated")
              else if tail.length < relative + 12 + recordSize then
                .error (.new .parseFailed "XLSX ZIP64 record extends outside the indexed tail")
              else do
                let disk ← readU32 tail (relative + 16)
                let directoryDisk ← readU32 tail (relative + 20)
                if disk ≠ 0 ∨ directoryDisk ≠ 0 then .error multiDiskZip64
                else do
                  let entriesOnDisk ← readU64 tail (relative + 24)
                  let entries ← readU64 tail (relative + 32)
                  if entries ≠ entriesOnDisk then
                    .error (.new .unsupportedFeature
                      "split XLSX ZIP64 central directories are unsupported")
                  else do
                    let entries ← toUsize entries
                      (.new .resourceLimit "XLSX ZIP entry count exceeds usize")
                    let offset ← readU64 tail (relative + 48)
                    let size ← readU64 tail (relative + 40)
                    centralLocation offset size entries sourceLength

/-- The end record at an index, unless what is there is none. -/
def parseEndAt (tail : List UInt8) (tailOffset sourceLength index : ℕ) :
    Result (Option CentralDirectoryLocation) := do
  let signature ← readU32 tail index
  if signature ≠ 0x06054b50 then .ok none
  else do
    let commentLength ← readU16 tail (index + 20)
    if index + 22 + commentLength ≠ tail.length then .ok none
    else do
      let disk ← readU16 tail (index + 4)
      let directoryDisk ← readU16 tail (index + 6)
      if disk ≠ 0 ∨ directoryDisk ≠ 0 then
        .error (.new .unsupportedFeature "multi-disk XLSX ZIP archives are unsupported")
      else do
        let entries ← readU16 tail (index + 10)
        let size ← readU32 tail (index + 12)
        let offset ← readU32 tail (index + 16)
        if entries = u16Max ∨ size = u32Max ∨ offset = u32Max then
          some <$> parseZip64End tail tailOffset index sourceLength
        else some <$> centralLocation offset size entries sourceLength

/-- The last end record before an index. -/
def searchEnd (tail : List UInt8) (tailOffset sourceLength : ℕ) :
    ℕ → Result CentralDirectoryLocation
  | 0 => .error (.new .parseFailed "XLSX end-of-central-directory record was not found")
  | index + 1 => do
    let found ← parseEndAt tail tailOffset sourceLength index
    match found with
    | some location => .ok location
    | none => searchEnd tail tailOffset sourceLength index

/-- The end record, searched from the end of the source. -/
def parseEndOfCentralDirectory (tail : List UInt8) (tailOffset sourceLength : ℕ) :
    Result CentralDirectoryLocation :=
  if tail.length < 22 then .error (.new .parseFailed "XLSX tail is truncated")
  else searchEnd tail tailOffset sourceLength (tail.length - 22 + 1)

/-! ## The central directory -/

/-- The parts of a path between its slashes. -/
def pathParts (path : String) : List String := (path.toList.splitOn '/').map String.ofList

/-- A name without `..`, a leading slash or a backslash. -/
def validateZipPath (name : String) : Result Unit :=
  if name.isEmpty ∨ name.toList.head? = some '/' ∨ '\\' ∈ name.toList ∨ ".." ∈ pathParts name then
    .error ((TabularkError.new .parseFailed "XLSX ZIP entry has an unsafe path").withDetail
      "entry" (.text name))
  else .ok ()

/-- The text of UTF-8 bytes. -/
def fromUtf8 (bytes : List UInt8) : Option String := String.fromUTF8? ⟨bytes.toArray⟩

/-- One value of a ZIP64 extra field that ends at `stop`, if it is needed: the value, and where the
    next one starts. -/
def zip64Value (bytes : List UInt8) (stop cursor : ℕ) (needed : Bool) : Result (ℕ × ℕ) :=
  if needed then do
    let value ← readU64 bytes cursor
    if stop < cursor + 8 then
      .error (.new .parseFailed "XLSX ZIP64 extra field is truncated")
    else .ok (value, cursor + 8)
  else .ok (0, cursor)

/-- The values of a ZIP64 extra field, in their order: the expanded size, the compressed size and
    the offset. -/
def zip64Values (bytes : List UInt8) (start stop : ℕ)
    (needCompressed needUncompressed needOffset : Bool) : Result (ℕ × ℕ × ℕ) := do
  let (uncompressed, cursor) ← zip64Value bytes stop start needUncompressed
  let (compressed, cursor) ← zip64Value bytes stop cursor needCompressed
  let (localOffset, _) ← zip64Value bytes stop cursor needOffset
  .ok (uncompressed, compressed, localOffset)

/-- The first ZIP64 extra field from an offset on; every turn takes the offset further. -/
def searchZip64Extra (bytes : List UInt8)
    (needCompressed needUncompressed needOffset : Bool) : ℕ → ℕ → Result (ℕ × ℕ × ℕ)
  | 0, _ => .error (.new .parseFailed "XLSX ZIP64 entry metadata is missing")
  | turns + 1, offset =>
    if offset + 4 ≤ bytes.length then do
      let id ← readU16 bytes offset
      let size ← readU16 bytes (offset + 2)
      let stop := offset + 4 + size
      if bytes.length < stop then
        .error (.new .parseFailed "XLSX ZIP64 entry metadata is missing")
      else if id ≠ 1 then
        searchZip64Extra bytes needCompressed needUncompressed needOffset turns stop
      else zip64Values bytes (offset + 4) stop needCompressed needUncompressed needOffset
    else .error (.new .parseFailed "XLSX ZIP64 entry metadata is missing")

/-- The ZIP64 values among the extra fields of an entry. -/
def parseZip64Extra (bytes : List UInt8) (needCompressed needUncompressed needOffset : Bool) :
    Result (ℕ × ℕ × ℕ) :=
  searchZip64Extra bytes needCompressed needUncompressed needOffset (bytes.length + 1) 0

/-- The error of an entry that is not one. -/
def invalidCentralEntry : TabularkError :=
  .new .parseFailed "XLSX central directory contains an invalid entry"

/-- The entry at an offset of the central directory, and where the next one starts. -/
def parseCentralEntry (bytes : List UInt8) (sourceLength offset : ℕ) :
    Result (ZipEntryIndex × ℕ) :=
  if bytes.length - offset < 46 then .error invalidCentralEntry
  else do
    let signature ← readU32 bytes offset
    if signature ≠ 0x02014b50 then .error invalidCentralEntry
    else do
      let flags ← readU16 bytes (offset + 8)
      let method ← readU16 bytes (offset + 10)
      let crc32 ← readU32 bytes (offset + 16)
      let compressedSize ← readU32 bytes (offset + 20)
      let uncompressedSize ← readU32 bytes (offset + 24)
      let nameLength ← readU16 bytes (offset + 28)
      let extraLength ← readU16 bytes (offset + 30)
      let commentLength ← readU16 bytes (offset + 32)
      let localHeaderOffset ← readU32 bytes (offset + 42)
      let nameStart ← checkedAdd usizeMax offset 46 zipOverflow
      let nameEnd ← checkedAdd usizeMax nameStart nameLength zipOverflow
      let extraEnd ← checkedAdd usizeMax nameEnd extraLength zipOverflow
      let stop ← checkedAdd usizeMax extraEnd commentLength zipOverflow
      if bytes.length < stop then
        .error (.new .parseFailed "XLSX central directory entry is truncated")
      else
        match fromUtf8 ((bytes.drop nameStart).take nameLength) with
        | none => .error (.new .unsupportedFeature "XLSX ZIP entry names must be UTF-8")
        | some name => do
          validateZipPath name
          if flags % 2 ≠ 0 then
            .error ((TabularkError.new .unsupportedFeature
              "encrypted XLSX ZIP entries are unsupported").withDetail
              "entry" (.text name))
          else if method ≠ 0 ∧ method ≠ 8 then
            .error (((TabularkError.new .unsupportedFeature
              "XLSX ZIP compression method is unsupported").withDetail
              "entry" (.text name)).withDetail
              "method" (.number method))
          else do
            let needCompressed := compressedSize == u32Max
            let needUncompressed := uncompressedSize == u32Max
            let needOffset := localHeaderOffset == u32Max
            -- The values of the fields that overflow are those of the extra field.
            let (wideUncompressed, wideCompressed, wideOffset) ←
              if needCompressed || needUncompressed || needOffset then
                parseZip64Extra ((bytes.drop nameEnd).take extraLength)
                  needCompressed needUncompressed needOffset
              else .ok (0, 0, 0)
            let uncompressedSize := if needUncompressed then wideUncompressed else uncompressedSize
            let compressedSize := if needCompressed then wideCompressed else compressedSize
            let localHeaderOffset := if needOffset then wideOffset else localHeaderOffset
            if maxCompressedEntryBytes < compressedSize ∨
                maxExpandedEntryBytes < uncompressedSize then
              .error ((((TabularkError.new .resourceLimit
                "XLSX ZIP entry exceeds the configured bound").withDetail
                "entry" (.text name)).withDetail
                "compressedBytes" (.number compressedSize)).withDetail
                "expandedBytes" (.number uncompressedSize))
            else do
              let _ ← HostRange.new localHeaderOffset 30 sourceLength
              .ok (⟨name, flags, method, crc32, compressedSize, uncompressedSize,
                localHeaderOffset⟩, stop)

/-- The entries from an offset on; every turn takes the offset further. -/
def parseCentralEntries (bytes : List UInt8) (sourceLength : ℕ) :
    ℕ → ℕ → List ZipEntryIndex → Result (List ZipEntryIndex)
  | 0, _, _ => .error invalidCentralEntry
  | turns + 1, offset, entries =>
    if offset < bytes.length then do
      let (entry, stop) ← parseCentralEntry bytes sourceLength offset
      if entries.any (·.name = entry.name) then
        .error ((TabularkError.new .parseFailed
          "XLSX ZIP contains a duplicate entry").withDetail
          "entry" (.text entry.name))
      else parseCentralEntries bytes sourceLength turns stop (entries ++ [entry])
    else .ok entries

/-- The central directory, with as many entries as its end record says. -/
def parseCentralDirectory (bytes : List UInt8) (expectedEntries sourceLength : ℕ) :
    Result ZipDirectoryIndex := do
  let entries ← parseCentralEntries bytes sourceLength (bytes.length + 1) 0 []
  if entries.length ≠ expectedEntries then
    .error (((TabularkError.new .parseFailed
      "XLSX central directory count does not match its end record").withDetail
      "expectedEntries" (.number expectedEntries)).withDetail
      "actualEntries" (.number entries.length))
  else .ok ⟨entries⟩

/-! ## The workbook -/

/-- Texts that differ in the case of ASCII letters only. -/
def eqIgnoreAsciiCase (a b : String) : Bool :=
  a.toList.map Char.toLower == b.toList.map Char.toLower

/-- The path of the workbook. -/
def ZipDirectoryIndex.workbookPath (index : ZipDirectoryIndex) : Option String :=
  if index.entries.any (·.name = "xl/workbook.xml") then some "xl/workbook.xml"
  else (index.entries.find? (eqIgnoreAsciiCase ·.name "xl/workbook.xml")).map (·.name)

/-- The path of the relationships of the workbook. -/
def workbookRelationshipsPath (workbookPath : String) : String :=
  match (pathParts workbookPath).reverse with
  | file :: directory :: rest =>
    String.intercalate "/" (rest.reverse ++ [directory]) ++ "/_rels/" ++ file ++ ".rels"
  | _ => "_rels/" ++ workbookPath ++ ".rels"

/-- A worksheet that the workbook names. -/
structure RangeSheetDescriptor where
  id : String
  name : String
  visibility : ExcelSheetVisibility
  path : String
  deriving DecidableEq, Repr

end Tabulark.Excel
