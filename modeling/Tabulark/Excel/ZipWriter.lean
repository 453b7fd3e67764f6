import Tabulark.Excel.ZipExact

/-!
# Compact packages

A worksheet is handed to the workbook parser in a package of its own: the entries
that were fetched, still compressed, and empty placeholders for the other
worksheets (`buildRawZip`). What the writer puts together is a package as the
format has it (`buildRawZip_eq_ok`).
-/

namespace Tabulark.Excel

open LittleEndian

/-! ## The writer -/

/-- A number that fits an integer type. -/
def narrow (bound value : ℕ) (error : TabularkError) : Result ℕ :=
  if value ≤ bound then .ok value else .error error

theorem narrow_eq_ok {bound value n : ℕ} {error : TabularkError} :
    narrow bound value error = .ok n ↔ value ≤ bound ∧ n = value := by
  rw [narrow]
  by_cases h : value ≤ bound
  · rw [if_pos h]
    exact ⟨fun heq => ⟨h, (Except.ok.inj heq).symm⟩, fun heq => congrArg _ heq.2.symm⟩
  · rw [if_neg h]
    exact ⟨fun heq => Result.error_elim heq, fun heq => absurd heq.1 h⟩

/-- What the directory holds of an entry. -/
structure Central where
  name : List UInt8
  flags : ℕ
  method : ℕ
  crc32 : ℕ
  compressedSize : ℕ
  uncompressedSize : ℕ
  localOffset : ℕ

/-- An entry to append. -/
structure Appended where
  name : String
  flags : ℕ
  method : ℕ
  crc32 : ℕ
  compressed : List UInt8
  uncompressedSize : ℕ

/-- Flags without the one for sizes behind the data. -/
def withoutDescriptor (flags : ℕ) : ℕ := flags &&& 0xFFF7

/-- A local header. -/
def localHeader (e : Appended) : List UInt8 :=
  fields [(4, 0x04034b50), (2, 20), (2, withoutDescriptor e.flags), (2, e.method), (2, 0), (2, 0),
    (4, e.crc32), (4, e.compressed.length), (4, e.uncompressedSize),
    (2, (nameBytes e.name).length), (2, 0)]

/-- The error of an entry or a package that is too large. -/
def exceedsZip32 (message : String) : TabularkError := .new .resourceLimit message

/-- Appends an entry to the package and to its directory. -/
def append (output : List UInt8) (central : List Central) (e : Appended) :
    Result (List UInt8 × List Central) := do
  let _ ← narrow u16Max (nameBytes e.name).length
    (exceedsZip32 "XLSX ZIP entry name is too long")
  let compressedSize ← narrow u32Max e.compressed.length
    (exceedsZip32 "compact XLSX entry exceeds ZIP32")
  let uncompressedSize ← narrow u32Max e.uncompressedSize
    (exceedsZip32 "compact XLSX entry exceeds ZIP32")
  let localOffset ← narrow u32Max output.length (exceedsZip32 "compact XLSX exceeds ZIP32")
  .ok (output ++ localHeader e ++ nameBytes e.name ++ e.compressed,
    central ++ [⟨nameBytes e.name, withoutDescriptor e.flags, e.method, e.crc32, compressedSize,
      uncompressedSize, localOffset⟩])

/-- Appends entries one after the other. -/
def appendAll : List Appended → List UInt8 → List Central → Result (List UInt8 × List Central)
  | [], output, central => .ok (output, central)
  | e :: es, output, central => do
    let (output, central) ← append output central e
    appendAll es output central

/-- A header of the central directory, with its name. -/
def centralHeader (c : Central) : Result (List UInt8) := do
  let nameLength ← narrow u16Max c.name.length zipOverflow
  .ok (fields [(4, 0x02014b50), (2, 20), (2, 20), (2, c.flags), (2, c.method), (2, 0), (2, 0),
    (4, c.crc32), (4, c.compressedSize), (4, c.uncompressedSize), (2, nameLength), (2, 0), (2, 0),
    (2, 0), (2, 0), (4, 0), (4, c.localOffset)] ++ c.name)

/-- The headers of a central directory. -/
def centralHeaders : List Central → Result (List UInt8)
  | [] => .ok []
  | c :: central => do
    let header ← centralHeader c
    let headers ← centralHeaders central
    .ok (header ++ headers)

/-- One bit of a checksum. -/
def crc32Bit (value : UInt32) : UInt32 :=
  if value &&& 1 = 0 then value >>> 1 else (value >>> 1) ^^^ 0xedb88320

/-- The CRC-32 of bytes. -/
def crc32 (bytes : List UInt8) : ℕ :=
  (~~~(bytes.foldl (fun value byte => crc32Bit^[8] (value ^^^ byte.toUInt32)) 0xffffffff)).toNat

/-- An entry that was fetched. -/
def RawZipEntry.appended (e : RawZipEntry) : Appended :=
  ⟨e.index.name, e.index.flags, e.index.method, e.index.crc32, e.compressed,
    e.index.uncompressedSize⟩

/-- A placeholder, stored. -/
def placeholder (name : String) (bytes : List UInt8) : Appended :=
  ⟨name, 0x0800, 0, crc32 bytes, bytes, bytes.length⟩

/-- The entries of a package in their order. -/
def appendedEntries (entries : List RawZipEntry) (placeholders : List (String × List UInt8)) :
    List Appended :=
  entries.map RawZipEntry.appended ++ placeholders.map fun p => placeholder p.1 p.2

/-- A package of entries and placeholders. -/
def buildRawZip (entries : List RawZipEntry) (placeholders : List (String × List UInt8)) :
    Result (List UInt8) := do
  let (output, central) ← appendAll (appendedEntries entries placeholders) [] []
  let centralOffset ← narrow u32Max output.length (exceedsZip32 "compact XLSX exceeds ZIP32")
  let headers ← centralHeaders central
  let output := output ++ headers
  let stop ← narrow u32Max output.length zipOverflow
  let centralSize := stop - centralOffset
  let count ← narrow u16Max central.length
    (exceedsZip32 "compact XLSX has too many entries")
  .ok (output ++ fields [(4, 0x06054b50), (2, 0), (2, 0), (2, count), (2, count),
    (4, centralSize), (4, centralOffset), (2, 0)])

/-- A worksheet without rows. -/
def emptyWorksheet : List UInt8 := nameBytes
  ("<?xml version=\"1.0\" encoding=\"UTF-8\" standalone=\"yes\"?><worksheet xmlns=\"" ++
    "http://schemas.openxmlformats.org/spreadsheetml/2006/main\"><sheetData/></worksheet>")

/-- The package of one worksheet: the other worksheets are empty. -/
def buildCompactXlsx (entries : List RawZipEntry) (sheets : List RangeSheetDescriptor)
    (selectedPath : String) : Result (List UInt8) :=
  buildRawZip entries ((sheets.filter fun sheet => sheet.path ≠ selectedPath).map
    fun sheet => (sheet.path, emptyWorksheet))

/-! ## What it writes -/

namespace Appended

/-- What the directory holds of an entry that starts at an offset. -/
def central (e : Appended) (offset : ℕ) : Central :=
  ⟨nameBytes e.name, withoutDescriptor e.flags, e.method, e.crc32, e.compressed.length,
    e.uncompressedSize, offset⟩

/-- The same entry as a record of the directory. -/
def record (e : Appended) (offset : ℕ) : CentralRecord where
  index := ⟨e.name, withoutDescriptor e.flags, e.method, e.crc32, e.compressed.length,
    e.uncompressedSize, offset⟩

/-- The bytes of an entry. -/
def bytes (e : Appended) : List UInt8 := localHeader e ++ (nameBytes e.name ++ e.compressed)

/-- The numbers of an entry fit their fields. -/
structure Fits (e : Appended) : Prop where
  name_le : (nameBytes e.name).length ≤ u16Max
  compressed_le : e.compressed.length ≤ u32Max
  uncompressedSize_le : e.uncompressedSize ≤ u32Max

end Appended

/-- Entries with the offsets they start at. -/
def placed (offset : ℕ) : List Appended → List (Appended × ℕ)
  | [] => []
  | e :: es => (e, offset) :: placed (offset + e.bytes.length) es

/-- The records of a directory. -/
def recordsOf (es : List (Appended × ℕ)) : List CentralRecord :=
  es.map fun e => e.1.record e.2

variable {es : List Appended} {output : List UInt8} {central : List Central}

theorem append_eq_ok {e : Appended} {result : List UInt8 × List Central}
    (h : append output central e = .ok result) :
    e.Fits ∧ output.length ≤ u32Max ∧
      result = (output ++ e.bytes, central ++ [e.central output.length]) := by
  obtain ⟨_, hname, h⟩ := Result.bind_eq_ok.1 h
  obtain ⟨_, hcompressed, h⟩ := Result.bind_eq_ok.1 h
  obtain ⟨_, huncompressed, h⟩ := Result.bind_eq_ok.1 h
  obtain ⟨_, hoffset, h⟩ := Result.bind_eq_ok.1 h
  obtain ⟨hcompressedLe, rfl⟩ := narrow_eq_ok.1 hcompressed
  obtain ⟨huncompressedLe, rfl⟩ := narrow_eq_ok.1 huncompressed
  obtain ⟨hoffsetLe, rfl⟩ := narrow_eq_ok.1 hoffset
  cases h
  refine ⟨⟨(narrow_eq_ok.1 hname).1, hcompressedLe, huncompressedLe⟩, hoffsetLe, ?_⟩
  rw [Appended.bytes, List.append_assoc, List.append_assoc]
  rfl

/-- The entries stand one after the other, and the directory says where. -/
theorem appendAll_eq_ok {result : List UInt8 × List Central}
    (h : appendAll es output central = .ok result) :
    (∀ e ∈ es, e.Fits) ∧ result = (output ++ es.flatMap Appended.bytes,
      central ++ (placed output.length es).map fun e => e.1.central e.2) := by
  induction es generalizing output central with
  | nil =>
    cases h
    refine ⟨fun e he => absurd he List.not_mem_nil, ?_⟩
    rw [List.flatMap_nil, List.append_nil, placed, List.map_nil, List.append_nil]
  | cons e es ih =>
    obtain ⟨next, happend, h⟩ := Result.bind_eq_ok.1 h
    obtain ⟨hfits, _, rfl⟩ := append_eq_ok happend
    obtain ⟨hall, rfl⟩ := ih h
    refine ⟨fun e' he => ?_, ?_⟩
    · rcases List.mem_cons.1 he with rfl | he
      · exact hfits
      · exact hall e' he
    · rw [List.flatMap_cons, placed, List.map_cons, List.append_assoc, List.append_assoc,
        List.length_append]
      rfl

/-- A header of the directory is the record of its entry. -/
theorem centralHeader_eq {e : Appended} (h : e.Fits) (offset : ℕ) :
    centralHeader (e.central offset) = .ok (e.record offset).encode := by
  have hname : narrow u16Max (e.central offset).name.length zipOverflow =
      .ok (nameBytes e.name).length := narrow_eq_ok.2 ⟨h.name_le, rfl⟩
  rw [centralHeader, hname, Result.ok_bind]
  refine congrArg Except.ok ?_
  change _ = fields _ ++ (nameBytes e.name ++ ([] ++ []))
  rw [List.append_nil, List.append_nil]
  rfl

theorem centralHeaders_eq (h : ∀ e ∈ es, e.Fits) (offset : ℕ) :
    centralHeaders ((placed offset es).map fun e => e.1.central e.2) =
      .ok (directory (recordsOf (placed offset es))) := by
  induction es generalizing offset with
  | nil => rfl
  | cons e es ih =>
    rw [placed, List.map_cons, centralHeaders, centralHeader_eq (h e List.mem_cons_self),
      Result.ok_bind, ih fun e' he => h e' (List.mem_cons_of_mem _ he)]
    rfl

/-- The package that the writer puts together. -/
def compactPackage (es : List Appended) : Package where
  before := es.flatMap Appended.bytes
  records := recordsOf (placed 0 es)

/-- The writer writes its package. -/
theorem buildRawZip_eq_ok {entries : List RawZipEntry} {placeholders : List (String × List UInt8)}
    {out : List UInt8} (h : buildRawZip entries placeholders = .ok out) :
    (∀ e ∈ appendedEntries entries placeholders, e.Fits) ∧
      out = (compactPackage (appendedEntries entries placeholders)).encode ∧
      (compactPackage (appendedEntries entries placeholders)).before.length +
        (compactPackage (appendedEntries entries placeholders)).directory.length ≤ u32Max := by
  rw [buildRawZip] at h
  obtain ⟨result, happend, h⟩ := Result.bind_eq_ok.1 h
  obtain ⟨hfits, rfl⟩ := appendAll_eq_ok happend
  dsimp only at h
  obtain ⟨_, hoffset, h⟩ := Result.bind_eq_ok.1 h
  obtain ⟨_, rfl⟩ := narrow_eq_ok.1 hoffset
  rw [List.nil_append, List.nil_append, List.length_nil, centralHeaders_eq hfits,
    Result.ok_bind] at h
  obtain ⟨_, hstop, h⟩ := Result.bind_eq_ok.1 h
  obtain ⟨hstopLe, rfl⟩ := narrow_eq_ok.1 hstop
  obtain ⟨_, hcount, h⟩ := Result.bind_eq_ok.1 h
  obtain ⟨_, rfl⟩ := narrow_eq_ok.1 hcount
  rw [List.length_append] at hstopLe h
  rw [Nat.add_sub_cancel_left, List.length_map] at h
  cases h
  refine ⟨hfits, ?_, hstopLe⟩
  obtain ⟨es, hes⟩ : ∃ es, es = appendedEntries entries placeholders := ⟨_, rfl⟩
  rw [← hes]
  have hcount : (compactPackage es).records.length = (placed 0 es).length := List.length_map _
  have hfields : (compactPackage es).endFields = [(4, 0x06054b50), (2, 0), (2, 0),
      (2, (placed 0 es).length), (2, (placed 0 es).length),
      (4, (directory (recordsOf (placed 0 es))).length),
      (4, (es.flatMap Appended.bytes).length), (2, 0)] := by
    rw [← hcount]
    rfl
  rw [Package.encode, hfields]
  change _ = _ ++ (_ ++ ([] ++ (_ ++ [])))
  rw [List.nil_append, List.append_nil, List.append_assoc]
  rfl

end Tabulark.Excel
