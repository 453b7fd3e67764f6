import Tabulark.Excel.ZipDirectory
import Tabulark.Lib.LittleEndian

/-!
# The central directory as it is written

What a ZIP writer puts into the central directory (`CentralRecord`), field by
field: the extra fields and the comment of an entry, and the ZIP64 extra field
with the numbers that do not fit their own. `parseCentralEntry_encode` reads an
entry back.
-/

namespace Tabulark.Excel

open LittleEndian

/-! ## Reading fields -/

section Fields

variable {w n : ℕ}

/-- A number is read where its bytes are. -/
theorem readLittleEndian_of_slice {bytes : List UInt8} {offset : ℕ}
    (h : (bytes.drop offset).take w = digits w n) (hn : n < 256 ^ w) :
    readLittleEndian w bytes offset = .ok n := by
  rw [readLittleEndian, h, if_pos (length_digits w n)]
  exact congrArg Except.ok (number_digits hn)

/-- A field of a record is read back. -/
theorem read_fields (fs : List (ℕ × ℕ)) (before after : List UInt8) (k : ℕ)
    (h : fs[k]? = some (w, n))
    (hn : n < 256 ^ w) {offset : ℕ} (hoffset : startOf before.length fs k = offset) :
    readLittleEndian w (before ++ (fields fs ++ after)) offset = .ok n :=
  readLittleEndian_of_slice (hoffset ▸ slice_fields before after h) hn

/-- A number is read back. -/
theorem read_digits (before after : List UInt8) (hn : n < 256 ^ w) :
    readLittleEndian w (before ++ (digits w n ++ after)) before.length = .ok n := by
  refine readLittleEndian_of_slice ?_ hn
  rw [List.drop_left]
  exact List.take_left' (length_digits w n)

end Fields

/-! ## Names -/

/-- The bytes of a name. -/
def nameBytes (name : String) : List UInt8 := name.toUTF8.data.toList

theorem fromUtf8_nameBytes (name : String) : fromUtf8 (nameBytes name) = some name := by
  rw [fromUtf8, nameBytes, String.fromUTF8?]
  exact dif_pos name.isValidUTF8

/-! ## Entries -/

/-- An extra field of an entry. -/
structure ExtraField where
  id : ℕ
  data : List UInt8
  id_lt : id < 2 ^ 16
  length_lt : data.length < 2 ^ 16

/-- The bytes of an extra field. -/
def ExtraField.encode (f : ExtraField) : List UInt8 :=
  fields [(2, f.id), (2, f.data.length)] ++ f.data

/-- What stands in a field of a width whose number stands elsewhere if it is `wide`. -/
def sentinel (width : ℕ) (wide : Bool) (n : ℕ) : ℕ := if wide then 256 ^ width - 1 else n

/-- A number can stand where it does; the largest of a width only says that it stands elsewhere. -/
def FitsField (width : ℕ) (wide : Bool) (n : ℕ) : Prop :=
  n < if wide then 256 ^ 8 else 256 ^ width - 1

instance (width : ℕ) (wide : Bool) (n : ℕ) : Decidable (FitsField width wide n) :=
  inferInstanceAs (Decidable (_ < _))

theorem FitsField.sentinel_lt {width n : ℕ} {wide : Bool} (h : FitsField width wide n)
    (hpos : 0 < 256 ^ width) : sentinel width wide n < 256 ^ width := by
  cases wide with
  | true => exact Nat.sub_lt hpos one_pos
  | false => exact h.trans_le (Nat.sub_le _ _)

/-- The largest number of the width tells that the number stands elsewhere. -/
theorem FitsField.sentinel_eq {width n : ℕ} {wide : Bool} (h : FitsField width wide n) :
    sentinel width wide n = 256 ^ width - 1 ↔ wide := by
  cases wide with
  | true => exact iff_of_true rfl rfl
  | false => exact iff_of_false h.ne Bool.false_ne_true

/-- A value of the ZIP64 extra field, if it stands there. -/
def wideDigits (needed : Bool) (n : ℕ) : List UInt8 := if needed then digits 8 n else []

/-- An entry as a writer puts it into the central directory. -/
structure CentralRecord where
  index : ZipEntryIndex
  wideUncompressed : Bool := false
  wideCompressed : Bool := false
  wideOffset : Bool := false
  /-- The extra fields before the ZIP64 one. -/
  before : List ExtraField := []
  /-- What else the ZIP64 extra field holds. -/
  wideRest : List UInt8 := []
  after : List ExtraField := []
  comment : List UInt8 := []
  versionMadeBy : ℕ := 20
  versionNeeded : ℕ := 20
  time : ℕ := 0
  date : ℕ := 0
  disk : ℕ := 0
  internalAttributes : ℕ := 0
  externalAttributes : ℕ := 0

namespace CentralRecord

variable (r : CentralRecord)

/-- Some number stands in the ZIP64 extra field. -/
def wide : Bool := r.wideCompressed || r.wideUncompressed || r.wideOffset

/-- The data of the ZIP64 extra field. -/
def wideData : List UInt8 :=
  wideDigits r.wideUncompressed r.index.uncompressedSize ++
    (wideDigits r.wideCompressed r.index.compressedSize ++
      (wideDigits r.wideOffset r.index.localHeaderOffset ++ r.wideRest))

/-- The extra fields. -/
def extra : List UInt8 :=
  r.before.flatMap ExtraField.encode ++
    ((if r.wide then fields [(2, 1), (2, r.wideData.length)] ++ r.wideData else []) ++
      r.after.flatMap ExtraField.encode)

/-- The fixed part of an entry. -/
def header : List (ℕ × ℕ) :=
  [(4, 0x02014b50), (2, r.versionMadeBy), (2, r.versionNeeded), (2, r.index.flags),
    (2, r.index.method), (2, r.time), (2, r.date), (4, r.index.crc32),
    (4, sentinel 4 r.wideCompressed r.index.compressedSize),
    (4, sentinel 4 r.wideUncompressed r.index.uncompressedSize),
    (2, (nameBytes r.index.name).length), (2, r.extra.length), (2, r.comment.length),
    (2, r.disk), (2, r.internalAttributes), (4, r.externalAttributes),
    (4, sentinel 4 r.wideOffset r.index.localHeaderOffset)]

/-- The bytes of an entry. -/
def encode : List UInt8 :=
  fields r.header ++ (nameBytes r.index.name ++ (r.extra ++ r.comment))

/-- The numbers of an entry fit their fields, and the ZIP64 extra field is the first of its id. -/
structure WellFormed : Prop where
  flags_lt : r.index.flags < 2 ^ 16
  method_lt : r.index.method < 2 ^ 16
  crc32_lt : r.index.crc32 < 2 ^ 32
  compressedSize : FitsField 4 r.wideCompressed r.index.compressedSize
  uncompressedSize : FitsField 4 r.wideUncompressed r.index.uncompressedSize
  localHeaderOffset : FitsField 4 r.wideOffset r.index.localHeaderOffset
  name_lt : (nameBytes r.index.name).length < 2 ^ 16
  extra_lt : r.extra.length < 2 ^ 16
  comment_lt : r.comment.length < 2 ^ 16
  before_ids : r.wide → ∀ f ∈ r.before, f.id ≠ 1

/-- The reader takes entries of such a name, method and size. -/
structure Readable (sourceLength : ℕ) : Prop where
  name : validateZipPath r.index.name = .ok ()
  unencrypted : r.index.flags % 2 = 0
  method : r.index.method = 0 ∨ r.index.method = 8
  compressedSize_le : r.index.compressedSize ≤ maxCompressedEntryBytes
  uncompressedSize_le : r.index.uncompressedSize ≤ maxExpandedEntryBytes
  header_le : r.index.localHeaderOffset + 30 ≤ sourceLength

variable {r}

theorem length_encode : r.encode.length =
    46 + (nameBytes r.index.name).length + r.extra.length + r.comment.length := by
  have hheader : (r.header.map Prod.fst).sum = 46 := by
    simp only [header, List.map_cons, List.map_nil, List.sum_cons, List.sum_nil, Nat.reduceAdd]
  rw [encode, List.length_append, List.length_append, List.length_append, length_fields, hheader]
  omega

end CentralRecord

/-! ## Reading the ZIP64 extra field -/

/-- A value of the ZIP64 extra field is read back. -/
theorem zip64Value_digits (before after : List UInt8) (needed : Bool) {n : ℕ}
    (stop : ℕ) (hn : needed → n < 256 ^ 8)
    (hstop : before.length + (wideDigits needed n).length ≤ stop) :
    zip64Value (before ++ (wideDigits needed n ++ after)) stop before.length needed =
      .ok (if needed then n else 0, before.length + (wideDigits needed n).length) := by
  by_cases hneeded : needed = true
  · rw [wideDigits, if_pos hneeded, length_digits] at hstop ⊢
    rw [zip64Value, if_pos hneeded, if_pos hneeded, readU64, read_digits before after (hn hneeded),
      Result.ok_bind, if_neg (not_lt.2 hstop)]
  · rw [wideDigits, zip64Value, if_neg hneeded, if_neg hneeded, if_neg hneeded, List.length_nil,
      Nat.add_zero]

/-- The ZIP64 extra field is found behind other extra fields. -/
theorem searchZip64Extra_eq (needCompressed needUncompressed needOffset : Bool)
    (others : List ExtraField) (hids : ∀ f ∈ others, f.id ≠ 1) (before data after : List UInt8)
    (hlength : data.length < 2 ^ 16) (turns : ℕ) (hturns : others.length < turns) :
    searchZip64Extra
        (before ++ (others.flatMap ExtraField.encode ++
          (fields [(2, 1), (2, data.length)] ++ (data ++ after))))
        needCompressed needUncompressed needOffset turns before.length =
      zip64Values
        (before ++ (others.flatMap ExtraField.encode ++
          (fields [(2, 1), (2, data.length)] ++ (data ++ after))))
        (before.length + (others.flatMap ExtraField.encode).length + 4)
        (before.length + (others.flatMap ExtraField.encode).length + 4 + data.length)
        needCompressed needUncompressed needOffset := by
  induction others generalizing before turns with
  | nil =>
    obtain ⟨turns, rfl⟩ := Nat.exists_eq_add_one_of_ne_zero (Nat.ne_of_gt hturns)
    rw [List.flatMap_nil, List.nil_append, List.length_nil, Nat.add_zero]
    have hid : readU16 _ before.length = .ok 1 :=
      read_fields [(2, 1), (2, data.length)] before (data ++ after) 0 rfl (by decide) rfl
    have hsize : readU16 _ (before.length + 2) = .ok data.length :=
      read_fields [(2, 1), (2, data.length)] before (data ++ after) 1 rfl hlength rfl
    have hfits : before.length + 4 + data.length ≤
        (before ++ (fields [(2, 1), (2, data.length)] ++ (data ++ after))).length := by
      rw [List.length_append, List.length_append, List.length_append, length_fields]
      change _ ≤ before.length + (4 + _)
      omega
    rw [searchZip64Extra, if_pos (by omega), hid, Result.ok_bind, hsize, Result.ok_bind]
    dsimp only
    rw [if_neg (not_lt.2 hfits), if_neg (not_not.2 rfl)]
  | cons f others ih =>
    obtain ⟨turns, rfl⟩ := Nat.exists_eq_add_one_of_ne_zero (Nat.ne_of_gt
      ((Nat.zero_lt_succ _).trans hturns))
    have hheader : ([(2, f.id), (2, f.data.length)].map Prod.fst).sum = 4 := rfl
    have hencode : f.encode.length = 4 + f.data.length := by
      rw [ExtraField.encode, List.length_append, length_fields, hheader]
    obtain ⟨rest, hrest⟩ : ∃ rest, rest = others.flatMap ExtraField.encode ++
      (fields [(2, 1), (2, data.length)] ++ (data ++ after)) := ⟨_, rfl⟩
    have hbytes : before ++ ((f :: others).flatMap ExtraField.encode ++
          (fields [(2, 1), (2, data.length)] ++ (data ++ after))) =
        before ++ (fields [(2, f.id), (2, f.data.length)] ++ (f.data ++ rest)) := by
      rw [List.flatMap_cons, hrest, ExtraField.encode]
      simp only [List.append_assoc]
    have hbytes' : before ++ (fields [(2, f.id), (2, f.data.length)] ++ (f.data ++ rest)) =
        (before ++ f.encode) ++ rest := by
      rw [ExtraField.encode]
      simp only [List.append_assoc]
    have hid : readU16 _ before.length = .ok f.id :=
      read_fields [(2, f.id), (2, f.data.length)] before (f.data ++ rest) 0 rfl f.id_lt rfl
    have hsize : readU16 _ (before.length + 2) = .ok f.data.length :=
      read_fields [(2, f.id), (2, f.data.length)] before (f.data ++ rest) 1 rfl f.length_lt
        rfl
    have hfits : before.length + 4 + f.data.length ≤
        (before ++ (fields [(2, f.id), (2, f.data.length)] ++ (f.data ++ rest))).length := by
      rw [hbytes', List.length_append, List.length_append, hencode]
      omega
    rw [hbytes, searchZip64Extra, if_pos (by omega), hid, Result.ok_bind, hsize, Result.ok_bind]
    dsimp only
    rw [if_neg (not_lt.2 hfits), if_pos (hids f List.mem_cons_self), hbytes', hrest]
    have hnext := ih (fun f hf => hids f (List.mem_cons_of_mem _ hf)) (before ++ f.encode)
      turns (by rw [List.length_cons] at hturns; omega)
    have hstart : (before ++ f.encode).length = before.length + 4 + f.data.length := by
      rw [List.length_append, hencode]
      omega
    have hskip : before.length + ((f :: others).flatMap ExtraField.encode).length =
        (before ++ f.encode).length + (others.flatMap ExtraField.encode).length := by
      rw [List.flatMap_cons, List.length_append, List.length_append]
      omega
    rw [hskip, ← hnext, hstart]

/-- The values of the ZIP64 extra field are read back. -/
theorem zip64Values_wideData (r : CentralRecord) (before after : List UInt8)
    (hr : r.WellFormed) :
    zip64Values (before ++ (r.wideData ++ after)) before.length
        (before.length + r.wideData.length) r.wideCompressed r.wideUncompressed r.wideOffset =
      .ok (if r.wideUncompressed then r.index.uncompressedSize else 0,
        if r.wideCompressed then r.index.compressedSize else 0,
        if r.wideOffset then r.index.localHeaderOffset else 0) := by
  have hlt : ∀ {wide : Bool} {n : ℕ}, FitsField 4 wide n → wide → n < 256 ^ 8 := by
    rintro wide n h rfl
    exact h
  obtain ⟨u, hu⟩ : ∃ u, u = wideDigits r.wideUncompressed r.index.uncompressedSize := ⟨_, rfl⟩
  obtain ⟨c, hc⟩ : ∃ c, c = wideDigits r.wideCompressed r.index.compressedSize := ⟨_, rfl⟩
  obtain ⟨o, ho⟩ : ∃ o, o = wideDigits r.wideOffset r.index.localHeaderOffset := ⟨_, rfl⟩
  have hdata : r.wideData = u ++ (c ++ (o ++ r.wideRest)) := by rw [hu, hc, ho]; rfl
  have hlength : r.wideData.length = u.length + (c.length + (o.length + r.wideRest.length)) := by
    rw [hdata, List.length_append, List.length_append, List.length_append]
  -- Each value starts where the one before it ends.
  have hbytes : before ++ (r.wideData ++ after) =
      before ++ (u ++ (c ++ (o ++ (r.wideRest ++ after)))) := by
    rw [hdata]
    simp only [List.append_assoc]
  have hbytes' : before ++ (r.wideData ++ after) =
      (before ++ u) ++ (c ++ (o ++ (r.wideRest ++ after))) := by
    rw [hbytes]
    simp only [List.append_assoc]
  have hbytes'' : before ++ (r.wideData ++ after) =
      (before ++ u ++ c) ++ (o ++ (r.wideRest ++ after)) := by
    rw [hbytes]
    simp only [List.append_assoc]
  have hfirst := zip64Value_digits before (c ++ (o ++ (r.wideRest ++ after))) r.wideUncompressed
    (before.length + r.wideData.length) (hlt hr.uncompressedSize) (by rw [← hu]; omega)
  have hsecond := zip64Value_digits (before ++ u) (o ++ (r.wideRest ++ after)) r.wideCompressed
    (before.length + r.wideData.length) (hlt hr.compressedSize)
    (by rw [← hc, List.length_append]; omega)
  have hthird := zip64Value_digits (before ++ u ++ c) (r.wideRest ++ after) r.wideOffset
    (before.length + r.wideData.length) (hlt hr.localHeaderOffset)
    (by rw [← ho, List.length_append, List.length_append]; omega)
  rw [← hu, ← hbytes] at hfirst
  rw [← hc, ← hbytes', List.length_append] at hsecond
  rw [← ho, ← hbytes'', List.length_append, List.length_append] at hthird
  rw [zip64Values, hfirst, Result.ok_bind]
  dsimp only
  rw [hsecond, Result.ok_bind]
  dsimp only
  rw [hthird, Result.ok_bind]

/-- The extra fields of an entry give the values that do not fit their fields. -/
theorem parseZip64Extra_extra {r : CentralRecord} (hr : r.WellFormed) (hwide : r.wide) :
    parseZip64Extra r.extra r.wideCompressed r.wideUncompressed r.wideOffset =
      .ok (if r.wideUncompressed then r.index.uncompressedSize else 0,
        if r.wideCompressed then r.index.compressedSize else 0,
        if r.wideOffset then r.index.localHeaderOffset else 0) := by
  obtain ⟨others, hothers⟩ : ∃ others, others = r.before.flatMap ExtraField.encode := ⟨_, rfl⟩
  have hextra : r.extra = [] ++ (others ++ (fields [(2, 1), (2, r.wideData.length)] ++
      (r.wideData ++ r.after.flatMap ExtraField.encode))) := by
    rw [CentralRecord.extra, if_pos hwide, hothers, List.nil_append, List.append_assoc]
  have hheader : ([(2, 1), (2, r.wideData.length)].map Prod.fst).sum = 4 := rfl
  have hlength : r.extra.length = others.length + (4 + (r.wideData.length +
      (r.after.flatMap ExtraField.encode).length)) := by
    rw [hextra, List.nil_append, List.length_append, List.length_append, List.length_append,
      length_fields, hheader]
  have hextra' : r.extra = (others ++ fields [(2, 1), (2, r.wideData.length)]) ++
      (r.wideData ++ r.after.flatMap ExtraField.encode) := by
    rw [hextra, List.nil_append, List.append_assoc]
  have hcount : r.before.length ≤ others.length := by
    rw [hothers]
    clear hothers hextra hlength hextra'
    induction r.before with
    | nil => exact Nat.zero_le _
    | cons f others ih =>
      rw [List.flatMap_cons, List.length_append, List.length_cons, ExtraField.encode,
        List.length_append, length_fields]
      change _ ≤ 4 + _ + _
      omega
  have hdata : r.wideData.length < 2 ^ 16 := by
    have := hr.extra_lt
    omega
  have hsearch := searchZip64Extra_eq r.wideCompressed r.wideUncompressed r.wideOffset r.before
    (hr.before_ids hwide) [] r.wideData (r.after.flatMap ExtraField.encode) hdata
    (r.extra.length + 1) (by omega)
  have hvalues := zip64Values_wideData r (others ++ fields [(2, 1), (2, r.wideData.length)])
    (r.after.flatMap ExtraField.encode) hr
  have hstart : (others ++ fields [(2, 1), (2, r.wideData.length)]).length =
      0 + others.length + 4 := by
    rw [List.length_append, length_fields, hheader, Nat.zero_add]
  rw [← hextra', hstart] at hvalues
  rw [← hothers, ← hextra, List.length_nil] at hsearch
  rw [parseZip64Extra, hsearch, hvalues]

/-! ## Reading an entry -/

namespace CentralRecord

variable {r : CentralRecord}

theorem sentinel_beq {wide : Bool} {n : ℕ} (h : FitsField 4 wide n) :
    (sentinel 4 wide n == u32Max) = wide := by
  rw [Bool.eq_iff_iff, beq_iff_eq]
  exact h.sentinel_eq

/-- The number of the ZIP64 extra field, if it stands there, or that of the field. -/
theorem ite_sentinel (wide : Bool) (n : ℕ) :
    (if wide then (if wide then n else 0) else sentinel 4 wide n) = n := by
  cases wide <;> rfl

/-- An entry is read back. -/
theorem parseCentralEntry_encode {sourceLength : ℕ} (hr : r.WellFormed)
    (hread : r.Readable sourceLength) (before after : List UInt8)
    (hlength : (before ++ (r.encode ++ after)).length ≤ usizeMax)
    (hsource : sourceLength ≤ u64Max) :
    parseCentralEntry (before ++ (r.encode ++ after)) sourceLength before.length =
      .ok (r.index, before.length + r.encode.length) := by
  obtain ⟨bytes, hbytes⟩ : ∃ bytes, bytes = before ++ (r.encode ++ after) := ⟨_, rfl⟩
  have hheader : bytes = before ++ (fields r.header ++
      (nameBytes r.index.name ++ (r.extra ++ (r.comment ++ after)))) := by
    rw [hbytes, encode]
    simp only [List.append_assoc]
  have hlen : bytes.length = before.length + r.encode.length + after.length := by
    rw [hbytes, List.length_append, List.length_append, Nat.add_assoc]
  have hencode := @length_encode r
  -- The fields of the header.
  have hsignature : readU32 bytes before.length = .ok 0x02014b50 :=
    hheader ▸ read_fields r.header before _ 0 rfl (by decide) rfl
  have hflags : readU16 bytes (before.length + 8) = .ok r.index.flags :=
    hheader ▸ read_fields r.header before _ 3 rfl hr.flags_lt rfl
  have hmethod : readU16 bytes (before.length + 10) = .ok r.index.method :=
    hheader ▸ read_fields r.header before _ 4 rfl hr.method_lt rfl
  have hcrc32 : readU32 bytes (before.length + 16) = .ok r.index.crc32 :=
    hheader ▸ read_fields r.header before _ 7 rfl hr.crc32_lt rfl
  have hcompressed : readU32 bytes (before.length + 20) =
      .ok (sentinel 4 r.wideCompressed r.index.compressedSize) :=
    hheader ▸ read_fields r.header before _ 8 rfl (hr.compressedSize.sentinel_lt (by decide)) rfl
  have huncompressed : readU32 bytes (before.length + 24) =
      .ok (sentinel 4 r.wideUncompressed r.index.uncompressedSize) :=
    hheader ▸ read_fields r.header before _ 9 rfl (hr.uncompressedSize.sentinel_lt (by decide)) rfl
  have hname : readU16 bytes (before.length + 28) = .ok (nameBytes r.index.name).length :=
    hheader ▸ read_fields r.header before _ 10 rfl hr.name_lt rfl
  have hextra : readU16 bytes (before.length + 30) = .ok r.extra.length :=
    hheader ▸ read_fields r.header before _ 11 rfl hr.extra_lt rfl
  have hcomment : readU16 bytes (before.length + 32) = .ok r.comment.length :=
    hheader ▸ read_fields r.header before _ 12 rfl hr.comment_lt rfl
  have hoffset : readU32 bytes (before.length + 42) =
      .ok (sentinel 4 r.wideOffset r.index.localHeaderOffset) :=
    hheader ▸ read_fields r.header before _ 16 rfl
      (hr.localHeaderOffset.sentinel_lt (by decide)) rfl
  -- The name and the extra fields behind it.
  have hwidth : (fields r.header).length = 46 := by
    rw [length_fields]
    simp only [header, List.map_cons, List.map_nil, List.sum_cons, List.sum_nil, Nat.reduceAdd]
  have hnameBytes : (bytes.drop (before.length + 46)).take (nameBytes r.index.name).length =
      nameBytes r.index.name := by
    have h := slice_append (before ++ fields r.header) (nameBytes r.index.name)
      (r.extra ++ (r.comment ++ after))
    rwa [List.length_append, hwidth, List.append_assoc, ← hheader] at h
  have hextraBytes : (bytes.drop (before.length + 46 + (nameBytes r.index.name).length)).take
      r.extra.length = r.extra := by
    have h := slice_append (before ++ (fields r.header ++ nameBytes r.index.name)) r.extra
      (r.comment ++ after)
    rwa [List.length_append, List.length_append, hwidth, ← Nat.add_assoc, List.append_assoc,
      List.append_assoc, ← hheader] at h
  rw [← hbytes] at hlength ⊢
  rw [parseCentralEntry, if_neg (by omega), hsignature, Result.ok_bind, if_neg (not_not.2 rfl),
    hflags, Result.ok_bind, hmethod, Result.ok_bind, hcrc32, Result.ok_bind, hcompressed,
    Result.ok_bind, huncompressed, Result.ok_bind, hname, Result.ok_bind, hextra, Result.ok_bind,
    hcomment, Result.ok_bind, hoffset, Result.ok_bind, checkedAdd_of_le (by omega),
    Result.ok_bind, checkedAdd_of_le (by omega), Result.ok_bind, checkedAdd_of_le (by omega),
    Result.ok_bind, checkedAdd_of_le (by omega), Result.ok_bind, if_neg (by omega), hnameBytes,
    fromUtf8_nameBytes]
  dsimp only
  rw [hread.name, Result.ok_bind, if_neg (not_not.2 hread.unencrypted),
    if_neg (by rcases hread.method with h | h <;> rw [h] <;> decide), hextraBytes,
    sentinel_beq hr.compressedSize, sentinel_beq hr.uncompressedSize,
    sentinel_beq hr.localHeaderOffset]
  have hvalues : (if (r.wideCompressed || r.wideUncompressed || r.wideOffset) = true then
        parseZip64Extra r.extra r.wideCompressed r.wideUncompressed r.wideOffset
      else .ok (0, 0, 0)) =
      .ok (if r.wideUncompressed then r.index.uncompressedSize else 0,
        if r.wideCompressed then r.index.compressedSize else 0,
        if r.wideOffset then r.index.localHeaderOffset else 0) := by
    by_cases hwide : r.wide = true
    · rw [if_pos (by exact hwide)]
      exact parseZip64Extra_extra hr hwide
    · have hnone := hwide
      rw [wide, Bool.or_eq_true, Bool.or_eq_true, not_or, not_or] at hnone
      rw [if_neg (by exact hwide), if_neg hnone.1.1, if_neg hnone.1.2, if_neg hnone.2]
  rw [Result.ite_bind, hvalues, Result.ok_bind]
  dsimp only
  have hcompressedSize := hread.compressedSize_le
  have huncompressedSize := hread.uncompressedSize_le
  have hheaderStop := hread.header_le
  rw [ite_sentinel, ite_sentinel, ite_sentinel, if_neg (by omega), HostRange.new,
    dif_neg (by decide), dif_pos (by omega), if_neg (by omega), Result.ok_bind, hencode]
  congr 2
  omega

end CentralRecord

end Tabulark.Excel
