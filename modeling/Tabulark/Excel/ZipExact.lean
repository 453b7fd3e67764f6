import Tabulark.Excel.ZipFormat

/-!
# Reading packages back

A package as a ZIP writer writes it (`Package`): anything, the central directory,
the ZIP64 end records if there are any, and the end record with its comment. The
reader finds the directory from the end and reads every entry back
(`readDirectory_encode`), unless something behind the start of the end record
reads as an end record, too.
-/

namespace Tabulark.Excel

open LittleEndian

/-! ## The reader -/

/-- The bytes of a range. -/
def HostRange.slice (r : HostRange) (bytes : List UInt8) : List UInt8 :=
  (bytes.drop r.offset).take r.length

/-- Where the end of a package says its central directory is. -/
def locateDirectory (bytes : List UInt8) : Result CentralDirectoryLocation := do
  let tail ← tailRange bytes.length
  parseEndOfCentralDirectory (tail.slice bytes) tail.offset bytes.length

/-- The central directory of a package. -/
def readDirectory (bytes : List UInt8) : Result ZipDirectoryIndex := do
  let location ← locateDirectory bytes
  parseCentralDirectory (location.range.slice bytes) location.entries bytes.length

/-! ## The directory -/

/-- The central directory of some entries. -/
def directory (records : List CentralRecord) : List UInt8 :=
  records.flatMap CentralRecord.encode

variable {records : List CentralRecord} {sourceLength : ℕ}

theorem length_le_directory (records : List CentralRecord) :
    records.length ≤ (directory records).length := by
  induction records with
  | nil => exact Nat.zero_le _
  | cons r records ih =>
    rw [directory] at ih ⊢
    rw [List.flatMap_cons, List.length_append, List.length_cons, CentralRecord.length_encode]
    omega

/-- The entries of a directory are read back behind those that were read. -/
theorem parseCentralEntries_directory (hr : ∀ r ∈ records, r.WellFormed)
    (hread : ∀ r ∈ records, r.Readable sourceLength) (hsource : sourceLength ≤ u64Max)
    (before : List UInt8) (entries : List ZipEntryIndex)
    (hnames : (entries ++ records.map CentralRecord.index).Pairwise fun a b => a.name ≠ b.name)
    (hlength : (before ++ directory records).length ≤ usizeMax) (turns : ℕ)
    (hturns : records.length < turns) :
    parseCentralEntries (before ++ directory records) sourceLength turns before.length entries =
      .ok (entries ++ records.map CentralRecord.index) := by
  induction records generalizing before entries turns with
  | nil =>
    obtain ⟨turns, rfl⟩ := Nat.exists_eq_add_one_of_ne_zero (Nat.ne_of_gt hturns)
    rw [parseCentralEntries, directory, List.flatMap_nil, List.append_nil,
      if_neg (lt_irrefl _), List.map_nil, List.append_nil]
  | cons r records ih =>
    obtain ⟨turns, rfl⟩ := Nat.exists_eq_add_one_of_ne_zero
      (Nat.ne_of_gt ((Nat.zero_lt_succ _).trans hturns))
    have hbytes : before ++ directory (r :: records) =
        before ++ (r.encode ++ directory records) := rfl
    have hbytes' : before ++ (r.encode ++ directory records) =
        (before ++ r.encode) ++ directory records := (List.append_assoc _ _ _).symm
    have hentry := CentralRecord.parseCentralEntry_encode (hr r List.mem_cons_self)
      (hread r List.mem_cons_self) before (directory records) (hbytes ▸ hlength) hsource
    have hmore : before.length < (before ++ (r.encode ++ directory records)).length := by
      rw [List.length_append, List.length_append, CentralRecord.length_encode]
      omega
    have hnew : ¬(entries.any fun entry => entry.name = r.index.name) = true := by
      rw [List.any_eq_true]
      rintro ⟨entry, hentry, hname⟩
      exact (List.pairwise_append.1 hnames).2.2 entry hentry r.index List.mem_cons_self
        (of_decide_eq_true hname)
    rw [hbytes, parseCentralEntries, if_pos hmore, hentry, Result.ok_bind]
    dsimp only
    rw [if_neg hnew, ← List.length_append, hbytes',
      ih (fun r' h => hr r' (List.mem_cons_of_mem _ h))
        (fun r' h => hread r' (List.mem_cons_of_mem _ h)) (before ++ r.encode)
        (entries ++ [r.index]) (by rwa [List.append_assoc]) (by rwa [← hbytes', ← hbytes])
        turns (by rw [List.length_cons] at hturns; omega),
      List.append_assoc]
    rfl

/-- A directory is read back. -/
theorem parseCentralDirectory_directory (hr : ∀ r ∈ records, r.WellFormed)
    (hread : ∀ r ∈ records, r.Readable sourceLength) (hsource : sourceLength ≤ u64Max)
    (hnames : records.Pairwise fun a b => a.index.name ≠ b.index.name)
    (hlength : (directory records).length ≤ usizeMax) :
    parseCentralDirectory (directory records) records.length sourceLength =
      .ok ⟨records.map CentralRecord.index⟩ := by
  have hcount := length_le_directory records
  have hentries := parseCentralEntries_directory hr hread hsource [] []
    (by rwa [List.nil_append, List.pairwise_map]) hlength ((directory records).length + 1)
    (by omega)
  rw [List.nil_append, List.nil_append, List.length_nil] at hentries
  rw [parseCentralDirectory, hentries, Result.ok_bind, if_neg (not_not.2 (List.length_map _))]

/-! ## The end -/

/-- A number is read wherever there are bytes. -/
theorem readLittleEndian_of_le {w offset : ℕ} {bytes : List UInt8}
    (h : offset + w ≤ bytes.length) : ∃ n, readLittleEndian w bytes offset = .ok n := by
  rw [readLittleEndian, if_pos (by rw [List.length_take, List.length_drop]; omega)]
  exact ⟨_, rfl⟩

/-- A number of the end of some bytes. -/
theorem readLittleEndian_drop (w : ℕ) (bytes : List UInt8) (start offset : ℕ) :
    readLittleEndian w (bytes.drop start) offset = readLittleEndian w bytes (start + offset) := by
  rw [readLittleEndian, readLittleEndian, List.drop_drop]

/-- The bytes at an offset read as an end record whose comment ends where they do. -/
def EndsAt (bytes : List UInt8) (offset : ℕ) : Prop :=
  readU32 bytes offset = .ok 0x06054b50 ∧
    ∃ n, readU16 bytes (offset + 20) = .ok n ∧ offset + 22 + n = bytes.length

/-- What does not read as an end record is none. -/
theorem parseEndAt_eq_none {bytes : List UInt8} {start index : ℕ} (tailOffset : ℕ)
    (hindex : start + index + 22 ≤ bytes.length) (h : ¬EndsAt bytes (start + index)) :
    parseEndAt (bytes.drop start) tailOffset sourceLength index = .ok none := by
  obtain ⟨signature, hsignature⟩ : ∃ n, readU32 (bytes.drop start) index = .ok n :=
    readLittleEndian_of_le (by rw [List.length_drop]; omega)
  obtain ⟨n, hn⟩ : ∃ n, readU16 (bytes.drop start) (index + 20) = .ok n :=
    readLittleEndian_of_le (by rw [List.length_drop]; omega)
  rw [parseEndAt, hsignature, Result.ok_bind]
  by_cases hends : signature = 0x06054b50
  · rw [if_neg (not_not.2 hends), hn, Result.ok_bind, if_pos]
    intro hcomment
    refine h ⟨?_, n, ?_, ?_⟩
    · rw [← hends, ← hsignature]
      exact (readLittleEndian_drop 4 bytes start index).symm
    · rw [← hn, Nat.add_assoc]
      exact (readLittleEndian_drop 2 bytes start _).symm
    · rw [List.length_drop] at hcomment
      omega
  · rw [if_pos hends]

/-- The last end record is found. -/
theorem searchEnd_eq {tail : List UInt8} {tailOffset index : ℕ}
    {found : Result CentralDirectoryLocation} (n : ℕ) (hindex : index < n)
    (hfound : parseEndAt tail tailOffset sourceLength index = some <$> found)
    (hlater : ∀ i, index < i → i < n → parseEndAt tail tailOffset sourceLength i = .ok none) :
    searchEnd tail tailOffset sourceLength n = found := by
  induction n with
  | zero => exact absurd hindex (Nat.not_lt_zero _)
  | succ n ih =>
    rw [searchEnd]
    rcases (Nat.le_of_lt_succ hindex).eq_or_lt with rfl | hlt
    · rw [hfound]
      cases found <;> rfl
    · rw [hlater n hlt (Nat.lt_succ_self _)]
      exact ih hlt fun i hi hin => hlater i hi (hin.trans (Nat.lt_succ_self _))

/-! ## Packages -/

/-- A ZIP64 end record. -/
structure Zip64End where
  versionMadeBy : ℕ := 45
  versionNeeded : ℕ := 45
  extensible : List UInt8 := []

/-- A package as a writer puts it together: what precedes the central directory, its entries, and
    the end records. -/
structure Package where
  before : List UInt8
  records : List CentralRecord
  /-- The digital signature behind the entries. -/
  signature : Option (List UInt8) := none
  zip64 : Option Zip64End := none
  /-- The disk numbers stand in the ZIP64 end record. -/
  wideDisk : Bool := false
  wideEntries : Bool := false
  wideSize : Bool := false
  wideOffset : Bool := false
  comment : List UInt8 := []

namespace Package

variable (p : Package)

/-- The central directory. -/
def directory : List UInt8 :=
  match p.signature with
  | none => Excel.directory p.records
  | some data =>
      Excel.directory p.records ++ (fields [(4, 0x05054b50), (2, data.length)] ++ data)

/-- The fields of the ZIP64 end record. -/
def zip64Fields (z : Zip64End) : List (ℕ × ℕ) :=
  [(4, 0x06064b50), (8, 44 + z.extensible.length), (2, z.versionMadeBy), (2, z.versionNeeded),
    (4, 0), (4, 0), (8, p.records.length), (8, p.records.length), (8, p.directory.length),
    (8, p.before.length)]

/-- The fields of the ZIP64 locator. -/
def locatorFields : List (ℕ × ℕ) :=
  [(4, 0x07064b50), (4, 0), (8, p.before.length + p.directory.length), (4, 1)]

/-- The ZIP64 end record and its locator. -/
def zip64Bytes : List UInt8 :=
  match p.zip64 with
  | none => []
  | some z => fields (p.zip64Fields z) ++ (z.extensible ++ fields p.locatorFields)

/-- The fields of the end record. -/
def endFields : List (ℕ × ℕ) :=
  [(4, 0x06054b50), (2, sentinel 2 p.wideDisk 0), (2, sentinel 2 p.wideDisk 0),
    (2, sentinel 2 p.wideEntries p.records.length),
    (2, sentinel 2 p.wideEntries p.records.length),
    (4, sentinel 4 p.wideSize p.directory.length), (4, sentinel 4 p.wideOffset p.before.length),
    (2, p.comment.length)]

/-- The bytes of a package. -/
def encode : List UInt8 :=
  p.before ++ (p.directory ++ (p.zip64Bytes ++ (fields p.endFields ++ p.comment)))

/-- Where the end record starts. -/
def endOffset : ℕ := p.before.length + p.directory.length + p.zip64Bytes.length

/-- Some number of the end record stands in the ZIP64 one. -/
def wide : Bool := p.wideEntries || p.wideSize || p.wideOffset

/-- The numbers of a package fit their fields, and there is a ZIP64 end record for those that do
    not. -/
structure WellFormed : Prop where
  records : ∀ r ∈ p.records, r.WellFormed
  entries : FitsField 2 p.wideEntries p.records.length
  size : FitsField 4 p.wideSize p.directory.length
  offset : FitsField 4 p.wideOffset p.before.length
  comment : p.comment.length < 2 ^ 16
  zip64 : p.wideDisk ∨ p.wide → p.zip64.isSome
  length : p.encode.length < 2 ^ 64
  signature : ∀ data ∈ p.signature, data.length < 2 ^ 16

/-- The reader takes packages with entries and no digital signature, within its limits, with the
    disk numbers and, if it is needed, the ZIP64 end record where it looks for them, and with no
    second end record behind the start of the first. -/
structure Readable : Prop where
  records : ∀ r ∈ p.records, r.Readable p.encode.length
  names : p.records.Pairwise fun a b => a.index.name ≠ b.index.name
  nonempty : p.records ≠ []
  entries_le : p.records.length ≤ maxZipEntries
  size_le : p.directory.length ≤ maxCentralDirectoryBytes
  disk : p.wideDisk = false
  zip64_le : p.wide → p.encode.length ≤ p.before.length + p.directory.length + rangeTailBytes
  last : ∀ i, p.endOffset < i → i + 22 ≤ p.encode.length → ¬EndsAt p.encode i
  unsigned : p.signature = none

variable {p}

theorem Readable.directory_eq (h : p.Readable) : p.directory = Excel.directory p.records := by
  rw [directory, h.unsigned]

theorem length_encode : p.encode.length = p.endOffset + 22 + p.comment.length := by
  have hend : (fields p.endFields).length = 22 := by
    rw [length_fields]
    simp only [endFields, List.map_cons, List.map_nil, List.sum_cons, List.sum_nil,
      Nat.reduceAdd]
  rw [encode, endOffset, List.length_append, List.length_append, List.length_append,
    List.length_append, hend]
  omega

variable {offset : ℕ}

/-- A field of the end record is read back. -/
theorem read_end {w n : ℕ} (k : ℕ) (h : p.endFields[k]? = some (w, n)) (hn : n < 256 ^ w)
    (hoffset : startOf p.endOffset p.endFields k = offset) :
    readLittleEndian w p.encode offset = .ok n := by
  have hbytes : p.encode = (p.before ++ (p.directory ++ p.zip64Bytes)) ++
      (fields p.endFields ++ p.comment) := by
    rw [encode]
    simp only [List.append_assoc]
  have hstart : (p.before ++ (p.directory ++ p.zip64Bytes)).length = p.endOffset := by
    rw [List.length_append, List.length_append, endOffset, Nat.add_assoc]
  rw [hbytes]
  exact read_fields p.endFields _ _ k h hn (hstart ▸ hoffset)

variable {z : Zip64End}

theorem length_zip64Bytes (hz : p.zip64 = some z) :
    p.zip64Bytes.length = 56 + z.extensible.length + 20 := by
  have hzip64 : (fields (p.zip64Fields z)).length = 56 := by
    rw [length_fields]
    simp only [zip64Fields, List.map_cons, List.map_nil, List.sum_cons, List.sum_nil,
      Nat.reduceAdd]
  have hlocator : (fields p.locatorFields).length = 20 := by
    rw [length_fields]
    simp only [locatorFields, List.map_cons, List.map_nil, List.sum_cons, List.sum_nil,
      Nat.reduceAdd]
  rw [zip64Bytes, hz]
  dsimp only
  rw [List.length_append, List.length_append, hzip64, hlocator]
  omega

/-- A field of the ZIP64 end record is read back. -/
theorem read_zip64 (hz : p.zip64 = some z) {w n : ℕ} (k : ℕ)
    (h : (p.zip64Fields z)[k]? = some (w, n)) (hn : n < 256 ^ w)
    (hoffset : startOf (p.before.length + p.directory.length) (p.zip64Fields z) k = offset) :
    readLittleEndian w p.encode offset = .ok n := by
  have hbytes : p.encode = (p.before ++ p.directory) ++ (fields (p.zip64Fields z) ++
      (z.extensible ++ (fields p.locatorFields ++ (fields p.endFields ++ p.comment)))) := by
    rw [encode, zip64Bytes, hz]
    simp only [List.append_assoc]
  rw [hbytes]
  exact read_fields (p.zip64Fields z) _ _ k h hn (by rwa [List.length_append])

/-- A field of the ZIP64 locator is read back. -/
theorem read_locator (hz : p.zip64 = some z) {w n : ℕ} (k : ℕ)
    (h : p.locatorFields[k]? = some (w, n)) (hn : n < 256 ^ w)
    (hoffset : startOf (p.endOffset - 20) p.locatorFields k = offset) :
    readLittleEndian w p.encode offset = .ok n := by
  have hbytes : p.encode = (p.before ++ (p.directory ++ (fields (p.zip64Fields z) ++
      z.extensible))) ++ (fields p.locatorFields ++ (fields p.endFields ++ p.comment)) := by
    rw [encode, zip64Bytes, hz]
    simp only [List.append_assoc]
  have hstart : (p.before ++ (p.directory ++ (fields (p.zip64Fields z) ++
      z.extensible))).length = p.endOffset - 20 := by
    have hzip64 : (fields (p.zip64Fields z)).length = 56 := by
      rw [length_fields]
      simp only [zip64Fields, List.map_cons, List.map_nil, List.sum_cons, List.sum_nil,
        Nat.reduceAdd]
    rw [endOffset, length_zip64Bytes hz, List.length_append, List.length_append,
      List.length_append, hzip64]
    omega
  rw [hbytes]
  exact read_fields p.locatorFields _ _ k h hn (by rwa [hstart])

/-! ## Reading them back -/

/-- The location that a package's end records give. -/
theorem centralLocation_eq (h : p.WellFormed) (hread : p.Readable) :
    ∃ location, centralLocation p.before.length p.directory.length p.records.length
        p.encode.length = .ok location ∧
      location.range.slice p.encode = p.directory ∧ location.entries = p.records.length ∧
      location.range.offset = p.before.length ∧
      location.range.length = p.directory.length := by
  have hpos : 0 < p.records.length := List.length_pos_iff.2 hread.nonempty
  have hsize := length_le_directory p.records
  have hentries := hread.entries_le
  have hsize_le := hread.size_le
  have hlength := h.length
  have hencode := @length_encode p
  have hend : p.endOffset = p.before.length + p.directory.length + p.zip64Bytes.length := rfl
  rw [← hread.directory_eq] at hsize
  rw [centralLocation, if_neg (by omega), if_neg (by omega), HostRange.new,
    dif_neg (by omega), dif_pos (by rw [u64Max]; omega), if_neg (by omega)]
  refine ⟨_, rfl, ?_, rfl, rfl, rfl⟩
  exact slice_append p.before p.directory _

/-- The ZIP64 end record gives the location. -/
theorem parseZip64End_eq (h : p.WellFormed) (hread : p.Readable) (hwide : p.wide)
    {start : ℕ} (hstart : start ≤ p.before.length + p.directory.length)
    (htail : p.encode.length ≤ start + rangeTailBytes) :
    parseZip64End (p.encode.drop start) start (p.endOffset - start) p.encode.length =
      centralLocation p.before.length p.directory.length p.records.length p.encode.length := by
  obtain ⟨z, hz⟩ := Option.isSome_iff_exists.1 (h.zip64 (.inr hwide))
  have hzip64 := length_zip64Bytes hz
  have hlength := h.length
  have hencode := @length_encode p
  have hend : p.endOffset = p.before.length + p.directory.length + p.zip64Bytes.length := rfl
  have hentries := hread.entries_le
  rw [rangeTailBytes] at htail
  rw [maxZipEntries] at hentries
  obtain ⟨tail, htailEq⟩ : ∃ tail, tail = p.encode.drop start := ⟨_, rfl⟩
  obtain ⟨relative, hrelative⟩ : ∃ relative, relative =
    p.before.length + p.directory.length - start := ⟨_, rfl⟩
  have htailLength : tail.length = p.encode.length - start := by rw [htailEq, List.length_drop]
  -- The locator stands before the end record.
  have hlocator : ∀ {w n : ℕ} (k j : ℕ), p.locatorFields[k]? = some (w, n) → n < 256 ^ w →
      startOf 0 p.locatorFields k = j →
      readLittleEndian w tail (p.endOffset - start - 20 + j) = .ok n := by
    intro w n k j hk hn hj
    rw [htailEq, readLittleEndian_drop]
    refine read_locator hz k hk hn ?_
    rw [startOf_eq] at hj ⊢
    omega
  have hrecord : ∀ {w n : ℕ} (k j : ℕ), (p.zip64Fields z)[k]? = some (w, n) → n < 256 ^ w →
      startOf 0 (p.zip64Fields z) k = j →
      readLittleEndian w tail (relative + j) = .ok n := by
    intro w n k j hk hn hj
    rw [htailEq, readLittleEndian_drop]
    refine read_zip64 hz k hk hn ?_
    rw [startOf_eq] at hj ⊢
    omega
  have hlocator₀ : readU32 tail (p.endOffset - start - 20) = .ok 0x07064b50 :=
    hlocator 0 0 rfl (by decide) rfl
  have hlocator₁ : readU32 tail (p.endOffset - start - 20 + 4) = .ok 0 :=
    hlocator 1 4 rfl (by decide) rfl
  have hlocator₂ : readU64 tail (p.endOffset - start - 20 + 8) =
      .ok (p.before.length + p.directory.length) := hlocator 2 8 rfl (by omega) rfl
  have hlocator₃ : readU32 tail (p.endOffset - start - 20 + 16) = .ok 1 :=
    hlocator 3 16 rfl (by decide) rfl
  have hrecord₀ : readU32 tail relative = .ok 0x06064b50 := hrecord 0 0 rfl (by decide) rfl
  have hrecord₁ : readU64 tail (relative + 4) = .ok (44 + z.extensible.length) :=
    hrecord 1 4 rfl (by omega) rfl
  have hrecord₂ : readU32 tail (relative + 16) = .ok 0 := hrecord 4 16 rfl (by decide) rfl
  have hrecord₃ : readU32 tail (relative + 20) = .ok 0 := hrecord 5 20 rfl (by decide) rfl
  have hrecord₄ : readU64 tail (relative + 24) = .ok p.records.length :=
    hrecord 6 24 rfl (by omega) rfl
  have hrecord₅ : readU64 tail (relative + 32) = .ok p.records.length :=
    hrecord 7 32 rfl (by omega) rfl
  have hrecord₆ : readU64 tail (relative + 40) = .ok p.directory.length :=
    hrecord 8 40 rfl (by omega) rfl
  have hrecord₇ : readU64 tail (relative + 48) = .ok p.before.length :=
    hrecord 9 48 rfl (by omega) rfl
  rw [← htailEq, parseZip64End, if_neg (by omega)]
  dsimp only
  rw [hlocator₀, Result.ok_bind, if_neg (not_not.2 rfl), hlocator₁, Result.ok_bind, hlocator₃,
    Result.ok_bind, if_neg (by decide), hlocator₂, Result.ok_bind, if_neg (not_lt.2 hstart),
    ← hrelative, toUsize_of_le (by rw [usizeMax]; omega), Result.ok_bind, if_neg (by omega),
    hrecord₀, Result.ok_bind, if_neg (not_not.2 rfl), hrecord₁, Result.ok_bind,
    if_neg (by omega), if_neg (by omega), hrecord₂, Result.ok_bind, hrecord₃, Result.ok_bind,
    if_neg (by decide), hrecord₄, Result.ok_bind, hrecord₅, Result.ok_bind,
    if_neg (not_not.2 rfl), toUsize_of_le (by rw [usizeMax]; omega), Result.ok_bind, hrecord₇,
    Result.ok_bind, hrecord₆, Result.ok_bind]

/-- The end record gives the location. -/
theorem parseEndAt_end (h : p.WellFormed) (hread : p.Readable) {start : ℕ}
    (hstart : start ≤ p.endOffset) (htail : p.encode.length ≤ start + rangeTailBytes)
    (hwideStart : p.wide → start ≤ p.before.length + p.directory.length) :
    parseEndAt (p.encode.drop start) start p.encode.length (p.endOffset - start) =
      some <$> centralLocation p.before.length p.directory.length p.records.length
        p.encode.length := by
  have hencode := @length_encode p
  obtain ⟨tail, htailEq⟩ : ∃ tail, tail = p.encode.drop start := ⟨_, rfl⟩
  have htailLength : tail.length = p.encode.length - start := by rw [htailEq, List.length_drop]
  have hfield : ∀ {w n : ℕ} (k j : ℕ), p.endFields[k]? = some (w, n) → n < 256 ^ w →
      startOf 0 p.endFields k = j →
      readLittleEndian w tail (p.endOffset - start + j) = .ok n := by
    intro w n k j hk hn hj
    rw [htailEq, readLittleEndian_drop]
    refine read_end k hk hn ?_
    rw [startOf_eq] at hj ⊢
    omega
  have hdisk : sentinel 2 p.wideDisk 0 = 0 := by rw [hread.disk]; rfl
  have hfield₀ : readU32 tail (p.endOffset - start) = .ok 0x06054b50 :=
    hfield 0 0 rfl (by decide) rfl
  have hfield₁ : readU16 tail (p.endOffset - start + 4) = .ok (sentinel 2 p.wideDisk 0) :=
    hfield 1 4 rfl (by rw [hdisk]; decide) rfl
  have hfield₂ : readU16 tail (p.endOffset - start + 6) = .ok (sentinel 2 p.wideDisk 0) :=
    hfield 2 6 rfl (by rw [hdisk]; decide) rfl
  have hfield₃ : readU16 tail (p.endOffset - start + 10) =
      .ok (sentinel 2 p.wideEntries p.records.length) :=
    hfield 4 10 rfl (h.entries.sentinel_lt (by decide)) rfl
  have hfield₄ : readU32 tail (p.endOffset - start + 12) =
      .ok (sentinel 4 p.wideSize p.directory.length) :=
    hfield 5 12 rfl (h.size.sentinel_lt (by decide)) rfl
  have hfield₅ : readU32 tail (p.endOffset - start + 16) =
      .ok (sentinel 4 p.wideOffset p.before.length) :=
    hfield 6 16 rfl (h.offset.sentinel_lt (by decide)) rfl
  have hfield₆ : readU16 tail (p.endOffset - start + 20) = .ok p.comment.length :=
    hfield 7 20 rfl h.comment rfl
  rw [← htailEq, parseEndAt, hfield₀, Result.ok_bind, if_neg (not_not.2 rfl), hfield₆,
    Result.ok_bind, if_neg (by omega), hfield₁, Result.ok_bind, hfield₂, Result.ok_bind,
    if_neg (by rw [hdisk]; decide), hfield₃, Result.ok_bind, hfield₄, Result.ok_bind, hfield₅,
    Result.ok_bind]
  have hsentinels : (sentinel 2 p.wideEntries p.records.length = u16Max ∨
      sentinel 4 p.wideSize p.directory.length = u32Max ∨
      sentinel 4 p.wideOffset p.before.length = u32Max) ↔ p.wide = true := by
    rw [wide, Bool.or_eq_true, Bool.or_eq_true, or_assoc]
    exact or_congr h.entries.sentinel_eq (or_congr h.size.sentinel_eq h.offset.sentinel_eq)
  by_cases hwide : p.wide = true
  · rw [if_pos (hsentinels.2 hwide), htailEq, parseZip64End_eq h hread hwide (hwideStart hwide)
      htail]
  · have hnone := hwide
    rw [wide, Bool.or_eq_true, Bool.or_eq_true, not_or, not_or] at hnone
    rw [if_neg (hwide ∘ hsentinels.1), sentinel, sentinel, sentinel, if_neg hnone.1.1,
      if_neg hnone.1.2, if_neg hnone.2]

/-- The end of a package says where its central directory is. -/
theorem locateDirectory_encode (h : p.WellFormed) (hread : p.Readable) :
    ∃ location, locateDirectory p.encode = .ok location ∧
      location.range.slice p.encode = p.directory ∧ location.entries = p.records.length ∧
      location.range.offset = p.before.length ∧
      location.range.length = p.directory.length := by
  obtain ⟨location, hlocation, hslice, hentries⟩ := centralLocation_eq h hread
  refine ⟨location, ?_, hslice, hentries⟩
  have hencode := @length_encode p
  have hlength := h.length
  have hcomment := h.comment
  have hend : p.endOffset = p.before.length + p.directory.length + p.zip64Bytes.length := rfl
  have hzip64 := hread.zip64_le
  obtain ⟨start, hstart⟩ : ∃ start, start =
    p.encode.length - min p.encode.length rangeTailBytes := ⟨_, rfl⟩
  rw [rangeTailBytes] at hstart hzip64
  have hrange : ∃ tail, tailRange p.encode.length = .ok tail ∧ tail.offset = start ∧
      tail.slice p.encode = p.encode.drop start := by
    rw [tailRange, if_neg (by rw [rangeTailBytes]; omega), HostRange.new,
      dif_neg (by rw [rangeTailBytes]; omega), dif_pos (by rw [rangeTailBytes, u64Max]; omega),
      if_neg (by omega)]
    refine ⟨_, rfl, hstart.symm, ?_⟩
    rw [HostRange.slice]
    dsimp only
    rw [rangeTailBytes, ← hstart]
    exact List.take_of_length_le (by rw [List.length_drop]; omega)
  obtain ⟨tail, htail, hoffset, hbytes⟩ := hrange
  have hfound := @parseEndAt_end p h hread start (by omega)
    (by rw [rangeTailBytes]; omega) fun hwide => by have := hzip64 hwide; omega
  rw [hlocation] at hfound
  rw [locateDirectory, htail, Result.ok_bind, hbytes, hoffset, parseEndOfCentralDirectory,
    if_neg (by rw [List.length_drop]; omega)]
  refine searchEnd_eq _ (by rw [List.length_drop]; omega) hfound fun i hi hin => ?_
  rw [List.length_drop] at hin
  exact parseEndAt_eq_none start (by omega) (hread.last _ (by omega) (by omega))

/-- A package is read back. -/
theorem readDirectory_encode (h : p.WellFormed) (hread : p.Readable) :
    readDirectory p.encode = .ok ⟨p.records.map CentralRecord.index⟩ := by
  obtain ⟨location, hlocation, hslice, hentries, _⟩ := locateDirectory_encode h hread
  have hlength := h.length
  have hsize := hread.size_le
  rw [maxCentralDirectoryBytes] at hsize
  rw [hread.directory_eq] at hslice hsize
  rw [readDirectory, hlocation, Result.ok_bind, hslice, hentries]
  exact parseCentralDirectory_directory h.records hread.records (by rw [u64Max]; omega)
    hread.names (by rw [usizeMax]; omega)

end Package

end Tabulark.Excel
