import Tabulark.Excel.ZipWriter

/-!
# Reading compact packages back

The reader reads every compact package back that is within its limits
(`Compact.readDirectory_eq`), and every package as the format has it
(`packages_read_back`).
-/

namespace Tabulark.Excel

open LittleEndian

variable {es : List Appended}

/-! ## Compact packages -/

/-- The reader takes entries of such names, methods and sizes, and as many. -/
structure Compact (es : List Appended) : Prop where
  nonempty : es ≠ []
  names : es.Pairwise fun a b => a.name ≠ b.name
  paths : ∀ e ∈ es, validateZipPath e.name = .ok ()
  unencrypted : ∀ e ∈ es, e.flags % 2 = 0
  methods : ∀ e ∈ es, e.method = 0 ∨ e.method = 8
  crc32_lt : ∀ e ∈ es, e.crc32 < 2 ^ 32
  compressed_le : ∀ e ∈ es, e.compressed.length ≤ maxCompressedEntryBytes
  uncompressedSize_le : ∀ e ∈ es, e.uncompressedSize ≤ maxExpandedEntryBytes
  entries_le : es.length ≤ maxZipEntries
  size_le : (compactPackage es).directory.length ≤ maxCentralDirectoryBytes

theorem withoutDescriptor_mod_two (flags : ℕ) : withoutDescriptor flags % 2 = flags % 2 := by
  have h : (withoutDescriptor flags).testBit 0 = flags.testBit 0 := by
    rw [withoutDescriptor, Nat.testBit_and]
    exact Bool.and_true _
  rw [Nat.testBit_zero, Nat.testBit_zero, decide_eq_decide] at h
  omega

theorem length_placed (es : List Appended) (offset : ℕ) :
    (placed offset es).length = es.length := by
  induction es generalizing offset with
  | nil => rfl
  | cons e es ih => exact congrArg (· + 1) (ih _)

theorem map_placed (es : List Appended) (offset : ℕ) : (placed offset es).map Prod.fst = es := by
  induction es generalizing offset with
  | nil => rfl
  | cons e es ih => exact congrArg (e :: ·) (ih _)

/-- Where parts of some sizes start, one after the other. -/
def starts (offset : ℕ) : List ℕ → List ℕ
  | [] => []
  | n :: ns => offset :: starts (offset + n) ns

theorem snd_placed (es : List Appended) (offset : ℕ) :
    (placed offset es).map Prod.snd = starts offset (es.map fun e => e.bytes.length) := by
  induction es generalizing offset with
  | nil => rfl
  | cons e es ih => exact congrArg (offset :: ·) (ih _)

variable {x : Appended × ℕ}

/-- An entry stands at its offset. -/
theorem bytes_of_mem_placed {offset : ℕ} (h : x ∈ placed offset es) :
    ∃ before after, es.flatMap Appended.bytes = before ++ (x.1.bytes ++ after) ∧
      x.2 = offset + before.length := by
  induction es generalizing offset with
  | nil => exact absurd h List.not_mem_nil
  | cons e es ih =>
    rcases List.mem_cons.1 h with rfl | h
    · exact ⟨[], es.flatMap Appended.bytes, rfl, rfl⟩
    · obtain ⟨before, after, heq, hoffset⟩ := ih h
      refine ⟨e.bytes ++ before, after, ?_, ?_⟩
      · rw [List.flatMap_cons, heq, List.append_assoc]
      · rw [hoffset, List.length_append, Nat.add_assoc]

theorem Appended.length_bytes (e : Appended) :
    e.bytes.length = 30 + (nameBytes e.name).length + e.compressed.length := by
  rw [bytes, localHeader, List.length_append, List.length_append, length_fields]
  simp only [List.map_cons, List.map_nil, List.sum_cons, List.sum_nil, Nat.reduceAdd]
  omega

namespace Compact

theorem stop_le (hx : x ∈ placed 0 es) :
    x.2 + x.1.bytes.length ≤ (compactPackage es).before.length := by
  obtain ⟨before, after, heq, hoffset⟩ := bytes_of_mem_placed hx
  change _ ≤ (es.flatMap Appended.bytes).length
  rw [heq, hoffset, List.length_append, List.length_append]
  omega

theorem mem_of_placed {offset : ℕ} (hx : x ∈ placed offset es) : x.1 ∈ es :=
  map_placed es offset ▸ List.mem_map.2 ⟨x, hx, rfl⟩

/-- A directory has as many bytes as its headers and names. -/
theorem length_directory_placed (es : List Appended) (offset : ℕ) :
    (directory (recordsOf (placed offset es))).length =
      (es.map fun e => 46 + (nameBytes e.name).length).sum := by
  induction es generalizing offset with
  | nil => rfl
  | cons e es ih =>
    have hencode : (e.record offset).encode.length = 46 + (nameBytes e.name).length + 0 + 0 :=
      CentralRecord.length_encode
    rw [List.map_cons, List.sum_cons, ← ih (offset + e.bytes.length), placed]
    change ((e.record offset).encode ++ directory (recordsOf (placed _ es))).length = _
    rw [List.length_append, hencode, Nat.add_zero]

/-- Placeholders are unencrypted and stored, so that only their names and sizes matter. -/
theorem of_placeholders {texts : List (String × List UInt8)} (hnonempty : texts ≠ [])
    (hnames : texts.Pairwise fun a b => a.1 ≠ b.1)
    (hpaths : ∀ t ∈ texts, validateZipPath t.1 = .ok ())
    (hlengths : ∀ t ∈ texts, t.2.length ≤ maxCompressedEntryBytes)
    (hentries : texts.length ≤ maxZipEntries)
    (hsize : (texts.map fun t => 46 + (nameBytes t.1).length).sum ≤ maxCentralDirectoryBytes) :
    Compact (appendedEntries [] texts) := by
  have hmem : ∀ e ∈ appendedEntries [] texts, ∃ t ∈ texts, e = placeholder t.1 t.2 := by
    intro e he
    obtain ⟨t, ht, rfl⟩ := List.mem_map.1 he
    exact ⟨t, ht, rfl⟩
  have hlength : (compactPackage (appendedEntries [] texts)).directory.length =
      (texts.map fun t => 46 + (nameBytes t.1).length).sum := by
    refine (length_directory_placed _ 0).trans ?_
    rw [appendedEntries, List.map_nil, List.nil_append, List.map_map]
    rfl
  refine ⟨fun hnil => hnonempty (List.map_eq_nil_iff.1 hnil), List.pairwise_map.2 hnames, ?_, ?_,
    ?_, ?_, ?_, ?_, (List.length_map _).trans_le hentries, hlength.trans_le hsize⟩ <;>
    intro e he <;> obtain ⟨t, ht, rfl⟩ := hmem e he
  · exact hpaths t ht
  · exact show 0x0800 % 2 = 0 by decide
  · exact .inl rfl
  · exact UInt32.toNat_lt _
  · exact hlengths t ht
  · exact (hlengths t ht).trans (by decide)

/-- An entry with the offset it starts at. -/
theorem mem_placed {k offset : ℕ} {e : Appended} (he : es[k]? = some e)
    (hoffset : (starts 0 (es.map fun e => e.bytes.length))[k]? = some offset) :
    (e, offset) ∈ placed 0 es := by
  rw [← snd_placed, List.getElem?_map, Option.map_eq_some_iff] at hoffset
  obtain ⟨x, hx, rfl⟩ := hoffset
  have hfst : ((placed 0 es).map Prod.fst)[k]? = es[k]? := by rw [map_placed]
  rw [he, List.getElem?_map, hx] at hfst
  cases hfst
  exact List.mem_of_getElem? hx

/-- The directory of a compact package. -/
def index (es : List Appended) : ZipDirectoryIndex :=
  ⟨(compactPackage es).records.map CentralRecord.index⟩

/-- The directory has an entry under its name. -/
theorem entry_eq (h : Compact es) (hx : x ∈ placed 0 es) :
    (index es).entry x.1.name = some (x.1.record x.2).index := by
  have hnames := h.names
  rw [← map_placed es 0, List.pairwise_map] at hnames
  change (((placed 0 es).map fun y => y.1.record y.2).map CentralRecord.index).find? _ = _
  rw [List.map_map]
  generalize placed 0 es = l at hx hnames
  induction l with
  | nil => exact absurd hx List.not_mem_nil
  | cons y l ih =>
    obtain ⟨hy, hnames⟩ := List.pairwise_cons.1 hnames
    rw [List.map_cons]
    rcases List.mem_cons.1 hx with rfl | hx
    · exact List.find?_cons_of_pos (decide_eq_true rfl)
    · have hne : ¬decide (y.1.name = x.1.name) = true := fun heq =>
        hy x hx (of_decide_eq_true heq)
      exact (List.find?_cons_of_neg (p := fun z : ZipEntryIndex => decide (z.name = x.1.name))
        hne).trans (ih hx hnames)

/-- The directory has the names of the entries. -/
theorem entry_eq_none {name : String} (hname : name ∉ es.map Appended.name) :
    (index es).entry name = none := by
  refine List.find?_eq_none.2 fun e he heq => hname ?_
  obtain ⟨r, hr, rfl⟩ := List.mem_map.1 he
  obtain ⟨x, hx, rfl⟩ := List.mem_map.1 hr
  exact List.mem_map.2 ⟨x.1, mem_of_placed hx, of_decide_eq_true heq⟩

/-- The writer's package is well formed. -/
theorem wellFormed (h : Compact es) (hfits : ∀ e ∈ es, e.Fits)
    (hle : (compactPackage es).before.length + (compactPackage es).directory.length ≤ u32Max) :
    (compactPackage es).WellFormed := by
  have hrecords : (compactPackage es).records.length = es.length :=
    (List.length_map _).trans (length_placed es 0)
  have hentries := h.entries_le
  have hsize := h.size_le
  have hpos : 0 < es.length := List.length_pos_iff.2 h.nonempty
  have hcount : (compactPackage es).records.length ≤ (compactPackage es).directory.length :=
    length_le_directory _
  rw [maxZipEntries] at hentries
  rw [maxCentralDirectoryBytes] at hsize
  rw [u32Max] at hle
  refine ⟨fun r hr => ?_, ?_, ?_, ?_, Nat.zero_lt_succ _, ?_, ?_, fun _ hdata =>
    absurd hdata (Option.not_mem_none _)⟩
  · obtain ⟨x, hx, rfl⟩ := List.mem_map.1 hr
    have hmem := mem_of_placed hx
    have hstop := stop_le hx
    have hbytes := x.1.length_bytes
    have hcompressed := h.compressed_le _ hmem
    have huncompressed := h.uncompressedSize_le _ hmem
    rw [maxCompressedEntryBytes] at hcompressed
    rw [maxExpandedEntryBytes] at huncompressed
    refine ⟨?_, ?_, h.crc32_lt _ hmem, ?_, ?_, ?_, ?_, Nat.zero_lt_succ _, Nat.zero_lt_succ _,
      fun hwide => absurd hwide Bool.false_ne_true⟩
    · exact Nat.lt_of_le_of_lt Nat.and_le_right (by decide)
    · change x.1.method < 2 ^ 16
      rcases h.methods _ hmem with hmethod | hmethod <;> rw [hmethod] <;> decide
    · change x.1.compressed.length < 256 ^ 4 - 1
      omega
    · change x.1.uncompressedSize < 256 ^ 4 - 1
      omega
    · change x.2 < 256 ^ 4 - 1
      omega
    · exact Nat.lt_succ_of_le (hfits _ hmem).name_le
  · change (compactPackage es).records.length < 256 ^ 2 - 1
    omega
  · change (compactPackage es).directory.length < 256 ^ 4 - 1
    omega
  · change (compactPackage es).before.length < 256 ^ 4 - 1
    omega
  · rintro (hwide | hwide) <;> exact absurd hwide Bool.false_ne_true
  · rw [Package.length_encode, Package.endOffset]
    change _ + _ + 0 + 22 + 0 < _
    omega

/-- The reader takes the writer's package. -/
theorem readable (h : Compact es) : (compactPackage es).Readable := by
  have hlength : (compactPackage es).encode.length =
      (compactPackage es).endOffset + 22 + 0 := Package.length_encode
  have hend : (compactPackage es).endOffset =
      (compactPackage es).before.length + (compactPackage es).directory.length + 0 := rfl
  refine ⟨fun r hr => ?_, ?_, ?_, ?_, h.size_le, rfl, fun hwide => absurd hwide Bool.false_ne_true,
    fun i hi hle => ?_, rfl⟩
  · obtain ⟨x, hx, rfl⟩ := List.mem_map.1 hr
    have hmem := mem_of_placed hx
    have hstop := stop_le hx
    have hbytes := x.1.length_bytes
    refine ⟨h.paths _ hmem, ?_, h.methods _ hmem, h.compressed_le _ hmem,
      h.uncompressedSize_le _ hmem, ?_⟩
    · exact (withoutDescriptor_mod_two _).trans (h.unencrypted _ hmem)
    · change x.2 + 30 ≤ _
      omega
  · change (recordsOf (placed 0 es)).Pairwise _
    have hnames := h.names
    rw [← map_placed es 0, List.pairwise_map] at hnames
    exact List.pairwise_map.2 hnames
  · intro hnil
    have hrecords : (recordsOf (placed 0 es)).length = es.length :=
      (List.length_map _).trans (length_placed es 0)
    have hnone : es.length = 0 := hrecords.symm.trans (congrArg List.length hnil)
    exact h.nonempty (List.eq_nil_of_length_eq_zero hnone)
  · change (recordsOf (placed 0 es)).length ≤ _
    rw [recordsOf, List.length_map, length_placed]
    exact h.entries_le
  · omega

end Compact

/-- An entry of the directory is the one that was written: the same name, method, checksum and
    sizes, and of one with data the header and the data are found. -/
structure Appended.ReadBack (e : Appended) (out : List UInt8) (entry : ZipEntryIndex) : Prop where
  name : entry.name = e.name
  method : entry.method = e.method
  crc32 : entry.crc32 = e.crc32
  compressedSize : entry.compressedSize = e.compressed.length
  uncompressedSize : entry.uncompressedSize = e.uncompressedSize
  data : e.compressed ≠ [] → ∃ header data,
    RawZipEntry.headerRange entry out.length = .ok header ∧
    RawZipEntry.dataRange entry (header.slice out) out.length = .ok data ∧
    data.slice out = e.compressed

/-- An entry that stands at its offset is read back. -/
theorem Appended.readBack_of_bytes {e : Appended} (hfits : e.Fits) (hflags : e.flags % 2 = 0)
    (hmethod : e.method = 0 ∨ e.method = 8) {out : List UInt8} (before after : List UInt8)
    (hout : out = before ++ (e.bytes ++ after)) (hlength : out.length ≤ u64Max) :
    e.ReadBack out (e.record before.length).index := by
  refine ⟨rfl, rfl, rfl, rfl, rfl, fun hdata => ?_⟩
  have hbytes := e.length_bytes
  have hlen : out.length = before.length + e.bytes.length + after.length := by
    rw [hout, List.length_append, List.length_append, Nat.add_assoc]
  have hpos : 0 < e.compressed.length := List.length_pos_iff.2 hdata
  have hname := hfits.name_le
  obtain ⟨header, hheader⟩ : ∃ header, header = localHeader e := ⟨_, rfl⟩
  have hheaderLength : header.length = 30 := by
    rw [hheader, localHeader, length_fields]
    simp only [List.map_cons, List.map_nil, List.sum_cons, List.sum_nil, Nat.reduceAdd]
  -- The header is what stands at the offset, the data what stands behind the name.
  have hslice : (out.drop before.length).take 30 = header := by
    have h := slice_append before header (nameBytes e.name ++ (e.compressed ++ after))
    rw [hheaderLength] at h
    rwa [hout, bytes, List.append_assoc, List.append_assoc, ← hheader]
  have hslice' : (out.drop (before.length + 30 + (nameBytes e.name).length + 0)).take
      e.compressed.length = e.compressed := by
    have h := slice_append (before ++ (header ++ nameBytes e.name)) e.compressed after
    rw [List.length_append, List.length_append, hheaderLength, ← Nat.add_assoc] at h
    rw [hout, bytes, ← hheader]
    simpa only [List.append_assoc, Nat.add_zero] using h
  have hfield : ∀ {w n : ℕ} (k j : ℕ),
      [(4, 0x04034b50), (2, 20), (2, withoutDescriptor e.flags), (2, e.method), (2, 0), (2, 0),
        (4, e.crc32), (4, e.compressed.length), (4, e.uncompressedSize),
        (2, (nameBytes e.name).length), (2, 0)][k]? = some (w, n) → n < 256 ^ w →
      startOf 0 [(4, 0x04034b50), (2, 20), (2, withoutDescriptor e.flags), (2, e.method), (2, 0),
        (2, 0), (4, e.crc32), (4, e.compressed.length), (4, e.uncompressedSize),
        (2, (nameBytes e.name).length), (2, 0)] k = j →
      readLittleEndian w header j = .ok n := by
    intro w n k j hk hn hj
    have h := read_fields _ [] [] k hk hn hj
    rwa [List.nil_append, List.append_nil, ← localHeader, ← hheader] at h
  have hmethodLt : e.method < 2 ^ 16 := by
    rcases hmethod with h | h <;> rw [h] <;> decide
  have hfield₀ : readU32 header 0 = .ok 0x04034b50 := hfield 0 0 rfl (by decide) rfl
  have hfield₁ : readU16 header 6 = .ok (withoutDescriptor e.flags) :=
    hfield 2 6 rfl (Nat.lt_of_le_of_lt Nat.and_le_right (by decide)) rfl
  have hfield₂ : readU16 header 8 = .ok e.method := hfield 3 8 rfl hmethodLt rfl
  have hfield₃ : readU16 header 26 = .ok (nameBytes e.name).length :=
    hfield 9 26 rfl (Nat.lt_succ_of_le hname) rfl
  have hfield₄ : readU16 header 28 = .ok 0 := hfield 10 28 rfl (by decide) rfl
  refine ⟨⟨before.length, 30, by decide, by omega⟩,
    ⟨before.length + 30 + (nameBytes e.name).length + 0, e.compressed.length, hpos, by omega⟩,
    ?_, ?_, hslice'⟩
  · change HostRange.new before.length 30 out.length = _
    rw [HostRange.new, dif_neg (by decide), dif_pos (by omega), if_neg (by omega)]
  · change RawZipEntry.dataRange _ ((out.drop before.length).take 30) _ = _
    rw [hslice, RawZipEntry.dataRange, if_neg (not_not.2 hheaderLength), hfield₀, Result.ok_bind,
      if_neg (not_not.2 rfl), hfield₁, Result.ok_bind, hfield₂, Result.ok_bind, if_neg, hfield₃,
      Result.ok_bind, hfield₄, Result.ok_bind]
    · change (checkedAdd u64Max before.length 30 _ >>= _) = _
      rw [checkedAdd_of_le (by omega), Result.ok_bind, checkedAdd_of_le (by omega),
        Result.ok_bind, checkedAdd_of_le (by omega), Result.ok_bind]
      change HostRange.new _ e.compressed.length _ = _
      rw [HostRange.new, dif_neg (by omega), dif_pos (by omega), if_neg (by omega)]
    · rw [withoutDescriptor_mod_two, hflags]
      exact fun h => h.elim (fun h => h rfl) fun h => h rfl

namespace Compact

/-- An entry of a compact package is read back where it stands. -/
theorem readBack (h : Compact es) (hfits : ∀ e ∈ es, e.Fits)
    (hx : x ∈ placed 0 es) (hlength : (compactPackage es).encode.length ≤ u64Max) :
    x.1.ReadBack (compactPackage es).encode (x.1.record x.2).index := by
  have hmem := mem_of_placed hx
  obtain ⟨before, after, heq, hoffset⟩ := bytes_of_mem_placed hx
  rw [hoffset, Nat.zero_add]
  refine Appended.readBack_of_bytes (hfits _ hmem) (h.unencrypted _ hmem) (h.methods _ hmem)
    before (after ++ ((compactPackage es).directory ++ ((compactPackage es).zip64Bytes ++
      (fields (compactPackage es).endFields ++ (compactPackage es).comment)))) ?_ hlength
  rw [Package.encode]
  change es.flatMap Appended.bytes ++ _ = _
  rw [heq, List.append_assoc, List.append_assoc]

/-- A compact package is read back, entry by entry. -/
theorem readDirectory_eq {entries : List RawZipEntry} {placeholders : List (String × List UInt8)}
    {out : List UInt8} (hbuild : buildRawZip entries placeholders = .ok out)
    (h : Compact (appendedEntries entries placeholders)) :
    ∃ index, readDirectory out = .ok index ∧
      List.Forall₂ (fun e entry => e.ReadBack out entry) (appendedEntries entries placeholders)
        index.entries := by
  obtain ⟨hfits, hout, hle⟩ := buildRawZip_eq_ok hbuild
  have hwellFormed := h.wellFormed hfits hle
  have hlength := hwellFormed.length
  refine ⟨_, hout ▸ Package.readDirectory_encode hwellFormed h.readable, ?_⟩
  obtain ⟨es, hes⟩ : ∃ es, es = appendedEntries entries placeholders := ⟨_, rfl⟩
  rw [← hes] at h hfits hout ⊢
  -- The entries in the order of the directory.
  have hpairs : List.Forall₂ (fun e entry => e.ReadBack out entry)
      ((placed 0 es).map Prod.fst)
      ((placed 0 es).map fun x => (x.1.record x.2).index) := by
    rw [List.forall₂_map_left_iff, List.forall₂_map_right_iff, List.forall₂_same]
    intro x hx
    rw [hout]
    refine h.readBack hfits hx ?_
    rw [u64Max, hes]
    omega
  rw [map_placed] at hpairs
  change List.Forall₂ _ _ ((recordsOf (placed 0 es)).map _)
  rwa [recordsOf, List.map_map]

end Compact

/-- The directory of a source that is a package is found in the tail and read. -/
theorem Package.parse_of_tail {p : Package} (h : p.WellFormed) (hread : p.Readable)
    {source : HostSource} (hsource : source.bytes = p.encode) {tail : HostRange}
    (htail : tailRange source.bytes.length = .ok tail) :
    ∃ location, parseEndOfCentralDirectory (source.slice tail) tail.offset source.bytes.length =
        .ok location ∧
      parseCentralDirectory (source.slice location.range) location.entries source.bytes.length =
        .ok ⟨p.records.map CentralRecord.index⟩ ∧ location.range.offset = p.before.length ∧
      location.range.length = p.directory.length := by
  obtain ⟨location, hlocation, _, _, hoffset⟩ := locateDirectory_encode h hread
  have hdirectory := readDirectory_encode h hread
  rw [← hsource] at hlocation hdirectory
  refine ⟨location, ?_, ?_, hoffset⟩
  · rw [locateDirectory, htail] at hlocation
    exact hlocation
  · rw [readDirectory, hlocation] at hdirectory
    exact hdirectory

/-- An entry with data is fetched where it and all behind it is retained. -/
theorem Appended.ReadBack.fetchEntry_eq {e : Appended} {source : HostSource}
    {entry : ZipEntryIndex} {ix : IndexedRanges} (h : e.ReadBack source.bytes entry)
    (hdata : e.compressed ≠ []) (hholds : ix.Holds source)
    (hretained : ∀ i, entry.localHeaderOffset ≤ i → i < source.bytes.length → ix.Covers i) :
    ix.fetchEntry entry = .ok (.inr ⟨entry, e.compressed⟩) := by
  obtain ⟨header, data, hheader, hrange, hslice⟩ := h.data hdata
  obtain ⟨hoffset, _, hstop⟩ := HostRange.new_eq_ok hheader
  obtain ⟨hle, hlength, hdataStop⟩ := RawZipEntry.dataRange_eq_ok hrange
  rw [hholds.fetchEntry_of_covers hheader
    (fun i hi => hretained i (hoffset ▸ hi.1) (hi.2.trans_le hstop)) hrange
    (fun i hi => hretained i (hle.trans hi.1) (hi.2.trans_le hdataStop)) hlength]
  exact congrArg (fun bytes => Except.ok (Sum.inr (RawZipEntry.mk entry bytes))) hslice

/-- Every compact package of entries within the reader's limits is read back, entry by entry; and so
    is every package as the format has it, if the reader takes it. -/
theorem packages_read_back :
    (∀ entries placeholders out, buildRawZip entries placeholders = .ok out →
      Compact (appendedEntries entries placeholders) →
      ∃ index, readDirectory out = .ok index ∧ List.Forall₂ (fun e entry => e.ReadBack out entry)
        (appendedEntries entries placeholders) index.entries) ∧
    ∀ p : Package, p.WellFormed → p.Readable →
      (∃ location, locateDirectory p.encode = .ok location ∧
        location.range.slice p.encode = p.directory ∧ location.entries = p.records.length ∧
        location.range.offset = p.before.length ∧
        location.range.length = p.directory.length) ∧
      readDirectory p.encode = .ok ⟨p.records.map CentralRecord.index⟩ :=
  ⟨fun _ _ _ hbuild h => h.readDirectory_eq hbuild, fun _ h hread =>
    ⟨Package.locateDirectory_encode h hread, Package.readDirectory_encode h hread⟩⟩

/-- An entry with one byte, stored. -/
def storedEntry : Appended := placeholder "a" [97]

/-- A package of one placeholder is read back. -/
theorem packages_read_back_stored :
    (∃ index, readDirectory (compactPackage [storedEntry]).encode = .ok index ∧
      List.Forall₂ (fun e entry => e.ReadBack (compactPackage [storedEntry]).encode entry)
        [storedEntry] index.entries) ∧
    readDirectory (compactPackage [storedEntry]).encode =
      .ok ⟨(compactPackage [storedEntry]).records.map CentralRecord.index⟩ := by
  have hcompact : Compact [storedEntry] := by
    refine ⟨by decide, List.pairwise_singleton _ _, ?_, ?_, ?_, ?_, ?_, ?_, by decide,
      by decide⟩ <;> intro e he <;> rw [List.mem_singleton.1 he]
    · decide
    · rfl
    · exact .inl rfl
    · exact UInt32.toNat_lt _
    · decide
    · decide
  have hfits : ∀ e ∈ [storedEntry], e.Fits := by
    intro e he
    rw [List.mem_singleton.1 he]
    exact ⟨by decide, by decide, by decide⟩
  exact ⟨packages_read_back.1 [] [("a", [97])] _ (by decide) hcompact,
    (packages_read_back.2 _ (hcompact.wellFormed hfits (by decide))
      hcompact.readable).2⟩

/-! ## Packages that are not read back -/

/-- The fields of an end record without entries that starts with the last field of another. -/
def hiddenFields : List (ℕ × ℕ) :=
  [(4, 0x06054b50), (2, 0), (2, 0), (2, 0), (2, 0), (4, 0), (4, 0), (2, 19260)]

/-- A package with a comment of 19280 bytes: the length and the start of the comment read as the
    signature of an end record. -/
def straddling : Package where
  before := storedEntry.bytes
  records := [storedEntry.record 0]
  comment := (fields hiddenFields).drop 2 ++ List.replicate 19260 0

/-- A package whose disk numbers stand in its ZIP64 end record. -/
def wideDisks : Package where
  before := storedEntry.bytes
  records := [storedEntry.record 0]
  zip64 := some {}
  wideDisk := true
  wideEntries := true

/-- A package with a digital signature. -/
def signedPackage : Package where
  before := storedEntry.bytes
  records := [storedEntry.record 0]
  signature := some [1]

/-- A package without entries. -/
def emptyPackage : Package where
  before := []
  records := []

theorem storedRecord_wellFormed : (storedEntry.record 0).WellFormed := by
  refine ⟨by decide, by decide, ?_, by decide, by decide, by decide, by decide, by decide,
    by decide, fun hwide => absurd hwide Bool.false_ne_true⟩
  exact UInt32.toNat_lt _

theorem storedRecord_readable {n : ℕ} (h : 30 ≤ n) : (storedEntry.record 0).Readable n :=
  ⟨by decide, rfl, .inl rfl, by decide, by decide, h⟩

/-- An end record starts with a `P`. -/
theorem not_endsAt {bytes : List UInt8} {k i : ℕ} (h : ∀ b ∈ bytes.drop k, b ≠ 0x50)
    (hi : k ≤ i) : ¬EndsAt bytes i := by
  rintro ⟨hread, _⟩
  rw [readU32, readLittleEndian] at hread
  split_ifs at hread with hlength
  have hvalue := Except.ok.inj hread
  cases hfield : (bytes.drop i).take 4 with
  | nil =>
    rw [hfield] at hlength
    exact absurd hlength (by decide)
  | cons b rest =>
    rw [hfield, List.foldr_cons] at hvalue
    have hmem : b ∈ bytes.drop k := by
      have hsub : b ∈ bytes.drop i := List.mem_of_mem_take (hfield ▸ List.mem_cons_self)
      have hdrop : bytes.drop i = (bytes.drop k).drop (i - k) := by
        rw [List.drop_drop, Nat.add_sub_cancel' hi]
      exact List.mem_of_mem_drop (hdrop ▸ hsub)
    have hb := b.toNat_lt
    have hbyte : b.toNat = 0x50 := by omega
    exact h b hmem (UInt8.toNat_inj.1 hbyte)

theorem straddling_comment_length : straddling.comment.length = 19280 := by
  rw [straddling, List.length_append, List.length_drop, length_fields, List.length_replicate]
  rfl

/-- The end record of the package with the long comment. -/
theorem straddling_endFields : straddling.endFields = [(4, 0x06054b50), (2, 0), (2, 0), (2, 1),
    (2, 1), (4, 47), (4, 32), (2, 19280)] := by
  have hdirectory : straddling.directory.length = 47 := by decide
  have hbefore : straddling.before.length = 32 := by decide
  rw [Package.endFields, straddling_comment_length, hdirectory, hbefore]
  rfl

theorem straddling_endOffset : straddling.endOffset = 79 := by decide

theorem straddling_wellFormed : straddling.WellFormed := by
  have hlength := @Package.length_encode straddling
  rw [straddling_endOffset, straddling_comment_length] at hlength
  refine ⟨fun r hr => ?_, by decide, by decide, by decide, ?_, ?_, ?_, fun _ hdata =>
    absurd hdata (Option.not_mem_none _)⟩
  · rw [List.mem_singleton.1 hr]
    exact storedRecord_wellFormed
  · rw [straddling_comment_length]
    decide
  · rintro (hwide | hwide) <;> exact absurd hwide Bool.false_ne_true
  · rw [hlength]
    decide

/-- The same bytes, read from the end record that the comment completes. -/
theorem straddling_encode : straddling.encode =
    (storedEntry.bytes ++ (straddling.directory ++ (fields straddling.endFields).take 20)) ++
      (fields hiddenFields ++ List.replicate 19260 0) := by
  have hfields : fields straddling.endFields =
      (fields straddling.endFields).take 20 ++ (fields hiddenFields).take 2 := by
    rw [straddling_endFields]
    decide
  have hcomment : (fields hiddenFields).take 2 ++ straddling.comment =
      fields hiddenFields ++ List.replicate 19260 0 := by
    rw [straddling, ← List.append_assoc, List.take_append_drop]
  rw [Package.encode]
  change storedEntry.bytes ++ (straddling.directory ++ ([] ++ _)) = _
  rw [List.nil_append, List.append_assoc, List.append_assoc, ← hcomment]
  conv_lhs => rw [hfields, List.append_assoc]

/-- The reader takes the end record that the comment completes. -/
theorem straddling_readDirectory : (readDirectory straddling.encode).isOk = false := by
  obtain ⟨bytes, hbytes⟩ : ∃ bytes, bytes = straddling.encode := ⟨_, rfl⟩
  have hlength : bytes.length = 19381 := by
    rw [hbytes, Package.length_encode, straddling_endOffset, straddling_comment_length]
  obtain ⟨start, hstart⟩ : ∃ start, start = storedEntry.bytes ++ (straddling.directory ++
    (fields straddling.endFields).take 20) := ⟨_, rfl⟩
  have hstartLength : start.length = 99 := by
    rw [hstart, straddling_endFields]
    decide
  have hencode : bytes = start ++ (fields hiddenFields ++ List.replicate 19260 0) := by
    rw [hbytes, hstart]
    exact straddling_encode
  have hfield : ∀ {w n : ℕ} (k j : ℕ), hiddenFields[k]? = some (w, n) → n < 256 ^ w →
      startOf 99 hiddenFields k = j → readLittleEndian w bytes j = .ok n := by
    intro w n k j hk hn hj
    rw [hencode]
    exact read_fields hiddenFields start _ k hk hn (hstartLength ▸ hj)
  have hfield₀ : readU32 bytes 99 = .ok 0x06054b50 := hfield 0 99 rfl (by decide) rfl
  have hfield₁ : readU16 bytes (99 + 4) = .ok 0 := hfield 1 103 rfl (by decide) rfl
  have hfield₂ : readU16 bytes (99 + 6) = .ok 0 := hfield 2 105 rfl (by decide) rfl
  have hfield₃ : readU16 bytes (99 + 10) = .ok 0 := hfield 4 109 rfl (by decide) rfl
  have hfield₄ : readU32 bytes (99 + 12) = .ok 0 := hfield 5 111 rfl (by decide) rfl
  have hfield₅ : readU32 bytes (99 + 16) = .ok 0 := hfield 6 115 rfl (by decide) rfl
  have hfield₆ : readU16 bytes (99 + 20) = .ok 19260 := hfield 7 119 rfl (by decide) rfl
  have hfound : parseEndAt (bytes.drop 0) 0 bytes.length 99 =
      some <$> centralLocation 0 0 0 bytes.length := by
    rw [List.drop_zero, parseEndAt, hfield₀, Result.ok_bind, if_neg (not_not.2 rfl), hfield₆,
      Result.ok_bind, if_neg (by omega), hfield₁, Result.ok_bind, hfield₂, Result.ok_bind,
      if_neg (by decide), hfield₃, Result.ok_bind, hfield₄, Result.ok_bind, hfield₅,
      Result.ok_bind, if_neg (by decide)]
  have hrest : ∀ b ∈ bytes.drop 100, b ≠ 0x50 := by
    have hdrop : bytes.drop 100 = (fields hiddenFields).drop 1 ++ List.replicate 19260 0 := by
      rw [hencode, List.drop_append, hstartLength, List.drop_of_length_le (by omega),
        List.nil_append, List.drop_append_of_le_length (by rw [length_fields]; decide)]
    intro b hb
    rw [hdrop, List.mem_append] at hb
    rcases hb with hb | hb
    · have hall : ((fields hiddenFields).drop 1).all (· ≠ 0x50) = true := by decide
      exact of_decide_eq_true (List.all_eq_true.1 hall b hb)
    · rw [List.eq_of_mem_replicate hb]
      decide
  have htail : tailRange bytes.length = .ok ⟨0, 19381, by decide, by decide⟩ := by
    rw [hlength]
    rfl
  have hsearch : searchEnd (bytes.drop 0) 0 bytes.length (bytes.length - 22 + 1) =
      centralLocation 0 0 0 bytes.length := by
    refine searchEnd_eq _ (by omega) hfound fun i hi hin => ?_
    exact parseEndAt_eq_none 0 (by omega) (not_endsAt hrest (by omega))
  have hslice : HostRange.slice ⟨0, 19381, by decide, by decide⟩ bytes = bytes.drop 0 := by
    rw [HostRange.slice]
    refine List.take_of_length_le ?_
    rw [List.length_drop]
    dsimp only
    omega
  rw [← hbytes, readDirectory, locateDirectory, htail, Result.ok_bind, hslice,
    parseEndOfCentralDirectory, if_neg (by rw [List.length_drop]; omega), List.length_drop,
    Nat.sub_zero, hsearch, hlength]
  rfl

/-- Packages as the format has them that are not read back, though their entries are of names,
    methods and sizes that the reader takes and no comment contains a signature. -/
theorem packages_not_read_back :
    (straddling.WellFormed ∧
      (∀ r ∈ straddling.records, r.Readable straddling.encode.length) ∧
      ¬[0x50, 0x4b, 0x05, 0x06] <:+: straddling.comment ∧
      (readDirectory straddling.encode).isOk = false) ∧
    (wideDisks.WellFormed ∧ (∀ r ∈ wideDisks.records, r.Readable wideDisks.encode.length) ∧
      wideDisks.comment = [] ∧ (readDirectory wideDisks.encode).isOk = false) ∧
    (signedPackage.WellFormed ∧
      (∀ r ∈ signedPackage.records, r.Readable signedPackage.encode.length) ∧
      signedPackage.comment = [] ∧ (readDirectory signedPackage.encode).isOk = false) ∧
    emptyPackage.WellFormed ∧ emptyPackage.comment = [] ∧
      (readDirectory emptyPackage.encode).isOk = false := by
  have hrecords : ∀ {n : ℕ}, 30 ≤ n → (∀ r ∈ [storedEntry.record 0], r.WellFormed) ∧
      ∀ r ∈ [storedEntry.record 0], r.Readable n := fun hn =>
    ⟨List.forall_mem_singleton.2 storedRecord_wellFormed,
      List.forall_mem_singleton.2 (storedRecord_readable hn)⟩
  have hlength : 30 ≤ straddling.encode.length := by
    rw [Package.length_encode, straddling_endOffset]
    omega
  have hcomment : ¬[0x50, 0x4b, 0x05, 0x06] <:+: straddling.comment := by
    -- A signature starts with a byte that the comment does not have.
    intro hinfix
    have hmem : (0x50 : UInt8) ∈ straddling.comment := hinfix.subset List.mem_cons_self
    rw [straddling, List.mem_append] at hmem
    rcases hmem with hmem | hmem
    · revert hmem
      decide
    · exact absurd (List.eq_of_mem_replicate hmem) (by decide)
  have hdisks := @hrecords wideDisks.encode.length (by decide +kernel)
  have hsigned := @hrecords signedPackage.encode.length (by decide +kernel)
  have hnarrow : ∀ {p : Prop}, (false = true ∨ false = true) → p := fun h => by simp at h
  exact ⟨⟨straddling_wellFormed, (hrecords hlength).2, hcomment, straddling_readDirectory⟩,
    ⟨⟨hdisks.1, by decide, by decide, by decide, by decide, fun _ => rfl, by decide +kernel,
      by decide⟩, hdisks.2, rfl, by decide +kernel⟩,
    ⟨⟨hsigned.1, by decide, by decide, by decide, by decide, hnarrow, by decide +kernel,
      by decide⟩, hsigned.2, rfl, by decide +kernel⟩,
    ⟨List.forall_mem_nil _, by decide, by decide, by decide, by decide, hnarrow, by decide,
      by decide⟩, rfl, by decide⟩

end Tabulark.Excel
