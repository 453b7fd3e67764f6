import Tabulark.Excel.Ranges

/-!
# Fetching package entries

A worksheet is opened from the entries of a ZIP package. `EntryFetch.advance`
takes each entry, a local header and the data after it, from the retained ranges
and stops at the first gap. More retained ranges never change what it takes
(`advance_mono`): they only let it go on.
-/

namespace Tabulark.Excel

open OrderedMap Segments

/-! ## Entries -/

/-- The error of a record that ends early. -/
def zipTruncated : TabularkError := .new .parseFailed "XLSX ZIP structure is truncated"

/-- The error of an offset beyond its integer type. -/
def zipOverflow : TabularkError := .new .resourceLimit "XLSX ZIP offset arithmetic overflows"

/-- A little-endian number of `width` bytes at an offset. -/
def readLittleEndian (width : ℕ) (bytes : List UInt8) (offset : ℕ) : Result ℕ :=
  let field := (bytes.drop offset).take width
  if field.length = width then
    .ok (field.foldr (fun b n => b.toNat + 256 * n) 0)
  else .error zipTruncated

/-- A little-endian `u16`. -/
def readU16 : List UInt8 → ℕ → Result ℕ := readLittleEndian 2

/-- A little-endian `u32`. -/
def readU32 : List UInt8 → ℕ → Result ℕ := readLittleEndian 4

/-- An entry of the central directory. -/
structure ZipEntryIndex where
  name : String
  flags : ℕ
  method : ℕ
  crc32 : ℕ
  compressedSize : ℕ
  uncompressedSize : ℕ
  localHeaderOffset : ℕ
  deriving DecidableEq, Repr

/-- The entries of a package, each under a name of its own. -/
structure ZipDirectoryIndex where
  entries : List ZipEntryIndex
  deriving DecidableEq, Repr

/-- The entry with a name. -/
def ZipDirectoryIndex.entry (index : ZipDirectoryIndex) (name : String) : Option ZipEntryIndex :=
  index.entries.find? (·.name = name)

/-- An entry and its data, still compressed. -/
structure RawZipEntry where
  index : ZipEntryIndex
  compressed : List UInt8
  deriving DecidableEq, Repr

namespace RawZipEntry

/-- The name of an entry. -/
def name (e : RawZipEntry) : String := e.index.name

/-- The range of the fixed part of a local header. -/
def headerRange (index : ZipEntryIndex) (sourceLength : ℕ) : Result HostRange :=
  HostRange.new index.localHeaderOffset 30 sourceLength

/-- The range of the data after a local header. -/
def dataRange (index : ZipEntryIndex) (localHeader : List UInt8) (sourceLength : ℕ) :
    Result HostRange := do
  let invalidHeader := (TabularkError.new .parseFailed
    "XLSX local file header is invalid").withDetail "entry" (.text index.name)
  if localHeader.length ≠ 30 then .error invalidHeader
  else do
    let signature ← readU32 localHeader 0
    if signature ≠ 0x04034b50 then .error invalidHeader
    else do
      let flags ← readU16 localHeader 6
      let method ← readU16 localHeader 8
      if flags % 2 ≠ 0 ∨ method ≠ index.method then
        .error ((TabularkError.new .parseFailed
          "XLSX local header does not match its central entry").withDetail
          "entry" (.text index.name))
      else do
        let nameLength ← readU16 localHeader 26
        let extraLength ← readU16 localHeader 28
        let afterHeader ← checkedAdd u64Max index.localHeaderOffset 30 zipOverflow
        let afterName ← checkedAdd u64Max afterHeader nameLength zipOverflow
        let dataOffset ← checkedAdd u64Max afterName extraLength zipOverflow
        HostRange.new dataOffset index.compressedSize sourceLength

/-- An entry with data of the length that the directory names. -/
def new (index : ZipEntryIndex) (compressed : List UInt8) : Result RawZipEntry :=
  if compressed.length ≠ index.compressedSize then
    .error (.new .parseFailed
      "XLSX compressed entry length does not match its directory entry")
  else .ok ⟨index, compressed⟩

end RawZipEntry

/-- The data of an entry lies in the source behind its header, as long as the directory says. -/
theorem RawZipEntry.dataRange_eq_ok {index : ZipEntryIndex} {localHeader : List UInt8}
    {sourceLength : ℕ} {r : HostRange}
    (h : RawZipEntry.dataRange index localHeader sourceLength = .ok r) :
    index.localHeaderOffset ≤ r.offset ∧ r.length = index.compressedSize ∧
      r.stop ≤ sourceLength := by
  rw [dataRange] at h
  split_ifs at h
  obtain ⟨signature, _, h⟩ := Result.bind_eq_ok.1 h
  split_ifs at h
  obtain ⟨flags, _, h⟩ := Result.bind_eq_ok.1 h
  obtain ⟨method, _, h⟩ := Result.bind_eq_ok.1 h
  split_ifs at h
  obtain ⟨nameLength, _, h⟩ := Result.bind_eq_ok.1 h
  obtain ⟨extraLength, _, h⟩ := Result.bind_eq_ok.1 h
  obtain ⟨afterHeader, hheader, h⟩ := Result.bind_eq_ok.1 h
  obtain ⟨afterName, hname, h⟩ := Result.bind_eq_ok.1 h
  obtain ⟨dataOffset, hoffset, h⟩ := Result.bind_eq_ok.1 h
  obtain ⟨_, rfl⟩ := checkedAdd_eq_ok.1 hheader
  obtain ⟨_, rfl⟩ := checkedAdd_eq_ok.1 hname
  obtain ⟨_, rfl⟩ := checkedAdd_eq_ok.1 hoffset
  obtain ⟨hstart, hlength, hstop⟩ := HostRange.new_eq_ok h
  exact ⟨by omega, hlength, hstop⟩

/-! ## Fetching -/

/-- The first gap of a range that is not all retained. -/
def IndexedRanges.needed (indexed : IndexedRanges) (range : HostRange) (message : String) :
    Result (HostRange ⊕ RawZipEntry) := do
  let missing ← indexed.firstMissing range
  match missing with
  | some gap => .ok (.inl gap)
  | none => .error (.new .runtimeFailure message)

/-- One entry, or the range to read for it. -/
def IndexedRanges.fetchEntry (indexed : IndexedRanges) (entry : ZipEntryIndex) :
    Result (HostRange ⊕ RawZipEntry) := do
  let headerRange ← RawZipEntry.headerRange entry indexed.sourceLength
  match indexed.bytes headerRange with
  | none => indexed.needed headerRange "XLSX local header is indexed but unavailable"
  | some header => do
    let dataRange ← RawZipEntry.dataRange entry header indexed.sourceLength
    match indexed.bytes dataRange with
    | none => indexed.needed dataRange "XLSX entry data is indexed but unavailable"
    | some data => do
      let raw ← RawZipEntry.new entry data
      .ok (.inr raw)

/-- The paths still to fetch and the entries fetched so far. -/
structure EntryFetch where
  paths : List String
  entries : List RawZipEntry
  deriving DecidableEq, Repr

/-- Fetches entries in the order of their paths, up to the first that needs a range; paths that
    are loaded already are skipped. -/
def advanceEntryFetch (indexed : IndexedRanges) (index : ZipDirectoryIndex) :
    List String → List RawZipEntry → Result (Option HostRange × EntryFetch)
  | [], entries => .ok (none, ⟨[], entries⟩)
  | path :: paths, entries =>
    if entries.any fun entry => entry.name = path then
      advanceEntryFetch indexed index paths entries
    else
      match index.entry path with
      | none =>
        .error ((TabularkError.new .parseFailed
          "XLSX required ZIP entry is missing").withDetail "entry" (.text path))
      | some entry => do
        let fetched ← indexed.fetchEntry entry
        match fetched with
        | .inl gap => .ok (some gap, ⟨path :: paths, entries⟩)
        | .inr raw => advanceEntryFetch indexed index paths (entries ++ [raw])

/-- Goes on fetching. -/
def EntryFetch.advance (f : EntryFetch) (indexed : IndexedRanges) (index : ZipDirectoryIndex) :
    Result (Option HostRange × EntryFetch) := advanceEntryFetch indexed index f.paths f.entries

/-! ## More retained ranges -/

namespace IndexedRanges

variable {ix jx : IndexedRanges} {source : HostSource}

/-- All that is retained in `ix` is retained in `jx`. -/
def Within (ix jx : IndexedRanges) : Prop := ∀ i, ix.Covers i → jx.Covers i

/-- The first gap shrinks, as long as part of it is left. -/
theorem FirstGap.length_le {r gap gap' : HostRange} (h : ix.FirstGap r gap)
    (h' : jx.FirstGap r gap') (hsub : ix.Within jx)
    (hleft : ¬∀ i, gap.Contains i → jx.Covers i) : gap'.length ≤ gap.length := by
  push Not at hleft
  obtain ⟨i, ⟨hi, hlt⟩, hnot⟩ := hleft
  have hpos := gap'.pos
  have hoffset := h.offset_le
  have hstart : gap.offset ≤ gap'.offset := by
    by_contra hlt'
    refine h'.misses gap'.offset ⟨le_rfl, by rw [HostRange.stop]; omega⟩ (hsub _ ?_)
    exact h.before _ h'.offset_le (not_le.1 hlt')
  have hle : gap'.offset ≤ i := by
    by_contra hlt'
    exact hnot (h'.before i (by omega) (not_le.1 hlt'))
  have hend : gap'.stop ≤ gap.stop := by
    rcases h.after with heq | hcovers
    · exact heq ▸ h'.stop_le
    · by_contra hlt'
      exact h'.misses gap.stop ⟨by omega, not_le.1 hlt'⟩ (hsub _ hcovers)
  rw [HostRange.stop, HostRange.stop] at hend
  omega

/-- What is needed of a range that is not all retained. -/
theorem Holds.needed_eq (h : ix.Holds source) {r : HostRange} (hr : r.stop ≤ source.bytes.length)
    {message : String} {fetched : HostRange ⊕ RawZipEntry}
    (hok : ix.needed r message = .ok fetched) :
    ∃ gap, fetched = .inl gap ∧ ix.FirstGap r gap := by
  rw [needed] at hok
  rcases h.firstMissing_eq hr with ⟨hnone, _⟩ | ⟨gap, hgap, hfirst⟩
  · rw [hnone] at hok
    cases hok
  · rw [hgap] at hok
    cases hok
    exact ⟨gap, rfl, hfirst⟩

/-- With more retained, what is needed of a range is no longer. -/
theorem Holds.needed_mono (hj : jx.Holds source) {r : HostRange}
    (hr : r.stop ≤ source.bytes.length) {gap : HostRange} (hgap : ix.FirstGap r gap)
    (hsub : ix.Within jx) (hleft : ¬∀ i, gap.Contains i → jx.Covers i) (message : String) :
    jx.bytes r = none ∧ ∃ gap', jx.needed r message = .ok (.inl gap') ∧ jx.FirstGap r gap' ∧
      gap'.length ≤ gap.length := by
  have hnot : ¬∀ i, r.Contains i → jx.Covers i := fun hall => hleft fun i hi =>
    hall i ⟨hgap.offset_le.trans hi.1, hi.2.trans_le hgap.stop_le⟩
  refine ⟨?_, ?_⟩
  · cases hbytes : jx.bytes r with
    | none => rfl
    | some b => exact absurd (hj.covers_of_bytes hbytes).1 hnot
  · rcases hj.firstMissing_eq hr with ⟨_, hall⟩ | ⟨gap', hgap', hfirst⟩
    · exact absurd hall hnot
    · refine ⟨gap', ?_, hfirst, hgap.length_le hfirst hsub hleft⟩
      rw [needed, hgap']
      rfl

/-- Bytes that are retained stay. -/
theorem Holds.bytes_mono (hi : ix.Holds source) (hj : jx.Holds source) (hsub : ix.Within jx)
    {r : HostRange} {b : List UInt8} (h : ix.bytes r = some b) : jx.bytes r = some b := by
  obtain ⟨hcovers, rfl⟩ := hi.covers_of_bytes h
  exact hj.bytes_of_covers fun i hi => hsub i (hcovers i hi)

/-- A gap that keeps an entry from being fetched: it is the first of some range, and while part
    of it is left, a gap no longer than it is. -/
structure Lacks (ix : IndexedRanges) (source : HostSource) (entry : ZipEntryIndex)
    (gap : HostRange) : Prop where
  stop_le : gap.stop ≤ source.bytes.length
  misses : ix.Misses gap
  mono : ∀ jx, jx.Holds source → ix.Within jx → (¬∀ i, gap.Contains i → jx.Covers i) →
    ∃ gap', jx.fetchEntry entry = .ok (.inl gap') ∧ gap'.length ≤ gap.length

/-- An entry that is fetched is fetched from more retained ranges, too. -/
theorem Holds.fetchEntry_mono (hi : ix.Holds source) {entry : ZipEntryIndex}
    {fetched : HostRange ⊕ RawZipEntry} (h : ix.fetchEntry entry = .ok fetched) :
    (∃ gap, fetched = .inl gap ∧ ix.Lacks source entry gap) ∨
      ∃ raw, fetched = .inr raw ∧ ∀ jx, jx.Holds source → ix.Within jx →
        jx.fetchEntry entry = .ok (.inr raw) := by
  obtain ⟨headerRange, hheader, h⟩ := Result.bind_eq_ok.1 h
  have hheaderStop := (HostRange.new_eq_ok hheader).2.2
  rw [hi.sourceLength] at hheader hheaderStop
  cases hbytes : ix.bytes headerRange with
  | none =>
    rw [hbytes] at h
    obtain ⟨gap, rfl, hgap⟩ := hi.needed_eq hheaderStop h
    refine .inl ⟨gap, rfl, hgap.stop_le.trans hheaderStop, hgap.misses, ?_⟩
    intro jx hj hsub hleft
    obtain ⟨hnone, gap', hneeded, _, hle⟩ := hj.needed_mono hheaderStop hgap hsub hleft _
    refine ⟨gap', ?_, hle⟩
    rw [fetchEntry, hj.sourceLength, hheader, Result.ok_bind, hnone]
    exact hneeded
  | some header =>
    rw [hbytes] at h
    obtain ⟨dataRange, hdata, h⟩ := Result.bind_eq_ok.1 h
    rw [hi.sourceLength] at hdata
    have hdataStop := (RawZipEntry.dataRange_eq_ok hdata).2.2
    have hfetch : ∀ jx : IndexedRanges, jx.Holds source → ix.Within jx →
        jx.fetchEntry entry = match jx.bytes dataRange with
          | none => jx.needed dataRange "XLSX entry data is indexed but unavailable"
          | some data => RawZipEntry.new entry data >>= fun raw => .ok (.inr raw) := by
      intro jx hj hsub
      rw [fetchEntry, hj.sourceLength, hheader, Result.ok_bind, hi.bytes_mono hj hsub hbytes]
      dsimp only
      rw [hdata]
      rfl
    cases hbytes' : ix.bytes dataRange with
    | none =>
      rw [hbytes'] at h
      obtain ⟨gap, rfl, hgap⟩ := hi.needed_eq hdataStop h
      refine .inl ⟨gap, rfl, hgap.stop_le.trans hdataStop, hgap.misses, ?_⟩
      intro jx hj hsub hleft
      obtain ⟨hnone, gap', hneeded, _, hle⟩ := hj.needed_mono hdataStop hgap hsub hleft
        "XLSX entry data is indexed but unavailable"
      refine ⟨gap', ?_, hle⟩
      rw [hfetch jx hj hsub, hnone]
      exact hneeded
    | some data =>
      rw [hbytes'] at h
      obtain ⟨raw, hraw, h⟩ := Result.bind_eq_ok.1 h
      cases h
      refine .inr ⟨raw, rfl, fun jx hj hsub => ?_⟩
      rw [hfetch jx hj hsub, hi.bytes_mono hj hsub hbytes']
      dsimp only
      rw [hraw]
      rfl

/-- What is needed of a range is its first gap. -/
theorem Holds.needed_of_firstGap (h : ix.Holds source) {r gap : HostRange}
    (hr : r.stop ≤ source.bytes.length) (hgap : ix.FirstGap r gap) (message : String) :
    ix.bytes r = none ∧ ix.needed r message = .ok (.inl gap) := by
  have hpos := gap.pos
  refine ⟨?_, by rw [needed, h.firstMissing_of_firstGap hr hgap]; rfl⟩
  cases hbytes : ix.bytes r with
  | none => rfl
  | some b =>
    have hstop : gap.offset < gap.stop := by
      rw [HostRange.stop]
      omega
    exact absurd ((h.covers_of_bytes hbytes).1 _ ⟨hgap.offset_le, hstop.trans_le hgap.stop_le⟩)
      (hgap.misses _ ⟨le_rfl, hstop⟩)

variable {entry : ZipEntryIndex} {r d gap : HostRange}

/-- An entry whose header has a gap needs the gap. -/
theorem Holds.fetchEntry_of_headerGap (h : ix.Holds source)
    (hheader : RawZipEntry.headerRange entry source.bytes.length = .ok r)
    (hgap : ix.FirstGap r gap) : ix.fetchEntry entry = .ok (.inl gap) := by
  obtain ⟨hnone, hneeded⟩ := h.needed_of_firstGap (HostRange.new_eq_ok hheader).2.2 hgap
    "XLSX local header is indexed but unavailable"
  rw [fetchEntry, h.sourceLength, hheader, Result.ok_bind, hnone]
  exact hneeded

/-- An entry whose data has a gap needs the gap. -/
theorem Holds.fetchEntry_of_dataGap (h : ix.Holds source)
    (hheader : RawZipEntry.headerRange entry source.bytes.length = .ok r)
    (hcovers : ∀ i, r.Contains i → ix.Covers i)
    (hdata : RawZipEntry.dataRange entry (source.slice r) source.bytes.length = .ok d)
    (hgap : ix.FirstGap d gap) : ix.fetchEntry entry = .ok (.inl gap) := by
  obtain ⟨hnone, hneeded⟩ := h.needed_of_firstGap (RawZipEntry.dataRange_eq_ok hdata).2.2 hgap
    "XLSX entry data is indexed but unavailable"
  rw [fetchEntry, h.sourceLength, hheader, Result.ok_bind, h.bytes_of_covers hcovers]
  dsimp only
  rw [hdata, Result.ok_bind, hnone]
  exact hneeded

/-- An entry whose header and data are retained is there. -/
theorem Holds.fetchEntry_of_covers (h : ix.Holds source)
    (hheader : RawZipEntry.headerRange entry source.bytes.length = .ok r)
    (hcovers : ∀ i, r.Contains i → ix.Covers i)
    (hdata : RawZipEntry.dataRange entry (source.slice r) source.bytes.length = .ok d)
    (hcovers' : ∀ i, d.Contains i → ix.Covers i) (hlength : d.length = entry.compressedSize) :
    ix.fetchEntry entry = .ok (.inr ⟨entry, source.slice d⟩) := by
  have hslice := HostSource.length_slice (RawZipEntry.dataRange_eq_ok hdata).2.2
  rw [fetchEntry, h.sourceLength, hheader, Result.ok_bind, h.bytes_of_covers hcovers]
  dsimp only
  rw [hdata, Result.ok_bind, h.bytes_of_covers hcovers']
  dsimp only
  rw [RawZipEntry.new, if_neg (not_not.2 (hslice.trans hlength))]
  rfl

end IndexedRanges

namespace EntryFetch

variable {ix jx : IndexedRanges} {source : HostSource} {index : ZipDirectoryIndex}

/-- The gap that a fetch stops at: more retained ranges take any fetch that comes to it there,
    and while part of the gap is left, they stop there, too. -/
structure StopsAt (f : EntryFetch) (ix : IndexedRanges) (source : HostSource)
    (index : ZipDirectoryIndex) (gap : HostRange) : Prop where
  stop_le : gap.stop ≤ source.bytes.length
  misses : ix.Misses gap
  mono : ∀ jx, jx.Holds source → ix.Within jx → (¬∀ i, gap.Contains i → jx.Covers i) →
    ∃ gap', f.advance jx index = .ok (some gap', f) ∧ gap'.length ≤ gap.length

/-- More retained ranges let a fetch go on where it was. -/
theorem advance_mono (hi : ix.Holds source) {f f' : EntryFetch} {needed : Option HostRange}
    (h : f.advance ix index = .ok (needed, f')) :
    (needed = none → ∀ jx, jx.Holds source → ix.Within jx →
        f.advance jx index = .ok (none, f')) ∧
      ∀ gap, needed = some gap → f'.StopsAt ix source index gap ∧ ∀ jx, jx.Holds source →
        ix.Within jx → f.advance jx index = f'.advance jx index := by
  obtain ⟨paths, entries⟩ := f
  rw [advance] at h
  dsimp only at h
  induction paths generalizing entries with
  | nil =>
    cases h
    exact ⟨fun _ _ _ _ => rfl, nofun⟩
  | cons path paths ih =>
    rw [advanceEntryFetch] at h
    by_cases hloaded : (entries.any fun entry => entry.name = path) = true
    · rw [if_pos hloaded] at h
      have hskip : ∀ jx : IndexedRanges, EntryFetch.advance ⟨path :: paths, entries⟩ jx index =
          EntryFetch.advance ⟨paths, entries⟩ jx index := by
        intro jx
        rw [advance, advanceEntryFetch, if_pos hloaded]
        rfl
      simp only [hskip]
      exact ih entries h
    · rw [if_neg hloaded] at h
      cases hentry : index.entry path with
      | none =>
        rw [hentry] at h
        cases h
      | some entry =>
        rw [hentry] at h
        obtain ⟨fetched, hfetched, h⟩ := Result.bind_eq_ok.1 h
        rcases hi.fetchEntry_mono hfetched with ⟨gap, rfl, hgap⟩ | ⟨raw, rfl, hraw⟩
        · cases h
          refine ⟨nofun, fun gap' hgap' => ?_⟩
          cases hgap'
          refine ⟨⟨hgap.stop_le, hgap.misses, fun jx hj hsub hleft => ?_⟩, fun _ _ _ => rfl⟩
          obtain ⟨gap', hfetched', hle⟩ := hgap.mono jx hj hsub hleft
          refine ⟨gap', ?_, hle⟩
          rw [advance, advanceEntryFetch, if_neg hloaded, hentry]
          dsimp only
          rw [hfetched']
          rfl
        · have hnext : ∀ jx : IndexedRanges, jx.Holds source → ix.Within jx →
              EntryFetch.advance ⟨path :: paths, entries⟩ jx index =
                EntryFetch.advance ⟨paths, entries ++ [raw]⟩ jx index := by
            intro jx hj hsub
            rw [advance, advanceEntryFetch, if_neg hloaded, hentry]
            dsimp only
            rw [hraw jx hj hsub]
            rfl
          obtain ⟨hnone, hsome⟩ := ih (entries ++ [raw]) h
          refine ⟨fun heq jx hj hsub => ?_, fun gap heq =>
            ⟨(hsome gap heq).1, fun jx hj hsub => ?_⟩⟩
          · rw [hnext jx hj hsub]
            exact hnone heq jx hj hsub
          · rw [hnext jx hj hsub]
            exact (hsome gap heq).2 jx hj hsub

end EntryFetch

end Tabulark.Excel
