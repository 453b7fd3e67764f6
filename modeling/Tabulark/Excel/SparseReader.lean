import Tabulark.Excel.Ranges

/-!
# The sparse reader

A compound file is parsed through a reader over the retained ranges. A read that
finds nothing retained asks for a window of the source, one chunk from its
position on; the open loop retains it and parses again. `sparse_progress_iff`
says when that goes through: no window may reach a range that is retained
already.
-/

namespace Tabulark.Excel

open OrderedMap Segments

/-- The bytes that a sparse reader asks for at once. -/
def rangeChunkBytes : ℕ := 1024 * 1024

/-! ## Reading -/

/-- What a read or a seek can fail with. -/
inductive IoError
  | missing (range : HostRange)
  | invalidInput (message : String)
  | other (message : String)

/-- A reader over the retained ranges. -/
structure SparseReader where
  indexed : IndexedRanges
  position : ℕ := 0
  chunkBytes : ℕ := rangeChunkBytes

/-- A reader at the start of the source. -/
def IndexedRanges.reader (ix : IndexedRanges) : SparseReader := { indexed := ix }

/-- A target of a seek. -/
inductive SeekFrom
  | start (value : ℕ)
  | fromEnd (delta : ℤ)
  | current (delta : ℤ)

/-- An offset moved by a signed number of bytes. -/
def checkedSignedOffset (base : ℕ) (delta : ℤ) : Except IoError ℕ :=
  if 0 ≤ delta then
    if base + delta.toNat ≤ u64Max then .ok (base + delta.toNat)
    else .error (.invalidInput "Excel seek offset overflows")
  else if delta.natAbs ≤ base then .ok (base - delta.natAbs)
  else .error (.invalidInput "Excel seek offset overflows")

namespace SparseReader

/-- Copies from a segment that has the position. -/
def copy (r : SparseReader) (segment : Segment UInt8) (target : ℕ) :
    Except IoError (List UInt8 × SparseReader) :=
  let relative := r.position - segment.1
  let count := min (min target (segment.2.length - relative))
    (r.indexed.sourceLength - r.position)
  if r.position + count ≤ u64Max then
    .ok ((segment.2.drop relative).take count, { r with position := r.position + count })
  else .error (.other "sparse reader position overflows")

/-- Asks for the chunk from the position on. -/
def missing (r : SparseReader) : IoError :=
  let requested := min r.chunkBytes (r.indexed.sourceLength - r.position)
  match HostRange.new r.position requested r.indexed.sourceLength with
  | .ok range => .missing range
  | .error e => .invalidInput e.message

/-- Reads into a buffer of the given size. -/
def read (r : SparseReader) (target : ℕ) : Except IoError (List UInt8 × SparseReader) :=
  if target = 0 ∨ r.position = r.indexed.sourceLength then .ok ([], r)
  else if r.indexed.sourceLength < r.position then
    .error (.invalidInput "sparse Excel reader is past EOF")
  else
    match lastLE r.indexed.ranges r.position with
    | some segment =>
      if r.position - segment.1 < segment.2.length then r.copy segment target
      else .error r.missing
    | none => .error r.missing

/-- The offset that a seek goes to. -/
def seekOffset (r : SparseReader) : SeekFrom → Except IoError ℕ
  | .start value => .ok value
  | .fromEnd delta => checkedSignedOffset r.indexed.sourceLength delta
  | .current delta => checkedSignedOffset r.position delta

/-- Moves to another position. -/
def seek (r : SparseReader) (position : SeekFrom) : Except IoError (ℕ × SparseReader) := do
  let next ← r.seekOffset position
  if r.indexed.sourceLength < next then
    .error (.invalidInput "sparse Excel seek lies outside the source")
  else .ok (next, { r with position := next })

end SparseReader

/-! ## Parsing -/

/-- A parser of the source: what it does next depends on what it was given so far. -/
inductive Parser (α : Type)
  | done (result : α)
  | seek (position : SeekFrom) (next : Except IoError ℕ → Parser α)
  | read (target : ℕ) (next : Except IoError (List UInt8) → Parser α)

/-- Runs a parser up to its result, or to the reader whose read misses a range. -/
def Parser.run {α : Type} : Parser α → SparseReader → Except (SparseReader × HostRange) α
  | .done result, _ => .ok result
  | .seek position next, r =>
    match r.seek position with
    | .ok (offset, r) => (next (.ok offset)).run r
    | .error e => (next (.error e)).run r
  | .read target next, r =>
    match r.read target with
    | .ok (bytes, r) => (next (.ok bytes)).run r
    | .error (.missing range) => .error (r, range)
    | .error e => (next (.error e)).run r

namespace SparseReader

variable {source : HostSource} {r r' : SparseReader}

/-- A read that misses asks for the chunk from its position on, which is not retained. -/
structure MissesAt (r : SparseReader) (range : HostRange) : Prop where
  offset : range.offset = r.position
  length : range.length = min r.chunkBytes (r.indexed.sourceLength - r.position)
  stop_le : range.stop ≤ r.indexed.sourceLength
  not_covers : ¬r.indexed.Covers r.position

theorem missing_eq {range : HostRange} (h : r.missing = .missing range) :
    range.offset = r.position ∧
      range.length = min r.chunkBytes (r.indexed.sourceLength - r.position) ∧
      range.stop ≤ r.indexed.sourceLength := by
  rw [missing] at h
  cases hnew : HostRange.new r.position (min r.chunkBytes
      (r.indexed.sourceLength - r.position)) r.indexed.sourceLength with
  | error e =>
    rw [hnew] at h
    cases h
  | ok range' =>
    rw [hnew] at h
    cases h
    exact HostRange.new_eq_ok hnew

variable {target : ℕ}

theorem missesAt_of_read (hholds : r.indexed.Holds source) {range : HostRange}
    (h : r.read target = .error (.missing range)) : r.MissesAt range := by
  rw [read] at h
  split_ifs at h with hnone hpast
  · cases h
  cases hlast : lastLE r.indexed.ranges r.position with
  | none =>
    rw [hlast] at h
    obtain ⟨hoffset, hlength, hstop⟩ := missing_eq (Except.error.inj h)
    refine ⟨hoffset, hlength, hstop, ?_⟩
    rintro ⟨s, hs, hle, -⟩
    exact lastOf_eq_none hlast hs hle
  | some segment =>
    rw [hlast] at h
    obtain ⟨hs, hle, _⟩ := lastOf_eq_some hholds.separate.ordered hlast
    dsimp only at h
    split_ifs at h with hlt
    · rw [copy] at h
      split_ifs at h
      cases h
    · obtain ⟨hoffset, hlength, hstop⟩ := missing_eq (Except.error.inj h)
      refine ⟨hoffset, hlength, hstop, fun hcovers => ?_⟩
      obtain ⟨t, hlast', hlt'⟩ := hholds.separate.covers_iff.1 hcovers
      rw [hlast] at hlast'
      cases hlast'
      rw [stop] at hlt'
      omega

/-- A read at a retained position returns bytes of the source. -/
theorem read_of_covers (hholds : r.indexed.Holds source) (hcovers : r.indexed.Covers r.position)
    (htarget : 0 < target) :
    ∃ bytes r', r.read target = .ok (bytes, r') ∧ bytes ≠ [] ∧
      bytes <+: source.bytes.drop r.position := by
  have hlt := hholds.separate.lt_length_of_covers hcovers
  have hlength := hholds.sourceLength
  obtain ⟨s, hlast, hstop⟩ := hholds.separate.covers_iff.1 hcovers
  obtain ⟨hs, hle, _⟩ := lastOf_eq_some hholds.separate.ordered hlast
  rw [stop] at hstop
  rw [read, if_neg (by omega), if_neg (by omega), hlast]
  dsimp only
  rw [if_pos (by omega), copy,
    if_pos (IndexedRanges.u64_of_le (by omega : _ ≤ source.bytes.length))]
  refine ⟨_, _, rfl, ?_, ?_⟩
  · rw [← List.length_pos_iff, List.length_take, List.length_drop]
    omega
  · rw [hholds.separate.read_eq hs hle (by rw [stop]; omega)]
    exact List.take_prefix _ _

theorem indexed_of_read {bytes : List UInt8} (h : r.read target = .ok (bytes, r')) :
    r'.indexed = r.indexed ∧ r'.chunkBytes = r.chunkBytes := by
  rw [read] at h
  split_ifs at h with hnone hpast
  · cases h
    exact ⟨rfl, rfl⟩
  · cases hlast : lastLE r.indexed.ranges r.position with
    | none =>
      rw [hlast] at h
      cases h
    | some segment =>
      rw [hlast] at h
      dsimp only at h
      split_ifs at h with hlt
      rw [copy] at h
      split_ifs at h
      cases h
      exact ⟨rfl, rfl⟩

theorem indexed_of_seek {position : SeekFrom} {offset : ℕ}
    (h : r.seek position = .ok (offset, r')) :
    r'.indexed = r.indexed ∧ r'.chunkBytes = r.chunkBytes := by
  obtain ⟨next, _, h⟩ := Result.bind_eq_ok.1 h
  split_ifs at h
  cases h
  exact ⟨rfl, rfl⟩

end SparseReader

variable {range : HostRange}

/-- Every miss of a parse is the miss of one of its reads. -/
theorem Parser.missesAt_of_run {α : Type} {source : HostSource} (parser : Parser α)
    {r r' : SparseReader} (hholds : r.indexed.Holds source)
    (h : parser.run r = .error (r', range)) :
    r'.indexed = r.indexed ∧ r'.chunkBytes = r.chunkBytes ∧ r'.MissesAt range := by
  induction parser generalizing r with
  | done result => cases h
  | seek position next ih =>
    rw [run] at h
    cases hseek : r.seek position with
    | error e =>
      rw [hseek] at h
      exact ih _ hholds h
    | ok moved =>
      rw [hseek] at h
      obtain ⟨hindexed, hchunk⟩ := SparseReader.indexed_of_seek hseek
      rw [← hindexed, ← hchunk]
      exact ih _ (hindexed ▸ hholds) h
  | read target next ih =>
    rw [run] at h
    cases hread : r.read target with
    | error e =>
      rw [hread] at h
      cases e with
      | missing range' =>
        cases h
        exact ⟨rfl, rfl, SparseReader.missesAt_of_read hholds hread⟩
      | invalidInput message => exact ih _ hholds h
      | other message => exact ih _ hholds h
    | ok moved =>
      rw [hread] at h
      obtain ⟨hindexed, hchunk⟩ := SparseReader.indexed_of_read hread
      rw [← hindexed, ← hchunk]
      exact ih _ (hindexed ▸ hholds) h

/-! ## Progress -/

namespace IndexedRanges

variable {source : HostSource} {ix : IndexedRanges}

/-- Nothing is retained that starts less than a chunk after a position. -/
def Clear (ix : IndexedRanges) (position : ℕ) : Prop :=
  ∀ s ∈ ix.ranges, ¬(position < s.1 ∧ s.1 < position + rangeChunkBytes)

/-- The chunk that a read asks for is new if and only if it reaches no retained range. -/
theorem Holds.misses_iff (hholds : ix.Holds source) {r : SparseReader}
    (hindexed : r.indexed = ix) (hchunk : r.chunkBytes = rangeChunkBytes)
    (h : r.MissesAt range) : ix.Misses range ↔ ix.Clear r.position := by
  obtain ⟨hoffset, hlength, hstop, hnot⟩ := h
  rw [hindexed] at hlength hstop hnot
  rw [hchunk] at hlength
  rw [HostRange.stop] at hstop
  constructor
  · rintro hmisses s hs ⟨hlt, hlt'⟩
    have hend := hholds.separate.stop_le hs
    have hstart := hholds.separate.start_lt_stop hs
    have hsource := hholds.sourceLength
    refine hmisses s.1 ⟨by omega, ?_⟩ ⟨s, hs, le_rfl, hstart⟩
    rw [HostRange.stop, hlength]
    omega
  · rintro hclear i ⟨hi, hlt⟩ ⟨s, hs, hle, hlt'⟩
    rw [HostRange.stop] at hlt
    by_cases hsp : s.1 ≤ r.position
    · exact hnot ⟨s, hs, hsp, by omega⟩
    · exact hclear s hs ⟨by omega, by omega⟩

/-- A miss is answered, with something new, if and only if its chunk is new. -/
theorem Holds.insert_iff_clear (hholds : ix.Holds source) {r : SparseReader}
    (hindexed : r.indexed = ix) (hchunk : r.chunkBytes = rangeChunkBytes)
    (h : r.MissesAt range) :
    (∃ ix', ix.insert range (source.slice range) = .ok ix') ↔ ix.Clear r.position := by
  have hpos := range.pos
  rw [hholds.insert_eq_ok (by rw [← hholds.sourceLength, ← hindexed]; exact h.stop_le),
    hholds.misses_iff hindexed hchunk h]
  refine or_iff_left fun hmem => ?_
  rw [← hindexed] at hmem
  refine h.not_covers ⟨_, hmem, h.offset.le, ?_⟩
  rw [stop, HostSource.length_slice (by
    rw [← hholds.sourceLength, ← hindexed]
    exact h.stop_le), ← h.offset]
  omega

end IndexedRanges

/-! ## Histories -/

/-- Reads at a position return bytes of the source. -/
def IndexedRanges.ReadsBack (ix : IndexedRanges) (source : HostSource) (position : ℕ) : Prop :=
  ∀ target, 0 < target → ∃ bytes r',
    (⟨ix, position, rangeChunkBytes⟩ : SparseReader).read target = .ok (bytes, r') ∧
      bytes ≠ [] ∧ bytes <+: source.bytes.drop position

variable {α : Type} (source : HostSource)

/-- Along a history, a parse after the other, every miss asks for something new, its answer
    is retained, and reads at the positions asked before return bytes of the source. -/
def Progresses : List ℕ → IndexedRanges → List (Parser α) → Prop
  | asked, ix, [] => ∀ position ∈ asked, ix.ReadsBack source position
  | asked, ix, parser :: more =>
    (∀ position ∈ asked, ix.ReadsBack source position) ∧
      match parser.run ix.reader with
      | .ok _ => Progresses asked ix more
      | .error (r, range) => ix.Misses range ∧
          ∃ ix', ix.insert range (source.slice range) = .ok ix' ∧
            ix.retainedBytes < ix'.retainedBytes ∧ Progresses (r.position :: asked) ix' more

/-- Along a history, no miss comes less than a chunk before a retained range. -/
def Clears : IndexedRanges → List (Parser α) → Prop
  | _, [] => True
  | ix, parser :: more =>
    match parser.run ix.reader with
    | .ok _ => Clears ix more
    | .error (r, range) => ix.Clear r.position ∧
        ∀ ix', ix.insert range (source.slice range) = .ok ix' → Clears ix' more

/-- The open loop: a parse that misses a range is run again when the host has answered. -/
def compactRounds (parser : Parser α) : ℕ → IndexedRanges → Option (Result α)
  | 0, _ => none
  | rounds + 1, ix =>
    match parser.run ix.reader with
    | .ok result => some (.ok result)
    | .error (_, range) =>
      match applyIndexedResults [range] ix [source.answer 0 range] with
      | .ok ix' => compactRounds parser rounds ix'
      | .error e => some (.error e)

variable {source}

namespace IndexedRanges

variable {ix : IndexedRanges}

theorem Holds.readsBack (hholds : ix.Holds source) {position : ℕ} (h : ix.Covers position) :
    ix.ReadsBack source position := fun target htarget =>
  @SparseReader.read_of_covers source ⟨ix, position, rangeChunkBytes⟩ target hholds h htarget

variable {parser : Parser α}

/-- A miss less than a chunk before no retained range is answered, and adds something. -/
theorem Holds.progress (hholds : ix.Holds source) {r : SparseReader}
    (hrun : parser.run ix.reader = .error (r, range))
    (hclear : ix.Clear r.position) :
    ix.Misses range ∧ ∃ ix', ix.insert range (source.slice range) = .ok ix' ∧ ix'.Holds source ∧
      ix.retainedBytes < ix'.retainedBytes ∧ ix'.Covers r.position ∧
      ∀ i, ix.Covers i → ix'.Covers i := by
  obtain ⟨hindexed, hchunk, hmiss⟩ := parser.missesAt_of_run (r := ix.reader) hholds hrun
  have hmisses := (hholds.misses_iff hindexed hchunk hmiss).2 hclear
  have hpos := range.pos
  have hstop := hmiss.stop_le
  rw [hindexed] at hstop
  obtain ⟨ix', hinsert, hholds', hretained, hcovers⟩ := hholds.insert_of_misses
    (hholds.sourceLength ▸ hstop) hmisses
  refine ⟨hmisses, ix', hinsert, hholds', by omega, (hcovers _).2 (.inr ⟨hmiss.offset.le, ?_⟩),
    fun i hi => (hcovers i).2 (.inl hi)⟩
  rw [HostRange.stop, ← hmiss.offset]
  omega

/-- A miss that is answered came less than a chunk before no retained range. -/
theorem Holds.clear_of_insert (hholds : ix.Holds source) {r : SparseReader}
    (hrun : parser.run ix.reader = .error (r, range)) {ix' : IndexedRanges}
    (hinsert : ix.insert range (source.slice range) = .ok ix') : ix.Clear r.position := by
  obtain ⟨hindexed, hchunk, hmiss⟩ := parser.missesAt_of_run (r := ix.reader) hholds hrun
  exact (hholds.insert_iff_clear hindexed hchunk hmiss).1 ⟨ix', hinsert⟩

/-- A history makes progress if and only if its misses are clear of the retained ranges. -/
theorem Holds.progresses_iff (hholds : ix.Holds source) {asked : List ℕ}
    (hasked : ∀ position ∈ asked, ix.Covers position) (sessions : List (Parser α)) :
    Progresses source asked ix sessions ↔ Clears source ix sessions := by
  induction sessions generalizing ix asked with
  | nil =>
    exact iff_of_true (fun position h => hholds.readsBack (hasked position h)) trivial
  | cons parser more ih =>
    rw [Progresses, Clears]
    refine (and_iff_right fun position h => hholds.readsBack (hasked position h)).trans ?_
    cases hrun : parser.run ix.reader with
    | ok result => exact ih hholds hasked
    | error missed =>
      obtain ⟨r, range⟩ := missed
      dsimp only
      constructor
      · rintro ⟨_, ix', hinsert, _, hmore⟩
        have hclear := hholds.clear_of_insert hrun hinsert
        obtain ⟨_, ix'', hinsert', hholds', _, hnew, hold⟩ := hholds.progress hrun hclear
        rw [hinsert] at hinsert'
        cases hinsert'
        refine ⟨hclear, fun ix'' hinsert' => ?_⟩
        rw [hinsert] at hinsert'
        cases hinsert'
        exact (ih hholds' (List.forall_mem_cons.2 ⟨hnew, fun p h => hold p (hasked p h)⟩)).1 hmore
      · rintro ⟨hclear, hmore⟩
        obtain ⟨hmisses, ix', hinsert, hholds', hretained, hnew, hold⟩ :=
          hholds.progress hrun hclear
        exact ⟨hmisses, ix', hinsert, hretained,
          (ih hholds' (List.forall_mem_cons.2 ⟨hnew, fun p h => hold p (hasked p h)⟩)).2
            (hmore ix' hinsert)⟩

theorem clears_replicate_of_ok {result : α} (hrun : parser.run ix.reader = .ok result) (n : ℕ) :
    Clears source ix (List.replicate n parser) := by
  induction n with
  | zero => trivial
  | succ n ih =>
    rw [List.replicate_succ, Clears, hrun]
    exact ih

/-- Each round but the last retains something, so a source is read in as many rounds as it has
    bytes. -/
theorem Holds.compactRounds_of_clears {rounds : ℕ} (hholds : ix.Holds source)
    (hrounds : source.bytes.length < rounds + ix.retainedBytes)
    (hclears : ∀ n, Clears source ix (List.replicate n parser)) :
    ∃ result, compactRounds source parser rounds ix = some (.ok result) := by
  induction rounds generalizing ix with
  | zero =>
    have hle := hholds.retained_le
    omega
  | succ rounds ih =>
    rw [compactRounds]
    cases hrun : parser.run ix.reader with
    | ok result => exact ⟨result, rfl⟩
    | error missed =>
      obtain ⟨r, range⟩ := missed
      have hclear : ∀ n, ix.Clear r.position ∧ ∀ ix', ix.insert range (source.slice range) =
          .ok ix' → Clears source ix' (List.replicate n parser) := by
        intro n
        have hnext := hclears (n + 1)
        rw [List.replicate_succ, Clears, hrun] at hnext
        exact hnext
      obtain ⟨_, ix', hinsert, hholds', hretained, _⟩ := hholds.progress hrun (hclear 0).1
      dsimp only
      rw [hholds.applyIndexedResults_eq, hinsert]
      exact ih hholds' (by omega) fun n => (hclear n).2 ix' hinsert

theorem Holds.clears_of_compactRounds {rounds : ℕ} (hholds : ix.Holds source)
    {result : α} (h : compactRounds source parser rounds ix = some (.ok result)) (n : ℕ) :
    Clears source ix (List.replicate n parser) := by
  induction rounds generalizing ix n with
  | zero => cases h
  | succ rounds ih =>
    rw [compactRounds] at h
    cases hrun : parser.run ix.reader with
    | ok result' => exact clears_replicate_of_ok hrun n
    | error missed =>
      obtain ⟨r, range⟩ := missed
      rw [hrun] at h
      dsimp only at h
      rw [hholds.applyIndexedResults_eq] at h
      cases n with
      | zero => trivial
      | succ n =>
        rw [List.replicate_succ, Clears, hrun]
        cases hinsert : ix.insert range (source.slice range) with
        | error e =>
          rw [hinsert] at h
          cases h
        | ok ix' =>
          rw [hinsert] at h
          have hclear := hholds.clear_of_insert hrun hinsert
          obtain ⟨_, ix'', hinsert', hholds', _⟩ := hholds.progress hrun hclear
          rw [hinsert] at hinsert'
          cases hinsert'
          refine ⟨hclear, fun ix'' hinsert' => ?_⟩
          rw [hinsert] at hinsert'
          cases hinsert'
          exact ih hholds' h n

end IndexedRanges

/-- Sparse indexing makes progress, and the open loop ends, if and only if no read misses less
    than a chunk before a range that is retained already. -/
theorem sparse_progress_iff {ix : IndexedRanges} (hholds : ix.Holds source) :
    (∀ sessions : List (Parser α), Progresses source [] ix sessions ↔ Clears source ix sessions) ∧
      ∀ parser : Parser α,
        (∃ result, compactRounds source parser (source.bytes.length + 1) ix = some (.ok result)) ↔
          ∀ n, Clears source ix (List.replicate n parser) :=
  ⟨fun sessions => hholds.progresses_iff (List.forall_mem_nil _) sessions, fun _ =>
    ⟨fun ⟨_, h⟩ => hholds.clears_of_compactRounds h,
      fun h => hholds.compactRounds_of_clears (by omega) h⟩⟩

/-- A source of seventeen bytes. -/
def seventeen : HostSource := ⟨List.range 17 |>.map UInt8.ofNat, by decide⟩

/-- A parser that reads at an offset. -/
def readAt (offset : ℕ) (next : Parser Unit) : Parser Unit :=
  .seek (.start offset) fun _ => .read 4 fun _ => next

/-- From the front to the back, every read goes through. -/
theorem sparse_progress_iff_forwards :
    Progresses seventeen [] (.new 17) [readAt 8 (.done ()), readAt 16 (.done ())] ∧
      ∃ result, compactRounds seventeen (readAt 8 (readAt 16 (.done ()))) 18 (.new 17) =
        some (.ok result) := by
  have hiff := @sparse_progress_iff Unit seventeen (.new 17) (IndexedRanges.holds_new seventeen)
  have hstep : ∀ next more, (∀ ix', ix' = ⟨17, [(8, seventeen.bytes.drop 8)], 9⟩ →
      Clears seventeen ix' more) → Clears seventeen (.new 17) (readAt 8 next :: more) := by
    intro next more hmore
    refine ⟨fun s hs => absurd hs List.not_mem_nil, fun ix' h => hmore ix' ?_⟩
    exact (Except.ok.inj h).symm
  refine ⟨(hiff.1 _).2 (hstep _ _ ?_), (hiff.2 _).2 fun n => ?_⟩
  · rintro ix' rfl
    trivial
  · cases n with
    | zero => trivial
    | succ n =>
      refine hstep _ _ ?_
      rintro ix' rfl
      exact IndexedRanges.clears_replicate_of_ok rfl n

/-- From the back to the front, the second window reaches the first one: its answer is refused,
    and the open loop fails. -/
theorem not_progresses_backwards :
    (IndexedRanges.new 17).Holds seventeen ∧
      ¬Progresses seventeen [] (.new 17) [readAt 16 (.done ()), readAt 8 (.done ())] ∧
      compactRounds seventeen (readAt 16 (readAt 8 (.done ()))) 18 (.new 17) =
        some (.error overlapsIndexed) := by
  refine ⟨IndexedRanges.holds_new seventeen, fun h => ?_, rfl⟩
  obtain ⟨_, _, ix', hinsert, _, _, hnext⟩ := h
  obtain rfl : (⟨17, [(16, [16])], 1⟩ : IndexedRanges) = ix' := Except.ok.inj hinsert
  exact hnext.1 16 ⟨by decide, by decide⟩ (by decide)

end Tabulark.Excel
