import Tabulark.Error
import Tabulark.Lib.Ranges
import Tabulark.Lib.Tiles

/-!
# The sparse source cache

A Parquet reader keeps the parts of its source that it was given and asks for
the ones it misses. Small reads merge parts that touch; lazy reads keep them
apart and join them only for a request.
-/

namespace Tabulark.Parquet

open Segments

/-- An error of the Parquet reader. -/
inductive ParquetError
  | general (message : String)
  | eof (message : String)
  | nyi (message : String)
  | external (message : String)
  deriving DecidableEq, Repr

abbrev ParquetResult (α : Type) := Except ParquetError α

/-- One exact source range requested by an operation. -/
structure ParquetReadBytesAction where
  offset : ℕ
  length : ℕ
  deriving DecidableEq, Repr

/-- The checked end of a range. -/
def ParquetReadBytesAction.stop (a : ParquetReadBytesAction) : Result ℕ :=
  checkedAdd u64Max a.offset a.length
    (.new .resourceLimit "Parquet source byte action overflows u64")

/-- The parts of a source that are cached, and the range that is missing. The parts lie in the
    source, so that their ends are 64-bit integers. -/
structure SparseChunkReader where
  sourceLength : ℕ
  readPrefetchBytes : ℕ
  segments : List (Segment UInt8) := []
  missing : Option ParquetReadBytesAction := none
  coalesceAdjacent : Bool := true
  maxCacheBytes : Option ℕ := none

/-- The body of a page in the source. -/
structure PageBodyRange where
  offset : ℕ
  length : ℕ
  deriving DecidableEq, Repr

/-- What an insertion merges: the segments before, those that become one with the incoming bytes,
    and those after; and where the merged segment starts and ends. -/
structure MergeWindow where
  before : List (Segment UInt8)
  merged : List (Segment UInt8)
  after : List (Segment UInt8)
  start : ℕ
  stop : ℕ

/-- Bytes of a buffer replaced by others. -/
def overwrite (buffer : List UInt8) (start : ℕ) (bytes : List UInt8) : List UInt8 :=
  buffer.take start ++ bytes ++ buffer.drop (start + bytes.length)

namespace SparseChunkReader

def new (sourceLength readPrefetchBytes : ℕ) : SparseChunkReader :=
  { sourceLength, readPrefetchBytes }

/-- A reader over the same parts. A reader of single pages keeps its parts apart. -/
def fork (r : SparseChunkReader) (maxPageUncompressedBytes maxCacheBytes : Option ℕ) :
    SparseChunkReader :=
  { r with
    missing := none
    coalesceAdjacent := maxPageUncompressedBytes.isNone
    maxCacheBytes }

/-! ## Insertion -/

/-- Takes the segments that the window from `start` to `stop` reaches. -/
def absorb (coalesceAdjacent : Bool) (start stop : ℕ) :
    List (Segment UInt8) → (ℕ × ℕ) × List (Segment UInt8) × List (Segment UInt8)
  | [] => ((start, stop), [], [])
  | segment :: segments =>
    if stop < segment.1 ∨ (!coalesceAdjacent ∧ segment.1 = stop) then
      ((start, stop), [], segment :: segments)
    else
      let rest := absorb coalesceAdjacent (min start segment.1) (max stop (Segments.stop segment))
        segments
      (rest.1, segment :: rest.2.1, rest.2.2)

/-- What an insertion of the bytes from `offset` to `stop` merges. -/
def mergeWindow (r : SparseChunkReader) (offset stop : ℕ) : MergeWindow :=
  let before := r.segments.takeWhile fun segment => segment.1 < offset
  let after := r.segments.dropWhile fun segment => segment.1 < offset
  let first := match before.getLast? with
    | none => (before, after)
    | some previous =>
      if offset < Segments.stop previous ∨
          (r.coalesceAdjacent ∧ Segments.stop previous = offset) then
        (before.dropLast, previous :: after)
      else (before, after)
  let window := absorb r.coalesceAdjacent offset stop first.2
  { before := first.1
    merged := window.2.1
    after := window.2.2
    start := window.1.1
    stop := window.1.2 }

/-- The bytes of a merged segment. -/
def mergedBytes (w : MergeWindow) (mergedLength offset : ℕ) (bytes : List UInt8) : List UInt8 :=
  overwrite (w.merged.foldl (fun merged segment =>
    overwrite merged (segment.1 - w.start) segment.2) (List.replicate mergedLength 0))
    (offset - w.start) bytes

/-- Caches the bytes of a range. -/
def insert (r : SparseChunkReader) (action : ParquetReadBytesAction) (bytes : List UInt8) :
    Result SparseChunkReader := do
  let mismatch := (((TabularkError.new .invalidArgument
    "Parquet ingress bytes do not match the requested source range").withDetail
    "offset" (.number action.offset)).withDetail
    "expectedLength" (.number action.length)).withDetail
    "actualLength" (.number bytes.length)
  if bytes.length ≠ action.length then .error mismatch
  else do
    let stop ← action.stop
    if r.sourceLength < stop then .error mismatch
    else
      let w := r.mergeWindow action.offset stop
      if w.merged.isEmpty then
        .ok { r with segments := w.before ++ (action.offset, bytes) :: w.after }
      else do
        let mergedLength ← toUsize (w.stop - w.start)
          (.new .resourceLimit "Parquet merged source segment length overflows usize")
        .ok { r with segments :=
          w.before ++ (w.start, mergedBytes w mergedLength action.offset bytes) :: w.after }

/-- The bytes of the cached parts. -/
def retainedBytes (r : SparseChunkReader) : Result ℕ :=
  r.segments.foldlM (fun total segment => checkedAdd usizeMax total segment.2.length
    (.new .resourceLimit "Parquet sparse source byte accounting overflows")) 0

/-- The compressed bytes that are alive at most while an action is admitted. -/
def insertionPeakBytes (r : SparseChunkReader) (action : ParquetReadBytesAction) : Result ℕ := do
  let incoming ← toUsize action.length
    (.new .resourceLimit "Parquet ingress source segment length overflows usize")
  let stop ← action.stop
  if r.sourceLength < stop then
    .error (.new .invalidArgument "Parquet ingress source segment exceeds the source length")
  else do
    let retained ← r.retainedBytes
    let ingressPeak ← checkedAdd usizeMax retained incoming
      (.new .resourceLimit "Parquet ingress source byte accounting overflows")
    if !r.coalesceAdjacent then .ok ingressPeak
    else
      let w := r.mergeWindow action.offset stop
      if w.merged.isEmpty then .ok ingressPeak
      else do
        let merged ← toUsize (w.stop - w.start)
          (.new .resourceLimit "Parquet merged source segment length overflows usize")
        checkedAdd usizeMax ingressPeak merged
          (.new .resourceLimit "Parquet merged source byte peak accounting overflows")

/-- The bytes that `insert` has alive: those that are cached, those that come in, and those of the
    buffer it merges them in. -/
def liveBytes (r : SparseChunkReader) (action : ParquetReadBytesAction) : ℕ :=
  let w := r.mergeWindow action.offset (action.offset + action.length)
  (r.segments.map fun segment => segment.2.length).sum + action.length +
    if w.merged.isEmpty then 0 else w.stop - w.start

/-! ## Release -/

/-- The parts of a segment from `cursor` on that lie in no range. -/
def keepFrom (segment : Segment UInt8) : ℕ → List (ℕ × ℕ) → List (Segment UInt8)
  | cursor, [] =>
    if cursor < stop segment then [(cursor, segment.2.drop (cursor - segment.1))] else []
  | cursor, range :: ranges =>
    if stop segment ≤ range.1 then
      if cursor < stop segment then [(cursor, segment.2.drop (cursor - segment.1))] else []
    else if range.2 ≤ cursor then keepFrom segment cursor ranges
    else
      let keptEnd := min range.1 (stop segment)
      let kept := if cursor < keptEnd then
        [(cursor, (segment.2.drop (cursor - segment.1)).take (keptEnd - cursor))] else []
      let next := min (max cursor range.2) (stop segment)
      kept ++ if next = stop segment then [] else keepFrom segment next ranges

/-- The parts of a segment that lie in no range. A segment without an overlap is kept as it is. -/
def keep (ranges : List (ℕ × ℕ)) (segment : Segment UInt8) : List (Segment UInt8) :=
  let overlapping := ranges.dropWhile fun range => range.2 ≤ segment.1
  match overlapping with
  | [] => [segment]
  | range :: _ =>
      if stop segment ≤ range.1 then [segment] else keepFrom segment segment.1 overlapping

/-- Drops page bodies, in the order of their starts, and keeps the bytes around them. -/
def releasePageBodies (r : SparseChunkReader) (discarded : List PageBodyRange)
    (disposition : String) : Result SparseChunkReader := do
  let ranges ← (discarded.mergeSort fun a b => a.offset ≤ b.offset).mapM fun range => do
    let stop ← checkedAdd u64Max range.offset range.length
      (.new .resourceLimit s!"Parquet {disposition} page range overflows u64")
    .ok (range.offset, stop)
  .ok { r with segments := r.segments.flatMap (keep (Ranges.joinSorted ranges)) }

/-! ## Lookup -/

/-- The segments that follow each other from `cursor` until `stop` is reached. -/
def adjacentTo (stop : ℕ) : ℕ → List (Segment UInt8) → Option (List (Segment UInt8))
  | cursor, [] => if stop ≤ cursor then some [] else none
  | cursor, next :: segments =>
    if stop ≤ cursor then some []
    else if next.1 ≠ cursor then none
    else (adjacentTo stop (cursor + next.2.length) segments).map (next :: ·)

/-- Appends the bytes of segments until there are `length` of them. -/
def joinUpTo (length : ℕ) (joined : List UInt8) (segments : List (Segment UInt8)) : List UInt8 :=
  segments.foldl (fun joined next => joined ++ next.2.take (length - joined.length)) joined

/-- The bytes of a range, if all of them are cached. -/
def locate (r : SparseChunkReader) (offset length : ℕ) :
    ParquetResult (Option (List UInt8)) :=
  if u64Max < offset + length then .error (.general "source range overflows u64")
  else if r.sourceLength < offset + length then
    .error (.eof s!"source range {offset}..{offset + length} exceeds file length {r.sourceLength}")
  else
    match (r.segments.takeWhile fun segment => segment.1 ≤ offset).getLast? with
    | none => .ok none
    | some segment =>
      let bytes := segment.2.drop (offset - segment.1)
      if offset + length ≤ stop segment then .ok (some (bytes.take length))
      else .ok ((adjacentTo (offset + length) (stop segment)
        (r.segments.dropWhile fun segment => segment.1 ≤ offset)).map (joinUpTo length bytes))

/-- The segments that follow each other are joined until there are `maxLength` bytes. -/
def joinSuffix (maxLength : ℕ) : ℕ → List UInt8 → List (Segment UInt8) → List UInt8
  | _, joined, [] => joined
  | cursor, joined, next :: segments =>
    if maxLength ≤ joined.length ∨ next.1 ≠ cursor then joined
    else joinSuffix maxLength (cursor + next.2.length)
      (joined ++ next.2.take (maxLength - joined.length)) segments

/-- The cached bytes from an offset on, up to some number. -/
def locateSuffix (r : SparseChunkReader) (offset maxLength : ℕ) :
    ParquetResult (Option (List UInt8)) :=
  if r.sourceLength < offset then
    .error (.eof s!"source offset {offset} exceeds file length {r.sourceLength}")
  else
    match (r.segments.takeWhile fun segment => segment.1 ≤ offset).getLast? with
    | none => .ok none
    | some segment =>
      let after := r.segments.dropWhile fun segment => segment.1 ≤ offset
      if stop segment ≤ offset then .ok none
      else
        let bytes := (segment.2.drop (offset - segment.1)).take maxLength
        if bytes.length = maxLength ∨ after.isEmpty then .ok (some bytes)
        else .ok (some (joinSuffix maxLength (stop segment) bytes after))

/-- The first gap of the segments between `cursor` and `stop`. -/
def firstGap (stop : ℕ) : ℕ → List (Segment UInt8) → Option ParquetReadBytesAction
  | cursor, [] => if cursor < stop then some ⟨cursor, stop - cursor⟩ else none
  | cursor, segment :: segments =>
    if Segments.stop segment ≤ cursor then firstGap stop cursor segments
    else if stop ≤ segment.1 then
      if cursor < stop then some ⟨cursor, stop - cursor⟩ else none
    else if cursor < segment.1 then some ⟨cursor, min segment.1 stop - cursor⟩
    else if stop ≤ max cursor (Segments.stop segment) then none
    else firstGap stop (max cursor (Segments.stop segment)) segments

/-- The first part of a requested range that is not cached. -/
def firstMissingAction (r : SparseChunkReader) (requested : ParquetReadBytesAction) :
    ParquetResult (Option ParquetReadBytesAction) :=
  match requested.stop with
  | .error error => .error (.general error.message)
  | .ok stop => .ok (firstGap stop requested.offset r.segments)

end SparseChunkReader

end Tabulark.Parquet
