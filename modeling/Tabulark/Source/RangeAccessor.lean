import Mathlib
import Tabulark.Lib.Recency

/-!
# The accessor of a remote source

A reader of a remote source keeps the ranges that it was given, and asks for what is missing of a
read. What is kept has a budget: the ranges that were used last are kept (`RangeSourceAccessor`).
-/

namespace Tabulark.Source

/-- The bytes of a source from an offset to an end. -/
def part (source : List UInt8) (offset stop : ℕ) : List UInt8 :=
  (source.drop offset).take (stop - offset)

structure ReadInterval where
  offset : ℕ
  stop : ℕ
  deriving DecidableEq, Repr

/-- Bytes and where they are in the source. -/
structure RangeCoverage extends ReadInterval where
  bytes : List UInt8
  deriving DecidableEq, Repr

/-- Bytes that are kept, and when they were last used. -/
structure CachedRange extends RangeCoverage where
  lastUsed : ℕ
  deriving DecidableEq, Repr

/-- What an accessor keeps between reads. -/
structure RangeSourceAccessor where
  size : ℕ
  maxCacheBytes : ℕ
  maxReadBytes : ℕ
  maxConcurrency : ℕ
  cache : List CachedRange := []
  cacheBytes : ℕ := 0
  clock : ℕ := 0
  deriving DecidableEq, Repr

/-- Whether an interval has bytes of a range. -/
def ReadInterval.meets (entry : ReadInterval) (offset stop : ℕ) : Bool :=
  offset < entry.stop && entry.offset < stop

/-- The order of intervals: by their offset, and then by their end. -/
def ReadInterval.before (left right : ReadInterval) : Bool :=
  left.offset < right.offset || (left.offset == right.offset && left.stop ≤ right.stop)

/-! ## Holes -/

/-- The holes between sorted intervals, from a cursor to an end. -/
def holesFrom (stop : ℕ) : List ReadInterval → ℕ → List ReadInterval
  | [], cursor => if cursor < stop then [⟨cursor, stop⟩] else []
  | entry :: entries, cursor =>
    if entry.stop ≤ cursor then holesFrom stop entries cursor
    else
      let hole := if cursor < entry.offset then [⟨cursor, entry.offset⟩] else []
      if stop ≤ max cursor entry.stop then hole
      else hole ++ holesFrom stop entries (max cursor entry.stop)

/-- The part of an interval in a range. -/
def ReadInterval.clip (entry : ReadInterval) (offset stop : ℕ) : ReadInterval :=
  ⟨max offset entry.offset, min stop entry.stop⟩

/-- What some intervals leave of a range. -/
def missing (entries : List ReadInterval) (offset stop : ℕ) : List ReadInterval :=
  holesFrom stop (((entries.filter (·.meets offset stop)).map (·.clip offset stop)).mergeSort
    ReadInterval.before) offset

/-! ## Assembly -/

/-- The bytes of sorted segments from a cursor to an end, if there are no holes between them. What
    was written so far comes first. -/
def assembleFrom (stop : ℕ) : List RangeCoverage → ℕ → List UInt8 → Option (List UInt8)
  | [], cursor, output => if stop ≤ cursor then some output else none
  | segment :: segments, cursor, output =>
    if segment.stop ≤ cursor then assembleFrom stop segments cursor output
    else if cursor < segment.offset then none
    else
      let segmentEnd := min stop segment.stop
      let output := output ++
        (segment.bytes.drop (cursor - segment.offset)).take (segmentEnd - cursor)
      if stop ≤ segmentEnd then some output else assembleFrom stop segments segmentEnd output

/-- Marks the ranges that have bytes of a range as used, one after the other. -/
def touch (offset stop : ℕ) : List CachedRange → ℕ → List CachedRange × ℕ
  | [], clock => ([], clock)
  | entry :: entries, clock =>
    if entry.meets offset stop then
      let (entries, clock') := touch offset stop entries (clock + 1)
      ({ entry with lastUsed := clock + 1 } :: entries, clock')
    else
      let (entries, clock') := touch offset stop entries clock
      (entry :: entries, clock')

namespace RangeSourceAccessor

/-- Puts together the bytes of a range from what is kept and from more segments. -/
def assemble (s : RangeSourceAccessor) (offset stop : ℕ) (extra : List RangeCoverage) :
    Option (List UInt8) × RangeSourceAccessor :=
  if stop = offset then (some [], s)
  else
    let (cache, clock) := touch offset stop s.cache s.clock
    let segments := (cache.filter (·.meets offset stop)).map CachedRange.toRangeCoverage ++
      extra.filter (·.meets offset stop)
    (assembleFrom stop (segments.mergeSort fun left right =>
      left.toReadInterval.before right.toReadInterval) offset [], { s with cache, clock })

/-! ## The budget -/

/-- The range that was used the longest ago. -/
def oldest : List CachedRange → Option CachedRange
  | [] => none
  | entry :: entries => some (entries.foldl (fun oldest candidate =>
      if candidate.lastUsed < oldest.lastUsed then candidate else oldest) entry)

def remove (s : RangeSourceAccessor) (entry : CachedRange) : RangeSourceAccessor :=
  { s with
    cache := s.cache.erase entry
    cacheBytes := s.cacheBytes - entry.bytes.length }

/-- Removes the oldest ranges until the others fit, at most as many times. -/
def evict : ℕ → RangeSourceAccessor → RangeSourceAccessor
  | 0, s => s
  | times + 1, s =>
    if s.maxCacheBytes < s.cacheBytes then
      match oldest s.cache with
      | none => s
      | some entry => evict times (s.remove entry)
    else s

/-- Keeps a range, if it may be kept at all. -/
def insert (s : RangeSourceAccessor) (offset : ℕ) (bytes : List UInt8) : RangeSourceAccessor :=
  if bytes.length = 0 ∨ s.maxCacheBytes = 0 ∨ s.maxCacheBytes < bytes.length then s
  else
    let entry : CachedRange :=
      { offset, stop := offset + bytes.length, bytes, lastUsed := s.clock + 1 }
    evict (s.cache.length + 1) { s with
      cache := s.cache ++ [entry]
      cacheBytes := s.cacheBytes + bytes.length
      clock := s.clock + 1 }

/-! ## Reads -/

/-- The bytes that were fetched, if they are those of one request for a whole range. -/
def exactFetched (offset stop : ℕ) : List RangeCoverage → Option (List UInt8)
  | [only] => if only.offset = offset ∧ only.stop = stop then some only.bytes else none
  | _ => none

end RangeSourceAccessor

end Tabulark.Source
