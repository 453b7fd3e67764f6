import Tabulark.Lib.Run
import Tabulark.Source.RangeReads

/-!
# What an accessor keeps

The ranges that an accessor keeps are parts of the source, within the budget, whatever is read and
kept (`Sound`). A range is put together if and only if nothing of it is missing, and is then that of
the source (`assemble_eq`). And however ranges are used and kept, those that stay are the ones that
were used last (`Lru`, `lru_of_run`).
-/

namespace Tabulark.Source

open Recency

variable {source : List UInt8} {offset stop i : ℕ}

theorem covered_filter {α : Type} {f : α → ReadInterval} {l : List α} (hle : offset ≤ i)
    (hlt : i < stop) : Covered ((l.filter fun a => (f a).meets offset stop).map f) i ↔
      Covered (l.map f) i := by
  constructor
  · rintro ⟨_, hmem, hhas⟩
    obtain ⟨a, ha, rfl⟩ := List.mem_map.1 hmem
    exact ⟨f a, List.mem_map_of_mem (List.mem_filter.1 ha).1, hhas⟩
  · rintro ⟨_, hmem, hhas⟩
    obtain ⟨a, ha, rfl⟩ := List.mem_map.1 hmem
    refine ⟨f a, List.mem_map_of_mem (List.mem_filter.2 ⟨ha, meets_iff.2 ⟨?_, ?_⟩⟩), hhas⟩
    · exact hle.trans_lt hhas.2
    · exact hhas.1.trans_lt hlt

/-- The bytes of a hole. -/
def ReadInterval.of (source : List UInt8) (hole : ReadInterval) : RangeCoverage :=
  { hole with bytes := part source hole.offset hole.stop }

/-- A hole of the source. -/
def ReadInterval.Within (source : List UInt8) (hole : ReadInterval) : Prop :=
  hole.offset < hole.stop ∧ hole.stop ≤ source.length

namespace RangeSourceAccessor

variable {s s' : RangeSourceAccessor} {q : List CachedRange}

/-! ## The invariant -/

/-- What an accessor keeps are parts of the source, within the budget. -/
structure Sound (source : List UInt8) (s : RangeSourceAccessor) : Prop where
  size_eq : s.size = source.length
  maxReadBytes_pos : 0 < s.maxReadBytes
  queue : ∃ q, s.Queue q ∧ total bytesOf q ≤ s.maxCacheBytes
  of : ∀ segment ∈ s.cache.map (·.toRangeCoverage), segment.Of source

theorem map_used : (s.used offset stop).cache.map CachedRange.toRangeCoverage =
    s.cache.map CachedRange.toRangeCoverage := map_touch

theorem Sound.used (h : s.Sound source) : (s.used offset stop).Sound source where
  size_eq := h.size_eq
  maxReadBytes_pos := h.maxReadBytes_pos
  queue := by
    obtain ⟨q, hqueue, hle⟩ := h.queue
    have hused := hqueue.used offset stop
    refine ⟨_, hused, ?_⟩
    rw [← hused.cacheBytes_eq]
    exact hqueue.cacheBytes_eq.trans_le hle
  of := by
    rw [map_used]
    exact h.of

/-- A part of the source that is kept. -/
theorem Sound.insert {s : RangeSourceAccessor} (h : s.Sound source)
    {hole : ReadInterval} (hhole : hole.Within source) :
    (s.insert hole.offset (part source hole.offset hole.stop)).Sound source ∧
      s.SameLimits (s.insert hole.offset (part source hole.offset hole.stop)) := by
  obtain ⟨q, hqueue, -⟩ := h.queue
  have hlength : (part source hole.offset hole.stop).length = _ := length_part hhole.2
  have hpos : 0 < (part source hole.offset hole.stop).length := by
    rw [hlength]
    exact Nat.sub_pos_of_lt hhole.1
  rcases hqueue.insert hole.offset hpos with ⟨-, heq⟩ |
    ⟨-, entry, hentry, hqueue', hlimits⟩
  · rw [heq]
    exact ⟨h, .refl s⟩
  · refine ⟨⟨hlimits.size_eq.trans h.size_eq, hlimits.maxReadBytes_eq ▸ h.maxReadBytes_pos,
      ⟨_, hqueue', hlimits.maxCacheBytes_eq ▸ total_fit_le _⟩, fun segment hsegment => ?_⟩, hlimits⟩
    obtain ⟨kept, hkept, rfl⟩ := List.mem_map.1 hsegment
    have hkept := (fit_suffix _).subset (hqueue'.perm.mem_iff.2 hkept)
    rcases List.mem_append.1 hkept with hkept | hkept
    · exact h.of _ (List.mem_map_of_mem (hqueue.perm.mem_iff.1 hkept))
    · obtain rfl := List.mem_singleton.1 hkept
      rw [hentry, hlength, Nat.add_sub_cancel' hhole.1.le]
      exact ⟨rfl, hhole.1, hhole.2⟩

/-- An accessor that keeps nothing. -/
theorem Sound.clear {s : RangeSourceAccessor} (h : s.Sound source) :
    ({ s with cache := [], cacheBytes := 0 } : RangeSourceAccessor).Sound source :=
  ⟨h.size_eq, h.maxReadBytes_pos, ⟨[], ⟨.nil, .nil, nofun, rfl⟩, Nat.zero_le _⟩, nofun⟩

/-- What the constructor of an accessor makes of its arguments. -/
def new (size maxCacheBytes maxReadBytes : ℕ) (maxConcurrency : Option ℕ) : RangeSourceAccessor :=
  { size
    maxCacheBytes
    maxReadBytes := if 0 < maxReadBytes then maxReadBytes else 1
    maxConcurrency := maxConcurrency.getD 1 }

theorem sound_new (source : List UInt8) (maxCacheBytes maxReadBytes : ℕ)
    (maxConcurrency : Option ℕ) :
    (new source.length maxCacheBytes maxReadBytes maxConcurrency).Sound source where
  size_eq := rfl
  maxReadBytes_pos := by
    dsimp only [new]
    split
    · assumption
    · exact Nat.one_pos
  queue := ⟨[], ⟨.nil, .nil, nofun, rfl⟩, Nat.zero_le _⟩
  of := nofun

/-! ## Assembly -/

theorem assemble_snd (extra : List RangeCoverage) (hne : stop ≠ offset) :
    (s.assemble offset stop extra).2 = s.used offset stop := by
  rw [assemble, if_neg hne]
  rfl

/-- Assembly gives the bytes of a range if they are all there. -/
theorem assemble_eq_some {extra : List RangeCoverage} {bytes : List UInt8} (hlt : offset < stop)
    (hcache : ∀ segment ∈ s.cache.map (·.toRangeCoverage), segment.Of source)
    (hextra : ∀ segment ∈ extra, segment.Of source) :
    (s.assemble offset stop extra).1 = some bytes ↔
      (∀ i, offset ≤ i → i < stop → Covered (s.cache.map (·.toReadInterval)) i ∨
        Covered (extra.map (·.toReadInterval)) i) ∧ bytes = part source offset stop := by
  have hfst : (s.assemble offset stop extra).1 = assembleFrom stop
      (((touched offset stop s.cache s.clock).map CachedRange.toRangeCoverage ++
        extra.filter (·.meets offset stop)).mergeSort fun left right =>
          left.toReadInterval.before right.toReadInterval) offset [] := by
    rw [assemble, if_neg hlt.ne']
    rfl
  rw [hfst, map_touched]
  have hperm := List.mergeSort_perm ((s.cache.filter (·.meets offset stop)).map
    CachedRange.toRangeCoverage ++ extra.filter (·.meets offset stop)) fun left right =>
      left.toReadInterval.before right.toReadInterval
  rw [@assembleFrom_eq_some source _ _ _ _ _ _ _ hlt, List.nil_append]
  · refine and_congr_left fun _ => forall_congr' fun i => forall_congr' fun hle =>
      imp_congr_right fun hi => ?_
    rw [covered_perm (hperm.map _), List.map_append, covered_append, List.map_map]
    exact or_congr (covered_filter (f := fun entry : CachedRange => entry.toReadInterval) hle hi)
      (covered_filter (f := fun segment : RangeCoverage => segment.toReadInterval) hle hi)
  · rw [List.map_mergeSort (s := ReadInterval.before) (f := RangeCoverage.toReadInterval)
      fun _ _ _ _ => rfl]
    exact sorted_mergeSort _
  · intro segment hsegment
    rcases List.mem_append.1 (hperm.mem_iff.1 hsegment) with hmem | hmem
    · obtain ⟨entry, hentry, rfl⟩ := List.mem_map.1 hmem
      exact hcache _ (List.mem_map_of_mem (List.mem_filter.1 hentry).1)
    · exact hextra _ (List.mem_filter.1 hmem).1

theorem Sound.proper (h : s.Sound source) {extra : List RangeCoverage}
    (hextra : ∀ segment ∈ extra, segment.Of source) :
    ∀ entry ∈ s.cache.map (·.toReadInterval) ++ extra.map (·.toReadInterval),
      entry.offset < entry.stop := by
  intro _ hmem
  rcases List.mem_append.1 hmem with hmem | hmem
  · obtain ⟨entry, hentry, rfl⟩ := List.mem_map.1 hmem
    exact (h.of _ (List.mem_map_of_mem hentry)).offset_lt
  · obtain ⟨segment, hsegment, rfl⟩ := List.mem_map.1 hmem
    exact (hextra segment hsegment).offset_lt

/-- A range is put together if and only if nothing of it is missing. -/
theorem assemble_eq (h : s.Sound source) (hlt : offset < stop) {extra : List RangeCoverage}
    (hextra : ∀ segment ∈ extra, segment.Of source) :
    (s.assemble offset stop extra).1 = if missing (s.cache.map (·.toReadInterval) ++
      extra.map (·.toReadInterval)) offset stop = [] then some (part source offset stop)
        else none := by
  obtain ⟨hholes, hcovered⟩ := missing_spec hlt.le (h.proper hextra)
  have hassemble {bytes : List UInt8} : (s.assemble offset stop extra).1 = some bytes ↔ _ :=
    assemble_eq_some hlt h.of hextra
  split
  · rename_i hnil
    refine hassemble.2 ⟨fun i hle hi => by_contra fun hnot => ?_, rfl⟩
    refine @covered_nil i ?_
    rw [← hnil, hcovered, covered_append]
    exact ⟨⟨hle, hi⟩, hnot⟩
  · rename_i hne
    refine Option.eq_none_iff_forall_not_mem.2 fun bytes hbytes => ?_
    obtain ⟨hole, hmem⟩ := List.exists_mem_of_ne_nil _ hne
    have hhole := (hcovered hole.offset).1 ⟨hole, hmem, le_rfl, (hholes.inside hole hmem).2.1⟩
    exact hhole.2 (covered_append.2 ((hassemble.1 hbytes).1 _ hhole.1.1 hhole.1.2))

/-- A range is put together from a part that is kept and one that a read has, which overlap. -/
theorem assemble_eq_overlapping :
    (((new 6 10 10 none).insert 0 [1, 2, 3]).assemble 1 5 [⟨⟨2, 5⟩, [3, 4, 5]⟩]).1 =
      some [2, 3, 4, 5] := by
  have hhole : (⟨0, 3⟩ : ReadInterval).Within [1, 2, 3, 4, 5, 6] := ⟨by decide, by decide⟩
  have hkept := ((sound_new [1, 2, 3, 4, 5, 6] 10 10 none).insert hhole).1
  have hassemble := assemble_eq hkept (show 1 < 5 by decide)
    (List.forall_mem_singleton.2 (show (⟨⟨2, 5⟩, [3, 4, 5]⟩ : RangeCoverage).Of _ from
      ⟨rfl, by decide, by decide⟩))
  have hmissing : missing [⟨0, 3⟩, ⟨2, 5⟩] 1 5 = [] := by
    simp [missing, holesFrom, ReadInterval.meets, ReadInterval.clip, ReadInterval.before,
      List.mergeSort]
  exact hassemble.trans (if_pos hmissing)

theorem exactFetched_eq_some {fetched : List RangeCoverage} {bytes : List UInt8} :
    exactFetched offset stop fetched = some bytes ↔ fetched = [⟨⟨offset, stop⟩, bytes⟩] := by
  match fetched with
  | [] => simp [exactFetched]
  | [⟨⟨offset', stop'⟩, bytes'⟩] => simp [exactFetched, and_assoc]
  | _ :: _ :: _ => simp [exactFetched]

/-! ## Recency -/

/-- What a read does with what is kept: it uses ranges, and keeps the bytes that it gets. -/
inductive CacheCall
  | use (offset stop : ℕ) (extra : List RangeCoverage)
  | keep (offset : ℕ) (bytes : List UInt8)

def call (s : RangeSourceAccessor) : CacheCall → RangeSourceAccessor
  | .use offset stop extra => (s.assemble offset stop extra).2
  | .keep offset bytes => s.insert offset bytes

/-- A queue by recency, without stamps: what is used goes to the end, and so does what is new. Those
    at the start fall off for it. -/
inductive Lru (maxBytes : ℕ) : List RangeCoverage → CacheCall → List RangeCoverage → Prop
  | idle {q : List RangeCoverage} {offset : ℕ} {extra : List RangeCoverage} :
      Lru maxBytes q (.use offset offset extra) q
  | use {q used : List RangeCoverage} {offset stop : ℕ} {extra : List RangeCoverage}
      (h : used.Perm (q.filter (·.meets offset stop))) :
      Lru maxBytes q (.use offset stop extra) (q.filter (!·.meets offset stop) ++ used)
  | skip {q : List RangeCoverage} {offset : ℕ} {bytes : List UInt8}
      (h : bytes.length = 0 ∨ maxBytes < bytes.length) : Lru maxBytes q (.keep offset bytes) q
  | keep {q : List RangeCoverage} {offset : ℕ} {bytes : List UInt8}
      (h : 0 < bytes.length ∧ bytes.length ≤ maxBytes) :
      Lru maxBytes q (.keep offset bytes) (fit (·.bytes.length) maxBytes
        (q ++ [⟨⟨offset, offset + bytes.length⟩, bytes⟩]))

/-- What queues some calls may lead to. -/
inductive LruRun (maxBytes : ℕ) : List CacheCall → List RangeCoverage → Prop
  | nil : LruRun maxBytes [] []
  | snoc {calls : List CacheCall} {q q' : List RangeCoverage} {call : CacheCall}
      (h : LruRun maxBytes calls q) (hcall : Lru maxBytes q call q') :
      LruRun maxBytes (calls ++ [call]) q'

/-- A call does to what is kept what it does to the queue. -/
theorem Queue.call (h : s.Queue q) (call : CacheCall) : ∃ q', (s.call call).Queue q' ∧
    s.SameLimits (s.call call) ∧ Lru s.maxCacheBytes (q.map CachedRange.toRangeCoverage) call
      (q'.map CachedRange.toRangeCoverage) := by
  cases call with
  | use offset stop extra =>
    by_cases hne : stop = offset
    · rw [hne, RangeSourceAccessor.call, assemble, if_pos rfl]
      exact ⟨q, h, .refl s, .idle⟩
    · rw [RangeSourceAccessor.call, assemble_snd extra hne]
      refine ⟨_, h.used offset stop, ⟨rfl, rfl, rfl, rfl⟩, ?_⟩
      have hused : Lru s.maxCacheBytes (q.map CachedRange.toRangeCoverage) (.use offset stop extra)
          ((q.map CachedRange.toRangeCoverage).filter (!·.meets offset stop) ++
            (touched offset stop s.cache s.clock).map CachedRange.toRangeCoverage) := by
        refine .use ?_
        rw [map_touched, List.filter_map]
        exact (h.perm.symm.filter _).map _
      rwa [List.filter_map, ← List.map_append] at hused
  | keep offset bytes =>
    rcases Nat.eq_zero_or_pos bytes.length with hzero | hpos
    · rw [RangeSourceAccessor.call, RangeSourceAccessor.insert, if_pos (.inl hzero)]
      exact ⟨q, h, .refl s, .skip (.inl hzero)⟩
    · rcases h.insert offset hpos with ⟨hlarge, hinsert⟩ |
        ⟨hsmall, entry, hentry, hqueue, hlimits⟩
      · rw [RangeSourceAccessor.call, hinsert]
        exact ⟨q, h, .refl s, .skip (.inr hlarge)⟩
      · refine ⟨_, hqueue, hlimits, ?_⟩
        have hfit : Lru _ (q.map CachedRange.toRangeCoverage) (.keep offset bytes) _ :=
          .keep ⟨hpos, hsmall⟩
        rwa [← hentry, ← List.map_singleton, ← List.map_append, ← map_fit] at hfit

/-- Whatever is used and kept, an accessor keeps what a queue by recency keeps, although it has only
    stamps to find the ranges that were used the longest ago. -/
theorem lru_of_run (size maxCacheBytes maxReadBytes : ℕ) (maxConcurrency : Option ℕ)
    (calls : List CacheCall) :
    let s := Run.run call (new size maxCacheBytes maxReadBytes maxConcurrency) calls
    ∃ q, LruRun maxCacheBytes calls q ∧ q.Perm (s.cache.map (·.toRangeCoverage)) ∧
      s.cacheBytes = total (·.bytes.length) q := by
  have hrun : let s := Run.run call (new size maxCacheBytes maxReadBytes maxConcurrency) calls
      ∃ q, s.Queue q ∧ s.maxCacheBytes = maxCacheBytes ∧
        LruRun maxCacheBytes calls (q.map CachedRange.toRangeCoverage) := by
    induction calls using List.reverseRecOn with
    | nil => exact ⟨[], ⟨.nil, .nil, nofun, rfl⟩, rfl, .nil⟩
    | append_singleton calls call ih =>
      obtain ⟨q, hqueue, hmax, hlru⟩ := ih
      obtain ⟨q', hqueue', hlimits, hcall⟩ := hqueue.call call
      rw [hmax] at hcall
      rw [Run.run_append]
      exact ⟨q', hqueue', hlimits.maxCacheBytes_eq.trans hmax, hlru.snoc hcall⟩
  obtain ⟨q, hqueue, -, hlru⟩ := hrun
  refine ⟨_, hlru, hqueue.perm.map _, hqueue.cacheBytes_eq.trans ?_⟩
  rw [total, total, List.map_map]
  rfl

end RangeSourceAccessor

end Tabulark.Source
