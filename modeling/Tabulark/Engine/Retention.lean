import Tabulark.Engine.RangeCache
import Tabulark.Source.Staging

/-!
# Bytes retained on the main thread

The bodies of sources that do not serve ranges and the cached batches share one
budget. A body stays until its reservation is released; the batches are evicted to
make room for it, and are cached under what it leaves. `budgets_hold` says that
the two stay within the budget in every run, as the staged bytes do.
-/

namespace Tabulark.Engine

open Source

/-! ## Reservations -/

/-- The limits of what an engine retains on the main thread. -/
structure RetentionLimits where
  mainThreadRangeCacheBytes : ℕ
  mainThreadRetainedBytes : ℕ
  /-- They are parts of a memory budget that is a safe integer. -/
  safe : mainThreadRetainedBytes ≤ maxSafeInteger

def minBatchCacheEntryBytes : ℕ := 4 * 1024

def maxBatchCacheEntries : ℕ := 512

namespace RetentionLimits

/-- The bytes that batches may be cached in. -/
def cacheBytes (l : RetentionLimits) : ℕ :=
  min l.mainThreadRangeCacheBytes l.mainThreadRetainedBytes

/-- The caps of the range cache. -/
def cacheOptions (l : RetentionLimits) : CacheOptions where
  maxBytes := l.cacheBytes
  maxEntries := min maxBatchCacheEntries (max 1 (l.cacheBytes / minBatchCacheEntryBytes))
  minimumEntryBytes := minBatchCacheEntryBytes

end RetentionLimits

def defaultMemoryBudgetBytes : ℕ := 256 * 1024 * 1024

def mainThreadRangeCacheMaxBytes : ℕ := 32 * 1024 * 1024

/-- The part of `deriveMemoryBudgetLimits` that the main thread keeps to. Up to a third of the
    safe integers the source's arithmetic is exact. -/
def deriveMemoryBudgetLimits (memoryBudgetBytes : ℕ) (h : memoryBudgetBytes * 3 ≤ maxSafeInteger) :
    RetentionLimits where
  mainThreadRangeCacheBytes := min mainThreadRangeCacheMaxBytes (memoryBudgetBytes / 8)
  mainThreadRetainedBytes := max 1 (memoryBudgetBytes - max 1 (memoryBudgetBytes * 3 / 4) -
    max 1 (memoryBudgetBytes / 8))
  safe := max_le (by decide) (by omega)

example : (deriveMemoryBudgetLimits defaultMemoryBudgetBytes (by decide)).cacheBytes =
    mainThreadRangeCacheMaxBytes := by decide

/-- What an engine retains, and its reservations that are not released. -/
structure Retention (l : RetentionLimits) (T : Type) where
  closed : Bool := false
  rangeCache : ByteLruCache l.cacheOptions T := {}
  retainedSourceBytes : ℕ := 0
  reservations : InsertionMap ℕ ℕ := .empty
  /-- The number of reservations so far. -/
  reserved : ℕ := 0

/-- What a reservation throws. -/
inductive RetentionError
  | source (error : SourceError)
  | range (error : RangeError)

variable {l : RetentionLimits} {T : Type}

namespace Retention

/-- The bytes that reservations leave to the cache. -/
def availableRetainedCacheBytes (r : Retention l T) : ℕ :=
  l.mainThreadRetainedBytes - r.retainedSourceBytes

/-- The error of a reservation that does not fit. -/
def retainedError (message : String) (requiredBytes availableBytes : ℕ) : SourceError where
  code := .resourceLimit
  message
  details := [("resource", .text "source-retained"), ("requiredBytes", .number requiredBytes),
    ("availableBytes", .number availableBytes)]

/-- Reserves bytes for the body of a source, and evicts what is cached in their place. -/
def reserveRetainedSourceBytes (r : Retention l T) (bytes : ℤ) :
    Except RetentionError (Retention l T) :=
  if ¬(0 ≤ bytes ∧ bytes ≤ maxSafeInteger) then
    .error (.source (retainedError "The source retained-byte request is invalid" maxSafeInteger
      r.availableRetainedCacheBytes))
  else if r.closed then .error (.source (closedError "Engine"))
  else
    let availableBytes := (l.mainThreadRetainedBytes : ℤ) - r.retainedSourceBytes
    if availableBytes < bytes then
      .error (.source (retainedError "The source exceeds the retained-byte budget" bytes.toNat
        availableBytes.toNat))
    else
      match r.rangeCache.trimTo (availableBytes - bytes) with
      | .error error => .error (.range error)
      | .ok (rangeCache, _) => .ok { r with
        rangeCache
        retainedSourceBytes := r.retainedSourceBytes + bytes.toNat
        reservations := r.reservations.set r.reserved bytes.toNat
        reserved := r.reserved + 1 }

/-- Releases a reservation; a second call does nothing. -/
def release (r : Retention l T) (id : ℕ) : Retention l T :=
  match r.reservations.get? id with
  | none => r
  | some bytes => { r with
    retainedSourceBytes := r.retainedSourceBytes - bytes
    reservations := r.reservations.delete id }

/-- Caches a batch under what the reservations leave. -/
def cacheBatch (r : Retention l T) (key : String) (backing : T) (byteLength : ℤ) :
    Except RangeError (Retention l T) :=
  match r.rangeCache.set key backing byteLength (some r.availableRetainedCacheBytes) with
  | .error error => .error error
  | .ok (rangeCache, _) => .ok { r with rangeCache }

end Retention

/-- What an engine does with the bytes it retains. -/
inductive RetentionEvent (T : Type)
  | reserve (bytes : ℤ)
  | release (id : ℕ)
  | get (key : String)
  | set (key : String) (backing : T) (byteLength : ℤ)
  | deleteWhere (predicate : String → T → Bool)
  | clear
  | close

/-- What is retained after an event. An event that throws leaves it as it is. -/
def Retention.step (r : Retention l T) : RetentionEvent T → Retention l T
  | .reserve bytes => (r.reserveRetainedSourceBytes bytes).toOption.getD r
  | .release id => r.release id
  | .get key => { r with rangeCache := (r.rangeCache.get key).1 }
  | .set key backing byteLength => (r.cacheBatch key backing byteLength).toOption.getD r
  | .deleteWhere predicate => { r with rangeCache := (r.rangeCache.deleteWhere predicate).1 }
  | .clear => { r with rangeCache := r.rangeCache.clear.1 }
  | .close => { r with closed := true, rangeCache := r.rangeCache.clear.1 }

/-! ## The bytes of a cache -/

namespace ByteLruCache

variable {o : CacheOptions} {c : ByteLruCache o T}

/-- A cache without entries has no bytes. -/
theorem Balanced.byteLength_eq_zero (h : c.Balanced) (hempty : c.entries.entries = []) :
    c.byteLength = 0 := by
  rw [Balanced] at h
  rw [h, hempty]
  rfl

/-- Fewer entries have fewer bytes. -/
theorem Balanced.byteLength_le {c' : ByteLruCache o T} (h : c.Balanced) (h' : c'.Balanced)
    (hsub : c'.entries.entries.Sublist c.entries.entries) : c'.byteLength ≤ c.byteLength := by
  rw [Balanced] at h h'
  rw [h, h']
  exact (hsub.map _).sum_le_sum fun _ _ => Nat.zero_le _

/-- Trimming to a number of bytes leaves no more of them. -/
theorem trimTo_of_le (h : c.Balanced) {bytes : ℕ} (hsafe : bytes ≤ maxSafeInteger) :
    ∃ result, c.trimTo bytes = .ok result ∧ result.1.Balanced ∧ result.1.byteLength ≤ bytes := by
  have hcap : safeInteger "maxBytes" bytes = .ok bytes :=
    if_pos ⟨Int.natCast_nonneg _, Int.ofNat_le.2 hsafe⟩
  rw [trimTo, hcap]
  refine ⟨_, rfl, h.evictWhile _ _, ?_⟩
  rcases @not_full_evictWhile _ _ c (fun c => min o.maxBytes bytes < c.byteLength) _ le_rfl
    with hfull | hempty
  · have hlt := of_decide_eq_false hfull
    omega
  · exact ((h.evictWhile _ _).byteLength_eq_zero hempty).trans_le (Nat.zero_le _)

/-- A value that is set leaves the cache within the cap, or as it was. -/
theorem set_le (h : c.Balanced) {key : String} {value : T} {byteLength : ℤ} {cap : ℕ}
    {result : ByteLruCache o T × List (Removal T)}
    (hset : c.set key value byteLength (some cap) = .ok result) :
    result.1.Balanced ∧ (result.1.byteLength ≤ cap ∨ result.1 = c) := by
  obtain ⟨⟨chargedBytes, effectiveMaxBytes⟩, hcharge, hset⟩ := Result.bind_eq_ok.1 hset
  have hle : effectiveMaxBytes ≤ cap := by
    obtain ⟨_, _, hcharge⟩ := Result.bind_eq_ok.1 hcharge
    obtain ⟨bytes, hbytes, hcharge⟩ := Result.bind_eq_ok.1 hcharge
    rw [Option.getD_some, safeInteger] at hbytes
    split_ifs at hbytes
    cases hbytes
    cases hcharge
    exact min_le_right _ _
  cases hset
  split_ifs with hover
  · exact ⟨h, .inr rfl⟩
  · obtain ⟨_, _, _, _, _, hbal, hbytes, _⟩ := c.place_spec h key value hover
    exact ⟨hbal, .inl (hbytes.trans hle)⟩

end ByteLruCache

/-! ## The budget -/

/-- The reservations and the cached batches fit the budget, and are counted right. -/
structure Retention.Kept (r : Retention l T) : Prop where
  counted : r.retainedSourceBytes = (r.reservations.entries.map Prod.snd).sum
  balanced : r.rangeCache.byteLength =
    (r.rangeCache.entries.entries.map fun e => e.2.byteLength).sum
  fits : r.retainedSourceBytes + r.rangeCache.byteLength ≤ l.mainThreadRetainedBytes

namespace Retention

variable {r : Retention l T}

/-- Reservations are numbered in turn. -/
def Numbered (r : Retention l T) : Prop := ∀ e ∈ r.reservations.entries, e.1 < r.reserved

/-- A cache with no more bytes fits as well. -/
theorem Kept.withCache (h : r.Kept) {rangeCache : ByteLruCache l.cacheOptions T} {closed : Bool}
    (hbal : rangeCache.Balanced) (hle : rangeCache.byteLength ≤ r.rangeCache.byteLength) :
    Kept { r with rangeCache, closed } :=
  ⟨h.counted, hbal, (Nat.add_le_add_left hle _).trans h.fits⟩

theorem Kept.reserve (h : r.Kept) (hnumbered : r.Numbered) (bytes : ℤ) :
    (r.step (.reserve bytes)).Kept ∧ (r.step (.reserve bytes)).Numbered := by
  have hfits := h.fits
  have hsafe := l.safe
  rw [step, reserveRetainedSourceBytes]
  split_ifs with hvalid hclosed
  · exact ⟨h, hnumbered⟩
  · obtain ⟨n, rfl⟩ := Int.eq_ofNat_of_zero_le hvalid.1
    by_cases hover : (l.mainThreadRetainedBytes : ℤ) - r.retainedSourceBytes < n
    · rw [if_pos hover]
      exact ⟨h, hnumbered⟩
    rw [if_neg hover]
    have hsub : (l.mainThreadRetainedBytes : ℤ) - r.retainedSourceBytes - n =
        (l.mainThreadRetainedBytes - r.retainedSourceBytes - n : ℕ) := by omega
    obtain ⟨result, htrim, hbal, hle⟩ := ByteLruCache.trimTo_of_le (c := r.rangeCache) h.balanced
      (show l.mainThreadRetainedBytes - r.retainedSourceBytes - n ≤ maxSafeInteger by omega)
    have hnone : r.reservations.get? r.reserved = none :=
      InsertionMap.get?_eq_none.2 fun e he => (hnumbered e he).ne
    rw [hsub, htrim]
    -- What is cached fits beside the new reservation.
    refine ⟨⟨?_, hbal, ?_⟩, fun e he => ?_⟩
    · change _ + n = ((r.reservations.set r.reserved n).entries.map Prod.snd).sum
      rw [InsertionMap.set_of_get?_eq_none hnone, List.map_append, List.sum_append, h.counted]
      rfl
    · change r.retainedSourceBytes + n + result.1.byteLength ≤ _
      omega
    · change e ∈ (r.reservations.set r.reserved n).entries at he
      rw [InsertionMap.set_of_get?_eq_none hnone] at he
      rcases List.mem_append.1 he with he | he
      · exact (hnumbered e he).trans (Nat.lt_succ_self _)
      · rw [List.mem_singleton.1 he]
        exact Nat.lt_succ_self _
  · exact ⟨h, hnumbered⟩

theorem Kept.release (h : r.Kept) (hnumbered : r.Numbered) (id : ℕ) :
    (r.release id).Kept ∧ (r.release id).Numbered := by
  rw [Retention.release]
  cases hget : r.reservations.get? id with
  | none => exact ⟨h, hnumbered⟩
  | some bytes =>
    have hsum := ((InsertionMap.perm_cons_delete (InsertionMap.get?_eq_some.1 hget)).map
      Prod.snd).sum_eq
    rw [List.map_cons, List.sum_cons] at hsum
    have hcounted := h.counted
    have hfits := h.fits
    refine ⟨⟨?_, h.balanced, ?_⟩, fun e he => hnumbered e (InsertionMap.mem_delete.1 he).1⟩
    · dsimp only
      omega
    · dsimp only
      omega

theorem Kept.cacheBatch (h : r.Kept) {key : String} {backing : T} {byteLength : ℤ}
    {r' : Retention l T} (hset : r.cacheBatch key backing byteLength = .ok r') :
    r'.Kept ∧ r'.reservations = r.reservations ∧ r'.reserved = r.reserved := by
  rw [Retention.cacheBatch] at hset
  cases hresult : r.rangeCache.set key backing byteLength (some r.availableRetainedCacheBytes) with
  | error error =>
    rw [hresult] at hset
    cases hset
  | ok result =>
    rw [hresult] at hset
    cases hset
    obtain ⟨hbal, hle | hsame⟩ := ByteLruCache.set_le h.balanced hresult
    · have hfits := h.fits
      refine ⟨⟨h.counted, hbal, ?_⟩, rfl, rfl⟩
      rw [availableRetainedCacheBytes] at hle
      dsimp only
      omega
    · exact ⟨h.withCache hbal (congrArg ByteLruCache.byteLength hsame).le, rfl, rfl⟩

/-- The budget holds after every event. -/
theorem Kept.step (h : r.Kept) (hnumbered : r.Numbered) (e : RetentionEvent T) :
    (r.step e).Kept ∧ (r.step e).Numbered := by
  have hclear : r.rangeCache.clear.1.byteLength ≤ r.rangeCache.byteLength := Nat.zero_le _
  cases e with
  | reserve bytes => exact h.reserve hnumbered bytes
  | release id => exact h.release hnumbered id
  | get key =>
    obtain ⟨heffect, hbal⟩ := call_effect h.balanced (.get key)
    refine ⟨h.withCache hbal ?_, hnumbered⟩
    -- A read moves an entry, or does nothing.
    rw [ByteLruCache.get]
    cases r.rangeCache.entries.get? key <;> exact le_rfl
  | set key backing byteLength =>
    rw [Retention.step]
    cases hset : r.cacheBatch key backing byteLength with
    | error error => exact ⟨h, hnumbered⟩
    | ok r' =>
      obtain ⟨hkept, hreservations, hreserved⟩ := h.cacheBatch hset
      refine ⟨hkept, fun e he => ?_⟩
      change e ∈ r'.reservations.entries at he
      change e.1 < r'.reserved
      rw [hreservations] at he
      rw [hreserved]
      exact hnumbered e he
  | deleteWhere predicate =>
    obtain ⟨hbal, hsub, _⟩ := ByteLruCache.deleteEach_spec predicate r.rangeCache.entries.nodup
      (fun _ he => he) h.balanced
    exact ⟨h.withCache hbal (ByteLruCache.Balanced.byteLength_le h.balanced hbal hsub),
      hnumbered⟩
  | clear => exact ⟨h.withCache rfl hclear, hnumbered⟩
  | close => exact ⟨h.withCache rfl hclear, hnumbered⟩

end Retention

/-- In every run the staged bytes keep to their capacity, and the retained bytes to their budget. -/
theorem budgets_hold :
    (∀ (capacity : ℤ) (events : List StagingEvent),
      Run.Along (SourceStagingLimiter.step (SourceStagingLimiter.capacityOf capacity))
        (fun p e => SourceStagingLimiter.Staged (SourceStagingLimiter.capacityOf capacity)
          (SourceStagingLimiter.step (SourceStagingLimiter.capacityOf capacity) p e)) {} events) ∧
      ∀ (l : RetentionLimits) (T : Type) (events : List (RetentionEvent T)),
        Run.Along (Retention.step (l := l)) (fun r e => (r.step e).Kept) {} events := by
  refine ⟨fun capacity => SourceStagingLimiter.staged_run _, fun l T events => ?_⟩
  have hkept := @Run.Along.invariant _ _ _ _ (fun r : Retention l T => r.Kept ∧ r.Numbered) _ _
    (fun r e h _ => h.1.step h.2 e) (Run.along_true {} events)
    ⟨⟨rfl, rfl, Nat.zero_le _⟩, nofun⟩
  exact hkept.1.imp fun r e h => (h.1.1.step h.1.2 e).1

end Tabulark.Engine
