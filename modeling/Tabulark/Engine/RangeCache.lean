import Mathlib
import Tabulark.Error
import Tabulark.Lib.InsertionMap
import Tabulark.Lib.Run

/-!
# The range cache of an engine

The engine keeps the batches it has read in a cache with a cap on their bytes and
one on their number. `set` makes room by evicting entries, oldest use first, and
turns away what no eviction could make room for.

A value that is turned away does not replace an older value of its key, which
stays readable. `served_iff` says that this is the one way in which a run of calls
gets a value that is no longer the last one set.
-/

namespace Tabulark.Engine

/-! ## Caches -/

/-- The error of an argument that is not a non-negative safe integer. -/
structure RangeError where
  message : String
  deriving DecidableEq

/-- Checks that an argument is a non-negative safe integer. -/
def safeInteger (label : String) (value : ℤ) : Except RangeError ℕ :=
  if 0 ≤ value ∧ value ≤ maxSafeInteger then .ok value.toNat
  else .error ⟨label ++ " must be a non-negative safe integer"⟩

/-- A cached value and the bytes it is charged. -/
structure CacheEntry (T : Type) where
  value : T
  byteLength : ℕ

/-- The caps of a cache. -/
structure CacheOptions where
  maxBytes : ℕ
  maxEntries : ℕ
  minimumEntryBytes : ℕ

/-- A byte-bounded least-recently-used cache: the entries are in the order of their last use. -/
structure ByteLruCache (o : CacheOptions) (T : Type) where
  entries : InsertionMap String (CacheEntry T) := .empty
  byteLength : ℕ := 0

/-- What `onRemove` is told of an entry: its key, its value and its bytes. -/
abbrev Removal (T : Type) : Type := String × CacheEntry T

variable {o : CacheOptions} {T : Type}

namespace ByteLruCache

/-- Takes an entry out. -/
def remove (c : ByteLruCache o T) (e : Removal T) : ByteLruCache o T where
  entries := c.entries.delete e.1
  byteLength := c.byteLength - e.2.byteLength

/-- Evicts the oldest entry while the cache is too full, at most so many times: the cache, and
    the entries that have left. -/
def evictWhile (full : ByteLruCache o T → Bool) :
    ℕ → ByteLruCache o T → ByteLruCache o T × List (Removal T)
  | 0, c => (c, [])
  | turns + 1, c =>
    if full c then
      match c.entries.first? with
      | none => (c, [])
      | some oldest =>
        let rest := evictWhile full turns (c.remove oldest)
        (rest.1, oldest :: rest.2)
    else (c, [])

/-- Reads a value, which is then the last one used. -/
def get (c : ByteLruCache o T) (key : String) : ByteLruCache o T × Option T :=
  match c.entries.get? key with
  | none => (c, none)
  | some entry =>
    ({ c with entries := (c.entries.delete key).set key entry }, some entry.value)

/-- The bytes a value is charged, and the cap it is set under. -/
def charge (o : CacheOptions) (byteLength : ℤ) (maxBytes : Option ℤ) :
    Except RangeError (ℕ × ℕ) := do
  let byteLength ← safeInteger "byteLength" byteLength
  let maxBytes ← safeInteger "maxBytes" (maxBytes.getD o.maxBytes)
  .ok (max byteLength o.minimumEntryBytes, min o.maxBytes maxBytes)

/-- No eviction makes room for these bytes. -/
def Oversized (o : CacheOptions) (chargedBytes effectiveMaxBytes : ℕ) : Prop :=
  effectiveMaxBytes < chargedBytes ∨ o.maxEntries = 0

instance (chargedBytes effectiveMaxBytes : ℕ) :
    Decidable (Oversized o chargedBytes effectiveMaxBytes) :=
  inferInstanceAs (Decidable (_ ∨ _))

/-- Takes out the entry of a key. -/
def removeKey (c : ByteLruCache o T) (key : String) : ByteLruCache o T × List (Removal T) :=
  match c.entries.get? key with
  | none => (c, [])
  | some existing => (c.remove (key, existing), [(key, existing)])

/-- Sets a value that there can be room for. -/
def place (c : ByteLruCache o T) (key : String) (value : T)
    (chargedBytes effectiveMaxBytes : ℕ) : ByteLruCache o T × List (Removal T) :=
  let replaced := c.removeKey key
  let evicted := evictWhile
    (fun c => o.maxEntries ≤ c.entries.size ∨ effectiveMaxBytes < c.byteLength + chargedBytes)
    replaced.1.entries.size replaced.1
  ({ entries := evicted.1.entries.set key { value, byteLength := chargedBytes }
     byteLength := evicted.1.byteLength + chargedBytes }, replaced.2 ++ evicted.2)

/-- Sets a value under the cap of the cache and a cap of its own. -/
def set (c : ByteLruCache o T) (key : String) (value : T) (byteLength : ℤ)
    (maxBytes : Option ℤ) : Except RangeError (ByteLruCache o T × List (Removal T)) := do
  let (chargedBytes, effectiveMaxBytes) ← charge o byteLength maxBytes
  .ok (if Oversized o chargedBytes effectiveMaxBytes then (c, [])
    else c.place key value chargedBytes effectiveMaxBytes)

/-- Evicts the oldest entries until a live cap is met. -/
def trimTo (c : ByteLruCache o T) (maxBytes : ℤ) :
    Except RangeError (ByteLruCache o T × List (Removal T)) := do
  let maxBytes ← safeInteger "maxBytes" maxBytes
  .ok (evictWhile (fun c => min o.maxBytes maxBytes < c.byteLength) c.entries.size c)

/-- Takes out those of some entries that meet a predicate. -/
def deleteEach (predicate : String → T → Bool) :
    List (Removal T) → ByteLruCache o T → ByteLruCache o T × List (Removal T)
  | [], c => (c, [])
  | e :: es, c =>
    if predicate e.1 e.2.value then
      let rest := deleteEach predicate es (c.remove e)
      (rest.1, e :: rest.2)
    else deleteEach predicate es c

/-- Takes out the entries that meet a predicate. -/
def deleteWhere (c : ByteLruCache o T) (predicate : String → T → Bool) :
    ByteLruCache o T × List (Removal T) :=
  deleteEach predicate c.entries.entries c

/-- Takes out every entry. -/
def clear (c : ByteLruCache o T) : ByteLruCache o T × List (Removal T) :=
  ({}, c.entries.entries)

end ByteLruCache

/-! ## Runs -/

/-- A call on a cache. -/
inductive CacheCall (T : Type)
  | get (key : String)
  | set (key : String) (value : T) (byteLength : ℤ) (maxBytes : Option ℤ)
  | trimTo (maxBytes : ℤ)
  | deleteWhere (predicate : String → T → Bool)
  | clear

/-- The cache after a call, and the entries that `onRemove` is told of. A call that throws leaves
    the cache as it is. -/
def ByteLruCache.call (c : ByteLruCache o T) : CacheCall T → ByteLruCache o T × List (Removal T)
  | .get key => ((c.get key).1, [])
  | .set key value byteLength maxBytes =>
    match c.set key value byteLength maxBytes with
    | .ok result => result
    | .error _ => (c, [])
  | .trimTo maxBytes =>
    match c.trimTo maxBytes with
    | .ok result => result
    | .error _ => (c, [])
  | .deleteWhere predicate => c.deleteWhere predicate
  | .clear => c.clear

/-- A cache, and the calls it has had, the last one first. -/
structure CacheSession (o : CacheOptions) (T : Type) where
  cache : ByteLruCache o T := {}
  calls : List (CacheCall T) := []

/-- A new cache. -/
def CacheSession.start (o : CacheOptions) (T : Type) : CacheSession o T := {}

/-- A session after one more call. -/
def CacheSession.step (s : CacheSession o T) (call : CacheCall T) : CacheSession o T where
  cache := (s.cache.call call).1
  calls := call :: s.calls

/-- What a call of `set` that does not throw sets: the key, the value, its bytes and its cap. -/
def CacheCall.written (o : CacheOptions) : CacheCall T → Option (String × T × ℕ × ℕ)
  | .set key value byteLength maxBytes =>
    match ByteLruCache.charge o byteLength maxBytes with
    | .ok (chargedBytes, effectiveMaxBytes) => some (key, value, chargedBytes, effectiveMaxBytes)
    | .error _ => none
  | _ => none

/-- What a call of `set` stores. -/
def CacheCall.stored (o : CacheOptions) (call : CacheCall T) : Option (String × T × ℕ × ℕ) :=
  (call.written o).filter fun w => !decide (ByteLruCache.Oversized o w.2.2.1 w.2.2.2)

/-- The entry that a call of `set` stores. -/
def CacheCall.storedEntry (o : CacheOptions) (call : CacheCall T) : Option (Removal T) :=
  (call.stored o).map fun w => (w.1, { value := w.2.1, byteLength := w.2.2.1 })

/-- The value of the most recent `set` of a key. -/
def latest (o : CacheOptions) (key : String) : List (CacheCall T) → Option T
  | [] => none
  | call :: calls =>
    match call.written o with
    | some w => if w.1 = key then some w.2.1 else latest o key calls
    | none => latest o key calls

/-- A call uses a key: it reads it, or stores a value under it. -/
def CacheCall.uses (o : CacheOptions) (key : String) : CacheCall T → Bool
  | .get read => read = key
  | call => (call.stored o).any fun w => w.1 = key

/-- The number of the call that used a key last. -/
def lastUse (o : CacheOptions) (key : String) : List (CacheCall T) → ℕ
  | [] => 0
  | call :: calls => if call.uses o key then calls.length + 1 else lastUse o key calls

/-- A call removes an entry to make room, if it removes it. -/
def CacheCall.evicts : CacheCall T → Removal T → Bool
  | .set key _ _ _, e => e.1 ≠ key
  | .trimTo _, _ => true
  | _, _ => false

/-- What the cache owes a call. -/
structure Served (s : CacheSession o T) (call : CacheCall T) : Prop where
  /-- A read gets nothing, or the value that was set last. -/
  current : ∀ key value, ((s.step call).cache.get key).2 = some value →
    latest o key (s.step call).calls = some value
  /-- The bytes are those of the entries. -/
  byteLength : (s.step call).cache.byteLength =
    ((s.step call).cache.entries.entries.map fun e => e.2.byteLength).sum
  byteLength_le : (s.step call).cache.byteLength ≤ o.maxBytes
  /-- After a value was stored, they are within its cap. -/
  byteLength_le_cap : ∀ w, call.stored o = some w → (s.step call).cache.byteLength ≤ w.2.2.2
  size_le : (s.step call).cache.entries.size ≤ o.maxEntries
  /-- What was there or was stored is there or was removed, and nothing twice. -/
  removed : (s.cache.entries.entries ++ (call.storedEntry o).toList).Perm
    ((s.step call).cache.entries.entries ++ (s.cache.call call).2)
  /-- What stays was used after what had to make room, -/
  evicted : ∀ e ∈ (s.cache.call call).2, call.evicts e → ∀ e' ∈ s.cache.entries.entries,
    call.evicts e' → e' ∈ (s.step call).cache.entries.entries →
    lastUse o e.1 s.calls < lastUse o e'.1 s.calls
  /-- and that has left in the order of its uses. -/
  evicted_order : ((s.cache.call call).2.filter call.evicts).Pairwise fun e e' =>
    lastUse o e.1 s.calls < lastUse o e'.1 s.calls

/-! ## What a call does -/

namespace ByteLruCache

variable {c : ByteLruCache o T}

/-- The bytes of a cache are those of its entries. -/
def Balanced (c : ByteLruCache o T) : Prop :=
  c.byteLength = (c.entries.entries.map fun e => e.2.byteLength).sum

theorem sum_delete {e : Removal T} (he : e ∈ c.entries.entries) :
    (c.entries.entries.map fun e => e.2.byteLength).sum =
      e.2.byteLength + ((c.entries.delete e.1).entries.map fun e => e.2.byteLength).sum := by
  rw [((InsertionMap.perm_cons_delete he).map _).sum_eq, List.map_cons, List.sum_cons]

theorem Balanced.remove (h : c.Balanced) {e : Removal T} (he : e ∈ c.entries.entries) :
    (c.remove e).Balanced := by
  have hsum := sum_delete he
  rw [Balanced] at h
  rw [Balanced, ByteLruCache.remove]
  dsimp only
  omega

/-- An eviction takes the first entries out. -/
theorem evictWhile_entries (full : ByteLruCache o T → Bool) (turns : ℕ) (c : ByteLruCache o T) :
    c.entries.entries =
      (evictWhile full turns c).2 ++ (evictWhile full turns c).1.entries.entries := by
  induction turns generalizing c with
  | zero => rfl
  | succ turns ih =>
    rw [evictWhile]
    by_cases hfull : full c = true
    · rw [if_pos hfull]
      cases hentries : c.entries.entries with
      | nil => simp [InsertionMap.first?, hentries]
      | cons oldest rest =>
        have hfirst : c.entries.first? = some oldest := by
          rw [InsertionMap.first?, hentries]
          rfl
        rw [hfirst]
        dsimp only
        rw [List.cons_append, ← ih (c.remove oldest)]
        exact congrArg _ (InsertionMap.delete_first hentries).symm
    · rw [if_neg hfull]
      rfl

theorem Balanced.evictWhile (full : ByteLruCache o T → Bool) (turns : ℕ) (h : c.Balanced) :
    (evictWhile full turns c).1.Balanced := by
  induction turns generalizing c with
  | zero => exact h
  | succ turns ih =>
    rw [ByteLruCache.evictWhile]
    by_cases hfull : full c = true
    · rw [if_pos hfull]
      cases hfirst : c.entries.first? with
      | none => exact h
      | some oldest => exact ih (h.remove (List.mem_of_head? hfirst))
    · rw [if_neg hfull]
      exact h

/-- An eviction with enough turns ends when the cache is no longer full, or is empty. -/
theorem not_full_evictWhile {full : ByteLruCache o T → Bool} {turns : ℕ}
    (hturns : c.entries.size ≤ turns) : full (evictWhile full turns c).1 = false ∨
      (evictWhile full turns c).1.entries.entries = [] := by
  induction turns generalizing c with
  | zero => exact .inr (List.length_eq_zero_iff.1 (Nat.le_zero.1 hturns))
  | succ turns ih =>
    rw [evictWhile]
    by_cases hfull : full c = true
    · rw [if_pos hfull]
      cases hentries : c.entries.entries with
      | nil => exact .inr (by simp [InsertionMap.first?, hentries])
      | cons oldest rest =>
        have hfirst : c.entries.first? = some oldest := by
          rw [InsertionMap.first?, hentries]
          rfl
        rw [hfirst]
        refine ih ?_
        have hrest : (c.remove oldest).entries.entries = rest := InsertionMap.delete_first hentries
        rw [InsertionMap.size, hentries, List.length_cons] at hturns
        rw [InsertionMap.size, hrest]
        omega
    · rw [if_neg hfull]
      exact .inl (Bool.not_eq_true _ ▸ hfull)

theorem removeKey_entries (c : ByteLruCache o T) (key : String) :
    (c.removeKey key).1.entries.entries = (c.entries.delete key).entries := by
  rw [removeKey]
  cases hget : c.entries.get? key with
  | none => exact (InsertionMap.delete_of_get?_eq_none hget).symm
  | some existing => rfl

theorem Balanced.removeKey (h : c.Balanced) (key : String) : (c.removeKey key).1.Balanced := by
  rw [ByteLruCache.removeKey]
  cases hget : c.entries.get? key with
  | none => exact h
  | some existing => exact h.remove (InsertionMap.get?_eq_some.1 hget)

/-- The entry of a key apart from the others. -/
theorem removeKey_perm (c : ByteLruCache o T) (key : String) :
    c.entries.entries.Perm ((c.removeKey key).1.entries.entries ++ (c.removeKey key).2) := by
  rw [removeKey_entries, removeKey]
  cases hget : c.entries.get? key with
  | none => rw [InsertionMap.delete_of_get?_eq_none hget, List.append_nil]
  | some existing =>
    exact (InsertionMap.perm_cons_delete (InsertionMap.get?_eq_some.1 hget)).trans
      (List.perm_append_singleton _ _).symm

/-- A value goes to the end of what an eviction keeps, within the caps. -/
theorem place_spec (h : c.Balanced) (key : String) (value : T) {chargedBytes effectiveMaxBytes : ℕ}
    (hroom : ¬Oversized o chargedBytes effectiveMaxBytes) :
    ∃ evicted kept, (c.entries.delete key).entries = evicted ++ kept ∧
      (c.place key value chargedBytes effectiveMaxBytes).1.entries.entries =
        kept ++ [(key, { value, byteLength := chargedBytes })] ∧
      (c.place key value chargedBytes effectiveMaxBytes).2 = (c.removeKey key).2 ++ evicted ∧
      (c.place key value chargedBytes effectiveMaxBytes).1.Balanced ∧
      (c.place key value chargedBytes effectiveMaxBytes).1.byteLength ≤ effectiveMaxBytes ∧
      (c.place key value chargedBytes effectiveMaxBytes).1.entries.size ≤ o.maxEntries := by
  rw [Oversized, not_or, not_lt] at hroom
  let full : ByteLruCache o T → Bool := fun c =>
    o.maxEntries ≤ c.entries.size ∨ effectiveMaxBytes < c.byteLength + chargedBytes
  let replaced := (c.removeKey key).1
  let left := (evictWhile full replaced.entries.size replaced).1
  have hsplit := evictWhile_entries full replaced.entries.size replaced
  have hbal : left.Balanced := (h.removeKey key).evictWhile full _
  have hfull : full left = false ∨ left.entries.entries = [] := not_full_evictWhile le_rfl
  have hplaced : (c.place key value chargedBytes effectiveMaxBytes).1.entries.entries =
      left.entries.entries ++ [(key, { value, byteLength := chargedBytes })] := by
    refine InsertionMap.set_of_get?_eq_none (InsertionMap.get?_eq_none.2 fun e he => ?_)
    have hin : e ∈ (c.entries.delete key).entries := by
      rw [← removeKey_entries, hsplit]
      exact List.mem_append_right _ he
    exact (InsertionMap.mem_delete.1 hin).2
  have hroom' : left.byteLength + chargedBytes ≤ effectiveMaxBytes ∧
      left.entries.entries.length + 1 ≤ o.maxEntries := by
    rcases hfull with hfull | hempty
    · have hlt := of_decide_eq_false hfull
      rw [not_or, InsertionMap.size] at hlt
      omega
    · rw [Balanced, hempty] at hbal
      rw [hbal, hempty]
      exact ⟨(Nat.zero_add _).trans_le hroom.1, Nat.pos_of_ne_zero hroom.2⟩
  refine ⟨(evictWhile full replaced.entries.size replaced).2, left.entries.entries, ?_, hplaced,
    rfl, ?_, hroom'.1, ?_⟩
  · rw [← removeKey_entries]
    exact hsplit
  · rw [Balanced, hplaced, List.map_append, List.sum_append, ← hbal]
    rfl
  · rw [InsertionMap.size, hplaced, List.length_append]
    exact hroom'.2

theorem le_of_charge {byteLength : ℤ} {maxBytes : Option ℤ} {chargedBytes effectiveMaxBytes : ℕ}
    (h : charge o byteLength maxBytes = .ok (chargedBytes, effectiveMaxBytes)) :
    effectiveMaxBytes ≤ o.maxBytes := by
  obtain ⟨_, _, h⟩ := Result.bind_eq_ok.1 h
  obtain ⟨cap, _, h⟩ := Result.bind_eq_ok.1 h
  cases h
  exact min_le_left _ _

/-- Deleting some of the entries leaves the others in their order. -/
theorem deleteEach_spec (predicate : String → T → Bool) {es : List (Removal T)}
    (hnodup : (es.map Prod.fst).Nodup) (hmem : ∀ e ∈ es, e ∈ c.entries.entries)
    (h : c.Balanced) : (deleteEach predicate es c).1.Balanced ∧
      (deleteEach predicate es c).1.entries.entries.Sublist c.entries.entries ∧
      c.entries.entries.Perm ((deleteEach predicate es c).1.entries.entries ++
        (deleteEach predicate es c).2) := by
  induction es generalizing c with
  | nil => exact ⟨h, List.Sublist.refl _, by rw [deleteEach, List.append_nil]⟩
  | cons e es ih =>
    obtain ⟨hhead, htail⟩ := List.nodup_cons.1 hnodup
    have he := hmem e List.mem_cons_self
    rw [deleteEach]
    split_ifs with hp
    · have hmem' : ∀ e' ∈ es, e' ∈ (c.remove e).entries.entries := fun e' he' =>
        InsertionMap.mem_delete.2 ⟨hmem e' (List.mem_cons_of_mem _ he'), fun hkey =>
          hhead (hkey ▸ List.mem_map_of_mem he')⟩
      obtain ⟨hbal, hsub, hperm⟩ := ih htail hmem' (h.remove he)
      refine ⟨hbal, hsub.trans List.filter_sublist, ?_⟩
      exact ((InsertionMap.perm_cons_delete he).trans (hperm.cons e)).trans List.perm_middle.symm
    · exact ih htail (fun e' he' => hmem e' (List.mem_cons_of_mem _ he')) h

end ByteLruCache

/-- What a call can do to a cache: the cache after it, and the entries it removes. -/
inductive Effect (c : ByteLruCache o T) : CacheCall T → ByteLruCache o T → List (Removal T) → Prop
  /-- It does nothing, and uses no key that is cached. -/
  | keep {call : CacheCall T} (hstored : call.stored o = none)
      (huses : ∀ e ∈ c.entries.entries, call.uses o e.1 = false) : Effect c call c []
  /-- It reads an entry, which goes to the end. -/
  | read {key : String} {entry : CacheEntry T} {c' : ByteLruCache o T}
      (hget : c.entries.get? key = some entry)
      (hentries : c'.entries.entries = (c.entries.delete key).entries ++ [(key, entry)])
      (hbytes : c'.byteLength = c.byteLength) : Effect c (.get key) c' []
  /-- It stores an entry at the end of those that its evictions keep. -/
  | store {key : String} {value : T} {byteLength : ℤ} {maxBytes : Option ℤ}
      {chargedBytes effectiveMaxBytes : ℕ} {c' : ByteLruCache o T} {evicted kept : List (Removal T)}
      (hstored : (CacheCall.set key value byteLength maxBytes).stored o =
        some (key, value, chargedBytes, effectiveMaxBytes))
      (hdelete : (c.entries.delete key).entries = evicted ++ kept)
      (hentries : c'.entries.entries = kept ++ [(key, { value, byteLength := chargedBytes })])
      (hcap : effectiveMaxBytes ≤ o.maxBytes) (hbytes : c'.byteLength ≤ effectiveMaxBytes)
      (hsize : c'.entries.size ≤ o.maxEntries) :
      Effect c (.set key value byteLength maxBytes) c' ((c.removeKey key).2 ++ evicted)
  /-- It evicts the first entries. -/
  | trim {maxBytes : ℤ} {c' : ByteLruCache o T} {evicted : List (Removal T)}
      (hentries : c.entries.entries = evicted ++ c'.entries.entries) :
      Effect c (.trimTo maxBytes) c' evicted
  /-- It deletes some entries. -/
  | delete {call : CacheCall T} {c' : ByteLruCache o T} {removed : List (Removal T)}
      (hstored : call.stored o = none) (huses : ∀ key, call.uses o key = false)
      (hevicts : ∀ e, call.evicts e = false)
      (hsublist : c'.entries.entries.Sublist c.entries.entries)
      (hperm : c.entries.entries.Perm (c'.entries.entries ++ removed)) :
      Effect c call c' removed

variable {key : String} {maxBytes : Option ℤ}

variable {byteLength : ℤ} {value : T}

/-- A call of `set` in terms of what it writes. -/
theorem call_set {c : ByteLruCache o T} {chargedBytes effectiveMaxBytes : ℕ}
    (h : ByteLruCache.charge o byteLength maxBytes = .ok (chargedBytes, effectiveMaxBytes)) :
    c.call (.set key value byteLength maxBytes) =
      if ByteLruCache.Oversized o chargedBytes effectiveMaxBytes then (c, [])
      else c.place key value chargedBytes effectiveMaxBytes := by
  rw [ByteLruCache.call, ByteLruCache.set, h]
  rfl

theorem stored_set {chargedBytes effectiveMaxBytes : ℕ}
    (h : ByteLruCache.charge o byteLength maxBytes = .ok (chargedBytes, effectiveMaxBytes)) :
    (CacheCall.set key value byteLength maxBytes).stored o =
      if ByteLruCache.Oversized o chargedBytes effectiveMaxBytes then none
      else some (key, value, chargedBytes, effectiveMaxBytes) := by
  rw [CacheCall.stored, CacheCall.written, h]
  by_cases hover : ByteLruCache.Oversized o chargedBytes effectiveMaxBytes
  · rw [if_pos hover]
    simp [hover]
  · rw [if_neg hover]
    simp [hover]

theorem uses_eq_false {call : CacheCall T} (h : call.stored o = none)
    (hget : ∀ key, call ≠ .get key) (key : String) : call.uses o key = false := by
  cases call with
  | get read => exact absurd rfl (hget read)
  | set => exact congrArg (Option.any fun w : String × T × ℕ × ℕ => decide (w.1 = key)) h
  | _ => rfl

/-- Every call has one of these effects, and the bytes stay those of the entries. -/
theorem call_effect {c : ByteLruCache o T} (h : c.Balanced) (call : CacheCall T) :
    Effect c call (c.call call).1 (c.call call).2 ∧ (c.call call).1.Balanced := by
  cases call with
  | get key =>
    rw [ByteLruCache.call, ByteLruCache.get]
    cases hget : c.entries.get? key with
    | none =>
      exact ⟨.keep rfl fun e he => decide_eq_false
        (InsertionMap.get?_eq_none.1 hget e he).symm, h⟩
    | some entry =>
      have hentries : ((c.entries.delete key).set key entry).entries =
        (c.entries.delete key).entries ++ [(key, entry)] := InsertionMap.set_delete
      refine ⟨.read hget hentries rfl, ?_⟩
      have hsum := ByteLruCache.sum_delete (InsertionMap.get?_eq_some.1 hget)
      rw [ByteLruCache.Balanced] at h ⊢
      dsimp only
      rw [hentries, List.map_append, List.sum_append, h, hsum]
      exact Nat.add_comm _ _
  | set key value byteLength maxBytes =>
    cases hcharge : ByteLruCache.charge o byteLength maxBytes with
    | error error =>
      have hstored : (CacheCall.set key value byteLength maxBytes).stored o = none := by
        rw [CacheCall.stored, CacheCall.written, hcharge]
        rfl
      rw [ByteLruCache.call, ByteLruCache.set, hcharge]
      exact ⟨.keep hstored fun e _ => uses_eq_false hstored (fun _ h => by cases h) e.1, h⟩
    | ok charged =>
      have hstored : (CacheCall.set key value byteLength maxBytes).stored o = _ :=
        stored_set hcharge
      rw [call_set hcharge]
      by_cases hover : ByteLruCache.Oversized o charged.1 charged.2
      · rw [if_pos hover] at hstored ⊢
        exact ⟨.keep hstored fun e _ => uses_eq_false hstored (fun _ h => by cases h) e.1, h⟩
      · rw [if_neg hover] at hstored ⊢
        obtain ⟨evicted, kept, hdelete, hentries, hremoved, hbal, hbytes, hsize⟩ :=
          c.place_spec h key value hover
        rw [hremoved]
        exact ⟨.store hstored hdelete hentries (ByteLruCache.le_of_charge hcharge) hbytes hsize,
          hbal⟩
  | trimTo maxBytes =>
    rw [ByteLruCache.call, ByteLruCache.trimTo]
    cases safeInteger "maxBytes" maxBytes with
    | error error => exact ⟨.trim rfl, h⟩
    | ok cap => exact ⟨.trim (ByteLruCache.evictWhile_entries _ _ c), h.evictWhile _ _⟩
  | deleteWhere predicate =>
    obtain ⟨hbal, hsub, hperm⟩ := ByteLruCache.deleteEach_spec predicate c.entries.nodup
      (fun _ he => he) h
    exact ⟨.delete rfl (fun _ => rfl) (fun _ => rfl) hsub hperm, hbal⟩
  | clear =>
    exact ⟨.delete rfl (fun _ => rfl) (fun _ => rfl) (List.nil_sublist _) (List.Perm.refl _), rfl⟩

/-! ## The order of uses -/

theorem lastUse_le (key : String) (calls : List (CacheCall T)) :
    lastUse o key calls ≤ calls.length := by
  induction calls with
  | nil => exact le_rfl
  | cons call calls ih =>
    rw [lastUse]
    split_ifs
    · exact le_rfl
    · exact ih.trans (Nat.le_succ _)

theorem lastUse_of_uses {call : CacheCall T} (h : call.uses o key = true)
    (calls : List (CacheCall T)) : lastUse o key (call :: calls) = calls.length + 1 := if_pos h

theorem lastUse_of_not_uses {call : CacheCall T} (h : call.uses o key = false)
    (calls : List (CacheCall T)) : lastUse o key (call :: calls) = lastUse o key calls :=
  if_neg (by rw [h]; exact Bool.false_ne_true)

/-- Entries in the order of their last uses. -/
def InOrder (o : CacheOptions) (calls : List (CacheCall T)) (entries : List (Removal T)) : Prop :=
  entries.Pairwise fun e e' => lastUse o e.1 calls < lastUse o e'.1 calls

variable {entries : List (Removal T)} {calls : List (CacheCall T)} {call : CacheCall T}

theorem InOrder.sublist (h : InOrder o calls entries) {entries' : List (Removal T)}
    (hsub : entries'.Sublist entries) : InOrder o calls entries' :=
  List.Pairwise.sublist hsub h

/-- A call that uses none of the entries leaves their order. -/
theorem InOrder.of_not_uses (h : InOrder o calls entries)
    (huses : ∀ e ∈ entries, call.uses o e.1 = false) : InOrder o (call :: calls) entries :=
  h.imp_of_mem fun he he' hlt => by
    rw [lastUse_of_not_uses (huses _ he), lastUse_of_not_uses (huses _ he')]
    exact hlt

/-- The entry that a call uses goes to the end. -/
theorem InOrder.concat (h : InOrder o calls entries) {e : Removal T}
    (huses : ∀ key, call.uses o key = decide (e.1 = key)) (hne : ∀ e' ∈ entries, e'.1 ≠ e.1) :
    InOrder o (call :: calls) (entries ++ [e]) := by
  have hnot : ∀ e' ∈ entries, call.uses o e'.1 = false := fun e' he' =>
    (huses e'.1).trans (decide_eq_false (hne e' he').symm)
  refine List.pairwise_append.2 ⟨h.of_not_uses hnot, List.pairwise_singleton _ _, ?_⟩
  intro e' he' e'' he''
  rw [List.mem_singleton.1 he'', lastUse_of_not_uses (hnot e' he'),
    lastUse_of_uses ((huses e.1).trans (decide_eq_true rfl))]
  exact Nat.lt_succ_of_le (lastUse_le _ _)

/-! ## What holds in every run -/

/-- A cache within its caps, whose entries are in the order of their last uses. -/
structure CacheSession.Kept (s : CacheSession o T) : Prop where
  balanced : s.cache.Balanced
  byteLength_le : s.cache.byteLength ≤ o.maxBytes
  size_le : s.cache.entries.size ≤ o.maxEntries
  inOrder : InOrder o s.calls s.cache.entries.entries

variable {s : CacheSession o T}

theorem byteLength_sublist {c c' : ByteLruCache o T} (hbal : c.Balanced) (hbal' : c'.Balanced)
    (h : c'.entries.entries.Sublist c.entries.entries) : c'.byteLength ≤ c.byteLength := by
  rw [ByteLruCache.Balanced] at hbal hbal'
  rw [hbal, hbal']
  exact (h.map _).sum_le_sum fun _ _ => Nat.zero_le _

theorem uses_of_stored
    {w : String × T × ℕ × ℕ} (h : (CacheCall.set key value byteLength maxBytes).stored o = some w)
    (key' : String) :
    (CacheCall.set key value byteLength maxBytes).uses o key' = decide (w.1 = key') :=
  congrArg (Option.any fun w : String × T × ℕ × ℕ => decide (w.1 = key')) h

/-- Every call keeps the cache within its caps and in order. -/
theorem CacheSession.Kept.step (h : s.Kept) (call : CacheCall T) : (s.step call).Kept := by
  obtain ⟨heffect, hbal⟩ := call_effect h.balanced call
  have hsub : (s.cache.call call).1.entries.entries.Sublist s.cache.entries.entries →
      (s.cache.call call).1.byteLength ≤ o.maxBytes ∧
        (s.cache.call call).1.entries.size ≤ o.maxEntries := fun hsub =>
    ⟨(byteLength_sublist h.balanced hbal hsub).trans h.byteLength_le,
      hsub.length_le.trans h.size_le⟩
  have hdelete : ∀ key, ∀ e ∈ (s.cache.entries.delete key).entries, e.1 ≠ key :=
    fun key e he => (InsertionMap.mem_delete.1 he).2
  generalize hresult : s.cache.call call = result at heffect hbal hsub
  obtain ⟨c', removed⟩ := result
  have hcache : (s.step call).cache = c' := congrArg Prod.fst hresult
  suffices hkept : c'.byteLength ≤ o.maxBytes ∧ c'.entries.size ≤ o.maxEntries ∧
      InOrder o (call :: s.calls) c'.entries.entries by
    rw [← hcache] at hkept hbal
    exact ⟨hbal, hkept.1, hkept.2.1, hkept.2.2⟩
  dsimp only at heffect hbal hsub
  cases heffect with
  | keep hstored huses =>
    exact ⟨h.byteLength_le, h.size_le, h.inOrder.of_not_uses huses⟩
  | @read key entry _ hget hentries hbytes =>
    refine ⟨hbytes ▸ h.byteLength_le, ?_, ?_⟩
    · have hlength := (InsertionMap.perm_cons_delete (InsertionMap.get?_eq_some.1 hget)).length_eq
      have hsize := h.size_le
      rw [InsertionMap.size, hlength, List.length_cons] at hsize
      rw [InsertionMap.size, hentries, List.length_append]
      exact hsize
    · rw [hentries]
      exact (h.inOrder.sublist List.filter_sublist).concat (fun _ => rfl) (hdelete key)
  | @store key value byteLength maxBytes chargedBytes effectiveMaxBytes _ evicted kept hstored
      hsplit hentries hcap hbytes hsize =>
    refine ⟨hbytes.trans hcap, hsize, ?_⟩
    have hkept : kept.Sublist (s.cache.entries.delete key).entries :=
      hsplit ▸ List.sublist_append_right _ _
    rw [hentries]
    exact (h.inOrder.sublist (hkept.trans List.filter_sublist)).concat (uses_of_stored hstored)
      fun e he => hdelete key e (hkept.subset he)
  | trim hentries =>
    have hsublist : c'.entries.entries.Sublist s.cache.entries.entries :=
      hentries ▸ List.sublist_append_right _ _
    exact ⟨(hsub hsublist).1, (hsub hsublist).2,
      (h.inOrder.sublist hsublist).of_not_uses fun _ _ => rfl⟩
  | delete hstored huses hevicts hsublist hperm =>
    exact ⟨(hsub hsublist).1, (hsub hsublist).2,
      (h.inOrder.sublist hsublist).of_not_uses fun _ _ => huses _⟩

/-- The values that are read are the last ones set. -/
def CacheSession.Fresh (s : CacheSession o T) : Prop :=
  ∀ key value, (s.cache.get key).2 = some value → latest o key s.calls = some value

/-- A call sets a value that there is no room for, while another value of its key is cached. -/
def CacheSession.Supersedes (s : CacheSession o T) (call : CacheCall T) : Prop :=
  ∃ w, call.written o = some w ∧ ByteLruCache.Oversized o w.2.2.1 w.2.2.2 ∧
    ∃ entry, s.cache.entries.get? w.1 = some entry ∧ entry.value ≠ w.2.1

theorem get_eq_some {c : ByteLruCache o T} :
    (c.get key).2 = some value ↔
      ∃ entry, (key, entry) ∈ c.entries.entries ∧ entry.value = value := by
  simp only [← InsertionMap.get?_eq_some]
  rw [ByteLruCache.get]
  cases c.entries.get? key with
  | none => simp
  | some entry => simp

theorem stored_eq_some {call : CacheCall T} {w : String × T × ℕ × ℕ} :
    call.stored o = some w ↔
      call.written o = some w ∧ ¬ByteLruCache.Oversized o w.2.2.1 w.2.2.2 := by
  rw [CacheCall.stored, Option.filter_eq_some_iff, Bool.not_eq_true', decide_eq_false_iff_not]

/-- An entry that stays is as fresh as before, if the call supersedes no value. -/
theorem fresh_of_mem (h : s.Fresh) (hnot : ¬s.Supersedes call)
    {entry : CacheEntry T} (hmem : (key, entry) ∈ s.cache.entries.entries)
    (hstored : ∀ w, call.stored o = some w → w.1 ≠ key) :
    latest o key (call :: s.calls) = some entry.value := by
  have hold := h key entry.value (get_eq_some.2 ⟨entry, hmem, rfl⟩)
  rw [latest]
  cases hwritten : call.written o with
  | none => exact hold
  | some w =>
    dsimp only
    split_ifs with hkey
    · subst hkey
      have hover : ByteLruCache.Oversized o w.2.2.1 w.2.2.2 := by
        by_contra hroom
        exact hstored w (stored_eq_some.2 ⟨hwritten, hroom⟩) rfl
      by_contra hne
      refine hnot ⟨w, hwritten, hover, entry, InsertionMap.get?_eq_some.2 hmem, fun heq => ?_⟩
      exact hne (congrArg some heq.symm)
    · exact hold

/-- A call that supersedes no value keeps the values fresh. -/
theorem CacheSession.Fresh.step (hkept : s.Kept) (h : s.Fresh) (hnot : ¬s.Supersedes call) :
    (s.step call).Fresh := by
  obtain ⟨heffect, -⟩ := call_effect hkept.balanced call
  intro key value hvalue
  obtain ⟨entry, hmem, rfl⟩ := get_eq_some.1 hvalue
  rw [CacheSession.step] at hmem ⊢
  dsimp only at hmem ⊢
  generalize hresult : s.cache.call call = result at heffect hmem
  obtain ⟨c', removed⟩ := result
  dsimp only at heffect hmem
  cases heffect with
  | keep hstored => exact fresh_of_mem h hnot hmem fun w hw => by rw [hstored] at hw; cases hw
  | @read key' entry' _ hget hentries =>
    have hold : (key, entry) ∈ s.cache.entries.entries := by
      rw [hentries] at hmem
      rcases List.mem_append.1 hmem with hmem | hmem
      · exact (InsertionMap.mem_delete.1 hmem).1
      · rw [List.mem_singleton.1 hmem]
        exact InsertionMap.get?_eq_some.1 hget
    exact fresh_of_mem h hnot hold fun w hw => by cases hw
  | @store key' value byteLength maxBytes chargedBytes effectiveMaxBytes _ evicted kept hstored
      hsplit hentries =>
    rw [hentries] at hmem
    rcases List.mem_append.1 hmem with hmem | hmem
    · have hdelete : (key, entry) ∈ (s.cache.entries.delete key').entries := by
        rw [hsplit]
        exact List.mem_append_right _ hmem
      obtain ⟨hold, hne⟩ := InsertionMap.mem_delete.1 hdelete
      refine fresh_of_mem h hnot hold fun w hw => ?_
      rw [← Option.some.inj (hstored.symm.trans hw)]
      exact Ne.symm hne
    · cases List.mem_singleton.1 hmem
      rw [latest, (stored_eq_some.1 hstored).1]
      exact if_pos rfl
  | trim hentries =>
    refine fresh_of_mem h hnot ?_ fun w hw => by cases hw
    rw [hentries]
    exact List.mem_append_right _ hmem
  | delete hstored huses hevicts hsublist =>
    exact fresh_of_mem h hnot (hsublist.subset hmem) fun w hw => by rw [hstored] at hw; cases hw

/-- A call that supersedes a value leaves it readable. -/
theorem not_fresh_of_supersedes (h : s.Supersedes call) : ¬(s.step call).Fresh := by
  obtain ⟨w, hwritten, hover, entry, hget, hne⟩ := h
  intro hfresh
  have hcall : s.cache.call call = (s.cache, []) := by
    cases call with
    | set key value byteLength maxBytes =>
      rw [CacheCall.written] at hwritten
      cases hcharge : ByteLruCache.charge o byteLength maxBytes with
      | error error =>
        rw [hcharge] at hwritten
        cases hwritten
      | ok charged =>
        rw [hcharge] at hwritten
        cases hwritten
        rw [call_set hcharge, if_pos hover]
    | _ => cases hwritten
  have hread := hfresh w.1 entry.value (get_eq_some.2 ⟨entry, by
    rw [CacheSession.step, hcall]
    exact InsertionMap.get?_eq_some.1 hget, rfl⟩)
  rw [CacheSession.step, latest, hwritten] at hread
  dsimp only at hread
  rw [if_pos rfl] at hread
  exact hne (Option.some.inj hread).symm

/-- A call on a cache that is kept is served, if the values are fresh after it. -/
theorem served_of_fresh (h : s.Kept) (hfresh : (s.step call).Fresh) : Served s call := by
  obtain ⟨heffect, -⟩ := call_effect h.balanced call
  have hstep := h.step call
  -- The entries are kept in the order of their last use.
  have horder : ∀ {evicted kept : List (Removal T)}, (evicted ++ kept).Sublist
      s.cache.entries.entries → InOrder o s.calls evicted ∧ ∀ e ∈ evicted, ∀ e' ∈ kept,
        lastUse o e.1 s.calls < lastUse o e'.1 s.calls := fun hsub =>
    let hpair := List.pairwise_append.1 (h.inOrder.sublist hsub)
    ⟨hpair.1, hpair.2.2⟩
  suffices hrest : (∀ w, call.stored o = some w → (s.cache.call call).1.byteLength ≤ w.2.2.2) ∧
      (s.cache.entries.entries ++ (call.storedEntry o).toList).Perm
        ((s.cache.call call).1.entries.entries ++ (s.cache.call call).2) ∧
      (∀ e ∈ (s.cache.call call).2, call.evicts e → ∀ e' ∈ s.cache.entries.entries,
        call.evicts e' → e' ∈ (s.cache.call call).1.entries.entries →
        lastUse o e.1 s.calls < lastUse o e'.1 s.calls) ∧
      InOrder o s.calls ((s.cache.call call).2.filter call.evicts) from
    { current := hfresh
      byteLength := hstep.balanced
      byteLength_le := hstep.byteLength_le
      byteLength_le_cap := hrest.1
      size_le := hstep.size_le
      removed := hrest.2.1
      evicted := hrest.2.2.1
      evicted_order := hrest.2.2.2 }
  generalize s.cache.call call = result at heffect
  obtain ⟨c', removed⟩ := result
  dsimp only at heffect ⊢
  cases heffect with
  | keep hstored huses =>
    rw [CacheCall.storedEntry, hstored]
    exact ⟨(fun w hw => by cases hw), List.Perm.refl _, (fun e he => by cases he),
      List.Pairwise.nil⟩
  | @read key entry _ hget hentries hbytes =>
    refine ⟨(fun w hw => by cases hw), ?_, (fun e he => by cases he), List.Pairwise.nil⟩
    rw [hentries]
    refine List.Perm.append_right _ ?_
    exact (InsertionMap.perm_cons_delete (InsertionMap.get?_eq_some.1 hget)).trans
      (List.perm_append_singleton _ _).symm
  | @store key value byteLength maxBytes chargedBytes effectiveMaxBytes _ evicted kept hstored
      hsplit hentries hcap hbytes hsize =>
    have hsub : (evicted ++ kept).Sublist s.cache.entries.entries :=
      hsplit ▸ List.filter_sublist
    -- The value that is replaced is removed first, and does not count as evicted.
    have hkey : ∀ e ∈ (s.cache.removeKey key).2,
        (CacheCall.set key value byteLength maxBytes).evicts e = false := by
      intro e he
      rw [ByteLruCache.removeKey] at he
      cases hget : s.cache.entries.get? key with
      | none =>
        rw [hget] at he
        cases he
      | some existing =>
        rw [hget] at he
        rw [List.mem_singleton.1 he, CacheCall.evicts]
        exact decide_eq_false (not_not.2 rfl)
    have hevicted : ∀ e ∈ (s.cache.removeKey key).2 ++ evicted,
        (CacheCall.set key value byteLength maxBytes).evicts e → e ∈ evicted := by
      intro e he hevicts
      refine (List.mem_append.1 he).resolve_left fun he => ?_
      rw [hkey e he] at hevicts
      cases hevicts
    refine ⟨fun w hw => ?_, ?_, fun e he hevicts e' he' hevicts' hstays => ?_, ?_⟩
    · rw [← Option.some.inj (hstored.symm.trans hw)]
      exact hbytes
    · rw [CacheCall.storedEntry, hstored, hentries]
      have hperm := s.cache.removeKey_perm key
      rw [ByteLruCache.removeKey_entries, hsplit] at hperm
      refine (hperm.append_right _).trans ?_
      simp only [Option.map_some, Option.toList_some, List.append_assoc]
      refine (@List.perm_append_comm _ evicted _).trans ?_
      simp only [List.append_assoc]
      refine List.Perm.append_left kept ?_
      exact List.perm_append_comm_assoc _ _ _
    · rw [hentries] at hstays
      refine (horder hsub).2 e (hevicted e he hevicts) e' ?_
      refine (List.mem_append.1 hstays).resolve_right fun hnew => ?_
      rw [List.mem_singleton.1 hnew, CacheCall.evicts] at hevicts'
      exact of_decide_eq_true hevicts' rfl
    · rw [List.filter_append, List.filter_eq_nil_iff.2 fun e he => by rw [hkey e he]; decide]
      exact (horder hsub).1.sublist List.filter_sublist
  | @trim maxBytes _ _ hentries =>
    have hsub : (removed ++ c'.entries.entries).Sublist s.cache.entries.entries :=
      hentries ▸ List.Sublist.refl _
    refine ⟨(fun w hw => by cases hw), ?_,
      fun e he _ e' _ _ hstays => (horder hsub).2 e he e' hstays,
      (horder hsub).1.sublist List.filter_sublist⟩
    rw [hentries]
    exact (List.append_nil _).symm ▸ List.perm_append_comm
  | delete hstored huses hevicts hsublist hperm =>
    refine ⟨(fun w hw => by rw [hstored] at hw; cases hw), ?_, fun e _ h => ?_, ?_⟩
    · rw [CacheCall.storedEntry, hstored]
      exact (List.append_nil _).symm ▸ hperm
    · rw [hevicts e] at h
      cases h
    · rw [List.filter_eq_nil_iff.2 fun e _ => by rw [hevicts e]; decide]
      exact List.Pairwise.nil

theorem kept_start (o : CacheOptions) (T : Type) : (CacheSession.start o T).Kept :=
  ⟨rfl, Nat.zero_le _, Nat.zero_le _, .nil⟩

/-- A run of calls is served throughout if and only if none of its calls supersedes a value that
    there is no room for. -/
theorem served_iff (o : CacheOptions) (calls : List (CacheCall T)) :
    Run.Along CacheSession.step Served (CacheSession.start o T) calls ↔
      Run.Along CacheSession.step (fun s call => ¬s.Supersedes call) (CacheSession.start o T)
        calls := by
  refine Run.along_iff (I := fun s => s.Kept ∧ s.Fresh) ?_ ?_ ⟨kept_start o T, ?_⟩
  · intro s call hs hnot
    exact ⟨hs.1.step call, hs.2.step hs.1 hnot⟩
  · intro s call hs
    exact ⟨fun hserved hsup => not_fresh_of_supersedes hsup hserved.current,
      fun hnot => served_of_fresh hs.1 (hs.2.step hs.1 hnot)⟩
  · intro key value h
    cases h

/-- A value of 100 bytes for a key that has one in a cache of ten bytes. -/
theorem oversized_not_served : ¬Run.Along CacheSession.step Served
    (CacheSession.start ⟨10, 4, 0⟩ ℕ) [.set "k" 1 1 none, .set "k" 2 100 none] := by
  intro h
  have hcurrent := h.2.1.current "k" 1 rfl
  cases hcurrent

end Tabulark.Engine
