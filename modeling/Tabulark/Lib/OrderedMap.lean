import Mathlib

/-!
# Maps with ordered keys

An ordered map is the list of its entries, in the order of their keys. Besides
insertion and removal there are the neighbours of a key: the last entry up to it
(`lastLE`, `lastLT`) and the first entry from it on (`firstGE`).
-/

namespace Tabulark.OrderedMap

variable {κ α : Type} [LinearOrder κ]

/-- The entries are in the order of their keys. -/
def Ordered (m : List (κ × α)) : Prop := m.Pairwise fun a b => a.1 < b.1

/-- The last entry whose key has a property. -/
def lastOf (m : List (κ × α)) (p : κ → Prop) [DecidablePred p] : Option (κ × α) :=
  (m.filter fun e => p e.1).getLast?

/-- The last entry whose key is at most `k`. -/
def lastLE (m : List (κ × α)) (k : κ) : Option (κ × α) := lastOf m (· ≤ k)

/-- The last entry whose key is less than `k`. -/
def lastLT (m : List (κ × α)) (k : κ) : Option (κ × α) := lastOf m (· < k)

/-- The first entry whose key is at least `k`. -/
def firstGE (m : List (κ × α)) (k : κ) : Option (κ × α) := m.find? fun e => k ≤ e.1

/-- The value of a key. -/
def get? (m : List (κ × α)) (k : κ) : Option α := (m.find? fun e => e.1 = k).map (·.2)

/-- The map without a key. -/
def erase (m : List (κ × α)) (k : κ) : List (κ × α) := m.filter fun e => e.1 ≠ k

/-- The map with a new value for a key. -/
def insert (m : List (κ × α)) (k : κ) (v : α) : List (κ × α) :=
  (m.filter fun e => e.1 < k) ++ (k, v) :: m.filter fun e => k < e.1

variable {m : List (κ × α)} {k : κ} {e : κ × α}

/-! ## Entries -/

/-- Entries with the same key are the same. -/
theorem Ordered.eq_of_key (h : Ordered m) {e' : κ × α} (he : e ∈ m) (he' : e' ∈ m)
    (hkey : e.1 = e'.1) : e = e' := by
  induction m with
  | nil => cases he
  | cons a m ih =>
    obtain ⟨ha, hm⟩ := List.pairwise_cons.1 h
    rcases List.mem_cons.1 he with rfl | hin <;> rcases List.mem_cons.1 he' with rfl | hin'
    · rfl
    · exact absurd hkey (ha e' hin').ne
    · exact absurd hkey (ha e hin).ne'
    · exact ih hm hin hin'

/-- Of two ordered entries, the first is related to the second. -/
theorem rel_of_lt {r : κ × α → κ × α → Prop} (h : m.Pairwise r)
    (hr : ∀ a b, r a b → a.1 < b.1) {a b : κ × α} (ha : a ∈ m) (hb : b ∈ m) (hlt : a.1 < b.1) :
    r a b := by
  induction m with
  | nil => cases ha
  | cons c m ih =>
    obtain ⟨hc, hm⟩ := List.pairwise_cons.1 h
    rcases List.mem_cons.1 ha with rfl | hin <;> rcases List.mem_cons.1 hb with rfl | hin'
    · exact absurd hlt (lt_irrefl _)
    · exact hc b hin'
    · exact absurd hlt (hr _ _ (hc a hin)).not_gt
    · exact ih hm hin hin'

theorem Ordered.filter (h : Ordered m) (p : κ × α → Bool) : Ordered (m.filter p) :=
  List.Pairwise.filter p h

/-- The last of ordered entries has the greatest key. -/
theorem Ordered.le_getLast (h : Ordered m) (hlast : m.getLast? = some e) {e' : κ × α}
    (he' : e' ∈ m) : e'.1 ≤ e.1 := by
  obtain ⟨init, rfl⟩ := List.getLast?_eq_some_iff.1 hlast
  rcases List.mem_append.1 he' with he' | he'
  · exact ((List.pairwise_append.1 h).2.2 e' he' e List.mem_cons_self).le
  · rw [List.mem_singleton.1 he']

/-! ## Neighbours -/

theorem lastOf_eq_some {p : κ → Prop} [DecidablePred p] (h : Ordered m) (he : lastOf m p = some e) :
    e ∈ m ∧ p e.1 ∧ ∀ e' ∈ m, p e'.1 → e'.1 ≤ e.1 := by
  have hmem := List.mem_filter.1 (List.mem_of_getLast? he)
  refine ⟨hmem.1, of_decide_eq_true hmem.2, fun e' he' hp => ?_⟩
  exact (h.filter _).le_getLast he (List.mem_filter.2 ⟨he', decide_eq_true hp⟩)

omit [LinearOrder κ] in
theorem lastOf_eq_none {p : κ → Prop} [DecidablePred p] (he : lastOf m p = none) {e : κ × α}
    (hmem : e ∈ m) : ¬p e.1 := by
  intro hp
  rw [lastOf, List.getLast?_eq_none_iff] at he
  have hin : e ∈ m.filter fun e => p e.1 := List.mem_filter.2 ⟨hmem, decide_eq_true hp⟩
  rw [he] at hin
  cases hin

theorem firstGE_eq_some (h : Ordered m) (he : firstGE m k = some e) :
    e ∈ m ∧ k ≤ e.1 ∧ ∀ e' ∈ m, k ≤ e'.1 → e.1 ≤ e'.1 := by
  obtain ⟨hp, before, after, rfl, hbefore⟩ := List.find?_eq_some_iff_append.1 he
  refine ⟨by simp, of_decide_eq_true hp, fun e' he' hle => ?_⟩
  rcases List.mem_append.1 he' with he' | he'
  · have hnot := hbefore e' he'
    simp only [Bool.not_eq_true', decide_eq_false_iff_not] at hnot
    exact absurd hle hnot
  · rcases List.mem_cons.1 he' with rfl | he'
    · exact le_rfl
    · exact ((List.pairwise_cons.1 (List.pairwise_append.1 h).2.1).1 e' he').le

theorem firstGE_eq_none (he : firstGE m k = none) {e : κ × α} (hmem : e ∈ m) : e.1 < k := by
  have hnot := List.find?_eq_none.1 he e hmem
  rw [decide_eq_true_eq, not_le] at hnot
  exact hnot

/-! ## Changes -/

variable {v : α}

theorem mem_of_get? (h : get? m k = some v) : (k, v) ∈ m := by
  obtain ⟨⟨k', v'⟩, hfind, rfl⟩ := Option.map_eq_some_iff.1 h
  have hkey := List.find?_some hfind
  rw [decide_eq_true_eq] at hkey
  subst hkey
  exact List.mem_of_find?_eq_some hfind

theorem get?_eq_none (h : get? m k = none) {e : κ × α} (hmem : e ∈ m) : e.1 ≠ k := by
  have hnot := List.find?_eq_none.1 (Option.map_eq_none_iff.1 h) e hmem
  rwa [decide_eq_true_eq] at hnot

@[simp] theorem mem_erase : e ∈ erase m k ↔ e ∈ m ∧ e.1 ≠ k := by simp [erase]

theorem mem_insert : e ∈ insert m k v ↔ e = (k, v) ∨ e ∈ m ∧ e.1 ≠ k := by
  rw [insert, List.mem_append, List.mem_cons, List.mem_filter, List.mem_filter,
    decide_eq_true_eq, decide_eq_true_eq]
  constructor
  · rintro (⟨he, hlt⟩ | rfl | ⟨he, hlt⟩)
    · exact .inr ⟨he, hlt.ne⟩
    · exact .inl rfl
    · exact .inr ⟨he, hlt.ne'⟩
  · rintro (rfl | ⟨he, hne⟩)
    · exact .inr (.inl rfl)
    · rcases lt_or_gt_of_ne hne with hlt | hlt
      · exact .inl ⟨he, hlt⟩
      · exact .inr (.inr ⟨he, hlt⟩)

/-- Keys are found among the entries that a filter keeps. -/
theorem find?_filter_key {p : κ × α → Bool} {k : κ} (h : ∀ e : κ × α, e.1 = k → p e = true) :
    (m.filter p).find? (fun e => decide (e.1 = k)) = m.find? fun e => decide (e.1 = k) := by
  rw [List.find?_filter]
  congr 1
  funext e
  by_cases hkey : e.1 = k
  · simp [hkey, h e hkey]
  · simp [hkey]

theorem find?_filter_key_eq_none {p : κ × α → Bool} {k : κ}
    (h : ∀ e : κ × α, e.1 = k → p e = false) :
    (m.filter p).find? (fun e => decide (e.1 = k)) = none := by
  rw [List.find?_eq_none]
  intro e he
  rw [decide_eq_true_eq]
  intro hkey
  have hp := (List.mem_filter.1 he).2
  rw [h e hkey] at hp
  cases hp

theorem get?_erase_self : get? (erase m k) k = none := by
  rw [get?, erase, find?_filter_key_eq_none (by simp +contextual)]
  rfl

theorem get?_erase_of_ne {k' : κ} (hne : k' ≠ k) : get? (erase m k) k' = get? m k' := by
  rw [get?, get?, erase, find?_filter_key (by simp +contextual [hne])]

theorem get?_insert_self : get? (insert m k v) k = some v := by
  rw [get?, insert, List.find?_append, find?_filter_key_eq_none (by simp +contextual),
    Option.none_or, List.find?_cons]
  simp

theorem get?_insert_of_ne {k' : κ} (hne : k' ≠ k) :
    get? (insert m k v) k' = get? m k' := by
  rw [get?, get?, insert, List.find?_append, List.find?_cons]
  simp only [hne.symm, decide_false]
  rcases lt_or_gt_of_ne hne with hlt | hlt
  · rw [find?_filter_key (by simp +contextual [hlt]),
      find?_filter_key_eq_none (by simp +contextual [hlt.le]), Option.or_none]
  · rw [find?_filter_key_eq_none (by simp +contextual [hlt.le]), Option.none_or,
      find?_filter_key (by simp +contextual [hlt])]

theorem Ordered.erase (h : Ordered m) (k : κ) : Ordered (erase m k) := h.filter _

/-- An insertion keeps a relation that follows from the order of keys of old entries and
    holds between the new one and its neighbours. -/
theorem pairwise_insert {r : κ × α → κ × α → Prop} (h : m.Pairwise r)
    (hbefore : ∀ e ∈ m, e.1 < k → r e (k, v)) (hafter : ∀ e ∈ m, k < e.1 → r (k, v) e)
    (hacross : ∀ e ∈ m, ∀ e' ∈ m, e.1 < k → k < e'.1 → r e e') :
    (insert m k v).Pairwise r := by
  refine List.pairwise_append.2 ⟨h.filter _, List.pairwise_cons.2 ⟨fun e he => ?_, h.filter _⟩,
    fun e he e' he' => ?_⟩
  · obtain ⟨he, hlt⟩ := List.mem_filter.1 he
    exact hafter e he (of_decide_eq_true hlt)
  · obtain ⟨he, hlt⟩ := List.mem_filter.1 he
    rcases List.mem_cons.1 he' with rfl | he'
    · exact hbefore e he (of_decide_eq_true hlt)
    · obtain ⟨he', hlt'⟩ := List.mem_filter.1 he'
      exact hacross e he e' he' (of_decide_eq_true hlt) (of_decide_eq_true hlt')

theorem Ordered.insert (h : Ordered m) (k : κ) (v : α) : Ordered (OrderedMap.insert m k v) :=
  pairwise_insert h (fun _ _ hlt => hlt) (fun _ _ hlt => hlt) fun _ _ _ _ hlt hlt' =>
    hlt.trans hlt'

/-! ## Sums over entries -/

theorem erase_eq_self (h : get? m k = none) : erase m k = m :=
  List.filter_eq_self.2 fun _ he => decide_eq_true (get?_eq_none h he)

theorem insert_perm (m : List (κ × α)) (k : κ) (v : α) :
    (insert m k v).Perm ((k, v) :: erase m k) := by
  refine List.perm_middle.trans (List.Perm.cons _ ?_)
  have hperm := List.filter_append_perm (fun e : κ × α => decide (e.1 < k)) (erase m k)
  rw [erase, List.filter_filter, List.filter_filter] at hperm
  refine (List.Perm.of_eq ?_).trans hperm
  congr 1
  · refine List.filter_congr fun e _ => ?_
    rw [← Bool.decide_and]
    exact decide_eq_decide.2 ⟨fun h => ⟨h, h.ne⟩, fun h => h.1⟩
  · refine List.filter_congr fun e _ => ?_
    rw [← decide_not, ← Bool.decide_and]
    exact decide_eq_decide.2 ⟨fun h => ⟨h.not_gt, h.ne'⟩, fun h =>
      lt_of_le_of_ne (not_lt.1 h.1) (Ne.symm h.2)⟩

theorem perm_cons_erase (h : Ordered m) (hget : get? m k = some v) :
    m.Perm ((k, v) :: erase m k) := by
  induction m with
  | nil => cases hget
  | cons a m ih =>
    obtain ⟨ha, hm⟩ := List.pairwise_cons.1 h
    rw [get?, List.find?_cons] at hget
    rw [erase, List.filter_cons]
    by_cases hkey : a.1 = k
    · rw [decide_eq_true hkey] at hget
      rw [if_neg (by simp [hkey]), ← hkey, ← Option.some.inj hget]
      refine List.Perm.cons _ (List.Perm.of_eq (Eq.symm ?_))
      exact List.filter_eq_self.2 fun e he => decide_eq_true (ha e he).ne'
    · rw [decide_eq_false hkey] at hget
      rw [if_pos (decide_eq_true hkey)]
      exact ((ih hm hget).cons a).trans (List.Perm.swap _ _ _)

/-- A map with a value that a key already has. -/
theorem insert_eq_self (h : Ordered m) (hget : get? m k = some v) : insert m k v = m := by
  refine List.Perm.eq_of_pairwise (fun a b _ _ hab hba => ?_) (h.insert k v) h
    ((insert_perm m k v).trans (perm_cons_erase h hget).symm)
  exact absurd hab hba.not_gt

theorem sum_insert {f : κ × α → ℕ} :
    ((insert m k v).map f).sum = f (k, v) + ((erase m k).map f).sum := by
  rw [((insert_perm m k v).map f).sum_eq, List.map_cons, List.sum_cons]

theorem sum_erase {f : κ × α → ℕ} (h : Ordered m) (hget : get? m k = some v) :
    (m.map f).sum = f (k, v) + ((erase m k).map f).sum := by
  rw [((perm_cons_erase h hget).map f).sum_eq, List.map_cons, List.sum_cons]

end Tabulark.OrderedMap
