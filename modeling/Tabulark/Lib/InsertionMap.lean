import Mathlib

/-!
# Maps in insertion order

A map that lists its entries in the order in which their keys came in. A key that
is set again keeps its place; one that is deleted and set again goes to the end.
-/

namespace Tabulark

/-- A map with at most one entry a key, in the order of insertion. -/
structure InsertionMap (κ α : Type) where
  entries : List (κ × α)
  nodup : (entries.map Prod.fst).Nodup

namespace InsertionMap

variable {κ α : Type} [DecidableEq κ]

/-- The map without entries. -/
def empty : InsertionMap κ α := ⟨[], List.nodup_nil⟩

/-- The number of entries. -/
def size (m : InsertionMap κ α) : ℕ := m.entries.length

/-- The entry that came in first. -/
def first? (m : InsertionMap κ α) : Option (κ × α) := m.entries.head?

/-- The value of a key. -/
def get? (m : InsertionMap κ α) (key : κ) : Option α :=
  (m.entries.find? fun e => e.1 = key).map Prod.snd

/-- The map without a key. -/
def delete (m : InsertionMap κ α) (key : κ) : InsertionMap κ α where
  entries := m.entries.filter fun e => e.1 ≠ key
  nodup := m.nodup.sublist (List.filter_sublist.map _)

/-- The entries with a new value for a key. -/
def setEntries (entries : List (κ × α)) (key : κ) (value : α) : List (κ × α) :=
  if key ∈ entries.map Prod.fst then entries.map fun e => if e.1 = key then (key, value) else e
  else entries ++ [(key, value)]

theorem keys_setEntries (entries : List (κ × α)) (key : κ) (value : α) :
    (setEntries entries key value).map Prod.fst =
      if key ∈ entries.map Prod.fst then entries.map Prod.fst
      else entries.map Prod.fst ++ [key] := by
  rw [setEntries]
  split_ifs with h
  · rw [List.map_map]
    refine List.map_congr_left fun e _ => ?_
    dsimp only [Function.comp]
    split_ifs with hkey
    · exact hkey.symm
    · rfl
  · rw [List.map_append]
    rfl

/-- The map with a new value for a key. -/
def set (m : InsertionMap κ α) (key : κ) (value : α) : InsertionMap κ α where
  entries := setEntries m.entries key value
  nodup := by
    rw [keys_setEntries]
    split_ifs with h
    · exact m.nodup
    · exact List.nodup_append.2 ⟨m.nodup, List.nodup_singleton _, fun a ha b hb => by
        rw [List.mem_singleton.1 hb]
        rintro rfl
        exact h ha⟩

variable {m : InsertionMap κ α} {key : κ} {value : α} {e : κ × α}

/-! ## Entries -/

theorem entries_delete (m : InsertionMap κ α) (key : κ) :
    (m.delete key).entries = m.entries.filter fun e => e.1 ≠ key := rfl

omit [DecidableEq κ] in
theorem eq_of_key {e' : κ × α} (he : e ∈ m.entries) (he' : e' ∈ m.entries) (h : e.1 = e'.1) :
    e = e' :=
  List.inj_on_of_nodup_map m.nodup he he' h

theorem get?_eq_some : m.get? key = some value ↔ (key, value) ∈ m.entries := by
  rw [get?, Option.map_eq_some_iff]
  constructor
  · rintro ⟨⟨key', value'⟩, hfind, rfl⟩
    have hkey := List.find?_some hfind
    rw [decide_eq_true_eq] at hkey
    subst hkey
    exact List.mem_of_find?_eq_some hfind
  · intro hmem
    cases hfind : m.entries.find? fun e => decide (e.1 = key) with
    | none => exact absurd (decide_eq_true rfl) (List.find?_eq_none.1 hfind _ hmem)
    | some e' =>
      have hkey := List.find?_some hfind
      rw [decide_eq_true_eq] at hkey
      exact ⟨e', rfl, congrArg Prod.snd (eq_of_key (List.mem_of_find?_eq_some hfind) hmem hkey)⟩

theorem get?_eq_none : m.get? key = none ↔ ∀ e ∈ m.entries, e.1 ≠ key := by
  rw [get?, Option.map_eq_none_iff, List.find?_eq_none]
  exact forall₂_congr fun e _ => by rw [decide_eq_true_eq]

@[simp] theorem mem_delete : e ∈ (m.delete key).entries ↔ e ∈ m.entries ∧ e.1 ≠ key := by
  rw [entries_delete, List.mem_filter, decide_eq_true_eq]

theorem get?_delete_self : (m.delete key).get? key = none :=
  get?_eq_none.2 fun _ he => (mem_delete.1 he).2

theorem delete_of_get?_eq_none (h : m.get? key = none) : (m.delete key).entries = m.entries :=
  List.filter_eq_self.2 fun e he => decide_eq_true (get?_eq_none.1 h e he)

/-- A key has the value it was set to. -/
theorem get?_set_self : (m.set key value).get? key = some value := by
  rw [get?_eq_some]
  change (key, value) ∈ setEntries m.entries key value
  rw [setEntries]
  split_ifs with hkey
  · obtain ⟨e, he, rfl⟩ := List.mem_map.1 hkey
    exact List.mem_map.2 ⟨e, he, if_pos rfl⟩
  · exact List.mem_append_right _ (List.mem_singleton.2 rfl)

/-- A key that is not there goes to the end. -/
theorem set_of_get?_eq_none (h : m.get? key = none) :
    (m.set key value).entries = m.entries ++ [(key, value)] := by
  refine if_neg fun hmem => ?_
  obtain ⟨e, he, rfl⟩ := List.mem_map.1 hmem
  exact get?_eq_none.1 h e he rfl

/-- What is there after a key is set. -/
theorem mem_set : e ∈ (m.set key value).entries ↔ e = (key, value) ∨ e ∈ m.entries ∧ e.1 ≠ key := by
  change e ∈ setEntries m.entries key value ↔ _
  rw [setEntries]
  split_ifs with hkey
  · rw [List.mem_map]
    constructor
    · rintro ⟨e', he', rfl⟩
      split_ifs with heq
      · exact .inl rfl
      · exact .inr ⟨he', heq⟩
    · rintro (rfl | ⟨he, hne⟩)
      · obtain ⟨e', he', heq⟩ := List.mem_map.1 hkey
        exact ⟨e', he', if_pos heq⟩
      · exact ⟨e, he, if_neg hne⟩
  · rw [List.mem_append, List.mem_singleton, or_comm]
    refine or_congr_right (iff_self_and.2 fun he heq => hkey ?_)
    exact heq ▸ List.mem_map_of_mem he

/-- What holds of a value that is set, and of what was there, holds of all that is there. -/
theorem forall_mem_set {p : κ × α → Prop} (hset : p (key, value)) (h : ∀ e ∈ m.entries, p e) :
    ∀ e ∈ (m.set key value).entries, p e := by
  intro e he
  rcases mem_set.1 he with rfl | ⟨he, _⟩
  · exact hset
  · exact h e he

/-- Setting a key changes no other. -/
theorem get?_set (m : InsertionMap κ α) (key : κ) (value : α) (key' : κ) :
    (m.set key value).get? key' = if key' = key then some value else m.get? key' := by
  split_ifs with hkey
  · rw [hkey, get?_set_self]
  · ext value'
    rw [get?_eq_some, get?_eq_some, mem_set]
    constructor
    · rintro (heq | ⟨he, -⟩)
      · exact absurd (congrArg Prod.fst heq) hkey
      · exact he
    · exact fun he => .inr ⟨he, hkey⟩

/-- A key that is deleted and set again goes to the end. -/
@[simp] theorem set_delete : ((m.delete key).set key value).entries =
    (m.delete key).entries ++ [(key, value)] :=
  set_of_get?_eq_none get?_delete_self

theorem perm_cons_delete (h : (key, value) ∈ m.entries) :
    m.entries.Perm ((key, value) :: (m.delete key).entries) := by
  obtain ⟨before, after, hsplit⟩ := List.append_of_mem h
  have hnodup := m.nodup
  rw [hsplit, List.map_append, List.map_cons] at hnodup
  have hne := List.nodup_append.1 hnodup
  have hcons := List.nodup_cons.1 hne.2.1
  have hbefore : before.filter (fun e => decide (e.1 ≠ key)) = before :=
    List.filter_eq_self.2 fun e he =>
      decide_eq_true (hne.2.2 _ (List.mem_map_of_mem he) _ List.mem_cons_self)
  have hafter : after.filter (fun e => decide (e.1 ≠ key)) = after :=
    List.filter_eq_self.2 fun e he => decide_eq_true fun hkey =>
      hcons.1 (List.mem_map.2 ⟨e, he, hkey⟩)
  rw [entries_delete, hsplit, List.filter_append, List.filter_cons_of_neg (by simp), hbefore,
    hafter]
  exact List.perm_middle

/-- Keys that are deleted one after the other. -/
theorem entries_deletes (m : InsertionMap κ α) (keys : List κ) :
    (keys.foldl delete m).entries = m.entries.filter fun e => e.1 ∉ keys := by
  induction keys generalizing m with
  | nil => exact (List.filter_eq_self.2 fun e _ => decide_eq_true List.not_mem_nil).symm
  | cons key keys ih =>
    rw [List.foldl_cons, ih, entries_delete, List.filter_filter]
    refine List.filter_congr fun e _ => ?_
    simp only [List.mem_cons, not_or, ne_eq, Bool.decide_and, Bool.and_comm]

theorem set_perm : (m.set key value).entries.Perm ((key, value) :: (m.delete key).entries) := by
  have hnodup : ((key, value) :: (m.delete key).entries).Nodup := by
    refine List.nodup_cons.2 ⟨fun hmem => (mem_delete.1 hmem).2 rfl, ?_⟩
    exact .of_map Prod.fst (m.delete key).nodup
  refine (List.perm_ext_iff_of_nodup (.of_map Prod.fst (m.set key value).nodup) hnodup).2 ?_
  exact fun e => by rw [mem_set, List.mem_cons, mem_delete]

omit [DecidableEq κ] in
/-- Maps with the same entries are the same. -/
theorem eq_of_entries {m' : InsertionMap κ α} (h : m.entries = m'.entries) : m = m' := by
  cases m
  cases m'
  cases h
  rfl

/-- A new key that is deleted again leaves the map as it was. -/
theorem delete_set (h : m.get? key = none) : (m.set key value).delete key = m := by
  refine eq_of_entries ?_
  rw [entries_delete, set_of_get?_eq_none h, List.filter_append,
    List.filter_cons_of_neg (by simp), List.filter_nil, List.append_nil]
  exact List.filter_eq_self.2 fun e he => decide_eq_true (get?_eq_none.1 h e he)

/-- The first entry out leaves the others as they are. -/
theorem delete_first {rest : List (κ × α)} (h : m.entries = e :: rest) :
    (m.delete e.1).entries = rest := by
  have hnodup := m.nodup
  rw [h, List.map_cons] at hnodup
  rw [entries_delete, h, List.filter_cons_of_neg (by simp)]
  exact List.filter_eq_self.2 fun e' he' => decide_eq_true fun hkey =>
    (List.nodup_cons.1 hnodup).1 (hkey ▸ List.mem_map_of_mem he')

end InsertionMap

end Tabulark
