import Mathlib

/-!
# Occurrences

The leftmost occurrences of a list in another one that do not overlap, and what
becomes of them if every item is replaced by one or more items. A match of a query
is an occurrence of the replaced query in the replaced list. Occurrences that are
looked for there are the leftmost matches exactly if they are where what is before
them has kept its length, accidents apart (`leftmost_iff`).
-/

namespace Tabulark.Occurrences

variable {α β : Type*}

/-! ## Searching -/

/-- A list is found at a position of another one. -/
def OccursAt (items pattern : List α) (n : ℕ) : Prop := pattern <+: items.drop n

section Search

variable {items pattern : List α} {start n m : ℕ}

theorem OccursAt.add_le (h : OccursAt items pattern n) (hne : pattern ≠ []) :
    n + pattern.length ≤ items.length := by
  have hle := h.length_le
  have hpos := List.length_pos_iff.2 hne
  rw [List.length_drop] at hle
  omega

variable [DecidableEq α]

/-- The first position from some one on where a list is found. -/
def indexOf (items pattern : List α) (start : ℕ) : Option ℕ :=
  (List.range' start (items.length + 1 - start)).find? fun n => pattern.isPrefixOf (items.drop n)

/-- The first positions where a list is found, each after the end of the last one. -/
def occurrences (items pattern : List α) : ℕ → ℕ → List ℕ
  | 0, _ => []
  | limit + 1, start =>
    match indexOf items pattern start with
    | none => []
    | some n => n :: occurrences items pattern limit (n + max 1 pattern.length)

theorem indexOf_some (h : indexOf items pattern start = some n) : start ≤ n ∧
    OccursAt items pattern n ∧ ∀ m, start ≤ m → m < n → ¬OccursAt items pattern m := by
  obtain ⟨hn, hmem, hfirst⟩ := List.find?_range'_eq_some.1 h
  rw [List.isPrefixOf_iff_prefix] at hn
  refine ⟨(List.mem_range'_1.1 hmem).1, hn, fun m hle hlt hoccurs => ?_⟩
  have hno := hfirst m hle hlt
  rw [List.isPrefixOf_iff_prefix.2 hoccurs] at hno
  exact Bool.false_ne_true hno

theorem indexOf_none (h : indexOf items pattern start = none) (hne : pattern ≠ [])
    (hle : start ≤ n) : ¬OccursAt items pattern n := by
  intro hoccurs
  have hlt := hoccurs.add_le hne
  have hno := List.find?_range'_eq_none.1 h n hle (by omega)
  rw [List.isPrefixOf_iff_prefix.2 hoccurs] at hno
  exact Bool.false_ne_true hno

end Search

/-! ## Leftmost matches -/

/-- The leftmost matches from some position on that do not overlap, up to a limit. -/
inductive Leftmost (Matches : ℕ → ℕ → Prop) : ℕ → ℕ → List (ℕ × ℕ) → Prop
  | full {start : ℕ} : Leftmost Matches start 0 []
  | none {start limit : ℕ} : (∀ a b, start ≤ a → ¬Matches a b) →
      Leftmost Matches start (limit + 1) []
  | next {start limit a b : ℕ} {others : List (ℕ × ℕ)} : start ≤ a → Matches a b →
      (∀ a' b', start ≤ a' → a' < a → ¬Matches a' b') → Leftmost Matches b limit others →
      Leftmost Matches start (limit + 1) ((a, b) :: others)

theorem Leftmost.forall_mem {P : ℕ → ℕ → Prop} {start limit : ℕ} {all : List (ℕ × ℕ)}
    (h : Leftmost P start limit all) : ∀ p ∈ all, P p.1 p.2 := by
  induction h with
  | full => exact fun _ hp => nomatch hp
  | none => exact fun _ hp => nomatch hp
  | next _ hmatches _ _ ih => exact List.forall_mem_cons.2 ⟨hmatches, ih⟩

/-- The items between two positions. -/
def slice (items : List α) (a b : ℕ) : List α := (items.take b).drop a

/-! ## Replacing items -/

section Replace

variable (f : α → List β) {items query : List α} {a b k n : ℕ}

/-- How long a beginning of a list becomes. -/
def grown (items : List α) (k : ℕ) : ℕ := ((items.take k).flatMap f).length

/-- The items between two positions become what a query becomes. -/
def Matches (items query : List α) (a b : ℕ) : Prop :=
  (slice items a b).flatMap f = query.flatMap f

instance [DecidableEq β] : Decidable (Matches f items query a b) :=
  inferInstanceAs (Decidable (_ = _))

variable {f}

theorem slice_add (items : List α) (a n : ℕ) : slice items a (a + n) = (items.drop a).take n := by
  rw [slice, List.drop_take, Nat.add_sub_cancel_left]

/-- What follows a beginning of a list becomes what follows what that becomes. -/
theorem flatMap_drop (items : List α) (k : ℕ) :
    (items.drop k).flatMap f = (items.flatMap f).drop (grown f items k) := by
  have happend : items.flatMap f = (items.take k).flatMap f ++ (items.drop k).flatMap f := by
    rw [← List.flatMap_append, List.take_append_drop]
  rw [happend]
  exact (List.drop_left' rfl).symm

theorem grown_add (items : List α) (a n : ℕ) : grown f items (a + n) =
    grown f items a + ((slice items a (a + n)).flatMap f).length := by
  rw [grown, List.take_add, List.flatMap_append, List.length_append, slice_add]
  rfl

theorem grown_mono (hle : a ≤ b) : grown f items a ≤ grown f items b := by
  obtain ⟨n, rfl⟩ := Nat.exists_eq_add_of_le hle
  rw [grown_add]
  exact Nat.le_add_right _ _

theorem length_le_flatMap (hf : ∀ x, f x ≠ []) (items : List α) :
    items.length ≤ (items.flatMap f).length := by
  induction items with
  | nil => exact Nat.zero_le _
  | cons x items ih =>
    have hpos := List.length_pos_iff.2 (hf x)
    rw [List.flatMap_cons, List.length_append, List.length_cons]
    omega

theorem flatMap_ne_nil (hf : ∀ x, f x ≠ []) (hitems : items ≠ []) : items.flatMap f ≠ [] := by
  have hle := length_le_flatMap hf items
  have hpos := List.length_pos_iff.2 hitems
  exact List.length_pos_iff.1 (by omega)

/-- Once a beginning has grown, all longer ones have. -/
theorem add_grown_le (hf : ∀ x, f x ≠ []) (hb : a + n ≤ items.length) :
    grown f items a + n ≤ grown f items (a + n) := by
  have hle := length_le_flatMap hf (slice items a (a + n))
  rw [slice_add, List.length_take, List.length_drop] at hle
  rw [grown_add, slice_add]
  omega

theorem le_grown (hf : ∀ x, f x ≠ []) (ha : a ≤ items.length) : a ≤ grown f items a := by
  have hle : grown f items 0 + a ≤ grown f items (0 + a) := add_grown_le hf (by omega)
  rw [Nat.zero_add] at hle
  omega

theorem flatMap_slice_prefix (items : List α) (a b : ℕ) :
    (slice items a b).flatMap f <+: (items.flatMap f).drop (grown f items a) := by
  obtain ⟨rest, hrest⟩ : slice items a b <+: items.drop a := by
    rw [slice, List.drop_take]
    exact List.take_prefix _ _
  rw [← flatMap_drop, ← hrest, List.flatMap_append]
  exact List.prefix_append _ _

/-- A match is an occurrence where its beginning gets. -/
theorem Matches.occursAt (h : Matches f items query a b) :
    OccursAt (items.flatMap f) (query.flatMap f) (grown f items a) := by
  rw [OccursAt, ← h]
  exact flatMap_slice_prefix items a b

theorem Matches.lt_length (h : Matches f items query a b) (hne : query.flatMap f ≠ []) :
    a < items.length := by
  by_contra hle
  refine hne (h.symm.trans ?_)
  rw [slice, List.drop_of_length_le, List.flatMap_nil]
  exact (List.length_take_le' b items).trans (not_lt.1 hle)

theorem Matches.grown_eq (h : Matches f items query a (a + n)) :
    grown f items (a + n) = grown f items a + (query.flatMap f).length := by
  rw [grown_add, h]

/-- An occurrence is a match if what is before it, and the query, have grown as they should. -/
theorem OccursAt.matches (h : OccursAt (items.flatMap f) (query.flatMap f) a)
    (ha : grown f items a = a) (hend : grown f items (a + n) = a + (query.flatMap f).length) :
    Matches f items query a (a + n) := by
  have hprefix : (slice items a (a + n)).flatMap f <+: (items.flatMap f).drop a := by
    have hgrown := flatMap_slice_prefix (f := f) items a (a + n)
    rwa [ha] at hgrown
  have hlength : ((slice items a (a + n)).flatMap f).length = (query.flatMap f).length := by
    rw [grown_add, ha] at hend
    omega
  exact (List.prefix_of_prefix_length_le hprefix h (le_of_eq hlength)).eq_of_length hlength

/-! ## Searching what is replaced -/

variable (f)

/-- An occurrence is a match of as many items as the query has, and the leftmost from some position
    on. Either what is before it has kept its length, or it is a match by accident. -/
def Kept (items query : List α) (start a : ℕ) : Prop :=
  (grown f items a = a ∧ grown f items (a + query.length) = a + (query.flatMap f).length) ∨
    (a < grown f items a ∧ Matches f items query a (a + query.length) ∧
      ∀ a' b', start ≤ a' → a' < a → ¬Matches f items query a' b')

/-- Occurrences are all kept, each from the end of the one before. -/
def AllKept (items query : List α) : ℕ → List ℕ → Prop
  | _, [] => True
  | start, a :: others =>
    Kept f items query start a ∧ AllKept items query (a + query.length) others

variable {f}

theorem grown_of_le (h : items.length ≤ a) : grown f items a = (items.flatMap f).length := by
  rw [grown, List.take_of_length_le h]

/-- An occurrence is not after where its position gets. -/
theorem OccursAt.le_grown (h : OccursAt (items.flatMap f) (query.flatMap f) a)
    (hf : ∀ x, f x ≠ []) (hne : query.flatMap f ≠ []) : a ≤ grown f items a := by
  rcases Nat.le_total a items.length with ha | ha
  · exact Occurrences.le_grown hf ha
  · rw [grown_of_le ha]
    exact (Nat.le_add_right _ _).trans (h.add_le hne)

/-- All positions before one that is kept are kept. -/
theorem OccursAt.grown_lt (h : OccursAt (items.flatMap f) (query.flatMap f) a)
    (hf : ∀ x, f x ≠ []) (hne : query.flatMap f ≠ []) (ha : grown f items a = a) (hb : b < a) :
    grown f items b < a := by
  have hlength : a ≤ items.length := by
    by_contra hlt
    have hle := h.add_le hne
    have hpos := List.length_pos_iff.2 hne
    rw [← grown_of_le (f := f) (not_le.1 hlt).le, ha] at hle
    omega
  obtain ⟨n, rfl⟩ := Nat.exists_eq_add_of_le hb.le
  have hadd := add_grown_le hf hlength
  omega

theorem Kept.matches {start : ℕ} (h : Kept f items query start a)
    (hoccurs : OccursAt (items.flatMap f) (query.flatMap f) a) :
    Matches f items query a (a + query.length) := by
  obtain ⟨ha, hend⟩ | ⟨-, hmatches, -⟩ := h
  · exact hoccurs.matches ha hend
  · exact hmatches

/-- The occurrences of what a query becomes in what a list becomes are the leftmost matches exactly
    if they are kept. -/
theorem leftmost_iff [DecidableEq β] (hf : ∀ x, f x ≠ []) (hquery : query ≠ [])
    {limit start cursor : ℕ} (hle : start ≤ cursor) (hgrown : cursor ≤ grown f items start) :
    Leftmost (Matches f items query) start limit
        ((occurrences (items.flatMap f) (query.flatMap f) limit cursor).map fun a =>
          (a, a + query.length)) ↔
      AllKept f items query start
        (occurrences (items.flatMap f) (query.flatMap f) limit cursor) := by
  have hlength : query.length ≤ (query.flatMap f).length := length_le_flatMap hf query
  have hpos : 0 < query.length := List.length_pos_iff.2 hquery
  have hne : query.flatMap f ≠ [] := flatMap_ne_nil hf hquery
  induction limit generalizing start cursor with
  | zero => exact iff_of_true .full trivial
  | succ limit ih =>
    rw [occurrences]
    cases hindex : indexOf (items.flatMap f) (query.flatMap f) cursor with
    | none =>
      refine iff_of_true (.none fun a b ha hmatches => ?_) trivial
      exact indexOf_none hindex hne (hgrown.trans (grown_mono ha)) hmatches.occursAt
    | some a =>
      obtain ⟨hcursor, hoccurs, hfirst⟩ := indexOf_some hindex
      have hmax : max 1 (query.flatMap f).length = (query.flatMap f).length := by omega
      have ha : a ≤ grown f items a := hoccurs.le_grown hf hne
      have hnext (hmatches : Matches f items query a (a + query.length)) :
          a + (query.flatMap f).length ≤ grown f items (a + query.length) := by
        rw [hmatches.grown_eq]
        exact Nat.add_le_add_right ha _
      simp only [hmax, List.map_cons]
      constructor
      · intro h
        cases h with
        | next hstart hmatches hno hothers =>
          refine ⟨?_, (ih (by omega) (hnext hmatches)).1 hothers⟩
          rcases ha.eq_or_lt with heq | hlt
          · exact .inl ⟨heq.symm, by rw [hmatches.grown_eq, ← heq]⟩
          · exact .inr ⟨hlt, hmatches, hno⟩
      · rintro ⟨hkept, hothers⟩
        have hmatches := hkept.matches hoccurs
        refine .next (hle.trans hcursor) hmatches ?_ 
          ((ih (by omega) (hnext hmatches)).2 hothers)
        obtain ⟨heq, -⟩ | ⟨-, -, hno⟩ := hkept
        · intro a' b' hstart hlt hmatches'
          exact hfirst _ (hgrown.trans (grown_mono hstart)) (hoccurs.grown_lt hf hne heq hlt)
            hmatches'.occursAt
        · exact hno

/-- Occurrences are kept where no item is replaced by more than one. -/
theorem allKept_of_length [DecidableEq β] (hf : ∀ x, (f x).length = 1) (hquery : query ≠ [])
    {limit start cursor : ℕ} : AllKept f items query start
      (occurrences (items.flatMap f) (query.flatMap f) limit cursor) := by
  have hlength : ∀ xs : List α, (xs.flatMap f).length = xs.length := fun xs => by
    induction xs with
    | nil => rfl
    | cons x xs ih =>
      rw [List.flatMap_cons, List.length_append, hf, ih, List.length_cons, Nat.add_comm]
  have hne : query.flatMap f ≠ [] := flatMap_ne_nil (fun x h => by simpa [h] using hf x) hquery
  induction limit generalizing start cursor with
  | zero => trivial
  | succ limit ih =>
    rw [occurrences]
    cases hindex : indexOf (items.flatMap f) (query.flatMap f) cursor with
    | none => trivial
    | some a =>
      have hle := (indexOf_some hindex).2.1.add_le hne
      rw [hlength, hlength] at hle
      refine ⟨.inl ⟨?_, ?_⟩, ih⟩
      · rw [grown, hlength, List.length_take, min_eq_left (by omega)]
      · rw [grown, hlength, hlength, List.length_take, min_eq_left hle]

end Replace

end Tabulark.Occurrences
