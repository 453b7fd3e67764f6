import Mathlib
import Tabulark.Lib.OrderedMap

/-!
# Segments of a text

Parts of a text, kept by the offsets they start at. `Segments` says that the
parts are not empty and that no two of them overlap or touch, so that a range of
the text that is covered lies in one part (`Segments.slice`).
-/

namespace Tabulark.Segments

open OrderedMap

variable {α : Type}

/-- A part of a text and the offset it starts at. -/
abbrev Segment (α : Type) : Type := ℕ × List α

/-- Where a segment ends. -/
def stop (s : Segment α) : ℕ := s.1 + s.2.length

/-- Some segment has the position `i`. -/
def Covers (m : List (Segment α)) (i : ℕ) : Prop := ∃ s ∈ m, s.1 ≤ i ∧ i < stop s

instance (m : List (Segment α)) : DecidablePred (Covers m) :=
  fun i => inferInstanceAs (Decidable (∃ s ∈ m, s.1 ≤ i ∧ i < stop s))

/-- Separate parts of a text. -/
structure Separate (text : List α) (m : List (Segment α)) : Prop where
  ne_nil : ∀ s ∈ m, s.2 ≠ []
  part : ∀ s ∈ m, s.2 <+: text.drop s.1
  separated : m.Pairwise fun a b => stop a < b.1

variable {text : List α} {m : List (Segment α)}

namespace Separate

theorem nil (text : List α) : Separate text [] := ⟨nofun, nofun, .nil⟩

variable {s : Segment α}

theorem start_lt_stop (h : Separate text m) (hs : s ∈ m) : s.1 < stop s := by
  have hpos := List.length_pos_iff.2 (h.ne_nil s hs)
  rw [stop]
  omega

theorem stop_le (h : Separate text m) (hs : s ∈ m) : stop s ≤ text.length := by
  have hle := (h.part s hs).length_le
  have hpos := List.length_pos_iff.2 (h.ne_nil s hs)
  rw [List.length_drop] at hle
  rw [stop]
  omega

theorem ordered (h : Separate text m) : Ordered m :=
  h.separated.imp_of_mem fun ha _ hlt => (h.start_lt_stop ha).trans hlt

/-- Of two segments, one ends before the other starts. -/
theorem stop_lt (h : Separate text m) {a b : Segment α} (ha : a ∈ m) (hb : b ∈ m)
    (hlt : a.1 < b.1) : stop a < b.1 :=
  rel_of_lt h.separated (fun _ _ h => (Nat.le_add_right _ _).trans_lt h) ha hb hlt

theorem lt_length_of_covers (h : Separate text m) {i : ℕ} (hi : Covers m i) : i < text.length := by
  obtain ⟨s, hs, _, hlt⟩ := hi
  exact hlt.trans_le (h.stop_le hs)

/-- The last segment that starts up to a position covers it, or none does. -/
theorem covers_iff (h : Separate text m) {i : ℕ} :
    Covers m i ↔ ∃ s, lastLE m i = some s ∧ i < stop s := by
  constructor
  · rintro ⟨s, hs, hle, hlt⟩
    cases hlast : lastLE m i with
    | none => exact absurd hle (lastOf_eq_none hlast hs)
    | some t =>
      obtain ⟨ht, hti, hmax⟩ := lastOf_eq_some h.ordered hlast
      refine ⟨t, rfl, ?_⟩
      rcases (hmax s hs hle).eq_or_lt with heq | hlt'
      · rwa [← h.ordered.eq_of_key hs ht heq]
      · have hstop := h.stop_lt hs ht hlt'
        omega
  · rintro ⟨s, hlast, hlt⟩
    obtain ⟨hs, hle, _⟩ := lastOf_eq_some h.ordered hlast
    exact ⟨s, hs, hle, hlt⟩

/-- A covered range lies in one segment. -/
theorem stop_le_of_covers (h : Separate text m) (hs : s ∈ m) {i k : ℕ}
    (hi : s.1 ≤ i) (hlt : i < stop s) (hcovers : ∀ j, i ≤ j → j < k → Covers m j) :
    k ≤ stop s := by
  by_contra hk
  obtain ⟨t, ht, hle, hlt'⟩ := hcovers (stop s) hlt.le (by omega)
  rcases lt_trichotomy s.1 t.1 with hst | hst | hst
  · have hstop := h.stop_lt hs ht hst
    omega
  · rw [h.ordered.eq_of_key hs ht hst] at hlt'
    exact absurd hlt' (lt_irrefl _)
  · have hstop := h.stop_lt ht hs hst
    omega

/-- A covered range is read from one segment. -/
theorem read_eq (h : Separate text m) (hs : s ∈ m) {i n : ℕ} (hi : s.1 ≤ i)
    (hn : i + n ≤ stop s) : (s.2.drop (i - s.1)).take n = (text.drop i).take n := by
  obtain ⟨more, hmore⟩ := h.part s hs
  have hdrop : text.drop i = s.2.drop (i - s.1) ++ more := by
    rw [← Nat.add_sub_cancel' hi, ← List.drop_drop, ← hmore, List.drop_append_of_le_length]
    · rw [Nat.add_sub_cancel' hi]
    · rw [stop] at hn
      omega
  rw [hdrop, List.take_append_of_le_length]
  rw [List.length_drop]
  rw [stop] at hn
  omega

/-- A new part between two others, joined with neither. -/
theorem insert (h : Separate text m) {k : ℕ} {v : List α} (hv : v ≠ [])
    (hpart : v <+: text.drop k) (hbefore : ∀ s ∈ m, s.1 < k → stop s < k)
    (hafter : ∀ s ∈ m, ¬s.1 < k → k + v.length < s.1) :
    Separate text (OrderedMap.insert m k v) ∧
      ∀ i, Covers (OrderedMap.insert m k v) i ↔ Covers m i ∨ k ≤ i ∧ i < k + v.length := by
  have hpos := List.length_pos_iff.2 hv
  have hne : ∀ s ∈ m, s.1 ≠ k := by
    rintro s hs rfl
    have hlt := hafter s hs (lt_irrefl _)
    omega
  have hmem : ∀ s, s ∈ OrderedMap.insert m k v ↔ s = (k, v) ∨ s ∈ m := by
    intro s
    rw [mem_insert]
    constructor
    · exact Or.imp_right And.left
    · exact Or.imp_right fun hs => ⟨hs, hne s hs⟩
  refine ⟨⟨fun s hs => ?_, fun s hs => ?_, ?_⟩, fun i => ?_⟩
  · rcases (hmem s).1 hs with rfl | hs
    · exact hv
    · exact h.ne_nil s hs
  · rcases (hmem s).1 hs with rfl | hs
    · exact hpart
    · exact h.part s hs
  · refine pairwise_insert h.separated hbefore (fun s hs hlt => hafter s hs hlt.le.not_gt) ?_
    exact fun s hs t ht hlt hlt' => h.stop_lt hs ht (hlt.trans hlt')
  · rw [Covers, Covers]
    constructor
    · rintro ⟨s, hs, hi⟩
      rcases (hmem s).1 hs with rfl | hs
      · exact .inr hi
      · exact .inl ⟨s, hs, hi⟩
    · rintro (⟨s, hs, hi⟩ | hi)
      · exact ⟨s, (hmem s).2 (.inr hs), hi⟩
      · exact ⟨(k, v), (hmem _).2 (.inl rfl), hi⟩

/-- Without one segment, its positions are not covered. -/
theorem erase (h : Separate text m) {k : ℕ} {v : List α} (hv : (k, v) ∈ m) :
    Separate text (OrderedMap.erase m k) ∧
      ∀ i, Covers m i ↔ Covers (OrderedMap.erase m k) i ∨ k ≤ i ∧ i < k + v.length := by
  refine ⟨⟨fun s hs => h.ne_nil s (mem_erase.1 hs).1, fun s hs => h.part s (mem_erase.1 hs).1,
    h.separated.filter _⟩, fun i => ?_⟩
  rw [Covers, Covers]
  constructor
  · rintro ⟨s, hs, hi⟩
    by_cases hkey : s.1 = k
    · rw [h.ordered.eq_of_key hs hv hkey] at hi
      exact .inr hi
    · exact .inl ⟨s, mem_erase.2 ⟨hs, hkey⟩, hi⟩
  · rintro (⟨s, hs, hi⟩ | hi)
    · exact ⟨s, (mem_erase.1 hs).1, hi⟩
    · exact ⟨(k, v), hv, hi⟩

end Separate

/-! ## Counting -/

/-- The number of covered positions. -/
def count (text : List α) (m : List (Segment α)) : ℕ :=
  ((Finset.range text.length).filter (Covers m)).card

theorem count_nil (text : List α) : count text [] = 0 := by
  rw [count, Finset.card_eq_zero, Finset.filter_eq_empty_iff]
  rintro i - ⟨s, hs, -⟩
  cases hs

theorem count_le (text : List α) (m : List (Segment α)) : count text m ≤ text.length := by
  have hcard := Finset.card_filter_le (Finset.range text.length) (Covers m)
  rwa [Finset.card_range] at hcard

/-- A new range counts for its length. -/
theorem count_of_covers_iff {m' : List (Segment α)} {k n : ℕ} (hk : k + n ≤ text.length)
    (hnew : ∀ i, k ≤ i → i < k + n → ¬Covers m i)
    (hcovers : ∀ i, Covers m' i ↔ Covers m i ∨ k ≤ i ∧ i < k + n) :
    count text m' = count text m + n := by
  have hsplit : (Finset.range text.length).filter (Covers m') =
      (Finset.range text.length).filter (Covers m) ∪ Finset.Ico k (k + n) := by
    ext i
    rw [Finset.mem_union, Finset.mem_filter, Finset.mem_filter, Finset.mem_Ico, Finset.mem_range,
      hcovers]
    constructor
    · rintro ⟨hi, hm | hn⟩
      · exact .inl ⟨hi, hm⟩
      · exact .inr hn
    · rintro (⟨hi, hm⟩ | hn)
      · exact ⟨hi, .inl hm⟩
      · exact ⟨by omega, .inr hn⟩
  rw [count, hsplit, Finset.card_union_of_disjoint, Nat.card_Ico, Nat.add_sub_cancel_left, count]
  rw [Finset.disjoint_left]
  intro i hi hn
  rw [Finset.mem_filter] at hi
  rw [Finset.mem_Ico] at hn
  exact hnew i hn.1 hn.2 hi.2

/-- Separate segments count for their lengths. -/
theorem Separate.count_eq_sum (h : Separate text m) :
    count text m = (m.map fun s => s.2.length).sum := by
  induction m with
  | nil => exact count_nil text
  | cons s m ih =>
    obtain ⟨hbefore, hseparated⟩ := List.pairwise_cons.1 h.separated
    have htail : Separate text m :=
      ⟨fun t ht => h.ne_nil t (.tail _ ht), fun t ht => h.part t (.tail _ ht), hseparated⟩
    have hstop := h.stop_le (List.mem_cons_self ..)
    rw [stop] at hstop
    rw [List.map_cons, List.sum_cons, ← ih htail, Nat.add_comm]
    refine count_of_covers_iff hstop ?_ fun i => ?_
    · -- The other segments start after the first one has ended.
      rintro i - hlt ⟨t, ht, hle, -⟩
      have hstart := hbefore t ht
      rw [stop] at hstart
      omega
    · rw [Covers, List.exists_mem_cons_iff, or_comm]
      rfl

/-- What covers more counts for no less. -/
theorem count_mono {m' : List (Segment α)} (h : ∀ i, Covers m i → Covers m' i) :
    count text m ≤ count text m' := by
  refine Finset.card_le_card fun i hi => ?_
  rw [Finset.mem_filter] at hi ⊢
  exact ⟨hi.1, h i hi.2⟩

end Tabulark.Segments
