import Mathlib
import Tabulark.Lib.Segments

/-!
# Adjacent segments of a text

Parts of a text that do not overlap but may touch. A range of the text that is
covered can lie in several of them: `longest` joins the parts that follow each
other from a position on.
-/

namespace Tabulark.Segments

variable {α : Type}

/-- Ordered parts of a text, which may touch. -/
structure Tiled (text : List α) (m : List (Segment α)) : Prop where
  ne_nil : ∀ s ∈ m, s.2 ≠ []
  part : ∀ s ∈ m, s.2 <+: text.drop s.1
  ordered : m.Pairwise fun a b => stop a ≤ b.1

/-- The position is one of a segment. -/
def Within (s : Segment α) (i : ℕ) : Prop := s.1 ≤ i ∧ i < stop s

variable {text : List α} {m m' : List (Segment α)} {s : Segment α} {i : ℕ}

theorem covers_nil : ¬Covers ([] : List (Segment α)) i := fun ⟨_, hs, _⟩ => List.not_mem_nil hs

theorem covers_cons : Covers (s :: m) i ↔ Within s i ∨ Covers m i := by
  constructor
  · rintro ⟨t, ht, hi⟩
    rcases List.mem_cons.1 ht with rfl | ht
    · exact .inl hi
    · exact .inr ⟨t, ht, hi⟩
  · rintro (hi | ⟨t, ht, hi⟩)
    · exact ⟨s, List.mem_cons_self, hi⟩
    · exact ⟨t, List.mem_cons_of_mem s ht, hi⟩

theorem covers_append : Covers (m ++ m') i ↔ Covers m i ∨ Covers m' i := by
  constructor
  · rintro ⟨s, hs, hi⟩
    exact (List.mem_append.1 hs).imp (fun hs => ⟨s, hs, hi⟩) fun hs => ⟨s, hs, hi⟩
  · rintro (⟨s, hs, hi⟩ | ⟨s, hs, hi⟩)
    · exact ⟨s, List.mem_append_left _ hs, hi⟩
    · exact ⟨s, List.mem_append_right _ hs, hi⟩

/-- A part that starts within the text ends within it. -/
theorem stop_le_of_part (hne : s.2 ≠ []) (hpart : s.2 <+: text.drop s.1) :
    s.1 < stop s ∧ stop s ≤ text.length := by
  have hle := hpart.length_le
  have hpos := List.length_pos_iff.2 hne
  rw [List.length_drop] at hle
  rw [stop]
  omega

/-- What a part has from one of its positions on. -/
theorem drop_part (hpart : s.2 <+: text.drop s.1) (hi : s.1 ≤ i) (hle : i ≤ stop s) :
    s.2.drop (i - s.1) = (text.drop i).take (stop s - i) := by
  rw [stop] at hle
  have htake : s.2 = (text.drop s.1).take s.2.length := (List.prefix_iff_eq_take.1 hpart)
  calc s.2.drop (i - s.1)
      = ((text.drop s.1).take s.2.length).drop (i - s.1) := by rw [← htake]
    _ = ((text.drop s.1).drop (i - s.1)).take (s.2.length - (i - s.1)) := List.drop_take ..
    _ = (text.drop i).take (stop s - i) := by
      rw [List.drop_drop, Nat.add_sub_cancel' hi, stop]
      congr 1
      omega

/-- A window of a text in two. -/
theorem take_add_drop (i a b : ℕ) :
    (text.drop i).take a ++ (text.drop (i + a)).take b = (text.drop i).take (a + b) := by
  rw [← List.drop_drop, ← List.take_add]

namespace Tiled

theorem nil (text : List α) : Tiled text ([] : List (Segment α)) := ⟨by simp, by simp, .nil⟩

theorem start_lt_stop (h : Tiled text m) (hs : s ∈ m) : s.1 < stop s :=
  (stop_le_of_part (h.ne_nil s hs) (h.part s hs)).1

theorem sublist (h : Tiled text m) (hsub : m'.Sublist m) : Tiled text m' :=
  ⟨fun s hs => h.ne_nil s (hsub.subset hs), fun s hs => h.part s (hsub.subset hs),
    h.ordered.sublist hsub⟩

theorem append (h : Tiled text m) (h' : Tiled text m')
    (hle : ∀ s ∈ m, ∀ s' ∈ m', stop s ≤ s'.1) : Tiled text (m ++ m') :=
  ⟨fun s hs => (List.mem_append.1 hs).elim (h.ne_nil s) (h'.ne_nil s),
    fun s hs => (List.mem_append.1 hs).elim (h.part s) (h'.part s),
    List.pairwise_append.2 ⟨h.ordered, h'.ordered, hle⟩⟩

theorem cons_iff : Tiled text (s :: m) ↔
    (s.2 ≠ [] ∧ s.2 <+: text.drop s.1) ∧ (∀ s' ∈ m, stop s ≤ s'.1) ∧ Tiled text m := by
  constructor
  · intro h
    have hordered := List.pairwise_cons.1 h.ordered
    exact ⟨⟨h.ne_nil s List.mem_cons_self, h.part s List.mem_cons_self⟩, hordered.1,
      h.sublist (List.sublist_cons_self s m)⟩
  · rintro ⟨hs, hle, h⟩
    exact ⟨List.forall_mem_cons.2 ⟨hs.1, h.ne_nil⟩, List.forall_mem_cons.2 ⟨hs.2, h.part⟩,
      List.pairwise_cons.2 ⟨hle, h.ordered⟩⟩

/-- The segments whose starts have a property of small positions, and those after them. -/
theorem split (h : Tiled text m) {p : ℕ → Prop} [DecidablePred p]
    (hp : ∀ a b, a ≤ b → p b → p a) :
    (∀ s ∈ m.takeWhile (fun s => p s.1), p s.1) ∧ ∀ s ∈ m.dropWhile (fun s => p s.1), ¬p s.1 := by
  refine ⟨fun s hs => ?_, ?_⟩
  · have hle := List.mem_takeWhile_imp hs
    rwa [decide_eq_true_eq] at hle
  induction m with
  | nil => exact fun s hs => by cases hs
  | cons t m ih =>
    obtain ⟨⟨hne, hpart⟩, hle, hm⟩ := cons_iff.1 h
    rw [List.dropWhile_cons]
    split_ifs with ht
    · exact ih hm
    · rw [decide_eq_true_eq] at ht
      have hlt := (stop_le_of_part hne hpart).1
      exact List.forall_mem_cons.2 ⟨ht, fun s hs hs' =>
        ht (hp _ _ (hlt.le.trans (hle s hs)) hs')⟩

end Tiled

/-! ## Runs of adjacent segments -/

/-- The bytes of the segments that follow each other from a position on. -/
def chain : ℕ → List (Segment α) → List α
  | _, [] => []
  | i, s :: m => if s.1 = i then s.2 ++ chain (stop s) m else []

/-- The longest covered part of the text from a position on. -/
def longest (m : List (Segment α)) (i : ℕ) : List α :=
  match (m.takeWhile fun s => s.1 ≤ i).getLast? with
  | none => []
  | some s =>
    if i < stop s then s.2.drop (i - s.1) ++ chain (stop s) (m.dropWhile fun s => s.1 ≤ i) else []

theorem longest_of_none (hlast : (m.takeWhile fun s => s.1 ≤ i).getLast? = none) :
    longest m i = [] := by
  rw [longest, hlast]

/-- The longest covered part from a position of the segment before it on. -/
theorem longest_of_lt (hlast : (m.takeWhile fun s => s.1 ≤ i).getLast? = some s)
    (hlt : i < stop s) :
    longest m i = s.2.drop (i - s.1) ++ chain (stop s) (m.dropWhile fun s => s.1 ≤ i) := by
  rw [longest, hlast]
  exact if_pos hlt

theorem longest_of_le (hlast : (m.takeWhile fun s => s.1 ≤ i).getLast? = some s)
    (hle : stop s ≤ i) : longest m i = [] := by
  rw [longest, hlast]
  exact if_neg (not_lt.2 hle)

theorem chain_eq (h : Tiled text m) (hle : ∀ s ∈ m, i ≤ s.1) :
    chain i m = (text.drop i).take (chain i m).length ∧
      (∀ j, i ≤ j → j < i + (chain i m).length → Covers m j) ∧
      ¬Covers m (i + (chain i m).length) := by
  induction m generalizing i with
  | nil => exact ⟨by simp [chain], fun j hij hj => absurd hj (by simp [chain]; omega), covers_nil⟩
  | cons s m ih =>
    obtain ⟨⟨hne, hpart⟩, hafter, hm⟩ := Tiled.cons_iff.1 h
    have hstop := (stop_le_of_part hne hpart).1
    by_cases hstart : s.1 = i
    · subst hstart
      obtain ⟨heq, hcovers, hnot⟩ := ih hm hafter
      have hchain : chain s.1 (s :: m) = s.2 ++ chain (stop s) m := if_pos rfl
      have hlength : s.1 + (s.2 ++ chain (stop s) m).length =
          stop s + (chain (stop s) m).length := by
        rw [List.length_append, stop, Nat.add_assoc]
      rw [hchain, hlength]
      refine ⟨?_, fun j hij hj => ?_, fun hin => ?_⟩
      · have htake := List.prefix_iff_eq_take.1 hpart
        rw [List.length_append, ← take_add_drop, ← htake]
        exact congrArg _ heq
      · rw [covers_cons]
        by_cases hjs : j < stop s
        · exact .inl ⟨hij, hjs⟩
        · exact .inr (hcovers j (not_lt.1 hjs) hj)
      · rw [covers_cons] at hin
        rcases hin with ⟨_, hlt⟩ | hin
        · omega
        · exact hnot hin
    · have hchain : chain i (s :: m) = [] := if_neg hstart
      have hlt : i < s.1 := lt_of_le_of_ne (hle s List.mem_cons_self) (Ne.symm hstart)
      rw [hchain]
      refine ⟨by simp, fun j hij hj => absurd hj (by simp; omega), ?_⟩
      rintro ⟨s', hs', hle', _⟩
      rcases List.mem_cons.1 hs' with rfl | hs'
      · simp only [List.length_nil] at hle'
        omega
      · have hle'' := hafter s' hs'
        simp only [List.length_nil] at hle'
        omega

/-- The longest covered part is a part of the text, and goes as far as positions are covered. -/
theorem longest_eq (h : Tiled text m) (i : ℕ) :
    longest m i = (text.drop i).take (longest m i).length ∧
      (∀ j, i ≤ j → j < i + (longest m i).length → Covers m j) ∧
      ¬Covers m (i + (longest m i).length) := by
  obtain ⟨hbefore, hafter⟩ := h.split (p := (· ≤ i)) fun _ _ => le_trans
  have hm := List.takeWhile_append_dropWhile (p := fun s : Segment α => s.1 ≤ i) (l := m)
  generalize hb : m.takeWhile (fun s => s.1 ≤ i) = before at hbefore hm
  generalize ha : m.dropWhile (fun s => s.1 ≤ i) = after at hafter hm
  have hlongest : longest m i = match before.getLast? with
    | none => []
    | some s => if i < stop s then s.2.drop (i - s.1) ++ chain (stop s) after else [] := by
    rw [longest, hb, ha]
  have hnot : ∀ j, j ≤ i → ¬Covers after j := by
    rintro j hj ⟨s, hs, hle, -⟩
    exact hafter s hs (hle.trans hj)
  rw [hlongest]
  subst hm
  cases hlast : before.getLast? with
  | none =>
    rw [List.getLast?_eq_none_iff] at hlast
    subst hlast
    refine ⟨by simp, fun j hij hj => absurd hj (by simp; omega), ?_⟩
    rw [List.nil_append]
    exact hnot _ (by simp)
  | some s =>
    obtain ⟨init, rfl⟩ := List.getLast?_eq_some_iff.1 hlast
    have hall : Tiled text (init ++ (s :: after)) := by
      rw [List.append_assoc] at h
      exact h
    have hinit : ∀ s' ∈ init, stop s' ≤ s.1 := fun s' hs' =>
      (List.pairwise_append.1 hall.ordered).2.2 s' hs' s List.mem_cons_self
    obtain ⟨⟨hne, hpart⟩, hle, htiled⟩ :=
      Tiled.cons_iff.1 (hall.sublist (List.sublist_append_right init _))
    have hsi : s.1 ≤ i := hbefore s (List.mem_append_right _ (List.mem_singleton_self s))
    have hnotinit : ∀ j, i ≤ j → ¬Covers init j := by
      rintro j hj ⟨s', hs', -, hlt⟩
      have hstop := hinit s' hs'
      omega
    dsimp only
    rw [List.append_assoc, List.singleton_append]
    by_cases hlt : i < stop s
    · -- The part from the position on, and the chain after the segment.
      rw [if_pos hlt]
      obtain ⟨heq, hcovers, hend⟩ := chain_eq htiled hle
      have hlength : i + (s.2.drop (i - s.1) ++ chain (stop s) after).length =
          stop s + (chain (stop s) after).length := by
        rw [List.length_append, List.length_drop]
        rw [stop] at hlt ⊢
        omega
      rw [hlength]
      refine ⟨?_, fun j hij hj => ?_, fun hin => ?_⟩
      · rw [drop_part hpart hsi hlt.le]
        conv_lhs => rw [heq]
        rw [List.length_append, List.length_take, List.length_drop, ← take_add_drop]
        have hmin : min (stop s - i) (text.length - i) = stop s - i := by
          have hstop := (stop_le_of_part hne hpart).2
          omega
        rw [hmin, Nat.add_sub_cancel' hlt.le]
      · rw [covers_append, covers_cons]
        by_cases hjs : j < stop s
        · exact .inr (.inl ⟨hsi.trans hij, hjs⟩)
        · exact .inr (.inr (hcovers j (not_lt.1 hjs) hj))
      · rw [covers_append, covers_cons] at hin
        rcases hin with hin | ⟨_, hin⟩ | hin
        · exact hnotinit _ (by omega) hin
        · omega
        · exact hend hin
    · rw [if_neg hlt]
      refine ⟨by simp, fun j hij hj => absurd hj (by simp; omega), ?_⟩
      rw [List.length_nil, Nat.add_zero, covers_append, covers_cons]
      rintro (hin | ⟨_, hin⟩ | hin)
      · exact hnotinit i le_rfl hin
      · exact hlt hin
      · exact hnot i le_rfl hin

/-- A range is covered if the longest covered part has all of it. -/
theorem le_length_longest_iff (h : Tiled text m) {n : ℕ} :
    n ≤ (longest m i).length ↔ ∀ j, i ≤ j → j < i + n → Covers m j := by
  obtain ⟨-, hcovers, hend⟩ := longest_eq h i
  refine ⟨fun hn j hij hj => hcovers j hij (by omega), fun hall => ?_⟩
  by_contra hn
  exact hend (hall _ (Nat.le_add_right _ _) (by omega))

/-- A covered range, read from the longest covered part. -/
theorem take_longest (h : Tiled text m) {n : ℕ} (hn : n ≤ (longest m i).length) :
    (longest m i).take n = (text.drop i).take n := by
  rw [(longest_eq h i).1, List.take_take, Nat.min_eq_left hn]

end Tabulark.Segments
