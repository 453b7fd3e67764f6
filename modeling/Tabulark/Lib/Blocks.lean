import Mathlib

/-!
# Blocks of a sequence

A sequence is cut into blocks, given by their sizes alone. `layout` places the
blocks one after the other. A block `Overlaps` a range of positions by its ends,
and `Meets` it in a position; an empty block, or an empty range, can do the
first without the second. The window of a range lies in the blocks that overlap
it (`window_overlapping`).
-/

namespace Tabulark.Blocks

/-- A block and the positions it takes. -/
structure Block (α : Type) where
  index : ℕ
  start : ℕ
  stop : ℕ
  item : α

namespace Block

variable {α : Type}

/-- The block begins before the range ends, and ends after the range begins. -/
def Overlaps (first last : ℕ) (b : Block α) : Prop := b.start < last ∧ first < b.stop

/-- A position of the block lies in the range. -/
def Meets (first last : ℕ) (b : Block α) : Prop := max b.start first < min b.stop last

instance (first last : ℕ) : DecidablePred (@Overlaps α first last) :=
  fun _ => inferInstanceAs (Decidable (_ ∧ _))

instance (first last : ℕ) : DecidablePred (@Meets α first last) :=
  fun _ => inferInstanceAs (Decidable (_ < _))

theorem meets_iff {first last : ℕ} {b : Block α} :
    b.Meets first last ↔ b.Overlaps first last ∧ b.start < b.stop ∧ first < last := by
  rw [Meets, Overlaps, max_lt_iff, lt_min_iff, lt_min_iff]
  tauto

/-- An empty block inside the range, or a block around an empty range. -/
def Spare (first last : ℕ) (b : Block α) : Prop :=
  (b.start = b.stop ∧ first < b.start ∧ b.start < last) ∨
    (first = last ∧ b.start < first ∧ first < b.stop)

instance (first last : ℕ) : DecidablePred (@Spare α first last) :=
  fun _ => inferInstanceAs (Decidable (_ ∨ _))

/-- A block overlaps a range by its ends if it meets it or is spare. -/
theorem overlaps_iff {first last : ℕ} {b : Block α} (hb : b.start ≤ b.stop) (hle : first ≤ last) :
    b.Overlaps first last ↔ b.Meets first last ∨ b.Spare first last := by
  rw [meets_iff, Overlaps, Spare]
  omega

theorem not_spare_of_meets {first last : ℕ} {b : Block α} (h : b.Meets first last) :
    ¬b.Spare first last := by
  obtain ⟨-, hb, hlt⟩ := meets_iff.1 h
  rw [Spare]
  omega

end Block

variable {α : Type} (size : α → ℕ)

/-- The blocks of some items, one after the other. -/
def layout : ℕ → ℕ → List α → List (Block α)
  | _, _, [] => []
  | index, start, a :: as =>
    ⟨index, start, start + size a, a⟩ :: layout (index + 1) (start + size a) as

variable {size}

variable {items : List α} {index start : ℕ}

theorem layout_index {b : Block α} (h : b ∈ layout size index start items) :
    index ≤ b.index ∧ items[b.index - index]? = some b.item := by
  induction items generalizing index start with
  | nil => cases h
  | cons a as ih =>
    rcases List.mem_cons.1 h with rfl | h
    · exact ⟨le_rfl, by simp⟩
    · obtain ⟨hle, hget⟩ := ih h
      refine ⟨(Nat.le_succ _).trans hle, ?_⟩
      rwa [show b.index - index = b.index - (index + 1) + 1 by omega, List.getElem?_cons_succ]

theorem layout_bounds {b : Block α}
    (h : b ∈ layout size index start items) : start ≤ b.start ∧ b.stop = b.start + size b.item := by
  induction items generalizing index start with
  | nil => cases h
  | cons a as ih =>
    rcases List.mem_cons.1 h with rfl | h
    · exact ⟨le_rfl, rfl⟩
    · obtain ⟨hle, hstop⟩ := ih h
      exact ⟨(Nat.le_add_right _ _).trans hle, hstop⟩

theorem eq_of_index {a b : Block α}
    (ha : a ∈ layout size index start items) (hb : b ∈ layout size index start items)
    (h : a.index = b.index) : a = b := by
  induction items generalizing index start with
  | nil => cases ha
  | cons x xs ih =>
    rcases List.mem_cons.1 ha with rfl | ha <;> rcases List.mem_cons.1 hb with rfl | hb
    · rfl
    · have hle := (layout_index hb).1
      dsimp only at h
      omega
    · have hle := (layout_index ha).1
      dsimp only at h
      omega
    · exact ih ha hb

/-- No block overlaps a range that ends before them. -/
theorem not_overlaps_of_le {index start first last : ℕ} (hle : last ≤ start) :
    (layout size index start items).filter (·.Overlaps first last) = [] := by
  rw [List.filter_eq_nil_iff]
  intro b hb h
  exact (of_decide_eq_true h).1.not_ge (hle.trans (layout_bounds hb).1)

/-! ## The window of a range -/

section Window

variable {β : Type} {data : Block α → List β} {first last : ℕ}

/-- What the blocks inside a range hold of it. -/
theorem take_overlapping
    (hdata : ∀ b ∈ layout size index start items, (data b).length = size b.item)
    (hle : first ≤ start) :
    (((layout size index start items).filter (·.Overlaps first last)).flatMap data).take
        (last - start) =
      ((layout size index start items).flatMap data).take (last - start) := by
  induction items generalizing index start with
  | nil => rfl
  | cons a as ih =>
    obtain ⟨hhead, htail⟩ := List.forall_mem_cons.1 hdata
    have hrest := ih htail (hle.trans (Nat.le_add_right _ (size a)))
    rw [layout, List.flatMap_cons, List.filter_cons]
    split_ifs with hover
    · rw [List.flatMap_cons, List.take_append, List.take_append, hhead, Nat.sub_sub, hrest]
    · rcases Nat.lt_or_ge start last with hlt | hge
      · -- A block inside the range that does not overlap it is empty.
        have hempty : size a = 0 := by
          by_contra hne
          exact hover (decide_eq_true ⟨hlt, by dsimp only; omega⟩)
        rw [show last - (start + size a) = last - start by omega] at hrest
        rw [List.eq_nil_of_length_eq_zero (hhead.trans hempty), List.nil_append, hrest]
      · rw [Nat.sub_eq_zero_of_le hge, List.take_zero, List.take_zero]

/-- The blocks that overlap a range hold its window, after as many positions as the first of them
    has before it. -/
theorem window_overlapping
    (hdata : ∀ b ∈ layout size index start items, (data b).length = size b.item)
    (hle : start ≤ first) :
    ((((layout size index start items).filter (·.Overlaps first last)).flatMap data).drop
        (first - (((layout size index start items).filter
          (·.Overlaps first last)).head?.elim first (·.start)))).take (last - first) =
      (((layout size index start items).flatMap data).drop (first - start)).take
        (last - first) := by
  induction items generalizing index start with
  | nil => simp [layout]
  | cons a as ih =>
    obtain ⟨hhead, htail⟩ := List.forall_mem_cons.1 hdata
    rw [layout, List.flatMap_cons, List.filter_cons]
    split_ifs with hover
    · obtain ⟨hlast, hfirst⟩ := of_decide_eq_true hover
      have hrest := @take_overlapping _ _ _ _ _ _ _ first last htail hfirst.le
      dsimp only at hfirst
      rw [List.head?_cons, Option.elim_some, List.flatMap_cons, List.drop_append_of_le_length (by
        rw [hhead]; dsimp only; omega), List.drop_append_of_le_length (by
        rw [hhead]; dsimp only; omega), List.take_append, List.take_append, List.length_drop, hhead]
      dsimp only
      rw [show last - first - (size a - (first - start)) = last - (start + size a) by omega, hrest]
    · rcases Nat.lt_or_ge start last with hlt | hge
      · have hstop : start + size a ≤ first := by
          by_contra hgt
          exact hover (decide_eq_true ⟨hlt, not_le.1 hgt⟩)
        have hdrop : (data ⟨index, start, start + size a, a⟩).drop (first - start) = [] := by
          refine List.drop_of_length_le ?_
          rw [hhead]
          dsimp only
          omega
        rw [ih htail hstop, List.drop_append, hdrop, List.nil_append, hhead]
        dsimp only
        rw [Nat.sub_sub]
      · rw [Nat.sub_eq_zero_of_le (hge.trans hle), List.take_zero, List.take_zero]

/-- The window of a range is what the blocks that meet it have inside it. -/
theorem window_meeting
    (hdata : ∀ b ∈ layout size index start items, (data b).length = size b.item) :
    ((layout size index start items).filter (·.Meets first last)).flatMap (fun b =>
        ((data b).drop (max b.start first - b.start)).take (min b.stop last - max b.start first)) =
      (((layout size index start items).flatMap data).drop (first - start)).take
        (last - max first start) := by
  induction items generalizing index start with
  | nil => simp [layout]
  | cons a as ih =>
    obtain ⟨hhead, htail⟩ := List.forall_mem_cons.1 hdata
    rw [layout, List.flatMap_cons, List.drop_append, List.take_append, List.length_drop, hhead]
    dsimp only
    rw [show first - start - size a = first - (start + size a) by omega,
      show last - max first start - (size a - (first - start)) =
        last - max first (start + size a) by omega, ← ih htail, List.filter_cons]
    split_ifs with hmeets
    · rw [List.flatMap_cons]
      congr 1
      dsimp only
      rw [show max start first - start = first - start by omega, List.take_eq_take_iff,
        List.length_drop, hhead]
      dsimp only
      omega
    · have hnone : ((data ⟨index, start, start + size a, a⟩).drop (first - start)).take
          (last - max first start) = [] := by
        rw [decide_eq_true_iff, Block.Meets, not_lt] at hmeets
        rw [← List.length_eq_zero_iff, List.length_take, List.length_drop, hhead]
        dsimp only at hmeets ⊢
        omega
      rw [hnone, List.nil_append]

end Window

/-- Parts that are as long as the blocks follow each other as the blocks do. -/
theorem flatMap_layout {β : Type} {parts : List (List β)}
    (h : parts.map List.length = items.map size) :
    (layout size index start items).flatMap (fun b => parts.getD (b.index - index) []) =
      parts.flatten := by
  induction items generalizing index start parts with
  | nil =>
    obtain rfl := List.map_eq_nil_iff.1 h
    rfl
  | cons a as ih =>
    cases parts with
    | nil => cases h
    | cons part parts =>
      rw [List.map_cons, List.map_cons, List.cons.injEq] at h
      rw [layout, List.flatMap_cons, List.flatten_cons,
        ← @ih (index + 1) (start + size a) parts h.2]
      dsimp only
      rw [Nat.sub_self, List.getD_cons_zero]
      congr 1
      refine List.flatMap_congr fun b hb => ?_
      have hle := (layout_index hb).1
      rw [show b.index - index = b.index - (index + 1) + 1 by omega, List.getD_cons_succ]

end Tabulark.Blocks
