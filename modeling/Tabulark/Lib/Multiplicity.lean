import Mathlib

/-!
# How many parts have a point

`multiplicity` counts the parts of a list that have a point. Parts are disjoint
if no point has more than one (`pairwise_disjoint_iff`), and products of disjoint
parts are disjoint: the multiplicities multiply (`multiplicity_product`).
-/

namespace Tabulark

variable {α β γ ι κ : Type*} {mem : α → ι → Bool} {parts parts' : List α} {i : ι}

/-- The number of parts that have a point. -/
def multiplicity (mem : α → ι → Bool) (parts : List α) (i : ι) : ℕ := parts.countP (mem · i)

@[simp] theorem multiplicity_nil : multiplicity mem [] i = 0 := List.countP_nil

@[simp] theorem multiplicity_cons {a : α} : multiplicity mem (a :: parts) i =
    multiplicity mem parts i + if mem a i then 1 else 0 := List.countP_cons

@[simp] theorem multiplicity_append : multiplicity mem (parts ++ parts') i =
    multiplicity mem parts i + multiplicity mem parts' i := List.countP_append

theorem multiplicity_pos : 0 < multiplicity mem parts i ↔ ∃ a ∈ parts, mem a i :=
  List.countP_pos_iff

theorem multiplicity_eq_zero : multiplicity mem parts i = 0 ↔ ∀ a ∈ parts, ¬mem a i :=
  List.countP_eq_zero

/-- No two parts have a point in common if no point has more than one part. -/
theorem pairwise_disjoint_iff : (parts.Pairwise fun a b => ∀ i, mem a i → ¬mem b i) ↔
    ∀ i, multiplicity mem parts i ≤ 1 := by
  induction parts with
  | nil => simp
  | cons a parts ih =>
    rw [List.pairwise_cons, ih]
    constructor
    · rintro ⟨hfirst, hrest⟩ i
      rw [multiplicity_cons]
      by_cases hmem : mem a i
      · have hzero := multiplicity_eq_zero.2 fun b hb => hfirst b hb i hmem
        simp [hzero, hmem]
      · rw [if_neg hmem]
        exact hrest i
    · intro h
      have hcons : ∀ i, multiplicity mem parts i + (if mem a i then 1 else 0) ≤ 1 := fun i => by
        have hle := h i
        rwa [multiplicity_cons] at hle
      refine ⟨fun b hb i hmem hmem' => ?_, fun i => Nat.le_trans (Nat.le_add_right _ _) (hcons i)⟩
      have hpos := multiplicity_pos.2 ⟨b, hb, hmem'⟩
      have hone := hcons i
      rw [if_pos hmem] at hone
      omega

/-- A point of a product is in the products of the parts of one and of the parts of the other. -/
theorem multiplicity_product {mem' : β → κ → Bool} {product : α → β → γ} {mem'' : γ → ι × κ → Bool}
    (hproduct : ∀ a b i k, mem'' (product a b) (i, k) = (mem a i && mem' b k)) (others : List β)
    (k : κ) : multiplicity mem'' (parts.flatMap fun a => others.map (product a)) (i, k) =
      multiplicity mem parts i * multiplicity mem' others k := by
  have hmap : ∀ a, multiplicity mem'' (others.map (product a)) (i, k) =
      if mem a i then multiplicity mem' others k else 0 := fun a => by
    rw [multiplicity, List.countP_map, multiplicity]
    split_ifs with hmem
    · exact List.countP_congr fun b _ => by simp [hproduct, hmem]
    · exact List.countP_eq_zero.2 fun b _ => by simp [hproduct, hmem]
  induction parts with
  | nil => simp
  | cons a parts ih =>
    rw [List.flatMap_cons, multiplicity_append, ih, hmap, multiplicity_cons, Nat.add_mul]
    split_ifs <;> simp [Nat.add_comm]

end Tabulark
