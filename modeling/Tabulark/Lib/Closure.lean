import Mathlib

/-!
# Closing a value under pieces

A value absorbs the pieces that it meets, one after another, and goes through
them again until a pass changes nothing. Every pass that does takes in a piece
that was not covered before, so this ends. If a larger value meets whatever a
smaller one does, the result is the least one that is closed: it covers every
piece that it meets. So the order of the pieces is of no importance.
-/

namespace Tabulark.Closure

variable {α : Type*} [SemilatticeSup α] {meets : α → α → Bool}
  {pieces : List α} {x bound : α}

/-- A value covers every piece that it meets. -/
def Closed (meets : α → α → Bool) (pieces : List α) (x : α) : Prop :=
  ∀ piece ∈ pieces, meets x piece → piece ≤ x

/-- A value takes in a piece that it meets. -/
def absorb (meets : α → α → Bool) (x piece : α) : α := if meets x piece then x ⊔ piece else x

/-- A value goes through the pieces once. -/
def sweep (meets : α → α → Bool) (pieces : List α) (x : α) : α := pieces.foldl (absorb meets) x

open Classical in
/-- The number of pieces that a value does not cover. -/
noncomputable def uncovered (pieces : List α) (x : α) : ℕ := pieces.countP fun piece => ¬piece ≤ x

theorem le_absorb (x piece : α) : x ≤ absorb meets x piece := by
  rw [absorb]
  split_ifs
  · exact le_sup_left
  · exact le_rfl

theorem absorb_eq_self_iff {piece : α} :
    absorb meets x piece = x ↔ (meets x piece → piece ≤ x) := by
  rw [absorb]
  split_ifs with hmeets
  · exact sup_eq_left.trans ⟨fun h _ => h, fun h => h hmeets⟩
  · exact ⟨fun _ h => absurd h hmeets, fun _ => rfl⟩

theorem le_sweep (pieces : List α) (x : α) : x ≤ sweep meets pieces x := by
  induction pieces generalizing x with
  | nil => exact le_rfl
  | cons piece pieces ih => exact (le_absorb x piece).trans (ih _)

/-- A pass that changes nothing has found nothing to take in. -/
theorem sweep_eq_self_iff : sweep meets pieces x = x ↔ Closed meets pieces x := by
  induction pieces with
  | nil => exact ⟨fun _ _ hpiece => absurd hpiece List.not_mem_nil, fun _ => rfl⟩
  | cons piece pieces ih =>
    rw [Closed, List.forall_mem_cons, ← absorb_eq_self_iff]
    constructor
    · intro h
      have hle : absorb meets x piece ≤ x := (le_sweep pieces _).trans h.le
      have hself := hle.antisymm (le_absorb x piece)
      exact ⟨hself, ih.1 (by rwa [sweep, List.foldl_cons, hself] at h)⟩
    · rintro ⟨hself, hclosed⟩
      rw [sweep, List.foldl_cons, hself]
      exact ih.2 hclosed

theorem uncovered_anti {y : α} (hxy : x ≤ y) : uncovered pieces y ≤ uncovered pieces x :=
  List.countP_mono_left fun piece _ hpiece => by
    simp only [decide_eq_true_eq] at hpiece ⊢
    exact fun hpx => hpiece (hpx.trans hxy)

open Classical in
theorem uncovered_cons (piece : α) (x : α) :
    uncovered (piece :: pieces) x = uncovered pieces x + if piece ≤ x then 0 else 1 := by
  by_cases hpiece : piece ≤ x <;> simp [uncovered, hpiece]

/-- A pass that changes something covers a piece that was not covered. -/
theorem uncovered_sweep_lt (h : sweep meets pieces x ≠ x) :
    uncovered pieces (sweep meets pieces x) < uncovered pieces x := by
  induction pieces generalizing x with
  | nil => exact absurd rfl h
  | cons piece pieces ih =>
    have hstep : sweep meets (piece :: pieces) x = sweep meets pieces (absorb meets x piece) := rfl
    rw [hstep] at h ⊢
    rw [uncovered_cons, uncovered_cons]
    by_cases hself : absorb meets x piece = x
    · rw [hself] at h ⊢
      have hlt := ih h
      by_cases hpx : piece ≤ x
      · rw [if_pos hpx, if_pos (hpx.trans (le_sweep pieces x))]
        exact hlt
      · rw [if_neg hpx]
        split_ifs <;> omega
    · -- The piece itself was not covered, and now is.
      have hmeets : meets x piece := by_contra fun hcon =>
        hself (absorb_eq_self_iff.2 fun hmeets => absurd hmeets hcon)
      have hpx : ¬piece ≤ x := fun hcon => hself (absorb_eq_self_iff.2 fun _ => hcon)
      have hcovered : piece ≤ sweep meets pieces (absorb meets x piece) := by
        refine le_trans ?_ (le_sweep pieces _)
        rw [absorb, if_pos hmeets]
        exact le_sup_right
      have hrest := @uncovered_anti _ _ pieces _ _
        ((@le_absorb _ _ meets x piece).trans (@le_sweep _ _ meets pieces _))
      rw [if_pos hcovered, if_neg hpx]
      omega

variable [DecidableEq α]

/-- A value goes through the pieces until a pass changes nothing. -/
def close (meets : α → α → Bool) (pieces : List α) (x : α) : α :=
  if sweep meets pieces x = x then x else close meets pieces (sweep meets pieces x)
termination_by uncovered pieces x
decreasing_by exact uncovered_sweep_lt ‹_›

theorem le_close (x : α) : x ≤ close meets pieces x := by
  fun_induction close meets pieces x with
  | case1 x h => exact le_rfl
  | case2 x h ih => exact (le_sweep pieces x).trans ih

theorem closed_close (x : α) : Closed meets pieces (close meets pieces x) := by
  fun_induction close meets pieces x with
  | case1 x h => exact sweep_eq_self_iff.1 h
  | case2 x h ih => exact ih

section Least

variable (hmono : ∀ x y piece : α, x ≤ y → meets x piece → meets y piece)
include hmono

omit [DecidableEq α] in
/-- What is closed is not left. -/
theorem sweep_le {rest : List α} (hclosed : Closed meets pieces bound) (hrest : rest ⊆ pieces)
    (hx : x ≤ bound) : sweep meets rest x ≤ bound := by
  induction rest generalizing x with
  | nil => exact hx
  | cons piece rest ih =>
    obtain ⟨hpiece, hrest⟩ := List.cons_subset.1 hrest
    refine ih hrest ?_
    rw [absorb]
    split_ifs with hmeets
    · exact sup_le hx (hclosed piece hpiece (hmono _ _ _ hx hmeets))
    · exact hx

theorem close_le (hclosed : Closed meets pieces bound) (hx : x ≤ bound) :
    close meets pieces x ≤ bound := by
  fun_induction close meets pieces x with
  | case1 x h => exact hx
  | case2 x h ih => exact ih (sweep_le hmono hclosed (List.Subset.refl _) hx)

/-- The result is the least closed value from the first one on. -/
theorem isLeast_close (x : α) :
    IsLeast {y | x ≤ y ∧ Closed meets pieces y} (close meets pieces x) :=
  ⟨⟨le_close x, closed_close x⟩, fun _ hy => close_le hmono hy.2 hy.1⟩

/-- The order of the pieces, and how often each occurs, do not matter. -/
theorem close_congr {pieces' : List α} (h : ∀ piece, piece ∈ pieces' ↔ piece ∈ pieces) (x : α) :
    close meets pieces' x = close meets pieces x := by
  have hclosed : ∀ y, Closed meets pieces' y ↔ Closed meets pieces y := fun y =>
    forall_congr' fun piece => imp_congr_left (h piece)
  have hleast := @isLeast_close _ _ meets pieces' _ hmono x
  simp only [hclosed] at hleast
  exact hleast.unique (isLeast_close hmono x)

end Least

end Tabulark.Closure
