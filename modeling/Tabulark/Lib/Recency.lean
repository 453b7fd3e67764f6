import Mathlib

/-!
# Queues by recency

A queue has its items in the order in which they were last used. What no longer fits in a size
falls off its start, so that the longest part at its end is kept that fits (`fit`).
-/

namespace Tabulark.Recency

variable {α : Type*} (size : α → ℕ) (max : ℕ)

/-- The size of all items. -/
def total (l : List α) : ℕ := (l.map size).sum

/-- The longest part at the end of a queue that fits. -/
def fit : List α → List α
  | [] => []
  | a :: l => if total size (a :: l) ≤ max then a :: l else fit l

variable {size max} {a : α} {l r : List α}

theorem total_cons (a : α) (l : List α) : total size (a :: l) = size a + total size l :=
  List.sum_cons

theorem total_append (l r : List α) : total size (l ++ r) = total size l + total size r := by
  rw [total, List.map_append, List.sum_append, total, total]

theorem total_perm (h : l.Perm r) : total size l = total size r := (h.map size).sum_eq

/-- A queue that fits is kept. -/
theorem fit_of_le (h : total size l ≤ max) : fit size max l = l := by
  cases l with
  | nil => rfl
  | cons a l => exact if_pos h

theorem fit_cons_of_lt (h : max < total size (a :: l)) :
    fit size max (a :: l) = fit size max l := if_neg (Nat.not_le.2 h)

theorem fit_suffix (l : List α) : fit size max l <:+ l := by
  induction l with
  | nil => exact List.suffix_rfl
  | cons a l ih =>
    rw [fit]
    split
    · exact List.suffix_rfl
    · exact ih.trans (List.suffix_cons a l)

theorem total_fit_le (l : List α) : total size (fit size max l) ≤ max := by
  induction l with
  | nil => exact Nat.zero_le max
  | cons a l ih =>
    rw [fit]
    split
    · assumption
    · exact ih

theorem map_fit {β : Type*} {size : β → ℕ} (f : α → β) (l : List α) :
    (fit (size ∘ f) max l).map f = fit size max (l.map f) := by
  induction l with
  | nil => rfl
  | cons a l ih =>
    rw [List.map_cons, fit, fit, ← List.map_cons, total, total, List.map_map]
    split
    · rfl
    · exact ih

end Tabulark.Recency
