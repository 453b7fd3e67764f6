import Mathlib

/-!
# Windows of a list in parts

A list is kept in parts, each with the position where it starts. The items
between two positions are collected from the parts that have some of them.
-/

namespace Tabulark.Window

variable {α β : Type} {start a b : ℕ}

/-- The items between two positions, of a part that starts at a third one. -/
def window (start : ℕ) (part : List α) (a b : ℕ) : List α :=
  (part.drop (max a start - start)).take (min b (start + part.length) - max a start)

/-- A window of a part, as an offset in the part and a length. -/
theorem window_bounds {n : ℕ} (h : max a start < min b (start + n)) :
    max a start - start + (min b (start + n) - max a start) ≤ n := by
  omega

theorem window_eq_nil {part : List α} (h : min b (start + part.length) ≤ max a start) :
    window start part a b = [] := by
  rw [window, Nat.sub_eq_zero_of_le h, List.take_zero]

/-- The window of two parts one after the other. -/
theorem window_append (xs ys : List α) :
    window start (xs ++ ys) a b = window start xs a b ++ window (start + xs.length) ys a b := by
  have hxs : (xs.drop (max a start - start)).take
      (min b (start + (xs.length + ys.length)) - max a start) = window start xs a b := by
    rw [window, List.take_eq_take_iff, List.length_drop]
    omega
  have hdrop : max a start - start - xs.length =
      max a (start + xs.length) - (start + xs.length) := by
    omega
  have htake : min b (start + (xs.length + ys.length)) - max a start -
      (xs.length - (max a start - start)) =
        min b (start + xs.length + ys.length) - max a (start + xs.length) := by
    omega
  rw [← hxs, window, window, List.drop_append, List.take_append, List.length_append,
    List.length_drop, hdrop, htake]

/-- The window of parts that start where the ones before end. -/
def windows (a b : ℕ) : ℕ → List (List α) → List (List α)
  | _, [] => []
  | start, part :: parts => window start part a b :: windows a b (start + part.length) parts

theorem flatten_windows (parts : List (List α)) :
    (windows a b start parts).flatten = window start parts.flatten a b := by
  induction parts generalizing start with
  | nil => rw [windows, List.flatten_nil, window, List.drop_nil, List.take_nil]
  | cons part parts ih =>
    rw [windows, List.flatten_cons, ih, List.flatten_cons, window_append]

/-- The window of a whole list. -/
theorem window_zero {items : List α} (h : b ≤ items.length) :
    window 0 items a b = (items.drop a).take (b - a) := by
  rw [window, Nat.max_zero, Nat.zero_add, Nat.min_eq_left h, Nat.sub_zero]

/-- Parts without items between the two positions may be left out. -/
theorem flatMap_filter {f : α → List β} {p : α → Bool} {items : List α}
    (h : ∀ x ∈ items, p x = false → f x = []) : (items.filter p).flatMap f = items.flatMap f := by
  induction items with
  | nil => rfl
  | cons x items ih =>
    have hrest := ih fun y hy => h y (List.mem_cons_of_mem x hy)
    rw [List.flatMap_cons, List.filter_cons, ← hrest]
    by_cases hp : p x = true
    · rw [if_pos hp, List.flatMap_cons]
    · rw [if_neg hp, h x List.mem_cons_self (Bool.not_eq_true _ ▸ hp), List.nil_append]

end Tabulark.Window
