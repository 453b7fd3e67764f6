import Mathlib

/-!
# Binary search

`bisect` looks for the border between the indexes before some place and those
from it on, in a half-open range that it halves until it is empty. If `before`
is a beginning of the range, the result is the border (`isBorder_bisect`), and
there is only one (`IsBorder.unique`). In a sorted list, `lowerBoundBy` finds the
items below a target (`take_lowerBoundBy`).
-/

namespace Tabulark.Bisect

variable {before : ℕ → Bool} {low high n m : ℕ}

/-- Halves a range until it is empty. -/
def bisect (before : ℕ → Bool) (low high : ℕ) : ℕ :=
  if low < high then
    let middle := (low + high) / 2
    if before middle then bisect before (middle + 1) high else bisect before low middle
  else low
termination_by high - low

/-- The index that separates those before some place, of a range, from the others. -/
structure IsBorder (before : ℕ → Bool) (low high n : ℕ) : Prop where
  low_le : low ≤ n
  le_high : n ≤ high
  holds : ∀ i, low ≤ i → i < n → before i
  fails : ∀ i, n ≤ i → i < high → ¬before i

theorem IsBorder.unique (hn : IsBorder before low high n) (hm : IsBorder before low high m) :
    n = m := by
  rcases lt_trichotomy n m with h | h | h
  · exact absurd (hm.holds n hn.low_le h) (hn.fails n le_rfl (h.trans_le hm.le_high))
  · exact h
  · exact absurd (hn.holds m hm.low_le h) (hm.fails m le_rfl (h.trans_le hn.le_high))

/-- An index lies before the border exactly if it is one of those before. -/
theorem IsBorder.lt_iff (h : IsBorder before low high n) {i : ℕ} (hlow : low ≤ i)
    (hhigh : i < high) : i < n ↔ before i :=
  ⟨h.holds i hlow, fun hbefore => by_contra fun hlt => h.fails i (not_lt.1 hlt) hhigh hbefore⟩

/-- What lies before an index that is before the place is before it, too. -/
def Beginning (before : ℕ → Bool) (low high : ℕ) : Prop :=
  ∀ i j, low ≤ i → i ≤ j → j < high → before j → before i

/-- The search finds the border. -/
theorem isBorder_bisect (hbeginning : Beginning before low high) (hle : low ≤ high) :
    IsBorder before low high (bisect before low high) := by
  fun_induction bisect before low high with
  | case1 low high hlt middle hmiddle ih =>
    have h := ih (fun i j hi => hbeginning i j (by omega)) (by omega)
    refine ⟨by have := h.low_le; omega, h.le_high, fun i hi hlt => ?_, h.fails⟩
    by_cases hi' : middle + 1 ≤ i
    · exact h.holds i hi' hlt
    · exact hbeginning i middle hi (by omega) (by omega) hmiddle
  | case2 low high hlt middle hmiddle ih =>
    have h := ih (fun i j hi hij hj => hbeginning i j hi hij (by omega)) (by omega)
    refine ⟨h.low_le, by have := h.le_high; omega, h.holds, fun i hi hlt => ?_⟩
    by_cases hi' : i < middle
    · exact h.fails i hi hi'
    · exact fun hbefore => hmiddle (hbeginning middle i (by omega) (by omega) hlt hbefore)
  | case3 low high hlt =>
    exact ⟨le_rfl, hle, fun i hi hlt => absurd hlt (not_lt.2 hi), fun i hi hlt => by omega⟩

/-! ## Searching a list -/

section List

variable {α β : Type*} [LinearOrder β] {key : α → β} {items : List α} {target : β}

/-- Whether the key of an item is below a target. -/
def below (key : α → β) (items : List α) (target : β) (middle : ℕ) : Bool :=
  items[middle]?.any fun item => key item < target

theorem below_iff (hn : n < items.length) : below key items target n ↔ key items[n] < target := by
  rw [below, List.getElem?_eq_getElem hn, Option.any_some, decide_eq_true_eq]

/-- The number of items whose keys are below a target, in a list that is sorted by key. -/
def lowerBoundBy (key : α → β) (items : List α) (target : β) : ℕ :=
  bisect (below key items target) 0 items.length

variable (hsorted : items.Pairwise fun a b => key a ≤ key b)
include hsorted

theorem isBorder_lowerBoundBy :
    IsBorder (below key items target) 0 items.length (lowerBoundBy key items target) := by
  refine isBorder_bisect (fun i j _ hij hj hbelow => ?_) (Nat.zero_le _)
  rcases hij.eq_or_lt with rfl | hlt
  · exact hbelow
  · rw [below_iff hj] at hbelow
    rw [below_iff (hlt.trans hj)]
    exact (List.pairwise_iff_getElem.1 hsorted i j (hlt.trans hj) hj hlt).trans_lt hbelow

theorem lowerBoundBy_le : lowerBoundBy key items target ≤ items.length :=
  (isBorder_lowerBoundBy hsorted).le_high

theorem lt_lowerBoundBy_iff (hn : n < items.length) :
    n < lowerBoundBy key items target ↔ key items[n] < target :=
  ((isBorder_lowerBoundBy hsorted).lt_iff (Nat.zero_le n) hn).trans (below_iff hn)

/-- The search separates the items below the target from the others. -/
theorem take_lowerBoundBy :
    items.take (lowerBoundBy key items target) = items.filter fun item => key item < target := by
  have hfirst : (items.take (lowerBoundBy key items target)).filter
      (fun item => key item < target) = items.take (lowerBoundBy key items target) :=
    List.filter_eq_self.2 fun x hx => by
      obtain ⟨i, hi, rfl⟩ := List.mem_take_iff_getElem.1 hx
      exact decide_eq_true ((lt_lowerBoundBy_iff hsorted (by omega)).1 (by omega))
  have hlast : (items.drop (lowerBoundBy key items target)).filter
      (fun item => key item < target) = [] :=
    List.filter_eq_nil_iff.2 fun x hx => by
      obtain ⟨i, hi, rfl⟩ := List.mem_drop_iff_getElem.1 hx
      exact fun hp => absurd ((lt_lowerBoundBy_iff hsorted (by omega)).2 (of_decide_eq_true hp))
        (by omega)
  calc items.take (lowerBoundBy key items target)
      = (items.take (lowerBoundBy key items target) ++
          items.drop (lowerBoundBy key items target)).filter fun item => key item < target := by
        rw [List.filter_append, hfirst, hlast, List.append_nil]
    _ = items.filter fun item => key item < target := by rw [List.take_append_drop]

end List

end Tabulark.Bisect
