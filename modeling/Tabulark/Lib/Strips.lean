import Mathlib
import Tabulark.Lib.Bisect

/-!
# Strips side by side

Strips of any sizes lie side by side from zero on; `offset size i` is where the
strip `i` begins. Sizes are not negative, but may be zero: such a strip covers no
point. Every point within the sum of the sizes is covered by one strip
(`exists_covers`), and by only one (`Covers.unique`).
-/

namespace Tabulark.Strips

open Bisect

variable {K : Type*} [AddCommGroup K] {size : ℕ → K} {i j n : ℕ} {x : K}

/-- Where a strip begins. -/
def offset (size : ℕ → K) (i : ℕ) : K := ∑ j ∈ Finset.range i, size j

@[simp] theorem offset_zero (size : ℕ → K) : offset size 0 = 0 := Finset.sum_range_zero _

theorem offset_succ (size : ℕ → K) (i : ℕ) : offset size (i + 1) = offset size i + size i :=
  Finset.sum_range_succ _ _

variable [LinearOrder K]

/-- A strip covers a point. -/
def Covers (size : ℕ → K) (i : ℕ) (x : K) : Prop := offset size i ≤ x ∧ x < offset size i + size i

theorem covers_iff : Covers size i x ↔ offset size i ≤ x ∧ x < offset size (i + 1) := by
  rw [Covers, offset_succ]

variable [IsOrderedAddMonoid K]

theorem Covers.pos (h : Covers size i x) : 0 < size i :=
  pos_of_lt_add_right (h.1.trans_lt h.2)

section Nonneg

variable (hsize : ∀ i, 0 ≤ size i)
include hsize

theorem offset_mono : Monotone (offset size) :=
  monotone_nat_of_le_succ fun i => by
    rw [offset_succ]
    exact le_add_of_nonneg_right (hsize i)

theorem offset_nonneg (i : ℕ) : 0 ≤ offset size i :=
  Finset.sum_nonneg fun j _ => hsize j

/-- A strip that covers a point is the first one to end behind it. -/
theorem Covers.le_iff (h : Covers size i x) : offset size (j + 1) ≤ x ↔ j < i := by
  rw [covers_iff] at h
  constructor
  · intro hj
    by_contra hle
    exact absurd (h.2.trans_le (offset_mono hsize (Nat.succ_le_succ (not_lt.1 hle)))) hj.not_gt
  · exact fun hj => (offset_mono hsize hj).trans h.1

theorem Covers.unique (hi : Covers size i x) (hj : Covers size j x) : i = j := by
  rcases lt_trichotomy i j with h | h | h
  · exact absurd ((hj.le_iff hsize).2 h) (not_le.2 (covers_iff.1 hi).2)
  · exact h
  · exact absurd ((hi.le_iff hsize).2 h) (not_le.2 (covers_iff.1 hj).2)

/-- Further on are later strips. -/
theorem Covers.mono {y : K} (hi : Covers size i x) (hj : Covers size j y) (hxy : x ≤ y) :
    i ≤ j := by
  by_contra hlt
  have hle := (offset_mono hsize (Nat.succ_le_of_lt (not_le.1 hlt))).trans hi.1
  exact absurd ((hle.trans hxy).trans_lt (covers_iff.1 hj).2) (lt_irrefl _)

theorem Covers.nonneg (h : Covers size i x) : 0 ≤ x := (offset_nonneg hsize i).trans h.1

theorem Covers.lt_offset (h : Covers size i x) (hi : i < n) : x < offset size n :=
  (covers_iff.1 h).2.trans_le (offset_mono hsize hi)

/-- A search among the ends of the strips finds the one that covers a point. -/
theorem bisect_eq_of_covers {stop : ℕ → K} {count : ℕ}
    (hstop : ∀ j < count, stop j = offset size (j + 1)) (hi : i < count)
    (hcovers : Covers size i x) : bisect (fun middle => stop middle ≤ x) 0 count = i := by
  have hle : ∀ j < count, stop j ≤ x ↔ j < i := fun j hj => by
    rw [hstop j hj, hcovers.le_iff hsize]
  refine (isBorder_bisect (fun j k _ hjk hk hbefore => ?_) (Nat.zero_le _)).unique
    ⟨Nat.zero_le _, hi.le, fun j _ hj => ?_, fun j hj hlt => ?_⟩
  · rw [decide_eq_true_eq, hle _ hk] at hbefore
    exact decide_eq_true ((hle j (hjk.trans_lt hk)).2 (hjk.trans_lt hbefore))
  · exact decide_eq_true ((hle j (hj.trans hi)).2 hj)
  · rw [decide_eq_true_eq, hle j hlt]
    exact not_lt.2 hj

end Nonneg

omit [IsOrderedAddMonoid K] in
/-- Every point is covered. -/
theorem exists_covers (hzero : 0 ≤ x) (hlt : x < offset size n) : ∃ i < n, Covers size i x := by
  induction n with
  | zero => exact absurd hlt (by rw [offset_zero]; exact not_lt.2 hzero)
  | succ n ih =>
    by_cases hn : x < offset size n
    · obtain ⟨i, hi, hcovers⟩ := ih hn
      exact ⟨i, hi.trans n.lt_succ_self, hcovers⟩
    · exact ⟨n, n.lt_succ_self, covers_iff.2 ⟨not_lt.1 hn, hlt⟩⟩

/-- Strips in a row cover what lies between the first and the last. -/
theorem exists_covers_Ico (hsize : ∀ i, 0 ≤ size i) {first stop : ℕ} :
    (∃ i, first ≤ i ∧ i < stop ∧ Covers size i x) ↔
      offset size first ≤ x ∧ x < offset size stop := by
  constructor
  · rintro ⟨i, hfirst, hstop, hcovers⟩
    exact ⟨(offset_mono hsize hfirst).trans hcovers.1, hcovers.lt_offset hsize hstop⟩
  · rintro ⟨hle, hlt⟩
    obtain ⟨i, hi, hcovers⟩ := exists_covers ((offset_nonneg hsize first).trans hle) hlt
    refine ⟨i, not_lt.1 fun hfirst => ?_, hi, hcovers⟩
    exact absurd (hcovers.lt_offset hsize hfirst) (not_lt.2 hle)

end Tabulark.Strips
