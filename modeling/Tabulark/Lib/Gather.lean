import Mathlib

/-!
# Gathering items up to a target

A machine that takes one item at a time and gathers items until it has `target`
of them, then goes on with what it gathered. A check may stop it on the way, as
long as a gathered list passes only if its beginnings do. `foldlM_gather` says
what a fragment does to it, wherever the fragment was cut.
-/

namespace Tabulark.Gather

variable {σ α : Type} {step : σ → α → Option σ} {acc : List α → σ} {done : List α → Option σ}
  {check : List α → Prop} [DecidablePred check] {target : ℕ}

/-- What one item does: it is gathered, or it is the last one. -/
def IsGather (step : σ → α → Option σ) (acc : List α → σ) (done : List α → Option σ)
    (check : List α → Prop) [DecidablePred check] (target : ℕ) : Prop :=
  ∀ gathered x, gathered.length < target → step (acc gathered) x =
    if check (gathered ++ [x]) then
      if gathered.length + 1 < target then some (acc (gathered ++ [x])) else done (gathered ++ [x])
    else none

/-- What a fragment does. -/
theorem foldlM_gather (hstep : IsGather step acc done check target)
    (hcheck : ∀ gathered more, check (gathered ++ more) → check gathered) {fragment : List α}
    (hne : fragment ≠ []) {gathered : List α}
    (hle : gathered.length + fragment.length ≤ target) :
    fragment.foldlM step (acc gathered) =
      if check (gathered ++ fragment) then
        if gathered.length + fragment.length < target then some (acc (gathered ++ fragment))
        else done (gathered ++ fragment)
      else none := by
  induction fragment generalizing gathered with
  | nil => exact absurd rfl hne
  | cons x fragment ih =>
    rw [List.length_cons] at hle ⊢
    rw [List.foldlM_cons, hstep gathered x (by omega)]
    by_cases hnil : fragment = []
    · subst hnil
      rw [List.length_nil, Nat.zero_add]
      split_ifs
      · rfl
      · exact bind_pure _
      · rfl
    · have hpos := List.length_pos_iff.2 hnil
      have happend : gathered ++ x :: fragment = (gathered ++ [x]) ++ fragment := by
        rw [List.append_assoc, List.singleton_append]
      have hlength : (gathered ++ [x]).length = gathered.length + 1 := by
        rw [List.length_append, List.length_singleton]
      by_cases hok : check (gathered ++ [x])
      · rw [if_pos hok, if_pos (by omega), happend]
        have hrest := @ih hnil (gathered ++ [x]) (by omega)
        rw [hlength, Nat.add_assoc, Nat.add_comm 1] at hrest
        exact hrest
      · rw [if_neg hok, if_neg fun hall => hok (hcheck _ fragment (happend ▸ hall))]
        rfl

end Tabulark.Gather
