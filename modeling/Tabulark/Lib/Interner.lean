import Mathlib

/-!
# Interning

A pool keeps each value once. Values are looked up by a fingerprint: a bucket
has the positions of the values with its fingerprint, and those are compared
one by one. Nothing is asked of the fingerprint, so that any values may collide.
-/

namespace Tabulark.Interner

/-- The values of a pool, and where those with a fingerprint are. -/
structure Pool (α F : Type) where
  entries : List α := []
  buckets : F → List ℕ := fun _ => []

variable {α F : Type}

namespace Pool

variable (fingerprint : α → F)

/-- Where a value is, if its bucket says. -/
def find? [DecidableEq α] (p : Pool α F) (x : α) : Option ℕ :=
  (p.buckets (fingerprint x)).find? fun i => p.entries[i]? = some x

/-- The pool with one more value. -/
def push [DecidableEq F] (p : Pool α F) (x : α) : Pool α F where
  entries := p.entries ++ [x]
  buckets := Function.update p.buckets (fingerprint x)
    (p.buckets (fingerprint x) ++ [p.entries.length])

/-- No value is twice in the pool, and the bucket of its fingerprint has its position. -/
structure Sound (p : Pool α F) : Prop where
  nodup : p.entries.Nodup
  mem_bucket : ∀ {i x}, p.entries[i]? = some x → i ∈ p.buckets (fingerprint x)

variable {fingerprint} {p : Pool α F} {x : α}

theorem sound_empty : Sound fingerprint ({} : Pool α F) := ⟨.nil, nofun⟩

theorem getElem?_of_find? [DecidableEq α] {i : ℕ} (h : p.find? fingerprint x = some i) :
    p.entries[i]? = some x := by
  have hfound := List.find?_some h
  exact of_decide_eq_true hfound

/-- A value that is not found is not in the pool, whatever else is in its bucket. -/
theorem Sound.not_mem_of_find? [DecidableEq α] (hp : p.Sound fingerprint)
    (h : p.find? fingerprint x = none) : x ∉ p.entries := by
  intro hmem
  obtain ⟨i, hi⟩ := List.mem_iff_getElem?.1 hmem
  exact List.find?_eq_none.1 h i (hp.mem_bucket hi) (decide_eq_true hi)

theorem Sound.push [DecidableEq F] (hp : p.Sound fingerprint) (h : x ∉ p.entries) :
    (p.push fingerprint x).Sound fingerprint where
  nodup := List.nodup_append.2 ⟨hp.nodup, List.nodup_singleton x, by
    rintro a ha b hb rfl
    exact h (List.mem_singleton.1 hb ▸ ha)⟩
  mem_bucket := by
    intro i y hi
    have hmono : ∀ {j}, j ∈ p.buckets (fingerprint y) →
        j ∈ (p.push fingerprint x).buckets (fingerprint y) := by
      intro j hj
      rw [Pool.push]
      dsimp only
      by_cases heq : fingerprint y = fingerprint x
      · rw [heq, Function.update_self]
        exact List.mem_append_left _ (heq ▸ hj)
      · rwa [Function.update_of_ne heq]
    rw [Pool.push] at hi
    dsimp only at hi
    rw [List.getElem?_append] at hi
    split_ifs at hi with hlt
    · exact hmono (hp.mem_bucket hi)
    · -- The new value is the last one.
      obtain ⟨hzero, rfl⟩ : i - p.entries.length = 0 ∧ x = y := by
        cases hn : i - p.entries.length with
        | zero =>
          rw [hn] at hi
          exact ⟨rfl, Option.some.inj hi⟩
        | succ n =>
          rw [hn] at hi
          cases hi
      rw [Pool.push]
      dsimp only
      rw [Function.update_self]
      exact List.mem_append_right _ (List.mem_singleton.2 (by omega))

end Pool

end Tabulark.Interner
