import Mathlib

/-!
# Chunks of a list

A list cut into chunks of one length, the last of which may be shorter. The chunks are the list
(`flatten_chunks`), and their number is known beforehand (`length_chunks`).
-/

namespace Tabulark.Chunks

variable {α : Type*} {n : ℕ} {l c : List α}

/-- The chunks of a list, each of `n` items but the last. -/
def chunks (n : ℕ) (l : List α) : List (List α) :=
  if l = [] ∨ n = 0 then [] else l.take n :: chunks n (l.drop n)
termination_by l.length
decreasing_by
  rename_i h
  rw [not_or] at h
  rw [List.length_drop]
  exact Nat.sub_lt (List.length_pos_of_ne_nil h.1) (Nat.pos_of_ne_zero h.2)

@[simp] theorem chunks_nil (n : ℕ) : chunks n ([] : List α) = [] := by
  rw [chunks, if_pos (.inl rfl)]

theorem chunks_eq_cons (hn : 0 < n) (hl : l ≠ []) :
    chunks n l = l.take n :: chunks n (l.drop n) := by
  conv_lhs => rw [chunks, if_neg (not_or.2 ⟨hl, hn.ne'⟩)]

theorem flatten_chunks (hn : 0 < n) (l : List α) : (chunks n l).flatten = l := by
  induction l using chunks.induct n with
  | case1 l h =>
    rw [chunks, if_pos h]
    exact (h.resolve_right hn.ne').symm
  | case2 l h ih =>
    rw [chunks, if_neg h, List.flatten_cons, ih, List.take_append_drop]

/-- No chunk is longer than it may be. -/
theorem length_le_of_mem (h : c ∈ chunks n l) : c.length ≤ n := by
  induction l using chunks.induct n with
  | case1 l hstop =>
    rw [chunks, if_pos hstop] at h
    cases h
  | case2 l hstop ih =>
    rw [chunks, if_neg hstop] at h
    rcases List.mem_cons.1 h with rfl | h
    · exact List.length_take_le _ _
    · exact ih h

/-- The number of chunks is the length divided by that of a chunk, rounded up. -/
theorem length_chunks (hn : 0 < n) (hl : l ≠ []) :
    (chunks n l).length = (l.length - 1) / n + 1 := by
  induction l using chunks.induct n with
  | case1 l hstop => exact absurd hstop (not_or.2 ⟨hl, hn.ne'⟩)
  | case2 l hstop ih =>
    rw [chunks_eq_cons hn hl, List.length_cons]
    by_cases hrest : l.drop n = []
    · have hle := List.drop_eq_nil_iff.1 hrest
      have hpos := List.length_pos_of_ne_nil hl
      rw [hrest, chunks_nil, Nat.div_eq_of_lt (by omega)]
      rfl
    · have hlt : n < l.length := not_le.1 (mt List.drop_eq_nil_iff.2 hrest)
      rw [ih hrest, List.length_drop]
      have hsplit : l.length - 1 = l.length - n - 1 + n := by omega
      rw [hsplit, Nat.add_div_right _ hn]

end Tabulark.Chunks
