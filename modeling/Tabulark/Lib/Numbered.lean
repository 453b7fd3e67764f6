import Mathlib

/-!
# Items by number

The items of a list have their places as numbers, which they keep as other items change or come
after them.
-/

namespace Tabulark.Numbered

variable {α β : Type*} {l : List α} {i j : ℕ} {a b : α} {f : α → α} {P : α → Prop}

/-- What holds of all items holds after one has changed, if it holds of that one. -/
theorem forall_modify (h : ∀ a ∈ l, P a) (hf : ∀ a, l[i]? = some a → P a → P (f a)) :
    ∀ a ∈ l.modify i f, P a := by
  intro b hb
  obtain ⟨j, hj⟩ := List.mem_iff_getElem?.1 hb
  rw [List.getElem?_modify] at hj
  obtain ⟨a, ha, rfl⟩ := Option.map_eq_some_iff.1 hj
  have hmem := h a (List.mem_of_getElem? ha)
  split
  · rename_i heq
    exact hf a (heq ▸ ha) hmem
  · exact hmem

theorem forall_set (h : ∀ a ∈ l, P a) (hb : P b) : ∀ a ∈ l.set i b, P a := fun a ha =>
  (List.mem_or_eq_of_mem_set ha).elim (h a) fun heq => heq ▸ hb

theorem forall_append_singleton (h : ∀ a ∈ l, P a) (hb : P b) : ∀ a ∈ l ++ [b], P a :=
  fun a ha => (List.mem_append.1 ha).elim (h a) fun ha => List.mem_singleton.1 ha ▸ hb

theorem getElem?_append_singleton : (l ++ [b])[i]? = some a ↔
    l[i]? = some a ∨ i = l.length ∧ b = a := by
  rcases Nat.lt_trichotomy i l.length with hlt | rfl | hgt
  · rw [List.getElem?_append_left hlt]
    exact (or_iff_left fun h => Nat.ne_of_lt hlt h.1).symm
  · simp
  · have hle := Nat.le_of_lt hgt
    rw [List.getElem?_append_right hle, List.getElem?_eq_none hle,
      List.getElem?_eq_none (Nat.sub_pos_of_lt hgt)]
    simp [Nat.ne_of_gt hgt]

/-- A change that keeps what a function reads of an item keeps what it reads of all. -/
theorem map_modify {g : α → β} (h : ∀ a, g (f a) = g a) : (l.modify i f).map g = l.map g := by
  refine List.ext_getElem? fun j => ?_
  rw [List.getElem?_map, List.getElem?_map, List.getElem?_modify]
  cases l[j]? with
  | none => rfl
  | some a =>
    refine congrArg some ?_
    dsimp only
    split
    · exact h a
    · rfl

theorem modify_eq_set (h : l[i]? = some a) : l.modify i f = l.set i (f a) := by
  rw [List.modify_eq_set_getElem?, h]
  rfl

/-- A count changes with the item that changes. -/
theorem countP_set {p : α → Bool} (h : l[i]? = some a) :
    (l.set i b).countP p + (if p a then 1 else 0) = l.countP p + if p b then 1 else 0 := by
  obtain ⟨hlt, rfl⟩ := List.getElem?_eq_some_iff.1 h
  have hpos : p l[i] → 0 < l.countP p := fun hp =>
    List.countP_pos_iff.2 ⟨_, List.getElem_mem hlt, hp⟩
  rw [List.countP_set hlt]
  by_cases hp : p l[i]
  · have := hpos hp
    rw [if_pos hp]
    omega
  · rw [if_neg hp]
    omega

theorem countP_modify {p : α → Bool} (h : l[i]? = some a) :
    (l.modify i f).countP p + (if p a then 1 else 0) = l.countP p + if p (f a) then 1 else 0 := by
  rw [modify_eq_set h, countP_set h]

/-- Lists with the same places have the same length. -/
theorem length_eq {l' : List β} (h : ∀ i : ℕ, l'[i]?.isSome = l[i]?.isSome) :
    l'.length = l.length := by
  have hlt (i : ℕ) : i < l'.length ↔ i < l.length := by
    have hi := Bool.eq_iff_iff.1 (h i)
    rwa [Option.isSome_iff_ne_none, Option.isSome_iff_ne_none, ne_eq, ne_eq,
      List.getElem?_eq_none_iff, List.getElem?_eq_none_iff, Nat.not_le, Nat.not_le] at hi
  refine Nat.le_antisymm (Nat.not_lt.1 fun hgt => ?_) (Nat.not_lt.1 fun hgt => ?_)
  · exact Nat.lt_irrefl _ ((hlt _).1 hgt)
  · exact Nat.lt_irrefl _ ((hlt _).2 hgt)

end Tabulark.Numbered
