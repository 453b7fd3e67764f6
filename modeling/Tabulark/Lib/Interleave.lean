import Mathlib

/-!
# Reporting in batches

A sequence of steps reports two kinds of items, first and second. A batch of
steps reports the first items of all its steps before any second item of them.
`take_batches` and `getElem_of_not_stable` say for which sequences the first `n`
reported items do not depend on how the steps are cut into batches.
-/

namespace Tabulark.Interleave

variable {α : Type}

/-- The items of one step, of the first and of the second kind. -/
abbrev Step (α : Type) : Type := List α × List α

/-- The items of a sequence, step by step. -/
def fine (xs : List (Step α)) : List α := xs.flatMap fun x => x.1 ++ x.2

/-- The items of a batch, the first kind before the second. -/
def batch (xs : List (Step α)) : List α := xs.flatMap Prod.fst ++ xs.flatMap Prod.snd

/-- The items of a sequence cut into batches. -/
def batches (parts : List (List (Step α))) : List α := parts.flatMap batch

/-- Among the first `n` items, none of the second kind comes before one of the
    first kind. -/
def Stable (n : ℕ) (xs : List (Step α)) : Prop :=
  ∀ before x between y after, xs = before ++ x :: (between ++ y :: after) → x.2 ≠ [] → y.1 ≠ [] →
    n ≤ (fine before).length + x.1.length

theorem fine_cons (x : Step α) (xs : List (Step α)) : fine (x :: xs) = x.1 ++ x.2 ++ fine xs :=
  List.flatMap_cons

theorem fine_append (xs ys : List (Step α)) : fine (xs ++ ys) = fine xs ++ fine ys :=
  List.flatMap_append

theorem batches_cons (p : List (Step α)) (parts : List (List (Step α))) :
    batches (p :: parts) = batch p ++ batches parts := List.flatMap_cons

theorem batches_append (parts parts' : List (List (Step α))) :
    batches (parts ++ parts') = batches parts ++ batches parts' := List.flatMap_append

/-- Batches of one step report step by step. -/
theorem batches_singletons (xs : List (Step α)) : batches (xs.map fun x => [x]) = fine xs := by
  induction xs with
  | nil => rfl
  | cons x xs ih =>
    rw [List.map_cons, batches_cons, ih, fine_cons]
    simp [batch]

/-- A cut reports the same number of items as any other. -/
theorem length_batches (parts : List (List (Step α))) :
    (batches parts).length = (fine parts.flatten).length := by
  have hbatch : ∀ p : List (Step α), (batch p).length = (fine p).length := by
    intro p
    induction p with
    | nil => rfl
    | cons x xs ih =>
      simp only [batch, List.flatMap_cons, List.length_append, fine_cons] at ih ⊢
      omega
  induction parts with
  | nil => rfl
  | cons p parts ih =>
    rw [batches_cons, List.flatten_cons, fine_append, List.length_append, List.length_append, ih,
      hbatch]

theorem stable_nil (n : ℕ) : Stable n ([] : List (Step α)) :=
  fun _ _ _ _ _ h => absurd h.symm (by simp)

variable {n : ℕ}

/-- Stability is checked from the first step to the last. -/
theorem stable_cons {x : Step α} {xs : List (Step α)} :
    Stable n (x :: xs) ↔
      (n ≤ x.1.length ∨ x.2 = [] ∨ ∀ y ∈ xs, y.1 = []) ∧
        Stable (n - (x.1.length + x.2.length)) xs := by
  constructor
  · refine fun h => ⟨?_, fun before y between z after hxs hy hz => ?_⟩
    · by_cases hx : x.2 = []
      · exact .inr (.inl hx)
      · by_cases hxs : ∀ y ∈ xs, y.1 = []
        · exact .inr (.inr hxs)
        · push Not at hxs
          obtain ⟨y, hy, hne⟩ := hxs
          obtain ⟨between, after, rfl⟩ := List.append_of_mem hy
          have hle := h [] x between y after rfl hx hne
          exact .inl (by simpa [fine] using hle)
    · have hle := h (x :: before) y between z after (by rw [hxs, List.cons_append]) hy hz
      rw [fine_cons, List.length_append, List.length_append] at hle
      omega
  · rintro ⟨hx, hxs⟩ before y between z after heq hy hz
    cases before with
    | nil =>
      obtain ⟨rfl, rfl⟩ := List.cons.inj heq
      rcases hx with hx | hx | hx
      · exact hx.trans (Nat.le_add_left _ _)
      · exact absurd hx hy
      · exact absurd (hx z (by simp)) hz
    | cons b bs =>
      obtain ⟨rfl, rfl⟩ := List.cons.inj heq
      have hle := hxs bs y between z after rfl hy hz
      rw [fine_cons, List.length_append, List.length_append]
      omega

instance Stable.decidable : (n : ℕ) → (xs : List (Step α)) → Decidable (Stable n xs)
  | n, [] => isTrue (stable_nil n)
  | n, x :: xs =>
    have := Stable.decidable (n - (x.1.length + x.2.length)) xs
    decidable_of_iff' _ stable_cons

theorem Stable.append_right {xs ys : List (Step α)} (h : Stable n (xs ++ ys)) :
    Stable (n - (fine xs).length) ys := by
  intro before x between y after hys hx hy
  have hle := h (xs ++ before) x between y after (by rw [hys, List.append_assoc]) hx hy
  rw [fine_append, List.length_append] at hle
  omega

/-- In a stable sequence, one batch reports as its steps do. -/
theorem take_batch {xs ys : List (Step α)} (h : Stable n (xs ++ ys)) (items : List α) :
    (batch xs ++ items).take n = (fine xs ++ items).take n := by
  induction xs generalizing n with
  | nil => rfl
  | cons x xs ih =>
    by_cases hn : n ≤ x.1.length
    · rw [fine_cons, batch, List.flatMap_cons]
      simp only [List.append_assoc]
      rw [List.take_append_of_le_length hn, List.take_append_of_le_length hn]
    · by_cases hx : x.2 = []
      · have hrest := ih (n := n - x.1.length) (by
          have hright := @Stable.append_right _ _ [x] _ h
          rwa [fine_cons, hx, List.append_nil, fine, List.flatMap_nil, List.append_nil] at hright)
        rw [fine_cons, batch, List.flatMap_cons, List.flatMap_cons, hx, List.append_nil,
          List.nil_append]
        simp only [List.append_assoc] at hrest ⊢
        rw [batch, List.append_assoc] at hrest
        rw [List.take_append, @List.take_append _ x.1, hrest]
      · -- No step after `x` has an item of the first kind.
        have hnone : xs.flatMap Prod.fst = [] := by
          rw [List.flatMap_eq_nil_iff]
          intro y hy
          by_contra hne
          obtain ⟨between, after, rfl⟩ := List.append_of_mem hy
          have hle := h [] x between y (after ++ ys) (by simp) hx hne
          exact hn (by simpa [fine] using hle)
        have hfine : ∀ zs : List (Step α), zs.flatMap Prod.fst = [] →
            fine zs = zs.flatMap Prod.snd := by
          intro zs hzs
          rw [List.flatMap_eq_nil_iff] at hzs
          refine List.flatMap_congr fun z hz => ?_
          rw [hzs z hz, List.nil_append]
        rw [fine_cons, hfine xs hnone, batch, List.flatMap_cons, List.flatMap_cons, hnone,
          List.append_nil]
        simp only [List.append_assoc]

/-- In a stable sequence, every cut reports as its steps do. -/
theorem take_batches {parts : List (List (Step α))} (h : Stable n parts.flatten) :
    (batches parts).take n = (fine parts.flatten).take n := by
  induction parts generalizing n with
  | nil => rfl
  | cons p parts ih =>
    rw [List.flatten_cons] at h
    rw [batches_cons, List.flatten_cons, fine_append, take_batch h, List.take_append,
      List.take_append, ih h.append_right]

/-- The step `x` and everything after it, in one batch or in two. -/
theorem getElem_of_not_stable {before : List (Step α)} {x : Step α} {between : List (Step α)}
    {y : Step α} {after : List (Step α)} (hx : x.2 ≠ []) (hy : y.1 ≠ []) :
    ∃ parts parts' : List (List (Step α)),
      parts.flatten = before ++ x :: (between ++ y :: after) ∧
      parts'.flatten = before ++ x :: (between ++ y :: after) ∧
      (∃ a ∈ x.2, (batches parts)[(fine before).length + x.1.length]? = some a) ∧
      ∃ z ∈ between ++ y :: after, ∃ b ∈ z.1,
        (batches parts')[(fine before).length + x.1.length]? = some b := by
  have hsingle : (before.map fun x => [x]).flatten = before := by
    induction before with
    | nil => rfl
    | cons b bs ih => rw [List.map_cons, List.flatten_cons, ih]; rfl
  refine ⟨before.map (fun x => [x]) ++ [[x], between ++ y :: after],
    before.map (fun x => [x]) ++ [x :: (between ++ y :: after)], ?_, ?_, ?_, ?_⟩
  · rw [List.flatten_append, hsingle]
    simp
  · rw [List.flatten_append, hsingle]
    simp
  · obtain ⟨a, as, ha⟩ := List.exists_cons_of_ne_nil hx
    refine ⟨a, by rw [ha]; exact List.mem_cons_self, ?_⟩
    rw [batches_append, batches_singletons, List.getElem?_append_right (Nat.le_add_right _ _),
      Nat.add_sub_cancel_left, batches_cons, batch]
    simp [ha]
  · have hne : (between ++ y :: after).flatMap Prod.fst ≠ [] := by
      intro hnil
      rw [List.flatMap_eq_nil_iff] at hnil
      exact hy (hnil y (by simp))
    obtain ⟨b, bs, hb⟩ := List.exists_cons_of_ne_nil hne
    have hmem : b ∈ (between ++ y :: after).flatMap Prod.fst := by rw [hb]; exact List.mem_cons_self
    obtain ⟨z, hz, hbz⟩ := List.mem_flatMap.1 hmem
    refine ⟨z, hz, b, hbz, ?_⟩
    rw [batches_append, batches_singletons, List.getElem?_append_right (Nat.le_add_right _ _),
      Nat.add_sub_cancel_left, batches_cons, batch, List.flatMap_cons, hb]
    simp

end Tabulark.Interleave
