import Mathlib

/-!
# Ranges in order

Half-open ranges of positions, in the order of their starts. `joinSorted` joins
those that overlap or touch, and has the same positions.
-/

namespace Tabulark.Ranges

variable {α : Type} [LinearOrder α]

/-- The position lies in the range. -/
def In (range : α × α) (x : α) : Prop := range.1 ≤ x ∧ x < range.2

/-- The position lies in one of the ranges. -/
def Among (ranges : List (α × α)) (x : α) : Prop := ∃ range ∈ ranges, In range x

/-- Ranges that are apart from each other, in order. -/
def Apart (ranges : List (α × α)) : Prop :=
  (∀ range ∈ ranges, range.1 ≤ range.2) ∧ ranges.Pairwise fun a b => a.2 < b.1

/-- Joins ranges into one before them. -/
def joinInto : α × α → List (α × α) → List (α × α)
  | previous, [] => [previous]
  | previous, range :: ranges =>
    if range.1 ≤ previous.2 then joinInto (previous.1, max previous.2 range.2) ranges
    else previous :: joinInto range ranges

/-- Joins ranges in the order of their starts. -/
def joinSorted : List (α × α) → List (α × α)
  | [] => []
  | range :: ranges => joinInto range ranges

variable {previous : α × α} {ranges : List (α × α)} {x : α}

theorem among_cons : Among (previous :: ranges) x ↔ In previous x ∨ Among ranges x := by
  constructor
  · rintro ⟨range, hin, hx⟩
    rcases List.mem_cons.1 hin with rfl | hin
    · exact .inl hx
    · exact .inr ⟨range, hin, hx⟩
  · rintro (hx | ⟨range, hin, hx⟩)
    · exact ⟨previous, List.mem_cons_self, hx⟩
    · exact ⟨range, List.mem_cons_of_mem _ hin, hx⟩

theorem not_among_nil : ¬Among ([] : List (α × α)) x := fun ⟨_, hin, _⟩ => List.not_mem_nil hin

/-- Two ranges that overlap or touch have the positions of the joined one. -/
theorem in_join {range : α × α} (hle : previous.1 ≤ range.1)
    (h : range.1 ≤ previous.2) :
    In (previous.1, max previous.2 range.2) x ↔ In previous x ∨ In range x := by
  simp only [In, lt_max_iff]
  constructor
  · rintro ⟨hx, hlt | hlt⟩
    · exact .inl ⟨hx, hlt⟩
    · rcases lt_or_ge x previous.2 with hlt' | hge
      · exact .inl ⟨hx, hlt'⟩
      · exact .inr ⟨h.trans hge, hlt⟩
  · rintro (⟨hx, hlt⟩ | ⟨hx, hlt⟩)
    · exact ⟨hx, .inl hlt⟩
    · exact ⟨hle.trans hx, .inr hlt⟩

/-- Joined ranges are apart, have the same positions and start where the first did. -/
theorem joinInto_spec (hp : previous.1 ≤ previous.2) (hranges : ∀ range ∈ ranges, range.1 ≤ range.2)
    (hsorted : (previous :: ranges).Pairwise fun a b => a.1 ≤ b.1) :
    Apart (joinInto previous ranges) ∧
      (∀ range ∈ joinInto previous ranges, previous.1 ≤ range.1) ∧
      ∀ x, Among (joinInto previous ranges) x ↔ In previous x ∨ Among ranges x := by
  induction ranges generalizing previous with
  | nil =>
    refine ⟨⟨by simpa [joinInto] using hp, by simp [joinInto]⟩, by simp [joinInto], fun x => ?_⟩
    exact among_cons
  | cons range ranges ih =>
    obtain ⟨hfirst, hrest⟩ := List.pairwise_cons.1 hsorted
    obtain ⟨hnext, htail⟩ := List.pairwise_cons.1 hrest
    obtain ⟨hr, hrs⟩ := List.forall_mem_cons.1 hranges
    have hle := hfirst range List.mem_cons_self
    rw [joinInto]
    split_ifs with htouch
    · have hsorted' : ((previous.1, max previous.2 range.2) :: ranges).Pairwise
          fun a b => a.1 ≤ b.1 :=
        List.pairwise_cons.2 ⟨fun b hb => hfirst b (List.mem_cons_of_mem _ hb), htail⟩
      obtain ⟨hapart, hstart, hamong⟩ :=
        @ih (previous.1, max previous.2 range.2) (hp.trans (le_max_left _ _)) hrs hsorted'
      refine ⟨hapart, hstart, fun x => ?_⟩
      rw [hamong, in_join hle htouch, among_cons, or_assoc]
    · obtain ⟨⟨hwell, hpair⟩, hstart, hamong⟩ := ih hr hrs hrest
      refine ⟨⟨List.forall_mem_cons.2 ⟨hp, hwell⟩, List.pairwise_cons.2 ⟨fun b hb => ?_, hpair⟩⟩,
        List.forall_mem_cons.2 ⟨le_rfl, fun b hb => hle.trans (hstart b hb)⟩, fun x => ?_⟩
      · exact (not_le.1 htouch).trans_le (hstart b hb)
      · rw [among_cons, hamong, among_cons]

/-- Joined ranges are apart and have the same positions. -/
theorem joinSorted_spec (hranges : ∀ range ∈ ranges, range.1 ≤ range.2)
    (hsorted : ranges.Pairwise fun a b => a.1 ≤ b.1) :
    Apart (joinSorted ranges) ∧ ∀ x, Among (joinSorted ranges) x ↔ Among ranges x := by
  cases ranges with
  | nil => exact ⟨⟨by simp [joinSorted], .nil⟩, fun x => Iff.rfl⟩
  | cons range ranges =>
    obtain ⟨hr, hrs⟩ := List.forall_mem_cons.1 hranges
    obtain ⟨hapart, -, hamong⟩ := joinInto_spec hr hrs hsorted
    exact ⟨hapart, fun x => (hamong x).trans among_cons.symm⟩

end Tabulark.Ranges
