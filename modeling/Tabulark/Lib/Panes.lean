import Mathlib
import Tabulark.Lib.Strips

/-!
# Strips in two panes

The first strips of an axis stay in place, and the others are scrolled beneath
them. `shown` is where a strip is drawn. Several may be drawn over a point: one
that stays and one that is scrolled. The one on top is the one that stays
(`topmost_iff`), and every point that strips are drawn over has one on top
(`exists_topmost`).
-/

namespace Tabulark

open Strips

/-- Strips side by side, the first `frozen` of which stay while the others are scrolled. -/
structure Panes (K : Type*) [AddCommGroup K] [LinearOrder K] where
  size : ℕ → K
  frozen : ℕ
  scroll : K
  size_nonneg : ∀ i, 0 ≤ size i
  scroll_nonneg : 0 ≤ scroll

namespace Panes

variable {K : Type*} [AddCommGroup K] [LinearOrder K] (p : Panes K) {i j : ℕ} {b : K}

/-- How far the strips reach that stay. -/
def extent : K := offset p.size p.frozen

/-- Where a strip is drawn. -/
def shown (i : ℕ) : K := offset p.size i - if i < p.frozen then 0 else p.scroll

/-- A strip is drawn over a point. -/
def Over (i : ℕ) (b : K) : Prop := p.shown i ≤ b ∧ b < p.shown i + p.size i

/-- A strip is drawn over a point, and no strip that stays is drawn over it. -/
def Topmost (i : ℕ) (b : K) : Prop := p.Over i b ∧ ∀ j, p.Over j b → j < p.frozen → i < p.frozen

/-- The strip at a point, given how to look strips up where they lie: among those that stay, if
    the point is within them, and else among the scrolled ones. -/
def hit (lookup : K → Option ℕ) (frozen : ℕ) (extent viewport scroll b : K) : Option ℕ :=
  let scrolled := lookup (b + scroll)
  if b < min viewport extent then
    match lookup b with
    | some i => if i < frozen then some i else scrolled
    | none => scrolled
  else scrolled

variable {p}

theorem over_of_lt (hi : i < p.frozen) : p.Over i b ↔ Covers p.size i b := by
  rw [Over, shown, if_pos hi, sub_zero, Covers]

variable [IsOrderedAddMonoid K]

theorem over_of_le (hi : p.frozen ≤ i) : p.Over i b ↔ Covers p.size i (b + p.scroll) := by
  rw [Over, shown, if_neg (not_lt.2 hi), Covers, sub_le_iff_le_add, sub_add_eq_add_sub,
    lt_sub_iff_add_lt]

/-- A point is within the strips that stay if one of them covers it. -/
theorem lt_extent_iff (hb : 0 ≤ b) : b < p.extent ↔ ∃ i < p.frozen, Covers p.size i b :=
  ⟨exists_covers hb, fun ⟨_, hi, hcovers⟩ => hcovers.lt_offset p.size_nonneg hi⟩

/-- The strip on top is one that stays, or one that is scrolled where none stays. -/
theorem topmost_iff (hb : 0 ≤ b) : p.Topmost i b ↔ i < p.frozen ∧ Covers p.size i b ∨
    p.frozen ≤ i ∧ p.extent ≤ b ∧ Covers p.size i (b + p.scroll) := by
  rcases lt_or_ge i p.frozen with hi | hi
  · rw [Topmost, over_of_lt hi]
    exact ⟨fun h => .inl ⟨hi, h.1⟩, fun h => ⟨(h.resolve_right fun h => absurd hi
      (not_lt.2 h.1)).2, fun _ _ _ => hi⟩⟩
  · rw [Topmost, over_of_le hi]
    constructor
    · rintro ⟨hcovers, htop⟩
      refine .inr ⟨hi, not_lt.1 fun hlt => ?_, hcovers⟩
      obtain ⟨j, hj, hjcovers⟩ := (lt_extent_iff hb).1 hlt
      exact absurd (htop j ((over_of_lt hj).2 hjcovers) hj) (not_lt.2 hi)
    · rintro (h | ⟨-, hextent, hcovers⟩)
      · exact absurd h.1 (not_lt.2 hi)
      · refine ⟨hcovers, fun j hj hjfrozen => absurd ?_ (not_lt.2 hextent)⟩
        exact (lt_extent_iff hb).2 ⟨j, hjfrozen, (over_of_lt hjfrozen).1 hj⟩

/-- Beyond the strips that stay, scrolled strips cover a point only if they do not stay. -/
theorem frozen_le_of_covers (hextent : p.extent ≤ b) (hcovers : Covers p.size i (b + p.scroll)) :
    p.frozen ≤ i := by
  by_contra hlt
  have hstop := hcovers.lt_offset p.size_nonneg (not_le.1 hlt)
  exact absurd (hstop.trans_le hextent) (not_lt.2 (le_add_of_nonneg_right p.scroll_nonneg))

variable {viewport : K}

/-- The search finds the strip on top. -/
theorem hit_eq_some {lookup : K → Option ℕ}
    (hlookup : ∀ x i, lookup x = some i ↔ Covers p.size i x) (hb : 0 ≤ b) (hlt : b < viewport) :
    hit lookup p.frozen p.extent viewport p.scroll b = some i ↔ p.Topmost i b := by
  rw [topmost_iff hb, hit]
  by_cases hextent : b < p.extent
  · obtain ⟨j, hj, hcovers⟩ := (lt_extent_iff hb).1 hextent
    rw [if_pos (lt_min hlt hextent), (hlookup b j).2 hcovers]
    dsimp only
    rw [if_pos hj, Option.some_inj]
    constructor
    · rintro rfl
      exact .inl ⟨hj, hcovers⟩
    · rintro (⟨-, hi⟩ | ⟨-, hle, -⟩)
      · exact hcovers.unique p.size_nonneg hi
      · exact absurd hextent (not_lt.2 hle)
  · rw [if_neg fun h => hextent (h.trans_le (min_le_right _ _)), hlookup]
    have hle := not_lt.1 hextent
    constructor
    · exact fun hcovers => .inr ⟨frozen_le_of_covers hle hcovers, hle, hcovers⟩
    · rintro (⟨hi, hcovers⟩ | ⟨-, -, hcovers⟩)
      · exact absurd ((lt_extent_iff hb).2 ⟨i, hi, hcovers⟩) hextent
      · exact hcovers

theorem Topmost.unique (hb : 0 ≤ b) (hi : p.Topmost i b) (hj : p.Topmost j b) : i = j := by
  rw [topmost_iff hb] at hi hj
  rcases hi with ⟨hi, hcovers⟩ | ⟨-, hextent, hcovers⟩ <;>
    rcases hj with ⟨hj, hcovers'⟩ | ⟨-, hextent', hcovers'⟩
  · exact hcovers.unique p.size_nonneg hcovers'
  · exact absurd ((lt_extent_iff hb).2 ⟨i, hi, hcovers⟩) (not_lt.2 hextent')
  · exact absurd ((lt_extent_iff hb).2 ⟨j, hj, hcovers'⟩) (not_lt.2 hextent)
  · exact hcovers.unique p.size_nonneg hcovers'

/-- Where a strip is drawn, one is on top. -/
theorem exists_topmost (hb : 0 ≤ b) (hover : p.Over j b) : ∃ i, p.Topmost i b := by
  by_cases hextent : b < p.extent
  · obtain ⟨i, hi, hcovers⟩ := (lt_extent_iff hb).1 hextent
    exact ⟨i, (topmost_iff hb).2 (.inl ⟨hi, hcovers⟩)⟩
  · have hj : p.frozen ≤ j := by
      by_contra hlt
      exact hextent ((lt_extent_iff hb).2 ⟨j, not_le.1 hlt, (over_of_lt (not_le.1 hlt)).1 hover⟩)
    exact ⟨j, (topmost_iff hb).2 (.inr ⟨hj, not_lt.1 hextent, (over_of_le hj).1 hover⟩)⟩

/-! ## Parts of a pane -/

theorem topmost_of_lt (hb : 0 ≤ b) (hi : i < p.frozen) : p.Topmost i b ↔ Covers p.size i b := by
  rw [topmost_iff hb]
  exact ⟨fun h => (h.resolve_right fun h => absurd hi (not_lt.2 h.1)).2, fun h => .inl ⟨hi, h⟩⟩

theorem topmost_of_le (hb : 0 ≤ b) (hi : p.frozen ≤ i) :
    p.Topmost i b ↔ p.extent ≤ b ∧ Covers p.size i (b + p.scroll) := by
  rw [topmost_iff hb]
  exact ⟨fun h => (h.resolve_left fun h => absurd h.1 (not_lt.2 hi)).2, fun h => .inr ⟨hi, h⟩⟩

variable (p) in
/-- Where the strips that stay show in a viewport, and where the others do. -/
def clip (viewport : K) (stays : Bool) : K × K :=
  if stays then (0, min viewport p.extent) else (min viewport p.extent, viewport)

/-- Strips of one pane, one after another, fill what lies between the first and the last of them
    within the clip of the pane. -/
theorem mem_part_iff {first stop : ℕ} (hlt : first < stop)
    (hpane : stop ≤ p.frozen ∨ p.frozen ≤ first) :
    (max (p.shown first) (p.clip viewport (first < p.frozen)).1 ≤ b ∧
      b < min (p.shown (stop - 1) + p.size (stop - 1)) (p.clip viewport (first < p.frozen)).2) ↔
      0 ≤ b ∧ b < viewport ∧ ∃ i, first ≤ i ∧ i < stop ∧ p.Topmost i b := by
  have hextent : 0 ≤ p.extent := offset_nonneg p.size_nonneg _
  have hstop : offset p.size (stop - 1) + p.size (stop - 1) = offset p.size stop := by
    rw [← offset_succ, Nat.sub_add_cancel (by omega)]
  rw [max_le_iff, lt_min_iff]
  rcases hpane with hpane | hpane
  · have htop : 0 ≤ b → ((∃ i, first ≤ i ∧ i < stop ∧ p.Topmost i b) ↔
        offset p.size first ≤ b ∧ b < offset p.size stop) := fun hb => by
      rw [← exists_covers_Ico p.size_nonneg]
      refine exists_congr fun i => and_congr_right fun _ => and_congr_right fun hi => ?_
      exact topmost_of_lt hb (hi.trans_le hpane)
    rw [clip, decide_eq_true (hlt.trans_le hpane), if_pos rfl, shown, if_pos (by omega), shown,
      if_pos (by omega), sub_zero, sub_zero, hstop, lt_min_iff]
    constructor
    · rintro ⟨⟨hfirst, hb⟩, hlast, hwithin, -⟩
      exact ⟨hb, hwithin, (htop hb).2 ⟨hfirst, hlast⟩⟩
    · rintro ⟨hb, hwithin, hexists⟩
      obtain ⟨hfirst, hlast⟩ := (htop hb).1 hexists
      exact ⟨⟨hfirst, hb⟩, hlast, hwithin, hlast.trans_le (offset_mono p.size_nonneg hpane)⟩
  · have htop : 0 ≤ b → ((∃ i, first ≤ i ∧ i < stop ∧ p.Topmost i b) ↔ p.extent ≤ b ∧
        offset p.size first ≤ b + p.scroll ∧ b + p.scroll < offset p.size stop) := fun hb => by
      rw [← exists_covers_Ico p.size_nonneg]
      constructor
      · rintro ⟨i, hi, hilt, htopmost⟩
        have hpast := (topmost_of_le hb (hpane.trans hi)).1 htopmost
        exact ⟨hpast.1, i, hi, hilt, hpast.2⟩
      · rintro ⟨hpast, i, hi, hilt, hcovers⟩
        exact ⟨i, hi, hilt, (topmost_of_le hb (hpane.trans hi)).2 ⟨hpast, hcovers⟩⟩
    rw [clip, decide_eq_false (by omega), if_neg Bool.false_ne_true, shown, if_neg (by omega),
      shown, if_neg (by omega), sub_add_eq_add_sub, hstop, sub_le_iff_le_add, lt_sub_iff_add_lt]
    constructor
    · rintro ⟨⟨hfirst, hclip⟩, hlast, hwithin⟩
      have hpast : p.extent ≤ b := (min_le_iff.1 hclip).resolve_left (not_le.2 hwithin)
      exact ⟨hextent.trans hpast, hwithin, (htop (hextent.trans hpast)).2 ⟨hpast, hfirst, hlast⟩⟩
    · rintro ⟨hb, hwithin, hexists⟩
      obtain ⟨hpast, hfirst, hlast⟩ := (htop hb).1 hexists
      exact ⟨⟨hfirst, (min_le_right _ _).trans hpast⟩, hlast, hwithin⟩

/-- The same of panes that begin at an origin. -/
theorem mem_part_origin_iff {first stop : ℕ} (origin : K) (hlt : first < stop)
    (hpane : stop ≤ p.frozen ∨ p.frozen ≤ first) :
    (max (origin + p.shown first) (origin + (p.clip viewport (first < p.frozen)).1) ≤ b ∧
      b < min (origin + p.shown (stop - 1) + p.size (stop - 1))
        (origin + (p.clip viewport (first < p.frozen)).2)) ↔
      origin ≤ b ∧ b < origin + viewport ∧
        ∃ i, first ≤ i ∧ i < stop ∧ p.Topmost i (b - origin) := by
  rw [add_assoc, max_add_add_left, min_add_add_left, ← le_sub_iff_add_le', ← sub_lt_iff_lt_add',
    mem_part_iff hlt hpane, sub_nonneg, sub_lt_iff_lt_add']

end Panes

end Tabulark
