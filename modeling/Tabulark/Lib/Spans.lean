import Tabulark.Lib.Panes

/-!
# Spans of strips in two panes

Some strips of an axis are painted, and the span from the first of them to the
last is filled. If the strips are those of an interval, the span should be where
one of them is on top. It is if what shows of the interval is enclosed by its
painted strips and the span is clear of the strips that stay in place
(`spans_iff_shows`).
-/

namespace Tabulark

open Strips

namespace Panes

variable {K : Type*} [AddCommGroup K] [LinearOrder K] (p : Panes K) (viewport : K)
  (start stop : ℕ) (ends : Option (ℕ × ℕ)) {painted : ℕ → Prop} {i j : ℕ} {b : K}

/-- A point is in the viewport, between the first and the last painted strip. -/
def Spans (b : K) : Prop :=
  ∃ e ∈ ends, max 0 (p.shown e.1) ≤ b ∧ b < min viewport (p.shown e.2 + p.size e.2)

/-- A point is in the viewport, and a strip of the interval is on top. -/
def Shows (b : K) : Prop :=
  0 ≤ b ∧ b < viewport ∧ ∃ i, start ≤ i ∧ i < stop ∧ p.Topmost i b

/-- What shows of the interval is between the first and the last painted strip, and these span
    nothing else: if both are scrolled, nothing beneath the strips that stay, and if only the last
    one is, all of those up to the end of the pane. -/
structure Enclosed : Prop where
  between : ∀ b, 0 ≤ b → b < viewport → ∀ i, start ≤ i → i < stop → p.Topmost i b →
    ∃ e ∈ ends, e.1 ≤ i ∧ i ≤ e.2
  scrolled : ∀ e ∈ ends, p.frozen ≤ e.1 →
    min (min viewport p.extent) (p.shown e.2 + p.size e.2) ≤ max 0 (p.shown e.1)
  straddling : ∀ e ∈ ends, e.1 < p.frozen → p.frozen ≤ e.2 → p.shown e.1 < viewport →
    min viewport p.extent ≤ p.shown e.2 + p.size e.2

/-- The first and the last of the painted strips of the interval. -/
structure Ends (painted : ℕ → Prop) : Prop where
  mem : ∀ e ∈ ends, ∀ i, i = e.1 ∨ i = e.2 → painted i ∧ start ≤ i ∧ i < stop
  le : ∀ e ∈ ends, e.1 ≤ e.2
  all : ∀ i, painted i → start ≤ i → i < stop → ∃ e ∈ ends, e.1 ≤ i ∧ i ≤ e.2

/-- Strips are painted if they have a size and are close to what shows: the first one is if it
    stays, and so is one at the offset that is scrolled to if it is not before all the scrolled ones
    that are. -/
structure Painted (painted : ℕ → Prop) : Prop where
  pos : ∀ i, painted i → 0 < p.size i
  first : 0 < viewport → ∀ i < p.frozen, Covers p.size i 0 → painted i
  reserve : ∀ i j, i < p.frozen → p.frozen ≤ j → painted j → 0 < p.size i → ¬painted i →
    ∃ k, i < k ∧ painted k ∧ Covers p.size k p.scroll

variable {p viewport start stop ends}

/-- Nothing is spanned outside of the viewport. -/
theorem Spans.mem (h : p.Spans viewport ends b) : 0 ≤ b ∧ b < viewport := by
  obtain ⟨e, -, hfirst, hlast⟩ := h
  exact ⟨(le_max_left _ _).trans hfirst, hlast.trans_le (min_le_left _ _)⟩

theorem shown_of_lt (hi : i < p.frozen) : p.shown i = offset p.size i := by
  rw [shown, if_pos hi, sub_zero]

theorem shown_of_le (hi : p.frozen ≤ i) : p.shown i = offset p.size i - p.scroll := by
  rw [shown, if_neg (not_lt.2 hi)]

/-- The first and the last of some indexes. -/
def endsOf (indexes : List ℕ) : Option (ℕ × ℕ) := do
  pure (← indexes.head?, ← indexes.getLast?)

/-- The ends of a list in order are those of the interval that it is filtered by. -/
theorem ends_filter {indexes : List ℕ} (hsorted : indexes.Pairwise (· < ·)) :
    Ends start stop (endsOf (indexes.filter fun i => start ≤ i ∧ i < stop)) (· ∈ indexes) := by
  have hfilter := hsorted.filter fun i => decide (start ≤ i ∧ i < stop)
  have hmem : ∀ i, i ∈ indexes.filter (fun i => decide (start ≤ i ∧ i < stop)) ↔
      i ∈ indexes ∧ start ≤ i ∧ i < stop := fun i => by simp
  generalize indexes.filter (fun i => decide (start ≤ i ∧ i < stop)) = selected at *
  cases selected with
  | nil => exact ⟨fun e he => (nomatch he), fun e he => (nomatch he),
      fun i hi hstart hstop => absurd ((hmem i).2 ⟨hi, hstart, hstop⟩) List.not_mem_nil⟩
  | cons first rest =>
    have hends : endsOf (first :: rest) = some (first, (first :: rest).getLast (by simp)) := by
      rw [endsOf, List.getLast?_eq_some_getLast (List.cons_ne_nil first rest)]
      rfl
    have hlast := List.getLast_mem (List.cons_ne_nil first rest)
    -- Every index comes after the first one, and before the last one.
    have hbetween : ∀ i ∈ first :: rest, first ≤ i ∧ i ≤ (first :: rest).getLast (by simp) :=
      fun i hi => by
        have hle := hfilter.imp (fun hlt : _ < _ => hlt.le)
        refine ⟨?_, hle.rel_getLast hi⟩
        rcases List.mem_cons.1 hi with rfl | hi
        · exact le_rfl
        · exact List.rel_of_pairwise_cons hle hi
    refine ⟨fun e he i hi => ?_, fun e he => ?_, fun i hi hstart hstop => ?_⟩
    · obtain rfl := Option.some.inj (hends.symm.trans he)
      rcases hi with rfl | rfl
      · exact (hmem _).1 List.mem_cons_self
      · exact (hmem _).1 hlast
    · obtain rfl := Option.some.inj (hends.symm.trans he)
      exact (hbetween _ hlast).1
    · exact ⟨_, hends, hbetween i ((hmem i).2 ⟨hi, hstart, hstop⟩)⟩

variable [IsOrderedAddMonoid K]

/-- In one pane strips are drawn in order. -/
theorem shown_mono (hpane : j < p.frozen ∨ p.frozen ≤ i) (hle : i ≤ j) :
    p.shown i ≤ p.shown j := by
  have hoffset := offset_mono p.size_nonneg hle
  rcases hpane with hj | hi
  · rw [shown_of_lt (hle.trans_lt hj), shown_of_lt hj]
    exact hoffset
  · rw [shown_of_le hi, shown_of_le (hi.trans hle)]
    exact sub_le_sub_right hoffset _

theorem shown_add_size_le (hpane : j < p.frozen ∨ p.frozen ≤ i) (hlt : i < j) :
    p.shown i + p.size i ≤ p.shown j := by
  have hoffset := offset_mono p.size_nonneg (Nat.succ_le_of_lt hlt)
  rw [offset_succ] at hoffset
  rcases hpane with hj | hi
  · rw [shown_of_lt (hlt.trans hj), shown_of_lt hj]
    exact hoffset
  · rw [shown_of_le hi, shown_of_le (hi.trans hlt.le), sub_add_eq_add_sub]
    exact sub_le_sub_right hoffset _

theorem shown_end_mono (hpane : j < p.frozen ∨ p.frozen ≤ i) (hle : i ≤ j) :
    p.shown i + p.size i ≤ p.shown j + p.size j := by
  rcases hle.eq_or_lt with rfl | hlt
  · exact le_rfl
  · exact (shown_add_size_le hpane hlt).trans (le_add_of_nonneg_right (p.size_nonneg j))

/-- Strips that stay end within the extent of their pane. -/
theorem end_le_extent (hi : i < p.frozen) : p.shown i + p.size i ≤ p.extent := by
  rw [shown_of_lt hi, ← offset_succ]
  exact offset_mono p.size_nonneg hi

/-- The point at which a strip is on top is beyond the strips that stay, unless it is one. -/
theorem Topmost.extent_le (htop : p.Topmost i b) (hb : 0 ≤ b) (hi : p.frozen ≤ i) :
    p.extent ≤ b := ((topmost_of_le hb hi).1 htop).1

/-- Between strips that are drawn one is on top, if they are all in one pane and none of those
    that stay is over the point. -/
theorem exists_topmost_between (hb : 0 ≤ b) (hle : i ≤ j) (hpane : j < p.frozen ∨ p.frozen ≤ i)
    (hextent : p.frozen ≤ i → p.extent ≤ b) (hfirst : p.shown i ≤ b)
    (hlast : b < p.shown j + p.size j) : ∃ k, i ≤ k ∧ k ≤ j ∧ p.Topmost k b := by
  rcases hpane with hj | hi
  · rw [shown_of_lt (hle.trans_lt hj)] at hfirst
    rw [shown_of_lt hj, ← offset_succ] at hlast
    obtain ⟨k, hik, hkj, hcovers⟩ := (exists_covers_Ico p.size_nonneg).2 ⟨hfirst, hlast⟩
    have hkj := Nat.le_of_lt_succ hkj
    exact ⟨k, hik, hkj, (topmost_of_lt hb (hkj.trans_lt hj)).2 hcovers⟩
  · rw [shown_of_le hi, sub_le_iff_le_add] at hfirst
    rw [shown_of_le (hi.trans hle), sub_add_eq_add_sub, ← offset_succ, lt_sub_iff_add_lt] at hlast
    obtain ⟨k, hik, hkj, hcovers⟩ := (exists_covers_Ico p.size_nonneg).2 ⟨hfirst, hlast⟩
    exact ⟨k, hik, Nat.le_of_lt_succ hkj,
      (topmost_of_le hb (hi.trans hik)).2 ⟨hextent hi, hcovers⟩⟩

/-! ## Enclosed intervals -/

/-- What shows of an enclosed interval is spanned. -/
theorem Enclosed.spans (h : p.Enclosed viewport start stop ends)
    (hshows : p.Shows viewport start stop b) : p.Spans viewport ends b := by
  obtain ⟨hb, hlt, i, hstart, hstop, htop⟩ := hshows
  obtain ⟨e, he, hfirst, hlast⟩ := h.between b hb hlt i hstart hstop htop
  have hover := htop.1
  refine ⟨e, he, max_le hb ?_, lt_min hlt ?_⟩
  · by_cases hpane : i < p.frozen ∨ p.frozen ≤ e.1
    · exact (shown_mono hpane hfirst).trans hover.1
    · -- The strip is scrolled, and the first one stays.
      simp only [not_or, not_lt, not_le] at hpane
      have hend := end_le_extent hpane.2
      exact (le_add_of_nonneg_right (p.size_nonneg _)).trans
        (hend.trans (htop.extent_le hb hpane.1))
  · by_cases hpane : e.2 < p.frozen ∨ p.frozen ≤ i
    · exact hover.2.trans_le (shown_end_mono hpane hlast)
    · -- The strip stays, and the last one is scrolled.
      simp only [not_or, not_lt, not_le] at hpane
      have hextent := hover.2.trans_le (end_le_extent hpane.2)
      have hshown := (shown_mono (.inl hpane.2) hfirst).trans_lt (hover.1.trans_lt hlt)
      exact (lt_min hlt hextent).trans_le
        (h.straddling e he (hfirst.trans_lt hpane.2) hpane.1 hshown)

/-- What is spanned by an enclosed interval is where it shows. -/
theorem Enclosed.shows (h : p.Enclosed viewport start stop ends)
    (hends : Ends start stop ends painted) (hspans : p.Spans viewport ends b) :
    p.Shows viewport start stop b := by
  obtain ⟨e, he, hfirst, hlast⟩ := hspans
  obtain ⟨hb, hfirst⟩ := max_le_iff.1 hfirst
  obtain ⟨hlt, hlast⟩ := lt_min_iff.1 hlast
  obtain ⟨-, hstart, -⟩ := hends.mem e he e.1 (.inl rfl)
  obtain ⟨-, -, hstop⟩ := hends.mem e he e.2 (.inr rfl)
  have hle := hends.le e he
  -- It is enough to find a strip on top between the first and the last one.
  suffices hfound : ∃ k, e.1 ≤ k ∧ k ≤ e.2 ∧ p.Topmost k b by
    obtain ⟨k, hk, hk', htop⟩ := hfound
    exact ⟨hb, hlt, k, hstart.trans hk, hk'.trans_lt hstop, htop⟩
  by_cases hpane : e.2 < p.frozen ∨ p.frozen ≤ e.1
  · refine exists_topmost_between hb hle hpane (fun hscrolled => ?_) hfirst hlast
    by_contra hbeneath
    have hclear := h.scrolled e he hscrolled
    have hmin := lt_min (lt_min hlt (not_le.1 hbeneath)) hlast
    exact absurd (hmin.trans_le hclear) (not_lt.2 (max_le hb hfirst))
  · simp only [not_or, not_lt, not_le] at hpane
    by_cases hextent : b < p.extent
    · -- The strips that stay reach from the first one to the end of their pane.
      have hoffset : b < offset p.size p.frozen := hextent
      rw [shown_of_lt hpane.2] at hfirst
      obtain ⟨k, hk, hk', hcovers⟩ := (exists_covers_Ico p.size_nonneg).2 ⟨hfirst, hoffset⟩
      exact ⟨k, hk, hk'.le.trans hpane.1, (topmost_of_lt hb hk').2 hcovers⟩
    · have hshown : p.shown p.frozen ≤ b := by
        rw [shown_of_le le_rfl]
        exact (sub_le_self _ p.scroll_nonneg).trans (not_lt.1 hextent)
      obtain ⟨k, hk, hk', htop⟩ := exists_topmost_between hb hpane.1 (.inr le_rfl)
        (fun _ => not_lt.1 hextent) hshown hlast
      exact ⟨k, hpane.2.le.trans hk, hk', htop⟩

/-- Where the first painted strip is scrolled no strip of the interval that stays shows, if that is
    what is spanned. -/
theorem frozen_le_of_spans (hpainted : p.Painted viewport painted)
    (hends : Ends start stop ends painted)
    (hspans : ∀ b, p.Spans viewport ends b ↔ p.Shows viewport start stop b) {e : ℕ × ℕ}
    (he : e ∈ ends) (hfirst : p.frozen ≤ e.1) (hb : 0 ≤ b) (hlt : b < viewport)
    (hstart : start ≤ i) (hstop : i < stop) (htop : p.Topmost i b) : p.frozen ≤ i := by
  by_contra hfrozen
  have hfrozen := not_le.1 hfrozen
  have hleast : ∀ k, painted k → start ≤ k → k < stop → e.1 ≤ k := fun k hk hk' hk'' => by
    obtain ⟨e', he', hle, -⟩ := hends.all k hk hk' hk''
    cases he.symm.trans he'
    exact hle
  have hcovers := (topmost_of_lt hb hfrozen).1 htop
  obtain ⟨hpaintedFirst, -, hfirstStop⟩ := hends.mem e he e.1 (.inl rfl)
  -- The first painted strip begins no later than one at the offset that is scrolled to.
  obtain ⟨k, hik, hk, hkcovers⟩ := hpainted.reserve i e.1 hfrozen hfirst hpaintedFirst hcovers.pos
    fun hi => absurd (hleast i hi hstart hstop) (not_le.2 (hfrozen.trans_le hfirst))
  have hle : e.1 ≤ k := by
    by_cases hkstop : k < stop
    · exact hleast k hk (hstart.trans hik.le) hkstop
    · exact hfirstStop.le.trans (not_lt.1 hkstop)
  have hshown : p.shown e.1 ≤ 0 := by
    rw [shown_of_le hfirst, sub_nonpos]
    exact (offset_mono p.size_nonneg hle).trans hkcovers.1
  -- So the viewport begins with a strip of the interval, which stays and is painted.
  obtain ⟨e', he', -, hlast⟩ := (hspans b).2 ⟨hb, hlt, i, hstart, hstop, htop⟩
  cases he.symm.trans he'
  obtain ⟨-, hpos, j, hj, hj', hjtop⟩ := (hspans 0).1 ⟨e, he, max_le le_rfl hshown,
    hb.trans_lt hlast⟩
  have hextent : 0 < p.extent := hb.trans_lt ((lt_extent_iff hb).2 ⟨i, hfrozen, hcovers⟩)
  have hjfrozen : j < p.frozen := by
    by_contra hscrolled
    exact absurd (hjtop.extent_le le_rfl (not_lt.1 hscrolled)) (not_le.2 hextent)
  have hjpainted := hpainted.first hpos j hjfrozen ((topmost_of_lt le_rfl hjfrozen).1 hjtop)
  exact absurd (hleast j hjpainted hj hj') (not_le.2 (hjfrozen.trans_le hfirst))

/-- If an interval shows where it is spanned, it is enclosed. -/
theorem enclosed_of_spans (hpainted : p.Painted viewport painted)
    (hends : Ends start stop ends painted)
    (hspans : ∀ b, p.Spans viewport ends b ↔ p.Shows viewport start stop b) :
    p.Enclosed viewport start stop ends := by
  refine ⟨fun b hb hlt i hstart hstop htop => ?_, fun e he hfirst => ?_,
    fun e he hfirst hlast hshown => ?_⟩
  · obtain ⟨e, he, hfirst, hlast⟩ := (hspans b).2 ⟨hb, hlt, i, hstart, hstop, htop⟩
    have hfirst := (max_le_iff.1 hfirst).2
    have hlast := (lt_min_iff.1 hlast).2
    have hover := htop.1
    refine ⟨e, he, ?_, ?_⟩ <;> by_contra hout <;> have hout := not_le.1 hout
    · by_cases hpane : e.1 < p.frozen ∨ p.frozen ≤ i
      · exact absurd (hover.2.trans_le (shown_add_size_le hpane hout)) (not_lt.2 hfirst)
      · simp only [not_or, not_lt, not_le] at hpane
        exact absurd (frozen_le_of_spans hpainted hends hspans he hpane.1 hb hlt hstart hstop htop)
          (not_le.2 hpane.2)
    · by_cases hpane : i < p.frozen ∨ p.frozen ≤ e.2
      · exact absurd (hlast.trans_le (shown_add_size_le hpane hout)) (not_lt.2 hover.1)
      · simp only [not_or, not_lt, not_le] at hpane
        have hend := end_le_extent hpane.2
        exact absurd (hlast.trans_le hend) (not_lt.2 (htop.extent_le hb hpane.1))
  · -- At a point spanned beneath the strips that stay one of those would be of the interval.
    by_contra hbeneath
    obtain ⟨hmin, hlast⟩ := lt_min_iff.1 (not_le.1 hbeneath)
    obtain ⟨hlt, hextent⟩ := lt_min_iff.1 hmin
    have hb := le_max_left 0 (p.shown e.1)
    obtain ⟨-, -, i, hstart, hstop, htop⟩ := (hspans _).1 ⟨e, he, le_rfl, lt_min hlt hlast⟩
    have hscrolled := frozen_le_of_spans hpainted hends hspans he hfirst hb hlt hstart hstop htop
    exact absurd (htop.extent_le hb hscrolled) (not_le.2 hextent)
  · -- At a point past the span, but before the end of the pane, a strip of the interval shows.
    by_contra hshort
    have hshort := not_le.1 hshort
    obtain ⟨hpaintedFirst, hstart, -⟩ := hends.mem e he e.1 (.inl rfl)
    obtain ⟨-, -, hstop⟩ := hends.mem e he e.2 (.inr rfl)
    have hpos := hpainted.pos _ hpaintedFirst
    have hextent : p.shown e.1 < p.extent := (lt_add_of_pos_right _ hpos).trans_le
      (end_le_extent hfirst)
    have hnonneg : 0 ≤ p.shown e.1 := by
      rw [shown_of_lt hfirst]
      exact offset_nonneg p.size_nonneg _
    generalize hb : max (p.shown e.1) (p.shown e.2 + p.size e.2) = b
    have hle : p.shown e.1 ≤ b := hb ▸ le_max_left _ _
    have hend : p.shown e.2 + p.size e.2 ≤ b := hb ▸ le_max_right _ _
    have hlt : b < min viewport p.extent := hb ▸ max_lt (lt_min hshown hextent) hshort
    obtain ⟨hlt, hbextent⟩ := lt_min_iff.1 hlt
    have hbextent : b < offset p.size p.frozen := hbextent
    have hoffset := hle
    rw [shown_of_lt hfirst] at hoffset
    obtain ⟨k, hk, hk', hcovers⟩ := (exists_covers_Ico p.size_nonneg).2 ⟨hoffset, hbextent⟩
    have hb := hnonneg.trans hle
    obtain ⟨e', he', -, hlast'⟩ := (hspans b).2 ⟨hb, hlt, k, hstart.trans hk,
      hk'.trans_le hlast |>.trans hstop, (topmost_of_lt hb hk').2 hcovers⟩
    cases he.symm.trans he'
    exact absurd (lt_min_iff.1 hlast').2 (not_lt.2 hend)

/-- The interval shows exactly where it is spanned if it is enclosed. -/
theorem spans_iff_shows (hpainted : p.Painted viewport painted)
    (hends : Ends start stop ends painted) :
    (∀ b, p.Spans viewport ends b ↔ p.Shows viewport start stop b) ↔
      p.Enclosed viewport start stop ends :=
  ⟨enclosed_of_spans hpainted hends, fun h _ => ⟨h.shows hends, h.spans⟩⟩

end Panes

/-- Two products are the same if their factors are, or if both are empty. -/
theorem forall_and_iff_and {α β : Type*} {s s' : α → Prop} {t t' : β → Prop} :
    (∀ a b, s a ∧ t b ↔ s' a ∧ t' b) ↔ (((∃ a, s' a) ∧ ∃ b, t' b) ∨ ((∃ a, s a) ∧ ∃ b, t b) →
      (∀ a, s a ↔ s' a) ∧ ∀ b, t b ↔ t' b) := by
  constructor
  · intro h hne
    obtain ⟨⟨a, ha, ha'⟩, b, hb, hb'⟩ : (∃ a, s a ∧ s' a) ∧ ∃ b, t b ∧ t' b := by
      rcases hne with ⟨⟨a, ha⟩, b, hb⟩ | ⟨⟨a, ha⟩, b, hb⟩
      · exact ⟨⟨a, ((h a b).2 ⟨ha, hb⟩).1, ha⟩, b, ((h a b).2 ⟨ha, hb⟩).2, hb⟩
      · exact ⟨⟨a, ha, ((h a b).1 ⟨ha, hb⟩).1⟩, b, hb, ((h a b).1 ⟨ha, hb⟩).2⟩
    exact ⟨fun a' => ⟨fun hs => ((h a' b).1 ⟨hs, hb⟩).1, fun hs => ((h a' b).2 ⟨hs, hb'⟩).1⟩,
      fun b' => ⟨fun ht => ((h a b').1 ⟨ha, ht⟩).2, fun ht => ((h a b').2 ⟨ha', ht⟩).2⟩⟩
  · intro h a b
    constructor
    · rintro ⟨ha, hb⟩
      obtain ⟨hs, ht⟩ := h (.inr ⟨⟨a, ha⟩, b, hb⟩)
      exact ⟨(hs a).1 ha, (ht b).1 hb⟩
    · rintro ⟨ha, hb⟩
      obtain ⟨hs, ht⟩ := h (.inl ⟨⟨a, ha⟩, b, hb⟩)
      exact ⟨(hs a).2 ha, (ht b).2 hb⟩

end Tabulark
