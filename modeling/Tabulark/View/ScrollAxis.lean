import Mathlib
import Tabulark.View.AxisGeometry

/-!
# Scrolling

A browser scrolls only so many pixels. A table that is larger is scrolled by a
spacer of the size that the browser can scroll, and the offsets are scaled: the
physical one is that of the spacer, the logical one that of the table.
-/

namespace Tabulark.View

open Strips

/-- One axis of scrolling. -/
structure ScrollAxisLayout where
  logicalContentSize : ℚ
  logicalViewportSize : ℚ
  logicalOffset : ℚ
  logicalMaxOffset : ℚ
  physicalContentSize : ℚ
  physicalOffset : ℚ
  physicalMaxOffset : ℚ
  compressed : Bool
  deriving DecidableEq, Repr

def clampFinite (value minimum maximum : ℚ) : ℚ := min maximum (max minimum value)

/-- The axis of a content in a viewport, with the offset of the spacer. -/
def createScrollAxis (logicalContentSize logicalViewportSize physicalOffset pixelLimit : ℚ) :
    Result ScrollAxisLayout := do
  let _ ← nonNegativeFinite logicalContentSize "logicalContentSize"
  let _ ← nonNegativeFinite logicalViewportSize "logicalViewportSize"
  let _ ← positiveFinite pixelLimit "pixelLimit"
  let logicalMaxOffset := max 0 (logicalContentSize - logicalViewportSize)
  let largestUsableSize := max pixelLimit (logicalViewportSize + 1)
  let physicalContentSize := min logicalContentSize largestUsableSize
  let physicalMaxOffset := max 0 (physicalContentSize - logicalViewportSize)
  let normalizedPhysicalOffset := clampFinite physicalOffset 0 physicalMaxOffset
  let compressed : Bool := physicalMaxOffset < logicalMaxOffset
  let logicalOffset :=
    if physicalMaxOffset = 0 then 0
    else if compressed then normalizedPhysicalOffset / physicalMaxOffset * logicalMaxOffset
    else normalizedPhysicalOffset
  pure {
    logicalContentSize
    logicalViewportSize
    logicalOffset
    logicalMaxOffset
    physicalContentSize
    physicalOffset := normalizedPhysicalOffset
    physicalMaxOffset
    compressed }

def logicalToPhysicalOffset (axis : ScrollAxisLayout) (logicalOffset : ℚ) : ℚ :=
  let normalized := clampFinite logicalOffset 0 axis.logicalMaxOffset
  if !axis.compressed then min normalized axis.physicalMaxOffset
  else if axis.logicalMaxOffset = 0 then 0
  else normalized / axis.logicalMaxOffset * axis.physicalMaxOffset

def physicalToLogicalOffset (axis : ScrollAxisLayout) (physicalOffset : ℚ) : ℚ :=
  let normalized := clampFinite physicalOffset 0 axis.physicalMaxOffset
  if !axis.compressed then min normalized axis.logicalMaxOffset
  else if axis.physicalMaxOffset = 0 then 0
  else normalized / axis.physicalMaxOffset * axis.logicalMaxOffset

/-! ## Well-formed axes -/

/-- The offsets are within their bounds, and are one and the same, or scaled. -/
structure ScrollAxisLayout.WellFormed (a : ScrollAxisLayout) : Prop where
  viewport_nonneg : 0 ≤ a.logicalViewportSize
  logicalMax_eq : a.logicalMaxOffset = max 0 (a.logicalContentSize - a.logicalViewportSize)
  physicalMax_nonneg : 0 ≤ a.physicalMaxOffset
  physicalMax_le : a.physicalMaxOffset ≤ a.logicalMaxOffset
  physicalMax_pos : 0 < a.logicalMaxOffset → 0 < a.physicalMaxOffset
  compressed_iff : a.compressed ↔ a.physicalMaxOffset < a.logicalMaxOffset
  physicalOffset_mem : a.physicalOffset ∈ Set.Icc 0 a.physicalMaxOffset
  logicalOffset_eq : a.logicalOffset = physicalToLogicalOffset a a.physicalOffset

theorem clampFinite_mem {maximum : ℚ} (hmax : 0 ≤ maximum) (value : ℚ) :
    clampFinite value 0 maximum ∈ Set.Icc 0 maximum :=
  ⟨le_min hmax (le_max_left _ _), min_le_left _ _⟩

theorem clampFinite_of_mem {value maximum : ℚ} (h : value ∈ Set.Icc 0 maximum) :
    clampFinite value 0 maximum = value := by
  rw [clampFinite, max_eq_right h.1, min_eq_right h.2]

theorem clampFinite_mono (maximum : ℚ) : Monotone fun value => clampFinite value 0 maximum :=
  fun _ _ hle => min_le_min_left _ (max_le_max_left _ hle)

/-- An offset within a bound, as the same part of another. -/
def scale (maximum target x : ℚ) : ℚ := clampFinite x 0 maximum / maximum * target

section Scale

variable {maximum target x : ℚ} (hmaximum : 0 ≤ maximum)
include hmaximum

/-- Both maps scale, also where the bounds are one and the same. -/
theorem scale_eq {compressed : Bool} (heq : ¬compressed → target = maximum) :
    (if !compressed then min (clampFinite x 0 maximum) target
      else if maximum = 0 then 0
      else clampFinite x 0 maximum / maximum * target) = scale maximum target x := by
  have hmem := clampFinite_mem hmaximum x
  rw [scale]
  cases compressed with
  | true =>
    rw [Bool.not_true, if_neg Bool.false_ne_true]
    split_ifs with hzero
    · rw [hzero, div_zero, zero_mul]
    · rfl
  | false =>
    rw [Bool.not_false, if_pos rfl, heq Bool.false_ne_true, min_eq_left hmem.2]
    by_cases hzero : maximum = 0
    · rw [hzero] at hmem ⊢
      rw [div_zero, zero_mul]
      exact hmem.2.antisymm hmem.1
    · rw [div_mul_cancel₀ _ hzero]

theorem scale_mono (htarget : 0 ≤ target) : Monotone (scale maximum target) :=
  fun _ _ hle => mul_le_mul_of_nonneg_right
    (div_le_div_of_nonneg_right (clampFinite_mono maximum hle) hmaximum) htarget

theorem scale_mem (htarget : 0 ≤ target) (x : ℚ) : scale maximum target x ∈ Set.Icc 0 target := by
  have hmem := clampFinite_mem hmaximum x
  exact ⟨mul_nonneg (div_nonneg hmem.1 hmaximum) htarget,
    mul_le_of_le_one_left htarget (div_le_one_of_le₀ hmem.2 hmaximum)⟩

/-- Scaling there and back changes nothing. -/
theorem scale_scale (htarget : 0 ≤ target) (hpos : 0 < maximum → 0 < target)
    (hx : x ∈ Set.Icc 0 maximum) : scale target maximum (scale maximum target x) = x := by
  rw [scale, clampFinite_of_mem (scale_mem hmaximum htarget x), scale, clampFinite_of_mem hx]
  rcases hmaximum.eq_or_lt with hzero | hlt
  · rw [← hzero] at hx ⊢
    rw [mul_zero]
    exact hx.1.antisymm hx.2
  · have hne := hlt.ne'
    have hne' := (hpos hlt).ne'
    field_simp

end Scale

namespace ScrollAxisLayout.WellFormed

variable {a : ScrollAxisLayout} (h : a.WellFormed) {x : ℚ}
include h

theorem logicalMax_nonneg : 0 ≤ a.logicalMaxOffset := h.physicalMax_nonneg.trans h.physicalMax_le

theorem eq_of_not_compressed (hc : ¬a.compressed) : a.physicalMaxOffset = a.logicalMaxOffset :=
  h.physicalMax_le.antisymm (not_lt.1 (mt h.compressed_iff.2 hc))

theorem logicalToPhysicalOffset_eq :
    logicalToPhysicalOffset a = scale a.logicalMaxOffset a.physicalMaxOffset := by
  funext x
  exact scale_eq h.logicalMax_nonneg h.eq_of_not_compressed

theorem physicalToLogicalOffset_eq :
    physicalToLogicalOffset a = scale a.physicalMaxOffset a.logicalMaxOffset := by
  funext x
  exact scale_eq h.physicalMax_nonneg fun hc => (h.eq_of_not_compressed hc).symm

theorem logicalToPhysicalOffset_mono : Monotone (logicalToPhysicalOffset a) := by
  rw [h.logicalToPhysicalOffset_eq]
  exact scale_mono h.logicalMax_nonneg h.physicalMax_nonneg

theorem physicalToLogicalOffset_mono : Monotone (physicalToLogicalOffset a) := by
  rw [h.physicalToLogicalOffset_eq]
  exact scale_mono h.physicalMax_nonneg h.logicalMax_nonneg

theorem logicalToPhysicalOffset_mem (x : ℚ) :
    logicalToPhysicalOffset a x ∈ Set.Icc 0 a.physicalMaxOffset := by
  rw [h.logicalToPhysicalOffset_eq]
  exact scale_mem h.logicalMax_nonneg h.physicalMax_nonneg x

theorem physicalToLogicalOffset_mem (x : ℚ) :
    physicalToLogicalOffset a x ∈ Set.Icc 0 a.logicalMaxOffset := by
  rw [h.physicalToLogicalOffset_eq]
  exact scale_mem h.physicalMax_nonneg h.logicalMax_nonneg x

theorem physicalToLogical_logicalToPhysical (hx : x ∈ Set.Icc 0 a.logicalMaxOffset) :
    physicalToLogicalOffset a (logicalToPhysicalOffset a x) = x := by
  rw [h.physicalToLogicalOffset_eq, h.logicalToPhysicalOffset_eq]
  exact scale_scale h.logicalMax_nonneg h.physicalMax_nonneg h.physicalMax_pos hx

theorem logicalToPhysical_physicalToLogical (hx : x ∈ Set.Icc 0 a.physicalMaxOffset) :
    logicalToPhysicalOffset a (physicalToLogicalOffset a x) = x := by
  rw [h.physicalToLogicalOffset_eq, h.logicalToPhysicalOffset_eq]
  exact scale_scale h.physicalMax_nonneg h.logicalMax_nonneg
    (fun hpos => hpos.trans_le h.physicalMax_le) hx

theorem logicalOffset_mem : a.logicalOffset ∈ Set.Icc 0 a.logicalMaxOffset := by
  rw [h.logicalOffset_eq]
  exact h.physicalToLogicalOffset_mem _

theorem physicalOffset_eq : logicalToPhysicalOffset a a.logicalOffset = a.physicalOffset := by
  rw [h.logicalOffset_eq]
  exact h.logicalToPhysical_physicalToLogical h.physicalOffset_mem

end ScrollAxisLayout.WellFormed

/-- The logical offset of a new axis is that of its physical one. -/
theorem offset_of_normalized {maximum target x : ℚ} {compressed : Bool} (hle : maximum ≤ target)
    (hx : x ∈ Set.Icc 0 maximum) :
    (if maximum = 0 then 0 else if compressed then x / maximum * target else x) =
      if !compressed then min x target else if maximum = 0 then 0 else x / maximum * target := by
  cases compressed with
  | true => rfl
  | false =>
    rw [Bool.not_false, if_pos rfl, if_neg Bool.false_ne_true, min_eq_left (hx.2.trans hle)]
    split_ifs with hzero
    · exact hx.1.antisymm (hx.2.trans hzero.le)
    · rfl

/-- An axis is created well formed. -/
theorem createScrollAxis_eq_ok {content viewport pixelLimit : ℚ} (hcontent : 0 ≤ content)
    (hviewport : 0 ≤ viewport) (hlimit : 0 < pixelLimit) (offset : ℚ) :
    ∃ a, createScrollAxis content viewport offset pixelLimit = .ok a ∧ a.WellFormed ∧
      a.logicalContentSize = content ∧ a.logicalViewportSize = viewport ∧
      a.physicalOffset = clampFinite offset 0 a.physicalMaxOffset ∧ a.physicalMaxOffset =
        max 0 (min content (max pixelLimit (viewport + 1)) - viewport) := by
  rw [createScrollAxis, nonNegativeFinite, if_neg (not_lt.2 hcontent), nonNegativeFinite,
    if_neg (not_lt.2 hviewport), positiveFinite, if_neg (not_le.2 hlimit)]
  refine ⟨_, rfl, ?_, rfl, rfl, rfl, rfl⟩
  have hphysical : (0 : ℚ) ≤
      max 0 (min content (max pixelLimit (viewport + 1)) - viewport) := le_max_left _ _
  have hmem := clampFinite_mem hphysical offset
  refine ⟨hviewport, rfl, hphysical, max_le_max_left _ (sub_le_sub_right (min_le_left _ _) _),
    fun hpos => ?_, decide_eq_true_iff, hmem, ?_⟩
  · -- The spacer is at least one pixel larger than the viewport.
    have hlt : viewport < content := by
      rcases lt_max_iff.1 hpos with hlt | hlt
      · exact absurd hlt (lt_irrefl _)
      · exact sub_pos.1 hlt
    refine lt_max_of_lt_right (sub_pos.2 (lt_min hlt (lt_max_of_lt_right ?_)))
    exact lt_add_one viewport
  · rw [physicalToLogicalOffset, clampFinite_of_mem hmem]
    exact offset_of_normalized (max_le_max_left _ (sub_le_sub_right (min_le_left _ _) _)) hmem

theorem createScrollAxis_wellFormed {content viewport offset pixelLimit : ℚ}
    {a : ScrollAxisLayout} (h : createScrollAxis content viewport offset pixelLimit = .ok a) :
    a.WellFormed ∧ a.logicalContentSize = content ∧ a.logicalViewportSize = viewport ∧
      a.physicalOffset = clampFinite offset 0 a.physicalMaxOffset ∧ a.physicalMaxOffset =
        max 0 (min content (max pixelLimit (viewport + 1)) - viewport) := by
  obtain ⟨_, hcontent, h'⟩ := Result.bind_eq_ok.1 h
  obtain ⟨_, hviewport, h'⟩ := Result.bind_eq_ok.1 h'
  obtain ⟨_, hlimit, -⟩ := Result.bind_eq_ok.1 h'
  obtain ⟨a', ha', hall⟩ := createScrollAxis_eq_ok (nonNegativeFinite_eq_ok hcontent).2
    (nonNegativeFinite_eq_ok hviewport).2 (positiveFinite_eq_ok hlimit).2 offset
  cases h.symm.trans ha'
  exact hall

/-- A content within the limit is scrolled as it is. -/
theorem logicalOffset_of_le_limit {content viewport offset pixelLimit : ℚ} {a : ScrollAxisLayout}
    (h : createScrollAxis content viewport offset pixelLimit = .ok a) (hle : content ≤ pixelLimit) :
    a.logicalOffset = clampFinite offset 0 (max 0 (content - viewport)) := by
  obtain ⟨hwf, hcontent, hviewport, hoffset, hmax⟩ := createScrollAxis_wellFormed h
  rw [min_eq_left (hle.trans (le_max_left _ _))] at hmax
  have hsame : a.logicalMaxOffset = a.physicalMaxOffset := by
    rw [hwf.logicalMax_eq, hcontent, hviewport, hmax]
  rw [← hmax, ← hoffset, hwf.logicalOffset_eq, hwf.physicalToLogicalOffset_eq, hsame, scale,
    clampFinite_of_mem hwf.physicalOffset_mem]
  by_cases hzero : a.physicalMaxOffset = 0
  · have hmem := hwf.physicalOffset_mem
    rw [hzero] at hmem
    rw [hzero, mul_zero]
    exact hmem.1.antisymm hmem.2
  · rw [div_mul_cancel₀ _ hzero]

/-! ## Positions and offsets -/

/-- The positions of an axis are the sums of the sizes before them, the index at an offset is
    the one that covers it, and the offsets of scrolling are scaled there and back. -/
theorem axis_geometry_exact :
    (∀ (count : ℕ) (defaultSize : ℚ) (entries : List PresentationAxisEntry),
      count ≤ maxSafeInteger → 0 < defaultSize →
      ∃ g, createSparseAxisGeometry count defaultSize entries = .ok g ∧
        (∀ i ≤ count, axisPosition g i =
          ∑ j ∈ Finset.range i, effectiveSize defaultSize entries j) ∧
        (∀ i < count, axisSize g i = effectiveSize defaultSize entries i) ∧
        g.contentSize = axisPosition g count ∧
        (∀ x, 0 ≤ x → x < g.contentSize → ∃ i, axisIndexAtOffset g x = some i ∧
          ∀ j, (j < count ∧ 0 < effectiveSize defaultSize entries j ∧ axisPosition g j ≤ x ∧
            x < axisPosition g j + effectiveSize defaultSize entries j) ↔ j = i) ∧
        ∀ x, ¬(0 ≤ x ∧ x < g.contentSize) → axisIndexAtOffset g x = none) ∧
    ∀ content viewport offset pixelLimit : ℚ, 0 ≤ content → 0 ≤ viewport → 0 < pixelLimit →
      ∃ a, createScrollAxis content viewport offset pixelLimit = .ok a ∧
        Monotone (physicalToLogicalOffset a) ∧ Monotone (logicalToPhysicalOffset a) ∧
        Set.InvOn (physicalToLogicalOffset a) (logicalToPhysicalOffset a)
          (Set.Icc 0 a.logicalMaxOffset) (Set.Icc 0 a.physicalMaxOffset) ∧
        Set.MapsTo (physicalToLogicalOffset a) (Set.Icc 0 a.physicalMaxOffset)
          (Set.Icc 0 a.logicalMaxOffset) ∧
        Set.MapsTo (logicalToPhysicalOffset a) (Set.Icc 0 a.logicalMaxOffset)
          (Set.Icc 0 a.physicalMaxOffset) ∧
        (a.physicalMaxOffset = 0 → a.logicalMaxOffset = 0) := by
  refine ⟨fun count defaultSize entries hcount hdefault => ?_,
    fun content viewport offset pixelLimit hcontent hviewport hlimit => ?_⟩
  · have h := wellFormed_geometryOf count hdefault entries
    have hsize : ∀ i < count, axisSize (geometryOf count defaultSize entries) i =
        effectiveSize defaultSize entries i := fun i hi => axisSize_geometryOf hcount hdefault hi
    have hcontent := h.contentSize_eq
    rw [h.axisPosition_eq] at hcontent
    have hnone : ∀ x, (∀ i, ¬Covers (axisSize (geometryOf count defaultSize entries)) i x) →
        axisIndexAtOffset (geometryOf count defaultSize entries) x = none := fun x hx =>
      Option.eq_none_iff_forall_ne_some.2 fun i hi => hx i (h.axisIndexAtOffset_eq_some.1 hi)
    refine ⟨_, createSparseAxisGeometry_eq hcount hdefault entries, fun i hi => ?_, hsize,
      h.contentSize_eq, fun x hzero hlt => ?_, fun x hx => hnone x fun i hi => hx ?_⟩
    · rw [h.axisPosition_eq]
      exact Finset.sum_congr rfl fun j hj => hsize j ((Finset.mem_range.1 hj).trans_le hi)
    · obtain ⟨i, hi, hcovers⟩ := exists_covers hzero (hcontent ▸ hlt)
      refine ⟨i, h.axisIndexAtOffset_eq_some.2 hcovers, fun j => ⟨?_, ?_⟩⟩
      · rintro ⟨hj, -, hle, hlt'⟩
        rw [← hsize j hj, h.axisPosition_eq] at hlt'
        rw [h.axisPosition_eq] at hle
        exact Covers.unique h.axisSize_nonneg ⟨hle, hlt'⟩ hcovers
      · rintro rfl
        rw [← hsize j hi, h.axisPosition_eq]
        exact ⟨hi, hcovers.pos, hcovers⟩
    · exact ⟨hi.nonneg h.axisSize_nonneg, hcontent ▸ hi.lt_offset h.axisSize_nonneg
        (SparseAxisGeometry.WellFormed.lt_count_of_covers hi)⟩
  · obtain ⟨a, ha, h, -⟩ := createScrollAxis_eq_ok hcontent hviewport hlimit offset
    refine ⟨a, ha, h.physicalToLogicalOffset_mono, h.logicalToPhysicalOffset_mono,
      ⟨fun x hx => h.physicalToLogical_logicalToPhysical hx,
        fun x hx => h.logicalToPhysical_physicalToLogical hx⟩,
      fun x _ => h.physicalToLogicalOffset_mem x, fun x _ => h.logicalToPhysicalOffset_mem x,
      fun hzero => ?_⟩
    by_contra hne
    exact absurd hzero (h.physicalMax_pos (lt_of_le_of_ne h.logicalMax_nonneg (Ne.symm hne))).ne'

/-- Three rows, the second of them hidden, in a viewport of two pixels. -/
theorem axis_geometry_exact_hidden :
    (∃ g, createSparseAxisGeometry 3 2 [⟨1, none, true⟩] = .ok g ∧
      g.contentSize = axisPosition g 3) ∧
    ∃ a, createScrollAxis 4 2 0 1 = .ok a ∧ (a.physicalMaxOffset = 0 → a.logicalMaxOffset = 0) := by
  obtain ⟨g, hg, -, -, hcontent, -⟩ := axis_geometry_exact.1 3 2 [⟨1, none, true⟩] (by decide)
    (by norm_num)
  obtain ⟨a, ha, -, -, -, -, -, hzero⟩ := axis_geometry_exact.2 4 2 0 1 (by norm_num)
    (by norm_num) (by norm_num)
  exact ⟨⟨g, hg, hcontent⟩, a, ha, hzero⟩

end Tabulark.View
