import Mathlib
import Tabulark.Lib.Utf16

/-!
# Fitting the text of a cell

A text that is too wide for its cell is cut, and a marker put at its end. How much
of it to measure is found by doubling, and where to cut it by a binary search over
positions that are moved out of surrogate pairs. The cut is after the longest run
of code points that fits with the marker (`ellipsizeCanvasText_eq`).
-/

namespace Tabulark.View

open Utf16

def textOverflowMarker : List CodeUnit := [0x2026]

def initialTextProbeLength : ℕ := 64

/-- A position, moved before the pair that it is in. -/
def codePointBoundary (value : List CodeUnit) (stop : ℕ) : ℕ :=
  if 0 < stop ∧ stop < value.length ∧ isHighSurrogate (value.getD (stop - 1) 0) ∧
      isLowSurrogate (value.getD stop 0) then stop - 1
  else stop

/-- Measures ever more of a label, until it is too wide or there is no more of it. -/
def probeLabel (measureText : List CodeUnit → ℚ) (label : List CodeUnit) (maxWidth : ℚ)
    (probeEnd : ℕ) (hprobe : 0 < probeEnd ∧ probeEnd ≤ label.length) : Option ℕ :=
  if measureText (label.take probeEnd) ≤ maxWidth then
    if probeEnd = label.length then none
    else probeLabel measureText label maxWidth (min label.length (probeEnd * 2)) (by omega)
  else some probeEnd
termination_by label.length - probeEnd

/-- Searches for the last position at which a label can be cut and fits. -/
def searchCut (measureText : List CodeUnit → ℚ) (label : List CodeUnit) (maxWidth : ℚ)
    (low high : ℤ) (bestEnd : ℕ) : ℕ :=
  if low ≤ high then
    let midpoint := low + (high - low) / 2
    let candidateEnd := codePointBoundary label midpoint.toNat
    let candidate := label.take candidateEnd ++ textOverflowMarker
    if measureText candidate ≤ maxWidth then
      searchCut measureText label maxWidth (midpoint + 1) high (max bestEnd candidateEnd)
    else searchCut measureText label maxWidth low (midpoint - 1) bestEnd
  else bestEnd
termination_by (high - low + 1).toNat

/-- Fits a label into a width. -/
def ellipsizeCanvasText (measureText : List CodeUnit → ℚ) (label : List CodeUnit)
    (maxWidth : ℚ) : List CodeUnit :=
  if hempty : label.length = 0 ∨ maxWidth ≤ 0 then []
  else
    match probeLabel measureText label maxWidth (min label.length initialTextProbeLength)
        (by simp only [initialTextProbeLength]; omega) with
    | none => label
    | some probeEnd =>
      if maxWidth < measureText textOverflowMarker then textOverflowMarker
      else label.take (searchCut measureText label maxWidth 0 probeEnd 0) ++ textOverflowMarker

/-! ## Cuts -/

section Cuts

variable {label : List CodeUnit} {k m n : ℕ}

theorem codePointBoundary_le (label : List CodeUnit) (m : ℕ) : codePointBoundary label m ≤ m := by
  rw [codePointBoundary]
  split_ifs <;> omega

theorem le_codePointBoundary (label : List CodeUnit) (m : ℕ) :
    m ≤ codePointBoundary label m + 1 := by
  rw [codePointBoundary]
  split_ifs <;> omega

theorem codePointBoundary_mono (label : List CodeUnit) : Monotone (codePointBoundary label) :=
  monotone_nat_of_le_succ fun m =>
    (codePointBoundary_le label m).trans
      (Nat.le_of_succ_le_succ (le_codePointBoundary label (m + 1)))

/-- The positions that are moved are those that are no boundaries. -/
theorem boundary_iff : Boundary label k ↔ ¬(0 < k ∧ k < label.length ∧
    isHighSurrogate (label.getD (k - 1) 0) ∧ isLowSurrogate (label.getD k 0)) := by
  rw [Boundary, Apart]
  by_cases hk : 0 < k ∧ k < label.length
  · have hlast : (label.take k).getLast? = some label[k - 1] := by
      rw [List.getLast?_take, if_neg (by omega), List.getElem?_eq_getElem (by omega)]
      rfl
    have hhead : (label.drop k).head? = some label[k] := by
      rw [List.head?_drop, List.getElem?_eq_getElem hk.2]
    have hprev : k - 1 < label.length := by omega
    rw [hlast, hhead]
    simp [isPair, hk.1, hk.2, hprev]
  · refine iff_of_true (fun u hu v hv => absurd ?_ hk) fun h => hk ⟨h.1, h.2.1⟩
    refine ⟨Nat.pos_of_ne_zero fun hzero => ?_, ?_⟩
    · rw [hzero, List.take_zero] at hu
      cases hu
    · by_contra hle
      rw [List.drop_eq_nil_of_le (not_lt.1 hle)] at hv
      cases hv

theorem codePointBoundary_eq (h : Boundary label k) : codePointBoundary label k = k := by
  rw [codePointBoundary, if_neg (boundary_iff.1 h)]

/-- A position that was moved is a boundary: the first of a pair is not the second of another. -/
theorem boundary_codePointBoundary (label : List CodeUnit) (m : ℕ) :
    Boundary label (codePointBoundary label m) := by
  rw [codePointBoundary]
  split_ifs with hinside
  · obtain ⟨-, hlt, hhigh, -⟩ := hinside
    rw [boundary_iff]
    rintro ⟨-, -, -, hlow⟩
    rw [isLowSurrogate_eq_false hhigh] at hlow
    exact Bool.false_ne_true hlow
  · exact boundary_iff.2 hinside

end Cuts

section Fit

variable {pointWidth : List CodeUnit → ℚ} {label : List CodeUnit} {maxWidth : ℚ}
  {probeEnd k m n : ℕ}

theorem width_cut (pointWidth : List CodeUnit → ℚ) (s : List CodeUnit) :
    width pointWidth (s ++ textOverflowMarker) =
      width pointWidth s + width pointWidth textOverflowMarker :=
  width_append fun u _ v hv => by
    obtain rfl : 0x2026 = v := by simpa [textOverflowMarker] using hv
    rw [isPair, show isLowSurrogate 0x2026 = false from rfl, Bool.and_false]

/-- A label fits if it is cut where a position is moved to. -/
def CutFits (pointWidth : List CodeUnit → ℚ) (label : List CodeUnit) (maxWidth : ℚ) (m : ℕ) :
    Prop :=
  width pointWidth (label.take (codePointBoundary label m)) +
    width pointWidth textOverflowMarker ≤ maxWidth

/-- If a label fits that is cut at a position, it does if it is cut before. -/
theorem CutFits.mono (h : Widths pointWidth) (hle : m ≤ n)
    (hfits : CutFits pointWidth label maxWidth n) : CutFits pointWidth label maxWidth m :=
  (add_le_add_left (width_take_mono h label (codePointBoundary_mono label hle)) _).trans hfits

/-- The probe finds no part that is too wide exactly if the label is not. -/
theorem probeLabel_eq_none (h : Widths pointWidth)
    (hprobe : 0 < probeEnd ∧ probeEnd ≤ label.length) :
    probeLabel (width pointWidth) label maxWidth probeEnd hprobe = none ↔
      width pointWidth label ≤ maxWidth := by
  fun_induction probeLabel (width pointWidth) label maxWidth probeEnd hprobe with
  | case1 hprobe hfits =>
    rw [List.take_length] at hfits
    exact iff_of_true rfl hfits
  | case2 probeEnd hprobe hfits hmore ih => exact ih
  | case3 probeEnd hprobe hwide =>
    refine iff_of_false (fun hnone => nomatch hnone) fun hfits => hwide ?_
    have hle := width_take_mono h label hprobe.2
    dsimp only at hle
    rw [List.take_length] at hle
    exact hle.trans hfits

/-- The part that the probe ends with is too wide. -/
theorem probeLabel_eq_some (hprobe : 0 < probeEnd ∧ probeEnd ≤ label.length)
    (hsome : probeLabel (width pointWidth) label maxWidth probeEnd hprobe = some n) :
    n ≤ label.length ∧ maxWidth < width pointWidth (label.take n) := by
  fun_induction probeLabel (width pointWidth) label maxWidth probeEnd hprobe with
  | case1 hprobe hfits => exact nomatch hsome
  | case2 probeEnd hprobe hfits hmore ih => exact ih hsome
  | case3 probeEnd hprobe hwide =>
    cases hsome
    exact ⟨hprobe.2, not_le.1 hwide⟩

/-- The search ends at the last position at which the label can be cut. The positions before `k`
    are known to fit, and those from `m` on not to. -/
theorem searchCut_spec (h : Widths pointWidth) (hle : k ≤ m)
    (hfits : ∀ i < k, CutFits pointWidth label maxWidth i)
    (hfails : ∀ i, m ≤ i → i ≤ n → ¬CutFits pointWidth label maxWidth i) :
    ∃ c, (∀ i < c, CutFits pointWidth label maxWidth i) ∧
      (∀ i, c ≤ i → i ≤ n → ¬CutFits pointWidth label maxWidth i) ∧
      searchCut (width pointWidth) label maxWidth k (m - 1) (codePointBoundary label (k - 1)) =
        codePointBoundary label (c - 1) := by
  induction hlength : m - k using Nat.strong_induction_on generalizing k m with
  | _ length ih =>
    rw [searchCut]
    by_cases hempty : k = m
    · subst hempty
      rw [if_neg (by omega)]
      exact ⟨k, hfits, hfails, rfl⟩
    obtain ⟨middle, hmiddle⟩ : ∃ middle : ℕ, (k : ℤ) + (m - 1 - k) / 2 = middle :=
      ⟨(k + ((m : ℤ) - 1 - k) / 2).toNat, (Int.toNat_of_nonneg (by omega)).symm⟩
    rw [if_pos (by omega)]
    dsimp only
    rw [hmiddle, Int.toNat_natCast, width_cut]
    have hk : k ≤ middle := by omega
    have hm : middle < m := by omega
    split_ifs with hcut
    · -- All positions up to the middle fit.
      have hbest : max (codePointBoundary label (k - 1)) (codePointBoundary label middle) =
          codePointBoundary label (middle + 1 - 1) :=
        max_eq_right (codePointBoundary_mono label (by omega))
      rw [hbest]
      exact ih (m - (middle + 1)) (by omega) (k := middle + 1) hm
        (fun i hi => CutFits.mono h (Nat.le_of_lt_succ hi) hcut) hfails rfl
    · -- No position from the middle on fits.
      exact ih (middle - k) (by omega) hk hfits
        (fun i hi _ hfit => hcut (CutFits.mono h hi hfit)) rfl

/-- A label that is too wide is cut at a boundary that it fits at with the marker, and at no later
    one it does. -/
theorem searchCut_exact (h : Widths pointWidth) (hwide : maxWidth < width pointWidth (label.take n))
    (hmarker : width pointWidth textOverflowMarker ≤ maxWidth) :
    ∃ k, Boundary label k ∧ searchCut (width pointWidth) label maxWidth 0 n 0 = k ∧
      width pointWidth (label.take k) + width pointWidth textOverflowMarker ≤ maxWidth ∧
      ∀ m, Boundary label m → k < m →
        maxWidth < width pointWidth (label.take m) + width pointWidth textOverflowMarker := by
  obtain ⟨c, hfits, hfails, hsearch⟩ := searchCut_spec (m := n + 1) (n := n) h (Nat.zero_le _)
    (fun i hi => absurd hi (Nat.not_lt_zero i)) fun i hi hi' => absurd hi' (Nat.not_le_of_lt hi)
  -- Nothing of the label fits with the marker, and where the probe ends it does not fit alone.
  have hzero : CutFits pointWidth label maxWidth 0 := by
    simpa [CutFits, codePointBoundary] using hmarker
  have hpos : 0 < c := Nat.pos_of_ne_zero fun heq =>
    hfails 0 heq.le (Nat.zero_le _) hzero
  refine ⟨codePointBoundary label (c - 1), boundary_codePointBoundary label _, ?_,
    hfits (c - 1) (by omega), fun m hm hlt => not_le.1 fun hfit => ?_⟩
  · simpa [codePointBoundary] using hsearch
  · have hcut : CutFits pointWidth label maxWidth m := by
      rw [CutFits, codePointBoundary_eq hm]
      exact hfit
    have hbefore : m < n := by
      by_contra hle
      have hmono := width_take_mono h label (not_lt.1 hle)
      dsimp only at hmono
      have hnonneg : 0 ≤ width pointWidth textOverflowMarker := by
        simpa [width, textOverflowMarker] using h.nonneg _
      exact absurd (hwide.trans_le (hmono.trans (le_add_of_nonneg_right hnonneg)))
        (not_lt.2 hfit)
    have hc : m < c := by
      by_contra hle
      exact hfails m (not_lt.1 hle) hbefore.le hcut
    have hmono := codePointBoundary_mono label (show m ≤ c - 1 by omega)
    rw [codePointBoundary_eq hm] at hmono
    exact absurd hlt (not_lt.2 hmono)

/-- Boundaries are in the order of the numbers of code points before them. -/
theorem boundary_lt (hk : codePoints (label.take k) = (codePoints label).take n)
    (hm : codePoints (label.take m) = (codePoints label).take probeEnd) (hlt : n < probeEnd)
    (hle : probeEnd ≤ (codePoints label).length) : k < m := by
  by_contra hge
  have hkeq := congrArg List.flatten hk
  have hmeq := congrArg List.flatten hm
  rw [flatten_codePoints] at hkeq hmeq
  -- The shorter of two runs of code points has no more units.
  have hlength : (label.take k).length ≤ (label.take m).length := by
    obtain ⟨rest, hrest⟩ := List.take_prefix_take_left (l := codePoints label) hlt.le
    rw [hkeq, hmeq, ← hrest, List.flatten_append, List.length_append]
    exact Nat.le_add_right _ _
  have hsame : label.take k = label.take m := by
    rw [List.take_eq_take_iff]
    simp only [List.length_take] at hlength
    omega
  rw [hsame, hm] at hk
  have hcount := congrArg List.length hk
  simp only [List.length_take] at hcount
  omega

/-- A label is shown as it is if the probe finds nothing that is too wide; else it is cut. -/
theorem ellipsizeCanvasText_cases (h : Widths pointWidth) (hmax : 0 < maxWidth) :
    (width pointWidth label ≤ maxWidth ∧
        ellipsizeCanvasText (width pointWidth) label maxWidth = label) ∨
      maxWidth < width pointWidth label ∧ ∃ n, maxWidth < width pointWidth (label.take n) ∧
        ellipsizeCanvasText (width pointWidth) label maxWidth =
          if maxWidth < width pointWidth textOverflowMarker then textOverflowMarker
          else label.take (searchCut (width pointWidth) label maxWidth 0 n 0) ++
            textOverflowMarker := by
  rw [ellipsizeCanvasText]
  by_cases hempty : label.length = 0 ∨ maxWidth ≤ 0
  · obtain rfl : label = [] :=
      List.eq_nil_of_length_eq_zero (hempty.resolve_right (not_le.2 hmax))
    exact .inl ⟨by simpa using hmax.le, by simp⟩
  · rw [dif_neg hempty]
    split
    · rename_i hnone
      exact .inl ⟨(probeLabel_eq_none h _).1 hnone, rfl⟩
    · rename_i n hsome
      have hwide := (probeLabel_eq_some _ hsome).2
      refine .inr ⟨not_le.1 fun hfits => ?_, n, hwide, rfl⟩
      exact nomatch hsome.symm.trans ((probeLabel_eq_none h _).2 hfits)

end Fit

/-- A label that fits is shown as it is. Of one that does not, the marker is shown, after the
    longest run of its code points that fits with the marker, if the marker fits itself. A label
    that is too wide is never shown as it is, unless it is the marker. -/
theorem ellipsizeCanvasText_eq (pointWidth : List CodeUnit → ℚ) (h : Widths pointWidth)
    (label : List CodeUnit) (maxWidth : ℚ) (hmax : 0 < maxWidth) :
    let measureText := width pointWidth
    let result := ellipsizeCanvasText measureText label maxWidth
    (measureText label ≤ maxWidth → result = label) ∧
      (label ≠ textOverflowMarker → result = label → measureText label ≤ maxWidth) ∧
      (maxWidth < measureText label → maxWidth < measureText textOverflowMarker →
        result = textOverflowMarker) ∧
      (maxWidth < measureText label → measureText textOverflowMarker ≤ maxWidth →
        ∃ n ≤ (codePoints label).length,
          result = ((codePoints label).take n).flatten ++ textOverflowMarker ∧
          (((codePoints label).take n).map pointWidth).sum + measureText textOverflowMarker ≤
            maxWidth ∧
          ∀ m, n < m → m ≤ (codePoints label).length → maxWidth <
            (((codePoints label).take m).map pointWidth).sum +
              measureText textOverflowMarker) := by
  intro measureText result
  -- The run that is shown of a label that is cut.
  have hcut : maxWidth < measureText label → measureText textOverflowMarker ≤ maxWidth →
      ∃ k, result = label.take k ++ textOverflowMarker ∧ Boundary label k ∧
        measureText (label.take k) + measureText textOverflowMarker ≤ maxWidth ∧
        ∀ m, Boundary label m → k < m →
          maxWidth < measureText (label.take m) + measureText textOverflowMarker :=
    fun hwide hmarker => by
      obtain ⟨hfits, -⟩ | ⟨-, n, hn, hresult⟩ := ellipsizeCanvasText_cases h hmax
      · exact absurd hfits (not_le.2 hwide)
      obtain ⟨k, hk, hsearch, hfit, hlater⟩ := searchCut_exact h hn hmarker
      rw [if_neg (not_lt.2 hmarker), hsearch] at hresult
      exact ⟨k, hresult, hk, hfit, hlater⟩
  refine ⟨fun hfits => ?_, fun hne heq => ?_, fun hwide hmarker => ?_, fun hwide hmarker => ?_⟩
  · obtain ⟨-, hresult⟩ | ⟨hwide, -⟩ := ellipsizeCanvasText_cases h hmax
    · exact hresult
    · exact absurd hfits (not_le.2 hwide)
  · by_contra hwide
    have hwide := not_le.1 hwide
    by_cases hmarker : measureText textOverflowMarker ≤ maxWidth
    · -- A cut label fits with its marker, so it is not one that does not.
      obtain ⟨k, hresult, -, hfit, -⟩ := hcut hwide hmarker
      have hwidth := width_cut pointWidth (label.take k)
      rw [← hresult, heq] at hwidth
      exact absurd (hwidth.trans_le hfit) (not_le.2 hwide)
    · obtain ⟨hfits, -⟩ | ⟨-, n, -, hresult⟩ := ellipsizeCanvasText_cases h hmax
      · exact absurd hfits (not_le.2 hwide)
      · rw [if_pos (not_le.1 hmarker)] at hresult
        exact hne (heq.symm.trans hresult)
  · obtain ⟨hfits, -⟩ | ⟨-, n, -, hresult⟩ := ellipsizeCanvasText_cases h hmax
    · exact absurd hfits (not_le.2 hwide)
    · rw [if_pos hmarker] at hresult
      exact hresult
  · obtain ⟨k, hresult, hk, hfit, hlater⟩ := hcut hwide hmarker
    obtain ⟨n, hn, htake⟩ := codePoints_take hk
    refine ⟨n, hn, ?_, ?_, fun m hlt hm => ?_⟩
    · rw [hresult, ← htake, flatten_codePoints]
    · rw [← htake]
      exact hfit
    · obtain ⟨k', -, hk', htake'⟩ := exists_boundary label m
      rw [← htake']
      exact hlater k' hk' (boundary_lt htake htake' hlt hm)

/-- A label of three code points, the second of which is a pair, in a width for two. -/
theorem ellipsizeCanvasText_eq_pair :
    ∃ n ≤ (codePoints [0x61, 0xd83d, 0xde00, 0x62]).length,
      ellipsizeCanvasText (width fun _ => 1) [0x61, 0xd83d, 0xde00, 0x62] 2 =
        ((codePoints [0x61, 0xd83d, 0xde00, 0x62]).take n).flatten ++ textOverflowMarker := by
  have hlabel : width (fun _ => 1) [0x61, 0xd83d, 0xde00, 0x62] = 3 := by
    rw [width, show codePoints [0x61, 0xd83d, 0xde00, 0x62] = [[0x61], [0xd83d, 0xde00], [0x62]] by
      decide]
    norm_num
  have hmarker : width (fun _ => 1) textOverflowMarker = 1 := by
    simp [width, textOverflowMarker]
  have hwidths : Widths fun _ => (1 : ℚ) := ⟨fun _ => zero_le_one, fun _ _ _ => le_rfl⟩
  obtain ⟨-, -, -, hcut⟩ := ellipsizeCanvasText_eq _ hwidths [0x61, 0xd83d, 0xde00, 0x62] 2
    zero_lt_two
  obtain ⟨n, hn, hresult, -⟩ := hcut (by rw [hlabel]; norm_num) (by rw [hmarker]; norm_num)
  exact ⟨n, hn, hresult⟩

end Tabulark.View
