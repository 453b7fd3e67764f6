import Mathlib

/-!
# Strings of code units

A string of the web is a sequence of 16-bit code units, in which a high and a low
surrogate next to each other stand for one code point. `codePoints` are the code
points of a string, each as its units; a position is a boundary if it is not
between the two of a pair. A string has a width if its code points have, and the
more of a string, the wider it is, wherever it is cut (`width_take_mono`), if no
high surrogate is wider alone than in a pair.
-/

namespace Tabulark

abbrev CodeUnit := UInt16

namespace Utf16

def isHighSurrogate (value : CodeUnit) : Bool := 0xd800 ≤ value && value ≤ 0xdbff

def isLowSurrogate (value : CodeUnit) : Bool := 0xdc00 ≤ value && value ≤ 0xdfff

/-- Two units that stand for one code point. -/
def isPair (u v : CodeUnit) : Bool := isHighSurrogate u && isLowSurrogate v

/-- The code points of a string. -/
def codePoints : List CodeUnit → List (List CodeUnit)
  | [] => []
  | [u] => [[u]]
  | u :: v :: rest =>
    if isPair u v then [u, v] :: codePoints rest else [u] :: codePoints (v :: rest)

variable {s t : List CodeUnit} {u v : CodeUnit} {k m : ℕ}

@[simp] theorem codePoints_nil : codePoints [] = [] := by simp [codePoints]

@[simp] theorem codePoints_singleton : codePoints [u] = [[u]] := by simp [codePoints]

theorem codePoints_of_pair (h : isPair u v) :
    codePoints (u :: v :: s) = [u, v] :: codePoints s := by
  rw [codePoints, if_pos h]

theorem codePoints_of_not_pair (h : isPair u v = false) :
    codePoints (u :: v :: s) = [u] :: codePoints (v :: s) := by
  rw [codePoints, if_neg (by simp [h])]

/-- No unit is a high and a low surrogate. -/
theorem isLowSurrogate_eq_false (h : isHighSurrogate u) : isLowSurrogate u = false := by
  simp only [isHighSurrogate, isLowSurrogate, Bool.and_eq_true, decide_eq_true_eq,
    Bool.and_eq_false_iff, decide_eq_false_iff_not, UInt16.le_iff_toNat_le, UInt16.reduceToNat] at *
  omega

/-- The second of a pair is not the first of another. -/
theorem isPair_eq_false (h : isPair u v) {w : CodeUnit} : isPair v w = false := by
  rw [isPair, Bool.and_eq_true] at h
  have hhigh : isHighSurrogate v = false := by
    by_contra hv
    rw [isLowSurrogate_eq_false (by simpa using hv)] at h
    exact Bool.false_ne_true h.2
  rw [isPair, hhigh, Bool.false_and]

/-- Strings are their code points. -/
@[simp] theorem flatten_codePoints (s : List CodeUnit) : (codePoints s).flatten = s := by
  fun_induction codePoints s with
  | case1 => rfl
  | case2 u => rfl
  | case3 u v rest hpair ih => simp [ih]
  | case4 u v rest hpair ih => simp [ih]

/-- Two strings do not make up a pair where they meet. -/
def Apart (s t : List CodeUnit) : Prop := ∀ u ∈ s.getLast?, ∀ v ∈ t.head?, isPair u v = false

/-- Strings that are apart keep their code points. -/
theorem codePoints_append (h : Apart s t) : codePoints (s ++ t) = codePoints s ++ codePoints t := by
  fun_induction codePoints s with
  | case1 => simp
  | case2 u =>
    cases t with
    | nil => simp
    | cons v t => exact codePoints_of_not_pair (h u rfl v rfl)
  | case3 u v rest hpair ih =>
    rw [List.cons_append, List.cons_append, codePoints_of_pair hpair, List.cons_append]
    refine congrArg _ (ih fun a ha => h a ?_)
    cases rest with
    | nil => exact absurd ha (by simp)
    | cons b rest => simpa using ha
  | case4 u v rest hpair ih =>
    rw [List.cons_append, List.cons_append, codePoints_of_not_pair (by simpa using hpair),
      List.cons_append]
    exact congrArg _ (ih fun a ha => h a (by simpa using ha))

/-! ## Boundaries -/

/-- A position is not between the two units of a pair. -/
def Boundary (s : List CodeUnit) (k : ℕ) : Prop := Apart (s.take k) (s.drop k)

theorem codePoints_take_append (h : Boundary s k) :
    codePoints (s.take k) ++ codePoints (s.drop k) = codePoints s := by
  rw [← codePoints_append h, List.take_append_drop]

/-- The code points before a boundary are the first ones of the string. -/
theorem codePoints_take (h : Boundary s k) :
    ∃ n ≤ (codePoints s).length, codePoints (s.take k) = (codePoints s).take n := by
  have happend := codePoints_take_append h
  refine ⟨(codePoints (s.take k)).length, ?_, ?_⟩
  · rw [← happend, List.length_append]
    exact Nat.le_add_right _ _
  · rw [← happend, List.take_left]

/-- The first code points of a string end at a boundary. -/
theorem exists_boundary (s : List CodeUnit) (n : ℕ) :
    ∃ k ≤ s.length, Boundary s k ∧ codePoints (s.take k) = (codePoints s).take n := by
  fun_induction codePoints s generalizing n with
  | case1 => exact ⟨0, Nat.le_refl _, fun a ha => absurd ha (by simp), by simp⟩
  | case2 u =>
    cases n with
    | zero => exact ⟨0, Nat.zero_le _, fun a ha => absurd ha (by simp), by simp⟩
    | succ n => exact ⟨1, Nat.le_refl _, fun a _ b hb => absurd hb (by simp), by simp⟩
  | case3 u v rest hpair ih =>
    cases n with
    | zero => exact ⟨0, Nat.zero_le _, fun a ha => absurd ha (by simp), by simp⟩
    | succ n =>
      obtain ⟨k, hk, hboundary, htake⟩ := ih n
      refine ⟨k + 2, by simpa using hk, fun a ha b hb => ?_, ?_⟩
      · cases hrest : rest.take k with
        | nil =>
          obtain rfl : a = v := by simpa [hrest, eq_comm] using ha
          exact isPair_eq_false hpair
        | cons c l => exact hboundary a (by simpa [hrest] using ha) b (by simpa using hb)
      · rw [List.take_succ_cons, List.take_succ_cons, codePoints_of_pair hpair, htake,
          List.take_succ_cons]
  | case4 u v rest hpair ih =>
    cases n with
    | zero => exact ⟨0, Nat.zero_le _, fun a ha => absurd ha (by simp), by simp⟩
    | succ n =>
      obtain ⟨k, hk, hboundary, htake⟩ := ih n
      refine ⟨k + 1, by simpa using hk, fun a ha b hb => ?_, ?_⟩
      · cases k with
        | zero =>
          obtain rfl : a = u := by simpa [eq_comm] using ha
          obtain rfl : b = v := by simpa [eq_comm] using hb
          simpa using hpair
        | succ k => exact hboundary a (by simpa using ha) b (by simpa using hb)
      · cases k with
        | zero =>
          rw [List.take_zero, codePoints_nil] at htake
          rw [List.take_succ_cons, List.take_zero, codePoints_singleton, List.take_succ_cons,
            ← htake]
        | succ k =>
          rw [List.take_succ_cons] at htake
          rw [List.take_succ_cons, List.take_succ_cons, List.take_succ_cons,
            codePoints_of_not_pair (by simpa using hpair), htake]

/-! ## Widths -/

/-- The width of a string is that of its code points. -/
def width (pointWidth : List CodeUnit → ℚ) (s : List CodeUnit) : ℚ :=
  ((codePoints s).map pointWidth).sum

/-- No code point has a negative width, and no high surrogate is wider than a pair with it. -/
structure Widths (pointWidth : List CodeUnit → ℚ) : Prop where
  nonneg : ∀ c, 0 ≤ pointWidth c
  le_pair : ∀ u v, isPair u v → pointWidth [u] ≤ pointWidth [u, v]

variable {pointWidth : List CodeUnit → ℚ}

@[simp] theorem width_nil : width pointWidth [] = 0 := by simp [width]

theorem width_append (h : Apart s t) :
    width pointWidth (s ++ t) = width pointWidth s + width pointWidth t := by
  rw [width, codePoints_append h, List.map_append, List.sum_append]
  rfl

/-- A string with one unit more is wider. -/
theorem width_le_append (h : Widths pointWidth) (s : List CodeUnit) (u : CodeUnit) :
    width pointWidth s ≤ width pointWidth (s ++ [u]) := by
  fun_induction codePoints s with
  | case1 => simpa [width] using h.nonneg [u]
  | case2 v =>
    by_cases hpair : isPair v u
    · simpa [width, codePoints_of_pair hpair] using h.le_pair v u hpair
    · simpa [width, codePoints_of_not_pair (by simpa using hpair)] using h.nonneg [u]
  | case3 v w rest hpair ih => simpa [width, codePoints_of_pair hpair] using ih
  | case4 v w rest hpair ih =>
    simpa [width, codePoints_of_not_pair (by simpa using hpair)] using ih

/-- The more of a string, the wider. -/
theorem width_take_mono (h : Widths pointWidth) (s : List CodeUnit) :
    Monotone fun k => width pointWidth (s.take k) :=
  monotone_nat_of_le_succ fun k => by
    rcases lt_or_ge k s.length with hk | hk
    · rw [List.take_add_one, List.getElem?_eq_getElem hk]
      exact width_le_append h _ _
    · rw [List.take_of_length_le hk, List.take_of_length_le (Nat.le_succ_of_le hk)]

end Utf16

end Tabulark
