import Mathlib

/-!
# Double-precision numbers

Numbers of scripts are rounded to the nearest multiple of a power of two that
depends on their size, to the even one if two are as near. The ones that are
rounded beyond all finite doubles are infinite. Integers of up to 53 bits are kept
(`ofRat_intCast`).
-/

namespace Tabulark

/-- A number of a script. Zero has no sign. -/
inductive JsNumber
  | finite (value : ℚ)
  | infinite (negative : Bool)
  deriving DecidableEq, Repr

namespace JsNumber

/-- The nearest integer, or the even one of two. -/
def roundHalfEven (q : ℚ) : ℤ :=
  let below := ⌊q⌋
  if q - below < 1 / 2 then below
  else if 1 / 2 < q - below then below + 1
  else if below % 2 = 0 then below else below + 1

/-- The distance of the doubles near a number. -/
def quantum (q : ℚ) : ℚ := 2 ^ (max (Int.log 2 |q|) (-1022) - 52)

/-- The number nearest to a rational one. -/
def ofRat (q : ℚ) : JsNumber :=
  let rounded := roundHalfEven (q / quantum q) * quantum q
  if 2 ^ 1024 ≤ |rounded| then .infinite (q < 0) else .finite rounded

variable {q : ℚ} {n : ℤ}

@[simp] theorem roundHalfEven_intCast (n : ℤ) : roundHalfEven n = n := by
  simp [roundHalfEven]

theorem quantum_pos (q : ℚ) : 0 < quantum q := zpow_pos (by norm_num) _

/-- Multiples of their quantum that are not too large are kept. -/
theorem ofRat_of_multiple (hmultiple : q = n * quantum q) (hlt : |q| < 2 ^ 1024) :
    ofRat q = .finite q := by
  have hdiv : q / quantum q = n := by
    rw [div_eq_iff (quantum_pos q).ne']
    exact hmultiple
  rw [ofRat, hdiv, roundHalfEven_intCast, ← hmultiple]
  simp only [if_neg (not_le.2 hlt)]

theorem roundHalfEven_cases (q : ℚ) : roundHalfEven q = ⌊q⌋ ∨
    (⌊q⌋ : ℚ) < q ∧ roundHalfEven q = ⌊q⌋ + 1 := by
  unfold roundHalfEven
  dsimp only
  split_ifs with hbelow habove heven
  · exact .inl rfl
  · exact .inr ⟨by linarith, rfl⟩
  · exact .inl rfl
  · exact .inr ⟨by linarith, rfl⟩

/-- Rounding does not leave an interval between integers. -/
theorem abs_roundHalfEven_le (h : |q| ≤ n) : |roundHalfEven q| ≤ n := by
  obtain ⟨hlow, hhigh⟩ := abs_le.1 h
  have hfloor : -n ≤ ⌊q⌋ := Int.le_floor.2 (by push_cast; exact hlow)
  have hle : ⌊q⌋ ≤ n := by exact_mod_cast (Int.floor_le q).trans hhigh
  rw [abs_le]
  rcases roundHalfEven_cases q with heq | ⟨hlt, heq⟩
  · rw [heq]
    exact ⟨hfloor, hle⟩
  · have hlt : ⌊q⌋ < n := by exact_mod_cast hlt.trans_le hhigh
    rw [heq]
    omega

/-- What a number is rounded to is a multiple of its own quantum: this is no larger, unless the
    number is rounded up to a power of two. -/
theorem rounded_eq_multiple (q : ℚ) :
    ∃ n : ℤ, roundHalfEven (q / quantum q) * quantum q =
      n * quantum (roundHalfEven (q / quantum q) * quantum q) := by
  generalize hE : max (Int.log 2 |q|) (-1022) = E
  have hq : quantum q = 2 ^ (E - 52) := by rw [quantum, hE]
  have hlt : |q| < 2 ^ (E + 1) := by
    have hlog : Int.log 2 |q| ≤ E := hE ▸ le_max_left _ _
    exact (Int.lt_zpow_succ_log_self one_lt_two |q|).trans_le
      (zpow_le_zpow_right₀ (by norm_num) (by omega))
  have hm : |roundHalfEven (q / quantum q)| ≤ 2 ^ 53 := by
    refine abs_roundHalfEven_le ?_
    rw [abs_div, abs_of_pos (quantum_pos q), div_le_iff₀ (quantum_pos q), hq]
    refine hlt.le.trans_eq ?_
    rw [show E + 1 = 53 + (E - 52) by ring, zpow_add₀ two_ne_zero]
    norm_num
  generalize roundHalfEven (q / quantum q) = m at *
  rw [hq]
  generalize hr : (m : ℚ) * 2 ^ (E - 52) = r
  have habs : |r| ≤ 2 ^ (E + 1) := by
    have hcast : |(m : ℚ)| ≤ 2 ^ 53 := by exact_mod_cast hm
    have hpos : (0 : ℚ) < 2 ^ (E - 52) := zpow_pos two_pos _
    rw [← hr, abs_mul, abs_of_pos hpos,
      show E + 1 = 53 + (E - 52) by ring, zpow_add₀ two_ne_zero]
    exact mul_le_mul_of_nonneg_right (hcast.trans_eq (by norm_num))
      (zpow_pos two_pos _).le
  rcases eq_or_ne r 0 with rfl | hne
  · exact ⟨0, by simp⟩
  rw [quantum]
  generalize hE' : max (Int.log 2 |r|) (-1022) = E'
  rcases le_or_gt E' E with hle | hgt
  · obtain ⟨k, hk⟩ := Int.le.dest hle
    refine ⟨m * 2 ^ k, ?_⟩
    rw [← hr, show E - 52 = k + (E' - 52) by omega, zpow_add₀ two_ne_zero, zpow_natCast]
    push_cast
    ring
  · have hElow : (-1022 : ℤ) ≤ E := hE ▸ le_max_right _ _
    have hlog : Int.log 2 |r| = E' := by omega
    have hpow : (2 : ℚ) ^ E' ≤ |r| := hlog ▸ Int.zpow_log_le_self one_lt_two (abs_pos.2 hne)
    have hE1 : E' = E + 1 := by
      have hle : (2 : ℚ) ^ E' ≤ 2 ^ (E + 1) := hpow.trans habs
      have hle := (zpow_le_zpow_iff_right₀ one_lt_two).1 hle
      omega
    have hr' : |r| = 2 ^ (52 : ℕ) * 2 ^ (E' - 52) := by
      rw [le_antisymm habs (hE1 ▸ hpow), ← zpow_natCast, ← zpow_add₀ two_ne_zero, hE1]
      congr 1
      push_cast
      ring
    rcases abs_choice r with hsign | hsign
    · exact ⟨2 ^ 52, by rw [← hsign, hr']; push_cast; ring⟩
    · exact ⟨-2 ^ 52, by rw [← neg_neg r, ← hsign, hr']; push_cast; ring⟩

/-- What a number is rounded to is kept. -/
theorem ofRat_idempotent {r : ℚ} (h : ofRat q = .finite r) : ofRat r = .finite r := by
  rw [ofRat] at h
  split_ifs at h with hlarge
  obtain ⟨n, hn⟩ := rounded_eq_multiple q
  injection h with h
  rw [h] at hn hlarge
  exact ofRat_of_multiple hn (not_le.1 hlarge)

end JsNumber

end Tabulark
