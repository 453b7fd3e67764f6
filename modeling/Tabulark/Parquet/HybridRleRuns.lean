import Mathlib
import Tabulark.Parquet.HybridRle

/-!
# Runs taken one value at a time

What a decoder gives is what repeated `next` gives. A loaded run answers `next`
for as long as the bits that were taken of it can be counted in a `usize`
(`HybridRleRun.Fits`): past that `next` fails, while `skip` goes on with a
saturated bit offset and `peek` still looks at the value before the end.
-/

namespace Tabulark.Parquet

open BitPacking

/-- A value of a run. -/
def HybridRleRun.valueAt (bitWidth : ℕ) : HybridRleRun → ℕ → ℕ
  | .empty, _ => 0
  | .repeated value _, _ => value
  | .bitPacked bytes bitOffset _, i => window bytes (bitOffset + i * bitWidth) bitWidth

/-- The run without its first values. -/
def HybridRleRun.advance (bitWidth k : ℕ) : HybridRleRun → HybridRleRun
  | .empty => .empty
  | .repeated value remaining => .repeated value (remaining - k)
  | .bitPacked bytes bitOffset remaining =>
    .bitPacked bytes (bitOffset + k * bitWidth) (remaining - k)

/-- The end of the first values of a run can be counted in bits. -/
def HybridRleRun.Fits (bitWidth k : ℕ) : HybridRleRun → Prop
  | .empty => True
  | .repeated _ _ => True
  | .bitPacked _ bitOffset _ => bitOffset + k * bitWidth ≤ usizeMax

instance (bitWidth k : ℕ) (run : HybridRleRun) : Decidable (run.Fits bitWidth k) := by
  cases run <;> unfold HybridRleRun.Fits <;> infer_instance

/-- A run has values left, and the bytes of its bit-packed ones. -/
def HybridRleRun.Sound (bitWidth : ℕ) : HybridRleRun → Prop
  | .empty => True
  | .repeated _ remaining => 0 < remaining
  | .bitPacked bytes bitOffset remaining =>
    0 < remaining ∧ bitOffset + remaining * bitWidth = 8 * bytes.length

namespace HybridRleRun

variable {run : HybridRleRun} {w j k : ℕ}

theorem pos_remaining (hs : run.Sound w) (hloaded : run ≠ .empty) : 0 < run.remaining := by
  cases run with
  | empty => exact absurd rfl hloaded
  | repeated value remaining => exact hs
  | bitPacked bytes bitOffset remaining => exact hs.1

theorem ne_empty (h : 0 < run.remaining) : run ≠ .empty := by
  rintro rfl
  exact lt_irrefl 0 h

@[simp] theorem remaining_advance : (run.advance w k).remaining = run.remaining - k := by
  cases run <;> simp [advance, remaining]

theorem settled_of_pos (h : 0 < run.remaining) : run.settled = run := by
  cases run with
  | empty => rfl
  | repeated value remaining => exact if_neg (Nat.pos_iff_ne_zero.1 h)
  | bitPacked bytes bitOffset remaining => exact if_neg (Nat.pos_iff_ne_zero.1 h)

theorem settled_of_zero (h : run.remaining = 0) : run.settled = .empty := by
  cases run with
  | empty => rfl
  | repeated value remaining => exact if_pos h
  | bitPacked bytes bitOffset remaining => exact if_pos h

theorem advance_advance : (run.advance w j).advance w k = run.advance w (j + k) := by
  cases run with
  | empty => rfl
  | repeated value remaining => rw [advance, advance, advance, Nat.sub_sub]
  | bitPacked bytes bitOffset remaining =>
    rw [advance, advance, advance, Nat.sub_sub, Nat.add_assoc, ← Nat.add_mul]

theorem valueAt_advance (i : ℕ) : (run.advance w j).valueAt w i = run.valueAt w (j + i) := by
  cases run with
  | empty => rfl
  | repeated value remaining => rfl
  | bitPacked bytes bitOffset remaining =>
    rw [advance, valueAt, valueAt, Nat.add_assoc, ← Nat.add_mul]

theorem fits_advance : (run.advance w j).Fits w k ↔ run.Fits w (j + k) := by
  cases run with
  | empty => rfl
  | repeated value remaining => rfl
  | bitPacked bytes bitOffset remaining =>
    rw [advance, Fits, Fits, Nat.add_assoc, ← Nat.add_mul]

theorem Fits.mono (h : run.Fits w k) (hle : j ≤ k) : run.Fits w j := by
  cases run with
  | empty => trivial
  | repeated value remaining => trivial
  | bitPacked bytes bitOffset remaining =>
    have hmul : j * w ≤ k * w := Nat.mul_le_mul_right w hle
    have hk : bitOffset + k * w ≤ usizeMax := h
    exact (Nat.add_le_add_left hmul bitOffset).trans hk

theorem Sound.advance (hs : run.Sound w) (hk : k < run.remaining) :
    (run.advance w k).Sound w := by
  cases run with
  | empty => trivial
  | repeated value remaining => exact Nat.sub_pos_of_lt hk
  | bitPacked bytes bitOffset remaining =>
    refine ⟨Nat.sub_pos_of_lt hk, ?_⟩
    have hk' : k ≤ remaining := hk.le
    rw [Nat.add_assoc, ← Nat.add_mul, Nat.add_sub_cancel' hk']
    exact hs.2

theorem Sound.settled_advance (hs : run.Sound w) : (run.advance w k).settled.Sound w := by
  rcases lt_or_ge k run.remaining with hlt | hge
  · rw [settled_of_pos (by rw [remaining_advance]; omega)]
    exact hs.advance hlt
  · rw [settled_of_zero (by rw [remaining_advance]; omega)]
    trivial

end HybridRleRun

/-! ## Packed values -/

variable {bytes : List UInt8} {bitOffset bitWidth : ℕ}

theorem checkedOffset_eq_ok {a b n : ℕ} {message : String} :
    checkedOffset a b message = .ok n ↔ a + b ≤ usizeMax ∧ n = a + b := by
  rw [checkedOffset]
  split_ifs with h
  · exact ⟨fun heq => ⟨h, by cases heq; rfl⟩, fun ⟨_, heq⟩ => by rw [heq]⟩
  · exact iff_of_false nofun fun ⟨hle, _⟩ => h hle

theorem checkedLength_eq_ok {a b n : ℕ} {message : String} :
    checkedLength a b message = .ok n ↔ a * b ≤ usizeMax ∧ n = a * b := by
  rw [checkedLength]
  split_ifs with h
  · exact ⟨fun heq => ⟨h, by cases heq; rfl⟩, fun ⟨_, heq⟩ => by rw [heq]⟩
  · exact iff_of_false nofun fun ⟨hle, _⟩ => h hle

/-- A bit of a byte, as it is shifted out. -/
theorem shiftRight_and_one {i : ℕ} {byte : UInt8} (hbyte : bytes[i / 8]? = some byte) :
    (byte.toNat >>> (i % 8)) &&& 1 = (bitAt bytes i).toNat := by
  rw [bitAt, hbyte, Option.getD_some, Nat.toNat_testBit, Nat.and_one_is_mod,
    Nat.shiftRight_eq_div_pow]

/-- Within the buffer a value is read if the offset of its last bit can be counted. -/
theorem readBits_eq_ok {start count value : ℕ}
    (hbound : bitOffset + start + count ≤ 8 * bytes.length) :
    readBits bytes bitOffset (List.range' start count) (window bytes bitOffset start) = .ok value ↔
      (count = 0 ∨ bitOffset + start + count ≤ usizeMax + 1) ∧
        value = window bytes bitOffset (start + count) := by
  induction count generalizing start with
  | zero => simp [readBits, eq_comm]
  | succ count ih =>
    have hlt : (bitOffset + start) / 8 < bytes.length := Nat.div_lt_of_lt_mul (by omega)
    have hbyte : bytes[(bitOffset + start) / 8]? = some bytes[(bitOffset + start) / 8] :=
      List.getElem?_eq_getElem hlt
    rw [List.range'_succ, readBits, Result.bind_eq_ok]
    have hnext : window bytes bitOffset start |||
        ((bytes[(bitOffset + start) / 8].toNat >>> ((bitOffset + start) % 8)) &&& 1) <<< start =
          window bytes bitOffset (start + 1) := by
      rw [shiftRight_and_one hbyte]
      rfl
    constructor
    · rintro ⟨source, hsource, hread⟩
      obtain ⟨hle, rfl⟩ := checkedOffset_eq_ok.1 hsource
      rw [hbyte] at hread
      dsimp only at hread
      rw [hnext, ih (by omega)] at hread
      obtain ⟨hcount, rfl⟩ := hread
      exact ⟨.inr (by omega), by rw [Nat.add_right_comm, Nat.add_assoc]⟩
    · rintro ⟨hcount, rfl⟩
      refine ⟨_, checkedOffset_eq_ok.2 ⟨by omega, rfl⟩, ?_⟩
      rw [hbyte]
      dsimp only
      rw [hnext, ih (by omega)]
      exact ⟨by omega, by rw [Nat.add_right_comm, Nat.add_assoc]⟩

theorem readPackedU32_eq_ok {value : ℕ} (hbound : bitOffset + bitWidth ≤ 8 * bytes.length) :
    readPackedU32 bytes bitOffset bitWidth = .ok value ↔
      (bitWidth = 0 ∨ bitOffset + bitWidth ≤ usizeMax + 1) ∧
        value = window bytes bitOffset bitWidth := by
  rw [readPackedU32]
  split_ifs with hzero
  · subst hzero
    simp [window, eq_comm]
  · have hread := @readBits_eq_ok bytes bitOffset 0 bitWidth value hbound
    rw [Nat.zero_add, Nat.add_zero] at hread
    rw [List.range_eq_range']
    exact hread

/-! ## One value at a time -/

namespace HybridRleDecoder

/-- The values of repeated `next`. -/
def nexts : ℕ → HybridRleDecoder → ParquetResult (List ℕ × HybridRleDecoder)
  | 0, d => .ok ([], d)
  | k + 1, d => do
    match ← d.next with
    | (none, d) => .ok ([], d)
    | (some value, d) => do
      let (values, d) ← nexts k d
      .ok (value :: values, d)

/-- The decoder without the first values of its run. -/
def advance (d : HybridRleDecoder) (k : ℕ) : HybridRleDecoder :=
  d.took k (d.run.advance d.bitWidth k)

variable {d d' : HybridRleDecoder} {k : ℕ}

theorem ensureRun_of_loaded (hloaded : d.run ≠ .empty) : d.ensureRun = .ok d := by
  unfold ensureRun
  cases hrun : d.run with
  | empty => exact absurd hrun hloaded
  | repeated value remaining => rfl
  | bitPacked bytes bitOffset remaining => rfl

/-- A run that was read has values, and the rest of the decoder stays. -/
theorem ensureRun_eq_ok (hs : d.run.Sound d.bitWidth) (h : d.ensureRun = .ok d') :
    d'.run.Sound d'.bitWidth ∧ d'.run ≠ .empty ∧ d'.valuesLeft = d.valuesLeft ∧
      d'.bitWidth = d.bitWidth := by
  by_cases hloaded : d.run ≠ .empty
  · rw [ensureRun_of_loaded hloaded] at h
    cases h
    exact ⟨hs, hloaded, rfl, rfl⟩
  rw [not_not] at hloaded
  unfold ensureRun at h
  rw [hloaded] at h
  obtain ⟨⟨header, offset⟩, -, h⟩ := Result.bind_eq_ok.1 h
  dsimp only at h
  split_ifs at h with hzero heven
  · obtain ⟨remaining, hremaining, h⟩ := Result.bind_eq_ok.1 h
    obtain ⟨stop, -, h⟩ := Result.bind_eq_ok.1 h
    split_ifs at h
    cases h
    have hpos : 0 < remaining := by
      rw [usizeFrom] at hremaining
      split_ifs at hremaining
      cases hremaining
      rw [Nat.and_one_is_mod] at heven
      rw [Nat.shiftRight_eq_div_pow]
      omega
    exact ⟨hpos, nofun, rfl, rfl⟩
  · obtain ⟨groups, -, h⟩ := Result.bind_eq_ok.1 h
    obtain ⟨remaining, hremaining, h⟩ := Result.bind_eq_ok.1 h
    obtain ⟨-, rfl⟩ := checkedLength_eq_ok.1 hremaining
    split_ifs at h with hnone
    obtain ⟨byteLength, hlength, h⟩ := Result.bind_eq_ok.1 h
    obtain ⟨-, rfl⟩ := checkedLength_eq_ok.1 hlength
    obtain ⟨stop, hstop, h⟩ := Result.bind_eq_ok.1 h
    obtain ⟨-, rfl⟩ := checkedOffset_eq_ok.1 hstop
    split_ifs at h with hbound
    cases h
    refine ⟨⟨Nat.pos_of_ne_zero hnone, ?_⟩, nofun, rfl, rfl⟩
    rw [List.length_take, List.length_drop, Nat.min_eq_left (by omega), Nat.zero_add,
      Nat.mul_right_comm, Nat.mul_comm]

/-- Taking values of a run, with the bits that they have. -/
theorem takeRun_eq_ok (hloaded : d.run ≠ .empty) :
    d.takeRun k (checkedLength k d.bitWidth "Parquet bit offset overflows") = .ok d' ↔
      d.run.Fits d.bitWidth k ∧ d' = d.advance k := by
  unfold takeRun advance HybridRleRun.advance HybridRleRun.Fits
  cases hrun : d.run with
  | empty => exact absurd hrun hloaded
  | repeated value remaining =>
    simp only [true_and]
    exact ⟨fun h => by cases h; rfl, fun h => by rw [h]⟩
  | bitPacked bytes bitOffset remaining =>
    simp only [Result.bind_eq_ok, checkedLength_eq_ok, checkedOffset_eq_ok]
    constructor
    · rintro ⟨_, ⟨-, rfl⟩, _, ⟨hle, rfl⟩, h⟩
      cases h
      exact ⟨hle, rfl⟩
    · rintro ⟨hle, rfl⟩
      exact ⟨_, ⟨by omega, rfl⟩, _, ⟨hle, rfl⟩, rfl⟩

/-- Values that are counted as the same are. -/
theorem sameValues_eq_ok {first left consumed count : ℕ}
    (hbound : bitOffset + (consumed + left) * bitWidth ≤ 8 * bytes.length)
    (h : sameValues bytes bitOffset bitWidth first left consumed = .ok count) :
    consumed ≤ count ∧ count ≤ consumed + left ∧
      ∀ i, consumed ≤ i → i < count → window bytes (bitOffset + i * bitWidth) bitWidth = first := by
  induction left generalizing consumed with
  | zero =>
    cases h
    exact ⟨le_rfl, le_rfl, fun i hle hlt => absurd hle (not_le.2 hlt)⟩
  | succ left ih =>
    rw [sameValues] at h
    obtain ⟨relativeBits, hbits, h⟩ := Result.bind_eq_ok.1 h
    obtain ⟨-, rfl⟩ := checkedLength_eq_ok.1 hbits
    obtain ⟨nextOffset, hoffset, h⟩ := Result.bind_eq_ok.1 h
    obtain ⟨-, rfl⟩ := checkedOffset_eq_ok.1 hoffset
    obtain ⟨value, hvalue, h⟩ := Result.bind_eq_ok.1 h
    have hsum : (consumed + (left + 1)) * bitWidth =
        consumed * bitWidth + bitWidth + left * bitWidth := by
      ring
    rw [readPackedU32_eq_ok (by omega)] at hvalue
    obtain ⟨-, rfl⟩ := hvalue
    split_ifs at h with hdiffers
    · cases h
      exact ⟨le_rfl, by omega, fun i hle hlt => absurd hle (not_le.2 hlt)⟩
    · have hcount : consumed + 1 + left = consumed + (left + 1) := by omega
      obtain ⟨hle, hle', hsame⟩ := ih (hcount ▸ hbound) h
      refine ⟨by omega, by omega, fun i hi hlt => ?_⟩
      rcases Nat.eq_or_lt_of_le hi with rfl | hi
      · exact not_not.1 hdiffers
      · exact hsame i hi hlt

/-- What a loaded run gives is the value of its first ones. -/
theorem sameRun_eq_ok (hs : d.run.Sound d.bitWidth) {maxCount value count : ℕ}
    (hpos : 0 < maxCount) (hleft : 0 < d.valuesLeft) (h : d.sameRun maxCount = .ok (value, count)) :
    0 < count ∧ count ≤ maxCount ∧ count ≤ d.run.remaining ∧ count ≤ d.valuesLeft ∧
      ∀ i, i < count → d.run.valueAt d.bitWidth i = value := by
  unfold sameRun at h
  cases hrun : d.run with
  | empty =>
    rw [hrun] at h
    cases h
  | repeated value' remaining =>
    rw [hrun] at h hs
    cases h
    have hremaining : 0 < remaining := hs
    exact ⟨by omega, by omega, by rw [HybridRleRun.remaining]; omega, by omega, fun i _ => rfl⟩
  | bitPacked bytes bitOffset remaining =>
    rw [hrun] at h hs
    obtain ⟨hremaining, htotal⟩ := hs
    obtain ⟨first, hfirst, h⟩ := Result.bind_eq_ok.1 h
    obtain ⟨consumed, hsame, h⟩ := Result.bind_eq_ok.1 h
    cases h
    have hmul : ∀ n, n ≤ remaining → n * d.bitWidth ≤ remaining * d.bitWidth := fun n hn =>
      Nat.mul_le_mul_right _ hn
    have hone := hmul 1 hremaining
    rw [readPackedU32_eq_ok (by omega)] at hfirst
    obtain ⟨-, rfl⟩ := hfirst
    have hcount := hmul (1 + (min (min maxCount remaining) d.valuesLeft - 1)) (by omega)
    obtain ⟨hle, hle', hvalues⟩ := sameValues_eq_ok (by omega) hsame
    refine ⟨by omega, by omega, by rw [HybridRleRun.remaining]; omega, by omega, fun i hi => ?_⟩
    cases i with
    | zero => rw [HybridRleRun.valueAt, Nat.zero_mul, Nat.add_zero]
    | succ i => exact hvalues (i + 1) (by omega) hi

theorem sameRun_one (hs : d.run.Sound d.bitWidth) (hloaded : d.run ≠ .empty)
    (hleft : 0 < d.valuesLeft) (hfits : d.run.Fits d.bitWidth 1) :
    d.sameRun 1 = .ok (d.run.valueAt d.bitWidth 0, 1) := by
  unfold sameRun HybridRleRun.valueAt
  unfold HybridRleRun.Fits at hfits
  cases hrun : d.run with
  | empty => exact absurd hrun hloaded
  | repeated value remaining =>
    rw [hrun] at hs
    have hremaining : 0 < remaining := hs
    have hone : min (min 1 remaining) d.valuesLeft = 1 := by omega
    dsimp only
    rw [hone]
  | bitPacked bytes bitOffset remaining =>
    rw [hrun] at hs hfits
    obtain ⟨hremaining, htotal⟩ := hs
    have hone : min (min 1 remaining) d.valuesLeft - 1 = 0 := by omega
    have hmul : 1 * d.bitWidth ≤ remaining * d.bitWidth := Nat.mul_le_mul_right _ hremaining
    dsimp only at hfits ⊢
    have hread : readPackedU32 bytes bitOffset d.bitWidth =
        .ok (window bytes bitOffset d.bitWidth) :=
      (readPackedU32_eq_ok (by omega)).2 ⟨.inr (by omega), rfl⟩
    rw [hone, hread, Nat.zero_mul, Nat.add_zero]
    rfl

theorem next_eq_ok (hs : d.run.Sound d.bitWidth) (hloaded : d.run ≠ .empty)
    (hleft : 0 < d.valuesLeft) {value : Option ℕ} :
    d.next = .ok (value, d') ↔
      d.run.Fits d.bitWidth 1 ∧ value = some (d.run.valueAt d.bitWidth 0) ∧ d' = d.advance 1 := by
  have hconsume : d.consumeRun 1 = (do
      let same ← d.sameRun 1
      let d ← d.takeRun same.2 (checkedLength same.2 d.bitWidth "Parquet bit offset overflows")
      .ok (some same, d)) := by
    rw [consumeRun, if_neg (by omega), ensureRun_of_loaded hloaded]
    rfl
  rw [next, hconsume]
  constructor
  · intro h
    obtain ⟨⟨run, e⟩, hrun, h⟩ := Result.bind_eq_ok.1 h
    cases h
    obtain ⟨⟨first, count⟩, hsame, hrun⟩ := Result.bind_eq_ok.1 hrun
    obtain ⟨e, htake, hrun⟩ := Result.bind_eq_ok.1 hrun
    cases hrun
    obtain ⟨hpos, hone, -, -, hvalues⟩ := sameRun_eq_ok hs Nat.one_pos hleft hsame
    obtain rfl : count = 1 := by omega
    obtain ⟨hfits, rfl⟩ := (takeRun_eq_ok hloaded).1 htake
    exact ⟨hfits, congrArg some (hvalues 0 Nat.one_pos).symm, rfl⟩
  · rintro ⟨hfits, rfl, rfl⟩
    rw [sameRun_one hs hloaded hleft hfits, Result.ok_bind]
    dsimp only
    rw [(takeRun_eq_ok hloaded).2 ⟨hfits, rfl⟩]
    rfl

theorem run_advance (h : k < d.run.remaining) :
    (d.advance k).run = d.run.advance d.bitWidth k :=
  HybridRleRun.settled_of_pos (by rw [HybridRleRun.remaining_advance]; omega)

theorem advance_advance {j : ℕ} (h : j < d.run.remaining) :
    (d.advance j).advance k = d.advance (j + k) := by
  have hrun := run_advance h
  have hwidth : (d.advance j).bitWidth = d.bitWidth := rfl
  have hleft : (d.advance j).valuesLeft = d.valuesLeft - j := rfl
  rw [advance, hrun, hwidth, HybridRleRun.advance_advance, took, hleft, Nat.sub_sub]
  rfl

variable {values : List ℕ}

theorem nexts_succ_eq_ok (hs : d.run.Sound d.bitWidth) (hloaded : d.run ≠ .empty)
    (hleft : 0 < d.valuesLeft) :
    d.nexts (k + 1) = .ok (values, d') ↔
      d.run.Fits d.bitWidth 1 ∧ ∃ rest, (d.advance 1).nexts k = .ok (rest, d') ∧
        values = d.run.valueAt d.bitWidth 0 :: rest := by
  rw [nexts]
  constructor
  · intro h
    obtain ⟨⟨value, e⟩, hvalue, h⟩ := Result.bind_eq_ok.1 h
    obtain ⟨hfits, rfl, rfl⟩ := (next_eq_ok hs hloaded hleft).1 hvalue
    obtain ⟨⟨rest, e⟩, hrest, h⟩ := Result.bind_eq_ok.1 h
    cases h
    exact ⟨hfits, rest, hrest, rfl⟩
  · rintro ⟨hfits, rest, hrest, rfl⟩
    rw [(next_eq_ok hs hloaded hleft).2 ⟨hfits, rfl, rfl⟩, Result.ok_bind]
    dsimp only
    rw [hrest]
    rfl

/-- The values of a run are those of repeated `next`, as long as their bits can be counted. -/
theorem nexts_eq_ok (hs : d.run.Sound d.bitWidth) (hpos : 0 < k) (hk : k ≤ d.run.remaining)
    (hleft : k ≤ d.valuesLeft) :
    d.nexts k = .ok (values, d') ↔
      d.run.Fits d.bitWidth k ∧ values = (List.range k).map (d.run.valueAt d.bitWidth) ∧
        d' = d.advance k := by
  induction k generalizing d values with
  | zero => exact absurd hpos (lt_irrefl 0)
  | succ k ih =>
    have hloaded := HybridRleRun.ne_empty (Nat.lt_of_lt_of_le hpos hk)
    have hvalues : (List.range (k + 1)).map (d.run.valueAt d.bitWidth) =
        d.run.valueAt d.bitWidth 0 :: (List.range k).map fun i =>
          d.run.valueAt d.bitWidth (1 + i) := by
      rw [List.range_succ_eq_map, List.map_cons, List.map_map]
      refine congrArg _ (List.map_congr_left fun i _ => ?_)
      rw [Function.comp_apply, Nat.succ_eq_one_add]
    rw [nexts_succ_eq_ok hs hloaded (by omega), hvalues]
    rcases Nat.eq_zero_or_pos k with rfl | hk'
    · constructor
      · rintro ⟨hfits, rest, hrest, rfl⟩
        cases hrest
        exact ⟨hfits, rfl, rfl⟩
      · rintro ⟨hfits, rfl, rfl⟩
        exact ⟨hfits, [], rfl, rfl⟩
    · have hrun : (d.advance 1).run = d.run.advance d.bitWidth 1 := run_advance (by omega)
      have hrest : ∀ rest, (d.advance 1).nexts k = .ok (rest, d') ↔
          d.run.Fits d.bitWidth (1 + k) ∧
            rest = ((List.range k).map fun i => d.run.valueAt d.bitWidth (1 + i)) ∧
              d' = d.advance (1 + k) := fun rest => by
        have hsound : (d.advance 1).run.Sound (d.advance 1).bitWidth := hs.settled_advance
        rw [ih hsound hk' (by rw [hrun, HybridRleRun.remaining_advance]; omega)
          (Nat.le_sub_of_add_le hleft), hrun, advance_advance (by omega)]
        have hvalueAt : (d.run.advance d.bitWidth 1).valueAt (d.advance 1).bitWidth =
            fun i => d.run.valueAt d.bitWidth (1 + i) :=
          funext fun i => HybridRleRun.valueAt_advance i
        rw [hvalueAt]
        exact and_congr_left' HybridRleRun.fits_advance
      rw [Nat.add_comm k 1]
      constructor
      · rintro ⟨-, rest, h, rfl⟩
        obtain ⟨hfits, rfl, rfl⟩ := (hrest rest).1 h
        exact ⟨hfits, rfl, rfl⟩
      · rintro ⟨hfits, rfl, rfl⟩
        exact ⟨hfits.mono (by omega), _, (hrest _).2 ⟨hfits, rfl, rfl⟩, rfl⟩

theorem nexts_of_empty (hleft : d.valuesLeft = 0) (k : ℕ) : d.nexts k = .ok ([], d) := by
  cases k with
  | zero => rfl
  | succ k =>
    rw [nexts, next, consumeRun, if_pos (.inr hleft)]
    rfl

/-- The values of `next` go on where others ended. -/
theorem nexts_add {j : ℕ} (h : d.nexts j = .ok (values, d')) (hlength : values.length = j) :
    d.nexts (j + k) = (d'.nexts k).map fun r => (values ++ r.1, r.2) := by
  induction j generalizing d values with
  | zero =>
    cases h
    rw [Nat.zero_add]
    cases hk : d'.nexts k <;> rfl
  | succ j ih =>
    rw [Nat.succ_add, nexts]
    rw [nexts] at h
    obtain ⟨⟨value, e⟩, hvalue, h⟩ := Result.bind_eq_ok.1 h
    rw [hvalue, Result.ok_bind]
    cases value with
    | none =>
      cases h
      cases hlength
    | some value =>
      obtain ⟨⟨rest, e'⟩, hrest, h⟩ := Result.bind_eq_ok.1 h
      cases h
      dsimp only
      rw [ih hrest (Nat.succ.inj hlength)]
      cases hk : d'.nexts k <;> rfl

/-- Fewer values are given, where more are. -/
theorem nexts_of_le {j : ℕ} (hle : j ≤ k) {r : List ℕ × HybridRleDecoder} (h : d.nexts k = .ok r) :
    ∃ r', d.nexts j = .ok r' := by
  induction j generalizing d k r with
  | zero => exact ⟨_, rfl⟩
  | succ j ih =>
    obtain ⟨k, rfl⟩ := Nat.exists_eq_add_of_lt (Nat.lt_of_lt_of_le (Nat.succ_pos j) hle)
    rw [Nat.zero_add, nexts] at h
    obtain ⟨⟨value, e⟩, hvalue, h⟩ := Result.bind_eq_ok.1 h
    rw [nexts, hvalue, Result.ok_bind]
    cases value with
    | none => exact ⟨_, rfl⟩
    | some value =>
      obtain ⟨r', hrest, -⟩ := Result.bind_eq_ok.1 h
      obtain ⟨⟨rest, e'⟩, hfewer⟩ := ih (by omega) hrest
      dsimp only
      rw [hfewer]
      exact ⟨_, rfl⟩

/-- The second decoder has read the header of the next run, or is the first one. -/
def Reads (d d' : HybridRleDecoder) : Prop := d' = d ∨ (0 < d.valuesLeft ∧ d.ensureRun = .ok d')

theorem Reads.valuesLeft (h : d.Reads d') (hs : d.run.Sound d.bitWidth) :
    d'.valuesLeft = d.valuesLeft := by
  rcases h with rfl | ⟨-, hread⟩
  · rfl
  · exact (ensureRun_eq_ok hs hread).2.2.1

theorem consumeRun_of_ensureRun (hs : d.run.Sound d.bitWidth) (h : d.ensureRun = .ok d')
    (hk : 0 < k) (hleft : 0 < d.valuesLeft) : d.consumeRun k = d'.consumeRun k := by
  obtain ⟨-, hloaded, hleft', -⟩ := ensureRun_eq_ok hs h
  rw [consumeRun, consumeRun, if_neg (by omega), if_neg (by omega), h,
    ensureRun_of_loaded hloaded]

/-- The header of a run is read without an effect on the values. -/
theorem Reads.nexts (h : d.Reads d') (hs : d.run.Sound d.bitWidth) (hk : 0 < k) :
    d.nexts k = d'.nexts k := by
  rcases h with rfl | ⟨hleft, hread⟩
  · rfl
  · obtain ⟨k, rfl⟩ := Nat.exists_eq_add_of_lt hk
    rw [Nat.zero_add, HybridRleDecoder.nexts, HybridRleDecoder.nexts, next, next,
      consumeRun_of_ensureRun hs hread Nat.one_pos hleft]

/-! ## The calls -/

theorem consumeRun_eq_ok (hs : d.run.Sound d.bitWidth) {value count : ℕ}
    (h : d.consumeRun k = .ok (some (value, count), d')) :
    0 < count ∧ count ≤ k ∧ d.nexts count = .ok (List.replicate count value, d') ∧
      d'.run.Sound d'.bitWidth := by
  rw [consumeRun] at h
  split_ifs at h with hnone
  · cases h
  rw [not_or] at hnone
  obtain ⟨e, hread, h⟩ := Result.bind_eq_ok.1 h
  obtain ⟨⟨first, consumed⟩, hsame, h⟩ := Result.bind_eq_ok.1 h
  obtain ⟨e', htake, h⟩ := Result.bind_eq_ok.1 h
  cases h
  obtain ⟨hs', hloaded, hleft, -⟩ := ensureRun_eq_ok hs hread
  obtain ⟨hpos, hle, hremaining, hleft', hvalues⟩ :=
    sameRun_eq_ok hs' (Nat.pos_of_ne_zero hnone.1) (hleft ▸ Nat.pos_of_ne_zero hnone.2) hsame
  obtain ⟨hfits, rfl⟩ := (takeRun_eq_ok hloaded).1 htake
  refine ⟨hpos, hle, ?_, hs'.settled_advance⟩
  rw [Reads.nexts (.inr ⟨Nat.pos_of_ne_zero hnone.2, hread⟩) hs hpos]
  refine (nexts_eq_ok hs' hpos hremaining hleft').2 ⟨hfits, ?_, rfl⟩
  refine (List.eq_replicate_iff.2 ⟨by rw [List.length_map, List.length_range], fun v hv => ?_⟩).symm
  obtain ⟨i, hi, rfl⟩ := List.mem_map.1 hv
  exact hvalues i (List.mem_range.1 hi)

/-- A look at the next value reads the header of its run at most. -/
theorem peek_eq_ok (hs : d.run.Sound d.bitWidth) {value : Option ℕ} (h : d.peek = .ok (value, d')) :
    d.Reads d' ∧ d'.run.Sound d'.bitWidth ∧
      (d.valuesLeft = 0 ∧ value = none ∧ d' = d ∨
        0 < d.valuesLeft ∧ d.ensureRun = .ok d' ∧ value = some (d'.run.valueAt d'.bitWidth 0)) := by
  rw [peek] at h
  split_ifs at h with hnone
  · cases h
    exact ⟨.inl rfl, hs, .inl ⟨hnone, rfl, rfl⟩⟩
  · have hleft := Nat.pos_of_ne_zero hnone
    obtain ⟨e, hread, h⟩ := Result.bind_eq_ok.1 h
    obtain ⟨hs', hloaded, -, -⟩ := ensureRun_eq_ok hs hread
    have hvalue : value = some (e.run.valueAt e.bitWidth 0) ∧ d' = e := by
      unfold HybridRleRun.valueAt
      cases hrun : e.run with
      | empty => exact absurd hrun hloaded
      | repeated value remaining =>
        rw [hrun] at h
        cases h
        exact ⟨rfl, rfl⟩
      | bitPacked bytes bitOffset remaining =>
        rw [hrun] at h hs'
        obtain ⟨first, hfirst, h⟩ := Result.bind_eq_ok.1 h
        cases h
        have hmul : 1 * d'.bitWidth ≤ remaining * d'.bitWidth := Nat.mul_le_mul_right _ hs'.1
        have htotal := hs'.2
        rw [readPackedU32_eq_ok (by omega)] at hfirst
        rw [hfirst.2]
        simp
    obtain ⟨rfl, rfl⟩ := hvalue
    exact ⟨.inr ⟨hleft, hread⟩, hs', .inr ⟨hleft, hread, rfl⟩⟩

/-- What `skipRepeated` passes over are values that `next` gives, and the next one is another. -/
theorem skipRepeatedRounds_eq_ok {expected maxCount fuel skipped count : ℕ}
    (hs : d.run.Sound d.bitWidth) (hle : skipped ≤ maxCount) (hfuel : maxCount - skipped ≤ fuel)
    (h : skipRepeatedRounds expected maxCount fuel d skipped = .ok (count, d')) :
    skipped ≤ count ∧ count ≤ maxCount ∧ d'.run.Sound d'.bitWidth ∧
      ∃ e, d.nexts (count - skipped) = .ok (List.replicate (count - skipped) expected, e) ∧
        e.Reads d' ∧ e.run.Sound e.bitWidth ∧
          (count < maxCount → ∀ e', e.nexts 1 ≠ .ok ([expected], e')) := by
  induction fuel generalizing d skipped with
  | zero =>
    cases h
    refine ⟨le_rfl, hle, hs, d', ?_, .inl rfl, hs, fun hlt => by omega⟩
    rw [Nat.sub_self]
    rfl
  | succ fuel ih =>
    rw [skipRepeatedRounds] at h
    split_ifs at h with hmore
    · obtain ⟨⟨value, e⟩, hpeek, h⟩ := Result.bind_eq_ok.1 h
      obtain ⟨hreads, hs', hvalue⟩ := peek_eq_ok hs hpeek
      dsimp only at h
      split_ifs at h with hother
      · cases h
        refine ⟨le_rfl, hle, hs', d, ?_, hreads, hs, fun _ e' hnext => ?_⟩
        · rw [Nat.sub_self]
          rfl
        rcases hvalue with ⟨hleft, -, -⟩ | ⟨hleft, hread, rfl⟩
        · rw [nexts_of_empty hleft] at hnext
          cases hnext
        · obtain ⟨-, hloaded, hleft', -⟩ := ensureRun_eq_ok hs hread
          rw [hreads.nexts hs Nat.one_pos, nexts_succ_eq_ok hs' hloaded (by omega)] at hnext
          obtain ⟨-, rest, -, heq⟩ := hnext
          rw [(List.cons.inj heq).1] at hother
          exact hother rfl
      · rw [not_not] at hother
        obtain ⟨⟨run, e'⟩, hconsume, h⟩ := Result.bind_eq_ok.1 h
        cases run with
        | none => cases h
        | some run =>
          obtain ⟨value', consumed⟩ := run
          obtain ⟨hpos, hconsumed, hnexts, hs''⟩ := consumeRun_eq_ok hs' hconsume
          obtain ⟨hskipped, hcount, hfinal, e'', hrest, htail⟩ := ih hs'' (by omega) (by omega) h
          -- The values of the run are those that were looked at.
          have hvalue' : value' = expected := by
            rcases hvalue with ⟨-, hnone, -⟩ | ⟨hpos', hread, hsome⟩
            · rw [hnone] at hother
              cases hother
            · obtain ⟨-, hloaded, hleft, -⟩ := ensureRun_eq_ok hs hread
              obtain ⟨consumed, rfl⟩ := Nat.exists_eq_add_of_lt hpos
              rw [Nat.zero_add, nexts_succ_eq_ok hs' hloaded (by omega)] at hnexts
              obtain ⟨-, rest, -, heq⟩ := hnexts
              rw [hsome, ← (List.cons.inj heq).1] at hother
              exact Option.some.inj hother
          subst hvalue'
          refine ⟨by omega, hcount, hfinal, e'', ?_, htail⟩
          have hsum : count - skipped = consumed + (count - (skipped + consumed)) := by omega
          rw [hsum, hreads.nexts hs (by omega),
            nexts_add hnexts (List.length_replicate ..), hrest, List.replicate_add]
          rfl
    · cases h
      refine ⟨le_rfl, hle, hs, d', ?_, .inl rfl, hs, fun hlt => absurd hlt hmore⟩
      rw [Nat.sub_self]
      rfl

/-- The bits of the values that `skip` passes over can be counted in every run. -/
def SkipCounted : ℕ → HybridRleDecoder → ℕ → Prop
  | 0, _, _ => True
  | fuel + 1, d, count => 0 < count → 0 < d.valuesLeft → ∀ e, d.ensureRun = .ok e →
    e.run.Fits e.bitWidth (min (min count e.run.remaining) e.valuesLeft) ∧
      SkipCounted fuel (e.advance (min (min count e.run.remaining) e.valuesLeft))
        (count - min (min count e.run.remaining) e.valuesLeft)

theorem skipRounds_le {fuel count left : ℕ} (h : skipRounds fuel d count = .ok (left, d')) :
    left ≤ count := by
  induction fuel generalizing d count with
  | zero =>
    cases h
    exact le_rfl
  | succ fuel ih =>
    rw [skipRounds] at h
    split_ifs at h
    · obtain ⟨e, -, h⟩ := Result.bind_eq_ok.1 h
      obtain ⟨e', -, h⟩ := Result.bind_eq_ok.1 h
      exact (ih h).trans (Nat.sub_le _ _)
    · cases h
      exact le_rfl

/-- With bits that can be counted, a saturated product is the product. -/
theorem takeRun_of_fits (hloaded : d.run ≠ .empty) (hfits : d.run.Fits d.bitWidth k) :
    d.takeRun k (.ok (min (k * d.bitWidth) usizeMax)) = .ok (d.advance k) := by
  have hchecked := (takeRun_eq_ok hloaded).2 ⟨hfits, rfl⟩
  unfold takeRun at hchecked ⊢
  cases hrun : d.run with
  | empty => exact absurd hrun hloaded
  | repeated value remaining =>
    rw [hrun] at hchecked
    exact hchecked
  | bitPacked bytes bitOffset remaining =>
    rw [hrun] at hfits hchecked
    have hle : bitOffset + k * d.bitWidth ≤ usizeMax := hfits
    rw [Nat.min_eq_left (by omega)]
    have hbits : checkedLength k d.bitWidth "Parquet bit offset overflows" = .ok (k * d.bitWidth) :=
      checkedLength_eq_ok.2 ⟨by omega, rfl⟩
    rw [hbits] at hchecked
    exact hchecked

/-- What `skip` passes over are values that `next` gives, if their bits can be counted. -/
theorem skipRounds_eq_ok {fuel count left : ℕ} (hs : d.run.Sound d.bitWidth) (hfuel : count ≤ fuel)
    (h : skipRounds fuel d count = .ok (left, d')) :
    (SkipCounted fuel d count → (left = 0 ∨ d'.valuesLeft = 0) ∧ d'.run.Sound d'.bitWidth ∧
      ∃ values, d.nexts (count - left) = .ok (values, d') ∧ values.length = count - left) ∧
    (¬SkipCounted fuel d count → ∀ r, d.nexts (count - left) ≠ .ok r) := by
  induction fuel generalizing d count with
  | zero =>
    cases h
    refine ⟨fun _ => ⟨.inl (Nat.le_zero.1 hfuel), hs, [], ?_, ?_⟩, fun hnot => absurd trivial hnot⟩
    · rw [Nat.sub_self]
      rfl
    · rw [Nat.sub_self]
      rfl
  | succ fuel ih =>
    rw [skipRounds] at h
    split_ifs at h with hmore
    · obtain ⟨hcount, hleft⟩ := hmore
      obtain ⟨e, hread, h⟩ := Result.bind_eq_ok.1 h
      obtain ⟨e', htake, h⟩ := Result.bind_eq_ok.1 h
      obtain ⟨hs', hloaded, hleft', -⟩ := ensureRun_eq_ok hs hread
      have hremaining := HybridRleRun.pos_remaining hs' hloaded
      have hcounted : SkipCounted (fuel + 1) d count ↔
          e.run.Fits e.bitWidth (min (min count e.run.remaining) e.valuesLeft) ∧
            SkipCounted fuel (e.advance (min (min count e.run.remaining) e.valuesLeft))
              (count - min (min count e.run.remaining) e.valuesLeft) := by
        constructor
        · exact fun hall => hall hcount hleft e hread
        · rintro hall - - e' hread'
          rw [hread] at hread'
          cases hread'
          exact hall
      have hle := skipRounds_le h
      have hnexts := @nexts_eq_ok e
      generalize hskipped : min (min count e.run.remaining) e.valuesLeft = skipped at *
      have hreads : d.nexts skipped = e.nexts skipped :=
        Reads.nexts (.inr ⟨hleft, hread⟩) hs (by omega)
      by_cases hfits : e.run.Fits e.bitWidth skipped
      · rw [takeRun_of_fits hloaded hfits] at htake
        cases htake
        have hfirst : d.nexts skipped = .ok (_, e.advance skipped) :=
          hreads.trans ((hnexts hs' (by omega) (by omega) (by omega)).2 ⟨hfits, rfl, rfl⟩)
        have hsum : count - left = skipped + (count - skipped - left) := by omega
        obtain ⟨hyes, hno⟩ := ih hs'.settled_advance (by omega) h
        have hall := nexts_add (k := count - skipped - left) hfirst
          (by rw [List.length_map, List.length_range])
        rw [← hsum] at hall
        rw [hcounted, and_iff_right hfits]
        refine ⟨fun hcounted => ?_, fun hnot r hr => ?_⟩
        · obtain ⟨hdone, hsound, values, hvalues, hlength⟩ := hyes hcounted
          rw [hvalues] at hall
          refine ⟨hdone, hsound, _, hall, ?_⟩
          rw [List.length_append, List.length_map, List.length_range, hlength, hsum]
        · rw [hall, Result.map_eq_ok] at hr
          obtain ⟨r', hr', -⟩ := hr
          exact hno hnot r' hr'
      · refine ⟨fun hcounted' => absurd (hcounted.1 hcounted').1 hfits, fun _ r hr => ?_⟩
        obtain ⟨⟨values, e''⟩, hfewer⟩ := nexts_of_le (by omega : skipped ≤ count - left) hr
        rw [hreads, hnexts hs' (by omega) (by omega) (by omega)] at hfewer
        exact hfits hfewer.1
    · cases h
      rw [Nat.sub_self]
      refine ⟨fun _ => ⟨by omega, hs, [], rfl, rfl⟩, fun hnot =>
        absurd (fun hcount hleft => ?_) hnot⟩
      exact absurd ⟨hcount, hleft⟩ hmore

end HybridRleDecoder

end Tabulark.Parquet
