import Mathlib
import Tabulark.Parquet.HybridRleRuns

/-!
# What a decoder reads of a stream

`next` gives the encoded values, and every mixture of calls gives what repeated
`next` would give, but for runs whose bits cannot be counted in a `usize`: `next`
fails at the end of these, where `skip` goes on with a wrong offset.
-/

namespace Tabulark.Parquet

open BitPacking

namespace HybridRleDecoder

/-- A call of a decoder. -/
inductive Call
  | next
  | peek
  | consumeRun (maxCount : ℕ)
  | skip (count : ℕ)
  | skipRepeated (expected maxCount : ℕ)
  deriving DecidableEq, Repr

/-- What a call answers. -/
inductive Answer
  | value (value : Option ℕ)
  | run (run : Option (ℕ × ℕ))
  | count (count : ℕ)
  deriving DecidableEq, Repr

def call (d : HybridRleDecoder) : Call → ParquetResult (Answer × HybridRleDecoder)
  | .next => d.next.map fun r => (.value r.1, r.2)
  | .peek => d.peek.map fun r => (.value r.1, r.2)
  | .consumeRun maxCount => (d.consumeRun maxCount).map fun r => (.run r.1, r.2)
  | .skip count => (d.skip count).map fun r => (.count r.1, r.2)
  | .skipRepeated expected maxCount =>
    (d.skipRepeated expected maxCount).map fun r => (.count r.1, r.2)

/-- Calls one after the other. -/
def calls (d : HybridRleDecoder) : List Call → ParquetResult (List Answer × HybridRleDecoder)
  | [] => .ok ([], d)
  | c :: cs => do
    let (answer, d) ← d.call c
    let (answers, d) ← d.calls cs
    .ok (answer :: answers, d)

/-- The number of values that a call takes. -/
def taken : Call → Answer → ℕ
  | .next, .value value => value.toList.length
  | .consumeRun _, .run run => (run.map Prod.snd).getD 0
  | .skip _, .count count => count
  | .skipRepeated _ _, .count count => count
  | _, _ => 0

/-- The answer of a call at `d` is that of the values which `next` gives, up to `d'`. -/
def Agrees (d d' : HybridRleDecoder) (values : List ℕ) : Call → Answer → Prop
  | .next, .value value => values = value.toList ∧ ∃ e, d.nexts 1 = .ok (value.toList, e)
  | .peek, .value value => ∃ e, d.nexts 1 = .ok (value.toList, e)
  | .consumeRun maxCount, .run none => maxCount = 0 ∨ d.valuesLeft = 0
  | .consumeRun maxCount, .run (some (value, count)) =>
    0 < count ∧ count ≤ maxCount ∧ values = List.replicate count value
  | .skip count, .count skipped => skipped = count ∨ (skipped < count ∧ d'.valuesLeft = 0)
  | .skipRepeated expected maxCount, .count skipped =>
    skipped ≤ maxCount ∧ values = List.replicate skipped expected ∧
      (skipped < maxCount → ∀ e, d'.nexts 1 ≠ .ok ([expected], e))
  | _, _ => False

/-- Repeated `next` gives the same values. -/
def SameValues (d d' : HybridRleDecoder) : Prop :=
  ∀ k, (d.nexts k).map Prod.fst = (d'.nexts k).map Prod.fst

/-- The answers of calls are those of the values that repeated `next` gives from `d` on, and the
    values after them are those of `d'`. -/
def Produces (d' : HybridRleDecoder) : HybridRleDecoder → List Call → List Answer → Prop
  | d, [], [] => SameValues d d'
  | d, c :: cs, answer :: answers => ∃ values e,
    d.nexts (taken c answer) = .ok (values, e) ∧ values.length = taken c answer ∧
      Agrees d e values c answer ∧ Produces d' e cs answers
  | _, _, _ => False

/-- The bits of the values that a call passes over or looks at can be counted: in a bit-packed run
    the last one of them ends at a bit offset that is a `usize`. -/
def Counted (d : HybridRleDecoder) : Call → Prop
  | .peek => 0 < d.valuesLeft → ∀ e, d.ensureRun = .ok e → e.run.Fits e.bitWidth 1
  | .skip count => SkipCounted count d count
  | _ => True

/-- All calls of a run are counted, each at the state before it. -/
def AllCounted : HybridRleDecoder → List Call → Prop
  | _, [] => True
  | d, c :: cs => d.Counted c ∧ ∀ r, d.call c = .ok r → AllCounted r.2 cs

variable {d d' e e' : HybridRleDecoder} {c : Call} {answer : Answer}

theorem consumeRun_eq_none {k : ℕ} (h : d.consumeRun k = .ok (none, d')) :
    (k = 0 ∨ d.valuesLeft = 0) ∧ d' = d := by
  rw [consumeRun] at h
  split_ifs at h with hnone
  · cases h
    exact ⟨hnone, rfl⟩
  · obtain ⟨e, -, h⟩ := Result.bind_eq_ok.1 h
    obtain ⟨⟨value, count⟩, -, h⟩ := Result.bind_eq_ok.1 h
    obtain ⟨e', -, h⟩ := Result.bind_eq_ok.1 h
    cases h

/-- A call gives what repeated `next` gives if its bits can be counted, and only then. -/
theorem call_eq_ok (hs : d.run.Sound d.bitWidth) (h : d.call c = .ok (answer, d')) :
    (d.Counted c → d'.run.Sound d'.bitWidth ∧ ∃ values e, e.Reads d' ∧ e.run.Sound e.bitWidth ∧
      d.nexts (taken c answer) = .ok (values, e) ∧ values.length = taken c answer ∧
        Agrees d e values c answer) ∧
    (¬d.Counted c → ∀ values e, d.nexts (taken c answer) = .ok (values, e) →
      ¬Agrees d e values c answer) := by
  cases c with
  | next =>
    refine ⟨fun _ => ?_, fun hnot => absurd trivial hnot⟩
    obtain ⟨⟨value, e⟩, hnext, heq⟩ := Result.map_eq_ok.1 h
    cases heq
    obtain ⟨⟨run, e⟩, hrun, heq⟩ := Result.bind_eq_ok.1 hnext
    cases heq
    cases run with
    | none =>
      obtain ⟨hleft, rfl⟩ := consumeRun_eq_none hrun
      exact ⟨hs, [], _, .inl rfl, hs, rfl, rfl, rfl, _, nexts_of_empty (hleft.resolve_left nofun) 1⟩
    | some run =>
      obtain ⟨value, count⟩ := run
      obtain ⟨hpos, hle, hnexts, hs'⟩ := consumeRun_eq_ok hs hrun
      obtain rfl : count = 1 := by omega
      exact ⟨hs', [value], _, .inl rfl, hs', hnexts, rfl, rfl, _, hnexts⟩
  | peek =>
    obtain ⟨⟨value, e⟩, hpeek, heq⟩ := Result.map_eq_ok.1 h
    cases heq
    obtain ⟨hreads, hs', hvalue⟩ := peek_eq_ok hs hpeek
    rcases hvalue with ⟨hleft, rfl, -⟩ | ⟨hleft, hread, rfl⟩
    · exact ⟨fun _ => ⟨hs', [], d, hreads, hs, rfl, rfl, d, nexts_of_empty hleft 1⟩,
        fun hnot => absurd (fun hpos => absurd hleft (Nat.pos_iff_ne_zero.1 hpos)) hnot⟩
    · obtain ⟨-, hloaded, hleft', -⟩ := ensureRun_eq_ok hs hread
      have hremaining := HybridRleRun.pos_remaining hs' hloaded
      have hnexts := hreads.nexts hs Nat.one_pos
      refine ⟨fun hcounted => ⟨hs', [], d, hreads, hs, rfl, rfl, e.advance 1, ?_⟩, fun hnot => ?_⟩
      · rw [hnexts, nexts_eq_ok hs' Nat.one_pos hremaining (by omega)]
        exact ⟨hcounted hleft e hread, rfl, rfl⟩
      · rintro values e' - ⟨e'', hone⟩
        rw [hnexts, nexts_eq_ok hs' Nat.one_pos hremaining (by omega)] at hone
        refine hnot fun _ e₁ hread' => ?_
        rw [hread] at hread'
        cases hread'
        exact hone.1
  | consumeRun maxCount =>
    refine ⟨fun _ => ?_, fun hnot => absurd trivial hnot⟩
    obtain ⟨⟨run, e⟩, hrun, heq⟩ := Result.map_eq_ok.1 h
    cases heq
    cases run with
    | none =>
      obtain ⟨hnone, rfl⟩ := consumeRun_eq_none hrun
      exact ⟨hs, [], _, .inl rfl, hs, rfl, rfl, hnone⟩
    | some run =>
      obtain ⟨value, count⟩ := run
      obtain ⟨hpos, hle, hnexts, hs'⟩ := consumeRun_eq_ok hs hrun
      exact ⟨hs', _, _, .inl rfl, hs', hnexts, List.length_replicate .., hpos, hle, rfl⟩
  | skip count =>
    obtain ⟨⟨skipped, e⟩, hskip, heq⟩ := Result.map_eq_ok.1 h
    cases heq
    obtain ⟨⟨left, e⟩, hrounds, heq⟩ := Result.bind_eq_ok.1 hskip
    cases heq
    obtain ⟨hyes, hno⟩ := skipRounds_eq_ok hs le_rfl hrounds
    have hle := skipRounds_le hrounds
    refine ⟨fun hcounted => ?_, fun hnot values e hvalues => absurd hvalues (hno hnot _)⟩
    obtain ⟨hdone, hs', values, hvalues, hlength⟩ := hyes hcounted
    refine ⟨hs', values, _, .inl rfl, hs', hvalues, hlength, ?_⟩
    rcases Nat.eq_zero_or_pos left with rfl | hpos
    · exact .inl rfl
    · exact .inr ⟨by omega, hdone.resolve_left (Nat.pos_iff_ne_zero.1 hpos)⟩
  | skipRepeated expected maxCount =>
    refine ⟨fun _ => ?_, fun hnot => absurd trivial hnot⟩
    obtain ⟨⟨skipped, e⟩, hskip, heq⟩ := Result.map_eq_ok.1 h
    cases heq
    obtain ⟨-, hle, hs', e, hvalues, hreads, hs'', hmaximal⟩ :=
      skipRepeatedRounds_eq_ok hs (Nat.zero_le _) (Nat.sub_le _ _) hskip
    exact ⟨hs', _, e, hreads, hs'', hvalues, List.length_replicate .., hle, rfl, hmaximal⟩

/-- Decoders of which one has read a header have the same values left. -/
def Alike (d d' : HybridRleDecoder) : Prop := d.valuesLeft = d'.valuesLeft ∧ d.nexts 1 = d'.nexts 1

theorem Alike.agrees {values : List ℕ} (hd : d.Alike d') (he : e.Alike e')
    (h : Agrees d e values c answer) : Agrees d' e' values c answer := by
  cases c <;> cases answer <;> try exact h
  case next.value value => exact ⟨h.1, hd.2 ▸ h.2⟩
  case peek.value value =>
    have hpeek : ∃ e, d.nexts 1 = .ok (value.toList, e) := h
    rw [hd.2] at hpeek
    exact hpeek
  case consumeRun.run maxCount run =>
    cases run with
    | none =>
      have hnone : maxCount = 0 ∨ d.valuesLeft = 0 := h
      rw [hd.1] at hnone
      exact hnone
    | some run => exact h
  case skip.count count skipped =>
    have hskip : skipped = count ∨ (skipped < count ∧ e.valuesLeft = 0) := h
    rw [he.1] at hskip
    exact hskip
  case skipRepeated.count expected maxCount skipped =>
    obtain ⟨hle, hvalues, hmaximal⟩ := h
    rw [he.2] at hmaximal
    exact ⟨hle, hvalues, hmaximal⟩

theorem Reads.alike (h : d.Reads d') (hs : d.run.Sound d.bitWidth) : d.Alike d' :=
  ⟨(h.valuesLeft hs).symm, h.nexts hs Nat.one_pos⟩

theorem Reads.trans {d'' : HybridRleDecoder} (h : d.Reads d') (h' : d'.Reads d'')
    (hs : d.run.Sound d.bitWidth) : d.Reads d'' := by
  rcases h with rfl | ⟨hleft, hread⟩
  · exact h'
  · rcases h' with rfl | ⟨-, hread'⟩
    · exact .inr ⟨hleft, hread⟩
    · rw [ensureRun_of_loaded (ensureRun_eq_ok hs hread).2.1] at hread'
      cases hread'
      exact .inr ⟨hleft, hread⟩

/-- Both decoders give the same values and have the same ones left after them. -/
theorem Reads.nexts_cases (h : d.Reads d') (hs : d.run.Sound d.bitWidth) (k : ℕ) :
    (d.nexts k = .ok ([], d) ∧ d'.nexts k = .ok ([], d')) ∨ d.nexts k = d'.nexts k := by
  cases k with
  | zero => exact .inl ⟨rfl, rfl⟩
  | succ k => exact .inr (h.nexts hs (Nat.succ_pos k))

/-- A run of calls gives what repeated `next` gives if the bits of all of them can be counted, and
    only then. -/
theorem calls_eq_ok {cs : List Call} {answers : List Answer} (h : d.Reads d')
    (hs : d.run.Sound d.bitWidth) (hs' : d'.run.Sound d'.bitWidth)
    (hcalls : d'.calls cs = .ok (answers, e')) :
    Produces e' d cs answers ↔ AllCounted d' cs := by
  induction cs generalizing d d' answers with
  | nil =>
    cases hcalls
    refine iff_of_true (fun k => ?_) trivial
    rcases h.nexts_cases hs k with ⟨hd, hd'⟩ | heq
    · rw [hd, hd']
      rfl
    · rw [heq]
  | cons c cs ih =>
    obtain ⟨⟨answer, d₁⟩, hcall, hcalls⟩ := Result.bind_eq_ok.1 hcalls
    obtain ⟨⟨rest, e₁⟩, hrest, hcalls⟩ := Result.bind_eq_ok.1 hcalls
    cases hcalls
    obtain ⟨hyes, hno⟩ := call_eq_ok hs' hcall
    have hall : AllCounted d' (c :: cs) ↔ d'.Counted c ∧ AllCounted d₁ cs := by
      refine and_congr_right fun _ => ⟨fun hr => hr _ hcall, fun hd₁ r hr => ?_⟩
      rw [hcall] at hr
      cases hr
      exact hd₁
    have halike := h.alike hs
    rw [hall]
    by_cases hcounted : d'.Counted c
    · obtain ⟨hsound, values, e, hreads, hse, hvalues, hlength, hagrees⟩ := hyes hcounted
      -- The decoder of `next` alone takes the same values.
      have hfirst : ∃ e₀, d.nexts (taken c answer) = .ok (values, e₀) ∧ e₀.Reads d₁ ∧
          e₀.run.Sound e₀.bitWidth ∧ e.Alike e₀ := by
        rcases h.nexts_cases hs (taken c answer) with ⟨hd, hd'⟩ | heq
        · rw [hd'] at hvalues
          cases hvalues
          exact ⟨d, hd, h.trans hreads hs, hs, halike.1.symm, halike.2.symm⟩
        · exact ⟨e, heq.trans hvalues, hreads, hse, rfl, rfl⟩
      obtain ⟨e₀, hd, hreads₀, hs₀, halike₀⟩ := hfirst
      rw [and_iff_right hcounted, ← ih hreads₀ hs₀ hsound hrest]
      constructor
      · rintro ⟨values', e', hd', -, -, hproduces⟩
        rw [hd] at hd'
        cases hd'
        exact hproduces
      · exact fun hproduces => ⟨values, e₀, hd, hlength,
          Alike.agrees ⟨halike.1.symm, halike.2.symm⟩ halike₀ hagrees, hproduces⟩
    · refine iff_of_false ?_ fun hboth => hcounted hboth.1
      rintro ⟨values, e₀, hd, -, hagrees, -⟩
      rcases h.nexts_cases hs (taken c answer) with ⟨hd₀, hd'⟩ | heq
      · rw [hd₀] at hd
        cases hd
        exact hno hcounted _ _ hd' (halike.agrees halike hagrees)
      · exact hno hcounted _ _ (heq ▸ hd) (halike.agrees ⟨rfl, rfl⟩ hagrees)

end HybridRleDecoder

/-! ## Encoded streams -/

/-- A run of a stream. -/
inductive EncodedRun
  | repeated (value count : ℕ)
  | packed (values : List ℕ)
  deriving DecidableEq, Repr

namespace EncodedRun

def values : EncodedRun → List ℕ
  | .repeated value count => List.replicate count value
  | .packed values => values

/-- The longest run of the format. -/
def maxLength : ℕ := 2 ^ 31 - 1

/-- The bytes of a run: a header with its length and kind, and the value in whole bytes or groups of
    eight values without gaps. -/
def Encodes (bitWidth : ℕ) : EncodedRun → List UInt8 → Prop
  | .repeated value count, bytes =>
    value < 2 ^ bitWidth ∧ 0 < count ∧ count ≤ maxLength ∧
      ∃ header, Varint.Encodes (2 * count) header ∧ header.length ≤ 10 ∧
        bytes = header ++ toBytes ((bitWidth + 7) / 8) value
  | .packed values, bytes =>
    (∀ value ∈ values, value < 2 ^ bitWidth) ∧ 0 < values.length ∧ values.length ≤ maxLength ∧
      ∃ groups header, values.length = groups * 8 ∧ Varint.Encodes (2 * groups + 1) header ∧
        header.length ≤ 10 ∧ bytes = header ++ toBytes (groups * bitWidth) (pack bitWidth values)

/-- The bits of the first `k` values can be counted. -/
def Fits (bitWidth k : ℕ) : EncodedRun → Prop
  | .repeated _ _ => True
  | .packed _ => k * bitWidth ≤ usizeMax

/-- The bits of the first `n` values can be counted in each run. -/
def Counted (bitWidth : ℕ) : ℕ → List EncodedRun → Prop
  | _, [] => True
  | n, run :: runs =>
    run.Fits bitWidth (min n run.values.length) ∧ Counted bitWidth (n - run.values.length) runs

end EncodedRun

/-- The bytes of runs one after the other. -/
inductive Encodes (bitWidth : ℕ) : List EncodedRun → List UInt8 → Prop
  | nil : Encodes bitWidth [] []
  | cons {run : EncodedRun} {runs : List EncodedRun} {first rest : List UInt8}
      (hfirst : run.Encodes bitWidth first) (hrest : Encodes bitWidth runs rest) :
    Encodes bitWidth (run :: runs) (first ++ rest)

theorem and_126_eq_zero {byte : UInt8} (h : byte.toNat ≤ 1) : byte.toNat &&& 0x7e = 0 := by
  rcases Nat.le_one_iff_eq_zero_or_eq_one.1 h with heq | heq <;> rw [heq] <;> rfl

/-- The digits of a number are read from its encoding. -/
theorem readDigits_of_encodes {n i value offset : ℕ} {bytes header rest : List UInt8}
    (h : Varint.Encodes n header) (hdrop : bytes.drop offset = header ++ rest)
    (hlength : i + header.length ≤ 10) (hvalue : value < 2 ^ (7 * i))
    (hbound : value + 2 ^ (7 * i) * n < 2 ^ 64) (hmax : bytes.length ≤ usizeMax) :
    readDigits bytes ((List.range' i (10 - i)).map (7 * ·)) value offset =
      .ok (value + 2 ^ (7 * i) * n, offset + header.length) := by
  induction h generalizing i value offset with
  | last byte h =>
    have hlt : offset < bytes.length := by
      have hpos := congrArg List.length hdrop
      rw [List.length_drop, List.length_append, List.length_singleton] at hpos
      omega
    have hbyte : bytes[offset]? = some byte := by
      rw [← Nat.add_zero offset, ← List.getElem?_drop, hdrop]
      rfl
    have hcount : 10 - i = (9 - i) + 1 := by
      rw [List.length_singleton] at hlength
      omega
    rw [hcount, List.range'_succ, List.map_cons, readDigits, hbyte]
    dsimp only
    rw [checkedOffset, if_pos (by omega), Result.ok_bind, if_neg, Varint.and_127,
      Nat.mod_eq_of_lt h, Varint.or_shiftLeft hvalue, if_pos ((Varint.and_128_eq_zero byte).2 h)]
    · rfl
    · rintro ⟨hshift, hbits⟩
      obtain rfl : i = 9 := by omega
      exact hbits (and_126_eq_zero (by omega))
  | more byte h hbytes ih =>
    rename_i n bytes'
    have hpos := hbytes.length_pos
    rw [List.length_cons] at hlength
    have hlt : offset < bytes.length := by
      have hlen := congrArg List.length hdrop
      rw [List.length_drop, List.length_append, List.length_cons] at hlen
      omega
    have hbyte : bytes[offset]? = some byte := by
      rw [← Nat.add_zero offset, ← List.getElem?_drop, hdrop]
      rfl
    have hnext : bytes.drop (offset + 1) = bytes' ++ rest := by
      rw [← List.drop_drop, hdrop]
      rfl
    obtain ⟨hmod, hnextLt, hsum⟩ := @Varint.add_digit _ _ _ n h byte.toNat_lt hvalue
    have hcount : 10 - i = (10 - (i + 1)) + 1 := by omega
    rw [hcount, List.range'_succ, List.map_cons, readDigits, hbyte]
    dsimp only
    rw [checkedOffset, if_pos (by omega), Result.ok_bind, if_neg (by omega), Varint.and_127, hmod,
      Varint.or_shiftLeft hvalue, if_neg (fun hlast => by
        rw [Varint.and_128_eq_zero] at hlast
        omega),
      ih hnext (by omega) (by omega) (by omega), hsum, List.length_cons, Nat.add_assoc,
      Nat.add_comm 1]

theorem readUnsignedVarint_of_encodes {n offset : ℕ} {bytes header rest : List UInt8}
    (h : Varint.Encodes n header) (hdrop : bytes.drop offset = header ++ rest)
    (hlength : header.length ≤ 10) (hn : n < 2 ^ 64) (hmax : bytes.length ≤ usizeMax) :
    readUnsignedVarint bytes offset = .ok (n, offset + header.length) := by
  have hread := readDigits_of_encodes (i := 0) h hdrop (by omega) Nat.zero_lt_one
    (by omega) hmax
  rw [Nat.mul_zero, Nat.pow_zero, Nat.one_mul, Nat.zero_add] at hread
  rw [readUnsignedVarint, List.range_eq_range']
  exact hread

namespace HybridRleDecoder

variable {d : HybridRleDecoder}

/-- What the decoder has after it has read the header of a run. -/
structure Starts (d e : HybridRleDecoder) (run : EncodedRun) (first : List UInt8) : Prop where
  read : d.ensureRun = .ok e
  remaining : e.run.remaining = run.values.length
  values : ∀ k, k ≤ run.values.length →
    (List.range k).map (e.run.valueAt e.bitWidth) = run.values.take k
  fits : ∀ k, e.run.Fits e.bitWidth k ↔ run.Fits d.bitWidth k
  bytes : e.bytes = d.bytes
  offset : e.offset = d.offset + first.length
  bitWidth : e.bitWidth = d.bitWidth
  valuesLeft : e.valuesLeft = d.valuesLeft
  takes : ∀ k, ∃ e', e.takeRun k (.ok (min (k * e.bitWidth) usizeMax)) = .ok e'

variable {run : EncodedRun}

theorem starts_run {first rest : List UInt8}
    (h : run.Encodes d.bitWidth first) (hempty : d.run = .empty)
    (hdrop : d.bytes.drop d.offset = first ++ rest) (hmax : d.bytes.length ≤ usizeMax) :
    ∃ e, Starts d e run first := by
  have htotal := congrArg List.length hdrop
  rw [List.length_drop, List.length_append] at htotal
  cases run with
  | repeated value count =>
    obtain ⟨hvalue, hpos, hcount, header, hheader, hlength, rfl⟩ := h
    rw [List.append_assoc] at hdrop
    have hread := readUnsignedVarint_of_encodes hheader hdrop hlength
      (by rw [EncodedRun.maxLength] at hcount; omega) hmax
    rw [List.length_append, length_toBytes] at htotal
    have hsome := hheader.length_pos
    have hencoded : (d.bytes.drop (d.offset + header.length)).take ((d.bitWidth + 7) / 8) =
        toBytes ((d.bitWidth + 7) / 8) value := by
      rw [← List.drop_drop, hdrop, List.drop_left,
        List.take_left' (length_toBytes _ _)]
    -- An even header is a repeated value, an odd one is bit-packed.
    have hbits : (2 * count) &&& 1 = 0 := by rw [Nat.and_one_is_mod, Nat.mul_mod_right]
    have hhalf : (2 * count) >>> 1 = count := by
      rw [Nat.shiftRight_eq_div_pow, Nat.pow_one, Nat.mul_div_cancel_left _ (by decide)]
    have hfold := @foldl_toBytes ((d.bitWidth + 7) / 8) value
      (hvalue.trans_le (Nat.pow_le_pow_right (by decide) (by omega)))
    have hcountMax : count ≤ usizeMax := by
      rw [EncodedRun.maxLength] at hcount
      rw [usizeMax]
      omega
    refine ⟨{ d with
      offset := d.offset + header.length + (d.bitWidth + 7) / 8
      run := .repeated value count }, ?_, ?_, fun k hk => ?_, fun k => Iff.rfl, rfl, ?_, rfl, rfl,
      fun k => ⟨_, rfl⟩⟩
    · unfold ensureRun
      rw [hempty]
      dsimp only
      rw [hread, Result.ok_bind]
      dsimp only
      rw [if_neg (by omega), if_pos hbits, hhalf, usizeFrom, if_pos hcountMax, Result.ok_bind,
        checkedOffset, if_pos (by omega), Result.ok_bind, if_neg (by omega), hencoded, hfold]
    · rw [EncodedRun.values, List.length_replicate, HybridRleRun.remaining]
    · rw [EncodedRun.values, List.length_replicate] at hk
      rw [EncodedRun.values, List.take_replicate, Nat.min_eq_left hk]
      refine List.eq_replicate_iff.2 ⟨by rw [List.length_map, List.length_range], fun v hv => ?_⟩
      obtain ⟨i, -, rfl⟩ := List.mem_map.1 hv
      rfl
    · rw [List.length_append, length_toBytes]
      exact Nat.add_assoc _ _ _
  | packed values =>
    obtain ⟨hvalues, hpos, hcount, groups, header, hgroups, hheader, hlength, rfl⟩ := h
    rw [List.append_assoc] at hdrop
    rw [EncodedRun.maxLength] at hcount
    have hread := readUnsignedVarint_of_encodes hheader hdrop hlength (by omega) hmax
    rw [List.length_append, length_toBytes] at htotal
    have hsome := hheader.length_pos
    have hencoded : (d.bytes.drop (d.offset + header.length)).take (groups * d.bitWidth) =
        toBytes (groups * d.bitWidth) (pack d.bitWidth values) := by
      rw [← List.drop_drop, hdrop, List.drop_left, List.take_left' (length_toBytes _ _)]
    have hbits : ¬(2 * groups + 1) &&& 1 = 0 := by
      rw [Nat.and_one_is_mod]
      omega
    have hhalf : (2 * groups + 1) >>> 1 = groups := by
      rw [Nat.shiftRight_eq_div_pow]
      omega
    have hmaxLength : groups * 8 ≤ usizeMax := by
      rw [usizeMax]
      omega
    have hbound : values.length * d.bitWidth ≤ 8 * (groups * d.bitWidth) := by
      rw [hgroups, Nat.mul_right_comm, Nat.mul_comm]
    refine ⟨{ d with
      offset := d.offset + header.length + groups * d.bitWidth
      run := .bitPacked (toBytes (groups * d.bitWidth) (pack d.bitWidth values)) 0
        values.length }, ?_, rfl, fun k hk => ?_, fun k => ?_, rfl, ?_, rfl, rfl, fun k => ?_⟩
    · unfold ensureRun
      rw [hempty]
      dsimp only
      rw [hread, Result.ok_bind]
      dsimp only
      rw [if_neg (by omega), if_neg hbits, hhalf, usizeFrom, if_pos (by omega), Result.ok_bind,
        checkedLength, if_pos hmaxLength, Result.ok_bind, if_neg (by omega), checkedLength,
        if_pos (by omega), Result.ok_bind, checkedOffset, if_pos (by omega), Result.ok_bind,
        if_neg (by omega), hencoded, hgroups]
    · have hk' : k ≤ values.length := hk
      refine List.ext_getElem (by simp [EncodedRun.values, hk']) fun i hi _ => ?_
      rw [List.length_map, List.length_range] at hi
      rw [List.getElem_map, List.getElem_range, List.getElem_take, HybridRleRun.valueAt,
        Nat.zero_add]
      exact window_pack hvalues hbound (by omega)
    · rw [HybridRleRun.Fits, Nat.zero_add, EncodedRun.Fits]
    · rw [List.length_append, length_toBytes]
      exact Nat.add_assoc _ _ _
    · have hbits : checkedOffset 0 (min (k * d.bitWidth) usizeMax) "Parquet bit offset overflows" =
          .ok (0 + min (k * d.bitWidth) usizeMax) :=
        checkedOffset_eq_ok.2 ⟨by omega, rfl⟩
      unfold takeRun
      dsimp only
      rw [Result.ok_bind, hbits]
      exact ⟨_, rfl⟩

/-- The first values of a run are given if their bits can be counted. -/
theorem Starts.nexts {e d' : HybridRleDecoder} {first : List UInt8}
    (h : Starts d e run first) (hempty : d.run = .empty) {k : ℕ} (hk : k ≤ run.values.length)
    (hpos : 0 < k) (hleft : k ≤ d.valuesLeft) {values : List ℕ} :
    d.nexts k = .ok (values, d') ↔
      e.run.Fits e.bitWidth k ∧ values = run.values.take k ∧ d' = e.advance k := by
  have hs : d.run.Sound d.bitWidth := by
    rw [hempty]
    trivial
  have hs' := (ensureRun_eq_ok hs h.read).1
  rw [Reads.nexts (.inr ⟨by omega, h.read⟩) hs hpos,
    nexts_eq_ok hs' hpos (h.remaining ▸ hk) (h.valuesLeft ▸ hleft), h.values k hk]

/-- A `skip` of a run that was not read yet passes over all of it. -/
theorem Starts.skip {e : HybridRleDecoder} {first : List UInt8}
    (h : Starts d e run first) (hpos : 0 < run.values.length)
    (hleft : run.values.length ≤ d.valuesLeft) :
    ∃ e', d.skip run.values.length = .ok (run.values.length, e') := by
  obtain ⟨e', htake⟩ := h.takes run.values.length
  have hskipped : min (min run.values.length e.run.remaining) e.valuesLeft = run.values.length := by
    rw [h.remaining, h.valuesLeft, Nat.min_self, Nat.min_eq_left hleft]
  have hdone : ∀ fuel, skipRounds fuel e' 0 = .ok (0, e') := by
    rintro (_ | fuel)
    · rfl
    · rw [skipRounds, if_neg (by omega)]
  obtain ⟨fuel, hfuel⟩ := Nat.exists_eq_add_of_lt hpos
  refine ⟨e', ?_⟩
  have hrounds : skipRounds run.values.length d run.values.length = .ok (0, e') := by
    conv_lhs => rw [hfuel]
    rw [Nat.zero_add, skipRounds, ← Nat.zero_add fuel, ← hfuel, if_pos ⟨hpos, by omega⟩, h.read,
      Result.ok_bind]
    dsimp only
    rw [hskipped, htake, Result.ok_bind, Nat.sub_self]
    exact hdone _
  rw [HybridRleDecoder.skip, hrounds]
  rfl

theorem counted_zero (bitWidth : ℕ) (runs : List EncodedRun) :
    EncodedRun.Counted bitWidth 0 runs := by
  induction runs with
  | nil => trivial
  | cons run runs ih =>
    rw [EncodedRun.Counted, Nat.zero_sub, Nat.zero_min]
    refine ⟨?_, ih⟩
    cases run with
    | repeated value count => trivial
    | packed values => exact (Nat.zero_mul bitWidth).le.trans (Nat.zero_le _)

/-- The first values of a stream are given if the bits of each run can be counted, and only then. -/
theorem nexts_encoded {w n : ℕ} {runs : List EncodedRun} {stream rest : List UInt8}
    (h : Encodes w runs stream) (hw : d.bitWidth = w) (hempty : d.run = .empty)
    (hdrop : d.bytes.drop d.offset = stream ++ rest) (hmax : d.bytes.length ≤ usizeMax)
    (hn : n ≤ (runs.flatMap EncodedRun.values).length) (hleft : n ≤ d.valuesLeft) :
    (∃ e, d.nexts n = .ok ((runs.flatMap EncodedRun.values).take n, e)) ↔
      EncodedRun.Counted w n runs := by
  rcases Nat.eq_zero_or_pos n with rfl | hpos
  · exact iff_of_true ⟨d, rfl⟩ (counted_zero w runs)
  induction h generalizing d n with
  | nil => exact absurd hn (Nat.not_le.2 hpos)
  | cons hfirst hrest ih =>
    rename_i run runs first stream'
    subst hw
    rw [List.append_assoc] at hdrop
    obtain ⟨e, hstarts⟩ := starts_run hfirst hempty hdrop hmax
    rw [EncodedRun.Counted, ← hstarts.fits, List.flatMap_cons]
    rw [List.flatMap_cons, List.length_append] at hn
    rcases le_or_gt n run.values.length with hle | hlt
    · -- The values are all of the first run.
      rw [Nat.min_eq_left hle, Nat.sub_eq_zero_of_le hle, List.take_append_of_le_length hle,
        and_iff_left (counted_zero _ _)]
      constructor
      · rintro ⟨e', hnexts⟩
        exact ((hstarts.nexts hempty hle hpos hleft).1 hnexts).1
      · exact fun hfits => ⟨_, (hstarts.nexts hempty hle hpos hleft).2 ⟨hfits, rfl, rfl⟩⟩
    · -- The first run is taken whole, and the rest is of the runs after it.
      have hsound : d.run.Sound d.bitWidth := by
        rw [hempty]
        trivial
      obtain ⟨hs, hloaded, -, -⟩ := ensureRun_eq_ok hsound hstarts.read
      have hlength : 0 < run.values.length :=
        hstarts.remaining ▸ HybridRleRun.pos_remaining hs hloaded
      have hwhole : run.values.take run.values.length = run.values := List.take_length
      have hfirstRun := fun values d' => @Starts.nexts d run e d' first hstarts hempty
        run.values.length le_rfl hlength (by omega) values
      rw [hwhole] at hfirstRun
      have hrun : (e.advance run.values.length).run = .empty :=
        HybridRleRun.settled_of_zero (by
          rw [HybridRleRun.remaining_advance, hstarts.remaining, Nat.sub_self])
      have hrestDrop : (e.advance run.values.length).bytes.drop
          (e.advance run.values.length).offset = stream' ++ rest := by
        change e.bytes.drop e.offset = stream' ++ rest
        rw [hstarts.bytes, hstarts.offset, ← List.drop_drop, hdrop, List.drop_left]
      have hvaluesLeft : (e.advance run.values.length).valuesLeft =
          d.valuesLeft - run.values.length :=
        congrArg (· - run.values.length) hstarts.valuesLeft
      have hsum : n = run.values.length + (n - run.values.length) := by omega
      have htake : (run.values ++ runs.flatMap EncodedRun.values).take n =
          run.values ++ (runs.flatMap EncodedRun.values).take (n - run.values.length) := by
        rw [List.take_append, List.take_of_length_le hlt.le]
      have hwidth : (e.advance run.values.length).bitWidth = d.bitWidth := hstarts.bitWidth
      have hbytes : (e.advance run.values.length).bytes.length ≤ usizeMax := hstarts.bytes ▸ hmax
      have ih := ih (n := n - run.values.length) hwidth hrun hrestDrop hbytes (by omega)
        (by omega) (by omega)
      rw [Nat.min_eq_right hlt.le, htake, ← ih]
      constructor
      · rintro ⟨f, hall⟩
        obtain ⟨⟨values, g⟩, hfew⟩ := nexts_of_le hlt.le hall
        obtain ⟨hfits, rfl, rfl⟩ := (hfirstRun _ _).1 hfew
        rw [hsum, nexts_add hfew rfl, Result.map_eq_ok] at hall
        obtain ⟨⟨values, g⟩, hrestValues, heq⟩ := hall
        obtain ⟨hvalues, -⟩ := Prod.mk.inj heq
        rw [← hsum] at hvalues
        obtain rfl : values = _ := List.append_cancel_left hvalues
        exact ⟨hfits, g, hrestValues⟩
      · rintro ⟨hfits, g, hrestValues⟩
        refine ⟨g, ?_⟩
        conv_lhs => rw [hsum, nexts_add ((hfirstRun _ _).2 ⟨hfits, rfl, rfl⟩) rfl, hrestValues]
        rfl

/-- The decoder gives the encoded values if the bits of each run can be counted, and only then; and
    calls that succeed answer for the values that repeated `next` gives if the bits of all of them
    can be counted, and only then. -/
theorem hybrid_rle_decodes_iff {bitWidth : ℕ} {stream : List UInt8} {n : ℕ}
    (hmax : stream.length ≤ usizeMax) :
    (∀ runs, Encodes bitWidth runs stream → n ≤ (runs.flatMap EncodedRun.values).length →
      ((∃ e, (new stream bitWidth n).nexts n =
          .ok ((runs.flatMap EncodedRun.values).take n, e)) ↔
        EncodedRun.Counted bitWidth n runs)) ∧
    ∀ cs answers e, (new stream bitWidth n).calls cs = .ok (answers, e) →
      (Produces e (new stream bitWidth n) cs answers ↔ AllCounted (new stream bitWidth n) cs) := by
  refine ⟨fun runs hencodes hn => ?_, fun cs answers e hcalls => ?_⟩
  · have hdrop : (new stream bitWidth n).bytes.drop (new stream bitWidth n).offset =
        stream ++ [] := by
      rw [List.append_nil]
      rfl
    exact nexts_encoded hencodes rfl rfl hdrop hmax hn le_rfl
  · exact calls_eq_ok (.inl rfl) trivial trivial hcalls

/-- Five repeated values, and calls at them. -/
theorem hybrid_rle_decodes_iff_short :
    (∃ e, (new [0x0a, 0x03] 2 5).nexts 5 = .ok ([3, 3, 3, 3, 3], e)) ∧
      Produces { new [0x0a, 0x03] 2 1 with offset := 2, run := .repeated 3 1 }
        (new [0x0a, 0x03] 2 5) [.skip 3, .next] [.count 3, .value (some 3)] := by
  obtain ⟨hdecodes, hcalls⟩ := @hybrid_rle_decodes_iff 2 [0x0a, 0x03] 5 (by decide)
  have hheader : Varint.Encodes 10 [0x0a] := .last 0x0a (by decide)
  have hrun : EncodedRun.Encodes 2 (.repeated 3 5) [0x0a, 0x03] :=
    ⟨by decide, by decide, by decide, [0x0a], hheader, by decide, rfl⟩
  refine ⟨(hdecodes [.repeated 3 5] (.cons hrun .nil) (by decide)).2 ⟨trivial, trivial⟩,
    (hcalls _ _ _ rfl).2 ⟨fun _ _ e he => ?_, fun _ _ => ⟨trivial, fun _ _ => trivial⟩⟩⟩
  have hread : (new [0x0a, 0x03] 2 5).ensureRun =
      .ok { new [0x0a, 0x03] 2 5 with offset := 2, run := .repeated 3 5 } := rfl
  rw [hread] at he
  cases he
  exact ⟨trivial, fun hpos => absurd hpos (by decide)⟩

/-- A run of packed values that have more bits than can be counted. -/
def longRun : EncodedRun := .packed (List.replicate (2 ^ 27) 0)

/-- The bytes of the run. -/
def longStream : List UInt8 :=
  [0x81, 0x80, 0x80, 0x10] ++ toBytes (2 ^ 24 * 32) (pack 32 (List.replicate (2 ^ 27) 0))

/-- A `skip` passes over all values of a long run, where `next` fails before the last one. -/
theorem long_run_ends_early :
    longStream.length ≤ usizeMax ∧ Encodes 32 [longRun] longStream ∧
      (∃ e, (new longStream 32 (2 ^ 27)).skip (2 ^ 27) = .ok (2 ^ 27, e)) ∧
      ¬∃ e, (new longStream 32 (2 ^ 27)).nexts (2 ^ 27) = .ok (longRun.values, e) := by
  have hheader : Varint.Encodes (2 * 2 ^ 24 + 1) [0x81, 0x80, 0x80, 0x10] :=
    .more 0x81 (by decide)
      (.more 0x80 (by decide) (.more 0x80 (by decide) (.last 0x10 (by decide))))
  have hlength : (List.replicate (2 ^ 27) 0 : List ℕ).length = 2 ^ 27 := List.length_replicate
  have hvalues : longRun.values = List.replicate (2 ^ 27) 0 := rfl
  have hrun : longRun.Encodes 32 longStream := by
    refine ⟨fun value hvalue => ?_, ?_, ?_, 2 ^ 24, _, ?_, hheader, by decide, rfl⟩
    · rw [(List.mem_replicate.1 hvalue).2]
      decide
    · rw [hlength]
      decide
    · rw [hlength]
      decide
    · rw [hlength]
      decide
  have hmax : longStream.length ≤ usizeMax := by
    rw [longStream, List.length_append, length_toBytes]
    decide
  have hencodes : Encodes 32 [longRun] longStream := by
    have hcons := Encodes.cons hrun .nil
    rwa [List.append_nil] at hcons
  have hdrop : (new longStream 32 (2 ^ 27)).bytes.drop (new longStream 32 (2 ^ 27)).offset =
      longStream ++ [] := by
    rw [List.append_nil]
    rfl
  refine ⟨hmax, hencodes, ?_, ?_⟩
  · obtain ⟨e, hstarts⟩ := @starts_run (new longStream 32 (2 ^ 27)) _ _ [] hrun rfl hdrop hmax
    have hskip := hstarts.skip (by rw [hvalues, hlength]; decide)
      (by rw [hvalues, hlength]; exact le_rfl)
    rwa [hvalues, hlength] at hskip
  · have hflat : [longRun].flatMap EncodedRun.values = longRun.values := by
      rw [List.flatMap_cons, List.flatMap_nil, List.append_nil]
    have hwhole : longRun.values.take (2 ^ 27) = longRun.values :=
      List.take_of_length_le (by rw [hvalues, hlength])
    have hiff := nexts_encoded (d := new longStream 32 (2 ^ 27))
      (n := 2 ^ 27) hencodes rfl rfl hdrop
      hmax (by rw [hflat, hvalues, hlength]) le_rfl
    rw [hflat, hwhole] at hiff
    rw [hiff]
    rintro ⟨hfits, -⟩
    rw [hvalues, hlength, Nat.min_self] at hfits
    exact absurd hfits (by decide : ¬2 ^ 27 * 32 ≤ usizeMax)

end HybridRleDecoder

end Tabulark.Parquet
