import Tabulark.Csv.Pass
import Tabulark.Csv.Scanner

/-!
# Well-formed quoting

The quote tracker is a lexer of its own. What it lets through has a grammar:
fields between separators, each either free of quotes or one quoted run
(`WellQuoted`). `clean_iff` says that the tracker reports nothing on exactly
these texts, and `Lockstep` that it then runs in step with the machine.
-/

namespace Tabulark.Csv

/-! ## The grammar -/

/-- The bytes between two fields. -/
def IsSeparator (d c : UInt8) : Prop := c = d ∨ c = cr ∨ c = lf

instance (d c : UInt8) : Decidable (IsSeparator d c) := inferInstanceAs (Decidable (_ ∨ _))

/-- The inside of a quoted field, with every quote doubled. -/
def doubled (content : List UInt8) : List UInt8 :=
  content.flatMap fun c => if c = quote then [c, c] else [c]

/-- A field as it stands in the source. -/
inductive RawField (d : UInt8) : List UInt8 → Prop
  | plain {field : List UInt8} : (∀ c ∈ field, c ≠ quote ∧ ¬IsSeparator d c) → RawField d field
  | quoted (content : List UInt8) : RawField d (quote :: doubled content ++ [quote])

/-- A text of fields, one separator after each but the last. -/
inductive WellQuoted (d : UInt8) : List UInt8 → Prop
  | last {field : List UInt8} : RawField d field → WellQuoted d field
  | next {field rest : List UInt8} {c : UInt8} : RawField d field → IsSeparator d c →
    WellQuoted d rest → WellQuoted d (field ++ c :: rest)

/-- What may come after a field. -/
def AfterField (d : UInt8) (text : List UInt8) : Prop :=
  text = [] ∨ ∃ c rest, text = c :: rest ∧ IsSeparator d c ∧ WellQuoted d rest

/-- What may come after an opening quote. -/
def AfterQuote (d : UInt8) (text : List UInt8) : Prop :=
  ∃ content rest, text = doubled content ++ quote :: rest ∧ AfterField d rest

/-- What may come inside a field without quotes. -/
def InPlain (d : UInt8) (text : List UInt8) : Prop :=
  ∃ field rest, text = field ++ rest ∧ (∀ c ∈ field, c ≠ quote ∧ ¬IsSeparator d c) ∧
    AfterField d rest

variable {d : UInt8}

theorem not_isSeparator_quote (hd : d ≠ quote) : ¬IsSeparator d quote := by
  rintro (h | h | h)
  · exact hd h.symm
  · exact absurd h (by decide)
  · exact absurd h (by decide)

variable {text : List UInt8}

theorem wellQuoted_iff :
    WellQuoted d text ↔ ∃ field rest, text = field ++ rest ∧ RawField d field ∧
      AfterField d rest := by
  constructor
  · intro h
    cases h with
    | last hfield => exact ⟨text, [], (List.append_nil _).symm, hfield, .inl rfl⟩
    | @next field rest c hfield hc hrest =>
      exact ⟨field, c :: rest, rfl, hfield, .inr ⟨c, rest, rfl, hc, hrest⟩⟩
  · rintro ⟨field, rest, rfl, hfield, rfl | ⟨c, rest, rfl, hc, hrest⟩⟩
    · rw [List.append_nil]
      exact .last hfield
    · exact .next hfield hc hrest

theorem wellQuoted_nil : WellQuoted d [] := .last (.plain nofun)

theorem afterField_nil : AfterField d [] := .inl rfl

variable {c : UInt8}

theorem afterField_cons :
    AfterField d (c :: text) ↔ IsSeparator d c ∧ WellQuoted d text := by
  constructor
  · rintro (h | ⟨c, rest, h, hc, hrest⟩)
    · cases h
    · cases h
      exact ⟨hc, hrest⟩
  · rintro ⟨hc, htext⟩
    exact .inr ⟨c, text, rfl, hc, htext⟩

theorem inPlain_nil : InPlain d [] := ⟨[], [], rfl, nofun, afterField_nil⟩

/-- A byte of a field without quotes ends the field or belongs to it. -/
theorem inPlain_cons (hd : d ≠ quote) :
    InPlain d (c :: text) ↔
      if c = quote then False else if IsSeparator d c then WellQuoted d text
      else InPlain d text := by
  constructor
  · rintro ⟨field, rest, h, hfield, hrest⟩
    cases field with
    | nil =>
      rw [List.nil_append] at h
      rw [← h, afterField_cons] at hrest
      have hne : c ≠ quote := by
        rintro rfl
        exact not_isSeparator_quote hd hrest.1
      rw [if_neg hne, if_pos hrest.1]
      exact hrest.2
    | cons b field =>
      cases h
      obtain ⟨hne, hsep⟩ := hfield c List.mem_cons_self
      rw [if_neg hne, if_neg hsep]
      exact ⟨field, rest, rfl, fun b hb => hfield b (List.mem_cons_of_mem _ hb), hrest⟩
  · intro h
    split_ifs at h with hc hsep
    · exact ⟨[], c :: text, rfl, nofun, afterField_cons.2 ⟨hsep, h⟩⟩
    · obtain ⟨field, rest, rfl, hfield, hrest⟩ := h
      refine ⟨c :: field, rest, rfl, fun b hb => ?_, hrest⟩
      rcases List.mem_cons.1 hb with rfl | hb
      · exact ⟨hc, hsep⟩
      · exact hfield b hb

theorem not_afterQuote_nil : ¬AfterQuote d [] := by
  rintro ⟨content, rest, h, _⟩
  have hlength := congrArg List.length h
  simp at hlength

/-- A quote inside a quoted field closes it or is the first of two. -/
theorem afterQuote_cons :
    AfterQuote d (c :: text) ↔
      if c = quote then AfterField d text ∨ ∃ rest, text = quote :: rest ∧ AfterQuote d rest
      else AfterQuote d text := by
  constructor
  · rintro ⟨content, rest, h, hrest⟩
    cases content with
    | nil =>
      cases h
      rw [if_pos rfl]
      exact .inl hrest
    | cons b content =>
      rw [doubled, List.flatMap_cons] at h
      by_cases hb : b = quote
      · rw [if_pos hb, hb] at h
        cases h
        rw [if_pos rfl]
        exact .inr ⟨_, rfl, content, rest, rfl, hrest⟩
      · rw [if_neg hb] at h
        cases h
        rw [if_neg hb]
        exact ⟨content, rest, rfl, hrest⟩
  · intro h
    split_ifs at h with hc
    · subst hc
      rcases h with h | ⟨rest, rfl, content, rest, rfl, hrest⟩
      · exact ⟨[], text, rfl, h⟩
      · exact ⟨quote :: content, rest, rfl, hrest⟩
    · obtain ⟨content, rest, rfl, hrest⟩ := h
      refine ⟨c :: content, rest, ?_, hrest⟩
      rw [doubled, doubled, List.flatMap_cons, if_neg hc]
      rfl

/-- A field that starts with a quote is quoted, any other is plain. -/
theorem wellQuoted_cons (hd : d ≠ quote) :
    WellQuoted d (c :: text) ↔ if c = quote then AfterQuote d text else InPlain d (c :: text) := by
  rw [wellQuoted_iff]
  constructor
  · rintro ⟨field, rest, h, hfield, hrest⟩
    cases hfield with
    | plain hplain =>
      have hin : InPlain d (c :: text) := ⟨field, rest, h, hplain, hrest⟩
      split_ifs with hc
      · rw [inPlain_cons hd, if_pos hc] at hin
        exact hin.elim
      · exact hin
    | quoted content =>
      cases h
      rw [if_pos rfl]
      exact ⟨content, rest, List.append_assoc _ _ _, hrest⟩
  · intro h
    split_ifs at h with hc
    · obtain ⟨content, rest, rfl, hrest⟩ := h
      subst hc
      exact ⟨quote :: doubled content ++ [quote], rest, by simp, .quoted content, hrest⟩
    · obtain ⟨field, rest, h, hplain, hrest⟩ := h
      exact ⟨field, rest, h, .plain hplain, hrest⟩

/-! ## The tracker -/

namespace QuoteTracker

/-- The tracker reports nothing, and no quote is left open. -/
def Clean (d : UInt8) (t : QuoteTracker) (base : ℕ) (text : List UInt8) : Prop :=
  (t.consume d base text).2 = [] ∧ (t.consume d base text).1.unclosedQuoteOffset = none

instance (t : QuoteTracker) (base : ℕ) (text : List UInt8) : Decidable (t.Clean d base text) :=
  inferInstanceAs (Decidable (_ ∧ _))

/-- What a tracker lets through from here on. -/
def Allows (d : UInt8) (t : QuoteTracker) (text : List UInt8) : Prop :=
  match t.state with
  | .startField => WellQuoted d text
  | .unquoted => InPlain d text
  | .quoted _ => AfterQuote d text
  | .afterQuote => AfterField d text ∨ ∃ rest, text = quote :: rest ∧ AfterQuote d rest

theorem clean_cons {t : QuoteTracker} {base : ℕ} {cs : List UInt8} :
    t.Clean d base (c :: cs) ↔
      (t.byte d base c).2 = [] ∧ (t.byte d base c).1.Clean d (base + 1) cs := by
  rw [Clean, Clean, consume]
  dsimp only
  rw [List.append_eq_nil_iff, and_assoc]

/-- One byte. -/
theorem allows_cons (hd : d ≠ quote) {t : QuoteTracker} {base : ℕ} {cs : List UInt8} :
    t.Allows d (c :: cs) ↔ (t.byte d base c).2 = [] ∧ (t.byte d base c).1.Allows d cs := by
  obtain ⟨state, opening⟩ := t
  cases state with
  | startField =>
    rw [byte, Allows]
    dsimp only
    rw [wellQuoted_cons hd, inPlain_cons hd]
    by_cases hc : c = quote
    · rw [if_pos hc, if_pos hc]
      exact (and_iff_right rfl).symm
    · rw [if_neg hc, if_neg hc, if_neg hc]
      by_cases hsep : c = d ∨ c = cr ∨ c = lf
      · rw [if_pos hsep, if_pos (show IsSeparator d c from hsep)]
        exact (and_iff_right rfl).symm
      · rw [if_neg hsep, if_neg (show ¬IsSeparator d c from hsep)]
        exact (and_iff_right rfl).symm
  | unquoted =>
    rw [byte, Allows]
    dsimp only
    rw [inPlain_cons hd]
    by_cases hc : c = quote
    · rw [if_pos hc, if_pos hc]
      exact ⟨False.elim, fun h => absurd h.1 (List.cons_ne_nil _ _)⟩
    · rw [if_neg hc, if_neg hc]
      by_cases hsep : c = d ∨ c = cr ∨ c = lf
      · rw [if_pos hsep, if_pos (show IsSeparator d c from hsep)]
        exact (and_iff_right rfl).symm
      · rw [if_neg hsep, if_neg (show ¬IsSeparator d c from hsep)]
        exact (and_iff_right rfl).symm
  | quoted opening =>
    rw [byte, Allows]
    dsimp only
    rw [afterQuote_cons]
    split_ifs with hc
    · exact (and_iff_right rfl).symm
    · exact (and_iff_right rfl).symm
  | afterQuote =>
    rw [byte, Allows]
    dsimp only
    rw [afterField_cons]
    by_cases hc : c = quote
    · subst hc
      rw [if_pos rfl]
      constructor
      · rintro (h | ⟨rest, h, hrest⟩)
        · exact absurd h.1 (not_isSeparator_quote hd)
        · cases h
          exact ⟨rfl, hrest⟩
      · exact fun h => .inr ⟨cs, rfl, h.2⟩
    · have hrest : ¬∃ rest, c :: cs = quote :: rest ∧ AfterQuote d rest := by
        rintro ⟨rest, h, _⟩
        exact hc (List.cons.inj h).1
      rw [if_neg hc, or_iff_left hrest]
      by_cases hsep : c = d ∨ c = cr ∨ c = lf
      · rw [if_pos hsep, and_iff_right (show IsSeparator d c from hsep)]
        exact (and_iff_right rfl).symm
      · rw [if_neg hsep]
        exact ⟨fun h => absurd h.1 hsep, fun h => absurd h.1 (List.cons_ne_nil _ _)⟩

/-- The tracker is silent on exactly the texts it allows. -/
theorem clean_iff_allows (hd : d ≠ quote) (t : QuoteTracker) (base : ℕ) (text : List UInt8) :
    t.Clean d base text ↔ t.Allows d text := by
  induction text generalizing t base with
  | nil =>
    obtain ⟨state, opening⟩ := t
    rw [Clean, consume, unclosedQuoteOffset, Allows]
    cases state with
    | startField => exact iff_of_true ⟨rfl, rfl⟩ wellQuoted_nil
    | unquoted => exact iff_of_true ⟨rfl, rfl⟩ inPlain_nil
    | quoted opening => exact iff_of_false (fun h => Option.some_ne_none _ h.2) not_afterQuote_nil
    | afterQuote => exact iff_of_true ⟨rfl, rfl⟩ (.inl afterField_nil)
  | cons c cs ih => rw [clean_cons, ih, allows_cons hd]

/-- A fresh tracker is silent on exactly the well-quoted texts. -/
theorem clean_iff (hd : d ≠ quote) (base : ℕ) (text : List UInt8) :
    Clean d {} base text ↔ WellQuoted d text :=
  clean_iff_allows hd {} base text

end QuoteTracker

/-! ## In step with the machine -/

/-- The states that the tracker and the machine are in at the same time. -/
def Lockstep : QuoteState → LexState → Prop
  | .startField, l => l.isBoundary = true ∨ l = .endFieldDelim
  | .unquoted, l => l = .inField
  | .quoted _, l => l = .inQuotedField
  | .afterQuote, l => l = .inDoubleEscapedQuote

namespace QuoteTracker

/-- A byte of a field without quotes. -/
theorem lockstep_fieldByte :
    Lockstep (if c = d ∨ c = cr ∨ c = lf then .startField else .unquoted)
      (LexState.fieldByte d c).1 := by
  rw [LexState.fieldByte]
  by_cases hdelimiter : c = d
  · rw [if_pos (.inl hdelimiter), if_pos hdelimiter]
    exact .inr rfl
  · by_cases hcr : c = cr
    · rw [if_pos (.inr (.inl hcr)), if_neg hdelimiter, if_pos hcr]
      exact .inl rfl
    · by_cases hlf : c = lf
      · rw [if_pos (.inr (.inr hlf)), if_neg hdelimiter, if_neg hcr, if_pos hlf]
        exact .inl rfl
      · rw [if_neg (by tauto), if_neg hdelimiter, if_neg hcr, if_neg hlf]
        rfl

/-- A byte that is no issue keeps the two in step. -/
theorem lockstep_byte {t : QuoteTracker} {l : LexState} (h : Lockstep t.state l) {base : ℕ}
    (hc : (t.byte d base c).2 = []) :
    Lockstep (t.byte d base c).1.state (l.step d c).1 := by
  obtain ⟨state, opening⟩ := t
  have hfield := lockstep_fieldByte (d := d) (c := c)
  cases state with
  | startField =>
    have hstart : Lockstep (byte d ⟨.startField, opening⟩ base c).1.state
        (LexState.fieldStart d c).1 := by
      rw [byte, LexState.fieldStart]
      dsimp only
      by_cases hquote : c = quote
      · rw [if_pos hquote, if_pos hquote]
        rfl
      · rw [if_neg hquote, if_neg hquote]
        split_ifs at hfield ⊢ <;> exact hfield
    rcases h with h | rfl
    · rw [LexState.step_of_isBoundary h, LexState.recordStart]
      split_ifs with hterminator
      · -- A blank line.
        have hquote : c ≠ quote := by
          rcases hterminator with rfl | rfl <;> decide
        rw [byte]
        dsimp only
        rw [if_neg hquote, if_pos (.inr hterminator)]
        exact .inl rfl
      · exact hstart
    · exact hstart
  | unquoted =>
    obtain rfl : l = .inField := h
    rw [byte] at hc ⊢
    dsimp only at hc ⊢
    by_cases hquote : c = quote
    · rw [if_pos hquote] at hc
      exact absurd hc (List.cons_ne_nil _ _)
    · rw [if_neg hquote, LexState.step]
      split_ifs at hfield ⊢ <;> exact hfield
  | quoted opening =>
    obtain rfl : l = .inQuotedField := h
    rw [byte, LexState.step]
    dsimp only
    split_ifs <;> rfl
  | afterQuote =>
    obtain rfl : l = .inDoubleEscapedQuote := h
    rw [byte] at hc ⊢
    dsimp only at hc ⊢
    by_cases hquote : c = quote
    · rw [if_pos hquote, LexState.step, if_pos hquote]
      rfl
    · rw [if_neg hquote] at hc ⊢
      by_cases hsep : c = d ∨ c = cr ∨ c = lf
      · rw [if_pos hsep] at hfield ⊢
        rw [LexState.step, if_neg hquote]
        exact hfield
      · rw [if_neg hsep] at hc
        exact absurd hc (List.cons_ne_nil _ _)

/-- So do the bytes of a slice. -/
theorem lockstep_consume {t : QuoteTracker} {p : OpenRecord} (h : Lockstep t.state p.lex) {base : ℕ}
    (hclean : (t.consume d base text).2 = []) :
    Lockstep (t.consume d base text).1.state (p.feed d text).2.lex := by
  induction text generalizing t p base with
  | nil => exact h
  | cons c cs ih =>
    rw [consume] at hclean
    obtain ⟨hc, hcs⟩ := List.append_eq_nil_iff.1 hclean
    rw [consume, OpenRecord.feed]
    refine ih ?_ hcs
    rw [OpenRecord.lex_byte]
    exact lockstep_byte h hc

/-- Between two records, the tracker is between two fields. -/
theorem state_of_lockstep {s : QuoteState} {l : LexState} (h : Lockstep s l) (hl : l.isBoundary) :
    s = .startField := by
  cases s with
  | startField => rfl
  | _ =>
    obtain rfl : l = _ := h
    exact absurd hl (by decide)

/-- States that only differ in where a quote opened. -/
def Alike : QuoteState → QuoteState → Prop
  | .startField, .startField => True
  | .unquoted, .unquoted => True
  | .quoted _, .quoted _ => True
  | .afterQuote, .afterQuote => True
  | _, _ => False

variable {t t' : QuoteTracker}

theorem alike_byte (h : Alike t.state t'.state) (base base' : ℕ) (c : UInt8) :
    Alike (t.byte d base c).1.state (t'.byte d base' c).1.state ∧
      ((t.byte d base c).2 = [] ↔ (t'.byte d base' c).2 = []) := by
  obtain ⟨state, opening⟩ := t
  obtain ⟨state', opening'⟩ := t'
  rw [byte, byte]
  cases state with
  | startField =>
    cases state' with
    | startField =>
      dsimp only
      split_ifs <;> exact ⟨trivial, iff_of_true rfl rfl⟩
    | _ => cases h
  | unquoted =>
    cases state' with
    | unquoted =>
      dsimp only
      split_ifs
      · exact ⟨trivial, iff_of_false id id⟩
      · exact ⟨trivial, iff_of_true rfl rfl⟩
      · exact ⟨trivial, iff_of_true rfl rfl⟩
    | _ => cases h
  | quoted _ =>
    cases state' with
    | quoted _ =>
      dsimp only
      split_ifs <;> exact ⟨trivial, iff_of_true rfl rfl⟩
    | _ => cases h
  | afterQuote =>
    cases state' with
    | afterQuote =>
      dsimp only
      split_ifs
      · exact ⟨trivial, iff_of_true rfl rfl⟩
      · exact ⟨trivial, iff_of_true rfl rfl⟩
      · exact ⟨trivial, iff_of_false id id⟩
    | _ => cases h

theorem consume_alike (h : Alike t.state t'.state) (base base' : ℕ) (text : List UInt8) :
    Alike (t.consume d base text).1.state (t'.consume d base' text).1.state ∧
      ((t.consume d base text).2 = [] ↔ (t'.consume d base' text).2 = []) := by
  induction text generalizing t t' base base' with
  | nil => exact ⟨h, Iff.rfl⟩
  | cons c cs ih =>
    obtain ⟨halike, hissues⟩ := alike_byte (d := d) h base base' c
    obtain ⟨hall, hrest⟩ := ih halike (base + 1) (base' + 1)
    rw [consume, consume, List.append_eq_nil_iff, List.append_eq_nil_iff, hissues, hrest]
    exact ⟨hall, Iff.rfl⟩

theorem unclosedQuoteOffset_of_alike (h : Alike t.state t'.state)
    (hnone : t.unclosedQuoteOffset = none) : t'.unclosedQuoteOffset = none := by
  obtain ⟨state, opening⟩ := t
  obtain ⟨state', opening'⟩ := t'
  cases state' with
  | quoted =>
    cases state with
    | quoted => cases hnone
    | _ => cases h
  | _ => rfl

/-- Two trackers between two fields report on the same bytes, wherever they are. -/
theorem consume_startField {t : QuoteTracker} (h : t.state = .startField) (base base' : ℕ)
    (text : List UInt8) :
    (t.consume d base text).2 = [] ↔ (QuoteTracker.consume d {} base' text).2 = [] :=
  (consume_alike (by rw [h]; trivial) base base' text).2

end QuoteTracker

end Tabulark.Csv
