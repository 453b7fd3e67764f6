import Tabulark.Csv.Feed
import Tabulark.Lib.Interleave

/-!
# The order of scan diagnostics

The quotes of a piece are checked before its records are parsed, so a quote
diagnostic overtakes the record diagnostics of its own piece. Byte by byte a
scan is a sequence of steps (`Watch.steps`) that report quote diagnostics first
and record diagnostics second, and its pieces are batches of them:
`scan_diagnostics_iff` says for which sources the cut into chunks shows.
-/

namespace Tabulark.Csv

open Interleave

variable {o : DelimitedOptions}

/-! ## Outcomes -/

/-- What a step comes to: diagnostics, and possibly a failure. -/
inductive ScanEvent
  | diagnostic (d : CsvDiagnostic)
  | failed (e : TabularkError)

/-- What a strict scan tells of an outcome. -/
def ScanEvent.toError : ScanEvent → TabularkError
  | .diagnostic d => d.toError
  | .failed e => e

namespace Emit

variable {α β : Type}

/-- The failure of a step, if it fails. -/
def failures (r : Result α) : List ScanEvent :=
  match r with
  | .ok _ => []
  | .error e => [.failed e]

/-- What a step comes to, in order. -/
def outcomes (m : Emit α) : List ScanEvent := m.events.map .diagnostic ++ failures m.result

theorem outcomes_bind (m : Emit α) (f : α → Emit β) :
    (m.bind f).outcomes = m.outcomes ++ match m.result with
      | .ok a => (f a).outcomes
      | .error _ => [] := by
  obtain ⟨events, result⟩ := m
  cases result with
  | error e => simp [outcomes, bind, failures]
  | ok a => simp [outcomes, bind, failures]

/-- A strict scan stops at the first outcome. -/
theorem run_strict (hmode : o.mode = .strict) (ds : List CsvDiagnostic) (m : Emit α) :
    m.run o ds = match m.outcomes.head? with
      | none => m.result.map fun a => (a, ds)
      | some event => .error event.toError := by
  obtain ⟨events, result⟩ := m
  cases events with
  | nil => cases result <;> rfl
  | cons d events =>
    rw [run, handleAll, List.foldlM_cons, handleDiagnostic, hmode]
    rfl

theorem outcomes_of_ok {m : Emit α} {a : α} (h : m.result = .ok a) :
    m.outcomes = m.events.map .diagnostic := by
  rw [outcomes, h]
  exact List.append_nil _

end Emit

/-! ## Steps -/

/-- A scan that goes on watching the quotes after its index failed. -/
structure Watch (o : DelimitedOptions) where
  lexical : QuoteTracker
  offset : ℕ
  live : Option (LexState × ScanIndex o)

namespace Watch

/-- What one byte comes to: malformed quotes first, the index second. -/
def step (w : Watch o) (c : UInt8) : Step ScanEvent :=
  ((quoteEvents (w.lexical.byte o.delimiter w.offset c).2).map .diagnostic,
    w.live.elim [] fun p => (p.2.byte p.1 c).outcomes)

/-- The scan after one byte. -/
def next (w : Watch o) (c : UInt8) : Watch o where
  lexical := (w.lexical.byte o.delimiter w.offset c).1
  offset := w.offset + 1
  live := w.live.bind fun p => (p.2.byte p.1 c).result.toOption

/-- The steps of a stretch of bytes. -/
def steps : Watch o → List UInt8 → List (Step ScanEvent)
  | _, [] => []
  | w, c :: cs => w.step c :: (w.next c).steps cs

/-- The scan after a stretch of bytes. -/
def after (w : Watch o) (bytes : List UInt8) : Watch o := bytes.foldl next w

/-- The steps of a cut. -/
def parts : Watch o → List (List UInt8) → List (List (Step ScanEvent))
  | _, [] => []
  | w, bytes :: more => w.steps bytes :: (w.after bytes).parts more

theorem steps_append (w : Watch o) (xs ys : List UInt8) :
    w.steps (xs ++ ys) = w.steps xs ++ (w.after xs).steps ys := by
  induction xs generalizing w with
  | nil => rfl
  | cons c cs ih =>
    rw [List.cons_append, steps, steps, ih]
    rfl

theorem length_steps (w : Watch o) (xs : List UInt8) : (w.steps xs).length = xs.length := by
  induction xs generalizing w with
  | nil => rfl
  | cons c cs ih => rw [steps, List.length_cons, ih, List.length_cons]

theorem flatten_parts (w : Watch o) (cut : List (List UInt8)) :
    (w.parts cut).flatten = w.steps cut.flatten := by
  induction cut generalizing w with
  | nil => rfl
  | cons bytes more ih => rw [parts, List.flatten_cons, List.flatten_cons, ih, steps_append]

/-- Every cut of the steps comes from one of the bytes. -/
theorem exists_parts (w : Watch o) {bytes : List UInt8} {xss : List (List (Step ScanEvent))}
    (h : xss.flatten = w.steps bytes) :
    ∃ cut : List (List UInt8), cut.flatten = bytes ∧ w.parts cut = xss := by
  induction xss generalizing w bytes with
  | nil =>
    have hnil := congrArg List.length h
    rw [length_steps] at hnil
    exact ⟨[], (List.length_eq_zero_iff.1 hnil.symm).symm, rfl⟩
  | cons xs xss ih =>
    have hlen := congrArg List.length h
    rw [length_steps, List.flatten_cons, List.length_append] at hlen
    rw [List.flatten_cons, ← List.take_append_drop xs.length bytes, steps_append] at h
    obtain ⟨hxs, hrest⟩ := List.append_inj h (by
      rw [length_steps, List.length_take]
      omega)
    obtain ⟨cut, hcut, hparts⟩ := ih _ hrest
    refine ⟨bytes.take xs.length :: cut, ?_, ?_⟩
    · rw [List.flatten_cons, hcut, List.take_append_drop]
    · rw [parts, hparts, ← hxs]

theorem flatMap_fst (w : Watch o) (bytes : List UInt8) :
    (w.steps bytes).flatMap Prod.fst =
        (quoteEvents (w.lexical.consume o.delimiter w.offset bytes).2).map .diagnostic ∧
      (w.after bytes).lexical = (w.lexical.consume o.delimiter w.offset bytes).1 ∧
      (w.after bytes).offset = w.offset + bytes.length := by
  induction bytes generalizing w with
  | nil => exact ⟨rfl, rfl, rfl⟩
  | cons c cs ih =>
    obtain ⟨hitems, hlexical, hoffset⟩ := ih (w.next c)
    refine ⟨?_, hlexical, ?_⟩
    · rw [steps, List.flatMap_cons, hitems, QuoteTracker.consume]
      dsimp only
      rw [quoteEvents_append, List.map_append]
      rfl
    · rw [List.length_cons]
      rw [Nat.add_comm cs.length, ← Nat.add_assoc]
      exact hoffset

theorem flatMap_snd_none {w : Watch o} (h : w.live = none) (bytes : List UInt8) :
    (w.steps bytes).flatMap Prod.snd = [] := by
  induction bytes generalizing w with
  | nil => rfl
  | cons c cs ih =>
    rw [steps, List.flatMap_cons, ih (by rw [next, h]; rfl), step, h]
    rfl

theorem flatMap_snd {w : Watch o} {l : LexState} {x : ScanIndex o} (h : w.live = some (l, x))
    (bytes : List UInt8) :
    (w.steps bytes).flatMap Prod.snd = (x.bytes l bytes).outcomes ∧
      (w.after bytes).live = (x.bytes l bytes).result.toOption := by
  induction bytes generalizing w l x with
  | nil => exact ⟨rfl, h⟩
  | cons c cs ih =>
    have hnext : (w.next c).live = (x.byte l c).result.toOption := by
      rw [next, h]
      rfl
    have hstep : (w.step c).2 = (x.byte l c).outcomes := by
      rw [step, h]
      rfl
    rw [steps, List.flatMap_cons, hstep, ScanIndex.bytes, Emit.outcomes_bind, Emit.bind_result]
    cases hres : (x.byte l c).result with
    | error e =>
      rw [hres] at hnext
      refine ⟨by rw [flatMap_snd_none hnext], ?_⟩
      have hdead : ∀ (w : Watch o) (cs : List UInt8), w.live = none → (w.after cs).live = none := by
        intro w cs
        induction cs generalizing w with
        | nil => exact id
        | cons c cs ih => exact fun hw => ih (w.next c) (by rw [next, hw]; rfl)
      exact hdead (w.next c) cs hnext
    | ok p =>
      rw [hres] at hnext
      obtain ⟨hitems, hlive⟩ := ih (l := p.1) (x := p.2) hnext
      exact ⟨by rw [hitems], hlive⟩

end Watch

namespace ScanPoint

/-- The scan from here on. -/
def watch (p : ScanPoint o) : Watch o := ⟨p.lexical, p.index.parserOffset, some (p.lex, p.index)⟩

/-- A piece is a batch of its steps. -/
theorem outcomes_piece (p : ScanPoint o) (bytes : List UInt8) :
    (p.piece bytes).outcomes = batch (p.watch.steps bytes) := by
  obtain ⟨hfst, _, _⟩ := p.watch.flatMap_fst bytes
  obtain ⟨hsnd, _⟩ := Watch.flatMap_snd (w := p.watch) rfl bytes
  rw [batch, hfst, hsnd, piece, Emit.outcomes_bind]
  dsimp only
  rw [Emit.outcomes_bind]
  cases (p.index.bytes p.lex bytes).result <;>
    simp [Emit.outcomes, Emit.failures, Emit.silent, watch]

theorem parserOffset_of_bytes {x x' : ScanIndex o} {l l' : LexState} {bytes : List UInt8}
    (h : (x.bytes l bytes).result = .ok (l', x')) :
    x'.parserOffset = x.parserOffset + bytes.length := by
  induction bytes generalizing x l with
  | nil =>
    cases h
    rfl
  | cons c cs ih =>
    rw [ScanIndex.bytes, Emit.bind_result] at h
    obtain ⟨⟨l₁, x₁⟩, h₁, h⟩ := Result.bind_eq_ok.1 h
    obtain ⟨rfl, _, field, _, rfl⟩ := ScanIndex.byte_eq_ok h₁
    have hoffset : (x.nextByte (l.step o.delimiter c).1 field).parserOffset =
        x.parserOffset + 1 := by
      rw [ScanIndex.nextByte]
      split
      · exact ScanIndex.parserOffset_nextField _ _
      · rfl
    rw [ih h, hoffset, List.length_cons]
    omega

theorem watch_of_piece {p q : ScanPoint o} {bytes : List UInt8}
    (h : (p.piece bytes).result = .ok q) : p.watch.after bytes = q.watch := by
  obtain ⟨hlexical, hbytes⟩ := piece_eq_ok h
  obtain ⟨_, hlexical', hoffset⟩ := p.watch.flatMap_fst bytes
  obtain ⟨_, hlive⟩ := Watch.flatMap_snd (w := p.watch) rfl bytes
  rw [hbytes] at hlive
  change _ = Watch.mk q.lexical q.index.parserOffset (some (q.lex, q.index))
  rw [hlexical, parserOffset_of_bytes hbytes]
  have heta : ∀ w : Watch o, w = ⟨w.lexical, w.offset, w.live⟩ := fun _ => rfl
  rw [heta (p.watch.after bytes), hlexical', hoffset, hlive]
  rfl

/-- What a cut comes to: its batches, up to the first failure. -/
theorem outcomes_table (p : ScanPoint o) (cut : List (List UInt8)) :
    match (p.pieces cut).result with
    | .ok q => (p.table cut).outcomes = batches (p.watch.parts cut) ++ q.finish.outcomes
    | .error e => ∃ before after, (p.table cut).outcomes = before ++ [.failed e] ∧
      batches (p.watch.parts cut) = before ++ .failed e :: after := by
  induction cut generalizing p with
  | nil => rfl
  | cons bytes more ih =>
    rw [table_cons, pieces, Emit.bind_result, Watch.parts, batches_cons, ← outcomes_piece,
      Emit.outcomes_bind]
    cases hres : (p.piece bytes).result with
    | error e =>
      refine ⟨(p.piece bytes).events.map .diagnostic, batches ((p.watch.after bytes).parts more),
        ?_, ?_⟩
      · rw [Emit.outcomes, hres, List.append_nil]
        rfl
      · rw [Emit.outcomes, hres, Emit.failures, List.append_assoc]
        rfl
    | ok q =>
      rw [watch_of_piece hres]
      have hmore := ih q
      dsimp only [Result.ok_bind]
      cases hq : (q.pieces more).result with
      | error e =>
        rw [hq] at hmore
        obtain ⟨before, after, hbefore, hafter⟩ := hmore
        refine ⟨(p.piece bytes).outcomes ++ before, after, ?_, ?_⟩
        · rw [hbefore, List.append_assoc]
        · rw [hafter, List.append_assoc]
      | ok q' =>
        rw [hq] at hmore
        dsimp only at hmore ⊢
        rw [hmore, List.append_assoc]

end ScanPoint

/-! ## Kinds of outcomes -/

/-- What is compared of an error. -/
def diagnosticKey (e : TabularkError) : Option Detail × Option Detail × Option Detail :=
  (e.detail "kind", e.detail "row", e.detail "byteOffset")

/-- What is compared of a diagnostic. -/
def CsvDiagnostic.key (d : CsvDiagnostic) : CsvDiagnosticKind × Option ℕ × ℕ :=
  (d.kind, d.row, d.byteOffset)

theorem detail_toError (d : CsvDiagnostic) :
    d.toError.detail "kind" = some (.text (diagnosticKindName d.kind)) := by
  rw [CsvDiagnostic.toError]
  cases d.row <;> simp [TabularkError.detail, TabularkError.withDetail, TabularkError.new]

theorem diagnosticKindName_eq {k : CsvDiagnosticKind}
    (h : diagnosticKindName k = diagnosticKindName .malformedQuote) : k = .malformedQuote := by
  cases k with
  | malformedQuote => rfl
  | _ => exact absurd h (by decide)

variable {x : ScanIndex o} {e : TabularkError}

theorem detail_of_ensureColumns_error {count : ℕ} {names : Option (List (List UInt8))}
    (h : x.ensureColumns count names = .error e) : e.detail "kind" = none := by
  by_cases hmax : count ≤ o.limits.maxColumns
  · rw [ScanIndex.ensureColumns, if_neg (not_lt.2 hmax)] at h
    split_ifs at h with hle
    have hsafe : usizeMax ≤ maxSafeInteger := by decide
    have hmaxColumns := o.limits.maxColumns_le
    rw [Result.mapM_eq_ok (g := columnAt names) fun index hindex =>
      delimitedColumn_of_le (by rw [List.mem_range'_1] at hindex; omega) names, Result.ok_bind,
      checkedAdd] at h
    split_ifs at h
    · cases h
    · cases h
      rfl
  · rw [ScanIndex.ensureColumns, if_pos (not_le.1 hmax)] at h
    cases h
    rfl

theorem detail_of_addRow_error (h : x.addRow = .error e) : e.detail "kind" = none := by
  rw [ScanIndex.addRow, checkedAdd] at h
  split_ifs at h
  · cases h
  · cases h
    rfl

theorem detail_of_endField_error {recordEnd : Bool}
    (h : (x.endField recordEnd).result = .error e) : e.detail "kind" = none := by
  rw [ScanIndex.endField, Emit.bind_result, Result.bind_eq_error] at h
  rcases h with h | ⟨x', _, h⟩
  · rw [ScanIndex.finishField] at h
    split_ifs at h
    · cases h
      rfl
    · cases h
      simp [TabularkError.detail, TabularkError.withDetail, TabularkError.new]
  · cases recordEnd with
    | false => cases h
    | true =>
      rw [if_pos rfl, ScanIndex.finishRecord] at h
      split_ifs at h
      · rw [Emit.silent, Result.map_eq_error, ScanIndex.closeHeader, Result.bind_eq_error] at h
        rcases h with h | ⟨_, _, h⟩
        · exact detail_of_ensureColumns_error h
        · cases h
      · rw [Result.map_eq_error, ScanIndex.closeRow] at h
        split_ifs at h
        · rcases Result.bind_eq_error.1 h with h | ⟨_, _, h⟩
          · exact detail_of_ensureColumns_error h
          · exact detail_of_addRow_error h
        · exact detail_of_addRow_error h

/-- A failure of the index is no diagnostic. -/
theorem detail_of_byte_error {l : LexState} {c : UInt8}
    (h : (x.byte l c).result = .error e) : e.detail "kind" = none := by
  rw [ScanIndex.byte, Emit.bind_result, Result.bind_eq_error] at h
  rcases h with h | ⟨x', _, h⟩
  · change x.appendField _ = _ at h
    rw [ScanIndex.appendField, Result.bind_eq_error] at h
    rcases h with h | ⟨_, _, h⟩
    · rw [FieldBytes.append] at h
      split_ifs at h
      cases h
      simp [TabularkError.detail, TabularkError.withDetail, TabularkError.new]
    · cases h
  · rw [Emit.bind_result, Result.bind_eq_error] at h
    rcases h with h | ⟨_, _, h⟩
    · rw [ScanIndex.enter] at h
      split at h
      · exact detail_of_endField_error h
      · cases h
    · cases h

/-- The index reports no malformed quotes. -/
theorem kind_of_byte_event {l : LexState} {c : UInt8} {d : CsvDiagnostic}
    (h : d ∈ (x.byte l c).events) : d.kind ≠ .malformedQuote := by
  have hbind : ∀ {α β : Type} {m : Emit α} {f : α → Emit β},
      (∀ d ∈ m.events, d.kind ≠ .malformedQuote) →
      (∀ a, ∀ d ∈ (f a).events, d.kind ≠ .malformedQuote) →
      ∀ d ∈ (m.bind f).events, d.kind ≠ .malformedQuote := by
    rintro α β ⟨events, result⟩ f hm hf d hd
    cases result with
    | error e => exact hm d hd
    | ok a =>
      rcases List.mem_append.1 hd with hd | hd
      · exact hm d hd
      · exact hf a d hd
  have hnone : ∀ d ∈ ([] : List CsvDiagnostic), d.kind ≠ .malformedQuote := List.forall_mem_nil _
  have hfield : ∀ x : ScanIndex o, ∀ d ∈ x.finishField.events, d.kind ≠ .malformedQuote := by
    intro x d hd
    rw [ScanIndex.finishField] at hd
    split_ifs at hd
    · cases hd
    · cases hd
    · change d ∈ x.fieldEvents at hd
      rw [ScanIndex.fieldEvents] at hd
      by_cases hvalid : Utf8.isValid x.field.1 = true
      · rw [if_pos hvalid] at hd
        cases hd
      · rw [if_neg hvalid] at hd
        rw [List.mem_singleton.1 hd]
        rintro ⟨⟩
  have hrecord : ∀ x : ScanIndex o, ∀ d ∈ x.finishRecord.events, d.kind ≠ .malformedQuote := by
    intro x d hd
    rw [ScanIndex.finishRecord] at hd
    split_ifs at hd
    · cases hd
    · rw [ScanIndex.rowEvents] at hd
      split_ifs at hd
      · cases hd
      · rw [List.mem_singleton.1 hd]
        rintro ⟨⟩
  refine hbind (f := _) ?_ ?_ d h
  · exact hnone
  · refine fun x' => hbind ?_ fun _ => hnone
    rw [ScanIndex.enter]
    split
    · refine hbind (hfield _) fun x'' => ?_
      split_ifs
      · exact hrecord x''
      · exact hnone
    · exact hnone

/-- A malformed quote. -/
def ScanEvent.IsQuote (event : ScanEvent) : Prop :=
  ∃ d, event = .diagnostic d ∧ d.kind = .malformedQuote

/-- Anything else: a diagnostic of a record, or a failure of the index. -/
def ScanEvent.IsRecord (event : ScanEvent) : Prop :=
  (∃ d, event = .diagnostic d ∧ d.kind ≠ .malformedQuote) ∨
    ∃ e, event = .failed e ∧ e.detail "kind" = none

theorem isQuote_of_mem_steps {w : Watch o} {bytes : List UInt8} {s : Step ScanEvent}
    (hs : s ∈ w.steps bytes) {event : ScanEvent} (hevent : event ∈ s.1) : event.IsQuote := by
  induction bytes generalizing w with
  | nil => cases hs
  | cons c cs ih =>
    rcases List.mem_cons.1 hs with rfl | hs
    · obtain ⟨d, hd, rfl⟩ := List.mem_map.1 hevent
      obtain ⟨issue, _, rfl⟩ := List.mem_map.1 hd
      exact ⟨_, rfl, rfl⟩
    · exact ih hs

theorem isRecord_of_mem_steps {w : Watch o} {bytes : List UInt8} {s : Step ScanEvent}
    (hs : s ∈ w.steps bytes) {event : ScanEvent} (hevent : event ∈ s.2) : event.IsRecord := by
  induction bytes generalizing w with
  | nil => cases hs
  | cons c cs ih =>
    rcases List.mem_cons.1 hs with rfl | hs
    · rw [Watch.step] at hevent
      cases hlive : w.live with
      | none =>
        rw [hlive] at hevent
        cases hevent
      | some p =>
        rw [hlive] at hevent
        rcases List.mem_append.1 hevent with hevent | hevent
        · obtain ⟨d, hd, rfl⟩ := List.mem_map.1 hevent
          exact .inl ⟨d, rfl, kind_of_byte_event hd⟩
        · cases hresult : (p.2.byte p.1 c).result with
          | ok q =>
            rw [hresult] at hevent
            cases hevent
          | error e =>
            rw [hresult] at hevent
            exact .inr ⟨e, List.mem_singleton.1 hevent, detail_of_byte_error hresult⟩
    · exact ih hs

theorem diagnosticKey_ne {a b : ScanEvent} (ha : a.IsRecord) (hb : b.IsQuote) :
    diagnosticKey a.toError ≠ diagnosticKey b.toError := by
  obtain ⟨d, rfl, hd⟩ := hb
  intro h
  have hkind : a.toError.detail "kind" = d.toError.detail "kind" := congrArg Prod.fst h
  rw [detail_toError, hd] at hkind
  rcases ha with ⟨d', rfl, hd'⟩ | ⟨e, rfl, he⟩
  · rw [ScanEvent.toError, detail_toError] at hkind
    exact hd' (diagnosticKindName_eq (Detail.text.inj (Option.some.inj hkind)))
  · rw [ScanEvent.toError, he] at hkind
    cases hkind

/-! ## The report of a scan -/

namespace Watch

/-- What the end of the file comes to. -/
def closing (w : Watch o) : List ScanEvent :=
  w.live.elim [] fun p => (ScanPoint.finish ⟨w.lexical, p.1, p.2⟩).outcomes

end Watch

namespace ScanPoint

theorem watch_of_pieces {p q : ScanPoint o} {cut : List (List UInt8)}
    (h : (p.pieces cut).result = .ok q) : p.watch.after cut.flatten = q.watch := by
  induction cut generalizing p with
  | nil =>
    cases h
    rfl
  | cons bytes more ih =>
    rw [pieces, Emit.bind_result] at h
    obtain ⟨p', hp', h⟩ := Result.bind_eq_ok.1 h
    rw [List.flatten_cons, Watch.after, List.foldl_append, ← ih h, ← watch_of_piece hp']
    rfl

/-- The first outcome of a cut is the first of its batches. -/
theorem head_table (p : ScanPoint o) (cut : List (List UInt8)) :
    (p.table cut).outcomes.head? =
      (batches (p.watch.parts cut) ++ (p.watch.after cut.flatten).closing).head? := by
  have h := p.outcomes_table cut
  cases hq : (p.pieces cut).result with
  | ok q =>
    rw [hq] at h
    rw [watch_of_pieces hq]
    exact congrArg List.head? h
  | error e =>
    rw [hq] at h
    obtain ⟨before, after, hbefore, hafter⟩ := h
    rw [hbefore, hafter]
    cases before <;> rfl

/-- A cut that does not fail comes to all its batches. -/
theorem outcomes_table_of_ok {p : ScanPoint o} {cut : List (List UInt8)}
    (hx : (p.table cut).result = .ok x) :
    (p.table cut).outcomes =
      batches (p.watch.parts cut) ++ (p.watch.after cut.flatten).closing := by
  have h := p.outcomes_table cut
  rw [table, Emit.bind_result] at hx
  obtain ⟨q, hq, _⟩ := Result.bind_eq_ok.1 hx
  rw [hq] at h
  rw [watch_of_pieces hq]
  exact h

theorem pieces_append (p : ScanPoint o) (xs ys : List (List UInt8)) :
    p.pieces (xs ++ ys) = (p.pieces xs).bind fun p => p.pieces ys := by
  induction xs generalizing p with
  | nil => rfl
  | cons bytes more ih =>
    rw [List.cons_append, pieces, pieces, Emit.bind_assoc]
    exact congrArg _ (funext ih)

end ScanPoint

/-- The scan of what was held back for the mark. -/
def scanHead (o : DelimitedOptions) (source : List UInt8) : Emit (ScanPoint o) :=
  (tableStart o source).pieces (headPieces (holdBom [] source).1)

/-- The steps of a source, byte by byte, after what was held back. -/
def bodySteps (o : DelimitedOptions) (source : List UInt8) : List (Step ScanEvent) :=
  match (scanHead o source).result with
  | .ok p => p.watch.steps (holdBom [] source).2
  | .error _ => []

/-- What the end of a source comes to. -/
def sourceClosing (o : DelimitedOptions) (source : List UInt8) : List ScanEvent :=
  match (scanHead o source).result with
  | .ok p => (p.watch.after (holdBom [] source).2).closing
  | .error _ => []

/-- What a source comes to whose steps are cut into batches. -/
def report (o : DelimitedOptions) (source : List UInt8) (xss : List (List (Step ScanEvent))) :
    List ScanEvent :=
  (scanHead o source).outcomes ++ (batches xss ++ sourceClosing o source)

/-- The first `n` outcomes of a stable source do not depend on the batches. -/
theorem take_report {source : List UInt8} {n : ℕ} {xss yss : List (List (Step ScanEvent))}
    (h : Stable (n - (scanHead o source).outcomes.length) (bodySteps o source))
    (hxss : xss.flatten = bodySteps o source) (hyss : yss.flatten = bodySteps o source) :
    (report o source xss).take n = (report o source yss).take n := by
  have hlen : (batches xss).length = (batches yss).length := by
    rw [length_batches, length_batches, hxss, hyss]
  rw [report, report, List.take_append, List.take_append, hlen,
    take_batches (by rwa [hxss]), hxss]
  rw [List.take_append, List.take_append,
    take_batches (by rwa [hyss]), hyss]

/-- In an unstable source, the batches decide whether a record or a quote is among
    the first `n` outcomes. -/
theorem exists_report {source : List UInt8} {n : ℕ}
    (h : ¬Stable (n - (scanHead o source).outcomes.length) (bodySteps o source)) :
    ∃ xss yss, xss.flatten = bodySteps o source ∧ yss.flatten = bodySteps o source ∧
      ∃ k a b, k < n ∧ (report o source xss)[k]? = some a ∧ (report o source yss)[k]? = some b ∧
        a.IsRecord ∧ b.IsQuote := by
  rw [Stable] at h
  push Not at h
  obtain ⟨before, x, between, y, after, hsteps, hx, hy, hlt⟩ := h
  obtain ⟨xss, yss, hxss, hyss, ⟨a, ha, hget⟩, z, hz, b, hb, hget'⟩ :=
    getElem_of_not_stable hx hy
  rw [← hsteps] at hxss hyss
  have hreport : ∀ {zss : List (List (Step ScanEvent))} {k : ℕ} {event : ScanEvent},
      (batches zss)[k]? = some event →
      (report o source zss)[(scanHead o source).outcomes.length + k]? = some event := by
    intro zss k event hevent
    rw [report, List.getElem?_append_right (Nat.le_add_right _ _), Nat.add_sub_cancel_left,
      List.getElem?_append_left (List.getElem?_eq_some_iff.1 hevent).1]
    exact hevent
  have hmem : ∀ s ∈ bodySteps o source, (∀ event ∈ s.1, event.IsQuote) ∧
      ∀ event ∈ s.2, event.IsRecord := by
    intro s hs
    rw [bodySteps] at hs
    cases hhead : (scanHead o source).result with
    | error e =>
      rw [hhead] at hs
      cases hs
    | ok p =>
      rw [hhead] at hs
      exact ⟨fun _ => isQuote_of_mem_steps hs, fun _ => isRecord_of_mem_steps hs⟩
  refine ⟨xss, yss, hxss, hyss, _, a, b, ?_, hreport hget, hreport hget', ?_, ?_⟩
  · omega
  · exact (hmem x (by rw [hsteps]; simp)).2 a ha
  · exact (hmem z (by
      rw [hsteps]
      exact List.mem_append_right _ (List.mem_cons_of_mem _ hz))).1 b hb

/-- What a whole table tells of a source whose steps are cut into batches. -/
structure Tells (o : DelimitedOptions) (source : List UInt8) (m : Emit (ScanIndex o))
    (xss : List (List (Step ScanEvent))) : Prop where
  result : m.result = sourceIndex o source
  head : m.outcomes.head? = (report o source xss).head?
  all : ∀ x, m.result = .ok x → m.outcomes = report o source xss

theorem table_headPieces (source : List UInt8) (parts : List (List UInt8)) :
    (tableStart o source).table (headPieces (holdBom [] source).1 ++ parts) =
      (scanHead o source).bind fun p => p.table parts := by
  rw [ScanPoint.table, ScanPoint.pieces_append, Emit.bind_assoc]
  rfl

variable {parts : List (List UInt8)}

theorem result_headPieces {source : List UInt8} (hparts : parts.flatten = (holdBom [] source).2) :
    ((tableStart o source).table (headPieces (holdBom [] source).1 ++ parts)).result =
      sourceIndex o source := by
  rw [ScanPoint.result_table, List.flatten_append, hparts, flatten_headPieces]
  rfl

/-- Once the held-back bytes are parsed, the pieces are batches of the other steps. -/
theorem tells_parts {source : List UInt8} {p : ScanPoint o}
    (hhead : (scanHead o source).result = .ok p)
    (hparts : parts.flatten = (holdBom [] source).2) :
    Tells o source ((tableStart o source).table (headPieces (holdBom [] source).1 ++ parts))
      (p.watch.parts parts) where
  result := result_headPieces hparts
  head := by
    rw [table_headPieces, Emit.outcomes_bind, report, sourceClosing, hhead]
    dsimp only
    rw [List.head?_append, List.head?_append (l := (scanHead o source).outcomes),
      ScanPoint.head_table, hparts]
  all x hx := by
    rw [table_headPieces] at hx ⊢
    rw [Emit.bind_result, hhead] at hx
    rw [Emit.outcomes_bind, report, sourceClosing, hhead, ← hparts]
    dsimp only
    rw [ScanPoint.outcomes_table_of_ok hx]

/-- Every cut of the rest of a source is one of its steps. -/
theorem exists_tells {source : List UInt8} (hparts : parts.flatten = (holdBom [] source).2) :
    ∃ xss, xss.flatten = bodySteps o source ∧
      Tells o source ((tableStart o source).table (headPieces (holdBom [] source).1 ++ parts))
        xss := by
  cases hhead : (scanHead o source).result with
  | ok p =>
    refine ⟨p.watch.parts parts, ?_, tells_parts hhead hparts⟩
    rw [Watch.flatten_parts, bodySteps, hhead, hparts]
  | error e =>
    refine ⟨[], by rw [bodySteps, hhead]; rfl, result_headPieces hparts, ?_, ?_⟩
    · rw [table_headPieces, Emit.outcomes_bind, report, sourceClosing, hhead]
      rfl
    · intro x hx
      rw [table_headPieces, Emit.bind_result, hhead] at hx
      cases hx

variable {xss : List (List (Step ScanEvent))}

/-- Every cut of the steps is one of the rest of the source. -/
theorem exists_pieces {source : List UInt8}
    (hxss : xss.flatten = bodySteps o source) (hne : bodySteps o source ≠ []) :
    ∃ chunks, chunks ≠ [] ∧ chunks.flatten = source ∧
      Tells o source ((tableStart o source).table (scanPieces [] chunks)) xss := by
  rw [bodySteps] at hxss hne
  cases hhead : (scanHead o source).result with
  | error e =>
    rw [hhead] at hne
    exact absurd rfl hne
  | ok p =>
    rw [hhead] at hxss hne
    obtain ⟨parts, hparts, hxss⟩ := p.watch.exists_parts hxss
    have hrest : (holdBom [] source).2 ≠ [] := by
      intro hnil
      rw [hnil] at hne
      exact hne rfl
    obtain ⟨chunks, hchunks, hflatten, hpieces⟩ := exists_chunks source hparts hrest
    have htells := tells_parts hhead (show ([] :: parts).flatten = _ from hparts)
    have hbatches : report o source (p.watch.parts ([] :: parts)) = report o source xss := by
      rw [report, Watch.parts, batches_cons, ← hxss]
      rfl
    refine ⟨chunks, hchunks, hflatten, ?_⟩
    rw [hpieces]
    exact ⟨htells.result, hbatches ▸ htells.head, hbatches ▸ htells.all⟩

namespace CsvScanner

variable {reader : Reader o.delimiter}

/-- The error of a failed scan. -/
def failure (r : Result (CsvScanner reader)) : Option TabularkError :=
  match r with
  | .ok _ => none
  | .error e => some e

/-- Two scans report the same: in lenient mode the finished scanners retain the
    same diagnostics, in strict mode both succeed or both fail alike. -/
def SameDiagnostics (r r' : Result (CsvScanner reader)) : Prop :=
  match o.mode with
  | .lenient => ∀ c c', r = .ok c → r' = .ok c' →
    c.scan.diagnostics.map CsvDiagnostic.key = c'.scan.diagnostics.map CsvDiagnostic.key
  | .strict => (failure r).map diagnosticKey = (failure r').map diagnosticKey

/-- A record exceeds a limit that no mode tolerates. -/
def ExceedsLimit (o : DelimitedOptions) (source : ByteSource) : Prop :=
  ∃ e, sourceIndex o source.bytes = .error e

/-- Byte by byte, no malformed quote follows a problem of a record that counts: one of
    the first `maxDiagnostics`, and in strict mode the very first. -/
def QuotesFirst (o : DelimitedOptions) (source : ByteSource) : Prop :=
  match o.mode with
  | .lenient => ExceedsLimit o source ∨
    Stable (o.limits.maxDiagnostics - (scanHead o source.bytes).outcomes.length)
      (bodySteps o source.bytes)
  | .strict => Stable (1 - (scanHead o source.bytes).outcomes.length) (bodySteps o source.bytes)

variable {source : ByteSource} {chunks : List (List UInt8)}

theorem scanChunks_eq_run (hvalid : o.validate = .ok ())
    (hkeeps : reader.Keeps source.bytes) (hcut : IsCut source chunks) :
    (scanChunks reader chunks).map outcome =
      (((tableStart o source.bytes).table (scanPieces [] chunks)).run o []).map fun p =>
        (ScanState.ofRun p, source.bytes.length, true) := by
  obtain ⟨hne, hflatten⟩ := hcut
  rw [← hflatten] at hkeeps
  rw [scanChunks_eq hvalid hne (by rw [hflatten]; exact source.length_le) hkeeps, hflatten]
  rfl

/-- Every cut of a source is one of its steps. -/
theorem exists_tells_cut (hcut : IsCut source chunks) :
    ∃ xss, xss.flatten = bodySteps o source.bytes ∧
      Tells o source.bytes ((tableStart o source.bytes).table (scanPieces [] chunks)) xss := by
  obtain ⟨parts, hpieces, hparts⟩ :=
    exists_scanPieces ⟨List.nil_prefix, Nat.zero_lt_succ 2⟩ hcut.ne_nil
  rw [hcut.flatten] at hpieces hparts
  rw [hpieces]
  exact exists_tells hparts

variable {m : Emit (ScanIndex o)}

/-- A strict scan fails with the first outcome. -/
theorem failure_scanChunks (hmode : o.mode = .strict) (htells : Tells o source.bytes m xss)
    (hscan : (scanChunks reader chunks).map outcome = (m.run o []).map fun p =>
      (ScanState.ofRun p, source.bytes.length, true)) :
    failure (scanChunks reader chunks) =
      (report o source.bytes xss).head?.map ScanEvent.toError := by
  rw [← htells.head]
  rw [Emit.run_strict hmode] at hscan
  cases hhead : m.outcomes.head? with
  | some event =>
    rw [hhead] at hscan
    cases hr : scanChunks reader chunks with
    | ok c =>
      rw [hr] at hscan
      cases hscan
    | error e =>
      rw [hr] at hscan
      exact congrArg some (Except.error.inj hscan)
  | none =>
    rw [hhead] at hscan
    -- A failed run has an outcome, so this one did not fail.
    have hnil := List.head?_eq_none_iff.1 hhead
    cases hresult : m.result with
    | error e =>
      rw [Emit.outcomes, hresult] at hnil
      exact absurd (List.append_eq_nil_iff.1 hnil).2 (List.cons_ne_nil _ _)
    | ok x =>
      rw [hresult] at hscan
      cases hr : scanChunks reader chunks with
      | ok c => rfl
      | error e =>
        rw [hr] at hscan
        cases hscan

/-- A lenient scan retains the first outcomes. -/
theorem diagnostics_scanChunks (hmode : o.mode = .lenient) (htells : Tells o source.bytes m xss)
    (hscan : (scanChunks reader chunks).map outcome = (m.run o []).map fun p =>
      (ScanState.ofRun p, source.bytes.length, true)) {c : CsvScanner reader}
    (hc : scanChunks reader chunks = .ok c) :
    c.scan.diagnostics.map ScanEvent.diagnostic =
      (report o source.bytes xss).take o.limits.maxDiagnostics := by
  rw [Emit.run_lenient hmode, hc] at hscan
  cases hresult : m.result with
  | error e =>
    rw [hresult] at hscan
    cases hscan
  | ok x =>
    rw [hresult] at hscan
    have hdiagnostics : c.scan.diagnostics = m.events.take o.limits.maxDiagnostics :=
      congrArg (fun p => p.1.diagnostics) (Except.ok.inj hscan)
    rw [← htells.all x hresult, Emit.outcomes_of_ok hresult, hdiagnostics, List.map_take]

theorem exists_scan_of_result (hmode : o.mode = .lenient) (hresult : m.result = .ok x)
    (hscan : (scanChunks reader chunks).map outcome = (m.run o []).map fun p =>
      (ScanState.ofRun p, source.bytes.length, true)) :
    ∃ c, scanChunks reader chunks = .ok c := by
  rw [Emit.run_lenient hmode, hresult] at hscan
  cases hr : scanChunks reader chunks with
  | ok c => exact ⟨c, rfl⟩
  | error e =>
    rw [hr] at hscan
    cases hscan

theorem result_of_exists_scan (hmode : o.mode = .lenient) {c : CsvScanner reader}
    (hc : scanChunks reader chunks = .ok c)
    (hscan : (scanChunks reader chunks).map outcome = (m.run o []).map fun p =>
      (ScanState.ofRun p, source.bytes.length, true)) :
    ∃ x, m.result = .ok x := by
  rw [Emit.run_lenient hmode, hc] at hscan
  cases hresult : m.result with
  | ok x => exact ⟨x, rfl⟩
  | error e =>
    rw [hresult] at hscan
    cases hscan

/-- Quotes that come first make every cut report the same. -/
theorem sameDiagnostics_of_quotesFirst (hvalid : o.validate = .ok ())
    (hkeeps : reader.Keeps source.bytes) (h : QuotesFirst o source)
    {chunks chunks' : List (List UInt8)} (hcut : IsCut source chunks)
    (hcut' : IsCut source chunks') :
    SameDiagnostics (scanChunks reader chunks) (scanChunks reader chunks') := by
  have hscan := scanChunks_eq_run hvalid hkeeps hcut
  have hscan' := scanChunks_eq_run hvalid hkeeps hcut'
  obtain ⟨xss, hxss, htells⟩ := exists_tells_cut (o := o) hcut
  obtain ⟨yss, hyss, htells'⟩ := exists_tells_cut (o := o) hcut'
  rw [SameDiagnostics]
  rw [QuotesFirst] at h
  cases hmode : o.mode with
  | strict =>
    rw [hmode] at h
    have htake := congrArg List.head? (take_report h hxss hyss)
    rw [List.head?_take, List.head?_take] at htake
    dsimp only
    rw [failure_scanChunks hmode htells hscan, failure_scanChunks hmode htells' hscan']
    exact congrArg _ (congrArg _ htake)
  | lenient =>
    rw [hmode] at h
    dsimp only
    intro c c' hc hc'
    rcases h with ⟨e, he⟩ | h
    · obtain ⟨x, hx⟩ := result_of_exists_scan hmode hc hscan
      rw [htells.result, he] at hx
      cases hx
    · have hsame := take_report h hxss hyss
      rw [← diagnostics_scanChunks hmode htells hscan hc,
        ← diagnostics_scanChunks hmode htells' hscan' hc'] at hsame
      have hinj : Function.Injective ScanEvent.diagnostic := fun _ _ => ScanEvent.diagnostic.inj
      rw [List.map_injective_iff.2 hinj hsame]

/-- Otherwise two cuts tell a record from a quote. -/
theorem quotesFirst_of_sameDiagnostics (hvalid : o.validate = .ok ())
    (hkeeps : reader.Keeps source.bytes)
    (h : ∀ chunks chunks', IsCut source chunks → IsCut source chunks' →
      SameDiagnostics (scanChunks reader chunks) (scanChunks reader chunks')) :
    QuotesFirst o source := by
  -- Where the order is not settled, two cuts report a record and a quote at one place.
  have hcuts : ∀ n, ¬Stable (n - (scanHead o source.bytes).outcomes.length)
      (bodySteps o source.bytes) → ∃ chunks chunks' m m' xss yss,
      SameDiagnostics (scanChunks reader chunks) (scanChunks reader chunks') ∧
      Tells o source.bytes m xss ∧ Tells o source.bytes m' yss ∧
      ((scanChunks reader chunks).map outcome = (m.run o []).map fun p =>
        (ScanState.ofRun p, source.bytes.length, true)) ∧
      ((scanChunks reader chunks').map outcome = (m'.run o []).map fun p =>
        (ScanState.ofRun p, source.bytes.length, true)) ∧
      ∃ k a b, k < n ∧ (report o source.bytes xss)[k]? = some a ∧
        (report o source.bytes yss)[k]? = some b ∧ a.IsRecord ∧ b.IsQuote := by
    intro n hn
    have hne : bodySteps o source.bytes ≠ [] := by
      intro hnil
      refine hn fun before x between y after hsteps => ?_
      rw [hnil] at hsteps
      exact absurd hsteps.symm (by simp)
    obtain ⟨xss, yss, hxss, hyss, hk⟩ := exists_report hn
    obtain ⟨chunks, hchunks, hflatten, htells⟩ := exists_pieces hxss hne
    obtain ⟨chunks', hchunks', hflatten', htells'⟩ := exists_pieces hyss hne
    exact ⟨chunks, chunks', _, _, xss, yss,
      h chunks chunks' ⟨hchunks, hflatten⟩ ⟨hchunks', hflatten'⟩, htells, htells',
      scanChunks_eq_run hvalid hkeeps ⟨hchunks, hflatten⟩,
      scanChunks_eq_run hvalid hkeeps ⟨hchunks', hflatten'⟩, hk⟩
  rw [QuotesFirst]
  cases hmode : o.mode with
  | strict =>
    by_contra hn
    obtain ⟨chunks, chunks', m, m', xss, yss, hsame, htells, htells', hscan, hscan', k, a, b, hk,
      ha, hb, hrecord, hquote⟩ := hcuts 1 hn
    obtain rfl : k = 0 := by omega
    rw [← List.head?_eq_getElem?] at ha hb
    rw [SameDiagnostics, hmode] at hsame
    dsimp only at hsame
    rw [failure_scanChunks hmode htells hscan, failure_scanChunks hmode htells' hscan', ha, hb]
      at hsame
    exact diagnosticKey_ne hrecord hquote (Option.some.inj hsame)
  | lenient =>
    by_contra hn
    rw [not_or] at hn
    obtain ⟨hlimit, hn⟩ := hn
    obtain ⟨chunks, chunks', m, m', xss, yss, hsame, htells, htells', hscan, hscan', k, a, b, hk,
      ha, hb, hrecord, hquote⟩ := hcuts _ hn
    rw [SameDiagnostics, hmode] at hsame
    cases hindex : sourceIndex o source.bytes with
    | error e => exact hlimit ⟨e, hindex⟩
    | ok x =>
      obtain ⟨c, hc⟩ := exists_scan_of_result hmode (htells.result.trans hindex) hscan
      obtain ⟨c', hc'⟩ := exists_scan_of_result hmode (htells'.result.trans hindex) hscan'
      have hdiagnostics := diagnostics_scanChunks hmode htells hscan hc
      have hdiagnostics' := diagnostics_scanChunks hmode htells' hscan' hc'
      have hget := congrArg (fun l => l[k]?) hdiagnostics
      have hget' := congrArg (fun l => l[k]?) hdiagnostics'
      have hkeys := congrArg (fun l => l[k]?) (hsame c c' hc hc')
      simp only [List.getElem?_take, if_pos hk, ha, hb, List.getElem?_map] at hget hget' hkeys
      obtain ⟨d, hd, rfl⟩ := Option.map_eq_some_iff.1 hget
      obtain ⟨d', hd', rfl⟩ := Option.map_eq_some_iff.1 hget'
      rw [hd, hd'] at hkeys
      have hkind : d.kind = d'.kind := congrArg Prod.fst (Option.some.inj hkeys)
      obtain ⟨_, hd', hquote⟩ := hquote
      cases hd'
      rcases hrecord with ⟨_, hd, hrecord⟩ | ⟨_, hfailed, _⟩
      · cases hd
        exact hrecord (hkind.trans hquote)
      · cases hfailed

/-- The diagnostics of a scan do not depend on its chunks if and only if quotes come
    first. -/
theorem scan_diagnostics_iff (reader : Reader o.delimiter) (hvalid : o.validate = .ok ())
    (source : ByteSource) (hkeeps : reader.Keeps source.bytes) :
    (∀ chunks chunks', IsCut source chunks → IsCut source chunks' →
      SameDiagnostics (scanChunks reader chunks) (scanChunks reader chunks')) ↔
      QuotesFirst o source :=
  ⟨quotesFirst_of_sameDiagnostics hvalid hkeeps,
    fun h _ _ => sameDiagnostics_of_quotesFirst hvalid hkeeps h⟩

/-- Options without a header. -/
def headless (mode : ParseMode) : DelimitedOptions :=
  { DelimitedOptions.csv with header := false, mode }

/-- The scan of chunks of text by the documented machine. -/
def scanTexts (mode : ParseMode) (texts : List String) :
    Result (CsvScanner (o := headless mode) (.reference 44 false)) :=
  scanChunks _ (texts.map asciiBytes)

/-- A malformed quote before a ragged row. -/
def quoteThenRagged : ByteSource := ⟨asciiBytes "a,\"b\"c\nd\n", by decide⟩

/-- Every cut reports the quote before the row. -/
theorem scan_diagnostics_iff_quoteThenRagged :
    QuotesFirst (headless .lenient) quoteThenRagged ∧
      ∀ chunks chunks', IsCut quoteThenRagged chunks → IsCut quoteThenRagged chunks' →
        SameDiagnostics (scanChunks (o := headless .lenient) (.reference 44 false) chunks)
          (scanChunks (o := headless .lenient) (.reference 44 false) chunks') := by
  have hfirst : QuotesFirst (headless .lenient) quoteThenRagged := .inr (by decide)
  have hkeeps : Reader.Keeps (o := headless .lenient) (.reference 44 false)
      quoteThenRagged.bytes := fun h => absurd h Bool.false_ne_true
  exact ⟨hfirst, (scan_diagnostics_iff (.reference 44 false) rfl _ hkeeps).2 hfirst⟩

/-- A ragged row before a malformed quote. -/
def raggedThenQuote : ByteSource := ⟨asciiBytes "a,b\nc\n\"x\"y,z\n", by decide⟩

/-- In one chunk the quote is reported first, in two chunks the row. -/
theorem not_sameDiagnostics_raggedThenQuote :
    (headless .lenient).validate = .ok () ∧ (headless .strict).validate = .ok () ∧
      IsCut raggedThenQuote (["a,b\nc\n\"x\"y,z\n"].map asciiBytes) ∧
      IsCut raggedThenQuote (["a,b\nc\n", "\"x\"y,z\n"].map asciiBytes) ∧
      ¬SameDiagnostics (scanTexts .lenient ["a,b\nc\n\"x\"y,z\n"])
        (scanTexts .lenient ["a,b\nc\n", "\"x\"y,z\n"]) ∧
      ¬SameDiagnostics (scanTexts .strict ["a,b\nc\n\"x\"y,z\n"])
        (scanTexts .strict ["a,b\nc\n", "\"x\"y,z\n"]) := by
  refine ⟨rfl, rfl, ⟨List.cons_ne_nil _ _, by decide⟩, ⟨List.cons_ne_nil _ _, by decide⟩,
    fun h => ?_, fun h => ?_⟩
  · have hkeys := h _ _ rfl rfl
    revert hkeys
    decide
  · change (failure _).map diagnosticKey = (failure _).map diagnosticKey at h
    revert h
    decide

end CsvScanner

end Tabulark.Csv
