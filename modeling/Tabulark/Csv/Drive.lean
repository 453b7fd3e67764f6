import Tabulark.Csv.Reader

/-!
# The reader loop

The scanner and the range decoder drive the reader with the same loop: call it
on what is left of the chunk, append what it copied, advance the offset, and
finish the field and the record it ended. `drive` is that loop over a
`Handler`, the state the loop works on and its operations.

The loop sees calls, whose cuts depend on the chunk and on the scratch buffer.
`Handler.bytes` is the same parse one byte at a time, and `drive_eq_bytes` says
that the cuts do not matter.
-/

namespace Tabulark.Csv

/-- The room for the output of one call. -/
def fieldScratchBytes : ℕ := 16 * 1024

/-- What a parser does with what the reader finds. -/
structure Handler (S : Type) where
  appendField : S → List UInt8 → Result S
  finishField : S → Result S
  finishRecord : S → Result S
  offset : S → ℕ
  setOffset : S → ℕ → S
  /-- Whether the parser wants no more input. -/
  done : S → Bool
  offsetOverflow : TabularkError
  reachedEnd : TabularkError
  noProgress : TabularkError
  notTerminated : TabularkError

namespace Handler

variable {S : Type} (H : Handler S) (d : UInt8)

/-- The end of a field, and of its record. -/
def endField (s : S) (recordEnd : Bool) : Result S := do
  let s ← H.finishField s
  if recordEnd then H.finishRecord s else .ok s

/-- Follows the machine to the state `l`. -/
def enter (s : S) (l : LexState) : Result S :=
  match l.fieldEnd with
  | some recordEnd => H.endField s recordEnd
  | none => .ok s

/-- The parse of one byte. -/
def byte (l : LexState) (s : S) (c : UInt8) : Result (LexState × S) := do
  let s ← H.appendField s (l.step d c).2.toList
  let s ← H.enter (H.setOffset s (H.offset s + 1)) (l.step d c).1
  .ok ((l.step d c).1, s)

/-- The parse of a slice, byte by byte until the parser is done. -/
def bytes : LexState → S → List UInt8 → Result (LexState × S)
  | l, s, [] => .ok (l, s)
  | l, s, c :: cs =>
    if H.done s then .ok (l, s) else H.byte d l s c >>= fun p => bytes p.1 p.2 cs

/-- The end of the input: an open record ends, and whether the parser is done then. -/
def eof (l : LexState) (s : S) : Result (Bool × S) := do
  let s ← H.appendField s []
  if l.isBoundary then .ok (false, s)
  else
    let s ← H.endField s true
    if H.done s then .ok (true, s)
    else
      let s ← H.appendField s []
      .ok (false, s)

/-- Appending in pieces is appending at once, and the offset is a field apart. -/
structure Lawful : Prop where
  append_append : ∀ s xs ys,
    (H.appendField s xs >>= fun s => H.appendField s ys) = H.appendField s (xs ++ ys)
  append_setOffset : ∀ s n xs,
    H.appendField (H.setOffset s n) xs = (H.appendField s xs).map fun s => H.setOffset s n
  offset_append : ∀ s xs s', H.appendField s xs = .ok s' → H.offset s' = H.offset s
  offset_endField : ∀ s b s', H.endField s b = .ok s' → H.offset s' = H.offset s
  offset_setOffset : ∀ s n, H.offset (H.setOffset s n) = n
  setOffset_setOffset : ∀ s m n, H.setOffset (H.setOffset s m) n = H.setOffset s n
  setOffset_offset : ∀ s, H.setOffset s (H.offset s) = s
  done_append : ∀ s xs s', H.appendField s xs = .ok s' → H.done s' = H.done s
  done_setOffset : ∀ s n, H.done (H.setOffset s n) = H.done s

theorem bytes_append (l : LexState) (s : S) (xs ys : List UInt8) :
    H.bytes d l s (xs ++ ys) = H.bytes d l s xs >>= fun p => H.bytes d p.1 p.2 ys := by
  induction xs generalizing l s with
  | nil => rfl
  | cons c cs ih =>
    rw [List.cons_append, bytes, bytes]
    split_ifs with hd
    · -- A parser that is done stays where it is.
      cases ys with
      | nil => rfl
      | cons y ys => rw [Result.ok_bind, bytes, if_pos hd]
    · cases H.byte d l s c with
      | error e => rfl
      | ok p => exact ih p.1 p.2

variable {H} {d}

/-- A stretch along the machine appends its output at once. -/
theorem Lawful.bytes_of_steps (hH : H.Lawful) {l l' : LexState} {input out : List UInt8}
    (hsteps : Steps d l input out l') {s : S} (hdone : H.done s = false) :
    H.bytes d l s input = (do
      let s ← H.appendField s out
      let s ← H.enter (H.setOffset s (H.offset s + input.length)) l'
      .ok (l', s)) := by
  induction hsteps generalizing s with
  | last l c =>
    rw [bytes, if_neg (by simp [hdone]), byte]
    cases happ : H.appendField s (l.step d c).2.toList with
    | error e => rfl
    | ok s₁ =>
      simp only [Result.ok_bind, List.length_singleton]
      cases H.enter (H.setOffset s₁ (H.offset s₁ + 1)) (l.step d c).1 <;> rfl
  | @cons l l' c cs out hend hsteps ih =>
    rw [bytes, if_neg (by simp [hdone]), byte, ← hH.append_append]
    cases happ : H.appendField s (l.step d c).2.toList with
    | error e => rfl
    | ok s₁ =>
      have hdone₁ : H.done (H.setOffset s₁ (H.offset s₁ + 1)) = false := by
        rw [hH.done_setOffset, hH.done_append _ _ _ happ, hdone]
      simp only [Result.ok_bind, enter, hend]
      rw [ih hdone₁, hH.append_setOffset]
      cases happ' : H.appendField s₁ out with
      | error e => rfl
      | ok s₂ =>
        have hoff := hH.offset_append _ _ _ happ'
        simp only [Except.map, Result.ok_bind, hH.offset_setOffset, hH.setOffset_setOffset, hoff,
          List.length_cons]
        rw [show H.offset s₁ + 1 + cs.length = H.offset s₁ + (cs.length + 1) by omega]
        rfl

end Handler

/-! ## The loop -/

section Drive

variable {S : Type} {d : UInt8} (reader : Reader d) (H : Handler S)

/-- The loop over one chunk. Every turn consumes input, so the length of the
    chunk bounds the number of turns. -/
def drive : ℕ → reader.State → S → List UInt8 → Result (reader.State × S)
  | 0, st, s, _ => .ok (st, s)
  | turns + 1, st, s, input =>
    if input.isEmpty || H.done s then .ok (st, s)
    else do
      let read := reader.readField st input fieldScratchBytes
      let s ← H.appendField s read.output
      let offset ← checkedAdd u64Max (H.offset s) read.consumed H.offsetOverflow
      let s := H.setOffset s offset
      match read.result with
      | .inputEmpty => .ok (read.state, s)
      | .done => .error H.reachedEnd
      | .outputFull =>
        if read.consumed = 0 ∧ read.output = [] then .error H.noProgress
        else drive turns read.state s (input.drop read.consumed)
      | .field recordEnd =>
        let s ← H.endField s recordEnd
        if read.consumed = 0 ∧ read.output = [] then .error H.noProgress
        else drive turns read.state s (input.drop read.consumed)

/-- The loop at the end of the file, with the calls left: whether it stopped
    because the parser was done. -/
def driveEof : ℕ → reader.State → S → Result (Bool × S)
  | 0, _, _ => .error H.notTerminated
  | calls + 1, st, s => do
    let read := reader.readField st [] fieldScratchBytes
    let s ← H.appendField s read.output
    match read.result with
    | .field recordEnd =>
      let s ← H.endField s recordEnd
      if H.done s then .ok (true, s) else driveEof calls read.state s
    | .done => .ok (false, s)
    | .outputFull => driveEof calls read.state s
    | .inputEmpty => driveEof calls read.state s

/-- The machine's view of an outcome of the loop. -/
def Reader.lexed (outcome : Result (reader.State × S)) : Result (LexState × S) :=
  outcome.map fun p => (reader.lex p.1, p.2)

/-- Whether this call drops a leading mark. -/
def Reader.DropsBom (st : reader.State) (input : List UInt8) : Prop :=
  reader.dropsBom = true ∧ reader.hasRead st = false ∧ utf8Bom <+: input

variable {reader H}

theorem Steps.ne_nil {l l' : LexState} {input out : List UInt8} (h : Steps d l input out l') :
    input ≠ [] := by
  cases h <;> exact List.cons_ne_nil _ _

theorem Reads.pos {l l' : LexState} {input out : List UInt8} {n : ℕ} {result : ReadFieldResult}
    (h : Reads d l input n result out l') : 0 < n := by
  rcases Nat.eq_zero_or_pos n with rfl | hn
  · exact absurd rfl h.steps.ne_nil
  · exact hn

variable {st : reader.State}

theorem Reader.not_dropsBom_of_hasRead (h : reader.hasRead st = true)
    (input : List UInt8) : ¬reader.DropsBom st input := by
  rintro ⟨_, hread, _⟩
  rw [h] at hread
  cases hread

/-- One turn that skips `k` bytes and reads the rest along the machine. -/
theorem drive_succ (hH : H.Lawful) {turns k n : ℕ} {s : S}
    {input rest : List UInt8} (hrest : input.drop k = rest) (hdone : H.done s = false)
    (hlen : H.offset s + input.length ≤ u64Max)
    (hcon : (reader.readField st input fieldScratchBytes).consumed = k + n)
    (hreads : Reads d (reader.lex st) rest n (reader.readField st input fieldScratchBytes).result
      (reader.readField st input fieldScratchBytes).output
      (reader.lex (reader.readField st input fieldScratchBytes).state))
    (ih : ∀ s', H.offset s' + (rest.drop n).length ≤ u64Max →
      reader.lexed (drive reader H turns (reader.readField st input fieldScratchBytes).state s'
          (rest.drop n)) =
        H.bytes d (reader.lex (reader.readField st input fieldScratchBytes).state) s'
          (rest.drop n)) :
    reader.lexed (drive reader H (turns + 1) st s input) =
      H.bytes d (reader.lex st) (H.setOffset s (H.offset s + k)) rest := by
  have hpos := hreads.pos
  have hklen : k + rest.length ≤ input.length := by
    have hle := hreads.le
    rw [← hrest, List.length_drop] at hle ⊢
    omega
  have hinput : input.isEmpty = false := by
    cases input with
    | nil =>
      have hle := hreads.le
      rw [List.length_nil] at hklen
      omega
    | cons => rfl
  have hdone' : H.done (H.setOffset s (H.offset s + k)) = false := by
    rw [hH.done_setOffset, hdone]
  have htake : (rest.take n).length = n := by
    rw [List.length_take, Nat.min_eq_left hreads.le]
  have hdrop : input.drop (k + n) = rest.drop n := by rw [← hrest, List.drop_drop]
  rw [drive, hinput, hdone, if_neg (by simp), ← List.take_append_drop n rest, H.bytes_append,
    hH.bytes_of_steps hreads.steps hdone', htake, hH.append_setOffset]
  dsimp only
  cases happ : H.appendField s (reader.readField st input fieldScratchBytes).output with
  | error e => rfl
  | ok s₁ =>
    have hoff := hH.offset_append _ _ _ happ
    have hle := hreads.le
    simp only [Except.map, Result.ok_bind, hH.offset_setOffset, hH.setOffset_setOffset, hcon]
    rw [checkedAdd_of_le (by omega), Result.ok_bind, hreads.result_eq, Handler.enter, hoff,
      Nat.add_assoc]
    cases hend : (reader.lex (reader.readField st input fieldScratchBytes).state).fieldEnd with
    | none =>
      simp only [Result.ok_bind]
      by_cases hn : n = rest.length
      · -- The slice is used up: the loop breaks.
        rw [if_pos hn, hn, List.drop_length]
        rfl
      · rw [if_neg hn, hdrop]
        simp only
        rw [if_neg (by omega)]
        exact ih _ (by rw [hH.offset_setOffset, List.length_drop]; omega)
    | some recordEnd =>
      simp only
      cases hfield : H.endField (H.setOffset s₁ (H.offset s + (k + n))) recordEnd with
      | error e => rfl
      | ok s₂ =>
        have hoff₂ := hH.offset_endField _ _ _ hfield
        rw [hH.offset_setOffset] at hoff₂
        simp only [Result.ok_bind]
        rw [if_neg (by omega), hdrop]
        exact ih _ (by rw [hoff₂, List.length_drop]; omega)

variable {input : List UInt8} {turns : ℕ}

/-- The loop parses byte by byte. -/
theorem drive_eq_bytes (hH : H.Lawful) {s : S} (hturns : input.length ≤ turns)
    (hlen : H.offset s + input.length ≤ u64Max) (hbom : ¬reader.DropsBom st input) :
    reader.lexed (drive reader H turns st s input) = H.bytes d (reader.lex st) s input := by
  induction turns generalizing st s input with
  | zero =>
    rw [List.length_eq_zero_iff.1 (Nat.le_zero.1 hturns)]
    rfl
  | succ turns ih =>
    cases hin : input with
    | nil => rfl
    | cons c cs =>
      cases hdone : H.done s with
      | true =>
        rw [drive, hdone, Bool.or_true, if_pos rfl, Handler.bytes, if_pos hdone]
        rfl
      | false =>
        have hne : input ≠ [] := by rw [hin]; exact List.cons_ne_nil c cs
        have hreads := reader.reads st input fieldScratchBytes hne (by decide) hbom
        rw [← hin]
        have hpos := hreads.pos
        have hmain := drive_succ (k := 0) hH List.drop_zero hdone hlen
          (Nat.zero_add _).symm hreads fun s' hs' =>
            ih (by rw [List.length_drop]; omega) hs'
              (Reader.not_dropsBom_of_hasRead (reader.hasRead_readField _ _ _) _)
        rw [hmain, Nat.add_zero, hH.setOffset_offset]

/-- A dropped mark only moves the offset, when more input follows it. -/
theorem drive_bom (hH : H.Lawful) {s : S} {rest : List UInt8}
    (hturns : rest.length < turns) (hlen : H.offset s + (utf8Bom ++ rest).length ≤ u64Max)
    (hdrops : reader.dropsBom = true) (hread : reader.hasRead st = false) (hrest : rest ≠ [])
    (hdone : H.done s = false) :
    reader.lexed (drive reader H turns st s (utf8Bom ++ rest)) =
      H.bytes d (reader.lex st) (H.setOffset s (H.offset s + 3)) rest := by
  obtain ⟨n, hcon, hreads⟩ := reader.reads_bom st rest fieldScratchBytes hdrops hread hrest
    (by decide)
  cases turns with
  | zero => omega
  | succ turns =>
    exact drive_succ hH rfl hdone hlen hcon hreads fun s' hs' =>
      drive_eq_bytes hH (by rw [List.length_drop]; omega) hs'
        (Reader.not_dropsBom_of_hasRead (reader.hasRead_readField _ _ _) _)

variable {s s' : S}

theorem hasRead_drive_of_hasRead {st st' : reader.State}
    (h : drive reader H turns st s input = .ok (st', s'))
    (hst : reader.hasRead st = true) : reader.hasRead st' = true := by
  induction turns generalizing st s input with
  | zero =>
    cases h
    exact hst
  | succ turns ih =>
    have hread := reader.hasRead_readField st input fieldScratchBytes
    rw [drive] at h
    split_ifs at h with hin
    · cases h
      exact hst
    · simp only [Result.bind_eq_ok] at h
      obtain ⟨s₁, _, offset, _, h⟩ := h
      split at h
      · cases h
        exact hread
      · cases h
      · split_ifs at h
        exact ih h hread
      · obtain ⟨s₂, _, h⟩ := Result.bind_eq_ok.1 h
        split_ifs at h
        exact ih h hread

/-- The loop over a chunk that is not empty calls the reader. -/
theorem hasRead_drive {st st' : reader.State}
    (h : drive reader H turns st s input = .ok (st', s')) (hinput : input ≠ [])
    (hturns : turns ≠ 0) (hdone : H.done s = false) : reader.hasRead st' = true := by
  obtain ⟨turns, rfl⟩ := Nat.exists_eq_succ_of_ne_zero hturns
  have hread := reader.hasRead_readField st input fieldScratchBytes
  rw [Nat.succ_eq_add_one, drive, hdone, Bool.or_false,
    if_neg (by rwa [List.isEmpty_iff])] at h
  simp only [Result.bind_eq_ok] at h
  obtain ⟨s₁, _, offset, _, h⟩ := h
  split at h
  · cases h
    exact hread
  · cases h
  · split_ifs at h
    exact hasRead_drive_of_hasRead h hread
  · obtain ⟨s₂, _, h⟩ := Result.bind_eq_ok.1 h
    split_ifs at h
    exact hasRead_drive_of_hasRead h hread

/-- What every operation of a parser keeps, the loop keeps. -/
theorem drive_keeps {P : S → Prop}
    (happend : ∀ s bytes s', P s → H.appendField s bytes = .ok s' → P s')
    (hset : ∀ s n, P s → P (H.setOffset s n))
    (hend : ∀ s recordEnd s', P s → H.endField s recordEnd = .ok s' → P s')
    {st st' : reader.State} (hs : P s)
    (h : drive reader H turns st s input = .ok (st', s')) : P s' := by
  induction turns generalizing st s input with
  | zero =>
    cases h
    exact hs
  | succ turns ih =>
    rw [drive] at h
    split_ifs at h with hin
    · cases h
      exact hs
    · simp only [Result.bind_eq_ok] at h
      obtain ⟨s₁, happ, offset, _, h⟩ := h
      have hs₁ := hset s₁ offset (happend _ _ _ hs happ)
      split at h
      · cases h
        exact hs₁
      · cases h
      · split_ifs at h
        exact ih hs₁ h
      · obtain ⟨s₂, hs₂, h⟩ := Result.bind_eq_ok.1 h
        split_ifs at h
        exact ih (hend _ _ _ hs₁ hs₂) h

/-- What every operation of a parser keeps, the end of the file keeps. -/
theorem driveEof_keeps {P : S → Prop}
    (happend : ∀ s bytes s', P s → H.appendField s bytes = .ok s' → P s')
    (hend : ∀ s recordEnd s', P s → H.endField s recordEnd = .ok s' → P s')
    {calls : ℕ} {stopped : Bool} (hs : P s)
    (h : driveEof reader H calls st s = .ok (stopped, s')) : P s' := by
  induction calls generalizing st s with
  | zero => cases h
  | succ calls ih =>
    obtain ⟨s₁, happ, h⟩ := Result.bind_eq_ok.1 h
    have hs₁ := happend _ _ _ hs happ
    split at h
    · obtain ⟨s₂, hs₂, h⟩ := Result.bind_eq_ok.1 h
      have hs₂ := hend _ _ _ hs₁ hs₂
      split_ifs at h
      · cases h
        exact hs₂
      · exact ih hs₂ h
    · cases h
      exact hs₁
    · exact ih hs₁ h
    · exact ih hs₁ h

/-- The loop at the end of the file ends an open record and nothing else. -/
theorem driveEof_eq_eof (st : reader.State) (s : S) :
    driveEof reader H 4 st s = H.eof (reader.lex st) s := by
  obtain ⟨hout, _, hres⟩ := reader.reads_nil st fieldScratchBytes
  rw [driveEof, hout, Handler.eof]
  cases H.appendField s [] with
  | error e => rfl
  | ok s₁ =>
    simp only [Result.ok_bind]
    split_ifs at hres ⊢ with hl
    · rw [hres]
    · obtain ⟨hres, hlex⟩ := hres
      rw [hres]
      simp only
      cases H.endField s₁ true with
      | error e => rfl
      | ok s₂ =>
        obtain ⟨hout', _, hres'⟩ :=
          reader.reads_nil (reader.readField st [] fieldScratchBytes).state fieldScratchBytes
        rw [hlex, if_pos (by rfl)] at hres'
        simp only [Result.ok_bind]
        split_ifs with hdone
        · rfl
        · rw [driveEof, hout', hres']

end Drive

end Tabulark.Csv
