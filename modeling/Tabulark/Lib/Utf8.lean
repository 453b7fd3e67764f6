import Mathlib

/-!
# UTF-8 decoding as a machine on bytes

Validity and lossy decoding of UTF-8, byte by byte. A multi-byte sequence is
kept back until it is complete (`Utf8.State.need`); a byte that cannot continue
it replaces the sequence read so far by one U+FFFD and starts afresh, so the
replaced parts are the maximal ones that Unicode recommends.
-/

namespace Tabulark.Utf8

/-- U+FFFD, the replacement character. -/
def replacement : List UInt8 := [0xEF, 0xBF, 0xBD]

/-- What a first byte announces. -/
inductive Lead
  | ascii
  | multi (lo hi : UInt8) (more : ℕ)
  | invalid
  deriving DecidableEq, Repr

/-- The class of a first byte: a multi-byte lead gives the range of the next
    byte and the number of plain continuation bytes after it. -/
def lead (c : UInt8) : Lead :=
  if c ≤ 0x7F then .ascii
  else if c < 0xC2 then .invalid
  else if c ≤ 0xDF then .multi 0x80 0xBF 0
  else if c = 0xE0 then .multi 0xA0 0xBF 1
  else if c = 0xED then .multi 0x80 0x9F 1
  else if c ≤ 0xEF then .multi 0x80 0xBF 1
  else if c = 0xF0 then .multi 0x90 0xBF 2
  else if c ≤ 0xF3 then .multi 0x80 0xBF 2
  else if c = 0xF4 then .multi 0x80 0x8F 2
  else .invalid

/-- Between two characters, or inside one whose first bytes are `buf`. -/
inductive State
  | ground
  | need (buf : List UInt8) (lo hi : UInt8) (more : ℕ)
  deriving DecidableEq, Repr

/-- The bytes kept back. -/
def State.buf : State → List UInt8
  | ground => []
  | need buf _ _ _ => buf

/-- The machine on the first byte of a character. -/
def first (c : UInt8) : List UInt8 × State :=
  match lead c with
  | .ascii => ([c], .ground)
  | .multi lo hi more => ([], .need [c] lo hi more)
  | .invalid => (replacement, .ground)

/-- A character read so far, with `more` bytes after it: a complete one comes out. -/
def keep (buf : List UInt8) : ℕ → List UInt8 × State
  | 0 => (buf, .ground)
  | more + 1 => ([], .need buf 0x80 0xBF more)

/-- The machine on one byte: the output, and the next state. -/
def State.step : State → UInt8 → List UInt8 × State
  | ground, c => first c
  | need buf lo hi more, c =>
    if lo ≤ c ∧ c ≤ hi then keep (buf ++ [c]) more
    else (replacement ++ (first c).1, (first c).2)

/-- The output at the end of the input. -/
def State.flush : State → List UInt8
  | ground => []
  | need _ _ _ _ => replacement

/-- Lossy decoding from a state. -/
def State.lossy : State → List UInt8 → List UInt8
  | s, [] => s.flush
  | s, c :: cs => (s.step c).1 ++ (s.step c).2.lossy cs

/-- Whether a byte continues without an error, and the state after it. -/
def State.accept : State → UInt8 → Option State
  | ground, c =>
    match lead c with
    | .ascii => some ground
    | .multi lo hi more => some (need [c] lo hi more)
    | .invalid => none
  | need buf lo hi more, c => if lo ≤ c ∧ c ≤ hi then some (keep (buf ++ [c]) more).2 else none

/-- Runs the strict machine. -/
def State.run : State → List UInt8 → Option State
  | s, [] => some s
  | s, c :: cs => (s.accept c).bind fun s' => s'.run cs

/-- The text with every ill-formed part replaced by U+FFFD. -/
def lossy (bytes : List UInt8) : List UInt8 := State.ground.lossy bytes

/-- Whether the bytes are well-formed UTF-8. -/
def isValid (bytes : List UInt8) : Bool := State.ground.run bytes == some .ground

theorem isValid_iff {bytes : List UInt8} :
    isValid bytes ↔ State.ground.run bytes = some .ground := by
  simp [isValid]

/-! ## Well-formed text -/

namespace State

theorem run_append (s : State) (xs ys : List UInt8) :
    s.run (xs ++ ys) = (s.run xs).bind fun s' => s'.run ys := by
  induction xs generalizing s with
  | nil => rfl
  | cons c cs ih =>
    rw [List.cons_append, run, run]
    cases s.accept c with
    | none => rfl
    | some s' => exact ih s'

/-- An accepted byte comes out, after the bytes kept back, or is kept back too. -/
theorem step_of_accept {s s' : State} {c : UInt8} (h : s.accept c = some s') :
    (s.step c).2 = s' ∧ (s.step c).1 ++ s'.buf = s.buf ++ [c] := by
  cases s with
  | ground =>
    rw [accept] at h
    rw [step, first]
    cases hl : lead c <;> rw [hl] at h <;> cases h <;> exact ⟨rfl, rfl⟩
  | need buf lo hi more =>
    rw [accept] at h
    rw [step]
    split_ifs at h ⊢ with hc
    cases h
    cases more with
    | zero => exact ⟨rfl, List.append_nil _⟩
    | succ more => exact ⟨rfl, rfl⟩

/-- Decoding an accepted prefix gives it back, apart from the bytes kept back. -/
theorem lossy_append_of_run {s s' : State} {xs : List UInt8} (h : s.run xs = some s')
    (ys : List UInt8) :
    ∃ out, s.lossy (xs ++ ys) = out ++ s'.lossy ys ∧ out ++ s'.buf = s.buf ++ xs := by
  induction xs generalizing s with
  | nil =>
    cases h
    exact ⟨[], rfl, by rw [List.nil_append, List.append_nil]⟩
  | cons c cs ih =>
    rw [run, Option.bind_eq_some_iff] at h
    obtain ⟨m, hm, h⟩ := h
    obtain ⟨hstep, hout⟩ := step_of_accept hm
    obtain ⟨out, hlossy, hbuf⟩ := ih h
    refine ⟨(s.step c).1 ++ out, ?_, ?_⟩
    · rw [List.cons_append, lossy, hstep, hlossy, List.append_assoc]
    · rw [List.append_assoc, hbuf, ← List.append_assoc, hout, List.append_assoc]
      rfl

end State

variable {xs : List UInt8}

/-- A well-formed prefix is decoded on its own. -/
theorem lossy_append (h : isValid xs) (ys : List UInt8) :
    lossy (xs ++ ys) = xs ++ lossy ys := by
  obtain ⟨out, hlossy, hbuf⟩ := State.lossy_append_of_run (isValid_iff.1 h) ys
  have hout : out = xs := by simpa [State.buf] using hbuf
  rw [lossy, hlossy, hout, lossy]

theorem lossy_of_isValid (h : isValid xs) : lossy xs = xs := by
  have happ := lossy_append h []
  rw [List.append_nil] at happ
  exact happ.trans (List.append_nil xs)

theorem isValid_nil : isValid [] := rfl

theorem isValid_append {xs ys : List UInt8} (hx : isValid xs) (hy : isValid ys) :
    isValid (xs ++ ys) := by
  rw [isValid_iff] at *
  rw [State.run_append, hx, Option.bind_some, hy]

theorem isValid_flatten {xss : List (List UInt8)} (h : ∀ xs ∈ xss, isValid xs) :
    isValid xss.flatten := by
  induction xss with
  | nil => exact isValid_nil
  | cons xs xss ih =>
    rw [List.flatten_cons]
    exact isValid_append (h xs List.mem_cons_self)
      (ih fun ys hys => h ys (List.mem_cons_of_mem xs hys))

/-! ## Decoded text -/

namespace State

/-- The bytes kept back lead from the start to the state. -/
def Coherent (s : State) : Prop := ground.run s.buf = some s

theorem coherent_ground : ground.Coherent := rfl

theorem run_snoc {s s' : State} {c : UInt8} (h : s.run xs = some s') :
    s.run (xs ++ [c]) = s'.accept c := by
  rw [run_append, h, Option.bind_some, run]
  cases s'.accept c <;> rfl

theorem first_spec (c : UInt8) :
    isValid (first c).1 ∧ (first c).2.Coherent := by
  rw [first]
  cases hl : lead c with
  | ascii => exact ⟨by rw [isValid_iff, run, accept, hl]; rfl, rfl⟩
  | multi lo hi more =>
    refine ⟨rfl, ?_⟩
    rw [Coherent, buf, run, accept, hl]
    rfl
  | invalid => exact ⟨rfl, rfl⟩

theorem step_spec {s : State} (h : s.Coherent) (c : UInt8) :
    isValid (s.step c).1 ∧ (s.step c).2.Coherent := by
  cases s with
  | ground => exact first_spec c
  | need buf lo hi more =>
    have hrun := run_snoc (c := c) h
    rw [accept] at hrun
    rw [step]
    split_ifs at hrun ⊢ with hc
    · cases more with
      | zero => exact ⟨isValid_iff.2 hrun, rfl⟩
      | succ more => exact ⟨rfl, hrun⟩
    · exact ⟨isValid_append rfl (first_spec c).1, (first_spec c).2⟩

theorem isValid_lossy {s : State} (h : s.Coherent) (bytes : List UInt8) :
    isValid (s.lossy bytes) := by
  induction bytes generalizing s with
  | nil => cases s <;> rfl
  | cons c cs ih => exact isValid_append (step_spec h c).1 (ih (step_spec h c).2)

end State

/-- Lossy decoding gives well-formed text. -/
theorem isValid_lossy (bytes : List UInt8) : isValid (lossy bytes) :=
  State.isValid_lossy State.coherent_ground bytes

/-! ## ASCII bytes -/

namespace State

/-- The bytes kept back, and those the state waits for, are not ASCII. -/
def Wide : State → Prop
  | ground => True
  | need buf lo _ _ => (∀ b ∈ buf, 0x7F < b) ∧ 0x7F < lo

theorem wide_first (c : UInt8) : (first c).2.Wide := by
  rw [first]
  cases hl : lead c with
  | ascii => trivial
  | invalid => trivial
  | multi lo hi more =>
    have hc : ¬c ≤ 0x7F := by
      intro hc
      rw [lead, if_pos hc] at hl
      cases hl
    refine ⟨fun b hb => ?_, ?_⟩
    · rw [List.mem_singleton.1 hb]
      exact UInt8.not_le.1 hc
    · rw [lead, if_neg hc] at hl
      split_ifs at hl <;> cases hl <;> decide

theorem wide_step {s : State} (h : s.Wide) (c : UInt8) : (s.step c).2.Wide := by
  cases s with
  | ground => exact wide_first c
  | need buf lo hi more =>
    rw [step]
    split_ifs with hc
    · cases more with
      | zero => trivial
      | succ more =>
        refine ⟨fun b hb => ?_, by decide⟩
        rcases List.mem_append.1 hb with hb | hb
        · exact h.1 b hb
        · rw [List.mem_singleton.1 hb]
          exact UInt8.lt_of_lt_of_le h.2 hc.1
    · exact wide_first c

variable {a : UInt8} (ha : a ≤ 0x7F)
include ha

theorem count_replacement : replacement.count a = 0 := by
  refine List.count_eq_zero.2 fun hmem => ?_
  have hwide : ∀ b ∈ replacement, ¬b ≤ 0x7F := by
    intro b hb
    simp only [replacement, List.mem_cons, List.not_mem_nil, or_false] at hb
    rcases hb with rfl | rfl | rfl <;> decide
  exact hwide a hmem ha

theorem count_first (c : UInt8) : (first c).1.count a = [c].count a := by
  rw [first]
  cases hl : lead c with
  | ascii => rfl
  | _ =>
    have hc : c ≠ a := by
      rintro rfl
      rw [lead, if_pos ha] at hl
      cases hl
    simp [count_replacement ha, hc]

theorem count_step {s : State} (h : s.Wide) (c : UInt8) :
    (s.step c).1.count a = [c].count a := by
  cases s with
  | ground => exact count_first ha c
  | need buf lo hi more =>
    rw [step]
    split_ifs with hc
    · have hca : c ≠ a := by
        rintro rfl
        exact UInt8.not_le.2 (UInt8.lt_of_lt_of_le h.2 hc.1) ha
      cases more with
      | zero =>
        have hbuf : buf.count a = 0 :=
          List.count_eq_zero.2 fun hmem => UInt8.not_le.2 (h.1 a hmem) ha
        simp [keep, hbuf]
      | succ more => simp [keep, hca]
    · simp [count_replacement ha, count_first ha c]

theorem count_lossy {s : State} (h : s.Wide) (bytes : List UInt8) :
    (s.lossy bytes).count a = bytes.count a := by
  induction bytes generalizing s with
  | nil =>
    cases s with
    | ground => rfl
    | need buf lo hi more => simp [lossy, flush, count_replacement ha]
  | cons c cs ih =>
    rw [lossy, List.count_append, count_step ha h, ih (wide_step h c), ← List.count_append]
    rfl

end State

/-- Lossy decoding keeps every ASCII byte. -/
theorem count_lossy {a : UInt8} (ha : a ≤ 0x7F) (bytes : List UInt8) :
    (lossy bytes).count a = bytes.count a :=
  State.count_lossy (s := .ground) ha trivial bytes

end Tabulark.Utf8
