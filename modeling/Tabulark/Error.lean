import Mathlib

/-!
# Structured errors and bounded integers

The errors every public boundary returns (`TabularkError`), and the bounds of
the machine integers the runtime computes with: counters are natural numbers,
and an addition the source checks is `checkedAdd` with the bound of its type.
-/

namespace Tabulark

/-- Stable machine-readable error codes used by every public boundary. -/
inductive ErrorCode
  | invalidArgument
  | invalidRange
  | rangeNotIndexed
  | resourceLimit
  | cancelled
  | handleClosed
  | protocolIncompatible
  | parseFailed
  | runtimeFailure
  | unsupportedRuntime
  | unsupportedFeature
  deriving DecidableEq, Repr

/-- A JSON value attached to an error: the details are numbers, texts and flags. -/
inductive Detail
  | number (value : ℕ)
  | text (value : String)
  | flag (value : Bool)
  deriving DecidableEq, Repr

/-- A structured error with a stable code and optional details. -/
structure TabularkError where
  code : ErrorCode
  message : String
  retryable : Bool := false
  details : List (String × Detail) := []
  deriving DecidableEq, Repr

namespace TabularkError

/-- A non-retryable error without details. -/
def new (code : ErrorCode) (message : String) : TabularkError where
  code
  message

/-- Marks the error as safe to retry after external state changes. -/
def withRetryable (e : TabularkError) (retryable : Bool) : TabularkError :=
  { e with retryable }

/-- Adds a detail, replacing an earlier one under the same key. -/
def withDetail (e : TabularkError) (key : String) (value : Detail) : TabularkError :=
  { e with details := e.details.filter (·.1 ≠ key) ++ [(key, value)] }

/-- The detail recorded under `key`. -/
def detail (e : TabularkError) (key : String) : Option Detail := e.details.lookup key

end TabularkError

/-- The results of the runtime. -/
abbrev Result (α : Type) := Except TabularkError α

variable {ε α β : Type}

variable {f : α → Except ε β} {x : Except ε α}

theorem Result.bind_eq_ok {b : β} :
    x >>= f = .ok b ↔ ∃ a, x = .ok a ∧ f a = .ok b := by
  cases x with
  | error e => simp [bind, Except.bind]
  | ok a => simp [bind, Except.bind]

theorem Result.bind_eq_error {e : ε} :
    x >>= f = .error e ↔ x = .error e ∨ ∃ a, x = .ok a ∧ f a = .error e := by
  cases x with
  | error e => simp [bind, Except.bind]
  | ok a => simp [bind, Except.bind]

variable {p : Prop}

/-- One of two steps before what both go on with. -/
theorem Result.ite_bind [Decidable p] (x y : Except ε α) (f : α → Except ε β) :
    (if p then x >>= f else y >>= f) = (if p then x else y) >>= f :=
  (apply_ite (· >>= f) p x y).symm

/-- A step that only some inputs take. -/
theorem Result.ite_bind_eq_ok [Decidable p] {a : α}
    {b : β} (h : (if p then x >>= f else Except.ok a >>= f) = .ok b) :
    ∃ a', (if p then x else .ok a) = .ok a' ∧ f a' = .ok b := by
  split_ifs at h ⊢
  · exact Result.bind_eq_ok.1 h
  · exact ⟨a, rfl, h⟩

@[simp] theorem Result.ok_bind (a : α) (f : α → Except ε β) :
    (Except.ok a >>= f) = f a := rfl

@[simp] theorem Result.error_bind (e : ε) (f : α → Except ε β) :
    (Except.error e >>= f) = .error e := rfl

/-- A failure is no success, whatever it would be a success of. -/
theorem Result.error_elim {ε α : Type} {e : ε} {a : α}
    (h : (Except.error e : Except ε α) = .ok a) : p := by cases h

/-- A success is no failure. -/
theorem Result.ok_elim {ε α : Type} {e : ε} {a : α}
    (h : (Except.ok a : Except ε α) = .error e) : p := by cases h

theorem Result.map_eq_ok {f : α → β} {b : β} :
    x.map f = .ok b ↔ ∃ a, x = .ok a ∧ f a = b := by
  cases x with
  | error e => simp [Except.map]
  | ok a => simp [Except.map]

theorem Result.map_eq_error {f : α → β} {e : ε} :
    x.map f = .error e ↔ x = .error e := by
  cases x with
  | error e => simp [Except.map]
  | ok a => simp [Except.map]

theorem Result.mapM_eq_ok {α β : Type} {f : α → Result β} {g : α → β} {xs : List α}
    (h : ∀ x ∈ xs, f x = .ok (g x)) : xs.mapM f = .ok (xs.map g) := by
  induction xs with
  | nil => rfl
  | cons x xs ih =>
    rw [List.mapM_cons, h x List.mem_cons_self, ih fun y hy => h y (List.mem_cons_of_mem x hy)]
    rfl

theorem Result.map_of_mapM_eq_ok {ε α β γ : Type} {f : α → Except ε β} {g : β → γ} {k : α → γ}
    {xs : List α} {ys : List β} (h : xs.mapM f = .ok ys)
    (hg : ∀ x y, x ∈ xs → f x = .ok y → g y = k x) : ys.map g = xs.map k := by
  induction xs generalizing ys with
  | nil =>
    cases h
    rfl
  | cons x xs ih =>
    rw [List.mapM_cons] at h
    obtain ⟨y, hy, h⟩ := Result.bind_eq_ok.1 h
    obtain ⟨rest, hrest, h⟩ := Result.bind_eq_ok.1 h
    cases h
    rw [List.map_cons, List.map_cons, hg x y List.mem_cons_self hy,
      ih hrest fun x' y' hx' => hg x' y' (List.mem_cons_of_mem x hx')]

theorem Result.forall₂_of_mapM_eq_ok {xs : List α} {ys : List β}
    (h : xs.mapM f = .ok ys) : List.Forall₂ (fun x y => f x = .ok y) xs ys := by
  induction xs generalizing ys with
  | nil =>
    cases h
    exact .nil
  | cons x xs ih =>
    rw [List.mapM_cons] at h
    obtain ⟨y, hy, h⟩ := Result.bind_eq_ok.1 h
    obtain ⟨rest, hrest, h⟩ := Result.bind_eq_ok.1 h
    cases h
    exact .cons hy (ih hrest)

theorem Result.mem_of_mapM_eq_error {xs : List α} {e : ε}
    (h : xs.mapM f = .error e) : ∃ x ∈ xs, f x = .error e := by
  induction xs with
  | nil => cases h
  | cons x xs ih =>
    rw [List.mapM_cons] at h
    rcases Result.bind_eq_error.1 h with hx | ⟨y, _, h⟩
    · exact ⟨x, List.mem_cons_self, hx⟩
    · rcases Result.bind_eq_error.1 h with hrest | ⟨_, _, h⟩
      · obtain ⟨x', hx', he⟩ := ih hrest
        exact ⟨x', List.mem_cons_of_mem _ hx', he⟩
      · cases h

/-! ## Bounded integers -/

/-- The largest `u64`. -/
def u64Max : ℕ := 2 ^ 64 - 1

/-- The largest `usize` of wasm32, the shipped target. -/
def usizeMax : ℕ := 2 ^ 32 - 1

/-- The largest `u32`. -/
def u32Max : ℕ := 2 ^ 32 - 1

/-- The largest integer that crosses a JavaScript `number` boundary exactly. -/
def maxSafeInteger : ℕ := 9007199254740991

theorem maxSafeInteger_le_u64Max : maxSafeInteger ≤ u64Max := by decide

/-- An addition checked against the bound of its integer type. -/
def checkedAdd (bound a b : ℕ) (error : TabularkError) : Result ℕ :=
  if a + b ≤ bound then .ok (a + b) else .error error

theorem checkedAdd_of_le {bound a b : ℕ} (h : a + b ≤ bound) (error : TabularkError) :
    checkedAdd bound a b error = .ok (a + b) := if_pos h

theorem checkedAdd_eq_ok {bound a b n : ℕ} {e : TabularkError} :
    checkedAdd bound a b e = .ok n ↔ a + b ≤ bound ∧ n = a + b := by
  rw [checkedAdd]
  split_ifs with h
  · exact ⟨fun heq => ⟨h, by cases heq; rfl⟩, fun ⟨_, heq⟩ => by rw [heq]⟩
  · exact iff_of_false nofun fun ⟨hle, _⟩ => h hle

/-- A conversion to `usize`. -/
def toUsize (value : ℕ) (error : TabularkError) : Result ℕ :=
  if value ≤ usizeMax then .ok value else .error error

theorem toUsize_of_le {value : ℕ} (h : value ≤ usizeMax) (error : TabularkError) :
    toUsize value error = .ok value := if_pos h

theorem toUsize_eq_ok {value n : ℕ} {error : TabularkError} (h : toUsize value error = .ok n) :
    n = value := by
  rw [toUsize] at h
  split_ifs at h
  exact (Except.ok.inj h).symm

/-- A multiplication checked against the bound of its integer type. -/
def checkedMul (bound a b : ℕ) (error : TabularkError) : Result ℕ :=
  if a * b ≤ bound then .ok (a * b) else .error error

/-- The error of a value beyond the JavaScript-safe integers. -/
def unsafeInteger (label : String) (value : ℕ) : TabularkError :=
  (TabularkError.new .invalidArgument
    s!"{label} exceeds the JavaScript safe integer limit").withDetail
    "value" (.text (toString value))

/-- Checks that a public coordinate is JavaScript-safe. -/
def validateSafeInteger (label : String) (value : ℕ) : Result Unit :=
  if maxSafeInteger < value then .error (unsafeInteger label value) else .ok ()

theorem validateSafeInteger_of_le {value : ℕ} (h : value ≤ maxSafeInteger) (label : String) :
    validateSafeInteger label value = .ok () := if_neg (not_lt.2 h)

/-- The exclusive end of a range that starts at `start`. -/
def checkedEnd (label : String) (start count : ℕ) : Result ℕ := do
  let stop ← checkedAdd u64Max start count (.new .invalidRange s!"{label} range overflows u64")
  if maxSafeInteger < stop then
    .error (.new .invalidRange s!"{label} range end exceeds the JavaScript safe integer limit")
  else .ok stop

theorem checkedEnd_eq_ok {label : String} {start count stop : ℕ}
    (h : checkedEnd label start count = .ok stop) :
    stop = start + count ∧ start + count ≤ maxSafeInteger := by
  obtain ⟨n, hn, h⟩ := Result.bind_eq_ok.1 h
  rw [checkedAdd] at hn
  split_ifs at hn
  cases hn
  split_ifs at h with hle
  cases h
  exact ⟨rfl, not_lt.1 hle⟩

theorem checkedEnd_of_le {start count : ℕ} (h : start + count ≤ maxSafeInteger) (label : String) :
    checkedEnd label start count = .ok (start + count) := by
  have h' : start + count ≤ u64Max := h.trans maxSafeInteger_le_u64Max
  rw [checkedEnd, checkedAdd_of_le h', Result.ok_bind, if_neg (not_lt.2 h)]

end Tabulark
