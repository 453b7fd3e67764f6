import Tabulark.Preview.Value

/-!
# Scalars and keys

What the parsers of YAML and TOML share: scans for characters outside of quotes,
and the reading of scalars, of flow sequences and of keys. The scans have no
tokens in common. A quote counts unless a backslash is right before it.
-/

namespace Tabulark.Preview

open Text

/-! ## Quotes -/

def isQuote (c : Char) : Bool := c == '"' || c == '\''

/-- Closes the quote if this is how it closes, and opens one if none is open. -/
def toggleQuote (quote : Option Char) (c : Char) : Option Char :=
  if quote = some c then none else some (quote.getD c)

/-- Whether a character opens or closes a quote, given the one before it. -/
def isToggle (prev : Option Char) (c : Char) : Bool := isQuote c && prev != some '\\'

/-- Cuts a comment off, from a marker that is outside of quotes and begins the text or follows
    white space. -/
def stripCommentFrom (marker : Char) (prev quote : Option Char) : Text → Text
  | [] => []
  | c :: rest =>
    let quote := if isToggle prev c then toggleQuote quote c else quote
    if quote = none ∧ c = marker ∧ (prev.all isSpace) then []
    else c :: stripCommentFrom marker (some c) quote rest

def stripQuotedComment (value : Text) (marker : Char) : Text :=
  stripCommentFrom marker none none value

def stripYamlComment (value : Text) : Text := trimEnd (stripQuotedComment value '#')

/-- The position of a character outside of quotes. -/
def unquotedIndexFrom (target : Char) (prev quote : Option Char) : Text → Option ℕ
  | [] => none
  | c :: rest =>
    if isToggle prev c then
      (unquotedIndexFrom target (some c) (toggleQuote quote c) rest).map (· + 1)
    else if quote = none ∧ c = target then some 0
    else (unquotedIndexFrom target (some c) quote rest).map (· + 1)

def unquotedIndex (value : Text) (target : Char) : Option ℕ :=
  unquotedIndexFrom target none none value

/-- The parts between commas outside of quotes. -/
def splitCommaFrom (prev quote : Option Char) : Text → List Text
  | [] => [[]]
  | c :: rest =>
    if isToggle prev c then
      (splitCommaFrom (some c) (toggleQuote quote c) rest).modifyHead (c :: ·)
    else if quote = none ∧ c = ',' then [] :: splitCommaFrom (some c) quote rest
    else (splitCommaFrom (some c) quote rest).modifyHead (c :: ·)

/-- The parts between commas that are not blank. -/
def splitComma (value : Text) : List Text :=
  (splitCommaFrom none none value).filter fun part => trim part ≠ []

section

variable {value : Text} {marker target c : Char} {prev quote : Option Char}

/-- Without its marker there is no comment. -/
theorem stripCommentFrom_of_notMem (h : marker ∉ value) :
    stripCommentFrom marker prev quote value = value := by
  induction value generalizing prev quote with
  | nil => rfl
  | cons c rest ih =>
    obtain ⟨hc, hrest⟩ := List.ne_and_not_mem_of_not_mem_cons h
    simp only [stripCommentFrom]
    rw [if_neg fun h => hc h.2.1.symm, ih hrest]

theorem unquotedIndexFrom_of_notMem (h : target ∉ value) :
    unquotedIndexFrom target prev quote value = none := by
  induction value generalizing prev quote with
  | nil => rfl
  | cons c rest ih =>
    obtain ⟨hc, hrest⟩ := List.ne_and_not_mem_of_not_mem_cons h
    have hne : ¬(quote = none ∧ c = target) := fun h => hc h.2.symm
    rw [unquotedIndexFrom, ih hrest, ih hrest, if_neg hne]
    simp

/-- A character after a text that has neither it nor quotes. -/
theorem unquotedIndexFrom_append (htarget : isQuote target = false) (h : target ∉ value)
    (hquote : ∀ c ∈ value, isQuote c = false) (rest : Text) :
    unquotedIndexFrom target prev none (value ++ target :: rest) = some value.length := by
  induction value generalizing prev with
  | nil => simp [unquotedIndexFrom, isToggle, htarget]
  | cons c value ih =>
    obtain ⟨hc, hvalue⟩ := List.ne_and_not_mem_of_not_mem_cons h
    obtain ⟨hfirst, hquote⟩ := List.forall_mem_cons.1 hquote
    have htoggle : isToggle prev c = false := by rw [isToggle, hfirst, Bool.false_and]
    rw [List.cons_append, unquotedIndexFrom, htoggle, if_neg Bool.false_ne_true,
      if_neg fun h => hc h.2.symm, ih hvalue hquote]
    rfl

end

/-! ## Scalars -/

/-- Whether a text is another one in letters of either case. -/
def equalsIgnoreCase (value expected : Text) : Bool := value.map Char.toLower == expected

/-- A sign, and what follows. -/
def splitSign : Text → Bool × Text
  | '-' :: rest => (true, rest)
  | '+' :: rest => (false, rest)
  | rest => (false, rest)

/-- The exponent of a number that ends with it. -/
def exponent? : Text → Option ℤ
  | [] => some 0
  | c :: rest =>
    let (negative, digits) := splitSign rest
    if (c = 'e' ∨ c = 'E') ∧ digits ≠ [] ∧ digits.all Char.isDigit then
      let n : ℤ := Nat.ofDigitChars 10 digits 0
      some (if negative then -n else n)
    else none

/-- The exact value of a decimal number. -/
def decimal? (value : Text) : Option ℚ :=
  let (negative, rest) := splitSign value
  let integer := rest.takeWhile Char.isDigit
  let rest := rest.dropWhile Char.isDigit
  let (point, rest) : Bool × Text :=
    match rest with
    | '.' :: rest => (true, rest)
    | rest => (false, rest)
  let fraction := if point then rest.takeWhile Char.isDigit else []
  let rest := if point then rest.dropWhile Char.isDigit else rest
  if integer = [] ∧ fraction = [] then none
  else
    (exponent? rest).map fun e =>
      let digits : ℚ := Nat.ofDigitChars 10 (integer ++ fraction) 0
      (if negative then -1 else 1) * digits * (10 : ℚ) ^ (e - (fraction.length : ℤ))

/-- A finite number. -/
def number? (value : Text) : Option ℚ :=
  match (decimal? value).map JsNumber.ofRat with
  | some (.finite q) => some q
  | _ => none

/-- A number is a double. -/
theorem number_exact {value : Text} {q : ℚ} (h : number? value = some q) :
    JsNumber.ofRat q = .finite q := by
  rw [number?] at h
  split at h
  · rename_i hnumber
    obtain ⟨r, -, hr⟩ := Option.map_eq_some_iff.1 hnumber
    obtain rfl := Option.some.inj h
    exact JsNumber.ofRat_idempotent hr
  · exact absurd h (Option.some_ne_none q).symm

/-- Whether a text begins and ends with a character. -/
def isEnclosed (first last : Char) (value : Text) : Bool :=
  value.head? == some first && value.getLast? == some last

/-- A text without its first and its last character. -/
def inner (value : Text) : Text := (value.drop 1).dropLast

/-- Reads a scalar or a flow sequence, of no more than some depth. -/
def scalarWithin : ℕ → Text → Value Text
  | 0, value => .string (trim value)
  | depth + 1, value =>
    let trimmed := trim value
    if trimmed = ['n', 'u', 'l', 'l'] ∨ trimmed = ['~'] then .null
    else if equalsIgnoreCase trimmed ['t', 'r', 'u', 'e'] then .boolean true
    else if equalsIgnoreCase trimmed ['f', 'a', 'l', 's', 'e'] then .boolean false
    else
      match number? trimmed with
      | some q => .number (.finite q)
      | none =>
        if isEnclosed '"' '"' trimmed ∨ isEnclosed '\'' '\'' trimmed then .string (inner trimmed)
        else if isEnclosed '[' ']' trimmed then
          .array ((splitComma (inner trimmed)).map (scalarWithin depth))
        else .string trimmed

/-- Reads a scalar or a flow sequence. -/
def scalar (value : Text) : Value Text := scalarWithin (value.length + 1) value

/-! ## Keys -/

def unsafeKeys : List Text :=
  [['_', '_', 'p', 'r', 'o', 't', 'o', '_', '_'],
    ['p', 'r', 'o', 't', 'o', 't', 'y', 'p', 'e'],
    ['c', 'o', 'n', 's', 't', 'r', 'u', 'c', 't', 'o', 'r']]

/-- A quoted text without its quotes. -/
def unquote (c : Char) (key : Text) : Option Text :=
  if 2 ≤ key.length ∧ isEnclosed c c key ∧ c ∉ inner key then some (inner key) else none

/-- Reads a key, and refuses one that may not be safe. -/
def unquoteKey (value : Text) : PreviewResult Text :=
  let key := trim value
  let key := ((unquote '"' key).orElse fun _ => unquote '\'' key).getD key
  if key = [] ∨ key ∈ unsafeKeys then .error (parseFailed "Unsafe or empty structured key")
  else .ok key

/-- A key and a value, if there is a colon outside of quotes that does not come first. -/
def splitPair (value : Text) : PreviewResult (Option (Text × Text)) :=
  match unquotedIndex value ':' with
  | none | some 0 => .ok none
  | some (index + 1) => do
    let key ← unquoteKey (trim (value.take (index + 1)))
    pure (some (key, trim (value.drop (index + 2))))

section

variable {key value : Text}

/-- A text that is read as a key as it stands, and before a colon. -/
structure PlainKey (key : Text) : Prop where
  trimmed : Trimmed key
  ne_nil : key ≠ []
  notMem : key ∉ unsafeKeys
  quotes : ∀ c ∈ key, isQuote c = false
  colon : ':' ∉ key

theorem unquote_of_head {c : Char} (h : key.head? ≠ some c) : unquote c key = none := by
  simp [unquote, isEnclosed, h]

theorem PlainKey.unquoteKey_eq (h : PlainKey key) : unquoteKey key = .ok key := by
  have hhead : ∀ c, isQuote c → key.head? ≠ some c := fun c hc hhead =>
    Bool.false_ne_true ((h.quotes c (List.mem_of_mem_head? hhead)).symm.trans hc)
  unfold unquoteKey
  simp only [h.trimmed.trim_eq, unquote_of_head (hhead '"' rfl), unquote_of_head (hhead '\'' rfl)]
  simp [h.ne_nil, h.notMem]

/-- A key is split from its value. -/
theorem PlainKey.splitPair_append (h : PlainKey key) (value : Text) :
    splitPair (key ++ ':' :: value) = .ok (some (key, trim value)) := by
  obtain ⟨n, hn⟩ := Nat.exists_eq_succ_of_ne_zero
    (mt List.length_eq_zero_iff.1 h.ne_nil)
  have hindex : unquotedIndex (key ++ ':' :: value) ':' = some (n + 1) :=
    (unquotedIndexFrom_append rfl h.colon h.quotes value).trans (congrArg some hn)
  have htake : (key ++ ':' :: value).take (n + 1) = key := List.take_left' hn
  have hdrop : (key ++ ':' :: value).drop (n + 2) = value := by
    rw [show n + 2 = n + 1 + 1 from rfl, ← List.drop_drop, List.drop_left' hn]
    rfl
  rw [splitPair, hindex]
  simp only [htake, hdrop, h.trimmed.trim_eq, h.unquoteKey_eq]
  rfl

/-- Without a colon there is no key. -/
theorem splitPair_of_notMem (h : ':' ∉ value) : splitPair value = .ok none := by
  rw [splitPair, unquotedIndex, unquotedIndexFrom_of_notMem h]

end

end Tabulark.Preview
