import Tabulark.Preview.Yaml

/-!
# Block YAML

A tree is printed in block style: every scalar and every key on a line, containers
indented by two more than what they belong to, and the first line of an item after
its dash. Lines have contents of a few kinds (`Content`), and the scans of the parser
find in them what was printed.
-/

namespace Tabulark.Preview

open Text

/-! ## Trees -/

inductive YamlScalar
  | null
  | boolean (value : Bool)
  | integer (value : ℤ)
  | text (value : Text)
  deriving DecidableEq, Repr

inductive YamlTree
  | scalar (value : YamlScalar)
  | sequence (items : List YamlTree)
  | mapping (fields : List (Text × YamlTree))

def YamlScalar.value : YamlScalar → Value Text
  | null => .null
  | boolean b => .boolean b
  | integer n => .number (.finite n)
  | text s => .string s

namespace YamlTree

mutual

/-- What a tree is as a value. Objects have no prototype. -/
def value : YamlTree → Value Text
  | scalar s => s.value
  | sequence items => .array (itemValues items)
  | mapping fields => .object .none (fieldValues fields)

def itemValues : List YamlTree → List (Value Text)
  | [] => []
  | item :: items => item.value :: itemValues items

def fieldValues : List (Text × YamlTree) → List (Text × Value Text)
  | [] => []
  | (key, tree) :: fields => (key, tree.value) :: fieldValues fields

end

mutual

/-- A tree and all that it is made of. -/
def nodes : YamlTree → List YamlTree
  | scalar s => [scalar s]
  | sequence items => sequence items :: itemNodes items
  | mapping fields => mapping fields :: fieldNodes fields

def itemNodes : List YamlTree → List YamlTree
  | [] => []
  | item :: items => item.nodes ++ itemNodes items

def fieldNodes : List (Text × YamlTree) → List YamlTree
  | [] => []
  | (_, tree) :: fields => tree.nodes ++ fieldNodes fields

end

def isScalar : YamlTree → Bool
  | scalar _ => true
  | _ => false

variable {t item : YamlTree} {items : List YamlTree} {fields : List (Text × YamlTree)}

theorem itemValues_eq (items : List YamlTree) : itemValues items = items.map value := by
  induction items with
  | nil => rfl
  | cons item items ih => rw [itemValues, ih, List.map_cons]

theorem fieldValues_eq (fields : List (Text × YamlTree)) :
    fieldValues fields = fields.map fun field => (field.1, field.2.value) := by
  induction fields with
  | nil => rfl
  | cons field fields ih => rw [fieldValues, ih, List.map_cons]

@[simp] theorem self_mem_nodes (t : YamlTree) : t ∈ t.nodes := by
  cases t <;> simp [nodes]

theorem mem_itemNodes : t ∈ itemNodes items ↔ ∃ item ∈ items, t ∈ item.nodes := by
  induction items with
  | nil => simp [itemNodes]
  | cons item items ih => simp [itemNodes, ih]

theorem mem_fieldNodes : t ∈ fieldNodes fields ↔ ∃ field ∈ fields, t ∈ field.2.nodes := by
  induction fields with
  | nil => simp [fieldNodes]
  | cons field fields ih => simp [fieldNodes, ih]

theorem mem_sequence_nodes (hitem : item ∈ items) (h : t ∈ item.nodes) :
    t ∈ (sequence items).nodes := by
  rw [nodes]
  exact List.mem_cons_of_mem _ (mem_itemNodes.2 ⟨item, hitem, h⟩)

theorem mem_mapping_nodes {field : Text × YamlTree} (hfield : field ∈ fields)
    (h : t ∈ field.2.nodes) : t ∈ (mapping fields).nodes := by
  rw [nodes]
  exact List.mem_cons_of_mem _ (mem_fieldNodes.2 ⟨field, hfield, h⟩)

/-- Induction on what a tree is made of. -/
theorem induction {P : YamlTree → Prop} (scalar : ∀ s, P (scalar s))
    (sequence : ∀ items, (∀ item ∈ items, P item) → P (sequence items))
    (mapping : ∀ fields, (∀ field ∈ fields, P field.2) → P (mapping fields)) (t : YamlTree) :
    P t := by
  refine @YamlTree.rec P (fun items => ∀ item ∈ items, P item)
    (fun fields => ∀ field ∈ fields, P field.2) (fun field => P field.2) scalar sequence mapping
    (by simp) ?_ (by simp) ?_ (fun _ _ h => h) t
  · exact fun _ _ hitem hitems => List.forall_mem_cons.2 ⟨hitem, hitems⟩
  · exact fun _ _ hfield hfields => List.forall_mem_cons.2 ⟨hfield, hfields⟩

end YamlTree

/-! ## Printing -/

def isIdentifierStart (c : Char) : Bool := c.isAlpha || c == '_'

/-- Letters, digits and underscores that do not begin with a digit. -/
def isIdentifier (s : Text) : Bool :=
  match s with
  | [] => false
  | c :: rest => isIdentifierStart c && rest.all fun c => isIdentifierStart c || c.isDigit

/-- Letters, digits and spaces. What is not ASCII counts as one. -/
def isWordChar (c : Char) : Bool := c.isAlphanum || c == ' ' || 128 ≤ c.toNat

def printInteger (n : ℤ) : Text :=
  if n < 0 then '-' :: Nat.toDigits 10 n.natAbs else Nat.toDigits 10 n.natAbs

def YamlScalar.print : YamlScalar → Text
  | null => ['n', 'u', 'l', 'l']
  | boolean true => ['t', 'r', 'u', 'e']
  | boolean false => ['f', 'a', 'l', 's', 'e']
  | integer n => printInteger n
  | text s => '"' :: (s ++ ['"'])

/-- Puts the first of some lines after a dash. -/
def afterDash (indent : ℕ) : List (ℕ × Text) → List (ℕ × Text)
  | [] => []
  | line :: lines => (indent, '-' :: ' ' :: line.2) :: lines

namespace YamlTree

mutual

/-- The lines of a tree, each with its indentation. A sequence that is an item begins after the
    dash if it is compact. -/
def lines (compact : Bool) (indent : ℕ) : YamlTree → List (ℕ × Text)
  | scalar s => [(indent, s.print)]
  | sequence items => itemLines compact indent items
  | mapping fields => fieldLines compact indent fields

def itemLines (compact : Bool) (indent : ℕ) : List YamlTree → List (ℕ × Text)
  | [] => []
  | item :: items =>
    let below := item.lines compact (indent + 2)
    (match item with
      | sequence _ => if compact then afterDash indent below else (indent, ['-']) :: below
      | _ => afterDash indent below) ++ itemLines compact indent items

def fieldLines (compact : Bool) (indent : ℕ) : List (Text × YamlTree) → List (ℕ × Text)
  | [] => []
  | (key, tree) :: fields =>
    (match tree with
      | scalar s => [(indent, key ++ ':' :: ' ' :: s.print)]
      | _ => (indent, key ++ [':']) :: tree.lines compact (indent + 2)) ++
      fieldLines compact indent fields

end

/-- What a tree needs to be printed, at its root. -/
def PrintableNode : YamlTree → Prop
  | scalar (.text s) => ∀ c ∈ s, isWordChar c
  | scalar _ => True
  | sequence items => items ≠ []
  | mapping fields => fields ≠ [] ∧ (fields.map Prod.fst).Nodup ∧
      ∀ field ∈ fields, isIdentifier field.1 ∧ field.1 ∉ unsafeKeys

/-- Containers are not empty, keys are distinct identifiers that are not unsafe, and texts have
    only letters, digits and spaces. -/
def Printable (t : YamlTree) : Prop := ∀ node ∈ t.nodes, node.PrintableNode

end YamlTree

/-! ### Characters -/

/-- What a key, a number or a quoted text begins and ends with. -/
def isVisible (c : Char) : Bool := c.isAlphanum || c == '-' || c == '_' || c == '"' || c == ':'

/-- What printed lines are made of. -/
def isPrinted (c : Char) : Bool := isVisible c || isWordChar c

section

variable {c : Char} {key s : Text} {n : ℤ}

theorem isSpace_of_isVisible (h : isVisible c) : isSpace c = false := by
  obtain ⟨⟨n, hn⟩, hc⟩ := c
  simp [isVisible, Char.isAlphanum, Char.isAlpha, Char.isUpper, Char.isLower, Char.isDigit,
    UInt32.le_iff_toNat_le, Char.ext_iff, ← UInt32.toNat_inj] at h
  simp [isSpace, Char.toNat]
  omega

theorem isIdentifier_mem (h : isIdentifier key) (hc : c ∈ key) : c.isAlphanum ∨ c = '_' := by
  cases key with
  | nil => simp at hc
  | cons first rest =>
    simp [isIdentifier, isIdentifierStart] at h
    simp [Char.isAlphanum]
    grind

theorem isQuote_of_isAlphanum (h : c.isAlphanum) : isQuote c = false := by
  rw [isQuote, Bool.or_eq_false_iff, beq_eq_false_iff_ne, beq_eq_false_iff_ne]
  constructor <;> rintro rfl <;> exact Bool.false_ne_true h

theorem isVisible_of_isIdentifier (h : isIdentifier key) : ∀ c ∈ key, isVisible c := by
  intro c hc
  obtain hc | rfl := isIdentifier_mem h hc
  · simp [isVisible, hc]
  · rfl

theorem isDigit_of_mem_printInteger (h : c ∈ printInteger n) : c = '-' ∨ c.isDigit := by
  rw [printInteger] at h
  split at h
  · obtain rfl | h := List.mem_cons.1 h
    · exact .inl rfl
    · exact .inr (Nat.isDigit_of_mem_toDigits (by decide) (by decide) h)
  · exact .inr (Nat.isDigit_of_mem_toDigits (by decide) (by decide) h)

theorem isVisible_of_mem_printInteger (h : c ∈ printInteger n) : isVisible c := by
  obtain rfl | hdigit := isDigit_of_mem_printInteger h
  · rfl
  · simp [isVisible, Char.isAlphanum, hdigit]

end

/-! ### Contents -/

/-- A key that is printed. -/
def IsKey (key : Text) : Prop := isIdentifier key ∧ key ∉ unsafeKeys

/-- What lines have after their indentation. -/
inductive Content : Text → Prop
  | scalar {s : YamlScalar} : YamlTree.PrintableNode (.scalar s) → Content s.print
  | field {key} {s : YamlScalar} : IsKey key → YamlTree.PrintableNode (.scalar s) →
      Content (key ++ ':' :: ' ' :: s.print)
  | key {key} : IsKey key → Content (key ++ [':'])
  | dash : Content ['-']
  | item {content} : Content content → Content ('-' :: ' ' :: content)

section

variable {c : Char} {key content : Text} {s : YamlScalar}

theorem isPrinted_of_isVisible (h : isVisible c) : isPrinted c := by
  rw [isPrinted, h, Bool.true_or]

theorem IsKey.ne_nil (h : IsKey key) : key ≠ [] := by
  rintro rfl
  exact Bool.false_ne_true h.1

theorem IsKey.trimmed (h : IsKey key) : Trimmed key :=
  trimmed_of_forall fun c hc => isSpace_of_isVisible (isVisible_of_isIdentifier h.1 c hc)

theorem IsKey.plainKey (h : IsKey key) : PlainKey key where
  trimmed := h.trimmed
  ne_nil := h.ne_nil
  notMem := h.2
  quotes := fun c hc => by
    have hc := isIdentifier_mem h.1 hc
    rcases hc with hc | rfl
    · exact isQuote_of_isAlphanum hc
    · rfl
  colon := fun hc => by
    obtain hc | hc := isIdentifier_mem h.1 hc
    · exact Bool.false_ne_true hc
    · exact absurd hc (by decide)

theorem IsKey.exists_not_digit (h : IsKey key) : ∃ c ∈ key, c.isDigit = false := by
  obtain ⟨hkey, -⟩ := h
  cases key with
  | nil => exact absurd hkey Bool.false_ne_true
  | cons c rest =>
    refine ⟨c, List.mem_cons_self, ?_⟩
    rw [isIdentifier, Bool.and_eq_true, isIdentifierStart, Bool.or_eq_true] at hkey
    obtain hc | hc := hkey.1
    · simp [Char.isAlpha, Char.isUpper, Char.isLower, Char.isDigit,
        UInt32.le_iff_toNat_le] at hc ⊢
      omega
    · rw [beq_iff_eq.1 hc]
      rfl

theorem IsKey.append_ne_item (h : IsKey key) (rest : Text) {item : Text} :
    ['-', ' '] ++ item ≠ key ++ rest := by
  obtain ⟨hkey, -⟩ := h
  cases key with
  | nil => exact absurd hkey Bool.false_ne_true
  | cons c key =>
    rintro heq
    obtain ⟨rfl, -⟩ := List.cons.inj heq
    exact Bool.false_ne_true hkey

/-- After a dash a key is still read as it stands. -/
theorem PlainKey.afterDash (h : PlainKey key) : PlainKey ('-' :: ' ' :: key) where
  trimmed := (trimmed_of_all (s := ['-']) rfl).append_append h.trimmed (by simp)
    h.ne_nil [' ']
  ne_nil := by simp
  notMem := by simp [unsafeKeys]
  quotes := List.forall_mem_cons.2 ⟨rfl, List.forall_mem_cons.2 ⟨rfl, h.quotes⟩⟩
  colon := by simpa using h.colon

theorem YamlScalar.print_ne_nil (s : YamlScalar) : s.print ≠ [] := by
  cases s with
  | integer n =>
    rw [print, printInteger]
    split
    · simp
    · exact Nat.toDigits_ne_nil
  | boolean b => cases b <;> simp [print]
  | _ => simp [print]

theorem YamlScalar.isPrinted_of_mem (hs : YamlTree.PrintableNode (.scalar s)) :
    ∀ c ∈ s.print, isPrinted c := by
  cases s with
  | null => exact List.all_eq_true.1 rfl
  | boolean b => cases b <;> exact List.all_eq_true.1 rfl
  | integer n => exact fun c hc => isPrinted_of_isVisible (isVisible_of_mem_printInteger hc)
  | text s =>
    intro c hc
    simp only [print, List.mem_cons, List.mem_append, List.not_mem_nil, or_false] at hc
    obtain rfl | hc | rfl := hc
    · rfl
    · rw [isPrinted, hs c hc, Bool.or_true]
    · rfl

theorem YamlScalar.colon_notMem (hs : YamlTree.PrintableNode (.scalar s)) : ':' ∉ s.print := by
  cases s with
  | null => decide
  | boolean b => cases b <;> decide
  | integer n =>
    intro hc
    obtain hc | hc := isDigit_of_mem_printInteger hc
    · exact absurd hc (by decide)
    · exact Bool.false_ne_true hc
  | text s =>
    intro hc
    simp only [print, List.mem_cons, List.mem_append, List.not_mem_nil, or_false] at hc
    obtain hc | hc | hc := hc
    · exact absurd hc (by decide)
    · exact Bool.false_ne_true (hs _ hc)
    · exact absurd hc (by decide)

theorem YamlScalar.ne_item (s : YamlScalar) {item : Text} : ['-', ' '] ++ item ≠ s.print := by
  cases s with
  | integer n =>
    intro heq
    have hspace : ' ' ∈ printInteger n := by
      rw [← show _ = printInteger n from heq]
      simp
    obtain hc | hc := isDigit_of_mem_printInteger hspace
    · exact absurd hc (by decide)
    · exact Bool.false_ne_true hc
  | boolean b => cases b <;> simp [print]
  | _ => simp [print]

theorem YamlScalar.trimmed (s : YamlScalar) : Trimmed s.print := by
  cases s with
  | null => exact trimmed_of_all rfl
  | boolean b => cases b <;> exact trimmed_of_all rfl
  | integer n =>
    exact trimmed_of_forall fun c hc => isSpace_of_isVisible (isVisible_of_mem_printInteger hc)
  | text s =>
    have hquote : Trimmed ['"'] := trimmed_of_all rfl
    exact hquote.append_append hquote (by simp) (by simp) s

namespace Content

theorem ne_nil (h : Content content) : content ≠ [] := by
  cases h with
  | scalar => exact YamlScalar.print_ne_nil _
  | _ => simp

theorem trimmed (h : Content content) : Trimmed content := by
  have hdash : Trimmed ['-'] := trimmed_of_all rfl
  have hcolon : Trimmed [':'] := trimmed_of_all rfl
  induction h with
  | scalar => exact YamlScalar.trimmed _
  | field hkey =>
    exact hkey.trimmed.append_append (YamlScalar.trimmed _) hkey.ne_nil
      (YamlScalar.print_ne_nil _) [':', ' ']
  | key hkey => exact hkey.trimmed.append_append hcolon hkey.ne_nil (by simp) []
  | dash => exact hdash
  | item h ih => exact hdash.append_append ih (by simp) h.ne_nil [' ']

theorem isPrinted_of_mem (h : Content content) : ∀ c ∈ content, isPrinted c := by
  have hvisible : ∀ {key}, IsKey key → ∀ c ∈ key, isPrinted c := fun hkey c hc =>
    isPrinted_of_isVisible (isVisible_of_isIdentifier hkey.1 c hc)
  induction h with
  | scalar hs => exact YamlScalar.isPrinted_of_mem hs
  | field hkey hs =>
    refine List.forall_mem_append.2 ⟨hvisible hkey, ?_⟩
    exact List.forall_mem_cons.2 ⟨rfl, List.forall_mem_cons.2
      ⟨rfl, YamlScalar.isPrinted_of_mem hs⟩⟩
  | key hkey => exact List.forall_mem_append.2 ⟨hvisible hkey, List.all_eq_true.1 rfl⟩
  | dash => exact List.all_eq_true.1 rfl
  | item _ ih => exact List.forall_mem_cons.2 ⟨rfl, List.forall_mem_cons.2 ⟨rfl, ih⟩⟩

theorem notMem (h : Content content) (hc : isPrinted c = false) : c ∉ content := fun hmem =>
  Bool.false_ne_true (hc.symm.trans (h.isPrinted_of_mem c hmem))

/-- Contents have no comments. -/
theorem stripYamlComment_eq (h : Content content) : stripYamlComment content = content := by
  rw [stripYamlComment, stripQuotedComment, stripCommentFrom_of_notMem (h.notMem rfl),
    trimEnd_of_getLast h.trimmed.last]

theorem trim_eq (h : Content content) : trim content = content := h.trimmed.trim_eq

theorem eq_item (h : Content content) (hdash : ['-', ' '].isPrefixOf content) :
    ∃ item, content = '-' :: ' ' :: item ∧ Content item := by
  obtain ⟨item, rfl⟩ := List.isPrefixOf_iff_prefix.1 hdash
  refine ⟨item, rfl, ?_⟩
  generalize hcontent : ['-', ' '] ++ item = content at h
  cases h with
  | scalar hs => exact absurd hcontent (YamlScalar.ne_item _)
  | field hkey => exact absurd hcontent (hkey.append_ne_item _)
  | key hkey => exact absurd hcontent (hkey.append_ne_item _)
  | dash => simp at hcontent
  | item h =>
    simp only [List.cons_append, List.nil_append, List.cons.injEq, true_and] at hcontent
    exact hcontent ▸ h

/-- A content has a key before its first colon, if it has a colon. -/
theorem eq_pair (h : Content content) : ':' ∉ content ∨ ∃ key value,
    content = key ++ ':' :: value ∧ PlainKey key ∧ ∃ c ∈ key, c.isDigit = false := by
  induction h with
  | @scalar s hs => exact .inl (YamlScalar.colon_notMem hs)
  | field hkey => exact .inr ⟨_, _, rfl, hkey.plainKey, hkey.exists_not_digit⟩
  | key hkey => exact .inr ⟨_, _, rfl, hkey.plainKey, hkey.exists_not_digit⟩
  | dash => exact .inl (by decide)
  | @item content h ih =>
    obtain hcolon | ⟨key, value, rfl, hkey, -⟩ := ih
    · exact .inl (by simpa using hcolon)
    · exact .inr ⟨'-' :: ' ' :: key, value, rfl, hkey.afterDash, '-', by simp, rfl⟩

end Content

end

/-! ### Reading scalars -/

section

variable {s : YamlScalar} {text : Text} {n : ℤ}

theorem splitSign_digits {digits : Text} (hdigits : digits.all Char.isDigit) :
    splitSign digits = (false, digits) := by
  cases digits with
  | nil => rfl
  | cons c rest =>
    have hc : c.isDigit := List.all_eq_true.1 hdigits c List.mem_cons_self
    rw [splitSign]
    · rintro _ ⟨⟩
      exact absurd hc (by decide)
    · rintro _ ⟨⟩
      exact absurd hc (by decide)

theorem decimal_digits {value digits : Text} (negative : Bool)
    (hsign : splitSign value = (negative, digits)) (hdigits : digits.all Char.isDigit)
    (hne : digits ≠ []) : decimal? value =
      some ((if negative then (-1 : ℚ) else 1) * Nat.ofDigitChars 10 digits 0) := by
  have htake : digits.takeWhile Char.isDigit = digits :=
    List.takeWhile_eq_self_iff.2 (by simpa using hdigits)
  have hdrop : digits.dropWhile Char.isDigit = [] :=
    List.dropWhile_eq_nil_iff.2 (by simpa using hdigits)
  rw [decimal?, hsign]
  simp [htake, hdrop, hne, exponent?]

/-- A printed integer is a decimal number. -/
theorem decimal_printInteger (n : ℤ) : decimal? (printInteger n) = some (n : ℚ) := by
  have hall : (Nat.toDigits 10 n.natAbs).all Char.isDigit :=
    List.all_eq_true.2 fun c hc => Nat.isDigit_of_mem_toDigits (by decide) (by decide) hc
  rw [printInteger]
  split
  · rename_i hn
    rw [decimal_digits true rfl hall Nat.toDigits_ne_nil,
      Nat.ofDigitChars_ten_toDigits, if_pos rfl, Nat.cast_natAbs, abs_of_neg hn]
    simp
  · rename_i hn
    rw [decimal_digits false (splitSign_digits hall) hall Nat.toDigits_ne_nil,
      Nat.ofDigitChars_ten_toDigits, if_neg Bool.false_ne_true, Nat.cast_natAbs,
      abs_of_nonneg (not_lt.1 hn), one_mul]

theorem number_printInteger (hn : JsNumber.ofRat n = .finite n) :
    number? (printInteger n) = some (n : ℚ) := by
  rw [number?, decimal_printInteger, Option.map_some, hn]

/-- Without a digit there is no number. -/
theorem number_of_head {c : Char} {value : Text}
    (hsign : splitSign (c :: value) = (false, c :: value)) (hdigit : c.isDigit = false)
    (hpoint : c ≠ '.') : number? (c :: value) = none := by
  have htake : (c :: value).takeWhile Char.isDigit = [] := by
    rw [List.takeWhile_cons, hdigit]
    rfl
  have hdrop : (c :: value).dropWhile Char.isDigit = c :: value := by
    rw [List.dropWhile_cons, hdigit]
    rfl
  have hnone : decimal? (c :: value) = none := by
    rw [decimal?, hsign]
    simp only [htake, hdrop]
    split
    · rename_i hcons
      exact absurd (List.cons.inj hcons).1 hpoint
    · simp
  rw [number?, hnone]
  rfl

/-- Whether a text that begins with some character is not one of the words. -/
def isWordless (c : Char) : Bool :=
  c != 'n' && c != '~' && c.toLower != 't' && c.toLower != 'f'

theorem isWordless_of_isDigit {c : Char} (hc : c.isDigit) : isWordless c := by
  have hlower : c.toLower = c := by
    refine dif_neg fun h => ?_
    simp only [Char.isDigit, Bool.and_eq_true, decide_eq_true_eq] at hc
    exact absurd (UInt32.le_trans h.1 hc.2) (by decide)
  simp only [isWordless, hlower, Bool.and_eq_true, bne_iff_ne, and_assoc]
  refine ⟨?_, ?_, ?_, ?_⟩ <;> rintro rfl <;> exact Bool.false_ne_true hc

/-- A number is read if it does not begin like a word. -/
theorem scalar_of_number {c : Char} {value : Text} {q : ℚ} (htrim : Trimmed (c :: value))
    (hc : isWordless c) (hnumber : number? (c :: value) = some q) :
    scalar (c :: value) = .number (.finite q) := by
  simp only [isWordless, Bool.and_eq_true, bne_iff_ne, ne_eq] at hc
  rw [scalar, scalarWithin]
  simp [htrim.trim_eq, hc, equalsIgnoreCase, hnumber]

/-- So is a text in double quotes. -/
theorem scalar_quoted (value : Text) : scalar ('"' :: (value ++ ['"'])) = .string value := by
  have htrim : Trimmed ('"' :: (value ++ ['"'])) := YamlScalar.trimmed (.text value)
  have hnone : number? ('"' :: (value ++ ['"'])) = none := number_of_head rfl rfl (by decide)
  rw [scalar, scalarWithin]
  simp [htrim.trim_eq, equalsIgnoreCase, hnone, isEnclosed, inner, List.getLast?_cons,
    show Char.toLower '"' = '"' from rfl]

/-- What was printed is read, if an integer is a double. -/
theorem YamlScalar.scalar_print (s : YamlScalar)
    (hs : ∀ n : ℤ, s = .integer n → JsNumber.ofRat n = .finite n) : scalar s.print = s.value := by
  cases s with
  | null => rfl
  | boolean b => cases b <;> rfl
  | integer n =>
    have hnumber := number_printInteger (hs n rfl)
    have htrim : Trimmed (printInteger n) := YamlScalar.trimmed (.integer n)
    have hne : printInteger n ≠ [] := YamlScalar.print_ne_nil (.integer n)
    have hwordless : ∀ c ∈ printInteger n, isWordless c := fun c hc => by
      obtain rfl | hc := isDigit_of_mem_printInteger hc
      · rfl
      · exact isWordless_of_isDigit hc
    rw [print, value]
    generalize printInteger n = digits at *
    cases digits with
    | nil => exact absurd rfl hne
    | cons c rest => exact scalar_of_number htrim (hwordless c List.mem_cons_self) hnumber
  | text s => exact scalar_quoted s

end

def rawLine (line : ℕ × Text) : Text := List.replicate line.1 ' ' ++ line.2

/-- A blank line, or a comment. -/
def Noise (line : Text) : Prop :=
  ∃ ws rest, line = ws ++ rest ∧ (∀ c ∈ ws, c = ' ' ∨ c = '\t') ∧
    (rest = [] ∨ ∃ comment, rest = '#' :: comment)

/-- Lines with blank lines and comments between them. -/
inductive Interspersed : List Text → List Text → Prop
  | nil : Interspersed [] []
  | noise {line printed all} : Noise line → Interspersed printed all →
      Interspersed printed (line :: all)
  | line {line printed all} : Interspersed printed all →
      Interspersed (line :: printed) (line :: all)

/-- A text is a tree that was printed. -/
def YamlTree.Renders (t : YamlTree) (compact : Bool) (text : Text) : Prop :=
  ∃ lines last, text = joinLines lines last ∧ (∀ line ∈ lines, Unbroken line.1) ∧
    Unbroken last ∧
    Interspersed ((t.lines compact 0).map rawLine) (lines.map Prod.fst ++ [last])

end Tabulark.Preview
