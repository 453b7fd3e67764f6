import Mathlib

/-!
# Texts

Texts as lists of characters, with what scripts of the web do to them: trimming
white space and splitting at line ends.
-/

namespace Tabulark

abbrev Text := List Char

namespace Text

/-! ## White space -/

/-- White space and line ends. -/
def isSpace (c : Char) : Bool :=
  let n := c.toNat
  (9 ≤ n && n ≤ 13) || n == 32 || n == 0xa0 || n == 0x1680 || (0x2000 ≤ n && n ≤ 0x200a) ||
    n == 0x2028 || n == 0x2029 || n == 0x202f || n == 0x205f || n == 0x3000 || n == 0xfeff

def trimStart (s : Text) : Text := s.dropWhile isSpace

def trimEnd (s : Text) : Text := s.rdropWhile isSpace

def trim (s : Text) : Text := trimEnd (trimStart s)

/-- How many characters of white space a text begins with. -/
def indentation (s : Text) : ℕ := s.length - (trimStart s).length

variable {s t ws : Text} {c : Char}

theorem trimStart_append (hws : ∀ c ∈ ws, isSpace c) : trimStart (ws ++ s) = trimStart s := by
  rw [trimStart, List.dropWhile_append, List.dropWhile_eq_nil_iff.2 hws]
  rfl

theorem trimStart_of_head (hhead : ∀ c ∈ s.head?, isSpace c = false) : trimStart s = s := by
  cases s with
  | nil => rfl
  | cons c s => simp [trimStart, hhead c rfl]

theorem trimEnd_of_getLast (hlast : ∀ c ∈ s.getLast?, isSpace c = false) : trimEnd s = s := by
  refine List.rdropWhile_eq_self_iff.2 fun hne hspace => ?_
  rw [hlast _ (List.getLast?_eq_some_getLast hne)] at hspace
  exact Bool.false_ne_true hspace

/-- White space before a text is its indentation. -/
theorem indentation_append (hws : ∀ c ∈ ws, isSpace c) (hhead : ∀ c ∈ s.head?, isSpace c = false) :
    indentation (ws ++ s) = ws.length := by
  rw [indentation, trimStart_append hws, trimStart_of_head hhead, List.length_append,
    Nat.add_sub_cancel]

/-- A text that neither begins nor ends with white space. -/
structure Trimmed (s : Text) : Prop where
  head : ∀ c ∈ s.head?, isSpace c = false
  last : ∀ c ∈ s.getLast?, isSpace c = false

theorem Trimmed.trim_eq (h : Trimmed s) : trim s = s := by
  rw [trim, trimStart_of_head h.head, trimEnd_of_getLast h.last]

theorem Trimmed.trim_append (h : Trimmed s) (hws : ∀ c ∈ ws, isSpace c) : trim (ws ++ s) = s := by
  rw [trim, trimStart_append hws, trimStart_of_head h.head, trimEnd_of_getLast h.last]

theorem trimmed_of_forall (h : ∀ c ∈ s, isSpace c = false) : Trimmed s where
  head := fun c hc => h c (List.mem_of_mem_head? hc)
  last := fun c hc => h c (List.mem_of_mem_getLast? hc)

theorem trimmed_of_all (h : s.all (fun c => !isSpace c) = true) : Trimmed s :=
  trimmed_of_forall fun c hc => Bool.not_inj (List.all_eq_true.1 h c hc)

/-- Whatever is between two trimmed texts is not trimmed. -/
theorem Trimmed.append_append (hs : Trimmed s) (ht : Trimmed t) (hsne : s ≠ []) (htne : t ≠ [])
    (between : Text) : Trimmed (s ++ (between ++ t)) where
  head := by
    rw [List.head?_append_of_ne_nil _ hsne]
    exact hs.head
  last := by
    rw [← List.append_assoc, List.getLast?_append_of_ne_nil _ htne]
    exact ht.last

theorem mem_of_mem_trim (h : c ∈ trim s) : c ∈ s :=
  List.dropWhile_subset _ ((List.rdropWhile_prefix isSpace _).subset h)

/-! ## Lines -/

/-- Splits a text at its line ends. -/
def splitLines : Text → List Text
  | [] => [[]]
  | '\r' :: '\n' :: s => [] :: splitLines s
  | '\n' :: s => [] :: splitLines s
  | c :: s =>
    match splitLines s with
    | [] => [[c]]
    | line :: lines => (c :: line) :: lines

/-- How a line ends. -/
inductive LineEnd
  | lf
  | crlf
  deriving DecidableEq, Repr

def LineEnd.text : LineEnd → Text
  | lf => ['\n']
  | crlf => ['\r', '\n']

/-- A text without line ends. -/
def Unbroken (s : Text) : Prop := ∀ c ∈ s, c ≠ '\n' ∧ c ≠ '\r'

theorem splitLines_cons (hn : c ≠ '\n') (hr : c ≠ '\r') :
    splitLines (c :: s) = match splitLines s with
      | [] => [[c]]
      | line :: lines => (c :: line) :: lines := by
  rw [splitLines]
  · simp [hr]
  · simp [hn]

theorem splitLines_end (e : LineEnd) (s : Text) :
    splitLines (e.text ++ s) = [] :: splitLines s := by
  cases e <;> simp [LineEnd.text, splitLines]

/-- A line that ends is the first of a text. -/
theorem splitLines_append (hline : Unbroken s) (e : LineEnd) :
    splitLines (s ++ (e.text ++ t)) = s :: splitLines t := by
  induction s with
  | nil => exact splitLines_end e t
  | cons c s ih =>
    obtain ⟨hc, hs⟩ := List.forall_mem_cons.1 hline
    rw [List.cons_append, splitLines_cons hc.1 hc.2, ih hs]

/-- A text without line ends is one line. -/
theorem splitLines_of_unbroken (hline : Unbroken s) : splitLines s = [s] := by
  induction s with
  | nil => rfl
  | cons c s ih =>
    obtain ⟨hc, hs⟩ := List.forall_mem_cons.1 hline
    rw [splitLines_cons hc.1 hc.2, ih hs]

/-- Lines with their ends, and a last one without. -/
def joinLines (lines : List (Text × LineEnd)) (last : Text) : Text :=
  lines.foldr (fun line s => line.1 ++ (line.2.text ++ s)) last

/-- A text of lines is split into them. -/
theorem splitLines_joinLines {lines : List (Text × LineEnd)} {last : Text}
    (hlines : ∀ line ∈ lines, Unbroken line.1) (hlast : Unbroken last) :
    splitLines (joinLines lines last) = lines.map Prod.fst ++ [last] := by
  induction lines with
  | nil => exact splitLines_of_unbroken hlast
  | cons line lines ih =>
    obtain ⟨hline, hlines⟩ := List.forall_mem_cons.1 hlines
    change splitLines (line.1 ++ (line.2.text ++ joinLines lines last)) = _
    rw [splitLines_append hline, ih hlines]
    rfl

end Text

end Tabulark
