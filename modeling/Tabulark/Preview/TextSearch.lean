import Mathlib
import Tabulark.Lib.Occurrences
import Tabulark.Lib.Utf16
import Tabulark.Preview.Value

/-!
# Searching a text

A session of a text finds a query with a limit of matches, and gives for each the
line that it is on. If letters of either case count as the same, the query in lower
case is looked for in the text in lower case, and what is found there is a position
in the text. That is right exactly if the lower case of what is before the matches
is as long as itself, accidents apart (`search_iff`).
-/

namespace Tabulark.Preview

open Occurrences

/-! ## Lines -/

def lineFeed : CodeUnit := 10

def carriageReturn : CodeUnit := 13

/-- The positions after line feeds, counted from some position on. -/
def lineStartsFrom : ℕ → List CodeUnit → List ℕ
  | _, [] => []
  | index, u :: text =>
    if u = lineFeed then (index + 1) :: lineStartsFrom (index + 1) text
    else lineStartsFrom (index + 1) text

/-- Where lines start. -/
def lineStarts (text : List CodeUnit) : List ℕ := 0 :: lineStartsFrom 0 text

/-- Moves the end of a line before its line end. -/
def trimNewline (text : List CodeUnit) (start stop : ℕ) : ℕ :=
  let result := if start < stop ∧ text[stop - 1]? = some lineFeed then stop - 1 else stop
  if start < result ∧ text[result - 1]? = some carriageReturn then result - 1 else result

/-- Searches between two lines for the last one that starts no later than an offset. -/
def findLineIn (starts : List ℕ) (offset low high : ℕ) : ℕ :=
  if low + 1 < high then
    let middle := (low + high) / 2
    if starts.getD middle 0 ≤ offset then findLineIn starts offset middle high
    else findLineIn starts offset low middle
  else low
termination_by high - low

def findLine (starts : List ℕ) (offset : ℕ) : ℕ := findLineIn starts offset 0 starts.length

/-! ## Sessions -/

structure TextSearchMatch where
  start : ℕ
  stop : ℕ
  line : ℕ
  preview : List CodeUnit
  deriving DecidableEq, Repr

structure LocalTextSession where
  isClosed : Bool
  text : List CodeUnit
  starts : List ℕ
  lineCount : ℕ
  maxSearchResults : ℕ

/-- A session for a text. -/
def LocalTextSession.new (text : List CodeUnit) (maxSearchResults : ℕ) : LocalTextSession where
  isClosed := false
  text := text
  starts := lineStarts text
  lineCount := (lineStarts text).length
  maxSearchResults := maxSearchResults

/-- What a call throws. -/
inductive SearchError
  | preview (error : PreviewError)
  | range (message : String)
  deriving DecidableEq, Repr

def sessionClosed : PreviewError where
  code := .handleClosed
  message := "The preview session is closed"

structure SearchOptions where
  caseSensitive : Option Bool := none
  maxResults : Option ℚ := none

def isSafeInteger (value : ℚ) : Bool := value.den = 1 && |value| ≤ 2 ^ 53 - 1

/-- A text in lower case, given the lower case of each unit. -/
def toLocaleLowerCase (lower : CodeUnit → List CodeUnit) (text : List CodeUnit) : List CodeUnit :=
  text.flatMap lower

namespace LocalTextSession

/-- A match at an offset, with the beginning of its line. -/
def matchAt (session : LocalTextSession) (query : List CodeUnit) (start : ℕ) : TextSearchMatch :=
  let lineIndex := findLine session.starts start
  let lineStart := session.starts.getD lineIndex 0
  let lineEnd := trimNewline session.text lineStart
    (session.starts.getD (lineIndex + 1) session.text.length)
  { start
    stop := start + query.length
    line := lineIndex + 1
    preview := (slice session.text lineStart lineEnd).take 500 }

/-- Looks for a needle until there are enough matches. -/
def searchFrom (session : LocalTextSession) (query haystack needle : List CodeUnit) :
    ℕ → ℕ → List TextSearchMatch
  | 0, _ => []
  | remaining + 1, cursor =>
    match indexOf haystack needle cursor with
    | none => []
    | some start => session.matchAt query start ::
      session.searchFrom query haystack needle remaining (start + max 1 needle.length)

/-- Searches a text. -/
def search (session : LocalTextSession) (lower : CodeUnit → List CodeUnit) (query : List CodeUnit)
    (options : SearchOptions) : Except SearchError (List TextSearchMatch) :=
  if session.isClosed then .error (.preview sessionClosed)
  else if query.length = 0 ∨ 1024 < query.length then
    .error (.range "query must contain 1 to 1024 characters")
  else
    let maximum := options.maxResults.getD session.maxSearchResults
    if ¬isSafeInteger maximum ∨ maximum < 1 ∨ session.maxSearchResults < maximum then
      .error (.range "maxResults exceeds the search limit")
    else
      let caseSensitive := options.caseSensitive.getD false
      let haystack := if caseSensitive then session.text else toLocaleLowerCase lower session.text
      let needle := if caseSensitive then query else toLocaleLowerCase lower query
      .ok (session.searchFrom query haystack needle maximum.num.toNat 0)

end LocalTextSession

/-! ## Where lines start -/

section

variable {text : List CodeUnit} {index offset low high : ℕ}

theorem lineStartsFrom_append (text others : List CodeUnit) (index : ℕ) :
    lineStartsFrom index (text ++ others) =
      lineStartsFrom index text ++ lineStartsFrom (index + text.length) others := by
  induction text generalizing index with
  | nil => rfl
  | cons u text ih =>
    have hindex : index + 1 + text.length = index + (u :: text).length := by
      rw [List.length_cons, Nat.add_assoc, Nat.add_comm 1]
    rw [List.cons_append, lineStartsFrom, lineStartsFrom, ih, hindex]
    split <;> rfl

theorem lineStartsFrom_of_notMem (h : lineFeed ∉ text) : lineStartsFrom index text = [] := by
  induction text generalizing index with
  | nil => rfl
  | cons u text ih =>
    obtain ⟨hu, htext⟩ := List.ne_and_not_mem_of_not_mem_cons h
    rw [lineStartsFrom, if_neg hu.symm, ih htext]

theorem length_lineStartsFrom (index : ℕ) (text : List CodeUnit) :
    (lineStartsFrom index text).length = text.count lineFeed := by
  induction text generalizing index with
  | nil => rfl
  | cons u text ih =>
    rw [lineStartsFrom, List.count_cons]
    split <;> simp_all

theorem mem_lineStartsFrom {n : ℕ} (h : n ∈ lineStartsFrom index text) :
    index < n ∧ n ≤ index + text.length := by
  induction text generalizing index with
  | nil => exact nomatch h
  | cons u text ih =>
    rw [List.length_cons]
    rw [lineStartsFrom] at h
    split at h
    · obtain rfl | h := List.mem_cons.1 h
      · omega
      · have := ih h
        omega
    · have := ih h
      omega

/-- The search keeps the border between the lines that start no later, and the others. -/
theorem findLineIn_append {before after : List ℕ} (hbefore : ∀ n ∈ before, n ≤ offset)
    (hafter : ∀ n ∈ after, offset < n) (hlow : low < before.length) (hle : before.length ≤ high)
    (hhigh : high ≤ (before ++ after).length) :
    findLineIn (before ++ after) offset low high = before.length - 1 := by
  fun_induction findLineIn (before ++ after) offset low high with
  | case1 low high hlt middle hmiddle ih =>
    refine ih ?_ hle hhigh
    by_contra hge
    have hlength : middle < (before ++ after).length := by omega
    rw [List.getD_eq_getElem _ _ hlength, List.getElem_append_right (not_lt.1 hge)] at hmiddle
    exact absurd hmiddle (not_le.2 (hafter _ (List.getElem_mem _)))
  | case2 low high hlt middle hmiddle ih =>
    refine ih hlow ?_ (by omega)
    by_contra hge
    have hlength : middle < (before ++ after).length := by omega
    rw [List.getD_eq_getElem _ _ hlength, List.getElem_append_left (not_le.1 hge)] at hmiddle
    exact hmiddle (hbefore _ (List.getElem_mem _))
  | case3 low high hlt => omega

variable {above line below : List CodeUnit}

/-- The lines up to some place, and those after it. -/
theorem lineStarts_append (hline : lineFeed ∉ line) :
    lineStarts (above ++ (line ++ below)) = lineStarts above ++
      lineStartsFrom (above ++ line).length below := by
  rw [lineStarts, lineStartsFrom_append, lineStartsFrom_append, lineStartsFrom_of_notMem hline,
    Nat.zero_add, List.length_append]
  rfl

/-- The last line of a text that is empty, or ends with a line feed, is empty. -/
theorem getD_lineStarts {above : List CodeUnit} (habove : ∀ u ∈ above.getLast?, u = lineFeed)
    (others : List ℕ) :
    (lineStarts above ++ others).getD (above.count lineFeed) 0 = above.length := by
  rcases List.eq_nil_or_concat above with rfl | ⟨above, u, rfl⟩
  · rfl
  · obtain rfl : u = lineFeed := habove u (by simp)
    have hfeed : lineStartsFrom (0 + above.length) [lineFeed] = [above.length + 1] := by
      rw [Nat.zero_add]
      rfl
    rw [List.concat_eq_append, lineStarts, lineStartsFrom_append, hfeed, List.count_append,
      List.count_singleton_self, List.cons_append, List.append_assoc, List.getD_cons_succ,
      List.getD_append_right]
    · simp [length_lineStartsFrom]
    · exact (length_lineStartsFrom 0 above).le

def isWithinLine (u : CodeUnit) : Bool := u != lineFeed

theorem lineFeed_notMem (h : ∀ u ∈ text, isWithinLine u) : lineFeed ∉ text := fun hmem =>
  absurd (h _ hmem) (by decide)

/-- What a text has on the line of a position. -/
def lineAround (text : List CodeUnit) (k : ℕ) : List CodeUnit :=
  (text.take k).rtakeWhile isWithinLine ++ (text.drop k).takeWhile isWithinLine

/-- A line without the carriage return that it may end with. -/
def dropCarriageReturn (line : List CodeUnit) : List CodeUnit :=
  if line.getLast? = some carriageReturn then line.dropLast else line

/-- A text with the line of a position. -/
theorem exists_line {k : ℕ} (hk : k ≤ text.length) : ∃ above below,
    text = above ++ (lineAround text k ++ below) ∧ (∀ u ∈ above.getLast?, u = lineFeed) ∧
    (∀ u ∈ below.head?, u = lineFeed) ∧ lineFeed ∉ lineAround text k ∧ above.length ≤ k ∧
    k ≤ (above ++ lineAround text k).length ∧
    above.count lineFeed = (text.take k).count lineFeed := by
  have htake : (text.take k).rdropWhile isWithinLine ++ (text.take k).rtakeWhile isWithinLine =
      text.take k := List.rdropWhile_append_rtakeWhile
  have hdrop : (text.drop k).takeWhile isWithinLine ++ (text.drop k).dropWhile isWithinLine =
      text.drop k := List.takeWhile_append_dropWhile
  have hbefore : lineFeed ∉ (text.take k).rtakeWhile isWithinLine :=
    lineFeed_notMem fun _ => List.mem_rtakeWhile_imp
  have hafter : lineFeed ∉ (text.drop k).takeWhile isWithinLine :=
    lineFeed_notMem fun _ => List.mem_takeWhile_imp
  have hlength := congrArg List.length htake
  rw [List.length_append, List.length_take, min_eq_left hk] at hlength
  refine ⟨(text.take k).rdropWhile isWithinLine, (text.drop k).dropWhile isWithinLine, ?_, ?_,
    ?_, ?_, ?_, ?_, ?_⟩
  · rw [lineAround, List.append_assoc, hdrop, ← List.append_assoc, htake, List.take_append_drop]
  · intro u hu
    have hne : (text.take k).rdropWhile isWithinLine ≠ [] := fun h => by simp [h] at hu
    have hlast := List.rdropWhile_last_not isWithinLine (text.take k) hne
    rw [List.getLast?_eq_some_getLast hne, Option.mem_some_iff] at hu
    simpa [hu, isWithinLine] using hlast
  · intro u hu
    have hhead := List.head?_dropWhile_not isWithinLine (text.drop k)
    rw [Option.mem_def.1 hu] at hhead
    simpa [isWithinLine] using hhead
  · rw [lineAround, List.mem_append]
    exact not_or.2 ⟨hbefore, hafter⟩
  · omega
  · rw [lineAround, List.length_append, List.length_append]
    omega
  · conv_rhs => rw [← htake, List.count_append, List.count_eq_zero.2 hbefore]
    rfl

theorem getElem?_line (hne : line ≠ []) :
    (above ++ (line ++ below))[above.length + line.length - 1]? = line.getLast? := by
  have hpos := List.length_pos_iff.2 hne
  rw [List.getElem?_append_right (by omega), List.getElem?_append_left (by omega),
    List.getLast?_eq_getElem?]
  congr 1
  omega

/-- The end of a line is moved before its line end. -/
theorem slice_trimNewline (hbelow : ∀ u ∈ below.head?, u = lineFeed) (hline : lineFeed ∉ line) :
    slice (above ++ (line ++ below)) above.length
      (trimNewline (above ++ (line ++ below)) above.length
        (above.length + line.length + min 1 below.length)) = dropCarriageReturn line := by
  have hfeed : (if above.length < above.length + line.length + min 1 below.length ∧
      (above ++ (line ++ below))[above.length + line.length + min 1 below.length - 1]? =
        some lineFeed then above.length + line.length + min 1 below.length - 1
      else above.length + line.length + min 1 below.length) = above.length + line.length := by
    cases below with
    | nil =>
      refine if_neg fun h => ?_
      have hne : line ≠ [] := by
        rintro rfl
        simp at h
      have hlast := h.2
      rw [List.length_nil, Nat.min_zero, Nat.add_zero, getElem?_line hne] at hlast
      exact hline (List.mem_of_getLast? hlast)
    | cons u below =>
      obtain rfl : u = lineFeed := hbelow u rfl
      rw [List.length_cons, min_eq_left (by omega), Nat.add_sub_cancel, if_pos]
      refine ⟨by omega, ?_⟩
      rw [List.getElem?_append_right (by omega), List.getElem?_append_right (by omega)]
      simp
  have hslice : ∀ n, slice (above ++ (line ++ below)) above.length (above.length + n) =
      (line ++ below).take n := fun n => by rw [slice_add, List.drop_left]
  rw [trimNewline]
  simp only [hfeed]
  rw [dropCarriageReturn]
  by_cases hne : line = []
  · subst hne
    rw [if_neg (fun h => absurd h.1 (by simp)), if_neg (by simp), hslice]
    rfl
  · have hpos := List.length_pos_iff.2 hne
    rw [getElem?_line hne]
    by_cases hlast : line.getLast? = some carriageReturn
    · rw [if_pos hlast, if_pos ⟨by omega, hlast⟩, Nat.add_sub_assoc hpos, hslice,
        List.take_append_of_le_length (by omega), List.dropLast_eq_take]
    · rw [if_neg hlast, if_neg fun h => hlast h.2, hslice, List.take_left]

/-- A match has the line that it is on. -/
theorem matchAt_new {session : LocalTextSession} (query : List CodeUnit) {start : ℕ}
    (hstarts : session.starts = lineStarts session.text) (hle : start ≤ session.text.length) :
    session.matchAt query start = ⟨start, start + query.length,
      (session.text.take start).count lineFeed + 1,
      (dropCarriageReturn (lineAround session.text start)).take 500⟩ := by
  obtain ⟨above, below, htext, habove, hbelow, hline, hlow, hhigh, hcount⟩ := exists_line hle
  generalize lineAround session.text start = line at *
  have hsplit : session.starts = lineStarts above ++
      lineStartsFrom (above ++ line).length below := by
    rw [hstarts, htext, lineStarts_append hline]
  have hlength : (lineStarts above).length = above.count lineFeed + 1 := by
    rw [lineStarts, List.length_cons, length_lineStartsFrom]
  have hfind : findLine session.starts start = above.count lineFeed := by
    rw [findLine, hsplit, findLineIn_append _ _ _ _ le_rfl, hlength, Nat.add_sub_cancel]
    · intro n hn
      obtain rfl | hn := List.mem_cons.1 hn
      · exact Nat.zero_le _
      · have := mem_lineStartsFrom hn
        omega
    · intro n hn
      have := mem_lineStartsFrom hn
      omega
    · omega
    · rw [List.length_append]
      omega
  have hstart : session.starts.getD (above.count lineFeed) 0 = above.length := by
    rw [hsplit, getD_lineStarts habove]
  have hnext : session.starts.getD (above.count lineFeed + 1) session.text.length =
      above.length + line.length + min 1 below.length := by
    rw [hsplit, List.getD_append_right _ _ _ _ hlength.le, hlength, Nat.sub_self]
    cases below with
    | nil => simp [lineStartsFrom, htext]
    | cons u below =>
      obtain rfl : u = lineFeed := hbelow u rfl
      simp [lineStartsFrom]
  unfold LocalTextSession.matchAt
  simp only [hfind, hstart, hnext, ← hcount]
  rw [htext, slice_trimNewline hbelow hline]

end

/-! ## Matches -/

section

variable {session : LocalTextSession} {lower : CodeUnit → List CodeUnit}
  {text query : List CodeUnit} {matched : List TextSearchMatch} {maxSearchResults limit : ℕ}

/-- The lower case of the units of a text, or the units themselves if their case counts. -/
def caseMap (lower : CodeUnit → List CodeUnit) (caseSensitive : Bool) (u : CodeUnit) :
    List CodeUnit := if caseSensitive then [u] else lower u

/-- Matches as they should be: the leftmost parts of a text that are the query, up to case, that do
    not overlap, up to a limit; and each with the number and the text of its line. -/
structure Reported (lower : CodeUnit → List CodeUnit) (text query : List CodeUnit)
    (caseSensitive : Bool) (limit : ℕ) (matched : List TextSearchMatch) : Prop where
  leftmost : Leftmost (Matches (caseMap lower caseSensitive) text query) 0 limit
    (matched.map fun m => (m.start, m.stop))
  line : ∀ m ∈ matched, m.line = 1 + (text.take m.start).count lineFeed
  preview : ∀ m ∈ matched,
    m.preview = (dropCarriageReturn (lineAround text m.start)).take 500

theorem searchFrom_eq (haystack needle : List CodeUnit) (cursor : ℕ) :
    session.searchFrom query haystack needle limit cursor =
      (occurrences haystack needle limit cursor).map (session.matchAt query) := by
  induction limit generalizing cursor with
  | zero => rfl
  | succ limit ih =>
    rw [LocalTextSession.searchFrom, occurrences]
    cases indexOf haystack needle cursor with
    | none => rfl
    | some start => exact congrArg _ (ih _)

/-- A valid search reports the occurrences in the text, or in its lower case. -/
theorem search_new (options : SearchOptions) (hquery : 0 < query.length ∧ query.length ≤ 1024)
    (hlimit : options.maxResults.getD maxSearchResults = limit)
    (hvalid : 0 < limit ∧ limit ≤ maxSearchResults ∧ limit < 2 ^ 53) :
    (LocalTextSession.new text maxSearchResults).search lower query options =
      .ok ((occurrences (text.flatMap (caseMap lower (options.caseSensitive.getD false)))
        (query.flatMap (caseMap lower (options.caseSensitive.getD false))) limit 0).map
          ((LocalTextSession.new text maxSearchResults).matchAt query)) := by
  obtain ⟨hpos, hle, hsafe⟩ := hvalid
  have hinteger : isSafeInteger (limit : ℚ) = true := by
    simp only [isSafeInteger, Rat.den_natCast, Nat.abs_cast, Bool.and_eq_true, decide_eq_true_eq]
    refine ⟨trivial, ?_⟩
    have hcast : (limit : ℚ) + 1 ≤ 2 ^ 53 := by exact_mod_cast hsafe
    linarith
  have hbounds : ¬(¬isSafeInteger (limit : ℚ) = true ∨ (limit : ℚ) < 1 ∨
      (maxSearchResults : ℚ) < limit) := by
    rw [hinteger]
    have hone : (1 : ℚ) ≤ limit := by exact_mod_cast hpos
    have hmax : (limit : ℚ) ≤ maxSearchResults := by exact_mod_cast hle
    rintro (h | h | h)
    · exact h rfl
    · exact absurd h (not_lt.2 hone)
    · exact absurd h (not_lt.2 hmax)
  have hmap : ∀ s : List CodeUnit, (if options.caseSensitive.getD false = true then s
      else toLocaleLowerCase lower s) =
        s.flatMap (caseMap lower (options.caseSensitive.getD false)) := fun s => by
    cases options.caseSensitive.getD false
    · rfl
    · exact (List.flatMap_singleton' s).symm
  unfold LocalTextSession.search
  rw [if_neg (by simp [LocalTextSession.new]), if_neg (by omega)]
  have hmax : options.maxResults.getD
      ((LocalTextSession.new text maxSearchResults).maxSearchResults : ℚ) = limit := hlimit
  simp only [hmax]
  refine (if_neg hbounds).trans ?_
  rw [hmap, hmap, searchFrom_eq, Rat.num_natCast, Int.toNat_natCast]
  rfl

/-- A search is right exactly if case counts, or what is before the occurrences in the text in lower
    case, and the query there, are as long in lower case as they are found to be. -/
theorem search_iff (options : SearchOptions) (hlower : ∀ u, lower u ≠ [])
    (hquery : 0 < query.length ∧ query.length ≤ 1024)
    (hlimit : options.maxResults.getD maxSearchResults = limit)
    (hvalid : 0 < limit ∧ limit ≤ maxSearchResults ∧ limit < 2 ^ 53) :
    (∃ matched, (LocalTextSession.new text maxSearchResults).search lower query options =
        .ok matched ∧
      Reported lower text query (options.caseSensitive.getD false) limit matched) ↔
    options.caseSensitive.getD false = true ∨ AllKept lower text query 0
      (occurrences (toLocaleLowerCase lower text) (toLocaleLowerCase lower query) limit 0) := by
  have hne : query ≠ [] := List.length_pos_iff.1 hquery.1
  rw [search_new options hquery hlimit hvalid]
  generalize options.caseSensitive.getD false = caseSensitive
  have hmap : ∀ u, caseMap lower caseSensitive u ≠ [] := fun u => by
    cases caseSensitive
    · exact hlower u
    · exact List.cons_ne_nil _ _
  have hkept : AllKept (caseMap lower caseSensitive) text query 0
      (occurrences (text.flatMap (caseMap lower caseSensitive))
        (query.flatMap (caseMap lower caseSensitive)) limit 0) ↔
      caseSensitive = true ∨ AllKept lower text query 0
        (occurrences (toLocaleLowerCase lower text) (toLocaleLowerCase lower query) limit 0) := by
    cases caseSensitive
    · exact (or_iff_right Bool.false_ne_true).symm
    · exact iff_of_true (allKept_of_length (fun _ => rfl) hne) (.inl rfl)
  rw [← hkept, ← leftmost_iff hmap hne le_rfl (Nat.zero_le _)]
  constructor
  · rintro ⟨matched, hmatched, hreported⟩
    obtain rfl := Except.ok.inj hmatched
    simpa [List.map_map, Function.comp_def, LocalTextSession.matchAt] using hreported.leftmost
  · intro hleftmost
    have hmatch : ∀ a ∈ occurrences (text.flatMap (caseMap lower caseSensitive))
        (query.flatMap (caseMap lower caseSensitive)) limit 0,
        (LocalTextSession.new text maxSearchResults).matchAt query a =
          ⟨a, a + query.length, (text.take a).count lineFeed + 1,
            (dropCarriageReturn (lineAround text a)).take 500⟩ := fun a ha => by
      have hmatches := hleftmost.forall_mem _ (List.mem_map_of_mem ha)
      exact matchAt_new query rfl (hmatches.lt_length (flatMap_ne_nil hmap hne)).le
    refine ⟨_, rfl, ?_, List.forall_mem_map.2 fun a ha => ?_, List.forall_mem_map.2 fun a ha => ?_⟩
    · simpa [List.map_map, Function.comp_def, LocalTextSession.matchAt] using hleftmost
    · rw [hmatch a ha]
      exact Nat.add_comm _ _
    · rw [hmatch a ha]

/-- The lower case of a capital I with a dot is two units. -/
def lowerDotted (u : CodeUnit) : List CodeUnit := if u = 0x130 then [0x69, 0x307] else [u]

theorem lowerDotted_ne_nil (u : CodeUnit) : lowerDotted u ≠ [] := by
  rw [lowerDotted]
  split <;> exact List.cons_ne_nil _ _

/-- It may follow the matches. -/
theorem search_iff_before : ∃ matched, (LocalTextSession.new [0x41, 0x130] 10).search
      (fun u => if u = 0x41 then [0x61] else lowerDotted u) [0x61] {} = .ok matched ∧
    Reported (fun u => if u = 0x41 then [0x61] else lowerDotted u) [0x41, 0x130] [0x61] false 10
      matched := by
  refine (search_iff {} (fun u => ?_) (by decide) rfl (by decide)).2 (.inr ?_)
  · split
    · exact List.cons_ne_nil _ _
    · exact lowerDotted_ne_nil u
  · exact ⟨.inl ⟨by decide, by decide⟩, trivial⟩

/-- What follows it is reported too late. -/
theorem search_shifted : (LocalTextSession.new [0x130, 0x61] 10).search lowerDotted [0x61] {} =
      .ok [⟨2, 3, 1, [0x130, 0x61]⟩] ∧
    ¬∃ matched, (LocalTextSession.new [0x130, 0x61] 10).search lowerDotted [0x61] {} =
        .ok matched ∧
      Reported lowerDotted [0x130, 0x61] [0x61] false 10 matched := by
  have hsearch : (LocalTextSession.new [0x130, 0x61] 10).search lowerDotted [0x61] {} =
      .ok [⟨2, 3, 1, [0x130, 0x61]⟩] := by
    rw [search_new {} (by decide) rfl (show 0 < 10 ∧ 10 ≤ 10 ∧ 10 < 2 ^ 53 by decide)]
    have hoccurs : occurrences ([0x130, 0x61].flatMap (caseMap lowerDotted false))
        ([0x61].flatMap (caseMap lowerDotted false)) 10 0 = [2] := by decide
    refine congrArg Except.ok ?_
    refine (congrArg (List.map _) hoccurs).trans ?_
    exact congrArg (List.cons · []) (matchAt_new [0x61] rfl (by decide))
  refine ⟨hsearch, ?_⟩
  rintro ⟨matched, hmatched, hreported⟩
  obtain rfl := Except.ok.inj (hsearch.symm.trans hmatched)
  exact absurd (hreported.leftmost.forall_mem (2, 3) (by simp)) (by decide)

end

end Tabulark.Preview
