import Tabulark.Error

/-!
# Adapter operations

An adapter does not read its source: it issues source ranges and continues when
the host supplies them. `AdapterOperationCursor` numbers the steps of one
operation and takes each result set at most once.
-/

namespace Tabulark

/-- The most source ranges one step can issue. -/
def maxOperationRangesPerStep : ℕ := 32

/-- One bounded source range requested by an adapter. -/
structure AdapterAction where
  actionIndex : ℕ
  offset : ℕ
  length : ℕ
  deriving DecidableEq, Repr

/-- The checked exclusive end of a range. -/
def AdapterAction.stop (a : AdapterAction) : Result ℕ :=
  checkedAdd u64Max a.offset a.length
    ((((TabularkError.new .invalidArgument
      "adapter source action range overflows u64").withDetail
      "actionIndex" (.number a.actionIndex)).withDetail
      "offset" (.number a.offset)).withDetail
      "length" (.number a.length))

/-- A supplied source range and the action it answers. -/
structure AdapterActionResult where
  actionIndex : ℕ
  offset : ℕ
  bytes : List UInt8
  eof : Bool
  deriving DecidableEq, Repr

/-- Checks that an action lies within the JavaScript-safe integers. -/
def AdapterAction.validateSafe (a : AdapterAction) : Result Unit := do
  let unsafeRange := (TabularkError.new .resourceLimit
    "operation source range exceeds the JavaScript safe integer boundary").withDetail
    "actionIndex" (.number a.actionIndex)
  if maxSafeInteger < a.offset ∨ maxSafeInteger < a.length then .error unsafeRange
  else do
    let stop ← a.stop
    if maxSafeInteger < stop then .error unsafeRange else .ok ()

/-- The number of bytes of actions with different ids. -/
def totalBytes : List ℕ → ℕ → List AdapterAction → Result ℕ
  | _, total, [] => .ok total
  | seen, total, a :: actions =>
    if a.actionIndex ∈ seen then
      .error ((TabularkError.new .invalidArgument
        "operation step contains a duplicate source action ID").withDetail
        "actionIndex" (.number a.actionIndex))
    else do
      a.validateSafe
      let total ← checkedAdd u64Max total a.length
        (.new .resourceLimit "operation step source byte total overflows u64")
      totalBytes (a.actionIndex :: seen) total actions

/-- Checks the number, ids, bounds and total bytes of the actions of one step. -/
def validateOperationActions (actions : List AdapterAction) (operationBudgetBytes : ℕ) :
    Result ℕ :=
  if maxOperationRangesPerStep < actions.length then
    .error (((TabularkError.new .resourceLimit
      "operation step requests too many source ranges").withDetail
      "rangeCount" (.number actions.length)).withDetail
      "maxRangeCount" (.number maxOperationRangesPerStep))
  else do
    let total ← totalBytes [] 0 actions
    if operationBudgetBytes < total then
      .error (((TabularkError.new .resourceLimit
        "operation step exceeds its source byte budget").withDetail
        "requestedBytes" (.number total)).withDetail
        "operationBudgetBytes" (.number operationBudgetBytes))
    else .ok total

/-- The revision of an operation and the actions it waits for. -/
structure AdapterOperationCursor where
  revision : ℕ := 0
  outstanding : List AdapterAction := []
  awaitingResults : Bool := false
  deriving DecidableEq, Repr

namespace AdapterOperationCursor

/-- The revision after this one. -/
def nextRevision (c : AdapterOperationCursor) : Result ℕ := do
  let revision ← checkedAdd u64Max c.revision 1
    (.new .resourceLimit "operation revision space is exhausted")
  if maxSafeInteger < revision then
    .error (.new .resourceLimit "operation revision exceeds the JavaScript safe integer range")
  else .ok revision

/-- Issues actions under the next revision. -/
def issue (c : AdapterOperationCursor) (actions : List AdapterAction)
    (operationBudgetBytes : ℕ) : Result AdapterOperationCursor :=
  if c.awaitingResults then
    .error (.new .runtimeFailure "operation already has outstanding source actions")
  else do
    let _ ← validateOperationActions actions operationBudgetBytes
    let revision ← c.nextRevision
    .ok ⟨revision, actions, true⟩

/-- Advances to a terminal step. -/
def completeRevision (c : AdapterOperationCursor) : Result AdapterOperationCursor :=
  if c.awaitingResults then
    .error (.new .runtimeFailure "operation cannot complete with outstanding source actions")
  else do
    let revision ← c.nextRevision
    .ok { c with revision }

/-- Checks one result against the action it answers. -/
def validateResult (c : AdapterOperationCursor) (r : AdapterActionResult) : Result Unit := do
  match c.outstanding.find? (·.actionIndex = r.actionIndex) with
  | none =>
    .error ((TabularkError.new .invalidArgument
      "operation result references an unknown source range").withDetail
      "actionIndex" (.number r.actionIndex))
  | some expected => do
    let actualEnd ← checkedAdd u64Max r.offset r.bytes.length
      ((TabularkError.new .invalidArgument
        "operation result source range overflows u64").withDetail
        "actionIndex" (.number r.actionIndex))
    let mismatch := (((((TabularkError.new .invalidArgument
      "operation result does not match its requested source range").withDetail
      "actionIndex" (.number r.actionIndex)).withDetail
      "expectedOffset" (.number expected.offset)).withDetail
      "expectedLength" (.number expected.length)).withDetail
      "actualOffset" (.number r.offset)).withDetail
      "actualLength" (.number r.bytes.length)
    if expected.offset ≠ r.offset ∨ expected.length ≠ r.bytes.length then .error mismatch
    else do
      let expectedEnd ← expected.stop
      if expectedEnd ≠ actualEnd then .error mismatch else .ok ()

/-- Checks results with different ids. -/
def validateEach (c : AdapterOperationCursor) : List ℕ → List AdapterActionResult → Result Unit
  | _, [] => .ok ()
  | seen, r :: results =>
    if r.actionIndex ∈ seen then
      .error ((TabularkError.new .invalidArgument
        "operation result set contains a duplicate source range").withDetail
        "actionIndex" (.number r.actionIndex))
    else do
      c.validateResult r
      c.validateEach (r.actionIndex :: seen) results

/-- Takes a complete result set; anything else leaves the step as it is. -/
def validateResults (c : AdapterOperationCursor) (operationRevision : ℕ)
    (results : List AdapterActionResult) : Result AdapterOperationCursor :=
  if operationRevision ≠ c.revision then
    .error (((TabularkError.new .invalidArgument
      "operation result revision is missing, stale, or out of order").withDetail
      "expectedOperationRevision" (.number c.revision)).withDetail
      "actualOperationRevision" (.number operationRevision))
  else if ¬c.awaitingResults then
    .error ((TabularkError.new .invalidArgument
      "operation revision has already consumed its result set").withDetail
      "operationRevision" (.number operationRevision))
  else if results.length ≠ c.outstanding.length then
    .error (((TabularkError.new .invalidArgument
      "operation result set is missing or contains extra source ranges").withDetail
      "expectedResults" (.number c.outstanding.length)).withDetail
      "actualResults" (.number results.length))
  else do
    c.validateEach [] results
    .ok { c with outstanding := [], awaitingResults := false }

/-- Results for a step whose results were taken are refused. -/
theorem validateResults_of_consumed {c : AdapterOperationCursor} {operationRevision : ℕ}
    {results : List AdapterActionResult} (h : c.awaitingResults = false) :
    ∃ e, c.validateResults operationRevision results = .error e := by
  rw [validateResults]
  by_cases hrevision : operationRevision ≠ c.revision
  · exact ⟨_, if_pos hrevision⟩
  · rw [if_neg hrevision, if_pos (by rw [h]; exact Bool.false_ne_true)]
    exact ⟨_, rfl⟩

/-- A result set that is taken answers a step that waits, and ends its waiting. -/
theorem validateResults_eq_ok {c c' : AdapterOperationCursor} {operationRevision : ℕ}
    {results : List AdapterActionResult}
    (h : c.validateResults operationRevision results = .ok c') :
    c.awaitingResults = true ∧ results.length = c.outstanding.length ∧
      c.validateEach [] results = .ok () ∧
      c' = { c with outstanding := [], awaitingResults := false } := by
  rw [validateResults] at h
  split_ifs at h with hrevision hawaiting hlength
  obtain ⟨⟨⟩, hvalid, h⟩ := Result.bind_eq_ok.1 h
  cases h
  exact ⟨hawaiting, not_not.1 hlength, hvalid, rfl⟩

end AdapterOperationCursor

/-! ## Steps with one range -/

variable {a : AdapterAction} {budget : ℕ}

/-- One range is checked against the budget. -/
theorem validateOperationActions_singleton (h : a.offset + a.length ≤ maxSafeInteger) :
    validateOperationActions [a] budget = if budget < a.length then
      .error (((TabularkError.new .resourceLimit
        "operation step exceeds its source byte budget").withDetail
        "requestedBytes" (.number a.length)).withDetail
        "operationBudgetBytes" (.number budget))
      else .ok a.length := by
  have hu64 := maxSafeInteger_le_u64Max
  have hcount : ¬maxOperationRangesPerStep < [a].length := by
    rw [List.length_singleton]
    decide
  rw [validateOperationActions, if_neg hcount, totalBytes, if_neg List.not_mem_nil,
    AdapterAction.validateSafe, if_neg (by omega), AdapterAction.stop,
    checkedAdd_of_le (by omega), Result.ok_bind, if_neg (by omega), Result.ok_bind,
    checkedAdd_of_le (by omega), Result.ok_bind, totalBytes, Result.ok_bind, Nat.zero_add]

namespace AdapterOperationCursor

variable {c : AdapterOperationCursor}

theorem nextRevision_of_lt (h : c.revision < maxSafeInteger) :
    c.nextRevision = .ok (c.revision + 1) := by
  have hu64 := maxSafeInteger_le_u64Max
  rw [nextRevision, checkedAdd_of_le (by omega), Result.ok_bind, if_neg (by omega)]

theorem issue_singleton (hwait : c.awaitingResults = false)
    (hrevision : c.revision < maxSafeInteger) (ha : a.offset + a.length ≤ maxSafeInteger)
    (hbudget : a.length ≤ budget) : c.issue [a] budget = .ok ⟨c.revision + 1, [a], true⟩ := by
  rw [issue, hwait, if_neg Bool.false_ne_true, validateOperationActions_singleton ha,
    if_neg (not_lt.2 hbudget), Result.ok_bind, nextRevision_of_lt hrevision, Result.ok_bind]

/-- A range that is issued is within the budget. -/
theorem issue_singleton_eq_ok {c c' : AdapterOperationCursor}
    (ha : a.offset + a.length ≤ maxSafeInteger) (h : c.issue [a] budget = .ok c') :
    a.length ≤ budget ∧ c' = ⟨c.revision + 1, [a], true⟩ := by
  rw [issue] at h
  split_ifs at h
  obtain ⟨total, htotal, h⟩ := Result.bind_eq_ok.1 h
  obtain ⟨revision, hrevision, h⟩ := Result.bind_eq_ok.1 h
  cases h
  rw [validateOperationActions_singleton ha] at htotal
  split_ifs at htotal with hbudget
  obtain ⟨next, hnext, hrevision⟩ := Result.bind_eq_ok.1 hrevision
  rw [checkedAdd] at hnext
  split_ifs at hnext
  cases hnext
  split_ifs at hrevision
  cases hrevision
  exact ⟨not_lt.1 hbudget, rfl⟩

theorem completeRevision_of_lt (hwait : c.awaitingResults = false)
    (hrevision : c.revision < maxSafeInteger) :
    c.completeRevision = .ok { c with revision := c.revision + 1 } := by
  rw [completeRevision, hwait, if_neg Bool.false_ne_true, nextRevision_of_lt hrevision,
    Result.ok_bind]

/-- The result set that a step with one range takes is one result, to its action. -/
theorem singleton_of_validateResults {c c' : AdapterOperationCursor} {operationRevision : ℕ}
    {results : List AdapterActionResult} (houtstanding : c.outstanding = [a])
    (h : c.validateResults operationRevision results = .ok c') :
    ∃ r, results = [r] ∧ r.actionIndex = a.actionIndex := by
  obtain ⟨_, hlength, hvalid, _⟩ := validateResults_eq_ok h
  rw [houtstanding] at hlength
  obtain ⟨r, rfl⟩ := List.length_eq_one_iff.1 hlength
  refine ⟨r, rfl, ?_⟩
  rw [validateEach, if_neg List.not_mem_nil] at hvalid
  obtain ⟨_, hresult, _⟩ := Result.bind_eq_ok.1 hvalid
  rw [validateResult, houtstanding] at hresult
  cases hfind : [a].find? (fun x => decide (x.actionIndex = r.actionIndex)) with
  | none =>
    rw [hfind] at hresult
    cases hresult
  | some b =>
    have hmem := List.mem_singleton.1 (List.mem_of_find?_eq_some hfind)
    have hindex := List.find?_some hfind
    rw [hmem, decide_eq_true_eq] at hindex
    exact hindex.symm

/-- The right result of one range is taken. -/
theorem validateResults_singleton {revision : ℕ} {r : AdapterActionResult}
    (hindex : a.actionIndex = r.actionIndex) (hoffset : a.offset = r.offset)
    (hlength : a.length = r.bytes.length) (ha : a.offset + a.length ≤ maxSafeInteger) :
    (⟨revision, [a], true⟩ : AdapterOperationCursor).validateResults revision [r] =
      .ok ⟨revision, [], false⟩ := by
  have hu64 := maxSafeInteger_le_u64Max
  have hresult : (⟨revision, [a], true⟩ : AdapterOperationCursor).validateResult r = .ok () := by
    rw [validateResult, List.find?_cons_of_pos (by rw [hindex]; exact decide_eq_true rfl)]
    dsimp only
    rw [checkedAdd_of_le (by omega), Result.ok_bind,
      if_neg (not_or.2 ⟨not_not.2 hoffset, not_not.2 hlength⟩), AdapterAction.stop,
      checkedAdd_of_le (by omega), Result.ok_bind, if_neg (by omega)]
  have hcount : ¬[r].length ≠ [a].length := by
    rw [List.length_singleton, List.length_singleton]
    exact not_not.2 rfl
  rw [validateResults, if_neg (not_not.2 rfl), if_neg (not_not.2 rfl), if_neg hcount,
    validateEach, if_neg List.not_mem_nil, hresult]
  rfl

end AdapterOperationCursor

end Tabulark
