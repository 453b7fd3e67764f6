import Mathlib
import Tabulark.Protocol
import Tabulark.Lib.Update

/-!
# Runs of an operation cursor

The calls of a cursor update it in place. Over any sequence of calls, each step
gets the next revision, and its results are taken exactly once: when they are
the actions of the step, in any order (`cursor_takes_each_step_once`).
-/

namespace Tabulark

open Update

/-- The action that a result answers. -/
def AdapterActionResult.answered (r : AdapterActionResult) : AdapterAction :=
  ⟨r.actionIndex, r.offset, r.bytes.length⟩

namespace AdapterOperationCursor

/-! ## Calls -/

/-- Issues actions, and assigns the fields of the cursor. -/
def issueIn (actions : List AdapterAction) (operationBudgetBytes : ℕ) :
    Update TabularkError AdapterOperationCursor ℕ := do
  let cursor ← read
  if cursor.awaitingResults then
    fail (.new .runtimeFailure "operation already has outstanding source actions")
  else do
    let _ ← of (validateOperationActions actions operationBudgetBytes)
    let revision ← of cursor.nextRevision
    assign fun cursor => { cursor with revision }
    assign fun cursor => { cursor with outstanding := actions }
    assign fun cursor => { cursor with awaitingResults := true }
    pure revision

/-- Advances to a terminal step. -/
def completeRevisionIn : Update TabularkError AdapterOperationCursor ℕ := do
  let cursor ← read
  if cursor.awaitingResults then
    fail (.new .runtimeFailure "operation cannot complete with outstanding source actions")
  else do
    let revision ← of cursor.nextRevision
    assign fun cursor => { cursor with revision }
    pure revision

/-- Checks the results of a step, and clears it. -/
def validateResultsIn (operationRevision : ℕ) (results : List AdapterActionResult) :
    Update TabularkError AdapterOperationCursor Unit := do
  let cursor ← read
  if operationRevision ≠ cursor.revision then
    fail (((TabularkError.new .invalidArgument
      "operation result revision is missing, stale, or out of order").withDetail
      "expectedOperationRevision" (.number cursor.revision)).withDetail
      "actualOperationRevision" (.number operationRevision))
  else if ¬cursor.awaitingResults then
    fail ((TabularkError.new .invalidArgument
      "operation revision has already consumed its result set").withDetail
      "operationRevision" (.number operationRevision))
  else if results.length ≠ cursor.outstanding.length then
    fail (((TabularkError.new .invalidArgument
      "operation result set is missing or contains extra source ranges").withDetail
      "expectedResults" (.number cursor.outstanding.length)).withDetail
      "actualResults" (.number results.length))
  else do
    of (cursor.validateEach [] results)
    assign fun cursor => { cursor with outstanding := [] }
    assign fun cursor => { cursor with awaitingResults := false }

/-- A call of a cursor. -/
inductive Call
  | issue (actions : List AdapterAction) (operationBudgetBytes : ℕ)
  | completeRevision
  | validateResults (operationRevision : ℕ) (results : List AdapterActionResult)

/-- What a call does; issuing and completing return a revision. -/
def Call.perform : Call → Update TabularkError AdapterOperationCursor (Option ℕ)
  | .issue actions operationBudgetBytes => do
    let revision ← issueIn actions operationBudgetBytes
    pure (some revision)
  | .completeRevision => do
    let revision ← completeRevisionIn
    pure (some revision)
  | .validateResults operationRevision results => do
    validateResultsIn operationRevision results
    pure none

/-- The cursor after some calls. -/
def run : AdapterOperationCursor → List Call → AdapterOperationCursor
  | cursor, [] => cursor
  | cursor, call :: calls => run (call.perform.on cursor).2 calls

/-- The revision that a call returned. -/
def returned : Except TabularkError (Option ℕ) → List ℕ
  | .ok (some revision) => [revision]
  | _ => []

/-- The revisions that some calls returned. -/
def revisions : AdapterOperationCursor → List Call → List ℕ
  | _, [] => []
  | cursor, call :: calls =>
    returned (call.perform.on cursor).1 ++ revisions (call.perform.on cursor).2 calls

/-! ## What a call does -/

variable {c c' : AdapterOperationCursor} {actions : List AdapterAction} {budget revision : ℕ}
  {results : List AdapterActionResult}

theorem nextRevision_eq_ok (h : c.nextRevision = .ok revision) : revision = c.revision + 1 := by
  obtain ⟨next, hnext, h⟩ := Result.bind_eq_ok.1 h
  rw [checkedAdd] at hnext
  split_ifs at hnext
  cases hnext
  split_ifs at h
  exact (Except.ok.inj h).symm

theorem issueIn_on :
    (∃ error, (issueIn actions budget).on c = (.error error, c)) ∨
    (c.awaitingResults = false ∧ (∃ total, validateOperationActions actions budget = .ok total) ∧
      (issueIn actions budget).on c = (.ok (c.revision + 1), ⟨c.revision + 1, actions, true⟩)) := by
  rw [issueIn, on_read_bind]
  split_ifs with hwait
  · exact .inl ⟨_, rfl⟩
  · cases hvalid : validateOperationActions actions budget with
    | error error => exact .inl ⟨error, rfl⟩
    | ok total =>
      cases hnext : c.nextRevision with
      | error error => exact .inl ⟨error, rfl⟩
      | ok revision =>
        obtain rfl := nextRevision_eq_ok hnext
        exact .inr ⟨Bool.eq_false_iff.2 hwait, ⟨total, rfl⟩, rfl⟩

theorem completeRevisionIn_on :
    (∃ error, completeRevisionIn.on c = (.error error, c)) ∨
    (c.awaitingResults = false ∧
      completeRevisionIn.on c = (.ok (c.revision + 1), { c with revision := c.revision + 1 })) := by
  rw [completeRevisionIn, on_read_bind]
  split_ifs with hwait
  · exact .inl ⟨_, rfl⟩
  · cases hnext : c.nextRevision with
    | error error => exact .inl ⟨error, rfl⟩
    | ok revision =>
      obtain rfl := nextRevision_eq_ok hnext
      exact .inr ⟨Bool.eq_false_iff.2 hwait, rfl⟩

theorem validateResultsIn_on :
    (∃ error, (validateResultsIn revision results).on c = (.error error, c)) ∧
      ¬(revision = c.revision ∧ c.awaitingResults = true ∧
        results.length = c.outstanding.length ∧ c.validateEach [] results = .ok ()) ∨
    (revision = c.revision ∧ c.awaitingResults = true ∧
      results.length = c.outstanding.length ∧ c.validateEach [] results = .ok ()) ∧
      (validateResultsIn revision results).on c = (.ok (), ⟨c.revision, [], false⟩) := by
  rw [validateResultsIn, on_read_bind]
  by_cases hrevision : revision = c.revision
  · rw [if_neg (not_not.2 hrevision)]
    by_cases hwait : c.awaitingResults = true
    · rw [if_neg (not_not.2 hwait)]
      by_cases hlength : results.length = c.outstanding.length
      · rw [if_neg (not_not.2 hlength)]
        cases heach : c.validateEach [] results with
        | error error => exact .inl ⟨⟨error, rfl⟩, fun h => by cases h.2.2.2⟩
        | ok _ => exact .inr ⟨⟨hrevision, hwait, hlength, rfl⟩, rfl⟩
      · rw [if_pos hlength]
        exact .inl ⟨⟨_, rfl⟩, fun h => hlength h.2.2.1⟩
    · rw [if_pos hwait]
      exact .inl ⟨⟨_, rfl⟩, fun h => hwait h.2.1⟩
  · rw [if_pos hrevision]
    exact .inl ⟨⟨_, rfl⟩, fun h => hrevision h.1⟩

/-! ## Results of a step -/

/-- The ids of the outstanding actions are different, and their ranges are safe. -/
structure Consistent (c : AdapterOperationCursor) : Prop where
  nodup : (c.outstanding.map (·.actionIndex)).Nodup
  safe : ∀ a ∈ c.outstanding, a.offset + a.length ≤ maxSafeInteger

theorem totalBytes_eq_ok {seen : List ℕ} {total total' : ℕ}
    (h : totalBytes seen total actions = .ok total') :
    (actions.map (·.actionIndex)).Nodup ∧ (∀ a ∈ actions, a.actionIndex ∉ seen) ∧
      ∀ a ∈ actions, a.offset + a.length ≤ maxSafeInteger := by
  induction actions generalizing seen total with
  | nil => exact ⟨List.nodup_nil, nofun, nofun⟩
  | cons a actions ih =>
    rw [totalBytes] at h
    split_ifs at h with hseen
    obtain ⟨_, hsafe, h⟩ := Result.bind_eq_ok.1 h
    obtain ⟨next, _, h⟩ := Result.bind_eq_ok.1 h
    obtain ⟨hnodup, hnew, hsafes⟩ := ih h
    have hle : a.offset + a.length ≤ maxSafeInteger := by
      rw [AdapterAction.validateSafe] at hsafe
      split_ifs at hsafe
      obtain ⟨stop, hstop, hsafe⟩ := Result.bind_eq_ok.1 hsafe
      rw [AdapterAction.stop, checkedAdd] at hstop
      split_ifs at hstop
      cases hstop
      split_ifs at hsafe with hle
      exact not_lt.1 hle
    refine ⟨?_, fun b hb => ?_, fun b hb => ?_⟩
    · rw [List.map_cons, List.nodup_cons]
      refine ⟨fun hmem => ?_, hnodup⟩
      obtain ⟨b, hb, hindex⟩ := List.mem_map.1 hmem
      exact hnew b hb (hindex ▸ List.mem_cons_self)
    · rcases List.mem_cons.1 hb with rfl | hb
      · exact hseen
      · exact fun hmem => hnew b hb (List.mem_cons_of_mem _ hmem)
    · rcases List.mem_cons.1 hb with rfl | hb
      · exact hle
      · exact hsafes b hb

theorem consistent_of_validate {total : ℕ}
    (h : validateOperationActions actions budget = .ok total) :
    Consistent ⟨revision, actions, true⟩ := by
  rw [validateOperationActions] at h
  split_ifs at h
  obtain ⟨_, htotal, _⟩ := Result.bind_eq_ok.1 h
  obtain ⟨hnodup, _, hsafe⟩ := totalBytes_eq_ok htotal
  exact ⟨hnodup, hsafe⟩

theorem mem_of_validateResult {r : AdapterActionResult} (h : c.validateResult r = .ok ()) :
    r.answered ∈ c.outstanding := by
  rw [validateResult] at h
  cases hfind : c.outstanding.find? (·.actionIndex = r.actionIndex) with
  | none =>
    rw [hfind] at h
    cases h
  | some expected =>
    rw [hfind] at h
    obtain ⟨actualEnd, _, h⟩ := Result.bind_eq_ok.1 h
    dsimp only at h
    split_ifs at h with hmismatch
    push Not at hmismatch
    have hindex := List.find?_some hfind
    rw [decide_eq_true_iff] at hindex
    have hanswered : r.answered = expected := by
      rw [AdapterActionResult.answered, ← hindex, ← hmismatch.1, ← hmismatch.2]
    rw [hanswered]
    exact List.mem_of_find?_eq_some hfind

theorem validateResult_of_mem {r : AdapterActionResult} (h : c.Consistent)
    (hmem : r.answered ∈ c.outstanding) : c.validateResult r = .ok () := by
  have hu64 := maxSafeInteger_le_u64Max
  have hsafe := h.safe _ hmem
  have hfind : c.outstanding.find? (·.actionIndex = r.actionIndex) = some r.answered := by
    cases hfind : c.outstanding.find? (·.actionIndex = r.actionIndex) with
    | none => exact absurd (decide_eq_true rfl) (List.find?_eq_none.1 hfind _ hmem)
    | some expected =>
      have hindex := List.find?_some hfind
      rw [decide_eq_true_iff] at hindex
      rw [List.inj_on_of_nodup_map h.nodup (List.mem_of_find?_eq_some hfind) hmem hindex]
  change r.offset + r.bytes.length ≤ maxSafeInteger at hsafe
  rw [validateResult, hfind]
  dsimp only [AdapterActionResult.answered]
  rw [checkedAdd_of_le (by omega), Result.ok_bind, if_neg (by simp), AdapterAction.stop,
    checkedAdd_of_le (by dsimp only; omega), Result.ok_bind, if_neg (not_not.2 rfl)]

theorem validateEach_eq_ok {seen : List ℕ} (h : c.Consistent) :
    c.validateEach seen results = .ok () ↔
      (results.map (·.actionIndex)).Nodup ∧ (∀ r ∈ results, r.actionIndex ∉ seen) ∧
        ∀ r ∈ results, r.answered ∈ c.outstanding := by
  induction results generalizing seen with
  | nil =>
    exact ⟨fun _ => ⟨List.nodup_nil, List.forall_mem_nil _, List.forall_mem_nil _⟩, fun _ => rfl⟩
  | cons r results ih =>
    rw [validateEach, List.map_cons, List.nodup_cons, List.forall_mem_cons, List.forall_mem_cons]
    by_cases hseen : r.actionIndex ∈ seen
    · rw [if_pos hseen]
      exact ⟨Result.error_elim, fun hall => absurd hseen hall.2.1.1⟩
    · rw [if_neg hseen, Result.bind_eq_ok]
      constructor
      · rintro ⟨_, hresult, heach⟩
        obtain ⟨hnodup, hnew, hmem⟩ := ih.1 heach
        refine ⟨⟨fun hin => ?_, hnodup⟩, ⟨hseen, fun r' hr' hin => ?_⟩,
          mem_of_validateResult hresult, hmem⟩
        · obtain ⟨r', hr', hindex⟩ := List.mem_map.1 hin
          exact hnew r' hr' (hindex ▸ List.mem_cons_self)
        · exact hnew r' hr' (List.mem_cons_of_mem _ hin)
      · rintro ⟨⟨hfirst, hnodup⟩, ⟨_, hnew⟩, hmem, hmems⟩
        refine ⟨(), validateResult_of_mem h hmem, ih.2 ⟨hnodup, fun r' hr' hin => ?_, hmems⟩⟩
        rcases List.mem_cons.1 hin with hindex | hin
        · exact hfirst (List.mem_map.2 ⟨r', hr', hindex⟩)
        · exact hnew r' hr' hin

/-- Results with different ids that answer outstanding actions are all of them. -/
theorem validateEach_iff_perm (h : c.Consistent) :
    (results.length = c.outstanding.length ∧ c.validateEach [] results = .ok ()) ↔
      (results.map AdapterActionResult.answered).Perm c.outstanding := by
  rw [validateEach_eq_ok h]
  have hids : (results.map AdapterActionResult.answered).map (·.actionIndex) =
      results.map (·.actionIndex) := by
    rw [List.map_map]
    rfl
  constructor
  · rintro ⟨hlength, hnodup, _, hmem⟩
    have hdistinct : (results.map AdapterActionResult.answered).Nodup :=
      List.Nodup.of_map _ (hids ▸ hnodup)
    have hsubset : results.map AdapterActionResult.answered ⊆ c.outstanding := fun a ha => by
      obtain ⟨r, hr, rfl⟩ := List.mem_map.1 ha
      exact hmem r hr
    refine (List.subperm_of_subset hdistinct hsubset).perm_of_length_le ?_
    rw [List.length_map]
    exact hlength.ge
  · intro hperm
    refine ⟨?_, ?_, fun _ _ => List.not_mem_nil, fun r hr => ?_⟩
    · rw [← hperm.length_eq, List.length_map]
    · rw [← hids, (hperm.map _).nodup_iff]
      exact h.nodup
    · exact hperm.subset (List.mem_map_of_mem hr)

/-! ## Runs -/

/-- What a call does: it fails and changes nothing, it issues the next step, it advances to a
    terminal step, or it takes the results of the step. -/
theorem perform_cases (c : AdapterOperationCursor) (call : Call) :
    (∃ error, call.perform.on c = (.error error, c)) ∨
    (∃ actions, Consistent ⟨c.revision + 1, actions, true⟩ ∧ c.awaitingResults = false ∧
      call.perform.on c = (.ok (some (c.revision + 1)), ⟨c.revision + 1, actions, true⟩)) ∨
    (c.awaitingResults = false ∧ call.perform.on c =
      (.ok (some (c.revision + 1)), { c with revision := c.revision + 1 })) ∨
    call.perform.on c = (.ok none, ⟨c.revision, [], false⟩) := by
  cases call with
  | issue actions budget =>
    rw [Call.perform]
    rcases @issueIn_on c actions budget with ⟨error, hissue⟩ | ⟨hwait, ⟨total, htotal⟩, hissue⟩
    · rw [on_bind_of_error hissue]
      exact .inl ⟨error, rfl⟩
    · rw [on_bind_of_ok hissue]
      exact .inr (.inl ⟨actions, consistent_of_validate htotal, hwait, rfl⟩)
  | completeRevision =>
    rw [Call.perform]
    rcases @completeRevisionIn_on c with ⟨error, hcomplete⟩ | ⟨hwait, hcomplete⟩
    · rw [on_bind_of_error hcomplete]
      exact .inl ⟨error, rfl⟩
    · rw [on_bind_of_ok hcomplete]
      exact .inr (.inr (.inl ⟨hwait, rfl⟩))
  | validateResults revision results =>
    rw [Call.perform]
    rcases @validateResultsIn_on c revision results with ⟨⟨error, hvalid⟩, _⟩ | ⟨_, hvalid⟩
    · rw [on_bind_of_error hvalid]
      exact .inl ⟨error, rfl⟩
    · rw [on_bind_of_ok hvalid]
      exact .inr (.inr (.inr rfl))

theorem Consistent.next (h : c.Consistent) (call : Call) :
    (call.perform.on c).2.Consistent ∧ c.revision ≤ (call.perform.on c).2.revision ∧
      returned (call.perform.on c).1 =
        List.range' (c.revision + 1) ((call.perform.on c).2.revision - c.revision) := by
  rcases perform_cases c call with ⟨error, hp⟩ | ⟨actions, hnext, _, hp⟩ | ⟨_, hp⟩ | hp
  · rw [hp, Nat.sub_self]
    exact ⟨h, le_rfl, rfl⟩
  · rw [hp]
    dsimp only
    rw [Nat.add_sub_cancel_left]
    exact ⟨hnext, Nat.le_succ _, rfl⟩
  · rw [hp]
    dsimp only
    rw [Nat.add_sub_cancel_left]
    exact ⟨⟨h.nodup, h.safe⟩, Nat.le_succ _, rfl⟩
  · rw [hp, Nat.sub_self]
    exact ⟨⟨List.nodup_nil, nofun⟩, le_rfl, rfl⟩

/-- The revisions of a run follow each other. -/
theorem Consistent.run (h : c.Consistent) (calls : List Call) :
    (c.run calls).Consistent ∧ c.revision ≤ (c.run calls).revision ∧
      c.revisions calls =
        List.range' (c.revision + 1) ((c.run calls).revision - c.revision) := by
  induction calls generalizing c with
  | nil =>
    refine ⟨h, le_rfl, ?_⟩
    rw [AdapterOperationCursor.run, Nat.sub_self]
    rfl
  | cons call calls ih =>
    obtain ⟨hnext, hle, hreturned⟩ := h.next call
    obtain ⟨hrun, hle', hrevisions⟩ := ih hnext
    refine ⟨hrun, hle.trans hle', ?_⟩
    rw [revisions, hreturned, hrevisions, AdapterOperationCursor.run]
    have hsplit : (call.perform.on c).2.revision + 1 =
        c.revision + 1 + ((call.perform.on c).2.revision - c.revision) := by omega
    rw [hsplit, List.range'_append_1]
    congr 1
    omega

/-- The results of a revision are not taken any more. -/
def Consumed (c : AdapterOperationCursor) (revision : ℕ) : Prop :=
  revision < c.revision ∨ revision = c.revision ∧ c.awaitingResults = false

theorem Consumed.run (hc : c.Consistent) (h : c.Consumed revision) (calls : List Call) :
    (c.run calls).Consumed revision := by
  induction calls generalizing c with
  | nil => exact h
  | cons call calls ih =>
    refine ih (hc.next call).1 ?_
    rcases perform_cases c call with ⟨error, hp⟩ | ⟨actions, _, hwait, hp⟩ | ⟨hwait, hp⟩ | hp
    · rw [hp]
      exact h
    · rw [hp]
      refine .inl ?_
      rcases h with hlt | ⟨heq, _⟩
      · exact hlt.trans (Nat.lt_succ_self _)
      · exact heq ▸ Nat.lt_succ_self _
    · rw [hp]
      refine .inl ?_
      rcases h with hlt | ⟨heq, _⟩
      · exact hlt.trans (Nat.lt_succ_self _)
      · exact heq ▸ Nat.lt_succ_self _
    · rw [hp]
      rcases h with hlt | ⟨heq, _⟩
      · exact .inl hlt
      · exact .inr ⟨heq, rfl⟩

/-- After any calls: the revisions so far are 1, 2, 3 and so on; results are taken if and only if
    they are for the current revision, which waits for them, and answer the outstanding actions in
    some order; they are then refused for good; and a call that fails changes nothing. -/
theorem cursor_takes_each_step_once (calls : List Call) :
    let cursor := AdapterOperationCursor.run {} calls
    revisions {} calls = List.range' 1 cursor.revision ∧
    (∀ revision results,
      (∃ cursor', (validateResultsIn revision results).on cursor = (.ok (), cursor')) ↔
        revision = cursor.revision ∧ cursor.awaitingResults = true ∧
          (results.map AdapterActionResult.answered).Perm cursor.outstanding) ∧
    (∀ revision results cursor', (validateResultsIn revision results).on cursor =
        (.ok (), cursor') →
      ∀ more results', ∃ error, (validateResultsIn revision results').on (cursor'.run more) =
        (.error error, cursor'.run more)) ∧
    ∀ (call : Call) error cursor', call.perform.on cursor = (.error error, cursor') →
      cursor' = cursor := by
  have hstart : Consistent {} := ⟨List.nodup_nil, nofun⟩
  obtain ⟨hrun, _, hrevisions⟩ := hstart.run calls
  dsimp only
  refine ⟨hrevisions, fun revision results => ?_,
    fun revision results cursor' htaken more results' => ?_, fun call error cursor' hfailed => ?_⟩
  · rw [← validateEach_iff_perm hrun]
    rcases @validateResultsIn_on (AdapterOperationCursor.run {} calls) revision results with
      ⟨⟨error, hvalid⟩, hnot⟩ | ⟨hall, hvalid⟩
    · rw [hvalid]
      constructor
      · rintro ⟨_, hok⟩
        cases hok
      · exact fun hall => absurd hall hnot
    · exact ⟨fun _ => hall, fun _ => ⟨_, hvalid⟩⟩
  · rcases @validateResultsIn_on (AdapterOperationCursor.run {} calls) revision results with
      ⟨⟨error, hvalid⟩, hnot⟩ | ⟨hall, hvalid⟩
    · rw [hvalid] at htaken
      cases htaken
    · rw [hvalid] at htaken
      cases htaken
      have hconsistent : Consistent ⟨(AdapterOperationCursor.run {} calls).revision, [], false⟩ :=
        ⟨List.nodup_nil, nofun⟩
      have hconsumed : Consumed ⟨(AdapterOperationCursor.run {} calls).revision, [], false⟩
          revision := .inr ⟨hall.1, rfl⟩
      have hlater := hconsumed.run hconsistent more
      rcases @validateResultsIn_on (AdapterOperationCursor.run
        ⟨(AdapterOperationCursor.run {} calls).revision, [], false⟩ more) revision results' with
        ⟨hrefused, _⟩ | ⟨⟨heq, hwait, _⟩, _⟩
      · exact hrefused
      · rcases hlater with hlt | ⟨_, hdone⟩
        · exact absurd heq hlt.ne
        · rw [hdone] at hwait
          cases hwait
  · rcases perform_cases _ call with ⟨error, hp⟩ | ⟨actions, _, _, hp⟩ | ⟨_, hp⟩ | hp
    all_goals
      rw [hp] at hfailed
      cases hfailed
    rfl

end AdapterOperationCursor

end Tabulark
