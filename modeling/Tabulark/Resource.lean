import Mathlib
import Tabulark.Error
import Tabulark.Lib.Update

/-!
# Resource accounting

A ledger charges bytes to classes of ownership. The classes that the runtime
owns share a budget; an admission beyond it clears the native cache and tries
once more. The budget is never exceeded, and a failed call loses no charge
unless the counter of reclaimed bytes overflows
(`ResourceLedger.failure_keeps_charges_iff`).
-/

namespace Tabulark

/-- One ownership class in the adapter runtime memory ledger. -/
inductive ResourceCategory
  | persistent
  | activeOperation
  | ingressOutput
  | nativeCache
  | callerOwned
  deriving DecidableEq, Repr

namespace ResourceCategory

/-- The name of a class in error details. -/
def name : ResourceCategory → String
  | persistent => "persistent"
  | activeOperation => "active-operation"
  | ingressOutput => "ingress-output"
  | nativeCache => "native-cache"
  | callerOwned => "caller-owned"

/-- Whether a class counts against the budget. -/
def isRuntimeOwned : ResourceCategory → Bool
  | callerOwned => false
  | _ => true

end ResourceCategory

open ResourceCategory

/-- Checked accounting shared by the official runtimes. -/
structure ResourceLedger where
  budgetBytes : ℕ
  charged : ResourceCategory → ℕ
  highWaterBytes : ℕ
  reclaimedNativeCacheBytes : ℕ

namespace ResourceLedger

/-- An empty ledger with a budget. -/
def new (budgetBytes : ℕ) : Result ResourceLedger :=
  if budgetBytes = 0 then
    .error (.new .invalidArgument "resource ledger budget must be greater than zero")
  else .ok ⟨budgetBytes, fun _ => 0, 0, 0⟩

/-- A ledger with another charge of one class. -/
def charge (ledger : ResourceLedger) (category : ResourceCategory) (bytes : ℕ) :
    ResourceLedger :=
  { ledger with charged := Function.update ledger.charged category bytes }

/-- Adds to a total of the runtime. -/
def addOwned (total bytes : ℕ) : Result ℕ :=
  checkedAdd u64Max total bytes
    (.new .resourceLimit "resource ledger runtime-owned byte count overflows")

/-- The bytes that the runtime owns. -/
def runtimeOwnedBytes (ledger : ResourceLedger) : Result ℕ :=
  ([persistent, activeOperation, ingressOutput, nativeCache].map ledger.charged).foldlM addOwned 0

/-- Whether some more bytes are within the budget. -/
def canAdmit (ledger : ResourceLedger) (bytes : ℕ) : Result Bool := do
  let used ← ledger.runtimeOwnedBytes
  .ok (used + bytes ≤ u64Max ∧ used + bytes ≤ ledger.budgetBytes)

/-- The error of bytes beyond the budget. -/
def limitError (ledger : ResourceLedger) (category : ResourceCategory) (bytes : ℕ) :
    Result TabularkError := do
  let used ← ledger.runtimeOwnedBytes
  let required ← checkedAdd u64Max used bytes
    (.new .resourceLimit "resource ledger admission byte count overflows")
  .ok ((((((TabularkError.new .resourceLimit
    "adapter runtime exceeds its configured resource budget").withDetail
    "resource" (.text category.name)).withDetail
    "requiredBytes" (.number required)).withDetail
    "availableBytes" (.number (ledger.budgetBytes - used)))).withDetail
    "budgetBytes" (.number ledger.budgetBytes))

/-- Adds to the charge of a class, and then raises the high water. -/
def addUnbounded (category : ResourceCategory) (bytes : ℕ) :
    Update TabularkError ResourceLedger Unit := do
  let ledger ← Update.read
  let charged ← Update.of (checkedAdd u64Max (ledger.charged category) bytes
    ((TabularkError.new .resourceLimit
      "resource ledger category byte count overflows").withDetail
      "resource" (.text category.name)))
  Update.assign fun ledger => ledger.charge category charged
  if category.isRuntimeOwned then do
    let ledger ← Update.read
    let used ← Update.of ledger.runtimeOwnedBytes
    Update.assign fun ledger =>
      { ledger with highWaterBytes := max ledger.highWaterBytes used }
  else pure ()

/-- Clears the native cache, and then counts what it had. -/
def clearNativeCache : Update TabularkError ResourceLedger ℕ := do
  let ledger ← Update.read
  let reclaimed := ledger.charged nativeCache
  Update.assign fun ledger => ledger.charge nativeCache 0
  let total ← Update.of (checkedAdd u64Max ledger.reclaimedNativeCacheBytes reclaimed
    (.new .resourceLimit "resource ledger reclaimed-byte counter overflows"))
  Update.assign fun ledger => { ledger with reclaimedNativeCacheBytes := total }
  pure reclaimed

/-- Charges bytes to a class; returns how much of the native cache was cleared for them. -/
def admitBytes (category : ResourceCategory) (bytes : ℕ) : Update TabularkError ResourceLedger ℕ :=
  if ¬category.isRuntimeOwned then do
    addUnbounded category bytes
    pure 0
  else do
    let ledger ← Update.read
    let admitted ← Update.of (ledger.canAdmit bytes)
    if admitted then do
      addUnbounded category bytes
      pure 0
    else do
      let reclaimed ← clearNativeCache
      let ledger ← Update.read
      let admitted ← Update.of (ledger.canAdmit bytes)
      if ¬admitted then do
        let error ← Update.of (ledger.limitError category bytes)
        Update.fail error
      else do
        addUnbounded category bytes
        pure reclaimed

/-- Releases a prior charge. -/
def release (category : ResourceCategory) (bytes : ℕ) :
    Update TabularkError ResourceLedger Unit := do
  let ledger ← Update.read
  if ledger.charged category < bytes then
    Update.fail ((((TabularkError.new .runtimeFailure
      "resource ledger release exceeds the charged byte count").withDetail
      "resource" (.text category.name)).withDetail
      "chargedBytes" (.number (ledger.charged category))).withDetail
      "releaseBytes" (.number bytes))
  else Update.assign fun ledger => ledger.charge category (ledger.charged category - bytes)

/-- Restores a charge after an error. -/
def orRestore (category : ResourceCategory) (previous : ℕ)
    (admission : Update TabularkError ResourceLedger ℕ) :
    Update TabularkError ResourceLedger ℕ := fun ledger =>
  match admission.on ledger with
  | (.ok reclaimed, ledger) => (.ok reclaimed, ledger)
  | (.error error, ledger) => (.error error, ledger.charge category previous)

/-- Replaces the charge of a class; a failure restores it. -/
def replace (category : ResourceCategory) (bytes : ℕ) :
    Update TabularkError ResourceLedger ℕ := do
  let ledger ← Update.read
  let previous := ledger.charged category
  if previous = bytes then pure 0
  else do
    Update.assign fun ledger => ledger.charge category 0
    orRestore category previous (admitBytes category bytes)

/-- Releases all charges. -/
def releaseAll : Update TabularkError ResourceLedger Unit :=
  Update.assign fun ledger => { ledger with charged := fun _ => 0 }

/-! ## Runs -/

/-- A call of the ledger. -/
inductive Call
  | admitBytes (category : ResourceCategory) (bytes : ℕ)
  | release (category : ResourceCategory) (bytes : ℕ)
  | replace (category : ResourceCategory) (bytes : ℕ)
  | clearNativeCache
  | releaseAll

/-- What a call makes of a ledger, without the bytes it returns. -/
def Call.perform : Call → Update TabularkError ResourceLedger Unit
  | .admitBytes category bytes => do
    let _ ← ResourceLedger.admitBytes category bytes
    pure ()
  | .release category bytes => ResourceLedger.release category bytes
  | .replace category bytes => do
    let _ ← ResourceLedger.replace category bytes
    pure ()
  | .clearNativeCache => do
    let _ ← ResourceLedger.clearNativeCache
    pure ()
  | .releaseAll => ResourceLedger.releaseAll

/-- The ledger after some calls. -/
def run : ResourceLedger → List Call → ResourceLedger
  | ledger, [] => ledger
  | ledger, call :: calls => run (call.perform.on ledger).2 calls

/-- The sum of the charges that the runtime owns. -/
def owned (ledger : ResourceLedger) : ℕ :=
  ledger.charged persistent + ledger.charged activeOperation + ledger.charged ingressOutput +
    ledger.charged nativeCache

/-- The highest sum of charges before, between and after some calls. -/
def peak : ResourceLedger → List Call → ℕ
  | ledger, [] => ledger.owned
  | ledger, call :: calls => max ledger.owned (peak (call.perform.on ledger).2 calls)

/-! ## What the operations do -/

variable {ledger : ResourceLedger} {category : ResourceCategory} {bytes : ℕ}

/-- A ledger with a further charge of the runtime, and the high water. -/
def add (ledger : ResourceLedger) (category : ResourceCategory) (bytes : ℕ) : ResourceLedger :=
  { ledger.charge category (ledger.charged category + bytes) with
    highWaterBytes := max ledger.highWaterBytes (ledger.owned + bytes) }

/-- A ledger whose native cache is cleared and counted. -/
def cleared (ledger : ResourceLedger) : ResourceLedger :=
  { ledger.charge nativeCache 0 with
    reclaimedNativeCacheBytes :=
      ledger.reclaimedNativeCacheBytes + ledger.charged nativeCache }

@[simp] theorem charged_charge_self :
    (ledger.charge category bytes).charged category = bytes := Function.update_self ..

theorem charged_charge_of_ne {other : ResourceCategory} (h : other ≠ category) :
    (ledger.charge category bytes).charged other = ledger.charged other :=
  Function.update_of_ne h ..

theorem charge_charged : ledger.charge category (ledger.charged category) = ledger := by
  rw [charge, Function.update_eq_self]

theorem charge_charge {bytes' : ℕ} :
    (ledger.charge category bytes).charge category bytes' = ledger.charge category bytes' := by
  rw [charge, charge, charge, Function.update_idem]

/-- A charge of the runtime replaces what the class had in the sum. -/
theorem owned_charge (h : category.isRuntimeOwned = true) :
    (ledger.charge category bytes).owned + ledger.charged category = ledger.owned + bytes := by
  cases category with
  | callerOwned => cases h
  | _ =>
    simp only [owned, charge, Function.update, reduceCtorEq, dite_true, dite_false]
    omega

theorem charged_le_owned (h : category.isRuntimeOwned = true) :
    ledger.charged category ≤ ledger.owned := by
  have hsum := @owned_charge ledger category 0 h
  omega

theorem owned_add (h : category.isRuntimeOwned = true) :
    (ledger.add category bytes).owned = ledger.owned + bytes := by
  have hsum := @owned_charge ledger category (ledger.charged category + bytes) h
  change (ledger.charge category (ledger.charged category + bytes)).owned = _
  omega

theorem owned_cleared : ledger.cleared.owned + ledger.charged nativeCache = ledger.owned :=
  @owned_charge ledger nativeCache 0 rfl

/-- The budget holds, and the high water is between the charges and the budget. -/
structure Admissible (ledger : ResourceLedger) : Prop where
  owned_le : ledger.owned ≤ ledger.highWaterBytes
  highWater_le : ledger.highWaterBytes ≤ ledger.budgetBytes
  budget_le : ledger.budgetBytes ≤ u64Max
  reclaimed_le : ledger.reclaimedNativeCacheBytes ≤ u64Max

theorem Admissible.owned_le_budget (h : ledger.Admissible) : ledger.owned ≤ ledger.budgetBytes :=
  h.owned_le.trans h.highWater_le

theorem runtimeOwnedBytes_of_le (h : ledger.owned ≤ u64Max) :
    ledger.runtimeOwnedBytes = .ok ledger.owned := by
  rw [owned] at h
  simp only [runtimeOwnedBytes, List.map_cons, List.map_nil, List.foldlM_cons, List.foldlM_nil,
    addOwned]
  rw [checkedAdd_of_le (by omega), Result.ok_bind, checkedAdd_of_le (by omega), Result.ok_bind,
    checkedAdd_of_le (by omega), Result.ok_bind, checkedAdd_of_le (by omega), Result.ok_bind,
    Nat.zero_add]
  rfl

theorem canAdmit_of_admissible (h : ledger.Admissible) :
    ledger.canAdmit bytes = .ok (decide (ledger.owned + bytes ≤ ledger.budgetBytes)) := by
  have hbudget := h.budget_le
  rw [canAdmit, runtimeOwnedBytes_of_le (h.owned_le_budget.trans hbudget), Result.ok_bind]
  congr 2
  rw [eq_iff_iff]
  omega

theorem addUnbounded_of_fits (hc : category.isRuntimeOwned = true) (h : ledger.Admissible)
    (hfits : ledger.owned + bytes ≤ ledger.budgetBytes) :
    (addUnbounded category bytes).on ledger = (.ok (), ledger.add category bytes) := by
  have hbudget := h.budget_le
  have hcharged := @charged_le_owned ledger category hc
  have howned := @owned_add ledger category bytes hc
  have hcharge : (ledger.charge category (ledger.charged category + bytes)).runtimeOwnedBytes =
      .ok (ledger.owned + bytes) := by
    rw [← howned]
    exact runtimeOwnedBytes_of_le (by
      change (ledger.add category bytes).owned ≤ u64Max
      omega)
  rw [addUnbounded, Update.on_read_bind, checkedAdd_of_le (by omega), Update.on_ok_bind,
    Update.on_assign_bind, if_pos hc, Update.on_read_bind, hcharge, Update.on_ok_bind,
    Update.on_assign]
  rfl

theorem addUnbounded_callerOwned :
    (addUnbounded callerOwned bytes).on ledger =
        (.ok (), ledger.charge callerOwned (ledger.charged callerOwned + bytes)) ∨
      ∃ error, (addUnbounded callerOwned bytes).on ledger = (.error error, ledger) := by
  rw [addUnbounded, Update.on_read_bind]
  by_cases hle : ledger.charged callerOwned + bytes ≤ u64Max
  · rw [checkedAdd_of_le hle]
    exact .inl rfl
  · rw [checkedAdd, if_neg hle]
    exact .inr ⟨_, rfl⟩

theorem clearNativeCache_on :
    (u64Max < ledger.reclaimedNativeCacheBytes + ledger.charged nativeCache ∧
      ∃ error, clearNativeCache.on ledger = (.error error, ledger.charge nativeCache 0)) ∨
    (ledger.reclaimedNativeCacheBytes + ledger.charged nativeCache ≤ u64Max ∧
      clearNativeCache.on ledger = (.ok (ledger.charged nativeCache), ledger.cleared)) := by
  rw [clearNativeCache, Update.on_read_bind, Update.on_assign_bind, checkedAdd]
  split_ifs with hle
  · exact .inr ⟨hle, rfl⟩
  · exact .inl ⟨not_le.1 hle, _, rfl⟩

theorem Admissible.cleared (h : ledger.Admissible)
    (hle : ledger.reclaimedNativeCacheBytes + ledger.charged nativeCache ≤ u64Max) :
    ledger.cleared.Admissible := by
  have howned := @owned_cleared ledger
  have hown := h.owned_le
  refine ⟨?_, h.highWater_le, h.budget_le, hle⟩
  change ledger.cleared.owned ≤ ledger.highWaterBytes
  omega

theorem Admissible.add (hc : category.isRuntimeOwned = true) (h : ledger.Admissible)
    (hfits : ledger.owned + bytes ≤ ledger.budgetBytes) :
    (ledger.add category bytes).Admissible := by
  refine ⟨?_, max_le h.highWater_le hfits, h.budget_le, h.reclaimed_le⟩
  rw [owned_add hc]
  exact le_max_right _ _

/-- What an admission does. -/
inductive Admission (ledger : ResourceLedger) (category : ResourceCategory) (bytes : ℕ) :
    Except TabularkError ℕ × ResourceLedger → Prop
  | untracked : category = callerOwned →
    Admission ledger category bytes
      (.ok 0, ledger.charge callerOwned (ledger.charged callerOwned + bytes))
  | untrackedOverflow (error : TabularkError) : category = callerOwned →
    Admission ledger category bytes (.error error, ledger)
  | fits : category.isRuntimeOwned = true → ledger.owned + bytes ≤ ledger.budgetBytes →
    Admission ledger category bytes (.ok 0, ledger.add category bytes)
  | uncounted (error : TabularkError) : category.isRuntimeOwned = true →
    ledger.budgetBytes < ledger.owned + bytes →
    u64Max < ledger.reclaimedNativeCacheBytes + ledger.charged nativeCache →
    Admission ledger category bytes (.error error, ledger.charge nativeCache 0)
  | reclaimed : category.isRuntimeOwned = true → ledger.budgetBytes < ledger.owned + bytes →
    ledger.reclaimedNativeCacheBytes + ledger.charged nativeCache ≤ u64Max →
    ledger.cleared.owned + bytes ≤ ledger.budgetBytes →
    Admission ledger category bytes
      (.ok (ledger.charged nativeCache), ledger.cleared.add category bytes)
  | full (error : TabularkError) : category.isRuntimeOwned = true →
    ledger.budgetBytes < ledger.owned + bytes →
    ledger.reclaimedNativeCacheBytes + ledger.charged nativeCache ≤ u64Max →
    Admission ledger category bytes (.error error, ledger.cleared)

theorem admitBytes_on (h : ledger.Admissible) :
    Admission ledger category bytes ((admitBytes category bytes).on ledger) := by
  by_cases hc : category.isRuntimeOwned = true
  · rw [admitBytes, if_neg (not_not.2 hc), Update.on_read_bind, canAdmit_of_admissible h,
      Update.on_ok_bind]
    by_cases hfits : ledger.owned + bytes ≤ ledger.budgetBytes
    · rw [if_pos (decide_eq_true hfits),
        Update.on_bind_of_ok (addUnbounded_of_fits hc h hfits), Update.on_pure]
      exact .fits hc hfits
    · rw [if_neg (by rwa [decide_eq_true_iff])]
      rcases @clearNativeCache_on ledger with ⟨hover, error, hclear⟩ | ⟨hle, hclear⟩
      · rw [Update.on_bind_of_error hclear]
        exact .uncounted error hc (not_le.1 hfits) hover
      · have hcleared := h.cleared hle
        rw [Update.on_bind_of_ok hclear, Update.on_read_bind, canAdmit_of_admissible hcleared,
          Update.on_ok_bind]
        by_cases hfits' : ledger.cleared.owned + bytes ≤ ledger.cleared.budgetBytes
        · rw [if_neg (not_not.2 (decide_eq_true hfits')),
            Update.on_bind_of_ok (addUnbounded_of_fits hc hcleared hfits'), Update.on_pure]
          exact .reclaimed hc (not_le.1 hfits) hle hfits'
        · rw [if_pos (by rwa [decide_eq_true_iff])]
          cases ledger.cleared.limitError category bytes with
          | error error => exact .full error hc (not_le.1 hfits) hle
          | ok error => exact .full error hc (not_le.1 hfits) hle
  · have hcaller : category = callerOwned := by
      cases category <;> first | rfl | exact absurd rfl hc
    subst hcaller
    rw [admitBytes, if_pos hc]
    rcases @addUnbounded_callerOwned ledger bytes with hadd | ⟨error, hadd⟩
    · rw [Update.on_bind_of_ok hadd]
      exact .untracked rfl
    · rw [Update.on_bind_of_error hadd]
      exact .untrackedOverflow error rfl

/-! ## What a failure keeps -/

/-- A call that clears the native cache: on request, or for bytes that do not fit. -/
def Call.Clears (ledger : ResourceLedger) : Call → Prop
  | .admitBytes category bytes =>
    category.isRuntimeOwned = true ∧ ledger.budgetBytes < ledger.owned + bytes
  | .replace category bytes =>
    category.isRuntimeOwned = true ∧ category ≠ nativeCache ∧ ledger.charged category ≠ bytes ∧
      ledger.budgetBytes < ledger.owned - ledger.charged category + bytes
  | .clearNativeCache => True
  | .release _ _ => False
  | .releaseAll => False

/-- A call that clears more of the native cache than the counter of reclaimed bytes can take. -/
def Call.Overflows (ledger : ResourceLedger) (call : Call) : Prop :=
  call.Clears ledger ∧ u64Max < ledger.reclaimedNativeCacheBytes + ledger.charged nativeCache

/-- All charges are kept, except that the native cache may be cleared and counted. -/
structure Keeps (ledger ledger' : ResourceLedger) : Prop where
  charged : ∀ category, category ≠ nativeCache → ledger'.charged category = ledger.charged category
  cache : (ledger'.charged nativeCache = ledger.charged nativeCache ∧
      ledger'.reclaimedNativeCacheBytes = ledger.reclaimedNativeCacheBytes) ∨
    (ledger'.charged nativeCache = 0 ∧ ledger'.reclaimedNativeCacheBytes =
      ledger.reclaimedNativeCacheBytes + ledger.charged nativeCache)

/-- What a call does: it succeeds, it fails and keeps the charges, or it loses the native cache
    without counting it. -/
structure Performed (ledger : ResourceLedger) (call : Call)
    (performed : Except TabularkError Unit × ResourceLedger) : Prop where
  admissible : performed.2.Admissible
  budget : performed.2.budgetBytes = ledger.budgetBytes
  highWater : ledger.highWaterBytes ≤ performed.2.highWaterBytes
  outcome : (performed.1 = .ok () ∧ ¬call.Overflows ledger) ∨
    (∃ error, performed.1 = .error error) ∧
      (¬call.Overflows ledger ∧ ledger.Keeps performed.2 ∨
        call.Overflows ledger ∧ performed.2.charged nativeCache = 0 ∧
          performed.2.reclaimedNativeCacheBytes = ledger.reclaimedNativeCacheBytes)

theorem Keeps.refl : ledger.Keeps ledger := ⟨fun _ _ => rfl, .inl ⟨rfl, rfl⟩⟩

theorem charged_cleared (other : ResourceCategory) :
    ledger.cleared.charged other = (ledger.charge nativeCache 0).charged other := rfl

theorem keeps_cleared : ledger.Keeps ledger.cleared :=
  ⟨fun _ hne => charged_charge_of_ne hne,
    .inr ⟨(charged_cleared _).trans charged_charge_self, rfl⟩⟩

/-- Smaller charges are within the budget too. -/
theorem Admissible.of_le {ledger' : ResourceLedger} (h : ledger.Admissible)
    (howned : ledger'.owned ≤ ledger.owned) (hbudget : ledger'.budgetBytes = ledger.budgetBytes)
    (hhigh : ledger'.highWaterBytes = ledger.highWaterBytes)
    (hreclaimed : ledger'.reclaimedNativeCacheBytes ≤ u64Max) : ledger'.Admissible :=
  ⟨hhigh ▸ howned.trans h.owned_le, hhigh ▸ hbudget ▸ h.highWater_le, hbudget ▸ h.budget_le,
    hreclaimed⟩

theorem owned_charge_zero_le : (ledger.charge category 0).owned ≤ ledger.owned := by
  by_cases hc : category.isRuntimeOwned = true
  · have hsum := @owned_charge ledger category 0 hc
    omega
  · cases category with
    | callerOwned => exact le_rfl
    | _ => exact absurd rfl hc

/-- A charge is restored after smaller charges. -/
theorem owned_restored {ledger' : ResourceLedger} (hc : category.isRuntimeOwned = true)
    (hle : ledger'.owned ≤ (ledger.charge category 0).owned)
    (hzero : ledger'.charged category = 0) :
    (ledger'.charge category (ledger.charged category)).owned ≤ ledger.owned := by
  have hsum := @owned_charge ledger' category (ledger.charged category) hc
  have hsum' := @owned_charge ledger category 0 hc
  omega

theorem Admissible.charge_zero (h : ledger.Admissible) : (ledger.charge category 0).Admissible :=
  h.of_le owned_charge_zero_le rfl rfl h.reclaimed_le

theorem perform_admitBytes (h : ledger.Admissible) :
    ledger.Performed (.admitBytes category bytes)
    ((Call.admitBytes category bytes).perform.on ledger) := by
  have hadmitted := @admitBytes_on ledger category bytes h
  rw [Call.perform, Update.on_bind]
  generalize (admitBytes category bytes).on ledger = admitted at hadmitted ⊢
  cases hadmitted with
  | untracked hc =>
    subst hc
    exact ⟨h.of_le le_rfl rfl rfl h.reclaimed_le, rfl, le_rfl,
      .inl ⟨rfl, fun hover => Bool.false_ne_true hover.1.1⟩⟩
  | untrackedOverflow error hc =>
    subst hc
    exact ⟨h, rfl, le_rfl, .inr ⟨⟨error, rfl⟩,
      .inl ⟨fun hover => Bool.false_ne_true hover.1.1, .refl⟩⟩⟩
  | fits hc hfits =>
    exact ⟨h.add hc hfits, rfl, le_max_left _ _, .inl ⟨rfl, fun hover => hover.1.2.not_ge hfits⟩⟩
  | uncounted error hc hfull hover =>
    exact ⟨h.charge_zero, rfl, le_rfl,
      .inr ⟨⟨error, rfl⟩, .inr ⟨⟨⟨hc, hfull⟩, hover⟩, charged_charge_self, rfl⟩⟩⟩
  | reclaimed hc hfull hle hfits =>
    exact ⟨(h.cleared hle).add hc hfits, rfl, le_max_left _ _,
      .inl ⟨rfl, fun hover => hover.2.not_ge hle⟩⟩
  | full error hc hfull hle =>
    exact ⟨h.cleared hle, rfl, le_rfl,
      .inr ⟨⟨error, rfl⟩, .inl ⟨fun hover => hover.2.not_ge hle, keeps_cleared⟩⟩⟩

theorem perform_clearNativeCache (h : ledger.Admissible) :
    ledger.Performed .clearNativeCache (Call.clearNativeCache.perform.on ledger) := by
  rw [Call.perform]
  rcases @clearNativeCache_on ledger with ⟨hover, error, hclear⟩ | ⟨hle, hclear⟩
  · rw [Update.on_bind_of_error hclear]
    exact ⟨h.charge_zero, rfl, le_rfl,
      .inr ⟨⟨error, rfl⟩, .inr ⟨⟨trivial, hover⟩, charged_charge_self, rfl⟩⟩⟩
  · rw [Update.on_bind_of_ok hclear]
    exact ⟨h.cleared hle, rfl, le_rfl, .inl ⟨rfl, fun hover => hover.2.not_ge hle⟩⟩

theorem perform_release (h : ledger.Admissible) :
    ledger.Performed (.release category bytes)
      ((Call.release category bytes).perform.on ledger) := by
  rw [Call.perform, release, Update.on_read_bind]
  split_ifs with hlt
  · exact ⟨h, rfl, le_rfl, .inr ⟨⟨_, rfl⟩, .inl ⟨fun hover => hover.1, .refl⟩⟩⟩
  · refine ⟨h.of_le ?_ rfl rfl h.reclaimed_le, rfl, le_rfl, .inl ⟨rfl, fun hover => hover.1⟩⟩
    by_cases hc : category.isRuntimeOwned = true
    · have hsum := @owned_charge ledger category (ledger.charged category - bytes) hc
      rw [Update.on_assign]
      dsimp only
      omega
    · cases category with
      | callerOwned => exact le_rfl
      | _ => exact absurd rfl hc

theorem perform_releaseAll (h : ledger.Admissible) :
    ledger.Performed .releaseAll (Call.releaseAll.perform.on ledger) :=
  ⟨h.of_le (Nat.zero_le _) rfl rfl h.reclaimed_le, rfl, le_rfl,
    .inl ⟨rfl, fun hover => hover.1⟩⟩

theorem orRestore_on {previous : ℕ} {admission : Update TabularkError ResourceLedger ℕ} :
    (orRestore category previous admission).on ledger =
      match admission.on ledger with
      | (.ok reclaimed, ledger) => (.ok reclaimed, ledger)
      | (.error error, ledger) => (.error error, ledger.charge category previous) := rfl

theorem replace_on_of_ne (hne : ledger.charged category ≠ bytes) :
    (replace category bytes).on ledger = (orRestore category (ledger.charged category)
      (admitBytes category bytes)).on (ledger.charge category 0) := by
  rw [replace, Update.on_read_bind]
  dsimp only
  rw [if_neg hne, Update.on_assign_bind]

theorem perform_replace (h : ledger.Admissible) :
    ledger.Performed (.replace category bytes)
      ((Call.replace category bytes).perform.on ledger) := by
  rw [Call.perform]
  by_cases hsame : ledger.charged category = bytes
  · have hkeep : (replace category bytes).on ledger = (.ok 0, ledger) := by
      rw [replace, Update.on_read_bind]
      dsimp only
      rw [if_pos hsame, Update.on_pure]
    rw [Update.on_bind_of_ok hkeep]
    exact ⟨h, rfl, le_rfl, .inl ⟨rfl, fun hover => hover.1.2.2.1 hsame⟩⟩
  · -- The old charge is given up first, and restored if the new one is refused.
    have hadmitted := @admitBytes_on (ledger.charge category 0) category bytes h.charge_zero
    rw [Update.on_bind, replace_on_of_ne hsame, orRestore_on]
    generalize (admitBytes category bytes).on (ledger.charge category 0) = admitted at hadmitted ⊢
    cases hadmitted with
    | untracked hc =>
      subst hc
      exact ⟨h.of_le le_rfl rfl rfl h.reclaimed_le, rfl, le_rfl,
        .inl ⟨rfl, fun hover => Bool.false_ne_true hover.1.1⟩⟩
    | untrackedOverflow error hc =>
      subst hc
      dsimp only
      rw [charge_charge, charge_charged]
      exact ⟨h, rfl, le_rfl, .inr ⟨⟨error, rfl⟩,
        .inl ⟨fun hover => Bool.false_ne_true hover.1.1, .refl⟩⟩⟩
    | fits hc hfits =>
      have hzero := @owned_charge ledger category 0 hc
      have hbudget : (ledger.charge category 0).budgetBytes = ledger.budgetBytes := rfl
      refine ⟨h.charge_zero.add hc hfits, rfl, le_max_left _ _, .inl ⟨rfl, fun hover => ?_⟩⟩
      have hfull := hover.1.2.2.2
      omega
    | uncounted error hc hfull hover =>
      have hne : category ≠ nativeCache := by
        rintro rfl
        rw [charged_charge_self] at hover
        exact hover.not_ge h.reclaimed_le
      rw [charged_charge_of_ne hne.symm] at hover
      have hzero := @owned_charge ledger category 0 hc
      have hbudget : (ledger.charge category 0).budgetBytes = ledger.budgetBytes := rfl
      refine ⟨h.of_le (owned_restored hc owned_charge_zero_le ?_) rfl rfl h.reclaimed_le, rfl,
        le_rfl, .inr ⟨⟨error, rfl⟩, .inr ⟨⟨⟨hc, hne, hsame, by omega⟩, hover⟩, ?_, rfl⟩⟩⟩
      · rw [charged_charge_of_ne hne, charged_charge_self]
      · rw [charged_charge_of_ne hne.symm, charged_charge_self]
    | reclaimed hc hfull hle hfits =>
      refine ⟨(h.charge_zero.cleared hle).add hc hfits, rfl, le_max_left _ _,
        .inl ⟨rfl, fun hover => ?_⟩⟩
      rw [charged_charge_of_ne hover.1.2.1.symm] at hle
      exact hover.2.not_ge hle
    | full error hc hfull hle =>
      have hcleared := @owned_cleared (ledger.charge category 0)
      refine ⟨h.of_le (owned_restored hc (by omega) ?_) rfl rfl hle, rfl, le_rfl,
        .inr ⟨⟨error, rfl⟩, .inl ⟨fun hover => ?_, fun other hother => ?_, ?_⟩⟩⟩
      · rw [charged_cleared]
        by_cases hne : category = nativeCache
        · subst hne
          exact charged_charge_self
        · rw [charged_charge_of_ne hne, charged_charge_self]
      · rw [charged_charge_of_ne hover.1.2.1.symm] at hle
        exact hover.2.not_ge hle
      · dsimp only
        by_cases hsame : other = category
        · subst hsame
          rw [charged_charge_self]
        · rw [charged_charge_of_ne hsame, charged_cleared, charged_charge_of_ne hother,
            charged_charge_of_ne hsame]
      · dsimp only
        by_cases hne : category = nativeCache
        · subst hne
          refine .inl ⟨charged_charge_self, ?_⟩
          change ledger.reclaimedNativeCacheBytes +
            (ledger.charge nativeCache 0).charged nativeCache = _
          rw [charged_charge_self, Nat.add_zero]
        · refine .inr ⟨?_, ?_⟩
          · rw [charged_charge_of_ne (Ne.symm hne), charged_cleared, charged_charge_self]
          · change ledger.reclaimedNativeCacheBytes +
              (ledger.charge category 0).charged nativeCache = _
            rw [charged_charge_of_ne (Ne.symm hne)]

/-- A call keeps the budget, and a failure keeps the charges unless it overflows. -/
theorem Admissible.perform (h : ledger.Admissible) (call : Call) :
    ledger.Performed call (call.perform.on ledger) := by
  cases call with
  | admitBytes category bytes => exact perform_admitBytes h
  | release category bytes => exact perform_release h
  | replace category bytes => exact perform_replace h
  | clearNativeCache => exact perform_clearNativeCache h
  | releaseAll => exact perform_releaseAll h

/-! ## Runs of calls -/

/-- A run keeps the budget, and the high water is above the charges on the way. -/
theorem Admissible.run (h : ledger.Admissible) (calls : List Call) :
    (ledger.run calls).Admissible ∧ (ledger.run calls).budgetBytes = ledger.budgetBytes ∧
      ledger.highWaterBytes ≤ (ledger.run calls).highWaterBytes ∧
      ledger.peak calls ≤ (ledger.run calls).highWaterBytes := by
  induction calls generalizing ledger with
  | nil => exact ⟨h, rfl, le_rfl, h.owned_le⟩
  | cons call calls ih =>
    have hperform := h.perform call
    obtain ⟨hadmissible, hbudget, hhigh, hpeak⟩ := ih hperform.admissible
    have hhigh' := hperform.highWater.trans hhigh
    exact ⟨hadmissible, hbudget.trans hperform.budget, hhigh',
      max_le (h.owned_le.trans hhigh') hpeak⟩

theorem new_admissible {budget : ℕ} (hnew : new budget = .ok ledger) (hbudget : budget ≤ u64Max) :
    ledger.Admissible ∧ ledger.budgetBytes = budget := by
  rw [new] at hnew
  split_ifs at hnew
  cases hnew
  exact ⟨⟨le_rfl, Nat.zero_le _, hbudget, Nat.zero_le _⟩, rfl⟩

/-- After any calls the runtime owns no more than the budget, the high water is between the highest
    charge on the way and the budget, and a further call that fails keeps the charges unless it
    clears more of the native cache than the counter of reclaimed bytes can take. -/
theorem failure_keeps_charges_iff {budget : ℕ} (hnew : new budget = .ok ledger)
    (hbudget : budget ≤ u64Max) (calls : List Call) :
    (ledger.run calls).owned ≤ budget ∧ (ledger.run calls).owned ≤ u64Max ∧
    ledger.peak calls ≤ (ledger.run calls).highWaterBytes ∧
    (ledger.run calls).highWaterBytes ≤ budget ∧
    ∀ call : Call,
      (∀ error ledger', call.perform.on (ledger.run calls) = (.error error, ledger') →
        (ledger.run calls).Keeps ledger') ↔
      ¬call.Overflows (ledger.run calls) := by
  obtain ⟨hadmissible, rfl⟩ := new_admissible hnew hbudget
  obtain ⟨hrun, hrunBudget, _, hpeak⟩ := hadmissible.run calls
  have howned := hrun.owned_le_budget
  have hhigh := hrun.highWater_le
  rw [hrunBudget] at howned hhigh
  refine ⟨howned, howned.trans hbudget, hpeak, hhigh, fun call => ?_⟩
  have hperform := hrun.perform call
  constructor
  · intro hkeeps hover
    rcases hperform.outcome with ⟨_, hnot⟩ | ⟨⟨error, herror⟩, ⟨hnot, _⟩ | ⟨_, hzero, hcount⟩⟩
    · exact hnot hover
    · exact hnot hover
    · have hkept := hkeeps error _ (Prod.ext herror rfl)
      have hreclaimed := hrun.reclaimed_le
      have hlost := hover.2
      rcases hkept.cache with ⟨hcache, _⟩ | ⟨_, hcounted⟩
      · rw [hzero] at hcache
        omega
      · rw [hcount] at hcounted
        omega
  · intro hnot error ledger' hfailed
    rw [hfailed] at hperform
    rcases hperform.outcome with ⟨hok, _⟩ | ⟨_, ⟨_, hkeeps⟩ | ⟨hover, _⟩⟩
    · cases hok
    · exact hkeeps
    · exact absurd hover hnot

/-- A charge that does not fit the budget beside another one. -/
theorem failure_keeps_charges_iff_persistent :
    let ledger := (ResourceLedger.mk 100 (fun _ => 0) 0 0).run [.admitBytes persistent 40]
    ledger.owned ≤ 100 ∧
      ∃ error ledger', (Call.admitBytes persistent 70).perform.on ledger = (.error error, ledger') ∧
        ledger.Keeps ledger' := by
  intro ledger
  have hnew : new 100 = .ok (ResourceLedger.mk 100 (fun _ => 0) 0 0) := rfl
  obtain ⟨howned, -, -, -, hkeeps⟩ :=
    failure_keeps_charges_iff hnew (by decide) [.admitBytes persistent 40]
  refine ⟨howned, _, _, rfl, (hkeeps (.admitBytes persistent 70)).2 ?_ _ _ rfl⟩
  rintro ⟨-, hover⟩
  exact absurd hover (by decide)

/-- A native cache that is cleared twice, the second time beyond the counter. -/
theorem cleared_cache_uncounted :
    ∃ ledger, new u64Max = .ok ledger ∧ ∃ error ledger',
      Call.clearNativeCache.perform.on (ledger.run
        [.admitBytes nativeCache u64Max, .clearNativeCache, .admitBytes nativeCache 1]) =
          (.error error, ledger') ∧
      ¬(ledger.run [.admitBytes nativeCache u64Max, .clearNativeCache,
        .admitBytes nativeCache 1]).Keeps ledger' := by
  refine ⟨_, rfl, _, _, rfl, fun hkeeps => ?_⟩
  rcases hkeeps.cache with ⟨hcache, _⟩ | ⟨_, hcounted⟩
  · exact absurd hcache (by decide)
  · exact absurd hcounted (by decide)

end ResourceLedger

end Tabulark
