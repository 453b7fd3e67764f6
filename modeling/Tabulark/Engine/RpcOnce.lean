import Mathlib
import Tabulark.Engine.RpcClient

/-!
# Requests settle once

`Sound` is what holds of a client at every moment, also while a listener runs: then
some requests are in flight, taken off the pending ones and not settled yet. Every
action keeps it (`keeps_act`), whatever its listeners do, by an induction on the
actions and those of their listeners. `requests_settle_once` reads off what the
trace of any run shows.
-/

namespace Tabulark.Engine.Rpc

open RpcClient

/-! ## Reading the trace -/

namespace Observation

/-- The request that is settled. -/
def settledId? : Observation → Option String
  | settled requestId _ => some requestId
  | _ => none

/-- The request that is made. -/
def requestedId? : Observation → Option String
  | requested requestId _ => some requestId
  | _ => none

/-- The number that a message is posted under. -/
def postId? : Observation → Option String
  | posted (.request requestId ..) _ => some requestId
  | posted (.cancel requestId _) _ => some requestId
  | _ => none

/-- The request that the Worker is asked to cancel. -/
def cancelTarget? : Observation → Option String
  | posted (.cancel _ targetRequestId) _ => some targetRequestId
  | _ => none

/-- The pending request whose signal is aborted. -/
def abortedId? : Observation → Option String
  | aborted requestId => some requestId
  | _ => none

def isPost : Observation → Bool
  | posted .. => true
  | _ => false

def isFailed : Observation → Bool
  | failed _ => true
  | _ => false

end Observation

/-- A response that came in has the number of a request, the kind it was made for, and this data. -/
def Answered (trace : List Observation) (requestId : String) (data : JsValue) : Prop :=
  ∃ value kind, .received value ∈ trace ∧ isValidProtocolResponse value = true ∧
    value.prop "requestId" = .text requestId ∧ (value.prop "status").isText "success" = true ∧
    .requested requestId kind ∈ trace ∧
    (value.prop "result").prop "kind" = .text kind.text ∧ data = (value.prop "result").prop "data"

/-! ## Numbers of requests -/

theorem requestIdText_inj {m n : ℕ} (h : requestIdText m = requestIdText n) : m = n := by
  rw [requestIdText, requestIdText, String.append_right_inj] at h
  have hdigits : Nat.toDigits 10 m = Nat.toDigits 10 n := by
    rw [← Nat.toList_repr, ← Nat.toList_repr]
    exact congrArg String.toList h
  rw [← Nat.ofDigitChars_ten_toDigits (n := m), hdigits, Nat.ofDigitChars_ten_toDigits]

/-- One of the first `n` numbers. -/
def Numbered (n : ℕ) (requestId : String) : Prop := ∃ k < n, requestId = requestIdText k

theorem Numbered.mono {m n : ℕ} {requestId : String} (h : Numbered m requestId) (hle : m ≤ n) :
    Numbered n requestId := by
  obtain ⟨k, hk, rfl⟩ := h
  exact ⟨k, hk.trans_le hle, rfl⟩

/-- The next number is not one of those before it. -/
theorem not_numbered (n : ℕ) : ¬Numbered n (requestIdText n) := by
  rintro ⟨k, hk, heq⟩
  exact hk.ne (requestIdText_inj heq).symm

/-! ## Sound clients -/

namespace RpcClient

/-- The numbers of the requests that are settled. -/
def settledIds (c : RpcClient) : List String := c.trace.filterMap Observation.settledId?

/-- The numbers of the requests that are pending. -/
def pendingIds (c : RpcClient) : List String := c.pending.entries.map Prod.fst

/-- The requests that the Worker was asked to cancel. -/
def cancelTargets (c : RpcClient) : List String := c.trace.filterMap Observation.cancelTarget?

/-- The requests whose signal was aborted while they were pending. -/
def abortedIds (c : RpcClient) : List String := c.trace.filterMap Observation.abortedId?

end RpcClient

/-- What holds of a client at every moment, while some requests are in flight and some observations
    are known. -/
structure Sound (flying : List String) (known : List Observation) (c : RpcClient) : Prop where
  /-- A request is in flight, settled or pending, and only once. -/
  once : (flying ++ (c.settledIds ++ c.pendingIds)).Nodup
  numbered : ∀ id ∈ flying ++ (c.settledIds ++ c.pendingIds), Numbered c.nextRequestId id
  requests_once : (c.trace.filterMap Observation.requestedId?).Nodup
  requests_numbered : ∀ id ∈ c.trace.filterMap Observation.requestedId?,
    Numbered c.nextRequestId id
  posts_once : (c.trace.filterMap Observation.postId?).Nodup
  posts_numbered : ∀ id ∈ c.trace.filterMap Observation.postId?, Numbered c.nextRequestId id
  known : ∀ o ∈ known, o ∈ c.trace
  requested : ∀ e ∈ c.pending.entries, .requested e.1 e.2.expectedKind ∈ c.trace
  resolved : ∀ id data, .settled id (.resolved data) ∈ c.trace → Answered c.trace id data
  cancels : c.cancelTargets = c.abortedIds
  stopped : .stopped ∈ c.trace ↔ c.closed = true
  idle : c.closed = true → c.pending.entries = []
  quiet : c.trace.Pairwise fun newer older => older = .stopped → newer.isPost = false
  failures : (c.trace.filter Observation.isFailed).length ≤ 1
  unfailed : c.closed = false → c.trace.filter Observation.isFailed = []

/-- A function that keeps clients sound. -/
def Keeps (f : RpcClient → RpcClient) : Prop :=
  ∀ flying known c, Sound flying known c → Sound flying known (f c)

theorem Answered.cons {trace : List Observation} {requestId : String} {data : JsValue}
    (h : Answered trace requestId data) (o : Observation) :
    Answered (o :: trace) requestId data := by
  obtain ⟨value, kind, hvalue, hvalid, hid, hstatus, hrequested, hkind, hdata⟩ := h
  exact ⟨value, kind, .tail _ hvalue, hvalid, hid, hstatus, .tail _ hrequested, hkind, hdata⟩

variable {flying : List String} {known : List Observation} {c : RpcClient} {id : String}

namespace Sound

theorem start : Sound [] [] {} where
  once := .nil
  numbered := nofun
  requests_once := .nil
  requests_numbered := nofun
  posts_once := .nil
  posts_numbered := nofun
  known := nofun
  requested := nofun
  resolved := nofun
  cancels := rfl
  stopped := ⟨nofun, nofun⟩
  idle := nofun
  quiet := .nil
  failures := Nat.zero_le _
  unfailed := fun _ => rfl

theorem of_known {known' : List Observation} (h : Sound flying known c)
    (hsub : ∀ o ∈ known', o ∈ known) : Sound flying known' c :=
  { h with known := fun o ho => h.known o (hsub o ho) }

/-- A request in flight that is never settled. -/
theorem of_flying (h : Sound (id :: flying) known c) : Sound flying known c :=
  { h with
    once := (List.nodup_cons.1 h.once).2
    numbered := fun id hid => h.numbered id (.tail _ hid) }

/-- An observation that tells nothing about requests. -/
theorem note (h : Sound flying known c) {o : Observation} (hsettled : o.settledId? = none)
    (hrequested : o.requestedId? = none) (hpost : o.postId? = none)
    (hcancel : o.cancelTarget? = o.abortedId?) (hstopped : o ≠ .stopped)
    (hquiet : c.closed = true → o.isPost = false)
    (hfailed : o.isFailed = true →
      c.closed = true ∧ c.trace.filter Observation.isFailed = []) :
    Sound flying known (c.note o) where
  once := by simpa [settledIds, pendingIds, RpcClient.note, hsettled] using h.once
  numbered := by simpa [settledIds, pendingIds, RpcClient.note, hsettled] using h.numbered
  requests_once := by simpa [RpcClient.note, hrequested] using h.requests_once
  requests_numbered := by simpa [RpcClient.note, hrequested] using h.requests_numbered
  posts_once := by simpa [RpcClient.note, hpost] using h.posts_once
  posts_numbered := by simpa [RpcClient.note, hpost] using h.posts_numbered
  known := fun o ho => .tail _ (h.known o ho)
  requested := fun e he => .tail _ (h.requested e he)
  resolved := by
    intro id data hmem
    rcases List.mem_cons.1 hmem with rfl | hmem
    · cases hsettled
    · exact (h.resolved id data hmem).cons o
  cancels := by
    have hcancels := h.cancels
    rw [cancelTargets, abortedIds] at hcancels
    rw [cancelTargets, abortedIds, RpcClient.note, List.filterMap_cons, List.filterMap_cons,
      hcancel, hcancels]
  stopped := by simpa [RpcClient.note, hstopped.symm] using h.stopped
  idle := h.idle
  quiet := List.pairwise_cons.2 ⟨fun older ho heq => hquiet (h.stopped.1 (heq ▸ ho)), h.quiet⟩
  failures := by
    rw [RpcClient.note, List.filter_cons]
    split_ifs with ho
    · rw [(hfailed ho).2]
      exact le_rfl
    · exact h.failures
  unfailed := by
    intro hopen
    rw [RpcClient.note, List.filter_cons]
    split_ifs with ho
    · exact absurd (hopen.symm.trans (hfailed ho).1) Bool.false_ne_true
    · exact h.unfailed hopen

/-- A pending request is taken off. -/
theorem drop (h : Sound flying known c) {pending : PendingRequest}
    (hget : c.pending.get? id = some pending) :
    Sound (id :: flying) (.requested id pending.expectedKind :: known) (c.drop id) := by
  have hmem := InsertionMap.get?_eq_some.1 hget
  have hperm : (id :: flying ++ (c.settledIds ++ (c.drop id).pendingIds)).Perm
      (flying ++ (c.settledIds ++ c.pendingIds)) := by
    refine List.Perm.trans ?_ (((InsertionMap.perm_cons_delete hmem).map
      Prod.fst).symm.append_left c.settledIds |>.append_left flying)
    rw [List.map_cons, ← List.append_assoc, ← List.append_assoc, List.cons_append, List.cons_append]
    exact List.perm_middle.symm
  exact { h with
    once := hperm.nodup_iff.2 h.once
    numbered := fun id hid => h.numbered id (hperm.mem_iff.1 hid)
    known := List.forall_mem_cons.2 ⟨h.requested _ hmem, h.known⟩
    requested := fun e he => h.requested e (InsertionMap.mem_delete.1 he).1
    idle := fun hclosed => by
      rw [h.idle hclosed] at hmem
      cases hmem }

/-- A request in flight is settled. -/
theorem settle (h : Sound (id :: flying) known c) {outcome : Outcome}
    (hanswered : ∀ data, outcome = .resolved data → Answered c.trace id data) :
    Sound flying known (c.settle id outcome) := by
  have hperm : (flying ++ (id :: c.settledIds ++ c.pendingIds)).Perm
      (id :: flying ++ (c.settledIds ++ c.pendingIds)) := List.perm_middle
  exact {
    once := hperm.nodup_iff.2 h.once
    numbered := fun id hid => h.numbered id (hperm.mem_iff.1 hid)
    requests_once := h.requests_once
    requests_numbered := h.requests_numbered
    posts_once := h.posts_once
    posts_numbered := h.posts_numbered
    known := fun o ho => .tail _ (h.known o ho)
    requested := fun e he => .tail _ (h.requested e he)
    resolved := by
      intro id' data hmem
      rcases List.mem_cons.1 hmem with heq | hmem
      · cases heq
        exact (hanswered data rfl).cons _
      · exact (h.resolved id' data hmem).cons _
    cancels := h.cancels
    stopped := by simpa [RpcClient.settle, RpcClient.note] using h.stopped
    idle := h.idle
    quiet := List.pairwise_cons.2 ⟨fun _ _ _ => rfl, h.quiet⟩
    failures := h.failures
    unfailed := h.unfailed }

theorem reject (h : Sound (id :: flying) known c) (error : RpcError) :
    Sound flying known (c.settle id (.rejected error)) := h.settle nofun

/-- A client that is open has not stopped, and may post. -/
theorem quiet_post (h : Sound flying known c) (hopen : c.closed = false) {o : Observation}
    (ho : o ≠ .stopped) (hpost : o.isPost = false) (posted : Observation) :
    (posted :: o :: c.trace).Pairwise fun newer older =>
      older = .stopped → newer.isPost = false := by
  refine List.pairwise_cons.2 ⟨fun older hmem heq => ?_, List.pairwise_cons.2
    ⟨fun _ _ _ => hpost, h.quiet⟩⟩
  subst heq
  rcases List.mem_cons.1 hmem with rfl | hmem
  · exact absurd rfl ho
  · exact absurd (hopen.symm.trans (h.stopped.1 hmem)) Bool.false_ne_true

/-- A request is made and posted. -/
theorem place (h : Sound flying known c) (hopen : c.closed = false) (op : Operation)
    (payload : JsValue) (expectedKind : ResponseKind) (options : RequestOptions)
    (measure delivered : Bool) :
    Sound flying known ((c.place op expectedKind options).note
      (.posted (.request (requestIdText c.nextRequestId) op payload measure) delivered)) := by
  have hfresh : ∀ ids : List String, (∀ id ∈ ids, Numbered c.nextRequestId id) →
      requestIdText c.nextRequestId ∉ ids := fun ids hids hmem =>
    not_numbered _ (hids _ hmem)
  have hnext : ∀ ids : List String, (∀ id ∈ ids, Numbered c.nextRequestId id) →
      ∀ id ∈ requestIdText c.nextRequestId :: ids, Numbered (c.nextRequestId + 1) id :=
    fun ids hids => List.forall_mem_cons.2 ⟨⟨_, Nat.lt_succ_self _, rfl⟩,
      fun id hid => (hids id hid).mono (Nat.le_succ _)⟩
  have hnone : c.pending.get? (requestIdText c.nextRequestId) = none :=
    InsertionMap.get?_eq_none.2 fun e he heq => hfresh _ h.numbered (by
      rw [← heq]
      exact List.mem_append_right _ (List.mem_append_right _ (List.mem_map_of_mem he)))
  have hentries := @InsertionMap.set_of_get?_eq_none _ _ _ _ _
    (⟨op, expectedKind, options.signal, options.timeoutMs.map (max 1), options.onTelemetry⟩ :
      PendingRequest) hnone
  have hperm : (flying ++ (c.settledIds ++ (c.place op expectedKind options).pendingIds)).Perm
      (requestIdText c.nextRequestId :: (flying ++ (c.settledIds ++ c.pendingIds))) := by
    rw [pendingIds, RpcClient.place, hentries, List.map_append, ← List.append_assoc,
      ← List.append_assoc, ← List.append_assoc]
    exact List.perm_append_singleton _ _
  exact {
    once := hperm.nodup_iff.2 (List.nodup_cons.2 ⟨hfresh _ h.numbered, h.once⟩)
    numbered := fun id hid => hnext _ h.numbered id (hperm.mem_iff.1 hid)
    requests_once := List.nodup_cons.2 ⟨hfresh _ h.requests_numbered, h.requests_once⟩
    requests_numbered := hnext _ h.requests_numbered
    posts_once := List.nodup_cons.2 ⟨hfresh _ h.posts_numbered, h.posts_once⟩
    posts_numbered := hnext _ h.posts_numbered
    known := fun o ho => .tail _ (.tail _ (h.known o ho))
    requested := by
      intro e he
      rw [RpcClient.note, RpcClient.place, hentries] at he
      rcases List.mem_append.1 he with he | he
      · exact .tail _ (.tail _ (h.requested e he))
      · rw [List.mem_singleton.1 he]
        exact .tail _ (.head _)
    resolved := by
      intro id data hmem
      rcases List.mem_cons.1 hmem with heq | hmem
      · cases heq
      rcases List.mem_cons.1 hmem with heq | hmem
      · cases heq
      exact ((h.resolved id data hmem).cons _).cons _
    cancels := h.cancels
    stopped := by simpa [RpcClient.note, RpcClient.place] using h.stopped
    idle := fun hclosed => absurd (hopen.symm.trans hclosed) Bool.false_ne_true
    quiet := h.quiet_post hopen (by simp) (by rfl) _
    failures := h.failures
    unfailed := h.unfailed }

/-- A cancel is posted for a request in flight whose signal is aborted. -/
theorem cancel (h : Sound flying known c) (hopen : c.closed = false) (delivered : Bool) :
    Sound flying known ((c.note (.aborted id)).postCancel id delivered) := by
  have hclosed : (c.note (.aborted id)).closed = false := hopen
  rw [postCancel, if_neg (by simp [hclosed])]
  exact {
    once := h.once
    numbered := fun id hid => (h.numbered id hid).mono (Nat.le_succ _)
    requests_once := h.requests_once
    requests_numbered := fun id hid => (h.requests_numbered id hid).mono (Nat.le_succ _)
    posts_once := List.nodup_cons.2 ⟨fun hmem =>
      not_numbered _ (h.posts_numbered _ hmem), h.posts_once⟩
    posts_numbered := List.forall_mem_cons.2 ⟨⟨_, Nat.lt_succ_self _, rfl⟩,
      fun id hid => (h.posts_numbered id hid).mono (Nat.le_succ _)⟩
    known := fun o ho => .tail _ (.tail _ (h.known o ho))
    requested := fun e he => .tail _ (.tail _ (h.requested e he))
    resolved := by
      intro id data hmem
      rcases List.mem_cons.1 hmem with heq | hmem
      · cases heq
      rcases List.mem_cons.1 hmem with heq | hmem
      · cases heq
      exact ((h.resolved id data hmem).cons _).cons _
    cancels := congrArg (id :: ·) h.cancels
    stopped := by simpa [RpcClient.note] using h.stopped
    idle := h.idle
    quiet := h.quiet_post hopen (by simp) (by rfl) _
    failures := h.failures
    unfailed := h.unfailed }

/-- Requests in flight are rejected one after another. -/
theorem rejectAll {es : List (String × PendingRequest)} (error : RpcError)
    (h : Sound (es.map Prod.fst ++ flying) known c) :
    Sound flying known (es.foldl (fun c e => c.settle e.1 (.rejected error)) c) := by
  induction es generalizing c with
  | nil => exact h
  | cons e es ih => exact ih (h.reject error)

end Sound

/-! ## Stopping -/

theorem foldl_settle_with_pending (es : List (String × PendingRequest)) (error : RpcError)
    (pending : InsertionMap String PendingRequest) :
    { es.foldl (fun c e => c.settle e.1 (.rejected error)) c with pending } =
      es.foldl (fun c e => c.settle e.1 (.rejected error)) { c with pending } := by
  induction es generalizing c with
  | nil => rfl
  | cons e es ih => exact ih

theorem closed_foldl_settle (es : List (String × PendingRequest)) (error : RpcError) :
    (es.foldl (fun c e => c.settle e.1 (.rejected error)) c).closed = c.closed ∧
      (es.foldl (fun c e => c.settle e.1 (.rejected error)) c).trace.filter Observation.isFailed =
        c.trace.filter Observation.isFailed := by
  induction es generalizing c with
  | nil => exact ⟨rfl, rfl⟩
  | cons e es ih => exact ih

/-- A client that is stopped has rejected what was pending. -/
theorem Sound.stop (h : Sound flying known c) (hopen : c.closed = false) (error : RpcError) :
    Sound flying known (c.stop error) ∧ (c.stop error).closed = true ∧
      (c.stop error).trace.filter Observation.isFailed = [] := by
  have hperm : (c.pendingIds ++ flying ++ (c.settledIds ++ [])).Perm
      (flying ++ (c.settledIds ++ c.pendingIds)) := by
    rw [List.append_nil, ← List.append_assoc]
    have hcomm : (c.pendingIds ++ flying).Perm (flying ++ c.pendingIds) := List.perm_append_comm
    refine (hcomm.append_right _).trans ?_
    rw [List.append_assoc, List.append_assoc]
    exact List.perm_append_comm.append_left _
  have hstopped : Sound (c.pendingIds ++ flying) known
      ({ c with closed := true, pending := .empty }.note .stopped) :=
    { h with
      once := hperm.nodup_iff.2 h.once
      numbered := fun id hid => h.numbered id (hperm.mem_iff.1 hid)
      known := fun o ho => .tail _ (h.known o ho)
      requested := nofun
      resolved := by
        intro id data hmem
        rcases List.mem_cons.1 hmem with heq | hmem
        · cases heq
        · exact (h.resolved id data hmem).cons _
      stopped := ⟨fun _ => rfl, fun _ => .head _⟩
      idle := fun _ => rfl
      quiet := List.pairwise_cons.2 ⟨fun _ _ _ => rfl, h.quiet⟩
      unfailed := fun _ => h.unfailed hopen }
  rw [RpcClient.stop, failPending, foldl_settle_with_pending]
  obtain ⟨hclosed, hfailed⟩ := closed_foldl_settle
    (c := { c with closed := true, pending := .empty }.note .stopped) c.pending.entries error
  exact ⟨hstopped.rejectAll error, hclosed, hfailed.trans (h.unfailed hopen)⟩

/-! ## Actions -/

variable {onFailure : RpcClient → RpcClient}

/-- The engine is told of a failure once. -/
theorem Keeps.failRuntime (hfailure : Keeps onFailure)
    (error : RpcError) : Keeps fun c => c.failRuntime error onFailure := by
  intro flying known c h
  dsimp only
  rw [RpcClient.failRuntime]
  split_ifs with hclosed
  · exact h
  · obtain ⟨hstop, hstopped, hfailed⟩ := h.stop (Bool.eq_false_iff.2 hclosed) error
    exact hfailure _ _ _ (hstop.note rfl rfl rfl rfl nofun (fun _ => rfl)
      fun _ => ⟨hstopped, hfailed⟩)

theorem Keeps.terminate (hfailure : Keeps onFailure) (error : RpcError) (notifyFailure : Bool) :
    Keeps fun c => c.terminate error notifyFailure onFailure := by
  intro flying known c h
  dsimp only
  rw [RpcClient.terminate]
  split_ifs with hnotify hclosed
  · exact hfailure.failRuntime error _ _ _ h
  · exact h
  · exact (h.stop (Bool.eq_false_iff.2 hclosed) error).1

theorem Sound.request (h : Sound flying known c) (op : Operation) (payload : JsValue)
    (expectedKind : ResponseKind) (options : RequestOptions) (delivered : Bool) :
    Sound flying known (c.request op payload expectedKind options delivered) := by
  have hrefuse : ∀ error, Sound flying known (c.note (.refused error)) := fun _ =>
    h.note rfl rfl rfl rfl nofun (fun _ => rfl) nofun
  rw [RpcClient.request]
  split_ifs with hclosed haborted hdelivered
  · exact hrefuse _
  · exact hrefuse _
  · exact h.place (Bool.eq_false_iff.2 hclosed) op payload expectedKind options _ _
  · -- The request is taken back, as the Worker has not taken it.
    have hplace := h.place (Bool.eq_false_iff.2 hclosed) op payload expectedKind options
      options.measure delivered
    have hget : ((c.place op expectedKind options).note (.posted (.request
        (requestIdText c.nextRequestId) op payload options.measure) delivered)).pending.get?
        (requestIdText c.nextRequestId) = some ⟨op, expectedKind, options.signal,
          options.timeoutMs.map (max 1), options.onTelemetry⟩ := InsertionMap.get?_set_self
    exact ((hplace.drop hget).reject _).of_known fun _ ho => .tail _ ho

/-- The abort listener of a request cancels it. -/
theorem Sound.abortRequest (h : Sound flying known c) (delivered : String → Bool) (id : String) :
    Sound flying known (c.abortRequest delivered id) := by
  rw [RpcClient.abortRequest]
  cases hget : c.pending.get? id with
  | none => exact h
  | some pending =>
    have hopen : c.closed = false := by
      refine Bool.eq_false_iff.2 fun hclosed => ?_
      have hmem := InsertionMap.get?_eq_some.1 hget
      rw [h.idle hclosed] at hmem
      cases hmem
    have hcancel := @Sound.cancel _ _ _ id (h.drop hget) hopen (delivered id)
    exact (hcancel.reject cancelledError).of_known fun _ ho => .tail _ ho

theorem Sound.abort (h : Sound flying known c) (signal : ℕ) (delivered : String → Bool) :
    Sound flying known (c.abort signal delivered) := by
  have hfold : ∀ (ids : List String) (c : RpcClient), Sound flying known c →
      Sound flying known (ids.foldl (RpcClient.abortRequest delivered) c) := by
    intro ids
    induction ids with
    | nil => exact fun _ h => h
    | cons id ids ih => exact fun c h => ih _ (h.abortRequest delivered id)
  rw [RpcClient.abort]
  split_ifs
  · exact h
  · exact hfold _ _ { h with }

/-- A response settles the request that it took off the pending ones. -/
theorem Sound.deliver (hfailure : Keeps onFailure) {value : JsValue} {expectedKind : ResponseKind}
    (h : Sound (id :: flying) (.requested id expectedKind :: .received value :: known) c)
    (hvalid : isValidProtocolResponse value = true) (hid : value.prop "requestId" = .text id) :
    Sound flying known (c.deliver id expectedKind value onFailure) := by
  have hknown : ∀ {c' : RpcClient}, Sound flying
      (.requested id expectedKind :: .received value :: known) c' → Sound flying known c' :=
    fun h => h.of_known fun _ ho => .tail _ (.tail _ ho)
  rw [RpcClient.deliver]
  by_cases hstatus : (value.prop "status").isText "failure" = true
  · rw [if_pos hstatus]
    exact hknown (h.reject _)
  rw [if_neg hstatus]
  dsimp only
  by_cases hkind : ((value.prop "result").prop "kind").text?.getD "" ≠ expectedKind.text
  · rw [if_pos hkind]
    exact hfailure.failRuntime _ _ _ _ (hknown (h.reject _))
  · rw [if_neg hkind]
    refine hknown (h.settle fun data hdata => ?_)
    obtain ⟨hsuccess, hresult⟩ := success_of_isValidProtocolResponse hvalid hstatus
    obtain ⟨kind, hkindText⟩ := hresult
    rw [hkindText] at hkind
    refine ⟨value, expectedKind, h.known _ (.tail _ (.head _)), hvalid, hid, hsuccess,
      h.known _ (.head _), ?_, ?_⟩
    · rw [hkindText, ← not_not.1 hkind]
      rfl
    · cases hdata
      rfl

theorem Sound.handleResponse {onListener onFailure : RpcClient → RpcClient}
    (hlistener : Keeps onListener) (hfailure : Keeps onFailure) {value : JsValue}
    (h : Sound flying (.received value :: known) c)
    (hvalid : isValidProtocolResponse value = true) (throws : Bool) :
    Sound flying known (c.handleResponse value onListener throws onFailure) := by
  obtain ⟨id, hid⟩ := requestId_of_isValidProtocolResponse hvalid
  have hknown : ∀ {c' : RpcClient} {o : Observation}, Sound flying (o :: known) c' →
      Sound flying known c' := fun h => h.of_known fun _ ho => .tail _ ho
  rw [RpcClient.handleResponse, hid]
  dsimp only [JsValue.text?, Option.getD_some]
  cases hget : c.pending.get? id with
  | none => exact hknown h
  | some pending =>
    have hdrop := h.drop hget
    have hnote : ∀ told, Sound (id :: flying) _ ((c.drop id).note (.telemetry id told)) :=
      fun _ => hdrop.note rfl rfl rfl rfl nofun (fun _ => rfl) nofun
    dsimp only
    split_ifs with htelemetry hthrows
    · -- Nothing settles the request when the callback throws.
      exact (hlistener _ _ _ (hnote _)).of_flying.of_known fun _ ho => .tail _ (.tail _ ho)
    · exact Sound.deliver hfailure (hlistener _ _ _ (hnote _)) hvalid hid
    · exact hdrop.deliver hfailure hvalid hid

theorem Keeps.handleMessage {onListener onFailure : RpcClient → RpcClient}
    (hlistener : Keeps onListener) (hfailure : Keeps onFailure) (value : JsValue) (throws : Bool) :
    Keeps fun c => c.handleMessage value onListener throws onFailure := by
  intro flying known c h
  have hreceived : Sound flying known (c.note (.received value)) :=
    h.note rfl rfl rfl rfl nofun (fun _ => rfl) nofun
  dsimp only
  rw [RpcClient.handleMessage]
  split_ifs with hclosed hsource hthrows hevent hthrows hlooks hvalid
  · exact h
  · exact hfailure.failRuntime _ _ _ _ (hlistener _ _ _ hreceived)
  · exact hlistener _ _ _ hreceived
  · exact hfailure.failRuntime _ _ _ _ (hlistener _ _ _ hreceived)
  · exact hlistener _ _ _ hreceived
  · exact hfailure.failRuntime _ _ _ _ hreceived
  · exact hreceived
  · have hknown : Sound flying (.received value :: known) (c.note (.received value)) :=
      { hreceived with known := List.forall_mem_cons.2 ⟨.head _, hreceived.known⟩ }
    exact hknown.handleResponse hlistener hfailure (by simpa using hvalid) throws

theorem Keeps.expire (hfailure : Keeps onFailure)
    (requestId : String) : Keeps fun c => c.expire requestId onFailure := by
  intro flying known c h
  dsimp only
  rw [RpcClient.expire]
  split
  · exact hfailure.failRuntime _ _ _ _ h
  · exact h

theorem keeps_shutdown (timeoutMs : ℕ) (measure onTelemetry delivered : Bool) :
    Keeps fun c => c.shutdown timeoutMs measure onTelemetry delivered := by
  intro flying known c h
  dsimp only
  rw [RpcClient.shutdown]
  split_ifs
  · exact h
  · exact { h.request _ _ _ _ _ with }

theorem keeps_finishShutdown (requestId : String) : Keeps fun c => c.finishShutdown requestId := by
  intro flying known c h
  dsimp only
  rw [RpcClient.finishShutdown]
  split_ifs
  · exact Keeps.terminate (fun _ _ _ h => h) _ _ _ _ _ h
  · exact h

theorem keeps_postMessage (value : JsValue) (delivered : Bool) :
    Keeps fun c => c.postMessage value delivered := by
  intro flying known c h
  dsimp only
  rw [RpcClient.postMessage]
  split_ifs with hclosed
  · exact h
  · exact h.note rfl rfl rfl rfl nofun (fun hc => absurd hc hclosed) nofun

mutual

/-- Every action keeps clients sound, if what its listeners do keeps them sound. -/
theorem keeps_act : (a : Action) → Keeps (act a)
  | .request op payload expectedKind options delivered => by
    intro flying known c h
    rw [act]
    exact h.request op payload expectedKind options delivered
  | .postMessage value delivered => by
    intro flying known c h
    rw [act]
    exact keeps_postMessage value delivered _ _ _ h
  | .abort signal delivered => by
    intro flying known c h
    rw [act]
    exact h.abort signal delivered
  | .expire requestId onFailure => by
    intro flying known c h
    rw [act]
    exact (keeps_acts onFailure).expire requestId _ _ _ h
  | .message value onListener throws onFailure => by
    intro flying known c h
    rw [act]
    exact (keeps_acts onListener).handleMessage (keeps_acts onFailure) value throws _ _ _ h
  | .workerFailure failure onFailure => by
    intro flying known c h
    rw [act]
    exact (keeps_acts onFailure).failRuntime _ _ _ _ h
  | .shutdown timeoutMs measure onTelemetry delivered => by
    intro flying known c h
    rw [act]
    exact keeps_shutdown timeoutMs measure onTelemetry delivered _ _ _ h
  | .finishShutdown requestId => by
    intro flying known c h
    rw [act]
    exact keeps_finishShutdown requestId _ _ _ h
  | .terminate error notifyFailure onFailure => by
    intro flying known c h
    rw [act]
    exact (keeps_acts onFailure).terminate error notifyFailure _ _ _ h

/-- So do actions one after another. -/
theorem keeps_acts : (as : List Action) → Keeps (acts as)
  | [] => by
    intro flying known c h
    rw [acts]
    exact h
  | a :: as => by
    intro flying known c h
    rw [acts]
    exact keeps_acts as _ _ _ (keeps_act a _ _ _ h)

end

/-! ## Cancels -/

theorem abortRequest_of_pending {delivered : String → Bool} {pending : PendingRequest}
    (hget : c.pending.get? id = some pending) (hopen : c.closed = false) :
    c.abortRequest delivered id =
      ({ (c.note (.aborted id)).drop id with nextRequestId := c.nextRequestId + 1 }.note
        (.posted (.cancel (requestIdText c.nextRequestId) id) (delivered id))).settle id
          (.rejected cancelledError) := by
  rw [RpcClient.abortRequest, hget]
  dsimp only
  rw [postCancel, if_neg (by simp [hopen, RpcClient.note, RpcClient.drop])]
  rfl

/-- The cancels of one signal go to the requests that listen to it, in their order. -/
theorem cancelTargets_foldl_abort {ids : List String} {delivered : String → Bool}
    (h : Sound flying known c) (hnodup : ids.Nodup) (hmem : ∀ id ∈ ids, id ∈ c.pendingIds) :
    (ids.foldl (RpcClient.abortRequest delivered) c).cancelTargets =
      ids.reverse ++ c.cancelTargets := by
  induction ids generalizing c with
  | nil => rfl
  | cons id ids ih =>
    obtain ⟨hhead, htail⟩ := List.nodup_cons.1 hnodup
    obtain ⟨⟨_, pending⟩, he, rfl⟩ := List.mem_map.1 (hmem id (.head _))
    have hget := InsertionMap.get?_eq_some.2 he
    have hopen : c.closed = false := by
      refine Bool.eq_false_iff.2 fun hclosed => ?_
      rw [h.idle hclosed] at he
      cases he
    dsimp only at hhead
    have hone := @abortRequest_of_pending _ _ delivered _ hget hopen
    rw [List.foldl_cons, ih (h.abortRequest delivered _) htail, List.reverse_cons,
      List.append_assoc, hone]
    · rfl
    · intro id' hid'
      rw [hone]
      obtain ⟨e, he', rfl⟩ := List.mem_map.1 (hmem id' (.tail _ hid'))
      refine List.mem_map_of_mem (InsertionMap.mem_delete.2 ⟨he', fun heq => hhead ?_⟩)
      exact heq ▸ hid'

/-- An abort posts a cancel for each pending request that listens to its signal. -/
theorem cancelTargets_abort (h : Sound flying known c) {signal : ℕ} (hsignal : signal ∉ c.aborted)
    (delivered : String → Bool) :
    (c.abort signal delivered).cancelTargets =
      (c.listeners signal).reverse ++ c.cancelTargets := by
  have hsub : (c.listeners signal).Sublist c.pendingIds := List.filter_sublist.map _
  rw [RpcClient.abort, if_neg hsignal]
  exact cancelTargets_foldl_abort (c := { c with aborted := signal :: c.aborted }) { h with }
    (c.pending.nodup.sublist hsub) fun id hid => hsub.subset hid

/-! ## Runs -/

/-- Over every run, whatever the listeners do: a request settles once, with the data of its own
    response if it resolves; numbers are not used twice; the cancels are those of the requests
    whose signal was aborted while they were pending; and once the client has stopped nothing is
    pending, nothing is posted, and the engine was told at most once. -/
theorem requests_settle_once (actions : List Action) :
    let c := acts actions {}
    c.settledIds.Nodup ∧
      (∀ id data, .settled id (.resolved data) ∈ c.trace → Answered c.trace id data) ∧
      (c.trace.filterMap Observation.requestedId?).Nodup ∧
      (c.trace.filterMap Observation.postId?).Nodup ∧
      c.cancelTargets = c.abortedIds ∧
      (∀ signal delivered, signal ∉ c.aborted → (act (.abort signal delivered) c).cancelTargets =
        (c.listeners signal).reverse ++ c.cancelTargets) ∧
      (.stopped ∈ c.trace ↔ c.closed = true) ∧
      (c.closed = true → c.pending.entries = []) ∧
      (c.trace.Pairwise fun newer older => older = .stopped → newer.isPost = false) ∧
      (c.trace.filter Observation.isFailed).length ≤ 1 := by
  intro c
  have h : Sound [] [] c := keeps_acts actions _ _ _ Sound.start
  have honce := List.nodup_append.1 h.once
  refine ⟨(List.nodup_append.1 honce.2.1).1, h.resolved, h.requests_once, h.posts_once, h.cancels,
    fun signal delivered hsignal => ?_, h.stopped, h.idle, h.quiet, h.failures⟩
  rw [act]
  exact cancelTargets_abort h hsignal delivered

end Tabulark.Engine.Rpc
