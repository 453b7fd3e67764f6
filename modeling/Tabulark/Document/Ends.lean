import Tabulark.Document.Ownership
import Tabulark.Lib.Run

/-!
# Ends of document Workers

A close of the engine waits for the sessions that it closes itself. It does not wait for
a session that is being closed already, which is not among its sessions any more, and a
second close does not wait for the first. In all runs in which the engine is closed only
when no session is being closed, every Worker is terminated when a close is resolved and
all opens are settled (`ends_of_clean`).
-/

namespace Tabulark.Document

/-! ## Runs -/

namespace DocumentEngine

variable {options : DocumentOptions} {engine : DocumentEngine}

/-- The engine is closed only when no session is being closed. -/
def Clean (engine : DocumentEngine) : EngineEvent → Prop
  | .closeEngine => ∀ call ∈ engine.calls, call.isClosing = false
  | _ => True

/-- The opens of an engine are sound. -/
def Sound (engine : DocumentEngine) : Prop :=
  ∀ (id : ℕ) (call : OpenCall), engine.calls[id]? = some call →
    call.Sound engine.closed ∧ call.Quiet

/-- What the call with a number was before an event. -/
def Comes (options : DocumentOptions) (engine engine' : DocumentEngine) (id : ℕ)
    (call' : OpenCall) : Prop :=
  call'.session? = none ∨
    ∃ call, engine.calls[id]? = some call ∧ call.Goes (engine'.surroundings options) call'

/-- A step keeps the opens sound, each of which comes from what it was before. -/
theorem Sound.step (h : engine.Sound) (options : DocumentOptions) (event : EngineEvent) :
    (engine.step options event).Sound ∧ ∀ (id : ℕ) (call' : OpenCall),
      (engine.step options event).calls[id]? = some call' →
        Comes options engine (engine.step options event) id call' := by
  suffices hall : ∀ (id : ℕ) (call' : OpenCall),
      (engine.step options event).calls[id]? = some call' →
        (call'.Sound (engine.step options event).closed ∧ call'.Quiet) ∧
          Comes options engine (engine.step options event) id call' from
    ⟨fun id call' hcall => (hall id call' hcall).1, fun id call' hcall => (hall id call' hcall).2⟩
  have hsame : ∀ {engine' : DocumentEngine} {id : ℕ} {call call' : OpenCall},
      engine.calls[id]? = some call → call.Goes (engine'.surroundings options) call' →
        call'.Quiet → (call'.Sound engine'.closed ∧ call'.Quiet) ∧
          Comes options engine engine' id call' := fun hcall hgoes hquiet =>
    ⟨⟨hgoes.sound, hquiet⟩, .inr ⟨_, hcall, hgoes⟩⟩
  intro id call' hcall
  cases event with
  | «open» source sourceName signal sessionId =>
    obtain ⟨hgoes, hsession⟩ := OpenCall.goes_start (s := engine.surroundings options) source
      sourceName signal sessionId call'
    unfold DocumentEngine.step at hcall
    dsimp only at hcall
    rw [List.getElem?_append] at hcall
    split at hcall
    · obtain ⟨hsound, hquiet⟩ := h id call' hcall
      exact hsame hcall (.refl hsound) hquiet
    · obtain rfl := List.mem_singleton.1 (List.mem_of_getElem? hcall)
      exact ⟨⟨hgoes.sound, OpenCall.quiet_start _ _ _ _⟩, .inl hsession⟩
  | document target event =>
    unfold DocumentEngine.step at hcall
    dsimp only at hcall
    rw [List.getElem?_modify] at hcall
    obtain ⟨call, hold, rfl⟩ := Option.map_eq_some_iff.1 hcall
    obtain ⟨hsound, hquiet⟩ := h id call hold
    split
    · exact hsame hold (OpenCall.goes_step hsound event) (OpenCall.quiet_advance _)
    · exact hsame hold (.refl hsound) hquiet
  | abort signal =>
    unfold DocumentEngine.step at hcall
    dsimp only at hcall
    rw [List.getElem?_map] at hcall
    obtain ⟨call, hold, rfl⟩ := Option.map_eq_some_iff.1 hcall
    obtain ⟨hsound, hquiet⟩ := h id call hold
    have hgoes := OpenCall.goes_abort (s := { engine with
      aborted := signal :: engine.aborted }.surroundings options) hsound signal
    exact hsame hold (hgoes.trans (OpenCall.goes_advance hgoes.sound)) (OpenCall.quiet_advance _)
  | closeEngine =>
    unfold DocumentEngine.step close at hcall ⊢
    by_cases hclosed : engine.closed = true
    · simp only [if_pos hclosed] at hcall ⊢
      obtain ⟨hsound, hquiet⟩ := h id call' hcall
      exact hsame hcall (.refl hsound) hquiet
    · simp only [if_neg hclosed] at hcall ⊢
      rw [List.getElem?_map] at hcall
      obtain ⟨call, hold, rfl⟩ := Option.map_eq_some_iff.1 hcall
      obtain ⟨hsound, hquiet⟩ := h id call hold
      obtain ⟨hgoes, hafter⟩ := OpenCall.goes_engineClosed
        (s := { engine with closed := true }.surroundings options) hsound hquiet rfl
      exact hsame hold hgoes hafter

theorem closed_step (h : engine.closed = true) (options : DocumentOptions) (event : EngineEvent) :
    (engine.step options event).closed = true := by
  cases event with
  | closeEngine => rw [step, close, if_pos h]; exact h
  | _ => exact h

theorem closed_close (options : DocumentOptions) (engine : DocumentEngine) :
    (engine.step options .closeEngine).closed = true := by
  rw [step, close]
  split
  · assumption
  · rfl

theorem sound_new : ({} : DocumentEngine).Sound := fun id call hcall => by
  rw [List.getElem?_nil] at hcall
  exact nomatch hcall

theorem sound_run (options : DocumentOptions) (events : List EngineEvent) :
    (Run.run (step options) {} events).Sound :=
  Run.invariant (fun _ event h => (h.step options event).1) sound_new events

/-- In a closed engine an open that is not resolved is not resolved later. -/
theorem session?_eq_none_of_closed {id : ℕ} (hsound : engine.Sound) (hclosed : engine.closed = true)
    (h : ∀ call, engine.calls[id]? = some call → call.session? = none) (events : List EngineEvent) :
    ∀ call, (Run.run (step options) engine events).calls[id]? = some call →
      call.session? = none := by
  induction events generalizing engine with
  | nil => exact h
  | cons event events ih =>
    obtain ⟨hnext, hcomes⟩ := hsound.step options event
    have hstays := closed_step hclosed options event
    refine ih hnext hstays fun call' hcall => ?_
    obtain hnone | ⟨call, hold, hgoes⟩ := hcomes id call' hcall
    · exact hnone
    · refine Option.not_isSome_iff_eq_none.1 fun hsome => ?_
      have hbefore := hgoes.session hstays hsome
      rw [h call hold] at hbefore
      exact absurd hbefore Bool.false_ne_true

/-- Every close of the engine waits for the sessions whose Workers are not terminated. -/
def Awaited (engine : DocumentEngine) : Prop :=
  ∀ ids ∈ engine.closes, engine.closed = true ∧ ∀ (id : ℕ) (call : OpenCall),
    engine.calls[id]? = some call → call.isLive = true → id ∈ ids

theorem not_isLive_of_session (call : OpenCall) (h : call.session? = none) :
    call.isLive = false := by
  simp [OpenCall.isLive, h]

theorem Awaited.step (h : engine.Awaited) (hsound : engine.Sound) {event : EngineEvent}
    (hclean : engine.Clean event) : (engine.step options event).Awaited := by
  obtain ⟨-, hcomes⟩ := hsound.step options event
  -- A session that is live was live before, if the engine is closed.
  have hlive : (engine.step options event).closed = true → ∀ (id : ℕ) (call' : OpenCall),
      (engine.step options event).calls[id]? = some call' → call'.isLive = true →
        ∃ call, engine.calls[id]? = some call ∧ call.isLive = true :=
    fun hclosed id call' hcall hlive => by
      obtain hnone | ⟨call, hold, hgoes⟩ := hcomes id call' hcall
      · rw [not_isLive_of_session call' hnone] at hlive
        exact absurd hlive Bool.false_ne_true
      · exact ⟨call, hold, hgoes.live hclosed hlive⟩
  have hsame : (engine.step options event).closes = engine.closes →
      (engine.step options event).closed = engine.closed →
        (engine.step options event).Awaited := fun hcloses hclosed ids hids => by
    rw [hcloses] at hids
    obtain ⟨hengine, hawaited⟩ := h ids hids
    refine ⟨hclosed.trans hengine, fun id call' hcall hafter => ?_⟩
    obtain ⟨call, hold, hbefore⟩ := hlive (hclosed.trans hengine) id call' hcall hafter
    exact hawaited id call hold hbefore
  cases event with
  | closeEngine =>
    have hregistered : ∀ (id : ℕ) (call : OpenCall), engine.calls[id]? = some call →
        call.isLive = true → call.registered = true ∧ engine.closed = false :=
      fun id call hcall hbefore => OpenCall.registered_of_isLive (hsound id call hcall).1 hbefore
        (hclean call (List.mem_of_getElem? hcall))
    intro ids hids
    have hnow := closed_close options engine
    refine ⟨hnow, fun id call' hcall hafter => ?_⟩
    obtain ⟨call, hold, hbefore⟩ := hlive hnow id call' hcall hafter
    obtain ⟨hsession, hopen⟩ := hregistered id call hold hbefore
    rw [DocumentEngine.step, close, if_neg (by rw [hopen]; exact Bool.false_ne_true)] at hids
    obtain hids | hids := List.mem_append.1 hids
    · exact absurd (hopen.symm.trans (h ids hids).1) Bool.false_ne_true
    · rw [List.mem_singleton.1 hids, sessions, List.mem_filter, List.mem_range]
      exact ⟨(List.getElem?_eq_some_iff.1 hold).1, by rw [hold]; exact hsession⟩
  | _ => exact hsame rfl rfl

theorem awaited_of_clean {events : List EngineEvent}
    (h : Run.Along (step options) Clean {} events) :
    (Run.run (step options) {} events).Awaited := by
  refine (h.invariant (I := fun engine => engine.Sound ∧ engine.Awaited)
    (fun _ event hkept hclean => ?_) ⟨sound_new, fun ids hids => ?_⟩).2.2
  · exact ⟨(hkept.1.step options event).1, hkept.2.step hkept.1 hclean⟩
  · exact absurd hids List.not_mem_nil

end DocumentEngine

/-! ## Ends of Workers -/

/-- A request is settled once, by an answer to it; one page is rendered at a time; the Worker is
    terminated once, and not while its session is open. -/
structure OpenCall.Orderly (call : OpenCall) : Prop where
  once : ∀ client ∈ call.client?, (client.settlements.map (·.request.requestId)).Nodup
  answers : ∀ client ∈ call.client?, ∀ settlement ∈ client.settlements, settlement.Answers
  rendering : ∀ client ∈ call.client?,
    client.pending.countP (·.request.body.isRenderPage) ≤ 1
  terminations : ∀ client ∈ call.client?, client.terminations ≤ 1
  running : ∀ session ∈ call.session?, session.closed = false →
    ∀ client ∈ call.client?, client.terminations = 0

/-- After some events every open is orderly, none is resolved that was pending when the engine was
    closed, and if a close is resolved, and all opens are settled, all Workers are terminated. -/
structure EndsWorkers (options : DocumentOptions) (events : List EngineEvent) : Prop where
  orderly : ∀ call ∈ (Run.run (DocumentEngine.step options) {} events).calls, call.Orderly
  unresolved : ∀ before after, events = before ++ .closeEngine :: after →
    ∀ (id : ℕ) (call call' : OpenCall),
      (Run.run (DocumentEngine.step options) {} before).calls[id]? = some call →
      call.isSettled = false →
      (Run.run (DocumentEngine.step options) {} events).calls[id]? = some call' →
      call'.session? = none
  terminated : (Run.run (DocumentEngine.step options) {} events).isCloseResolved = true →
    (∀ call ∈ (Run.run (DocumentEngine.step options) {} events).calls, call.isSettled = true) →
    ∀ call ∈ (Run.run (DocumentEngine.step options) {} events).calls,
      ∀ client ∈ call.client?, client.terminations = 1

/-- A client that terminates its Worker does so once. -/
theorem RpcClient.Sound.terminations_le {client : RpcClient} (h : client.Sound) :
    client.terminations ≤ 1 := by
  rw [h.terminations]
  split
  · exact le_rfl
  · exact Nat.zero_le 1

namespace OpenCall

variable {closed : Bool} {call : OpenCall} {client : RpcClient}

/-- The client of a call is sound; its session owns it, and without one it renders no page, and is
    stopped once the open is settled. -/
theorem Sound.client_sound (h : call.Sound closed) (hclient : call.client? = some client) :
    client.Sound ∧ (∀ session, call.session? = some session → session.Owns client) ∧
      (call.session? = none → (∀ entry ∈ client.pending,
        entry.request.body.isRenderPage = false) ∧
          (call.isSettled = true → client.stopped = true)) := by
  cases hphase : call.phase with
  | readingHead => simp [client?, hphase] at hclient
  | readingBytes format => simp [client?, hphase] at hclient
  | greeting client' requestId format =>
    obtain rfl : client' = client := by simpa [client?, hphase] using hclient
    have hserves := ((sound_greeting hphase).1 h).1
    exact ⟨hserves.sound, by simp [session?, hphase], fun _ =>
      ⟨hserves.renders, by simp [isSettled, hphase]⟩⟩
  | opening client' requestId =>
    obtain rfl : client' = client := by simpa [client?, hphase] using hclient
    have hserves := ((sound_opening hphase).1 h).1
    exact ⟨hserves.sound, by simp [session?, hphase], fun _ =>
      ⟨hserves.renders, by simp [isSettled, hphase]⟩⟩
  | resolved client' session =>
    obtain rfl : client' = client := by simpa [client?, hphase] using hclient
    have howns := ((sound_resolved hphase).1 h).1
    refine ⟨howns.sound, fun session' hsession => ?_, by simp [session?, hphase]⟩
    obtain rfl : session = session' := by simpa [session?, hphase] using hsession
    exact howns
  | rejected error client' =>
    obtain rfl : client' = some client := by simpa [client?, hphase] using hclient
    obtain ⟨hsound, hstopped⟩ := ((sound_rejected hphase).1 h).1 client rfl
    refine ⟨hsound, by simp [session?, hphase], fun _ => ⟨fun entry hmem => ?_, fun _ => hstopped⟩⟩
    rw [hsound.pending_nil hstopped] at hmem
    exact absurd hmem List.not_mem_nil

theorem session?_eq_none_of_pending (call : OpenCall) (h : call.isSettled = false) :
    call.session? = none := by
  unfold isSettled at h
  unfold session?
  split
  · rename_i hphase
    rw [hphase] at h
    exact absurd h (by simp)
  · rfl

/-- No two pages are rendered at a time. -/
theorem renders_le_one (hsound : client.Sound) (requestId : ℕ)
    (h : ∀ entry ∈ client.pending, entry.request.body.isRenderPage = true →
      entry.request.requestId = requestId) :
    client.pending.countP (·.request.body.isRenderPage) ≤ 1 := by
  rw [List.countP_eq_length_filter]
  have hnodup := hsound.nodup.sublist
    ((List.filter_sublist (p := fun entry => entry.request.body.isRenderPage)).map
      (fun entry : PendingRequest => entry.request.requestId))
  have hsame : ∀ entry ∈ client.pending.filter (·.request.body.isRenderPage),
      entry.request.requestId = requestId := fun entry hmem =>
    h entry (List.mem_of_mem_filter hmem) (List.mem_filter.1 hmem).2
  generalize client.pending.filter (·.request.body.isRenderPage) = renders at hnodup hsame ⊢
  rcases renders with _ | ⟨first, _ | ⟨second, rest⟩⟩
  · exact Nat.zero_le 1
  · exact le_rfl
  · have hfirst := hsame first List.mem_cons_self
    have hsecond := hsame second (List.mem_cons_of_mem _ List.mem_cons_self)
    simp [hfirst, hsecond] at hnodup

theorem Sound.orderly (h : call.Sound closed) : call.Orderly where
  once client hclient := (h.client_sound hclient).1.log.nodup
  answers client hclient := (h.client_sound hclient).1.log.answers
  rendering client hclient := by
    obtain ⟨hsound, howns, hnone⟩ := h.client_sound hclient
    cases hsession : call.session? with
    | none =>
      have hno := (hnone hsession).1
      exact renders_le_one hsound 0 fun entry hmem hrender =>
        absurd (hno entry hmem) (by rw [hrender]; simp)
    | some session =>
      have hrenders := (howns session hsession).renders
      cases hrendering : session.rendering with
      | none =>
        refine renders_le_one hsound 0 fun entry hmem hrender => ?_
        obtain ⟨task, htask⟩ := hrenders entry hmem hrender
        rw [hrendering] at htask
        exact nomatch htask
      | some rendering =>
        refine renders_le_one hsound rendering.2 fun entry hmem hrender => ?_
        obtain ⟨task, htask⟩ := hrenders entry hmem hrender
        rw [hrendering] at htask
        rw [Option.some.inj htask]
  terminations client hclient := (h.client_sound hclient).1.terminations_le
  running session hsession hopen client hclient := by
    obtain ⟨hsound, howns, -⟩ := h.client_sound hclient
    have howned := howns session hsession
    rw [hsound.terminations, if_neg fun hstopped => ?_]
    have hdone := howned.stopped.1 hstopped
    rw [howned.closed, hdone] at hopen
    exact absurd hopen (by simp)

end OpenCall

/-- In a run in which the engine is closed only when no session is being closed, the Workers end. -/
theorem ends_of_clean {options : DocumentOptions} {events : List EngineEvent}
    (h : Run.Along (DocumentEngine.step options) DocumentEngine.Clean {} events) :
    EndsWorkers options events where
  orderly call hmem := by
    obtain ⟨id, hcall⟩ := List.mem_iff_getElem?.1 hmem
    exact (DocumentEngine.sound_run options events id call hcall).1.orderly
  unresolved := by
    rintro before after rfl id call call' hbefore hpending
    have hsound := DocumentEngine.sound_run options before
    rw [Run.run_append, Run.run_cons]
    obtain ⟨hnext, hcomes⟩ := hsound.step options .closeEngine
    have hclosed := DocumentEngine.closed_close options
      (Run.run (DocumentEngine.step options) {} before)
    refine DocumentEngine.session?_eq_none_of_closed hnext hclosed (fun next hcall => ?_) after
      call'
    obtain hnone | ⟨old, hold, hgoes⟩ := hcomes id next hcall
    · exact hnone
    · obtain rfl := Option.some.inj (hbefore.symm.trans hold)
      refine Option.not_isSome_iff_eq_none.1 fun hsome => ?_
      have hresolved := hgoes.session hclosed hsome
      rw [call.session?_eq_none_of_pending hpending] at hresolved
      exact absurd hresolved Bool.false_ne_true
  terminated hresolved hsettled call hmem client hclient := by
    obtain ⟨id, hcall⟩ := List.mem_iff_getElem?.1 hmem
    have hcallSound := (DocumentEngine.sound_run options events id call hcall).1
    obtain ⟨hsound, howns, hnone⟩ := hcallSound.client_sound hclient
    rw [hsound.terminations, if_pos]
    cases hsession : call.session? with
    | none => exact (hnone hsession).2 (hsettled call hmem)
    | some session =>
      by_contra hstopped
      have hlive : call.isLive = true := by
        simpa [OpenCall.isLive, hsession, Option.mem_def.1 hclient] using hstopped
      obtain ⟨ids, hids, hdone⟩ := List.any_eq_true.1 hresolved
      have hwaits := (DocumentEngine.awaited_of_clean h ids hids).2 id call hcall hlive
      have hclose := List.all_eq_true.1 hdone id hwaits
      have : session.closePhase = some .done := by
        simpa [hcall, OpenCall.isCloseDone, hsession] using hclose
      exact hstopped ((howns session hsession).stopped.2 this)

/-! ### Runs of one document -/

/-- An engine for PDF documents. -/
def pdfOptions : DocumentOptions where
  providers := [{ id := "pdf", format := .pdf, sniff := fun _ _ => true }]
  assetBaseUrl := none
  limits := ⟨100, 10, 100, 100, 10⟩
  pageCacheBytes := 10

/-- A response of a Worker in the first generation. -/
def response (requestId : ℕ) (result : List (String × JsValue)) : JsValue :=
  .record [("protocol", .text documentProtocol), ("kind", .text "response"),
    ("requestId", .number requestId), ("generation", .number 1), ("ok", .boolean true),
    ("result", .record result)]

/-- An open of a document of one page. -/
def openPage : List EngineEvent :=
  [.open (.arrayBuffer [0x25]) none none "document-1",
    .document 0 (.headRead true (some fun _ => false)),
    .document 0 (.message (response 1
      [("operation", .text "hello"), ("protocol", .text documentProtocol)])),
    .document 0 (.message (response 2 [("operation", .text "open"), ("pageCount", .number 1)]))]

theorem ends_of_clean_page : EndsWorkers pdfOptions
    (openPage ++ [.closeEngine, .document 0 .closeTimeout]) := by
  refine ends_of_clean ⟨trivial, trivial, trivial, trivial, ?_, trivial, trivial⟩
  have hopen : (Run.run (DocumentEngine.step pdfOptions) {} openPage).calls.all
      (!·.isClosing) = true := rfl
  exact fun call hcall => Bool.not_inj (List.all_eq_true.1 hopen call hcall)

/-- A session that is being closed when the engine is. -/
def overlappingClose : List EngineEvent :=
  openPage ++ [.document 0 .closeSession, .closeEngine]

/-- A second close of the engine. -/
def secondClose : List EngineEvent := openPage ++ [.closeEngine, .closeEngine]

/-- The engine does not wait for a session that is being closed, nor for its own first close. -/
theorem not_ends :
    ¬EndsWorkers pdfOptions overlappingClose ∧ ¬EndsWorkers pdfOptions secondClose := by
  have hnot : ∀ events,
      (Run.run (DocumentEngine.step pdfOptions) {} events).isCloseResolved = true →
      (Run.run (DocumentEngine.step pdfOptions) {} events).calls.all (·.isSettled) = true →
      (Run.run (DocumentEngine.step pdfOptions) {} events).calls.any
        (fun call => call.client?.any fun client => client.terminations == 0) = true →
      ¬EndsWorkers pdfOptions events := fun events hresolved hsettled hrunning h => by
    obtain ⟨call, hcall, hany⟩ := List.any_eq_true.1 hrunning
    obtain ⟨client, hclient, hzero⟩ := (Option.any_eq_true _ _).1 hany
    have hone := h.terminated hresolved (List.all_eq_true.1 hsettled) call hcall client hclient
    rw [hone] at hzero
    exact absurd hzero (by decide)
  exact ⟨hnot overlappingClose rfl rfl rfl, hnot secondClose rfl rfl rfl⟩

end Tabulark.Document
