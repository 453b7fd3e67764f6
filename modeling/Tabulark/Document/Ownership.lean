import Tabulark.Document.Engine

/-!
# Owners of document Workers

In each phase of an open it is known who has its Worker: the open itself, while the
engine has the client among those that are opening; the session, while it is open; the
task that closes the session; or nobody, and then the Worker is terminated. Events keep
this (`OpenCall.goes_step`), and so does the close of the engine
(`OpenCall.goes_engineClosed`), which leaves no open request.
-/

namespace Tabulark.Document

/-! ## What opens own -/

/-- A client that has no session yet, and waits for a request. -/
structure RpcClient.Serves (client : RpcClient) (requestId : ℕ) : Prop where
  sound : client.Sound
  running : client.stopped = false
  tracks : client.Tracks requestId
  renders : ∀ entry ∈ client.pending, entry.request.body.isRenderPage = false

/-- A session and its client: the client is stopped when the close is done, and no page is rendered
    but the one that the session waits for. -/
structure Session.Owns (session : Session) (client : RpcClient) : Prop where
  sound : client.Sound
  stopped : client.stopped = true ↔ session.closePhase = some .done
  closed : session.closed = session.closePhase.isSome
  renders : ∀ entry ∈ client.pending, entry.request.body.isRenderPage = true →
    ∃ task, session.rendering = some (task, entry.request.requestId)

namespace Session

variable {session session' : Session} {client client' : RpcClient}

theorem Owns.settles (h : session.Owns client) (hclient : client.Settles client') :
    session.Owns client' where
  sound := hclient.sound
  stopped := by rw [hclient.stopped, h.stopped]
  closed := h.closed
  renders entry hmem := h.renders entry (hclient.pending entry hmem)

/-- A session whose task ends has its Worker terminated. -/
theorem owns_done (hclient : client.Sound) (hclosed : session.closed = true) :
    ({ session with closePhase := some .done } : Session).Owns client.terminate := by
  obtain ⟨hsound, hstopped, -, -⟩ := hclient.terminate
  refine ⟨hsound, iff_of_true hstopped rfl, hclosed, fun entry hmem => ?_⟩
  rw [hsound.pending_nil hstopped] at hmem
  exact absurd hmem List.not_mem_nil

/-- A session may make a request that renders no page. -/
theorem Owns.requests (h : session.Owns client) {body : RequestBody} {requestId : ℕ}
    (hclient : client.Requests body requestId client') (hbody : body.isRenderPage = false)
    (hrendering : session'.rendering = session.rendering)
    (hphase : session'.closePhase ≠ some .done)
    (hclosed : session'.closed = session'.closePhase.isSome) : session'.Owns client' where
  sound := hclient.sound
  stopped := iff_of_false (by rw [hclient.stopped]; exact Bool.false_ne_true) hphase
  closed := hclosed
  renders entry hmem hrender := by
    obtain hmem | ⟨-, heq⟩ := hclient.pending entry hmem
    · rw [hrendering]
      exact h.renders entry hmem hrender
    · rw [heq, hbody] at hrender
      exact absurd hrender Bool.false_ne_true

@[simp] theorem remember_closed (session : Session) (page : RenderedPage) (bytes : ℕ) :
    (session.remember page bytes).closed = session.closed := by
  unfold remember
  split <;> rfl

@[simp] theorem remember_closePhase (session : Session) (page : RenderedPage) (bytes : ℕ) :
    (session.remember page bytes).closePhase = session.closePhase := by
  unfold remember
  split <;> rfl

@[simp] theorem remember_rendering (session : Session) (page : RenderedPage) (bytes : ℕ) :
    (session.remember page bytes).rendering = session.rendering := by
  unfold remember
  split <;> rfl

end Session

namespace OpenCall

/-- Who a Worker belongs to in each phase. -/
def Sound (closed : Bool) (call : OpenCall) : Prop :=
  match call.phase with
  | .readingHead | .readingBytes _ => call.opening = false ∧ call.registered = false
  | .greeting client requestId _ =>
    client.Serves requestId ∧ call.opening = true ∧ call.registered = false
  | .opening client requestId =>
    client.Serves requestId ∧ call.opening = true ∧ call.registered = false ∧ closed = false
  | .resolved client session =>
    session.Owns client ∧ call.opening = false ∧ call.registered = !session.closed ∧
      (closed = true → session.closed = true)
  | .rejected _ client =>
    (∀ client' ∈ client, client'.Sound ∧ client'.stopped = true) ∧ call.opening = false ∧
      call.registered = false

/-- No open request is settled without the open going on. -/
def Quiet (call : OpenCall) : Prop :=
  ∀ client requestId, call.phase = .opening client requestId → client.outcome? requestId = none

/-- Whether there is a session whose Worker is not terminated. -/
def isLive (call : OpenCall) : Bool :=
  call.session?.isSome && call.client?.any fun client => !client.stopped

/-- What a call becomes: in a closed engine it makes no session, nor another Worker for one. -/
structure Goes (s : Surroundings) (call call' : OpenCall) : Prop where
  sound : call'.Sound s.closed
  session : s.closed = true → call'.session?.isSome = true → call.session?.isSome = true
  live : s.closed = true → call'.isLive = true → call.isLive = true

variable {s : Surroundings} {closed : Bool} {call call' call'' : OpenCall} {client : RpcClient}
  {session : Session} {requestId : ℕ} {format : DocumentFormat}

theorem sound_reading
    (h : call.phase = .readingHead ∨ ∃ format, call.phase = .readingBytes format) :
    call.Sound closed ↔ call.opening = false ∧ call.registered = false := by
  obtain h | ⟨format, h⟩ := h <;> rw [Sound, h]

theorem sound_greeting (h : call.phase = .greeting client requestId format) :
    call.Sound closed ↔
      client.Serves requestId ∧ call.opening = true ∧ call.registered = false := by
  rw [Sound, h]

theorem sound_opening (h : call.phase = .opening client requestId) :
    call.Sound closed ↔ client.Serves requestId ∧ call.opening = true ∧
      call.registered = false ∧ closed = false := by
  rw [Sound, h]

theorem sound_resolved (h : call.phase = .resolved client session) :
    call.Sound closed ↔ session.Owns client ∧ call.opening = false ∧
      call.registered = !session.closed ∧ (closed = true → session.closed = true) := by
  rw [Sound, h]

theorem sound_rejected {error : Thrown} {client : Option RpcClient}
    (h : call.phase = .rejected error client) : call.Sound closed ↔
      (∀ client' ∈ client, client'.Sound ∧ client'.stopped = true) ∧ call.opening = false ∧
        call.registered = false := by
  rw [Sound, h]

theorem Goes.refl (h : call.Sound s.closed) : Goes s call call := ⟨h, fun _ h => h, fun _ h => h⟩

theorem Goes.trans (h : Goes s call call') (h' : Goes s call' call'') : Goes s call call'' :=
  ⟨h'.sound, fun hclosed hsome => h.session hclosed (h'.session hclosed hsome),
    fun hclosed hlive => h.live hclosed (h'.live hclosed hlive)⟩

/-- What makes no session may happen at any time. -/
theorem goes_of_session (hsound : call'.Sound s.closed) (h : call'.session? = none) :
    Goes s call call' :=
  ⟨hsound, fun _ hsome => by simp [h] at hsome, fun _ hlive => by simp [isLive, h] at hlive⟩

variable {session' : Session}

/-- What leaves the Worker of a session terminated may happen at any time. -/
theorem goes_of_resolved {client' : RpcClient} (hphase : call.phase = .resolved client session)
    (hphase' : call'.phase = .resolved client' session') (hsound : call'.Sound s.closed)
    (hstopped : client.stopped = true → client'.stopped = true) : Goes s call call' := by
  refine ⟨hsound, fun _ _ => by rw [session?, hphase]; rfl, fun _ hlive => ?_⟩
  have hrunning : client'.stopped = false := by
    simpa [isLive, session?, client?, hphase'] using hlive
  have : client.stopped = false := by
    by_contra hne
    exact absurd (hstopped (Bool.eq_true_of_not_eq_false hne)) (by rw [hrunning]; simp)
  simp [isLive, session?, client?, hphase, this]

/-- A session may change that stays open, or stays closed. -/
theorem goes_session (h : call.Sound s.closed) (hphase : call.phase = .resolved client session)
    {client' : RpcClient} (howns : session'.Owns client')
    (hclosed : session'.closed = session.closed)
    (hstopped : client.stopped = true → client'.stopped = true) :
    Goes s call { call with phase := .resolved client' session' } := by
  obtain ⟨-, hopening, hregistered, hengine⟩ := (sound_resolved hphase).1 h
  exact goes_of_resolved hphase rfl ((sound_resolved rfl).2 ⟨howns, hopening,
    by rw [hclosed]; exact hregistered, fun h => hclosed.trans (hengine h)⟩) hstopped

theorem goes_fail (hclient : client.Sound) (hregistered : call.registered = false)
    (error : DocumentPreviewError) (before : OpenCall) :
    Goes s before (call.fail client error) := by
  refine goes_of_session ((sound_rejected rfl).2 ⟨?_, rfl, hregistered⟩) rfl
  rintro _ ⟨⟩
  exact ⟨hclient.terminate.1, hclient.terminate.2.1⟩

theorem goes_rejected (hopening : call.opening = false) (hregistered : call.registered = false)
    (error : Thrown) (before : OpenCall) :
    Goes s before { call with phase := .rejected error none } :=
  goes_of_session ((sound_rejected rfl).2 ⟨nofun, hopening, hregistered⟩) rfl

/-! ### What waits for a promise -/

theorem goes_advanceGreeting (h : call.Sound s.closed) : Goes s call (call.advanceGreeting s) := by
  unfold advanceGreeting
  split
  · rename_i client requestId format hphase
    obtain ⟨hserves, hopening, hregistered⟩ := (sound_greeting hphase).1 h
    split
    · exact .refl h
    · exact goes_fail hserves.sound hregistered _ _
    · dsimp only
      split
      · exact goes_fail hserves.sound hregistered _ _
      split
      · exact goes_fail hserves.sound hregistered _ _
      rename_i hopen
      rw [Bool.not_eq_true] at hopen
      split
      · rename_i client' error hrequest
        rw [RpcClient.request_error hrequest]
        exact goes_fail hserves.sound hregistered _ _
      · rename_i client' id hrequest
        have hmade := hserves.sound.request hrequest
        refine goes_of_session ((sound_opening rfl).2 ⟨⟨hmade.sound, hmade.stopped, hmade.tracks,
          fun entry hmem => ?_⟩, hopening, hregistered, hopen⟩) rfl
        obtain hmem | ⟨-, heq⟩ := hmade.pending entry hmem
        · exact hserves.renders entry hmem
        · rw [heq]
          rfl
  · exact .refl h

theorem goes_advanceOpening (h : call.Sound s.closed) : Goes s call (call.advanceOpening s) := by
  unfold advanceOpening
  split
  · rename_i client requestId hphase
    obtain ⟨hserves, hopening, hregistered, hopen⟩ := (sound_opening hphase).1 h
    split
    · exact .refl h
    · exact goes_fail hserves.sound hregistered _ _
    · dsimp only
      split
      · exact goes_fail hserves.sound hregistered _ _
      split
      · exact goes_fail hserves.sound hregistered _ _
      · refine ⟨(sound_resolved rfl).2 ⟨⟨hserves.sound, ?_, rfl, fun entry hmem hrender => ?_⟩, rfl,
          rfl, fun hclosed => ?_⟩, fun hclosed => ?_, fun hclosed => ?_⟩
        · exact iff_of_false (by rw [hserves.running]; exact Bool.false_ne_true) nofun
        · rw [hserves.renders entry hmem] at hrender
          exact absurd hrender Bool.false_ne_true
        all_goals exact absurd (hopen.symm.trans hclosed) Bool.false_ne_true
  · exact .refl h

theorem goes_advanceRender (h : call.Sound s.closed) : Goes s call (call.advanceRender s) := by
  unfold advanceRender
  split
  · rename_i client session hphase
    have howns := ((sound_resolved hphase).1 h).1
    split
    · exact .refl h
    · rename_i task requestId hrendering
      split
      · exact .refl h
      · rename_i outcome houtcome
        dsimp only
        -- The page that is settled waits no more.
        have hdone : ({ session with rendering := none } : Session).Owns client :=
          ⟨howns.sound, howns.stopped, howns.closed, fun entry hmem hrender => by
            obtain ⟨task', htask⟩ := howns.renders entry hmem hrender
            rw [hrendering] at htask
            obtain ⟨-, rfl⟩ := Prod.mk.inj (Option.some.inj htask)
            rw [howns.sound.waiting entry hmem] at houtcome
            exact nomatch houtcome⟩
        generalize task.page? outcome s.options.limits.maxPagePixels = page
        obtain _ | page := page
        · exact goes_session h hphase hdone rfl fun h => h
        · refine goes_session h hphase ⟨howns.sound, ?_, ?_, ?_⟩ (by simp) fun h => h
          · simpa using howns.stopped
          · simpa using howns.closed
          · simpa using hdone.renders
  · exact .refl h

theorem goes_finishClose (h : call.Sound s.closed) (hphase : call.phase = .resolved client session)
    (hclosed : session'.closed = true) (hregistered : call'.registered = false)
    (hopening : call'.opening = false) : Goes s call (call'.finishClose client session') := by
  have howns := ((sound_resolved hphase).1 h).1
  refine goes_of_resolved hphase rfl ((sound_resolved rfl).2 ⟨Session.owns_done howns.sound hclosed,
    hopening, by rw [hclosed]; exact hregistered, fun _ => hclosed⟩) fun _ => ?_
  exact howns.sound.terminate.2.1

/-- A session that is being closed is not among those of the engine. -/
theorem closed_of_closePhase (howns : session.Owns client)
    (hregistered : call.registered = !session.closed) {phase : ClosePhase}
    (hphase : session.closePhase = some phase) :
    session.closed = true ∧ call.registered = false := by
  have hclosed : session.closed = true := by rw [howns.closed, hphase]; rfl
  exact ⟨hclosed, by rw [hregistered, hclosed]; rfl⟩

theorem goes_advanceClose (h : call.Sound s.closed) : Goes s call call.advanceClose := by
  unfold advanceClose
  split
  · rename_i client session hphase
    obtain ⟨howns, hopening, hregistered, -⟩ := (sound_resolved hphase).1 h
    split
    · rename_i requestId hclosing
      obtain ⟨hclosed, hunregistered⟩ := closed_of_closePhase howns hregistered hclosing
      split
      · exact .refl h
      · exact goes_finishClose h hphase hclosed hunregistered hopening
      · split
        · rename_i client' error hrequest
          rw [RpcClient.request_error hrequest]
          exact goes_finishClose h hphase hclosed hunregistered hopening
        · rename_i client' id hrequest
          have hmade := howns.sound.request hrequest
          refine goes_session h hphase (howns.requests hmade rfl rfl ?_ hclosed) rfl
            fun hstopped => absurd (hmade.running.symm.trans hstopped) Bool.false_ne_true
          simp
    · exact .refl h
  · exact .refl h

theorem goes_advanceShutdown (h : call.Sound s.closed) : Goes s call call.advanceShutdown := by
  unfold advanceShutdown
  split
  · rename_i client session hphase
    obtain ⟨howns, hopening, hregistered, -⟩ := (sound_resolved hphase).1 h
    split
    · rename_i requestId hshutdown
      obtain ⟨hclosed, hunregistered⟩ := closed_of_closePhase howns hregistered hshutdown
      split
      · exact goes_finishClose h hphase hclosed hunregistered hopening
      · exact .refl h
    · exact .refl h
  · exact .refl h

theorem goes_advance (h : call.Sound s.closed) : Goes s call (call.advance s) := by
  have hgreeting := goes_advanceGreeting h
  have hopening := hgreeting.trans (goes_advanceOpening hgreeting.sound)
  have hrender := hopening.trans (goes_advanceRender hopening.sound)
  have hclose := hrender.trans (goes_advanceClose hrender.sound)
  exact hclose.trans (goes_advanceShutdown hclose.sound)

/-! ### Events -/

theorem goes_startWorker (hopening : call.opening = false) (hregistered : call.registered = false)
    (format : DocumentFormat) (worker : Option DocumentWorker) (before : OpenCall) :
    Goes s before (call.startWorker s format worker) := by
  unfold startWorker
  split
  · exact goes_rejected hopening hregistered _ _
  · rename_i rejects
    dsimp only
    have hnew := RpcClient.sound_new rejects
    split
    · rename_i client error hrequest
      rw [RpcClient.request_error hrequest]
      exact goes_fail hnew hregistered _ _
    · rename_i client id hrequest
      have hmade := hnew.request hrequest
      split
      · exact goes_fail hmade.sound hregistered _ _
      · refine goes_of_session ((sound_greeting rfl).2 ⟨⟨hmade.sound, hmade.stopped, hmade.tracks,
          fun entry hmem => ?_⟩, rfl, hregistered⟩) rfl
        obtain hmem | ⟨-, heq⟩ := hmade.pending entry hmem
        · exact absurd hmem List.not_mem_nil
        · rw [heq]
          rfl

theorem goes_headRead (h : call.Sound s.closed) (succeeds : Bool) (worker : Option DocumentWorker) :
    Goes s call (call.headRead s succeeds worker) := by
  unfold headRead
  split
  · rename_i hphase
    obtain ⟨hopening, hregistered⟩ := (sound_reading (.inl hphase)).1 h
    split
    · exact goes_rejected hopening hregistered _ _
    dsimp only
    split
    · exact goes_rejected hopening hregistered _ _
    · split
      · split
        · exact goes_rejected hopening hregistered _ _
        · exact goes_of_session ((sound_reading (.inr ⟨_, rfl⟩)).2 ⟨hopening, hregistered⟩) rfl
      · exact goes_startWorker hopening hregistered _ _ _
  · exact .refl h

theorem goes_bytesRead (h : call.Sound s.closed) (succeeds : Bool)
    (worker : Option DocumentWorker) : Goes s call (call.bytesRead s succeeds worker) := by
  unfold bytesRead
  split
  · rename_i format hphase
    obtain ⟨hopening, hregistered⟩ := (sound_reading (.inr ⟨_, hphase⟩)).1 h
    split
    · exact goes_startWorker hopening hregistered _ _ _
    · exact goes_rejected hopening hregistered _ _
  · exact .refl h

/-- A client may settle its requests. -/
theorem goes_mapClient (h : call.Sound s.closed) {f : RpcClient → RpcClient}
    (hf : ∀ client : RpcClient, client.Sound → client.Settles (f client)) :
    Goes s call (call.mapClient f) := by
  have hserves : ∀ {client : RpcClient} {requestId : ℕ}, client.Serves requestId →
      (f client).Serves requestId := fun {client requestId} hserves =>
    have hsettles := hf client hserves.sound
    ⟨hsettles.sound, hsettles.stopped.trans hserves.running, hsettles.tracks _ hserves.tracks,
      fun entry hmem => hserves.renders entry (hsettles.pending entry hmem)⟩
  unfold mapClient
  split
  · rename_i client requestId format hphase
    exact goes_of_session ((sound_greeting rfl).2
      (((sound_greeting hphase).1 h).imp_left hserves)) rfl
  · rename_i client requestId hphase
    exact goes_of_session ((sound_opening rfl).2
      (((sound_opening hphase).1 h).imp_left hserves)) rfl
  · rename_i client session hphase
    have howns := ((sound_resolved hphase).1 h).1
    have hsettles := hf client howns.sound
    exact goes_session h hphase (howns.settles hsettles) rfl fun hstopped =>
      hsettles.stopped.trans hstopped
  · exact .refl h

theorem goes_onMessage (h : call.Sound s.closed) (data : JsValue) :
    Goes s call (call.onMessage data) := by
  have hmap : ∀ {call : OpenCall}, call.Sound s.closed →
      Goes s call (call.mapClient (·.onMessage data)) := fun h =>
    goes_mapClient h fun _ hclient => hclient.onMessage data
  unfold onMessage
  dsimp only
  split
  · rename_i client session hphase
    split
    · have howns := ((sound_resolved hphase).1 h).1
      have hdiagnostic : Goes s call { call with phase := .resolved client { session with
          diagnostics := session.diagnostics ++ [data.prop "diagnostic"] } } :=
        goes_session h hphase ⟨howns.sound, howns.stopped, howns.closed, howns.renders⟩ rfl
          fun h => h
      exact hdiagnostic.trans (hmap hdiagnostic.sound)
    · exact hmap h
  · exact hmap h

theorem goes_abort (h : call.Sound s.closed) (signal : ℕ) : Goes s call (call.abort signal) := by
  unfold abort
  split
  · rename_i format hphase
    obtain ⟨hopening, hregistered⟩ := (sound_reading (.inr ⟨_, hphase⟩)).1 h
    split
    · exact goes_rejected hopening hregistered _ _
    · exact .refl h
  · rename_i client requestId format hphase
    obtain ⟨hserves, -, hregistered⟩ := (sound_greeting hphase).1 h
    split
    · exact goes_fail hserves.sound hregistered _ _
    · exact .refl h
  · exact goes_mapClient h fun _ hclient => hclient.abort signal

theorem goes_getPageInfo (h : call.Sound s.closed) (index : JsValue) :
    Goes s call (call.getPageInfo index) := by
  unfold getPageInfo
  split
  · rename_i client session hphase
    split
    · exact .refl h
    · rename_i page hpage
      have howns := ((sound_resolved hphase).1 h).1
      dsimp only
      generalize hrequest :
        client.request (.pageInfo call.sessionId page) none false = result
      obtain ⟨client', error | id⟩ := result
      · rw [RpcClient.request_error hrequest]
        exact goes_session h hphase howns rfl fun h => h
      · have hmade := howns.sound.request hrequest
        have hphase' : session.closePhase ≠ some .done := fun hdone => by
          have hstopped := howns.stopped.2 hdone
          exact absurd (hmade.running.symm.trans hstopped) Bool.false_ne_true
        exact goes_session h hphase (howns.requests hmade rfl rfl hphase' howns.closed) rfl
          fun hstopped => absurd (hmade.running.symm.trans hstopped) Bool.false_ne_true
  · exact .refl h

theorem goes_renderPage (h : call.Sound s.closed) (index : JsValue) (pixelWidth : Option ℕ)
    (signal : Option ℕ) : Goes s call (call.renderPage index pixelWidth signal) := by
  unfold renderPage
  split
  · rename_i client session hphase
    have howns := ((sound_resolved hphase).1 h).1
    split
    · dsimp only
      split <;>
        exact goes_session h hphase ⟨howns.sound, howns.stopped, howns.closed, howns.renders⟩ rfl
          fun h => h
    · exact .refl h
  · exact .refl h

/-- A page is rendered if no other one is. -/
theorem goes_runRender (h : call.Sound s.closed) : Goes s call (call.runRender s) := by
  unfold runRender
  split
  · rename_i client session hphase
    have howns := ((sound_resolved hphase).1 h).1
    split
    · rename_i task renderQueue hrendering hqueue
      dsimp only
      have hskip : Goes s call
          { call with phase := .resolved client { session with renderQueue } } :=
        goes_session h hphase ⟨howns.sound, howns.stopped, howns.closed, howns.renders⟩ rfl
          fun h => h
      split
      · exact hskip
      · rename_i hopen
        split
        · rename_i client' error hrequest
          rw [RpcClient.request_error hrequest]
          exact hskip
        · rename_i client' id hrequest
          have hmade := howns.sound.request hrequest
          have hphase' : session.closePhase = none :=
            Option.not_isSome_iff_eq_none.1 (by rw [← howns.closed]; exact hopen)
          refine goes_session h hphase ⟨hmade.sound, ?_, howns.closed,
            fun entry hmem hrender => ?_⟩ rfl fun hstopped => ?_
          · exact iff_of_false (by rw [hmade.stopped]; exact Bool.false_ne_true)
              (by simp [hphase'])
          · obtain hmem | ⟨rfl, -⟩ := hmade.pending entry hmem
            · obtain ⟨task', htask⟩ := howns.renders entry hmem hrender
              rw [hrendering] at htask
              exact nomatch htask
            · exact ⟨task, rfl⟩
          · exact absurd (hmade.running.symm.trans hstopped) Bool.false_ne_true
    · exact .refl h
  · exact .refl h

/-- A session that is open may be closed, also when its engine is. -/
theorem goes_close (hphase : call.phase = .resolved client session) (howns : session.Owns client)
    (hopening : call.opening = false) (hopen : session.closePhase = none) :
    Goes s call call.closeSession := by
  unfold closeSession
  rw [hphase]
  dsimp only
  rw [hopen, if_neg (by simp)]
  have hbump := howns.sound.bumpGeneration
  split
  · rename_i client' error hrequest
    rw [RpcClient.request_error hrequest]
    refine goes_of_resolved hphase rfl ((sound_resolved rfl).2
      ⟨Session.owns_done hbump.sound rfl, hopening, rfl, fun _ => rfl⟩) fun _ => ?_
    exact hbump.sound.terminate.2.1
  · rename_i client' id hrequest
    have hmade := hbump.sound.request hrequest
    refine goes_of_resolved hphase rfl ((sound_resolved rfl).2 ⟨⟨hmade.sound, ?_, rfl,
      fun entry hmem hrender => ?_⟩, hopening, rfl, fun _ => rfl⟩) fun hstopped => ?_
    · exact iff_of_false (by rw [hmade.stopped]; exact Bool.false_ne_true) (by simp)
    · obtain hmem | ⟨-, heq⟩ := hmade.pending entry hmem
      · exact absurd hmem List.not_mem_nil
      · rw [heq] at hrender
        exact absurd hrender Bool.false_ne_true
    · rw [← hbump.stopped, hmade.running] at hstopped
      exact absurd hstopped Bool.false_ne_true

theorem goes_closeSession (h : call.Sound s.closed) : Goes s call call.closeSession := by
  by_cases hopen : ∃ client session, call.phase = .resolved client session ∧
      session.closePhase = none
  · obtain ⟨client, session, hphase, hnone⟩ := hopen
    obtain ⟨howns, hopening, -, -⟩ := (sound_resolved hphase).1 h
    exact goes_close hphase howns hopening hnone
  · unfold closeSession
    split
    · rename_i client session hphase
      rw [if_pos (Option.isSome_iff_ne_none.2 fun hnone => hopen ⟨_, _, hphase, hnone⟩)]
      exact .refl h
    · exact .refl h

theorem goes_closeTimeout (h : call.Sound s.closed) : Goes s call call.closeTimeout := by
  unfold closeTimeout
  split
  · rename_i client session hphase
    obtain ⟨howns, hopening, hregistered, -⟩ := (sound_resolved hphase).1 h
    split
    · rename_i requestId hclosing
      obtain ⟨hclosed, hunregistered⟩ := closed_of_closePhase howns hregistered hclosing
      exact goes_finishClose h hphase hclosed hunregistered hopening
    · rename_i requestId hclosing
      obtain ⟨hclosed, hunregistered⟩ := closed_of_closePhase howns hregistered hclosing
      exact goes_finishClose h hphase hclosed hunregistered hopening
    · exact .refl h
  · exact .refl h

theorem goes_handle (h : call.Sound s.closed) (event : DocumentEvent) :
    Goes s call (call.handle s event) := by
  cases event with
  | headRead succeeds worker => exact goes_headRead h succeeds worker
  | bytesRead succeeds worker => exact goes_bytesRead h succeeds worker
  | message data => exact goes_onMessage h data
  | error => exact goes_mapClient h fun _ hclient => hclient.onError
  | getPageInfo index => exact goes_getPageInfo h index
  | renderPage index pixelWidth signal => exact goes_renderPage h index pixelWidth signal
  | runRender => exact goes_runRender h
  | closeSession => exact goes_closeSession h
  | closeTimeout => exact goes_closeTimeout h

theorem goes_step (h : call.Sound s.closed) (event : DocumentEvent) :
    Goes s call (call.step s event) :=
  (goes_handle h event).trans (goes_advance (goes_handle h event).sound)

/-! ### The close of the engine -/

theorem quiet_of_phase (h : ∀ client requestId, call.phase ≠ .opening client requestId) :
    call.Quiet := fun client requestId hphase => absurd hphase (h client requestId)

theorem quiet_advanceOpening (call : OpenCall) : (call.advanceOpening s).Quiet := by
  unfold advanceOpening
  split
  · rename_i client requestId hphase
    split
    · rename_i houtcome
      intro client' requestId' hphase'
      rw [hphase] at hphase'
      obtain ⟨rfl, rfl⟩ := Phase.opening.inj hphase'
      exact houtcome
    · exact quiet_of_phase nofun
    · dsimp only
      split
      · exact quiet_of_phase nofun
      split <;> exact quiet_of_phase nofun
  · rename_i hphase
    exact quiet_of_phase hphase

theorem Quiet.advanceRender (h : call.Quiet) : (call.advanceRender s).Quiet := by
  unfold OpenCall.advanceRender
  split
  · split
    · exact h
    · split
      · exact h
      · exact quiet_of_phase nofun
  · exact h

theorem Quiet.advanceClose (h : call.Quiet) : call.advanceClose.Quiet := by
  unfold OpenCall.advanceClose
  split
  · split
    · split
      · exact h
      · exact quiet_of_phase nofun
      · split <;> exact quiet_of_phase nofun
    · exact h
  · exact h

theorem Quiet.advanceShutdown (h : call.Quiet) : call.advanceShutdown.Quiet := by
  unfold OpenCall.advanceShutdown
  split
  · split
    · split
      · exact quiet_of_phase nofun
      · exact h
    · exact h
  · exact h

theorem quiet_advance (call : OpenCall) : (call.advance s).Quiet :=
  (quiet_advanceOpening _).advanceRender.advanceClose.advanceShutdown

theorem quiet_start (source : LocalDocumentSource) (sourceName : Option String)
    (signal : Option ℕ) (sessionId : String) :
    (start s source sourceName signal sessionId).Quiet := by
  refine quiet_of_phase fun client requestId hphase => ?_
  unfold start at hphase
  dsimp only at hphase
  repeat' split at hphase
  all_goals exact nomatch hphase

/-- An open that begins has no Worker. -/
theorem goes_start (source : LocalDocumentSource) (sourceName : Option String)
    (signal : Option ℕ) (sessionId : String) (before : OpenCall) :
    Goes s before (start s source sourceName signal sessionId) ∧
      (start s source sourceName signal sessionId).session? = none := by
  have hrejected : ∀ error, Goes s before
      { source, sourceName, signal, sessionId, phase := .rejected error none } := fun error =>
    goes_of_session ((sound_rejected rfl).2 ⟨nofun, rfl, rfl⟩) rfl
  unfold start
  dsimp only
  split
  · exact ⟨hrejected _, rfl⟩
  split
  · exact ⟨hrejected _, rfl⟩
  split
  · exact ⟨hrejected _, rfl⟩
  split
  · exact ⟨hrejected _, rfl⟩
  · exact ⟨goes_of_session ((sound_reading (.inl rfl)).2 ⟨rfl, rfl⟩) rfl, rfl⟩

/-- A Worker that is opening is terminated when the engine is closed, and its open fails. -/
theorem goes_terminate (h : call.Sound closed) (hquiet : call.Quiet)
    (hopening : call.opening = true) (hclosed : s.closed = true) (before : OpenCall) :
    Goes s before (call.terminate.advance s) ∧ (call.terminate.advance s).registered = false := by
  have hnot : call.opening ≠ false := by rw [hopening]; simp
  cases hphase : call.phase with
  | readingHead => exact absurd ((sound_reading (.inl hphase)).1 h).1 hnot
  | readingBytes format => exact absurd ((sound_reading (.inr ⟨_, hphase⟩)).1 h).1 hnot
  | resolved client session => exact absurd ((sound_resolved hphase).1 h).2.1 hnot
  | rejected error client => exact absurd ((sound_rejected hphase).1 h).2.1 hnot
  | greeting client requestId format =>
    obtain ⟨hserves, -, hregistered⟩ := (sound_greeting hphase).1 h
    obtain ⟨hsound, -, hsettled, hrejected⟩ := hserves.sound.terminate
    have hcall : call.terminate = { call with
        opening := false, phase := .greeting client.terminate requestId format } := by
      rw [terminate, mapClient, hphase]
    have houtcome : ∃ outcome, client.terminate.outcome? requestId = some outcome := by
      obtain ⟨entry, hmem, rfl⟩ | hsome := hserves.tracks
      · exact ⟨_, hrejected entry hmem⟩
      · exact (Option.isSome_iff_exists.1 hsome).imp fun outcome => hsettled requestId outcome
    have hfails : ∃ error, call.terminate.advanceGreeting s =
        call.terminate.fail client.terminate error := by
      obtain ⟨outcome, houtcome⟩ := houtcome
      rw [hcall, advanceGreeting]
      dsimp only
      rw [houtcome]
      cases outcome with
      | rejected error => exact ⟨error, rfl⟩
      | resolved message =>
        dsimp only
        rw [hclosed]
        split
        · exact ⟨_, rfl⟩
        · exact ⟨closedError, rfl⟩
    obtain ⟨error, hfails⟩ := hfails
    have hadvance : call.terminate.advance s = call.terminate.fail client.terminate error := by
      rw [advance, hfails]
      rfl
    have hleft : call.terminate.registered = false := by rw [hcall]; exact hregistered
    rw [hadvance]
    exact ⟨goes_fail hsound hleft error before, hleft⟩
  | opening client requestId =>
    obtain ⟨hserves, -, hregistered, -⟩ := (sound_opening hphase).1 h
    obtain ⟨hsound, -, -, hrejected⟩ := hserves.sound.terminate
    have hcall : call.terminate = { call with
        opening := false, phase := .opening client.terminate requestId } := by
      rw [terminate, mapClient, hphase]
    have houtcome : client.terminate.outcome? requestId = some (.rejected cancelledError) := by
      obtain ⟨entry, hmem, rfl⟩ | hsome := hserves.tracks
      · exact hrejected entry hmem
      · rw [hquiet client requestId hphase] at hsome
        exact absurd hsome Bool.false_ne_true
    have hadvance : call.terminate.advance s =
        call.terminate.fail client.terminate cancelledError := by
      have hgreeting : call.terminate.advanceGreeting s = call.terminate := by
        rw [hcall, advanceGreeting]
      have hfails : call.terminate.advanceOpening s =
          call.terminate.fail client.terminate cancelledError := by
        rw [hcall, advanceOpening]
        dsimp only
        rw [houtcome]
      rw [advance, hgreeting, hfails]
      rfl
    have hleft : call.terminate.registered = false := by rw [hcall]; exact hregistered
    rw [hadvance]
    exact ⟨goes_fail hsound hleft _ before, hleft⟩

/-- What the engine does not have may stay when it is closed. -/
theorem sound_of_unregistered (h : call.Sound closed) (hopening : call.opening = false)
    (hregistered : call.registered = false) : call.Sound true := by
  have hnot : call.opening ≠ true := by rw [hopening]; simp
  cases hphase : call.phase with
  | readingHead => exact (sound_reading (.inl hphase)).2 ⟨hopening, hregistered⟩
  | readingBytes format => exact (sound_reading (.inr ⟨_, hphase⟩)).2 ⟨hopening, hregistered⟩
  | greeting client requestId format => exact absurd ((sound_greeting hphase).1 h).2.1 hnot
  | opening client requestId => exact absurd ((sound_opening hphase).1 h).2.1 hnot
  | resolved client session =>
    obtain ⟨howns, -, hsession, -⟩ := (sound_resolved hphase).1 h
    have hclosed : session.closed = true := by simpa [hregistered] using hsession
    exact (sound_resolved hphase).2 ⟨howns, hopening, hsession, fun _ => hclosed⟩
  | rejected error client => exact (sound_rejected hphase).2 ((sound_rejected hphase).1 h)

theorem goes_engineClosed (h : call.Sound closed) (hquiet : call.Quiet)
    (hclosed : s.closed = true) :
    Goes s call (call.engineClosed s) ∧ (call.engineClosed s).Quiet := by
  unfold engineClosed
  by_cases hopening : call.opening = true
  · obtain ⟨hgoes, hregistered⟩ := goes_terminate h hquiet hopening hclosed call
    rw [if_pos hopening]
    dsimp only
    rw [hregistered, if_neg Bool.false_ne_true]
    exact ⟨hgoes, quiet_advance _⟩
  · rw [if_neg hopening]
    dsimp only
    rw [Bool.not_eq_true] at hopening
    split
    · rename_i hregistered
      have hnot : call.registered ≠ false := by rw [hregistered]; simp
      have hresolved : ∃ client session, call.phase = .resolved client session := by
        cases hphase : call.phase with
        | readingHead => exact absurd ((sound_reading (.inl hphase)).1 h).2 hnot
        | readingBytes format => exact absurd ((sound_reading (.inr ⟨_, hphase⟩)).1 h).2 hnot
        | greeting client requestId format => exact absurd ((sound_greeting hphase).1 h).2.2 hnot
        | opening client requestId => exact absurd ((sound_opening hphase).1 h).2.2.1 hnot
        | resolved client session => exact ⟨client, session, rfl⟩
        | rejected error client => exact absurd ((sound_rejected hphase).1 h).2.2 hnot
      obtain ⟨client, session, hphase⟩ := hresolved
      obtain ⟨howns, -, hsession, -⟩ := (sound_resolved hphase).1 h
      have hopen : session.closePhase = none := by
        refine Option.not_isSome_iff_eq_none.1 ?_
        rw [← howns.closed]
        simpa [hregistered] using hsession
      have hgoes := goes_close (s := s) hphase howns hopening hopen
      exact ⟨hgoes.trans (goes_advance hgoes.sound), quiet_advance _⟩
    · rename_i hregistered
      rw [Bool.not_eq_true] at hregistered
      have hsound := sound_of_unregistered h hopening hregistered
      exact ⟨.refl (by rw [hclosed]; exact hsound), hquiet⟩

/-- A session that is live and not being closed is among those of the engine. -/
theorem registered_of_isLive (h : call.Sound closed) (hlive : call.isLive = true)
    (hclosing : call.isClosing = false) : call.registered = true ∧ closed = false := by
  cases hphase : call.phase with
  | resolved client session =>
    obtain ⟨howns, -, hregistered, hengine⟩ := (sound_resolved hphase).1 h
    have hrunning : client.stopped = false := by
      simpa [isLive, session?, client?, hphase] using hlive
    have hdone : session.closePhase ≠ some .done := fun hdone =>
      absurd (hrunning.symm.trans (howns.stopped.2 hdone)) Bool.false_ne_true
    have hopen : session.closed = false := by
      simpa [isClosing, session?, hphase, hdone] using hclosing
    refine ⟨by rw [hregistered, hopen]; rfl, ?_⟩
    by_contra hclosed
    exact absurd (hopen.symm.trans (hengine (Bool.eq_true_of_not_eq_false hclosed)))
      Bool.false_ne_true
  | _ => simp [isLive, session?, hphase] at hlive

end OpenCall

end Tabulark.Document
