import Tabulark.Engine.DelimitedScan

/-!
# Table metadata converges

`Leads` follows what a caller sees of one table through all messages on their way
to the main thread. `Worker.Steps` is what every step of the Worker does to it,
and `Consistent` the invariant of the main thread, the Worker and the channels.
-/

namespace Tabulark.Engine.Metadata

open Duplex

variable {M : Type} [PartialOrder M] {A : ScanAdapter M}

/-! ## What a caller sees -/

/-- What a caller sees of a table whose metadata is asked for: nothing yet, some metadata, or
    nothing more. -/
inductive View (M : Type)
  | waiting
  | shown (metadata : M)
  | gone

/-- The view after a message. -/
def see (id table : ℕ) : View M → Message M → View M
  | .waiting, .response id' response =>
      if id' = id then
        match response with
        | .metadata metadata => .shown metadata
        | _ => .gone
      else .waiting
  | .waiting, .event (.closed none) => .gone
  | .waiting, .event .runtimeError => .gone
  | .shown _, .event (.metadata none metadata) => .shown metadata
  | .shown shown, .event (.metadata (some table') metadata) =>
      if table' = table then .shown metadata else .shown shown
  | .shown shown, .event (.closed (some table')) =>
      if table' = table then .gone else .shown shown
  | .shown _, .event (.closed none) => .gone
  | .shown _, .event .runtimeError => .gone
  | view, _ => view

/-- A message does not take what is shown back. -/
def Rises (id table : ℕ) (view : View M) (message : Message M) : Prop :=
  ∀ old new, view = .shown old → see id table view message = .shown new → old ≤ new

/-- What is shown lies between what the dataset has published and what the adapter has scanned. -/
def Settled (A : ScanAdapter M) (w : Worker M) : View M → Prop
  | .shown metadata =>
      w.closed = false ∧ w.eventsReady = true ∧ w.metadata ≤ metadata ∧
        metadata ≤ A.metadata w.scanned
  | _ => True

/-- The messages lead from a view to one that fits the Worker, and never back. -/
abbrev Leads (A : ScanAdapter M) (id table : ℕ) (w : Worker M) : View M → List (Message M) → Prop :=
  Follows (see id table) (Rises id table) (Settled A) w

/-- The metadata that a message carries. -/
def Message.payload : Message M → Option M
  | .response _ (.metadata metadata) => some metadata
  | .event (.metadata _ metadata) => some metadata
  | _ => none

variable {id table : ℕ} {view : View M}

theorem leads_nil {w : Worker M} (h : Settled A w view) :
    Leads A id table w view [] := ⟨trivial, h⟩

variable {rest : List (Message M)} {message : Message M}

theorem leads_cons {w : Worker M} (hrises : Rises id table view message)
    (h : Leads A id table w (see id table view message) rest) :
    Leads A id table w view (message :: rest) := ⟨⟨hrises, h.1⟩, h.2⟩

theorem rises_of_not_shown (h : ∀ metadata, view ≠ .shown metadata) : Rises id table view message :=
  fun old _ hold _ => absurd hold (h old)

/-- Nothing is seen after the end. -/
theorem leads_gone {w : Worker M} (msgs : List (Message M)) :
    Leads A id table w .gone msgs := by
  induction msgs with
  | nil => exact leads_nil trivial
  | cons message rest ih => exact leads_cons (rises_of_not_shown fun _ h => by cases h) ih

variable {msgs : List (Message M)}

/-- Nothing is seen before the response. -/
theorem leads_waiting {w : Worker M}
    (h : ∀ response, .response id response ∉ msgs) : Leads A id table w .waiting msgs := by
  induction msgs with
  | nil => exact leads_nil trivial
  | cons message rest ih =>
    refine leads_cons (rises_of_not_shown fun _ h => by cases h) ?_
    have hrest := ih fun response hin => h response (List.mem_cons_of_mem _ hin)
    match message with
    | .response id' response =>
      have hid : id' ≠ id := fun heq => h response (by rw [heq]; exact List.mem_cons_self)
      simpa only [see, if_neg hid] using hrest
    | .event (.closed none) => exact leads_gone rest
    | .event .runtimeError => exact leads_gone rest
    | .event (.closed (some _)) => exact hrest
    | .event (.metadata _ _) => exact hrest

/-- Responses do not change what is shown. -/
theorem leads_responses {w : Worker M} {metadata : M} (h : Settled A w (.shown metadata))
    (hmsgs : ∀ message ∈ msgs, ∃ id response, message = .response id response) :
    Leads A id table w (.shown metadata) msgs := by
  induction msgs with
  | nil => exact leads_nil h
  | cons message rest ih =>
    obtain ⟨id', response, rfl⟩ := hmsgs message List.mem_cons_self
    refine leads_cons ?_ (ih fun m hm => hmsgs m (List.mem_cons_of_mem _ hm))
    rintro old new hold hnew
    cases hold
    cases hnew
    exact le_rfl

/-! ## Steps of the Worker -/

/-- The dataset never runs ahead of the adapter, and is level with it after the scan. Tables are
    opened only after events have started. -/
structure Published (A : ScanAdapter M) (w : Worker M) : Prop where
  le_scanned : w.metadata ≤ A.metadata w.scanned
  final : w.scanDone = true → w.metadata = A.metadata w.scanned
  open_of_tables : w.tables ≠ [] → w.closed = false ∧ w.eventsReady = true

/-- What a step of the Worker, on a request or none, keeps and sends. -/
structure Worker.Steps (A : ScanAdapter M) (asked : Option (ℕ × Request)) (w w' : Worker M)
    (out : List (Message M)) : Prop where
  scanned : w.scanned ≤ w'.scanned
  published : Published A w'
  leads : ∀ id table view, Settled A w view → Leads A id table w' view out
  payload : ∀ message ∈ out, ∀ metadata, message.payload = some metadata →
    metadata ≤ A.metadata w'.scanned
  reads : ∀ read ∈ w'.reads, read ∈ w.reads ∨
    read.start = w.scanned ∧ asked = some (read.requestId, .readRange read.table)
  batches : ∀ id revision schemaVersion, .response id (.batch revision schemaVersion) ∈ out →
    ∃ read ∈ w.reads, read.requestId = id ∧ A.revision (A.metadata read.start) ≤ revision ∧
      A.schemaVersion (A.metadata read.start) ≤ schemaVersion
  responses : ∀ id response, .response id response ∈ out →
    (∃ request, asked = some (id, request)) ∨ ∃ read ∈ w.reads, read.requestId = id
  closed : w.closed = true → w'.closed = true
  eventsReady : w.eventsReady = true → w'.eventsReady = true
  tables : ∀ id, .response id .tables ∈ out → w'.eventsReady = true

namespace Worker

variable {w : Worker M} {asked : Option (ℕ × Request)}

variable {w' : Worker M}

/-- What fits the Worker fits it while it only scans, opens tables and answers. -/
theorem leads_of_le {out : List (Message M)} (hscanned : w.scanned ≤ w'.scanned)
    (hmetadata : w'.metadata = w.metadata) (hclosed : w'.closed = w.closed)
    (hready : w.eventsReady = true → w'.eventsReady = true)
    (hout : ∀ message ∈ out, ∃ id response, message = .response id response)
    (hshown : ∀ id metadata, .response id (.metadata metadata) ∈ out →
      Settled A w' (.shown metadata)) (id table : ℕ) (view : View M) (h : Settled A w view) :
    Leads A id table w' view out := by
  match view with
  | .gone => exact leads_gone out
  | .shown metadata =>
    obtain ⟨h₁, h₂, h₃, h₄⟩ := h
    exact leads_responses ⟨by rw [hclosed, h₁], hready h₂, by rw [hmetadata]; exact h₃,
      h₄.trans (A.grows hscanned)⟩ hout
  | .waiting =>
    induction out with
    | nil => exact leads_nil trivial
    | cons message rest ih =>
      obtain ⟨id', response, rfl⟩ := hout message List.mem_cons_self
      have hrest := fun m hm => hout m (List.mem_cons_of_mem _ hm)
      refine leads_cons (rises_of_not_shown fun _ h => by cases h) ?_
      by_cases hid : id' = id
      · by_cases hresponse : ∃ metadata, response = .metadata metadata
        · obtain ⟨metadata, rfl⟩ := hresponse
          have hsettled := hshown id' metadata List.mem_cons_self
          simpa only [see, if_pos hid] using leads_responses hsettled hrest
        · have hgone : see id table .waiting (.response id' response) = .gone := by
            cases response <;> simp_all [see]
          rw [hgone]
          exact leads_gone rest
      · simpa only [see, if_neg hid] using
          ih hrest fun id metadata hin => hshown id metadata (List.mem_cons_of_mem _ hin)

/-- Every view of a closed dataset ends with its `closed` event. -/
theorem leads_closed {msgs rest : List (Message M)}
    (hmsgs : ∀ message ∈ msgs, ∃ table, message = .event (.closed (some table))) :
    Leads A id table w' view (msgs ++ .event (.closed none) :: rest) := by
  induction msgs generalizing view with
  | nil =>
    have hgone : see id table view (.event (.closed none)) = .gone := by cases view <;> rfl
    refine leads_cons ?_ (hgone ▸ leads_gone rest)
    intro old new _ hnew
    rw [hgone] at hnew
    cases hnew
  | cons message msgs ih =>
    obtain ⟨table', rfl⟩ := hmsgs message List.mem_cons_self
    refine leads_cons ?_ (ih fun m hm => hmsgs m (List.mem_cons_of_mem _ hm))
    rintro old new rfl hnew
    by_cases htable : table' = table
    · simp [see, htable] at hnew
    · simp only [see, if_neg htable, View.shown.injEq] at hnew
      exact hnew.le

theorem leads_runtimeError :
    Leads A id table w' view (.event .runtimeError :: msgs) := by
  have hgone : see id table view (.event .runtimeError) = .gone := by cases view <;> rfl
  refine leads_cons ?_ (hgone ▸ leads_gone msgs)
  intro old new _ hnew
  rw [hgone] at hnew
  cases hnew

omit [PartialOrder M] in
theorem mem_cancelled {reads : List ActiveRead} :
    message ∈ cancelled reads ↔ ∃ read ∈ reads, .response read.requestId .failure = message :=
  List.mem_map

/-- One response is sent: metadata that the scan has, a batch of a read, or tables after events
    have started. -/
theorem steps_respond {id : ℕ} {response : Response M} (hpublished : Published A w')
    (hsame : w'.scanned = w.scanned ∧ w'.metadata = w.metadata ∧ w'.closed = w.closed)
    (hready : w.eventsReady = true → w'.eventsReady = true)
    (hreads : ∀ read ∈ w'.reads, read ∈ w.reads)
    (hasked : (∃ request, asked = some (id, request)) ∨ ∃ read ∈ w.reads, read.requestId = id)
    (hmetadata : ∀ metadata, response = .metadata metadata → Settled A w' (.shown metadata))
    (hbatch : ∀ revision schemaVersion, response = .batch revision schemaVersion →
      ∃ read ∈ w.reads, read.requestId = id ∧ A.revision (A.metadata read.start) ≤ revision ∧
        A.schemaVersion (A.metadata read.start) ≤ schemaVersion)
    (htables : response = .tables → w'.eventsReady = true) :
    Steps A asked w w' [.response id response] where
  scanned := hsame.1.ge
  published := hpublished
  leads := by
    refine leads_of_le hsame.1.ge hsame.2.1 hsame.2.2 hready ?_ ?_
    · intro message hin
      exact ⟨id, response, List.mem_singleton.1 hin⟩
    · intro id' metadata hin
      cases List.mem_singleton.1 hin
      exact hmetadata metadata rfl
  payload := by
    intro message hin metadata hpayload
    rw [List.mem_singleton.1 hin] at hpayload
    cases response with
    | metadata _ =>
      cases hpayload
      exact (hmetadata metadata rfl).2.2.2
    | _ => cases hpayload
  reads := fun read hread => .inl (hreads read hread)
  batches := by
    intro id' revision schemaVersion hin
    cases List.mem_singleton.1 hin
    exact hbatch _ _ rfl
  responses := by
    intro id' response' hin
    cases List.mem_singleton.1 hin
    exact hasked
  closed := hsame.2.2.trans
  eventsReady := hready
  tables := by
    intro id' hin
    cases List.mem_singleton.1 hin
    exact htables rfl

/-- A response without metadata, a batch or tables leaves the Worker as it is. -/
theorem steps_answer (hw : Published A w) {id : ℕ} {request : Request} {response : Response M}
    (hasked : asked = some (id, request)) (hresponse : response = .failure ∨
      response = .acknowledged) : Steps A asked w w [.response id response] := by
  refine steps_respond hw ⟨rfl, rfl, rfl⟩ (fun h => h) (fun _ h => h) (.inl ⟨request, hasked⟩)
    ?_ ?_ ?_
  all_goals rcases hresponse with rfl | rfl <;> simp

theorem steps_refl (hw : Published A w) : Steps A asked w w [] where
  scanned := le_rfl
  published := hw
  leads := fun _ _ _ h => leads_nil h
  payload := by simp
  reads := fun _ h => .inl h
  batches := by simp
  responses := by simp
  closed := fun h => h
  eventsReady := fun h => h
  tables := by simp

theorem scan_steps (hw : Published A w) (hdone : w.scanDone = false) :
    Steps A asked w { w with scanned := w.scanned + 1 } [] where
  scanned := Nat.le_succ _
  published := by
    refine ⟨hw.le_scanned.trans (A.grows (Nat.le_succ _)), fun h => ?_, hw.open_of_tables⟩
    rw [hdone] at h
    cases h
  leads := leads_of_le (Nat.le_succ _) rfl rfl (fun h => h) (by simp) (by simp)
  payload := by simp
  reads := fun _ h => .inl h
  batches := by simp
  responses := by simp
  closed := fun h => h
  eventsReady := fun h => h
  tables := by simp

/-- After metadata events of one value, that value is shown. -/
theorem leads_metadata {metadata : M} {tables : List ℕ} (h : Settled A w' (.shown metadata)) :
    Leads A id table w' (.shown metadata)
      (tables.map fun table => .event (.metadata (some table) metadata)) := by
  induction tables with
  | nil => exact leads_nil h
  | cons table' tables ih =>
    have hsee : see id table (.shown metadata) (.event (.metadata (some table') metadata)) =
        .shown metadata := by simp [see]
    refine leads_cons ?_ (hsee.symm ▸ ih)
    rintro old new hold hnew
    cases hold
    rw [hsee] at hnew
    cases hnew
    exact le_rfl

/-- The dataset closes, after `head` and before `tail`. -/
theorem closeDatasetState_steps (hw : Published A w) {head tail : List (Message M)}
    (hhead : head = [] ∨ head = [.event .runtimeError])
    (htail : tail = [] ∨ ∃ id request, asked = some (id, request) ∧
      tail = [.response id .acknowledged]) :
    Steps A asked w w.closeDatasetState.1 (head ++ (w.closeDatasetState.2 ++ tail)) := by
  have hmem : ∀ message ∈ head ++ (w.closeDatasetState.2 ++ tail),
      message.payload = none ∧ ∀ id response, message = .response id response →
        (response = .failure ∨ response = .acknowledged) ∧
          ((∃ request, asked = some (id, request)) ∨ ∃ read ∈ w.reads, read.requestId = id) := by
    intro message hin
    rcases List.mem_append.1 hin with hin | hin
    · rcases hhead with rfl | rfl
      · cases hin
      · rw [List.mem_singleton.1 hin]
        exact ⟨rfl, fun _ _ h => by cases h⟩
    rcases List.mem_append.1 hin with hin | hin
    · rcases List.mem_append.1 hin with hin | hin
      · obtain ⟨table, -, rfl⟩ := List.mem_map.1 hin
        exact ⟨rfl, fun _ _ h => by cases h⟩
      rcases List.mem_cons.1 hin with rfl | hin
      · exact ⟨rfl, fun _ _ h => by cases h⟩
      · obtain ⟨read, hread, rfl⟩ := mem_cancelled.1 hin
        refine ⟨rfl, fun id response h => ?_⟩
        cases h
        exact ⟨.inl rfl, .inr ⟨read, hread, rfl⟩⟩
    · rcases htail with rfl | ⟨id, request, hasked, rfl⟩
      · cases hin
      · rw [List.mem_singleton.1 hin]
        refine ⟨rfl, fun id' response h => ?_⟩
        cases h
        exact ⟨.inr rfl, .inl ⟨request, hasked⟩⟩
  refine ⟨le_rfl, ⟨hw.le_scanned, hw.final, fun h => absurd rfl h⟩, ?_, ?_, ?_, ?_, ?_,
    fun _ => rfl, fun h => h, ?_⟩
  · intro id table view _
    have hclosed : Leads A id table w.closeDatasetState.1 view (w.closeDatasetState.2 ++ tail) := by
      rw [closeDatasetState, List.append_assoc, List.cons_append]
      refine leads_closed fun message hin => ?_
      obtain ⟨table, -, rfl⟩ := List.mem_map.1 hin
      exact ⟨_, rfl⟩
    rcases hhead with rfl | rfl
    · exact hclosed
    · exact leads_runtimeError
  · intro message hin metadata hpayload
    rw [(hmem message hin).1] at hpayload
    cases hpayload
  · intro read hread
    cases hread
  · intro id revision schemaVersion hin
    rcases ((hmem _ hin).2 _ _ rfl).1 with h | h <;> cases h
  · intro id response hin
    exact ((hmem _ hin).2 _ _ rfl).2
  · intro id hin
    rcases ((hmem _ hin).2 _ _ rfl).1 with h | h <;> cases h

/-- One table closes: who sees it sees it no more, the others see no change. -/
theorem closeTableState_steps (hw : Published A w) {id handle : ℕ} {request : Request}
    (hasked : asked = some (id, request)) :
    Steps A asked w (w.closeTableState handle).1
      ((w.closeTableState handle).2 ++ [.response id .acknowledged]) := by
  have hmem : ∀ message : Message M,
      message ∈ cancelled (w.reads.filter fun read => read.table = handle) ++
        [.response id .acknowledged] → message.payload = none ∧ ∃ id' response,
          message = .response id' response ∧ (response = .failure ∨ response = .acknowledged) ∧
            ((∃ request, asked = some (id', request)) ∨
              ∃ read ∈ w.reads, read.requestId = id') := by
    intro message hin
    rcases List.mem_append.1 hin with hin | hin
    · obtain ⟨read, hread, rfl⟩ := mem_cancelled.1 hin
      exact ⟨rfl, _, _, rfl, .inl rfl, .inr ⟨read, List.mem_of_mem_filter hread, rfl⟩⟩
    · rw [List.mem_singleton.1 hin]
      exact ⟨rfl, _, _, rfl, .inr rfl, .inl ⟨request, hasked⟩⟩
  have hall : ∀ message ∈ (w.closeTableState handle).2 ++ [.response id .acknowledged],
      message = .event (.closed (some handle)) ∨
        message ∈ cancelled (w.reads.filter fun read => read.table = handle) ++
          [.response id .acknowledged] := fun message hin => List.mem_cons.1 hin
  refine ⟨le_rfl, ⟨hw.le_scanned, hw.final, fun h => hw.open_of_tables fun hnil => h ?_⟩, ?_, ?_,
    fun read hread => .inl (List.mem_of_mem_filter hread), ?_, ?_, fun h => h, fun h => h, ?_⟩
  · rw [closeTableState, hnil, List.filter_nil]
  · intro id' table view h
    have hquiet : ∀ view, Settled A w view → Leads A id' table (w.closeTableState handle).1 view
        (cancelled (w.reads.filter fun read => read.table = handle) ++
          [.response id .acknowledged]) := by
      refine leads_of_le le_rfl rfl rfl (fun h => h) (fun message hin => ?_)
        (fun id' metadata hin => ?_) id' table
      · obtain ⟨-, id', response, rfl, -⟩ := hmem message hin
        exact ⟨id', response, rfl⟩
      · exact absurd (hmem _ hin).1 (by simp [Message.payload])
    match view with
    | .gone => exact leads_gone _
    | .waiting => exact leads_cons (rises_of_not_shown fun _ h => by cases h) (hquiet .waiting h)
    | .shown metadata =>
      -- The closed table is gone from the view; another one shows what it did.
      by_cases htable : handle = table
      · refine leads_cons ?_ ?_
        · rintro old new hold hnew
          simp [see, htable] at hnew
        · simpa only [see, if_pos htable] using leads_gone _
      · refine leads_cons ?_ ?_
        · rintro old new hold hnew
          cases hold
          simp only [see, if_neg htable, View.shown.injEq] at hnew
          exact hnew.le
        · simp only [see, if_neg htable]
          exact hquiet (.shown metadata) h
  · intro message hin metadata hpayload
    rcases hall message hin with rfl | hin
    · cases hpayload
    · rw [(hmem message hin).1] at hpayload
      cases hpayload
  · intro id' revision schemaVersion hin
    rcases hall _ hin with h | hin
    · cases h
    · obtain ⟨-, _, _, heq, hr, -⟩ := hmem _ hin
      cases heq
      rcases hr with h | h <;> cases h
  · intro id' response hin
    rcases hall _ hin with h | hin
    · cases h
    · obtain ⟨-, _, _, heq, -, hr⟩ := hmem _ hin
      cases heq
      exact hr
  · intro id' hin
    rcases hall _ hin with h | hin
    · cases h
    · obtain ⟨-, _, _, heq, hr, -⟩ := hmem _ hin
      cases heq
      rcases hr with h | h <;> cases h

/-- A range read ends: with a batch of what was scanned since it began, or with a failure. -/
theorem endRead_steps (hw : Published A w) {id : ℕ} {response : Response M}
    (hread : ∃ read ∈ w.reads, read.requestId = id ∧ (response = .failure ∨
      ∃ scanned, read.start ≤ scanned ∧ response =
        .batch (A.revision (A.metadata scanned)) (A.schemaVersion (A.metadata scanned)))) :
    Steps A asked w { w with reads := w.reads.filter fun read => read.requestId ≠ id }
      [.response id response] := by
  obtain ⟨read, hin, hid, hresponse⟩ := hread
  refine steps_respond ⟨hw.le_scanned, hw.final, hw.open_of_tables⟩ ⟨rfl, rfl, rfl⟩ (fun h => h)
    (fun _ hread => List.mem_of_mem_filter hread) (.inr ⟨read, hin, hid⟩) ?_ ?_ ?_
  · rintro metadata rfl
    rcases hresponse with h | ⟨_, _, h⟩ <;> cases h
  · rintro revision schemaVersion rfl
    rcases hresponse with h | ⟨scanned, hle, h⟩
    · cases h
    · cases h
      exact ⟨read, hin, hid, A.revision_mono (A.grows hle), A.schemaVersion_mono (A.grows hle)⟩
  · rintro rfl
    rcases hresponse with h | ⟨_, _, h⟩ <;> cases h

omit [PartialOrder M] in
theorem requireTable_ne_none {handle : ℕ} (h : w.requireTable handle ≠ none) :
    w.closed = false ∧ w.tables ≠ [] := by
  unfold requireTable at h
  split_ifs at h with hclosed
  · exact absurd rfl h
  · refine ⟨by simpa using hclosed, fun hnil => ?_⟩
    rw [hnil] at h
    exact h rfl

/-- A request is handled. Tables are asked for only after events have started. -/
theorem handleRequest_steps (hw : Published A w) (id : ℕ) (request : Request)
    (hready : request = .openTable → w.closed = true ∨ w.eventsReady = true) :
    Steps A (some (id, request)) w (w.handleRequest A (id, request)).1
      (w.handleRequest A (id, request)).2 := by
  cases request with
  | listTables =>
    unfold handleRequest
    dsimp only
    split_ifs with hclosed
    · exact steps_answer hw rfl (.inl rfl)
    · exact steps_respond ⟨hw.le_scanned, hw.final, fun h => ⟨(hw.open_of_tables h).1, rfl⟩⟩
        ⟨rfl, rfl, rfl⟩ (fun _ => rfl) (fun _ h => h) (.inl ⟨_, rfl⟩) (by simp) (by simp)
        fun _ => rfl
  | openTable =>
    unfold handleRequest
    dsimp only
    split_ifs with hfails
    · exact steps_answer hw rfl (.inl rfl)
    · have hopen : w.closed = false ∧ A.completes id = true := by simpa using hfails
      have hclosed := hopen.1
      have hevents : w.eventsReady = true := (hready rfl).resolve_left (by simp [hclosed])
      exact steps_respond ⟨hw.le_scanned, hw.final, fun _ => ⟨hclosed, hevents⟩⟩ ⟨rfl, rfl, rfl⟩
        (fun h => h) (fun _ h => h) (.inl ⟨_, rfl⟩) (by simp) (by simp) (by simp)
  | getMetadata handle =>
    unfold handleRequest
    dsimp only
    split_ifs with hfails
    · exact steps_answer hw rfl (.inl rfl)
    · have hopen : w.requireTable handle ≠ none ∧ A.completes id = true := by simpa using hfails
      obtain ⟨hclosed, htables⟩ := requireTable_ne_none hopen.1
      have hevents := (hw.open_of_tables htables).2
      exact steps_respond ⟨hw.le_scanned, hw.final, fun _ => ⟨hclosed, hevents⟩⟩ ⟨rfl, rfl, rfl⟩
        (fun h => h) (fun _ h => h) (.inl ⟨_, rfl⟩) (fun metadata heq => by
          cases heq
          exact ⟨hclosed, hevents, hw.le_scanned, le_rfl⟩) (by simp) (by simp)
  | readRange handle =>
    unfold handleRequest
    dsimp only
    split_ifs with hfails
    · exact steps_answer hw rfl (.inl rfl)
    · refine ⟨le_rfl, ⟨hw.le_scanned, hw.final, hw.open_of_tables⟩, fun _ _ view h => ?_, by simp,
        ?_, by simp, by simp, fun h => h, fun h => h, by simp⟩
      · refine leads_nil ?_
        cases view <;> exact h
      · intro read hread
        rcases List.mem_append.1 hread with hread | hread
        · exact .inl hread
        · rw [List.mem_singleton.1 hread]
          exact .inr ⟨rfl, rfl⟩
  | closeTable handle =>
    unfold handleRequest
    dsimp only
    split_ifs with hnone
    · exact steps_answer hw rfl (.inr rfl)
    · exact closeTableState_steps hw rfl
  | closeSource =>
    unfold handleRequest
    dsimp only
    split_ifs with hclosed
    · exact steps_answer hw rfl (.inr rfl)
    · exact closeDatasetState_steps hw (.inl rfl) (.inr ⟨_, _, rfl, rfl⟩)

variable [DecidableEq M]

/-- A step of the scan is published: whoever sees a table sees the new metadata. -/
theorem applyProgressiveOpenStep_steps (hw : Published A w) (done : Bool) :
    Steps A asked w (w.applyProgressiveOpenStep A done).1
    (w.applyProgressiveOpenStep A done).2 := by
  have hnext : Published A { w with metadata := A.metadata w.scanned, scanDone := done } :=
    ⟨le_rfl, fun _ => rfl, hw.open_of_tables⟩
  unfold applyProgressiveOpenStep
  dsimp only
  split_ifs with hemit
  · refine ⟨le_rfl, ⟨le_rfl, fun _ => rfl, ?_⟩, ?_, ?_, fun _ h => .inl h, ?_, ?_, fun h => h,
      fun h => h, ?_⟩
    · intro h
      refine hw.open_of_tables fun hnil => h ?_
      simp [emitMetadataUpdate, hnil]
    · intro id table view h
      match view with
      | .gone => exact leads_gone _
      | .waiting =>
        exact leads_waiting fun response hin => by simp [emitMetadataUpdate] at hin
      | .shown metadata =>
        obtain ⟨h₁, h₂, h₃, h₄⟩ := h
        refine leads_cons ?_ ?_
        · rintro old new hold hnew
          cases hold
          cases hnew
          exact h₄
        · have := @leads_metadata M _ A id table
            (emitMetadataUpdate { w with metadata := A.metadata w.scanned, scanDone := done }).1
            (A.metadata w.scanned) (w.tables.map OpenTableState.handle)
            ⟨h₁, h₂, le_rfl, le_rfl⟩
          rwa [List.map_map] at this
    · intro message hin metadata hpayload
      rcases List.mem_cons.1 hin with rfl | hin
      · cases hpayload
        exact le_rfl
      · obtain ⟨table, -, rfl⟩ := List.mem_map.1 hin
        cases hpayload
        exact le_rfl
    · intro id revision schemaVersion hin
      simp [emitMetadataUpdate] at hin
    · intro id response hin
      simp [emitMetadataUpdate] at hin
    · intro id hin
      simp [emitMetadataUpdate] at hin
  · refine ⟨le_rfl, hnext, ?_, by simp, fun _ h => .inl h, by simp, by simp, fun h => h,
      fun h => h, by simp⟩
    intro id table view h
    refine leads_nil ?_
    match view with
    | .gone => trivial
    | .waiting => trivial
    | .shown metadata =>
      -- Nothing is emitted because nothing changed: what is shown is level with both.
      obtain ⟨h₁, h₂, h₃, h₄⟩ := h
      have hsame : A.metadata w.scanned = w.metadata := by
        by_contra hne
        exact hemit ⟨h₂, hne⟩
      exact ⟨h₁, h₂, by rw [hsame]; exact h₃, h₄⟩

/-- Everything that happens in the Worker by itself. -/
theorem act_steps (hw : Published A w) (act : Act) :
    Steps A none w (w.act A act).1 (w.act A act).2 := by
  cases act with
  | scan =>
    unfold Worker.act
    split_ifs with hidle
    · exact steps_refl hw
    · exact scan_steps hw (by simpa using (Bool.or_eq_false_iff.1 (by simpa using hidle)).2)
  | publish done =>
    unfold Worker.act
    split_ifs with hidle
    · exact steps_refl hw
    · exact applyProgressiveOpenStep_steps hw done
  | scanFailed =>
    unfold Worker.act
    split_ifs with hidle
    · exact steps_refl hw
    · have := @closeDatasetState_steps M _ A w none hw [.event .runtimeError] [] (.inr rfl)
        (.inl rfl)
      rwa [List.append_nil] at this
  | finishRead id scanned =>
    unfold Worker.act
    dsimp only
    cases hfind : w.reads.find? fun read => read.requestId = id with
    | none => exact steps_refl hw
    | some read =>
      have hid : read.requestId = id := by simpa using List.find?_some hfind
      dsimp only
      split_ifs with hle
      · exact endRead_steps hw ⟨read, List.mem_of_find?_eq_some hfind, hid,
          .inr ⟨scanned, hle.1, rfl⟩⟩
      · exact steps_refl hw
  | failRead id =>
    unfold Worker.act
    dsimp only
    cases hfind : w.reads.find? fun read => read.requestId = id with
    | none => exact steps_refl hw
    | some read =>
      have hid : read.requestId = id := by simpa using List.find?_some hfind
      exact endRead_steps hw ⟨read, List.mem_of_find?_eq_some hfind, hid, .inl rfl⟩

end Worker

/-! ## The invariant -/

/-- A call of an open that has not returned a session. -/
def Call.Starts : Call → Prop
  | .openSource => True
  | .listTables => True
  | _ => False

/-- The main thread, the Worker and the channels between them. -/
structure Consistent (A : ScanAdapter M) (s : State M) : Prop where
  published : Published A s.right
  handles : ∀ handle ∈ s.left.handles, handle.closed = false → s.left.phase = .opened ∧
    ∃ id, Leads A id handle.table s.right (.shown handle.metadata) s.toLeft
  awaited : s.left.phase = .opened → ∀ id table, (id, .getMetadata table) ∈ s.left.rpc.pending →
    Leads A id table s.right .waiting s.toLeft
  opening : s.left.phase = .opening → ∀ call ∈ s.left.rpc.pending, call.2.Starts ∧
    ∀ call' ∈ s.left.rpc.pending, call' = call
  started : ∀ call ∈ s.left.rpc.pending, call.2.Starts → s.left.phase = .opening
  ready : (s.right.closed = true ∨ s.right.eventsReady = true) ∨ s.left.phase ≠ .opened ∧
    (∀ request ∈ s.toRight, request.2 ≠ .openTable) ∧ ∀ id, .response id .tables ∉ s.toLeft
  shown : ∀ handle ∈ s.left.handles, handle.metadata ≤ A.metadata s.right.scanned
  payload : ∀ message ∈ s.toLeft, ∀ metadata, message.payload = some metadata →
    metadata ≤ A.metadata s.right.scanned
  captured : ∀ id revision schemaVersion,
    (id, .readRange revision schemaVersion) ∈ s.left.rpc.pending →
      (revision ≤ A.revision (A.metadata s.right.scanned) ∧
        schemaVersion ≤ A.schemaVersion (A.metadata s.right.scanned)) ∧
      (∀ read ∈ s.right.reads, read.requestId = id →
        revision ≤ A.revision (A.metadata read.start) ∧
          schemaVersion ≤ A.schemaVersion (A.metadata read.start)) ∧
      ∀ revision' schemaVersion', .response id (.batch revision' schemaVersion') ∈ s.toLeft →
        revision ≤ revision' ∧ schemaVersion ≤ schemaVersion'
  requested : ∀ request ∈ s.toRight, request.1 < s.left.rpc.nextRequestId
  responded : ∀ id response, .response id response ∈ s.toLeft → id < s.left.rpc.nextRequestId
  reading : ∀ read ∈ s.right.reads, read.requestId < s.left.rpc.nextRequestId
  fresh : s.left.stale = false

namespace Consistent

variable {s : State M}

/-- The Worker takes a step, on a request or none. -/
theorem rightTo (h : Consistent A s) {asked : Option (ℕ × Request)}
    {next : Worker M × List (Message M)}
    (hasked : ∀ request, asked = some request → request.1 < s.left.rpc.nextRequestId)
    (hsteps : Worker.Steps A asked s.right next.1 next.2) : Consistent A (s.rightTo next) where
  published := hsteps.published
  handles := by
    intro handle hin hopen
    obtain ⟨hphase, id, hleads⟩ := h.handles handle hin hopen
    exact ⟨hphase, id, hleads.append fun view => hsteps.leads id handle.table view⟩
  awaited := by
    intro hphase id table hin
    exact (h.awaited hphase id table hin).append fun view => hsteps.leads id table view
  opening := h.opening
  started := h.started
  ready := by
    rcases h.ready with hready | ⟨hphase, hrequests, hresponses⟩
    · exact .inl (hready.imp hsteps.closed hsteps.eventsReady)
    · by_cases hready : next.1.eventsReady = true
      · exact .inl (.inr hready)
      · refine .inr ⟨hphase, hrequests, fun id hin => ?_⟩
        rcases List.mem_append.1 hin with hin | hin
        · exact hresponses id hin
        · exact hready (hsteps.tables id hin)
  shown := fun handle hin => (h.shown handle hin).trans (A.grows hsteps.scanned)
  payload := by
    intro message hin metadata hpayload
    rcases List.mem_append.1 hin with hin | hin
    · exact (h.payload message hin metadata hpayload).trans (A.grows hsteps.scanned)
    · exact hsteps.payload message hin metadata hpayload
  captured := by
    intro id revision schemaVersion hin
    obtain ⟨⟨hr, hs⟩, hreads, hbatches⟩ := h.captured id revision schemaVersion hin
    refine ⟨⟨hr.trans (A.revision_mono (A.grows hsteps.scanned)),
      hs.trans (A.schemaVersion_mono (A.grows hsteps.scanned))⟩, ?_, ?_⟩
    · intro read hread hid
      rcases hsteps.reads read hread with hread | ⟨hstart, -⟩
      · exact hreads read hread hid
      · rw [hstart]
        exact ⟨hr, hs⟩
    · intro revision' schemaVersion' hbatch
      rcases List.mem_append.1 hbatch with hbatch | hbatch
      · exact hbatches _ _ hbatch
      · obtain ⟨read, hread, hid, hr', hs'⟩ := hsteps.batches _ _ _ hbatch
        exact ⟨(hreads read hread hid).1.trans hr', (hreads read hread hid).2.trans hs'⟩
  requested := h.requested
  responded := by
    intro id response hin
    rcases List.mem_append.1 hin with hin | hin
    · exact h.responded id response hin
    · rcases hsteps.responses id response hin with ⟨request, hrequest⟩ | ⟨read, hread, rfl⟩
      · exact hasked _ hrequest
      · exact h.reading read hread
  reading := by
    intro read hread
    rcases hsteps.reads read hread with hread | ⟨-, hrequest⟩
    · exact h.reading read hread
    · exact hasked _ hrequest
  fresh := h.fresh

/-- The main thread sends a request. -/
theorem request (h : Consistent A s) {call : Call} {request : Request}
    (hopening : s.left.phase = .opening ∧ call.Starts ∧ s.left.rpc.pending = [] ∨
      s.left.phase ≠ .opening ∧ ¬call.Starts)
    (hopen : request = .openTable → s.left.phase = .opened)
    (hread : ∀ revision schemaVersion, call = .readRange revision schemaVersion →
      revision ≤ A.revision (A.metadata s.right.scanned) ∧
        schemaVersion ≤ A.schemaVersion (A.metadata s.right.scanned)) :
    Consistent A (s.leftTo (s.left.request call request)) where
  published := h.published
  handles := h.handles
  awaited := by
    intro hphase id table hin
    rcases WorkerRpcClient.mem_request.1 hin with hin | heq
    · exact h.awaited hphase id table hin
    · refine leads_waiting fun response hin => ?_
      obtain ⟨rfl, -⟩ := Prod.mk.inj heq
      exact lt_irrefl _ (h.responded _ _ hin)
  opening := by
    intro hphase call' hin
    rcases hopening with ⟨-, hstarts, hnil⟩ | ⟨hne, -⟩
    · have hmem : ∀ call' ∈ (s.left.rpc.request call).pending,
          call' = (s.left.rpc.nextRequestId, call) := by
        intro call' hin
        simpa [hnil] using WorkerRpcClient.mem_request.1 hin
      rw [hmem call' hin]
      exact ⟨hstarts, hmem⟩
    · exact absurd hphase hne
  started := by
    intro call' hin hstarts
    rcases WorkerRpcClient.mem_request.1 hin with hin | rfl
    · exact h.started call' hin hstarts
    · rcases hopening with ⟨hphase, -⟩ | ⟨-, hnot⟩
      · exact hphase
      · exact absurd hstarts hnot
  ready := by
    rcases h.ready with hready | ⟨hphase, hrequests, hresponses⟩
    · exact .inl hready
    · refine .inr ⟨hphase, fun request' hin => ?_, hresponses⟩
      rcases List.mem_append.1 hin with hin | hin
      · exact hrequests request' hin
      · rw [List.mem_singleton.1 hin]
        exact fun heq => hphase (hopen heq)
  shown := h.shown
  payload := h.payload
  captured := by
    intro id revision schemaVersion hin
    rcases WorkerRpcClient.mem_request.1 hin with hin | heq
    · exact h.captured id revision schemaVersion hin
    · obtain ⟨rfl, rfl⟩ := Prod.mk.inj heq
      refine ⟨hread _ _ rfl, fun read hread hid => ?_, fun _ _ hin => ?_⟩
      · exact absurd (h.reading read hread) (by rw [hid]; exact lt_irrefl _)
      · exact absurd (h.responded _ _ hin) (lt_irrefl _)
  requested := by
    intro request' hin
    rcases List.mem_append.1 hin with hin | hin
    · exact (h.requested request' hin).trans (Nat.lt_succ_self _)
    · rw [List.mem_singleton.1 hin]
      exact Nat.lt_succ_self _
  responded := fun id response hin => (h.responded id response hin).trans (Nat.lt_succ_self _)
  reading := fun read hin => (h.reading read hin).trans (Nat.lt_succ_self _)
  fresh := h.fresh

/-- The main thread changes so that no table is seen that was not, and nothing new is awaited. -/
theorem left (h : Consistent A s) {c : Host M}
    (hhandles : ∀ handle ∈ c.handles, ∃ handle' ∈ s.left.handles, handle'.table = handle.table ∧
      handle'.metadata = handle.metadata ∧
        (handle.closed = false → handle'.closed = false ∧ c.phase = s.left.phase))
    (hphase : c.phase = s.left.phase ∨
      c.phase = .closed ∧ ∀ call ∈ c.rpc.pending, ¬call.2.Starts)
    (hpending : ∀ call ∈ c.rpc.pending, call ∈ s.left.rpc.pending)
    (hnext : c.rpc.nextRequestId = s.left.rpc.nextRequestId) (hstale : c.stale = s.left.stale) :
    Consistent A { s with left := c } where
  published := h.published
  handles := by
    intro handle hin hopen
    obtain ⟨handle', hin', htable, hmetadata, hclosed⟩ := hhandles handle hin
    obtain ⟨hopen', hsame⟩ := hclosed hopen
    have hold := h.handles handle' hin' hopen'
    rw [htable, hmetadata] at hold
    exact ⟨hsame.trans hold.1, hold.2⟩
  awaited := by
    intro hopened id table hin
    rcases hphase with hsame | ⟨hclosed, -⟩
    · exact h.awaited (hsame ▸ hopened) id table (hpending _ hin)
    · rw [hclosed] at hopened
      cases hopened
  opening := by
    intro hopening call hin
    rcases hphase with hsame | ⟨hclosed, -⟩
    · obtain ⟨hstarts, hsame'⟩ := h.opening (hsame ▸ hopening) call (hpending _ hin)
      exact ⟨hstarts, fun call' hin' => hsame' call' (hpending _ hin')⟩
    · rw [hclosed] at hopening
      cases hopening
  started := by
    intro call hin hstarts
    rcases hphase with hsame | ⟨-, hnone⟩
    · exact hsame.trans (h.started call (hpending _ hin) hstarts)
    · exact absurd hstarts (hnone call hin)
  ready := by
    rcases h.ready with hready | ⟨hnot, hrest⟩
    · exact .inl hready
    · refine .inr ⟨?_, hrest⟩
      rcases hphase with hsame | ⟨hclosed, -⟩
      · exact hsame ▸ hnot
      · rw [hclosed]
        exact fun h => by cases h
  shown := by
    intro handle hin
    obtain ⟨handle', hin', -, hmetadata, -⟩ := hhandles handle hin
    exact hmetadata ▸ h.shown handle' hin'
  payload := h.payload
  captured := fun id revision schemaVersion hin =>
    h.captured id revision schemaVersion (hpending _ hin)
  requested := hnext ▸ h.requested
  responded := hnext ▸ h.responded
  reading := hnext ▸ h.reading
  fresh := hstale ▸ h.fresh

/-- The dataset is closed for the main thread, that is in no open. -/
theorem closeLocally (h : Consistent A s) (hnone : ∀ call ∈ s.left.rpc.pending, ¬call.2.Starts) :
    Consistent A { s with left := s.left.closeLocally } := by
  refine h.left ?_ (.inr ⟨rfl, hnone⟩) (fun _ hin => hin) rfl rfl
  intro handle hin
  obtain ⟨handle', hin', rfl⟩ := List.mem_map.1 hin
  exact ⟨handle', hin', rfl, rfl, fun h => by cases h⟩

/-- The Worker is terminated. -/
theorem terminate (h : Consistent A s) : Consistent A { s with left := s.left.terminate } := by
  have hnone : s.left.terminate.rpc.pending = [] := WorkerRpcClient.pending_stop s.left.rpc
  refine h.left ?_ (.inr ⟨rfl, ?_⟩) ?_ rfl rfl
  · intro handle hin
    obtain ⟨handle', hin', rfl⟩ := List.mem_map.1 hin
    exact ⟨handle', hin', rfl, rfl, fun h => by cases h⟩
  · rw [hnone]
    simp
  · rw [hnone]
    simp

/-- One handle closes. -/
theorem closeHandle (h : Consistent A s) (table : ℕ) :
    Consistent A { s with left := s.left.closeHandle table } := by
  refine h.left ?_ (.inl rfl) (fun _ hin => hin) rfl rfl
  intro handle hin
  obtain ⟨handle', hin', rfl⟩ := List.mem_map.1 hin
  refine ⟨handle', hin', ?_, ?_, ?_⟩
  · split_ifs <;> rfl
  · split_ifs <;> rfl
  · split_ifs
    · exact fun h => by cases h
    · exact fun h => ⟨h, rfl⟩

/-- A response is taken, and its call is pending no more. -/
theorem takeResponse (h : Consistent A s) {id : ℕ} {response : Response M}
    (hto : s.toLeft = .response id response :: rest) :
    Consistent A
      { s with toLeft := rest, left := { s.left with rpc := s.left.rpc.delete id } } where
  published := h.published
  handles := by
    intro handle hin hopen
    obtain ⟨hphase, id', hleads⟩ := h.handles handle hin hopen
    rw [hto] at hleads
    exact ⟨hphase, id', hleads.tail.2⟩
  awaited := by
    intro hphase id' table hin
    obtain ⟨hin, hne⟩ := WorkerRpcClient.mem_delete.1 hin
    have hleads := h.awaited hphase id' table hin
    rw [hto] at hleads
    have htail := hleads.tail.2
    have hid : id ≠ id' := fun heq => hne heq.symm
    simpa only [see, if_neg hid] using htail
  opening := by
    intro hphase call hin
    obtain ⟨hstarts, hsame⟩ := h.opening hphase call (WorkerRpcClient.mem_delete.1 hin).1
    exact ⟨hstarts, fun call' hin' => hsame call' (WorkerRpcClient.mem_delete.1 hin').1⟩
  started := fun call hin => h.started call (WorkerRpcClient.mem_delete.1 hin).1
  ready := by
    refine h.ready.imp_right fun ⟨hphase, hrequests, hresponses⟩ => ⟨hphase, hrequests, ?_⟩
    exact fun id hin => hresponses id (by rw [hto]; exact List.mem_cons_of_mem _ hin)
  shown := h.shown
  payload := fun message hin => h.payload message (by rw [hto]; exact List.mem_cons_of_mem _ hin)
  captured := by
    intro id' revision schemaVersion hin
    obtain ⟨hcurrent, hreads, hbatches⟩ :=
      h.captured id' revision schemaVersion (WorkerRpcClient.mem_delete.1 hin).1
    exact ⟨hcurrent, hreads, fun r v hbatch =>
      hbatches r v (by rw [hto]; exact List.mem_cons_of_mem _ hbatch)⟩
  requested := h.requested
  responded := fun id response hin =>
    h.responded id response (by rw [hto]; exact List.mem_cons_of_mem _ hin)
  reading := h.reading
  fresh := h.fresh

variable {event : Event M}

omit [PartialOrder M] in
/-- What the session makes of an event, for one handle: it shows what `see` says. -/
theorem handles_handleEvent {c : Host M} (hopened : c.phase = .opened)
    {handle : TableHandle M} (hin : handle ∈ (c.handleEvent event).handles)
    (hopen : handle.closed = false) : ∃ old ∈ c.handles, old.closed = false ∧
      old.table = handle.table ∧
      (∀ id, see id old.table (.shown old.metadata) (.event event) = .shown handle.metadata) ∧
      (c.handleEvent event).phase = .opened := by
  unfold Host.handleEvent at hin ⊢
  rw [hopened] at hin ⊢
  match event with
  | .metadata none metadata =>
    obtain ⟨old, hold, rfl⟩ := List.mem_map.1 hin
    by_cases hclosed : old.closed = true
    · simp [hclosed] at hopen
    · refine ⟨old, hold, by simpa using hclosed, ?_, ?_, hopened⟩
      · split_ifs <;> rfl
      · simp [see, hclosed]
  | .metadata (some table) metadata =>
    obtain ⟨old, hold, rfl⟩ := List.mem_map.1 hin
    by_cases hclosed : old.closed = true
    · simp [hclosed] at hopen
    · refine ⟨old, hold, by simpa using hclosed, ?_, ?_, hopened⟩
      · split_ifs <;> rfl
      · by_cases htable : table = old.table
        · simp [see, hclosed, htable]
        · have hne : ¬old.table = table := fun h => htable h.symm
          simp [see, htable, hne]
  | .closed (some table) =>
    obtain ⟨old, hold, rfl⟩ := List.mem_map.1 hin
    by_cases htable : old.table = table
    · simp [htable] at hopen
    · have hne : ¬table = old.table := fun h => htable h.symm
      rw [if_neg htable] at hopen ⊢
      exact ⟨old, hold, hopen, rfl, by simp [see, hne], hopened⟩
  | .closed none =>
    obtain ⟨old, hold, rfl⟩ := List.mem_map.1 hin
    cases hopen
  | .runtimeError =>
    obtain ⟨old, hold, rfl⟩ := List.mem_map.1 hin
    cases hopen

omit [PartialOrder M] in
/-- A handle shows what it showed, or what an event carries. -/
theorem metadata_handleEvent {c : Host M} {handle : TableHandle M}
    (hin : handle ∈ (c.handleEvent event).handles) : ∃ old ∈ c.handles,
      old.metadata = handle.metadata ∨ (Message.event event).payload = some handle.metadata := by
  have hmap : ∀ f : TableHandle M → TableHandle M,
      (∀ old, (f old).metadata = old.metadata ∨
        (Message.event event).payload = some (f old).metadata) →
      handle ∈ c.handles.map f → ∃ old ∈ c.handles,
        old.metadata = handle.metadata ∨ (Message.event event).payload = some handle.metadata := by
    intro f hf hin
    obtain ⟨old, hold, rfl⟩ := List.mem_map.1 hin
    exact ⟨old, hold, (hf old).imp_left Eq.symm⟩
  unfold Host.handleEvent at hin
  split at hin
  · refine hmap _ (fun old => ?_) hin
    split_ifs
    · exact .inr rfl
    · exact .inl rfl
  · refine hmap _ (fun old => ?_) hin
    split_ifs
    · exact .inr rfl
    · exact .inl rfl
  · refine hmap _ (fun old => ?_) hin
    split_ifs <;> exact .inl rfl
  · exact hmap (fun old => { old with closed := true }) (fun old => .inl rfl) hin
  · exact hmap (fun old => { old with closed := true }) (fun old => .inl rfl) hin
  · exact ⟨handle, hin, .inl rfl⟩
  · exact ⟨handle, hin, .inl rfl⟩
  · exact ⟨handle, hin, .inl rfl⟩

omit [PartialOrder M] in
@[simp] theorem rpc_handleEvent (c : Host M) (event : Event M) :
    (c.handleEvent event).rpc = c.rpc := by
  unfold Host.handleEvent
  split <;> rfl

omit [PartialOrder M] in
@[simp] theorem stale_handleEvent (c : Host M) (event : Event M) :
    (c.handleEvent event).stale = c.stale := by
  unfold Host.handleEvent
  split <;> rfl

omit [PartialOrder M] in
/-- The session stays open only if the event does not end what is waited for. -/
theorem phase_handleEvent (c : Host M) (event : Event M) :
    (c.handleEvent event).phase = c.phase ∨
      c.phase = .opened ∧ (c.handleEvent event).phase = .closed := by
  unfold Host.handleEvent
  split
  case h_4 h => exact .inr ⟨h, rfl⟩
  case h_5 h => exact .inr ⟨h, rfl⟩
  all_goals exact .inl rfl

omit [PartialOrder M] in
theorem see_waiting_of_opened {c : Host M}
    (h : (c.handleEvent event).phase = .opened) (id table : ℕ) :
    c.phase = .opened ∧ see id table .waiting (.event event) = .waiting := by
  have hopened : c.phase = .opened := by
    rcases phase_handleEvent c event with heq | ⟨heq, -⟩
    · exact heq ▸ h
    · exact heq
  refine ⟨hopened, ?_⟩
  unfold Host.handleEvent at h
  rw [hopened] at h
  match event with
  | .metadata _ _ => rfl
  | .closed (some _) => rfl
  | .closed none => cases h
  | .runtimeError => cases h

/-- An event is taken. -/
theorem takeEvent (h : Consistent A s) (hto : s.toLeft = .event event :: rest) :
    Consistent A { s with toLeft := rest, left := s.left.handleEvent event } where
  published := h.published
  handles := by
    intro handle hin hopen
    have hopened : s.left.phase = .opened := by
      by_contra hne
      have hsame : (s.left.handleEvent event).handles = s.left.handles := by
        unfold Host.handleEvent
        split <;> simp_all
      exact hne (h.handles handle (hsame ▸ hin) hopen).1
    obtain ⟨old, hold, hopen', htable, hsee, hphase⟩ := handles_handleEvent hopened hin hopen
    obtain ⟨-, id, hleads⟩ := h.handles old hold hopen'
    refine ⟨hphase, id, ?_⟩
    rw [hto] at hleads
    have htail := hleads.tail.2
    rwa [hsee id, htable] at htail
  awaited := by
    intro hphase id table hin
    obtain ⟨hopened, hsee⟩ := see_waiting_of_opened hphase id table
    have hleads := h.awaited hopened id table (rpc_handleEvent s.left event ▸ hin)
    rw [hto] at hleads
    exact hsee ▸ hleads.tail.2
  opening := by
    intro hphase call hin
    rcases phase_handleEvent s.left event with heq | ⟨-, heq⟩
    · rw [rpc_handleEvent] at hin ⊢
      exact h.opening (heq ▸ hphase) call hin
    · cases heq.symm.trans hphase
  started := by
    intro call hin hstarts
    rw [rpc_handleEvent] at hin
    have hphase := h.started call hin hstarts
    rcases phase_handleEvent s.left event with heq | ⟨heq, -⟩
    · exact heq.trans hphase
    · cases heq.symm.trans hphase
  ready := by
    refine h.ready.imp_right fun ⟨hphase, hrequests, hresponses⟩ => ⟨?_, hrequests, ?_⟩
    · rcases phase_handleEvent s.left event with heq | ⟨heq, -⟩
      · exact heq ▸ hphase
      · exact absurd heq hphase
    · exact fun id hin => hresponses id (by rw [hto]; exact List.mem_cons_of_mem _ hin)
  shown := by
    intro handle hin
    obtain ⟨old, hold, heq | hpayload⟩ := metadata_handleEvent hin
    · exact heq ▸ h.shown old hold
    · exact h.payload _ (by rw [hto]; exact List.mem_cons_self) _ hpayload
  payload := fun message hin => h.payload message (by rw [hto]; exact List.mem_cons_of_mem _ hin)
  captured := by
    intro id revision schemaVersion hin
    obtain ⟨hcurrent, hreads, hbatches⟩ :=
      h.captured id revision schemaVersion (rpc_handleEvent s.left event ▸ hin)
    exact ⟨hcurrent, hreads, fun r v hbatch =>
      hbatches r v (by rw [hto]; exact List.mem_cons_of_mem _ hbatch)⟩
  requested := by
    rw [rpc_handleEvent]
    exact h.requested
  responded := by
    rw [rpc_handleEvent]
    exact fun id response hin =>
      h.responded id response (by rw [hto]; exact List.mem_cons_of_mem _ hin)
  reading := by
    rw [rpc_handleEvent]
    exact h.reading
  fresh := by
    rw [stale_handleEvent]
    exact h.fresh

/-- Nothing else is pending while a response to a call of an open is taken. -/
theorem starts_alone (h : Consistent A s) {id : ℕ} {call : Call}
    (hcall : (id, call) ∈ s.left.rpc.pending) (hstarts : call.Starts) :
    s.left.phase = .opening ∧ (s.left.rpc.delete id).pending = [] := by
  have hphase := h.started _ hcall hstarts
  refine ⟨hphase, List.eq_nil_iff_forall_not_mem.2 fun call' hin => ?_⟩
  obtain ⟨hin, hne⟩ := WorkerRpcClient.mem_delete.1 hin
  exact hne (congrArg Prod.fst ((h.opening hphase _ hcall).2 call' hin))

/-- The tables are listed: there is a session. -/
theorem opened (h : Consistent A s) (hnil : s.left.rpc.pending = [])
    (hready : s.right.closed = true ∨ s.right.eventsReady = true) :
    Consistent A { s with left := { s.left with phase := .opened } } where
  published := h.published
  handles := fun handle hin hopen => ⟨rfl, (h.handles handle hin hopen).2⟩
  awaited := by
    intro _ id table hin
    rw [show s.left.rpc.pending = [] from hnil] at hin
    cases hin
  opening := fun hphase => by cases hphase
  started := by
    intro call hin
    rw [show s.left.rpc.pending = [] from hnil] at hin
    cases hin
  ready := .inl hready
  shown := h.shown
  payload := h.payload
  captured := h.captured
  requested := h.requested
  responded := h.responded
  reading := h.reading
  fresh := h.fresh

/-- A table handle is created, and shows the metadata that was asked for. -/
theorem addHandle (h : Consistent A s) {table : ℕ} {metadata : M} (hopened : s.left.phase = .opened)
    (hleads : ∃ id, Leads A id table s.right (.shown metadata) s.toLeft)
    (hshown : metadata ≤ A.metadata s.right.scanned) :
    Consistent A
      { s with
        left := { s.left with handles := s.left.handles ++ [⟨table, metadata, false⟩] } } where
  published := h.published
  handles := by
    intro handle hin hopen
    rcases List.mem_append.1 hin with hin | hin
    · exact h.handles handle hin hopen
    · rw [List.mem_singleton.1 hin]
      exact ⟨hopened, hleads⟩
  awaited := h.awaited
  opening := h.opening
  started := h.started
  ready := h.ready
  shown := by
    intro handle hin
    rcases List.mem_append.1 hin with hin | hin
    · exact h.shown handle hin
    · rw [List.mem_singleton.1 hin]
      exact hshown
  payload := h.payload
  captured := h.captured
  requested := h.requested
  responded := h.responded
  reading := h.reading
  fresh := h.fresh

/-- A response settles its call. -/
theorem settle (h : Consistent A s) {id : ℕ} {call : Call} {response : Response M}
    (hto : s.toLeft = .response id response :: rest)
    (hcall : (id, call) ∈ s.left.rpc.pending) :
    Consistent A ({ s with toLeft := rest }.leftTo
      ({ s.left with rpc := s.left.rpc.delete id }.settle call response)) := by
  have htaken := h.takeResponse hto
  have hlater : ¬call.Starts → s.left.phase ≠ .opening :=
    fun hnot hphase => hnot (h.opening hphase _ hcall).1
  unfold Host.settle
  split
  · obtain ⟨hphase, hnil⟩ := h.starts_alone hcall trivial
    exact htaken.request (.inl ⟨hphase, trivial, hnil⟩) (fun h => by cases h)
      (fun _ _ h => by cases h)
  · obtain ⟨-, hnil⟩ := h.starts_alone hcall trivial
    rw [Link.leftTo_nil]
    exact htaken.closeLocally (by simp [hnil])
  · obtain ⟨hphase, hnil⟩ := h.starts_alone hcall trivial
    split_ifs with horphaned
    · exact (htaken.closeLocally (by simp [hnil])).request
        (.inr ⟨(fun h => by cases h), not_false⟩)
        (fun h => by cases h) (fun _ _ h => by cases h)
    · rw [Link.leftTo_nil]
      refine htaken.opened hnil ?_
      rcases h.ready with hready | ⟨-, -, hnone⟩
      · exact hready
      · exact absurd (by rw [hto]; exact List.mem_cons_self) (hnone id)
  · obtain ⟨-, hnil⟩ := h.starts_alone hcall trivial
    exact (htaken.closeLocally (by simp [hnil])).request
      (.inr ⟨(fun h => by cases h), not_false⟩)
      (fun h => by cases h) (fun _ _ h => by cases h)
  · exact htaken.request (.inr ⟨hlater not_false, not_false⟩) (fun h => by cases h)
      (fun _ _ h => by cases h)
  · rw [Link.leftTo_nil]
    exact htaken
  · split_ifs with hopened
    · rw [Link.leftTo_nil]
      have hleads := h.awaited hopened id _ hcall
      rw [hto] at hleads
      refine htaken.addHandle hopened ⟨id, ?_⟩
        (h.payload _ (by rw [hto]; exact List.mem_cons_self) _ rfl)
      simpa only [see, if_pos] using hleads.tail.2
    · exact htaken.request (.inr ⟨hlater not_false, not_false⟩) (fun h => by cases h)
        (fun _ _ h => by cases h)
  · exact htaken.request (.inr ⟨hlater not_false, not_false⟩) (fun h => by cases h)
      (fun _ _ h => by cases h)
  · rw [if_neg]
    · rw [Link.leftTo_nil]
      exact htaken
    · -- The batch was read no earlier than the call was made.
      obtain ⟨-, -, hbatches⟩ := h.captured id _ _ hcall
      obtain ⟨hr, hs⟩ := hbatches _ _ (by rw [hto]; exact List.mem_cons_self)
      exact not_or.2 ⟨not_lt.2 hr, not_lt.2 hs⟩
  · rw [Link.leftTo_nil]
    exact htaken
  · rw [Link.leftTo_nil]
    exact htaken
  · rw [Link.leftTo_nil]
    exact htaken.terminate

/-- A caller acts. -/
theorem act (h : Consistent A s) (act : Host.Act) :
    Consistent A (s.leftTo (s.left.act A act)) := by
  have hopen : ∀ handle ∈ s.left.handles, ¬handle.closed = true → s.left.phase = .opened :=
    fun handle hin hne => (h.handles handle hin (by simpa using hne)).1
  have hnot : s.left.phase = .opened → s.left.phase ≠ .opening :=
    fun heq hne => by cases heq.symm.trans hne
  cases act with
  | openTable =>
    unfold Host.act
    dsimp only
    split_ifs with hopened
    · exact h.request (.inr ⟨hnot hopened, not_false⟩) (fun _ => hopened) (fun _ _ h => by cases h)
    · rw [Link.leftTo_nil]
      exact h
  | closeTable index =>
    unfold Host.act
    dsimp only
    cases hget : s.left.handles[index]? with
    | none =>
      dsimp only
      rw [Link.leftTo_nil]
      exact h
    | some handle =>
      have hin := List.mem_of_getElem? hget
      dsimp only
      split_ifs with hclosed
      · rw [Link.leftTo_nil]
        exact h
      · exact (h.closeHandle handle.table).request
          (.inr ⟨hnot (hopen handle hin hclosed), not_false⟩) (fun h => by cases h)
          (fun _ _ h => by cases h)
  | readRange index =>
    unfold Host.act
    dsimp only
    cases hget : s.left.handles[index]? with
    | none =>
      dsimp only
      rw [Link.leftTo_nil]
      exact h
    | some handle =>
      have hin := List.mem_of_getElem? hget
      dsimp only
      split_ifs with hclosed
      · rw [Link.leftTo_nil]
        exact h
      · refine h.request (.inr ⟨hnot (hopen handle hin hclosed), not_false⟩)
          (fun h => by cases h) ?_
        rintro revision schemaVersion heq
        cases heq
        exact ⟨A.revision_mono (h.shown handle hin), A.schemaVersion_mono (h.shown handle hin)⟩
  | closeSession =>
    unfold Host.act
    dsimp only
    split_ifs with hopened
    · refine (h.closeLocally fun call hin hstarts => ?_).request
        (.inr ⟨(fun h => by cases h), not_false⟩) (fun h => by cases h) (fun _ _ h => by cases h)
      exact hnot hopened (h.started call hin hstarts)
    · rw [Link.leftTo_nil]
      exact h

/-- The main thread takes a message. -/
theorem handleMessage (h : Consistent A s) (hto : s.toLeft = message :: rest) :
    Consistent A ({ s with toLeft := rest }.leftTo (s.left.handleMessage message)) := by
  match message with
  | .event event =>
    unfold Host.handleMessage
    dsimp only
    rw [Link.leftTo_nil]
    exact h.takeEvent hto
  | .response id response =>
    unfold Host.handleMessage
    dsimp only
    cases hget : s.left.rpc.get? id with
    | none =>
      have hsame : s.left.rpc.delete id = s.left.rpc := WorkerRpcClient.delete_of_get?_eq_none hget
      dsimp only
      rw [Link.leftTo_nil]
      have htaken := h.takeResponse hto
      rwa [hsame] at htaken
    | some call => exact h.settle hto (WorkerRpcClient.get?_eq_some.1 hget)

/-- The Worker takes a request. -/
theorem handleRequest [DecidableEq M] (h : Consistent A s) {request : ℕ × Request}
    {rest : List (ℕ × Request)} (hto : s.toRight = request :: rest) :
    Consistent A ({ s with toRight := rest }.rightTo (s.right.handleRequest A request)) := by
  have htaken : Consistent A { s with toRight := rest } :=
    { h with
      ready := h.ready.imp_right fun ⟨hphase, hrequests, hresponses⟩ => ⟨hphase,
        fun request hin => hrequests request (by rw [hto]; exact List.mem_cons_of_mem _ hin),
        hresponses⟩
      requested := fun request hin =>
        h.requested request (by rw [hto]; exact List.mem_cons_of_mem _ hin) }
  have hin : request ∈ s.toRight := by rw [hto]; exact List.mem_cons_self
  refine htaken.rightTo (fun request' heq => ?_)
    (Worker.handleRequest_steps h.published request.1 request.2 fun heq => ?_)
  · cases heq
    exact h.requested request hin
  · rcases h.ready with hready | ⟨-, hnone, -⟩
    · exact hready
    · exact absurd heq (hnone request hin)

/-- Every move keeps the invariant. -/
theorem step [DecidableEq M] (s : State M) (move : Move Host.Act Worker.Act) (h : Consistent A s) :
    Consistent A ((parties A).step s move) :=
  Parties.step_keeps (p := parties A) (fun _ act h => h.act act)
    (fun _ act h => h.rightTo (fun _ heq => by cases heq) (Worker.act_steps h.published act))
    (fun _ _ _ hto h => h.handleMessage hto) (fun _ _ _ hto h => h.handleRequest hto) s move h

/-- After `openSource` was answered. -/
theorem start (scanned : ℕ) (done : Bool) : Consistent A (start A scanned done) where
  published := ⟨le_rfl, fun _ => rfl, fun h => absurd rfl h⟩
  handles := fun _ hin => by cases hin
  awaited := fun hphase => by cases hphase
  opening := by
    intro _ call hin
    have hmem : ∀ call ∈ (WorkerRpcClient.initial.request Call.openSource).pending,
        call = (0, .openSource) := by
      intro call hin
      simpa [WorkerRpcClient.initial] using WorkerRpcClient.mem_request.1 hin
    rw [hmem call hin]
    exact ⟨trivial, hmem⟩
  started := fun _ _ _ => rfl
  ready := by
    refine .inr ⟨(fun h => by cases h), (fun _ hin => by cases hin), fun id hin => ?_⟩
    cases List.mem_singleton.1 hin
  shown := fun _ hin => by cases hin
  payload := by
    intro message hin metadata hpayload
    rw [List.mem_singleton.1 hin] at hpayload
    cases hpayload
  captured := by
    intro id revision schemaVersion hin
    simp [Metadata.start, WorkerRpcClient.request, WorkerRpcClient.initial] at hin
  requested := fun _ hin => by cases hin
  responded := by
    intro id response hin
    cases List.mem_singleton.1 hin
    exact Nat.zero_lt_one
  reading := fun _ hin => by cases hin
  fresh := rfl

end Consistent

/-! ## What table handles show -/

/-- A table handle later on: of the same table, with metadata that did not go back. -/
structure TableHandle.Later (old new : TableHandle M) : Prop where
  table : new.table = old.table
  metadata : old.metadata ≤ new.metadata
  closed : old.closed = true → new.closed = true

/-- All table handles are there later on, and perhaps more. -/
def Later (old new : List (TableHandle M)) : Prop :=
  ∀ (index : ℕ) (handle : TableHandle M), old[index]? = some handle →
    ∃ handle', new[index]? = some handle' ∧ handle.Later handle'

theorem later_refl (handles : List (TableHandle M)) : Later handles handles :=
  fun _ handle h => ⟨handle, h, rfl, le_rfl, id⟩

theorem Later.trans {old mid new : List (TableHandle M)} (h : Later old mid) (h' : Later mid new) :
    Later old new := by
  intro index handle hget
  obtain ⟨handle', hget', hlater⟩ := h index handle hget
  obtain ⟨handle'', hget'', hlater'⟩ := h' index handle' hget'
  exact ⟨handle'', hget'', hlater'.table.trans hlater.table,
    hlater.metadata.trans hlater'.metadata, fun hc => hlater'.closed (hlater.closed hc)⟩

theorem later_map {handles : List (TableHandle M)} {f : TableHandle M → TableHandle M}
    (hf : ∀ handle ∈ handles, handle.Later (f handle)) : Later handles (handles.map f) := by
  intro index handle hget
  exact ⟨f handle, by rw [List.getElem?_map, hget, Option.map_some],
    hf handle (List.mem_of_getElem? hget)⟩

theorem later_append (handles more : List (TableHandle M)) : Later handles (handles ++ more) := by
  intro index handle hget
  exact ⟨handle, List.getElem?_append_left (List.getElem?_eq_some_iff.1 hget).1 ▸ hget, rfl, le_rfl,
    id⟩

theorem later_closeLocally (c : Host M) : Later c.handles c.closeLocally.handles :=
  later_map fun _ _ => ⟨rfl, le_rfl, fun _ => rfl⟩

theorem later_closeHandle (c : Host M) (table : ℕ) :
    Later c.handles (c.closeHandle table).handles := by
  refine later_map fun handle _ => ?_
  split_ifs
  · exact ⟨rfl, le_rfl, fun _ => rfl⟩
  · exact ⟨rfl, le_rfl, id⟩

theorem later_act (c : Host M) (act : Host.Act) : Later c.handles (c.act A act).1.handles := by
  cases act with
  | openTable =>
    unfold Host.act
    dsimp only
    split_ifs
    · exact later_refl _
    · exact later_refl _
  | closeTable index =>
    unfold Host.act
    dsimp only
    split
    · split_ifs
      · exact later_refl _
      · exact later_closeHandle c _
    · exact later_refl _
  | readRange index =>
    unfold Host.act
    dsimp only
    split
    · split_ifs
      · exact later_refl _
      · exact later_refl _
    · exact later_refl _
  | closeSession =>
    unfold Host.act
    dsimp only
    split_ifs
    · exact later_closeLocally c
    · exact later_refl _

theorem later_settle (c : Host M) (call : Call) (response : Response M) :
    Later c.handles (c.settle call response).1.handles := by
  unfold Host.settle
  split
  case h_2 => exact later_closeLocally c
  case h_3 =>
    split_ifs
    · exact later_closeLocally c
    · exact later_refl _
  case h_4 => exact later_closeLocally c
  case h_7 =>
    split_ifs
    · exact later_append _ _
    · exact later_refl _
  case h_9 =>
    split_ifs
    · exact later_closeLocally c
    · exact later_refl _
  case h_12 => exact later_closeLocally c
  all_goals exact later_refl _

/-- No event takes back what a handle shows. -/
theorem Consistent.later_handleEvent {s : State M} (h : Consistent A s) {event : Event M}
    (hto : s.toLeft = .event event :: rest) :
    Later s.left.handles (s.left.handleEvent event).handles := by
  have hrises : ∀ handle ∈ s.left.handles, handle.closed = false → ∀ new,
      (∀ id, see id handle.table (.shown handle.metadata) (.event event) = .shown new) →
        handle.metadata ≤ new := by
    intro handle hin hopen new hsee
    obtain ⟨-, id, hleads⟩ := h.handles handle hin hopen
    rw [hto] at hleads
    exact hleads.tail.1 _ _ rfl (hsee id)
  unfold Host.handleEvent
  split
  case h_1 =>
    refine later_map fun handle hin => ?_
    split_ifs with hopen
    · exact ⟨rfl, hrises handle hin (by simpa using hopen) _ fun _ => rfl, id⟩
    · exact ⟨rfl, le_rfl, id⟩
  case h_2 _ _ table _ _ =>
    refine later_map fun handle hin => ?_
    split_ifs with hopen
    · have hopen' : handle.closed = false ∧ handle.table = table := by simpa using hopen
      refine ⟨rfl, hrises handle hin hopen'.1 _ fun _ => ?_, id⟩
      simp only [see, if_pos hopen'.2.symm]
    · exact ⟨rfl, le_rfl, id⟩
  case h_3 => exact later_closeHandle _ _
  case h_4 => exact later_closeLocally _
  case h_5 => exact later_closeLocally _
  all_goals exact later_refl _

variable [DecidableEq M]

/-- No move takes back what a handle shows. -/
theorem Consistent.later_step {s : State M} (h : Consistent A s)
    (move : Move Host.Act Worker.Act) :
    Later s.left.handles ((parties A).step s move).left.handles := by
  cases move with
  | left act => exact later_act s.left act
  | right act => exact later_refl _
  | deliverLeft =>
    unfold Parties.step
    dsimp only
    cases hto : s.toLeft with
    | nil => exact later_refl _
    | cons message rest =>
      match message with
      | .event event => exact h.later_handleEvent hto
      | .response id response =>
        change Later s.left.handles (s.left.handleMessage (.response id response)).1.handles
        unfold Host.handleMessage
        dsimp only
        split
        · exact later_refl s.left.handles
        · exact later_settle { s.left with rpc := s.left.rpc.delete id } _ response
  | deliverRight =>
    unfold Parties.step
    dsimp only
    cases s.toRight with
    | nil => exact later_refl _
    | cons request rest => exact later_refl _

/-- What a table handle shows never goes back. -/
theorem shown_mono {s : State M} (h : Consistent A s) (moves : List (Move Host.Act Worker.Act)) :
    Later s.left.handles (Run.run (parties A).step s moves).left.handles := by
  induction moves generalizing s with
  | nil => exact later_refl _
  | cons move moves ih => exact (h.later_step move).trans (ih (Consistent.step s move h))

/-- After every run, every handle shows no earlier metadata than before it, no batch was rejected
    as stale, and once the scan has finished and no message is on its way, every open handle shows
    the final metadata of the dataset. -/
theorem metadata_converges (A : ScanAdapter M) (scanned : ℕ) (done : Bool)
    (before after : List (Move Host.Act Worker.Act)) :
    let s := Run.run (parties A).step (start A scanned done) before
    let s' := Run.run (parties A).step s after
    (∀ (index : ℕ) (handle : TableHandle M), s.left.handles[index]? = some handle →
      ∃ handle', s'.left.handles[index]? = some handle' ∧ handle'.table = handle.table ∧
        handle.metadata ≤ handle'.metadata ∧
        A.revision handle.metadata ≤ A.revision handle'.metadata) ∧
    (s.right.scanDone = true → s.Quiet → ∀ handle ∈ s.left.handles, handle.closed = false →
      handle.metadata = s.right.metadata) ∧
    s.left.stale = false := by
  have h : Consistent A (Run.run (parties A).step (start A scanned done) before) :=
    Run.invariant (I := Consistent A) Consistent.step (Consistent.start scanned done) before
  refine ⟨fun index handle hget => ?_, fun hdone hquiet handle hin hopen => ?_, h.fresh⟩
  · obtain ⟨handle', hget', hlater⟩ := shown_mono h after index handle hget
    exact ⟨handle', hget', hlater.table, hlater.metadata, A.revision_mono hlater.metadata⟩
  · obtain ⟨-, id, hleads⟩ := h.handles handle hin hopen
    rw [hquiet.2] at hleads
    obtain ⟨-, -, hge, hle⟩ := hleads.2
    exact le_antisymm (hle.trans (h.published.final hdone).ge) hge

/-- A comma separated source in two chunks. -/
def twoChunks : ScanAdapter ScannedTable :=
  csvAdapter (o := .csv) (.reference 44 true) rfl
    [(asciiBytes "a,b\n1,2\n", false), (asciiBytes "3,4\n5,6\n", true)] fun _ => true

/-- Its table is opened after the first chunk. -/
def openingMoves : List (Move Host.Act Worker.Act) :=
  [.deliverLeft, .deliverRight, .deliverLeft, .left .openTable, .deliverRight, .deliverLeft,
    .deliverRight, .deliverLeft]

/-- The second chunk is scanned and published. -/
def scanningMoves : List (Move Host.Act Worker.Act) :=
  [.left (.readRange 0), .right .scan, .deliverRight, .right (.publish true), .deliverLeft,
    .deliverLeft, .right (.finishRead 4 2), .deliverLeft]

/-- One row is shown when the table is opened, and in the end the three rows of the whole source. -/
theorem metadata_converges_twoChunks :
    let s := Run.run (parties twoChunks).step (start twoChunks 1 false) openingMoves
    let s' := Run.run (parties twoChunks).step s scanningMoves
    s.left.handles.map (fun handle => handle.metadata.rows) = [1] ∧
    s'.left.handles.map (fun handle => handle.metadata.rows) = [3] ∧
    (∀ handle ∈ s.left.handles, ∃ handle' ∈ s'.left.handles,
      handle.metadata ≤ handle'.metadata) ∧
    (∀ handle ∈ s'.left.handles, handle.metadata = s'.right.metadata) ∧
    s'.left.stale = false := by
  intro s s'
  have hlater := metadata_converges twoChunks 1 false openingMoves scanningMoves
  have hend := metadata_converges twoChunks 1 false (openingMoves ++ scanningMoves) []
  rw [Run.run_append] at hend
  have hopen : ∀ handle ∈ s'.left.handles, handle.closed = false := by decide +kernel
  have hshown := hend.2.1 (by decide +kernel) ⟨by decide +kernel, by decide +kernel⟩
  refine ⟨by decide +kernel, by decide +kernel, fun handle hin => ?_,
    fun handle hin => hshown handle hin (hopen handle hin), hend.2.2⟩
  obtain ⟨index, hget⟩ := List.mem_iff_getElem?.1 hin
  obtain ⟨handle', hget', -, hle, -⟩ := hlater.1 index handle hget
  exact ⟨handle', List.mem_of_getElem? hget', hle⟩

end Tabulark.Engine.Metadata
