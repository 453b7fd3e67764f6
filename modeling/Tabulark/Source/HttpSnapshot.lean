import Tabulark.Source.HttpReader

/-!
# Reads of one snapshot

A reader without a fallback returns the body of one response to one fetch, whose
headers name the range that was asked for, the length of the source as it was
opened, and its validator (`HttpReader.Faithful`). No request makes more fetches
than configured, and none after one that the transport did not fail
(`Bounded`). What a failed open reserved it has released, and what a fallback
keeps is released by the first close of the reader
(`openHttpReader_faithful`).
-/

namespace Tabulark.Source

open Http

/-! ## Reservations -/

/-- Everything that was reserved since was released once. -/
def World.Released (s s' : World) : Prop :=
  ∃ more, s'.reservations = s.reservations ++ more ∧ ∀ r ∈ more, r.released = 1

instance : OfFramed World.Released where
  refl s := ⟨[], by simp, nofun⟩
  trans := by
    rintro s s' s'' ⟨more, hmore, hreleased⟩ ⟨more', hmore', hreleased'⟩
    refine ⟨more ++ more', by rw [hmore', hmore, List.append_assoc], fun r hr => ?_⟩
    exact (List.mem_append.1 hr).elim (hreleased r) (hreleased' r)
  of_framed h := ⟨[], by simpa using h.reservations, nofun⟩

/-- The host makes a reservation, or throws. -/
inductive Reserves (host : Bool) (kind : ReservationKind) (bytes : ℕ) (s : World) :
    Except Thrown (Option ℕ) × World → Prop
  | thrown {thrown : Thrown} {s' : World} : thrown ≠ .retryableBody → s.Kept s' →
    Reserves host kind bytes s (.error thrown, s')
  | none : host = false → Reserves host kind bytes s (.ok none, s)
  | some {s' : World} : host = true → s'.events = s.events →
    s'.reservations = s.reservations ++ [⟨kind, bytes, 0⟩] →
    Reserves host kind bytes s (.ok (some s.reservations.length), s')

theorem reserves (host : Bool) (kind : ReservationKind) (bytes : ℕ) (s : World) :
    Reserves host kind bytes s ((reserve host kind bytes).exec s) := by
  unfold reserve
  cases host with
  | false => exact .none rfl
  | true =>
    rw [if_pos rfl, Async.exec_bind_ok (Async.exec_get s),
      Async.exec_bind_ok (Async.exec_modify _ s)]
    cases s.grants.headD Option.none with
    | some thrown => exact .thrown thrown.2 ⟨rfl, rfl, rfl, le_rfl⟩
    | none => exact .some rfl rfl rfl

/-- The release of a reservation counts. -/
def released (reservations : List Reservation) (i : ℕ) : List Reservation :=
  reservations.modify i fun r => { r with released := r.released + 1 }

theorem exec_release (reservation : Option ℕ) (s : World) :
    ∃ s', (release reservation).exec s = (.ok (), s') ∧ s'.events = s.events ∧
      s'.closedAt = s.closedAt ∧ s'.clock = s.clock ∧
      s'.reservations = reservation.elim s.reservations (released s.reservations) := by
  cases reservation with
  | none => exact ⟨s, rfl, rfl, rfl, rfl, rfl⟩
  | some i => exact ⟨_, rfl, rfl, rfl, rfl, rfl⟩

/-- The release of the reservation after those before. -/
theorem released_append (before after : List Reservation) (r : Reservation) :
    released (before ++ r :: after) before.length =
      before ++ { r with released := r.released + 1 } :: after := by
  induction before with
  | nil => rfl
  | cons first before ih => exact congrArg (first :: ·) ih

variable {host : Bool}

theorem Transports.reserve {kind : ReservationKind} {bytes : ℕ} :
    Transports (fun _ _ => True) (reserve host kind bytes) := by
  intro s
  have hreserves := reserves host kind bytes s
  generalize (Source.reserve host kind bytes).exec s = r at hreserves
  cases hreserves with
  | thrown hthrown hkept =>
    exact ⟨trivial, .inl hkept.events, nofun, fun h => absurd (by cases h; rfl) hthrown⟩
  | none _ => exact ⟨trivial, .inl rfl, fun _ _ => rfl, nofun⟩
  | some _ hevents _ => exact ⟨trivial, .inl hevents, fun _ _ => hevents, nofun⟩

theorem Transports.reserveStaging {bytes : ℕ} :
    Transports (fun _ _ => True) (reserveStaging host bytes) := .bind .tick fun _ => .reserve

variable {α : Type}

/-- A release at the end writes down nothing. -/
theorem Transports.finallyRelease {x : Http α} (hx : Transports (fun _ _ => True) x)
    (reservation : Option ℕ) :
    Transports (fun _ _ => True) (Async.finallyDo x (release reservation)) := by
  intro s
  have hfirst := hx s
  rw [Async.exec_finallyDo]
  rcases hx : x.exec s with ⟨result, s₁⟩
  rw [hx] at hfirst
  obtain ⟨s₂, hexec, hevents, -⟩ := exec_release reservation s₁
  dsimp only
  rw [hexec]
  exact ⟨trivial, hevents ▸ hfirst.events, hevents ▸ hfirst.ok, hevents ▸ hfirst.failed⟩

/-! ## Opening -/

variable {dateParses : List Char → Bool} {options : NormalizedHttpOptions}
  {openOptions : RangeSourceOpenOptions} {response : Response}

theorem selectValidator_ne (size : ℕ) (strength : HttpValidationStrength) :
    selectValidator dateParses response size strength ≠ .error .retryableBody := by
  unfold selectValidator
  dsimp only
  by_cases hetag : strength = .etag ∧ ((response.responseHeader .etag).map trim).filter
      (fun etag => utf16Length etag ≤ maxValidatorLength && isEtag etag &&
        (strength = .weak || strength = .lastModified || !isWeakEtag etag)) = none
  · rw [if_pos hetag]
    exact nofun
  · rw [if_neg hetag]
    split
    · exact nofun
    · split
      · split_ifs <;> exact nofun
      · exact nofun

theorem transports_assertSourceSize {R : World → World → Prop} [OfFramed R]
    (size maxSourceBytes : ℕ) : Transports R (assertSourceSize size maxSourceBytes) := by
  rw [assertSourceSize]
  split_ifs
  · exact .fail _
  · exact .fail _
  · exact .pure _

theorem transports_download (contentLength : ℕ) (host : Bool) :
    Transports (fun _ _ => True) (download response contentLength host) := by
  refine .bind .reserveStaging fun staging => .finallyRelease (.bind .reserve fun retained => ?_) _
  refine .tryCatch (.bind (transports_readResponseBody _ _) fun _ => .pure _) fun thrown s => ?_
  obtain ⟨s', hexec, hevents, -⟩ := exec_release retained s
  rw [Async.exec_bind_ok hexec]
  exact ⟨hevents, trivial, by simp⟩

/-- A probe is answered with ranges, with an empty source, with a whole source, or in vain. -/
theorem consumeProbe_cases (dateParses : List Char → Bool) (options : NormalizedHttpOptions)
    (openOptions : RangeSourceOpenOptions) (response : Response) :
    consumeProbe dateParses options openOptions response =
        openRanges dateParses options openOptions response ∨
      consumeProbe dateParses options openOptions response =
        openEmpty dateParses options openOptions response ∨
      (∃ maxBytes, consumeProbe dateParses options openOptions response =
        openFallback dateParses options openOptions maxBytes response) ∨
      ∃ error, consumeProbe dateParses options openOptions response = fail error := by
  rw [consumeProbe]
  by_cases hranges : response.status = 206
  · exact .inl (if_pos hranges)
  rw [if_neg hranges]
  by_cases hempty : response.status = 416 ∧ parseUnsatisfiedContentRange response = some 0
  · exact .inr (.inl (if_pos hempty))
  rw [if_neg hempty]
  refine .inr (.inr ?_)
  split
  · exact .inl ⟨_, rfl⟩
  · by_cases hunsupported : response.status = 416 ∨ response.status = 200
    · exact .inr ⟨_, if_pos hunsupported⟩
    · exact .inr ⟨_, if_neg hunsupported⟩

theorem transports_consumeProbe :
    Transports (fun _ _ => True) (consumeProbe dateParses options openOptions response) := by
  rcases consumeProbe_cases dateParses options openOptions response with
    h | h | ⟨maxBytes, h⟩ | ⟨error, h⟩
  · rw [h, openRanges]
    split
    · exact .fail _
    · refine .bind (transports_assertSourceSize _ _) fun _ =>
        .bind (.orThrow (selectValidator_ne _ _)) fun _ => .bind ?_ fun _ => .pure _
      exact .bind .reserveStaging fun _ => .finallyRelease (transports_readResponseBody _ _) _
  · rw [h]
    exact .bind (transports_assertSourceSize _ _) fun _ =>
      .bind (.orThrow (selectValidator_ne _ _)) fun _ => .bind .tick fun _ => .pure _
  · rw [h, openFallback]
    split
    · exact .fail _
    · refine .bind (transports_assertSourceSize _ _) fun _ => ?_
      dsimp only
      split_ifs
      · exact .fail _
      · exact .bind (.orThrow (selectValidator_ne _ _)) fun _ =>
          .bind (transports_download _ _) fun _ => .pure _
  · rw [h]
    exact .fail _

/-- What is read in staging: the staging cannot be reserved, or is released in the end, whatever
    was reserved meanwhile. -/
inductive Staged {α : Type} (x : Http α) (s : World) : Except Thrown α × World → Prop
  | thrown {thrown : Thrown} {s' : World} : s.Kept s' → Staged x s (.error thrown, s')
  | read {first more : List Reservation} {result : Except Thrown α} {s₁ s₂ s₃ : World} :
    (∀ r ∈ first, r.released = 1) → s₁.reservations.length = s.reservations.length + first.length →
    x.exec s₁ = (result, s₂) → s₂.reservations = s₁.reservations ++ more →
    s₃.reservations = s.reservations ++ first ++ more → Staged x s (result, s₃)

theorem staged {x : Http α} (host : Bool) (bytes : ℕ) (s : World)
    (hx : ∀ s, ∃ more, (x.exec s).2.reservations = s.reservations ++ more) :
    Staged x s (Async.exec (reserveStaging host bytes >>= fun staging =>
      Async.finallyDo x (release staging)) s) := by
  rw [Async.exec_bind, reserveStaging, Async.exec_bind_ok (exec_tick s)]
  have hreserves := reserves host .staging bytes { s with clock := s.clock + 1 }
  generalize (reserve host .staging bytes).exec { s with clock := s.clock + 1 } = r at hreserves
  cases hreserves with
  | thrown _ hkept => exact .thrown (trans_of World.Kept (keeps_tick s) hkept)
  | none _ =>
    dsimp only
    rw [Async.exec_finallyDo]
    obtain ⟨more, hmore⟩ := hx { s with clock := s.clock + 1 }
    rcases hexec : x.exec { s with clock := s.clock + 1 } with ⟨result, s₂⟩
    rw [hexec] at hmore
    exact @Staged.read α x s [] more result { s with clock := s.clock + 1 } s₂ s₂ nofun rfl hexec
      hmore (by simpa using hmore)
  | @some s₁ _ _ hreserved =>
    dsimp only
    rw [Async.exec_finallyDo]
    obtain ⟨more, hmore⟩ := hx s₁
    rcases hexec : x.exec s₁ with ⟨result, s₂⟩
    rw [hexec] at hmore
    obtain ⟨s₃, hrelease, -, -, -, hreleased⟩ := exec_release (some s.reservations.length) s₂
    dsimp only
    rw [hrelease]
    dsimp only at hmore hreserved
    refine @Staged.read α x s [⟨.staging, bytes, 1⟩] more result s₁ s₂ s₃ (by simp)
      (by rw [hreserved]; simp) hexec hmore ?_
    rw [hreleased, hmore, hreserved, List.append_assoc, List.singleton_append]
    exact (released_append _ _ _).trans (by simp)

theorem reservations_readResponseBody (response : Response) (expectedLength : ℕ) (s : World) :
    ((readResponseBody response expectedLength).exec s).2.reservations = s.reservations :=
  (transports_readResponseBody (R := World.Framed) response expectedLength s).world.reservations

/-- The first byte is read with its reservation, which is released. -/
theorem keeps_readOpenResponseBody (expectedLength : ℕ) (host : Bool) :
    Async.Keeps World.Released (readOpenResponseBody response expectedLength host) := by
  intro s
  have hbody := reservations_readResponseBody response expectedLength
  have hstaged := staged host expectedLength s (x := readResponseBody response expectedLength)
    fun s => ⟨[], by rw [hbody, List.append_nil]⟩
  change Staged _ s ((readOpenResponseBody response expectedLength host).exec s) at hstaged
  generalize (readOpenResponseBody response expectedLength host).exec s = r at hstaged
  cases hstaged with
  | thrown hkept => exact OfFramed.of_framed hkept.framed
  | @read first more result s₁ s₂ s₃ hfirst _ hexec hmore hlast =>
    have hsame := hbody s₁
    rw [hexec, hmore, List.append_right_eq_self] at hsame
    subst hsame
    exact ⟨first, by rw [hlast, List.append_nil], hfirst⟩

/-- What is kept of a source that was read as a whole: the reservation of its bytes, and nothing
    if the host keeps no account. -/
def Retains (host : Bool) (bytes : ℕ) (retained : Option ℕ) (s s' : World) : Prop :=
  if host then
    ∃ more, (∀ r ∈ more, r.released = 1) ∧
      s'.reservations = s.reservations ++ more ++ [⟨.retained, bytes, 0⟩] ∧
      retained = some (s.reservations.length + more.length)
  else retained = none ∧ s.Released s'

theorem Retains.of_released {bytes : ℕ} {retained : Option ℕ} {s s' s'' : World}
    (h : Retains host bytes retained s' s'') (hs : s.Released s') :
    Retains host bytes retained s s'' := by
  unfold Retains at h ⊢
  split_ifs at h ⊢
  · obtain ⟨more, hmore, hlast, rfl⟩ := h
    obtain ⟨before, hbefore, hreleased⟩ := hs
    refine ⟨before ++ more, ?_, by rw [hlast, hbefore]; simp, by rw [hbefore]; simp; omega⟩
    exact fun r hr => (List.mem_append.1 hr).elim (hreleased r) (hmore r)
  · exact ⟨h.1, trans_of World.Released hs h.2⟩

/-- The body of a download: its reservation stays exactly if it was read. -/
def readRetained (response : Response) (contentLength : ℕ) (host : Bool) :
    Http (List UInt8 × Option ℕ) := do
  let retained ← reserve host .retained contentLength
  tryCatch (do
    let bytes ← readResponseBody response contentLength
    return (bytes, retained)) fun thrown => do
      release retained
      throw thrown

theorem readRetained_cases (response : Response) (contentLength : ℕ) (host : Bool) (s : World) :
    ∃ more, ((readRetained response contentLength host).exec s).2.reservations =
        s.reservations ++ more ∧
      (∀ e, ((readRetained response contentLength host).exec s).1 = .error e →
        ∀ r ∈ more, r.released = 1) ∧
      ∀ bytes retained, ((readRetained response contentLength host).exec s).1 =
          .ok (bytes, retained) → bytes.length = contentLength ∧
        if host then more = [⟨.retained, contentLength, 0⟩] ∧ retained = some s.reservations.length
        else more = [] ∧ retained = none := by
  rw [readRetained, Async.exec_bind]
  have hreserves := reserves host .retained contentLength s
  generalize (reserve host .retained contentLength).exec s = r at hreserves
  cases hreserves with
  | thrown _ hkept => exact ⟨[], by simpa using hkept.framed.reservations, nofun, nofun⟩
  | none hhost =>
    dsimp only
    rw [Async.exec_tryCatch, Async.exec_bind]
    have hbody := reservations_readResponseBody response contentLength s
    rcases hread : (readResponseBody response contentLength).exec s with ⟨e | bytes, s₁⟩
    · rw [hread] at hbody
      exact ⟨[], hbody.trans (List.append_nil _).symm, nofun, nofun⟩
    · rw [hread] at hbody
      refine ⟨[], by simpa using hbody, nofun, fun bytes' retained h => ?_⟩
      cases h
      rw [hhost]
      exact ⟨(bytes_readResponseBody hread).2, rfl, rfl⟩
  | @some s₁ hhost _ hreserved =>
    dsimp only
    rw [Async.exec_tryCatch, Async.exec_bind]
    have hbody := reservations_readResponseBody response contentLength s₁
    rcases hread : (readResponseBody response contentLength).exec s₁ with ⟨e | bytes, s₂⟩
    · rw [hread] at hbody
      obtain ⟨s₃, hrelease, -, -, -, hreleased⟩ := exec_release (some s.reservations.length) s₂
      dsimp only
      rw [Async.exec_bind_ok hrelease]
      refine ⟨[⟨.retained, contentLength, 1⟩], ?_, by simp, nofun⟩
      dsimp only at hbody
      rw [Async.exec_throw, hreleased, hbody, hreserved]
      exact released_append _ [] _
    · rw [hread] at hbody
      refine ⟨[⟨.retained, contentLength, 0⟩], hbody.trans hreserved, nofun,
        fun bytes' retained h => ?_⟩
      cases h
      rw [hhost]
      exact ⟨(bytes_readResponseBody hread).2, rfl, rfl⟩

/-- A failed download has released what it reserved, and a download keeps its bytes reserved. -/
theorem download_cases (response : Response) (contentLength : ℕ) (host : Bool) (s : World) :
    (∀ e, ((download response contentLength host).exec s).1 = .error e →
        s.Released ((download response contentLength host).exec s).2) ∧
      ∀ bytes retained, ((download response contentLength host).exec s).1 = .ok (bytes, retained) →
        bytes.length = contentLength ∧
          Retains host contentLength retained s
          ((download response contentLength host).exec s).2 := by
  have hretained := readRetained_cases response contentLength host
  have hstaged := staged host contentLength s fun s =>
    ⟨_, (hretained s).choose_spec.1⟩
  change Staged _ s ((download response contentLength host).exec s) at hstaged
  generalize (download response contentLength host).exec s = r at hstaged
  cases hstaged with
  | thrown hkept => exact ⟨fun _ _ => OfFramed.of_framed hkept.framed, nofun⟩
  | @read first more result s₁ s₂ s₃ hfirst hlength hexec hmore hlast =>
    obtain ⟨more', hmore', herror, hok⟩ := hretained s₁
    rw [hexec] at hmore' herror hok
    obtain rfl : more = more' := List.append_cancel_left (hmore.symm.trans hmore')
    refine ⟨fun e he => ⟨first ++ more, by rw [hlast, List.append_assoc], fun r hr => ?_⟩,
      fun bytes retained h => ?_⟩
    · exact (List.mem_append.1 hr).elim (hfirst r) (herror e he r)
    · obtain ⟨hbytes, hkept⟩ := hok bytes retained h
      refine ⟨hbytes, ?_⟩
      unfold Retains
      split_ifs at hkept ⊢
      · obtain ⟨rfl, rfl⟩ := hkept
        exact ⟨first, hfirst, hlast, by rw [hlength]⟩
      · obtain ⟨rfl, rfl⟩ := hkept
        exact ⟨rfl, first, by rw [hlast, List.append_nil], hfirst⟩

/-- A reader that was opened: without a fallback nothing is reserved any more, and with one only
    its bytes are. -/
def HttpReader.Holds (reader : HttpReader) (host : Bool) (s s' : World) : Prop :=
  match reader.fallbackBytes with
  | none => reader.releaseRetained = none ∧ s.Released s'
  | some bytes => bytes.length = reader.size ∧ Retains host reader.size reader.releaseRetained s s'

/-- A probe that fails leaves no reservation, and one that does not those of its reader. -/
structure Probes (options : NormalizedHttpOptions) (host : Bool) (x : Http HttpReader) : Prop where
  error : ∀ s e, (x.exec s).1 = .error e → s.Released (x.exec s).2
  ok : ∀ s reader, (x.exec s).1 = .ok reader →
    reader.options = options ∧ reader.Holds host s (x.exec s).2

theorem probes_fail (options : NormalizedHttpOptions) (host : Bool) (error : SourceError) :
    Probes options host (fail error) :=
  ⟨fun s _ _ => refl_of World.Released s, fun _ _ h => by cases h⟩

/-- What is checked before a probe is read reserves nothing. -/
theorem Probes.bind {x : Http α} {f : α → Http HttpReader}
    (hx : Transports World.Framed x) (hf : ∀ a, Probes options host (f a)) :
    Probes options host (x >>= f) := by
  have hcases : ∀ s, (∃ e s', (x >>= f).exec s = (.error e, s') ∧ s.Released s') ∨
      ∃ a s', (x >>= f).exec s = (f a).exec s' ∧ s.Framed s' := by
    intro s
    have hsame := (hx s).world
    rw [Async.exec_bind]
    rcases hexec : x.exec s with ⟨e | a, s'⟩
    · rw [hexec] at hsame
      exact .inl ⟨e, s', rfl, OfFramed.of_framed hsame⟩
    · rw [hexec] at hsame
      exact .inr ⟨a, s', rfl, hsame⟩
  refine ⟨fun s e he => ?_, fun s reader hreader => ?_⟩
  · rcases hcases s with ⟨e', s', hexec, hreleased⟩ | ⟨a, s', hexec, hsame⟩
    · rwa [hexec]
    · rw [hexec] at he ⊢
      exact trans_of World.Released (OfFramed.of_framed hsame) ((hf a).error s' e he)
  · rcases hcases s with ⟨e', s', hexec, hreleased⟩ | ⟨a, s', hexec, hsame⟩
    · rw [hexec] at hreader
      cases hreader
    · rw [hexec] at hreader ⊢
      obtain ⟨hoptions, hholds⟩ := (hf a).ok s' reader hreader
      refine ⟨hoptions, ?_⟩
      unfold HttpReader.Holds at hholds ⊢
      split at hholds
      · exact ⟨hholds.1, trans_of World.Released (OfFramed.of_framed hsame) hholds.2⟩
      · exact ⟨hholds.1, hholds.2.of_released (OfFramed.of_framed hsame)⟩

/-- A probe that reserves for a while, and returns a reader without a fallback. -/
theorem probes_of_keeps {x : Http α} (hx : Async.Keeps World.Released x)
    {reader : α → HttpReader} (hoptions : ∀ a, (reader a).options = options)
    (hfallback : ∀ a, (reader a).fallbackBytes = none)
    (hretained : ∀ a, (reader a).releaseRetained = none) :
    Probes options host (x >>= fun a => pure (reader a)) := by
  have hkeeps : Async.Keeps World.Released (x >>= fun a => pure (reader a)) :=
    hx.bind fun a => .pure _
  refine ⟨fun s _ _ => hkeeps s, fun s r hr => ?_⟩
  have hreleased := hkeeps s
  rw [Async.exec_bind] at hr hreleased ⊢
  rcases hexec : x.exec s with ⟨e | a, s'⟩
  · rw [hexec] at hr
    cases hr
  · rw [hexec] at hr hreleased
    cases hr
    refine ⟨hoptions a, ?_⟩
    unfold HttpReader.Holds
    rw [hfallback]
    exact ⟨hretained a, hreleased⟩

/-- A download returns a reader that keeps its bytes. -/
theorem probes_download (response : Response) (contentLength : ℕ) (host : Bool)
    {reader : List UInt8 × Option ℕ → HttpReader} (hoptions : ∀ a, (reader a).options = options)
    (hsize : ∀ a, (reader a).size = contentLength)
    (hfallback : ∀ a, (reader a).fallbackBytes = some a.1)
    (hretained : ∀ a, (reader a).releaseRetained = a.2) :
    Probes options host (download response contentLength host >>= fun a => pure (reader a)) := by
  refine ⟨fun s e he => ?_, fun s r hr => ?_⟩
  · have hdownload := (download_cases response contentLength host s).1
    rw [Async.exec_bind] at he ⊢
    rcases hexec : (download response contentLength host).exec s with ⟨e' | a, s'⟩
    · rw [hexec] at hdownload
      exact hdownload e' rfl
    · rw [hexec] at he
      cases he
  · have hdownload := (download_cases response contentLength host s).2
    rw [Async.exec_bind] at hr ⊢
    rcases hexec : (download response contentLength host).exec s with ⟨e' | ⟨bytes, retained⟩, s'⟩
    · rw [hexec] at hr
      cases hr
    · rw [hexec] at hr hdownload
      cases hr
      refine ⟨hoptions _, ?_⟩
      unfold HttpReader.Holds
      rw [hfallback]
      have hkept := hdownload bytes retained rfl
      dsimp only
      rw [hsize, hretained]
      exact hkept

theorem probes_consumeProbe (dateParses : List Char → Bool) (options : NormalizedHttpOptions)
    (openOptions : RangeSourceOpenOptions) (response : Response) :
    Probes options openOptions.hostReservations
      (consumeProbe dateParses options openOptions response) := by
  rcases consumeProbe_cases dateParses options openOptions response with
    h | h | ⟨maxBytes, h⟩ | ⟨error, h⟩
  · rw [h, openRanges]
    split
    · exact probes_fail _ _ _
    · exact .bind (transports_assertSourceSize _ _) fun _ =>
        .bind (.orThrow (selectValidator_ne _ _)) fun _ =>
          probes_of_keeps (keeps_readOpenResponseBody _ _) (fun _ => rfl) (fun _ => rfl) fun _ =>
            rfl
  · rw [h]
    exact .bind (transports_assertSourceSize _ _) fun _ =>
      .bind (.orThrow (selectValidator_ne _ _)) fun _ =>
        probes_of_keeps (keeps_tick.mono fun _ _ h => OfFramed.of_framed h.framed)
          (fun _ => rfl) (fun _ => rfl) fun _ => rfl
  · rw [h, openFallback]
    split
    · exact probes_fail _ _ _
    · refine .bind (transports_assertSourceSize _ _) fun _ => ?_
      dsimp only
      split_ifs
      · exact probes_fail _ _ _
      · exact .bind (.orThrow (selectValidator_ne _ _)) fun _ =>
          probes_download _ _ _ (fun _ => rfl) (fun _ => rfl) (fun _ => rfl) fun _ => rfl
  · rw [h]
    exact probes_fail _ _ _

/-! ## Reading -/

/-- A response that serves a range of a source: it says that it holds exactly this range of a
    source of this size, it carries the validator of the source, and its body is these bytes. -/
structure Serves (response : Response) (offset length size : ℕ) (validator : Validator)
    (bytes : List UInt8) : Prop where
  status : response.status = 206
  range : ∃ value, response.responseHeader .contentRange = some value ∧
    matchContentRange (trim value) = some (offset, offset + length - 1, size)
  validator : currentValidator response validator.kind size = some validator.value
  body : response.body.bytes? = some bytes
  length : bytes.length = length

variable {reader : HttpReader} {offset length : ℕ}

theorem validateValidator_ne (validator : Validator) (size : ℕ) :
    validateValidator response validator size ≠ .error .retryableBody := by
  rw [validateValidator]
  split_ifs <;> exact nofun

theorem transports_consumeRange (R : World → World → Prop) [OfFramed R] (reader : HttpReader)
    (offset length : ℕ) (response : Response) :
    Transports R (reader.consumeRange offset length response) := by
  rw [HttpReader.consumeRange]
  by_cases hunsupported : response.status = 200 ∨ response.status = 416
  · rw [if_pos hunsupported]
    exact .fail _
  rw [if_neg hunsupported]
  by_cases hstatus : response.status = 206
  · rw [if_neg (not_not.2 hstatus)]
    split
    · exact .fail _
    · split_ifs
      · exact .fail _
      · exact .bind (.orThrow (validateValidator_ne _ _)) fun _ => transports_readResponseBody _ _
  · rw [if_pos hstatus]
    exact .fail _

variable {s s' : World}

/-- A response that is consumed serves the range. -/
theorem serves_consumeRange {bytes : List UInt8}
    (h : (reader.consumeRange offset length response).exec s = (.ok bytes, s')) :
    Serves response offset length reader.size reader.validator bytes := by
  rw [HttpReader.consumeRange] at h
  by_cases hunsupported : response.status = 200 ∨ response.status = 416
  · rw [if_pos hunsupported] at h
    cases h
  rw [if_neg hunsupported] at h
  by_cases hstatus : response.status = 206
  · rw [if_neg (not_not.2 hstatus)] at h
    cases hrange : parseContentRange response offset length with
    | none =>
      rw [hrange] at h
      cases h
    | some total =>
      rw [hrange] at h
      dsimp only at h
      split_ifs at h with htotal
      · cases h
      · rw [ne_eq, not_not] at htotal
        subst htotal
        rw [validateValidator] at h
        split_ifs at h with hvalidator
        · obtain ⟨value, hvalue, hmatch, -, -⟩ := parseContentRange_eq_some hrange
          obtain ⟨hbody, hlength⟩ := bytes_readResponseBody h
          exact ⟨hstatus, ⟨value, hvalue, hmatch⟩, hvalidator, hbody, hlength⟩
        · cases h
  · rw [if_pos hstatus] at h
    cases h

/-- What a read comes to. Without a fallback, bytes are those of a response to one of its own
    fetches, which serves the range. -/
structure ReadOf (reader : HttpReader) (offset length : ℕ) (s : World)
    (r : Except Thrown (List UInt8) × World) : Prop where
  framed : s.Framed r.2
  trace : ∃ trace, r.2.events = s.events ++ trace ∧ Retried trace ∧
    fetches trace ≤ reader.options.maxAttempts ∧
    (reader.fallbackBytes = none → 0 < length → ∀ bytes, r.1 = .ok bytes →
      ∃ response, Event.fetched (.ok response) ∈ trace ∧
        Serves response offset length reader.size reader.validator bytes)

/-- A read that is refused before it makes a request. -/
theorem ReadOf.refused {thrown : Thrown} (hkept : s.Kept s') :
    ReadOf reader offset length s (.error thrown, s') :=
  ⟨hkept.framed, [], by rw [hkept.events, List.append_nil], .nil, Nat.zero_le _, nofun⟩

theorem keeps_acquire : Async.Keeps World.Kept HttpReader.acquire := by
  refine .bind (.modify fun s => ⟨rfl, rfl, rfl, by dsimp only; omega⟩) fun _ => ?_
  refine .bind (fun s => refl_of World.Kept s) fun _ => ?_
  split_ifs
  · exact keeps_fail _
  · refine .bind keeps_aborted fun _ => ?_
    split_ifs
    · exact keeps_fail _
    · exact .pure _

/-- Errors of a request are rebuilt, and nothing more happens. -/
theorem exec_rebuild (thrown : Thrown) (s : World) : ∃ error, Async.exec (do
    if ← closed then fail (closedError "Range source reader")
    else fail (normalizeHttpError thrown "Unable to read the source") : Http (List UInt8)) s =
      (.error (.error error), s) := by
  rw [Async.exec_bind_ok (exec_closed s)]
  split_ifs
  · exact ⟨_, rfl⟩
  · exact ⟨_, rfl⟩

theorem consumes_consumeRange (reader : HttpReader) (offset length : ℕ) :
    Consumes World.Framed (reader.consumeRange offset length) where
  transports response := transports_consumeRange _ reader offset length response
  error response s _ _ :=
    (transports_consumeRange World.Framed reader offset length response s).world

/-- A read that has its permit. -/
theorem readOf_permitted (reader : HttpReader) (offset length : ℕ)
    (hkept : s.Kept s') : ReadOf reader offset length s (Async.exec (tryCatch
      (match reader.fallbackBytes with
      | some bytes => return (bytes.drop offset).take length
      | none => requestWithRetry reader.options (reader.consumeRange offset length))
      fun thrown => do
        if ← closed then fail (closedError "Range source reader")
        else fail (normalizeHttpError thrown "Unable to read the source")) s') := by
  rw [Async.exec_tryCatch]
  cases hfallback : reader.fallbackBytes with
  | some bytes =>
    refine ⟨hkept.framed, [], ?_, .nil, Nat.zero_le _, fun hnone => ?_⟩
    · exact hkept.events.trans (List.append_nil _).symm
    · rw [hfallback] at hnone
      cases hnone
  | none =>
    have hrequested := requested (consumes_consumeRange reader offset length)
      reader.options.maxAttempts s'
    obtain ⟨trace, hevents, hretried, hcount, hok⟩ := hrequested.trace
    dsimp only
    rw [requestWithRetry]
    rcases hexec : (requestLoop (reader.consumeRange offset length)
      reader.options.maxAttempts).exec s' with ⟨thrown | bytes, s''⟩
    · rw [hexec] at hrequested hevents
      obtain ⟨error, hrebuild⟩ := exec_rebuild thrown s''
      dsimp only
      rw [hrebuild]
      exact ⟨trans_of World.Framed hkept.framed (hrequested.error thrown rfl), trace,
        by rw [← hkept.events]; exact hevents, hretried, hcount, fun _ _ _ => nofun⟩
    · rw [hexec] at hevents hok
      obtain ⟨response, s₁, hmem, hframed, hconsume⟩ := hok bytes rfl
      have hlast := (transports_consumeRange World.Framed reader offset length response s₁).world
      rw [hconsume] at hlast
      refine ⟨trans_of World.Framed hkept.framed (trans_of World.Framed hframed hlast), trace,
        by rw [← hkept.events]; exact hevents, hretried, hcount, fun _ _ bytes' hbytes => ?_⟩
      cases hbytes
      exact ⟨response, hmem, serves_consumeRange hconsume⟩

theorem readOf (reader : HttpReader) (offset length : ℕ) (s : World) :
    ReadOf reader offset length s ((reader.read offset length).exec s) := by
  have hrefl := refl_of World.Kept s
  rw [HttpReader.read, Async.exec_bind_ok (exec_closed s)]
  by_cases hclosed : s.isClosed = true
  · rw [if_pos hclosed]
    exact .refused hrefl
  rw [if_neg hclosed]
  by_cases hrange : maxRangeSourceBytes < reader.size ∨ maxRangeSourceBytes < offset ∨
      maxRangeSourceBytes < length ∨ reader.size < offset + length
  · rw [if_pos hrange]
    exact .refused hrefl
  rw [if_neg hrange, Async.exec_bind_ok (exec_aborted s)]
  by_cases haborted : s.isAborted = true
  · rw [if_pos haborted]
    exact .refused hrefl
  rw [if_neg haborted]
  by_cases hempty : length = 0
  · rw [if_pos hempty]
    exact ⟨refl_of World.Framed s, [], (List.append_nil _).symm, .nil, Nat.zero_le _,
      fun _ hpos => absurd hempty hpos.ne'⟩
  rw [if_neg hempty]
  by_cases hlarge : reader.maxReadBytes < length
  · rw [if_pos hlarge]
    exact .refused hrefl
  rw [if_neg hlarge, Async.exec_bind]
  have hkept := keeps_acquire s
  rcases hacquire : HttpReader.acquire.exec s with ⟨thrown | _, s'⟩
  · rw [hacquire] at hkept
    exact .refused hkept
  · rw [hacquire] at hkept
    exact readOf_permitted reader offset length hkept

/-! ## The life of a reader -/

/-- A call of a reader. Before it the world may have changed: there are other responses, and the
    caller has another signal. -/
inductive Call
  | read (offset length : ℕ) (queued : ℕ) (abortedAt : Option ℕ) (attempts : List Attempt)
  | close

def Call.isClose : Call → Bool
  | read .. => false
  | close => true

/-- The world after a call. -/
def HttpReader.call (reader : HttpReader) (s : World) : Call → World
  | .read offset length queued abortedAt attempts =>
    ((reader.read offset length).exec { s with queued, abortedAt, attempts }).2
  | .close => (reader.close.exec s).2

/-- The world after some calls. -/
def HttpReader.calls (reader : HttpReader) (s : World) (calls : List Call) : World :=
  calls.foldl reader.call s

theorem World.Framed.isClosed (h : s.Framed s') (hclosed : s.isClosed = true) :
    s'.isClosed = true := by
  rw [World.isClosed, Option.any_eq_true] at hclosed ⊢
  obtain ⟨n, hn, hle⟩ := hclosed
  refine ⟨n, h.closedAt.trans hn, ?_⟩
  rw [decide_eq_true_eq] at hle ⊢
  exact hle.trans h.clock

/-- A read changes no reservation, and does not open or close the reader. -/
theorem framed_read (reader : HttpReader) (s : World) (offset length queued : ℕ)
    (abortedAt : Option ℕ) (attempts : List Attempt) :
    s.Framed (reader.call s (.read offset length queued abortedAt attempts)) := by
  have hframed := (readOf reader offset length { s with queued, abortedAt, attempts }).framed
  exact ⟨hframed.reservations, hframed.closedAt, hframed.clock⟩

/-- A closed reader stays closed, and releases nothing more. -/
theorem reservations_closed (reader : HttpReader) {s : World} (hclosed : s.isClosed = true)
    (calls : List Call) : (reader.calls s calls).reservations = s.reservations := by
  induction calls generalizing s with
  | nil => rfl
  | cons call calls ih =>
    rw [HttpReader.calls, List.foldl_cons]
    have hframed : s.Framed (reader.call s call) := by
      cases call with
      | read offset length queued abortedAt attempts => exact framed_read _ _ _ _ _ _ _
      | close =>
        rw [HttpReader.call, HttpReader.close, Async.exec_bind_ok (exec_closed s), hclosed]
        exact refl_of World.Framed s
    exact (ih (hframed.isClosed hclosed)).trans hframed.reservations

/-- The first close of a reader releases its reservation, and later ones do not. -/
theorem reservations_calls (reader : HttpReader) {s : World} (hopen : s.closedAt = none)
    (calls : List Call) : (reader.calls s calls).reservations =
      if calls.any Call.isClose then
        reader.releaseRetained.elim s.reservations (released s.reservations)
      else s.reservations := by
  induction calls generalizing s with
  | nil => rfl
  | cons call calls ih =>
    rw [HttpReader.calls, List.foldl_cons, List.any_cons]
    cases call with
    | read offset length queued abortedAt attempts =>
      have hframed := framed_read reader s offset length queued abortedAt attempts
      have hnext := ih (hframed.closedAt.trans hopen)
      rw [hframed.reservations] at hnext
      exact hnext
    | close =>
      have hclosed : s.isClosed = false := by rw [World.isClosed, hopen, Option.any_none]
      obtain ⟨s', hrelease, -, hclosedAt, hclock, hreservations⟩ :=
        exec_release reader.releaseRetained { s with closedAt := some s.clock }
      have hcall : reader.call s .close = s' := by
        rw [HttpReader.call, HttpReader.close, Async.exec_bind_ok (exec_closed s), hclosed,
          if_neg Bool.false_ne_true, Async.exec_bind_ok (Async.exec_modify _ s), hrelease]
      have hstill : s'.isClosed = true := by
        rw [World.isClosed, hclosedAt, hclock]
        simp
      rw [hcall, Call.isClose, Bool.true_or, if_pos rfl]
      exact (reservations_closed reader hstill calls).trans hreservations

/-! ## Snapshots -/

/-- A request makes no more fetches than configured, and none after one that went through. -/
def Bounded (options : NormalizedHttpOptions) (s s' : World) : Prop :=
  ∃ trace, s'.events = s.events ++ trace ∧ Retried trace ∧ fetches trace ≤ options.maxAttempts

/-- Reads of a reader are bounded, and without a fallback return bytes of the snapshot only: those
    of a response to one of their own fetches, which serves the range. -/
def HttpReader.Faithful (reader : HttpReader) : Prop :=
  ∀ offset length s, ReadOf reader offset length s ((reader.read offset length).exec s)

theorem requested_probe (dateParses : List Char → Bool) (options : NormalizedHttpOptions)
    (openOptions : RangeSourceOpenOptions) (s : World) :
    Requested World.Released (consumeProbe dateParses options openOptions) options.maxAttempts s
      ((requestWithRetry options (consumeProbe dateParses options openOptions)).exec s) :=
  requested ⟨fun _ => transports_consumeProbe, fun response =>
    (probes_consumeProbe dateParses options openOptions response).error⟩
    options.maxAttempts s

/-- The reservations that an opened reader keeps are released by its first close. -/
def HttpReader.Kept (reader : HttpReader) (host : Bool) (s s' : World) (calls : List Call) : Prop :=
  match reader.fallbackBytes with
  | none => s.Released (reader.calls { s' with closedAt := none } calls)
  | some _ =>
    if host then
      ∃ more, (∀ r ∈ more, r.released = 1) ∧
        (reader.calls { s' with closedAt := none } calls).reservations = s.reservations ++ more ++
          [⟨.retained, reader.size, if calls.any Call.isClose then 1 else 0⟩]
    else s.Released (reader.calls { s' with closedAt := none } calls)

theorem HttpReader.Holds.kept (h : reader.Holds host s s')
    (calls : List Call) : reader.Kept host s s' calls := by
  have hcalls := reservations_calls reader (s := { s' with closedAt := none }) rfl calls
  have hsame : reader.releaseRetained = none → s.Released s' →
      s.Released (reader.calls { s' with closedAt := none } calls) := by
    rintro hnone ⟨more, hmore, hreleased⟩
    rw [hnone, Option.elim_none, ite_self] at hcalls
    exact ⟨more, hcalls.trans hmore, hreleased⟩
  unfold HttpReader.Holds at h
  unfold HttpReader.Kept
  split at h
  · exact hsame h.1 h.2
  · obtain ⟨-, hretains⟩ := h
    unfold Retains at hretains
    split_ifs at hretains ⊢ with hhost hclose
    · obtain ⟨more, hreleased, hmore, hretained⟩ := hretains
      refine ⟨more, hreleased, ?_⟩
      rw [hcalls, if_pos hclose, hretained, Option.elim_some, hmore, ← List.length_append]
      exact released_append _ [] _
    · obtain ⟨more, hreleased, hmore, hretained⟩ := hretains
      exact ⟨more, hreleased, by rw [hcalls, if_neg hclose, hmore]⟩
    · exact hsame hretains.1 hretains.2

/-- An open is bounded. If it fails, everything it reserved was released. Otherwise its reader is
    faithful, and keeps nothing, or the bytes of its fallback until it is closed. -/
theorem openHttpReader_faithful (dateParses : List Char → Bool) (options : NormalizedHttpOptions)
    (openOptions : RangeSourceOpenOptions) (s : World) :
    Bounded options s ((openHttpReader dateParses options openOptions).exec s).2 ∧
      match (openHttpReader dateParses options openOptions).exec s with
      | (.error _, s') => s.Released s'
      | (.ok reader, s') => reader.options = options ∧ reader.Faithful ∧
        ∀ calls, reader.Kept openOptions.hostReservations s s' calls := by
  have hrefused : Bounded options s s ∧ s.Released s :=
    ⟨⟨[], (List.append_nil _).symm, .nil, Nat.zero_le _⟩, refl_of World.Released s⟩
  rw [openHttpReader, validateOpenOptions]
  split_ifs with hlimits hstaging
  · exact hrefused
  · exact hrefused
  · rw [Async.exec_bind_ok (Async.exec_pure _ s), Async.exec_bind_ok (exec_aborted s)]
    split_ifs with haborted
    · exact hrefused
    · have hrequested := requested_probe dateParses options openOptions s
      obtain ⟨trace, hevents, hretried, hcount, hok⟩ := hrequested.trace
      rw [Async.exec_tryCatch]
      rcases hexec : (requestWithRetry options
        (consumeProbe dateParses options openOptions)).exec s with ⟨thrown | reader, s'⟩
      · rw [hexec] at hevents hrequested
        exact ⟨⟨trace, hevents, hretried, hcount⟩, hrequested.error thrown rfl⟩
      · rw [hexec] at hevents hok
        refine ⟨⟨trace, hevents, hretried, hcount⟩, ?_⟩
        obtain ⟨response, s₁, -, hreleased, hconsume⟩ := hok reader rfl
        have hprobe :=
          (probes_consumeProbe dateParses options openOptions response).ok s₁ reader
        rw [hconsume] at hprobe
        obtain ⟨hoptions, hholds⟩ := hprobe rfl
        refine ⟨hoptions, readOf reader, HttpReader.Holds.kept ?_⟩
        unfold HttpReader.Holds at hholds ⊢
        split at hholds
        · exact ⟨hholds.1, trans_of World.Released hreleased hholds.2⟩
        · exact ⟨hholds.1, hholds.2.of_released hreleased⟩

end Tabulark.Source
