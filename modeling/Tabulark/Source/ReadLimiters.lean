import Mathlib
import Tabulark.Lib.Permits
import Tabulark.Lib.Run
import Tabulark.Lib.JsValue
import Tabulark.Source.Errors

/-!
# Limiters of provider reads

A reader serves a limited number of reads at a time; more of them wait.
`ReadLimiter` is the limiter inside the HTTP reader, `SourceReadConcurrencyLimiter`
the one of the host around every reader.

A release passes the permit on to a waiter. `ReadLimiter` counts its permit down
once more when it turns away a waiter whose signal is aborted, so that the counter
falls behind the permits that are out. `limited_of_releases` says that nothing else
goes wrong.
-/

namespace Tabulark.Source

open Permits

/-- An event of a limiter of reads. -/
abbrev ReadEvent : Type := PermitEvent Unit

/-- A limiter of reads, and what has become of its requests. -/
abbrev ReadPermits : Type := Permits SourceError

/-- Asks for a permit: at once, later, or never. -/
def acquire (limit : ℕ) (p : ReadPermits) (signal : ℕ) : ReadPermits :=
  if p.closed then p.arrive.reject p.requests (closedError "Range source reader")
  else if signal ∈ p.aborted then p.arrive.reject p.requests cancelledError
  else if p.used < limit then p.arrive.grant p.requests 1
  else p.wait 1 signal

namespace ReadLimiter

/-- Passes a permit on to the first of some waiters, and leaves the others in the queue. -/
def release : List Waiter → ReadPermits → ReadPermits
  | queue, p =>
    let p := { p with used := p.used - 1 }
    if p.closed then { p with queue }
    else match queue with
      | [] => { p with queue := [] }
      | next :: queue =>
        -- Turning a waiter away is a release of its own, which counts down again.
        if next.signal ∈ p.aborted then release queue (p.reject next.id cancelledError)
        else ({ p with queue } : ReadPermits).grant next.id 1

/-- The limiter after an event. The function that a granted request was given releases its permit
    each time it is called. -/
def step (limit : ℕ) (p : ReadPermits) : ReadEvent → ReadPermits
  | .acquire _ signal => acquire limit p signal
  | .abort signal => p.abort signal
  | .listener id => p.onAbort id cancelledError
  | .release id =>
    if (id, .granted) ∈ p.settled then release p.queue { p with held := p.held.delete id } else p
  | .close => p.close (closedError "Range source reader")

/-- A call that releases a permit counts it down once: the limiter is closed, no permit is out, or
    the permit is out, and it is the only one or the first waiter is not aborted. -/
def Releases (p : ReadPermits) : ReadEvent → Prop
  | .release id => (id, .granted) ∈ p.settled → p.closed = true ∨ p.held.size = 0 ∨
    p.held.get? id ≠ none ∧
      (p.held.size = 1 ∨ ∀ w ∈ p.queue.head?, w.signal ∉ p.aborted)
  | _ => True

end ReadLimiter

namespace SourceReadConcurrencyLimiter

/-- The limit a limiter is made with. -/
def limitOf (limit : ℤ) : ℕ :=
  (min 4 (max 1 (if |limit| ≤ JsValue.maxSafe then limit else 1))).toNat

/-- Grants permits to the first of some waiters while there are any, and leaves the others in the
    queue. -/
def drain (limit : ℕ) : List Waiter → ReadPermits → ReadPermits
  | [], p => { p with queue := [] }
  | entry :: queue, p =>
    if p.used < limit then
      if entry.signal ∈ p.aborted then drain limit queue (p.reject entry.id cancelledError)
      else drain limit queue (p.grant entry.id 1)
    else { p with queue := entry :: queue }

/-- Releases a permit; a second call does nothing. -/
def release (limit : ℕ) (p : ReadPermits) (id : ℕ) : ReadPermits :=
  match p.held.get? id with
  | none => p
  | some _ =>
    let p := { p with used := p.used - 1, held := p.held.delete id }
    if p.closed then p else drain limit p.queue p

/-- The limiter after an event. -/
def step (limit : ℕ) (p : ReadPermits) : ReadEvent → ReadPermits
  | .acquire _ signal => acquire limit p signal
  | .abort signal => p.abort signal
  | .listener id => p.onAbort id cancelledError
  | .release id => release limit p id
  | .close => p.close (closedError "Range source reader")

end SourceReadConcurrencyLimiter

/-! ## What a limiter owes its reader -/

/-- At most so many permits are out, every request is told one thing, a rejected one holds nothing,
    and nobody waits for a permit there is. -/
structure Limited (limit : ℕ) (p : ReadPermits) : Prop where
  held_le : p.held.size ≤ limit
  settled_once : (p.settled.map Prod.fst).Nodup
  rejected : ∀ id error, (id, .rejected error) ∈ p.settled → p.held.get? id = none
  waiting : p.closed = false → ∀ w ∈ p.queue, w.signal ∉ p.aborted → p.held.size = limit

/-- The counter of a limiter that is open is the number of permits that are out. -/
structure Counted (limit : ℕ) (p : ReadPermits) : Prop where
  tidy : p.Tidy
  held_le : p.held.size ≤ limit
  counted : p.closed = false → p.used = p.held.size
  waiting : ∀ w ∈ p.queue, w.signal ∉ p.aborted → p.held.size = limit
  drained : p.closed = true → p.queue = []
  granted : ∀ id, (id, .granted) ∈ p.settled → 0 < limit

variable {limit : ℕ} {p : ReadPermits}

namespace Counted

theorem limited (h : Counted limit p) : Limited limit p :=
  ⟨h.held_le, h.tidy.settled_nodup, fun _ _ => h.tidy.get?_held_of_rejected, fun _ => h.waiting⟩

theorem start (limit : ℕ) : Counted limit {} :=
  ⟨tidy_empty, Nat.zero_le _, fun _ => rfl, nofun, nofun, nofun⟩

theorem acquire (h : Counted limit p) (signal : ℕ) : Counted limit (acquire limit p signal) := by
  have hreject : ∀ error, Counted limit (p.arrive.reject p.requests error) := fun error =>
    ⟨h.tidy.reject_arrive error, h.held_le, h.counted, h.waiting, h.drained, fun id hid =>
      h.granted id (granted_mem_reject.1 hid)⟩
  rw [Source.acquire]
  split_ifs with hclosed haborted hroom
  · exact hreject _
  · exact hreject _
  · have hused := h.counted (Bool.eq_false_iff.2 hclosed)
    have hsize := @size_held_grant _ p.arrive _ 1 h.tidy.get?_held_requests
    have hheld : p.arrive.held.size = p.held.size := rfl
    refine ⟨h.tidy.grant_arrive 1, by omega, fun _ => ?_, fun w hw hsignal => ?_,
      fun hc => absurd hc hclosed, fun _ _ => by omega⟩
    · rw [hsize, hheld, ← hused]
      rfl
    · -- With a permit to spare nobody else waits for one.
      have hfull := h.waiting w hw hsignal
      omega
  · have hused := h.counted (Bool.eq_false_iff.2 hclosed)
    refine ⟨h.tidy.wait 1 signal, h.held_le, h.counted, fun w hw hsignal => ?_,
      fun hc => absurd hc hclosed, h.granted⟩
    have hle := h.held_le
    have hheld : (p.wait 1 signal).held.size = p.held.size := rfl
    omega

theorem abort (h : Counted limit p) (signal : ℕ) : Counted limit (p.abort signal) :=
  ⟨⟨h.tidy.ids, h.tidy.granted⟩, h.held_le, h.counted,
    fun w hw hsignal => h.waiting w hw fun hmem => hsignal (.tail _ hmem), h.drained, h.granted⟩

theorem onAbort (h : Counted limit p) (id : ℕ) (error : SourceError) :
    Counted limit (p.onAbort id error) := by
  have htidy := h.tidy.onAbort id error
  rw [Permits.onAbort] at htidy ⊢
  cases hfind : p.queue.find? fun w => w.id = id with
  | none => exact h
  | some w =>
    rw [hfind] at htidy
    dsimp only at htidy ⊢
    split_ifs at htidy ⊢ with hsignal
    · refine ⟨htidy, h.held_le, h.counted, fun v hv => h.waiting v (List.mem_of_mem_erase hv),
        fun hc => ?_, fun id hid => h.granted id (granted_mem_reject.1 hid)⟩
      rw [h.drained hc] at hfind
      cases hfind
    · exact h

theorem close (h : Counted limit p) (error : SourceError) : Counted limit (p.close error) := by
  have htidy := h.tidy.close error
  rw [Permits.close] at htidy ⊢
  split_ifs at htidy ⊢ with hclosed
  · exact h
  · refine ⟨htidy, by simpa using h.held_le, fun hc => ?_, fun w hw => ?_, fun _ => ?_,
      fun id hid => h.granted id (by simpa using hid)⟩
    · rw [closed_rejectAll] at hc
      cases hc
    · rw [queue_rejectAll] at hw
      cases hw
    · rw [queue_rejectAll]

end Counted

/-! ## Releases -/

namespace SourceReadConcurrencyLimiter

/-- Draining keeps the counter. -/
theorem counted_drain {queue : List Waiter} (htidy : Tidy { p with queue })
    (hclosed : p.closed = false) (hused : p.used = p.held.size) (hle : p.held.size ≤ limit)
    (hgranted : ∀ id, (id, .granted) ∈ p.settled → 0 < limit) :
    Counted limit (drain limit queue p) := by
  induction queue generalizing p with
  | nil =>
    exact ⟨htidy, hle, fun _ => hused, nofun, fun _ => rfl, hgranted⟩
  | cons entry queue ih =>
    rw [drain]
    split_ifs with hroom haborted
    · exact ih (htidy.reject_leave (List.Perm.refl _) _) hclosed hused hle
        fun id hid => hgranted id (granted_mem_reject.1 hid)
    · have hnone : p.held.get? entry.id = none :=
        htidy.get?_held_of_waiting (List.mem_cons_self ..)
      have hsize := @size_held_grant _ p _ 1 hnone
      refine ih (htidy.grant_leave (List.Perm.refl _) 1) hclosed ?_ (by omega) fun _ _ => by omega
      rw [hsize, ← hused]
      rfl
    · -- The limit is reached, whoever waits.
      refine ⟨htidy, hle, fun _ => hused, fun w _ _ => ?_, fun hc => ?_, hgranted⟩
      · dsimp only
        omega
      · rw [hclosed] at hc
        cases hc

theorem counted_release (h : Counted limit p) (id : ℕ) : Counted limit (release limit p id) := by
  rw [release]
  cases hheld : p.held.get? id with
  | none => exact h
  | some size =>
    have hsize := size_held_eq_add_delete hheld
    have hle := h.held_le
    have htidy := h.tidy.delete id (p.used - 1)
    dsimp only
    split_ifs with hclosed
    · have hempty := h.drained hclosed
      refine ⟨htidy, by dsimp only; omega, fun hc => ?_, fun w hw => ?_, fun _ => hempty,
        h.granted⟩
      · rw [hclosed] at hc
        cases hc
      · rw [hempty] at hw
        cases hw
    · have hopen := Bool.eq_false_iff.2 hclosed
      have hused := h.counted hopen
      exact counted_drain htidy hopen (by dsimp only; omega) (by dsimp only; omega) h.granted

/-- The counter is right after every event. -/
theorem counted_step (h : Counted limit p) (e : ReadEvent) : Counted limit (step limit p e) := by
  cases e with
  | acquire _ signal => exact h.acquire signal
  | abort signal => exact h.abort signal
  | listener id => exact h.onAbort id _
  | release id => exact counted_release h id
  | close => exact h.close _

end SourceReadConcurrencyLimiter

namespace ReadLimiter

variable {queue : List Waiter}

theorem release_of_closed (hclosed : p.closed = true) :
    release queue p = { p with used := p.used - 1, queue } := by
  cases queue <;> rw [release, if_pos hclosed]

/-- With no permit left out, the waiters that are turned away are not counted. -/
theorem counted_release_of_empty (htidy : Tidy { p with queue })
    (hclosed : p.closed = false) (hused : p.used ≤ 1) (hheld : p.held.size = 0)
    (hlimit : 0 < limit) (hwait : ∀ w ∈ queue, w.signal ∉ p.aborted → limit = 1) :
    Counted limit (release queue p) := by
  induction queue generalizing p with
  | nil =>
    rw [release, if_neg (by simp [hclosed])]
    exact ⟨⟨htidy.ids, htidy.granted⟩, by dsimp only; omega, fun _ => by dsimp only; omega,
      nofun, fun _ => rfl, fun _ _ => hlimit⟩
  | cons next queue ih =>
    rw [release, if_neg (by simp [hclosed])]
    dsimp only
    split_ifs with haborted
    · have hrest : ∀ w ∈ queue, w.signal ∉ p.aborted → limit = 1 := fun w hw =>
        hwait w (.tail _ hw)
      refine ih (p := { p with used := p.used - 1 }.reject next.id cancelledError) ?_ hclosed
        ((Nat.sub_le _ _).trans hused) hheld hrest
      have hleave := htidy.reject_leave (List.Perm.refl _) cancelledError
      exact ⟨hleave.ids, hleave.granted⟩
    · have hone := hwait next (.head _) haborted
      obtain ⟨hpassed, hsize⟩ := htidy.passOn 1 (p.used - 1)
      refine ⟨hpassed, by omega, fun _ => ?_, fun w _ _ => by omega,
        fun hc => ?_, fun _ _ => hlimit⟩
      · rw [hsize, grant]
        dsimp only
        omega
      · rw [grant, hclosed] at hc
        cases hc

/-- A permit is passed on to a first waiter that is not aborted. -/
theorem counted_release_of_head (htidy : Tidy { p with queue })
    (hclosed : p.closed = false) (hused : p.used = p.held.size + 1) (hle : p.held.size + 1 ≤ limit)
    (hhead : ∀ w ∈ queue.head?, w.signal ∉ p.aborted)
    (hwait : ∀ w ∈ queue, w.signal ∉ p.aborted → p.held.size + 1 = limit) :
    Counted limit (release queue p) := by
  cases queue with
  | nil =>
    rw [release, if_neg (by simp [hclosed])]
    exact ⟨⟨htidy.ids, htidy.granted⟩, by dsimp only; omega, fun _ => by dsimp only; omega,
      nofun, fun _ => rfl, fun _ _ => by omega⟩
  | cons next queue =>
    rw [release, if_neg (by simp [hclosed])]
    dsimp only
    rw [if_neg (hhead next rfl)]
    obtain ⟨hpassed, hsize⟩ := htidy.passOn 1 (p.used - 1)
    refine ⟨hpassed, by omega, fun _ => ?_,
      fun w hw hsignal => ?_, fun hc => ?_, fun _ _ => by omega⟩
    · rw [hsize, grant]
      dsimp only
      omega
    · rw [hsize]
      exact hwait w (.tail _ hw) hsignal
    · rw [grant, hclosed] at hc
      cases hc

/-- A call that counts its permit down once keeps the counter right. -/
theorem counted_release (h : Counted limit p) {id : ℕ} (hid : (id, .granted) ∈ p.settled)
    (hreleases : Releases p (.release id)) :
    Counted limit (release p.queue { p with held := p.held.delete id }) := by
  have hle := h.held_le
  have htidy : Tidy { p with held := p.held.delete id } := h.tidy.delete id p.used
  have hdelete : (p.held.delete id).size ≤ p.held.size := size_held_delete_le id
  by_cases hclosed : p.closed = true
  · have hempty := h.drained hclosed
    rw [release_of_closed (p := { p with held := p.held.delete id }) hclosed]
    refine ⟨⟨htidy.ids, htidy.granted⟩, by dsimp only; omega, fun hc => ?_, fun w hw => ?_,
      fun _ => hempty, h.granted⟩
    · rw [hclosed] at hc
      cases hc
    · rw [hempty] at hw
      cases hw
  · have hopen := Bool.eq_false_iff.2 hclosed
    have hused := h.counted hopen
    have hlimit := h.granted id hid
    rcases hreleases hid with hc | hnone | ⟨hheld, hone⟩
    · exact absurd hc hclosed
    · -- A second call, with no permit out: the counter is at zero and stays there.
      refine counted_release_of_empty htidy hopen (by dsimp only; omega) (by dsimp only; omega)
        hlimit fun w hw hsignal => ?_
      have hfull := h.waiting w hw hsignal
      omega
    · obtain ⟨size, hsome⟩ := Option.ne_none_iff_exists'.1 hheld
      have hsize := size_held_eq_add_delete hsome
      rcases hone with hone | hhead
      · refine counted_release_of_empty htidy hopen (by dsimp only; omega) (by dsimp only; omega)
          hlimit fun w hw hsignal => ?_
        have hfull := h.waiting w hw hsignal
        omega
      · refine counted_release_of_head htidy hopen (by dsimp only; omega) (by dsimp only; omega)
          hhead fun w hw hsignal => ?_
        have hfull := h.waiting w hw hsignal
        dsimp only
        omega

/-- The counter is right after every event that counts its permit down once. -/
theorem counted_step (h : Counted limit p) {e : ReadEvent} (hreleases : Releases p e) :
    Counted limit (step limit p e) := by
  cases e with
  | acquire _ signal => exact h.acquire signal
  | abort signal => exact h.abort signal
  | listener id => exact h.onAbort id _
  | release id =>
    rw [step]
    split_ifs with hid
    · exact counted_release h hid hreleases
    · exact h
  | close => exact h.close _

/-! ## A counter that has fallen behind -/

/-- More permits are out than an open limiter counts. -/
structure Behind (p : ReadPermits) : Prop where
  tidy : p.Tidy
  closed : p.closed = false
  lt : p.used < p.held.size

/-- Counting a permit down that is not out leaves the counter behind. -/
theorem behind_release (htidy : Tidy { p with queue })
    (hclosed : p.closed = false) (hused : p.used ≤ p.held.size) (hpos : 0 < p.held.size) :
    Behind (release queue p) := by
  induction queue generalizing p with
  | nil =>
    rw [release, if_neg (by simp [hclosed])]
    exact ⟨⟨htidy.ids, htidy.granted⟩, hclosed, by dsimp only; omega⟩
  | cons next queue ih =>
    rw [release, if_neg (by simp [hclosed])]
    dsimp only
    split_ifs with haborted
    · refine ih (p := { p with used := p.used - 1 }.reject next.id cancelledError) ?_ hclosed
        ((Nat.sub_le _ _).trans hused) hpos
      have hleave := htidy.reject_leave (List.Perm.refl _) cancelledError
      exact ⟨hleave.ids, hleave.granted⟩
    · obtain ⟨hpassed, hsize⟩ := htidy.passOn 1 (p.used - 1)
      refine ⟨hpassed, hclosed, ?_⟩
      rw [hsize, grant]
      dsimp only
      omega

/-- A call that does not count its permit down once leaves the counter behind. -/
theorem behind_step (h : Counted limit p) {e : ReadEvent} (hnot : ¬Releases p e) :
    Behind (step limit p e) := by
  cases e with
  | release id =>
    rw [Releases, Classical.not_imp, not_or, not_or, not_and_or, not_or, not_not] at hnot
    obtain ⟨hid, hclosed, hsome, hmissed⟩ := hnot
    have hopen := Bool.eq_false_iff.2 hclosed
    have hused := h.counted hopen
    have htidy : Tidy { p with held := p.held.delete id } := h.tidy.delete id p.used
    rw [step, if_pos hid]
    cases hheld : p.held.get? id with
    | none =>
      -- The permit was released before.
      have hsame : (p.held.delete id).size = p.held.size :=
        congrArg List.length (InsertionMap.delete_of_get?_eq_none hheld)
      exact behind_release htidy hopen (by dsimp only; omega) (by dsimp only; omega)
    | some size =>
      -- The first waiter is turned away, while other permits are out.
      have hsize := size_held_eq_add_delete hheld
      obtain ⟨hone, hhead⟩ := hmissed.resolve_left (by rw [hheld]; exact Option.some_ne_none _)
      push Not at hhead
      obtain ⟨next, hnext, haborted⟩ := hhead
      cases hqueue : p.queue with
      | nil =>
        rw [hqueue] at hnext
        cases hnext
      | cons w queue =>
        rw [hqueue] at hnext
        obtain rfl := Option.some.inj hnext
        have hperm : p.queue.Perm (w :: queue) := hqueue ▸ List.Perm.refl _
        have hleave := htidy.reject_leave hperm cancelledError
        rw [release, if_neg (by simp [hopen])]
        dsimp only
        rw [if_pos haborted]
        refine @behind_release _ queue ⟨hleave.ids, hleave.granted⟩ hopen ?_ ?_
        · rw [reject]
          dsimp only
          omega
        · rw [reject]
          dsimp only
          omega
  | _ => exact absurd trivial hnot

/-- Requests with signals of their own exceed the limit of a counter that has fallen behind. -/
theorem Behind.exceeds (h : Behind p) :
    ∃ events, limit < (Run.run (step limit) p events).held.size := by
  induction hleft : limit + 1 - p.held.size generalizing p with
  | zero => exact ⟨[], by rw [Run.run_nil]; omega⟩
  | succ left ih =>
    obtain ⟨signal, hsignal⟩ := Infinite.exists_notMem_finset p.aborted.toFinset
    have hlt := h.lt
    have hstep : step limit p (.acquire () signal) = p.arrive.grant p.requests 1 := by
      rw [step, acquire, if_neg (by simp [h.closed]),
        if_neg fun hmem => hsignal (by simpa using hmem), if_pos (by omega)]
    have hsize := @size_held_grant _ p.arrive _ 1 h.tidy.get?_held_requests
    have hheld : p.arrive.held.size = p.held.size := rfl
    obtain ⟨events, hevents⟩ := ih (p := step limit p (.acquire () signal))
      (by
        rw [hstep]
        refine ⟨h.tidy.grant_arrive 1, h.closed, ?_⟩
        rw [hsize, hheld]
        exact Nat.succ_lt_succ hlt)
      (by
        rw [hstep, hsize, hheld]
        omega)
    exact ⟨.acquire () signal :: events, hevents⟩

end ReadLimiter

/-! ## Runs -/

/-- In every run the limiter of the host keeps to its limit. That of the HTTP reader does as long as
    every release counts its permit down once; the first release that does not can be followed by
    events that exceed the limit. -/
theorem limited_of_releases (requested : ℤ) (limit : ℕ) (events : List ReadEvent) :
    Run.Along (SourceReadConcurrencyLimiter.step (SourceReadConcurrencyLimiter.limitOf requested))
        (fun p e => Limited (SourceReadConcurrencyLimiter.limitOf requested)
          (SourceReadConcurrencyLimiter.step
            (SourceReadConcurrencyLimiter.limitOf requested) p e)) {} events ∧
      (Run.Along (ReadLimiter.step limit) ReadLimiter.Releases {} events →
        Run.Along (ReadLimiter.step limit)
          (fun p e => Limited limit (ReadLimiter.step limit p e)) {} events) ∧
      ∀ e : ReadEvent, Run.Along (ReadLimiter.step limit) ReadLimiter.Releases {} events →
        ¬ReadLimiter.Releases (Run.run (ReadLimiter.step limit) {} events) e →
          ∃ more, ¬Limited limit (Run.run (ReadLimiter.step limit) {} (events ++ e :: more)) := by
  refine ⟨?_, fun hall => ?_, fun e hall hnot => ?_⟩
  · have hcounted := @Run.Along.invariant _ _ _ _ (Counted _) _ _
      (fun p e h _ => SourceReadConcurrencyLimiter.counted_step h e)
      (Run.along_true {} events) (Counted.start (SourceReadConcurrencyLimiter.limitOf requested))
    exact hcounted.1.imp fun p e h => (SourceReadConcurrencyLimiter.counted_step h.1 e).limited
  · have hcounted := hall.invariant (I := Counted limit)
      (fun p e h => ReadLimiter.counted_step h) (Counted.start limit)
    exact hcounted.1.imp fun p e h => (ReadLimiter.counted_step h.1 h.2).limited
  · have hcounted := hall.invariant (I := Counted limit)
      (fun p e h => ReadLimiter.counted_step h) (Counted.start limit)
    have hbehind := ReadLimiter.behind_step hcounted.2 hnot
    obtain ⟨more, hmore⟩ := @ReadLimiter.Behind.exceeds limit _ hbehind
    refine ⟨more, fun hlimited => ?_⟩
    have hle := hlimited.held_le
    rw [Run.run_append, Run.run_cons] at hle
    exact absurd hle (not_le.2 hmore)

/-- A waiter takes over the permit of the first of two reads. -/
theorem limited_of_releases_handOff :
    Run.Along (ReadLimiter.step 2) (fun p e => Limited 2 (ReadLimiter.step 2 p e)) {}
      [.acquire () 0, .acquire () 1, .acquire () 2, .release 0] :=
  (limited_of_releases 2 2 _).2.1 ⟨trivial, trivial, trivial,
    fun _ => .inr (.inr ⟨by decide, .inr (by decide)⟩), trivial⟩

/-- Two reads, a waiter whose signal is aborted, a release, and two more reads: three are out. -/
theorem abortedWaiter_exceeds : ¬∀ (limit : ℕ) (events : List ReadEvent),
    Limited limit (Run.run (ReadLimiter.step limit) {} events) := by
  intro h
  have hle := (h 2 [.acquire () 0, .acquire () 1, .acquire () 2, .abort 2, .release 0,
    .acquire () 3, .acquire () 4]).held_le
  revert hle
  decide

end Tabulark.Source
