import Tabulark.Lib.Numbered
import Tabulark.Source.SharedSource

/-!
# Shared reads are sound

Whatever reads run at the same time, and however the provider answers, fails and is cancelled: a
read that ends with bytes has those of the source, and what the accessor keeps are parts of the
source within its budget (`Sound`, `sound_after`).
-/

namespace Tabulark.Source

open Recency Numbered

variable {source : List UInt8} {initial : RangeSourceAccessor} {offset stop : ℕ}

/-! ## The invariant -/

/-- What a range in flight has are parts of the source. -/
structure PendingRange.Sound (source : List UInt8) (p : PendingRange) : Prop where
  within : p.Within source
  inherited : ∀ segment ∈ p.inherited, segment.Of source
  holes : ∀ hole ∈ p.holes, hole.Within source
  fetched : ∀ segment ∈ p.fetched, segment.Of source
  outcome : ∀ bytes, p.outcome = some (.ok bytes) → bytes = part source p.offset p.stop

namespace Reader

/-- A read has not ended. -/
def Open (r : Reader) : Prop := ∀ result, r.state ≠ .done result

theorem open_of_checking {r : Reader} (hstate : r.state = .checking) : r.Open := by
  intro result hdone
  cases hdone.symm.trans hstate

/-- What a read has are parts of the source. -/
structure Sound (source : List UInt8) (maxReadBytes : ℕ) (intervals : List ReadInterval)
    (r : Reader) : Prop where
  bytes_eq : r.bytes = part source r.offset r.cursor
  inherited : ∀ segment ∈ r.inherited, segment.Of source
  within : r.Open → r.cursor < r.stop ∧ r.stop ≤ source.length
  done : ∀ bytes, r.state = .done (.ok bytes) →
    bytes = part source r.offset r.stop ∧ r.stop ≤ source.length
  fetching : ∀ pending, r.state = .fetching pending →
    intervals[pending]? = some ⟨r.cursor, r.partStop maxReadBytes⟩
  sharing : ∀ overlap, r.state = .sharing overlap →
    ∀ pending ∈ overlap, pending < intervals.length

variable {r : Reader} {maxReadBytes : ℕ} {intervals : List ReadInterval}

theorem cursor_lt_partStop (hlt : r.cursor < r.stop) (hpos : 0 < maxReadBytes) :
    r.cursor < r.partStop maxReadBytes := lt_min hlt (Nat.lt_add_of_pos_right hpos)

theorem partStop_le : r.partStop maxReadBytes ≤ r.stop := min_le_left _ _

theorem Sound.fail (h : r.Sound source maxReadBytes intervals) (fault : ReadFault) :
    (r.fail fault).Sound source maxReadBytes intervals where
  bytes_eq := h.bytes_eq
  inherited := h.inherited
  within hopen := absurd rfl (hopen _)
  done _ hdone := nomatch hdone
  fetching _ hfetching := nomatch hfetching
  sharing _ hsharing := nomatch hsharing

/-- A read that gets the bytes of its part. -/
theorem Sound.deliver (h : r.Sound source maxReadBytes intervals) (hopen : r.Open)
    (hpos : 0 < maxReadBytes) :
    (r.deliver (part source r.cursor (r.partStop maxReadBytes))).Sound source maxReadBytes
      intervals := by
  obtain ⟨hlt, hstop⟩ := h.within hopen
  have hcursor := (cursor_lt_partStop hlt hpos).le
  have hlength : (part source r.cursor (r.partStop maxReadBytes)).length = _ :=
    length_part (partStop_le.trans hstop)
  have hbytes : r.bytes ++ part source r.cursor (r.partStop maxReadBytes) =
      part source r.offset (r.partStop maxReadBytes) := by
    rw [h.bytes_eq]
    exact part_append (Nat.le_add_right _ _) hcursor
  have hend : r.cursor + (part source r.cursor (r.partStop maxReadBytes)).length =
      r.partStop maxReadBytes := by
    rw [hlength, Nat.add_sub_cancel' hcursor]
  have hcursor' : (r.deliver (part source r.cursor (r.partStop maxReadBytes))).cursor =
      r.partStop maxReadBytes :=
    (congrArg (r.offset + ·) List.length_append).trans ((Nat.add_assoc _ _ _).symm.trans hend)
  have hstate : (r.deliver (part source r.cursor (r.partStop maxReadBytes))).state =
      if r.stop ≤ r.partStop maxReadBytes then
        .done (.ok (part source r.offset (r.partStop maxReadBytes))) else .checking := by
    rw [Reader.deliver, hend, hbytes]
  rcases Nat.lt_or_ge (r.partStop maxReadBytes) r.stop with hmore | hlast
  · rw [if_neg (Nat.not_le.2 hmore)] at hstate
    exact ⟨by rwa [hcursor'], nofun, fun _ => ⟨by rwa [hcursor'], hstop⟩,
      fun _ hdone => (nomatch hstate.symm.trans hdone),
      fun _ hfetching => (nomatch hstate.symm.trans hfetching),
      fun _ hsharing => (nomatch hstate.symm.trans hsharing)⟩
  · rw [if_pos hlast] at hstate
    refine ⟨by rwa [hcursor'], nofun, fun hopen' => absurd hstate (hopen' _), fun bytes hdone => ?_,
      fun _ hfetching => (nomatch hstate.symm.trans hfetching),
      fun _ hsharing => (nomatch hstate.symm.trans hsharing)⟩
    cases hstate.symm.trans hdone
    rw [le_antisymm partStop_le hlast]
    exact ⟨rfl, hstop⟩

end Reader

/-- More ranges in flight change nothing for a read. -/
theorem Reader.Sound.append {r : Reader} {maxReadBytes : ℕ} {intervals : List ReadInterval}
    (h : r.Sound source maxReadBytes intervals) (more : List ReadInterval) :
    r.Sound source maxReadBytes (intervals ++ more) where
  bytes_eq := h.bytes_eq
  inherited := h.inherited
  within := h.within
  done := h.done
  fetching pending hfetching := by
    have hpending := h.fetching pending hfetching
    rwa [List.getElem?_append_left (List.getElem?_eq_some_iff.1 hpending).1]
  sharing overlap hsharing pending hmem := by
    rw [List.length_append]
    exact (h.sharing overlap hsharing pending hmem).trans_le (Nat.le_add_right _ _)

/-- What an accessor has, and all that is under way, are parts of the source. -/
structure Truthful (source : List UInt8) (initial : RangeSourceAccessor) (closed : Bool)
    (accessor : RangeSourceAccessor) (pendings : List PendingRange) (tasks : List FetchTask)
    (readers : List Reader) : Prop where
  same : initial.SameLimits accessor
  kept : accessor.Sound source
  ended : closed = true → accessor.cache = []
  ranges : ∀ p ∈ pendings, p.Sound source
  holes : ∀ t ∈ tasks, t.hole.Within source
  reads : ∀ r ∈ readers,
    r.Sound source accessor.maxReadBytes (pendings.map (·.toReadInterval))

namespace SharedSource

/-- What a source has, and all that is under way, are parts of its bytes. -/
def Sound (source : List UInt8) (initial : RangeSourceAccessor) (w : SharedSource) : Prop :=
  Truthful source initial w.closed w.accessor w.pendings w.tasks w.readers

variable {w : SharedSource} {reader pending task : ℕ} {r : Reader} {p : PendingRange}
  {t : FetchTask}

theorem Sound.of_reader (h : w.Sound source initial) (hr : w.readers[reader]? = some r) :
    r.Sound source w.accessor.maxReadBytes (w.pendings.map (·.toReadInterval)) :=
  h.reads r (List.mem_of_getElem? hr)

/-- The part of a read is not empty. -/
theorem Sound.part_pos (h : w.Sound source initial) (hr : w.readers[reader]? = some r)
    (hopen : r.Open) : r.cursor < r.partStop w.accessor.maxReadBytes :=
  Reader.cursor_lt_partStop ((h.of_reader hr).within hopen).1 h.kept.maxReadBytes_pos

theorem Sound.setReader (h : w.Sound source initial)
    (hr : r.Sound source w.accessor.maxReadBytes (w.pendings.map (·.toReadInterval))) :
    (w.setReader reader r).Sound source initial :=
  ⟨h.same, h.kept, h.ended, h.ranges, h.holes, forall_set h.reads hr⟩

/-- A range in flight keeps its place. -/
theorem Sound.modifyPending (h : w.Sound source initial) {f : PendingRange → PendingRange}
    (hinterval : ∀ p, (f p).toReadInterval = p.toReadInterval)
    (hf : ∀ p, w.pendings[pending]? = some p → p.Sound source → (f p).Sound source) :
    (w.modifyPending pending f).Sound source initial := by
  refine ⟨h.same, h.kept, h.ended, forall_modify h.ranges hf, h.holes, fun r hr => ?_⟩
  dsimp only [SharedSource.modifyPending]
  rw [map_modify hinterval]
  exact h.reads r hr

theorem Sound.modifyTask (h : w.Sound source initial) {f : FetchTask → FetchTask}
    (hf : ∀ t, (f t).hole = t.hole) : (w.modifyTask task f).Sound source initial :=
  ⟨h.same, h.kept, h.ended, h.ranges, forall_modify h.holes fun t _ ht => (hf t).symm ▸ ht, h.reads⟩

variable {accessor : RangeSourceAccessor}

theorem Sound.setAccessor (h : w.Sound source initial)
    (haccessor : accessor.Sound source) (hlimits : w.accessor.SameLimits accessor)
    (hended : w.closed = true → accessor.cache = []) : Sound source initial { w with accessor } :=
  ⟨h.same.trans hlimits, haccessor, hended, h.ranges, h.holes, hlimits.maxReadBytes_eq ▸ h.reads⟩

/-! ## Parts of a step -/

/-- A change of a range in flight that keeps its bytes. -/
theorem Sound.relabel (h : w.Sound source initial) {f : PendingRange → PendingRange}
    (hf : ∀ p, (f p).toReadInterval = p.toReadInterval ∧ (f p).inherited = p.inherited ∧
      (f p).holes = p.holes ∧ (f p).fetched = p.fetched ∧ (f p).outcome = p.outcome) :
    (w.modifyPending pending f).Sound source initial := by
  refine h.modifyPending (fun p => (hf p).1) fun p _ hp => ?_
  obtain ⟨hinterval, hinherited, hholes, hfetched, houtcome⟩ := hf p
  exact ⟨hinterval ▸ hp.within, hinherited ▸ hp.inherited, hholes ▸ hp.holes,
    hfetched ▸ hp.fetched, by rw [houtcome, hinterval]; exact hp.outcome⟩

theorem Sound.addWaiter (h : w.Sound source initial) (pending : ℕ) :
    (w.addWaiter pending).Sound source initial :=
  h.relabel fun _ => ⟨rfl, rfl, rfl, rfl, rfl⟩

theorem Sound.addWaiters (h : w.Sound source initial) (overlap : List ℕ) :
    (overlap.foldl SharedSource.addWaiter w).Sound source initial := by
  induction overlap generalizing w with
  | nil => exact h
  | cons pending overlap ih => exact ih (h.addWaiter pending)

theorem Sound.releasePendingWaiter (h : w.Sound source initial) (pending : ℕ) :
    (w.releasePendingWaiter pending).Sound source initial := by
  rw [SharedSource.releasePendingWaiter]
  split
  · exact h
  · have h' : (w.modifyPending pending fun p =>
        { p with waiters := p.waiters - 1 }).Sound source initial :=
      h.relabel fun _ => ⟨rfl, rfl, rfl, rfl, rfl⟩
    dsimp only
    split_ifs
    · exact h'.relabel fun _ => ⟨rfl, rfl, rfl, rfl, rfl⟩
    · exact h'
    · exact h'

theorem Sound.releaseAll (h : w.Sound source initial) (pendings : List ℕ) :
    (w.releaseAll pendings).Sound source initial := by
  induction pendings generalizing w with
  | nil => exact h
  | cons pending pendings ih => exact ih (h.releasePendingWaiter pending)

theorem Sound.failTask (h : w.Sound source initial) (task : ℕ) (fault : ReadFault) :
    (w.failTask task fault).Sound source initial := by
  rw [SharedSource.failTask]
  split
  · exact h
  · have htask : (w.modifyTask task fun t => { t with state := .ended }).Sound source initial :=
      h.modifyTask fun _ => rfl
    exact htask.relabel fun _ => ⟨rfl, rfl, rfl, rfl, rfl⟩

theorem Sound.rejectQueue (h : w.Sound source initial) : w.rejectQueue.Sound source initial := by
  have hfold (queue : List ℕ) (w : SharedSource) (h : w.Sound source initial) :
      (queue.foldl (fun w task => w.failTask task .closed) w).Sound source initial := by
    induction queue generalizing w with
    | nil => exact h
    | cons task queue ih => exact ih _ (h.failTask task .closed)
  exact hfold _ _ h

theorem Sound.releaseProviderPermit (h : w.Sound source initial) :
    w.releaseProviderPermit.Sound source initial := by
  rw [SharedSource.releaseProviderPermit]
  dsimp only
  split
  · exact Sound.rejectQueue h
  · split
    · exact h
    · exact Sound.modifyTask h fun _ => rfl

/-- What is assembled of a part is that of the source. -/
theorem Sound.assemble (h : w.Sound source initial) {extra : List RangeCoverage}
    (hextra : ∀ segment ∈ extra, segment.Of source) (hlt : offset < stop)
    {result : Option (List UInt8)}
    (heq : w.accessor.assemble offset stop extra = (result, accessor)) :
    Sound source initial { w with accessor } ∧ accessor = w.accessor.used offset stop ∧
      ∀ bytes, result = some bytes → bytes = part source offset stop := by
  obtain rfl : accessor = w.accessor.used offset stop := by
    rw [← RangeSourceAccessor.assemble_snd _ hlt.ne', heq]
  refine ⟨h.setAccessor h.kept.used ⟨rfl, rfl, rfl, rfl⟩ fun hclosed => ?_, rfl,
    fun bytes hbytes => ?_⟩
  · rw [RangeSourceAccessor.used, h.ended hclosed]
    rfl
  · exact ((RangeSourceAccessor.assemble_eq_some hlt h.kept.of hextra).1 (by rw [heq, hbytes])).2

/-! ## Steps -/

theorem Sound.startRead (h : w.Sound source initial) (offset length : ℕ) :
    (w.startRead offset length).Sound source initial := by
  refine ⟨h.same, h.kept, h.ended, h.ranges, h.holes, forall_append_singleton h.reads ?_⟩
  have hbytes : ([] : List UInt8) = part source offset (offset + 0) := (part_eq_nil le_rfl).symm
  dsimp only [SharedSource.startRead]
  split_ifs with houtside hclosed hzero
  · exact ⟨hbytes, nofun, fun hopen => absurd rfl (hopen _), nofun, nofun, nofun⟩
  · exact ⟨hbytes, nofun, fun hopen => absurd rfl (hopen _), nofun, nofun, nofun⟩
  · have hstate : (Reader.deliver { offset, stop := offset + length } []).state = .done (.ok []) :=
      if_pos (by rw [hzero]; exact le_rfl)
    refine ⟨hbytes, nofun, fun hopen => absurd hstate (hopen _), fun bytes hdone => ?_,
      fun _ hfetching => (nomatch hstate.symm.trans hfetching),
      fun _ hsharing => (nomatch hstate.symm.trans hsharing)⟩
    cases hstate.symm.trans hdone
    rw [Reader.deliver, hzero]
    have hsize := h.kept.size_eq
    exact ⟨hbytes, by dsimp only; omega⟩
  · have hsize := h.kept.size_eq
    refine ⟨hbytes, nofun, fun _ => ⟨?_, ?_⟩, nofun, nofun, nofun⟩
    · exact Nat.add_lt_add_left (Nat.pos_of_ne_zero hzero) offset
    · dsimp only
      omega

theorem Sound.beginPending (h : w.Sound source initial) (hr : w.readers[reader]? = some r)
    (hopen : r.Open) : (w.beginPending reader r (r.partStop w.accessor.maxReadBytes)).Sound
      source initial := by
  have hreader := h.of_reader hr
  obtain ⟨hlt, hstop⟩ := hreader.within hopen
  have hpart := h.part_pos hr hopen
  have hpartStop : r.partStop w.accessor.maxReadBytes ≤ source.length :=
    Reader.partStop_le.trans hstop
  have hholes := (missing_spec hpart.le (h.kept.proper hreader.inherited)).1.inside
  refine ⟨h.same, h.kept, h.ended, forall_append_singleton h.ranges ⟨⟨hpart, hpartStop⟩,
    hreader.inherited, fun hole hhole => ?_, nofun, nofun⟩, h.holes, ?_⟩
  · obtain ⟨-, hlt, hle⟩ := hholes hole hhole
    exact ⟨hlt, hle.trans hpartStop⟩
  · dsimp only [SharedSource.beginPending, SharedSource.setReader]
    rw [List.map_append]
    refine forall_set (fun r hr => (h.reads r hr).append _) ?_
    refine ⟨hreader.bytes_eq, hreader.inherited, fun _ => hreader.within hopen, nofun, ?_, nofun⟩
    rintro pending ⟨⟩
    rw [List.getElem?_append_right (List.length_map _).le, List.length_map, Nat.sub_self]
    rfl

theorem addWaiters_length (overlap : List ℕ) :
    (overlap.foldl addWaiter w).pendings.length = w.pendings.length := by
  induction overlap generalizing w with
  | nil => rfl
  | cons pending overlap ih =>
    exact (ih (w := w.addWaiter pending)).trans (List.length_modify _ _ _)

theorem mem_overlap {offset stop i : ℕ} (hi : i ∈ w.overlap offset stop) : i ∈ w.inflight ∧
    ∃ p, w.pendings[i]? = some p ∧ 0 < p.waiters ∧ p.meets offset stop := by
  obtain ⟨hmem, hoverlaps⟩ := List.mem_filter.1 hi
  refine ⟨hmem, ?_⟩
  rw [overlaps] at hoverlaps
  split at hoverlaps
  · rename_i p hp
    rw [Bool.and_eq_true, decide_eq_true_eq] at hoverlaps
    exact ⟨p, hp, hoverlaps⟩
  · cases hoverlaps

theorem Sound.shareReader (h : w.Sound source initial) (hr : w.readers[reader]? = some r)
    (hopen : r.Open) {overlap : List ℕ}
    (hvalid : ∀ pending ∈ overlap, pending < w.pendings.length) :
    (w.setReader reader { r with state := .sharing overlap }).Sound source initial := by
  obtain ⟨hbytes, hinherited, hwithin, -, -, -⟩ := h.of_reader hr
  refine h.setReader ⟨hbytes, hinherited, fun _ => hwithin hopen, fun _ => nofun, fun _ => nofun,
    fun _ hsharing pending hmem => ?_⟩
  cases hsharing
  rw [List.length_map]
  exact hvalid pending hmem

theorem Sound.takeHole (h : w.Sound source initial) (hp : w.pendings[pending]? = some p) :
    (w.takeHole pending p).Sound source initial := by
  rw [SharedSource.takeHole]
  split
  · exact h
  · rename_i hole holes heq
    have hholes := (h.ranges p (List.mem_of_getElem? hp)).holes
    rw [heq] at hholes
    obtain ⟨hhole, hholes⟩ := List.forall_mem_cons.1 hholes
    have h' : (w.modifyPending pending fun p => { p with holes }).Sound source initial :=
      h.modifyPending (fun _ => rfl) fun _ _ hp => ⟨hp.within, hp.inherited, hholes, hp.fetched,
        hp.outcome⟩
    have htask (t : FetchTask) (ht : t.hole = hole) :
        ((w.modifyPending pending fun p => { p with holes }).addTask t).Sound source initial :=
      ⟨h'.same, h'.kept, h'.ended, h'.ranges, forall_append_singleton h'.holes (ht ▸ hhole),
        h'.reads⟩
    dsimp only
    split_ifs
    · exact h
    · exact (htask _ rfl).failTask _ _
    · exact htask _ rfl
    · exact htask _ rfl

/-- What a settled range gives is a part of the source. -/
theorem Sound.coverage (h : w.Sound source initial) {segment : RangeCoverage}
    (hsegment : w.coverage pending = some segment) : segment.Of source := by
  rw [SharedSource.coverage] at hsegment
  split at hsegment
  · rename_i p hp
    have hsound := h.ranges p (List.mem_of_getElem? hp)
    split at hsegment
    · rename_i bytes houtcome
      cases hsegment
      exact ⟨hsound.outcome bytes houtcome, hsound.within.1, hsound.within.2⟩
    · cases hsegment
  · cases hsegment

/-- A read that waits no more has the bytes of its part, or those that others had of it. -/
theorem Sound.leave (h : w.Sound source initial) {r' : Reader} (hr : w.readers[reader]? = some r)
    (hwaits : (∃ overlap, r.state = .sharing overlap) ∨ ∃ pending, r.state = .fetching pending)
    (hresumes : w.Resumes r accessor r') :
    Sound source initial
      (SharedSource.setReader { w.releaseAll r.awaits with accessor } reader r') := by
  have hopen : r.Open := by
    intro result hdone
    rcases hwaits with ⟨_, hstate⟩ | ⟨_, hstate⟩
    · cases hdone.symm.trans hstate
    · cases hdone.symm.trans hstate
  have hreleased := h.releaseAll r.awaits
  have haccessor : (w.releaseAll r.awaits).accessor = w.accessor := by rw [releaseAll_eq]
  have hsame : ({ w.releaseAll r.awaits with accessor := w.accessor } : SharedSource) =
      w.releaseAll r.awaits := by rw [← haccessor]
  have hr' : (w.releaseAll r.awaits).readers[reader]? = some r := by rwa [releaseAll_readers]
  have hreader := hreleased.of_reader hr'
  have hlt := hreleased.part_pos hr' hopen
  have hshared (overlap : List ℕ) : ∀ segment ∈ r.inherited ++ overlap.filterMap w.coverage,
      segment.Of source := by
    intro segment hmem
    rcases List.mem_append.1 hmem with hmem | hmem
    · exact hreader.inherited segment hmem
    · obtain ⟨pending, -, hsegment⟩ := List.mem_filterMap.1 hmem
      exact h.coverage hsegment
  cases hresumes with
  | share hstate hassemble =>
    rw [← haccessor] at hassemble
    obtain ⟨h', rfl, hbytes⟩ := hreleased.assemble (hshared _) hlt hassemble
    rw [hbytes _ rfl]
    exact h'.setReader (hreader.deliver hopen hreleased.kept.maxReadBytes_pos)
  | retry hstate hassemble =>
    rw [← haccessor] at hassemble
    obtain ⟨h', rfl, -⟩ := hreleased.assemble (hshared _) hlt hassemble
    refine h'.setReader (r := { r with inherited := _, state := .checking }) ?_
    exact ⟨hreader.bytes_eq, hshared _, fun _ => hreader.within hopen, fun _ => nofun,
      fun _ => nofun, fun _ => nofun⟩
  | reject hmem hp houtcome =>
    rw [hsame]
    exact hreleased.setReader (hreader.fail _)
  | @resume pending p bytes hstate hp houtcome =>
    -- The range of the read is its part.
    have hinterval := (h.of_reader hr).fetching pending hstate
    rw [List.getElem?_map, hp] at hinterval
    obtain ⟨hoffset, hstop⟩ := ReadInterval.mk.inj (Option.some.inj hinterval)
    rw [hsame, (h.ranges p (List.mem_of_getElem? hp)).outcome bytes houtcome, hoffset, hstop,
      ← haccessor]
    exact hreleased.setReader (hreader.deliver hopen hreleased.kept.maxReadBytes_pos)
  | cancel =>
    rw [hsame]
    exact hreleased.setReader ⟨hreader.bytes_eq, hreader.inherited,
      fun hopen => absurd rfl (hopen _), nofun, nofun, nofun⟩

/-- What a range in flight is settled with are its bytes. -/
theorem Sound.finish (h : w.Sound source initial) (hp : w.pendings[pending]? = some p)
    {outcome : Except ReadFault (List UInt8)}
    (hsettles : w.Settles p accessor outcome) :
    Sound source initial (SharedSource.modifyPending { w with accessor } pending fun p =>
      { p with outcome := some outcome }) := by
  have hpending := h.ranges p (List.mem_of_getElem? hp)
  have hextra : ∀ segment ∈ p.inherited ++ p.fetched, segment.Of source :=
    fun segment hmem => (List.mem_append.1 hmem).elim (hpending.inherited segment)
      (hpending.fetched segment)
  have hsettled : Sound source initial { w with accessor } ∧
      ∀ bytes, outcome = .ok bytes → bytes = part source p.offset p.stop := by
    cases hsettles with
    | fail hfailure => exact ⟨h, nofun⟩
    | whole hexact =>
      -- One request for all of the range.
      refine ⟨h, fun bytes hbytes => ?_⟩
      cases hbytes
      exact (hpending.fetched _ (by
        rw [RangeSourceAccessor.exactFetched_eq_some.1 hexact]
        exact List.mem_singleton_self _)).bytes_eq
    | assemble hassemble =>
      obtain ⟨h', rfl, hbytes⟩ := h.assemble hextra hpending.within.1 hassemble
      refine ⟨h', fun bytes heq => ?_⟩
      cases heq
      exact hbytes _ rfl
    | unavailable hassemble =>
      obtain ⟨h', rfl, -⟩ := h.assemble hextra hpending.within.1 hassemble
      exact ⟨h', nofun⟩
  refine hsettled.1.modifyPending (fun _ => rfl) fun p' hp' hsound => ?_
  obtain rfl := Option.some.inj (hp.symm.trans hp')
  exact ⟨hsound.within, hsound.inherited, hsound.holes, hsound.fetched,
    fun bytes hbytes => hsettled.2 bytes (Option.some.inj hbytes)⟩

theorem Sound.close (h : w.Sound source initial) : w.close.Sound source initial := by
  have hcancelled (pendings : List ℕ) {w : SharedSource} (h : w.Sound source initial) :
      (w.cancelPendings pendings).Sound source initial := by
    induction pendings generalizing w with
    | nil => exact h
    | cons pending pendings ih => exact ih (h.relabel fun _ => ⟨rfl, rfl, rfl, rfl, rfl⟩)
  rw [SharedSource.close]
  split
  · exact h
  · have hcleared := h.setAccessor h.kept.clear ⟨rfl, rfl, rfl, rfl⟩ fun _ => rfl
    exact Sound.rejectQueue (hcancelled w.inflight ⟨hcleared.same, hcleared.kept, fun _ => rfl,
      hcleared.ranges, hcleared.holes, hcleared.reads⟩)

/-- Nothing that an event does breaks the invariant. -/
theorem Sound.acts (h : w.Sound source initial) {w' : SharedSource} (hacts : Acts source w w') :
    w'.Sound source initial := by
  cases hacts with
  | same => exact h
  | read offset length => exact h.startRead offset length
  | refuse hr hstate hclosed => exact h.setReader ((h.of_reader hr).fail .closed)
  | reuse hr hstate hassemble =>
    have hopen := Reader.open_of_checking hstate
    have hreader := h.of_reader hr
    obtain ⟨h', rfl, hbytes⟩ := h.assemble hreader.inherited (h.part_pos hr hopen) hassemble
    rw [hbytes _ rfl]
    exact h'.setReader (hreader.deliver hopen h.kept.maxReadBytes_pos)
  | begin hr hstate hassemble halone =>
    have hopen := Reader.open_of_checking hstate
    obtain ⟨h', rfl, -⟩ := h.assemble (h.of_reader hr).inherited (h.part_pos hr hopen) hassemble
    exact h'.beginPending hr hopen
  | join hr hstate hassemble =>
    -- The read waits for others.
    have hopen := Reader.open_of_checking hstate
    obtain ⟨h', rfl, -⟩ := h.assemble (h.of_reader hr).inherited (h.part_pos hr hopen) hassemble
    refine (h'.addWaiters _).shareReader ?_ hopen fun pending hmem => ?_
    · rw [addWaiters_readers]
      exact hr
    · rw [addWaiters_length]
      obtain ⟨-, p, hp, -⟩ := mem_overlap hmem
      exact (List.getElem?_eq_some_iff.1 hp).1
  | leave hr hwaits hresumes => exact h.leave hr hwaits hresumes
  | take hp => exact h.takeHole hp
  | answer ht hstate hopen =>
    have hhole := h.holes _ (List.mem_of_getElem? ht)
    have hreleased := h.releaseProviderPermit
    obtain ⟨haccessor, hlimits⟩ := hreleased.kept.insert hhole
    have hinserted := hreleased.setAccessor haccessor hlimits fun hclosed => by
      rw [releaseProviderPermit_closed, hopen] at hclosed
      cases hclosed
    refine Sound.modifyPending (Sound.modifyTask hinserted ?_) ?_ fun p _ hp => ?_
    · exact fun _ => rfl
    · exact fun _ => rfl
    · exact ⟨hp.within, hp.inherited, hp.holes,
        forall_append_singleton hp.fetched ⟨rfl, hhole.1, hhole.2⟩, hp.outcome⟩
  | fail ht hstate hfault => exact h.releaseProviderPermit.failTask _ _
  | dequeue ht hstate hp hcancelled =>
    exact Sound.failTask (w := { w with providerQueue := w.providerQueue.erase _ }) h _ _
  | finish hp hsettles => exact h.finish hp hsettles
  | settle hp =>
    exact h.relabel (f := fun p => { p with settled := true }) fun _ => ⟨rfl, rfl, rfl, rfl, rfl⟩
  | close => exact h.close

/-! ## Runs -/

/-- A new accessor, with nothing under way. -/
def new (size maxCacheBytes maxReadBytes : ℕ) (maxConcurrency : Option ℕ) : SharedSource :=
  { accessor := .new size maxCacheBytes maxReadBytes maxConcurrency }

theorem sound_after (source : List UInt8) (maxCacheBytes maxReadBytes : ℕ)
    (maxConcurrency : Option ℕ) (events : List SourceEvent) :
    (after source (new source.length maxCacheBytes maxReadBytes maxConcurrency) events).Sound
      source (.new source.length maxCacheBytes maxReadBytes maxConcurrency) :=
  Run.invariant (fun w event h => h.acts (acts_step source w event)) ⟨.refl _,
    RangeSourceAccessor.sound_new source maxCacheBytes maxReadBytes maxConcurrency, fun _ => rfl,
    nofun, nofun, nofun⟩ events

/-- However reads run at the same time, and whatever the provider does: a read that ends with bytes
    has those of the source, and the accessor keeps parts of the source, no more than its budget,
    knows how many bytes they have, and keeps nothing once it is closed. -/
theorem reads_sound (source : List UInt8) (maxCacheBytes maxReadBytes : ℕ)
    (maxConcurrency : Option ℕ) (events : List SourceEvent) :
    let w := after source (new source.length maxCacheBytes maxReadBytes maxConcurrency) events
    (∀ r ∈ w.readers, ∀ bytes, r.state = .done (.ok bytes) →
      r.stop ≤ source.length ∧ bytes = part source r.offset r.stop) ∧
    (∀ entry ∈ w.accessor.cache, entry.bytes = part source entry.offset entry.stop) ∧
    w.accessor.cacheBytes = (w.accessor.cache.map fun entry => entry.bytes.length).sum ∧
    w.accessor.cacheBytes ≤ maxCacheBytes ∧ (w.closed = true → w.accessor.cache = []) := by
  have h := sound_after source maxCacheBytes maxReadBytes maxConcurrency events
  obtain ⟨q, hqueue, hle⟩ := h.kept.queue
  refine ⟨fun r hr bytes hdone => ((h.reads r hr).done bytes hdone).symm, fun entry hentry => ?_,
    ?_, ?_, h.ended⟩
  · exact (h.kept.of _ (List.mem_map_of_mem hentry)).bytes_eq
  · exact hqueue.cacheBytes_eq.trans (total_perm hqueue.perm)
  · rw [hqueue.cacheBytes_eq]
    exact hle.trans_eq h.same.maxCacheBytes_eq

end SharedSource

end Tabulark.Source
