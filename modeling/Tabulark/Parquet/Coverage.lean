import Tabulark.Parquet.Sparse

/-!
# What the sparse cache covers

After any history of insertions and releases the cached parts are those of the
source, and a byte is cached if it was inserted and not released since. Every
lookup is then a statement about the longest cached part from an offset on.
-/

namespace Tabulark.Parquet

open Segments

variable {source : List UInt8} {m : List (Segment UInt8)}

/-! ## Insertion -/

/-- What `absorb` makes of the window from `a` to `b` and some segments. -/
structure Absorbed (m : List (Segment UInt8)) (a b : ℕ)
    (w : (ℕ × ℕ) × List (Segment UInt8) × List (Segment UInt8)) : Prop where
  split : m = w.2.1 ++ w.2.2
  le : w.1.1 ≤ a ∧ b ≤ w.1.2
  inside : ∀ s ∈ w.2.1, w.1.1 ≤ s.1 ∧ stop s ≤ w.1.2
  after : ∀ s ∈ w.2.2, w.1.2 ≤ s.1
  covered : ∀ j, w.1.1 ≤ j → j < w.1.2 → (a ≤ j ∧ j < b) ∨ Covers w.2.1 j
  start : w.1.1 = a ∨ ∃ s ∈ w.2.1, w.1.1 = s.1

/-- The window grows over segments that it reaches, without a gap. -/
theorem absorbed_absorb (coalesceAdjacent : Bool) (h : Tiled source m) {a b : ℕ} (hab : a ≤ b)
    (hreach : ∀ s ∈ m, a ≤ stop s) :
    Absorbed m a b (SparseChunkReader.absorb coalesceAdjacent a b m) := by
  induction m generalizing a b with
  | nil => exact ⟨rfl, ⟨le_rfl, le_rfl⟩, by simp [SparseChunkReader.absorb],
      by simp [SparseChunkReader.absorb], fun j hj hj' => .inl ⟨hj, hj'⟩, .inl rfl⟩
  | cons s m ih =>
    obtain ⟨⟨hne, hpart⟩, hle, hm⟩ := Tiled.cons_iff.1 h
    have hlt := (stop_le_of_part hne hpart).1
    rw [SparseChunkReader.absorb]
    split_ifs with hbeyond
    · have hstart : b ≤ s.1 := by
        rcases hbeyond with hbeyond | ⟨_, heq⟩
        · exact hbeyond.le
        · exact heq.ge
      exact ⟨rfl, ⟨le_rfl, le_rfl⟩, by simp, List.forall_mem_cons.2
        ⟨hstart, fun s' hs' => hstart.trans (hlt.le.trans (hle s' hs'))⟩,
        fun j hj hj' => .inl ⟨hj, hj'⟩, .inl rfl⟩
    · rw [not_or, not_lt] at hbeyond
      have hs := hreach s List.mem_cons_self
      have hgrown : min a s.1 ≤ max b (stop s) := by omega
      have ih := ih hm hgrown fun s' hs' =>
        (min_le_left _ _).trans (hreach s' (List.mem_cons_of_mem _ hs'))
      have hle' := ih.le
      refine ⟨congrArg _ ih.split, ?_, List.forall_mem_cons.2 ⟨?_, ih.inside⟩, ih.after,
        fun j hj hj' => ?_, ?_⟩
      · dsimp only
        omega
      · dsimp only
        omega
      · rw [covers_cons, Within]
        rcases ih.covered j hj hj' with hin | hin
        · have hbetween : (a ≤ j ∧ j < b) ∨ s.1 ≤ j ∧ j < stop s := by omega
          exact hbetween.imp_right .inl
        · exact .inr (.inr hin)
      · rcases ih.start with heq | ⟨s', hs', heq⟩
        · rcases min_choice a s.1 with hmin | hmin
          · exact .inl (heq.trans hmin)
          · exact .inr ⟨s, List.mem_cons_self, heq.trans hmin⟩
        · exact .inr ⟨s', List.mem_cons_of_mem _ hs', heq⟩

/-- What an insertion of the bytes from `a` to `b` merges. -/
structure Merges (m : List (Segment UInt8)) (a b : ℕ) (w : MergeWindow) : Prop where
  split : m = w.before ++ (w.merged ++ w.after)
  before : ∀ s ∈ w.before, stop s ≤ w.start
  absorbed : Absorbed (w.merged ++ w.after) a b ((w.start, w.stop), w.merged, w.after)

theorem merges_mergeWindow {r : SparseChunkReader} (h : Tiled source r.segments) {a b : ℕ}
    (hab : a ≤ b) : Merges r.segments a b (r.mergeWindow a b) := by
  obtain ⟨hbefore, hafter⟩ := h.split (p := (· < a)) fun _ _ => lt_of_le_of_lt
  have hm := List.takeWhile_append_dropWhile (p := fun s : Segment UInt8 => s.1 < a)
    (l := r.segments)
  -- Segments from `first` on reach `a`, and those before it end by `a`.
  have hmerges : ∀ first rest, r.segments = first ++ rest → (∀ s ∈ first, stop s ≤ a) →
      (∀ s ∈ rest, a ≤ stop s) → ∀ w, w = SparseChunkReader.absorb r.coalesceAdjacent a b rest →
      Merges r.segments a b ⟨first, w.2.1, w.2.2, w.1.1, w.1.2⟩ := by
    rintro first rest hsplit hfirst hrest w rfl
    have htiled : Tiled source (first ++ rest) := hsplit ▸ h
    have habsorbed := absorbed_absorb r.coalesceAdjacent
      (htiled.sublist (List.sublist_append_right first rest)) hab hrest
    refine ⟨hsplit.trans (congrArg _ habsorbed.split), fun s hs => ?_, ?_⟩
    · rcases habsorbed.start with heq | ⟨s', hs', heq⟩
      · exact (hfirst s hs).trans heq.ge
      · dsimp only
        rw [heq]
        refine (List.pairwise_append.1 htiled.ordered).2.2 s hs s' ?_
        rw [habsorbed.split]
        exact List.mem_append_left _ hs'
    · exact habsorbed.split ▸ habsorbed
  rw [SparseChunkReader.mergeWindow]
  generalize r.segments.takeWhile (fun s => s.1 < a) = before at hbefore hm
  generalize r.segments.dropWhile (fun s => s.1 < a) = after at hafter hm
  have hafter' : ∀ s ∈ after, a ≤ stop s := fun s hs => by
    have hstart := hafter s hs
    rw [stop]
    omega
  cases hlast : before.getLast? with
  | none =>
    rw [List.getLast?_eq_none_iff] at hlast
    subst hlast
    exact hmerges [] after hm.symm (by simp) hafter' _ rfl
  | some previous =>
    obtain ⟨init, rfl⟩ := List.getLast?_eq_some_iff.1 hlast
    have hinit : ∀ s ∈ init, stop s ≤ previous.1 := by
      rw [← hm, List.append_assoc] at h
      exact fun s hs => (List.pairwise_append.1 h.ordered).2.2 s hs previous List.mem_cons_self
    have hprevious := hbefore previous (List.mem_append_right _ (List.mem_singleton_self _))
    dsimp only
    split_ifs with htouch
    · rw [List.dropLast_concat]
      refine hmerges init (previous :: after) ?_ (fun s hs => (hinit s hs).trans hprevious.le)
        (List.forall_mem_cons.2 ⟨?_, hafter'⟩) _ rfl
      · rw [← hm, List.append_assoc, List.singleton_append]
      · rcases htouch with hlt | ⟨_, heq⟩
        · exact hlt.le
        · exact heq.ge
    · rw [not_or, not_lt] at htouch
      refine hmerges (init ++ [previous]) after hm.symm (fun s hs => ?_) hafter' _ rfl
      rcases List.mem_append.1 hs with hs | hs
      · exact (hinit s hs).trans hprevious.le
      · rw [List.mem_singleton.1 hs]
        exact htouch.1

/-- A buffer has the bytes of the source, from `start` on, at the positions `p`. -/
def Agrees (source : List UInt8) (start : ℕ) (p : ℕ → Prop) (buffer : List UInt8) : Prop :=
  ∀ j, p (start + j) → buffer[j]? = source[start + j]?

variable {start : ℕ}

theorem length_overwrite {buffer bytes : List UInt8} (h : start + bytes.length ≤ buffer.length) :
    (overwrite buffer start bytes).length = buffer.length := by
  simp only [overwrite, List.length_append, List.length_take, List.length_drop]
  omega

theorem getElem?_overwrite {buffer bytes : List UInt8}
    (h : start + bytes.length ≤ buffer.length) (j : ℕ) :
    (overwrite buffer start bytes)[j]? =
      if start ≤ j ∧ j < start + bytes.length then bytes[j - start]? else buffer[j]? := by
  have htake : (buffer.take start).length = start := by
    rw [List.length_take]
    omega
  rw [overwrite, List.append_assoc]
  rcases lt_or_ge j start with hlt | hge
  · rw [List.getElem?_append_left (by omega), List.getElem?_take_of_lt hlt, if_neg (by omega)]
  · rw [List.getElem?_append_right (by omega), htake]
    rcases lt_or_ge (j - start) bytes.length with hlt | hge'
    · rw [List.getElem?_append_left hlt, if_pos (by omega)]
    · rw [List.getElem?_append_right hge', List.getElem?_drop, if_neg (by omega)]
      congr 1
      omega

/-- A part of the source is written at its own place. -/
theorem Agrees.overwrite {p : ℕ → Prop} {buffer : List UInt8} {s : Segment UInt8}
    (h : Agrees source start p buffer) (hstart : start ≤ s.1)
    (hstop : stop s ≤ start + buffer.length) (hpart : s.2 <+: source.drop s.1) :
    Agrees source start (fun i => p i ∨ Within s i) (overwrite buffer (s.1 - start) s.2) := by
  intro j hj
  rw [stop] at hstop
  rw [getElem?_overwrite (by omega)]
  split_ifs with hin
  · obtain ⟨rest, hrest⟩ := hpart
    have hjs : (source.drop s.1)[j - (s.1 - start)]? = s.2[j - (s.1 - start)]? := by
      rw [← hrest, List.getElem?_append_left (by omega)]
    rw [← hjs, List.getElem?_drop]
    congr 1
    omega
  · rcases hj with hj | ⟨hle, hlt⟩
    · exact h j hj
    · rw [stop] at hlt
      omega

theorem agrees_foldl {p : ℕ → Prop} {buffer : List UInt8} (h : Agrees source start p buffer)
    (hin : ∀ s ∈ m, start ≤ s.1 ∧ stop s ≤ start + buffer.length)
    (hpart : ∀ s ∈ m, s.2 <+: source.drop s.1) :
    (m.foldl (fun merged s => overwrite merged (s.1 - start) s.2) buffer).length =
        buffer.length ∧
      Agrees source start (fun i => p i ∨ Covers m i)
        (m.foldl (fun merged s => overwrite merged (s.1 - start) s.2) buffer) := by
  induction m generalizing p buffer with
  | nil => exact ⟨rfl, fun j hj => h j (hj.resolve_right covers_nil)⟩
  | cons s m ih =>
    obtain ⟨hs, hm⟩ := List.forall_mem_cons.1 hin
    obtain ⟨hspart, hmpart⟩ := List.forall_mem_cons.1 hpart
    have hlength : (overwrite buffer (s.1 - start) s.2).length = buffer.length := by
      refine length_overwrite ?_
      obtain ⟨hle, hstop⟩ := hs
      rw [stop] at hstop
      omega
    obtain ⟨hlength', hagrees⟩ :=
      ih (h.overwrite hs.1 hs.2 hspart) (by rw [hlength]; exact hm) hmpart
    refine ⟨hlength'.trans hlength, fun j hj => hagrees j ?_⟩
    dsimp only at hj ⊢
    rwa [or_assoc, ← covers_cons]

/-- A buffer that has all of the source's bytes is a window of it. -/
theorem Agrees.eq_take {p : ℕ → Prop} {buffer : List UInt8} (h : Agrees source start p buffer)
    (hall : ∀ j, start ≤ j → j < start + buffer.length → p j) :
    buffer = (source.drop start).take buffer.length := by
  refine List.ext_getElem? fun j => ?_
  rcases lt_or_ge j buffer.length with hlt | hge
  · rw [List.getElem?_take_of_lt hlt, List.getElem?_drop]
    exact h j (hall _ (by omega) (by omega))
  · rw [List.getElem?_eq_none hge, List.getElem?_eq_none (by rw [List.length_take]; omega)]

namespace Merges

variable {a b : ℕ} {w : MergeWindow} {s : Segment UInt8}

/-- The merged segment is in place of those that it merges. -/
theorem replace (hw : Merges m a b w) (h : Tiled source m) (hab : a < b)
    (hstart : s.1 = w.start) (hstop : stop s = w.stop) (hpart : s.2 <+: source.drop s.1) :
    Tiled source (w.before ++ s :: w.after) ∧
      ∀ i, Covers (w.before ++ s :: w.after) i ↔ Covers m i ∨ (a ≤ i ∧ i < b) := by
  obtain ⟨hsplit, hbefore, habsorbed⟩ := hw
  have hwindow := habsorbed.le
  dsimp only at hwindow
  rw [hsplit] at h
  have hrest := h.sublist (List.sublist_append_right _ _)
  have hne : s.2 ≠ [] := fun hnil => by
    rw [stop, hnil, List.length_nil] at hstop
    omega
  constructor
  · refine (h.sublist (List.sublist_append_left _ _)).append
      (Tiled.cons_iff.2 ⟨⟨hne, hpart⟩, fun s' hs' => ?_,
        hrest.sublist (List.sublist_append_right _ _)⟩) fun s' hs' => ?_
    · exact hstop.le.trans (habsorbed.after s' hs')
    · refine List.forall_mem_cons.2 ⟨(hbefore s' hs').trans hstart.ge, fun t ht => ?_⟩
      exact (List.pairwise_append.1 h.ordered).2.2 s' hs' t (List.mem_append_right _ ht)
  · intro i
    have hmerged : Within s i ↔ (a ≤ i ∧ i < b) ∨ Covers w.merged i := by
      rw [Within, hstart, hstop]
      constructor
      · exact fun hin => habsorbed.covered i hin.1 hin.2
      · rintro (⟨hle, hlt⟩ | ⟨t, ht, hle, hlt⟩)
        · omega
        · obtain ⟨hle', hlt'⟩ := habsorbed.inside t ht
          exact ⟨hle'.trans hle, hlt.trans_le hlt'⟩
    rw [hsplit, covers_append, covers_append, covers_append, covers_cons, hmerged]
    tauto

/-- An insertion that merges nothing has its own range. -/
theorem eq_of_isEmpty (hw : Merges m a b w) (hab : a < b) (hempty : w.merged.isEmpty) :
    w.start = a ∧ w.stop = b := by
  have hnil := List.isEmpty_iff.1 hempty
  obtain ⟨-, -, habsorbed⟩ := hw
  have hle := habsorbed.le
  have hstart : w.start = a := by
    rcases habsorbed.start with heq | ⟨s, hs, -⟩
    · exact heq
    · dsimp only at hs
      rw [hnil] at hs
      cases hs
  refine ⟨hstart, Nat.le_antisymm (not_lt.1 fun hlt => ?_) hle.2⟩
  rcases habsorbed.covered b (hle.1.trans hab.le) hlt with ⟨_, hlt⟩ | ⟨s, hs, -⟩
  · exact lt_irrefl b hlt
  · dsimp only at hs
    rw [hnil] at hs
    cases hs

/-- The merged buffer is the source's bytes of the merged range. -/
theorem mergedBytes_eq (hw : Merges m a b w) (h : Tiled source m) (hab : a < b)
    (hb : b ≤ source.length) {bytes : List UInt8} (hbytes : bytes = (source.drop a).take (b - a)) :
    (SparseChunkReader.mergedBytes w (w.stop - w.start) a bytes).length = w.stop - w.start ∧
      SparseChunkReader.mergedBytes w (w.stop - w.start) a bytes =
        (source.drop w.start).take (w.stop - w.start) := by
  obtain ⟨hsplit, -, habsorbed⟩ := hw
  have hwindow := habsorbed.le
  dsimp only at hwindow
  have hpart : ∀ s ∈ w.merged, s.2 <+: source.drop s.1 := fun s hs =>
    h.part s (hsplit ▸ List.mem_append_right _ (List.mem_append_left _ hs))
  have hlength : bytes.length = b - a := by
    rw [hbytes, List.length_take, List.length_drop]
    omega
  have hin : ∀ s ∈ w.merged, w.start ≤ s.1 ∧
      stop s ≤ w.start + (List.replicate (w.stop - w.start) (0 : UInt8)).length := fun s hs => by
    obtain ⟨hle, hle'⟩ := habsorbed.inside s hs
    rw [List.length_replicate]
    dsimp only at hle hle'
    omega
  have hnone : Agrees source w.start (fun _ => False)
      (List.replicate (w.stop - w.start) 0) := fun _ hfalse => hfalse.elim
  obtain ⟨hfolded, hagrees⟩ := agrees_foldl hnone hin hpart
  rw [List.length_replicate] at hfolded
  have hincoming : Agrees source w.start
      (fun i => (False ∨ Covers w.merged i) ∨ Within (a, bytes) i)
      (SparseChunkReader.mergedBytes w (w.stop - w.start) a bytes) :=
    hagrees.overwrite hwindow.1 (by rw [hfolded, stop, hlength]; omega)
      (by rw [hbytes]; exact List.take_prefix ..)
  have htotal : (SparseChunkReader.mergedBytes w (w.stop - w.start) a bytes).length =
    w.stop - w.start := by
    rw [SparseChunkReader.mergedBytes, length_overwrite (by rw [hfolded, hlength]; omega), hfolded]
  refine ⟨htotal, (hincoming.eq_take fun j hle hlt => ?_).trans (by rw [htotal])⟩
  rw [htotal] at hlt
  have hcovered := habsorbed.covered j hle (by dsimp only; omega)
  rw [Within, stop, hlength]
  dsimp only at hcovered ⊢
  rcases hcovered with hin | hin
  · exact .inr (by omega)
  · exact .inl (.inr hin)

end Merges

variable {r r' : SparseChunkReader} {action : ParquetReadBytesAction} {bytes : List UInt8}

theorem stop_eq_ok {stop : ℕ} (h : action.stop = .ok stop) :
    stop = action.offset + action.length ∧ stop ≤ u64Max := by
  obtain ⟨hle, rfl⟩ := checkedAdd_eq_ok.1 h
  exact ⟨rfl, hle⟩

/-- An insertion of the source's bytes adds their positions to the cached ones. -/
theorem insert_spec (h : Tiled source r.segments) (hsource : r.sourceLength = source.length)
    (hlength : 0 < action.length)
    (hbytes : bytes = (source.drop action.offset).take action.length)
    (hok : r.insert action bytes = .ok r') :
    r'.sourceLength = source.length ∧ Tiled source r'.segments ∧
      ∀ i, Covers r'.segments i ↔
        Covers r.segments i ∨ (action.offset ≤ i ∧ i < action.offset + action.length) := by
  unfold SparseChunkReader.insert at hok
  dsimp only at hok
  split_ifs at hok with hmismatch
  obtain ⟨stop, hstop, hok⟩ := Result.bind_eq_ok.1 hok
  obtain ⟨rfl, -⟩ := stop_eq_ok hstop
  have hab : action.offset < action.offset + action.length := Nat.lt_add_of_pos_right hlength
  have hw := merges_mergeWindow (r := r) h hab.le
  generalize r.mergeWindow action.offset (action.offset + action.length) = w at hw hok
  split_ifs at hok with hbound hempty
  · obtain ⟨hstart, hend⟩ := hw.eq_of_isEmpty hab hempty
    cases hok
    obtain ⟨htiled, hcovers⟩ := hw.replace (s := (action.offset, bytes)) h hab hstart.symm
      (by rw [hend, Segments.stop, not_not.1 hmismatch]) (hbytes ▸ List.take_prefix ..)
    exact ⟨hsource, htiled, hcovers⟩
  · obtain ⟨mergedLength, hmerged, hok⟩ := Result.bind_eq_ok.1 hok
    obtain rfl := toUsize_eq_ok hmerged
    cases hok
    have hstop' : action.offset + action.length ≤ source.length := by omega
    have hwindow : bytes =
        (source.drop action.offset).take (action.offset + action.length - action.offset) := by
      rw [hbytes, Nat.add_sub_cancel_left]
    obtain ⟨hmergedLength, hmergedBytes⟩ := hw.mergedBytes_eq h hab hstop' hwindow
    have hle := hw.absorbed.le
    dsimp only at hle
    obtain ⟨htiled, hcovers⟩ := hw.replace h hab (s := (w.start, SparseChunkReader.mergedBytes w
      (w.stop - w.start) action.offset bytes)) rfl (by rw [Segments.stop, hmergedLength]; omega)
      (by rw [hmergedBytes]; exact List.take_prefix ..)
    exact ⟨hsource, htiled, hcovers⟩

/-! ## Release -/

/-- Parts of the source that have the positions from `a` to `b` without those in `p`. -/
structure Kept (source : List UInt8) (m : List (Segment UInt8)) (a b : ℕ) (p : ℕ → Prop) :
    Prop where
  tiled : Tiled source m
  inside : ∀ s ∈ m, a ≤ s.1 ∧ stop s ≤ b
  covers : ∀ i, Covers m i ↔ (a ≤ i ∧ i < b) ∧ ¬p i

variable {a b c : ℕ} {p p' : ℕ → Prop} {m' : List (Segment UInt8)} {s : Segment UInt8}

theorem Kept.nil (hab : b ≤ a) : Kept source [] a b p :=
  ⟨.nil source, by simp, fun i => iff_of_false covers_nil fun h => by omega⟩

theorem Kept.append (h : Kept source m a b p) (h' : Kept source m' b c p) (hab : a ≤ b)
    (hbc : b ≤ c) : Kept source (m ++ m') a c p := by
  refine ⟨h.tiled.append h'.tiled fun s hs s' hs' => (h.inside s hs).2.trans (h'.inside s' hs').1,
    fun s hs => ?_, fun i => ?_⟩
  · rcases List.mem_append.1 hs with hs | hs
    · exact ⟨(h.inside s hs).1, (h.inside s hs).2.trans hbc⟩
    · exact ⟨hab.trans (h'.inside s hs).1, (h'.inside s hs).2⟩
  · rw [covers_append, h.covers, h'.covers, ← or_and_right]
    refine and_congr_left' ?_
    omega

/-- Positions after the parts that are all in `p` change nothing. -/
theorem Kept.extend (h : Kept source m a b p) (hbc : b ≤ c)
    (hp : ∀ i, a ≤ i → b ≤ i → i < c → p i) : Kept source m a c p := by
  refine ⟨h.tiled, fun s hs => ⟨(h.inside s hs).1, (h.inside s hs).2.trans hbc⟩, fun i => ?_⟩
  rw [h.covers]
  constructor
  · exact fun ⟨⟨hle, hlt⟩, hnot⟩ => ⟨⟨hle, hlt.trans_le hbc⟩, hnot⟩
  · exact fun ⟨⟨hle, hlt⟩, hnot⟩ => ⟨⟨hle, not_le.1 fun hge => hnot (hp i hle hge hlt)⟩, hnot⟩

theorem Kept.mono (h : Kept source m a b p) (hp : ∀ i, a ≤ i → i < b → (p i ↔ p' i)) :
    Kept source m a b p' :=
  ⟨h.tiled, h.inside, fun i => (h.covers i).trans
    (and_congr_right fun ⟨hle, hlt⟩ => not_congr (hp i hle hlt))⟩

/-- A part of a segment. -/
theorem kept_piece (hpart : s.2 <+: source.drop s.1) (ha : s.1 ≤ a) (hb : b ≤ stop s)
    (hp : ∀ i, a ≤ i → i < b → ¬p i) :
    Kept source (if a < b then [(a, (s.2.drop (a - s.1)).take (b - a))] else []) a b p := by
  split_ifs with hab
  · have hlength : ((s.2.drop (a - s.1)).take (b - a)).length = b - a := by
      rw [stop] at hb
      rw [List.length_take, List.length_drop]
      omega
    have hstop : stop (a, (s.2.drop (a - s.1)).take (b - a)) = b := by
      rw [stop, hlength]
      omega
    refine ⟨Tiled.cons_iff.2 ⟨⟨fun hnil => ?_, ?_⟩, by simp, .nil source⟩,
      by simp [hstop], fun i => ?_⟩
    · have hzero := congrArg List.length hnil
      rw [hlength, List.length_nil] at hzero
      omega
    · rw [drop_part hpart ha (hab.le.trans hb), List.take_take]
      exact List.take_prefix _ _
    · rw [covers_cons, Within, hstop]
      refine ⟨fun h => ?_, fun h => .inl h.1⟩
      have hin := h.resolve_right covers_nil
      exact ⟨hin, hp i hin.1 hin.2⟩
  · exact .nil (not_lt.1 hab)

/-- The rest of a segment. -/
theorem kept_rest (hpart : s.2 <+: source.drop s.1) (ha : s.1 ≤ a)
    (hp : ∀ i, a ≤ i → i < stop s → ¬p i) :
    Kept source (if a < stop s then [(a, s.2.drop (a - s.1))] else []) a (stop s) p := by
  have htake : (s.2.drop (a - s.1)).take (stop s - a) = s.2.drop (a - s.1) := by
    refine List.take_of_length_le ?_
    rw [List.length_drop, stop]
    omega
  have hpiece := kept_piece hpart ha le_rfl hp
  rwa [htake] at hpiece

variable {ranges : List (ℕ × ℕ)}

open Ranges in
theorem kept_keepFrom (hpart : s.2 <+: source.drop s.1)
    (hranges : Apart ranges) (ha : s.1 ≤ a) (hstop : a ≤ stop s) :
    Kept source (SparseChunkReader.keepFrom s a ranges) a (stop s) (Among ranges) := by
  induction ranges generalizing a with
  | nil => exact kept_rest hpart ha fun _ _ _ => not_among_nil
  | cons range ranges ih =>
    obtain ⟨hwell, hpair⟩ := hranges
    obtain ⟨hr, hrs⟩ := List.forall_mem_cons.1 hwell
    obtain ⟨hafter, htail⟩ := List.pairwise_cons.1 hpair
    -- Positions up to the end of the first range are in none of the others.
    have hnot : ∀ i, i ≤ range.2 → ¬Among ranges i := by
      rintro i hi ⟨range', hin, hle, -⟩
      have hlt := hafter range' hin
      omega
    rw [SparseChunkReader.keepFrom]
    by_cases hbeyond : stop s ≤ range.1
    · rw [if_pos hbeyond]
      refine kept_rest hpart ha fun i _ hlt hin => ?_
      rcases among_cons.1 hin with ⟨hle, -⟩ | hin
      · omega
      · exact hnot i (by omega) hin
    rw [if_neg hbeyond]
    by_cases hbefore : range.2 ≤ a
    · rw [if_pos hbefore]
      refine (ih ⟨hrs, htail⟩ ha hstop).mono fun i hle _ => ?_
      rw [among_cons, or_iff_right]
      rintro ⟨-, hlt⟩
      omega
    rw [if_neg hbefore]
    dsimp only
    have hfirst := kept_piece hpart ha (min_le_right range.1 (stop s))
      (p := Among (range :: ranges))
      fun i _ hlt hin => by
        rcases among_cons.1 hin with ⟨hle, -⟩ | hin
        · omega
        · exact hnot i (by omega) hin
    generalize hnext : min (max a range.2) (stop s) = next
    refine (hfirst.extend (c := next) (by omega) fun i hle hge hlt => ?_).append ?_
      (by omega) (by omega)
    · exact among_cons.2 (.inl ⟨by omega, by omega⟩)
    · split_ifs with hend
      · exact .nil hend.ge
      · refine (ih ⟨hrs, htail⟩ (by omega) (by omega)).mono fun i hle _ => ?_
        rw [among_cons, or_iff_right]
        rintro ⟨-, hlt⟩
        omega

open Ranges in
/-- The parts that are kept of a segment are those in no range. -/
theorem kept_keep (hne : s.2 ≠ []) (hpart : s.2 <+: source.drop s.1) (hranges : Apart ranges) :
    Kept source (SparseChunkReader.keep ranges s) s.1 (stop s) (Among ranges) := by
  have hlt := (stop_le_of_part hne hpart).1
  have hsplit := List.takeWhile_append_dropWhile (p := fun range : ℕ × ℕ => range.2 ≤ s.1)
    (l := ranges)
  have hbefore : ∀ range ∈ ranges.takeWhile (fun range => range.2 ≤ s.1), range.2 ≤ s.1 :=
    fun range hin => by
      have hle := List.mem_takeWhile_imp hin
      rwa [decide_eq_true_eq] at hle
  have hapart : Apart (ranges.dropWhile fun range => range.2 ≤ s.1) :=
    ⟨fun range hin => hranges.1 range ((List.dropWhile_sublist _).subset hin),
      hranges.2.sublist (List.dropWhile_sublist _)⟩
  unfold SparseChunkReader.keep
  dsimp only
  generalize ranges.takeWhile (fun range => range.2 ≤ s.1) = before at hsplit hbefore
  generalize ranges.dropWhile (fun range => range.2 ≤ s.1) = overlapping at hsplit hapart
  subst hsplit
  have hamong : ∀ i, s.1 ≤ i → (Among (before ++ overlapping) i ↔ Among overlapping i) := by
    refine fun i hi => ⟨?_, fun ⟨range, hin, hi⟩ => ⟨range, List.mem_append_right _ hin, hi⟩⟩
    rintro ⟨range, hin, hle, hlt⟩
    rcases List.mem_append.1 hin with hin | hin
    · have hend := hbefore range hin
      omega
    · exact ⟨range, hin, hle, hlt⟩
  have hwhole : (∀ i, s.1 ≤ i → i < stop s → ¬Among overlapping i) →
      Kept source [s] s.1 (stop s) (Among overlapping) := fun hnot =>
    ⟨Tiled.cons_iff.2 ⟨⟨hne, hpart⟩, by simp, .nil source⟩, by simp, fun i => by
      rw [covers_cons, or_iff_left covers_nil, Within, iff_self_and]
      exact fun hin => hnot i hin.1 hin.2⟩
  refine Kept.mono ?_ fun i hle _ => (hamong i hle).symm
  cases overlapping with
  | nil => exact hwhole fun _ _ _ => not_among_nil
  | cons range ranges =>
    dsimp only
    split_ifs with hbeyond
    · refine hwhole fun i _ hlt hin => ?_
      rcases among_cons.1 hin with ⟨hle, -⟩ | ⟨range', hin, hle, -⟩
      · omega
      · have hend := (List.pairwise_cons.1 hapart.2).1 range' hin
        have hwell := hapart.1 range List.mem_cons_self
        omega
    · exact kept_keepFrom hpart hapart le_rfl hlt.le

open Ranges in
/-- What is kept of all segments. -/
theorem keep_spec (h : Tiled source m) (hranges : Apart ranges) :
    Tiled source (m.flatMap (SparseChunkReader.keep ranges)) ∧
      ∀ i, Covers (m.flatMap (SparseChunkReader.keep ranges)) i ↔
        Covers m i ∧ ¬Among ranges i := by
  induction m with
  | nil => exact ⟨.nil source, fun i => iff_of_false covers_nil fun h => covers_nil h.1⟩
  | cons s m ih =>
    obtain ⟨⟨hne, hpart⟩, hle, hm⟩ := Tiled.cons_iff.1 h
    obtain ⟨htiled, hcovers⟩ := ih hm
    have hkept := kept_keep hne hpart hranges
    rw [List.flatMap_cons]
    refine ⟨hkept.tiled.append htiled fun t ht t' ht' => ?_, fun i => ?_⟩
    · -- A part that is kept starts no earlier than the segment it comes from.
      obtain ⟨u, hu, hin⟩ := List.mem_flatMap.1 ht'
      have hkept' := kept_keep (hm.ne_nil u hu) (hm.part u hu) hranges
      exact ((hkept.inside t ht).2.trans (hle u hu)).trans (hkept'.inside t' hin).1
    · rw [covers_append, hkept.covers, hcovers, covers_cons, or_and_right]
      rfl

/-- The position is one of a page body. -/
def InBody (discarded : List PageBodyRange) (i : ℕ) : Prop :=
  ∃ range ∈ discarded, range.offset ≤ i ∧ i < range.offset + range.length

/-- A release takes the positions of the page bodies from the cached ones. -/
theorem release_spec (h : Tiled source r.segments) {discarded : List PageBodyRange}
    {disposition : String} (hok : r.releasePageBodies discarded disposition = .ok r') :
    r'.sourceLength = r.sourceLength ∧ Tiled source r'.segments ∧
      ∀ i, Covers r'.segments i ↔ Covers r.segments i ∧ ¬InBody discarded i := by
  obtain ⟨ranges, hranges, hok⟩ := Result.bind_eq_ok.1 hok
  cases hok
  have hmap := Result.map_of_mapM_eq_ok (g := id)
    (k := fun range : PageBodyRange => (range.offset, range.offset + range.length)) hranges
    fun range y _ hy => by
      obtain ⟨stop, hstop, hy⟩ := Result.bind_eq_ok.1 hy
      cases hy
      rw [(checkedAdd_eq_ok.1 hstop).2]
      rfl
  rw [List.map_id] at hmap
  have hsorted : (discarded.mergeSort fun a b => a.offset ≤ b.offset).Pairwise
      fun a b => a.offset ≤ b.offset := by
    have hpairwise := @List.pairwise_mergeSort _ (fun a b : PageBodyRange => a.offset ≤ b.offset)
      (by simpa using fun a b c => Nat.le_trans) (by simpa using fun a b => Nat.le_total _ _)
      discarded
    simpa using hpairwise
  obtain ⟨hapart, hamong⟩ := @Ranges.joinSorted_spec _ _ ranges
    (by rw [hmap]; simp) (by rw [hmap]; exact List.pairwise_map.2 hsorted)
  obtain ⟨htiled, hcovers⟩ := keep_spec h hapart
  refine ⟨rfl, htiled, fun i => ?_⟩
  dsimp only
  rw [hcovers, hamong, hmap]
  refine and_congr_right fun _ => not_congr ?_
  simp only [Ranges.Among, Ranges.In, InBody, List.mem_map, List.mem_mergeSort,
    exists_exists_and_eq_and]

/-! ## Lookup -/

/-- What is cut off first is cut off at the end. -/
theorem take_take_append (n : ℕ) (l l' : List UInt8) :
    (l.take n ++ l').take n = (l ++ l').take n := by
  rcases Nat.le_total n l.length with hle | hle
  · rw [List.take_append_of_le_length hle, List.take_append_of_le_length (by
      rw [List.length_take]; omega), List.take_take, Nat.min_self]
  · rw [List.take_of_length_le hle]

theorem joinUpTo_eq {n : ℕ} {joined : List UInt8} (hlength : joined.length ≤ n) :
    SparseChunkReader.joinUpTo n joined m = (joined ++ m.flatMap (·.2)).take n := by
  induction m generalizing joined with
  | nil => simp [SparseChunkReader.joinUpTo, List.take_of_length_le hlength]
  | cons s m ih =>
    have htake : joined ++ s.2.take (n - joined.length) = (joined ++ s.2).take n := by
      rw [List.take_append, List.take_of_length_le hlength]
    calc SparseChunkReader.joinUpTo n joined (s :: m)
        = SparseChunkReader.joinUpTo n ((joined ++ s.2).take n) m := by rw [← htake]; rfl
      _ = ((joined ++ s.2).take n ++ m.flatMap (·.2)).take n := ih (List.length_take_le ..)
      _ = ((joined ++ s.2) ++ m.flatMap (·.2)).take n := take_take_append ..
      _ = (joined ++ (s :: m).flatMap (·.2)).take n := by
        rw [List.flatMap_cons, List.append_assoc]

/-- The segments that reach `stop` are those of the chain. -/
theorem adjacentTo_spec (stop cursor : ℕ) (m : List (Segment UInt8)) :
    match SparseChunkReader.adjacentTo stop cursor m with
    | none => cursor + (chain cursor m).length < stop
    | some l => stop ≤ cursor + (l.flatMap (·.2)).length ∧ l.flatMap (·.2) <+: chain cursor m := by
  induction m generalizing cursor with
  | nil =>
    rw [SparseChunkReader.adjacentTo]
    split_ifs with hstop
    · exact ⟨by simpa using hstop, List.nil_prefix⟩
    · simpa [chain] using hstop
  | cons s m ih =>
    rw [SparseChunkReader.adjacentTo]
    split_ifs with hstop hstart
    · exact ⟨by simpa using hstop, List.nil_prefix⟩
    · simpa [chain, hstart] using hstop
    · rw [not_not] at hstart
      subst hstart
      have hchain : chain s.1 (s :: m) = s.2 ++ chain (s.1 + s.2.length) m := if_pos rfl
      have ih := ih (s.1 + s.2.length)
      rw [hchain]
      cases hadjacent : SparseChunkReader.adjacentTo stop (s.1 + s.2.length) m with
      | none =>
        rw [hadjacent] at ih
        rw [Option.map_none, List.length_append, ← Nat.add_assoc]
        exact ih
      | some l =>
        rw [hadjacent] at ih
        rw [Option.map_some]
        dsimp only at ih ⊢
        rw [List.flatMap_cons, List.length_append, ← Nat.add_assoc]
        exact ⟨ih.1, (List.prefix_append_right_inj s.2).2 ih.2⟩

/-- A read of a range is a read of the longest cached part. -/
theorem locate_eq (h : Tiled source r.segments) (hsource : r.sourceLength = source.length)
    {offset length : ℕ} (hpos : 0 < length) (hbound : offset + length ≤ source.length)
    (hmax : source.length ≤ u64Max) :
    r.locate offset length =
      .ok (if length ≤ (longest r.segments offset).length then
        some ((longest r.segments offset).take length) else none) := by
  obtain ⟨hbefore, hafter⟩ := h.split (p := (· ≤ offset)) fun _ _ => le_trans
  rw [SparseChunkReader.locate, if_neg (by omega), if_neg (by omega)]
  cases hlast : (r.segments.takeWhile fun s => s.1 ≤ offset).getLast? with
  | none =>
    rw [longest_of_none hlast, List.length_nil, if_neg (by omega)]
  | some s =>
    have hs : s.1 ≤ offset := hbefore s (List.mem_of_getLast? hlast)
    have hspec := adjacentTo_spec (offset + length) (stop s)
      (r.segments.dropWhile fun s => s.1 ≤ offset)
    dsimp only
    rcases lt_or_ge offset (stop s) with hlt | hle
    · rw [longest_of_lt hlast hlt]
      generalize r.segments.dropWhile (fun s => s.1 ≤ offset) = after at hspec
      have hdrop : offset + (s.2.drop (offset - s.1)).length = stop s := by
        rw [stop] at hlt ⊢
        rw [List.length_drop]
        omega
      generalize s.2.drop (offset - s.1) = bytes at hdrop
      split_ifs with hwithin hlong hlong
      · rw [List.take_append_of_le_length (by omega)]
      · rw [List.length_append] at hlong
        omega
      · rw [List.length_append] at hlong
        cases hadjacent : SparseChunkReader.adjacentTo (offset + length) (stop s) after with
        | none =>
          rw [hadjacent] at hspec
          dsimp only at hspec
          omega
        | some l =>
          rw [hadjacent] at hspec
          obtain ⟨hreach, rest, hrest⟩ := hspec
          have hjoined : length ≤ (bytes ++ l.flatMap (·.2)).length := by
            rw [List.length_append]
            omega
          rw [Option.map_some, joinUpTo_eq (by omega), ← hrest, ← List.append_assoc]
          generalize bytes ++ l.flatMap (·.2) = joined at hjoined
          rw [List.take_append_of_le_length hjoined]
      · rw [List.length_append] at hlong
        cases hadjacent : SparseChunkReader.adjacentTo (offset + length) (stop s) after with
        | none => rfl
        | some l =>
          rw [hadjacent] at hspec
          have hle := hspec.2.length_le
          omega
    · -- The segments after it start after the offset.
      have hchain : chain (stop s) (r.segments.dropWhile fun s => s.1 ≤ offset) = [] := by
        cases hm : r.segments.dropWhile (fun s => s.1 ≤ offset) with
        | nil => rfl
        | cons t after =>
          have ht := hafter t (hm ▸ List.mem_cons_self)
          exact if_neg (by omega)
      rw [longest_of_le hlast hle, if_neg (by omega), List.length_nil, if_neg (by omega)]
      cases hadjacent : SparseChunkReader.adjacentTo (offset + length) (stop s)
          (r.segments.dropWhile fun s => s.1 ≤ offset) with
      | none => rfl
      | some l =>
        rw [hadjacent, hchain] at hspec
        obtain ⟨hreach, hnil⟩ := hspec
        rw [List.prefix_nil.1 hnil, List.length_nil] at hreach
        omega

theorem joinSuffix_eq {n cursor : ℕ} {joined : List UInt8} (hlength : joined.length ≤ n) :
    SparseChunkReader.joinSuffix n cursor joined m = (joined ++ chain cursor m).take n := by
  induction m generalizing cursor joined with
  | nil => simp [SparseChunkReader.joinSuffix, chain, List.take_of_length_le hlength]
  | cons s m ih =>
    rw [SparseChunkReader.joinSuffix]
    split_ifs with hfull
    · rcases hfull with hfull | hstart
      · rw [List.take_append_of_le_length hfull, List.take_of_length_le hlength]
      · rw [chain, if_neg hstart, List.append_nil, List.take_of_length_le hlength]
    · rw [not_or, not_le, not_not] at hfull
      obtain ⟨hlt, rfl⟩ := hfull
      have htake : joined ++ s.2.take (n - joined.length) = (joined ++ s.2).take n := by
        rw [List.take_append, List.take_of_length_le hlength]
      rw [htake, ih (List.length_take_le ..), chain, if_pos rfl, stop, take_take_append,
        List.append_assoc]

/-- The longest cached part from an offset on, up to some number of bytes. -/
theorem locateSuffix_eq (h : Tiled source r.segments) (hsource : r.sourceLength = source.length)
    {offset maxLength : ℕ} (hbound : offset ≤ source.length) :
    r.locateSuffix offset maxLength =
      .ok (if longest r.segments offset = [] then none
        else some ((longest r.segments offset).take maxLength)) := by
  obtain ⟨hbefore, -⟩ := h.split (p := (· ≤ offset)) fun _ _ => le_trans
  rw [SparseChunkReader.locateSuffix, if_neg (by omega)]
  cases hlast : (r.segments.takeWhile fun s => s.1 ≤ offset).getLast? with
  | none => rw [longest_of_none hlast, if_pos rfl]
  | some s =>
    have hs : s.1 ≤ offset := hbefore s (List.mem_of_getLast? hlast)
    dsimp only
    rcases lt_or_ge offset (stop s) with hlt | hle
    · rw [if_neg (not_le.2 hlt), longest_of_lt hlast hlt]
      generalize r.segments.dropWhile (fun s => s.1 ≤ offset) = after
      have hne : s.2.drop (offset - s.1) ≠ [] := fun hnil => by
        have hzero := congrArg List.length hnil
        rw [List.length_drop, List.length_nil] at hzero
        rw [stop] at hlt
        omega
      generalize s.2.drop (offset - s.1) = bytes at hne
      rw [if_neg (List.append_ne_nil_of_left_ne_nil hne _)]
      split_ifs with hwhole
      · rcases hwhole with hwhole | hempty
        · rw [List.length_take] at hwhole
          rw [List.take_append_of_le_length (by omega)]
        · rw [List.isEmpty_iff.1 hempty, chain, List.append_nil]
      · rw [not_or, List.length_take] at hwhole
        rw [joinSuffix_eq (List.length_take_le ..), List.take_of_length_le (l := bytes) (by omega)]
    · rw [if_pos hle, longest_of_le hlast hle, if_pos rfl]

/-- The first gap of some positions between `cursor` and `stop`: all before it have the property,
    none in it has, and it ends at `stop` or at a position that has. -/
structure FirstGap (p : ℕ → Prop) (cursor stop : ℕ) (gap : ParquetReadBytesAction) : Prop where
  start_le : cursor ≤ gap.offset
  nonempty : 0 < gap.length
  stop_le : gap.offset + gap.length ≤ stop
  before : ∀ i, cursor ≤ i → i < gap.offset → p i
  missing : ∀ i, gap.offset ≤ i → i < gap.offset + gap.length → ¬p i
  maximal : gap.offset + gap.length = stop ∨ p (gap.offset + gap.length)

/-- The first gap of some positions between `cursor` and `stop`, if there is one. -/
def FirstMissing (p : ℕ → Prop) (cursor stop : ℕ) : Option ParquetReadBytesAction → Prop
  | none => ∀ i, cursor ≤ i → i < stop → p i
  | some gap => FirstGap p cursor stop gap

/-- A gap from a later cursor on, when all before it is known. -/
theorem FirstGap.of_later {p p' : ℕ → Prop} {cursor next stop : ℕ} {gap : ParquetReadBytesAction}
    (h : FirstGap p next stop gap) (hle : cursor ≤ next) (hp : ∀ i, next ≤ i → (p i ↔ p' i))
    (hbefore : ∀ i, cursor ≤ i → i < next → p' i) : FirstGap p' cursor stop gap := by
  have hpos := h.nonempty
  have hnext := h.start_le
  refine ⟨hle.trans hnext, hpos, h.stop_le, fun i hi hlt => ?_, fun i hi hlt hin => ?_, ?_⟩
  · rcases lt_or_ge i next with hbelow | habove
    · exact hbefore i hi hbelow
    · exact (hp i habove).1 (h.before i habove hlt)
  · exact h.missing i hi hlt ((hp i (hnext.trans hi)).2 hin)
  · exact h.maximal.imp_right (hp _ (by omega)).1

/-- A gap up to the end, when nothing from the cursor on has the property. -/
theorem firstGap_rest {p : ℕ → Prop} {cursor stop : ℕ}
    (hnot : ∀ i, cursor ≤ i → i < stop → ¬p i) (hlt : cursor < stop) :
    FirstGap p cursor stop ⟨cursor, stop - cursor⟩ := by
  have hend : cursor + (stop - cursor) = stop := Nat.add_sub_cancel' hlt.le
  exact ⟨le_rfl, Nat.sub_pos_of_lt hlt, hend.le, fun i hle hlt => absurd hle (not_le.2 hlt),
    fun i hle hlt => hnot i hle (hend ▸ hlt), .inl hend⟩

theorem firstGap_spec (h : Tiled source m) (cursor stop : ℕ) :
    FirstMissing (Covers m) cursor stop (SparseChunkReader.firstGap stop cursor m) := by
  induction m generalizing cursor with
  | nil =>
    rw [SparseChunkReader.firstGap]
    split_ifs with hlt
    · exact firstGap_rest (fun _ _ _ => covers_nil) hlt
    · exact fun i hle hi => by omega
  | cons s m ih =>
    obtain ⟨⟨hne, hpart⟩, hafter, hm⟩ := Tiled.cons_iff.1 h
    have hstop := (stop_le_of_part hne hpart).1
    have hnot : ∀ i, i < s.1 → ¬Covers (s :: m) i := by
      rintro i hi ⟨t, ht, hle, -⟩
      rcases List.mem_cons.1 ht with rfl | ht
      · omega
      · have hle' := hafter t ht
        omega
    rw [SparseChunkReader.firstGap]
    by_cases hbefore : Segments.stop s ≤ cursor
    · -- The segment is behind the cursor.
      rw [if_pos hbefore]
      have hiff : ∀ i, cursor ≤ i → (Covers m i ↔ Covers (s :: m) i) := fun i hi => by
        rw [covers_cons, or_iff_right]
        rintro ⟨-, hlt⟩
        omega
      have ih := ih hm cursor
      cases hgap : SparseChunkReader.firstGap stop cursor m with
      | none =>
        rw [hgap] at ih
        exact fun i hle hlt => (hiff i hle).1 (ih i hle hlt)
      | some gap =>
        rw [hgap] at ih
        exact FirstGap.of_later ih le_rfl hiff fun i hle hlt => by omega
    rw [if_neg hbefore]
    by_cases hbeyond : stop ≤ s.1
    · rw [if_pos hbeyond]
      split_ifs with hlt
      · exact firstGap_rest (fun i _ hi => hnot i (hi.trans_le hbeyond)) hlt
      · exact fun i hle hi => by omega
    rw [if_neg hbeyond]
    by_cases hgap : cursor < s.1
    · -- The gap ends where the segment begins.
      rw [if_pos hgap, Nat.min_eq_left (not_le.1 hbeyond).le]
      have hend : cursor + (s.1 - cursor) = s.1 := Nat.add_sub_cancel' hgap.le
      refine ⟨le_rfl, Nat.sub_pos_of_lt hgap, by dsimp only; omega, fun i hle hlt => ?_,
        fun i _ hi => hnot i (hend ▸ hi), .inr ?_⟩
      · dsimp only at hlt
        omega
      · rw [hend]
        exact covers_cons.2 (.inl ⟨le_rfl, hstop⟩)
    rw [if_neg hgap]
    have hwithin : ∀ i, cursor ≤ i → i < max cursor (Segments.stop s) → Covers (s :: m) i :=
      fun i hle hlt => covers_cons.2 (.inl ⟨by omega, by omega⟩)
    split_ifs with hend
    · exact fun i hle hlt => hwithin i hle (hlt.trans_le hend)
    · have hiff : ∀ i, max cursor (Segments.stop s) ≤ i → (Covers m i ↔ Covers (s :: m) i) :=
        fun i hi => by
          rw [covers_cons, or_iff_right]
          rintro ⟨-, hlt⟩
          omega
      have ih := ih hm (max cursor (Segments.stop s))
      cases hnext : SparseChunkReader.firstGap stop (max cursor (Segments.stop s)) m with
      | none =>
        rw [hnext] at ih
        intro i hle hlt
        rcases lt_or_ge i (max cursor (Segments.stop s)) with hbelow | habove
        · exact hwithin i hle hbelow
        · exact (hiff i habove).1 (ih i habove hlt)
      | some gap =>
        rw [hnext] at ih
        exact FirstGap.of_later ih (le_max_left _ _) hiff hwithin

/-! ## The peak of an insertion -/

theorem retainedBytes_eq {total : ℕ} (hok : r.retainedBytes = .ok total) :
    total = (r.segments.map fun s => s.2.length).sum := by
  have hfold : ∀ (m : List (Segment UInt8)) (n : ℕ), m.foldlM (fun total s =>
      checkedAdd usizeMax total s.2.length
        (.new .resourceLimit "Parquet sparse source byte accounting overflows")) n = .ok total →
      total = n + (m.map fun s => s.2.length).sum := by
    intro m
    induction m with
    | nil =>
      intro n hn
      cases hn
      rfl
    | cons s m ih =>
      intro n hn
      rw [List.foldlM_cons] at hn
      obtain ⟨next, hnext, hn⟩ := Result.bind_eq_ok.1 hn
      rw [ih next hn, (checkedAdd_eq_ok.1 hnext).2, List.map_cons, List.sum_cons, Nat.add_assoc]
  rw [hfold r.segments 0 hok, Nat.zero_add]

/-- A gap that is kept apart merges nothing. -/
theorem mergeWindow_of_gap (h : Tiled source r.segments) (hapart : r.coalesceAdjacent = false)
    (hlt : a < b) (hgap : ∀ i, a ≤ i → i < b → ¬Covers r.segments i) :
    (r.mergeWindow a b).merged = [] := by
  obtain ⟨hbefore, hafter⟩ := h.split (p := (· < a)) fun _ _ => lt_of_le_of_lt
  have hm := List.takeWhile_append_dropWhile (p := fun s : Segment UInt8 => s.1 < a)
    (l := r.segments)
  have hnone : (SparseChunkReader.absorb false a b
      (r.segments.dropWhile fun s => s.1 < a)).2.1 = [] := by
    cases hdrop : r.segments.dropWhile (fun s => s.1 < a) with
    | nil => rfl
    | cons s after =>
      have hs : s ∈ r.segments := hm ▸ List.mem_append_right _ (hdrop ▸ List.mem_cons_self)
      have hstart := hafter s (hdrop ▸ List.mem_cons_self)
      have hbeyond : b ≤ s.1 := by
        by_contra hin
        exact hgap s.1 (by omega) (by omega) ⟨s, hs, le_rfl, h.start_lt_stop hs⟩
      rw [SparseChunkReader.absorb, if_pos]
      rcases Nat.lt_or_eq_of_le hbeyond with hlt | heq
      · exact .inl hlt
      · exact .inr ⟨rfl, heq.symm⟩
  rw [SparseChunkReader.mergeWindow, hapart]
  cases hlast : (r.segments.takeWhile fun s => s.1 < a).getLast? with
  | none => exact hnone
  | some previous =>
    have hin := List.mem_of_getLast? hlast
    have hprevious : previous ∈ r.segments := hm ▸ List.mem_append_left _ hin
    have hstart := hbefore previous hin
    have hend : ¬(a < stop previous ∨ (false = true ∧ stop previous = a)) := by
      rintro (hover | ⟨hfalse, -⟩)
      · exact hgap a le_rfl hlt ⟨previous, hprevious, hstart.le, hover⟩
      · cases hfalse
    dsimp only
    rw [if_neg hend]
    exact hnone

/-- A gap is admitted with no more live bytes than its peak. -/
theorem liveBytes_le (h : Tiled source r.segments) {cursor stop peak : ℕ}
    (hgap : FirstGap (Covers r.segments) cursor stop action)
    (hok : r.insertionPeakBytes action = .ok peak) : r.liveBytes action ≤ peak := by
  obtain ⟨incoming, hincoming, hok⟩ := Result.bind_eq_ok.1 hok
  obtain ⟨_, hstop, hok⟩ := Result.bind_eq_ok.1 hok
  obtain rfl := toUsize_eq_ok hincoming
  obtain ⟨rfl, -⟩ := stop_eq_ok hstop
  by_cases hbound : r.sourceLength < action.offset + action.length
  · rw [if_pos hbound] at hok
    cases hok
  rw [if_neg hbound] at hok
  obtain ⟨retained, hretained, hok⟩ := Result.bind_eq_ok.1 hok
  obtain ⟨ingressPeak, hingress, hok⟩ := Result.bind_eq_ok.1 hok
  obtain ⟨-, rfl⟩ := checkedAdd_eq_ok.1 hingress
  obtain rfl := retainedBytes_eq hretained
  rw [SparseChunkReader.liveBytes]
  by_cases hcoalesce : r.coalesceAdjacent
  · rw [hcoalesce] at hok
    generalize r.mergeWindow action.offset (action.offset + action.length) = w at hok
    simp only [Bool.not_true, Bool.false_eq_true, if_false] at hok
    split_ifs at hok ⊢ with hempty
    · cases hok
      exact le_rfl
    · obtain ⟨merged, hmerged, hok⟩ := Result.bind_eq_ok.1 hok
      obtain rfl := toUsize_eq_ok hmerged
      exact (checkedAdd_eq_ok.1 hok).2.ge
  · rw [Bool.not_eq_true] at hcoalesce
    rw [hcoalesce] at hok
    cases hok
    have hmerged := mergeWindow_of_gap h hcoalesce (Nat.lt_add_of_pos_right hgap.nonempty)
      hgap.missing
    rw [hmerged]
    exact le_rfl

/-! ## Every history -/

/-- The caches that insertions of the source's bytes and releases make, each with the positions
    that were inserted and not released since. A step that fails changes nothing. -/
inductive Reaches (source : List UInt8) : SparseChunkReader → (ℕ → Prop) → Prop
  | new (hmax : source.length ≤ u64Max) (readPrefetchBytes : ℕ) :
    Reaches source (.new source.length readPrefetchBytes) fun _ => False
  | fork {r : SparseChunkReader} {held : ℕ → Prop} (h : Reaches source r held)
      (maxPageUncompressedBytes maxCacheBytes : Option ℕ) :
    Reaches source (r.fork maxPageUncompressedBytes maxCacheBytes) held
  | insert {r r' : SparseChunkReader} {held : ℕ → Prop} (h : Reaches source r held)
      {action : ParquetReadBytesAction} {bytes : List UInt8} (hlength : 0 < action.length)
      (hbytes : bytes = (source.drop action.offset).take action.length)
      (hok : r.insert action bytes = .ok r') :
    Reaches source r' fun i =>
      held i ∨ (action.offset ≤ i ∧ i < action.offset + action.length)
  | release {r r' : SparseChunkReader} {held : ℕ → Prop} (h : Reaches source r held)
      {discarded : List PageBodyRange} {disposition : String}
      (hok : r.releasePageBodies discarded disposition = .ok r') :
    Reaches source r' fun i => held i ∧ ¬InBody discarded i

/-- A cache of parts of the source that has the positions it holds, and no others. -/
structure Holds (source : List UInt8) (r : SparseChunkReader) (held : ℕ → Prop) : Prop where
  length_le : source.length ≤ u64Max
  sourceLength : r.sourceLength = source.length
  tiled : Tiled source r.segments
  covers : ∀ i, Covers r.segments i ↔ held i

theorem Reaches.holds {held : ℕ → Prop} (h : Reaches source r held) : Holds source r held := by
  induction h with
  | new hmax readPrefetchBytes =>
    exact ⟨hmax, rfl, .nil source, fun i => iff_of_false covers_nil id⟩
  | fork h maxPageUncompressedBytes maxCacheBytes ih =>
    exact ⟨ih.length_le, ih.sourceLength, ih.tiled, ih.covers⟩
  | insert h hlength hbytes hok ih =>
    obtain ⟨hsource, htiled, hcovers⟩ := insert_spec ih.tiled ih.sourceLength hlength hbytes hok
    exact ⟨ih.length_le, hsource, htiled, fun i => (hcovers i).trans (or_congr_left (ih.covers i))⟩
  | release h hok ih =>
    obtain ⟨hsource, htiled, hcovers⟩ := release_spec ih.tiled hok
    exact ⟨ih.length_le, hsource.trans ih.sourceLength, htiled,
      fun i => (hcovers i).trans (and_congr_left' (ih.covers i))⟩

/-- What the lookups of a cache answer, when it holds some positions of the source. -/
structure Answers (source : List UInt8) (r : SparseChunkReader) (held : ℕ → Prop) : Prop where
  locate : ∀ offset length, 0 < length → offset + length ≤ source.length →
    ((∀ i, offset ≤ i → i < offset + length → held i) →
      r.locate offset length = .ok (some ((source.drop offset).take length))) ∧
    (¬(∀ i, offset ≤ i → i < offset + length → held i) → r.locate offset length = .ok none)
  locateSuffix : ∀ offset maxLength, offset ≤ source.length →
    (¬held offset → r.locateSuffix offset maxLength = .ok none) ∧
    (held offset → ∃ run, (∀ i, offset ≤ i → i < offset + run → held i) ∧ ¬held (offset + run) ∧
      r.locateSuffix offset maxLength = .ok (some ((source.drop offset).take (min maxLength run))))
  firstMissing : ∀ requested : ParquetReadBytesAction,
    requested.offset + requested.length ≤ u64Max →
    ((∀ i, requested.offset ≤ i → i < requested.offset + requested.length → held i) →
      r.firstMissingAction requested = .ok none) ∧
    (¬(∀ i, requested.offset ≤ i → i < requested.offset + requested.length → held i) →
      ∃ gap, r.firstMissingAction requested = .ok (some gap) ∧
        FirstGap held requested.offset (requested.offset + requested.length) gap)
  peak : ∀ requested gap peak, r.firstMissingAction requested = .ok (some gap) →
    r.insertionPeakBytes gap = .ok peak → r.liveBytes gap ≤ peak

variable {held : ℕ → Prop}

theorem Holds.firstMissing (h : Holds source r held) {requested : ParquetReadBytesAction}
    {answer : Option ParquetReadBytesAction} (hok : r.firstMissingAction requested = .ok answer) :
    FirstMissing held requested.offset (requested.offset + requested.length) answer := by
  unfold SparseChunkReader.firstMissingAction at hok
  cases hstop : requested.stop with
  | error error =>
    rw [hstop] at hok
    cases hok
  | ok stop =>
    rw [hstop] at hok
    obtain ⟨rfl, -⟩ := stop_eq_ok hstop
    cases hok
    have hspec := firstGap_spec h.tiled requested.offset (requested.offset + requested.length)
    have hcovers : Covers r.segments = held := funext fun i => propext (h.covers i)
    rwa [hcovers] at hspec

theorem Holds.answers (h : Holds source r held) : Answers source r held where
  locate offset length hpos hbound := by
    rw [locate_eq h.tiled h.sourceLength hpos hbound h.length_le]
    have hiff := le_length_longest_iff h.tiled (i := offset) (n := length)
    simp only [h.covers] at hiff
    rw [← hiff]
    refine ⟨fun hall => ?_, fun hnot => ?_⟩
    · rw [if_pos hall, take_longest h.tiled hall]
    · rw [if_neg hnot]
  locateSuffix offset maxLength hbound := by
    rw [locateSuffix_eq h.tiled h.sourceLength hbound]
    obtain ⟨heq, hcovers, hend⟩ := longest_eq h.tiled offset
    simp only [h.covers] at hcovers hend
    refine ⟨fun hnot => ?_, fun hheld => ?_⟩
    · rw [if_pos]
      by_contra hne
      have hpos := List.length_pos_iff.2 hne
      exact hnot (hcovers offset le_rfl (by omega))
    · refine ⟨_, hcovers, hend, ?_⟩
      rw [if_neg]
      · conv_lhs => rw [heq]
        rw [List.take_take]
      · intro hnil
        rw [hnil, List.length_nil, Nat.add_zero] at hend
        exact hend hheld
  firstMissing requested hmax := by
    have hstop : requested.stop = .ok (requested.offset + requested.length) :=
      checkedAdd_of_le hmax _
    cases hok : r.firstMissingAction requested with
    | error error =>
      unfold SparseChunkReader.firstMissingAction at hok
      rw [hstop] at hok
      cases hok
    | ok answer =>
      have hspec := h.firstMissing hok
      cases answer with
      | none => exact ⟨fun _ => rfl, fun hnot => absurd hspec hnot⟩
      | some gap =>
        refine ⟨fun hall => ?_, fun _ => ⟨gap, rfl, hspec⟩⟩
        have hpos := hspec.nonempty
        have hle := hspec.stop_le
        exact absurd (hall gap.offset hspec.start_le (by omega))
          (hspec.missing gap.offset le_rfl (by omega))
  peak requested gap peak hok hpeak := by
    have hspec := h.firstMissing hok
    have hcovers : Covers r.segments = held := funext fun i => propext (h.covers i)
    rw [← hcovers] at hspec
    exact liveBytes_le h.tiled hspec hpeak

/-- After any history of insertions and releases the cached parts are ordered, disjoint and those of
    the source; a byte is cached if it was inserted and not released since; and every lookup
    answers for exactly these bytes. -/
theorem sparse_cache_exact (h : Reaches source r held) :
    Tiled source r.segments ∧ (∀ i, Covers r.segments i ↔ held i) ∧ Answers source r held :=
  ⟨h.holds.tiled, h.holds.covers, h.holds.answers⟩

/-- A cache of one part, after a release within it. -/
theorem sparse_cache_exact_released : ∃ r held, Reaches [1, 2, 3, 4, 5, 6] r held ∧
    r.segments = [(1, [2]), (3, [4])] ∧ Tiled [1, 2, 3, 4, 5, 6] r.segments ∧
      (∀ i, Covers r.segments i ↔ held i) ∧ Answers [1, 2, 3, 4, 5, 6] r held := by
  have hnew : Reaches [1, 2, 3, 4, 5, 6] _ _ := .new (by decide) 8
  have hinsert : (SparseChunkReader.new 6 8).insert ⟨1, 3⟩ [2, 3, 4] =
      .ok { SparseChunkReader.new 6 8 with segments := [(1, [2, 3, 4])] } := rfl
  have hrelease : SparseChunkReader.releasePageBodies
      { SparseChunkReader.new 6 8 with segments := [(1, [2, 3, 4])] } [⟨2, 1⟩] "skipped" =
        .ok { SparseChunkReader.new 6 8 with segments := [(1, [2]), (3, [4])] } := by
    rw [SparseChunkReader.releasePageBodies, List.mergeSort_singleton]
    rfl
  have hreleased := (hnew.insert (by decide) rfl hinsert).release hrelease
  exact ⟨_, _, hreleased, rfl, sparse_cache_exact hreleased⟩

end Tabulark.Parquet
