import Tabulark.Parquet.CompactHeader

/-!
# What a reader depends on

A reader of page headers moves forward, and depends on nothing after the place
where it ends (`Steady`). Its loops have enough rounds when they have more than
there are bytes (`Enough`), so that the bound on them decides nothing.
-/

namespace Tabulark.Parquet

namespace CompactInput

/-- The same place in other bytes. -/
def withBytes (input : CompactInput) (bytes : List UInt8) : CompactInput := { input with bytes }

/-- A reader that goes forward within the bytes and depends on nothing after its end. -/
structure Steady {α : Type} (read : CompactReader α) : Prop where
  bytes : ∀ {input next a}, read input = some (a, next) → next.bytes = input.bytes
  le : ∀ {input next a}, read input = some (a, next) → input.offset ≤ next.offset
  bound : ∀ {input next a}, read input = some (a, next) → input.offset ≤ input.bytes.length →
    next.offset ≤ input.bytes.length
  change : ∀ {input next a}, read input = some (a, next) → ∀ bytes,
    bytes.take next.offset = input.bytes.take next.offset →
      read (input.withBytes bytes) = some (a, next.withBytes bytes)

variable {α β : Type} {read : CompactReader α}

theorem steady_pure (a : α) : Steady (pure a : CompactReader α) where
  bytes h := by cases h; rfl
  le h := by cases h; exact le_rfl
  bound h hle := by cases h; exact hle
  change h bytes _ := by cases h; rfl

theorem steady_failure : Steady (failure : CompactReader α) where
  bytes h := by cases h
  le h := by cases h
  bound h := by cases h
  change h := by cases h

theorem bind_eq_some {f : α → CompactReader β} {input next : CompactInput} {b : β} :
    (read >>= f) input = some (b, next) ↔
      ∃ a mid, read input = some (a, mid) ∧ f a mid = some (b, next) := by
  change (read input).bind (fun r => f r.1 r.2) = _ ↔ _
  rw [Option.bind_eq_some_iff]
  exact ⟨fun ⟨⟨a, mid⟩, hread, hf⟩ => ⟨a, mid, hread, hf⟩,
    fun ⟨a, mid, hread, hf⟩ => ⟨(a, mid), hread, hf⟩⟩

theorem Steady.bind {f : α → CompactReader β} (hread : Steady read) (hf : ∀ a, Steady (f a)) :
    Steady (read >>= f) where
  bytes h := by
    obtain ⟨a, mid, hr, hfa⟩ := bind_eq_some.1 h
    exact ((hf a).bytes hfa).trans (hread.bytes hr)
  le h := by
    obtain ⟨a, mid, hr, hfa⟩ := bind_eq_some.1 h
    exact (hread.le hr).trans ((hf a).le hfa)
  bound h hle := by
    obtain ⟨a, mid, hr, hfa⟩ := bind_eq_some.1 h
    have hmid := hread.bytes hr
    rw [← hmid]
    exact (hf a).bound hfa (hmid ▸ hread.bound hr hle)
  change h bytes htake := by
    obtain ⟨a, mid, hr, hfa⟩ := bind_eq_some.1 h
    have hle := (hf a).le hfa
    have hmid := congrArg (List.take mid.offset) htake
    rw [List.take_take, List.take_take, Nat.min_eq_left hle] at hmid
    refine bind_eq_some.2 ⟨a, mid.withBytes bytes, hread.change hr bytes hmid,
      (hf a).change hfa bytes ?_⟩
    rw [hread.bytes hr]
    exact htake

variable {read' : CompactReader α}

theorem Steady.ite {p : Prop} [Decidable p] (h : Steady read)
    (h' : Steady read') : Steady (if p then read else read') := by
  split_ifs
  · exact h
  · exact h'

theorem steady_byte : Steady byte := by
  have hcases : ∀ {input next : CompactInput} {value : UInt8}, byte input = some (value, next) →
      input.bytes[input.offset]? = some value ∧
      next = { input with offset := input.offset + 1 } := by
    intro input next value h
    unfold byte at h
    cases hbyte : input.bytes[input.offset]? with
    | none =>
      rw [hbyte] at h
      cases h
    | some value' =>
      rw [hbyte] at h
      cases h
      exact ⟨rfl, rfl⟩
  refine ⟨fun h => ?_, fun h => ?_, fun h hle => ?_, fun {input next value} h bytes htake => ?_⟩
  · rw [(hcases h).2]
  · rw [(hcases h).2]
    exact Nat.le_succ _
  · rw [(hcases h).2]
    exact (List.getElem?_eq_some_iff.1 (hcases h).1).1
  · obtain ⟨hbyte, rfl⟩ := hcases h
    have hsame : bytes[input.offset]? = some value := by
      have hget := congrArg (·[input.offset]?) htake
      simp only [List.getElem?_take_of_lt (Nat.lt_succ_self input.offset)] at hget
      exact hget.trans hbyte
    unfold byte withBytes
    rw [hsame]

theorem steady_skipBytes (length : ℕ) : Steady (skipBytes length) := by
  have hcases : ∀ {input next : CompactInput} {u : Unit}, skipBytes length input = some (u, next) →
      (input.offset + length ≤ usizeMax ∧ input.offset + length ≤ input.bytes.length) ∧
        next = { input with offset := input.offset + length } := by
    intro input next u h
    unfold skipBytes at h
    split_ifs at h with hbound
    cases h
    exact ⟨hbound, rfl⟩
  refine ⟨fun h => ?_, fun h => ?_, fun h hle => ?_, fun {input next u} h bytes htake => ?_⟩
  · rw [(hcases h).2]
  · rw [(hcases h).2]
    exact Nat.le_add_right _ _
  · rw [(hcases h).2]
    exact (hcases h).1.2
  · obtain ⟨⟨hmax, hbound⟩, rfl⟩ := hcases h
    have hlength := congrArg List.length htake
    rw [List.length_take, List.length_take] at hlength
    dsimp only at hlength
    unfold skipBytes withBytes
    rw [if_pos ⟨hmax, by dsimp only; omega⟩]

theorem steady_takeStep : Steady takeStep := by
  have hcases : ∀ {input next : CompactInput} {u : Unit}, takeStep input = some (u, next) →
      0 < input.remainingSteps ∧
        next = { input with remainingSteps := input.remainingSteps - 1 } := by
    intro input next u h
    unfold takeStep at h
    split_ifs at h with hpos
    cases h
    exact ⟨hpos, rfl⟩
  refine ⟨fun h => ?_, fun h => ?_, fun h hle => ?_, fun {input next u} h bytes _ => ?_⟩
  · rw [(hcases h).2]
  · rw [(hcases h).2]
  · rw [(hcases h).2]
    exact hle
  · obtain ⟨hpos, rfl⟩ := hcases h
    unfold takeStep withBytes
    rw [if_pos hpos]

theorem steady_digits (indices : List ℕ) (value : ℕ) : Steady (digits indices value) := by
  induction indices generalizing value with
  | nil => exact steady_failure
  | cons index indices ih =>
    exact steady_byte.bind fun _ => .ite steady_failure (.ite (steady_pure _) (ih _))

theorem steady_varint : Steady varint := steady_digits _ _

theorem steady_zigzagI16 : Steady zigzagI16 :=
  steady_varint.bind fun _ => .ite (steady_pure _) steady_failure

theorem steady_zigzagI32 : Steady zigzagI32 :=
  steady_varint.bind fun _ => .ite (steady_pure _) steady_failure

theorem steady_length : Steady length :=
  steady_varint.bind fun _ => .ite (steady_pure _) steady_failure

theorem Steady.times {read : CompactReader Unit} (h : Steady read) (n : ℕ) :
    Steady (times n read) := by
  induction n with
  | zero => exact steady_pure ()
  | succ n ih => exact h.bind fun _ => ih

theorem steady_fieldId (previousField : ℤ) (delta : ℕ) : Steady (fieldId previousField delta) :=
  .ite steady_zigzagI16 (.ite (steady_pure _) steady_failure)

theorem steady_fields {σ : Type} {read : ℤ → ℕ → σ → CompactReader σ}
    (h : ∀ field valueType state, Steady (read field valueType state)) (fuel : ℕ)
    (previousField : ℤ) (state : σ) : Steady (fields read fuel previousField state) := by
  induction fuel generalizing previousField state with
  | zero => exact steady_failure
  | succ fuel ih =>
    refine steady_byte.bind fun header => .ite (.ite steady_failure (steady_pure _)) ?_
    exact (steady_fieldId _ _).bind fun field =>
      .ite steady_failure ((h _ _ _).bind fun _ => ih _ _)

theorem steady_skipBoolean (context : CompactValueContext) : Steady (skipBoolean context) := by
  cases context with
  | structField => exact steady_pure ()
  | collectionElement => exact steady_byte.bind fun _ => .ite (steady_pure ()) steady_failure

theorem steady_skipByte : Steady skipByte := steady_byte.bind fun _ => steady_pure ()

theorem steady_skipVarint : Steady skipVarint := steady_varint.bind fun _ => steady_pure ()

theorem steady_skipBinary : Steady skipBinary := steady_length.bind fun _ => steady_skipBytes _

theorem steady_skipList {skipElement : ℕ → CompactReader Unit}
    (h : ∀ kind, Steady (skipElement kind)) : Steady (skipList skipElement) :=
  steady_byte.bind fun _ => (Steady.ite steady_length (steady_pure _)).bind fun _ =>
    .ite steady_failure ((h _).times _)

theorem steady_skipMap {skipElement : ℕ → CompactReader Unit}
    (h : ∀ kind, Steady (skipElement kind)) : Steady (skipMap skipElement) :=
  steady_length.bind fun _ => .ite (steady_pure ()) (.ite steady_failure (steady_byte.bind fun _ =>
    .ite steady_failure (((h _).bind fun _ => h _).times _)))

theorem steady_skipBelow (fuel levels valueType : ℕ) (context : CompactValueContext) :
    Steady (skipBelow fuel levels valueType context) := by
  induction levels generalizing valueType context with
  | zero => exact steady_failure
  | succ levels ih =>
    unfold skipBelow
    refine steady_takeStep.bind fun _ => ?_
    split
    · exact steady_skipBoolean context
    · exact steady_skipBoolean context
    · exact steady_skipByte
    · exact steady_skipVarint
    · exact steady_skipVarint
    · exact steady_skipVarint
    · exact steady_skipBytes 8
    · exact steady_skipBinary
    · exact steady_skipList fun _ => ih _ _
    · exact steady_skipList fun _ => ih _ _
    · exact steady_skipMap fun _ => ih _ _
    · exact steady_fields (fun _ _ _ => ih _ _) _ _ _
    · exact steady_failure

theorem steady_onceI32 (valueType : ℕ) (seen : Option ℤ) : Steady (onceI32 valueType seen) :=
  .ite steady_failure (steady_zigzagI32.bind fun _ => steady_pure _)

theorem steady_pageHeaderField (fuel : ℕ) (field : ℤ) (valueType : ℕ) (seen : PageHeaderFields) :
    Steady (pageHeaderField fuel field valueType seen) := by
  have honce : ∀ seen' (put : Option ℤ → PageHeaderFields), Steady (do
      let value ← onceI32 valueType seen'
      pure (put value)) := fun seen' put => (steady_onceI32 _ _).bind fun _ => steady_pure _
  unfold pageHeaderField
  split_ifs
  · exact honce _ _
  · exact honce _ _
  · exact honce _ _
  · exact (steady_skipBelow _ _ _ _).bind fun _ => steady_pure _

/-! ## Enough rounds -/

/-- Two readers that give the same where at most `n` bytes are left. -/
def SameWithin {α : Type} (n : ℕ) (read read' : CompactReader α) : Prop :=
  ∀ input, input.offset ≤ input.bytes.length → input.bytes.length - input.offset ≤ n →
    read input = read' input

variable {n : ℕ}

theorem SameWithin.refl (read : CompactReader α) : SameWithin n read read := fun _ _ _ => rfl

theorem SameWithin.mono {m : ℕ} (h : SameWithin n read read')
    (hle : m ≤ n) : SameWithin m read read' :=
  fun input hbound hleft => h input hbound (hleft.trans hle)

theorem SameWithin.bind {f f' : α → CompactReader β}
    (h : SameWithin n read read') (hread : Steady read) (hf : ∀ a, SameWithin n (f a) (f' a)) :
    SameWithin n (read >>= f) (read' >>= f') := by
  intro input hbound hleft
  change (read input).bind (fun r => f r.1 r.2) = (read' input).bind fun r => f' r.1 r.2
  rw [← h input hbound hleft]
  cases hr : read input with
  | none => rfl
  | some r =>
    obtain ⟨a, next⟩ := r
    have hle := hread.le hr
    refine hf a next ?_ ?_
    · rw [hread.bytes hr]
      exact hread.bound hr hbound
    · rw [hread.bytes hr]
      omega

/-- A byte less is left after one was read. -/
theorem SameWithin.byte_bind {f f' : UInt8 → CompactReader β}
    (hf : ∀ m value, m < n → SameWithin m (f value) (f' value)) :
    SameWithin n (byte >>= f) (byte >>= f') := by
  intro input hbound hleft
  change (byte input).bind (fun r => f r.1 r.2) = (byte input).bind fun r => f' r.1 r.2
  cases hr : byte input with
  | none => rfl
  | some r =>
    obtain ⟨value, next⟩ := r
    have hbytes := steady_byte.bytes hr
    have hnext := steady_byte.bound hr hbound
    have hoffset : next.offset = input.offset + 1 := by
      unfold byte at hr
      cases hbyte : input.bytes[input.offset]? with
      | none =>
        rw [hbyte] at hr
        cases hr
      | some value' =>
        rw [hbyte] at hr
        cases hr
        rfl
    refine hf (next.bytes.length - next.offset) value ?_ next (hbytes ▸ hnext) le_rfl
    rw [hbytes]
    omega

theorem SameWithin.ite {p : Prop} [Decidable p] {yes yes' no no' : CompactReader α}
    (hyes : SameWithin n yes yes') (hno : SameWithin n no no') :
    SameWithin n (if p then yes else no) (if p then yes' else no') := by
  split_ifs
  · exact hyes
  · exact hno

theorem SameWithin.times {read read' : CompactReader Unit} (h : SameWithin n read read')
    (hread : Steady read) (count : ℕ) : SameWithin n (times count read) (times count read') := by
  induction count with
  | zero => exact .refl _
  | succ count ih => exact h.bind hread fun _ => ih

variable {fuel fuel' : ℕ}

/-- A loop with more rounds than there are bytes has the result of any other such loop. -/
theorem SameWithin.fields {σ : Type} {read read' : ℤ → ℕ → σ → CompactReader σ}
    (h : ∀ field valueType state, SameWithin n (read field valueType state)
      (read' field valueType state))
    (hread : ∀ field valueType state, Steady (read field valueType state))
    (hfuel : n < fuel) (hfuel' : n < fuel') (previousField : ℤ) (state : σ) :
    SameWithin n (fields read fuel previousField state)
      (fields read' fuel' previousField state) := by
  induction fuel generalizing n fuel' previousField state with
  | zero => exact absurd hfuel (Nat.not_lt_zero n)
  | succ fuel ih =>
    obtain ⟨fuel', rfl⟩ := Nat.exists_eq_add_of_lt (Nat.zero_lt_of_lt hfuel')
    rw [Nat.zero_add] at hfuel' ⊢
    refine SameWithin.byte_bind fun m header hm => .ite (.refl _) ?_
    refine (SameWithin.refl _).bind (steady_fieldId _ _) fun field => .ite (.refl _) ?_
    refine ((h _ _ _).mono hm.le).bind (hread _ _ _) fun state => ?_
    exact ih (fun _ _ _ => (h _ _ _).mono hm.le) (by omega) (by omega) _ _

theorem SameWithin.skipList {skipElement skipElement' : ℕ → CompactReader Unit}
    (h : ∀ kind, SameWithin n (skipElement kind) (skipElement' kind))
    (hread : ∀ kind, Steady (skipElement kind)) :
    SameWithin n (skipList skipElement) (skipList skipElement') :=
  (SameWithin.refl _).bind steady_byte fun _ =>
    (SameWithin.refl _).bind (Steady.ite steady_length (steady_pure _)) fun _ =>
      .ite (.refl _) ((h _).times (hread _) _)

theorem SameWithin.skipMap {skipElement skipElement' : ℕ → CompactReader Unit}
    (h : ∀ kind, SameWithin n (skipElement kind) (skipElement' kind))
    (hread : ∀ kind, Steady (skipElement kind)) :
    SameWithin n (skipMap skipElement) (skipMap skipElement') :=
  (SameWithin.refl _).bind steady_length fun _ => .ite (.refl _) (.ite (.refl _)
    ((SameWithin.refl _).bind steady_byte fun _ => .ite (.refl _)
      (((h _).bind (hread _) fun _ => h _).times ((hread _).bind fun _ => hread _) _)))

theorem sameWithin_skipBelow (hfuel : n < fuel) (hfuel' : n < fuel')
    (levels valueType : ℕ) (context : CompactValueContext) :
    SameWithin n (skipBelow fuel levels valueType context)
      (skipBelow fuel' levels valueType context) := by
  induction levels generalizing valueType context with
  | zero => exact .refl _
  | succ levels ih =>
    unfold skipBelow
    refine (SameWithin.refl _).bind steady_takeStep fun _ => ?_
    split
    case h_9 => exact .skipList (fun _ => ih _ _) fun _ => steady_skipBelow _ _ _ _
    case h_10 => exact .skipList (fun _ => ih _ _) fun _ => steady_skipBelow _ _ _ _
    case h_11 => exact .skipMap (fun _ => ih _ _) fun _ => steady_skipBelow _ _ _ _
    case h_12 =>
      exact .fields (fun _ _ _ => ih _ _) (fun _ _ _ => steady_skipBelow _ _ _ _) hfuel hfuel' _ _
    all_goals exact .refl _

theorem sameWithin_pageHeaderField (hfuel : n < fuel) (hfuel' : n < fuel')
    (field : ℤ) (valueType : ℕ) (seen : PageHeaderFields) :
    SameWithin n (pageHeaderField fuel field valueType seen)
      (pageHeaderField fuel' field valueType seen) := by
  unfold pageHeaderField
  split_ifs
  · exact .refl _
  · exact .refl _
  · exact .refl _
  · exact (sameWithin_skipBelow hfuel hfuel' _ _ _).bind (steady_skipBelow _ _ _ _) fun _ => .refl _

end CompactInput

open CompactInput

/-- More rounds than there are bytes are enough. -/
theorem compactPageHeaderWithin_eq {bytes : List UInt8} {fuel : ℕ} (hfuel : bytes.length < fuel) :
    compactPageHeaderWithin fuel bytes = compactPageHeader bytes := by
  have hfields := SameWithin.fields
    (sameWithin_pageHeaderField hfuel (Nat.lt_succ_self bytes.length))
    (fun _ _ _ => steady_pageHeaderField _ _ _ _) hfuel (Nat.lt_succ_self bytes.length) 0 {}
  rw [compactPageHeader, compactPageHeaderWithin, compactPageHeaderWithin,
    hfields (CompactInput.new bytes) (Nat.zero_le _) (Nat.sub_le _ _)]

theorem encodedBytes_of_header {seen : PageHeaderFields} {encodedBytes : ℕ}
    {header : CompactPageHeader} (h : seen.header encodedBytes = some header) :
    header.encodedBytes = encodedBytes := by
  obtain ⟨pageType, -, h⟩ := Option.bind_eq_some_iff.1 h
  obtain ⟨uncompressed, -, h⟩ := Option.bind_eq_some_iff.1 h
  obtain ⟨compressed, -, h⟩ := Option.bind_eq_some_iff.1 h
  split_ifs at h
  cases h
  rfl

/-- A page header that is read depends on its own bytes alone. -/
theorem compactPageHeader_local {bytes : List UInt8} (bytes' : List UInt8)
    {header : CompactPageHeader}
    (h : compactPageHeader bytes = some header) :
    header.encodedBytes ≤ bytes.length ∧
      (bytes'.take header.encodedBytes = bytes.take header.encodedBytes →
        compactPageHeader bytes' = some header) := by
  -- Both are read with rounds for the longer one.
  generalize hfuel : max bytes.length bytes'.length + 1 = fuel
  rw [← @compactPageHeaderWithin_eq bytes fuel (by omega)] at h
  rw [← @compactPageHeaderWithin_eq bytes' fuel (by omega)]
  obtain ⟨⟨seen, next⟩, hread, hheader⟩ := Option.bind_eq_some_iff.1 h
  have hencoded : header.encodedBytes = next.offset := encodedBytes_of_header hheader
  have hsteady := steady_fields (steady_pageHeaderField fuel) fuel 0 {}
  refine ⟨hencoded ▸ hsteady.bound hread (Nat.zero_le _), fun htake => ?_⟩
  rw [hencoded] at htake
  have hchange := hsteady.change hread bytes' htake
  have hwith : (CompactInput.new bytes).withBytes bytes' = CompactInput.new bytes' := rfl
  rw [hwith] at hchange
  rw [compactPageHeaderWithin, hchange]
  exact hheader

end Tabulark.Parquet
