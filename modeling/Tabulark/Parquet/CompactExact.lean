import Mathlib
import Tabulark.Lib.Compact
import Tabulark.Parquet.CompactSteady

/-!
# Page headers are read exactly

The reader takes the encoding of a value and no byte more, whatever comes after
it (`Takes`). So a page header that has its three fields once is read with its
length, and none of its beginnings is.
-/

namespace Tabulark.Parquet

open Tabulark.Compact

namespace CompactInput

/-- A reader takes some bytes and values, whatever comes after them. -/
def Takes {α : Type} (read : CompactReader α) (a : α) (bytes : List UInt8) (steps : ℕ) : Prop :=
  ∀ input tail, input.bytes.drop input.offset = bytes ++ tail →
    input.offset ≤ input.bytes.length → input.bytes.length ≤ usizeMax →
      steps ≤ input.remainingSteps →
        read input = some (a, { input with
          offset := input.offset + bytes.length
          remainingSteps := input.remainingSteps - steps })

variable {α β : Type} {read : CompactReader α} {a : α} {bytes bytes' : List UInt8}
    {steps steps' : ℕ}

theorem takes_pure (a : α) : Takes (pure a : CompactReader α) a [] 0 := fun _ _ _ _ _ _ => rfl

variable {f : α → CompactReader β}

variable {b : β}

theorem Takes.bind (h : Takes read a bytes steps) (hf : Takes (f a) b bytes' steps') :
    Takes (read >>= f) b (bytes ++ bytes') (steps + steps') := by
  intro input tail hdrop hbound hmax hsteps
  rw [List.append_assoc] at hdrop
  have hlength := congrArg List.length hdrop
  rw [List.length_drop, List.length_append, List.length_append] at hlength
  refine bind_eq_some.2 ⟨a, _, h input _ hdrop hbound hmax (by omega), ?_⟩
  refine (hf { input with
    offset := input.offset + bytes.length
    remainingSteps := input.remainingSteps - steps } tail ?_ ?_ hmax ?_).trans ?_
  · dsimp only
    rw [← List.drop_drop, hdrop, List.drop_left]
  · dsimp only
    omega
  · dsimp only
    omega
  · dsimp only
    rw [List.length_append, Nat.add_assoc, Nat.sub_sub]

/-- A reader that takes nothing before another one. -/
theorem Takes.bind_nil (h : Takes read a [] 0)
    (hf : Takes (f a) b bytes steps) : Takes (read >>= f) b bytes steps := by
  have hbind := h.bind hf
  rwa [List.nil_append, Nat.zero_add] at hbind

/-- A reader that takes no value before another one. -/
theorem Takes.bind_zero (h : Takes read a bytes 0)
    (hf : Takes (f a) b bytes' steps) : Takes (read >>= f) b (bytes ++ bytes') steps := by
  have hbind := h.bind hf
  rwa [Nat.zero_add] at hbind

/-- A reader that takes nothing after another one. -/
theorem Takes.bind_pure (h : Takes read a bytes steps)
    (hf : Takes (f a) b [] 0) : Takes (read >>= f) b bytes steps := by
  have hbind := h.bind hf
  rwa [List.append_nil, Nat.add_zero] at hbind

theorem takes_byte (value : UInt8) : Takes byte value [value] 0 := by
  intro input tail hdrop _ _ _
  have hbyte : input.bytes[input.offset]? = some value := by
    rw [← Nat.add_zero input.offset, ← List.getElem?_drop, hdrop]
    rfl
  unfold byte
  rw [hbyte]
  rfl

/-- A byte before what another reader takes. -/
theorem Takes.byte_bind {f : UInt8 → CompactReader β} {value : UInt8}
    (hf : Takes (f value) b bytes steps) : Takes (byte >>= f) b (value :: bytes) steps := by
  have hbind := (takes_byte value).bind hf
  rwa [Nat.zero_add] at hbind

theorem takes_skipBytes (bytes : List UInt8) : Takes (skipBytes bytes.length) () bytes 0 := by
  intro input tail hdrop hbound hmax _
  have hlength := congrArg List.length hdrop
  rw [List.length_drop, List.length_append] at hlength
  unfold skipBytes
  rw [if_pos (by omega)]
  rfl

theorem takes_takeStep : Takes takeStep () [] 1 := by
  intro input tail _ _ _ hsteps
  unfold takeStep
  rw [if_pos (by omega)]
  rfl

theorem and_254_eq_zero {byte : UInt8} (h : byte.toNat ≤ 1) : byte.toNat &&& 0xfe = 0 := by
  rcases Nat.le_one_iff_eq_zero_or_eq_one.1 h with heq | heq <;> rw [heq] <;> rfl

/-- The digits of a number are read from its encoding. -/
theorem takes_digits {n i value : ℕ} {header : List UInt8} (h : Varint.Encodes n header)
    (hlength : i + header.length ≤ 10) (hvalue : value < 2 ^ (7 * i))
    (hbound : value + 2 ^ (7 * i) * n < 2 ^ 64) :
    Takes (digits (List.range' i (10 - i)) value) (value + 2 ^ (7 * i) * n) header 0 := by
  induction h generalizing i value with
  | last byte h =>
    have hcount : 10 - i = (9 - i) + 1 := by
      rw [List.length_singleton] at hlength
      omega
    rw [hcount, List.range'_succ, digits]
    refine (takes_byte byte).bind_pure ?_
    rw [if_neg, Varint.and_127, Nat.mod_eq_of_lt h, Nat.mul_comm i 7, Varint.or_shiftLeft hvalue,
      if_pos ((Varint.and_128_eq_zero byte).2 h)]
    · exact takes_pure _
    · rintro ⟨rfl, hbits⟩
      exact hbits (and_254_eq_zero (by omega))
  | more byte h hbytes ih =>
    rename_i n bytes'
    have hpos := hbytes.length_pos
    rw [List.length_cons] at hlength
    obtain ⟨hmod, hnextLt, hsum⟩ := @Varint.add_digit _ _ _ n h byte.toNat_lt hvalue
    have hcount : 10 - i = (10 - (i + 1)) + 1 := by omega
    rw [hcount, List.range'_succ, digits, ← hsum]
    refine Takes.byte_bind ?_
    rw [if_neg (by omega), Varint.and_127, hmod, Nat.mul_comm i 7, Varint.or_shiftLeft hvalue,
      if_neg (fun hlast => by
        rw [Varint.and_128_eq_zero] at hlast
        omega)]
    exact ih (by omega) (by omega) (by omega)

theorem takes_varint {n : ℕ} (h : Number n bytes) : Takes varint n bytes 0 := by
  obtain ⟨hencodes, hlength, hn⟩ := h
  have hdigits := takes_digits (i := 0) hencodes (by omega) Nat.zero_lt_one (by omega)
  rw [Nat.mul_zero, Nat.pow_zero, Nat.one_mul, Nat.zero_add] at hdigits
  rw [varint, List.range_eq_range']
  exact hdigits

theorem unzigzag_double (n : ℕ) : unzigzag (2 * n) = n := by
  have hbits : (2 * n) &&& 1 = 0 := by rw [Nat.and_one_is_mod, Nat.mul_mod_right]
  rw [unzigzag, if_pos hbits, Nat.shiftRight_eq_div_pow, Nat.pow_one,
    Nat.mul_div_cancel_left n (by decide)]

theorem takes_zigzagI16 {n : ℕ} (h : Number (2 * n) bytes) (hn : n ≤ maxField) :
    Takes zigzagI16 (n : ℤ) bytes 0 := by
  rw [maxField] at hn
  refine (takes_varint h).bind_pure ?_
  rw [if_pos (by omega), unzigzag_double]
  exact takes_pure _

theorem takes_zigzagI32 {n : ℕ} (h : Number (2 * n) bytes) (hn : n < 2 ^ 31) :
    Takes zigzagI32 (n : ℤ) bytes 0 := by
  refine (takes_varint h).bind_pure ?_
  rw [if_pos (by omega), unzigzag_double]
  exact takes_pure _

theorem takes_length {n : ℕ} (h : Number n bytes) (hn : n ≤ usizeMax) :
    Takes length n bytes 0 := by
  refine (takes_varint h).bind_pure ?_
  rw [if_pos hn]
  exact takes_pure _

/-! ## Values -/

/-- Where a value of the grammar stands. -/
def contextOf : Place → CompactValueContext
  | .field => .structField
  | .element => .collectionElement

/-- The reader of a part of the grammar takes its bytes. -/
def Reads (fuel : ℕ) : Part → (height steps : ℕ) → List UInt8 → Prop
  | .value place kind, height, steps, bytes => ∀ levels, height ≤ levels →
    bytes.length ≤ min fuel usizeMax →
    Takes (skipBelow fuel levels kind (contextOf place)) () bytes steps
  | .elements kind count, height, steps, bytes => ∀ levels, height ≤ levels →
    bytes.length ≤ min fuel usizeMax →
    Takes (times count (skipBelow fuel levels kind .collectionElement)) () bytes steps
  | .pairs keyKind valueKind count, height, steps, bytes => ∀ levels, height ≤ levels →
    bytes.length ≤ min fuel usizeMax → Takes (times count do
      skipBelow fuel levels keyKind .collectionElement
      skipBelow fuel levels valueKind .collectionElement) () bytes steps
  | .fields previous, height, steps, bytes => ∀ levels rounds, height ≤ levels →
    bytes.length ≤ min fuel usizeMax → bytes.length ≤ rounds →
      Takes (fields (fun _ nestedType _ => skipBelow fuel levels nestedType .structField) rounds
        previous ()) () bytes steps

theorem and_15 (m : ℕ) : m &&& 0x0f = m % 16 := Nat.and_two_pow_sub_one_eq_mod m 4

theorem shiftRight_4 (m : ℕ) : m >>> 4 = m / 16 := Nat.shiftRight_eq_div_pow m 4

/-- Two halves of a byte. -/
theorem halves {high low : ℕ} {byte : UInt8} (hbyte : byte.toNat = high * 16 + low)
    (hlow : low < 16) : byte.toNat &&& 0x0f = low ∧ byte.toNat >>> 4 = high := by
  rw [and_15, shiftRight_4, hbyte]
  omega

/-- A value is counted before its bytes are taken. -/
theorem takes_skipBelow {fuel levels kind : ℕ} {context : CompactValueContext}
    {read : CompactReader Unit} (heq : skipBelow fuel (levels + 1) kind context = (do
      takeStep
      read)) (h : Takes read () bytes steps) :
    Takes (skipBelow fuel (levels + 1) kind context) () bytes (steps + 1) := by
  have hbind := takes_takeStep.bind (f := fun _ => read) h
  rw [List.nil_append, Nat.add_comm] at hbind
  rw [heq]
  exact hbind

/-- The header of a field gives its identifier and its kind. -/
theorem takes_fieldHeader {σ : Type} {readField : ℤ → ℕ → σ → CompactReader σ}
    {previous id kind rounds : ℕ} {header first rest : List UInt8} {s s' s'' : σ} {steps steps' : ℕ}
    (hheader : FieldHeader previous id kind header) (hid : 0 < id) (hmax : id ≤ maxField)
    (hpos : 0 < kind) (hkind : kind < 16)
    (hfirst : Takes (readField id kind s) s' first steps)
    (hrest : Takes (fields readField rounds id s') s'' rest steps') :
    Takes (fields readField (rounds + 1) previous s) s'' (header ++ (first ++ rest))
      (steps + steps') := by
  have hbody : Takes (do
      let state ← readField id kind s
      fields readField rounds id state) s'' (first ++ rest) (steps + steps') := hfirst.bind hrest
  have hposId : ¬((id : ℕ) : ℤ) ≤ 0 := by omega
  rw [maxField] at hmax
  cases hheader with
  | short byte hdelta hid' hbyte =>
    rename_i delta
    obtain ⟨hlow, hhigh⟩ := halves hbyte hkind
    refine Takes.byte_bind ?_
    dsimp only
    rw [hlow, hhigh, if_neg (Nat.pos_iff_ne_zero.1 hpos), fieldId,
      if_neg (Nat.pos_iff_ne_zero.1 hdelta), if_pos (by omega)]
    have hfield : (previous : ℤ) + delta = ((id : ℕ) : ℤ) := by
      rw [hid']
      exact (Int.natCast_add _ _).symm
    rw [hfield]
    refine (takes_pure _).bind_nil ?_
    rw [if_neg hposId]
    exact hbody
  | long byte hbyte hbytes =>
    obtain ⟨hlow, hhigh⟩ := @halves 0 kind byte (by rw [hbyte, Nat.zero_mul, Nat.zero_add]) hkind
    refine Takes.byte_bind ?_
    dsimp only
    rw [hlow, hhigh, if_neg (Nat.pos_iff_ne_zero.1 hpos), fieldId, if_pos rfl]
    refine (takes_zigzagI16 hbytes hmax).bind_zero ?_
    rw [if_neg hposId]
    exact hbody

/-- A list header gives the length and the kind of the elements. -/
theorem takes_skipList {kind count : ℕ} {header bytes : List UInt8}
    {skipElement : ℕ → CompactReader Unit} (hheader : ListHeader kind count header)
    (hkind : kind < 16) (hcount : count ≤ maxCompactContainerItems)
    (hpos : 0 < count → 0 < kind)
    (helements : Takes (times count (skipElement kind)) () bytes steps) :
    Takes (skipList skipElement) () (header ++ bytes) steps := by
  have hnot : ¬(maxCompactContainerItems < count ∨ 0 < count ∧ kind = 0) := by omega
  have hmax : count ≤ usizeMax := hcount.trans (by decide)
  cases hheader with
  | short byte hcount' hbyte =>
    obtain ⟨hlow, hhigh⟩ := halves hbyte hkind
    refine Takes.byte_bind ?_
    dsimp only
    rw [hlow, hhigh, listLength, if_neg (by omega)]
    refine (takes_pure count).bind_nil ?_
    rw [if_neg hnot]
    exact helements
  | long byte hbyte hbytes =>
    obtain ⟨hlow, hhigh⟩ := halves hbyte hkind
    refine Takes.byte_bind ?_
    dsimp only
    rw [hlow, hhigh, listLength, if_pos rfl]
    refine (takes_length hbytes hmax).bind_zero ?_
    rw [if_neg hnot]
    exact helements

theorem length_pos_of_fieldHeader {previous id kind : ℕ} {header : List UInt8}
    (h : FieldHeader previous id kind header) : 0 < header.length := by
  cases h <;> simp

/-- Elements have a kind. -/
theorem pos_of_elements {maxItems kind count height : ℕ} (hcount : 0 < count)
    (h : Encodes maxItems (.elements kind count) height steps bytes) : 0 < kind := by
  cases h with
  | noElements => exact absurd hcount (lt_irrefl 0)
  | element hfirst hrest => exact hfirst.kind_pos

theorem pos_of_pairs {maxItems keyKind valueKind count height : ℕ} (hcount : 0 < count)
    (h : Encodes maxItems (.pairs keyKind valueKind count) height steps bytes) :
    0 < keyKind ∧ 0 < valueKind := by
  cases h with
  | noPairs => exact absurd hcount (lt_irrefl 0)
  | pair hkey hfirst hrest => exact ⟨hkey.kind_pos, hfirst.kind_pos⟩

/-- The reader of every part of the grammar takes its bytes. -/
theorem reads_of_encodes {fuel height steps : ℕ} {part : Part} {bytes : List UInt8}
    (h : Encodes maxCompactContainerItems part height steps bytes) :
    Reads fuel part height steps bytes := by
  -- By the derivation: each case reads one form, and needs a level above those of its parts.
  induction h with
  | boolField hkind =>
    rintro (_ | levels) hle -
    · omega
    · rcases hkind with rfl | rfl <;> exact takes_skipBelow rfl (takes_pure ())
  | boolElement hkind byte hbyte =>
    have hread : Takes (skipBoolean .collectionElement) () [byte] 0 := by
      refine Takes.byte_bind ?_
      rw [if_pos hbyte]
      exact takes_pure ()
    rintro (_ | levels) hle -
    · omega
    · rcases hkind with rfl | rfl <;> exact takes_skipBelow rfl hread
  | byte byte =>
    rintro (_ | levels) hle -
    · omega
    · exact takes_skipBelow rfl (Takes.byte_bind (takes_pure ()))
  | integer hkind hbytes =>
    rintro (_ | levels) hle -
    · omega
    · rcases hkind with rfl | rfl | rfl <;>
        exact takes_skipBelow rfl ((takes_varint hbytes).bind_pure (takes_pure ()))
  | double hlength =>
    rename_i bytes
    rintro (_ | levels) hle -
    · omega
    · have hread := takes_skipBytes bytes
      rw [hlength] at hread
      exact takes_skipBelow rfl hread
  | binary hheader =>
    rintro (_ | levels) hle hbytes
    · omega
    · rw [List.length_append] at hbytes
      exact takes_skipBelow rfl
        ((takes_length hheader (by omega)).bind_zero (takes_skipBytes _))
  | list hkind hheader helement hcount helements ih =>
    rintro (_ | levels) hle hbytes
    · omega
    · rw [List.length_append] at hbytes
      have hpos := fun hcount' => pos_of_elements hcount' helements
      have hread : Takes (skipList fun elementType =>
          skipBelow fuel levels elementType .collectionElement) () _ _ :=
        takes_skipList hheader helement hcount hpos (ih levels (by omega) (by omega))
      rcases hkind with rfl | rfl <;> exact takes_skipBelow rfl hread
  | emptyMap hheader =>
    rintro (_ | levels) hle -
    · omega
    · exact takes_skipBelow rfl
        ((takes_length hheader (Nat.zero_le _)).bind_pure (takes_pure ()))
  | map hheader hpos hcount kinds hkinds hvalue hpairs ih =>
    rintro (_ | levels) hle hbytes
    · omega
    · rw [List.length_append, List.length_cons] at hbytes
      obtain ⟨hlow, hhigh⟩ := halves hkinds hvalue
      obtain ⟨hkey, hval⟩ := pos_of_pairs hpos hpairs
      refine takes_skipBelow rfl
        ((takes_length hheader (hcount.trans (by decide))).bind_zero ?_)
      rw [if_neg (by omega), if_neg (by omega)]
      refine Takes.byte_bind ?_
      dsimp only
      rw [hlow, hhigh, if_neg (by omega)]
      exact ih levels (by omega) (by omega)
  | struct hfields ih =>
    rintro (_ | levels) hle hbytes
    · omega
    · exact takes_skipBelow rfl (ih levels fuel (by omega) hbytes (by omega))
  | noElements => exact fun _ _ _ => takes_pure ()
  | element hfirst hrest ih ihs =>
    intro levels hle hbytes
    rw [List.length_append] at hbytes
    exact (ih levels hle (by omega)).bind (ihs levels hle (by omega))
  | noPairs => exact fun _ _ _ => takes_pure ()
  | pair hkey hfirst hrest ihk ih ihs =>
    intro levels hle hbytes
    rw [List.length_append, List.length_append] at hbytes
    rw [← Nat.add_assoc, ← List.append_assoc]
    exact ((ihk levels hle (by omega)).bind (ih levels hle (by omega))).bind
      (ihs levels hle (by omega))
  | stop =>
    rintro levels (_ | rounds) hle - hrounds
    · exact absurd hrounds (Nat.not_succ_le_zero 0)
    · exact Takes.byte_bind (takes_pure ())
  | field hheader hid hmax hkind hfirst hrest ih ihs =>
    have hsome := length_pos_of_fieldHeader hheader
    intro levels rounds hle hbytes hrounds
    rw [List.length_append, List.length_append] at hbytes hrounds
    obtain ⟨rounds, rfl⟩ := Nat.exists_eq_add_of_lt (by omega : 0 < rounds)
    rw [Nat.zero_add] at hrounds ⊢
    exact takes_fieldHeader hheader hid hmax hfirst.kind_pos hkind (ih levels hle (by omega))
      (ihs levels rounds hle (by omega) (by omega))

end CompactInput

open CompactInput

/-! ## Page headers -/

/-- A field of a page header in its encoding. -/
structure PageField where
  id : ℕ
  kind : ℕ
  header : List UInt8
  body : List UInt8
  steps : ℕ

/-- The headers of the fields follow each other. -/
def Chained : ℕ → List PageField → Prop
  | _, [] => True
  | previous, field :: fields =>
    FieldHeader previous field.id field.kind field.header ∧ 0 < field.id ∧ field.id ≤ maxField ∧
      Chained field.id fields

/-- One field has the identifier, and it is a signed number of 32 bits that is not negative. -/
def HasOnce (fields : List PageField) (id n : ℕ) : Prop :=
  ∃ field, fields.filter (fun field => field.id = id) = [field] ∧ field.kind = 5 ∧ n < 2 ^ 31 ∧
    Number (2 * n) field.body

/-- The values of the fields that are passed over. -/
def passedSteps (fields : List PageField) : ℕ :=
  (fields.map fun field => if field.id ≤ 3 then 0 else field.steps).sum

/-- The encoding of a page header: its three fields once, in any place, and any others within the
    bounds. -/
structure EncodesPageHeader (fields : List PageField) (pageType uncompressed compressed : ℕ)
    (bytes : List UInt8) : Prop where
  chained : Chained 0 fields
  hasPageType : HasOnce fields 1 pageType
  pageType_le : pageType ≤ 3
  hasUncompressed : HasOnce fields 2 uncompressed
  hasCompressed : HasOnce fields 3 compressed
  others : ∀ field ∈ fields, 3 < field.id → field.kind < 16 ∧
    Encodes maxCompactContainerItems (.value .field field.kind) maxCompactDepth field.steps
      field.body
  steps : passedSteps fields ≤ maxCompactParseSteps
  bytes_eq : bytes = fields.flatMap (fun field => field.header ++ field.body) ++ [0]

/-- A field that was read, or is still to be read. -/
def Pending (fields : List PageField) (id n : ℕ) (seen : Option ℤ) : Prop :=
  (seen = some (n : ℤ) ∧ fields.filter (fun field => field.id = id) = []) ∨
    (seen = none ∧ HasOnce fields id n)

variable {field : PageField} {fields : List PageField} {id n : ℕ} {seen : Option ℤ}

theorem Pending.tail (h : Pending (field :: fields) id n seen) (hother : field.id ≠ id) :
    Pending fields id n seen := by
  have hfilter : (field :: fields).filter (fun field => field.id = id) =
      fields.filter fun field => field.id = id :=
    List.filter_cons_of_neg (by simpa using hother)
  unfold Pending HasOnce at h ⊢
  rwa [hfilter] at h

/-- The field is read when it comes. -/
theorem Pending.read (h : Pending (field :: fields) id n seen) (hid : field.id = id) :
    Takes (onceI32 field.kind seen) (some (n : ℤ)) field.body 0 ∧
      Pending fields id n (some (n : ℤ)) ∧ field.kind = 5 := by
  have hfilter : (field :: fields).filter (fun field => field.id = id) =
      field :: fields.filter fun field => field.id = id :=
    List.filter_cons_of_pos (by simpa using hid)
  unfold Pending HasOnce at h
  rw [hfilter] at h
  rcases h with ⟨-, hnil⟩ | ⟨rfl, field', hone, hkind, hn, hbody⟩
  · cases hnil
  · obtain ⟨rfl, hrest⟩ := List.cons.inj hone
    refine ⟨?_, .inl ⟨rfl, hrest⟩, hkind⟩
    rw [onceI32, if_neg (by simp [hkind])]
    exact (takes_zigzagI32 hbody hn).bind_pure (takes_pure _)

theorem Pending.nil (h : Pending [] id n seen) : seen = some (n : ℤ) := by
  rcases h with ⟨hseen, -⟩ | ⟨-, field, hnil, -⟩
  · exact hseen
  · cases hnil

/-- The fields of a page header are read to its end. -/
theorem takes_pageHeader {fuel rounds previous pageType uncompressed compressed : ℕ}
    {seen : PageHeaderFields} (hchained : Chained previous fields)
    (hpage : Pending fields 1 pageType seen.pageType)
    (huncompressed : Pending fields 2 uncompressed seen.uncompressed)
    (hcompressed : Pending fields 3 compressed seen.compressed)
    (hothers : ∀ field ∈ fields, 3 < field.id → field.kind < 16 ∧
      Encodes maxCompactContainerItems (.value .field field.kind) maxCompactDepth field.steps
        field.body)
    (hbytes : ∀ field ∈ fields, field.body.length ≤ min fuel usizeMax)
    (hrounds : fields.length < rounds) :
    Takes (CompactInput.fields (pageHeaderField fuel) rounds previous seen)
      ⟨some (pageType : ℤ), some (uncompressed : ℤ), some (compressed : ℤ)⟩
      (fields.flatMap (fun field => field.header ++ field.body) ++ [0]) (passedSteps fields) := by
  induction fields generalizing previous rounds seen with
  | nil =>
    obtain ⟨rounds, rfl⟩ := Nat.exists_eq_add_of_lt hrounds
    obtain ⟨seenType, seenUncompressed, seenCompressed⟩ := seen
    obtain rfl := hpage.nil
    obtain rfl := huncompressed.nil
    obtain rfl := hcompressed.nil
    rw [List.length_nil, Nat.zero_add]
    exact Takes.byte_bind (takes_pure _)
  | cons field fields ih =>
    obtain ⟨hheader, hid, hmax, hchained⟩ := hchained
    obtain ⟨hbody, hbytes⟩ := List.forall_mem_cons.1 hbytes
    obtain ⟨hother, hothers⟩ := List.forall_mem_cons.1 hothers
    rw [List.length_cons] at hrounds
    obtain ⟨rounds, rfl⟩ := Nat.exists_eq_add_of_lt (by omega : 0 < rounds)
    rw [Nat.zero_add] at hrounds ⊢
    have hsteps : passedSteps (field :: fields) =
        (if field.id ≤ 3 then 0 else field.steps) + passedSteps fields := by
      rw [passedSteps, List.map_cons, List.sum_cons, passedSteps]
    rw [List.flatMap_cons, List.append_assoc, List.append_assoc, hsteps]
    have ih := fun seen => @ih rounds field.id seen hchained
    have hcases : field.id = 1 ∨ field.id = 2 ∨ field.id = 3 ∨ 3 < field.id := by omega
    rcases hcases with heq | heq | heq | hgt
    · obtain ⟨hread, hnext, hkind⟩ := hpage.read heq
      rw [if_pos (by omega)]
      refine takes_fieldHeader hheader hid hmax (by omega) (by omega) ?_
        (ih { seen with pageType := some (pageType : ℤ) } hnext (huncompressed.tail (by omega))
          (hcompressed.tail (by omega)) hothers hbytes (by omega))
      rw [heq, pageHeaderField, if_pos (by omega)]
      exact hread.bind_pure (takes_pure _)
    · obtain ⟨hread, hnext, hkind⟩ := huncompressed.read heq
      rw [if_pos (by omega)]
      refine takes_fieldHeader hheader hid hmax (by omega) (by omega) ?_
        (ih { seen with uncompressed := some (uncompressed : ℤ) } (hpage.tail (by omega)) hnext
          (hcompressed.tail (by omega)) hothers hbytes (by omega))
      rw [heq, pageHeaderField, if_neg (by omega), if_pos (by omega)]
      exact hread.bind_pure (takes_pure _)
    · obtain ⟨hread, hnext, hkind⟩ := hcompressed.read heq
      rw [if_pos (by omega)]
      refine takes_fieldHeader hheader hid hmax (by omega) (by omega) ?_
        (ih { seen with compressed := some (compressed : ℤ) } (hpage.tail (by omega))
          (huncompressed.tail (by omega)) hnext hothers hbytes (by omega))
      rw [heq, pageHeaderField, if_neg (by omega), if_neg (by omega), if_pos (by omega)]
      exact hread.bind_pure (takes_pure _)
    · obtain ⟨hkind, hencodes⟩ := hother hgt
      rw [if_neg (by omega)]
      refine takes_fieldHeader hheader hid hmax hencodes.kind_pos hkind ?_
        (ih seen (hpage.tail (by omega)) (huncompressed.tail (by omega))
          (hcompressed.tail (by omega)) hothers hbytes (by omega))
      rw [pageHeaderField, if_neg (by omega), if_neg (by omega), if_neg (by omega)]
      exact (reads_of_encodes hencodes _ le_rfl hbody).bind_pure (takes_pure _)

theorem length_le_of_chained {previous : ℕ} (h : Chained previous fields) :
    fields.length ≤ (fields.flatMap fun field => field.header ++ field.body).length := by
  induction fields generalizing previous with
  | nil => exact Nat.zero_le _
  | cons field fields ih =>
    obtain ⟨hheader, -, -, hchained⟩ := h
    have hpos := length_pos_of_fieldHeader hheader
    have hle := ih hchained
    rw [List.flatMap_cons, List.length_append, List.length_append, List.length_cons]
    omega

/-- A page header is read from its encoding, whatever comes after it. -/
theorem compactPageHeader_of_encodes {pageType uncompressed compressed : ℕ} {bytes : List UInt8}
    (tail : List UInt8)
    (h : EncodesPageHeader fields pageType uncompressed compressed bytes)
    (hmax : (bytes ++ tail).length ≤ usizeMax) :
    compactPageHeader (bytes ++ tail) = some {
      encodedBytes := bytes.length
      pageType := pageType
      compressedBytes := compressed
      uncompressedBytes := uncompressed } := by
  have hbodies : ∀ field ∈ fields, field.body.length ≤ bytes.length := fun field hfield => by
    have hle := (List.sublist_flatten_of_mem (List.mem_map_of_mem
      (f := fun field : PageField => field.header ++ field.body) hfield)).length_le
    rw [h.bytes_eq, List.flatMap_def, List.length_append]
    rw [List.length_append] at hle
    omega
  have hcount : fields.length < bytes.length := by
    have hle := length_le_of_chained h.chained
    rw [h.bytes_eq, List.length_append, List.length_singleton]
    omega
  rw [List.length_append] at hmax
  have htakes := @takes_pageHeader fields (bytes.length + tail.length + 1)
    (bytes.length + tail.length + 1) 0 pageType uncompressed compressed {} h.chained
    (.inr ⟨rfl, h.hasPageType⟩) (.inr ⟨rfl, h.hasUncompressed⟩) (.inr ⟨rfl, h.hasCompressed⟩)
    h.others (fun field hfield => by have hle := hbodies field hfield; omega) (by omega)
  rw [← h.bytes_eq] at htakes
  have hread := htakes (CompactInput.new (bytes ++ tail)) tail rfl (Nat.zero_le _)
    (by rw [CompactInput.new, List.length_append]; exact hmax) h.steps
  have hle := h.pageType_le
  rw [compactPageHeader, compactPageHeaderWithin, List.length_append]
  rw [Nat.cast_zero] at hread
  rw [hread]
  change (if (pageType : ℤ) < 0 ∨ 3 < (pageType : ℤ) ∨ (uncompressed : ℤ) < 0 ∨
    (compressed : ℤ) < 0 then none else some _) = _
  rw [if_neg (by omega), CompactInput.new, Nat.zero_add]
  rfl

/-- A page header that has its three fields once, and any others within the bounds, is read with its
    length from its encoding, whatever comes after it, and from no beginning of it. On all bytes the
    loops have enough rounds, and a header that is read depends on its own bytes alone. -/
theorem compact_page_header_exact :
    (∀ fields pageType uncompressed compressed bytes,
      EncodesPageHeader fields pageType uncompressed compressed bytes → bytes.length ≤ usizeMax →
        (∀ tail, (bytes ++ tail).length ≤ usizeMax →
          compactPageHeader (bytes ++ tail) = some {
            encodedBytes := bytes.length
            pageType := (pageType : ℤ)
            compressedBytes := compressed
            uncompressedBytes := uncompressed }) ∧
        ∀ start, start <+: bytes → start ≠ bytes → compactPageHeader start = none) ∧
    (∀ bytes fuel, bytes.length < fuel →
      compactPageHeaderWithin fuel bytes = compactPageHeader bytes) ∧
    ∀ bytes header, compactPageHeader bytes = some header → header.encodedBytes ≤ bytes.length ∧
      ∀ bytes', bytes'.take header.encodedBytes = bytes.take header.encodedBytes →
        compactPageHeader bytes' = some header := by
  refine ⟨fun fields pageType uncompressed compressed bytes h hmax =>
    ⟨fun tail => compactPageHeader_of_encodes tail h, fun start hstart hne => ?_⟩,
    fun bytes fuel => compactPageHeaderWithin_eq, fun bytes header h =>
      ⟨(compactPageHeader_local bytes h).1, fun bytes' => (compactPageHeader_local bytes' h).2⟩⟩
  -- A header read from a beginning would be that of the whole encoding, which is longer.
  by_contra hsome
  obtain ⟨header, hheader⟩ := Option.ne_none_iff_exists'.1 hsome
  obtain ⟨hle, hlocal⟩ := compactPageHeader_local bytes hheader
  have hwhole := compactPageHeader_of_encodes [] h (by rw [List.append_nil]; exact hmax)
  obtain ⟨rest, rfl⟩ := hstart
  rw [List.append_nil, hlocal (List.take_append_of_le_length hle)] at hwhole
  cases hwhole
  dsimp only at hle
  rw [List.length_append] at hle
  have hnil : rest = [] := List.eq_nil_of_length_eq_zero (by omega)
  rw [hnil, List.append_nil] at hne
  exact hne rfl

/-- A page header with its fields out of order and one that is passed over. -/
theorem compact_page_header_exact_reordered :
    compactPageHeader [5, 6, 8, 5, 18, 34, 5, 2, 0, 5, 4, 16, 0, 77] = some {
        encodedBytes := 13
        pageType := 0
        compressedBytes := 4
        uncompressedBytes := 8 } ∧
      compactPageHeader [5, 6, 8, 5, 18, 34, 5, 2, 0, 5, 4, 16] = none := by
  have hnumber : ∀ byte : UInt8, byte.toNat < 128 → Number byte.toNat [byte] := fun byte h =>
    ⟨.last byte h, by rw [List.length_singleton]; decide, by omega⟩
  have hheader : ∀ (byte : UInt8) (previous id : ℕ), byte.toNat = 2 * id → id < 64 →
      FieldHeader previous id 5 [5, byte] := fun byte previous id hbyte hid =>
    .long 5 rfl (hbyte ▸ hnumber byte (by omega))
  obtain ⟨hread, hstart⟩ := compact_page_header_exact.1
    [⟨3, 5, [5, 6], [8], 0⟩, ⟨9, 5, [5, 18], [34], 1⟩, ⟨1, 5, [5, 2], [0], 0⟩,
    ⟨2, 5, [5, 4], [16], 0⟩]
    0 8 4 [5, 6, 8, 5, 18, 34, 5, 2, 0, 5, 4, 16, 0] {
      chained := ⟨hheader 6 0 3 rfl (by decide), by decide, by decide,
        hheader 18 3 9 rfl (by decide), by decide, by decide,
        hheader 2 9 1 rfl (by decide), by decide, by decide,
        hheader 4 1 2 rfl (by decide), by decide, by decide, trivial⟩
      hasPageType := ⟨_, rfl, rfl, by decide, hnumber 0 (by decide)⟩
      pageType_le := by decide
      hasUncompressed := ⟨_, rfl, rfl, by decide, hnumber 16 (by decide)⟩
      hasCompressed := ⟨_, rfl, rfl, by decide, hnumber 8 (by decide)⟩
      others := by
        simp only [List.forall_mem_cons]
        refine ⟨fun h => absurd h (by decide), fun _ => ⟨by decide, ?_⟩,
          fun h => absurd h (by decide), fun h => absurd h (by decide), fun _ h => by cases h⟩
        exact .integer (.inr (.inl rfl)) (hnumber 34 (by decide))
      steps := by decide
      bytes_eq := rfl } (by decide)
  exact ⟨hread [77] (by decide), hstart _ ⟨[0], rfl⟩ (by decide)⟩

end Tabulark.Parquet
