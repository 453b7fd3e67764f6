import Tabulark.Lib.LittleEndian
import Tabulark.Preview.Image

/-!
# What the pixel limit sees

JPEG and WebP images, as the standards write them up to the header with the size. The
walk over the markers of a JPEG image skips a segment by its length; it takes the
marker behind a fill byte, and what follows a marker that stands alone, for a length
(`jpegSizeFrom_astray`). A WebP image in the simple lossy form is not understood. All
other images are rejected exactly if they have too many pixels
(`inspectImage_of_seen`).
-/

namespace Tabulark.Preview

open LittleEndian

/-! ## JPEG -/

/-- A number of two bytes, the most significant first. -/
def bigEndian (n : ℕ) : List UInt8 := [UInt8.ofNat (n / 256), UInt8.ofNat n]

/-- Whether a marker stands alone: `TEM` and `RSTm`. -/
def isStandalone (marker : UInt8) : Bool :=
  marker = 0x01 || (0xd0 ≤ marker && marker ≤ 0xd7)

/-- What stands before the header of a frame: a marker, behind fill bytes, and what follows it,
    unless it stands alone. -/
structure JpegSegment where
  fill : ℕ
  marker : UInt8
  content : Option (List UInt8)

namespace JpegSegment

def bytes (segment : JpegSegment) : List UInt8 :=
  List.replicate segment.fill 0xff ++ 0xff :: segment.marker ::
    segment.content.elim [] fun content => bigEndian (content.length + 2) ++ content

/-- A segment as the standard has it. -/
structure WellFormed (segment : JpegSegment) : Prop where
  marker : segment.marker.toNat ∉ frameMarkers ∧ segment.marker ∉ [0x00, 0xd8, 0xd9, 0xff]
  content : segment.content = none ↔ isStandalone segment.marker = true
  length : ∀ content ∈ segment.content, content.length + 2 < 2 ^ 16

/-- A segment without fill bytes whose marker does not stand alone. -/
def InStep (segment : JpegSegment) : Prop := segment.fill = 0 ∧ segment.content.isSome = true

end JpegSegment

/-- The header of a frame, behind fill bytes: a component has an identifier, sampling factors, and a
    quantization table. -/
structure JpegFrame where
  fill : ℕ
  marker : UInt8
  precision : UInt8
  height : ℕ
  width : ℕ
  components : List (UInt8 × UInt8 × UInt8)

namespace JpegFrame

def bytes (frame : JpegFrame) : List UInt8 :=
  List.replicate frame.fill 0xff ++ 0xff :: frame.marker ::
    (bigEndian (8 + 3 * frame.components.length) ++ frame.precision ::
      (bigEndian frame.height ++ (bigEndian frame.width ++
        UInt8.ofNat frame.components.length ::
          frame.components.flatMap fun (id, sampling, table) => [id, sampling, table])))

structure WellFormed (frame : JpegFrame) : Prop where
  marker : frame.marker.toNat ∈ frameMarkers
  height : frame.height < 2 ^ 16
  width : frame.width < 2 ^ 16
  components : frame.components ≠ [] ∧ frame.components.length < 256

end JpegFrame

/-- A JPEG image: segments, the header of the first frame, and the rest. -/
structure Jpeg where
  segments : List JpegSegment
  frame : JpegFrame
  rest : List UInt8

namespace Jpeg

def bytes (image : Jpeg) : List UInt8 :=
  0xff :: 0xd8 :: (image.segments.flatMap JpegSegment.bytes ++ (image.frame.bytes ++ image.rest))

structure WellFormed (image : Jpeg) : Prop where
  segments : ∀ segment ∈ image.segments, segment.WellFormed
  frame : image.frame.WellFormed

/-- There are no fill bytes, and no marker stands alone, up to the header of the frame. -/
def InStep (image : Jpeg) : Prop :=
  (∀ segment ∈ image.segments, segment.InStep) ∧ image.frame.fill = 0

end Jpeg

/-! ## WebP -/

/-- The first chunk of a WebP image: simple lossy, simple lossless, or extended. -/
inductive WebpHeader
  | vp8 (tag : List UInt8) (width height horizontalScale verticalScale : ℕ)
  | vp8l (width height alpha version : ℕ)
  | vp8x (flags width height : ℕ)

namespace WebpHeader

/-- The name of the chunk. -/
def fourCC : WebpHeader → List UInt8
  | vp8 .. => [0x56, 0x50, 0x38, 0x20]
  | vp8l .. => [0x56, 0x50, 0x38, 0x4c]
  | vp8x .. => [0x56, 0x50, 0x38, 0x58]

/-- What the chunk begins with. -/
def bytes : WebpHeader → List UInt8
  | vp8 tag width height horizontalScale verticalScale =>
    tag ++ ([0x9d, 0x01, 0x2a] ++ (digits 2 (width + 2 ^ 14 * horizontalScale) ++
      digits 2 (height + 2 ^ 14 * verticalScale)))
  | vp8l width height alpha version =>
    0x2f :: digits 4 (width - 1 + 2 ^ 14 * (height - 1 + 2 ^ 14 * (alpha + 2 * version)))
  | vp8x flags width height => digits 4 flags ++ (digits 3 (width - 1) ++ digits 3 (height - 1))

def width : WebpHeader → ℕ
  | vp8 _ width .. | vp8l width .. | vp8x _ width _ => width

def height : WebpHeader → ℕ
  | vp8 _ _ height .. | vp8l _ height .. | vp8x _ _ height => height

def WellFormed : WebpHeader → Prop
  | vp8 tag width height horizontalScale verticalScale =>
    tag.length = 3 ∧ width < 2 ^ 14 ∧ height < 2 ^ 14 ∧ horizontalScale < 4 ∧ verticalScale < 4
  | vp8l width height alpha version =>
    width ∈ Set.Icc 1 (2 ^ 14) ∧ height ∈ Set.Icc 1 (2 ^ 14) ∧ alpha < 2 ∧ version < 8
  | vp8x flags width height =>
    flags < 2 ^ 32 ∧ width ∈ Set.Icc 1 (2 ^ 24) ∧ height ∈ Set.Icc 1 (2 ^ 24)

/-- The chunk is not of the simple lossy form. -/
def isSeen : WebpHeader → Bool
  | vp8 .. => false
  | _ => true

end WebpHeader

/-- A WebP image: the sizes of the file and of its first chunk, and what follows the header. -/
structure Webp where
  fileSize : ℕ
  chunkSize : ℕ
  header : WebpHeader
  rest : List UInt8

def Webp.bytes (image : Webp) : List UInt8 :=
  [0x52, 0x49, 0x46, 0x46] ++ (digits 4 image.fileSize ++ ([0x57, 0x45, 0x42, 0x50] ++
    (image.header.fourCC ++ (digits 4 image.chunkSize ++ (image.header.bytes ++ image.rest)))))

/-! ## Numbers of bytes -/

theorem byteAt_append (before after : List UInt8) (i : ℕ) :
    byteAt (before ++ after) (before.length + i) = byteAt after i := by
  rw [byteAt, byteAt, List.getElem?_append_right (Nat.le_add_right _ _), Nat.add_sub_cancel_left]

theorem uint16_append (before after : List UInt8) (i : ℕ) :
    uint16 (before ++ after) (before.length + i) = uint16 after i := by
  rw [uint16, uint16, byteAt_append, Nat.add_assoc, byteAt_append]

theorem uint24_append (before after : List UInt8) (i : ℕ) :
    uint24 (before ++ after) (before.length + i) = uint24 after i := by
  simp only [uint24, Nat.add_assoc, byteAt_append]

theorem uint32LE_append (before after : List UInt8) (i : ℕ) :
    uint32LE (before ++ after) (before.length + i) = uint32LE after i := by
  rw [uint32LE, uint32LE, uint24_append, Nat.add_assoc, byteAt_append]

theorem byteAt_lt (bytes : List UInt8) (offset : ℕ) : byteAt bytes offset < 2 ^ 8 := by
  rw [byteAt]
  cases bytes[offset]? with
  | none => exact Nat.two_pow_pos 8
  | some byte => exact byte.toNat_lt

theorem uint16_eq (bytes : List UInt8) (offset : ℕ) :
    uint16 bytes offset = 2 ^ 8 * byteAt bytes offset + byteAt bytes (offset + 1) := by
  rw [uint16, ← Nat.shiftLeft_add_eq_or_of_lt (byteAt_lt _ _), Nat.shiftLeft_eq, Nat.mul_comm]

theorem uint24_eq (bytes : List UInt8) (offset : ℕ) :
    uint24 bytes offset = byteAt bytes offset + 2 ^ 8 * byteAt bytes (offset + 1) +
      2 ^ 16 * byteAt bytes (offset + 2) := by
  have h₀ := byteAt_lt bytes offset
  have h₁ := byteAt_lt bytes (offset + 1)
  rw [uint24, ← Nat.shiftLeft_add_eq_or_of_lt h₀, ← Nat.shiftLeft_add_eq_or_of_lt,
    Nat.shiftLeft_eq, Nat.shiftLeft_eq]
  · ring
  · rw [Nat.shiftLeft_eq]
    omega

theorem uint32LE_eq (bytes : List UInt8) (offset : ℕ) :
    uint32LE bytes offset = uint24 bytes offset + 2 ^ 24 * byteAt bytes (offset + 3) := by
  have hlt : uint24 bytes offset < 2 ^ 24 := by
    have h₀ := byteAt_lt bytes offset
    have h₁ := byteAt_lt bytes (offset + 1)
    have h₂ := byteAt_lt bytes (offset + 2)
    rw [uint24_eq]
    omega
  rw [uint32LE, ← Nat.shiftLeft_add_eq_or_of_lt hlt, Nat.shiftLeft_eq]
  ring

@[simp] theorem byteAt_cons_zero (byte : UInt8) (bytes : List UInt8) :
    byteAt (byte :: bytes) 0 = byte.toNat := rfl

@[simp] theorem byteAt_cons_succ (byte : UInt8) (bytes : List UInt8) (i : ℕ) :
    byteAt (byte :: bytes) (i + 1) = byteAt bytes i := rfl

variable {n : ℕ}

theorem uint16_bigEndian (h : n < 2 ^ 16) (after : List UInt8) :
    uint16 (bigEndian n ++ after) 0 = n := by
  rw [uint16_eq, bigEndian]
  simp only [List.cons_append, byteAt_cons_zero, byteAt_cons_succ, UInt8.toNat_ofNat',
    List.nil_append]
  omega

theorem uint24_digits (h : n < 2 ^ 24) (after : List UInt8) :
    uint24 (digits 3 n ++ after) 0 = n := by
  rw [uint24_eq]
  simp only [digits, List.cons_append, List.nil_append, byteAt_cons_zero, byteAt_cons_succ,
    UInt8.toNat_ofNat']
  omega

theorem uint32LE_digits (h : n < 2 ^ 32) (after : List UInt8) :
    uint32LE (digits 4 n ++ after) 0 = n := by
  rw [uint32LE_eq, uint24_eq]
  simp only [digits, List.cons_append, List.nil_append, byteAt_cons_zero, byteAt_cons_succ,
    UInt8.toNat_ofNat']
  omega

/-! ## The walk over the markers -/

/-- What the walk does at a marker. -/
theorem jpegSizeFrom_marker (before rest : List UInt8) (marker : UInt8) (h : 7 < rest.length) :
    jpegSizeFrom (before ++ 0xff :: marker :: rest) before.length =
      if marker.toNat ∈ frameMarkers then some (uint16 rest 5, uint16 rest 3)
      else if uint16 rest 0 < 2 then none
      else jpegSizeFrom (before ++ 0xff :: marker :: rest)
        (before.length + (2 + uint16 rest 0)) := by
  have hfirst : byteAt (before ++ 0xff :: marker :: rest) before.length = 0xff := by
    have := byteAt_append before (0xff :: marker :: rest) 0
    exact this
  have hmarker : byteAt (before ++ 0xff :: marker :: rest) (before.length + 1) = marker.toNat :=
    byteAt_append before (0xff :: marker :: rest) 1
  have hrest : ∀ i, uint16 (before ++ 0xff :: marker :: rest) (before.length + (i + 2)) =
      uint16 rest i := fun i => uint16_append before (0xff :: marker :: rest) (i + 2)
  rw [jpegSizeFrom, if_pos (by simp; omega), hfirst, if_neg (by simp), hmarker]
  simp only [hrest 0, hrest 3, hrest 5]

namespace JpegSegment

variable {segment : JpegSegment}

theorem InStep.bytes_eq (h : segment.InStep) : ∃ content ∈ segment.content, segment.bytes =
    0xff :: segment.marker :: (bigEndian (content.length + 2) ++ content) := by
  obtain ⟨hfill, hcontent⟩ := h
  obtain ⟨content, hcontent⟩ := Option.isSome_iff_exists.1 hcontent
  exact ⟨content, hcontent, by rw [bytes, hfill, hcontent]; rfl⟩

/-- The walk skips a segment that is in step. -/
theorem WellFormed.skip (h : segment.WellFormed) (hstep : segment.InStep)
    (before after : List UInt8) (hafter : 7 < after.length) :
    jpegSizeFrom (before ++ (segment.bytes ++ after)) before.length =
      jpegSizeFrom (before ++ (segment.bytes ++ after)) (before ++ segment.bytes).length := by
  obtain ⟨content, hcontent, hbytes⟩ := hstep.bytes_eq
  have hlength : uint16 (bigEndian (content.length + 2) ++ (content ++ after)) 0 =
      content.length + 2 := uint16_bigEndian (h.length content hcontent) _
  rw [hbytes]
  simp only [List.cons_append, List.append_assoc]
  rw [jpegSizeFrom_marker _ _ _ (by simp; omega), if_neg h.marker.1, hlength, if_neg (by omega)]
  congr 1
  simp [bigEndian]
  omega

end JpegSegment

/-- The walk skips segments that are in step. -/
theorem skip_segments {segments : List JpegSegment}
    (h : ∀ segment ∈ segments, segment.WellFormed ∧ segment.InStep) (before after : List UInt8)
    (hafter : 7 < after.length) :
    jpegSizeFrom (before ++ (segments.flatMap JpegSegment.bytes ++ after)) before.length =
      jpegSizeFrom (before ++ (segments.flatMap JpegSegment.bytes ++ after))
        (before ++ segments.flatMap JpegSegment.bytes).length := by
  induction segments generalizing before with
  | nil => simp
  | cons segment segments ih =>
    obtain ⟨hfirst, hstep⟩ := h segment List.mem_cons_self
    have hrest := ih (fun other hmem => h other (List.mem_cons_of_mem _ hmem))
      (before ++ segment.bytes)
    simp only [List.flatMap_cons, List.append_assoc] at hrest ⊢
    rw [hfirst.skip hstep before _ (by simp; omega), hrest]

namespace JpegFrame

variable {frame : JpegFrame}

theorem lt_length_bytes (frame : JpegFrame) : 7 < frame.bytes.length := by
  simp [bytes, bigEndian]
  omega

/-- What is behind the fill bytes of a header is long enough. -/
theorem bytes_append (frame : JpegFrame) (after : List UInt8) : ∃ tail : List UInt8,
    7 < tail.length ∧
      frame.bytes ++ after = List.replicate frame.fill 0xff ++ 0xff :: tail := by
  refine ⟨_, ?_, by rw [bytes, List.append_assoc]; rfl⟩
  simp [bigEndian]

/-- The walk reads the size behind the marker of a frame. -/
theorem WellFormed.size (h : frame.WellFormed) (hfill : frame.fill = 0)
    (before after : List UInt8) :
    jpegSizeFrom (before ++ (frame.bytes ++ after)) before.length =
      some (frame.width, frame.height) := by
  generalize htail : UInt8.ofNat frame.components.length ::
    (frame.components.flatMap fun (id, sampling, table) => [id, sampling, table]) ++ after = tail
  have hbytes : frame.bytes ++ after = 0xff :: frame.marker ::
      (bigEndian (8 + 3 * frame.components.length) ++ frame.precision ::
        (bigEndian frame.height ++ (bigEndian frame.width ++ tail))) := by
    rw [bytes, hfill, ← htail]
    simp
  have hheight := uint16_append
    (bigEndian (8 + 3 * frame.components.length) ++ [frame.precision])
    (bigEndian frame.height ++ (bigEndian frame.width ++ tail)) 0
  have hwidth := uint16_append
    (bigEndian (8 + 3 * frame.components.length) ++ frame.precision :: bigEndian frame.height)
    (bigEndian frame.width ++ tail) 0
  rw [uint16_bigEndian h.height] at hheight
  rw [uint16_bigEndian h.width] at hwidth
  have hlength : 7 < (bigEndian (8 + 3 * frame.components.length) ++ frame.precision ::
      (bigEndian frame.height ++ (bigEndian frame.width ++ tail))).length := by
    rw [← htail]
    simp [bigEndian]
  rw [hbytes, jpegSizeFrom_marker _ _ _ hlength, if_pos h.marker]
  exact congrArg some (Prod.ext hwidth hheight)

end JpegFrame

/-- Behind a fill byte there is another byte that looks like the start of a marker. -/
theorem fill_eq (h : 0 < n) (rest : List UInt8) :
    List.replicate n (0xff : UInt8) ++ 0xff :: rest =
      0xff :: 0xff :: (List.replicate (n - 1) 0xff ++ rest) := by
  obtain ⟨k, rfl⟩ := Nat.exists_eq_succ_of_ne_zero h.ne'
  rw [List.replicate_succ, Nat.succ_sub_one, List.cons_append,
    ← List.singleton_append (x := (0xff : UInt8)) (l := rest), ← List.append_assoc,
    ← List.replicate_succ', List.replicate_succ, List.cons_append]

namespace Jpeg

variable {image : Jpeg}

instance (segment : JpegSegment) : Decidable segment.InStep :=
  inferInstanceAs (Decidable (_ ∧ _))

/-- The segments that the walk skips before it goes astray. -/
def skipped (image : Jpeg) : List JpegSegment := image.segments.takeWhile (·.InStep)

/-- Where the walk goes astray, if it does. -/
def astray (image : Jpeg) : ℕ := 2 + (image.skipped.flatMap JpegSegment.bytes).length

/-- The size that the walk finds when it goes on from where a fill byte or a marker that stands
    alone sends it. -/
def strayed (image : Jpeg) : Option (ℕ × ℕ) :=
  let length := uint16 image.bytes (image.astray + 2)
  if length < 2 then none else jpegSizeFrom image.bytes (image.astray + (2 + length))

/-- An image that is in step has its size read. -/
theorem WellFormed.size (h : image.WellFormed) (hstep : image.InStep) :
    jpegSize image.bytes = some (image.frame.width, image.frame.height) := by
  have hlength : 7 < (image.frame.bytes ++ image.rest).length := by
    rw [List.length_append]
    exact Nat.lt_add_right _ image.frame.lt_length_bytes
  have hskip := skip_segments (fun segment hmem => ⟨h.segments segment hmem, hstep.1 segment hmem⟩)
    [0xff, 0xd8] _ hlength
  have hread := h.frame.size hstep.2 ([0xff, 0xd8] ++ image.segments.flatMap JpegSegment.bytes)
    image.rest
  rw [List.append_assoc] at hread
  exact hskip.trans hread

/-- A fill byte, or a marker that stands alone, is taken for the marker of a segment. -/
theorem WellFormed.size_astray (h : image.WellFormed) (hstep : ¬image.InStep) :
    jpegSize image.bytes = image.strayed := by
  have hlength : 7 < (image.frame.bytes ++ image.rest).length := by
    rw [List.length_append]
    exact Nat.lt_add_right _ image.frame.lt_length_bytes
  -- What the walk comes to behind the segments that it skips.
  have hmarker : ∃ (marker : UInt8) (rest : List UInt8), image.bytes =
      [0xff, 0xd8] ++ (image.skipped.flatMap JpegSegment.bytes ++ 0xff :: marker :: rest) ∧
        marker.toNat ∉ frameMarkers ∧ 7 < rest.length := by
    have hsplit : image.skipped ++ image.segments.dropWhile (·.InStep) = image.segments :=
      List.takeWhile_append_dropWhile
    have hbytes : image.bytes = [0xff, 0xd8] ++ (image.skipped.flatMap JpegSegment.bytes ++
        ((image.segments.dropWhile (·.InStep)).flatMap JpegSegment.bytes ++
          (image.frame.bytes ++ image.rest))) := by
      conv_lhs => rw [bytes, ← hsplit, List.flatMap_append, List.append_assoc]
      rfl
    have hfill : (0xff : UInt8).toNat ∉ frameMarkers := by decide
    cases hdrop : image.segments.dropWhile (·.InStep) with
    | nil =>
      have hall := List.dropWhile_eq_nil_iff.1 hdrop
      have hframe : image.frame.fill ≠ 0 := fun hzero =>
        hstep ⟨fun segment hmem => of_decide_eq_true (hall segment hmem), hzero⟩
      obtain ⟨tail, htail, hbehind⟩ := image.frame.bytes_append image.rest
      rw [hbytes, hdrop, List.flatMap_nil, List.nil_append, hbehind,
        fill_eq (Nat.pos_of_ne_zero hframe)]
      refine ⟨_, _, rfl, hfill, ?_⟩
      rw [List.length_append]
      exact Nat.lt_add_left _ htail
    | cons segment segments =>
      have hmem : segment ∈ image.segments := by
        rw [← hsplit, hdrop]
        exact List.mem_append_right _ List.mem_cons_self
      have hnot : ¬segment.InStep := by
        have := List.head_dropWhile_not (fun segment : JpegSegment => decide segment.InStep)
          (l := image.segments) (by rw [hdrop]; simp)
        simpa [hdrop] using this
      have hbehind : ∀ after, segment.bytes ++ after = List.replicate segment.fill 0xff ++
          0xff :: (segment.marker :: (segment.content.elim [] fun content =>
            bigEndian (content.length + 2) ++ content) ++ after) := fun after => by
        rw [JpegSegment.bytes, List.append_assoc]
        rfl
      rw [hbytes, hdrop, List.flatMap_cons, List.append_assoc, hbehind]
      by_cases hzero : segment.fill = 0
      · have hnone : segment.content = none := by
          by_contra hne
          exact hnot ⟨hzero, Option.isSome_iff_ne_none.2 hne⟩
        rw [hzero, hnone]
        refine ⟨_, _, rfl, (h.segments segment hmem).marker.1, ?_⟩
        change 7 < (segments.flatMap JpegSegment.bytes ++ (image.frame.bytes ++ image.rest)).length
        rw [List.length_append]
        exact Nat.lt_add_left _ hlength
      · rw [fill_eq (Nat.pos_of_ne_zero hzero)]
        refine ⟨_, _, rfl, hfill, ?_⟩
        rw [List.length_append, List.length_append, List.length_append]
        exact Nat.lt_add_left _ (Nat.lt_add_left _ (Nat.lt_add_left _ hlength))
  obtain ⟨marker, rest, hbytes, hframe, hrest⟩ := hmarker
  have hskipped : ∀ segment ∈ image.skipped, segment.WellFormed ∧ segment.InStep :=
    fun segment hmem => by
      have hstep := List.mem_takeWhile_imp
        (p := fun segment : JpegSegment => decide segment.InStep) hmem
      exact ⟨h.segments segment (List.takeWhile_subset _ hmem), of_decide_eq_true hstep⟩
  have hskip := skip_segments hskipped [0xff, 0xd8] (0xff :: marker :: rest)
    (by simp only [List.length_cons]; omega)
  have hwalk := jpegSizeFrom_marker ([0xff, 0xd8] ++ image.skipped.flatMap JpegSegment.bytes) rest
    marker hrest
  have hread : uint16 image.bytes (image.astray + 2) = uint16 rest 0 := by
    have := uint16_append ([0xff, 0xd8] ++ image.skipped.flatMap JpegSegment.bytes)
      (0xff :: marker :: rest) 2
    rw [List.append_assoc, ← hbytes] at this
    rw [show image.astray = ([0xff, 0xd8] ++ image.skipped.flatMap JpegSegment.bytes).length by
      rw [astray, List.length_append]; rfl]
    exact this
  rw [if_neg hframe, List.append_assoc, ← hbytes] at hwalk
  rw [← hbytes] at hskip
  have hat : ([0xff, 0xd8] ++ image.skipped.flatMap JpegSegment.bytes).length = image.astray := by
    rw [astray, List.length_append]
    rfl
  rw [hat, ← hread] at hwalk
  rw [hat] at hskip
  exact hskip.trans hwalk

end Jpeg

/-! ## The size of a WebP image -/

namespace Webp

variable {image : Webp}

theorem chunk_eq (image : Webp) : (image.bytes.drop 12).take 4 = image.header.fourCC := by
  unfold bytes
  cases image.header <;> simp [WebpHeader.fourCC, digits]

/-- What is before the header is as long in all images. -/
theorem bytes_eq (image : Webp) : ∃ before : List UInt8, before.length = 20 ∧
    image.bytes = before ++ (image.header.bytes ++ image.rest) := by
  refine ⟨[0x52, 0x49, 0x46, 0x46] ++ (digits 4 image.fileSize ++ ([0x57, 0x45, 0x42, 0x50] ++
    (image.header.fourCC ++ digits 4 image.chunkSize))), ?_, ?_⟩
  · cases image.header <;> simp [WebpHeader.fourCC]
  · simp only [bytes, List.append_assoc]

/-- The numbers of an extended header. -/
theorem uint24_vp8x {flags width height : ℕ} (h : (WebpHeader.vp8x flags width height).WellFormed)
    (after : List UInt8) :
    uint24 ((WebpHeader.vp8x flags width height).bytes ++ after) 4 = width - 1 ∧
      uint24 ((WebpHeader.vp8x flags width height).bytes ++ after) 7 = height - 1 := by
  obtain ⟨-, ⟨hwidth, hwidth'⟩, hheight, hheight'⟩ := h
  have hbytes : (WebpHeader.vp8x flags width height).bytes ++ after =
      digits 4 flags ++ (digits 3 (width - 1) ++ (digits 3 (height - 1) ++ after)) := by
    simp only [WebpHeader.bytes, List.append_assoc]
  rw [hbytes]
  constructor
  · exact (uint24_append (digits 4 flags) _ 0).trans (uint24_digits (by omega) _)
  · rw [← List.append_assoc]
    exact (uint24_append (digits 4 flags ++ digits 3 (width - 1)) _ 0).trans
      (uint24_digits (by omega) _)

/-- The number of a lossless header. -/
theorem uint32LE_vp8l {width height alpha version : ℕ}
    (h : (WebpHeader.vp8l width height alpha version).WellFormed) (after : List UInt8) :
    uint32LE ((WebpHeader.vp8l width height alpha version).bytes ++ after) 1 =
      width - 1 + 2 ^ 14 * (height - 1 + 2 ^ 14 * (alpha + 2 * version)) := by
  obtain ⟨⟨-, hwidth⟩, ⟨-, hheight⟩, halpha, hversion⟩ := h
  refine (uint32LE_append [0x2f] _ 0).trans (uint32LE_digits ?_ after)
  omega

/-- A chunk in a form that is seen has its size read, and no other one has. -/
theorem size_eq (h : image.header.WellFormed) : webpSize image.bytes =
    if image.header.isSeen then some (image.header.width, image.header.height) else none := by
  have hchunk := image.chunk_eq
  obtain ⟨before, hbefore, hbytes⟩ := image.bytes_eq
  have hlength : image.bytes.length = 20 + (image.header.bytes.length + image.rest.length) := by
    rw [hbytes, List.length_append, List.length_append, hbefore]
  rw [webpSize, hchunk]
  cases hheader : image.header with
  | vp8 tag width height horizontalScale verticalScale => rfl
  | vp8l width height alpha version =>
    rw [hheader] at h hbytes hlength
    have hbits : uint32LE image.bytes 21 = width - 1 + 2 ^ 14 * (height - 1 + 2 ^ 14 *
        (alpha + 2 * version)) := by
      rw [hbytes, show 21 = before.length + 1 by rw [hbefore], uint32LE_append]
      exact uint32LE_vp8l h _
    obtain ⟨⟨hwidth, hwidth'⟩, ⟨hheight, hheight'⟩, -, -⟩ := h
    have hmask : (0x3fff : ℕ) = 2 ^ 14 - 1 := rfl
    rw [if_neg (by simp [WebpHeader.fourCC]),
      if_pos ⟨rfl, by rw [hlength]; simp [WebpHeader.bytes]; omega⟩]
    dsimp only
    rw [hbits, hmask, Nat.and_two_pow_sub_one_eq_mod, Nat.and_two_pow_sub_one_eq_mod,
      Nat.shiftRight_eq_div_pow, Nat.add_mul_mod_self_left, Nat.mod_eq_of_lt (by omega),
      Nat.add_mul_div_left _ _ (Nat.two_pow_pos 14), Nat.div_eq_of_lt (by omega), Nat.zero_add,
      Nat.add_mul_mod_self_left, Nat.mod_eq_of_lt (by omega), Nat.sub_add_cancel hwidth,
      Nat.sub_add_cancel hheight]
    rfl
  | vp8x flags width height =>
    rw [hheader] at h hbytes hlength
    obtain ⟨hfirst, hsecond⟩ := uint24_vp8x h image.rest
    obtain ⟨-, ⟨hwidth, -⟩, hheight, -⟩ := h
    have hread : ∀ i, uint24 image.bytes (20 + i) =
        uint24 ((WebpHeader.vp8x flags width height).bytes ++ image.rest) i := fun i => by
      rw [hbytes, ← hbefore, uint24_append]
    rw [if_pos ⟨rfl, by rw [hlength]; simp [WebpHeader.bytes]; omega⟩, hread 4, hread 7, hfirst,
      hsecond, Nat.add_sub_cancel' hwidth, Nat.add_sub_cancel' hheight]
    rfl

end Webp

/-! ## The limit -/

/-- An image with a header that has the size. -/
inductive SizedImage
  | jpeg (image : Jpeg)
  | webp (image : Webp)

namespace SizedImage

def format : SizedImage → PreviewFormat
  | jpeg _ => .jpeg
  | webp _ => .webp

def bytes : SizedImage → List UInt8
  | jpeg image => image.bytes
  | webp image => image.bytes

def width : SizedImage → ℕ
  | jpeg image => image.frame.width
  | webp image => image.header.width

def height : SizedImage → ℕ
  | jpeg image => image.frame.height
  | webp image => image.header.height

def WellFormed : SizedImage → Prop
  | jpeg image => image.WellFormed
  | webp image => image.header.WellFormed

/-- A JPEG image has no fill bytes and no marker that stands alone up to the header of the frame,
    and a WebP image is not of the simple lossy form. -/
def Seen : SizedImage → Prop
  | jpeg image => image.InStep
  | webp image => image.header.isSeen = true

/-- What is taken for the size of an image that is not seen. -/
def strayed : SizedImage → Option (ℕ × ℕ)
  | jpeg image => image.strayed
  | webp _ => none

/-- The size in the header is read, and the image is rejected if it has too many pixels. -/
def Limited (inspectSvg : List UInt8 → ℕ → PreviewResult ImageInfo) (image : SizedImage) : Prop :=
  ∀ maxPixels, inspectImage inspectSvg image.format image.bytes maxPixels =
    if maxPixels < image.width * image.height then
      .error (resourceLimit "image-pixels" (image.width * image.height) maxPixels)
    else .ok
      { width := some image.width, height := some image.height, frameCount := none,
        mediaType := mediaType image.format }

variable {inspectSvg : List UInt8 → ℕ → PreviewResult ImageInfo} {image : SizedImage}

/-- The size that is found. -/
def size? (image : SizedImage) : Option (ℕ × ℕ) := (imageSize image.format image.bytes).1

/-- No image has so many pixels that their number is not safe. -/
theorem WellFormed.pixels_le (h : image.WellFormed) :
    image.width * image.height ≤ JsValue.maxSafe := by
  have hle : image.width ≤ 2 ^ 24 ∧ image.height ≤ 2 ^ 24 := by
    cases image with
    | jpeg image =>
      have hwidth := h.frame.width
      have hheight := h.frame.height
      simp only [width, height]
      omega
    | webp image =>
      obtain ⟨fileSize, chunkSize, header, rest⟩ := image
      cases header with
      | vp8 tag w h' horizontalScale verticalScale =>
        obtain ⟨-, hwidth, hheight, -⟩ := h
        simp only [width, height, WebpHeader.width, WebpHeader.height]
        omega
      | vp8l w h' alpha version =>
        obtain ⟨⟨-, hwidth⟩, ⟨-, hheight⟩, -⟩ := h
        simp only [width, height, WebpHeader.width, WebpHeader.height]
        omega
      | vp8x flags w h' =>
        obtain ⟨-, ⟨-, hwidth⟩, -, hheight⟩ := h
        exact ⟨hwidth, hheight⟩
  calc image.width * image.height ≤ 2 ^ 24 * 2 ^ 24 := Nat.mul_le_mul hle.1 hle.2
    _ ≤ JsValue.maxSafe := by decide

/-- The limit works exactly if the right size is found. -/
theorem limited_iff_size (h : image.WellFormed) :
    image.Limited inspectSvg ↔ image.size? = some (image.width, image.height) := by
  have hsvg : image.format ≠ .svg := by cases image <;> simp [format]
  have hframes : imageSize image.format image.bytes = (image.size?, none) := by
    cases image <;> rfl
  have hunsized (hsize : image.size? = none) (maxPixels : ℕ) :
      inspectImage inspectSvg image.format image.bytes maxPixels =
        .ok ⟨none, none, none, mediaType image.format⟩ := by
    rw [inspectImage, if_neg hsvg, hframes, hsize]
  have hsized {width height : ℕ} (hsize : image.size? = some (width, height)) (maxPixels : ℕ) :
      inspectImage inspectSvg image.format image.bytes maxPixels =
        if JsValue.maxSafe < width * height ∨ maxPixels < width * height then
          .error (resourceLimit "image-pixels" (width * height) maxPixels)
        else .ok ⟨some width, some height, none, mediaType image.format⟩ := by
    rw [inspectImage, if_neg hsvg, hframes, hsize]
  constructor
  · intro hlimited
    cases hsize : image.size? with
    | none =>
      have hok := hlimited (image.width * image.height)
      rw [hunsized hsize, if_neg (lt_irrefl _)] at hok
      exact absurd (congrArg ImageInfo.width (Except.ok.inj hok)) (Option.some_ne_none _).symm
    | some size =>
      obtain ⟨width, height⟩ := size
      -- With a limit that neither size exceeds the image passes, with the size that is found.
      have hok := hlimited (image.width * image.height + width * height)
      rw [hsized hsize, if_neg (not_lt.2 (Nat.le_add_right _ _))] at hok
      split at hok
      · cases hok
      · have hinfo := Except.ok.inj hok
        rw [Option.some.inj (congrArg ImageInfo.width hinfo),
          Option.some.inj (congrArg ImageInfo.height hinfo)]
  · intro hsize maxPixels
    rw [hsized hsize]
    exact if_congr (or_iff_right (not_lt.2 h.pixels_le)) rfl rfl

/-- An image that is seen has its size found; another one has whatever the walk strays to. -/
theorem size?_eq (h : image.WellFormed) : (image.Seen →
    image.size? = some (image.width, image.height)) ∧
      (¬image.Seen → image.size? = image.strayed) := by
  cases image with
  | jpeg image => exact ⟨fun hseen => h.size hseen, fun hseen => h.size_astray hseen⟩
  | webp image =>
    have hsize : size? (.webp image) = _ := image.size_eq h
    constructor
    · exact fun hseen => hsize.trans (if_pos hseen)
    · exact fun hseen => hsize.trans (if_neg hseen)

end SizedImage

/-- An image that is seen is rejected exactly if it has too many pixels; another one is only if what
    its header is taken for gives the same size. -/
theorem inspectImage_of_seen (inspectSvg : List UInt8 → ℕ → PreviewResult ImageInfo)
    (image : SizedImage) (h : image.WellFormed) :
    (image.Seen → image.Limited inspectSvg) ∧ (¬image.Seen →
      (image.Limited inspectSvg ↔ image.strayed = some (image.width, image.height))) := by
  obtain ⟨hseen, hstrayed⟩ := SizedImage.size?_eq h
  refine ⟨fun h' => (SizedImage.limited_iff_size h).2 (hseen h'), fun h' => ?_⟩
  rw [SizedImage.limited_iff_size h, hstrayed h']

/-- An image of one by one pixel in two segments; the header of the frame may be behind fill
    bytes. -/
def tinyJpeg (fill : ℕ) : SizedImage := .jpeg
  { segments := [⟨0, 0xe0, some [0x4a, 0x46]⟩, ⟨0, 0xdb, some []⟩]
    frame := ⟨fill, 0xc0, 8, 1, 1, [(1, 0x11, 0)]⟩
    rest := [] }

theorem tinyJpeg_wellFormed (fill : ℕ) : (tinyJpeg fill).WellFormed := by
  refine ⟨fun segment hmem => ?_, show (0xc0 : UInt8).toNat ∈ frameMarkers by decide,
    Nat.one_lt_two_pow (by decide), Nat.one_lt_two_pow (by decide), List.cons_ne_nil _ _,
    show 1 < 256 by decide⟩
  simp only [List.mem_cons, List.not_mem_nil, or_false] at hmem
  obtain rfl | rfl := hmem
  · exact ⟨by decide, by decide, by simp⟩
  · exact ⟨by decide, by decide, by simp⟩

theorem inspectImage_of_seen_tiny : (tinyJpeg 0).Limited (fun _ _ => .error (parseFailed "")) :=
  (inspectImage_of_seen _ (tinyJpeg 0) (tinyJpeg_wellFormed 0)).1
    ⟨by simp [JpegSegment.InStep], rfl⟩

/-- A simple lossy image of one by one pixel. -/
def tinyWebp : SizedImage := .webp ⟨22, 10, .vp8 [0x30, 0x01, 0x00] 1 1 0 0, []⟩

/-- The size behind a fill byte is not read, nor that of a simple lossy image. -/
theorem not_limited :
    ((tinyJpeg 1).WellFormed ∧ ¬(tinyJpeg 1).Limited fun _ _ => .error (parseFailed "")) ∧
      tinyWebp.WellFormed ∧ ¬tinyWebp.Limited fun _ _ => .error (parseFailed "") := by
  have hwebp : tinyWebp.WellFormed := ⟨rfl, by decide, by decide, by decide, by decide⟩
  refine ⟨⟨tinyJpeg_wellFormed 1, fun hlimited => ?_⟩, hwebp, fun hlimited => ?_⟩
  · have hsize := (SizedImage.limited_iff_size (tinyJpeg_wellFormed 1)).1 hlimited
    have hstrayed := (SizedImage.size?_eq (tinyJpeg_wellFormed 1)).2 fun hseen =>
      absurd hseen.2 (by decide)
    -- The marker of the frame is taken for a length, which leads behind the end.
    have hbehind : (tinyJpeg 1).strayed = none := by
      have hlength : ¬49166 + 9 < (tinyJpeg 1).bytes.length := by decide
      have hfrom : jpegSizeFrom (tinyJpeg 1).bytes 49166 = none := by
        rw [jpegSizeFrom, if_neg hlength]
      exact hfrom
    rw [hbehind] at hstrayed
    exact nomatch hstrayed.symm.trans hsize
  · have hsize := (SizedImage.limited_iff_size hwebp).1 hlimited
    have hstrayed := (SizedImage.size?_eq hwebp).2 (by simp [SizedImage.Seen, tinyWebp,
      WebpHeader.isSeen])
    exact nomatch hstrayed.symm.trans hsize

end Tabulark.Preview
