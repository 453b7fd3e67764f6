import Tabulark.Lib.Chunks
import Tabulark.Lib.LittleEndian

/-!
# Zstandard frames

The header of a frame says how its contents are sized, and is read without the frame
(`parseFrameHeader`). `HeaderFields` is a header as the format has it, written by `encode`:
whatever follows, it is read back (`parseFrameHeader_encode`), and no strict part of it is read
(`parseFrameHeader_strict`). The writer cuts its input into raw blocks (`encodeRawFrame`).
-/

namespace Tabulark.Zstd

open Chunks LittleEndian

/-! ## Reading headers -/

def zstdMagic : List UInt8 := [0x28, 0xb5, 0x2f, 0xfd]

/-- The most bytes of a block. -/
def maxBlockSize : ℕ := 128 * 1024

/-- The largest window of a decoder, and the most bytes that are encoded. -/
def maxWindowSize : ℕ := 100 * 1024 * 1024

/-- What is read of a header. -/
structure FrameHeader where
  contentSize : Option ℕ
  windowSize : ℕ
  deriving DecidableEq, Repr

/-- The bytes of a dictionary identifier. -/
def dictionaryIdSize (flag : ℕ) : ℕ :=
  match flag with
  | 0 => 0
  | 1 => 1
  | 2 => 2
  | _ => 4

/-- The bytes of a content size. -/
def contentSizeSize (flag : ℕ) (singleSegment : Bool) : ℕ :=
  match flag with
  | 0 => if singleSegment then 1 else 0
  | 1 => 2
  | 2 => 4
  | _ => 8

/-- The window of a frame, and where the fields after it begin. -/
def parseWindow (source : List UInt8) (singleSegment : Bool) : Except String (ℕ × ℕ) :=
  if singleSegment then .ok (0, 5)
  else
    match source[5]? with
    | none => .error "truncated zstd window descriptor"
    | some descriptor =>
      let exponent := (descriptor >>> 3).toNat
      let mantissa := (descriptor &&& 0x07).toNat
      let base := 1 <<< (10 + exponent)
      .ok (base + base / 8 * mantissa, 6)

/-- The fields of a header with a descriptor. -/
def parseFields (source : List UInt8) (descriptor : UInt8) : Except String FrameHeader :=
  if descriptor &&& 0x18 ≠ 0 then .error "zstd frame descriptor has a reserved bit set"
  else do
    let singleSegment : Bool := descriptor &&& 0x20 ≠ 0
    let contentSizeSize := contentSizeSize (descriptor >>> 6).toNat singleSegment
    let (windowSize, cursor) ← parseWindow source singleSegment
    let cursor := cursor + dictionaryIdSize (descriptor &&& 0x03).toNat
    if source.length < cursor + contentSizeSize then
      .error "truncated zstd frame content size"
    else
      let size := number ((source.drop cursor).take contentSizeSize)
      let contentSize :=
        if contentSizeSize = 0 then none
        else some (size + if contentSizeSize = 2 then 256 else 0)
      .ok {
        contentSize
        windowSize := if singleSegment then contentSize.getD 0 else windowSize }

def parseFrameHeader (source : List UInt8) : Except String FrameHeader :=
  if source.take 4 ≠ zstdMagic then .error "invalid or truncated zstd frame magic"
  else
    match source[4]? with
    | none => .error "truncated zstd frame descriptor"
    | some descriptor => parseFields source descriptor

/-- The decompressed size that the header records, if it does. -/
def getFrameContentSize (source : List UInt8) : Except String (Option ℕ) :=
  match parseFrameHeader source with
  | .ok header => .ok header.contentSize
  | .error _ => .error "Could not get content size"

/-! ## Writing frames -/

/-- How a content size is written: the flag, the number of bytes, and the stored number. -/
def encodedContentSize (contentSize : ℕ) : ℕ × ℕ × ℕ :=
  if contentSize ≤ 255 then (0, 1, contentSize)
  else if contentSize ≤ 65791 then (1, 2, contentSize - 256)
  else if contentSize ≤ 2 ^ 32 - 1 then (2, 4, contentSize)
  else (3, 8, contentSize)

/-- A block with its header. -/
def encodeRawBlock (blockCount : ℕ) (block : List UInt8 × ℕ) : List UInt8 :=
  let lastBlock := if block.2 + 1 = blockCount then 1 else 0
  (digits 4 ((block.1.length <<< 3) ||| lastBlock)).take 3 ++ block.1

/-- Writes bytes as a frame of raw blocks. -/
def encodeRawFrame (source : List UInt8) : Except String (List UInt8) :=
  if maxWindowSize < source.length then
    .error s!"zstd input exceeds compatibility limit {maxWindowSize}"
  else
    let (sizeFlag, sizeBytes, storedSize) := encodedContentSize source.length
    let blockCount := if source.isEmpty then 1 else (source.length - 1) / maxBlockSize + 1
    let blocks :=
      if source.isEmpty then (digits 4 1).take 3
      else (chunks maxBlockSize source).zipIdx.flatMap (encodeRawBlock blockCount)
    .ok (zstdMagic ++ [(UInt8.ofNat sizeFlag <<< 6) ||| 0x20] ++
      (digits 8 storedSize).take sizeBytes ++ blocks)

/-! ## The format -/

/-- The fields of a header. The window is only written of a frame of several segments. -/
structure HeaderFields where
  contentSizeFlag : Fin 4
  singleSegment : Bool
  contentChecksum : Bool
  dictionaryIdFlag : Fin 4
  exponent : Fin 32
  mantissa : Fin 8
  dictionaryId : List UInt8
  contentSize : Option ℕ

namespace HeaderFields

variable (h : HeaderFields)

def dictionaryIdWidth : ℕ := [0, 1, 2, 4].getD h.dictionaryIdFlag 0

def contentSizeWidth : ℕ :=
  if h.contentSizeFlag = 0 then (if h.singleSegment then 1 else 0)
  else 2 ^ (h.contentSizeFlag : ℕ)

/-- What is taken off a content size that is written in two bytes. -/
def bias : ℕ := if h.contentSizeWidth = 2 then 256 else 0

/-- The fields have their widths, and the content size is one that is written so. -/
structure Valid : Prop where
  length_dictionaryId : h.dictionaryId.length = h.dictionaryIdWidth
  contentSize_eq_none : h.contentSizeWidth = 0 → h.contentSize = none
  contentSize_eq_some : h.contentSizeWidth ≠ 0 →
    ∃ n, h.contentSize = some n ∧ h.bias ≤ n ∧ n - h.bias < 256 ^ h.contentSizeWidth

def windowSize : ℕ :=
  if h.singleSegment then h.contentSize.getD 0
  else 2 ^ (10 + (h.exponent : ℕ)) + 2 ^ (10 + (h.exponent : ℕ)) / 8 * h.mantissa

def descriptor : UInt8 :=
  UInt8.ofNat (64 * h.contentSizeFlag + 32 * h.singleSegment.toNat + 4 * h.contentChecksum.toNat +
    h.dictionaryIdFlag)

def windowDescriptor : UInt8 := UInt8.ofNat (8 * h.exponent + h.mantissa)

/-- The fields after the window. -/
def lastFields : List UInt8 :=
  h.dictionaryId ++ digits h.contentSizeWidth (h.contentSize.getD 0 - h.bias)

/-- The fields after the descriptor. -/
def fields : List UInt8 :=
  if h.singleSegment then h.lastFields else h.windowDescriptor :: h.lastFields

def encode : List UInt8 := zstdMagic ++ h.descriptor :: h.fields

/-! ### What is read of the fields -/

variable {h}

/-- The bits of a descriptor. -/
theorem descriptor_bits : ∀ (sizeFlag idFlag : Fin 4) (single checksum : Bool),
    let d := UInt8.ofNat (64 * sizeFlag + 32 * single.toNat + 4 * checksum.toNat + idFlag)
    d &&& 0x18 = 0 ∧ decide (d &&& 0x20 ≠ 0) = single ∧ (d &&& 0x03).toNat = idFlag ∧
      (d >>> 6).toNat = sizeFlag := by
  decide

set_option maxRecDepth 2000 in
/-- The bits of a window descriptor. -/
theorem windowDescriptor_bits : ∀ (exponent : Fin 32) (mantissa : Fin 8),
    let d := UInt8.ofNat (8 * exponent + mantissa)
    (d >>> 3).toNat = exponent ∧ (d &&& 0x07).toNat = mantissa := by
  decide

/-- The widths of the code are those of the format. -/
theorem sizes_eq : ∀ (sizeFlag idFlag : Fin 4) (single : Bool),
    dictionaryIdSize idFlag = [0, 1, 2, 4].getD idFlag 0 ∧
      contentSizeSize sizeFlag single =
        if sizeFlag = 0 then (if single then 1 else 0) else 2 ^ (sizeFlag : ℕ) := by
  decide

theorem length_lastFields (hvalid : h.Valid) :
    h.lastFields.length = h.dictionaryIdWidth + h.contentSizeWidth := by
  rw [lastFields, List.length_append, hvalid.length_dictionaryId, length_digits]

/-- What is read of the fields after the window. -/
def readLastFields (h : HeaderFields) (window : ℕ) (bytes : List UInt8) :
    Except String FrameHeader :=
  if bytes.length < h.dictionaryIdWidth + h.contentSizeWidth then
    .error "truncated zstd frame content size"
  else
    let contentSize :=
      if h.contentSizeWidth = 0 then none
      else some (number ((bytes.drop h.dictionaryIdWidth).take h.contentSizeWidth) + h.bias)
    .ok { contentSize, windowSize := if h.singleSegment then contentSize.getD 0 else window }

/-- What is read of the fields after the descriptor. -/
def readFields (h : HeaderFields) (bytes : List UInt8) : Except String FrameHeader :=
  if h.singleSegment then h.readLastFields 0 bytes
  else
    match bytes with
    | [] => .error "truncated zstd window descriptor"
    | window :: bytes =>
      let base := 1 <<< (10 + (window >>> 3).toNat)
      h.readLastFields (base + base / 8 * (window &&& 0x07).toNat) bytes

/-- What the descriptor of some fields says of them. -/
theorem descriptor_spec (h : HeaderFields) :
    h.descriptor &&& 0x18 = 0 ∧ decide (h.descriptor &&& 0x20 ≠ 0) = h.singleSegment ∧
      dictionaryIdSize (h.descriptor &&& 0x03).toNat = h.dictionaryIdWidth ∧
      contentSizeSize (h.descriptor >>> 6).toNat h.singleSegment = h.contentSizeWidth := by
  obtain ⟨hreserved, hsingle, hid, hsize⟩ := descriptor_bits h.contentSizeFlag h.dictionaryIdFlag
    h.singleSegment h.contentChecksum
  obtain ⟨hidWidth, hsizeWidth⟩ := sizes_eq h.contentSizeFlag h.dictionaryIdFlag h.singleSegment
  exact ⟨hreserved, hsingle, (congrArg dictionaryIdSize hid).trans hidWidth,
    (congrArg (contentSizeSize · _) hsize).trans hsizeWidth⟩

/-- After the descriptor of some fields, it is fields of their widths that are read. -/
theorem parseFrameHeader_eq (h : HeaderFields) (bytes : List UInt8) :
    parseFrameHeader (zstdMagic ++ h.descriptor :: bytes) = h.readFields bytes := by
  obtain ⟨hreserved, hsingle, hid, hsize⟩ := h.descriptor_spec
  have hdrop (k : ℕ) : (zstdMagic ++ h.descriptor :: bytes).drop (5 + k) = bytes.drop k := by
    rw [Nat.add_comm]
    rfl
  have hlength : (zstdMagic ++ h.descriptor :: bytes).length = 5 + bytes.length := by
    rw [Nat.add_comm]
    rfl
  change parseFields (zstdMagic ++ h.descriptor :: bytes) h.descriptor = _
  rw [parseFields, if_neg (not_not.2 hreserved)]
  simp only [hsingle, hid, hsize, hlength]
  unfold readFields readLastFields parseWindow
  by_cases hs : h.singleSegment = true
  · rw [if_pos hs, if_pos hs]
    have hlt : 5 + bytes.length < 5 + h.dictionaryIdWidth + h.contentSizeWidth ↔
        bytes.length < h.dictionaryIdWidth + h.contentSizeWidth := by omega
    change (if _ then _ else _) = _
    simp only [hlt, hdrop]
    rfl
  · rw [if_neg hs, if_neg hs]
    cases bytes with
    | nil => rfl
    | cons window bytes =>
      have hlt : 5 + (bytes.length + 1) < 6 + h.dictionaryIdWidth + h.contentSizeWidth ↔
          bytes.length < h.dictionaryIdWidth + h.contentSizeWidth := by omega
      have hdrop' (k : ℕ) :
          (zstdMagic ++ h.descriptor :: window :: bytes).drop (6 + k) = bytes.drop k := by
        rw [Nat.add_comm]
        rfl
      change (if _ then _ else _) = _
      simp only [hlt, hdrop', List.length_cons]
      rfl

/-- The number of bytes in front of the last fields does not matter to what is read of them. -/
theorem readLastFields_append (hvalid : h.Valid) (window : ℕ) (rest : List UInt8) :
    h.readLastFields window (h.lastFields ++ rest) = .ok {
      contentSize := h.contentSize
      windowSize := if h.singleSegment then h.contentSize.getD 0 else window } := by
  have hsize : ((h.lastFields ++ rest).drop h.dictionaryIdWidth).take h.contentSizeWidth =
      digits h.contentSizeWidth (h.contentSize.getD 0 - h.bias) := by
    rw [lastFields, List.append_assoc, ← hvalid.length_dictionaryId, List.drop_left,
      List.take_left' (length_digits _ _)]
  have hcontent : (if h.contentSizeWidth = 0 then none else
      some (number (((h.lastFields ++ rest).drop h.dictionaryIdWidth).take h.contentSizeWidth) +
        h.bias)) = h.contentSize := by
    split
    · rename_i hzero
      exact (hvalid.contentSize_eq_none hzero).symm
    · rename_i hzero
      obtain ⟨n, hn, hle, hlt⟩ := hvalid.contentSize_eq_some hzero
      rw [hsize, hn, Option.getD_some, number_digits hlt, Nat.sub_add_cancel hle]
  rw [readLastFields, if_neg]
  · dsimp only
    rw [hcontent]
  · rw [List.length_append, length_lastFields hvalid]
    omega

theorem windowDescriptor_spec (h : HeaderFields) :
    1 <<< (10 + (h.windowDescriptor >>> 3).toNat) +
        1 <<< (10 + (h.windowDescriptor >>> 3).toNat) / 8 * (h.windowDescriptor &&& 0x07).toNat =
      2 ^ (10 + (h.exponent : ℕ)) + 2 ^ (10 + (h.exponent : ℕ)) / 8 * h.mantissa := by
  obtain ⟨hexponent, hmantissa⟩ := windowDescriptor_bits h.exponent h.mantissa
  have hexponent' : (h.windowDescriptor >>> 3).toNat = h.exponent := hexponent
  have hmantissa' : (h.windowDescriptor &&& 0x07).toNat = h.mantissa := hmantissa
  rw [hexponent', hmantissa', Nat.one_shiftLeft]

/-- A header is read back, whatever follows it. -/
theorem parseFrameHeader_encode (hvalid : h.Valid) (rest : List UInt8) :
    parseFrameHeader (h.encode ++ rest) =
      .ok { contentSize := h.contentSize, windowSize := h.windowSize } := by
  rw [encode, List.append_assoc, List.cons_append, parseFrameHeader_eq]
  unfold readFields fields windowSize
  by_cases hs : h.singleSegment = true
  · rw [if_pos hs, if_pos hs, readLastFields_append hvalid, if_pos hs, if_pos hs]
  · rw [if_neg hs, if_neg hs]
    change h.readLastFields _ (h.lastFields ++ rest) = _
    rw [readLastFields_append hvalid, if_neg hs, if_neg hs, windowDescriptor_spec]

/-- No strict part of a header is read. -/
theorem parseFrameHeader_strict (hvalid : h.Valid) {n : ℕ} (hn : n < h.encode.length) :
    ∃ error, parseFrameHeader (h.encode.take n) = .error error := by
  have hlast (window m : ℕ) (hm : m < h.lastFields.length) :
      ∃ error, h.readLastFields window (h.lastFields.take m) = .error error := by
    rw [length_lastFields hvalid] at hm
    rw [readLastFields, if_pos]
    · exact ⟨_, rfl⟩
    · exact (List.length_take_le _ _).trans_lt hm
  have hlength : h.encode.length = 5 + h.fields.length := by
    rw [Nat.add_comm]
    rfl
  match n with
  | 0 | 1 | 2 | 3 => exact ⟨_, rfl⟩
  | 4 => exact ⟨_, rfl⟩
  | m + 5 =>
    -- The descriptor is there, so that it is the fields after it that are cut.
    have htake : h.encode.take (m + 5) = zstdMagic ++ h.descriptor :: h.fields.take m := rfl
    rw [htake, parseFrameHeader_eq]
    have hm : m < h.fields.length := by omega
    unfold readFields
    unfold fields at hm ⊢
    by_cases hs : h.singleSegment = true
    · rw [if_pos hs] at hm ⊢
      rw [if_pos hs]
      exact hlast 0 m hm
    · rw [if_neg hs] at hm ⊢
      rw [if_neg hs]
      cases m with
      | zero => exact ⟨_, rfl⟩
      | succ m => exact hlast _ m (Nat.lt_of_succ_lt_succ hm)

end HeaderFields

/-! ## Frames of raw blocks -/

/-- A block whose contents are written as they are. -/
structure RawBlock where
  content : List UInt8
  last : Bool

namespace RawBlock

/-- The header of a block: whether it is the last, its type, which is zero, and its size. -/
def encode (b : RawBlock) : List UInt8 :=
  digits 3 (b.last.toNat + 8 * b.content.length) ++ b.content

/-- The last block of some is marked as such, and no other. -/
def LastMarked : List RawBlock → Prop
  | [] => False
  | [b] => b.last
  | b :: blocks => b.last = false ∧ LastMarked blocks

end RawBlock

/-- A frame of raw blocks: one segment of some contents, without a dictionary or a checksum. -/
structure RawFrame (frame content : List UInt8) (header : HeaderFields) (blocks : List RawBlock) :
    Prop where
  frame_eq : frame = header.encode ++ blocks.flatMap RawBlock.encode
  valid : header.Valid
  singleSegment : header.singleSegment = true
  noChecksum : header.contentChecksum = false
  noDictionary : header.dictionaryIdFlag = 0
  contentSize_eq : header.contentSize = some content.length
  content_eq : blocks.flatMap RawBlock.content = content
  length_le : ∀ b ∈ blocks, b.content.length ≤ maxBlockSize
  lastMarked : RawBlock.LastMarked blocks

/-- The blocks of some contents, the last of them marked. -/
def markLast : List (List UInt8) → List RawBlock
  | [] => []
  | [content] => [⟨content, true⟩]
  | content :: contents => ⟨content, false⟩ :: markLast contents

theorem lastMarked_markLast {contents : List (List UInt8)} (hne : contents ≠ []) :
    RawBlock.LastMarked (markLast contents) := by
  induction contents with
  | nil => exact absurd rfl hne
  | cons content contents ih =>
    cases contents with
    | nil => exact rfl
    | cons content' contents =>
      have hrest := ih (by simp)
      cases hmark : markLast (content' :: contents) with
      | nil =>
        rw [hmark] at hrest
        exact hrest.elim
      | cons b blocks =>
        rw [markLast, hmark]
        · rw [hmark] at hrest
          exact ⟨rfl, hrest⟩
        · simp

theorem map_content_markLast (contents : List (List UInt8)) :
    (markLast contents).map RawBlock.content = contents := by
  induction contents using markLast.induct with
  | case1 => rfl
  | case2 content => rfl
  | case3 content contents hne ih =>
    rw [markLast, List.map_cons, ih]
    exact hne

/-- The header of a block, as the writer puts it together. -/
theorem encodeRawBlock_eq (content : List UInt8) (blockCount index : ℕ) :
    encodeRawBlock blockCount (content, index) =
      RawBlock.encode ⟨content, decide (index + 1 = blockCount)⟩ := by
  have hlast : (if index + 1 = blockCount then 1 else 0) =
      (decide (index + 1 = blockCount)).toNat := by
    split <;> simp [*]
  rw [encodeRawBlock, RawBlock.encode]
  dsimp only
  rw [hlast, take_digits (by decide),
    ← Nat.shiftLeft_add_eq_or_of_lt ((Bool.toNat_lt _).trans (by decide)), Nat.shiftLeft_eq,
    Nat.add_comm, Nat.mul_comm]

/-- The blocks of a frame are written with the last of them marked. -/
theorem flatMap_encodeRawBlock (contents : List (List UInt8)) (index : ℕ) :
    (contents.zipIdx index).flatMap (encodeRawBlock (index + contents.length)) =
      (markLast contents).flatMap RawBlock.encode := by
  induction contents using markLast.induct generalizing index with
  | case1 => rfl
  | case2 content =>
    rw [List.zipIdx_cons, List.zipIdx_nil, List.flatMap_singleton, encodeRawBlock_eq]
    simp [markLast]
  | case3 content contents hne ih =>
    have hlength : index + (content :: contents).length = index + 1 + contents.length := by
      rw [List.length_cons]
      omega
    have hpos : 0 < contents.length := List.length_pos_of_ne_nil (by simpa using hne)
    rw [List.zipIdx_cons, List.flatMap_cons, hlength, ih, encodeRawBlock_eq, markLast,
      List.flatMap_cons, decide_eq_false (by omega)]
    exact hne

/-- The header of one segment, without a dictionary or a checksum. -/
def rawHeader (flag : Fin 4) (contentSize : ℕ) : HeaderFields where
  contentSizeFlag := flag
  singleSegment := true
  contentChecksum := false
  dictionaryIdFlag := 0
  exponent := 0
  mantissa := 0
  dictionaryId := []
  contentSize := some contentSize

theorem descriptor_rawHeader : ∀ flag : Fin 4,
    UInt8.ofNat (64 * flag + 32 * true.toNat + 4 * false.toNat + 0) =
      (UInt8.ofNat flag <<< 6) ||| 0x20 := by
  decide

/-- The header of a content size that fits in the bytes of its flag. -/
theorem rawHeader_spec (flag : Fin 4) (n width stored : ℕ)
    (hwidth : (rawHeader flag n).contentSizeWidth = width) (hle : width ≤ 8) (hne : width ≠ 0)
    (hbias : (rawHeader flag n).bias ≤ n) (hstored : n - (rawHeader flag n).bias = stored)
    (hlt : stored < 256 ^ width) :
    (rawHeader flag n).Valid ∧ (rawHeader flag n).encode = zstdMagic ++
      [(UInt8.ofNat (flag : ℕ) <<< 6) ||| 0x20] ++ (digits 8 stored).take width := by
  refine ⟨⟨rfl, fun hzero => absurd (hwidth.symm.trans hzero) hne, fun _ => ⟨n, rfl, hbias, ?_⟩⟩,
    ?_⟩
  · rw [hstored, hwidth]
    exact hlt
  · have hfields : (rawHeader flag n).fields = digits width stored := by
      rw [← hstored, ← hwidth]
      rfl
    rw [HeaderFields.encode, hfields, take_digits hle, ← descriptor_rawHeader flag,
      List.append_assoc]
    rfl

/-- The header that the writer chooses is one of the format. -/
theorem exists_rawHeader {n : ℕ} (hle : n ≤ maxWindowSize) : ∃ flag : Fin 4,
    (rawHeader flag n).Valid ∧ (rawHeader flag n).encode = zstdMagic ++
      [(UInt8.ofNat (encodedContentSize n).1 <<< 6) ||| 0x20] ++
      (digits 8 (encodedContentSize n).2.2).take (encodedContentSize n).2.1 := by
  have hmax : n ≤ 2 ^ 32 - 1 := hle.trans (by decide)
  by_cases hone : n ≤ 255
  · rw [encodedContentSize, if_pos hone]
    refine ⟨0, rawHeader_spec 0 n 1 n rfl (by decide) (by decide) (Nat.zero_le n) rfl ?_⟩
    exact Nat.lt_succ_of_le hone
  rw [encodedContentSize, if_neg hone]
  by_cases htwo : n ≤ 65791
  · rw [if_pos htwo]
    have hbias : (rawHeader 1 n).bias = 256 := rfl
    refine ⟨1, rawHeader_spec 1 n 2 (n - 256) rfl (by decide) (by decide) ?_ rfl ?_⟩
    · rw [hbias]
      omega
    · omega
  · rw [if_neg htwo, if_pos hmax]
    refine ⟨2, rawHeader_spec 2 n 4 n rfl (by decide) (by decide) (Nat.zero_le n) rfl ?_⟩
    change n - 0 < 256 ^ 4
    omega

/-- What the writer writes is a frame of raw blocks. -/
theorem encodeRawFrame_eq {source : List UInt8} (hle : source.length ≤ maxWindowSize) :
    ∃ frame header blocks, encodeRawFrame source = .ok frame ∧
      RawFrame frame source header blocks := by
  obtain ⟨flag, hvalid, hencode⟩ := exists_rawHeader hle
  have hpos : 0 < maxBlockSize := by decide
  by_cases hempty : source = []
  · subst hempty
    refine ⟨_, rawHeader flag 0, [⟨[], true⟩], if_neg (Nat.not_lt_zero _), ?_, hvalid, rfl, rfl,
      rfl, rfl, rfl, ?_, rfl⟩
    · rw [show (rawHeader flag 0).encode = _ from hencode]
      rfl
    · simp
  · have hchunks : chunks maxBlockSize source ≠ [] := by
      rw [chunks_eq_cons hpos hempty]
      simp
    have hisEmpty : source.isEmpty = false := by simpa using hempty
    refine ⟨_, rawHeader flag source.length, markLast (chunks maxBlockSize source),
      if_neg (Nat.not_lt.2 hle), ?_, hvalid, rfl, rfl, rfl, rfl, ?_, ?_,
      lastMarked_markLast hchunks⟩
    · dsimp only
      rw [hencode, hisEmpty, ← flatMap_encodeRawBlock _ 0, length_chunks hpos hempty, Nat.zero_add]
      rfl
    · rw [List.flatMap_def, map_content_markLast, flatten_chunks hpos]
    · intro b hb
      have hcontent := List.mem_map_of_mem (f := RawBlock.content) hb
      rw [map_content_markLast] at hcontent
      exact length_le_of_mem hcontent

/-- The content size of a frame is read whatever its blocks are. -/
theorem getFrameContentSize_eq {frame content : List UInt8} {header : HeaderFields}
    {blocks : List RawBlock} (h : RawFrame frame content header blocks) :
    getFrameContentSize frame = .ok (some content.length) := by
  rw [getFrameContentSize, h.frame_eq, HeaderFields.parseFrameHeader_encode h.valid]
  exact congrArg _ h.contentSize_eq

end Tabulark.Zstd
