import Tabulark.Zstd.Frame

/-!
# Bulk decompression

A frame is decoded by a decoder that is not part of the repository (`FrameDecoder`), under bounds
on the window and the output that are checked here (`decompress`). A decoder of raw blocks
(`DecodesRaw`) gives back what `encodeRawFrame` was given, if the capacity allows it
(`decompress_rawFrame`).
-/

namespace Tabulark.Zstd

open LittleEndian

/-! ## Decoding -/

/-- A decoder of frames. `collectToWriter` gives the buffers that it writes. -/
structure FrameDecoder (σ : Type) where
  init : List UInt8 → Except String (σ × List UInt8)
  isFinished : σ → Bool
  decodeBlocks : ℕ → σ → List UInt8 → Except String (σ × List UInt8)
  collectToWriter : σ → List (List UInt8) × σ
  checksumFromData : σ → Option UInt32
  calculatedChecksum : σ → Option UInt32

variable {σ : Type}

def decodeChunkSize : ℕ := 1024 * 1024

def resourceLimit (resource : String) (required available : ℕ) : String :=
  s!"zstd resource limit: {resource} required {required} available {available}"

/-- Writes a buffer to an output of bounded length. -/
def writeBounded (capacity : ℕ) (output buffer : List UInt8) : Except String (List UInt8) :=
  let required := output.length + buffer.length
  if capacity < required then .error (resourceLimit "output" required capacity)
  else .ok (output ++ buffer)

def collectBounded (d : FrameDecoder σ) (capacity : ℕ) (state : σ) (output : List UInt8) :
    Except String (σ × List UInt8) :=
  let (buffers, state) := d.collectToWriter state
  (buffers.foldlM (writeBounded capacity) output).map (state, ·)

/-- Decodes until the decoder is finished. Out of fuel, there is no result. -/
def decodeAll (d : FrameDecoder σ) (capacity : ℕ) :
    ℕ → σ → List UInt8 → List UInt8 → Option (Except String (σ × List UInt8 × List UInt8))
  | fuel, state, remaining, output =>
    if d.isFinished state then some (.ok (state, remaining, output))
    else
      match fuel with
      | 0 => none
      | fuel + 1 =>
        match d.decodeBlocks decodeChunkSize state remaining with
        | .error error => some (.error error)
        | .ok (state, remaining) =>
          match collectBounded d capacity state output with
          | .error error => some (.error error)
          | .ok (state, output) => decodeAll d capacity fuel state remaining output

/-- The output has the length that the header declares, if it does. -/
def checkSize (contentSize : Option ℕ) (length : ℕ) : Except String Unit :=
  match contentSize with
  | none => .ok ()
  | some expected =>
    if length = expected then .ok ()
    else .error s!"zstd frame declared {expected} output bytes but decoded {length}"

/-- The checksum is that of the output, if there is one. -/
def checkChecksum (d : FrameDecoder σ) (state : σ) : Except String Unit :=
  match d.checksumFromData state with
  | none => .ok ()
  | some expected =>
    match d.calculatedChecksum state with
    | none => .error "zstd checksum was present but could not be calculated"
    | some actual => if actual = expected then .ok () else .error "zstd content checksum mismatch"

/-- What is done once the decoder is finished. -/
def finishFrame (d : FrameDecoder σ) (capacity : ℕ) (header : FrameHeader) (state : σ)
    (remaining output : List UInt8) : Except String (List UInt8) := do
  let (state, output) ← collectBounded d capacity state output
  if remaining ≠ [] then
    .error "trailing data or multiple zstd frames are not supported by bulk decompression"
  else
    checkSize header.contentSize output.length
    checkChecksum d state
    return output

/-- What is checked of a header before anything is decoded. -/
def checkHeader (header : FrameHeader) (capacity : ℕ) : Except String Unit :=
  if maxWindowSize < header.windowSize then
    .error (resourceLimit "window" header.windowSize maxWindowSize)
  else if header.contentSize.any (capacity < ·) then
    .error (resourceLimit "output" (header.contentSize.getD 0) capacity)
  else if capacity < header.windowSize then
    .error (resourceLimit "window" header.windowSize capacity)
  else .ok ()

/-- Decompresses one frame to at most `capacity` bytes. The memory for them is there. -/
def decompress (d : FrameDecoder σ) (fuel : ℕ) (source : List UInt8) (capacity : ℕ) :
    Option (Except String (List UInt8)) :=
  match parseFrameHeader source with
  | .error error => some (.error error)
  | .ok header =>
    match checkHeader header capacity with
    | .error error => some (.error error)
    | .ok () =>
      match d.init source with
      | .error error => some (.error error)
      | .ok (state, remaining) =>
        (decodeAll d capacity fuel state remaining []).map fun decoded => do
          let (state, remaining, output) ← decoded
          finishFrame d capacity header state remaining output

/-! ## Decoders of raw blocks -/

/-- What is documented of a decoder, for frames of raw blocks. `At blocks buffered state` says
that a decoder stands before some blocks, and keeps some bytes that are not collected yet. -/
structure DecodesRaw (d : FrameDecoder σ) (At : List RawBlock → List UInt8 → σ → Prop) :
    Prop where
  /-- The header is read of the source. -/
  init {frame content header blocks} (h : RawFrame frame content header blocks)
    (hle : content.length ≤ maxWindowSize) :
    ∃ state, d.init frame = .ok (state, blocks.flatMap RawBlock.encode) ∧ At blocks [] state
  /-- A decoder is finished when the last block is decoded. -/
  isFinished {blocks buffered state} (h : At blocks buffered state) :
    d.isFinished state ↔ blocks = []
  /-- Some blocks are decoded, one at least. Their contents are buffered. -/
  decodeBlocks {blocks buffered state} (limit : ℕ) (h : At blocks buffered state)
    (hlast : RawBlock.LastMarked blocks) (hle : ∀ b ∈ blocks, b.content.length ≤ maxBlockSize) :
    ∃ first rest state', blocks = first ++ rest ∧ first ≠ [] ∧
      d.decodeBlocks limit state (blocks.flatMap RawBlock.encode) =
        .ok (state', rest.flatMap RawBlock.encode) ∧
      At rest (buffered ++ first.flatMap RawBlock.content) state'
  /-- What is collected is what was buffered first: all of it, once the decoder is finished. -/
  collectToWriter {blocks buffered state} (h : At blocks buffered state) :
    ∃ buffers kept state', d.collectToWriter state = (buffers, state') ∧
      buffered = buffers.flatten ++ kept ∧ (blocks = [] → kept = []) ∧ At blocks kept state'
  /-- There is no checksum in these frames. -/
  checksumFromData {blocks buffered state} (h : At blocks buffered state) :
    d.checksumFromData state = none

namespace RawBlock

theorem LastMarked.ne_nil {blocks : List RawBlock} (h : LastMarked blocks) : blocks ≠ [] := by
  rintro rfl
  exact h

theorem LastMarked.of_cons {b : RawBlock} {blocks : List RawBlock} (h : LastMarked (b :: blocks))
    (hne : blocks ≠ []) : LastMarked blocks := by
  cases blocks with
  | nil => exact absurd rfl hne
  | cons b' blocks => exact h.2

/-- The blocks after some are still marked. -/
theorem LastMarked.of_append {first rest : List RawBlock} (h : LastMarked (first ++ rest))
    (hne : rest ≠ []) : LastMarked rest := by
  induction first with
  | nil => exact h
  | cons b first ih => exact ih (h.of_cons (List.append_ne_nil_of_right_ne_nil first hne))

theorem length_encode (b : RawBlock) : b.encode.length = 3 + b.content.length := by
  rw [encode, List.length_append, length_digits]

theorem length_le_encode (blocks : List RawBlock) :
    blocks.length ≤ (blocks.flatMap encode).length := by
  induction blocks with
  | nil => exact le_rfl
  | cons b blocks ih =>
    rw [List.length_cons, List.flatMap_cons, List.length_append, length_encode]
    omega

end RawBlock

variable {d : FrameDecoder σ} {At : List RawBlock → List UInt8 → σ → Prop} {capacity : ℕ}

/-- Buffers that fit are written one after the other. -/
theorem foldlM_writeBounded {output : List UInt8} {buffers : List (List UInt8)}
    (hle : (output ++ buffers.flatten).length ≤ capacity) :
    buffers.foldlM (writeBounded capacity) output = .ok (output ++ buffers.flatten) := by
  induction buffers generalizing output with
  | nil =>
    rw [List.flatten_nil, List.append_nil]
    rfl
  | cons buffer buffers ih =>
    rw [List.flatten_cons, ← List.append_assoc] at hle ⊢
    have hfits : (output ++ buffer).length ≤ capacity := by
      rw [List.length_append] at hle
      exact (Nat.le_add_right _ _).trans hle
    rw [List.length_append] at hfits
    rw [List.foldlM_cons, writeBounded]
    rw [if_neg (Nat.not_lt.2 hfits)]
    exact ih hle

/-- What is collected fits if all that is still to come does. -/
theorem collectBounded_eq (hd : DecodesRaw d At) {blocks : List RawBlock}
    {buffered output : List UInt8} {state : σ} (h : At blocks buffered state)
    (hle : (output ++ buffered).length ≤ capacity) :
    ∃ state' written kept,
      collectBounded d capacity state output = .ok (state', output ++ written) ∧
      buffered = written ++ kept ∧ (blocks = [] → kept = []) ∧ At blocks kept state' := by
  obtain ⟨buffers, kept, state', hcollect, hbuffered, hkept, hat⟩ := hd.collectToWriter h
  refine ⟨state', buffers.flatten, kept, ?_, hbuffered, hkept, hat⟩
  rw [hbuffered, ← List.append_assoc, List.length_append] at hle
  rw [collectBounded, hcollect]
  dsimp only
  rw [foldlM_writeBounded ((Nat.le_add_right _ _).trans hle)]
  rfl

/-- The blocks before a decoder are decoded to the end. -/
theorem decodeAll_eq (hd : DecodesRaw d At) {content : List UInt8}
    (hle : content.length ≤ capacity) {fuel : ℕ} (output : List UInt8) {blocks : List RawBlock}
    {buffered : List UInt8} {state : σ} (h : At blocks buffered state)
    (hlast : blocks ≠ [] → RawBlock.LastMarked blocks)
    (hblocks : ∀ b ∈ blocks, b.content.length ≤ maxBlockSize)
    (hcontent : output ++ (buffered ++ blocks.flatMap RawBlock.content) = content)
    (hfuel : blocks.length ≤ fuel) :
    ∃ state' buffered' output',
      decodeAll d capacity fuel state (blocks.flatMap RawBlock.encode) output =
        some (.ok (state', [], output')) ∧ At [] buffered' state' ∧
      output' ++ buffered' = content := by
  induction fuel generalizing blocks buffered output state with
  | zero =>
    obtain rfl := List.length_eq_zero_iff.1 (Nat.le_zero.1 hfuel)
    refine ⟨state, buffered, output, ?_, h, ?_⟩
    · rw [decodeAll, if_pos ((hd.isFinished h).2 rfl)]
      rfl
    · rw [← hcontent, List.flatMap_nil, List.append_nil]
  | succ fuel ih =>
    by_cases hne : blocks = []
    · subst hne
      refine ⟨state, buffered, output, ?_, h, ?_⟩
      · rw [decodeAll, if_pos ((hd.isFinished h).2 rfl)]
        rfl
      · rw [← hcontent, List.flatMap_nil, List.append_nil]
    · obtain ⟨first, rest, state₁, rfl, hfirst, hdecode, hat₁⟩ :=
        hd.decodeBlocks decodeChunkSize h (hlast hne) hblocks
      rw [List.flatMap_append, ← List.append_assoc buffered] at hcontent
      have hfits : (output ++ (buffered ++ first.flatMap RawBlock.content)).length ≤ capacity := by
        rw [← List.append_assoc] at hcontent
        rw [← hcontent, List.length_append] at hle
        exact (Nat.le_add_right _ _).trans hle
      obtain ⟨state₂, written, kept, hcollect, hbuffered, -, hat₂⟩ :=
        collectBounded_eq hd hat₁ hfits
      have hlength : rest.length ≤ fuel := by
        have := List.length_pos_of_ne_nil hfirst
        rw [List.length_append] at hfuel
        omega
      have hrest : output ++ written ++ (kept ++ rest.flatMap RawBlock.content) = content := by
        rw [← hcontent, hbuffered]
        simp
      obtain ⟨state', buffered', output', hall, hat', hcontent'⟩ := ih (output ++ written) hat₂
        ((hlast hne).of_append ·) (fun b hb => hblocks b (List.mem_append_right first hb)) hrest
        hlength
      refine ⟨state', buffered', output', ?_, hat', hcontent'⟩
      rw [decodeAll, if_neg (mt (hd.isFinished h).1 hne)]
      rw [hdecode]
      dsimp only
      rw [hcollect]
      exact hall

variable {frame content : List UInt8} {header : HeaderFields} {blocks : List RawBlock}

/-- What is read of the header of a frame of raw blocks. -/
theorem parseFrameHeader_rawFrame (h : RawFrame frame content header blocks) :
    parseFrameHeader frame =
      .ok { contentSize := some content.length, windowSize := content.length } := by
  rw [h.frame_eq, HeaderFields.parseFrameHeader_encode h.valid, HeaderFields.windowSize,
    if_pos h.singleSegment, h.contentSize_eq]
  rfl

/-- A frame of raw blocks is decompressed to its contents. -/
theorem decompress_rawFrame (hd : DecodesRaw d At) (h : RawFrame frame content header blocks)
    (hmax : content.length ≤ maxWindowSize) (hle : content.length ≤ capacity) {fuel : ℕ}
    (hfuel : frame.length ≤ fuel) : decompress d fuel frame capacity = some (.ok content) := by
  obtain ⟨state, hinit, hat⟩ := hd.init h hmax
  have hlength : blocks.length ≤ fuel := by
    refine (RawBlock.length_le_encode blocks).trans (le_trans ?_ hfuel)
    rw [h.frame_eq, List.length_append]
    exact Nat.le_add_left _ _
  obtain ⟨state', buffered, output, hall, hat', hcontent⟩ := decodeAll_eq hd hle []
    hat (fun _ => h.lastMarked) h.length_le h.content_eq hlength
  obtain ⟨state'', written, kept, hcollect, hbuffered, hkept, hat''⟩ :=
    collectBounded_eq hd hat' (hcontent.symm ▸ hle)
  rw [hkept rfl, List.append_nil] at hbuffered
  have hcheck : checkHeader { contentSize := some content.length, windowSize := content.length }
      capacity = .ok () := by
    simp [checkHeader, Nat.not_lt.2 hmax, Nat.not_lt.2 hle]
  rw [decompress, parseFrameHeader_rawFrame h]
  dsimp only
  rw [hcheck]
  dsimp only
  rw [hinit]
  dsimp only
  rw [hall]
  have hfinish : finishFrame d capacity
      { contentSize := some content.length, windowSize := content.length } state' [] output =
        .ok content := by
    rw [finishFrame, hcollect, ← hbuffered, hcontent]
    change (checkSize (some content.length) content.length >>= fun _ => _) = _
    rw [checkSize, if_pos rfl]
    change (checkChecksum d state'' >>= fun _ => _) = _
    rw [checkChecksum, hd.checksumFromData hat'']
    rfl
  exact congrArg some hfinish

/-- Without the capacity for its contents, a frame is refused before it is decoded. -/
theorem decompress_error (d : FrameDecoder σ) (h : RawFrame frame content header blocks)
    (hmax : content.length ≤ maxWindowSize) (hlt : capacity < content.length) (fuel : ℕ) :
    decompress d fuel frame capacity =
      some (.error (resourceLimit "output" content.length capacity)) := by
  have hcheck : checkHeader { contentSize := some content.length, windowSize := content.length }
      capacity = .error (resourceLimit "output" content.length capacity) := by
    simp [checkHeader, Nat.not_lt.2 hmax, hlt]
  rw [decompress, parseFrameHeader_rawFrame h]
  dsimp only
  rw [hcheck]

/-! ## A decoder -/

/-- A decoder of raw blocks, one at a time: whether it is finished, and what it keeps. -/
def rawDecoder : FrameDecoder (Bool × List UInt8) where
  init source :=
    match parseFrameHeader source with
    | .error error => .error error
    | .ok _ =>
      let descriptor := source.getD 4 0
      let singleSegment : Bool := descriptor &&& 0x20 ≠ 0
      .ok ((false, []), source.drop (5 + contentSizeSize (descriptor >>> 6).toNat singleSegment))
  isFinished := Prod.fst
  decodeBlocks _ state source :=
    let header := number (source.take 3)
    if source.length < 3 + header / 8 then .error "truncated zstd block"
    else
      .ok ((decide (header % 2 = 1), state.2 ++ (source.drop 3).take (header / 8)),
        source.drop (3 + header / 8))
  collectToWriter state := ([state.2], (state.1, []))
  checksumFromData _ := none
  calculatedChecksum _ := none

/-- The decoder is finished when no block is left. -/
def RawAt (blocks : List RawBlock) (buffered : List UInt8) (state : Bool × List UInt8) : Prop :=
  state = (blocks.isEmpty, buffered)

theorem RawBlock.LastMarked.last_eq {b : RawBlock} {blocks : List RawBlock}
    (h : LastMarked (b :: blocks)) : b.last = blocks.isEmpty := by
  cases blocks with
  | nil => exact h
  | cons b' blocks => exact h.1

/-- Without a window or a dictionary, the content size is all that follows the descriptor. -/
theorem RawFrame.length_header (h : RawFrame frame content header blocks) :
    header.encode.length = 5 + header.contentSizeWidth := by
  have hwidth : header.dictionaryIdWidth = 0 := by
    rw [HeaderFields.dictionaryIdWidth, h.noDictionary]
    rfl
  have hfields := HeaderFields.length_lastFields h.valid
  rw [hwidth, Nat.zero_add] at hfields
  rw [HeaderFields.encode, HeaderFields.fields, if_pos h.singleSegment, List.length_append,
    List.length_cons, hfields, Nat.add_comm 5]
  exact Nat.add_comm 4 _

/-- One block is decoded, and what follows it is left. -/
theorem decodeBlocks_rawDecoder (limit : ℕ) (state : Bool × List UInt8) {b : RawBlock}
    (hle : b.content.length ≤ maxBlockSize) (rest : List UInt8) :
    rawDecoder.decodeBlocks limit state (b.encode ++ rest) =
      .ok ((b.last, state.2 ++ b.content), rest) := by
  have hheader : number ((b.encode ++ rest).take 3) = b.last.toNat + 8 * b.content.length := by
    rw [RawBlock.encode, List.append_assoc, List.take_left' (length_digits _ _)]
    refine number_digits ?_
    have hlast := Bool.toNat_lt b.last
    unfold maxBlockSize at hle
    omega
  have hsize : (b.last.toNat + 8 * b.content.length) / 8 = b.content.length := by
    have hlast := Bool.toNat_lt b.last
    omega
  have hlast : decide ((b.last.toNat + 8 * b.content.length) % 2 = 1) = b.last := by
    cases b.last <;> simp <;> omega
  have hcontent : ((b.encode ++ rest).drop 3).take b.content.length = b.content := by
    rw [RawBlock.encode, List.append_assoc, List.drop_left' (length_digits _ _), List.take_left]
  change (if _ then _ else _) = _
  rw [hheader, hsize, hlast, hcontent, ← b.length_encode, List.drop_left, if_neg]
  rw [List.length_append]
  omega

/-- The decoder is one of raw blocks. -/
theorem decodesRaw_rawDecoder : DecodesRaw rawDecoder RawAt where
  init {frame content header blocks} h _ := by
    obtain ⟨-, hsingle, -, hsize⟩ := header.descriptor_spec
    refine ⟨_, ?_, rfl⟩
    have hdescriptor : frame.getD 4 0 = header.descriptor := by
      rw [h.frame_eq]
      rfl
    have hblocks : blocks.isEmpty = false := by
      simpa using h.lastMarked.ne_nil
    change (match parseFrameHeader frame with | .error error => _ | .ok _ => _) = _
    rw [parseFrameHeader_rawFrame h]
    dsimp only
    rw [hdescriptor, hsingle, hsize, ← h.length_header, h.frame_eq, List.drop_left, hblocks]
  isFinished {blocks buffered state} h := by
    rw [RawAt] at h
    rw [h]
    exact List.isEmpty_iff
  decodeBlocks {blocks buffered state} limit h hlast hle := by
    cases blocks with
    | nil => exact hlast.elim
    | cons b blocks =>
      refine ⟨[b], blocks, (b.last, state.2 ++ b.content), rfl, by simp, ?_, ?_⟩
      · rw [List.flatMap_cons]
        exact decodeBlocks_rawDecoder limit state (hle b List.mem_cons_self) _
      · rw [RawAt] at h ⊢
        rw [h, hlast.last_eq, List.flatMap_singleton]
  collectToWriter {blocks buffered state} h := by
    rw [RawAt] at h
    refine ⟨[buffered], [], (blocks.isEmpty, []), ?_, by simp, fun _ => rfl, rfl⟩
    rw [h]
    rfl
  checksumFromData _ := rfl

/-! ## The round trip -/

/-- Compresses bytes as one frame, at whatever level. -/
def compress (source : List UInt8) : Except String (List UInt8) := encodeRawFrame source

/-- What is compressed is a frame of raw blocks that records its size, and that is decompressed
to the same bytes if the capacity allows it. Of every header of the format, the sizes are read
whatever follows, and nothing is read of a strict part. -/
theorem zstd_roundTrip (hd : DecodesRaw d At) :
    (∀ source : List UInt8, source.length ≤ maxWindowSize →
      ∃ frame header blocks, compress source = .ok frame ∧
        getFrameContentSize frame = .ok (some source.length) ∧
        RawFrame frame source header blocks ∧
        ∀ capacity fuel, frame.length ≤ fuel →
          if source.length ≤ capacity then decompress d fuel frame capacity = some (.ok source)
          else ∃ error, decompress d fuel frame capacity = some (.error error)) ∧
    ∀ h : HeaderFields, h.Valid →
      (∀ rest, parseFrameHeader (h.encode ++ rest) =
        .ok { contentSize := h.contentSize, windowSize := h.windowSize }) ∧
      ∀ n < h.encode.length, ∃ error, parseFrameHeader (h.encode.take n) = .error error := by
  refine ⟨fun source hmax => ?_, fun h hvalid => ⟨HeaderFields.parseFrameHeader_encode hvalid,
    fun n hn => HeaderFields.parseFrameHeader_strict hvalid hn⟩⟩
  obtain ⟨frame, header, blocks, hencode, hframe⟩ := encodeRawFrame_eq hmax
  refine ⟨frame, header, blocks, hencode, getFrameContentSize_eq hframe, hframe,
    fun capacity fuel hfuel => ?_⟩
  split
  · rename_i hle
    exact decompress_rawFrame hd hframe hmax hle hfuel
  · rename_i hgt
    exact ⟨_, decompress_error d hframe hmax (Nat.not_le.1 hgt) fuel⟩

/-- Three bytes, through the decoder above. -/
theorem zstd_roundTrip_rawDecoder :
    ∃ frame, compress [5, 7, 7] = .ok frame ∧
      decompress rawDecoder frame.length frame 3 = some (.ok [5, 7, 7]) := by
  obtain ⟨frame, -, -, hcompress, -, -, hdecompress⟩ :=
    (zstd_roundTrip decodesRaw_rawDecoder).1 [5, 7, 7] (by decide)
  exact ⟨frame, hcompress, hdecompress 3 frame.length le_rfl⟩

end Tabulark.Zstd
