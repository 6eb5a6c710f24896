import FlvMeta.Flv.Position

/-!
# The size of the video

The first keyframes are searched for the dimensions of the picture. What is searched depends on
the codec; H.264 keeps them in a bit stream with Exp-Golomb codes. All of these functions read
the tag body they are in and nothing else (`OnlyReadsBody`), so that the stream stays on its track.
-/

namespace FlvMeta

open Endian Stdio

/-! ## Bit streams -/

/-- `bit_buffer`, with the address of the current byte relative to the start. -/
structure BitBuffer where
  bytes : Bytes
  current : Nat
  readBits : Nat

namespace BitBuffer

def skipBits (nbits : Nat) (bb : BitBuffer) : BitBuffer :=
  { bb with
    current := bb.current + (nbits + bb.readBits) / 8
    readBits := (bb.readBits + nbits) % 8 }

/-- `get_bit`; `none` is its result `-1`. -/
def getBit (bb : BitBuffer) : Option Nat × BitBuffer :=
  if bb.bytes.length ≤ bb.current then (none, bb)
  else
    let ret := (bb.bytes.getD bb.current 0).toNat / 2 ^ (7 - bb.readBits) % 2
    if bb.readBits = 7 then (some ret, { bb with readBits := 0, current := bb.current + 1 })
    else (some ret, { bb with readBits := bb.readBits + 1 })

def getBitsLoop : Nat → Nat → BitBuffer → Option Nat × BitBuffer
  | 0, ret, bb => (some ret, bb)
  | n + 1, ret, bb =>
    match bb.getBit with
    | (none, bb) => (none, bb)
    | (some bit, bb) => getBitsLoop n ((ret * 2 + bit) % 2 ^ 32) bb

def getBits (nbits : Nat) (bb : BitBuffer) : Option Nat × BitBuffer :=
  getBitsLoop (min nbits 32) 0 bb

/-- The first loop of `exp_golomb_ue`; its fuel is more than the number of unread bits. -/
def significantBits : Nat → Nat → BitBuffer → Option Nat × BitBuffer
  | 0, _, bb => (none, bb)
  | fuel + 1, count, bb =>
    match bb.getBit with
    | (none, bb) => (none, bb)
    | (some bit, bb) =>
      if bit = 0 then significantBits fuel ((count + 1) % 2 ^ 8) bb else (some count, bb)

/-- `exp_golomb_ue`; the host shifts an `int` by the count modulo 32. -/
def expGolombUe (bb : BitBuffer) : Nat × BitBuffer :=
  match bb.significantBits (8 * bb.bytes.length + 1) 0 with
  | (none, bb) => (0, bb)
  | (some count, bb) =>
    match bb.getBits count with
    | (none, bb) => (0, bb)
    | (some bits, bb) => ((2 ^ (count % 32) + bits + (2 ^ 32 - 1)) % 2 ^ 32, bb)

def expGolombSe (bb : BitBuffer) : Int × BitBuffer :=
  match bb.expGolombUe with
  | (u, bb) =>
    let ret : Int := if u < 2 ^ 31 then u else (u : Int) - 2 ^ 32
    if ret % 2 = 0 then (-(ret / 2), bb) else ((ret + 1) / 2, bb)

end BitBuffer

/-! ## H.264 sequence parameter sets -/

/-- `parse_scaling_list`. -/
def parseScalingList : Nat → Nat → Nat → BitBuffer → BitBuffer
  | 0, _, _, bb => bb
  | n + 1, lastScale, nextScale, bb =>
    if nextScale ≠ 0 then
      match bb.expGolombSe with
      | (deltaScale, bb) =>
        let nextScale := (((lastScale : Int) + deltaScale + 256) % 256).toNat
        parseScalingList n (if nextScale ≠ 0 then nextScale else lastScale) nextScale bb
    else parseScalingList n lastScale nextScale bb

/-- The lists of a scaling matrix, the first six of 16 elements, the last two of 64. -/
def parseScalingMatrix : List Nat → BitBuffer → Option Unit × BitBuffer
  | [], bb => (some (), bb)
  | size :: sizes, bb =>
    match bb.getBit with
    | (none, bb) => (none, bb)
    | (some bit, bb) =>
      parseScalingMatrix sizes (if bit ≠ 0 then parseScalingList size 8 8 bb else bb)

/-- What `parse_sps` does between the profile and the frame numbers, for the high profiles. -/
def parseSpsChroma (bb : BitBuffer) : Option Unit × BitBuffer :=
  match bb.expGolombUe with
  | (chromaFormat, bb) =>
    let bb := if chromaFormat = 3 then bb.skipBits 1 else bb
    let bb := bb.expGolombUe.2.expGolombUe.2.skipBits 1
    match bb.getBit with
    | (none, bb) => (none, bb)
    | (some bit, bb) =>
      if bit ≠ 0 then parseScalingMatrix [16, 16, 16, 16, 16, 16, 64, 64] bb else (some (), bb)

/-- `n` times `exp_golomb_se`. -/
def skipExpGolombSe : Nat → BitBuffer → BitBuffer
  | 0, bb => bb
  | n + 1, bb => skipExpGolombSe n bb.expGolombSe.2

def parseSpsPicOrder (bb : BitBuffer) : BitBuffer :=
  match bb.expGolombUe with
  | (picOrderCntType, bb) =>
    if picOrderCntType = 0 then bb.expGolombUe.2
    else if picOrderCntType = 1 then
      match ((bb.skipBits 1).expGolombSe.2.expGolombSe.2).expGolombUe with
      | (size, bb) => skipExpGolombSe size bb
    else bb

/-- What `parse_sps` does from the reference frames on. -/
def parseSpsFrame (bb : BitBuffer) : Option (Nat × Nat) :=
  match (bb.expGolombUe.2.skipBits 1).expGolombUe with
  | (width, bb) =>
    let widthInMbs := (width + 1) % 2 ^ 32
    match bb.expGolombUe with
    | (height, bb) =>
      let heightInMapUnits := (height + 1) % 2 ^ 32
      match bb.getBit with
      | (none, _) => none
      | (some frameMbsOnlyFlag, bb) =>
        let fields := if frameMbsOnlyFlag = 0 then 2 else 1
        let bb := if frameMbsOnlyFlag = 0 then bb.skipBits 1 else bb
        match (bb.skipBits 1).getBit with
        | (none, _) => none
        | (some bit, bb) =>
          let crop : Nat × Nat :=
            if bit ≠ 0 then
              match bb.expGolombUe with
              | (left, bb) =>
                match bb.expGolombUe with
                | (right, bb) =>
                  match bb.expGolombUe with
                  | (top, bb) =>
                    match bb.expGolombUe with
                    | (bottom, _) =>
                      (left * 2 + right * 2, top * 2 * fields + bottom * 2 * fields)
            else (0, 0)
          some (subUint32 (widthInMbs * 16) crop.1,
            subUint32 (heightInMapUnits * 16) crop.2 * fields % 2 ^ 32)

/-- `parse_sps`: width and height, `none` when it returns without setting them. -/
def parseSps (sps : Bytes) : Option (Nat × Nat) :=
  match (BitBuffer.skipBits 8 ⟨sps, 0, 0⟩).getBits 8 with
  | (none, _) => none
  | (some profile, bb) =>
    let bb := (bb.skipBits 16).expGolombUe.2
    match
      if profile = 100 ∨ profile = 110 ∨ profile = 122 ∨ profile = 144 then parseSpsChroma bb
      else (some (), bb) with
    | (none, _) => none
    | (some _, bb) => parseSpsFrame (parseSpsPicOrder bb.expGolombUe.2)

/-! ## Readers of the tag body -/

/-- A computation on a stream that may fail with a status. -/
abbrev StreamReader (α : Type) := ExceptT FlvStatus (StateM FlvStream) α

/-- `flv_read_tag_body`, failing when it does not fill the buffer. -/
def readBody (size : Nat) : StreamReader Bytes :=
  ExceptT.mk fun stream =>
    match flvReadTagBody size stream with
    | (buffer, stream) => (if buffer.length < size then .error .errorEof else .ok buffer, stream)

/-- The width and the height found, `none` when they are left as they were. -/
abbrev VideoSizeReader := StreamReader (Option (Nat × Nat))

def byteAt (header : Bytes) (i : Nat) : Nat := (header.getD i 0).toNat

def h263Size (header : Bytes) : Option (Nat × Nat) :=
  let h := byteAt header
  if uint24BeToUint32 (Uint24Be.ofBytes header) / 2 ^ 7 = 1 then
    match h 3 % 4 * 2 + h 4 / 2 ^ 7 with
    | 0 => some (h 4 % 2 ^ 7 * 2 + h 5 / 2 ^ 7, h 5 % 2 ^ 7 * 2 + h 6 / 2 ^ 7)
    | 1 => some (h 4 % 2 ^ 7 * 2 ^ 9 + h 5 * 2 + h 6 / 2 ^ 7,
        h 6 % 2 ^ 7 * 2 ^ 9 + h 7 * 2 + h 8 / 2 ^ 7)
    | 2 => some (352, 288)
    | 3 => some (176, 144)
    | 4 => some (128, 96)
    | 5 => some (320, 240)
    | 6 => some (160, 120)
    | _ => none
  else none

def computeH263Size (bodyLength : Nat) : VideoSizeReader := do
  if 9 ≤ bodyLength then
    let header ← readBody 9
    return h263Size header
  else return none

def computeScreenSize (bodyLength : Nat) : VideoSizeReader := do
  if 4 ≤ bodyLength then
    let header ← readBody 4
    let h := byteAt header
    return some (h 0 % 2 ^ 4 * 2 ^ 8 + h 1, h 2 % 2 ^ 4 * 2 ^ 8 + h 3)
  else return none

/-- The dimensions in a VP6 header that starts at `i`; it is two bytes longer for VP6 0. -/
def vp6Size (header : Bytes) (i : Nat) : Option (Nat × Nat) :=
  let h := byteAt header
  let offset := if h (i + 1) % 2 = 1 ∨ h (i + 2) / 2 % 4 = 0 then 2 else 0
  some (subUint32 (h (i + 4 + offset) * 2 ^ 4) (h 0 / 2 ^ 4),
    subUint32 (h (i + 3 + offset) * 2 ^ 4) (h 0 % 2 ^ 4))

def computeVp6Size (bodyLength : Nat) : VideoSizeReader := do
  if 7 ≤ bodyLength then
    let header ← readBody 7
    return vp6Size header 0
  else return none

def computeVp6AlphaSize (bodyLength : Nat) : VideoSizeReader := do
  if 10 ≤ bodyLength then
    let header ← readBody 10
    return vp6Size header 3
  else return none

/-- `read_avc_resolution`. -/
def readAvcResolution (bodyLength : Nat) : VideoSizeReader := do
  -- packet type, composition time and decoder configuration record
  if bodyLength < 1 + 3 + 6 then return none
  let avcPacketType ← readBody 1
  if byteAt avcPacketType 0 ≠ 0 then return none
  let _ ← readBody 3
  let _ ← readBody 1
  let _ ← readBody 1
  let _ ← readBody 1
  let _ ← readBody 1
  let _ ← readBody 1
  let numOfSequenceParameterSets ← readBody 1
  if byteAt numOfSequenceParameterSets 0 % 2 ^ 5 = 0 then return none
  let sizeField ← readBody 2
  let spsSize := swapUint16 (ofLE sizeField)
  if spsSize = 0 ∨ subSize bodyLength (6 + 1 + 3 + 2) < spsSize then throw .errorEof
  let sps ← readBody spsSize
  return parseSps sps

/-- `compute_video_size`, by codec. -/
def computeVideoSize (videoCodec bodyLength : Nat) : VideoSizeReader :=
  match videoCodec with
  | 2 => computeH263Size bodyLength
  | 3 => computeScreenSize bodyLength
  | 6 => computeScreenSize bodyLength
  | 4 => computeVp6Size bodyLength
  | 5 => computeVp6AlphaSize bodyLength
  | 7 => readAvcResolution bodyLength
  | _ => pure none

/-! ## Nothing but the body is read -/

/-- Whatever reading bodies preserves is preserved. -/
def OnlyReadsBody {α : Type} (x : StreamReader α) : Prop :=
  ∀ P : FlvStream → Prop, (∀ n stream, P stream → P (flvReadTagBody n stream).2) →
    ∀ stream, P stream → P (x.run.run stream).2

namespace OnlyReadsBody

variable {α β : Type}

theorem pure (a : α) : OnlyReadsBody (Pure.pure a : StreamReader α) := fun _ _ _ h => h

theorem throw (e : FlvStatus) : OnlyReadsBody (MonadExcept.throw e : StreamReader α) :=
  fun _ _ _ h => h

theorem readBody (size : Nat) : OnlyReadsBody (readBody size) := fun _ hP stream h =>
  hP size stream h

theorem bind {x : StreamReader α} {f : α → StreamReader β} (hx : OnlyReadsBody x)
    (hf : ∀ a, OnlyReadsBody (f a)) : OnlyReadsBody (x >>= f) := by
  intro P hP stream h
  have hx' := hx P hP stream h
  rw [ExceptT.run_bind, StateT.run_bind]
  generalize x.run.run stream = r at hx' ⊢
  obtain ⟨result, stream'⟩ := r
  cases result with
  | error e => exact hx'
  | ok a => exact hf a P hP stream' hx'

theorem ite {c : Prop} [Decidable c] {x y : StreamReader α} (hx : OnlyReadsBody x)
    (hy : OnlyReadsBody y) : OnlyReadsBody (if c then x else y) := by
  split
  · exact hx
  · exact hy

end OnlyReadsBody

theorem onlyReadsBody_readAvcResolution (bodyLength : Nat) :
    OnlyReadsBody (readAvcResolution bodyLength) := by
  refine .ite (.pure _) (.bind (.readBody 1) fun avcPacketType => .ite (.pure _) ?_)
  refine .bind (.readBody 3) fun _ => .bind (.readBody 1) fun _ => .bind (.readBody 1) fun _ => ?_
  refine .bind (.readBody 1) fun _ => .bind (.readBody 1) fun _ => .bind (.readBody 1) fun _ => ?_
  refine .bind (.readBody 1) fun numOfSequenceParameterSets => .ite (.pure _) ?_
  refine .bind (.readBody 2) fun sizeField => ?_
  have hsps : OnlyReadsBody (do
      let sps ← readBody (swapUint16 (ofLE sizeField))
      return parseSps sps) :=
    .bind (.readBody _) fun sps => .pure _
  exact .ite (.bind (.throw _) fun _ => hsps) hsps

theorem onlyReadsBody_computeVideoSize (videoCodec bodyLength : Nat) :
    OnlyReadsBody (computeVideoSize videoCodec bodyLength) := by
  unfold computeVideoSize
  split
  · exact .ite (.bind (.readBody 9) fun _ => .pure _) (.pure _)
  · exact .ite (.bind (.readBody 4) fun _ => .pure _) (.pure _)
  · exact .ite (.bind (.readBody 4) fun _ => .pure _) (.pure _)
  · exact .ite (.bind (.readBody 7) fun _ => .pure _) (.pure _)
  · exact .ite (.bind (.readBody 10) fun _ => .pure _) (.pure _)
  · exact onlyReadsBody_readAvcResolution bodyLength
  · exact .pure _

theorem Tracks.computeVideoSize {content : Bytes} {last : Option (Nat × FlvTag)}
    {stream : FlvStream} (h : Tracks content last stream) (videoCodec bodyLength : Nat) :
    Tracks content last ((computeVideoSize videoCodec bodyLength).run.run stream).2 :=
  onlyReadsBody_computeVideoSize videoCodec bodyLength (Tracks content last)
    (fun n _ hs => hs.flvReadTagBody n) stream h

end FlvMeta
