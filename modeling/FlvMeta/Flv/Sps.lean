import FlvMeta.Flv.ExpGolomb

/-!
# Sequence parameter sets

The H.264 syntax of a sequence parameter set with 4:2:0 chroma, as a record with its bit
serialisation. `parseSps` finds the dimensions in the serialisation of every record, but crops the
lines of an interlaced stream twice: the height is right exactly when the frames are progressive
or nothing is cropped there (`parseSps_bits_iff`).
-/

namespace FlvMeta

open Bits

/-! ## Records -/

/-- A natural whose code is read without exceeding `2 ^ 31`. -/
structure Ue where
  val : Nat
  bound : val + 1 ≤ 2 ^ 31

/-- An integer whose code is read without exceeding `2 ^ 31`. -/
structure Se where
  val : Int
  bound : seIndex val + 1 ≤ 2 ^ 31

namespace Ue

def bits (element : Ue) : List Bool := ueCode element.val

end Ue

namespace Se

def bits (element : Se) : List Bool := seCode element.val

end Se

/-- The scale after `last`. -/
def nextScale (last : Nat) (delta : Int) : Nat := (((last : Int) + delta + 256) % 256).toNat

/-- What is coded for `n` more elements of a scaling list. A zero scale ends the coding, and the
last scale is that of all other elements. -/
inductive ScalingDeltas : Nat → Nat → Nat → List Se → Prop
  | finished (last next : Nat) : ScalingDeltas 0 last next []
  | flat (n last : Nat) : ScalingDeltas n last 0 []
  | coded {n last next : Nat} {delta : Se} {deltas : List Se} (hnext : next ≠ 0)
      (h : ScalingDeltas n
        (if nextScale last delta.val ≠ 0 then nextScale last delta.val else last)
        (nextScale last delta.val) deltas) :
      ScalingDeltas (n + 1) last next (delta :: deltas)

structure ScalingList (size : Nat) where
  deltas : List Se
  coded : ScalingDeltas size 8 8 deltas

/-- One scaling list for each size, or none that falls back to a default. -/
inductive ScalingLists : List Nat → Type
  | nil : ScalingLists []
  | cons {size : Nat} {sizes : List Nat} (list : Option (ScalingList size))
      (lists : ScalingLists sizes) : ScalingLists (size :: sizes)

def ScalingLists.bits : {sizes : List Nat} → ScalingLists sizes → List Bool
  | _, .nil => []
  | _, .cons none lists => false :: lists.bits
  | _, .cons (some list) lists => true :: (list.deltas.flatMap Se.bits ++ lists.bits)

/-- What the high profiles code between the identifier and the frame numbers, for 4:2:0 chroma. -/
structure HighFormat where
  bitDepthLumaMinus8 : Ue
  bitDepthChromaMinus8 : Ue
  qpprimeYZeroTransformBypassFlag : Bool
  seqScalingMatrix : Option (ScalingLists [16, 16, 16, 16, 16, 16, 64, 64])

def HighFormat.bits (format : HighFormat) : List Bool :=
  ueCode 1 ++ format.bitDepthLumaMinus8.bits ++ format.bitDepthChromaMinus8.bits ++
    [format.qpprimeYZeroTransformBypassFlag] ++
    match format.seqScalingMatrix with
    | none => [false]
    | some lists => true :: lists.bits

inductive SpsProfile
  | baseline
  | main
  | extended
  | high (format : HighFormat)
  | high10 (format : HighFormat)
  | high422 (format : HighFormat)

namespace SpsProfile

def idc : SpsProfile → Nat
  | baseline => 66
  | main => 77
  | extended => 88
  | high _ => 100
  | high10 _ => 110
  | high422 _ => 122

def bits : SpsProfile → List Bool
  | high format | high10 format | high422 format => format.bits
  | _ => []

end SpsProfile

inductive PicOrderCnt
  | type0 (log2MaxPicOrderCntLsbMinus4 : Ue)
  | type1 (deltaPicOrderAlwaysZeroFlag : Bool) (offsetForNonRefPic : Se)
      (offsetForTopToBottomField : Se) (offsetForRefFrame : List Se)
      (bound : offsetForRefFrame.length + 1 ≤ 2 ^ 31)
  | type2

def PicOrderCnt.bits : PicOrderCnt → List Bool
  | type0 lsb => ueCode 0 ++ lsb.bits
  | type1 flag nonRefPic topToBottom refFrame _ =>
    ueCode 1 ++ flag :: (nonRefPic.bits ++ topToBottom.bits ++ ueCode refFrame.length ++
      refFrame.flatMap Se.bits)
  | type2 => ueCode 2

structure FrameCropping where
  left : Ue
  right : Ue
  top : Ue
  bottom : Ue

/-- A sequence parameter set up to its cropping; what follows does not matter here. -/
structure Sps where
  nalHeader : UInt8
  profile : SpsProfile
  constraintFlags : UInt8
  levelIdc : UInt8
  seqParameterSetId : Ue
  log2MaxFrameNumMinus4 : Ue
  picOrderCnt : PicOrderCnt
  numRefFrames : Ue
  gapsInFrameNumValueAllowedFlag : Bool
  picWidthInMbsMinus1 : Ue
  picHeightInMapUnitsMinus1 : Ue
  frameMbsOnlyFlag : Bool
  /-- Coded for field coding only. -/
  mbAdaptiveFrameFieldFlag : Bool
  direct8x8InferenceFlag : Bool
  frameCropping : Option FrameCropping

namespace Sps

variable (s : Sps)

def croppingBits : List Bool :=
  match s.frameCropping with
  | none => [false]
  | some crop => true :: (crop.left.bits ++ crop.right.bits ++ crop.top.bits ++ crop.bottom.bits)

/-- From the reference frames on. -/
def frameBits : List Bool :=
  s.numRefFrames.bits ++ [s.gapsInFrameNumValueAllowedFlag] ++ s.picWidthInMbsMinus1.bits ++
    s.picHeightInMapUnitsMinus1.bits ++ [s.frameMbsOnlyFlag] ++
    (if s.frameMbsOnlyFlag then [] else [s.mbAdaptiveFrameFieldFlag]) ++
    [s.direct8x8InferenceFlag] ++ s.croppingBits

def bits : List Bool :=
  toBits 8 s.nalHeader.toNat ++ toBits 8 s.profile.idc ++ toBits 8 s.constraintFlags.toNat ++
    toBits 8 s.levelIdc.toNat ++ s.seqParameterSetId.bits ++ s.profile.bits ++
    s.log2MaxFrameNumMinus4.bits ++ s.picOrderCnt.bits ++ s.frameBits

def picWidthInMbs : Nat := s.picWidthInMbsMinus1.val + 1

def picHeightInMapUnits : Nat := s.picHeightInMapUnitsMinus1.val + 1

/-- `2 - frame_mbs_only_flag`. -/
def fields : Nat := if s.frameMbsOnlyFlag then 1 else 2

/-- `left + right` of the crop offsets, zero when they are not coded. -/
def cropColumns : Nat :=
  match s.frameCropping with
  | none => 0
  | some crop => crop.left.val + crop.right.val

/-- `top + bottom` of the crop offsets. -/
def cropLines : Nat :=
  match s.frameCropping with
  | none => 0
  | some crop => crop.top.val + crop.bottom.val

def width : Nat := 16 * s.picWidthInMbs - 2 * s.cropColumns

def height : Nat := s.fields * 16 * s.picHeightInMapUnits - 2 * s.fields * s.cropLines

/-- The picture has at most `2 ^ 31` columns and lines, and what is cropped is part of it. -/
structure WithinRange : Prop where
  columns : 16 * s.picWidthInMbs ≤ 2 ^ 31
  lines : s.fields * 16 * s.picHeightInMapUnits ≤ 2 ^ 31
  cropColumns : 2 * s.cropColumns ≤ 16 * s.picWidthInMbs
  cropLines : 2 * s.fields * s.cropLines ≤ s.fields * 16 * s.picHeightInMapUnits

end Sps

/-! ## Reading elements -/

/-- The reader has `bits` in front of it. -/
structure BitBuffer.At (bb : BitBuffer) (bits : List Bool) : Prop where
  valid : bb.Valid
  rest_eq : bb.rest = bits

namespace BitBuffer.At

variable {bb : BitBuffer} {tail : List Bool}

theorem skipBits {bits : List Bool} (h : bb.At (bits ++ tail)) {n : Nat} (hn : bits.length = n) :
    (bb.skipBits n).At tail := by
  refine ⟨valid_skipBits n bb, ?_⟩
  rw [rest_skipBits, h.rest_eq, List.drop_left' hn]

theorem skipBit {bit : Bool} (h : bb.At (bit :: tail)) : (bb.skipBits 1).At tail :=
  BitBuffer.At.skipBits (show bb.At ([bit] ++ tail) from h) rfl

theorem getBit (bit : Bool) (h : bb.At (bit :: tail)) :
    ∃ after, bb.getBit = (some bit.toNat, after) ∧ after.At tail :=
  ⟨_, h.valid.getBit_cons h.rest_eq, h.skipBit⟩

theorem getBits {n v : Nat} (h : bb.At (toBits n v ++ tail)) (hn : n ≤ 32) (hv : v < 2 ^ n) :
    ∃ after, bb.getBits n = (some v, after) ∧ after.At tail := by
  refine ⟨_, ?_, h.skipBits (length_toBits n v)⟩
  rw [h.valid.getBits_eq, Nat.min_eq_left hn, h.rest_eq, if_pos (by simp),
    List.take_left' (length_toBits n v), ofBits_toBits, Nat.mod_eq_of_lt hv]

theorem ue (element : Ue) (h : bb.At (element.bits ++ tail)) :
    ∃ after, bb.expGolombUe = (element.val, after) ∧ after.At tail :=
  ⟨_, h.valid.expGolombUe_code (Nat.lt_of_le_of_lt element.bound (by decide)) h.rest_eq,
    h.skipBits rfl⟩

theorem se (element : Se) (h : bb.At (element.bits ++ tail)) :
    ∃ after, bb.expGolombSe = (element.val, after) ∧ after.At tail :=
  ⟨_, h.valid.expGolombSe_code element.bound h.rest_eq, h.skipBits rfl⟩

/-! ## Reading the parts of a record -/

theorem parseScalingList {n last next : Nat} {deltas : List Se}
    (hdeltas : ScalingDeltas n last next deltas) (h : bb.At (deltas.flatMap Se.bits ++ tail)) :
    (FlvMeta.parseScalingList n last next bb).At tail := by
  induction hdeltas generalizing bb with
  | finished last next => exact h
  | flat n last =>
    induction n with
    | zero => exact h
    | succ n ih =>
      rw [FlvMeta.parseScalingList, if_neg (fun hne => hne rfl)]
      exact ih
  | coded hnext _ ih =>
    rw [List.flatMap_cons, List.append_assoc] at h
    obtain ⟨after, heq, hat⟩ := h.se _
    rw [FlvMeta.parseScalingList, if_pos hnext, heq]
    exact ih hat

theorem parseScalingMatrix {sizes : List Nat} (lists : ScalingLists sizes)
    (h : bb.At (lists.bits ++ tail)) :
    ∃ after, FlvMeta.parseScalingMatrix sizes bb = (some (), after) ∧ after.At tail := by
  induction lists generalizing bb with
  | nil => exact ⟨bb, rfl, h⟩
  | cons list lists ih =>
    cases list with
    | none =>
      obtain ⟨after, heq, hat⟩ := BitBuffer.At.getBit false h
      rw [FlvMeta.parseScalingMatrix, heq]
      exact ih hat
    | some list =>
      rw [ScalingLists.bits, List.cons_append, List.append_assoc] at h
      obtain ⟨after, heq, hat⟩ := h.getBit _
      rw [FlvMeta.parseScalingMatrix, heq]
      exact ih (hat.parseScalingList list.coded)

theorem parseSpsChroma {format : HighFormat} (h : bb.At (format.bits ++ tail)) :
    ∃ after, FlvMeta.parseSpsChroma bb = (some (), after) ∧ after.At tail := by
  simp only [HighFormat.bits, List.append_assoc] at h
  obtain ⟨luma, hluma, atLuma⟩ := h.ue ⟨1, by decide⟩
  obtain ⟨chroma, hchroma, atChroma⟩ := atLuma.ue _
  obtain ⟨flag, hflag, atFlag⟩ := atChroma.ue _
  have atMatrix := atFlag.skipBit
  rw [FlvMeta.parseSpsChroma, hluma]
  dsimp only
  rw [if_neg (by decide), hchroma, hflag]
  cases hmatrix : format.seqScalingMatrix with
  | none =>
    rw [hmatrix] at atMatrix
    obtain ⟨after, heq, hat⟩ := atMatrix.getBit false
    rw [heq]
    exact ⟨after, rfl, hat⟩
  | some lists =>
    rw [hmatrix] at atMatrix
    obtain ⟨after, heq, hat⟩ := atMatrix.getBit true
    rw [heq]
    exact hat.parseScalingMatrix lists

theorem skipExpGolombSe {elements : List Se} (h : bb.At (elements.flatMap Se.bits ++ tail)) :
    (FlvMeta.skipExpGolombSe elements.length bb).At tail := by
  induction elements generalizing bb with
  | nil => exact h
  | cons element elements ih =>
    rw [List.flatMap_cons, List.append_assoc] at h
    obtain ⟨after, heq, hat⟩ := h.se _
    rw [List.length_cons, FlvMeta.skipExpGolombSe, heq]
    exact ih hat

theorem parseSpsPicOrder {order : PicOrderCnt} (h : bb.At (order.bits ++ tail)) :
    (FlvMeta.parseSpsPicOrder bb).At tail := by
  cases order with
  | type0 lsb =>
    rw [PicOrderCnt.bits, List.append_assoc] at h
    obtain ⟨type, htype, atType⟩ := h.ue ⟨0, by decide⟩
    obtain ⟨after, heq, hat⟩ := atType.ue _
    rw [FlvMeta.parseSpsPicOrder, htype]
    dsimp only
    rw [if_pos rfl, heq]
    exact hat
  | type1 flag nonRefPic topToBottom refFrame bound =>
    simp only [PicOrderCnt.bits, List.append_assoc, List.cons_append] at h
    obtain ⟨type, htype, atType⟩ := h.ue ⟨1, by decide⟩
    obtain ⟨second, hsecond, atSecond⟩ := atType.skipBit.se _
    obtain ⟨count, hcount, atCount⟩ := atSecond.se _
    obtain ⟨after, heq, hat⟩ := atCount.ue ⟨refFrame.length, bound⟩
    rw [FlvMeta.parseSpsPicOrder, htype]
    dsimp only
    rw [if_neg (by decide), if_pos rfl, hsecond, hcount, heq]
    exact hat.skipExpGolombSe
  | type2 =>
    obtain ⟨after, heq, hat⟩ := h.ue ⟨2, by decide⟩
    rw [FlvMeta.parseSpsPicOrder, heq]
    exact hat

end BitBuffer.At

namespace Sps

variable {s : Sps}

/-- The dimensions that are found: the offsets are multiplied by the number of fields, and so is
what they are subtracted from. -/
def parsedSize (s : Sps) : Nat × Nat :=
  (subUint32 (s.picWidthInMbs % 2 ^ 32 * 16) (2 * s.cropColumns),
    subUint32 (s.picHeightInMapUnits % 2 ^ 32 * 16)
      (2 * s.fields * s.cropLines) * s.fields % 2 ^ 32)

theorem fields_eq (s : Sps) : (if s.frameMbsOnlyFlag.toNat = 0 then 2 else 1) = s.fields := by
  unfold fields
  cases s.frameMbsOnlyFlag
  · rfl
  · rfl

theorem fields_eq_one_or_two (s : Sps) : s.fields = 1 ∨ s.fields = 2 := by
  unfold fields
  split
  · exact .inl rfl
  · exact .inr rfl

theorem parseSpsFrame_frameBits {bb : BitBuffer} {tail : List Bool}
    (h : bb.At (s.frameBits ++ tail)) : parseSpsFrame bb = some s.parsedSize := by
  simp only [frameBits, List.append_assoc] at h
  obtain ⟨gaps, hgaps, atGaps⟩ := h.ue _
  obtain ⟨height, hheight, atHeight⟩ := atGaps.skipBit.ue _
  obtain ⟨frame, hframe, atFrame⟩ := atHeight.ue _
  obtain ⟨field, hfield, atField⟩ := atFrame.getBit _
  have atCropping : ((if s.frameMbsOnlyFlag.toNat = 0 then field.skipBits 1 else field).skipBits
      1).At (s.croppingBits ++ tail) := by
    cases hflag : s.frameMbsOnlyFlag with
    | true =>
      rw [hflag] at atField
      exact atField.skipBit
    | false =>
      rw [hflag] at atField
      exact atField.skipBit.skipBit
  rw [parseSpsFrame, hgaps]
  dsimp only
  rw [hheight]
  dsimp only
  rw [hframe]
  dsimp only
  rw [hfield]
  dsimp only
  rw [fields_eq]
  unfold croppingBits at atCropping
  unfold parsedSize cropColumns cropLines
  cases hcrop : s.frameCropping with
  | none =>
    rw [hcrop] at atCropping
    obtain ⟨flag, hflag, _⟩ := atCropping.getBit false
    rw [hflag]
    rfl
  | some crop =>
    simp only [hcrop, List.append_assoc, List.cons_append] at atCropping
    obtain ⟨flag, hflag, atFlag⟩ := atCropping.getBit true
    obtain ⟨left, hleft, atLeft⟩ := atFlag.ue _
    obtain ⟨right, hright, atRight⟩ := atLeft.ue _
    obtain ⟨top, htop, atTop⟩ := atRight.ue _
    obtain ⟨bottom, hbottom, _⟩ := atTop.ue _
    have hcolumns : crop.left.val * 2 + crop.right.val * 2 =
        2 * (crop.left.val + crop.right.val) := by omega
    have hlines : crop.top.val * 2 * s.fields + crop.bottom.val * 2 * s.fields =
        2 * s.fields * (crop.top.val + crop.bottom.val) := by
      rcases s.fields_eq_one_or_two with hone | htwo
      · rw [hone]
        omega
      · rw [htwo]
        omega
    rw [hflag]
    dsimp only
    rw [if_pos (by decide), hleft]
    dsimp only
    rw [hright]
    dsimp only
    rw [htop]
    dsimp only
    rw [hbottom]
    dsimp only
    rw [hcolumns, hlines]
    rfl

theorem idc_lt (profile : SpsProfile) : profile.idc < 2 ^ 8 := by
  cases profile
  all_goals simp [SpsProfile.idc]

/-- The chroma part is read for the profiles that have one. -/
theorem parseSpsProfile_bits {bb : BitBuffer} {tail : List Bool} {profile : SpsProfile}
    (h : bb.At (profile.bits ++ tail)) :
    ∃ after,
      (if profile.idc = 100 ∨ profile.idc = 110 ∨ profile.idc = 122 ∨ profile.idc = 144
        then parseSpsChroma bb else (some (), bb)) = (some (), after) ∧ after.At tail := by
  cases profile with
  | baseline | main | extended =>
    rw [if_neg (by simp [SpsProfile.idc])]
    exact ⟨bb, rfl, h⟩
  | high format | high10 format | high422 format =>
    rw [if_pos (by simp [SpsProfile.idc])]
    exact BitBuffer.At.parseSpsChroma h

/-- Every record is read as far as its cropping. -/
theorem parseSps_bits {sps : Bytes} {tail : List Bool} (hbits : ofBytes sps = s.bits ++ tail) :
    parseSps sps = some s.parsedSize := by
  have hstart : BitBuffer.At ⟨sps, 0, 0⟩ (s.bits ++ tail) := ⟨Nat.zero_lt_succ 7, hbits⟩
  simp only [bits, List.append_assoc] at hstart
  obtain ⟨profile, hprofile, atProfile⟩ :=
    (hstart.skipBits (length_toBits 8 _)).getBits (by decide) (idc_lt s.profile)
  have atId := (atProfile.skipBits (length_toBits 8 _)).skipBits (length_toBits 8 _)
  rw [BitBuffer.skipBits_skipBits] at atId
  obtain ⟨id, hid, atChroma⟩ := atId.ue _
  obtain ⟨chroma, hchroma, atFrameNum⟩ := parseSpsProfile_bits atChroma
  obtain ⟨frameNum, hframeNum, atOrder⟩ := atFrameNum.ue _
  rw [parseSps, hprofile]
  dsimp only
  rw [hid]
  dsimp only
  rw [hchroma]
  dsimp only
  rw [hframeNum]
  exact parseSpsFrame_frameBits atOrder.parseSpsPicOrder

theorem parsedSize_columns (h : s.WithinRange) : s.parsedSize.1 = s.width := by
  have hcolumns := h.columns
  have hcrop := h.cropColumns
  unfold parsedSize width
  rw [Nat.mod_eq_of_lt (a := s.picWidthInMbs) (by omega), subUint32_of_le (by omega) (by omega)]
  omega

/-- The lines are right when nothing is subtracted or there is one field. -/
theorem parsedSize_lines_iff (h : s.WithinRange) :
    s.parsedSize.2 = s.height ↔ s.frameMbsOnlyFlag ∨ s.cropLines = 0 := by
  have hlines := h.lines
  have hcrop := h.cropLines
  have hfields : s.frameMbsOnlyFlag ↔ s.fields = 1 := by
    unfold fields
    cases s.frameMbsOnlyFlag
    · simp
    · simp
  rw [hfields]
  unfold parsedSize height
  dsimp only
  rcases s.fields_eq_one_or_two with hone | htwo
  · rw [hone] at hlines hcrop ⊢
    rw [Nat.mod_eq_of_lt (a := s.picHeightInMapUnits) (by omega),
      subUint32_of_le (by omega) (by omega)]
    omega
  · rw [htwo] at hlines hcrop ⊢
    rw [Nat.mod_eq_of_lt (a := s.picHeightInMapUnits) (by omega), subUint32]
    omega

/-- For every record within range the width is found; the height is found exactly if the lines
are cropped of a progressive stream, or not at all. -/
theorem parseSps_bits_iff (sps : Bytes) (tail : List Bool) (hbits : ofBytes sps = s.bits ++ tail)
    (h : s.WithinRange) :
    parseSps sps = some (s.width, s.height) ↔ s.frameMbsOnlyFlag ∨ s.cropLines = 0 := by
  rw [parseSps_bits hbits, ← parsedSize_lines_iff h, ← parsedSize_columns h]
  simp [Prod.ext_iff]

/-- 1088 lines in two fields, of which 8 at the bottom are cropped, as broadcast in 1080i. -/
def interlaced : Sps where
  nalHeader := 0x67
  profile := .main
  constraintFlags := 0
  levelIdc := 40
  seqParameterSetId := ⟨0, by decide⟩
  log2MaxFrameNumMinus4 := ⟨0, by decide⟩
  picOrderCnt := .type0 ⟨0, by decide⟩
  numRefFrames := ⟨4, by decide⟩
  gapsInFrameNumValueAllowedFlag := false
  picWidthInMbsMinus1 := ⟨119, by decide⟩
  picHeightInMapUnitsMinus1 := ⟨33, by decide⟩
  frameMbsOnlyFlag := false
  mbAdaptiveFrameFieldFlag := true
  direct8x8InferenceFlag := true
  frameCropping := some
    ⟨⟨0, by decide⟩, ⟨0, by decide⟩, ⟨0, by decide⟩, ⟨2, by decide⟩⟩

/-- Its serialisation, without further parameters, up to the stop bit. -/
def interlacedBytes : Bytes := [0x67, 0x4d, 0x00, 0x28, 0xf2, 0x80, 0xf0, 0x08, 0x9f, 0xb4]

theorem interlacedBytes_bits :
    ofBytes interlacedBytes = interlaced.bits ++ [false, true, false, false] := by
  decide

theorem interlaced_withinRange : interlaced.WithinRange :=
  ⟨by decide, by decide, by decide, by decide⟩

theorem parseSps_bits_iff_interlaced : parseSps interlacedBytes ≠ some (1920, 1080) := fun h =>
  absurd ((parseSps_bits_iff interlacedBytes _ interlacedBytes_bits interlaced_withinRange).mp h)
    (by decide)

/-- Its height comes out as 1072, not 1080. -/
theorem not_parseSps_bits :
    ¬ ∀ (s : Sps) (sps : Bytes) (tail : List Bool), ofBytes sps = s.bits ++ tail → s.WithinRange →
      parseSps sps = some (s.width, s.height) := by
  intro h
  have hsize := h interlaced interlacedBytes _ interlacedBytes_bits interlaced_withinRange
  rw [parseSps_bits interlacedBytes_bits] at hsize
  exact absurd hsize (by decide)

end Sps

end FlvMeta
