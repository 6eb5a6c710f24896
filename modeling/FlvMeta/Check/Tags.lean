import FlvMeta.Check.Report
import FlvMeta.Dump.Strings
import FlvMeta.Flv.Parse
import FlvMeta.Info.Names

/-!
# The tags of a file under check

The first part of `check_flv_file`: the file header, and the loop over the tags with its local
variables. Every function prints what it finds and gives the local variables as they are then. The
stream is read as in the other passes, so that a turn leaves it beyond the start of its tag and the
loop ends (`turnsBeyond_checkTurn`).
-/

namespace FlvMeta

open Endian Stdio

/-! ## Local variables -/

/-- The local variables of the loop. The audio and video tags read last are zero before the first
one. -/
structure CheckLocals (N : Type) where
  tagNumber : Nat
  lastTimestamp : Nat
  lastVideoTimestamp : Nat
  lastAudioTimestamp : Nat
  haveAudio : Bool
  haveVideo : Bool
  haveDesync : Bool
  haveOnMetadata : Bool
  onMetadataOffset : Nat
  onMetadata : AmfData N
  onMetadataName : AmfData N
  haveOnLastSecond : Bool
  onLastSecondTimestamp : Nat
  havePrevAudioTag : Bool
  prevAudioTag : UInt8
  havePrevVideoTag : Bool
  prevVideoTag : FlvVideoTag
  consecutiveUnknownTags : Nat
  videoFramesNumber : Nat
  keyframesNumber : Nat

variable {N : Type}

def CheckLocals.init : CheckLocals N where
  tagNumber := 0
  lastTimestamp := 0
  lastVideoTimestamp := 0
  lastAudioTimestamp := 0
  haveAudio := false
  haveVideo := false
  haveDesync := false
  haveOnMetadata := false
  onMetadataOffset := 0
  onMetadata := .nullPtr
  onMetadataName := .nullPtr
  haveOnLastSecond := false
  onLastSecondTimestamp := 0
  havePrevAudioTag := false
  prevAudioTag := 0
  havePrevVideoTag := false
  prevVideoTag := ⟨0, 0⟩
  consecutiveUnknownTags := 0
  videoFramesNumber := 0
  keyframesNumber := 0

/-! ## The header of the file -/

def flvVersion : UInt8 := 0x01

def flvHeaderGetOffset (header : FlvHeader) : Nat := swapUint32 header.offset

def checkHeader (header : FlvHeader) : CheckM N Unit := do
  onlyIf (header.version ≠ flvVersion) <|
    printError .errorHeaderBadVersion 3 [.text "header version should be 1, ",
      .unsigned header.version.toNat, .text " found instead"]
  (if flvHeaderHasAudio header = 0 ∧ flvHeaderHasVideo header = 0 then
    printError .errorHeaderNoStreams 4
      [.text "header signals the file does not contain video tags or audio tags"]
  else if flvHeaderHasAudio header = 0 then
    printInfo .infoHeaderNoAudio 4 [.text "header signals the file does not contain audio tags"]
  else
    onlyIf (flvHeaderHasVideo header = 0) <|
      printWarning .warningHeaderNoVideo 4
        [.text "header signals the file does not contain video tags"])
  onlyIf (header.flags &&& 0xFA ≠ 0) <|
    printError .errorHeaderBadReservedFlags 4 [.text "header reserved flags are not zero"]
  onlyIf (flvHeaderGetOffset header ≠ 9) <|
    printError .errorHeaderBadOffset 5 [.text "header offset should be 9, ",
      .unsigned (flvHeaderGetOffset header), .text " found instead"]

/-- The first previous tag size, and whether the file ends behind it. -/
def checkFirstPrevTagSize (filesize : Nat) (stream : FlvStream) : CheckM N FlvStream :=
  match flvReadPrevTagSize stream with
  | (.error _, _) =>
    fatalEnd .fatalPrevTagSizeEof 9 [.text "unexpected end of file in previous tag size"]
  | (.ok prevTagSize, stream) => do
    onlyIf (prevTagSize ≠ 0) <|
      printError .errorPrevTagSizeBadFirst 9 [.text "first previous tag size should be 0, ",
        .unsigned prevTagSize, .text " found instead"]
    (if flvGetOffset stream = filesize then
      fatalEnd .fatalGeneralNoTag 13 [.text "file does not contain tags"]
    else pure stream)

/-! ## The header of a tag -/

/-- A byte printed as a `signed char`. -/
def signedChar (b : UInt8) : Int := if b.toNat < 2 ^ 7 then b.toNat else (b.toNat : Int) - 2 ^ 8

def checkTagType (offset : Nat) (tag : FlvTag) (st : CheckLocals N) : CheckM N (CheckLocals N) :=
  if ¬ tag.Known then do
    printError .errorTagTypeUnknown offset
      [.text "unknown tag type ", .signed (signedChar tag.type)]
    (if 2 ≤ st.consecutiveUnknownTags + 1 then
      fatalEnd .fatalConsecutiveUnknownTags offset
        [.text "consecutive tags with unknown type found, aborting"]
    else pure { st with consecutiveUnknownTags := st.consecutiveUnknownTags + 1 })
  else pure { st with consecutiveUnknownTags := 0 }

/-- The consistency with the header of the file. -/
def checkUnexpected (header : FlvHeader) (offset : Nat) (tag : FlvTag) (st : CheckLocals N) :
    CheckM N (CheckLocals N) := do
  onlyIf (¬ st.haveVideo ∧ tag.type = flvTagTypeVideo ∧ flvHeaderHasVideo header = 0) <|
    printWarning .warningHeaderUnexpectedVideo offset
      [.text "video tag found despite header signaling the file contains no video"]
  onlyIf (¬ st.haveAudio ∧ tag.type = flvTagTypeAudio ∧ flvHeaderHasAudio header = 0) <|
    printWarning .warningHeaderUnexpectedAudio offset
      [.text "audio tag found despite header signaling the file contains no audio"]
  pure { st with
    haveVideo := st.haveVideo || decide (tag.type = flvTagTypeVideo)
    haveAudio := st.haveAudio || decide (tag.type = flvTagTypeAudio) }

def maxAcceptableTagBodyLength : Nat := 1000000

def checkBodyLength (filesize offset bodyLength : Nat) (stream : FlvStream) : CheckM N Unit :=
  if (filesize : Int) - flvGetOffset stream < bodyLength then
    fatalEnd .fatalTagBodyLengthOverflow (offset + 1) [.text "tag body length (",
      .unsigned bodyLength, .text " bytes) exceeds file size"]
  else if maxAcceptableTagBodyLength < bodyLength then
    printWarning .warningTagBodyLengthLarge (offset + 1) [.text "tag body length (",
      .unsigned bodyLength, .text " bytes) is abnormally large"]
  else
    onlyIf (bodyLength = 0) <|
      printWarning .warningTagBodyLengthZero (offset + 1) [.text "tag body length is zero"]

/-! ## Timestamps -/

/-- The timestamps of one stream must not decrease. -/
def checkDecrease (code : CheckCode) (stream : String) (type : UInt8) (offset timestamp last : Nat)
    (tag : FlvTag) : CheckM N Unit :=
  onlyIf (tag.type = type ∧ timestamp < last) <|
    printError code (offset + 4) [.text stream, .text " tag timestamps are decreasing from ",
      .unsigned last, .text " to ", .unsigned timestamp]

def checkTimestamp (offset timestamp : Nat) (tag : FlvTag) (st : CheckLocals N) :
    CheckM N (CheckLocals N) := do
  onlyIf (st.tagNumber = 1 ∧ timestamp ≠ 0) <|
    printError .errorTimestampFirstNonZero (offset + 4) [.text "first timestamp should be zero, ",
      .unsigned timestamp, .text " found instead"]
  checkDecrease .errorTimestampAudioDecrease "audio" flvTagTypeAudio offset timestamp
    st.lastAudioTimestamp tag
  checkDecrease .errorTimestampVideoDecrease "video" flvTagTypeVideo offset timestamp
    st.lastVideoTimestamp tag
  -- a decrease within the audio or the video is not reported again
  (if timestamp < st.lastTimestamp ∧ 0xF00000 < st.lastTimestamp - timestamp then
    printError .errorTimestampOverflow (offset + 4)
      [.text "extended bits not used after timestamp overflow"]
  else
    onlyIf (tag.type ≠ flvTagTypeAudio ∧ tag.type ≠ flvTagTypeVideo ∧
        timestamp < st.lastTimestamp ∧ 1000 ≤ st.lastTimestamp - timestamp) <|
      printError .errorTimestampDecrease (offset + 4) [.text "timestamps are decreasing from ",
        .unsigned st.lastTimestamp, .text " to ", .unsigned timestamp])
  pure { st with
    lastAudioTimestamp := if tag.type = flvTagTypeAudio then timestamp else st.lastAudioTimestamp
    lastVideoTimestamp := if tag.type = flvTagTypeVideo then timestamp else st.lastVideoTimestamp
    lastTimestamp := timestamp }

def timestampDistance (t₁ t₂ : Nat) : Nat := if t₂ < t₁ then t₁ - t₂ else t₂ - t₁

/-- Audio and video are a second or more apart, which has not been reported. -/
def CheckLocals.Desync (st : CheckLocals N) : Prop :=
  st.haveVideo ∧ st.haveAudio ∧ ¬ st.haveDesync ∧
    1000 ≤ timestampDistance st.lastVideoTimestamp st.lastAudioTimestamp

instance (st : CheckLocals N) : Decidable st.Desync := inferInstanceAs (Decidable (_ ∧ _ ∧ _ ∧ _))

def checkDesync (offset : Nat) (st : CheckLocals N) : CheckM N (CheckLocals N) := do
  onlyIf st.Desync <|
    printWarning .warningTimestampDesync (offset + 4)
      [.text "audio and video streams are desynchronized by ",
        .signed (sint32 (timestampDistance st.lastVideoTimestamp st.lastAudioTimestamp)),
        .text " ms"]
  pure { st with haveDesync := st.haveDesync || decide st.Desync }

def flvTagGetStreamId (tag : FlvTag) : Nat := uint24BeToUint32 tag.streamId

def checkStreamId (offset : Nat) (tag : FlvTag) : CheckM N Unit :=
  onlyIf (flvTagGetStreamId tag ≠ 0) <|
    printError .errorTagStreamIdNonZero (offset + 8) [.text "tag stream id must be zero, ",
      .unsigned (flvTagGetStreamId tag), .text " found instead"]

/-! ## Audio tags -/

def flvAudioTagSoundRate44 : UInt8 := 3
def flvAudioTagSoundTypeMono : UInt8 := 0
def flvAudioTagSoundTypeStereo : UInt8 := 1
def flvAudioTagSoundFormatLinearPcm : UInt8 := 0
def flvAudioTagSoundFormatNellymoser16Mono : UInt8 := 4
def flvAudioTagSoundFormatNellymoser8Mono : UInt8 := 5
def flvAudioTagSoundFormatNellymoser : UInt8 := 6
def flvAudioTagSoundFormatG711A : UInt8 := 7
def flvAudioTagSoundFormatG711Mu : UInt8 := 8
def flvAudioTagSoundFormatReserved : UInt8 := 9
def flvAudioTagSoundFormatMp38 : UInt8 := 14
def flvAudioTagSoundFormatDeviceSpecific : UInt8 := 15

def checkAudioFormat (offset : Nat) (audioTag : UInt8) : CheckM N Unit :=
  let audioFormat := flvAudioTagSoundFormat audioTag
  if audioFormat = 12 ∨ audioFormat = 13 then
    printWarning .warningAudioCodecUnknown (offset + 11)
      [.text "unknown audio format ", .unsigned audioFormat.toNat]
  else
    onlyIf (audioFormat = flvAudioTagSoundFormatG711A ∨
        audioFormat = flvAudioTagSoundFormatG711Mu ∨
        audioFormat = flvAudioTagSoundFormatReserved ∨
        audioFormat = flvAudioTagSoundFormatMp38 ∨
        audioFormat = flvAudioTagSoundFormatDeviceSpecific) <|
      printWarning .warningAudioCodecReserved (offset + 11) [.text "audio format ",
        .unsigned audioFormat.toNat, .text " is reserved for internal use"]

/-- Combinations of the fields of an audio tag that do not go together. -/
def checkAudioConsistency (offset : Nat) (audioTag : UInt8) : CheckM N Unit := do
  let audioFormat := flvAudioTagSoundFormat audioTag
  onlyIf (flvAudioTagSoundRate audioTag ≠ flvAudioTagSoundRate44 ∧
      audioFormat = flvAudioTagSoundFormatAac) <|
    printWarning .warningAudioCodecAacBad (offset + 11)
      [.text "audio data in AAC format should have a 44KHz rate, field will be ignored"]
  (if flvAudioTagSoundType audioTag = flvAudioTagSoundTypeStereo ∧
      (audioFormat = flvAudioTagSoundFormatNellymoser ∨
        audioFormat = flvAudioTagSoundFormatNellymoser16Mono ∨
        audioFormat = flvAudioTagSoundFormatNellymoser8Mono) then
    printWarning .warningAudioCodecNellymoserBad (offset + 11)
      [.text "audio data in Nellymoser format cannot be stereo, field will be ignored"]
  else if flvAudioTagSoundType audioTag = flvAudioTagSoundTypeMono ∧
      audioFormat = flvAudioTagSoundFormatAac then
    printWarning .warningAudioCodecAacMono (offset + 11)
      [.text "audio data in AAC format should be stereo, field will be ignored"]
  else
    onlyIf (audioFormat = flvAudioTagSoundFormatLinearPcm) <|
      printWarning .warningAudioCodecLinearPcm (offset + 11)
        [.text "audio data in Linear PCM, platform endian format should not be used ",
          .text "because of non-portability"])

/-- The only failure on a body that is not empty is the end of the file. -/
def checkAudioTag (offset : Nat) (st : CheckLocals N) (stream : FlvStream) :
    CheckM N (CheckLocals N × FlvStream) :=
  match flvReadAudioTag stream with
  | (.error _, _) => fatalEnd .fatalTagEof (offset + 11) [.text "unexpected end of file in tag"]
  | (.ok audioTag, stream) => do
    onlyIf (st.havePrevAudioTag ∧ st.prevAudioTag ≠ audioTag) <|
      printWarning .warningAudioFormatChanged (offset + 11)
        [.text "audio format changed since last tag"]
    checkAudioFormat offset audioTag
    checkAudioConsistency offset audioTag
    pure ({ st with prevAudioTag := audioTag, havePrevAudioTag := true }, stream)

/-! ## Video tags -/

/-- The frame types from keyframe to command frame. -/
def videoFrameTypes : List UInt8 := [1, 2, 3, 4, 5]

def flvVideoFourccAv1 : Nat := fourcc "av01"
def flvVideoFourccVp9 : Nat := fourcc "vp09"
def flvVideoFourccHevc : Nat := fourcc "hvc1"

def videoCodecs : List Nat :=
  [flvVideoTagCodecJpeg, flvVideoTagCodecSorensenH263, flvVideoTagCodecScreenVideo,
    flvVideoTagCodecOn2Vp6, flvVideoTagCodecOn2Vp6Alpha, flvVideoTagCodecScreenVideoV2,
    flvVideoTagCodecAvc, flvVideoFourccAv1, flvVideoFourccVp9, flvVideoFourccHevc]

def checkVideoFrameType (offset : Nat) (vt : FlvVideoTag) (st : CheckLocals N) :
    CheckM N Unit := do
  onlyIf (flvVideoTagFrameType vt ∉ videoFrameTypes) <|
    printError .errorVideoFrameTypeUnknown (offset + 11)
      [.text "unknown video frame type ", .unsigned (flvVideoTagFrameType vt).toNat]
  onlyIf (¬ st.havePrevVideoTag ∧ flvVideoTagFrameType vt ≠ flvVideoTagFrameTypeKeyframe) <|
    printWarning .warningVideoNoFirstKeyframe (offset + 11)
      [.text "first video frame is not a keyframe, playback will suffer"]

def checkVideoCodec (offset : Nat) (vt : FlvVideoTag) : CheckM N Unit := do
  onlyIf (flvVideoTagCodecId vt ∉ videoCodecs) <|
    printError .errorVideoCodecUnknown (offset + 11)
      [.text "unknown video codec id ", .unsigned (flvVideoTagCodecId vt)]
  onlyIf (flvVideoTagCodecId vt = flvVideoTagCodecJpeg) <|
    printWarning .warningVideoCodecJpeg (offset + 11) [.text "JPEG codec not currently used"]

/-- The only failure on a body that is not empty is the end of the file. -/
def checkVideoTag (offset : Nat) (st : CheckLocals N) (stream : FlvStream) :
    CheckM N (CheckLocals N × FlvStream) :=
  match flvReadVideoTag stream with
  | (.error _, _) => fatalEnd .fatalTagEof (offset + 11) [.text "unexpected end of file in tag"]
  | (.ok vt, stream) => do
    onlyIf (st.havePrevVideoTag ∧ flvVideoTagCodecId st.prevVideoTag ≠ flvVideoTagCodecId vt) <|
      printWarning .warningVideoFormatChanged (offset + 11)
        [.text "video format changed since last tag"]
    checkVideoFrameType offset vt st
    checkVideoCodec offset vt
    pure ({ st with
      videoFramesNumber := st.videoFramesNumber + 1
      keyframesNumber :=
        if flvVideoTagFrameType vt = flvVideoTagFrameTypeKeyframe then st.keyframesNumber + 1
        else st.keyframesNumber
      prevVideoTag := vt
      havePrevVideoTag := true }, stream)

/-! ## Script tags -/

/-- Whether the whole body has been read; the first message gives the number of bytes that have
been. -/
def checkRemaining (bodyLength : Nat) (stream : FlvStream) : CheckM N Unit :=
  if 0 < stream.currentTagBodyLength then
    printWarning .warningMetadataDataRemaining (flvGetOffset stream)
      [.unsigned (subUint32 bodyLength stream.currentTagBodyLength),
        .text " bytes not read in tag body after metadata end"]
  else
    onlyIf (0 < stream.currentTagBodyOverflow) <|
      printWarning .warningMetadataDataMissing (flvGetOffset stream)
        [.unsigned stream.currentTagBodyOverflow,
          .text " bytes missing from tag body after metadata end"]

def checkOnLastSecond (offset timestamp : Nat) (st : CheckLocals N) : CheckM N (CheckLocals N) :=
  if ¬ st.haveOnLastSecond then
    pure { st with haveOnLastSecond := true, onLastSecondTimestamp := timestamp }
  else do
    printWarning .warningMetadataLastSecondDup offset [.text "duplicate onLastSecond event"]
    pure st

def checkOnMetadata (offset timestamp : Nat) (name data : AmfData N) (st : CheckLocals N) :
    CheckM N (CheckLocals N) :=
  if ¬ st.haveOnMetadata then do
    onlyIf (amfDataGetType (amfDataClone data) ≠ AmfType.associativeArray.code) <|
      printError .errorMetadataDataInvalidType offset [.text "invalid onMetaData data type: ",
        .unsigned (amfDataGetType (amfDataClone data)).toNat,
        .text ", should be an associative array (8)"]
    onlyIf (st.tagNumber ≠ 1) <|
      printWarning .warningMetadataBadTag offset
        [.text "onMetadata event found after the first tag"]
    onlyIf (timestamp ≠ 0) <|
      printWarning .warningMetadataBadTimestamp offset
        [.text "onMetadata event found after timestamp zero"]
    pure { st with
      haveOnMetadata := true
      onMetadataOffset := offset
      onMetadata := amfDataClone data
      onMetadataName := amfDataClone name }
  else do
    printWarning .warningMetadataDuplicate offset [.text "duplicate onMetaData event"]
    pure st

/-- What is checked of a name and a value that have been read. -/
def checkEvent (offset bodyLength timestamp : Nat) (name data : AmfData N) (st : CheckLocals N)
    (stream : FlvStream) : CheckM N (CheckLocals N) := do
  onlyIf (amfStringGetSize name = 0) <|
    printWarning .warningMetadataNameEmpty offset [.text "empty metadata name"]
  checkRemaining bodyLength stream
  let st ← (if nameIs name "onLastSecond" then checkOnLastSecond offset timestamp st else pure st)
  let st ← (if nameIs name "onMetaData" then checkOnMetadata offset timestamp name data st
    else pure st)
  onlyIf (¬ nameIs name "onMetaData" ∧ ¬ nameIs name "onCuePoint" ∧
      ¬ nameIs name "onLastSecond") <|
    printInfo .infoMetadataNameUnknown (flvGetOffset stream)
      [.text "unknown metadata event name: '", .bytes (cString (amfStringGetBytes name)),
        .text "'"]
  pure st

section

variable [NumberImage N]

def checkScriptTag (offset bodyLength timestamp : Nat) (st : CheckLocals N) (stream : FlvStream) :
    CheckM N (CheckLocals N × FlvStream) :=
  match (flvReadMetadata stream : MetadataResult N × FlvStream) with
  | (result, stream) =>
    if result.status = .errorEof then
      fatalEnd .fatalTagEof (offset + 11) [.text "unexpected end of file in tag"]
    else if result.status = .errorEmptyTag then do
      printWarning .warningMetadataEmpty (offset + 11) [.text "empty metadata tag"]
      pure (st, stream)
    else if result.status = .errorInvalidMetadataName then do
      printError .errorMetadataNameInvalid (offset + 11) [.text "invalid metadata name"]
      pure (st, stream)
    else if result.status = .errorInvalidMetadata then do
      printError .errorMetadataDataInvalid (offset + 11) [.text "invalid metadata"]
      pure (st, stream)
    else if amfDataGetType result.name ≠ AmfType.string.code then do
      printError .errorMetadataNameInvalidType offset [.text "invalid metadata name type: ",
        .unsigned (amfDataGetType result.name).toNat, .text ", should be a string (2)"]
      pure (st, stream)
    else do
      let st ← checkEvent offset bodyLength timestamp result.name result.data st stream
      pure (st, stream)

/-! ## The loop -/

/-- The contents of a tag are checked if there are any. -/
def checkTagBody (offset bodyLength timestamp : Nat) (tag : FlvTag) (st : CheckLocals N)
    (stream : FlvStream) : CheckM N (CheckLocals N × FlvStream) :=
  if 0 < bodyLength then
    if tag.type = flvTagTypeAudio then checkAudioTag offset st stream
    else if tag.type = flvTagTypeVideo then checkVideoTag offset st stream
    else if tag.type = flvTagTypeMeta then checkScriptTag offset bodyLength timestamp st stream
    else pure (st, stream)
  else pure (st, stream)

omit [NumberImage N] in
def checkPrevTagSize (bodyLength : Nat) (stream : FlvStream) : CheckM N FlvStream :=
  match flvReadPrevTagSize stream with
  | (.error _, stream) =>
    fatalEnd .fatalPrevTagSizeEof (flvGetOffset stream)
      [.text "unexpected end of file in previous tag size"]
  | (.ok prevTagSize, stream) => do
    onlyIf (prevTagSize ≠ flvTagSize + bodyLength) <|
      printError .errorPrevTagSizeBad (flvGetOffset stream) [.text "previous tag size should be ",
        .unsigned (flvTagSize + bodyLength), .text ", ", .unsigned prevTagSize,
        .text " found instead"]
    pure stream

/-- The body of the loop, on a stream that has just delivered `tag`. -/
def checkTag (header : FlvHeader) (filesize : Nat) (tag : FlvTag) (st : CheckLocals N)
    (stream : FlvStream) : CheckM N (CheckLocals N × FlvStream) := do
  let offset := flvGetCurrentTagOffset stream
  let bodyLength := flvTagGetBodyLength tag
  let timestamp := flvTagGetTimestamp tag
  let st ← checkTagType offset tag { st with tagNumber := (st.tagNumber + 1) % 2 ^ 32 }
  let st ← checkUnexpected header offset tag st
  checkBodyLength filesize offset bodyLength stream
  let st ← checkTimestamp offset timestamp tag st
  let st ← checkDesync offset st
  checkStreamId offset tag
  let read ← checkTagBody offset bodyLength timestamp tag st stream
  let stream ← checkPrevTagSize bodyLength read.2
  pure (read.1, stream)

end

/-! ## Events -/

/-- What has been read of a script tag is an event of this name. -/
structure MetadataResult.IsEvent (result : MetadataResult N) (literal : String) : Prop where
  status : result.status = .ok
  type : amfDataGetType result.name = AmfType.string.code
  name : nameIs result.name literal

instance (result : MetadataResult N) (literal : String) : Decidable (result.IsEvent literal) :=
  decidable_of_iff (result.status = .ok ∧ amfDataGetType result.name = AmfType.string.code ∧
    nameIs result.name literal) ⟨fun h => ⟨h.1, h.2.1, h.2.2⟩, fun h => ⟨h.1, h.2, h.3⟩⟩

/-- The tag at `p` is an event of this name. -/
def EventNamed (N : Type) [NumberImage N] (content : Bytes) (literal : String) (p : Nat) : Prop :=
  0 < flvTagGetBodyLength (flvTagOfBytes (content.drop p)) ∧
    (flvTagOfBytes (content.drop p)).type = flvTagTypeMeta ∧
    (flvReadMetadata (tagStream content p) : MetadataResult N × FlvStream).1.IsEvent literal

instance (N : Type) [NumberImage N] (content : Bytes) (literal : String) (p : Nat) :
    Decidable (EventNamed N content literal p) := inferInstanceAs (Decidable (_ ∧ _ ∧ _))

/-- What the check has found of the two events. -/
def CheckLocals.found (st : CheckLocals N) : EventsFound where
  onMetadata := if st.haveOnMetadata then some st.onMetadataOffset else none
  onLastSecond := st.haveOnLastSecond

/-- The events that a check finds among the tags at some offsets, behind others. -/
def seeEvents (N : Type) [NumberImage N] (content : Bytes) (found : EventsFound)
    (offsets : List Nat) : EventsFound :=
  seeAll (fun literal p => decide (EventNamed N content literal p)) found offsets

/-- The data of the script tag at `p`, as it is kept. -/
def keptData (N : Type) [NumberImage N] (content : Bytes) (p : Nat) : AmfData N :=
  amfDataClone (flvReadMetadata (tagStream content p) : MetadataResult N × FlvStream).1.data

/-- The first `onMetaData` event among tags. -/
def firstOnMetadata (N : Type) [NumberImage N] (content : Bytes) (offsets : List Nat) :
    Option Nat :=
  offsets.find? fun p => decide (EventNamed N content "onMetaData" p)

/-- The data of the first `onMetaData` event is kept. -/
def CheckLocals.KeepsData [NumberImage N] (content : Bytes) (st : CheckLocals N) : Prop :=
  ∀ q, st.found.onMetadata = some q → st.onMetadata = keptData N content q

/-- One more tag has been seen, with these names and this data. -/
structure CheckLocals.Sees (st : CheckLocals N) (offset : Nat) (hasName : String → Bool)
    (data : AmfData N) (st' : CheckLocals N) : Prop where
  found : st'.found = st.found.see offset hasName
  onMetadata : st'.onMetadata = if st.found.onMetadata = none ∧ hasName "onMetaData" = true then
    amfDataClone data else st.onMetadata

/-- The tag at `p` has been seen. -/
def CheckLocals.SeesTag [NumberImage N] (content : Bytes) (p : Nat) (st st' : CheckLocals N) :
    Prop :=
  st.Sees p (fun literal => decide (EventNamed N content literal p))
    (flvReadMetadata (tagStream content p) : MetadataResult N × FlvStream).1.data st'

/-- What has been found of the events is as before, and what is kept of them. -/
structure CheckLocals.SameEvents (st st' : CheckLocals N) : Prop where
  found : st'.found = st.found
  onMetadata : st'.onMetadata = st.onMetadata

theorem CheckLocals.SameEvents.trans {st st' st'' : CheckLocals N} (h : st.SameEvents st')
    (h' : st'.SameEvents st'') : st.SameEvents st'' :=
  ⟨h'.found.trans h.found, h'.onMetadata.trans h.onMetadata⟩

/-- A tag that is no event is seen under no name. -/
theorem CheckLocals.SameEvents.sees {st st' : CheckLocals N} (h : st.SameEvents st') (offset : Nat)
    {hasName : String → Bool} (data : AmfData N) (hno : ∀ literal, hasName literal = false) :
    st.Sees offset hasName data st' where
  found := h.found.trans (EventsFound.see_nothing _ offset hno).symm
  onMetadata := by rw [h.onMetadata, if_neg (by simp [hno])]

theorem CheckLocals.Sees.of_same {st st' st'' : CheckLocals N} {offset : Nat}
    {hasName : String → Bool} {data : AmfData N} (h : st.SameEvents st')
    (hsees : st'.Sees offset hasName data st'') : st.Sees offset hasName data st'' where
  found := by rw [hsees.found, h.found]
  onMetadata := by rw [hsees.onMetadata, h.found, h.onMetadata]

/-- The data that is kept goes with the event that is recorded. -/
theorem CheckLocals.SeesTag.keepsData [NumberImage N] {content : Bytes} {p : Nat}
    {st st' : CheckLocals N} (h : st.SeesTag content p st') (hkeeps : st.KeepsData content) :
    st'.KeepsData content := by
  intro q hq
  rw [h.found] at hq
  rw [h.onMetadata]
  by_cases hfirst : st.found.onMetadata = none ∧ decide (EventNamed N content "onMetaData" p) = true
  · rw [EventsFound.see_first hfirst.1 hfirst.2] at hq
    rw [if_pos hfirst, ← Option.some.inj hq]
    rfl
  · rw [EventsFound.see, if_neg hfirst] at hq
    rw [if_neg hfirst]
    exact hkeeps q hq

/-! ## What a turn says -/

section

variable {offset bodyLength timestamp filesize : Nat} {header : FlvHeader} {tag : FlvTag}
  {st : CheckLocals N} {stream : FlvStream}

theorem speaks_checkHeader (header : FlvHeader) :
    Speaks (checkHeader header : CheckM N Unit) fun _ => True := by
  refine .bind (.onlyIf (.printError ..)) fun _ _ => ?_
  refine .bind (.ite (fun _ => .printError ..) fun _ => .ite (fun _ => .printInfo ..) fun _ =>
    .onlyIf (.printWarning ..)) fun _ _ => ?_
  exact .bind (.onlyIf (.printError ..)) fun _ _ => .onlyIf (.printError ..)

theorem speaks_checkTagType (offset : Nat) (tag : FlvTag) (st : CheckLocals N) :
    Speaks (checkTagType offset tag st) st.SameEvents :=
  .ite (fun _ => .bind (.printError ..) fun _ _ => .ite (fun _ => .fatalEnd ..) fun _ =>
    .pure ⟨rfl, rfl⟩) fun _ => .pure ⟨rfl, rfl⟩

theorem speaks_checkUnexpected (header : FlvHeader) (offset : Nat) (tag : FlvTag)
    (st : CheckLocals N) : Speaks (checkUnexpected header offset tag st) st.SameEvents :=
  .bind (.onlyIf (.printWarning ..)) fun _ _ =>
    .bind (.onlyIf (.printWarning ..)) fun _ _ => .pure ⟨rfl, rfl⟩

theorem speaks_checkBodyLength (filesize offset bodyLength : Nat) (stream : FlvStream) :
    Speaks (checkBodyLength filesize offset bodyLength stream : CheckM N Unit) fun _ => True :=
  .ite (fun _ => .fatalEnd ..) fun _ => .ite (fun _ => .printWarning ..) fun _ =>
    .onlyIf (.printWarning ..)

theorem speaks_checkTimestamp (offset timestamp : Nat) (tag : FlvTag) (st : CheckLocals N) :
    Speaks (checkTimestamp offset timestamp tag st) st.SameEvents := by
  refine .bind (.onlyIf (.printError ..)) fun _ _ => ?_
  refine .bind (.onlyIf (.printError ..)) fun _ _ => .bind (.onlyIf (.printError ..)) fun _ _ => ?_
  exact .bind (.ite (fun _ => .printError ..) fun _ => .onlyIf (.printError ..)) fun _ _ =>
    .pure ⟨rfl, rfl⟩

theorem speaks_checkDesync (offset : Nat) (st : CheckLocals N) :
    Speaks (checkDesync offset st) st.SameEvents :=
  .bind (.onlyIf (.printWarning ..)) fun _ _ => .pure ⟨rfl, rfl⟩

theorem speaks_checkAudioFormat (offset : Nat) (audioTag : UInt8) :
    Speaks (checkAudioFormat offset audioTag : CheckM N Unit) fun _ => True :=
  .ite (fun _ => .printWarning ..) fun _ => .onlyIf (.printWarning ..)

theorem speaks_checkAudioConsistency (offset : Nat) (audioTag : UInt8) :
    Speaks (checkAudioConsistency offset audioTag : CheckM N Unit) fun _ => True :=
  .bind (.onlyIf (.printWarning ..)) fun _ _ => .ite (fun _ => .printWarning ..) fun _ =>
    .ite (fun _ => .printWarning ..) fun _ => .onlyIf (.printWarning ..)

theorem speaks_checkVideoFrameType (offset : Nat) (vt : FlvVideoTag) (st : CheckLocals N) :
    Speaks (checkVideoFrameType offset vt st) fun _ => True :=
  .bind (.onlyIf (.printError ..)) fun _ _ => .onlyIf (.printWarning ..)

theorem speaks_checkVideoCodec (offset : Nat) (vt : FlvVideoTag) :
    Speaks (checkVideoCodec offset vt : CheckM N Unit) fun _ => True :=
  .bind (.onlyIf (.printError ..)) fun _ _ => .onlyIf (.printWarning ..)

theorem speaks_checkOnLastSecond (offset timestamp : Nat) (st : CheckLocals N) :
    Speaks (checkOnLastSecond offset timestamp st) fun st' =>
      st'.found = { st.found with onLastSecond := true } ∧ st'.onMetadata = st.onMetadata := by
  refine .ite (fun _ => .pure ⟨rfl, rfl⟩) fun hhave =>
    .bind (.printWarning ..) fun _ _ => .pure ⟨?_, rfl⟩
  simp [CheckLocals.found, Decidable.not_not.mp hhave]

theorem speaks_checkOnMetadata (offset timestamp : Nat) (name data : AmfData N)
    (st : CheckLocals N) :
    Speaks (checkOnMetadata offset timestamp name data st) fun st' =>
      st'.found = { st.found with onMetadata := st.found.onMetadata.or (some offset) } ∧
      st'.onMetadata =
        if st.found.onMetadata = none then amfDataClone data else st.onMetadata := by
  refine .ite (fun hno => ?_) fun hhave => ?_
  · refine .bind (.onlyIf (.printError ..)) fun _ _ => .bind (.onlyIf (.printWarning ..)) fun _ _ =>
      .bind (.onlyIf (.printWarning ..)) fun _ _ => .pure ⟨?_, ?_⟩
    · simp [CheckLocals.found, hno]
    · simp [CheckLocals.found, hno]
  · refine .bind (.printWarning ..) fun _ _ => .pure ⟨?_, ?_⟩
    · simp [CheckLocals.found, Decidable.not_not.mp hhave]
    · simp [CheckLocals.found, Decidable.not_not.mp hhave]

theorem nameIs_exclusive {name : AmfData N} (h : nameIs name "onMetaData" = true) :
    nameIs name "onLastSecond" = false := by
  rw [nameIs, beq_iff_eq.mp h]
  decide

/-- Both comparisons together see the event under the names that it has. -/
theorem see_of_nameIs (found : EventsFound) (offset : Nat) (name : AmfData N) :
    found.see offset (nameIs name) =
      ⟨if nameIs name "onMetaData" then found.onMetadata.or (some offset) else found.onMetadata,
        if nameIs name "onLastSecond" then true else found.onLastSecond⟩ := by
  obtain ⟨onMetadata, onLastSecond⟩ := found
  cases hmeta : nameIs name "onMetaData" with
  | true =>
    have hlast := nameIs_exclusive hmeta
    cases onMetadata with
    | none => simp [EventsFound.see, hmeta, hlast]
    | some q => simp [EventsFound.see, hlast]
  | false =>
    rw [EventsFound.see_other fun _ => hmeta]
    cases nameIs name "onLastSecond" with
    | true => simp
    | false => simp

theorem speaks_checkEvent (offset bodyLength timestamp : Nat) (name data : AmfData N)
    (st : CheckLocals N) (stream : FlvStream) :
    Speaks (checkEvent offset bodyLength timestamp name data st stream)
      (st.Sees offset (nameIs name) data) := by
  refine .bind (.onlyIf (.printWarning ..)) fun _ _ => ?_
  refine .bind (.ite (fun _ => .printWarning ..) fun _ => .onlyIf (.printWarning ..)) fun _ _ => ?_
  refine .bind (Q := fun st' : CheckLocals N => st'.found = ⟨st.found.onMetadata,
      if nameIs name "onLastSecond" then true else st.found.onLastSecond⟩ ∧
        st'.onMetadata = st.onMetadata)
    (.ite (fun hname => ?_) fun hname => .pure ⟨?_, rfl⟩) fun st₁ hlast => ?_
  · rw [if_pos hname]
    exact speaks_checkOnLastSecond ..
  · rw [if_neg hname]
  obtain ⟨hfound, hsame⟩ := hlast
  have hfirst : st₁.found.onMetadata = st.found.onMetadata := by rw [hfound]
  refine .bind (Q := fun st' : CheckLocals N => st'.found =
      ⟨if nameIs name "onMetaData" then st₁.found.onMetadata.or (some offset)
        else st₁.found.onMetadata, st₁.found.onLastSecond⟩ ∧
      st'.onMetadata = if st₁.found.onMetadata = none ∧ nameIs name "onMetaData" = true then
        amfDataClone data else st₁.onMetadata)
    (.ite (fun hname => ?_) fun hname => .pure ⟨?_, ?_⟩) fun st₂ hevent =>
      .bind (.onlyIf (.printInfo ..)) fun _ _ => .pure ⟨?_, ?_⟩
  · simp only [hname, if_true, and_true]
    exact speaks_checkOnMetadata ..
  · rw [if_neg hname]
  · rw [if_neg fun h => hname h.2]
  · rw [see_of_nameIs, hevent.1, hfound]
  · rw [hevent.2, hfirst, hsame]

theorem speaks_checkAudioTag (offset : Nat) (st : CheckLocals N) (stream : FlvStream) :
    Speaks (checkAudioTag offset st stream)
      fun r => st.SameEvents r.1 ∧ r.2 = (flvReadAudioTag stream).2 := by
  unfold checkAudioTag
  generalize flvReadAudioTag stream = r
  obtain ⟨result, stream'⟩ := r
  cases result with
  | error status => exact .fatalEnd ..
  | ok audioTag =>
    exact .bind (.onlyIf (.printWarning ..)) fun _ _ => .bind (speaks_checkAudioFormat ..)
      fun _ _ => .bind (speaks_checkAudioConsistency ..) fun _ _ => .pure ⟨⟨rfl, rfl⟩, rfl⟩

theorem speaks_checkVideoTag (offset : Nat) (st : CheckLocals N) (stream : FlvStream) :
    Speaks (checkVideoTag offset st stream)
      fun r => st.SameEvents r.1 ∧ r.2 = (flvReadVideoTag stream).2 := by
  unfold checkVideoTag
  generalize flvReadVideoTag stream = r
  obtain ⟨result, stream'⟩ := r
  cases result with
  | error status => exact .fatalEnd ..
  | ok vt =>
    exact .bind (.onlyIf (.printWarning ..)) fun _ _ => .bind (speaks_checkVideoFrameType ..)
      fun _ _ => .bind (speaks_checkVideoCodec ..) fun _ _ => .pure ⟨⟨rfl, rfl⟩, rfl⟩

theorem speaks_checkPrevTagSize (bodyLength : Nat) (stream : FlvStream) :
    Speaks (checkPrevTagSize bodyLength stream : CheckM N FlvStream)
      fun stream' => stream' = (flvReadPrevTagSize stream).2 := by
  unfold checkPrevTagSize
  generalize flvReadPrevTagSize stream = r
  obtain ⟨result, stream'⟩ := r
  cases result with
  | error status => exact .fatalEnd ..
  | ok prevTagSize => exact .bind (.onlyIf (.printError ..)) fun _ _ => .pure rfl

variable [NumberImage N]

/-- The statuses that the check distinguishes are all there are. -/
theorem status_flvReadMetadata (stream : FlvStream) :
    (flvReadMetadata stream : MetadataResult N × FlvStream).1.status ∈
      [FlvStatus.errorEof, .errorEmptyTag, .errorInvalidMetadataName, .errorInvalidMetadata,
        .ok] := by
  by_cases hbody : NoBody stream
  · rw [flvReadMetadata, if_pos hbody]
    simp
  · by_cases hlen : stream.currentTagBodyLength = 0
    · rw [flvReadMetadata, if_neg hbody, if_pos hlen]
      simp
    · have hrun := metadataRun (N := N) hbody hlen
      generalize (flvReadMetadata stream : MetadataResult N × FlvStream).1 = result at hrun ⊢
      generalize (flvReadMetadata stream : MetadataResult N × FlvStream).2 = stream' at hrun
      cases hrun <;> simp only [List.mem_cons, true_or, or_true]

theorem speaks_checkScriptTag (offset bodyLength timestamp : Nat) (st : CheckLocals N)
    (stream : FlvStream) :
    letI result := (flvReadMetadata stream : MetadataResult N × FlvStream)
    Speaks (checkScriptTag offset bodyLength timestamp st stream) fun r =>
      st.Sees offset (fun literal => decide (result.1.IsEvent literal)) result.1.data r.1 ∧
      r.2 = result.2 := by
  have hstatus := status_flvReadMetadata (N := N) stream
  unfold checkScriptTag
  generalize (flvReadMetadata stream : MetadataResult N × FlvStream) = r at hstatus ⊢
  obtain ⟨result, stream'⟩ := r
  have hsame : (∀ literal, ¬ result.IsEvent literal) →
      st.Sees offset (fun literal => decide (result.IsEvent literal)) result.data st ∧
        stream' = stream' := fun h =>
    ⟨CheckLocals.SameEvents.sees ⟨rfl, rfl⟩ offset result.data fun literal =>
      decide_eq_false (h literal), rfl⟩
  refine .ite (fun _ => .fatalEnd ..) fun heof => ?_
  refine .ite (fun h => .bind (.printWarning ..) fun _ _ =>
    .pure (hsame fun literal hevent => ?_)) fun hempty => ?_
  · cases h.symm.trans hevent.status
  refine .ite (fun h => .bind (.printError ..) fun _ _ =>
    .pure (hsame fun literal hevent => ?_)) fun hname => ?_
  · cases h.symm.trans hevent.status
  refine .ite (fun h => .bind (.printError ..) fun _ _ =>
    .pure (hsame fun literal hevent => ?_)) fun hdata => ?_
  · cases h.symm.trans hevent.status
  refine .ite (fun h => .bind (.printError ..) fun _ _ =>
    .pure (hsame fun literal hevent => h hevent.type)) fun htype => ?_
  have hok : result.status = .ok := by simpa [heof, hempty, hname, hdata] using hstatus
  have hnames : (fun literal => decide (result.IsEvent literal)) = nameIs result.name := by
    funext literal
    have hiff : result.IsEvent literal ↔ nameIs result.name literal = true :=
      ⟨fun h => h.name, fun h => ⟨hok, Decidable.not_not.mp htype, h⟩⟩
    exact Bool.eq_iff_iff.mpr (decide_eq_true_iff.trans hiff)
  rw [hnames]
  exact .bind (speaks_checkEvent ..) fun st' hevent => .pure ⟨hevent, rfl⟩

/-! ## Progress -/

/-- The stream when the contents of a tag have been read. -/
def bodyRead (N : Type) [NumberImage N] (tag : FlvTag) (stream : FlvStream) : FlvStream :=
  if 0 < flvTagGetBodyLength tag then
    if tag.type = flvTagTypeAudio then (flvReadAudioTag stream).2
    else if tag.type = flvTagTypeVideo then (flvReadVideoTag stream).2
    else if tag.type = flvTagTypeMeta then
      (flvReadMetadata stream : MetadataResult N × FlvStream).2
    else stream
  else stream

/-- The stream when the tag at `p` and the previous tag size behind it have been read. -/
def tagRead (N : Type) [NumberImage N] (content : Bytes) (p : Nat) : FlvStream :=
  (flvReadPrevTagSize (bodyRead N (flvTagOfBytes (content.drop p)) (tagStream content p))).2

theorem speaks_checkTagBody (content : Bytes) (p timestamp : Nat) (st : CheckLocals N) :
    Speaks (checkTagBody p (flvTagGetBodyLength (flvTagOfBytes (content.drop p))) timestamp
        (flvTagOfBytes (content.drop p)) st (tagStream content p)) fun r =>
      st.SeesTag content p r.1 ∧
      r.2 = bodyRead N (flvTagOfBytes (content.drop p)) (tagStream content p) := by
  have hsame : ∀ st' : CheckLocals N, st.SameEvents st' →
      (∀ literal, ¬ EventNamed N content literal p) → st.SeesTag content p st' := fun st' h hno =>
    h.sees p _ fun literal => decide_eq_false (hno literal)
  unfold bodyRead
  refine .ite (fun hne => ?_) fun hzero =>
    .pure ⟨hsame st ⟨rfl, rfl⟩ fun _ hevent => hzero hevent.1, ?_⟩
  swap
  · rw [if_neg hzero]
  rw [if_pos hne]
  refine .ite (fun haudio => ?_) fun haudio => ?_
  · refine (speaks_checkAudioTag p st (tagStream content p)).weaken fun r hr => ⟨?_, ?_⟩
    · exact hsame r.1 hr.1 fun _ hevent => by cases haudio.symm.trans hevent.2.1
    · rw [if_pos haudio, hr.2]
  rw [if_neg haudio]
  refine .ite (fun hvideo => ?_) fun hvideo => ?_
  · refine (speaks_checkVideoTag p st (tagStream content p)).weaken fun r hr => ⟨?_, ?_⟩
    · exact hsame r.1 hr.1 fun _ hevent => by cases hvideo.symm.trans hevent.2.1
    · rw [if_pos hvideo, hr.2]
  rw [if_neg hvideo]
  refine .ite (fun hmeta => ?_) fun hmeta =>
    .pure ⟨hsame st ⟨rfl, rfl⟩ fun _ hevent => hmeta hevent.2.1, ?_⟩
  swap
  · rw [if_neg hmeta]
  rw [if_pos hmeta]
  refine (speaks_checkScriptTag p _ timestamp st (tagStream content p)).weaken fun r hr =>
    ⟨?_, hr.2⟩
  have hnames : (fun literal => decide (EventNamed N content literal p)) = fun literal =>
      decide ((flvReadMetadata (tagStream content p) :
        MetadataResult N × FlvStream).1.IsEvent literal) := by
    funext literal
    exact decide_eq_decide.mpr ⟨fun h => h.2.2, fun h => ⟨hne, hmeta, h⟩⟩
  rw [CheckLocals.SeesTag, hnames]
  exact hr.1

/-- What a turn finds, and where it leaves the stream. -/
theorem speaks_checkTag (header : FlvHeader) (filesize : Nat) (content : Bytes) (p : Nat)
    (st : CheckLocals N) :
    Speaks (checkTag header filesize (flvTagOfBytes (content.drop p)) st (tagStream content p))
      fun r => st.SeesTag content p r.1 ∧ r.2 = tagRead N content p := by
  refine .bind (speaks_checkTagType ..) fun st₁ h₁ => ?_
  refine .bind (speaks_checkUnexpected ..) fun st₂ h₂ => ?_
  refine .bind (speaks_checkBodyLength ..) fun _ _ => ?_
  refine .bind (speaks_checkTimestamp ..) fun st₃ h₃ => ?_
  refine .bind (speaks_checkDesync ..) fun st₄ h₄ => .bind (.onlyIf (.printError ..)) fun _ _ => ?_
  refine .bind (speaks_checkTagBody ..) fun r hr => ?_
  have hnumbered : st.SameEvents { st with tagNumber := (st.tagNumber + 1) % 2 ^ 32 } := ⟨rfl, rfl⟩
  have hsame : st.SameEvents st₄ := hnumbered.trans (h₁.trans (h₂.trans (h₃.trans h₄)))
  refine .bind (speaks_checkPrevTagSize _ r.2) fun stream hstream => .pure ⟨.of_same hsame hr.1, ?_⟩
  rw [hstream, hr.2]
  rfl

/-- Whatever the tag is, the stream is then behind its start. -/
theorem after_tagRead (content : Bytes) (p : Nat) : After content p (tagRead N content p) := by
  have hafter := after_tagStream content p
  have htracks := tracks_tagStream content p
  refine After.flvReadPrevTagSize ?_
  unfold bodyRead
  split
  · split
    · exact hafter.flvReadAudioTag htracks
    · split
      · exact hafter.flvReadVideoTag htracks
      · split
        · exact hafter.flvReadMetadata htracks
        · exact hafter
  · exact hafter

/-- Behind a plain tag it is where the next tag starts. -/
theorem tracks_tagRead {content : Bytes} {p : Nat}
    (hplain : PlainTag content p (flvTagOfBytes (content.drop p))) :
    Tracks content (some (p, flvTagOfBytes (content.drop p))) (tagRead N content p) := by
  have htracks := tracks_tagStream content p
  refine Tracks.flvReadPrevTagSize ?_
  unfold bodyRead
  split
  · rename_i hne
    split
    · exact htracks.flvReadAudioTag
    · split
      · exact htracks.flvReadVideoTag
      · split
        · rename_i hmeta
          obtain ⟨name, data, stream, hread, -, hstream⟩ := flvReadMetadata_scriptBody (N := N) rfl
            hplain.complete (hplain.script hmeta (Nat.pos_iff_ne_zero.mp hne))
          rw [hread]
          exact hstream
        · exact htracks
  · exact htracks

/-! ## The loop -/

/-- A turn of the loop, with the report among the variables. -/
def checkTurn (opts : CheckOpts) (header : FlvHeader) (filesize : Nat) (tag : FlvTag)
    (st : CheckLocals N × Report N) (stream : FlvStream) :
    Loop.Turn (CheckLocals N × Report N) (Report N) × FlvStream :=
  match ((checkTag header filesize tag st.1 stream).run opts).run.run st.2 with
  | (none, report) => (.stop report, stream)
  | (some (locals, stream), report) => (.next (locals, report), stream)

/-- A turn is the same with any options, but for the report. -/
theorem checkTurn_cases (header : FlvHeader) (filesize : Nat) (content : Bytes) (p : Nat)
    (st : CheckLocals N) :
    (∃ messages, messages.countP (·.level = .fatal) = 1 ∧ ∀ opts report,
      checkTurn opts header filesize (flvTagOfBytes (content.drop p)) (st, report)
        (tagStream content p) = (.stop (report.sayAll opts messages), tagStream content p)) ∨
    ∃ st' stream' messages,
      st.SeesTag content p st' ∧
      stream' = tagRead N content p ∧ messages.countP (·.level = .fatal) = 0 ∧ ∀ opts report,
        checkTurn opts header filesize (flvTagOfBytes (content.drop p)) (st, report)
          (tagStream content p) = (.next (st', report.sayAll opts messages), stream') := by
  obtain ⟨result, messages, hsaid, hpost, hlast⟩ :=
    speaks_checkTag (N := N) header filesize content p st
  unfold checkTurn
  cases result with
  | none => exact Or.inl ⟨messages, hlast, fun opts report => by rw [hsaid opts report]⟩
  | some r =>
    obtain ⟨hevent, hread⟩ := hpost r rfl
    exact Or.inr ⟨r.1, r.2, messages, hevent, hread, hlast, fun opts report => by
      rw [hsaid opts report]⟩

theorem turnsBeyond_checkTurn (opts : CheckOpts) (header : FlvHeader) (filesize : Nat)
    (content : Bytes) : TurnsBeyond content (checkTurn (N := N) opts header filesize) := by
  rintro p ⟨st, report⟩ st' stream' hturn
  rcases checkTurn_cases header filesize content p st with
    ⟨messages, -, hstop⟩ | ⟨st₁, stream₁, messages, -, rfl, -, hnext⟩
  · cases (hstop opts report).symm.trans hturn
  · cases (hnext opts report).symm.trans hturn
    exact (after_tagRead (N := N) content p).beyond

/-- `while (flv_get_offset(flv_in) < filesize)`. -/
def checkLoop (opts : CheckOpts) (header : FlvHeader) (filesize : Nat) (fuel : Nat)
    (st : CheckLocals N × Report N) (stream : FlvStream) :
    Option (Loop.End (CheckLocals N × Report N) (Report N) × FlvStream) :=
  Loop.loop (fun stream => flvGetOffset stream < filesize) fetchTag
    (checkTurn opts header filesize) fuel st stream

theorem checkLoop_isSome (opts : CheckOpts) (header : FlvHeader) (filesize : Nat)
    (st : CheckLocals N × Report N) (stream : FlvStream) :
    (checkLoop opts header filesize (stream.flvin.content.length + 1) st stream).isSome :=
  Loop.loop_isSome (advances_fetchTag (turnsBeyond_checkTurn opts header filesize _))
    ⟨rfl, fun _ => Nat.zero_le _⟩ (Nat.zero_le _) (Nat.lt_succ_self _)

/-- What follows the loop: a tag that cannot be read is the end of the check. -/
def checkTagsEnd (opts : CheckOpts) :
    Loop.End (CheckLocals N × Report N) (Report N) × FlvStream →
      Option (CheckLocals N × FlvStream) × Report N
  | (.finished (st, report), stream) => (some (st, stream), report)
  | (.noItem (_, report), stream) =>
    ((fatalEnd .fatalTagEof (flvGetOffset stream)
      [.text "unexpected end of file in tag"]).run opts).run.run report
  | (.stopped report, _) => (none, report)

def checkTags (header : FlvHeader) (filesize : Nat) (stream : FlvStream) :
    CheckM N (CheckLocals N × FlvStream) := fun opts => OptionT.mk fun report =>
  checkTagsEnd opts ((checkLoop opts header filesize (stream.flvin.content.length + 1)
    (CheckLocals.init, report) stream).get (checkLoop_isSome ..))

/-- The end of the loop with the report among the variables. -/
def endWith (report : Report N) :
    Loop.End (CheckLocals N) Unit → Loop.End (CheckLocals N × Report N) (Report N)
  | .finished st => .finished (st, report)
  | .noItem st => .noItem (st, report)
  | .stopped () => .stopped report

/-- The turns of the loop. -/
def checkVisits (opts : CheckOpts) (header : FlvHeader) (filesize : Nat) (fuel : Nat)
    (st : CheckLocals N × Report N) (stream : FlvStream) :
    List (FlvTag × (CheckLocals N × Report N) × FlvStream) :=
  Loop.visits (fun stream => flvGetOffset stream < filesize) fetchTag
    (checkTurn opts header filesize) fuel st stream

/-- What the loop does: its end, the offsets of the tags it reads and the messages it prints. -/
structure TagsRun (content : Bytes) (st : CheckLocals N) (e : Loop.End (CheckLocals N) Unit)
    (stream : FlvStream) (offsets : List Nat) (messages : List (CheckMessage N)) : Prop where
  content_eq : stream.flvin.content = content
  last : FatalLast e.state? messages
  found : ∀ st', e.state? = some st' → st'.found = seeEvents N content st.found offsets
  keeps : ∀ st', e.state? = some st' → st.KeepsData content → st'.KeepsData content

/-- On a plain file a loop that comes to its end has read all the tags that were left. -/
def ReadsAll (content : Bytes) (filesize : Nat) (stream : FlvStream)
    (e : Loop.End (CheckLocals N) Unit) (offsets : List Nat) : Prop :=
  ∀ last st, Tracks content last stream →
    (∀ x ∈ tagsFrom content (nextOffset last), PlainTag content x.1 x.2) →
    filesize = content.length → e = .finished st →
    offsets = (tagsFrom content (nextOffset last)).map Prod.fst

theorem Tracks.pos_le {content : Bytes} {last : Option (Nat × FlvTag)} {stream : FlvStream}
    (h : Tracks content last stream) (heof : stream.flvin.eof = false) :
    stream.flvin.pos ≤ nextOffset last := by
  have htrack := h.onTrack heof
  cases last with
  | none =>
    rcases htrack with ⟨-, hpos⟩ | ⟨-, hpos⟩ | ⟨-, hpos⟩ <;> rw [hpos, nextOffset] <;> omega
  | some last =>
    obtain ⟨p, tag⟩ := last
    rcases htrack with ⟨-, -, -, -, -, hpos⟩ | ⟨-, -, -, hpos⟩ | ⟨-, hpos⟩ <;>
      rw [hpos, nextOffset] <;> unfold nextTag <;> omega

omit [NumberImage N] in
theorem readsAll_of_ne {content : Bytes} {filesize : Nat} {stream : FlvStream}
    {e : Loop.End (CheckLocals N) Unit} {offsets : List Nat} (h : ∀ st, e ≠ .finished st) :
    ReadsAll content filesize stream e offsets :=
  fun _ st _ _ _ he => absurd he (h st)

omit [NumberImage N] in
/-- No tag is left where the file has been read to its end. -/
theorem readsAll_nil {content : Bytes} {filesize : Nat} {stream : FlvStream}
    {e : Loop.End (CheckLocals N) Unit} (hend : ¬ flvGetOffset stream < filesize) :
    ReadsAll content filesize stream e [] := by
  intro last st htracks hplain hsize _
  rw [tagsFrom_of_lt]
  · rfl
  cases heof : stream.flvin.eof with
  | true => exact htracks.atEnd heof
  | false =>
    have hpos := htracks.pos_le heof
    unfold flvGetOffset at hend
    omega

theorem ReadsAll.cons {content : Bytes} {filesize q : Nat} {stream : FlvStream}
    {e : Loop.End (CheckLocals N) Unit} {offsets : List Nat}
    (h : ReadsAll content filesize (tagRead N content q) e offsets)
    (hfetch : fetchTag stream =
      (some (flvTagOfBytes (content.drop q)), tagStream content q)) :
    ReadsAll content filesize stream e (q :: offsets) := by
  intro last st htracks hplain hsize he
  by_cases hle : nextOffset last + 11 ≤ content.length
  · have hoffset : nextOffset last = q := by
      rw [fetchTag, htracks.flvReadTag hle] at hfetch
      exact congrArg (fun r => r.2.currentTagOffset) hfetch
    rw [tagsFrom_of_le hle, hoffset] at hplain ⊢
    have hrest := h _ st (tracks_tagRead (hplain _ List.mem_cons_self))
      (fun x hx => hplain x (List.mem_cons_of_mem _ hx)) hsize he
    exact congrArg (q :: ·) hrest
  · obtain ⟨stream₁, hread, -⟩ := flvReadTag_of_aimed_lt htracks.aimed (by omega)
    rw [fetchTag, hread] at hfetch
    cases hfetch

/-- With any options the loop does the same. -/
theorem checkLoop_run (header : FlvHeader) (filesize : Nat) {content : Bytes} {fuel p : Nat}
    {stream : FlvStream} (st : CheckLocals N) (hbeyond : Beyond content p stream)
    (hle : p ≤ content.length) (hfuel : content.length < fuel + p) :
    ∃ e stream' offsets messages, TagsRun content st e stream' offsets messages ∧
      ReadsAll content filesize stream e offsets ∧ ∀ opts report,
        checkLoop opts header filesize fuel (st, report) stream =
          some (endWith (report.sayAll opts messages) e, stream') ∧
        Loop.keys flvGetCurrentTagOffset
          (checkVisits opts header filesize fuel (st, report) stream) = offsets := by
  induction fuel generalizing p st stream with
  | zero => omega
  | succ fuel ih =>
    unfold checkLoop checkVisits at ih ⊢
    by_cases hgoes : flvGetOffset stream < filesize
    · cases hfetch : fetchTag stream with
      | mk item stream₁ =>
        cases item with
        | none =>
          refine ⟨.noItem st, stream₁, [], [], ⟨?_, rfl, ?_, ?_⟩,
            readsAll_of_ne fun st h => (by cases h), fun opts report => ?_⟩
          · exact (content_fetchTag hfetch).trans hbeyond.content_eq
          · rintro st' ⟨⟩
            rfl
          · rintro st' ⟨⟩
            exact id
          · simp only [Loop.loop, Loop.visits, hgoes, hfetch, decide_true, if_true]
            exact ⟨rfl, rfl⟩
        | some tag =>
          obtain ⟨q, hge, hlt, rfl, rfl⟩ := fetchTag_some hbeyond hfetch
          rcases checkTurn_cases header filesize content q st with
            ⟨messages, hfatal, hstop⟩ | ⟨st', stream', messages, hevent, rfl, hfatal, hnext⟩
          · refine ⟨.stopped (), tagStream content q, [q], messages,
              ⟨rfl, hfatal, fun _ h => (by cases h), fun _ h => by cases h⟩,
              readsAll_of_ne fun st h => (by cases h), fun opts report => ?_⟩
            simp only [Loop.loop, Loop.visits, hgoes, hfetch, hstop opts report, decide_true,
              if_true]
            exact ⟨rfl, rfl⟩
          · obtain ⟨e, stream'', offsets, messages', hrun, hreads, hloop⟩ :=
              ih st' (after_tagRead (N := N) content q).beyond (by omega) (by omega)
            refine ⟨e, stream'', q :: offsets, messages ++ messages',
              ⟨hrun.content_eq, ?_, fun st'' hst => ?_, fun st'' hst hkeeps => ?_⟩, ?_,
              fun opts report => ?_⟩
            · rw [FatalLast, List.countP_append, hfatal, hrun.last, Nat.zero_add]
            · exact (hrun.found st'' hst).trans (by rw [hevent.found]; rfl)
            · exact hrun.keeps st'' hst (hevent.keepsData hkeeps)
            · exact hreads.cons hfetch
            · obtain ⟨hend, hkeys⟩ := hloop opts (report.sayAll opts messages)
              simp only [Loop.loop, Loop.visits, hgoes, hfetch, hnext opts report, decide_true,
                if_true, Report.sayAll_append]
              exact ⟨hend, congrArg (q :: ·) hkeys⟩
    · refine ⟨.finished st, stream, [], [], ⟨hbeyond.content_eq, rfl, ?_, ?_⟩,
        readsAll_nil hgoes, fun opts report => ?_⟩
      · rintro st' ⟨⟩
        rfl
      · rintro st' ⟨⟩
        exact id
      · simp only [Loop.loop, Loop.visits, hgoes, decide_false]
        exact ⟨rfl, rfl⟩

/-- The same for the part of the check that ends with the loop. -/
theorem checkTags_run (header : FlvHeader) {content : Bytes} {stream : FlvStream}
    (htracks : Tracks content none stream) :
    ∃ result offsets messages, Says (checkTags header content.length stream) result messages ∧
      FatalLast result messages ∧
      (∀ r : CheckLocals N × FlvStream, result = some r →
        r.2.flvin.content = content ∧
        r.1.found = eventsFound (fun literal p => decide (EventNamed N content literal p))
          offsets ∧
        r.1.KeepsData content ∧
        (PlainFile content → offsets = tagOffsets content)) ∧
      ∀ opts (report : Report N), Loop.keys flvGetCurrentTagOffset (checkVisits opts header
        content.length (content.length + 1) (CheckLocals.init, report) stream) = offsets := by
  have hcontent := htracks.content_eq
  subst hcontent
  obtain ⟨e, stream', offsets, messages, htags, hreads, hloop⟩ :=
    checkLoop_run header stream.flvin.content.length (CheckLocals.init : CheckLocals N)
      (⟨rfl, fun _ => Nat.zero_le _⟩ : Beyond stream.flvin.content 0 stream) (Nat.zero_le _)
      (Nat.lt_succ_self _)
  have hrun : ∀ opts report,
      ((checkTags header stream.flvin.content.length stream).run opts).run.run report =
        checkTagsEnd opts (endWith (report.sayAll opts messages) e, stream') := fun opts report =>
    congrArg (checkTagsEnd opts) (Option.get_of_eq_some _ (hloop opts report).1)
  have hkeys := fun opts (report : Report N) => (hloop opts report).2
  have hlast := htags.last
  cases e with
  | finished st =>
    refine ⟨some (st, stream'), offsets, messages, hrun, hlast, ?_, hkeys⟩
    intro r hr
    cases hr
    exact ⟨htags.content_eq, htags.found st rfl, htags.keeps st rfl fun q hq => (by cases hq),
      fun hplain => hreads none st htracks hplain rfl rfl⟩
  | noItem st =>
    refine ⟨none, offsets, messages ++ [⟨.fatal, .fatalTagEof, flvGetOffset stream',
      [.text "unexpected end of file in tag"]⟩], fun opts report => ?_, ?_, ?_, hkeys⟩
    · rw [hrun, Report.sayAll_append]
      exact Says.fatalEnd .fatalTagEof (flvGetOffset stream') _ opts _
    · rw [FatalLast, List.countP_append, hlast]
      rfl
    · exact fun r hr => (Option.some_ne_none r hr.symm).elim
  | stopped u =>
    exact ⟨none, offsets, messages, hrun, hlast, fun r hr => (Option.some_ne_none r hr.symm).elim,
      hkeys⟩

end

end FlvMeta
