import FlvMeta.Check.Metadata
import FlvMeta.Check.Tags
import FlvMeta.Info.Read

/-!
# Checking a file

`check_flv_file`. The local `info` is filled by `get_flv_info` when the tags hold an `onMetaData`
event, and read by the last checks in any case; `checkBefore` is what comes before them and tells
whether `info` has been filled. What it holds otherwise is a parameter of the check. The check has
no result when it takes something else for the list of `onMetaData`.
-/

namespace FlvMeta

open Stdio

/-- The statuses of a check. -/
inductive CheckStatus where
  | ok | errorOpenRead | errorInvalidFlvFile
deriving DecidableEq, Repr

variable {N : Type}

/-! ## After the tags -/

/-- The consistency of the tags with the header of the file. -/
def checkStreamsFound (header : FlvHeader) (st : CheckLocals N) : CheckM N Unit := do
  onlyIf (¬ st.haveVideo ∧ flvHeaderHasVideo header ≠ 0) <|
    printWarning .warningHeaderVideoNotFound 4
      [.text "no video tag found despite header signaling the file contains video"]
  onlyIf (¬ st.haveAudio ∧ flvHeaderHasAudio header ≠ 0) <|
    printWarning .warningHeaderAudioNotFound 4
      [.text "no audio tag found despite header signaling the file contains audio"]

def checkLastTimestamps (filesize : Nat) (st : CheckLocals N) : CheckM N Unit :=
  onlyIf (st.haveVideo ∧ st.haveAudio ∧
      1000 ≤ timestampDistance st.lastAudioTimestamp st.lastVideoTimestamp) <|
    if st.lastVideoTimestamp < st.lastAudioTimestamp then
      printWarning .warningTimestampVideoEndsFirst filesize [.text "video stops ",
        .unsigned (st.lastAudioTimestamp - st.lastVideoTimestamp), .text " ms before audio"]
    else
      printWarning .warningTimestampAudioEndsFirst filesize [.text "audio stops ",
        .unsigned (st.lastVideoTimestamp - st.lastAudioTimestamp), .text " ms before video"]

def checkKeyframesFound (filesize : Nat) (st : CheckLocals N) : CheckM N Unit := do
  onlyIf (st.haveVideo ∧ st.keyframesNumber = 0) <|
    printWarning .warningVideoNoKeyframe filesize
      [.text "no keyframe detected, file is probably broken or incomplete"]
  onlyIf (st.haveVideo ∧ st.keyframesNumber = st.videoFramesNumber) <|
    printWarning .warningVideoOnlyKeyframes filesize
      [.text "only keyframes detected, probably inefficient compression scheme used"]
  onlyIf (st.haveVideo ∧ st.haveOnLastSecond ∧ st.keyframesNumber = st.videoFramesNumber) <|
    printWarning .warningVideoOnlyKfLastSec filesize
      [.text "only keyframes detected and onLastSecond event present, file is probably not ",
        .text "playable"]

def checkLastSecond (filesize : Nat) (st : CheckLocals N) : CheckM N Unit :=
  onlyIf (st.haveOnLastSecond ∧
      2000 ≤ subUint32 st.lastTimestamp st.onLastSecondTimestamp) <|
    printWarning .warningMetadataLastSecondBad filesize [.text "onLastSecond event located ",
      .unsigned (subUint32 st.lastTimestamp st.onLastSecondTimestamp),
      .text " ms before the last tag"]

def checkFinal (header : FlvHeader) (filesize : Nat) (st : CheckLocals N) : CheckM N Unit := do
  checkStreamsFound header st
  checkLastTimestamps filesize st
  checkKeyframesFound filesize st
  checkLastSecond filesize st

/-! ## Metadata -/

/-- The "sensible set of unobstrusive options" with which the information is gathered. -/
def checkInfoOptions : FlvmetaOpts N where
  metadata := .nullPtr
  insertOnlastsecond := false
  resetTimestamps := false
  allKeyframes := false
  preserveMetadata := false
  errorHandling := .ignoreErrors

/-- A missing width or height can cause size problems in various players. -/
def checkSizeFound (offset : Nat) (info : FlvInfo N) (found : FoundSize) : CheckM N Unit :=
  onlyIf info.haveVideo do
    onlyIf (¬ found.haveWidth) <|
      printError .errorVideoWidthMissing offset [.text "width information not found in metadata, ",
        .text "problems might occur in some players"]
    onlyIf (¬ found.haveHeight) <|
      printError .errorVideoHeightMissing offset
        [.text "height information not found in metadata, problems might occur in some players"]

/-- How the part about `onMetaData` ends: without the event, with `info` filled from the file, or in
a loop over something that is not a list. -/
inductive MetadataOutcome (N : Type) where
  | missing
  | filled (info : FlvInfo N)
  | undefined

section

variable [Number64 N]

def checkMetadata (filesize : Nat) (st : CheckLocals N) (stream : FlvStream) :
    CheckM N (MetadataOutcome N) :=
  match (getFlvInfo checkInfoOptions (flvReset stream)).1 with
  | .error _ =>
    fatalEnd .fatalInfoComputationError 0 [.text "unable to compute file information"]
  | .ok info => do
    let found ← checkOnMetadataEntries
      ⟨filesize, st.onMetadataOffset, st.onMetadataName, st.onMetadata, info⟩
    match found with
    | none => pure .undefined
    | some found => do
      checkSizeFound st.onMetadataOffset info found
      pure (.filled info)

def checkOnMetadataFound (filesize : Nat) (st : CheckLocals N) (stream : FlvStream) :
    CheckM N (MetadataOutcome N) :=
  if ¬ st.haveOnMetadata then do
    printWarning .warningMetadataNotPresent filesize
      [.text "onMetaData event not found, file might not be playable"]
    pure .missing
  else checkMetadata filesize st stream

end

/-! ## The whole check -/

/-- The global checks. -/
def checkGlobal (filesize : Nat) (st : CheckLocals N) (info : FlvInfo N) : CheckM N Unit := do
  onlyIf (info.videoWidth = 0 ∧ info.videoHeight = 0) <|
    printWarning .warningVideoSizeError filesize [.text "unable to determine video resolution"]
  onlyIf info.haveVideo <|
    printInfo .infoVideoCodec 0
      [.text "video codec is ", .bytes (dumpStringGetVideoCodec st.prevVideoTag)]
  onlyIf info.haveAudio <|
    printInfo .infoAudioFormat 0
      [.text "audio format is ", .bytes (dumpStringGetSoundFormat st.prevAudioTag), .text " (",
        .bytes (dumpStringGetSoundType st.prevAudioTag), .text ", ",
        .bytes (dumpStringGetSoundSize st.prevAudioTag), .text "-bit, ",
        .bytes (dumpStringGetSoundRate st.prevAudioTag), .text " kHz)"]
  onlyIf (0x00FFFFFF < st.lastTimestamp) <|
    printInfo .infoTimestampUseExtended 0 [.text "extended timestamps used in the file"]
  onlyIf (0xFFFFFFFF < filesize) <|
    printInfo .infoGeneralLargeFile 0 [.text "file is larger than 4 GB"]

/-- The header fails to be read at the end of the file or for its signature. -/
def checkStart (content : Bytes) : CheckM N (FlvHeader × FlvStream) :=
  match flvReadHeader (flvOpen content) with
  | (.error status, _) =>
    if status = .errorEof then
      fatalEnd .fatalHeaderEof 0 [.text "unexpected end of file in header"]
    else fatalEnd .fatalHeaderNoSignature 0 [.text "FLV signature not found in header"]
  | (.ok header, stream) => do
    checkHeader header
    let stream ← checkFirstPrevTagSize content.length stream
    pure (header, stream)

section

variable [Number64 N]

/-- What is checked before the global checks. -/
def checkBefore (content : Bytes) : CheckM N (CheckLocals N × MetadataOutcome N) := do
  let (header, stream) ← checkStart content
  let (st, stream) ← checkTags header content.length stream
  checkFinal header content.length st
  let outcome ← checkOnMetadataFound content.length st stream
  pure (st, outcome)

/-- `info` is what the local structure holds at first. -/
def checkContent (info : FlvInfo N) (content : Bytes) : CheckM N (MetadataOutcome N) := do
  let (st, outcome) ← checkBefore content
  (match outcome with
  | .missing => checkGlobal content.length st info
  | .filled info => checkGlobal content.length st info
  | .undefined => pure ())
  pure outcome

/-- The report of the check of a file with a given content. -/
def checkReport (env : Environment) (opts : CheckOpts) (info : FlvInfo N) (content : Bytes) :
    Option (Report N) :=
  match ((checkContent info content).run opts).run.run (reportStart env opts .init) with
  | (some .undefined, _) => none
  | (_, report) => some (reportEnd opts report)

/-- `check_flv_file`, on a file that may not be there: its status and what it prints. There is
neither where the behaviour of the program is not defined. -/
def checkFlvFile (env : Environment) (opts : CheckOpts) (info : FlvInfo N) :
    Option Bytes → Option (CheckStatus × List (ReportItem N))
  | none => some (.errorOpenRead, [])
  | some content => (checkReport env opts info content).map fun report =>
    (if 0 < report.errors then .errorInvalidFlvFile else .ok, report.output)

end

end FlvMeta
