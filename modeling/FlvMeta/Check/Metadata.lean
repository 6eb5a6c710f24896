import FlvMeta.Check.Report
import FlvMeta.Dump.Strings

/-!
# The entries of onMetaData under check

The part of `check_flv_file` that compares the entries of `onMetaData` with the information that is
gathered from the file. An entry is looked up by its name in one check after the other; most checks
are of one of a few forms. Those of the width and the height also tell whether they have been
found.
-/

namespace FlvMeta

variable {N : Type}

/-! ## Messages -/

/-- `get_amf_type_string`. -/
def getAmfTypeString (type : UInt8) : String :=
  match AmfType.ofCode type with
  | some .number => "Number"
  | some .boolean => "Boolean"
  | some .string => "String"
  | some .null => "Null"
  | some .undefined => "Undefined"
  | some .object => "Object"
  | some .associativeArray => "Associative array"
  | some .array => "Array"
  | some .date => "Date"
  | some .xml => "XML"
  | some .«class» => "Class"
  | _ => "Unknown type"

def invalidType (field : String) (expected : AmfType) (type : UInt8) : List (Printed N) :=
  [.text "invalid type for ", .text field, .text ": expected ",
    .text (getAmfTypeString expected.code), .text ", got ", .text (getAmfTypeString type)]

def trueOrFalse (b : Bool) : String := if b then "true" else "false"

/-! ## Entries -/

/-- An entry of `onMetaData`, with the offset of the tag. -/
structure MetadataEntry (N : Type) where
  offset : Nat
  name : AmfData N
  data : AmfData N

/-- The value of a boolean; only used when the type has been checked, as the next one. -/
def amfBooleanGetValue : AmfData N → UInt8
  | .boolean b => b
  | _ => 0

def warnEntry (entry : MetadataEntry N) (code : CheckCode) (message : List (Printed N)) :
    CheckM N Unit :=
  printWarning code entry.offset message

/-- The check `x` of an entry with the name `field`, if its type is the one expected. -/
def checkField (field : String) (expected : AmfType) (entry : MetadataEntry N)
    (x : CheckM N Unit) : CheckM N Unit :=
  onlyIf (nameIs entry.name field) <|
    if amfDataGetType entry.data = expected.code then x
    else warnEntry entry .warningAmfDataInvalidType
      (invalidType field expected (amfDataGetType entry.data))

/-- A value that only makes sense with video or audio. -/
def checkNeeded (field without : String) (code : CheckCode) (present : Bool)
    (entry : MetadataEntry N) (x : CheckM N Unit) : CheckM N Unit :=
  if present then x
  else warnEntry entry code [.text field, .text " metadata present without ", .text without]

def checkVideoNeeded (field : String) (info : FlvInfo N) (entry : MetadataEntry N)
    (x : CheckM N Unit) : CheckM N Unit :=
  checkNeeded field "video data" .warningAmfDataVideoNeeded info.haveVideo entry x

def checkAudioNeeded (field : String) (info : FlvInfo N) (entry : MetadataEntry N)
    (x : CheckM N Unit) : CheckM N Unit :=
  checkNeeded field "audio data" .warningAmfDataAudioNeeded info.haveAudio entry x

/-! ## Boolean entries -/

/-- The value is compared as a number. -/
def checkBooleanValue (value : Bool) (message : List (Printed N)) (entry : MetadataEntry N) :
    CheckM N Unit :=
  onlyIf (amfBooleanGetValue entry.data ≠ if value then 1 else 0) <|
    warnEntry entry .warningAmfDataInvalidValue message

def checkBoolean (field : String) (value : Bool) (entry : MetadataEntry N) : CheckM N Unit :=
  checkField field .boolean entry <|
    checkBooleanValue value
      [.text field, .text " should be set to ", .text (trueOrFalse value)] entry

/-- Here any value but zero is taken for true. -/
def checkHasMetadata (entry : MetadataEntry N) : CheckM N Unit :=
  checkField "hasMetadata" .boolean entry <|
    onlyIf (amfBooleanGetValue entry.data = 0) <|
      warnEntry entry .warningAmfDataInvalidValue [.text "hasMetadata should be set to true"]

def checkHasVideo (info : FlvInfo N) (entry : MetadataEntry N) : CheckM N Unit :=
  checkBoolean "hasVideo" info.haveVideo entry

def checkHasAudio (info : FlvInfo N) (entry : MetadataEntry N) : CheckM N Unit :=
  checkBoolean "hasAudio" info.haveAudio entry

def checkStereo (info : FlvInfo N) (entry : MetadataEntry N) : CheckM N Unit :=
  checkField "stereo" .boolean entry <|
    checkAudioNeeded "stereo" info entry <|
      checkBooleanValue (info.audioStereo == 1)
        [.text "stereo should be ", .text (trueOrFalse (info.audioStereo == 1))] entry

def checkCanSeekToEnd (info : FlvInfo N) (entry : MetadataEntry N) : CheckM N Unit :=
  checkBoolean "canSeekToEnd" info.canSeekToEnd entry

def checkHasKeyframes (info : FlvInfo N) (entry : MetadataEntry N) : CheckM N Unit :=
  checkBoolean "hasKeyframes" info.haveKeyframes entry

/-! ## Number entries -/

section

variable [Number64 N]

def amfNumberGetValue : AmfData N → N
  | .number x => x
  | _ => number 0

def fabs (x : N) : N := if Number64.le (number 0) x then x else Number64.sub (number 0) x

/-- `fabs(a - b) >= 1.0`. -/
def farApart (a b : N) : Bool := Number64.le (number 1) (fabs (Number64.sub a b))

/-- `a == b`. -/
def sameNumber (a b : N) : Bool := Number64.le a b && Number64.le b a

def shouldBe (field : String) (value : N) (entry : MetadataEntry N) : List (Printed N) :=
  [.text field, .text " should be ", .number value, .text ", got ",
    .number (amfNumberGetValue entry.data)]

def checkNumberValue (field : String) (value : N) (entry : MetadataEntry N) : CheckM N Unit :=
  onlyIf (farApart (amfNumberGetValue entry.data) value) <|
    warnEntry entry .warningAmfDataInvalidValue (shouldBe field value entry)

def checkNumber (field : String) (value : N) (entry : MetadataEntry N) : CheckM N Unit :=
  checkField field .number entry <| checkNumberValue field value entry

def checkVideoNumber (field : String) (value : N) (info : FlvInfo N) (entry : MetadataEntry N) :
    CheckM N Unit :=
  checkField field .number entry <|
    checkVideoNeeded field info entry <| checkNumberValue field value entry

def checkAudioNumber (field : String) (value : N) (info : FlvInfo N) (entry : MetadataEntry N) :
    CheckM N Unit :=
  checkField field .number entry <|
    checkAudioNeeded field info entry <| checkNumberValue field value entry

/-- The duration with which the entries are compared. It is computed as a `uint32`, and the frame
that closes the file is taken to be one of audio if there is audio at all. -/
def checkedDuration (info : FlvInfo N) : N :=
  Number64.div
    (number ((subUint32 info.lastTimestamp info.firstTimestamp +
      (if info.haveAudio then info.audioFrameDuration
        else info.videoFrameDuration)) % 2 ^ 32 : Nat))
    (number 1000)

def checkDuration (info : FlvInfo N) (entry : MetadataEntry N) : CheckM N Unit :=
  checkNumber "duration" (checkedDuration info) entry

def checkLasttimestamp (info : FlvInfo N) (entry : MetadataEntry N) : CheckM N Unit :=
  checkNumber "lasttimestamp" (seconds info.lastTimestamp) entry

def checkLastkeyframetimestamp (info : FlvInfo N) (entry : MetadataEntry N) : CheckM N Unit :=
  checkNumber "lastkeyframetimestamp" (seconds info.lastKeyframeTimestamp) entry

/-- The width or the height, which is not compared when it could not be computed. -/
def checkDimension (field : String) (value : N) (info : FlvInfo N) (entry : MetadataEntry N) :
    CheckM N Unit :=
  checkField field .number entry <|
    checkVideoNeeded field info entry <|
      onlyIf (farApart (amfNumberGetValue entry.data) value ∧ ¬ sameNumber value (number 0)) <|
        warnEntry entry .warningAmfDataInvalidValue (shouldBe field value entry)

/-- Whether `have_width` or `have_height` is set. -/
def findsDimension (field : String) (info : FlvInfo N) (entry : MetadataEntry N) : Bool :=
  nameIs entry.name field && amfDataGetType entry.data == AmfType.number.code && info.haveVideo

def checkWidth (info : FlvInfo N) (entry : MetadataEntry N) : CheckM N Unit :=
  checkDimension "width" (number info.videoWidth) info entry

def checkHeight (info : FlvInfo N) (entry : MetadataEntry N) : CheckM N Unit :=
  checkDimension "height" (number info.videoHeight) info entry

def checkVideodatarate (info : FlvInfo N) (entry : MetadataEntry N) : CheckM N Unit :=
  checkVideoNumber "videodatarate" (dataRate info.realVideoDataSize (checkedDuration info)) info
    entry

def checkFramerate (info : FlvInfo N) (entry : MetadataEntry N) : CheckM N Unit :=
  checkVideoNumber "framerate"
    (Number64.div (number info.videoFramesNumber) (checkedDuration info)) info entry

def checkAudiodatarate (info : FlvInfo N) (entry : MetadataEntry N) : CheckM N Unit :=
  checkAudioNumber "audiodatarate" (dataRate info.realAudioDataSize (checkedDuration info)) info
    entry

/-- The tolerance is 100, since 44000 is sometimes used instead of 44100. -/
def checkAudiosamplerate (info : FlvInfo N) (entry : MetadataEntry N) : CheckM N Unit :=
  let value : N := audioKhz info.audioRate
  let distance := fabs (Number64.sub (amfNumberGetValue entry.data) value)
  checkField "audiosamplerate" .number entry <|
    checkAudioNeeded "audiosamplerate" info entry <|
      onlyIf (Number64.le (number 100) distance ∧ ¬ Number64.le distance (number 100)) <|
        warnEntry entry .warningAmfDataInvalidValue (shouldBe "audiosamplerate" value entry)

def checkAudiosamplesize (info : FlvInfo N) (entry : MetadataEntry N) : CheckM N Unit :=
  checkAudioNumber "audiosamplesize" (audioSampleSize info.audioSize) info entry

def checkFilesize (filesize : Nat) (entry : MetadataEntry N) : CheckM N Unit :=
  checkNumber "filesize" (number filesize) entry

def checkVideosize (info : FlvInfo N) (entry : MetadataEntry N) : CheckM N Unit :=
  checkVideoNumber "videosize" (number info.videoDataSize) info entry

def checkAudiosize (info : FlvInfo N) (entry : MetadataEntry N) : CheckM N Unit :=
  checkAudioNumber "audiosize" (number info.audioDataSize) info entry

/-- The size of the `onMetaData` tag, a `uint32`, is added to that of the other script tags. -/
def checkDatasize (onMetadataName onMetadata : AmfData N) (info : FlvInfo N)
    (entry : MetadataEntry N) : CheckM N Unit :=
  let onMetadataSize :=
    (flvTagSize + (amfDataSize onMetadataName + amfDataSize onMetadata) % 2 ^ 32) % 2 ^ 32
  checkNumber "datasize" (number (info.metaDataSize + onMetadataSize : Nat)) entry

def checkAudiocodecid (info : FlvInfo N) (entry : MetadataEntry N) : CheckM N Unit :=
  checkAudioNumber "audiocodecid" (number info.audioCodec.toNat) info entry

def checkVideocodecid (info : FlvInfo N) (entry : MetadataEntry N) : CheckM N Unit :=
  checkVideoNumber "videocodecid" (number info.videoCodec) info entry

def checkAudiodelay (info : FlvInfo N) (entry : MetadataEntry N) : CheckM N Unit :=
  checkField "audiodelay" .number entry <|
    checkNeeded "audiodelay" "audio and video data" .warningAmfDataAudioVideoNeeded
      (info.haveAudio && info.haveVideo) entry <|
      checkNumberValue "audiodelay" (Number64.div
        (number (sint32 (subUint32 info.audioFirstTimestamp info.videoFirstTimestamp)))
        (number 1000)) entry

/-! ## Keyframes -/

/-- The type printed for a time or a position is that of the object `keyframes`. -/
def checkKeyframeTime (entry : MetadataEntry N) (time : N) (fileTime : AmfData N)
    (last : Option N) : CheckM N (Option N) :=
  if amfDataGetType fileTime ≠ AmfType.number.code then do
    warnEntry entry .warningKeyframesTimeTypeBad
      (invalidType "time" .number (amfDataGetType entry.data))
    pure last
  else do
    onlyIf (farApart time (amfNumberGetValue fileTime)) <|
      warnEntry entry .warningKeyframesTimeBad [.text "invalid keyframe time: expected ",
        .number time, .text ", got ", .number (amfNumberGetValue fileTime)]
    onlyIf (last.any fun last => sameNumber last (amfNumberGetValue fileTime)) <|
      warnEntry entry .warningKeyframesTimeDuplicate
        [.text "Duplicate keyframe time: ", .number (amfNumberGetValue fileTime)]
    pure (some (amfNumberGetValue fileTime))

def checkKeyframePosition (entry : MetadataEntry N) (position : N) (filePosition : AmfData N) :
    CheckM N Unit :=
  if amfDataGetType filePosition ≠ AmfType.number.code then
    warnEntry entry .warningKeyframesPosTypeBad
      (invalidType "file position" .number (amfDataGetType entry.data))
  else
    onlyIf (farApart position (amfNumberGetValue filePosition)) <|
      warnEntry entry .warningKeyframesPosBad [.text "invalid keyframe file position: expected ",
        .number position, .text ", got ", .number (amfNumberGetValue filePosition)]

/-- The four lists are walked in parallel, with the time read last from the file. -/
def checkKeyframeLists (entry : MetadataEntry N) :
    Option N → List N → List N → List (AmfData N) → List (AmfData N) → CheckM N Unit
  | last, time :: times, position :: positions, fileTime :: fileTimes,
      filePosition :: filePositions => do
    let last ← checkKeyframeTime entry time fileTime last
    checkKeyframePosition entry position filePosition
    checkKeyframeLists entry last times positions fileTimes filePositions
  | _, _, _, _, _ => pure ()

/-- `amf_array_size`, a `uint32`. -/
def arraySize {α : Type} (list : List α) : Nat := list.length % 2 ^ 32

def checkKeyframeArrays (info : FlvInfo N) (fileTimes filePositions : AmfData N)
    (entry : MetadataEntry N) : CheckM N Unit := do
  onlyIf (amfDataGetType fileTimes ≠ AmfType.array.code) <|
    warnEntry entry .warningKeyframesTimesTypeBad
      (invalidType "times" .array (amfDataGetType fileTimes))
  onlyIf (amfDataGetType filePositions ≠ AmfType.array.code) <|
    warnEntry entry .warningKeyframesFileposTypeBad
      (invalidType "filepositions" .array (amfDataGetType filePositions))
  onlyIf (amfDataGetType fileTimes = AmfType.array.code ∧
      amfDataGetType filePositions = AmfType.array.code) <|
    if arraySize info.times ≠ arraySize fileTimes.listData ∨
        arraySize info.filepositions ≠ arraySize filePositions.listData ∨
        arraySize filePositions.listData ≠ arraySize fileTimes.listData then
      warnEntry entry .warningKeyframesArrayLengthBad [.text "invalid keyframes arrays length"]
    else checkKeyframeLists entry none info.times info.filepositions fileTimes.listData
      filePositions.listData

/-- The type printed as the expected one is that of a boolean. -/
def checkKeyframes (info : FlvInfo N) (entry : MetadataEntry N) : CheckM N Unit :=
  onlyIf (nameIs entry.name "keyframes") <|
    if amfDataGetType entry.data = AmfType.object.code then do
      let fileTimes := amfObjectGet entry.data (ascii "times")
      let filePositions := amfObjectGet entry.data (ascii "filepositions")
      onlyIf fileTimes.isNull <|
        warnEntry entry .warningKeyframesTimesMissing [.text "Missing times metadata"]
      onlyIf filePositions.isNull <|
        warnEntry entry .warningKeyframesFileposMissing [.text "Missing filepositions metadata"]
      onlyIf (¬ fileTimes.isNull ∧ ¬ filePositions.isNull) <|
        checkKeyframeArrays info fileTimes filePositions entry
    else warnEntry entry .warningAmfDataInvalidType
      (invalidType "keyframes" .boolean (amfDataGetType entry.data))

/-! ## The loop over the entries -/

def AmfData.isString : AmfData N → Bool
  | .string _ => true
  | _ => false

/-- The nodes behind `amf_associative_array_first`, in a value that has nodes. -/
def walkedNodes : AmfData N → Option (List (AmfData N))
  | .nullPtr => some []
  | .object list => some list
  | .associativeArray list => some list
  | .array list => some list
  | _ => none

def namesAreStrings : List (AmfData N) → Bool
  | [] => true
  | [name] => name.isString
  | name :: _ :: rest => name.isString && namesAreStrings rest

/-- The loop over the entries only follows nodes, and only compares strings. -/
def walkable (data : AmfData N) : Bool := (walkedNodes data).any namesAreStrings

/-- `have_width` and `have_height`. -/
structure FoundSize where
  haveWidth : Bool
  haveHeight : Bool

/-- What the entries are compared with. -/
structure MetadataContext (N : Type) where
  filesize : Nat
  offset : Nat
  onMetadataName : AmfData N
  onMetadata : AmfData N
  info : FlvInfo N

def checkMetadataEntry (ctxt : MetadataContext N) (name data : AmfData N) (found : FoundSize) :
    CheckM N FoundSize := do
  let entry : MetadataEntry N := ⟨ctxt.offset, name, data⟩
  let info := ctxt.info
  checkHasMetadata entry
  checkHasVideo info entry
  checkHasAudio info entry
  checkDuration info entry
  checkLasttimestamp info entry
  checkLastkeyframetimestamp info entry
  checkWidth info entry
  checkHeight info entry
  checkVideodatarate info entry
  checkFramerate info entry
  checkAudiodatarate info entry
  checkAudiosamplerate info entry
  checkAudiosamplesize info entry
  checkStereo info entry
  checkFilesize ctxt.filesize entry
  checkVideosize info entry
  checkAudiosize info entry
  checkDatasize ctxt.onMetadataName ctxt.onMetadata info entry
  checkAudiocodecid info entry
  checkVideocodecid info entry
  checkAudiodelay info entry
  checkCanSeekToEnd info entry
  checkHasKeyframes info entry
  checkKeyframes info entry
  pure
    { haveWidth := found.haveWidth || findsDimension "width" info entry
      haveHeight := found.haveHeight || findsDimension "height" info entry }

/-- The names and values of the list. There is no result when a name is not a string: what is
stored there is then taken for the address of one. -/
def checkMetadataEntries (ctxt : MetadataContext N) :
    List (AmfData N) → FoundSize → CheckM N (Option FoundSize)
  | [], found => pure (some found)
  | [name], found =>
    if name.isString then do
      let found ← checkMetadataEntry ctxt name .nullPtr found
      pure (some found)
    else pure none
  | name :: data :: rest, found =>
    if name.isString then do
      let found ← checkMetadataEntry ctxt name data found
      checkMetadataEntries ctxt rest found
    else pure none

/-- The loop over `onMetaData`. Its type is not looked at: where there is no list, what is stored
in its place is taken for one, and there is no result. -/
def checkOnMetadataEntries (ctxt : MetadataContext N) : CheckM N (Option FoundSize) :=
  match walkedNodes ctxt.onMetadata with
  | none => pure none
  | some nodes => checkMetadataEntries ctxt nodes ⟨false, false⟩

end

/-! ## What the checks of an entry say -/

section

variable {entry : MetadataEntry N} {info : FlvInfo N} {x : CheckM N Unit}

theorem speaks_warnEntry (entry : MetadataEntry N) (code : CheckCode)
    (message : List (Printed N)) : Speaks (warnEntry entry code message) fun _ => True :=
  .printWarning ..

theorem speaks_checkField (field : String) (expected : AmfType)
    (hx : Speaks x fun _ => True) : Speaks (checkField field expected entry x) fun _ => True :=
  .onlyIf (.ite (fun _ => hx) fun _ => speaks_warnEntry ..)

theorem speaks_checkNeeded (field without : String) (code : CheckCode) (present : Bool)
    (hx : Speaks x fun _ => True) :
    Speaks (checkNeeded field without code present entry x) fun _ => True :=
  .ite (fun _ => hx) fun _ => speaks_warnEntry ..

theorem speaks_checkBooleanValue (value : Bool) (message : List (Printed N))
    (entry : MetadataEntry N) : Speaks (checkBooleanValue value message entry) fun _ => True :=
  .onlyIf (speaks_warnEntry ..)

theorem speaks_checkBoolean (field : String) (value : Bool) (entry : MetadataEntry N) :
    Speaks (checkBoolean field value entry) fun _ => True :=
  speaks_checkField _ _ (speaks_checkBooleanValue ..)

theorem speaks_checkHasMetadata (entry : MetadataEntry N) :
    Speaks (checkHasMetadata entry) fun _ => True :=
  speaks_checkField _ _ (.onlyIf (speaks_warnEntry ..))

theorem speaks_checkStereo (info : FlvInfo N) (entry : MetadataEntry N) :
    Speaks (checkStereo info entry) fun _ => True :=
  speaks_checkField _ _ (speaks_checkNeeded _ _ _ _ (speaks_checkBooleanValue ..))

variable [Number64 N]

theorem speaks_checkNumberValue (field : String) (value : N) (entry : MetadataEntry N) :
    Speaks (checkNumberValue field value entry) fun _ => True :=
  .onlyIf (speaks_warnEntry ..)

theorem speaks_checkNumber (field : String) (value : N) (entry : MetadataEntry N) :
    Speaks (checkNumber field value entry) fun _ => True :=
  speaks_checkField _ _ (speaks_checkNumberValue ..)

theorem speaks_checkVideoNumber (field : String) (value : N) (info : FlvInfo N)
    (entry : MetadataEntry N) : Speaks (checkVideoNumber field value info entry) fun _ => True :=
  speaks_checkField _ _ (speaks_checkNeeded _ _ _ _ (speaks_checkNumberValue ..))

theorem speaks_checkAudioNumber (field : String) (value : N) (info : FlvInfo N)
    (entry : MetadataEntry N) : Speaks (checkAudioNumber field value info entry) fun _ => True :=
  speaks_checkField _ _ (speaks_checkNeeded _ _ _ _ (speaks_checkNumberValue ..))

theorem speaks_checkDimension (field : String) (value : N) (info : FlvInfo N)
    (entry : MetadataEntry N) : Speaks (checkDimension field value info entry) fun _ => True :=
  speaks_checkField _ _ (speaks_checkNeeded _ _ _ _ (.onlyIf (speaks_warnEntry ..)))

theorem speaks_checkAudiosamplerate (info : FlvInfo N) (entry : MetadataEntry N) :
    Speaks (checkAudiosamplerate info entry) fun _ => True :=
  speaks_checkField _ _ (speaks_checkNeeded _ _ _ _ (.onlyIf (speaks_warnEntry ..)))

theorem speaks_checkAudiodelay (info : FlvInfo N) (entry : MetadataEntry N) :
    Speaks (checkAudiodelay info entry) fun _ => True :=
  speaks_checkField _ _ (speaks_checkNeeded _ _ _ _ (speaks_checkNumberValue ..))

theorem speaks_checkKeyframeTime (entry : MetadataEntry N) (time : N) (fileTime : AmfData N)
    (last : Option N) : Speaks (checkKeyframeTime entry time fileTime last) fun _ => True :=
  .ite (fun _ => .bind (speaks_warnEntry ..) fun _ _ => .pure trivial) fun _ =>
    .bind (.onlyIf (speaks_warnEntry ..)) fun _ _ =>
      .bind (.onlyIf (speaks_warnEntry ..)) fun _ _ => .pure trivial

theorem speaks_checkKeyframePosition (entry : MetadataEntry N) (position : N)
    (filePosition : AmfData N) :
    Speaks (checkKeyframePosition entry position filePosition) fun _ => True :=
  .ite (fun _ => speaks_warnEntry ..) fun _ => .onlyIf (speaks_warnEntry ..)

theorem speaks_checkKeyframeLists (entry : MetadataEntry N) (last : Option N)
    (times positions : List N) (fileTimes filePositions : List (AmfData N)) :
    Speaks (checkKeyframeLists entry last times positions fileTimes filePositions)
      fun _ => True := by
  induction last, times, positions, fileTimes, filePositions using
    checkKeyframeLists.induct with
  | case1 last time times position positions fileTime fileTimes filePosition filePositions ih =>
    rw [checkKeyframeLists]
    exact .bind (speaks_checkKeyframeTime ..) fun last _ =>
      .bind (speaks_checkKeyframePosition ..) fun _ _ => ih last
  | case2 last times positions fileTimes filePositions h =>
    rw [checkKeyframeLists]
    · exact .pure trivial
    · exact h

theorem speaks_checkKeyframeArrays (info : FlvInfo N) (fileTimes filePositions : AmfData N)
    (entry : MetadataEntry N) :
    Speaks (checkKeyframeArrays info fileTimes filePositions entry) fun _ => True := by
  refine .bind (.onlyIf (speaks_warnEntry ..)) fun _ _ => ?_
  refine .bind (.onlyIf (speaks_warnEntry ..)) fun _ _ => ?_
  exact .onlyIf (.ite (fun _ => speaks_warnEntry ..) fun _ => speaks_checkKeyframeLists ..)

theorem speaks_checkKeyframes (info : FlvInfo N) (entry : MetadataEntry N) :
    Speaks (checkKeyframes info entry) fun _ => True := by
  refine .onlyIf (.ite (fun _ => ?_) fun _ => speaks_warnEntry ..)
  refine .bind (.onlyIf (speaks_warnEntry ..)) fun _ _ => ?_
  refine .bind (.onlyIf (speaks_warnEntry ..)) fun _ _ => ?_
  exact .onlyIf (speaks_checkKeyframeArrays ..)

theorem speaks_checkMetadataEntry (ctxt : MetadataContext N) (name data : AmfData N)
    (found : FoundSize) :
    Speaks (checkMetadataEntry ctxt name data found) fun _ => True := by
  refine .bind (speaks_checkHasMetadata _) fun _ _ => ?_
  refine .bind (speaks_checkBoolean ..) fun _ _ => .bind (speaks_checkBoolean ..) fun _ _ => ?_
  -- duration, lasttimestamp and lastkeyframetimestamp
  refine .bind (speaks_checkNumber ..) fun _ _ => .bind (speaks_checkNumber ..) fun _ _ => ?_
  refine .bind (speaks_checkNumber ..) fun _ _ => ?_
  refine .bind (speaks_checkDimension ..) fun _ _ => .bind (speaks_checkDimension ..) fun _ _ => ?_
  refine .bind (speaks_checkVideoNumber ..) fun _ _ => ?_
  refine .bind (speaks_checkVideoNumber ..) fun _ _ => ?_
  refine .bind (speaks_checkAudioNumber ..) fun _ _ => ?_
  refine .bind (speaks_checkAudiosamplerate ..) fun _ _ => ?_
  refine .bind (speaks_checkAudioNumber ..) fun _ _ => .bind (speaks_checkStereo ..) fun _ _ => ?_
  -- the sizes
  refine .bind (speaks_checkNumber ..) fun _ _ => .bind (speaks_checkVideoNumber ..) fun _ _ => ?_
  refine .bind (speaks_checkAudioNumber ..) fun _ _ => .bind (speaks_checkNumber ..) fun _ _ => ?_
  refine .bind (speaks_checkAudioNumber ..) fun _ _ => ?_
  refine .bind (speaks_checkVideoNumber ..) fun _ _ => ?_
  refine .bind (speaks_checkAudiodelay ..) fun _ _ => ?_
  refine .bind (speaks_checkBoolean ..) fun _ _ => .bind (speaks_checkBoolean ..) fun _ _ => ?_
  exact .bind (speaks_checkKeyframes ..) fun _ _ => .pure trivial

theorem speaks_checkMetadataEntries (ctxt : MetadataContext N) (list : List (AmfData N))
    (found : FoundSize) :
    Speaks (checkMetadataEntries ctxt list found) fun r => r.isSome = namesAreStrings list := by
  induction list, found using checkMetadataEntries.induct with
  | case1 found => exact .pure rfl
  | case2 found name hname =>
    rw [checkMetadataEntries, namesAreStrings, if_pos hname, hname]
    exact .bind (speaks_checkMetadataEntry ..) fun _ _ => .pure rfl
  | case3 found name hname =>
    rw [checkMetadataEntries, namesAreStrings, if_neg hname, Bool.eq_false_iff.mpr hname]
    exact .pure rfl
  | case4 found name data rest hname ih =>
    rw [checkMetadataEntries, namesAreStrings, if_pos hname, hname, Bool.true_and]
    exact .bind (speaks_checkMetadataEntry ..) fun found _ => ih found
  | case5 found name data rest hname =>
    rw [checkMetadataEntries, namesAreStrings, if_neg hname, Bool.eq_false_iff.mpr hname,
      Bool.false_and]
    exact .pure rfl

theorem speaks_checkOnMetadataEntries (ctxt : MetadataContext N) :
    Speaks (checkOnMetadataEntries ctxt) fun r => r.isSome = walkable ctxt.onMetadata := by
  unfold checkOnMetadataEntries walkable
  cases walkedNodes ctxt.onMetadata with
  | none => exact .pure rfl
  | some nodes => exact speaks_checkMetadataEntries ..

end

end FlvMeta
