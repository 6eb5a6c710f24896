import FlvMeta.Amf.Clone
import FlvMeta.Amf.Entries
import FlvMeta.Amf.Write
import FlvMeta.Info.Read

/-!
# Computing the metadata

`computeMetadata` builds the value of `onMetaData` from the information gathered about the file.
The program adds the file size, the data size and the positions of the keyframes first with
preliminary values and sets them when the size of the whole tree is known; here the tree is a
function of these numbers (`buildOnMetadata`), built twice. Its size does not depend on them
(`amfDataSize_buildOnMetadata`).
-/

namespace FlvMeta

variable {N : Type}

/-- `flv_metadata`. -/
structure FlvMetadata (N : Type) where
  onLastSecondName : AmfData N
  onLastSecond : AmfData N
  onMetadataName : AmfData N
  onMetadata : AmfData N

/-- What the program takes from outside: its `PACKAGE_STRING` and the time. -/
structure Environment where
  packageString : Bytes
  time : Int

/-- The numbers that are set when the size of the metadata is known. -/
structure LateNumbers (N : Type) where
  filesize : N
  datasize : N
  filepositions : List N

/-- A `uint32` taken as a `sint32`. -/
def sint32 (x : Nat) : Int :=
  if x % 2 ^ 32 < 2 ^ 31 then (x % 2 ^ 32 : Nat) else (x % 2 ^ 32 : Nat) - 2 ^ 32

def amfBooleanNew (value : Bool) : AmfData N := .boolean (if value then 1 else 0)

/-! ## The entries -/

section

variable [Number64 N]

/-- The conversion of an integer to a `number64`. -/
def number (n : Int) : N := Number64.ofInt n

/-- The duration in seconds, the last media frame included. -/
def duration (opts : FlvmetaOpts N) (info : FlvInfo N) : N :=
  let upTo (frameDuration : Nat) : N :=
    Number64.div
      (Number64.add
        (Number64.sub (number info.lastTimestamp)
          (if opts.resetTimestamps then number 0 else number info.firstTimestamp))
        (number frameDuration))
      (number 1000)
  if info.lastMediaFrameType = flvTagTypeAudio then upTo info.audioFrameDuration
  else if info.lastMediaFrameType = flvTagTypeVideo then upTo info.videoFrameDuration
  else number 0

/-- `((size / 1024.0) * 8.0) / duration`. -/
def dataRate (size : Nat) (duration : N) : N :=
  Number64.div (Number64.mul (Number64.div (number size) (number 1024)) (number 8)) duration

def audioKhz (audioRate : UInt8) : N :=
  match audioRate with
  | 0 => number 5500
  | 1 => number 11000
  | 2 => number 22050
  | 3 => number 44100
  | _ => number 0

def audioSampleSize (audioSize : UInt8) : N :=
  match audioSize with
  | 0 => number 8
  | 1 => number 16
  | _ => number 0

def numberEntry (name : String) (x : N) : Bytes × AmfData N := (ascii name, .number x)

def booleanEntry (name : String) (b : Bool) : Bytes × AmfData N := (ascii name, amfBooleanNew b)

def keyframes (times filepositions : List N) : AmfData N :=
  ((AmfData.object []).add (ascii "times") (.array (times.map .number))).add
    (ascii "filepositions") (.array (filepositions.map .number))

/-- The entries from `hasMetadata` to `keyframes` in the order in which they are added, in groups
that are added under a condition. -/
def entryGroups (env : Environment) (opts : FlvmetaOpts N) (info : FlvInfo N)
    (late : LateNumbers N) : List (Bool × List (Bytes × AmfData N)) :=
  [(true,
      [booleanEntry "hasMetadata" true,
        booleanEntry "hasVideo" info.haveVideo,
        booleanEntry "hasAudio" info.haveAudio,
        numberEntry "duration" (duration opts info),
        numberEntry "lasttimestamp" (seconds info.lastTimestamp),
        numberEntry "lastkeyframetimestamp" (seconds info.lastKeyframeTimestamp)]),
    (0 < info.videoWidth, [numberEntry "width" (number info.videoWidth)]),
    (0 < info.videoHeight, [numberEntry "height" (number info.videoHeight)]),
    (true,
      [numberEntry "videodatarate" (dataRate info.realVideoDataSize (duration opts info)),
        numberEntry "framerate" (Number64.div (number info.videoFramesNumber)
          (duration opts info))]),
    (info.haveAudio,
      [numberEntry "audiodatarate" (dataRate info.realAudioDataSize (duration opts info)),
        numberEntry "audiosamplerate" (audioKhz info.audioRate),
        numberEntry "audiosamplesize" (audioSampleSize info.audioSize),
        booleanEntry "stereo" (info.audioStereo == 1)]),
    (true, [numberEntry "filesize" late.filesize]),
    (info.haveVideo, [numberEntry "videosize" (number info.videoDataSize)]),
    (info.haveAudio, [numberEntry "audiosize" (number info.audioDataSize)]),
    (true,
      [numberEntry "datasize" late.datasize,
        (ascii "metadatacreator", amfStr env.packageString),
        (ascii "metadatadate", .date (Number64.mul (number env.time) (number 1000)) 0)]),
    (info.haveAudio, [numberEntry "audiocodecid" (number info.audioCodec.toNat)]),
    (info.haveVideo, [numberEntry "videocodecid" (number info.videoCodec)]),
    (info.haveAudio && info.haveVideo,
      [numberEntry "audiodelay" (Number64.div
        (number (sint32 (subUint32 info.audioFirstTimestamp info.videoFirstTimestamp)))
        (number 1000))]),
    (true, [booleanEntry "canSeekToEnd" info.canSeekToEnd]),
    (!opts.preserveMetadata ||
        (amfObjectGet info.originalOnMetadata (ascii "cuePoints")).isNull,
      [booleanEntry "hasCuePoints" false, (ascii "cuePoints", .array [])]),
    (true,
      [booleanEntry "hasKeyframes" info.haveKeyframes,
        (ascii "keyframes", keyframes info.times late.filepositions)])]

def computedEntries (env : Environment) (opts : FlvmetaOpts N) (info : FlvInfo N)
    (late : LateNumbers N) : List (Bytes × AmfData N) :=
  (entryGroups env opts info late).flatMap fun group => if group.1 then group.2 else []

/-! ## The tree -/

omit [Number64 N] in
/-- The merge of the names and values of the original metadata: those whose name is not found
are cloned. -/
def mergeMetadata : List (AmfData N) → AmfData N → AmfData N
  | [], data => data
  | [name], data =>
    let name := cString (amfStringGetBytes name)
    if (amfObjectGet data name).isNull then data.add name .nullPtr else data
  | name :: value :: rest, data =>
    let name := cString (amfStringGetBytes name)
    mergeMetadata rest
      (if (amfObjectGet data name).isNull then data.add name (amfDataClone value) else data)

/-- The value of `onMetaData`, with the numbers that depend on its size given. -/
def buildOnMetadata (env : Environment) (opts : FlvmetaOpts N) (info : FlvInfo N)
    (late : LateNumbers N) : AmfData N :=
  let onMetadata := if opts.metadata.isNull then .associativeArray [] else opts.metadata
  let onMetadata := addEntries onMetadata (computedEntries env opts info late)
  if opts.preserveMetadata then mergeMetadata info.originalOnMetadata.listData onMetadata
  else onMetadata

/-- `new_on_metadata_size`, a `uint32`. -/
def newOnMetadataSize (nameSize size : Nat) : Nat :=
  (flvTagSize + 4 + (nameSize + size) % 2 ^ 32) % 2 ^ 32

/-- The size of the `onLastSecond` tag with its previous tag size. -/
def onLastSecondTagSize (onLastSecondSize : Nat) : Nat := flvTagSize + onLastSecondSize + 4

/-- Whether the program takes a keyframe for one after the `onLastSecond` event. -/
def AfterOnLastSecond (opts : FlvmetaOpts N) (info : FlvInfo N) (time : N) : Prop :=
  opts.insertOnlastsecond ∧ ¬ info.haveOnLastSecond ∧
    Number64.le (Number64.sub (number info.lastTimestamp) (Number64.mul time (number 1000)))
      (number 1000)

instance (opts : FlvmetaOpts N) (info : FlvInfo N) (time : N) :
    Decidable (AfterOnLastSecond opts info time) := inferInstanceAs (Decidable (_ ∧ _ ∧ _))

/-- The position of a keyframe in the file to be written. -/
def newFileposition (opts : FlvmetaOpts N) (info : FlvInfo N)
    (newOnMetadataSize onLastSecondSize : Nat) (time fileposition : N) : N :=
  let offset := Number64.sub (Number64.add fileposition (number newOnMetadataSize))
    (number info.onMetadataSize)
  if AfterOnLastSecond opts info time then
    Number64.add offset (number (onLastSecondTagSize onLastSecondSize))
  else offset

/-- Whether an `onLastSecond` tag is counted in the sizes. -/
def countsOnLastSecond (opts : FlvmetaOpts N) (info : FlvInfo N) : Bool :=
  !info.haveOnLastSecond && opts.insertOnlastsecond

/-- `compute_metadata`. -/
def computeMetadata (env : Environment) (opts : FlvmetaOpts N) (info : FlvInfo N) :
    FlvMetadata N :=
  let onLastSecondName : AmfData N := amfStr (ascii "onLastSecond")
  let onLastSecond : AmfData N := .associativeArray []
  let onMetadataName : AmfData N := amfStr (ascii "onMetaData")
  let onMetadata := buildOnMetadata env opts info ⟨number 0, number 0, info.filepositions⟩
  let newSize : Nat := newOnMetadataSize (amfDataSize onMetadataName) (amfDataSize onMetadata)
  let onLastSecondSize : Nat := (amfDataSize onLastSecondName + amfDataSize onLastSecond) % 2 ^ 32
  let filepositions :=
    List.zipWith (newFileposition opts info newSize onLastSecondSize) info.times info.filepositions
  let onMetadata := buildOnMetadata env opts info ⟨number 0, number 0, filepositions⟩
  let dataSize : Nat := info.metaDataSize + flvTagSize +
    (amfDataSize onMetadataName + amfDataSize onMetadata) % 2 ^ 32 +
    (if countsOnLastSecond opts info then onLastSecondSize + flvTagSize else 0)
  let totalFilesize : Nat := flvHeaderSize + info.totalPrevTagsSize + info.videoDataSize +
    info.audioDataSize + info.metaDataSize + newSize +
    (if countsOnLastSecond opts info then onLastSecondTagSize onLastSecondSize % 2 ^ 32 else 0)
  { onLastSecondName
    onLastSecond
    onMetadataName
    onMetadata :=
      buildOnMetadata env opts info ⟨number totalFilesize, number dataSize, filepositions⟩ }

theorem amfDataSize_onMetadataName (env : Environment) (opts : FlvmetaOpts N) (info : FlvInfo N) :
    amfDataSize (computeMetadata env opts info).onMetadataName = 13 := rfl

theorem amfDataSize_onLastSecond (env : Environment) (opts : FlvmetaOpts N) (info : FlvInfo N) :
    amfDataSize (computeMetadata env opts info).onLastSecondName +
      amfDataSize (computeMetadata env opts info).onLastSecond = 23 := rfl

end

end FlvMeta
