import FlvMeta.Flv.Stream

/-!
# Names of types and formats

The `dump_string_*` functions. Each is a `switch` from the values of a field to the names that the
dumps print.
-/

namespace FlvMeta

/-- A `switch` that returns a string literal. -/
def dumpString {α : Type} [BEq α] (other : String) (cases : List (α × String)) (value : α) :
    Bytes :=
  ascii ((cases.lookup value).getD other)

/-- Names without zero bytes are C strings. -/
theorem nulFree_dumpString {α : Type} [BEq α] [LawfulBEq α] {other : String}
    {cases : List (α × String)} (hother : NulFree (ascii other))
    (hcases : ∀ c ∈ cases, NulFree (ascii c.2)) (value : α) :
    NulFree (dumpString other cases value) := by
  unfold dumpString
  cases hlookup : cases.lookup value with
  | none => exact hother
  | some name =>
    obtain ⟨before, after, rfl, -⟩ := List.lookup_eq_some_iff.mp hlookup
    exact hcases (value, name) (by simp)

def dumpStringGetTagType (tag : FlvTag) : Bytes :=
  dumpString "Unknown" [
    (flvTagTypeAudio, "audio"),
    (flvTagTypeVideo, "video"),
    (flvTagTypeMeta, "scriptData")] tag.type

def flvVideoTagCodecJpeg : Nat := 1
def flvVideoTagCodecSorensenH263 : Nat := 2
def flvVideoTagCodecScreenVideo : Nat := 3
def flvVideoTagCodecOn2Vp6 : Nat := 4
def flvVideoTagCodecOn2Vp6Alpha : Nat := 5
def flvVideoTagCodecScreenVideoV2 : Nat := 6
def flvVideoTagCodecAvc : Nat := 7

/-- `FOURCC`: four characters as the `uint32` that they are in memory. -/
def fourcc (s : String) : Nat := Endian.ofLE (ascii s)

def dumpStringGetVideoCodec (tag : FlvVideoTag) : Bytes :=
  dumpString "Unknown" [
    (fourcc "hvc1", "HEVC"),
    (fourcc "av01", "AV1"),
    (fourcc "vp09", "VP9"),
    (flvVideoTagCodecJpeg, "JPEG"),
    (flvVideoTagCodecSorensenH263, "Sorenson H.263"),
    (flvVideoTagCodecScreenVideo, "Screen video"),
    (flvVideoTagCodecOn2Vp6, "On2 VP6"),
    (flvVideoTagCodecOn2Vp6Alpha, "On2 VP6 with alpha channel"),
    (flvVideoTagCodecScreenVideoV2, "Screen video version 2"),
    (flvVideoTagCodecAvc, "AVC")] (flvVideoTagCodecId tag)

def dumpStringGetVideoFrameType (tag : FlvVideoTag) : Bytes :=
  dumpString "Unknown" [
    (1, if flvVideoTagCodecId tag = flvVideoTagCodecAvc then "seekable frame" else "keyframe"),
    (2, if flvVideoTagCodecId tag = flvVideoTagCodecAvc then "non-seekable frame"
      else "inter frame"),
    (3, "disposable inter frame"),
    (4, "generated keyframe"),
    (5, "video info/command frame")] (flvVideoTagFrameType tag)

def dumpStringGetExtPacketType (tag : FlvVideoTag) : Bytes :=
  if flvVideoTagIsExtHeader tag then
    dumpString "unknown" [
      (0, "sequence start"),
      (1, "coded frames"),
      (2, "sequence end"),
      (3, "coded frames X"),
      (4, "metadata"),
      (5, "MPEG2TS sequence start")] (flvVideoTagPacketType tag)
  else ascii "Not using extended RTMP, these bits should not be used"

def flvAvcPacketTypeNalu : UInt8 := 1

def dumpStringGetAvcPacketType (type : UInt8) : Bytes :=
  dumpString "Unknown" [
    (0, "AVC sequence header"),
    (flvAvcPacketTypeNalu, "AVC NALU"),
    (2, "AVC sequence end")] type

def dumpStringGetSoundType (tag : UInt8) : Bytes :=
  dumpString "Unknown" [(0, "mono"), (1, "stereo")] (flvAudioTagSoundType tag)

def dumpStringGetSoundSize (tag : UInt8) : Bytes :=
  dumpString "Unknown" [(0, "8"), (1, "16")] (flvAudioTagSoundSize tag)

def dumpStringGetSoundRate (tag : UInt8) : Bytes :=
  dumpString "Unknown" [(0, "5.5"), (1, "11"), (2, "22"), (3, "44")] (flvAudioTagSoundRate tag)

def flvAudioTagSoundFormatAac : UInt8 := 10

def dumpStringGetSoundFormat (tag : UInt8) : Bytes :=
  dumpString "Unknown" [
    (0, "Linear PCM, platform endian"),
    (1, "ADPCM"),
    (2, "MP3"),
    (3, "Linear PCM, little-endian"),
    (4, "Nellymoser 16-kHz mono"),
    (5, "Nellymoser 8-kHz mono"),
    (6, "Nellymoser"),
    (7, "G.711 A-law logarithmic PCM"),
    (8, "G.711 mu-law logarithmic PCM"),
    (9, "reserved"),
    (flvAudioTagSoundFormatAac, "AAC"),
    (11, "Speex"),
    (14, "MP3 8-Khz"),
    (15, "Device-specific sound")] (flvAudioTagSoundFormat tag)

def dumpStringGetAacPacketType (type : UInt8) : Bytes :=
  dumpString "Unknown" [(0, "AAC sequence header"), (1, "AAC raw")] type

theorem nulFree_dumpStringGetTagType (tag : FlvTag) : NulFree (dumpStringGetTagType tag) :=
  nulFree_dumpString (by decide +kernel) (by decide +kernel) tag.type

end FlvMeta
