import FlvMeta.Amf.Sound
import FlvMeta.Dump.Emitter
import FlvMeta.Dump.Strings
import FlvMeta.Flv.Parse

/-!
# Dumps in JSON

`jsonAmfDataDump` emits an AMF tree, and the callbacks of `jsonParser` emit a file while it is
parsed. A tree of supported values is emitted as the value `toJson`, which has the same nesting and
the same order of keys and elements (`emitsValue_jsonAmfDataDump`).
-/

namespace FlvMeta

open Json

variable {N : Type}

/-- What the dump uses of the C library: `isfinite`, and what a date needs. -/
structure JsonLibrary (N : Type) extends DateLibrary N where
  isfinite : N → Bool

/-! ## AMF trees -/

section

variable (lib : JsonLibrary N)

mutual

def jsonAmfDataDump : AmfData N → JsonEmitter N → JsonEmitter N
  | .nullPtr, je => je
  | .number x, je => jsonEmitNumber lib.isfinite x je
  | .boolean b, je => jsonEmitBoolean b je
  | .string s, je => jsonEmitString s.bytes je
  | .object list, je => jsonEmitObjectEnd (jsonEntriesDump list (jsonEmitObjectStart je))
  | .null _, je => jsonEmitNull je
  | .undefined, je => jsonEmitNull je
  | .associativeArray list, je => jsonEmitObjectEnd (jsonEntriesDump list (jsonEmitObjectStart je))
  | .array list, je => jsonEmitArrayEnd (jsonElementsDump list (jsonEmitArrayStart je))
  | .date milliseconds _, je =>
    jsonEmitString (cString (lib.amfDateToIso8601 milliseconds)) je
  | .other _, je => je

/-- The loop over the names and values of an object. A last name without a value is followed by the
dump of NULL, which is nothing. -/
def jsonEntriesDump : List (AmfData N) → JsonEmitter N → JsonEmitter N
  | [], je => je
  | [name], je => jsonEmitObjectKey name.stringData.bytes je
  | name :: value :: rest, je =>
    jsonEntriesDump rest (jsonAmfDataDump value (jsonEmitObjectKey name.stringData.bytes je))

def jsonElementsDump : List (AmfData N) → JsonEmitter N → JsonEmitter N
  | [], je => je
  | element :: rest, je => jsonElementsDump rest (jsonAmfDataDump element je)

end

mutual

/-- The JSON value of a tree. Numbers that are not finite have none and become null. -/
def toJson : AmfData N → Value (JsonNumber N)
  | .number x => if lib.isfinite x then .literal (.number x) else .null
  | .boolean b => .boolean (b != 0)
  | .string s => .string s.bytes
  | .object list => .object (toJsonMembers list)
  | .associativeArray list => .object (toJsonMembers list)
  | .array list => .array (toJsonElements list)
  | .date milliseconds _ =>
    .string (cString (lib.amfDateToIso8601 milliseconds))
  | _ => .null

def toJsonMembers : List (AmfData N) → List (Bytes × Value (JsonNumber N))
  | name :: value :: rest => (name.stringData.bytes, toJson value) :: toJsonMembers rest
  | _ => []

def toJsonElements : List (AmfData N) → List (Value (JsonNumber N))
  | [] => []
  | element :: rest => toJson element :: toJsonElements rest

end

end

section

variable (lib : JsonLibrary N)

mutual

/-- A tree is emitted as its value. -/
theorem emitsValue_jsonAmfDataDump (data : AmfData N) (h : Supported data) (je : JsonEmitter N) :
    EmitsValue je (jsonAmfDataDump lib data je) (toJson lib data) := by
  cases data with
  | nullPtr => exact absurd h id
  | number x => exact emitsValue_number lib.isfinite x je
  | boolean b => exact emitsValue_boolean b je
  | string s => exact emitsValue_string s.bytes je
  | object list => exact (emitsMembers_jsonEntriesDump list h _).object
  | null errorCode => exact emitsValue_null je
  | undefined => exact emitsValue_null je
  | associativeArray list => exact (emitsMembers_jsonEntriesDump list h _).object
  | array list => exact (emitsElements_jsonElementsDump list h _).array
  | date milliseconds timezone => exact emitsValue_string _ je
  | other type => exact absurd h id

theorem emitsMembers_jsonEntriesDump (list : List (AmfData N)) (h : SupportedEntries list)
    (je : JsonEmitter N) :
    EmitsMembers je (jsonEntriesDump lib list je) (toJsonMembers lib list) :=
  match list, h with
  | [], _ => EmitsMembers.refl je
  | [_], h => absurd h id
  | _ :: value :: rest, ⟨_, hvalue, hrest⟩ =>
    (emitsValue_jsonAmfDataDump value hvalue _).member.trans
      (emitsMembers_jsonEntriesDump rest hrest _)

theorem emitsElements_jsonElementsDump (list : List (AmfData N)) (h : SupportedElements list)
    (je : JsonEmitter N) :
    EmitsElements je (jsonElementsDump lib list je) (toJsonElements lib list) :=
  match list, h with
  | [], _ => EmitsElements.refl je
  | element :: rest, ⟨helement, hrest⟩ =>
    (emitsValue_jsonAmfDataDump element helement _).element.trans
      (emitsElements_jsonElementsDump rest hrest _)

end

end

/-! ## Callbacks -/

/-- The status `ERROR_INVALID_TAG` of the program. -/
def errorInvalidTag : Int := 7

def jsonOnHeader (header : FlvHeader) : Callback (JsonEmitter N) := fun je stream =>
  let je := jsonEmitObjectStart je
  let je := jsonEmitObjectKeyZ (ascii "magic") je
  let je := jsonEmitString header.signature.bytes je
  let je := jsonEmitObjectKeyZ (ascii "hasVideo") je
  let je := jsonEmitBoolean (flvHeaderHasVideo header) je
  let je := jsonEmitObjectKeyZ (ascii "hasAudio") je
  let je := jsonEmitBoolean (flvHeaderHasAudio header) je
  let je := jsonEmitObjectKeyZ (ascii "version") je
  let je := jsonEmitInteger header.version.toNat je
  let je := jsonEmitObjectKeyZ (ascii "tags") je
  let je := jsonEmitArrayStart je
  (0, je, stream)

def jsonOnTag (tag : FlvTag) : Callback (JsonEmitter N) := fun je stream =>
  let je := jsonEmitObjectStart je
  let je := jsonEmitObjectKeyZ (ascii "type") je
  let je := jsonEmitStringZ (dumpStringGetTagType tag) je
  let je := jsonEmitObjectKeyZ (ascii "timestamp") je
  let je := jsonEmitInteger (flvTagGetTimestamp tag) je
  let je := jsonEmitObjectKeyZ (ascii "dataSize") je
  let je := jsonEmitInteger (flvTagGetBodyLength tag) je
  let je := jsonEmitObjectKeyZ (ascii "offset") je
  let je := jsonEmitFileOffset stream.currentTagOffset je
  (0, je, stream)

def jsonOnVideoTag (_ : FlvTag) (vt : FlvVideoTag) : Callback (JsonEmitter N) := fun je stream =>
  let je := jsonEmitObjectKeyZ (ascii "videoData") je
  let je := jsonEmitObjectStart je
  let je := jsonEmitObjectKeyZ (ascii "codecID") je
  let je := jsonEmitStringZ (dumpStringGetVideoCodec vt) je
  let je := jsonEmitObjectKeyZ (ascii "frameType") je
  let je := jsonEmitStringZ (dumpStringGetVideoFrameType vt) je
  if flvVideoTagIsExtHeader vt then
    let je := jsonEmitObjectKeyZ (ascii "packetType") je
    let je := jsonEmitStringZ (dumpStringGetExtPacketType vt) je
    (0, jsonEmitObjectEnd je, stream)
  else if flvVideoTagCodecId vt = flvVideoTagCodecAvc then
    match flvReadTagBody 1 stream with
    | (type, stream) =>
      if type.length < 1 then (errorInvalidTag, je, stream)
      else
        let je := jsonEmitObjectKeyZ (ascii "AVCData") je
        let je := jsonEmitObjectStart je
        let je := jsonEmitObjectKeyZ (ascii "packetType") je
        let je := jsonEmitStringZ (dumpStringGetAvcPacketType (type.getD 0 0)) je
        -- composition time
        if type.getD 0 0 = flvAvcPacketTypeNalu then
          match flvReadTagBody 3 stream with
          | (compositionTime, stream) =>
            if compositionTime.length < 3 then (errorInvalidTag, je, stream)
            else
              let je := jsonEmitObjectKeyZ (ascii "compositionTimeOffset") je
              let je := jsonEmitInteger (Endian.ofBE compositionTime) je
              (0, jsonEmitObjectEnd (jsonEmitObjectEnd je), stream)
        else (0, jsonEmitObjectEnd (jsonEmitObjectEnd je), stream)
  else (0, jsonEmitObjectEnd je, stream)

def jsonOnAudioTag (_ : FlvTag) (at' : UInt8) : Callback (JsonEmitter N) := fun je stream =>
  let je := jsonEmitObjectKeyZ (ascii "audioData") je
  let je := jsonEmitObjectStart je
  let je := jsonEmitObjectKeyZ (ascii "type") je
  let je := jsonEmitStringZ (dumpStringGetSoundType at') je
  let je := jsonEmitObjectKeyZ (ascii "size") je
  let je := jsonEmitStringZ (dumpStringGetSoundSize at') je
  let je := jsonEmitObjectKeyZ (ascii "rate") je
  let je := jsonEmitStringZ (dumpStringGetSoundRate at') je
  let je := jsonEmitObjectKeyZ (ascii "format") je
  let je := jsonEmitStringZ (dumpStringGetSoundFormat at') je
  if flvAudioTagSoundFormat at' = flvAudioTagSoundFormatAac then
    match flvReadTagBody 1 stream with
    | (type, stream) =>
      if type.length < 1 then (errorInvalidTag, je, stream)
      else
        let je := jsonEmitObjectKeyZ (ascii "AACData") je
        let je := jsonEmitObjectStart je
        let je := jsonEmitObjectKeyZ (ascii "packetType") je
        let je := jsonEmitStringZ (dumpStringGetAacPacketType (type.getD 0 0)) je
        (0, jsonEmitObjectEnd (jsonEmitObjectEnd je), stream)
  else (0, jsonEmitObjectEnd je, stream)

def jsonOnMetadataTag (lib : JsonLibrary N) (_ : FlvTag) (name : Bytes) (data : AmfData N) :
    Callback (JsonEmitter N) := fun je stream =>
  let je := jsonEmitObjectKeyZ (ascii "scriptDataObject") je
  let je := jsonEmitObjectStart je
  let je := jsonEmitObjectKeyZ (ascii "name") je
  let je := jsonEmitStringZ name je
  let je := jsonEmitObjectKeyZ (ascii "metadata") je
  let je := jsonAmfDataDump lib data je
  (0, jsonEmitObjectEnd je, stream)

def jsonOnPrevTagSize (_ : Nat) : Callback (JsonEmitter N) := fun je stream =>
  (0, jsonEmitObjectEnd je, stream)

def jsonOnStreamEnd : Callback (JsonEmitter N) := fun je stream =>
  (0, jsonEmitObjectEnd (jsonEmitArrayEnd je), stream)

/-- The callbacks that `dump_json_file` sets. -/
def jsonParser (lib : JsonLibrary N) : FlvParser (JsonEmitter N) N where
  onHeader := some jsonOnHeader
  onTag := some jsonOnTag
  onMetadataTag := some (jsonOnMetadataTag lib)
  onAudioTag := some jsonOnAudioTag
  onVideoTag := some jsonOnVideoTag
  onUnknownTag := none
  onPrevTagSize := some jsonOnPrevTagSize
  onStreamEnd := some jsonOnStreamEnd

def dumpJsonFile [NumberImage N] (lib : JsonLibrary N) (file : Option Bytes) :
    Option (Int × ParseState (JsonEmitter N) N) :=
  flvParse (jsonParser lib) jsonEmitInit file

end FlvMeta
