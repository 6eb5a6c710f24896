import FlvMeta.Base.Yaml
import FlvMeta.Dump.Printf

/-!
# Dumps in YAML

The dump hands events to an emitter, and `amfDataYamlDump` and the callbacks of `yamlParser` are
modelled by the events that they add. A tree of supported values is the node `toYaml`
(`amfDataYamlDump_eq`).
-/

namespace FlvMeta

open Yaml

variable {N : Type}

/-! ## AMF trees -/

section

variable (lib : DumpLibrary N)

mutual

/-- `amf_data_yaml_dump`: the events that are emitted. -/
def amfDataYamlDump : AmfData N → List Event
  | .nullPtr => []
  | .number x => [.scalar (lib.formatNumber x)]
  | .boolean b => [.scalar (if b != 0 then ascii "true" else ascii "false")]
  | .string s => [.scalar s.bytes]
  | .object list => .mappingStart :: (yamlEntriesDump list ++ [.mappingEnd])
  | .null _ => [.scalar (ascii "null")]
  | .undefined => [.scalar (ascii "null")]
  | .associativeArray list => .mappingStart :: (yamlEntriesDump list ++ [.mappingEnd])
  | .array list => .sequenceStart :: (yamlElementsDump list ++ [.sequenceEnd])
  | .date milliseconds _ =>
    [.scalar (cString (lib.amfDateToIso8601 milliseconds))]
  | .other _ => []

/-- The loop over names and values. A last name without a value is followed by the dump of NULL. -/
def yamlEntriesDump : List (AmfData N) → List Event
  | [] => []
  | [name] => [.scalar (amfStringGetBytes name)]
  | name :: value :: rest =>
    .scalar (amfStringGetBytes name) :: (amfDataYamlDump value ++ yamlEntriesDump rest)

def yamlElementsDump : List (AmfData N) → List Event
  | [] => []
  | element :: rest => amfDataYamlDump element ++ yamlElementsDump rest

end

mutual

/-- The node of a tree. -/
def toYaml : AmfData N → Node
  | .number x => .scalar (lib.formatNumber x)
  | .boolean b => .scalar (if b != 0 then ascii "true" else ascii "false")
  | .string s => .scalar s.bytes
  | .object list => .mapping (toYamlMembers list)
  | .associativeArray list => .mapping (toYamlMembers list)
  | .array list => .sequence (toYamlItems list)
  | .date milliseconds _ =>
    .scalar (cString (lib.amfDateToIso8601 milliseconds))
  | _ => .scalar (ascii "null")

def toYamlMembers : List (AmfData N) → List (Node × Node)
  | name :: value :: rest =>
    (.scalar (amfStringGetBytes name), toYaml value) :: toYamlMembers rest
  | _ => []

def toYamlItems : List (AmfData N) → List Node
  | [] => []
  | element :: rest => toYaml element :: toYamlItems rest

end

mutual

/-- The events of a supported tree are those of its node. -/
theorem amfDataYamlDump_eq (data : AmfData N) (h : Supported data) :
    amfDataYamlDump lib data = events (toYaml lib data) := by
  cases data with
  | nullPtr => exact absurd h id
  | object list =>
    rw [amfDataYamlDump, toYaml, events, yamlEntriesDump_eq list h]
  | associativeArray list =>
    rw [amfDataYamlDump, toYaml, events, yamlEntriesDump_eq list h]
  | array list =>
    rw [amfDataYamlDump, toYaml, events, yamlElementsDump_eq list h]
  | other type => exact absurd h id
  | _ => rfl

theorem yamlEntriesDump_eq (list : List (AmfData N)) (h : SupportedEntries list) :
    yamlEntriesDump lib list = memberEvents (toYamlMembers lib list) :=
  match list, h with
  | [], _ => rfl
  | [_], h => absurd h id
  | name :: value :: rest, ⟨_, hvalue, hrest⟩ => by
    rw [yamlEntriesDump, toYamlMembers, memberEvents, amfDataYamlDump_eq value hvalue,
      yamlEntriesDump_eq rest hrest]
    rfl

theorem yamlElementsDump_eq (list : List (AmfData N)) (h : SupportedElements list) :
    yamlElementsDump lib list = itemEvents (toYamlItems lib list) :=
  match list, h with
  | [], _ => rfl
  | element :: rest, ⟨helement, hrest⟩ => by
    rw [yamlElementsDump, toYamlItems, itemEvents, amfDataYamlDump_eq element helement,
      yamlElementsDump_eq rest hrest]

end

end

/-! ## Callbacks -/

/-- The events that the emitter has been given. -/
abbrev YamlOutput := List Event

/-- A scalar that names the next one. -/
def yamlKey (key : String) (emitter : YamlOutput) : YamlOutput := emitter ++ [.scalar (ascii key)]

/-- A scalar of which `strlen` gives the length. -/
def yamlScalar (value : Bytes) (emitter : YamlOutput) : YamlOutput :=
  emitter ++ [.scalar (cString value)]

def yamlEmit (event : Event) (emitter : YamlOutput) : YamlOutput := emitter ++ [event]

def yamlOnHeader (header : FlvHeader) : Callback YamlOutput := fun emitter stream =>
  let emitter := yamlEmit .mappingStart emitter
  let emitter := yamlKey "magic" emitter
  let emitter := yamlScalar header.signature.bytes emitter
  let emitter := yamlKey "hasVideo" emitter
  let emitter := yamlScalar
    (if flvHeaderHasVideo header != 0 then ascii "true" else ascii "false") emitter
  let emitter := yamlKey "hasAudio" emitter
  let emitter := yamlScalar
    (if flvHeaderHasAudio header != 0 then ascii "true" else ascii "false") emitter
  let emitter := yamlKey "version" emitter
  let emitter := yamlScalar (printInteger header.version.toNat) emitter
  -- start of tags array
  let emitter := yamlKey "tags" emitter
  let emitter := yamlEmit .sequenceStart emitter
  (0, emitter, stream)

def yamlOnTag (tag : FlvTag) : Callback YamlOutput := fun emitter stream =>
  let emitter := yamlEmit .mappingStart emitter
  let emitter := yamlKey "type" emitter
  let emitter := yamlScalar (dumpStringGetTagType tag) emitter
  let emitter := yamlKey "timestamp" emitter
  let emitter := yamlScalar (printInteger (flvTagGetTimestamp tag)) emitter
  let emitter := yamlKey "dataSize" emitter
  let emitter := yamlScalar (printInteger (flvTagGetBodyLength tag)) emitter
  let emitter := yamlKey "offset" emitter
  let emitter := yamlScalar (decimal stream.currentTagOffset) emitter
  (0, emitter, stream)

def yamlOnVideoTag (_ : FlvTag) (vt : FlvVideoTag) : Callback YamlOutput := fun emitter stream =>
  let emitter := yamlKey "videoData" emitter
  let emitter := yamlEmit .mappingStart emitter
  let emitter := yamlKey "codecID" emitter
  let emitter := yamlScalar (dumpStringGetVideoCodec vt) emitter
  let emitter := yamlKey "frameType" emitter
  let emitter := yamlScalar (dumpStringGetVideoFrameType vt) emitter
  if flvVideoTagIsExtHeader vt then
    let emitter := yamlKey "packetType" emitter
    let emitter := yamlScalar (dumpStringGetExtPacketType vt) emitter
    (0, yamlEmit .mappingEnd emitter, stream)
  else if flvVideoTagCodecId vt = flvVideoTagCodecAvc then
    match flvReadTagBody 1 stream with
    | (type, stream) =>
      if type.length < 1 then (errorInvalidTag, emitter, stream)
      else
        let emitter := yamlKey "AVCData" emitter
        let emitter := yamlEmit .mappingStart emitter
        let emitter := yamlKey "packetType" emitter
        let emitter := yamlScalar (dumpStringGetAvcPacketType (type.getD 0 0)) emitter
        -- composition time
        if type.getD 0 0 = flvAvcPacketTypeNalu then
          match flvReadTagBody 3 stream with
          | (compositionTime, stream) =>
            if compositionTime.length < 3 then (errorInvalidTag, emitter, stream)
            else
              let emitter := yamlKey "compositionTimeOffset" emitter
              let emitter := yamlScalar (printInteger (Endian.ofBE compositionTime)) emitter
              (0, yamlEmit .mappingEnd (yamlEmit .mappingEnd emitter), stream)
        else (0, yamlEmit .mappingEnd (yamlEmit .mappingEnd emitter), stream)
  else (0, yamlEmit .mappingEnd emitter, stream)

def yamlOnAudioTag (_ : FlvTag) (at' : UInt8) : Callback YamlOutput := fun emitter stream =>
  let emitter := yamlKey "audioData" emitter
  let emitter := yamlEmit .mappingStart emitter
  let emitter := yamlKey "type" emitter
  let emitter := yamlScalar (dumpStringGetSoundType at') emitter
  let emitter := yamlKey "size" emitter
  let emitter := yamlScalar (dumpStringGetSoundSize at') emitter
  let emitter := yamlKey "rate" emitter
  let emitter := yamlScalar (dumpStringGetSoundRate at') emitter
  let emitter := yamlKey "format" emitter
  let emitter := yamlScalar (dumpStringGetSoundFormat at') emitter
  if flvAudioTagSoundFormat at' = flvAudioTagSoundFormatAac then
    match flvReadTagBody 1 stream with
    | (type, stream) =>
      if type.length < 1 then (errorInvalidTag, emitter, stream)
      else
        let emitter := yamlKey "AACData" emitter
        let emitter := yamlEmit .mappingStart emitter
        let emitter := yamlKey "packetType" emitter
        let emitter := yamlScalar (dumpStringGetAacPacketType (type.getD 0 0)) emitter
        (0, yamlEmit .mappingEnd (yamlEmit .mappingEnd emitter), stream)
  else (0, yamlEmit .mappingEnd emitter, stream)

def yamlOnMetadataTag (lib : DumpLibrary N) (_ : FlvTag) (_ : Bytes) (data : AmfData N) :
    Callback YamlOutput := fun emitter stream =>
  let emitter := yamlKey "scriptDataObject" emitter
  (0, emitter ++ amfDataYamlDump lib data, stream)

def yamlOnPrevTagSize (_ : ℕ) : Callback YamlOutput := fun emitter stream =>
  (0, yamlEmit .mappingEnd emitter, stream)

def yamlOnStreamEnd : Callback YamlOutput := fun emitter stream =>
  (0, yamlEmit .mappingEnd (yamlEmit .sequenceEnd emitter), stream)

/-- The callbacks that `dump_yaml_file` sets. -/
def yamlParser (lib : DumpLibrary N) : FlvParser YamlOutput N where
  onHeader := some yamlOnHeader
  onTag := some yamlOnTag
  onMetadataTag := some (yamlOnMetadataTag lib)
  onAudioTag := some yamlOnAudioTag
  onVideoTag := some yamlOnVideoTag
  onUnknownTag := none
  onPrevTagSize := some yamlOnPrevTagSize
  onStreamEnd := some yamlOnStreamEnd

/-- `yaml_emitter_open`, and the start of the document. -/
def yamlOpen : YamlOutput := [.streamStart, .documentStart]

/-- The end of the document, and `yaml_emitter_close`. -/
def yamlClose (emitter : YamlOutput) : YamlOutput := emitter ++ [.documentEnd, .streamEnd]

/-- `dump_yaml_amf_data`. -/
def dumpYamlAmfData (lib : DumpLibrary N) (data : AmfData N) : YamlOutput :=
  yamlClose (yamlOpen ++ amfDataYamlDump lib data)

def dumpYamlFile [NumberImage N] (lib : DumpLibrary N) (file : Option Bytes) :
    Option (Int × ParseState YamlOutput N) :=
  (flvParse (yamlParser lib) yamlOpen file).map fun r =>
    (r.1, { r.2 with user := yamlClose r.2.user })

end FlvMeta
