import FlvMeta.Dump.Printf

/-!
# Dumps as plain text

`amfDataDump` prints an AMF tree for a reader, and the callbacks of `rawParser` number the tags.
-/

namespace FlvMeta

variable {N : Type}

/-! ## AMF trees -/

section

variable (lib : DumpLibrary N)

/-- `%*s` of a bracket. -/
def rawClose (indentLevel : ℕ) (bracket : String) : Bytes :=
  xmlSpaces (indentLevel * 4) ++ ascii bracket

mutual

def amfDataDump : AmfData N → ℕ → Bytes
  | .nullPtr, _ => []
  | .number x, _ => lib.formatNumber x
  | .boolean b, _ => if b != 0 then ascii "true" else ascii "false"
  | .string s, _ => ascii "'" ++ (cString s.bytes ++ ascii "'")
  | .object list, indentLevel =>
    ascii "\x7b\n" ++ (amfEntriesDump ": " list indentLevel ++ rawClose indentLevel "\x7d")
  | .null _, _ => ascii "null"
  | .undefined, _ => ascii "undefined"
  | .associativeArray list, indentLevel =>
    ascii "\x7b\n" ++ (amfEntriesDump " => " list indentLevel ++ rawClose indentLevel "\x7d")
  | .array list, indentLevel =>
    ascii "[\n" ++ (amfElementsDump list indentLevel ++ rawClose indentLevel "]")
  | .date milliseconds _, _ => cString (lib.amfDateToIso8601 milliseconds)
  | .other _, _ => []

/-- The loop over names and values. A last name without a value is followed by the dump of NULL. -/
def amfEntriesDump (arrow : String) : List (AmfData N) → ℕ → Bytes
  | [], _ => []
  | [name], indentLevel => xmlSpaces ((indentLevel + 1) * 4) ++
      (amfDataDump name (indentLevel + 1) ++ (ascii arrow ++ ascii "\n"))
  | name :: value :: rest, indentLevel => xmlSpaces ((indentLevel + 1) * 4) ++
      (amfDataDump name (indentLevel + 1) ++ (ascii arrow ++
        (amfDataDump value (indentLevel + 1) ++ (ascii "\n" ++
          amfEntriesDump arrow rest indentLevel))))

def amfElementsDump : List (AmfData N) → ℕ → Bytes
  | [], _ => []
  | element :: rest, indentLevel => xmlSpaces ((indentLevel + 1) * 4) ++
      (amfDataDump element (indentLevel + 1) ++ (ascii "\n" ++ amfElementsDump rest indentLevel))

end

/-- `dump_raw_amf_data`. -/
def dumpRawAmfData (data : AmfData N) : Bytes := amfDataDump lib data 0 ++ ascii "\n"

end

/-! ## Callbacks -/

/-- The number of the tag, and what has been printed. -/
structure RawDump where
  n : ℕ
  output : Bytes

/-- `printf`. -/
def RawDump.print (text : Bytes) (raw : RawDump) : RawDump :=
  { raw with output := raw.output ++ text }

/-- A label and its text, on a line. -/
def rawLine (label : String) (text : Bytes) : Bytes := ascii label ++ (text ++ ascii "\n")

def rawYesNo (flag : UInt8) : Bytes := if flag != 0 then ascii "yes" else ascii "no"

def rawOnHeader (header : FlvHeader) : Callback RawDump := fun raw stream =>
  let raw := { raw with n := 0 }
  let raw := raw.print (rawLine "Magic: " (cString header.signature.bytes))
  let raw := raw.print (rawLine "Version: " (decimal header.version.toNat))
  let raw := raw.print (rawLine "Has audio: " (rawYesNo (flvHeaderHasAudio header)))
  let raw := raw.print (rawLine "Has video: " (rawYesNo (flvHeaderHasVideo header)))
  let raw := raw.print (rawLine "Offset: " (printUnsigned (swapUint32 header.offset)))
  (0, raw, stream)

def rawOnTag (tag : FlvTag) : Callback RawDump := fun raw stream =>
  -- increment current tag number
  let raw := { raw with n := raw.n + 1 }
  let raw := raw.print (ascii "--- Tag #" ++ (printUnsigned raw.n ++ (ascii " at 0x" ++
    printHexadecimal stream.currentTagOffset)))
  let raw := raw.print (ascii " (" ++ (decimal stream.currentTagOffset ++ ascii ") ---\n"))
  let raw := raw.print (rawLine "Tag type: " (dumpStringGetTagType tag))
  let raw := raw.print (rawLine "Body length: " (printUnsigned (flvTagGetBodyLength tag)))
  let raw := raw.print (rawLine "Timestamp: " (printUnsigned (flvTagGetTimestamp tag)))
  (0, raw, stream)

def rawOnVideoTag (_ : FlvTag) (vt : FlvVideoTag) : Callback RawDump := fun raw stream =>
  let raw := raw.print (rawLine "* Video codec: " (dumpStringGetVideoCodec vt))
  let raw := raw.print (rawLine "* Video frame type: " (dumpStringGetVideoFrameType vt))
  if flvVideoTagIsExtHeader vt then
    (0, raw.print (rawLine "* Packet type: " (dumpStringGetExtPacketType vt)), stream)
  else if flvVideoTagCodecId vt = flvVideoTagCodecAvc then
    match flvReadTagBody 1 stream with
    | (type, stream) =>
      if type.length < 1 then (errorInvalidTag, raw, stream)
      else
        let raw := raw.print
          (rawLine "* AVC packet type: " (dumpStringGetAvcPacketType (type.getD 0 0)))
        -- composition time
        if type.getD 0 0 = flvAvcPacketTypeNalu then
          match flvReadTagBody 3 stream with
          | (compositionTime, stream) =>
            if compositionTime.length < 3 then (errorInvalidTag, raw, stream)
            else
              (0, raw.print (rawLine "* Composition time offset: "
                (printInteger (Endian.ofBE compositionTime))), stream)
        else (0, raw, stream)
  else (0, raw, stream)

def rawOnAudioTag (_ : FlvTag) (at' : UInt8) : Callback RawDump := fun raw stream =>
  let raw := raw.print (rawLine "* Sound type: " (dumpStringGetSoundType at'))
  let raw := raw.print (rawLine "* Sound size: " (dumpStringGetSoundSize at'))
  let raw := raw.print (rawLine "* Sound rate: " (dumpStringGetSoundRate at'))
  let raw := raw.print (rawLine "* Sound format: " (dumpStringGetSoundFormat at'))
  if flvAudioTagSoundFormat at' = flvAudioTagSoundFormatAac then
    match flvReadTagBody 1 stream with
    | (type, stream) =>
      if type.length < 1 then (errorInvalidTag, raw, stream)
      else
        (0, raw.print (rawLine "* AAC packet type: " (dumpStringGetAacPacketType (type.getD 0 0))),
          stream)
  else (0, raw, stream)

def rawOnMetadataTag (lib : DumpLibrary N) (_ : FlvTag) (name : Bytes) (data : AmfData N) :
    Callback RawDump := fun raw stream =>
  let raw := raw.print (rawLine "* Metadata event name: " (cString name))
  let raw := raw.print (rawLine "* Metadata contents: " (amfDataDump lib data 0))
  (0, raw, stream)

def rawOnPrevTagSize (size : ℕ) : Callback RawDump := fun raw stream =>
  (0, raw.print (rawLine "Previous tag size: " (printUnsigned size)), stream)

def rawOnStreamEnd : Callback RawDump := fun raw stream => (0, raw, stream)

/-- The callbacks that `dump_raw_file` sets. -/
def rawParser (lib : DumpLibrary N) : FlvParser RawDump N where
  onHeader := some rawOnHeader
  onTag := some rawOnTag
  onMetadataTag := some (rawOnMetadataTag lib)
  onAudioTag := some rawOnAudioTag
  onVideoTag := some rawOnVideoTag
  onUnknownTag := none
  onPrevTagSize := some rawOnPrevTagSize
  onStreamEnd := some rawOnStreamEnd

def dumpRawFile [NumberImage N] (lib : DumpLibrary N) (file : Option Bytes) :
    Option (Int × ParseState RawDump N) :=
  flvParse (rawParser lib) ⟨0, []⟩ file

end FlvMeta
