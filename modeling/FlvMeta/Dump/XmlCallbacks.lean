import FlvMeta.Dump.Printf

/-!
# Dumps of a file in XML

The callbacks of `xmlParser` print the tags of a file while it is parsed. What is printed is the
user data.
-/

namespace FlvMeta

variable {N : Type}

/-- `puts`. -/
def puts (text : String) : Bytes := ascii text ++ [0x0a]

/-- An attribute of a tag. -/
def xmlAttribute (key : String) (value : Bytes) : Bytes :=
  ascii " " ++ (ascii key ++ (ascii "=\"" ++ (value ++ ascii "\"")))

def xmlDeclaration : Bytes := puts "<?xml version=\"1.0\" encoding=\"utf-8\" standalone=\"yes\"?>"

def xmlTrueFalse (flag : UInt8) : Bytes := if flag != 0 then ascii "true" else ascii "false"

def xmlOnHeader (header : FlvHeader) : Callback Bytes := fun output stream =>
  let output := output ++ xmlDeclaration
  let output := output ++ (ascii "<flv" ++
    (xmlAttribute "xmlns" (ascii "http://schemas.flvmeta.org/FLV/1.0/") ++
      (xmlAttribute "xmlns:amf" (ascii "http://schemas.flvmeta.org/AMF0/1.0/") ++
        (xmlAttribute "hasVideo" (xmlTrueFalse (flvHeaderHasVideo header)) ++
          (xmlAttribute "hasAudio" (xmlTrueFalse (flvHeaderHasAudio header)) ++
            (xmlAttribute "version" (decimal header.version.toNat) ++ ascii ">\n"))))))
  (0, output, stream)

def xmlOnTag (tag : FlvTag) : Callback Bytes := fun output stream =>
  let output := output ++ (ascii "  <tag" ++ (xmlAttribute "type" (dumpStringGetTagType tag) ++
    (xmlAttribute "timestamp" (printInteger (flvTagGetTimestamp tag)) ++
      xmlAttribute "dataSize" (printInteger (flvTagGetBodyLength tag)))))
  let output := output ++ (xmlAttribute "offset" (decimal stream.currentTagOffset) ++ ascii ">\n")
  (0, output, stream)

def xmlOnVideoTag (_ : FlvTag) (vt : FlvVideoTag) : Callback Bytes := fun output stream =>
  let output := output ++ (ascii "    <videoData" ++
    xmlAttribute "codecID" (dumpStringGetVideoCodec vt))
  let output := output ++ xmlAttribute "frameType" (dumpStringGetVideoFrameType vt)
  if flvVideoTagIsExtHeader vt then
    let output := output ++ xmlAttribute "packetType" (dumpStringGetExtPacketType vt)
    (0, output ++ ascii "/>\n", stream)
  else if flvVideoTagCodecId vt = flvVideoTagCodecAvc then
    let output := output ++ ascii ">\n"
    match flvReadTagBody 1 stream with
    | (type, stream) =>
      if type.length < 1 then (errorInvalidTag, output, stream)
      else
        let output := output ++ (ascii "        <AVCData" ++
          xmlAttribute "packetType" (dumpStringGetAvcPacketType (type.getD 0 0)))
        -- composition time
        if type.getD 0 0 = flvAvcPacketTypeNalu then
          match flvReadTagBody 3 stream with
          | (compositionTime, stream) =>
            if compositionTime.length < 3 then (errorInvalidTag, output, stream)
            else
              let output := output ++
                xmlAttribute "compositionTimeOffset" (printInteger (Endian.ofBE compositionTime))
              (0, output ++ ascii "/>\n" ++ ascii "    </videoData>\n", stream)
        else (0, output ++ ascii "/>\n" ++ ascii "    </videoData>\n", stream)
  else (0, output ++ ascii "/>\n", stream)

def xmlOnAudioTag (_ : FlvTag) (at' : UInt8) : Callback Bytes := fun output stream =>
  let output := output ++ (ascii "    <audioData" ++
    xmlAttribute "type" (dumpStringGetSoundType at'))
  let output := output ++ xmlAttribute "size" (dumpStringGetSoundSize at')
  let output := output ++ xmlAttribute "rate" (dumpStringGetSoundRate at')
  let output := output ++ xmlAttribute "format" (dumpStringGetSoundFormat at')
  if flvAudioTagSoundFormat at' = flvAudioTagSoundFormatAac then
    let output := output ++ ascii ">\n"
    match flvReadTagBody 1 stream with
    | (type, stream) =>
      if type.length < 1 then (errorInvalidTag, output, stream)
      else
        let output := output ++ (ascii "        <AACData" ++
          (xmlAttribute "packetType" (dumpStringGetAacPacketType (type.getD 0 0)) ++ ascii "/>\n"))
        (0, output ++ ascii "    </audioData>\n", stream)
  else (0, output ++ ascii "/>\n", stream)

def xmlOnMetadataTag (lib : XmlLibrary N) (_ : FlvTag) (name : Bytes) (data : AmfData N) :
    Callback Bytes := fun output stream =>
  let output := output ++ (ascii "    <scriptDataObject" ++
    (xmlAttribute "name" (cString name) ++ ascii ">\n"))
  -- dump AMF data as XML, we start from level 3, meaning 6 indentations characters
  let output := output ++ xmlAmfDataDump lib 1 data 3
  (0, output ++ puts "    </scriptDataObject>", stream)

def xmlOnPrevTagSize (_ : ℕ) : Callback Bytes := fun output stream =>
  (0, output ++ puts "  </tag>", stream)

def xmlOnStreamEnd : Callback Bytes := fun output stream => (0, output ++ puts "</flv>", stream)

/-- The callbacks that `dump_xml_file` sets. -/
def xmlParser (lib : XmlLibrary N) : FlvParser Bytes N where
  onHeader := some xmlOnHeader
  onTag := some xmlOnTag
  onMetadataTag := some (xmlOnMetadataTag lib)
  onAudioTag := some xmlOnAudioTag
  onVideoTag := some xmlOnVideoTag
  onUnknownTag := none
  onPrevTagSize := some xmlOnPrevTagSize
  onStreamEnd := some xmlOnStreamEnd

def dumpXmlFile [NumberImage N] (lib : XmlLibrary N) (file : Option Bytes) :
    Option (Int × ParseState Bytes N) :=
  flvParse (xmlParser lib) [] file

/-- `dump_xml_amf_data`. -/
def dumpXmlAmfData (lib : XmlLibrary N) (data : AmfData N) : Bytes :=
  xmlDeclaration ++ xmlAmfDataDump lib 0 data 0

end FlvMeta
