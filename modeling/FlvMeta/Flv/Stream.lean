import FlvMeta.Amf.Read

/-!
# The FLV stream

An `FlvStream` is an open input file together with where the reader is in the sequence of
header, tags, tag bodies and previous tag sizes. The functions of this file are those of the
program, with the structures they fill as results. The stream and its file are never NULL here.
-/

namespace FlvMeta

open Endian Stdio

/-- The statuses of the stream functions. -/
inductive FlvStatus where
  | ok | errorOpenRead | errorNoFlv | errorEof | errorMemory | errorEmptyTag
  | errorInvalidMetadataName | errorInvalidMetadata
deriving DecidableEq, Repr

/-! ## Header and tags -/

/-- `offset` is a `uint32_be`: the integer whose memory image is in the file. -/
structure FlvHeader where
  signature : Uint24Be
  version : UInt8
  flags : UInt8
  offset : Nat
deriving DecidableEq, Repr

def flvHeaderSize : Nat := 9

def flvFlagVideo : UInt8 := 0x01
def flvFlagAudio : UInt8 := 0x04

def flvHeaderHasVideo (header : FlvHeader) : UInt8 := header.flags &&& flvFlagVideo
def flvHeaderHasAudio (header : FlvHeader) : UInt8 := header.flags &&& flvFlagAudio

structure FlvTag where
  type : UInt8
  bodyLength : Uint24Be
  timestamp : Uint24Be
  timestampExtended : UInt8
  streamId : Uint24Be
deriving DecidableEq, Repr

def flvTagSize : Nat := 11

def flvTagTypeAudio : UInt8 := 0x08
def flvTagTypeVideo : UInt8 := 0x09
def flvTagTypeMeta : UInt8 := 0x12

def flvTagGetBodyLength (tag : FlvTag) : Nat := uint24BeToUint32 tag.bodyLength

def flvTagGetTimestamp (tag : FlvTag) : Nat :=
  uint24BeToUint32 tag.timestamp + tag.timestampExtended.toNat * 2 ^ 24

def flvTagSetTimestamp (tag : FlvTag) (timestamp : Nat) : FlvTag :=
  { tag with
    timestamp := uint32ToUint24Be timestamp
    timestampExtended := UInt8.ofNat (timestamp / 2 ^ 24) }

/-! ## Audio and video tags -/

def flvAudioTagSoundType (tag : UInt8) : UInt8 := tag &&& 0x01
def flvAudioTagSoundSize (tag : UInt8) : UInt8 := (tag &&& 0x02) >>> 1
def flvAudioTagSoundRate (tag : UInt8) : UInt8 := (tag &&& 0x0C) >>> 2
def flvAudioTagSoundFormat (tag : UInt8) : UInt8 := (tag &&& 0xF0) >>> 4

/-- `fourcc` is only set in an extended header. -/
structure FlvVideoTag where
  videoTag : UInt8
  fourcc : Nat
deriving DecidableEq, Repr

/-- `sizeof(flv_video_tag)`: a byte, three bytes of padding and a `uint32`. -/
def sizeofFlvVideoTag : Nat := 8

def flvVideoTagFrameType (tag : FlvVideoTag) : UInt8 := (tag.videoTag &&& 0x70) >>> 4

def flvVideoTagIsExtHeader (tag : FlvVideoTag) : Bool := (tag.videoTag &&& 0x80) >>> 7 == 1

def flvVideoTagPacketType (tag : FlvVideoTag) : UInt8 := tag.videoTag &&& 0x0F

def flvVideoTagCodecId (tag : FlvVideoTag) : Nat :=
  if flvVideoTagIsExtHeader tag then tag.fourcc else (tag.videoTag &&& 0x0F).toNat

def flvVideoTagFrameTypeKeyframe : UInt8 := 1

/-! ## The stream -/

inductive StreamState where
  | start | tag | tagBody | prevTagSize
deriving DecidableEq, Repr

/-- `currentTagBodyLength` is what is left of the body of the current tag. -/
structure FlvStream where
  flvin : InFile
  state : StreamState
  currentTag : FlvTag
  currentTagOffset : Nat
  currentTagBodyLength : Nat
  currentTagBodyOverflow : Nat
deriving DecidableEq, Repr

/-- The current tag of a new stream is not initialised; it is not used before a tag is read. -/
def noTag : FlvTag := ⟨0, ⟨0, 0, 0⟩, ⟨0, 0, 0⟩, 0, ⟨0, 0, 0⟩⟩

/-- `flv_open` on a file with a given content. -/
def flvOpen (content : Bytes) : FlvStream :=
  { flvin := InFile.ofContent content
    state := .start
    currentTag := noTag
    currentTagOffset := 0
    currentTagBodyLength := 0
    currentTagBodyOverflow := 0 }

/-- The four reads of `flv_read_header`. -/
def readHeaderFields (f : InFile) : Option FlvHeader × InFile :=
  match f.freadItems [3, 1, 1, 4] with
  | (some [signature, version, flags, offset], f) =>
    (some ⟨Uint24Be.ofBytes signature, version.getD 0 0, flags.getD 0 0, ofLE offset⟩, f)
  | (_, f) => (none, f)

def flvReadHeader (stream : FlvStream) : Except FlvStatus FlvHeader × FlvStream :=
  if stream.flvin.eof ∨ stream.state ≠ .start then (.error .errorEof, stream)
  else
    match readHeaderFields stream.flvin with
    | (none, flvin) => (.error .errorEof, { stream with flvin })
    | (some header, flvin) =>
      if header.signature ≠ ⟨0x46, 0x4C, 0x56⟩ then (.error .errorNoFlv, { stream with flvin })
      else (.ok header, { stream with flvin, state := .prevTagSize })

/-- The seek past what is left of the body of the current tag. -/
def skipTagBody (stream : FlvStream) : FlvStream :=
  if stream.state = .tagBody then
    { stream with
      flvin := stream.flvin.seekSet
        (stream.currentTagOffset + flvTagSize + flvTagGetBodyLength stream.currentTag)
      state := .prevTagSize }
  else stream

def flvReadPrevTagSize (stream : FlvStream) : Except FlvStatus Nat × FlvStream :=
  if stream.flvin.eof then (.error .errorEof, stream)
  else
    let stream := skipTagBody stream
    if stream.state = .prevTagSize then
      match stream.flvin.freadItem 4 with
      | (none, flvin) => (.error .errorEof, { stream with flvin })
      | (some val, flvin) => (.ok (swapUint32 (ofLE val)), { stream with flvin, state := .tag })
    else (.error .errorEof, stream)

/-- The five reads of `flv_read_tag`. -/
def readTagFields (f : InFile) : Option FlvTag × InFile :=
  match f.freadItems [1, 3, 3, 1, 3] with
  | (some [type, bodyLength, timestamp, timestampExtended, streamId], f) =>
    (some ⟨type.getD 0 0, Uint24Be.ofBytes bodyLength, Uint24Be.ofBytes timestamp,
      timestampExtended.getD 0 0, Uint24Be.ofBytes streamId⟩, f)
  | (_, f) => (none, f)

/-- The seek past the header of the file. -/
def skipHeader (stream : FlvStream) : FlvStream :=
  if stream.state = .start then
    { stream with flvin := stream.flvin.seekCur flvHeaderSize, state := .prevTagSize }
  else stream

def skipPrevTagSize (stream : FlvStream) : FlvStream :=
  if stream.state = .prevTagSize then
    { stream with flvin := stream.flvin.seekCur 4, state := .tag }
  else stream

def flvReadTag (stream : FlvStream) : Except FlvStatus FlvTag × FlvStream :=
  if stream.flvin.eof then (.error .errorEof, stream)
  else
    let stream := skipPrevTagSize (skipTagBody (skipHeader stream))
    if stream.state = .tag then
      let stream := { stream with currentTagOffset := stream.flvin.pos }
      match readTagFields stream.flvin with
      | (none, flvin) => (.error .errorEof, { stream with flvin })
      | (some tag, flvin) =>
        (.ok tag, { stream with
          flvin
          currentTag := tag
          currentTagBodyLength := flvTagGetBodyLength tag
          currentTagBodyOverflow := 0
          state := .tagBody })
    else (.error .errorEof, stream)

/-- How the functions that decode a part of a body end: the part is taken off the remaining
length, and when nothing remains the file is moved back by what was read too much. -/
def takeOffBody (size : Nat) (stream : FlvStream) : FlvStream :=
  let stream :=
    if size ≤ stream.currentTagBodyLength then
      { stream with currentTagBodyLength := stream.currentTagBodyLength - size }
    else
      { stream with
        currentTagBodyOverflow := subUint32 size stream.currentTagBodyLength
        currentTagBodyLength := 0 }
  if stream.currentTagBodyLength = 0 then
    { stream with
      state := .prevTagSize
      flvin :=
        if 0 < stream.currentTagBodyOverflow then
          stream.flvin.seekCur (-(stream.currentTagBodyOverflow : Int))
        else stream.flvin }
  else stream

/-- What every function on a tag body checks first. -/
def NoBody (stream : FlvStream) : Prop := stream.flvin.eof ∨ stream.state ≠ .tagBody

instance (stream : FlvStream) : Decidable (NoBody stream) :=
  inferInstanceAs (Decidable (_ ∨ _))

def flvReadAudioTag (stream : FlvStream) : Except FlvStatus UInt8 × FlvStream :=
  if NoBody stream then (.error .errorEof, stream)
  else if stream.currentTagBodyLength = 0 then (.error .errorEmptyTag, stream)
  else
    match stream.flvin.freadItem 1 with
    | (none, flvin) => (.error .errorEof, { stream with flvin })
    | (some tag, flvin) => (.ok (tag.getD 0 0), takeOffBody 1 { stream with flvin })

/-- `flv_read_tag_body`: the bytes put into a buffer of a given size. -/
def flvReadTagBody (bufferSize : Nat) (stream : FlvStream) : Bytes × FlvStream :=
  if NoBody stream then ([], stream)
  else
    match stream.flvin.fread (min bufferSize stream.currentTagBodyLength) with
    | (buffer, flvin) =>
      let length := stream.currentTagBodyLength - buffer.length
      (buffer, { stream with
        flvin
        currentTagBodyLength := length
        state := if length = 0 then .prevTagSize else .tagBody })

def flvReadFourccCodec (tag : FlvVideoTag) (stream : FlvStream) :
    Except FlvStatus FlvVideoTag × FlvStream :=
  match flvReadTagBody 4 stream with
  | (fourcc, stream) =>
    if fourcc.length ≠ 4 then (.error .errorEof, stream)
    else (.ok { tag with fourcc := ofLE fourcc }, stream)

def flvReadVideoTag (stream : FlvStream) : Except FlvStatus FlvVideoTag × FlvStream :=
  if NoBody stream then (.error .errorEof, stream)
  else if stream.currentTagBodyLength = 0 then (.error .errorEmptyTag, stream)
  else
    match stream.flvin.freadItem 1 with
    | (none, flvin) => (.error .errorEof, { stream with flvin })
    | (some videoTag, flvin) =>
      let tag : FlvVideoTag := ⟨videoTag.getD 0 0, 0⟩
      let stream := takeOffBody 1 { stream with flvin }
      if flvVideoTagIsExtHeader tag then flvReadFourccCodec tag stream else (.ok tag, stream)

/-- What `flv_read_metadata` gives: a status, and the name and the data it has read, NULL when
it has not come to them. -/
structure MetadataResult (N : Type) where
  status : FlvStatus
  name : AmfData N
  data : AmfData N

/-- `flv_read_metadata`. When the name fills the body, its length is set to zero before the
overflow is computed from it. -/
def flvReadMetadata {N : Type} [NumberImage N] (stream : FlvStream) :
    MetadataResult N × FlvStream :=
  if NoBody stream then (⟨.errorEof, .nullPtr, .nullPtr⟩, stream)
  else if stream.currentTagBodyLength = 0 then (⟨.errorEmptyTag, .nullPtr, .nullPtr⟩, stream)
  else
    match (amfDataFileRead stream.flvin : AmfData N × InFile) with
    | (name, flvin) =>
      let stream := { stream with flvin }
      if amfDataGetErrorCode name = .eof then (⟨.errorEof, name, .nullPtr⟩, stream)
      else if amfDataGetErrorCode name ≠ .ok then
        (⟨.errorInvalidMetadataName, name, .nullPtr⟩, stream)
      else if stream.currentTagBodyLength ≤ amfDataSize name then
        let stream := { stream with currentTagBodyLength := 0 }
        let stream := { stream with
          currentTagBodyOverflow := subUint32 (amfDataSize name) stream.currentTagBodyLength
          state := .prevTagSize }
        (⟨.errorInvalidMetadata, name, .nullPtr⟩, { stream with
          flvin :=
            if 0 < stream.currentTagBodyOverflow then
              stream.flvin.seekCur (-(stream.currentTagBodyOverflow : Int))
            else stream.flvin })
      else
        let stream := { stream with
          currentTagBodyLength := stream.currentTagBodyLength - amfDataSize name }
        match (amfDataFileRead stream.flvin : AmfData N × InFile) with
        | (data, flvin) =>
          let stream := { stream with flvin }
          if amfDataGetErrorCode data = .eof then (⟨.errorEof, name, data⟩, stream)
          else if amfDataGetErrorCode data ≠ .ok then (⟨.errorInvalidMetadata, name, data⟩, stream)
          else (⟨.ok, name, data⟩, takeOffBody (amfDataSize data) stream)

def flvGetOffset (stream : FlvStream) : Nat := stream.flvin.pos

def flvGetCurrentTagOffset (stream : FlvStream) : Nat := stream.currentTagOffset

/-- `flv_reset`. -/
def flvReset (stream : FlvStream) : FlvStream :=
  { stream with
    currentTagBodyLength := 0
    currentTagOffset := 0
    state := .start
    flvin := stream.flvin.seekSet 0 }

end FlvMeta
