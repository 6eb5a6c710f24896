import FlvMeta.Flv.Progress
import FlvMeta.Flv.VideoSize

/-!
# Gathering information from a file

`getFlvInfo` reads a file once and collects what the metadata is computed from. The body of
its loop is `infoTag`, with one function for each type of tag. The loop is written with a fuel;
since every turn of it leaves the stream behind the start of its tag (`Beyond`), the length
of the file is enough (`infoLoop_isSome`), and `getFlvInfo` is total.
-/

namespace FlvMeta

open Endian Stdio

/-! ## Statuses and options -/

/-- The statuses of the program. -/
inductive Status where
  | ok | errorOpenRead | errorNoFlv | errorEof | errorMemory | errorEmptyTag | errorOpenWrite
  | errorInvalidTag | errorWrite
deriving DecidableEq, Repr

/-- A status of the stream functions returned as it is: the two kinds share their numbers. -/
def Status.ofFlv : FlvStatus → Status
  | .ok => .ok
  | .errorOpenRead => .errorOpenRead
  | .errorNoFlv => .errorNoFlv
  | .errorEof => .errorEof
  | .errorMemory => .errorMemory
  | .errorEmptyTag => .errorEmptyTag
  | .errorInvalidMetadataName => .errorOpenWrite
  | .errorInvalidMetadata => .errorInvalidTag

inductive ErrorHandling where
  | exitOnError | fixErrors | ignoreErrors
deriving DecidableEq, Repr

/-- `flvmeta_opts`, without the files and what only concerns messages and dumps. `metadata` is
NULL or the associative array of the values given on the command line. -/
structure FlvmetaOpts (N : Type) where
  metadata : AmfData N
  insertOnlastsecond : Bool
  resetTimestamps : Bool
  allKeyframes : Bool
  preserveMetadata : Bool
  errorHandling : ErrorHandling

/-- The default options of `main`. -/
def defaultOptions {N : Type} : FlvmetaOpts N where
  metadata := .nullPtr
  insertOnlastsecond := true
  resetTimestamps := false
  allKeyframes := false
  preserveMetadata := false
  errorHandling := .exitOnError

/-! ## Timestamps -/

/-- The timestamp read last for a type of tag, and how often the timestamps of that type have
wrapped. -/
structure Clock where
  prev : Nat
  extended : Nat
deriving DecidableEq, Repr

/-- The extended timestamp fixing of both passes, for one type of tag. -/
def Clock.fix (clock : Clock) (timestamp : Nat) : Nat × Clock :=
  let extended :=
    if timestamp < clock.prev ∧ 0xF00000 < clock.prev - timestamp then
      (clock.extended + 1) % 2 ^ 8
    else clock.extended
  (if 0 < extended then (timestamp + extended * 2 ^ 24) % 2 ^ 32 else timestamp,
    ⟨timestamp, extended⟩)

structure Clocks where
  video : Clock
  audio : Clock
  script : Clock
deriving DecidableEq, Repr

def Clocks.init : Clocks := ⟨⟨0, 0⟩, ⟨0, 0⟩, ⟨0, 0⟩⟩

def Clocks.fix (clocks : Clocks) (tag : FlvTag) : Nat × Clocks :=
  let timestamp := flvTagGetTimestamp tag
  if tag.type = flvTagTypeMeta then
    match clocks.script.fix timestamp with
    | (timestamp, script) => (timestamp, { clocks with script })
  else if tag.type = flvTagTypeAudio then
    match clocks.audio.fix timestamp with
    | (timestamp, audio) => (timestamp, { clocks with audio })
  else if tag.type = flvTagTypeVideo then
    match clocks.video.fix timestamp with
    | (timestamp, video) => (timestamp, { clocks with video })
  else (timestamp, clocks)

/-! ## The information -/

/-- `flv_info`. The arrays `times` and `filepositions` of the object `keyframes` are kept as the
lists of their numbers. -/
structure FlvInfo (N : Type) where
  header : FlvHeader
  haveVideo : Bool
  haveAudio : Bool
  videoWidth : Nat
  videoHeight : Nat
  videoCodec : Nat
  videoFramesNumber : Nat
  audioCodec : UInt8
  audioSize : UInt8
  audioRate : UInt8
  audioStereo : UInt8
  videoDataSize : Nat
  audioDataSize : Nat
  metaDataSize : Nat
  realVideoDataSize : Nat
  realAudioDataSize : Nat
  videoFirstTimestamp : Nat
  audioFirstTimestamp : Nat
  firstTimestamp : Nat
  canSeekToEnd : Bool
  haveKeyframes : Bool
  lastKeyframeTimestamp : Nat
  onMetadataSize : Nat
  onMetadataOffset : Nat
  biggestTagBodySize : Nat
  lastTimestamp : Nat
  videoFrameDuration : Nat
  audioFrameDuration : Nat
  totalPrevTagsSize : Nat
  haveOnLastSecond : Bool
  lastMediaFrameType : UInt8
  originalOnMetadata : AmfData N
  times : List N
  filepositions : List N

/-- The information before the first tag: the first previous tag size is counted. -/
def FlvInfo.init {N : Type} (header : FlvHeader) : FlvInfo N where
  header := header
  haveVideo := false
  haveAudio := false
  videoWidth := 0
  videoHeight := 0
  videoCodec := 0
  videoFramesNumber := 0
  audioCodec := 0
  audioSize := 0
  audioRate := 0
  audioStereo := 0
  videoDataSize := 0
  audioDataSize := 0
  metaDataSize := 0
  realVideoDataSize := 0
  realAudioDataSize := 0
  videoFirstTimestamp := 0
  audioFirstTimestamp := 0
  firstTimestamp := 0
  canSeekToEnd := false
  haveKeyframes := false
  lastKeyframeTimestamp := 0
  onMetadataSize := 0
  onMetadataOffset := 0
  biggestTagBodySize := 0
  lastTimestamp := 0
  videoFrameDuration := 0
  audioFrameDuration := 0
  totalPrevTagsSize := 4
  haveOnLastSecond := false
  lastMediaFrameType := 0
  originalOnMetadata := .nullPtr
  times := []
  filepositions := []

/-- The information and the local variables of the loop of `get_flv_info`. -/
structure InfoState (N : Type) where
  info : FlvInfo N
  clocks : Clocks
  haveVideoSize : Bool
  haveFirstTimestamp : Bool

variable {N : Type}

def InfoState.init (header : FlvHeader) : InfoState N :=
  ⟨FlvInfo.init header, Clocks.init, false, false⟩

/-- What the loop does with every tag: its timestamp, fixed and perhaps made relative to the
first one, and the state with the first and last timestamps and the biggest body. -/
def infoTimestamp (opts : FlvmetaOpts N) (tag : FlvTag) (st : InfoState N) :
    Nat × InfoState N :=
  match st.clocks.fix tag with
  | (timestamp, clocks) =>
    let st := { st with clocks }
    let st :=
      if ¬ st.haveFirstTimestamp ∧ tag.type ≠ flvTagTypeMeta then
        { st with info := { st.info with firstTimestamp := timestamp }, haveFirstTimestamp := true }
      else st
    let timestamp :=
      if opts.resetTimestamps ∧ 0 < timestamp then subUint32 timestamp st.info.firstTimestamp
      else timestamp
    let st :=
      if tag.Known then
        { st with info := { st.info with
          biggestTagBodySize :=
            if st.info.biggestTagBodySize < flvTagGetBodyLength tag then flvTagGetBodyLength tag
            else st.info.biggestTagBodySize
          lastTimestamp := timestamp } }
      else st
    (timestamp, st)

/-! ## Script tags -/

/-- `strncmp(name, literal, size of name) == 0`. -/
def nameMatches (name : AmfData N) (literal : String) : Bool :=
  strncmpEq (amfStringGetBytes name) (ascii literal) (amfStringGetSize name)

/-- A script tag that is not the one to be replaced: its size is counted. -/
def countMeta (bodyLength : Nat) (info : FlvInfo N) : FlvInfo N :=
  { info with
    metaDataSize := info.metaDataSize + (bodyLength + flvTagSize)
    totalPrevTagsSize := info.totalPrevTagsSize + 4 }

/-- The check of the metadata name, on what was read of a script tag. -/
def infoMetadataName (opts : FlvmetaOpts N) (offset bodyLength : Nat) (name data : AmfData N)
    (info : FlvInfo N) : FlvInfo N :=
  if 0 < bodyLength ∧ amfDataGetType name = AmfType.string.code then
    if info.onMetadataSize = 0 ∧ nameMatches name "onMetaData" then
      { info with
        onMetadataSize := bodyLength + flvTagSize + 4
        onMetadataOffset := offset
        originalOnMetadata :=
          if opts.preserveMetadata then
            if amfDataGetErrorCode data ≠ .ok ∨
              amfDataGetType data ≠ AmfType.associativeArray.code then .associativeArray []
            else data
          else info.originalOnMetadata }
    else
      countMeta bodyLength
        (if nameMatches name "onLastSecond" then { info with haveOnLastSecond := true } else info)
  else countMeta bodyLength info

section

variable [NumberImage N]

def infoMetaTag (opts : FlvmetaOpts N) (offset bodyLength : Nat) (st : InfoState N)
    (stream : FlvStream) : Except Status (InfoState N) × FlvStream :=
  if bodyLength = 0 then
    (.ok { st with info := infoMetadataName opts offset bodyLength .nullPtr .nullPtr st.info },
      stream)
  else
    match (flvReadMetadata stream : MetadataResult N × FlvStream) with
    | (result, stream) =>
      if result.status = .errorEof then (.error .errorEof, stream)
      else if result.status = .errorInvalidMetadata ∧ opts.errorHandling = .exitOnError then
        (.error .errorInvalidTag, stream)
      else
        (.ok { st with
          info := infoMetadataName opts offset bodyLength result.name result.data st.info },
          stream)

end

/-! ## Video tags -/

/-- The part of a video tag that is counted also when its body is empty. -/
def countVideo (bodyLength timestamp : Nat) (info : FlvInfo N) : FlvInfo N :=
  { info with
    videoFramesNumber := (info.videoFramesNumber + 1) % 2 ^ 32
    videoFrameDuration :=
      if info.videoFrameDuration = 0 then subUint32 timestamp info.videoFirstTimestamp
      else info.videoFrameDuration
    lastMediaFrameType := flvTagTypeVideo
    videoDataSize := info.videoDataSize + (bodyLength + flvTagSize)
    totalPrevTagsSize := info.totalPrevTagsSize + 4 }

def infoFirstVideo (vt : FlvVideoTag) (timestamp : Nat) (info : FlvInfo N) : FlvInfo N :=
  if info.haveVideo then info
  else
    { info with
      haveVideo := true
      videoCodec := flvVideoTagCodecId vt
      videoFirstTimestamp := timestamp }

/-- `timestamp / 1000.0`. -/
def seconds [Number64 N] (timestamp : Nat) : N :=
  Number64.div (Number64.ofInt timestamp) (Number64.ofInt 1000)

/-- The two lists of keyframes. They are flat, as in `amfListPush`, so that fewer than `2^32`
keyframes are meant. -/
def infoKeyframe [Number64 N] (opts : FlvmetaOpts N) (offset timestamp : Nat) (vt : FlvVideoTag)
    (info : FlvInfo N) : FlvInfo N :=
  if flvVideoTagFrameType vt = flvVideoTagFrameTypeKeyframe then
    let info :=
      if ¬ info.haveKeyframes ∨ (info.haveKeyframes ∧ info.lastKeyframeTimestamp ≠ timestamp) ∨
        opts.allKeyframes then
        { info with
          haveKeyframes := true
          lastKeyframeTimestamp := timestamp
          times := info.times ++ [seconds timestamp]
          filepositions := info.filepositions ++ [Number64.ofInt offset] }
      else info
    { info with canSeekToEnd := true }
  else { info with canSeekToEnd := false }

/-- The search for the size of the video, in keyframes until it is found. -/
def infoVideoSize (bodyLength : Nat) (vt : FlvVideoTag) (st : InfoState N) (stream : FlvStream) :
    Except Status (InfoState N) × FlvStream :=
  if ¬ st.haveVideoSize ∧ flvVideoTagFrameType vt = flvVideoTagFrameTypeKeyframe then
    match (computeVideoSize st.info.videoCodec
      (subUint32 bodyLength sizeofFlvVideoTag)).run.run stream with
    | (.error status, stream) => (.error (Status.ofFlv status), stream)
    | (.ok size, stream) =>
      let info :=
        match size with
        | none => st.info
        | some (width, height) => { st.info with videoWidth := width, videoHeight := height }
      (.ok { st with
        info
        haveVideoSize := decide (0 < info.videoWidth ∧ 0 < info.videoHeight) }, stream)
  else (.ok st, stream)

def infoVideoTag [Number64 N] (opts : FlvmetaOpts N) (offset bodyLength timestamp : Nat)
    (st : InfoState N) (stream : FlvStream) : Except Status (InfoState N) × FlvStream :=
  if bodyLength = 0 then
    (.ok { st with info := countVideo bodyLength timestamp st.info }, stream)
  else
    match flvReadVideoTag stream with
    | (.error _, stream) => (.error .errorEof, stream)
    | (.ok vt, stream) =>
      let st := { st with info := infoFirstVideo vt timestamp st.info }
      match infoVideoSize bodyLength vt st stream with
      | (.error status, stream) => (.error status, stream)
      | (.ok st, stream) =>
        let info := infoKeyframe opts offset timestamp vt st.info
        let info := { info with realVideoDataSize := info.realVideoDataSize + (bodyLength - 1) }
        (.ok { st with info := countVideo bodyLength timestamp info }, stream)

/-! ## Audio tags -/

/-- The part of an audio tag that is counted also when its body is empty. -/
def countAudio (bodyLength : Nat) (info : FlvInfo N) : FlvInfo N :=
  { info with
    lastMediaFrameType := flvTagTypeAudio
    audioDataSize := info.audioDataSize + (bodyLength + flvTagSize)
    totalPrevTagsSize := info.totalPrevTagsSize + 4 }

def infoFirstAudio (audioTag : UInt8) (timestamp : Nat) (info : FlvInfo N) : FlvInfo N :=
  if info.haveAudio then info
  else
    { info with
      haveAudio := true
      audioCodec := flvAudioTagSoundFormat audioTag
      audioRate := flvAudioTagSoundRate audioTag
      audioSize := flvAudioTagSoundSize audioTag
      audioStereo := flvAudioTagSoundType audioTag
      audioFirstTimestamp := timestamp }

def infoAudioTag (bodyLength timestamp : Nat) (st : InfoState N) (stream : FlvStream) :
    Except Status (InfoState N) × FlvStream :=
  if bodyLength = 0 then (.ok { st with info := countAudio bodyLength st.info }, stream)
  else
    match flvReadAudioTag stream with
    | (.error _, stream) => (.error .errorEof, stream)
    | (.ok audioTag, stream) =>
      let info := infoFirstAudio audioTag timestamp st.info
      let info := { info with
        audioFrameDuration :=
          if info.audioFrameDuration = 0 then subUint32 timestamp info.audioFirstTimestamp
          else info.audioFrameDuration
        realAudioDataSize := info.realAudioDataSize + (bodyLength - 1) }
      (.ok { st with info := countAudio bodyLength info }, stream)

/-! ## The loop -/

/-- A tag of an unknown type. -/
def infoUnknownTag (opts : FlvmetaOpts N) (st : InfoState N) : Except Status (InfoState N) :=
  match opts.errorHandling with
  | .fixErrors => .ok st
  | .ignoreErrors =>
    .ok { st with info := { st.info with totalPrevTagsSize := st.info.totalPrevTagsSize + 4 } }
  | .exitOnError => .error .errorInvalidTag

section

variable [Number64 N]

/-- The body of the loop of `get_flv_info`, on a stream that has just delivered `tag`. -/
def infoTag (opts : FlvmetaOpts N) (tag : FlvTag) (st : InfoState N) (stream : FlvStream) :
    Except Status (InfoState N) × FlvStream :=
  let offset := flvGetCurrentTagOffset stream
  let bodyLength := flvTagGetBodyLength tag
  match infoTimestamp opts tag st with
  | (timestamp, st) =>
    if tag.type = flvTagTypeMeta then infoMetaTag opts offset bodyLength st stream
    else if tag.type = flvTagTypeVideo then infoVideoTag opts offset bodyLength timestamp st stream
    else if tag.type = flvTagTypeAudio then infoAudioTag bodyLength timestamp st stream
    else (infoUnknownTag opts st, stream)

def infoLoop (opts : FlvmetaOpts N) :
    Nat → InfoState N → FlvStream → Option (Except Status (InfoState N) × FlvStream)
  | 0, _, _ => none
  | fuel + 1, st, stream =>
    match flvReadTag stream with
    | (.error _, stream) => some (.ok st, stream)
    | (.ok tag, stream) =>
      match infoTag opts tag st stream with
      | (.error status, stream) => some (.error status, stream)
      | (.ok st, stream) => infoLoop opts fuel st stream

end

/-! ## Progress -/

theorem Tracks.infoVideoSize {content : Bytes} {last : Option (Nat × FlvTag)}
    {stream : FlvStream} (h : Tracks content last stream) (bodyLength : Nat) (vt : FlvVideoTag)
    (st : InfoState N) : Tracks content last (infoVideoSize bodyLength vt st stream).2 := by
  unfold FlvMeta.infoVideoSize
  split
  · have hsize := h.computeVideoSize st.info.videoCodec (subUint32 bodyLength sizeofFlvVideoTag)
    generalize (FlvMeta.computeVideoSize st.info.videoCodec
      (subUint32 bodyLength sizeofFlvVideoTag)).run.run stream = r at hsize ⊢
    obtain ⟨result, stream'⟩ := r
    cases result with
    | error status => exact hsize
    | ok size => exact hsize
  · exact h

theorem Tracks.infoAudioTag {content : Bytes} {last : Option (Nat × FlvTag)}
    {stream : FlvStream} (h : Tracks content last stream) (bodyLength timestamp : Nat)
    (st : InfoState N) : Tracks content last (infoAudioTag bodyLength timestamp st stream).2 := by
  unfold FlvMeta.infoAudioTag
  split
  · exact h
  · have hread := h.flvReadAudioTag
    generalize FlvMeta.flvReadAudioTag stream = r at hread ⊢
    obtain ⟨result, stream'⟩ := r
    cases result with
    | error status => exact hread
    | ok audioTag => exact hread

section

variable [Number64 N]

theorem Tracks.infoVideoTag {content : Bytes} {last : Option (Nat × FlvTag)}
    {stream : FlvStream} (h : Tracks content last stream) (opts : FlvmetaOpts N)
    (offset bodyLength timestamp : Nat) (st : InfoState N) :
    Tracks content last (infoVideoTag opts offset bodyLength timestamp st stream).2 := by
  unfold FlvMeta.infoVideoTag
  split
  · exact h
  · have hread := h.flvReadVideoTag
    generalize FlvMeta.flvReadVideoTag stream = r at hread ⊢
    obtain ⟨result, stream'⟩ := r
    cases result with
    | error status => exact hread
    | ok vt =>
      dsimp only
      generalize hst : ({ st with info := infoFirstVideo vt timestamp st.info } : InfoState N) = st'
      have hsize := Tracks.infoVideoSize hread bodyLength vt st'
      generalize FlvMeta.infoVideoSize bodyLength vt st' stream' = r at hsize ⊢
      obtain ⟨result, stream''⟩ := r
      cases result with
      | error status => exact hsize
      | ok st'' => exact hsize

/-- Whatever a turn of the loop does, the next header is read behind the start of its tag. -/
theorem infoTag_beyond (opts : FlvmetaOpts N) (st : InfoState N) (content : Bytes) (p : Nat) :
    Beyond content (p + 1)
      (infoTag opts (flvTagOfBytes (content.drop p)) st (tagStream content p)).2 := by
  have htracks := tracks_tagStream content p
  unfold infoTag
  dsimp only
  generalize (infoTimestamp opts (flvTagOfBytes (content.drop p)) st).2 = st'
  split
  · unfold infoMetaTag
    split
    · exact htracks.beyond (by omega)
    · rename_i hlen
      have hread : Beyond content (p + 1)
          (flvReadMetadata (tagStream content p) : MetadataResult N × FlvStream).2 :=
        (flvReadMetadata_after htracks (not_noBody_tagStream content p) hlen).beyond
      generalize (flvReadMetadata (tagStream content p) : MetadataResult N × FlvStream) = r
        at hread ⊢
      obtain ⟨result, stream'⟩ := r
      dsimp only
      split
      · exact hread
      · split <;> exact hread
  · split
    · exact (Tracks.infoVideoTag htracks _ _ _ _ _).beyond (by omega)
    · split
      · exact (Tracks.infoAudioTag htracks _ _ _).beyond (by omega)
      · exact htracks.beyond (by omega)

theorem infoLoop_isSome (opts : FlvmetaOpts N) {content : Bytes} {fuel p : Nat}
    {stream : FlvStream} (st : InfoState N) (h : Beyond content p stream)
    (hle : p ≤ content.length) (hfuel : content.length < fuel + p) :
    (infoLoop opts fuel st stream).isSome := by
  induction fuel generalizing p stream st with
  | zero => omega
  | succ fuel ih =>
    rw [infoLoop]
    rcases flvReadTag_cases stream with ⟨stream', hread, -⟩ | ⟨heof, hle, hread⟩
    · rw [hread]
      rfl
    · rw [h.content_eq] at hle hread
      have hp := h.next heof
      have hbeyond := infoTag_beyond opts st content (nextTagOffset stream)
      rw [hread]
      dsimp only
      generalize infoTag opts (flvTagOfBytes (content.drop (nextTagOffset stream))) st
        (tagStream content (nextTagOffset stream)) = r at hbeyond ⊢
      obtain ⟨result, stream'⟩ := r
      cases result with
      | error status => rfl
      | ok st' => exact ih st' hbeyond (by omega) (by omega)

/-- `get_flv_info`. -/
def getFlvInfo (opts : FlvmetaOpts N) (flvIn : FlvStream) : Except Status (FlvInfo N) × FlvStream :=
  match flvReadHeader flvIn with
  | (.error _, stream) => (.error .errorNoFlv, stream)
  | (.ok header, stream) =>
    match (infoLoop opts (stream.flvin.content.length + 1) (InfoState.init header) stream).get
      (infoLoop_isSome opts _ ⟨rfl, fun _ => Nat.zero_le _⟩ (Nat.zero_le _)
        (Nat.lt_succ_self _)) with
    | (.error status, stream) => (.error status, stream)
    | (.ok st, stream) => (.ok st.info, stream)

/-- A test of the information about a file, false when the first pass fails. -/
def infoTest (opts : FlvmetaOpts N) (content : Bytes) (test : FlvInfo N → Bool) : Bool :=
  match getFlvInfo opts (flvOpen content) with
  | (.ok info, _) => test info
  | (.error _, _) => false

theorem of_infoTest {opts : FlvmetaOpts N} {content : Bytes} {test : FlvInfo N → Bool}
    (h : infoTest opts content test = true) :
    ∃ info stream, getFlvInfo opts (flvOpen content) = (.ok info, stream) ∧ test info = true := by
  unfold infoTest at h
  split at h
  · rename_i info stream hinfo
    exact ⟨info, stream, hinfo, h⟩
  · cases h

/-- The first pass does not change what the stream reads from. -/
theorem infoLoop_content (opts : FlvmetaOpts N) {fuel : Nat} {st : InfoState N}
    {stream : FlvStream} {r : Except Status (InfoState N) × FlvStream}
    (hloop : infoLoop opts fuel st stream = some r) :
    r.2.flvin.content = stream.flvin.content := by
  induction fuel generalizing st stream with
  | zero => cases hloop
  | succ fuel ih =>
    rw [infoLoop] at hloop
    rcases flvReadTag_cases stream with ⟨stream', hread, hcontent⟩ | ⟨heof, hle, hread⟩
    · rw [hread] at hloop
      cases hloop
      exact hcontent
    · have hbeyond := infoTag_beyond opts st stream.flvin.content (nextTagOffset stream)
      rw [hread] at hloop
      dsimp only at hloop
      generalize infoTag opts (flvTagOfBytes (stream.flvin.content.drop (nextTagOffset stream))) st
        (tagStream stream.flvin.content (nextTagOffset stream)) = turn at hbeyond hloop
      obtain ⟨result, stream'⟩ := turn
      cases result with
      | error status =>
        cases hloop
        exact hbeyond.content_eq
      | ok st' => exact (ih hloop).trans hbeyond.content_eq

/-- The loop of a first pass that succeeds, with the header that was read before it. -/
theorem getFlvInfo_ok {opts : FlvmetaOpts N} {content : Bytes} {info : FlvInfo N}
    {stream : FlvStream} (h : getFlvInfo opts (flvOpen content) = (.ok info, stream)) :
    ∃ header st fuel, header.bytes = content.take 9 ∧ 9 ≤ content.length ∧ st.info = info ∧
      infoLoop opts fuel (InfoState.init header)
        { flvOpen content with flvin := ⟨content, 9, false⟩, state := .prevTagSize } =
          some (.ok st, stream) := by
  unfold getFlvInfo at h
  cases hheader : flvReadHeader (flvOpen content) with
  | mk result stream₁ =>
    rw [hheader] at h
    cases result with
    | error status => cases h
    | ok header =>
      obtain ⟨hle, hbytes, rfl⟩ := flvReadHeader_ok (atStart_flvOpen content) hheader
      dsimp only at h
      split at h
      · cases h
      · rename_i st stream₂ hloop
        cases h
        exact ⟨header, st, _, hbytes, hle, rfl, (Option.eq_some_iff_get_eq).mpr ⟨_, hloop⟩⟩

theorem getFlvInfo_content {opts : FlvmetaOpts N} {content : Bytes} {info : FlvInfo N}
    {stream : FlvStream} (h : getFlvInfo opts (flvOpen content) = (.ok info, stream)) :
    stream.flvin.content = content := by
  obtain ⟨header, st, fuel, -, -, -, hloop⟩ := getFlvInfo_ok h
  exact infoLoop_content opts hloop

/-! ## Reset streams -/

theorem infoLoop_congr (opts : FlvmetaOpts N) (fuel : Nat) (st : InfoState N) {s t : FlvStream}
    (hflvin : t.flvin = s.flvin) (hstate : s.state = .prevTagSize)
    (hstate' : t.state = .prevTagSize) :
    (infoLoop opts fuel st t).map (·.1) = (infoLoop opts fuel st s).map (·.1) := by
  cases fuel with
  | zero => rfl
  | succ fuel =>
    obtain ⟨hresult, hread⟩ := flvReadTag_congr hflvin hstate hstate'
    rw [infoLoop, infoLoop]
    cases htag : flvReadTag s with
    | mk result stream =>
      cases result with
      | ok tag => rw [hread tag (by rw [htag]), htag]
      | error status =>
        cases htag' : flvReadTag t with
        | mk result' stream' =>
          rw [htag, htag'] at hresult
          cases hresult
          rfl

/-- After the header, the first pass is its loop. -/
theorem some_getFlvInfo (opts : FlvmetaOpts N) {s t : FlvStream} {header : FlvHeader}
    (h : flvReadHeader s = (.ok header, t)) :
    some (getFlvInfo opts s).1 =
      (infoLoop opts (t.flvin.content.length + 1) (InfoState.init header) t).map fun r =>
        r.1.map InfoState.info := by
  unfold getFlvInfo
  rw [h]
  dsimp only
  split
  · rename_i hget
    rw [Option.eq_some_iff_get_eq.mpr ⟨_, hget⟩]
    rfl
  · rename_i hget
    rw [Option.eq_some_iff_get_eq.mpr ⟨_, hget⟩]
    rfl

/-- A stream that has been reset gives the same information as a new one. -/
theorem getFlvInfo_flvReset (opts : FlvmetaOpts N) (stream : FlvStream) :
    (getFlvInfo opts (flvReset stream)).1 =
      (getFlvInfo opts (flvOpen stream.flvin.content)).1 := by
  have hopen := atStart_flvOpen stream.flvin.content
  have hreset := atStart_flvReset stream
  have hresult := flvReadHeader_congr hopen hreset
  cases hheader : flvReadHeader (flvReset stream) with
  | mk result stream₁ =>
    cases hheader' : flvReadHeader (flvOpen stream.flvin.content) with
    | mk result' stream₂ =>
      rw [hheader, hheader'] at hresult
      cases hresult
      cases result with
      | error status => rw [getFlvInfo, getFlvInfo, hheader, hheader']
      | ok header =>
        have hloop := some_getFlvInfo opts hheader
        have hloop' := some_getFlvInfo opts hheader'
        obtain ⟨-, -, rfl⟩ := flvReadHeader_ok hreset hheader
        obtain ⟨-, -, rfl⟩ := flvReadHeader_ok hopen hheader'
        have hcongr := infoLoop_congr opts (stream.flvin.content.length + 1) (InfoState.init header)
          (s := { flvOpen stream.flvin.content with
            flvin := ⟨stream.flvin.content, 9, false⟩
            state := .prevTagSize })
          (t := { flvReset stream with
            flvin := ⟨stream.flvin.content, 9, false⟩
            state := .prevTagSize }) rfl rfl rfl
        refine Option.some.inj (hloop.trans (Eq.trans ?_ hloop'.symm))
        have hmap := congrArg (Option.map (Except.map InfoState.info)) hcongr
        rwa [Option.map_map, Option.map_map] at hmap
end

end FlvMeta
