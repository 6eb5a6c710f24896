import FlvMeta.Info.Compute

/-!
# Writing the output file

`writeFlv` reads the tags of the input a second time and writes them, the computed metadata in
the place of the original. The body of its loop is `writeTag`. As in the first pass, a turn of
the loop leaves the stream behind the start of its tag, so the loop is total with the length of
the file as its fuel (`writeLoop_isSome`).
-/

namespace FlvMeta

open Endian Stdio

/-! ## Headers and sizes -/

/-- `flv_write_header`. -/
def flvWriteHeader (header : FlvHeader) : WriteStep :=
  andThen (put header.signature.bytes)
    (andThen (put [header.version]) (andThen (put [header.flags]) (put (toLE 4 header.offset))))

/-- `flv_write_tag`. -/
def flvWriteTag (tag : FlvTag) : WriteStep :=
  andThen (put [tag.type])
    (andThen (put tag.bodyLength.bytes)
      (andThen (put tag.timestamp.bytes)
        (andThen (put [tag.timestampExtended]) (put tag.streamId.bytes))))

/-- `size = swap_uint32(..)` and its write. -/
def writePrevTagSize (size : Nat) : WriteStep := put (toLE 4 (swapUint32 size))

theorem emits_flvWriteHeader (header : FlvHeader) : Emits (flvWriteHeader header) header.bytes :=
  emits_andThen (emits_put _)
    (emits_andThen (emits_put [_]) (emits_andThen (emits_put [_]) (emits_put _)))

theorem emits_flvWriteTag (tag : FlvTag) : Emits (flvWriteTag tag) tag.bytes :=
  emits_andThen (emits_put [_])
    (emits_andThen (emits_put _)
      (emits_andThen (emits_put _) (emits_andThen (emits_put [_]) (emits_put _))))

theorem emits_writePrevTagSize (size : Nat) : Emits (writePrevTagSize size) (toBE 4 size) := by
  rw [writePrevTagSize, toLE_swapUint32]
  exact emits_put _

theorem toBE_ne_nil {w : Nat} (h : 0 < w) (n : Nat) : toBE w n ≠ [] := by
  intro hnil
  have hlen := length_toBE w n
  rw [hnil, List.length_nil] at hlen
  omega

/-! ## Script tags -/

variable {N : Type}

/-- `(uint32)amf_data_size(data)`. -/
def amfDataSize32 (data : AmfData N) : Nat := amfDataSize data % 2 ^ 32

/-- The header of a script tag that the program makes itself, with the timestamp of another tag. -/
def scriptTag (name data : AmfData N) (timed : FlvTag) : FlvTag where
  type := flvTagTypeMeta
  bodyLength := uint32ToUint24Be (amfDataSize32 name + amfDataSize32 data)
  timestamp := timed.timestamp
  timestampExtended := timed.timestampExtended
  streamId := uint32ToUint24Be 0

/-- `omft`, the header of the computed `onMetaData` tag. -/
def onMetadataTag (metadata : FlvMetadata N) : FlvTag :=
  flvTagSetTimestamp (scriptTag metadata.onMetadataName metadata.onMetadata noTag) 0

/-- A script tag with its name, its data and its previous tag size. -/
def writeScriptTag [NumberImage N] (tag : FlvTag) (name data : AmfData N) : WriteStep :=
  andThen (flvWriteTag tag)
    (andThen (atLeast (amfDataSize32 name) (amfDataFileWrite name))
      (andThen (atLeast (amfDataSize32 data) (amfDataFileWrite data))
        (writePrevTagSize (flvTagSize + amfDataSize32 name + amfDataSize32 data))))

/-- The bytes of a script tag with its previous tag size. -/
def scriptTagBytes [NumberImage N] (tag : FlvTag) (name data : AmfData N) : Bytes :=
  tag.bytes ++ (amfDataImage name ++ (amfDataImage data ++
    toBE 4 (flvTagSize + amfDataSize32 name + amfDataSize32 data)))

theorem emits_writeScriptTag [NumberImage N] (tag : FlvTag) (name data : AmfData N) :
    Emits (writeScriptTag tag name data) (scriptTagBytes tag name data) := by
  have hle : ∀ d : AmfData N, amfDataSize32 d ≤ (amfDataImage d).length := fun d => by
    rw [amfDataImage_eq, length_amfBytes]
    exact Nat.mod_le _ _
  have hcounts : ∀ d : AmfData N, Counts (amfDataFileWrite d) (amfDataImage d) := fun d => by
    rw [amfDataImage_eq]
    exact counts_amfDataWrite d
  have hsize := emits_writePrevTagSize (flvTagSize + amfDataSize32 name + amfDataSize32 data)
  have hdata := emits_atLeast_andThen (hcounts data) (hle data) hsize (toBE_ne_nil (by decide) _)
  exact emits_andThen (emits_flvWriteTag _)
    (emits_atLeast_andThen (hcounts name) (hle name) hdata (by simp [toBE_ne_nil]))

/-! ## The loop -/

/-- The local variables of the loop of `write_flv`. -/
structure WriteState where
  clocks : Clocks
  haveOnLastSecond : Bool
deriving DecidableEq, Repr

def WriteState.init : WriteState := ⟨Clocks.init, false⟩

/-- How a turn of the loop ends. -/
inductive WriteTurn where
  | next (st : WriteState)
  | done (status : Status)
deriving DecidableEq, Repr

/-- The timestamp of a tag in the output: fixed, and perhaps made relative to the first one. -/
def writeTimestamp (opts : FlvmetaOpts N) (info : FlvInfo N) (tag : FlvTag) (clocks : Clocks) :
    Nat × Clocks :=
  match clocks.fix tag with
  | (timestamp, clocks) =>
    (if opts.resetTimestamps ∧ 0 < timestamp then subUint32 timestamp info.firstTimestamp
      else timestamp, clocks)

/-- Whether an `onLastSecond` tag is inserted before a tag. -/
def InsertsOnLastSecond (opts : FlvmetaOpts N) (info : FlvInfo N) (haveOnLastSecond : Bool)
    (timestamp : Nat) : Prop :=
  opts.insertOnlastsecond ∧ ¬ haveOnLastSecond ∧ ¬ info.haveOnLastSecond ∧
    subUint32 info.lastTimestamp timestamp ≤ 1000

instance (opts : FlvmetaOpts N) (info : FlvInfo N) (haveOnLastSecond : Bool) (timestamp : Nat) :
    Decidable (InsertsOnLastSecond opts info haveOnLastSecond timestamp) :=
  inferInstanceAs (Decidable (_ ∧ _ ∧ _ ∧ _))

/-- The number of body bytes that are copied: a tag bigger than expected is cut. -/
def copyLength (info : FlvInfo N) (tag : FlvTag) : Nat :=
  if info.biggestTagBodySize < flvTagGetBodyLength tag then info.biggestTagBodySize
  else flvTagGetBodyLength tag

/-- A tag with a body and its previous tag size. -/
def writeBody (tag : FlvTag) (body : Bytes) : WriteStep :=
  andThen (flvWriteTag tag) (andThen (put body) (writePrevTagSize (flvTagSize + body.length)))

/-- The same writes without checks between them. -/
def writeBodyUnchecked (tag : FlvTag) (body : Bytes) (out : OutFile) : OutFile :=
  (writePrevTagSize (flvTagSize + body.length) (put body (flvWriteTag tag out).2).2).2

/-- The copy of a tag; `tag` has its new timestamp. -/
def copyTag (opts : FlvmetaOpts N) (info : FlvInfo N) (tag : FlvTag) (st : WriteState)
    (stream : FlvStream) (out : OutFile) : WriteTurn × FlvStream × OutFile :=
  let bodyLength := copyLength info tag
  match flvReadTagBody bodyLength stream with
  | (body, stream) =>
    if body.length < bodyLength then
      match opts.errorHandling with
      | .exitOnError => (.done .errorEof, stream, out)
      | .fixErrors => (.done .ok, stream, out)
      | .ignoreErrors => (.done .ok, stream, writeBodyUnchecked tag body out)
    else
      match writeBody tag body out with
      | (true, out) => (.next st, stream, out)
      | (false, out) => (.done .errorWrite, stream, out)

section

variable [NumberImage N]

/-- The body of the loop of `write_flv`, on a stream that has just delivered `tag`. -/
def writeTag (opts : FlvmetaOpts N) (info : FlvInfo N) (metadata : FlvMetadata N) (tag : FlvTag)
    (st : WriteState) (stream : FlvStream) (out : OutFile) : WriteTurn × FlvStream × OutFile :=
  let offset := flvGetCurrentTagOffset stream
  match writeTimestamp opts info tag st.clocks with
  | (timestamp, clocks) =>
    let st := { st with clocks }
    let tag := flvTagSetTimestamp tag timestamp
    if info.onMetadataOffset = offset then
      match writeScriptTag (onMetadataTag metadata) metadata.onMetadataName metadata.onMetadata
        out with
      | (true, out) => (.next st, stream, out)
      | (false, out) => (.done .errorWrite, stream, out)
    else if InsertsOnLastSecond opts info st.haveOnLastSecond timestamp then
      match writeScriptTag (scriptTag metadata.onLastSecondName metadata.onLastSecond tag)
        metadata.onLastSecondName metadata.onLastSecond out with
      | (true, out) => copyTag opts info tag { st with haveOnLastSecond := true } stream out
      | (false, out) => (.done .errorWrite, stream, out)
    else copyTag opts info tag st stream out

def writeLoop (opts : FlvmetaOpts N) (info : FlvInfo N) (metadata : FlvMetadata N) :
    Nat → WriteState → FlvStream → OutFile → Option (Status × FlvStream × OutFile)
  | 0, _, _, _ => none
  | fuel + 1, st, stream, out =>
    match flvReadTag stream with
    | (.error _, stream) => some (.ok, stream, out)
    | (.ok tag, stream) =>
      match writeTag opts info metadata tag st stream out with
      | (.done status, stream, out) => some (status, stream, out)
      | (.next st, stream, out) => writeLoop opts info metadata fuel st stream out

/-- What `write_flv` writes before its loop. -/
def writeStart (info : FlvInfo N) (metadata : FlvMetadata N) : WriteStep :=
  andThen (flvWriteHeader info.header)
    (andThen (writePrevTagSize 0)
      (if info.onMetadataSize = 0 then
        writeScriptTag (onMetadataTag metadata) metadata.onMetadataName metadata.onMetadata
      else noWrite))

end

/-! ## Progress -/

theorem copyTag_stream (opts : FlvmetaOpts N) (info : FlvInfo N) (tag : FlvTag) (st : WriteState)
    (stream : FlvStream) (out : OutFile) :
    (copyTag opts info tag st stream out).2.1 =
      (flvReadTagBody (copyLength info tag) stream).2 := by
  unfold copyTag
  dsimp only
  split
  · cases opts.errorHandling <;> rfl
  · split <;> rfl

section

variable [NumberImage N]

/-- A turn of the loop reads nothing of a tag, or a part of its body. -/
theorem writeTag_tracks (opts : FlvmetaOpts N) (info : FlvInfo N) (metadata : FlvMetadata N)
    (tag : FlvTag) (st : WriteState) {content : Bytes} {last : Option (Nat × FlvTag)}
    {stream : FlvStream} (h : Tracks content last stream) (out : OutFile) :
    Tracks content last (writeTag opts info metadata tag st stream out).2.1 := by
  unfold writeTag
  dsimp only
  split
  · split <;> exact h
  · split
    · split
      · rw [copyTag_stream]
        exact Tracks.flvReadTagBody h _
      · exact h
    · rw [copyTag_stream]
      exact Tracks.flvReadTagBody h _

theorem writeLoop_isSome (opts : FlvmetaOpts N) (info : FlvInfo N) (metadata : FlvMetadata N)
    {content : Bytes} {last : Option (Nat × FlvTag)} {fuel : Nat} {stream : FlvStream}
    (st : WriteState) (out : OutFile) (h : Tracks content last stream) (hpos : 0 < fuel)
    (hfuel : content.length < fuel + nextOffset last) :
    (writeLoop opts info metadata fuel st stream out).isSome := by
  induction fuel generalizing last stream st out with
  | zero => omega
  | succ fuel ih =>
    rw [writeLoop]
    by_cases hle : nextOffset last + 11 ≤ content.length
    · have htracks := writeTag_tracks opts info metadata
        (flvTagOfBytes (content.drop (nextOffset last))) st
        (tracks_tagStream content (nextOffset last)) out
      rw [h.flvReadTag hle]
      dsimp only
      generalize writeTag opts info metadata (flvTagOfBytes (content.drop (nextOffset last))) st
        (tagStream content (nextOffset last)) out = r at htracks ⊢
      obtain ⟨turn, stream', out'⟩ := r
      cases turn with
      | done status => rfl
      | next st' =>
        refine ih st' out' htracks (by omega) ?_
        simp only [nextOffset, nextTag] at hfuel hle ⊢
        omega
    · obtain ⟨stream', hread, -⟩ := flvReadTag_of_aimed_lt h.aimed (by omega)
      rw [hread]
      rfl

/-- `write_flv`. -/
def writeFlv (opts : FlvmetaOpts N) (info : FlvInfo N) (metadata : FlvMetadata N)
    (flvIn : FlvStream) (flvOut : OutFile) : Status × FlvStream × OutFile :=
  match writeStart info metadata flvOut with
  | (false, out) => (.errorWrite, flvIn, out)
  | (true, out) =>
    (writeLoop opts info metadata (flvIn.flvin.content.length + 1) WriteState.init
      (flvReset flvIn) out).get
      (writeLoop_isSome opts info metadata _ _ (atStart_flvReset flvIn).tracks
        (Nat.succ_pos _) (Nat.lt_add_right _ (Nat.lt_succ_self _)))

end

end FlvMeta
