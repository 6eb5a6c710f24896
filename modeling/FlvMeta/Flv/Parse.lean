import FlvMeta.Flv.Body
import FlvMeta.Flv.Progress

/-!
# The event parser

`flvParse` reads a file and calls back for its header, its tags and what they hold. A callback is
given the user data and the stream and may read from it; the calls made are logged as events. The
parser stops at the first status that is not zero. Its loop is an instance of the general one, so
callbacks that only read bodies cannot keep it from ending (`flvParse_isSome`), and on a file of
complete tags the events are those of the tags in order (`flvParse_events`).
-/

namespace FlvMeta

open Endian Stdio

/-! ## Callbacks and events -/

/-- The number of a status. -/
def FlvStatus.code : FlvStatus → Int
  | ok => 0
  | errorOpenRead => 1
  | errorNoFlv => 2
  | errorEof => 3
  | errorMemory => 4
  | errorEmptyTag => 5
  | errorInvalidMetadataName => 6
  | errorInvalidMetadata => 7

/-- What a callback does with the user data and the stream, and the status it returns. -/
abbrev Callback (U : Type) := U → FlvStream → Int × U × FlvStream

/-- The callbacks of `flv_parser`; any of them may be NULL. -/
structure FlvParser (U N : Type) where
  onHeader : Option (FlvHeader → Callback U)
  onTag : Option (FlvTag → Callback U)
  onMetadataTag : Option (FlvTag → Bytes → AmfData N → Callback U)
  onAudioTag : Option (FlvTag → UInt8 → Callback U)
  onVideoTag : Option (FlvTag → FlvVideoTag → Callback U)
  onUnknownTag : Option (FlvTag → Callback U)
  onPrevTagSize : Option (Nat → Callback U)
  onStreamEnd : Option (Callback U)

/-- A call of a callback with its arguments. -/
inductive FlvEvent (N : Type) where
  | header (header : FlvHeader)
  | tag (tag : FlvTag)
  | metadataTag (tag : FlvTag) (name : Bytes) (data : AmfData N)
  | audioTag (tag : FlvTag) (at' : UInt8)
  | videoTag (tag : FlvTag) (vt : FlvVideoTag)
  | unknownTag (tag : FlvTag)
  | prevTagSize (size : Nat)
  | streamEnd

variable {U N : Type}

/-- The callback for an event. -/
def FlvParser.callback (parser : FlvParser U N) : FlvEvent N → Option (Callback U)
  | .header header => parser.onHeader.map fun f => f header
  | .tag tag => parser.onTag.map fun f => f tag
  | .metadataTag tag name data => parser.onMetadataTag.map fun f => f tag name data
  | .audioTag tag at' => parser.onAudioTag.map fun f => f tag at'
  | .videoTag tag vt => parser.onVideoTag.map fun f => f tag vt
  | .unknownTag tag => parser.onUnknownTag.map fun f => f tag
  | .prevTagSize size => parser.onPrevTagSize.map fun f => f size
  | .streamEnd => parser.onStreamEnd

/-- The user data and the events so far. -/
structure ParseState (U N : Type) where
  user : U
  events : List (FlvEvent N)

/-- Call the callback for an event, if there is one. -/
def deliver (parser : FlvParser U N) (event : FlvEvent N) (st : ParseState U N)
    (stream : FlvStream) : Int × ParseState U N × FlvStream :=
  match parser.callback event with
  | none => (0, st, stream)
  | some f =>
    match f st.user stream with
    | (retval, user, stream) => (retval, ⟨user, st.events ++ [event]⟩, stream)

/-! ## The loop -/

section

variable [NumberImage N]

/-- The part of the loop of `flv_parse` that depends on the type of the tag. -/
def parseTagBody (parser : FlvParser U N) (tag : FlvTag) (st : ParseState U N)
    (stream : FlvStream) : Int × ParseState U N × FlvStream :=
  if tag.type = flvTagTypeAudio then
    match flvReadAudioTag stream with
    | (.ok at', stream) => deliver parser (.audioTag tag at') st stream
    | (.error status, stream) =>
      (if status = .errorEof then status.code else FlvStatus.ok.code, st, stream)
  else if tag.type = flvTagTypeVideo then
    match flvReadVideoTag stream with
    | (.ok vt, stream) => deliver parser (.videoTag tag vt) st stream
    | (.error status, stream) =>
      (if status = .errorEof then status.code else FlvStatus.ok.code, st, stream)
  else if tag.type = flvTagTypeMeta then
    match (flvReadMetadata stream : MetadataResult N × FlvStream) with
    | (result, stream) =>
      if result.status = .errorEof then (result.status.code, st, stream)
      else if result.status = .ok ∧ amfDataGetType result.name = AmfType.string.code then
        deliver parser (.metadataTag tag (amfStringGetBytes result.name) result.data) st stream
      else (FlvStatus.ok.code, st, stream)
  else deliver parser (.unknownTag tag) st stream

/-- The previous tag size and its event. -/
def parsePrevTagSize (parser : FlvParser U N) (st : ParseState U N) (stream : FlvStream) :
    Int × ParseState U N × FlvStream :=
  match flvReadPrevTagSize stream with
  | (.error status, stream) => (status.code, st, stream)
  | (.ok size, stream) => deliver parser (.prevTagSize size) st stream

/-- Go on with `next` unless a status is not zero. -/
def unlessFailed (r : Int × ParseState U N × FlvStream)
    (next : ParseState U N → FlvStream → Int × ParseState U N × FlvStream) :
    Int × ParseState U N × FlvStream :=
  if r.1 ≠ 0 then r else next r.2.1 r.2.2

/-- The body of the loop of `flv_parse`. -/
def parseTag (parser : FlvParser U N) (tag : FlvTag) (st : ParseState U N) (stream : FlvStream) :
    Int × ParseState U N × FlvStream :=
  unlessFailed (deliver parser (.tag tag) st stream) fun st stream =>
    unlessFailed (parseTagBody parser tag st stream) fun st stream =>
      parsePrevTagSize parser st stream

/-- A status that is not zero stops the loop. -/
def parseTurn (parser : FlvParser U N) (tag : FlvTag) (st : ParseState U N) (stream : FlvStream) :
    Loop.Turn (ParseState U N) (Int × ParseState U N) × FlvStream :=
  match parseTag parser tag st stream with
  | (retval, st, stream) => if retval ≠ 0 then (.stop (retval, st), stream) else (.next st, stream)

/-- `flv_parse` on a file that may not exist. There is no result if callbacks keep moving the
stream back. -/
def flvParse (parser : FlvParser U N) (user : U) (file : Option Bytes) :
    Option (Int × ParseState U N) :=
  match file with
  | none => some (FlvStatus.errorOpenRead.code, ⟨user, []⟩)
  | some content =>
    match flvReadHeader (flvOpen content) with
    | (.error status, _) => some (status.code, ⟨user, []⟩)
    | (.ok header, stream) =>
      match deliver parser (.header header) ⟨user, []⟩ stream with
      | (retval, st, stream) =>
        if retval ≠ 0 then some (retval, st)
        else
          match Loop.loop (fun _ => true) fetchTag (parseTurn parser) (content.length + 1) st
            stream with
          | none => none
          | some (.stopped result, _) => some result
          | some (.finished st, stream) =>
            match deliver parser .streamEnd st stream with
            | (retval, st, _) => some (retval, st)
          | some (.noItem st, stream) =>
            match deliver parser .streamEnd st stream with
            | (retval, st, _) => some (retval, st)

/-- The tags that `flv_parse` reads, with the state and the stream as they are read. -/
def parseVisits (parser : FlvParser U N) (user : U) (content : Bytes) :
    List (FlvTag × ParseState U N × FlvStream) :=
  match flvReadHeader (flvOpen content) with
  | (.error _, _) => []
  | (.ok header, stream) =>
    match deliver parser (.header header) ⟨user, []⟩ stream with
    | (retval, st, stream) =>
      if retval ≠ 0 then []
      else Loop.visits (fun _ => true) fetchTag (parseTurn parser) (content.length + 1) st stream

end

/-! ## Callbacks that read bodies -/

/-- Calls of `flv_read_tag_body` with buffers of given sizes. -/
def readBodies (sizes : List Nat) (stream : FlvStream) : FlvStream :=
  sizes.foldl (fun stream n => (flvReadTagBody n stream).2) stream

/-- The callbacks touch the stream only by calls of `flv_read_tag_body`. -/
def FlvParser.OnlyReadsBodies (parser : FlvParser U N) : Prop :=
  ∀ event f, parser.callback event = some f → ∀ user stream,
    ∃ sizes, (f user stream).2.2 = readBodies sizes stream

theorem deliver_stream {parser : FlvParser U N} (h : parser.OnlyReadsBodies) (event : FlvEvent N)
    (st : ParseState U N) (stream : FlvStream) :
    ∃ sizes, (deliver parser event st stream).2.2 = readBodies sizes stream := by
  unfold deliver
  cases hcallback : parser.callback event with
  | none => exact ⟨[], rfl⟩
  | some f => exact h event f hcallback st.user stream

section

variable {content : Bytes} {p : Nat} {tag : FlvTag} {stream : FlvStream}

theorem Tracks.readBodies {last : Option (Nat × FlvTag)} (h : Tracks content last stream)
    (sizes : List Nat) : Tracks content last (readBodies sizes stream) := by
  induction sizes generalizing stream with
  | nil => exact h
  | cons n sizes ih => exact ih (h.flvReadTagBody n)

theorem After.readBodies (h : After content p stream) (sizes : List Nat) :
    After content p (readBodies sizes stream) := by
  induction sizes generalizing stream with
  | nil => exact h
  | cons n sizes ih => exact ih (h.flvReadTagBody n)

theorem After.deliver {parser : FlvParser U N} (hreads : parser.OnlyReadsBodies)
    (h : After content p stream) (event : FlvEvent N) (st : ParseState U N) :
    After content p (deliver parser event st stream).2.2 := by
  obtain ⟨sizes, hstream⟩ := deliver_stream hreads event st stream
  rw [hstream]
  exact h.readBodies sizes

/-! ## Progress -/

/-- The first byte of a body is taken off. -/
theorem After.takeOff (h : After content p stream) (htracks : Tracks content (some (p, tag)) stream)
    (hbody : ¬ NoBody stream) (hlen : stream.currentTagBodyLength ≠ 0) :
    After content p (FlvMeta.takeOffBody 1 { stream with
      flvin := stream.flvin.advance 1 }) := by
  obtain ⟨p', tag', heq, heof, hstate, hoffset, -, hov, hle, hpos⟩ := htracks.body hbody
  cases heq
  have hL := flvTagGetBodyLength_lt tag
  refine After.takeOffBody (p := p) ⟨h.content_eq, h.state, h.offset, fun _ => ?_⟩ hoffset hov
    hstate ?_ hlen ?_
  · dsimp only [InFile.advance_pos]
    omega
  · dsimp only
    omega
  · dsimp only [InFile.advance_pos]
    omega

theorem After.flvReadAudioTag (h : After content p stream)
    (htracks : Tracks content (some (p, tag)) stream) :
    After content p (flvReadAudioTag stream).2 := by
  unfold FlvMeta.flvReadAudioTag
  split
  · exact h
  · rename_i hbody
    split
    · exact h
    · rename_i hlen
      rcases Nat.lt_or_ge stream.flvin.rest.length 1 with hlt | hle
      · rw [InFile.freadItem_of_lt hlt]
        exact ⟨h.content_eq, h.state, h.offset, nofun⟩
      · rw [InFile.freadItem_of_le hle]
        exact h.takeOff htracks hbody hlen

theorem After.flvReadVideoTag (h : After content p stream)
    (htracks : Tracks content (some (p, tag)) stream) :
    After content p (flvReadVideoTag stream).2 := by
  unfold FlvMeta.flvReadVideoTag
  split
  · exact h
  · rename_i hbody
    split
    · exact h
    · rename_i hlen
      rcases Nat.lt_or_ge stream.flvin.rest.length 1 with hlt | hle
      · rw [InFile.freadItem_of_lt hlt]
        exact ⟨h.content_eq, h.state, h.offset, nofun⟩
      · rw [InFile.freadItem_of_le hle]
        dsimp only
        have htaken := h.takeOff htracks hbody hlen
        split
        · have hfourcc := htaken.flvReadTagBody 4
          unfold flvReadFourccCodec
          dsimp only
          split <;> exact hfourcc
        · exact htaken

variable [NumberImage N]

theorem After.flvReadMetadata (h : After content p stream)
    (htracks : Tracks content (some (p, tag)) stream) :
    After content p (flvReadMetadata stream : MetadataResult N × FlvStream).2 := by
  by_cases hbody : NoBody stream
  · rw [FlvMeta.flvReadMetadata, if_pos hbody]
    exact h
  by_cases hlen : stream.currentTagBodyLength = 0
  · rw [FlvMeta.flvReadMetadata, if_neg hbody, if_pos hlen]
    exact h
  · exact flvReadMetadata_after htracks hbody hlen

variable {parser : FlvParser U N}

theorem After.parseTagBody (hreads : parser.OnlyReadsBodies) (h : After content p stream)
    (htracks : Tracks content (some (p, tag)) stream) (st : ParseState U N) :
    After content p (parseTagBody parser tag st stream).2.2 := by
  unfold FlvMeta.parseTagBody
  split
  · have hread := h.flvReadAudioTag htracks
    generalize FlvMeta.flvReadAudioTag stream = r at hread ⊢
    obtain ⟨result, stream'⟩ := r
    cases result with
    | error status => exact hread
    | ok at' => exact hread.deliver hreads _ _
  · split
    · have hread := h.flvReadVideoTag htracks
      generalize FlvMeta.flvReadVideoTag stream = r at hread ⊢
      obtain ⟨result, stream'⟩ := r
      cases result with
      | error status => exact hread
      | ok vt => exact hread.deliver hreads _ _
    · split
      · have hread := h.flvReadMetadata (N := N) htracks
        generalize (FlvMeta.flvReadMetadata stream : MetadataResult N × FlvStream) = r at hread ⊢
        obtain ⟨result, stream'⟩ := r
        dsimp only
        split
        · exact hread
        · split
          · exact hread.deliver hreads _ _
          · exact hread
      · exact h.deliver hreads _ _

omit [NumberImage N] in
theorem After.parsePrevTagSize (hreads : parser.OnlyReadsBodies) (h : After content p stream)
    (st : ParseState U N) : After content p (parsePrevTagSize parser st stream).2.2 := by
  have hread := h.flvReadPrevTagSize
  unfold FlvMeta.parsePrevTagSize
  generalize FlvMeta.flvReadPrevTagSize stream = r at hread ⊢
  obtain ⟨result, stream'⟩ := r
  cases result with
  | error status => exact hread
  | ok size => exact hread.deliver hreads _ _

omit [NumberImage N] in
theorem After.unlessFailed {r : Int × ParseState U N × FlvStream}
    {next : ParseState U N → FlvStream → Int × ParseState U N × FlvStream}
    (h : After content p r.2.2) (hnext : After content p (next r.2.1 r.2.2).2.2) :
    After content p (unlessFailed r next).2.2 := by
  unfold FlvMeta.unlessFailed
  split
  · exact h
  · exact hnext

/-- Whatever the callbacks read of a tag, the stream is then behind the start of the tag. -/
theorem after_parseTag (hreads : parser.OnlyReadsBodies) (content : Bytes) (p : Nat)
    (st : ParseState U N) :
    After content p
      (parseTag parser (flvTagOfBytes (content.drop p)) st (tagStream content p)).2.2 := by
  obtain ⟨sizes, hstream⟩ :=
    deliver_stream hreads (.tag (flvTagOfBytes (content.drop p))) st (tagStream content p)
  have htracks := (tracks_tagStream content p).readBodies sizes
  have hafter := (after_tagStream content p).readBodies sizes
  rw [← hstream] at htracks hafter
  have hbody := hafter.parseTagBody hreads htracks
    (deliver parser (.tag (flvTagOfBytes (content.drop p))) st (tagStream content p)).2.1
  exact hafter.unlessFailed (hbody.unlessFailed (hbody.parsePrevTagSize hreads _))

theorem turnsBeyond_parseTurn (hreads : parser.OnlyReadsBodies) (content : Bytes) :
    TurnsBeyond content (parseTurn parser) := by
  intro p st st' stream' hturn
  have hafter := after_parseTag hreads content p st
  unfold parseTurn at hturn
  dsimp only at hturn
  split at hturn
  · cases hturn
  · cases hturn
    exact hafter.beyond

omit [NumberImage N] in
/-- A stream before the first tag is at its track after callbacks have read bodies. -/
theorem beyond_deliver_header (hreads : parser.OnlyReadsBodies) {header : FlvHeader}
    (hread : flvReadHeader (flvOpen content) = (.ok header, stream)) (st : ParseState U N) :
    Beyond content 0 (deliver parser (.header header) st stream).2.2 := by
  obtain ⟨-, -, rfl⟩ := flvReadHeader_ok (atStart_flvOpen content) hread
  obtain ⟨sizes, hstream⟩ := deliver_stream hreads (.header header) st
    { flvOpen content with flvin := ⟨content, 9, false⟩, state := .prevTagSize }
  have htracks := tracks_header content
  rw [hstream]
  exact ⟨(htracks.readBodies sizes).content_eq, fun _ => Nat.zero_le _⟩

/-- With callbacks that only read bodies the parser visits increasing offsets of any file. -/
theorem parseVisits_offsets (hreads : parser.OnlyReadsBodies) (user : U) (content : Bytes) :
    (Loop.keys flvGetCurrentTagOffset (parseVisits parser user content)).Pairwise (· < ·) := by
  unfold parseVisits
  cases hheader : flvReadHeader (flvOpen content) with
  | mk result stream =>
    cases result with
    | error status => exact .nil
    | ok header =>
      have hbeyond := beyond_deliver_header hreads hheader (⟨user, []⟩ : ParseState U N)
      dsimp only
      split
      · exact .nil
      · exact Loop.pairwise_keys (advances_fetchTag (turnsBeyond_parseTurn hreads content)) hbeyond

/-- With callbacks that only read bodies the parser ends on any file. -/
theorem flvParse_isSome (hreads : parser.OnlyReadsBodies) (user : U) (file : Option Bytes) :
    (flvParse parser user file).isSome := by
  unfold flvParse
  cases file with
  | none => rfl
  | some content =>
    dsimp only
    cases hheader : flvReadHeader (flvOpen content) with
    | mk result stream =>
      cases result with
      | error status => rfl
      | ok header =>
        have hbeyond := beyond_deliver_header hreads hheader (⟨user, []⟩ : ParseState U N)
        dsimp only
        split
        · rfl
        · have hloop : (Loop.loop (fun _ => true) fetchTag (parseTurn parser)
              (content.length + 1)
              (deliver parser (.header header) (⟨user, []⟩ : ParseState U N) stream).2.1
              (deliver parser (.header header) (⟨user, []⟩ : ParseState U N) stream).2.2).isSome :=
            Loop.loop_isSome (advances_fetchTag (turnsBeyond_parseTurn hreads content)) hbeyond
              (Nat.zero_le _) (Nat.lt_succ_self _)
          obtain ⟨e, he⟩ := Option.isSome_iff_exists.mp hloop
          obtain ⟨e, stream'⟩ := e
          rw [he]
          cases e <;> rfl

end

end FlvMeta
