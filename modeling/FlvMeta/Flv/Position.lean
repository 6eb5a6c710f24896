import FlvMeta.Flv.Tags

/-!
# The position of the stream

Whatever is read of a tag, the stream stays on the list of tags. `Tracks content last stream`
is the invariant: `last` is the tag delivered last since the stream was at its start, and as long
as the end of the file has not been seen the position follows from it, from the state and from
what is left of its body. Each operation on a tag keeps it, `flvReadTag` moves it to the next
tag, and so the tags delivered by any sequence of operations are the first ones of `tagsFrom`.
-/

namespace FlvMeta

open Stdio

/-! ## The invariant -/

/-- The offset of the tag after the one delivered last, that of the first tag at the start. -/
def nextOffset : Option (Nat × FlvTag) → Nat
  | none => 13
  | some (p, tag) => nextTag p tag

/-- Before the first tag. -/
inductive BeforeTags (stream : FlvStream) : Prop
  | start : stream.state = .start → stream.flvin.pos = 0 → BeforeTags stream
  | prevTagSize : stream.state = .prevTagSize → stream.flvin.pos = 9 → BeforeTags stream
  | tag : stream.state = .tag → stream.flvin.pos = 13 → BeforeTags stream

/-- In or after the tag at offset `p`. -/
inductive OnTag (p : Nat) (tag : FlvTag) (stream : FlvStream) : Prop
  | tagBody : stream.state = .tagBody → stream.currentTagOffset = p → stream.currentTag = tag →
    stream.currentTagBodyOverflow = 0 →
    stream.currentTagBodyLength ≤ flvTagGetBodyLength tag →
    stream.flvin.pos = p + 11 + (flvTagGetBodyLength tag - stream.currentTagBodyLength) →
    OnTag p tag stream
  | prevTagSize : stream.state = .prevTagSize → stream.currentTagOffset = p →
    stream.currentTag = tag → stream.flvin.pos = p + 11 + flvTagGetBodyLength tag →
    OnTag p tag stream
  | tag : stream.state = .tag → stream.flvin.pos = nextTag p tag → OnTag p tag stream

def OnTrack (stream : FlvStream) : Option (Nat × FlvTag) → Prop
  | none => BeforeTags stream
  | some (p, tag) => OnTag p tag stream

structure Tracks (content : Bytes) (last : Option (Nat × FlvTag)) (stream : FlvStream) : Prop where
  content_eq : stream.flvin.content = content
  onTrack : stream.flvin.eof = false → OnTrack stream last
  atEnd : stream.flvin.eof = true → content.length < nextOffset last + 11

theorem Tracks.aimed {content : Bytes} {last : Option (Nat × FlvTag)} {stream : FlvStream}
    (h : Tracks content last stream) : Aimed content (nextOffset last) stream := by
  refine ⟨h.content_eq, fun heof => ?_, h.atEnd⟩
  have htrack := h.onTrack heof
  cases last with
  | none =>
    rcases htrack with ⟨hs, hp⟩ | ⟨hs, hp⟩ | ⟨hs, hp⟩ <;> simp [nextTagOffset, hs, hp, nextOffset]
  | some last =>
    obtain ⟨p, tag⟩ := last
    rcases htrack with ⟨hs, ho, ht, -, -, -⟩ | ⟨hs, -, -, hp⟩ | ⟨hs, hp⟩
    · simp [nextTagOffset, hs, ho, ht, nextOffset]
    · simp only [nextTagOffset, hs, hp, nextOffset, nextTag]
      omega
    · simp [nextTagOffset, hs, hp, nextOffset]

theorem tracks_tagStream (content : Bytes) (p : Nat) :
    Tracks content (some (p, flvTagOfBytes (content.drop p))) (tagStream content p) :=
  ⟨rfl, fun _ => .tagBody rfl rfl rfl rfl (Nat.le_refl _) (by simp [tagStream]), nofun⟩

theorem AtStart.tracks {content : Bytes} {stream : FlvStream} (h : AtStart content stream) :
    Tracks content none stream :=
  ⟨by rw [h.file], fun _ => .start h.state (by rw [h.file]), by rw [h.file]; nofun⟩

/-- The stream behind the file header. -/
theorem tracks_header (content : Bytes) : Tracks content none
    { flvOpen content with flvin := ⟨content, 9, false⟩, state := .prevTagSize } :=
  ⟨rfl, fun _ => .prevTagSize rfl rfl, nofun⟩

/-- A stream whose end-of-file flag is set keeps to its track whatever its other fields are. -/
theorem Tracks.of_eof {content : Bytes} {last : Option (Nat × FlvTag)} {stream : FlvStream}
    (hcontent : stream.flvin.content = content) (heof : stream.flvin.eof = true)
    (hend : content.length < nextOffset last + 11) : Tracks content last stream :=
  ⟨hcontent, by rw [heof]; nofun, fun _ => hend⟩

/-! ## The operations -/

variable {content : Bytes} {last : Option (Nat × FlvTag)} {stream : FlvStream}

theorem Tracks.flvReadTag (h : Tracks content last stream)
    (hle : nextOffset last + 11 ≤ content.length) :
    flvReadTag stream = (.ok (flvTagOfBytes (content.drop (nextOffset last))),
      tagStream content (nextOffset last)) :=
  flvReadTag_of_aimed h.aimed hle

/-- In a tag body, what the invariant says of the file and the remaining length. -/
theorem Tracks.body (h : Tracks content last stream) (hbody : ¬ NoBody stream) :
    ∃ p tag, last = some (p, tag) ∧ stream.flvin.eof = false ∧ stream.state = .tagBody ∧
      stream.currentTagOffset = p ∧ stream.currentTag = tag ∧
      stream.currentTagBodyOverflow = 0 ∧
      stream.currentTagBodyLength ≤ flvTagGetBodyLength tag ∧
      stream.flvin.pos = p + 11 + (flvTagGetBodyLength tag - stream.currentTagBodyLength) := by
  have heof : stream.flvin.eof = false := by
    simpa using fun he => hbody (Or.inl he)
  have hstate : stream.state = .tagBody := by
    by_contra hs
    exact hbody (Or.inr hs)
  have htrack := h.onTrack heof
  cases last with
  | none => rcases htrack with ⟨hs, -⟩ | ⟨hs, -⟩ | ⟨hs, -⟩ <;> (rw [hstate] at hs; cases hs)
  | some last =>
    obtain ⟨p, tag⟩ := last
    rcases htrack with ⟨-, ho, ht, hov, hle, hp⟩ | ⟨hs, -⟩ | ⟨hs, -⟩
    · exact ⟨p, tag, rfl, heof, hstate, ho, ht, hov, hle, hp⟩
    · rw [hstate] at hs
      cases hs
    · rw [hstate] at hs
      cases hs

/-- Reading `k` more bytes of a body. -/
theorem Tracks.bodyStep (h : Tracks content last stream) (hbody : ¬ NoBody stream) {k : Nat}
    (hk : k ≤ stream.currentTagBodyLength) {flvin : InFile} (hcontent : flvin.content = content)
    (hpos : flvin.pos = stream.flvin.pos + k)
    (hend : flvin.eof = true →
      content.length < stream.flvin.pos + stream.currentTagBodyLength) :
    Tracks content last { stream with
      flvin
      currentTagBodyLength := stream.currentTagBodyLength - k
      state := if stream.currentTagBodyLength - k = 0 then .prevTagSize else .tagBody } := by
  obtain ⟨p, tag, rfl, heof, hstate, ho, ht, hov, hle, hp⟩ := h.body hbody
  refine ⟨hcontent, fun _ => ?_, fun he => ?_⟩
  · by_cases h0 : stream.currentTagBodyLength - k = 0
    · refine .prevTagSize (if_pos h0) ho ht ?_
      dsimp only
      omega
    · refine .tagBody (if_neg h0) ho ht hov ?_ ?_
      · dsimp only
        omega
      · dsimp only
        omega
  · have := hend he
    simp only [nextOffset, nextTag]
    omega

/-- The end of the file found in a tag body. -/
theorem Tracks.bodyEof (h : Tracks content last stream) (hbody : ¬ NoBody stream)
    {n : Nat} (hn : n ≤ stream.currentTagBodyLength) (hlt : stream.flvin.rest.length < n) :
    Tracks content last { stream with flvin := (stream.flvin.fread n).2 } := by
  obtain ⟨p, tag, rfl, heof, hstate, ho, ht, hov, hle, hp⟩ := h.body hbody
  rw [InFile.fread_of_lt hlt]
  refine Tracks.of_eof h.content_eq rfl ?_
  rw [InFile.length_rest, h.content_eq] at hlt
  simp only [nextOffset, nextTag]
  omega

/-- The first byte of a body, as the audio and video readers take it. -/
theorem Tracks.takeOff (h : Tracks content last stream) (hbody : ¬ NoBody stream)
    (hlen : stream.currentTagBodyLength ≠ 0) :
    Tracks content last (takeOffBody 1 { stream with flvin := stream.flvin.advance 1 }) := by
  obtain ⟨p, tag, rfl, heof, hstate, ho, ht, hov, hl, hp⟩ := h.body hbody
  have hstep := h.bodyStep hbody (k := 1) (by omega)
    (show (stream.flvin.advance 1).content = content from h.content_eq) rfl
    (by rw [InFile.advance_eof, heof]; nofun)
  have hover :
      ({ stream with flvin := stream.flvin.advance 1 } : FlvStream).currentTagBodyOverflow =
        0 := hov
  rw [takeOffBody_of_le hover hstate (by dsimp only; omega)]
  exact hstep

theorem Tracks.flvReadAudioTag (h : Tracks content last stream) :
    Tracks content last (flvReadAudioTag stream).2 := by
  unfold FlvMeta.flvReadAudioTag
  split
  · exact h
  · rename_i hbody
    split
    · exact h
    · rename_i hlen
      by_cases hle : 1 ≤ stream.flvin.rest.length
      · rw [InFile.freadItem_of_le hle]
        exact h.takeOff hbody hlen
      · have hlt : stream.flvin.rest.length < 1 := by omega
        have hend := h.bodyEof hbody (n := 1) (by omega) hlt
        rw [InFile.fread_of_lt hlt] at hend
        rw [InFile.freadItem_of_lt hlt]
        exact hend

theorem Tracks.flvReadTagBody (h : Tracks content last stream) (n : Nat) :
    Tracks content last (flvReadTagBody n stream).2 := by
  unfold FlvMeta.flvReadTagBody
  split
  · exact h
  · rename_i hbody
    have hlength := InFile.length_fread_le (min n stream.currentTagBodyLength) stream.flvin
    obtain ⟨p, tag, -, heof, -⟩ := h.body hbody
    refine h.bodyStep hbody (by omega) h.content_eq rfl fun he => ?_
    have hend := InFile.eof_fread heof he
    rw [h.content_eq] at hend
    omega

theorem Tracks.flvReadVideoTag (h : Tracks content last stream) :
    Tracks content last (flvReadVideoTag stream).2 := by
  unfold FlvMeta.flvReadVideoTag
  split
  · exact h
  · rename_i hbody
    split
    · exact h
    · rename_i hlen
      by_cases hle : 1 ≤ stream.flvin.rest.length
      · rw [InFile.freadItem_of_le hle]
        dsimp only
        have htaken := h.takeOff hbody hlen
        split
        · have hfourcc := htaken.flvReadTagBody 4
          unfold flvReadFourccCodec
          dsimp only
          split <;> exact hfourcc
        · exact htaken
      · have hlt : stream.flvin.rest.length < 1 := by omega
        have hend := h.bodyEof hbody (n := 1) (by omega) hlt
        rw [InFile.fread_of_lt hlt] at hend
        rw [InFile.freadItem_of_lt hlt]
        exact hend

theorem Tracks.skipTagBody (h : Tracks content last stream) (heof : stream.flvin.eof = false) :
    Tracks content last (skipTagBody stream) ∧ (skipTagBody stream).flvin.eof = false := by
  unfold FlvMeta.skipTagBody
  split
  · rename_i hstate
    obtain ⟨p, tag, rfl, -, -, ho, ht, -⟩ :=
      h.body (by rintro (he | hs); exact absurd he (by simp [heof]); exact hs hstate)
    refine ⟨⟨h.content_eq, fun _ => .prevTagSize rfl ho ht ?_, nofun⟩, rfl⟩
    rw [ho, ht]
    rfl
  · exact ⟨h, heof⟩

theorem Tracks.flvReadPrevTagSize (h : Tracks content last stream) :
    Tracks content last (flvReadPrevTagSize stream).2 := by
  unfold FlvMeta.flvReadPrevTagSize
  split
  · exact h
  · rename_i heof
    obtain ⟨hskip, heof'⟩ := h.skipTagBody (by simpa using heof)
    generalize FlvMeta.skipTagBody stream = s at hskip heof'
    dsimp only
    split
    · rename_i hstate
      have hpos : s.flvin.pos + 4 = nextOffset last := by
        have haimed := hskip.aimed.next heof'
        simpa [nextTagOffset, hstate] using haimed
      by_cases hle : 4 ≤ s.flvin.rest.length
      · rw [InFile.freadItem_of_le hle]
        refine ⟨hskip.content_eq, fun _ => ?_, by simp [heof']⟩
        cases last with
        | none => exact .tag rfl hpos
        | some last => exact .tag rfl hpos
      · have hlt : s.flvin.rest.length < 4 := by omega
        rw [InFile.freadItem_of_lt hlt]
        refine Tracks.of_eof hskip.content_eq rfl ?_
        rw [InFile.length_rest, hskip.content_eq] at hlt
        omega
    · exact hskip

/-! ## Sequences of operations -/

inductive StreamOp where
  | readTag
  | readPrevTagSize
  | readAudioTag
  | readVideoTag
  | readTagBody (bufferSize : Nat)
  | reset

/-- A stream with the tags it has delivered since it was last at its start, each with its
offset. -/
structure Session where
  stream : FlvStream
  delivered : List (Nat × FlvTag)

namespace StreamOp

def run : StreamOp → Session → Session
  | readTag, ⟨stream, delivered⟩ =>
    match flvReadTag stream with
    | (.ok tag, stream) => ⟨stream, delivered ++ [(flvGetCurrentTagOffset stream, tag)]⟩
    | (.error _, stream) => ⟨stream, delivered⟩
  | readPrevTagSize, ⟨stream, delivered⟩ => ⟨(flvReadPrevTagSize stream).2, delivered⟩
  | readAudioTag, ⟨stream, delivered⟩ => ⟨(flvReadAudioTag stream).2, delivered⟩
  | readVideoTag, ⟨stream, delivered⟩ => ⟨(flvReadVideoTag stream).2, delivered⟩
  | readTagBody n, ⟨stream, delivered⟩ => ⟨(flvReadTagBody n stream).2, delivered⟩
  | reset, ⟨stream, _⟩ => ⟨flvReset stream, []⟩

/-- The calls of `flv_read_tag` since the last reset, `n` before the first operation. -/
def readTags : List StreamOp → Nat → Nat
  | [], n => n
  | readTag :: ops, n => readTags ops (n + 1)
  | reset :: ops, _ => readTags ops 0
  | readPrevTagSize :: ops, n => readTags ops n
  | readAudioTag :: ops, n => readTags ops n
  | readVideoTag :: ops, n => readTags ops n
  | readTagBody _ :: ops, n => readTags ops n

end StreamOp

def runOps (ops : List StreamOp) (session : Session) : Session :=
  ops.foldl (fun session op => op.run session) session

/-- After `n` calls of `flvReadTag` the tags delivered are the first `n` of the file, or all of
them if there are fewer, and the stream is on the track of the last of them. -/
structure Follows (content : Bytes) (n : Nat) (session : Session) : Prop where
  tracks : Tracks content session.delivered.getLast? session.stream
  split : tagsFrom content 13 =
    session.delivered ++ tagsFrom content (nextOffset session.delivered.getLast?)
  le : session.delivered.length ≤ n
  count : session.delivered.length = n ∨
    tagsFrom content (nextOffset session.delivered.getLast?) = []

theorem AtStart.follows (h : AtStart content stream) : Follows content 0 ⟨stream, []⟩ :=
  ⟨h.tracks, rfl, Nat.le_refl 0, Or.inl rfl⟩

theorem Follows.delivered_eq {n : Nat} {session : Session} (h : Follows content n session) :
    session.delivered = (tagsFrom content 13).take n := by
  have hle := h.le
  rw [h.split]
  rcases h.count with hn | hnil
  · rw [← hn, List.take_left]
  · rw [hnil, List.append_nil, List.take_of_length_le hle]

theorem Follows.readTag {n : Nat} {session : Session} (h : Follows content n session) :
    Follows content (n + 1) (StreamOp.readTag.run session) := by
  obtain ⟨stream, delivered⟩ := session
  obtain ⟨htracks, hsplit, hlen, hcount⟩ := h
  have haimed := htracks.aimed
  dsimp only at htracks hsplit hlen hcount haimed
  generalize hp : nextOffset delivered.getLast? = p at hsplit hcount haimed
  by_cases hle : p + 11 ≤ content.length
  · have hread := flvReadTag_of_aimed haimed hle
    have hrun : StreamOp.readTag.run ⟨stream, delivered⟩ =
        ⟨tagStream content p, delivered ++ [(p, flvTagOfBytes (content.drop p))]⟩ := by
      simp only [StreamOp.run, hread]
      rfl
    rw [tagsFrom_of_le hle] at hsplit hcount
    rw [hrun]
    refine ⟨?_, ?_, ?_, Or.inl ?_⟩
    · rw [List.getLast?_concat]
      exact tracks_tagStream content p
    · rw [List.getLast?_concat, List.append_assoc]
      exact hsplit
    · simpa using hlen
    · rcases hcount with hn | hnil
      · simpa using hn
      · cases hnil
  · have hnil : tagsFrom content p = [] := tagsFrom_of_lt (by omega)
    obtain ⟨stream', hread, haimed', heof⟩ := flvReadTag_of_aimed_lt haimed (by omega)
    have hrun : StreamOp.readTag.run ⟨stream, delivered⟩ = ⟨stream', delivered⟩ := by
      simp only [StreamOp.run, hread]
    rw [hrun]
    refine ⟨Tracks.of_eof haimed'.content_eq heof ?_, ?_, Nat.le_succ_of_le hlen, Or.inr ?_⟩
    · rw [hp]
      omega
    · rw [hp]
      exact hsplit
    · rw [hp]
      exact hnil

/-- An operation that only reads in the current tag. -/
theorem Follows.of_tracks {n : Nat} {delivered : List (Nat × FlvTag)} {stream' : FlvStream}
    (h : Follows content n ⟨stream, delivered⟩)
    (htracks : Tracks content delivered.getLast? stream') :
    Follows content n ⟨stream', delivered⟩ :=
  ⟨htracks, h.split, h.le, h.count⟩

theorem Follows.runOps {n : Nat} {session : Session} (ops : List StreamOp)
    (h : Follows content n session) :
    Follows content (StreamOp.readTags ops n) (runOps ops session) := by
  induction ops generalizing n session with
  | nil => exact h
  | cons op ops ih =>
    obtain ⟨stream, delivered⟩ := session
    have htracks := h.tracks
    cases op with
    | readTag => exact ih h.readTag
    | readPrevTagSize => exact ih (h.of_tracks htracks.flvReadPrevTagSize)
    | readAudioTag => exact ih (h.of_tracks htracks.flvReadAudioTag)
    | readVideoTag => exact ih (h.of_tracks htracks.flvReadVideoTag)
    | readTagBody k => exact ih (h.of_tracks (htracks.flvReadTagBody k))
    | reset =>
      have hstart := atStart_flvReset stream
      rw [htracks.content_eq] at hstart
      exact ih hstart.follows

/-- A stream at its start, or after its header was read successfully. -/
def Started (content : Bytes) (stream : FlvStream) : Prop :=
  AtStart content stream ∨
    ∃ stream₀ header, AtStart content stream₀ ∧ flvReadHeader stream₀ = (.ok header, stream)

theorem Started.follows (h : Started content stream) : Follows content 0 ⟨stream, []⟩ := by
  rcases h with hstart | ⟨stream₀, header, hstart, hread⟩
  · exact hstart.follows
  · obtain ⟨-, -, hstream⟩ := flvReadHeader_ok hstart hread
    refine hstart.follows.of_tracks ?_
    rw [hstream]
    exact ⟨rfl, fun _ => .prevTagSize rfl rfl, nofun⟩

/-- As long as the end of the file has not been seen, the position in a tag body is that of its
first unread byte, and after the body of a tag it is its end. -/
structure InPosition (session : Session) : Prop where
  tagBody : session.stream.flvin.eof = false → session.stream.state = .tagBody →
    session.stream.flvin.pos = session.stream.currentTagOffset + 11 +
      (flvTagGetBodyLength session.stream.currentTag - session.stream.currentTagBodyLength)
  unread_le : session.stream.flvin.eof = false → session.stream.state = .tagBody →
    session.stream.currentTagBodyLength ≤ flvTagGetBodyLength session.stream.currentTag
  prevTagSize : session.stream.flvin.eof = false → session.stream.state = .prevTagSize →
    session.delivered ≠ [] →
    session.stream.flvin.pos =
      session.stream.currentTagOffset + 11 + flvTagGetBodyLength session.stream.currentTag

theorem Follows.inPosition {n : Nat} {session : Session} (h : Follows content n session) :
    InPosition session := by
  have hbody : session.stream.flvin.eof = false → session.stream.state = .tagBody →
      ¬ NoBody session.stream := by
    rintro heof hstate (he | hs)
    · rw [heof] at he
      cases he
    · exact hs hstate
  refine ⟨fun heof hstate => ?_, fun heof hstate => ?_, fun heof hstate hne => ?_⟩
  · obtain ⟨p, tag, -, -, -, ho, ht, -, -, hpos⟩ := h.tracks.body (hbody heof hstate)
    rw [ho, ht]
    exact hpos
  · obtain ⟨p, tag, -, -, -, -, ht, -, hle, -⟩ := h.tracks.body (hbody heof hstate)
    rw [ht]
    exact hle
  · have htrack := h.tracks.onTrack heof
    generalize hl : session.delivered.getLast? = last at htrack
    cases last with
    | none => exact absurd (List.getLast?_eq_none_iff.mp hl) hne
    | some last =>
      obtain ⟨p, tag⟩ := last
      rcases htrack with ⟨hs, -⟩ | ⟨-, ho, ht, hpos⟩ | ⟨hs, -⟩
      · rw [hstate] at hs
        cases hs
      · rw [ho, ht]
        exact hpos
      · rw [hstate] at hs
        cases hs

/-- Every state reached by the operations from a started stream is in position. The tags
delivered since the last reset are the first ones of the file, as many as there were calls of
`flvReadTag`, whatever else was read in between. -/
theorem stream_position {content : Bytes} {stream : FlvStream} (h : Started content stream)
    (ops : List StreamOp) :
    InPosition (runOps ops ⟨stream, []⟩) ∧
      (runOps ops ⟨stream, []⟩).delivered =
        (tagsFrom content 13).take (StreamOp.readTags ops 0) :=
  ⟨(h.follows.runOps ops).inPosition, (h.follows.runOps ops).delivered_eq⟩

/-- Two audio tags of one byte, the first one read. -/
theorem stream_position_audio :
    InPosition (runOps [.readTag, .readAudioTag, .readTag] ⟨flvOpen
      ([0x46, 0x4C, 0x56, 1, 4, 0, 0, 0, 9, 0, 0, 0, 0,
        8, 0, 0, 1, 0, 0, 0, 0, 0, 0, 0, 0xAF, 0, 0, 0, 12,
        8, 0, 0, 1, 0, 0, 5, 0, 0, 0, 0, 0xAF, 0, 0, 0, 12]), []⟩) ∧
      (runOps [.readTag, .readAudioTag, .readTag] ⟨flvOpen
        ([0x46, 0x4C, 0x56, 1, 4, 0, 0, 0, 9, 0, 0, 0, 0,
          8, 0, 0, 1, 0, 0, 0, 0, 0, 0, 0, 0xAF, 0, 0, 0, 12,
          8, 0, 0, 1, 0, 0, 5, 0, 0, 0, 0, 0xAF, 0, 0, 0, 12]), []⟩).delivered =
        (tagsFrom [0x46, 0x4C, 0x56, 1, 4, 0, 0, 0, 9, 0, 0, 0, 0,
          8, 0, 0, 1, 0, 0, 0, 0, 0, 0, 0, 0xAF, 0, 0, 0, 12,
          8, 0, 0, 1, 0, 0, 5, 0, 0, 0, 0, 0xAF, 0, 0, 0, 12] 13).take
          (StreamOp.readTags [.readTag, .readAudioTag, .readTag] 0) :=
  stream_position (Or.inl (atStart_flvOpen _)) _

end FlvMeta
