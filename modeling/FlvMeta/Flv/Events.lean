import FlvMeta.Flv.Parse

/-!
# The events of a file of complete tags

On a file of complete tags, with callbacks that return zero and only read bodies, `flvParse`
succeeds and its events are those of the header, of each tag in the order of the file, and of the
end. `TagEvents` are the events of one tag. Each turn of the loop delivers them
(`parseTag_events`), whatever the callbacks have read of the body, because the previous tag size is
read behind it in any case. Only the callback for a tag of a known type must leave its body
alone: it is called before the reader of that type.
-/

namespace FlvMeta

open Endian Stdio

variable {U N : Type}

/-! ## Files and callbacks -/

/-- A complete tag. A script body is the images of two values, and an extended video body has the
code of its codec. -/
structure EventTag (content : Bytes) (p : Nat) (tag : FlvTag) : Prop where
  size : nextTag p tag ≤ content.length
  script : tag.type = flvTagTypeMeta → flvTagGetBodyLength tag ≠ 0 →
    ∃ name data : AmfData UInt64, WellFormed name ∧ WellFormed data ∧
      tagBody content p tag = amfDataImage name ++ amfDataImage data
  video : tag.type = flvTagTypeVideo → flvTagGetBodyLength tag ≠ 0 → ExtHeaderFits content p tag

/-- A header, a first previous tag size and complete tags. -/
structure EventFile (content : Bytes) : Prop where
  length : 13 ≤ content.length
  signature : (flvHeaderOfBytes content).signature = ⟨0x46, 0x4C, 0x56⟩
  tags : ∀ x ∈ tagsFrom content 13, EventTag content x.1 x.2

theorem EventTag.complete {content : Bytes} {p : Nat} {tag : FlvTag}
    (h : EventTag content p tag) : Complete content p tag := by
  have hsize := h.size
  unfold nextTag at hsize
  unfold Complete
  omega

namespace FlvParser

/-- The callbacks return zero. -/
def ReturnsOk (parser : FlvParser U N) : Prop :=
  ∀ event f, parser.callback event = some f → ∀ user stream, (f user stream).1 = 0

/-- The callback for a tag of a known type does not read its body. -/
def LeavesBodies (parser : FlvParser U N) : Prop :=
  ∀ tag f, tag.Known → parser.onTag = some f → ∀ user stream, (f tag user stream).2.2 = stream

/-- Whether there is a callback for an event. -/
def handles (parser : FlvParser U N) (event : FlvEvent N) : Bool := (parser.callback event).isSome

end FlvParser

/-! ## The events of a tag -/

section

variable [NumberImage N]

/-- The events of the body of a tag. -/
inductive BodyEvents (content : Bytes) (p : Nat) (tag : FlvTag) : List (FlvEvent N) → Prop
  | empty : tag.Known → flvTagGetBodyLength tag = 0 → BodyEvents content p tag []
  | audio : tag.type = flvTagTypeAudio → flvTagGetBodyLength tag ≠ 0 →
    BodyEvents content p tag [.audioTag tag (content.getD (p + 11) 0)]
  | video : tag.type = flvTagTypeVideo → flvTagGetBodyLength tag ≠ 0 →
    BodyEvents content p tag [.videoTag tag (videoTagAt content p)]
  | script {name : AmfString} {data : AmfData UInt64} : tag.type = flvTagTypeMeta →
    flvTagGetBodyLength tag ≠ 0 → WellFormed data →
    tagBody content p tag = amfDataImage (.string name : AmfData UInt64) ++ amfDataImage data →
    BodyEvents content p tag [.metadataTag tag name.bytes (data.mapNumbers reload)]
  | notNamed {name data : AmfData UInt64} : tag.type = flvTagTypeMeta →
    flvTagGetBodyLength tag ≠ 0 → WellFormed name → (∀ s, name ≠ .string s) →
    tagBody content p tag = amfDataImage name ++ amfDataImage data → BodyEvents content p tag []
  | unknown : ¬ tag.Known → BodyEvents content p tag [.unknownTag tag]

/-- The events of a tag: its header, its body and the previous tag size behind it. -/
inductive TagEvents (content : Bytes) : Nat × FlvTag → List (FlvEvent N) → Prop
  | mk {p tag events} : BodyEvents content p tag events → TagEvents content (p, tag)
      (.tag tag :: (events ++ [.prevTagSize (storedTagSize content p tag)]))

end

/-! ## Calls -/

section

variable {parser : FlvParser U N} {content : Bytes} {p : Nat} {tag : FlvTag} {stream : FlvStream}

theorem InTag.readBodies (h : InTag content p tag stream) (hcomplete : Complete content p tag)
    (sizes : List Nat) : InTag content p tag (readBodies sizes stream) := by
  induction sizes generalizing stream with
  | nil => exact h
  | cons n sizes ih => exact ih (h.flvReadTagBody hcomplete n)

/-- A call that succeeds is logged if there is a callback. -/
theorem deliver_ok (hok : parser.ReturnsOk) (hreads : parser.OnlyReadsBodies) (event : FlvEvent N)
    (st : ParseState U N) (stream : FlvStream) :
    ∃ user sizes, deliver parser event st stream =
      (0, ⟨user, st.events ++ [event].filter parser.handles⟩, readBodies sizes stream) := by
  unfold deliver
  cases hcallback : parser.callback event with
  | none =>
    refine ⟨st.user, [], ?_⟩
    simp [FlvParser.handles, hcallback, readBodies]
  | some f =>
    obtain ⟨sizes, hstream⟩ := hreads event f hcallback st.user stream
    have hzero := hok event f hcallback st.user stream
    refine ⟨(f st.user stream).2.1, sizes, ?_⟩
    simp [FlvParser.handles, hcallback, ← hstream, hzero]

/-- The call for a tag of a known type leaves the stream where it is. -/
theorem deliver_tag_known (hleaves : parser.LeavesBodies) (hknown : tag.Known)
    (st : ParseState U N) (stream : FlvStream) :
    (deliver parser (.tag tag) st stream).2.2 = stream := by
  unfold deliver FlvParser.callback
  cases hcallback : parser.onTag with
  | none => rfl
  | some f => exact hleaves tag f hknown hcallback st.user stream

theorem unlessFailed_of_zero {r : Int × ParseState U N × FlvStream} (h : r.1 = 0)
    (next : ParseState U N → FlvStream → Int × ParseState U N × FlvStream) :
    unlessFailed r next = next r.2.1 r.2.2 := by
  rw [unlessFailed, if_neg (by simp [h])]

theorem type_string_iff {name : AmfData N} (h : WellFormed name) :
    amfDataGetType name = AmfType.string.code ↔ ∃ s, name = .string s := by
  cases name with
  | string s => simp [amfDataGetType]
  | nullPtr => simp [WellFormed] at h
  | other type => simp [WellFormed] at h
  | _ => simp [amfDataGetType, AmfType.code]

theorem filter_between {α : Type} (f : α → Bool) (a b : α) (xs : List α) :
    (a :: (xs ++ [b])).filter f = [a].filter f ++ (xs.filter f ++ [b].filter f) := by
  rw [← List.filter_append, ← List.filter_append, List.singleton_append]

variable [NumberImage N]

/-- What the reader of the type of a tag and its callback do. -/
theorem parseTagBody_events (hok : parser.ReturnsOk) (hreads : parser.OnlyReadsBodies)
    (htag : tag = flvTagOfBytes (content.drop p)) (hevent : EventTag content p tag)
    (hin : InTag content p tag stream) (hstream : tag.Known → stream = tagStream content p)
    (st : ParseState U N) :
    ∃ user events stream', parseTagBody parser tag st stream =
        (0, ⟨user, st.events ++ events.filter parser.handles⟩, stream') ∧
      BodyEvents content p tag events ∧ InTag content p tag stream' := by
  have hcomplete := hevent.complete
  have hL : (tagStream content p).currentTagBodyLength = flvTagGetBodyLength tag := by
    rw [htag]
    rfl
  have hcall : ∀ {stream₁ : FlvStream} {event : FlvEvent N}, InTag content p tag stream₁ →
      BodyEvents content p tag [event] →
      ∃ user events stream', deliver parser event st stream₁ =
          (0, ⟨user, st.events ++ events.filter parser.handles⟩, stream') ∧
        BodyEvents content p tag events ∧ InTag content p tag stream' := by
    intro stream₁ event hin₁ hevents
    obtain ⟨user, sizes, hdeliver⟩ := deliver_ok hok hreads event st stream₁
    exact ⟨user, [event], _, hdeliver, hevents, hin₁.readBodies hcomplete sizes⟩
  have hnothing : ∀ {stream₁ : FlvStream}, InTag content p tag stream₁ →
      BodyEvents (N := N) content p tag [] →
      ∃ user events stream', (((0 : Int), st, stream₁) : Int × ParseState U N × FlvStream) =
          (0, ⟨user, st.events ++ events.filter parser.handles⟩, stream') ∧
        BodyEvents content p tag events ∧ InTag content p tag stream' := by
    intro stream₁ hin₁ hevents
    exact ⟨st.user, [], stream₁, by simp, hevents, hin₁⟩
  unfold parseTagBody
  by_cases haudio : tag.type = flvTagTypeAudio
  · have hknown : tag.Known := Or.inr (Or.inl haudio)
    rw [if_pos haudio]
    rw [hstream hknown]
    by_cases hlen : flvTagGetBodyLength tag = 0
    · rw [flvReadAudioTag, if_neg (not_noBody_tagStream content p), if_pos (hL.trans hlen)]
      exact hnothing (inTag_tagStream htag) (.empty hknown hlen)
    · obtain ⟨stream₁, hread, hin₁⟩ := flvReadAudioTag_complete htag hcomplete hlen
      rw [hread]
      exact hcall hin₁ (.audio haudio hlen)
  rw [if_neg haudio]
  by_cases hvideo : tag.type = flvTagTypeVideo
  · have hknown : tag.Known := Or.inr (Or.inr hvideo)
    rw [if_pos hvideo]
    rw [hstream hknown]
    by_cases hlen : flvTagGetBodyLength tag = 0
    · rw [flvReadVideoTag, if_neg (not_noBody_tagStream content p), if_pos (hL.trans hlen)]
      exact hnothing (inTag_tagStream htag) (.empty hknown hlen)
    · obtain ⟨stream₁, hread, hin₁⟩ :=
        flvReadVideoTag_complete htag hcomplete hlen (hevent.video hvideo hlen)
      rw [hread]
      exact hcall hin₁ (.video hvideo hlen)
  rw [if_neg hvideo]
  by_cases hscript : tag.type = flvTagTypeMeta
  · have hknown : tag.Known := Or.inl hscript
    rw [if_pos hscript]
    rw [hstream hknown]
    by_cases hlen : flvTagGetBodyLength tag = 0
    · rw [flvReadMetadata, if_neg (not_noBody_tagStream content p), if_pos (hL.trans hlen)]
      exact hnothing (inTag_tagStream htag) (.empty hknown hlen)
    · obtain ⟨name, data, hname, hdata, hbytes⟩ := hevent.script hscript hlen
      have hbody : tagBody content p tag = amfDataImage name ++ (amfDataImage data ++ []) := by
        rw [hbytes, List.append_nil]
      obtain ⟨stream₁, hread, hin₁⟩ :=
        flvReadMetadata_images (N := N) htag hcomplete hname hdata hbody
      rw [hread]
      dsimp only
      rw [if_neg (by decide), amfDataGetType_mapNumbers]
      by_cases hstring : ∃ s, name = .string s
      · obtain ⟨s, rfl⟩ := hstring
        rw [if_pos ⟨rfl, rfl⟩]
        exact hcall hin₁ (.script hscript hlen hdata hbytes)
      · rw [if_neg (fun h => hstring ((type_string_iff hname).mp h.2))]
        exact hnothing hin₁ (.notNamed hscript hlen hname (fun s hs => hstring ⟨s, hs⟩) hbytes)
  rw [if_neg hscript]
  exact hcall hin (.unknown (by
    rintro (h | h | h)
    · exact hscript h
    · exact haudio h
    · exact hvideo h))

/-- A turn of the loop delivers the events of its tag, and the stream stays on it. -/
theorem parseTag_events (hok : parser.ReturnsOk) (hreads : parser.OnlyReadsBodies)
    (hleaves : parser.LeavesBodies) (htag : tag = flvTagOfBytes (content.drop p))
    (hevent : EventTag content p tag) (st : ParseState U N) :
    ∃ user events stream', parseTag parser tag st (tagStream content p) =
        (0, ⟨user, st.events ++ events.filter parser.handles⟩, stream') ∧
      TagEvents content (p, tag) events ∧ Tracks content (some (p, tag)) stream' := by
  obtain ⟨user₁, sizes₁, htagCall⟩ := deliver_ok hok hreads (.tag tag) st (tagStream content p)
  have hin₁ := (inTag_tagStream htag).readBodies hevent.complete sizes₁
  have hstream : tag.Known → readBodies sizes₁ (tagStream content p) = tagStream content p := by
    intro hknown
    have hleft := deliver_tag_known hleaves hknown st (tagStream content p)
    rwa [htagCall] at hleft
  obtain ⟨user₂, events, stream₂, hbodyCall, hbody, hin₂⟩ :=
    parseTagBody_events hok hreads htag hevent hin₁ hstream
      ⟨user₁, st.events ++ [FlvEvent.tag tag].filter parser.handles⟩
  obtain ⟨stream₃, hsize, htracks, hstate⟩ := hin₂.flvReadPrevTagSize hevent.size
  obtain ⟨user₄, sizes₄, hsizeCall⟩ := deliver_ok hok hreads
    (.prevTagSize (storedTagSize content p tag)) ⟨user₂, st.events ++
      [FlvEvent.tag tag].filter parser.handles ++ events.filter parser.handles⟩ stream₃
  refine ⟨user₄, _, _, ?_, .mk hbody, htracks.readBodies sizes₄⟩
  rw [parseTag, unlessFailed_of_zero (by rw [htagCall]), htagCall,
    unlessFailed_of_zero (by rw [hbodyCall]), hbodyCall]
  dsimp only
  rw [parsePrevTagSize, hsize]
  dsimp only
  rw [hsizeCall, filter_between]
  simp only [List.append_assoc]

/-- The loop delivers the events of the tags that are left. -/
theorem parseLoop_events (hok : parser.ReturnsOk) (hreads : parser.OnlyReadsBodies)
    (hleaves : parser.LeavesBodies) {fuel : Nat} {last : Option (Nat × FlvTag)}
    (htracks : Tracks content last stream)
    (htags : ∀ x ∈ tagsFrom content (nextOffset last), EventTag content x.1 x.2)
    (hpos : 0 < fuel) (hfuel : content.length < fuel + nextOffset last) (st : ParseState U N) :
    ∃ user groups stream', Loop.loop (fun _ => true) fetchTag (parseTurn parser) fuel st stream =
        some (.noItem ⟨user, st.events ++ groups.flatten.filter parser.handles⟩, stream') ∧
      List.Forall₂ (TagEvents content) (tagsFrom content (nextOffset last)) groups := by
  induction fuel generalizing last stream st with
  | zero => omega
  | succ fuel ih =>
    rw [Loop.loop, if_pos rfl]
    by_cases hle : nextOffset last + 11 ≤ content.length
    · rw [tagsFrom_of_le hle] at htags ⊢
      generalize htag : flvTagOfBytes (content.drop (nextOffset last)) = tag at htags ⊢
      have hevent := htags _ List.mem_cons_self
      obtain ⟨user₁, events, stream₁, hturn, hevents, htracks₁⟩ :=
        parseTag_events hok hreads hleaves htag.symm hevent st
      obtain ⟨user₂, groups, stream₂, hloop, hgroups⟩ := ih htracks₁
        (fun x hx => htags x (List.mem_cons_of_mem _ hx)) (by omega)
        (by simp only [nextOffset, nextTag] at hfuel hle ⊢; omega)
        ⟨user₁, st.events ++ events.filter parser.handles⟩
      have hfetch : fetchTag stream = (some tag, tagStream content (nextOffset last)) := by
        rw [fetchTag, htracks.flvReadTag hle, htag]
      rw [hfetch]
      dsimp only
      rw [parseTurn, hturn]
      simp only [ne_eq, not_true_eq_false, if_false]
      refine ⟨user₂, events :: groups, stream₂, ?_, .cons hevents hgroups⟩
      rw [hloop, List.flatten_cons, List.filter_append, List.append_assoc]
    · obtain ⟨stream₁, hread, -⟩ := flvReadTag_of_aimed_lt htracks.aimed (by omega)
      have hfetch : fetchTag stream = (none, stream₁) := by
        rw [fetchTag, hread]
      rw [hfetch, tagsFrom_of_lt (by omega)]
      exact ⟨st.user, [], stream₁, by simp, .nil⟩

/-- On a file of complete tags, with callbacks that return zero and only read bodies, the parser
succeeds, and the events delivered are the header, those of each tag in the order of the file, and
the end. -/
theorem flvParse_events (hfile : EventFile content) (hok : parser.ReturnsOk)
    (hreads : parser.OnlyReadsBodies) (hleaves : parser.LeavesBodies) (user : U) :
    ∃ user' groups, flvParse parser user (some content) = some (0, ⟨user',
        (.header (flvHeaderOfBytes content) :: (groups.flatten ++ [.streamEnd])).filter
          parser.handles⟩) ∧
      List.Forall₂ (TagEvents content) (tagsFrom content 13) groups := by
  have hheader := flvReadHeader_of_signature (Nat.le_of_succ_le (Nat.le_of_succ_le
    (Nat.le_of_succ_le (Nat.le_of_succ_le hfile.length)))) hfile.signature
  have htracks := tracks_header content
  unfold flvParse
  dsimp only
  rw [hheader]
  dsimp only
  obtain ⟨user₁, sizes₁, hcall⟩ := deliver_ok hok hreads (.header (flvHeaderOfBytes content))
    ⟨user, []⟩ { flvOpen content with flvin := ⟨content, 9, false⟩, state := .prevTagSize }
  rw [hcall]
  dsimp only
  rw [if_neg (by simp)]
  have hfuel : content.length < content.length + 1 + nextOffset none := by
    rw [nextOffset]
    omega
  obtain ⟨user₂, groups, stream₂, hloop, hgroups⟩ := parseLoop_events hok hreads hleaves
    (htracks.readBodies sizes₁) hfile.tags (Nat.succ_pos _) hfuel
    ⟨user₁, [] ++ [FlvEvent.header (flvHeaderOfBytes content)].filter parser.handles⟩
  rw [hloop]
  dsimp only
  obtain ⟨user₃, sizes₃, hend⟩ := deliver_ok hok hreads .streamEnd ⟨user₂, [] ++
    [FlvEvent.header (flvHeaderOfBytes content)].filter parser.handles ++
      groups.flatten.filter parser.handles⟩ stream₂
  rw [hend]
  refine ⟨user₃, groups, ?_, hgroups⟩
  rw [filter_between]
  simp only [List.nil_append, List.append_assoc]

end

/-- A callback that reads a body and returns zero. -/
def bodyReader (n : Nat) : Callback Unit := fun user stream =>
    (0, user, (flvReadTagBody n stream).2)

/-- A parser whose callbacks ask for `m` bytes of a body, the one for tags for its own number. -/
def bodyParser (onTag : Option Nat) (m : Nat) : FlvParser Unit UInt64 where
  onHeader := some fun _ => bodyReader m
  onTag := onTag.map fun n _ => bodyReader n
  onMetadataTag := some fun _ _ _ => bodyReader m
  onAudioTag := some fun _ _ => bodyReader m
  onVideoTag := some fun _ _ => bodyReader m
  onUnknownTag := some fun _ => bodyReader m
  onPrevTagSize := some fun _ => bodyReader m
  onStreamEnd := some (bodyReader m)

theorem bodyParser_callback {onTag : Option Nat} {m : Nat} {event : FlvEvent UInt64}
    {f : Callback Unit}
    (h : (bodyParser onTag m).callback event = some f) : ∃ k, f = bodyReader k := by
  cases event with
  | tag tag =>
    cases onTag with
    | none => cases h
    | some n =>
      cases h
      exact ⟨n, rfl⟩
  | _ =>
    cases h
    exact ⟨m, rfl⟩

theorem returnsOk_bodyParser (onTag : Option Nat) (m : Nat) : (bodyParser onTag m).ReturnsOk := by
  intro event f hf user stream
  obtain ⟨k, rfl⟩ := bodyParser_callback hf
  rfl

theorem onlyReadsBodies_bodyParser (onTag : Option Nat) (m : Nat) :
    (bodyParser onTag m).OnlyReadsBodies := by
  intro event f hf user stream
  obtain ⟨k, rfl⟩ := bodyParser_callback hf
  exact ⟨[k], rfl⟩

theorem eventFile_shortMovie : EventFile shortMovie := by
  refine ⟨by decide, by decide, ?_⟩
  intro x hx
  rw [tags_shortMovie] at hx
  simp only [List.mem_cons, List.not_mem_nil, or_false] at hx
  rcases hx with rfl | rfl | rfl | rfl | rfl
  · refine ⟨by decide, fun _ _ => ?_, fun h => absurd h (by decide)⟩
    refine ⟨.string ⟨ascii "onMetaData", by decide⟩, .associativeArray [], ?_, ?_, rfl⟩
    · simp [WellFormed]
    · simp [WellFormed, WellFormedPairs]
  · exact ⟨by decide, fun h => absurd h (by decide), fun _ _ hbit => absurd hbit (by decide)⟩
  · exact ⟨by decide, fun h => absurd h (by decide), fun h => absurd h (by decide)⟩
  · exact ⟨by decide, fun h => absurd h (by decide), fun _ _ hbit => absurd hbit (by decide)⟩
  · exact ⟨by decide, fun h => absurd h (by decide), fun _ _ hbit => absurd hbit (by decide)⟩

/-- Its callbacks ask for three bytes of each body, however long it is. -/
theorem flvParse_events_shortMovie :
    ∃ user' groups, flvParse (bodyParser none 3) () (some shortMovie) = some (0, ⟨user',
        (.header (flvHeaderOfBytes shortMovie) :: (groups.flatten ++ [.streamEnd])).filter
          (bodyParser none 3).handles⟩) ∧
      List.Forall₂ (TagEvents shortMovie) (tagsFrom shortMovie 13) groups :=
  flvParse_events eventFile_shortMovie (returnsOk_bodyParser none 3)
    (onlyReadsBodies_bodyParser none 3) (fun tag f _ hf => by cases hf) ()

/-- A file of one audio tag of one byte. -/
def audioFile : Bytes :=
  [0x46, 0x4C, 0x56, 1, 4, 0, 0, 0, 9, 0, 0, 0, 0, 8, 0, 0, 1, 0, 0, 0, 0, 0, 0, 0, 0x2F, 0, 0, 0,
    12]

theorem eventFile_audioFile : EventFile audioFile := by
  refine ⟨by decide, by decide, ?_⟩
  intro x hx
  have htags : tagsFrom audioFile 13 = [(13, ⟨8, ⟨0, 0, 1⟩, ⟨0, 0, 0⟩, 0, ⟨0, 0, 0⟩⟩)] := by
    rfl
  rw [htags] at hx
  obtain rfl := List.mem_singleton.mp hx
  exact ⟨by decide, fun h => absurd h (by decide), fun h => absurd h (by decide)⟩

/-- A callback for tags that reads the byte of the body: the reader for audio tags then finds no
body, which it reports as the end of the file. -/
theorem flvParse_onTag_reads :
    EventFile audioFile ∧ (bodyParser (some 1) 0).ReturnsOk ∧
      (bodyParser (some 1) 0).OnlyReadsBodies ∧
      (flvParse (bodyParser (some 1) 0) () (some audioFile)).map Prod.fst =
        some FlvStatus.errorEof.code :=
  ⟨eventFile_audioFile, returnsOk_bodyParser (some 1) 0, onlyReadsBodies_bodyParser (some 1) 0,
    rfl⟩

end FlvMeta
