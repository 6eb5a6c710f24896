import FlvMeta.Dump.Metadata
import FlvMeta.Dump.YamlFile

/-!
# The dump of metadata and the full dump

A full dump reads more of the bodies than a dump of metadata does, and so the two see different
streams. After a tag that did not fail they are on the same track (`Alike`), and read the same next
tag. Where a full dump succeeds, the script tags of the file are those that it has printed
(`scriptTags_of_dumpFlvFile`).
-/

namespace FlvMeta

open Stdio

variable {N : Type}

/-- The names and the data of the script tags among events. -/
def scriptsOf (events : List (FlvEvent N)) : List (Bytes × AmfData N) :=
  events.filterMap fun event =>
    match event with
    | .metadataTag _ name data => some (cString name, data)
    | _ => none

theorem scriptsOf_append (xs ys : List (FlvEvent N)) :
    scriptsOf (xs ++ ys) = scriptsOf xs ++ scriptsOf ys := List.filterMap_append

/-! ## Streams -/

section

variable {content : Bytes} {p : ℕ} {tag : FlvTag} {stream : FlvStream}

/-- Whatever an audio tag is, its body is read inside of the tag. -/
theorem inTag_flvReadAudioTag (htag : tag = flvTagOfBytes (content.drop p))
    (hcomplete : Complete content p tag) :
    InTag content p tag (flvReadAudioTag (tagStream content p)).2 := by
  by_cases hlen : flvTagGetBodyLength tag = 0
  · have hzero : (tagStream content p).currentTagBodyLength = 0 := by rw [← hlen, htag]; rfl
    rw [flvReadAudioTag, if_neg (not_noBody_tagStream content p), if_pos hzero]
    exact inTag_tagStream htag
  · obtain ⟨stream', hread, hin⟩ := flvReadAudioTag_complete htag hcomplete hlen
    rw [hread]
    exact hin

theorem inTag_flvReadVideoTag (htag : tag = flvTagOfBytes (content.drop p))
    (hcomplete : Complete content p tag) :
    InTag content p tag (flvReadVideoTag (tagStream content p)).2 := by
  by_cases hlen : flvTagGetBodyLength tag = 0
  · have hzero : (tagStream content p).currentTagBodyLength = 0 := by rw [← hlen, htag]; rfl
    rw [flvReadVideoTag, if_neg (not_noBody_tagStream content p), if_pos hzero]
    exact inTag_tagStream htag
  · obtain ⟨bs, hread, -⟩ := freadItem_tagStream hcomplete hlen
    have hL : (tagStream content p).currentTagBodyLength = flvTagGetBodyLength tag := by
      rw [htag]
      rfl
    have htaken := inTag_takeOff htag hlen
    rw [flvReadVideoTag, if_neg (not_noBody_tagStream content p), if_neg (by omega), hread]
    dsimp only
    split
    · have hfourcc := htaken.flvReadTagBody hcomplete 4
      unfold flvReadFourccCodec
      dsimp only
      split
      · exact hfourcc
      · exact hfourcc
    · exact htaken

/-- Two streams from which the same next tag is read. -/
def Alike (content : Bytes) (s t : FlvStream) : Prop :=
  (s = t ∧ s.flvin.content = content) ∨ ∃ last, Tracks content last s ∧ Tracks content last t

/-- Alike streams read the same tag, and are then the same. -/
theorem Alike.fetchTag {s t : FlvStream} (h : Alike content s t) :
    (∃ p, p + 11 ≤ content.length ∧
      fetchTag s = (some (flvTagOfBytes (content.drop p)), tagStream content p) ∧
      fetchTag t = (some (flvTagOfBytes (content.drop p)), tagStream content p)) ∨
      ((fetchTag s).1 = none ∧ (fetchTag t).1 = none) := by
  unfold FlvMeta.fetchTag
  rcases h with ⟨rfl, hcontent⟩ | ⟨last, hs, ht⟩
  · rcases flvReadTag_cases s with ⟨s', hread, -⟩ | ⟨-, hle, hread⟩
    · right
      rw [hread]
      exact ⟨rfl, rfl⟩
    · left
      rw [hread, hcontent]
      rw [hcontent] at hle
      exact ⟨_, hle, rfl, rfl⟩
  · by_cases hle : nextOffset last + 11 ≤ content.length
    · left
      rw [hs.flvReadTag hle, ht.flvReadTag hle]
      exact ⟨_, hle, rfl, rfl⟩
    · right
      obtain ⟨s', hread, -⟩ := flvReadTag_of_aimed_lt hs.aimed (by omega)
      obtain ⟨t', hread', -⟩ := flvReadTag_of_aimed_lt ht.aimed (by omega)
      rw [hread, hread']
      exact ⟨rfl, rfl⟩

end

/-! ## Turns -/

section

variable {U : Type} {parser : FlvParser U N}

theorem FlvParser.Dumps.deliver_some (h : parser.Dumps) {event : FlvEvent N} {stream : FlvStream}
    {r : Int × FlvStream} (hr : dumpReads event stream = some r) (st : ParseState U N) :
    ∃ user, deliver parser event st stream = (r.1, ⟨user, st.events ++ [event]⟩, r.2) := by
  have hreads := h event st.user stream
  rw [hr] at hreads
  obtain ⟨f, hcallback, hf⟩ := Option.map_eq_some_iff.mp hreads
  refine ⟨(f st.user stream).2.1, ?_⟩
  rw [← hf, deliver, hcallback]
  rfl

theorem FlvParser.Dumps.deliver_none (h : parser.Dumps) {event : FlvEvent N} {stream : FlvStream}
    (hr : dumpReads event stream = none) (st : ParseState U N) :
    deliver parser event st stream = (0, st, stream) := by
  have hreads := h event st.user stream
  rw [hr, Option.map_eq_none_iff] at hreads
  rw [deliver, hreads]

variable [NumberImage N] {content : Bytes} {p : ℕ} {tag : FlvTag}

/-- What a dump finds in a body that it does not fail on, and what the parser of script tags makes
of the same body: it notes the same script tags, and has read no more. -/
theorem FlvParser.Dumps.parseTagBody_scripts (h : parser.Dumps)
    (htag : tag = flvTagOfBytes (content.drop p)) {st st₁ : ParseState U N} {stream₁ : FlvStream}
    (hbody : parseTagBody parser tag st (tagStream content p) = (0, st₁, stream₁))
    (st' : ParseState (List (Bytes × AmfData N)) N) :
    ∃ found events stream₂ sizes, st₁.events = st.events ++ found ∧
      parseTagBody scriptParser tag st' (tagStream content p) =
        (0, ⟨st'.user ++ scriptsOf found, events⟩, stream₂) ∧
      stream₁ = readBodies sizes stream₂ ∧
      (sizes = [] ∨ (Tracks content (some (p, tag)) stream₂ ∧
        (Complete content p tag → InTag content p tag stream₂))) := by
  have hnothing : ∀ stream : FlvStream, (((0 : Int), st, stream) : Int × ParseState U N × FlvStream)
      = (0, st₁, stream₁) → ∃ found events stream₂ sizes, st₁.events = st.events ++ found ∧
      (((0 : Int), st', stream) : Int × ParseState (List (Bytes × AmfData N)) N × FlvStream) =
        (0, ⟨st'.user ++ scriptsOf found, events⟩, stream₂) ∧
      stream₁ = readBodies sizes stream₂ ∧
      (sizes = [] ∨ (Tracks content (some (p, tag)) stream₂ ∧
        (Complete content p tag → InTag content p tag stream₂))) := by
    rintro stream ⟨⟩
    exact ⟨[], st'.events, stream₁, [], (List.append_nil _).symm, by simp [scriptsOf], rfl,
      .inl rfl⟩
  unfold parseTagBody at hbody ⊢
  by_cases haudio : tag.type = flvTagTypeAudio
  · rw [if_pos haudio] at hbody ⊢
    have hin := inTag_flvReadAudioTag htag
    have htracks := (tracks_tagStream content p).flvReadAudioTag
    rw [← htag] at htracks
    generalize flvReadAudioTag (tagStream content p) = read at hbody hin htracks ⊢
    obtain ⟨result, stream⟩ := read
    cases result with
    | error status =>
      dsimp only at hbody ⊢
      have hretval := congrArg Prod.fst hbody
      dsimp only at hretval
      rw [hretval] at hbody ⊢
      exact hnothing stream hbody
    | ok at' =>
      obtain ⟨user, hdeliver⟩ := h.deliver_some (r := audioReads at' stream)
        (show dumpReads (FlvEvent.audioTag tag at') stream = _ from rfl) st
      dsimp only at hbody
      rw [hdeliver] at hbody
      obtain ⟨sizes, hsizes⟩ := audioReads_readBodies at' stream
      obtain ⟨-, hst, hstream⟩ : _ ∧ _ ∧ _ := by simpa using hbody
      subst hst hstream
      exact ⟨[.audioTag tag at'], st'.events, stream, sizes, rfl, by simp [scriptsOf]; rfl, hsizes,
        .inr ⟨htracks, hin⟩⟩
  rw [if_neg haudio] at hbody ⊢
  by_cases hvideo : tag.type = flvTagTypeVideo
  · rw [if_pos hvideo] at hbody ⊢
    have hin := inTag_flvReadVideoTag htag
    have htracks := (tracks_tagStream content p).flvReadVideoTag
    rw [← htag] at htracks
    generalize flvReadVideoTag (tagStream content p) = read at hbody hin htracks ⊢
    obtain ⟨result, stream⟩ := read
    cases result with
    | error status =>
      dsimp only at hbody ⊢
      have hretval := congrArg Prod.fst hbody
      dsimp only at hretval
      rw [hretval] at hbody ⊢
      exact hnothing stream hbody
    | ok vt =>
      obtain ⟨user, hdeliver⟩ := h.deliver_some (r := videoReads vt stream)
        (show dumpReads (FlvEvent.videoTag tag vt) stream = _ from rfl) st
      dsimp only at hbody
      rw [hdeliver] at hbody
      obtain ⟨sizes, hsizes⟩ := videoReads_readBodies vt stream
      obtain ⟨-, hst, hstream⟩ : _ ∧ _ ∧ _ := by simpa using hbody
      subst hst hstream
      exact ⟨[.videoTag tag vt], st'.events, stream, sizes, rfl, by simp [scriptsOf]; rfl, hsizes,
        .inr ⟨htracks, hin⟩⟩
  rw [if_neg hvideo] at hbody ⊢
  by_cases hscript : tag.type = flvTagTypeMeta
  · rw [if_pos hscript] at hbody ⊢
    generalize (flvReadMetadata (tagStream content p) : MetadataResult N × FlvStream) = read
      at hbody ⊢
    obtain ⟨result, stream⟩ := read
    dsimp only at hbody ⊢
    by_cases heof : result.status = .errorEof
    · rw [if_pos heof, heof] at hbody
      cases congrArg Prod.fst hbody
    rw [if_neg heof] at hbody ⊢
    by_cases hok : result.status = .ok ∧ amfDataGetType result.name = AmfType.string.code
    · rw [if_pos hok] at hbody ⊢
      obtain ⟨user, hdeliver⟩ := h.deliver_some (r := (0, stream))
        (show dumpReads (FlvEvent.metadataTag tag (amfStringGetBytes result.name) result.data)
          stream = _ from rfl) st
      rw [hdeliver] at hbody
      cases hbody
      exact ⟨[_], _, stream, [], rfl, rfl, rfl, .inl rfl⟩
    · rw [if_neg hok] at hbody ⊢
      exact hnothing stream hbody
  · rw [if_neg hscript] at hbody ⊢
    rw [h.deliver_none (show dumpReads (FlvEvent.unknownTag tag) _ = none from rfl)] at hbody
    exact hnothing _ hbody

/-- A turn of a dump that does not fail, and that of the parser of script tags. -/
theorem FlvParser.Dumps.parseTag_scripts (h : parser.Dumps)
    (htag : tag = flvTagOfBytes (content.drop p)) {st st₁ : ParseState U N} {stream₁ : FlvStream}
    (hturn : parseTag parser tag st (tagStream content p) = (0, st₁, stream₁))
    (st' : ParseState (List (Bytes × AmfData N)) N) :
    ∃ found events stream₂, st₁.events = st.events ++ found ∧
      parseTag scriptParser tag st' (tagStream content p) =
        (0, ⟨st'.user ++ scriptsOf found, events⟩, stream₂) ∧ Alike content stream₁ stream₂ := by
  have hcontent : stream₁.flvin.content = content := by
    have hafter := after_parseTag h.onlyReadsBodies content p st
    rw [← htag, hturn] at hafter
    exact hafter.content_eq
  obtain ⟨user, hdeliver⟩ := h.deliver_some (r := (0, tagStream content p))
    (show dumpReads (FlvEvent.tag tag) _ = _ from rfl) st
  rw [parseTag, hdeliver, unlessFailed_of_zero rfl] at hturn
  have hdeliver' : deliver scriptParser (.tag tag) st' (tagStream content p) =
      (0, st', tagStream content p) := rfl
  rw [parseTag, hdeliver', unlessFailed_of_zero rfl]
  dsimp only at hturn ⊢
  generalize hr : parseTagBody parser tag ⟨user, st.events ++ [.tag tag]⟩ (tagStream content p) = r
    at hturn
  by_cases hfailed : r.1 ≠ 0
  · rw [unlessFailed, if_pos hfailed] at hturn
    exact absurd (congrArg Prod.fst hturn) hfailed
  obtain ⟨retval, st₂, stream₂⟩ := r
  obtain rfl : retval = 0 := not_not.mp hfailed
  rw [unlessFailed_of_zero rfl] at hturn
  obtain ⟨found, events, stream₃, sizes, hfound, hbody', rfl, hsizes⟩ :=
    h.parseTagBody_scripts htag hr st'
  rw [hbody', unlessFailed_of_zero rfl]
  dsimp only at hturn hfound ⊢
  unfold parsePrevTagSize at hturn ⊢
  cases hread : flvReadPrevTagSize (readBodies sizes stream₃) with
  | mk result stream₄ =>
    rw [hread] at hturn
    have herror := @flvReadPrevTagSize_error (readBodies sizes stream₃)
    rw [hread] at herror
    cases result with
    | error status =>
      obtain rfl := herror rfl
      cases congrArg Prod.fst hturn
    | ok size =>
      obtain ⟨user', hsizeCall⟩ := h.deliver_some (r := (0, stream₄))
        (show dumpReads (FlvEvent.prevTagSize size) _ = _ from rfl) st₂
      dsimp only at hturn
      rw [hsizeCall] at hturn
      cases hturn
      have hscripts : scriptsOf (N := N) (.tag tag :: (found ++ [.prevTagSize size])) =
          scriptsOf found := by
        simp [scriptsOf]
      refine ⟨.tag tag :: (found ++ [.prevTagSize size]), events, ?_⟩
      rw [hscripts, hfound]
      rcases hsizes with rfl | ⟨htracks, hin⟩
      · have hread' : flvReadPrevTagSize stream₃ = (.ok size, stream₄) := hread
        rw [hread']
        exact ⟨stream₄, by simp, rfl, .inl ⟨rfl, hcontent⟩⟩
      · have hle := (htracks.readBodies sizes).nextTag_le hread
        have hcomplete : Complete content p tag := by
          unfold Complete
          unfold nextTag at hle
          omega
        obtain ⟨stream₅, hread₅, htracks₅, -⟩ := (hin hcomplete).flvReadPrevTagSize hle
        obtain ⟨stream₆, hread₆, htracks₆, -⟩ :=
          ((hin hcomplete).readBodies hcomplete sizes).flvReadPrevTagSize hle
        rw [hread₆] at hread
        cases hread
        rw [hread₅]
        exact ⟨stream₅, by simp, rfl, .inr ⟨_, htracks₆, htracks₅⟩⟩

/-- A dump that comes to the end of its loop, and the parser of script tags. -/
theorem FlvParser.Dumps.loop_scripts (h : parser.Dumps) {fuel : ℕ} {st st₁ : ParseState U N}
    {s s₁ t : FlvStream} {e : Loop.End (ParseState U N) (Int × ParseState U N)}
    (hloop : Loop.loop (fun _ => true) fetchTag (parseTurn parser) fuel st s = some (e, s₁))
    (he : e.state? = some st₁) (hs : Alike content s t)
    (st' : ParseState (List (Bytes × AmfData N)) N) :
    ∃ found events t₁, st₁.events = st.events ++ found ∧
      Loop.loop (fun _ => true) fetchTag (parseTurn scriptParser) fuel st' t =
        some (.noItem ⟨st'.user ++ scriptsOf found, events⟩, t₁) := by
  induction fuel generalizing st s t st' with
  | zero => cases hloop
  | succ fuel ih =>
    rw [Loop.loop, if_pos rfl] at hloop ⊢
    rcases hs.fetchTag with ⟨p, -, hfetch, hfetch'⟩ | ⟨hfetch, hfetch'⟩
    · rw [hfetch] at hloop
      rw [hfetch']
      dsimp only at hloop ⊢
      generalize hturn : parseTag parser (flvTagOfBytes (content.drop p)) st (tagStream content p) =
        r at hloop
      obtain ⟨retval, st₂, s₂⟩ := r
      rw [parseTurn, hturn] at hloop
      dsimp only at hloop
      by_cases hretval : retval ≠ 0
      · rw [if_pos hretval] at hloop
        cases hloop
        cases he
      · rw [if_neg hretval] at hloop
        obtain rfl := not_not.mp hretval
        obtain ⟨found, events, t₂, hfound, hturn', halike⟩ := h.parseTag_scripts rfl hturn st'
        obtain ⟨found', events', t₁, hfound', hloop'⟩ :=
          ih hloop halike ⟨st'.user ++ scriptsOf found, events⟩
        refine ⟨found ++ found', events', t₁, by rw [hfound', hfound, List.append_assoc], ?_⟩
        rw [parseTurn, hturn', scriptsOf_append, ← List.append_assoc]
        dsimp only
        rw [if_neg (not_not.mpr rfl)]
        exact hloop'
    · generalize fetchTag s = r at hfetch hloop
      generalize fetchTag t = r' at hfetch' ⊢
      obtain ⟨item, s₂⟩ := r
      obtain ⟨item', t₂⟩ := r'
      obtain rfl : item = none := hfetch
      obtain rfl : item' = none := hfetch'
      cases hloop
      cases he
      exact ⟨[], st'.events, t₂, (List.append_nil _).symm, by simp [scriptsOf]⟩

/-- The parser of script tags notes those that a dump which succeeds has found. -/
theorem FlvParser.Dumps.scriptTags (h : parser.Dumps) {user : U} {file : Option Bytes}
    {st : ParseState U N} (hparse : FlvMeta.flvParse parser user file = some (0, st)) :
    FlvMeta.scriptTags (N := N) file = some (0, scriptsOf st.events) := by
  cases file with
  | none => cases hparse
  | some content =>
    cases hheader : flvReadHeader (flvOpen content) with
    | mk result stream =>
      cases result with
      | error status =>
        rw [flvParse_of_noHeader hheader] at hparse
        exact absurd (congrArg Prod.fst (Option.some.inj hparse))
          (flvReadHeader_error (congrArg Prod.fst hheader))
      | ok header =>
        have hcontent : stream.flvin.content = content := by
          rw [(flvReadHeader_ok (atStart_flvOpen content) hheader).2.2]
        obtain ⟨user₁, hdeliver⟩ := h.deliver_some (r := (0, stream))
          (show dumpReads (FlvEvent.header header) _ = _ from rfl) (⟨user, []⟩ : ParseState U N)
        have hdeliver' : deliver scriptParser (.header header)
            (⟨[], []⟩ : ParseState (List (Bytes × AmfData N)) N) stream =
          (0, ⟨[], []⟩, stream) := rfl
        rw [flvParse_of_header hheader, hdeliver, parseFrom, if_neg (not_not.mpr rfl)] at hparse
        obtain ⟨⟨e, s₁⟩, hloop, hend⟩ := Option.map_eq_some_iff.mp hparse
        have hscripts : ∀ {st₁}, e.state? = some st₁ →
            resultOf (deliver parser .streamEnd st₁ s₁) = (0, st) →
            FlvMeta.scriptTags (some content) = some (0, scriptsOf st.events) := by
          intro st₁ he hresult
          obtain ⟨found, events, t₁, hfound, hloop'⟩ :=
            h.loop_scripts hloop he (.inl ⟨rfl, hcontent⟩) ⟨[], []⟩
          obtain ⟨user₂, hstreamEnd⟩ := h.deliver_some (r := (0, s₁))
            (show dumpReads (FlvEvent.streamEnd (N := N)) _ = _ from rfl) st₁
          rw [hstreamEnd] at hresult
          cases hresult
          rw [FlvMeta.scriptTags, flvParse_of_header hheader, hdeliver', parseFrom,
            if_neg (not_not.mpr rfl), hloop', hfound]
          simp [parseEnd, resultOf, scriptsOf, deliver, FlvParser.callback, scriptParser]
        cases e with
        | finished st₁ => exact hscripts rfl hend
        | noItem st₁ => exact hscripts rfl hend
        | stopped r =>
          cases hend
          exact absurd rfl (Loop.loop_stopped parseTurn_stopped hloop)

/-- Where the full dump of a file succeeds, in any format, the dump of metadata selects from the
script tags that the full dump has come to. -/
theorem scriptTags_of_dumpFlvFile (lib : DumpLibrary N) (dumpFormat : ReportFormat)
    (file : Option Bytes) {st : ParseState (DumpOutput N) N}
    (h : dumpFlvFile lib dumpFormat file = some (0, st)) :
    FlvMeta.scriptTags file = some (0, scriptsOf st.events) := by
  cases dumpFormat with
  | json =>
    obtain ⟨⟨retval, st'⟩, hparse, hresult⟩ := Option.map_eq_some_iff.mp h
    cases hresult
    exact (dumps_jsonParser lib.toJsonLibrary).scriptTags hparse
  | raw =>
    obtain ⟨⟨retval, st'⟩, hparse, hresult⟩ := Option.map_eq_some_iff.mp h
    cases hresult
    exact (dumps_rawParser lib).scriptTags hparse
  | xml =>
    obtain ⟨⟨retval, st'⟩, hparse, hresult⟩ := Option.map_eq_some_iff.mp h
    cases hresult
    exact (dumps_xmlParser lib.toXmlLibrary).scriptTags hparse
  | yaml =>
    obtain ⟨⟨retval, st'⟩, hparse, hresult⟩ := Option.map_eq_some_iff.mp h
    obtain ⟨⟨retval₁, st₁⟩, hparse₁, hresult₁⟩ := Option.map_eq_some_iff.mp hparse
    cases hresult₁
    cases hresult
    exact (dumps_yamlParser lib).scriptTags hparse₁

/-- Where the full dump of a file succeeds, in any format, a dump of metadata succeeds in every
format and prints the data of those script tags that the full dump has come to. -/
theorem dumpMetadata_of_dumpFlvFile (lib : DumpLibrary N) (dumpFormat dumpFormat' : ReportFormat)
    (file : Option Bytes) {st : ParseState (DumpOutput N) N}
    (h : dumpFlvFile lib dumpFormat file = some (0, st)) :
    (∀ metadataEvent, dumpMetadata lib dumpFormat' (some metadataEvent) file =
      some (0, ((scriptsOf st.events).filter fun t => t.1 = cString metadataEvent).map
        fun t => dumpAmfData lib dumpFormat' t.2)) ∧
      dumpMetadata lib dumpFormat' none file =
        some (0, ((scriptsOf st.events).find? fun t => t.1 = ascii "onMetaData").toList.map
          fun t => dumpAmfData lib dumpFormat' t.2) := by
  have htags := scriptTags_of_dumpFlvFile lib dumpFormat file h
  refine ⟨fun metadataEvent => dumpMetadata_named lib dumpFormat' metadataEvent htags, ?_⟩
  rw [dumpMetadata_first lib dumpFormat' htags]
  cases (scriptsOf st.events).find? fun t => t.1 = ascii "onMetaData" with
  | none => rfl
  | some t => rfl

end

/-- A file of an AAC tag and of a script tag named `onMetaData`, whose data is true. -/
def taggedFile : Bytes :=
  aacFile ++ ([18, 0, 0, 15, 0, 0, 0, 0, 0, 0, 0, 2, 0, 10] ++
    (ascii "onMetaData" ++ [1, 1, 0, 0, 0, 26]))

theorem dumpMetadata_of_dumpFlvFile_tagged :
    ∃ st data, dumpFlvFile zeroLibrary .xml (some taggedFile) = some (0, st) ∧
      scriptsOf st.events = [(ascii "onMetaData", data)] ∧
      dumpMetadata zeroLibrary .json none (some taggedFile) =
        some (0, [dumpAmfData zeroLibrary .json data]) := by
  have hdump : (dumpFlvFile zeroLibrary .xml (some taggedFile)).map
      (fun r => (r.1, (scriptsOf r.2.events).map Prod.fst)) = some (0, [ascii "onMetaData"]) := by
    decide +kernel
  obtain ⟨⟨retval, st⟩, hdump, hresult⟩ := Option.map_eq_some_iff.mp hdump
  obtain ⟨rfl, hnames⟩ := Prod.mk.inj hresult
  obtain ⟨⟨name, data⟩, hscripts, rfl⟩ := List.map_eq_singleton_iff.mp hnames
  have hmetadata := (dumpMetadata_of_dumpFlvFile zeroLibrary .xml .json (some taggedFile) hdump).2
  rw [hscripts] at hmetadata
  exact ⟨st, data, hdump, hscripts, hmetadata⟩

end FlvMeta
