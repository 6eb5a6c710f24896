import FlvMeta.Dump.JsonFile
import FlvMeta.Dump.Yaml
import FlvMeta.Flv.Lockstep

/-!
# The YAML stream of a file

If the parser returns `FLV_OK`, the events of a file are a stream of one document, a mapping whose
sequence of tags has a mapping for each tag that was read. If it fails, something of the document
is left open where it is ended, and the emitter refuses it. So the emitter accepts what
`dumpYamlFile` gives it exactly if the file was parsed to its end (`dumpYamlFile_accepted`).
-/

namespace FlvMeta

open Stdio Yaml

variable {N : Type}

/-! ## Members of a tag -/

/-- A member with a fixed key. -/
def yamlMember (key : String) (value : Node) : Node × Node := (.scalar (ascii key), value)

/-- The members that the callback for all tags emits, with the offset of the tag. -/
def yamlTagMembers (tag : FlvTag) (offset : ℕ) : List (Node × Node) := [
  yamlMember "type" (.scalar (cString (dumpStringGetTagType tag))),
  yamlMember "timestamp" (.scalar (cString (printInteger (flvTagGetTimestamp tag)))),
  yamlMember "dataSize" (.scalar (cString (printInteger (flvTagGetBodyLength tag)))),
  yamlMember "offset" (.scalar (cString (decimal offset)))]

/-- The members that the callback for the header emits before the sequence of tags. -/
def yamlHeaderMembers (header : FlvHeader) : List (Node × Node) := [
  yamlMember "magic" (.scalar (cString header.signature.bytes)),
  yamlMember "hasVideo" (.scalar (cString
    (if flvHeaderHasVideo header != 0 then ascii "true" else ascii "false"))),
  yamlMember "hasAudio" (.scalar (cString
    (if flvHeaderHasAudio header != 0 then ascii "true" else ascii "false"))),
  yamlMember "version" (.scalar (cString (printInteger header.version.toNat)))]

/-- A file with its header and its tags. -/
def yamlFile (header : FlvHeader) (tags : List Node) : Node :=
  .mapping (yamlHeaderMembers header ++ [yamlMember "tags" (.sequence tags)])

/-- The mapping of a tag: what is known of every tag, and at most one member with its data. -/
def YamlTag (tag : FlvTag) (offset : ℕ) (node : Node) : Prop :=
  ∃ data, data.length ≤ 1 ∧ node = .mapping (yamlTagMembers tag offset ++ data)

/-! ## What the callbacks add -/

/-- A callback adds a member, or returns an error and leaves no more closed than it has opened. -/
def AddsData (retval : Int) (emitter emitter' : YamlOutput) : Prop :=
  ∃ es, emitter' = emitter ++ es ∧ 0 ≤ depth es ∧
    (retval = 0 → ∃ key value, es = memberEvents [(key, value)])

/-- A member leaves nothing open. -/
theorem AddsData.of_member {emitter emitter' : YamlOutput} {key value : Node}
    (h : emitter' = emitter ++ memberEvents [(key, value)]) : AddsData 0 emitter emitter' :=
  ⟨_, h, by simp, fun _ => ⟨key, value, rfl⟩⟩

theorem AddsData.of_error {emitter emitter' : YamlOutput} (es : List Event)
    (h : emitter' = emitter ++ es) (hdepth : 0 ≤ depth es) :
    AddsData errorInvalidTag emitter emitter' :=
  ⟨es, h, hdepth, fun hzero => absurd hzero (by decide)⟩

theorem adds_yamlOnVideoTag (tag : FlvTag) (vt : FlvVideoTag) (emitter : YamlOutput)
    (stream : FlvStream) :
    AddsData (yamlOnVideoTag tag vt emitter stream).1 emitter
      (yamlOnVideoTag tag vt emitter stream).2.1 := by
  let frame : List (Node × Node) := [
    yamlMember "codecID" (.scalar (cString (dumpStringGetVideoCodec vt))),
    yamlMember "frameType" (.scalar (cString (dumpStringGetVideoFrameType vt)))]
  have hdata : ∀ {emitter' : YamlOutput} (members : List (Node × Node)),
      emitter' = emitter ++ memberEvents [yamlMember "videoData" (.mapping (frame ++ members))] →
      AddsData 0 emitter emitter' := fun _ h => .of_member h
  unfold yamlOnVideoTag
  dsimp only
  split
  · refine hdata [yamlMember "packetType" (.scalar (cString (dumpStringGetExtPacketType vt)))] ?_
    simp [yamlEmit, yamlKey, yamlScalar, memberEvents, events, yamlMember, frame]
  · split
    · generalize flvReadTagBody 1 stream = read
      obtain ⟨type, stream₁⟩ := read
      let packet := yamlMember "packetType"
        (.scalar (cString (dumpStringGetAvcPacketType (type.getD 0 0))))
      dsimp only
      split
      · refine .of_error (.scalar (ascii "videoData") :: .mappingStart :: memberEvents frame) ?_ ?_
        · simp [yamlEmit, yamlKey, yamlScalar, memberEvents, events, yamlMember, frame]
        · simp [Event.delta]
      · split
        · generalize flvReadTagBody 3 stream₁ = read₂
          obtain ⟨compositionTime, stream₂⟩ := read₂
          dsimp only
          split
          · refine .of_error (.scalar (ascii "videoData") :: .mappingStart :: (memberEvents frame ++
              .scalar (ascii "AVCData") :: .mappingStart :: memberEvents [packet])) ?_ ?_
            · simp [yamlEmit, yamlKey, yamlScalar, memberEvents, events, yamlMember, frame, packet]
            · simp [Event.delta]
          · refine hdata [yamlMember "AVCData" (.mapping [packet, yamlMember "compositionTimeOffset"
              (.scalar (cString (printInteger (Endian.ofBE compositionTime))))])] ?_
            simp [yamlEmit, yamlKey, yamlScalar, memberEvents, events, yamlMember, frame, packet]
        · refine hdata [yamlMember "AVCData" (.mapping [packet])] ?_
          simp [yamlEmit, yamlKey, yamlScalar, memberEvents, events, yamlMember, frame, packet]
    · refine hdata [] ?_
      simp [yamlEmit, yamlKey, yamlScalar, memberEvents, events, yamlMember, frame]

theorem adds_yamlOnAudioTag (tag : FlvTag) (at' : UInt8) (emitter : YamlOutput)
    (stream : FlvStream) :
    AddsData (yamlOnAudioTag tag at' emitter stream).1 emitter
      (yamlOnAudioTag tag at' emitter stream).2.1 := by
  let sound : List (Node × Node) := [
    yamlMember "type" (.scalar (cString (dumpStringGetSoundType at'))),
    yamlMember "size" (.scalar (cString (dumpStringGetSoundSize at'))),
    yamlMember "rate" (.scalar (cString (dumpStringGetSoundRate at'))),
    yamlMember "format" (.scalar (cString (dumpStringGetSoundFormat at')))]
  have hdata : ∀ {emitter' : YamlOutput} (members : List (Node × Node)),
      emitter' = emitter ++ memberEvents [yamlMember "audioData" (.mapping (sound ++ members))] →
      AddsData 0 emitter emitter' := fun _ h => .of_member h
  unfold yamlOnAudioTag
  dsimp only
  split
  · generalize flvReadTagBody 1 stream = read
    obtain ⟨type, stream₁⟩ := read
    dsimp only
    split
    · refine .of_error (.scalar (ascii "audioData") :: .mappingStart :: memberEvents sound) ?_ ?_
      · simp [yamlEmit, yamlKey, yamlScalar, memberEvents, events, yamlMember, sound]
      · simp [Event.delta]
    · refine hdata [yamlMember "AACData" (.mapping [yamlMember "packetType"
        (.scalar (cString (dumpStringGetAacPacketType (type.getD 0 0))))])] ?_
      simp [yamlEmit, yamlKey, yamlScalar, memberEvents, events, yamlMember, sound]
  · refine hdata [] ?_
    simp [yamlEmit, yamlKey, yamlScalar, memberEvents, events, yamlMember, sound]

theorem adds_yamlOnMetadataTag (lib : DumpLibrary N) (tag : FlvTag) (name : Bytes)
    {data : AmfData N} (h : Supported data) (emitter : YamlOutput) (stream : FlvStream) :
    AddsData 0 emitter (yamlOnMetadataTag lib tag name data emitter stream).2.1 := by
  have hmember : ∀ emitter' : YamlOutput, emitter' = emitter ++ memberEvents
      [yamlMember "scriptDataObject" (toYaml lib data)] → AddsData 0 emitter emitter' :=
    fun _ => .of_member
  refine hmember _ ?_
  simp [yamlMember, yamlOnMetadataTag, yamlKey, memberEvents, events, amfDataYamlDump_eq lib data h]

/-! ## A turn of the parser -/

section

variable [NumberImage N] (lib : DumpLibrary N)

/-- What is added for the body of a tag: at most one member, unless there is an error. -/
theorem adds_parseTagBody (tag : FlvTag) (st : ParseState YamlOutput N) (stream : FlvStream) :
    ∃ es, (parseTagBody (yamlParser lib) tag st stream).2.1.user = st.user ++ es ∧ 0 ≤ depth es ∧
      ((parseTagBody (yamlParser lib) tag st stream).1 = 0 →
        ∃ data, data.length ≤ 1 ∧ es = memberEvents data) := by
  have hdata : ∀ {retval : Int} {emitter' : YamlOutput}, AddsData retval st.user emitter' →
      ∃ es, emitter' = st.user ++ es ∧ 0 ≤ depth es ∧
        (retval = 0 → ∃ data, data.length ≤ 1 ∧ es = memberEvents data) := by
    rintro retval emitter' ⟨es, hes, hdepth, hmember⟩
    refine ⟨es, hes, hdepth, fun hzero => ?_⟩
    obtain ⟨key, value, rfl⟩ := hmember hzero
    exact ⟨[(key, value)], Nat.le_refl 1, rfl⟩
  have hnothing : ∀ retval : Int, ∃ es, st.user = st.user ++ es ∧ 0 ≤ depth es ∧
      (retval = 0 → ∃ data, data.length ≤ 1 ∧ es = memberEvents data) :=
    fun _ => ⟨[], (List.append_nil _).symm, Int.le_refl 0, fun _ => ⟨[], Nat.zero_le 1, rfl⟩⟩
  unfold parseTagBody
  by_cases haudio : tag.type = flvTagTypeAudio
  · rw [if_pos haudio]
    generalize flvReadAudioTag stream = r
    obtain ⟨result, stream₁⟩ := r
    cases result with
    | error status => exact hnothing _
    | ok at' => exact hdata (adds_yamlOnAudioTag tag at' st.user stream₁)
  rw [if_neg haudio]
  by_cases hvideo : tag.type = flvTagTypeVideo
  · rw [if_pos hvideo]
    generalize flvReadVideoTag stream = r
    obtain ⟨result, stream₁⟩ := r
    cases result with
    | error status => exact hnothing _
    | ok vt => exact hdata (adds_yamlOnVideoTag tag vt st.user stream₁)
  rw [if_neg hvideo]
  by_cases hscript : tag.type = flvTagTypeMeta
  · rw [if_pos hscript]
    have hsupported := supported_flvReadMetadata (N := N) stream
    generalize (flvReadMetadata stream : MetadataResult N × FlvStream) = r at hsupported ⊢
    obtain ⟨result, stream₁⟩ := r
    dsimp only at hsupported ⊢
    by_cases heof : result.status = .errorEof
    · rw [if_pos heof]
      exact hnothing _
    rw [if_neg heof]
    by_cases hok : result.status = .ok ∧ amfDataGetType result.name = AmfType.string.code
    · rw [if_pos hok]
      exact hdata (adds_yamlOnMetadataTag lib tag (amfStringGetBytes result.name)
        (hsupported hok.1) st.user stream₁)
    · rw [if_neg hok]
      exact hnothing _
  · rw [if_neg hscript]
    exact hnothing _

theorem yamlOnTag_eq (tag : FlvTag) (emitter : YamlOutput) (stream : FlvStream) :
    yamlOnTag tag emitter stream = (0, emitter ++ .mappingStart ::
      memberEvents (yamlTagMembers tag stream.currentTagOffset), stream) := by
  simp [yamlOnTag, yamlEmit, yamlKey, yamlScalar, memberEvents, events, yamlMember, yamlTagMembers]

/-- A turn adds the mapping of its tag, or it fails with the mapping open. -/
theorem adds_parseTag (tag : FlvTag) (st : ParseState YamlOutput N) (stream : FlvStream) :
    ∃ es, (parseTag (yamlParser lib) tag st stream).2.1.user = st.user ++ es ∧ 0 ≤ depth es ∧
      ((parseTag (yamlParser lib) tag st stream).1 = 0 →
        ∃ node, YamlTag tag stream.currentTagOffset node ∧ es = events node) := by
  have hdeliver : deliver (yamlParser lib) (.tag tag) st stream =
      (0, ⟨st.user ++ .mappingStart :: memberEvents (yamlTagMembers tag stream.currentTagOffset),
        st.events ++ [.tag tag]⟩, stream) := by
    unfold deliver FlvParser.callback
    simp only [yamlParser, Option.map_some, yamlOnTag_eq]
  rw [parseTag, hdeliver, unlessFailed, if_neg (not_not.mpr rfl)]
  dsimp only
  obtain ⟨es, huser, hdepth, hdata⟩ := adds_parseTagBody lib tag
    ⟨st.user ++ .mappingStart :: memberEvents (yamlTagMembers tag stream.currentTagOffset),
      st.events ++ [.tag tag]⟩ stream
  generalize parseTagBody (yamlParser lib) tag _ stream = r at huser hdata ⊢
  have hopen : ∃ es', r.2.1.user = st.user ++ es' ∧ 0 ≤ depth es' := by
    refine ⟨.mappingStart :: (memberEvents (yamlTagMembers tag stream.currentTagOffset) ++ es), ?_,
      ?_⟩
    · rw [huser, List.append_assoc, List.cons_append]
    · simp only [depth_cons, depth_append, depth_memberEvents, Event.delta]
      omega
  by_cases hfailed : r.1 ≠ 0
  · rw [unlessFailed, if_pos hfailed]
    obtain ⟨es', huser', hdepth'⟩ := hopen
    exact ⟨es', huser', hdepth', fun hzero => absurd hzero hfailed⟩
  rw [unlessFailed, if_neg hfailed]
  obtain ⟨data, hlength, rfl⟩ := hdata (not_not.mp hfailed)
  have herror := @flvReadPrevTagSize_error r.2.2
  unfold parsePrevTagSize
  generalize flvReadPrevTagSize r.2.2 = size at herror ⊢
  obtain ⟨result, stream₁⟩ := size
  cases result with
  | error status =>
    obtain rfl := herror rfl
    obtain ⟨es', huser', hdepth'⟩ := hopen
    exact ⟨es', huser', hdepth', fun hzero =>
      absurd hzero (by decide : ¬ FlvStatus.errorEof.code = 0)⟩
  | ok size =>
    refine ⟨events (.mapping (yamlTagMembers tag stream.currentTagOffset ++ data)), ?_, by simp,
      fun _ => ⟨_, ⟨data, hlength, rfl⟩, rfl⟩⟩
    have hend : (deliver (yamlParser lib) (.prevTagSize size) r.2.1 stream₁).2.1.user =
        r.2.1.user ++ [.mappingEnd] := rfl
    dsimp only
    rw [hend, huser, events, memberEvents_append]
    simp

/-! ## The whole file -/

/-- What the callback for the header adds. -/
def yamlFileStart (header : FlvHeader) : List Event :=
  .mappingStart :: (memberEvents (yamlHeaderMembers header) ++
    [.scalar (ascii "tags"), .sequenceStart])

omit [NumberImage N] in
theorem yamlOnHeader_eq (header : FlvHeader) (emitter : YamlOutput) (stream : FlvStream) :
    yamlOnHeader header emitter stream = (0, emitter ++ yamlFileStart header, stream) := by
  simp [yamlOnHeader, yamlEmit, yamlKey, yamlScalar, memberEvents, events, yamlMember,
    yamlHeaderMembers, yamlFileStart]

/-- A turn that goes on adds the mapping of its tag. -/
theorem adds_parseTurn_next {tag : FlvTag} {st st' : ParseState YamlOutput N}
    {stream stream' : FlvStream}
    (h : parseTurn (yamlParser lib) tag st stream = (.next st', stream')) :
    ∃ node, YamlTag tag stream.currentTagOffset node ∧ st'.user = st.user ++ events node := by
  obtain ⟨es, huser, -, hnode⟩ := adds_parseTag lib tag st stream
  unfold parseTurn at h
  generalize parseTag (yamlParser lib) tag st stream = r at h huser hnode
  obtain ⟨retval, st₁, stream₁⟩ := r
  dsimp only at h huser hnode
  split at h
  · cases h
  · rename_i hretval
    cases h
    obtain ⟨node, htag, rfl⟩ := hnode (not_not.mp hretval)
    exact ⟨node, htag, huser⟩

/-- A turn that stops the loop closes no more than it has opened. -/
theorem adds_parseTurn_stop {tag : FlvTag} {st : ParseState YamlOutput N}
    {stream stream' : FlvStream} {r : Int × ParseState YamlOutput N}
    (h : parseTurn (yamlParser lib) tag st stream = (.stop r, stream')) :
    r.1 ≠ 0 ∧ ∃ es, r.2.user = st.user ++ es ∧ 0 ≤ depth es := by
  obtain ⟨es, huser, hdepth, -⟩ := adds_parseTag lib tag st stream
  unfold parseTurn at h
  generalize parseTag (yamlParser lib) tag st stream = r' at h huser
  obtain ⟨retval, st₁, stream₁⟩ := r'
  dsimp only at h huser
  split at h
  · rename_i hretval
    cases h
    exact ⟨hretval, es, huser, hdepth⟩
  · cases h

/-- The tags that the parser reads are added in order. -/
theorem adds_tags {fuel : ℕ} {st st' : ParseState YamlOutput N} {stream stream' : FlvStream}
    {e : Loop.End (ParseState YamlOutput N) (Int × ParseState YamlOutput N)}
    (h : Loop.loop (fun _ => true) fetchTag (parseTurn (yamlParser lib)) fuel st stream =
      some (e, stream')) (he : e.state? = some st') :
    ∃ tags, List.Forall₂ (fun visit node => YamlTag visit.1 (flvGetCurrentTagOffset visit.2.2) node)
      (Loop.visits (fun _ => true) fetchTag (parseTurn (yamlParser lib)) fuel st stream) tags ∧
      st'.user = st.user ++ itemEvents tags := by
  refine Loop.forall₂_visits
    (fun visit node => YamlTag visit.1 (flvGetCurrentTagOffset visit.2.2) node)
    (fun st st' tags => st'.user = st.user ++ itemEvents tags)
    (fun st => (List.append_nil _).symm) ?_ h he
  intro stream tag stream₁ st st₁ stream₂ st₂ tags hfetch hturn htags
  obtain ⟨node, hnode, huser⟩ := adds_parseTurn_next lib hturn
  exact ⟨node, hnode, by rw [htags, huser, itemEvents, List.append_assoc]⟩

/-- In the loop the document, its mapping and its sequence of tags are open. -/
theorem depth_parseLoop {fuel : ℕ} {st : ParseState YamlOutput N} {stream stream' : FlvStream}
    {r : Int × ParseState YamlOutput N} (hst : depth st.user = 4)
    (h : Loop.loop (fun _ => true) fetchTag (parseTurn (yamlParser lib)) fuel st stream =
      some (.stopped r, stream')) : r.1 ≠ 0 ∧ 4 ≤ depth r.2.user := by
  have hholds := Loop.loop_keeps (I := fun st : ParseState YamlOutput N => depth st.user = 4)
    (P := fun r => r.1 ≠ 0 ∧ 4 ≤ depth r.2.user) ?_ ?_ hst h
  · exact hholds
  · intro tag st st' stream stream' hst hturn
    obtain ⟨node, -, huser⟩ := adds_parseTurn_next lib hturn
    rw [huser, depth_append, depth_events, hst]
    rfl
  · intro tag st r stream stream' hst hturn
    obtain ⟨hretval, es, huser, hdepth⟩ := adds_parseTurn_stop lib hturn
    refine ⟨hretval, ?_⟩
    rw [huser, depth_append, hst]
    omega

/-- The stream of one document, whose sequence of tags has a mapping for every tag that is read, in
the order of the file. -/
def YamlDocument (content : Bytes) (output : YamlOutput) : Prop :=
  ∃ header tags, (flvReadHeader (flvOpen content)).1 = .ok header ∧
    output = Yaml.stream (yamlFile header tags) ∧
    List.Forall₂ (fun visit node => YamlTag visit.1 (flvGetCurrentTagOffset visit.2.2) node)
      (parseVisits (yamlParser lib) yamlOpen content) tags

/-- The state after the callback for the header. -/
def yamlStart (header : FlvHeader) : ParseState YamlOutput N :=
  ⟨yamlOpen ++ yamlFileStart header, [.header header]⟩

omit [NumberImage N] in
theorem deliver_yamlHeader (header : FlvHeader) (stream : FlvStream) :
    deliver (yamlParser lib) (.header header) ⟨yamlOpen, []⟩ stream =
      (0, yamlStart header, stream) := by
  unfold deliver FlvParser.callback
  simp only [yamlParser, Option.map_some, yamlOnHeader_eq, yamlStart, List.nil_append]

omit [NumberImage N] in
/-- What is open after the callback for the header. -/
theorem depth_yamlStart (header : FlvHeader) : depth (yamlStart (N := N) header).user = 4 := by
  simp [yamlStart, yamlOpen, yamlFileStart, Event.delta]

omit [NumberImage N] in
/-- The callback for the end of the stream closes the file. -/
theorem yamlClose_streamEnd (header : FlvHeader) (tags : List Node) {st : ParseState YamlOutput N}
    (h : st.user = (yamlStart (N := N) header).user ++ itemEvents tags) (stream : FlvStream) :
    (resultOf (deliver (yamlParser lib) .streamEnd st stream)).1 = 0 ∧
      yamlClose (resultOf (deliver (yamlParser lib) .streamEnd st stream)).2.user =
        Yaml.stream (yamlFile header tags) := by
  have hend : resultOf (deliver (yamlParser lib) .streamEnd st stream) =
      (0, ⟨st.user ++ [.sequenceEnd] ++ [.mappingEnd], st.events ++ [.streamEnd]⟩) := rfl
  rw [hend]
  refine ⟨rfl, ?_⟩
  rw [h]
  simp [yamlClose, yamlStart, yamlOpen, yamlFileStart, Yaml.stream, yamlFile, events,
    memberEvents_append, memberEvents, yamlMember]

/-- A document without its node, or in which something is open, is refused. -/
theorem not_accepts_yamlClose {emitter : YamlOutput} (h : emitter = yamlOpen ∨ 4 ≤ depth emitter) :
    ¬ Accepts (yamlClose emitter) := by
  intro haccepts
  rcases h with rfl | hdepth
  · cases haccepts
  · have hnone := emitAll_of_depth (show depth emitter ≠ 2 by omega) [.streamEnd]
    rw [Accepts, yamlClose, hnone] at haccepts
    cases haccepts

/-- A file that is parsed to its end is one document, and otherwise what is emitted is refused. -/
theorem yamlDocument_or_refused (content : Bytes) {retval : Int} {st : ParseState YamlOutput N}
    (h : flvParse (yamlParser lib) yamlOpen (some content) = some (retval, st)) :
    (retval = 0 ∧ YamlDocument lib content (yamlClose st.user)) ∨
      (retval ≠ 0 ∧ ¬ Accepts (yamlClose st.user)) := by
  cases hheader : flvReadHeader (flvOpen content) with
  | mk result stream =>
    cases result with
    | error status =>
      rw [flvParse_of_noHeader hheader] at h
      cases h
      exact .inr ⟨flvReadHeader_error (congrArg Prod.fst hheader),
        not_accepts_yamlClose (.inl rfl)⟩
    | ok header =>
      rw [flvParse_of_header hheader, deliver_yamlHeader, parseFrom,
        if_neg (not_not.mpr rfl)] at h
      have hvisits : parseVisits (yamlParser lib) yamlOpen content = Loop.visits (fun _ => true)
          fetchTag (parseTurn (yamlParser lib)) (content.length + 1) (yamlStart header) stream := by
        unfold parseVisits
        rw [hheader]
        dsimp only
        rw [deliver_yamlHeader, if_neg (not_not.mpr rfl)]
      obtain ⟨⟨e, stream₁⟩, hloop, hend⟩ := Option.map_eq_some_iff.mp h
      have hdocument : ∀ {st₁}, e.state? = some st₁ →
          (retval, st) = resultOf (deliver (yamlParser lib) .streamEnd st₁ stream₁) →
          retval = 0 ∧ YamlDocument lib content (yamlClose st.user) := by
        intro st₁ he hresult
        obtain ⟨tags, htags, huser⟩ := adds_tags lib hloop he
        obtain ⟨hzero, hclose⟩ := yamlClose_streamEnd lib header tags huser stream₁
        rw [← hresult] at hzero hclose
        refine ⟨hzero, header, tags, by rw [hheader], hclose, ?_⟩
        rw [hvisits]
        exact htags
      cases e with
      | finished st₁ => exact .inl (hdocument rfl hend.symm)
      | noItem st₁ => exact .inl (hdocument rfl hend.symm)
      | stopped r =>
        obtain ⟨hretval, hdepth⟩ := depth_parseLoop lib (depth_yamlStart header) hloop
        cases hend
        exact .inr ⟨hretval, not_accepts_yamlClose (.inr hdepth)⟩

/-- A file that is parsed to its end is dumped as a stream of one document, with a mapping for each
tag that was read. The emitter accepts what it is given for a file exactly if the status is zero,
and what it is given for any tree of supported values. -/
theorem dumpYamlFile_accepted (file : Option Bytes) {retval : Int} {st : ParseState YamlOutput N}
    (h : dumpYamlFile lib file = some (retval, st)) :
    (Accepts st.user ↔ retval = 0) ∧
      (retval = 0 → ∃ content, file = some content ∧ YamlDocument lib content st.user) ∧
      ∀ data : AmfData N, Supported data → Accepts (dumpYamlAmfData lib data) := by
  have hdata : ∀ data : AmfData N, Supported data → Accepts (dumpYamlAmfData lib data) := by
    intro data hsupported
    rw [dumpYamlAmfData, amfDataYamlDump_eq lib data hsupported]
    exact accepts_stream (toYaml lib data)
  unfold dumpYamlFile at h
  obtain ⟨⟨retval', st'⟩, hparse, hresult⟩ := Option.map_eq_some_iff.mp h
  cases hresult
  dsimp only at hparse ⊢
  cases file with
  | none =>
    cases hparse
    exact ⟨iff_of_false (not_accepts_yamlClose (.inl rfl)) (by decide),
      fun hzero => absurd hzero (by decide), hdata⟩
  | some content =>
    rcases yamlDocument_or_refused lib content hparse with ⟨hzero, hdocument⟩ | ⟨hretval, hrefused⟩
    · refine ⟨iff_of_true ?_ hzero, fun _ => ⟨content, rfl, hdocument⟩, hdata⟩
      obtain ⟨header, tags, -, houtput, -⟩ := hdocument
      rw [houtput]
      exact accepts_stream _
    · exact ⟨iff_of_false hrefused hretval, fun hzero => absurd hzero hretval, hdata⟩

end

/-- A library for numbers that are zero. -/
def zeroLibrary : DumpLibrary UInt64 := { bitsLibrary with formatNumber := fun _ => ascii "0" }

theorem dumpYamlFile_accepted_aac :
    (∃ st, dumpYamlFile zeroLibrary (some aacFile) = some (0, st) ∧ Accepts st.user ∧
      YamlDocument zeroLibrary aacFile st.user) ∧
      Accepts (dumpYamlAmfData zeroLibrary (.array [.boolean 1, .number 0])) := by
  have hstatus : (dumpYamlFile zeroLibrary (some aacFile)).map Prod.fst = some 0 := by
    rfl
  obtain ⟨⟨retval, st⟩, hdump, rfl⟩ := Option.map_eq_some_iff.mp hstatus
  obtain ⟨haccepts, hdocument, hdata⟩ := dumpYamlFile_accepted zeroLibrary (some aacFile) hdump
  obtain ⟨content, hcontent, hdocument⟩ := hdocument rfl
  cases hcontent
  exact ⟨⟨st, hdump, haccepts.mpr rfl, hdocument⟩, hdata _ ⟨trivial, trivial, trivial⟩⟩

end FlvMeta
