import FlvMeta.Dump.Json

/-!
# The JSON document of a file

The callbacks open and close containers for one another: the one for the header leaves an object and
its array of tags open, those for a tag fill one element of the array, and the one for the end of
the stream closes both. A turn of the parser that does not fail therefore emits one element
(`emits_parseTag`), and a file on which the parser returns `FLV_OK` is dumped as one object whose
array has an element for each tag that was read (`dumpJsonFile_document`).
-/

namespace FlvMeta

open Json Stdio

variable {N : Type}

/-! ## Members of a tag -/

/-- The members that the callback for all tags emits, with the offset of the tag. -/
def tagMembers (tag : FlvTag) (offset : Nat) : List (Bytes × Value (JsonNumber N)) := [
  (ascii "type", .string (dumpStringGetTagType tag)),
  (ascii "timestamp", .literal (.integer ((flvTagGetTimestamp tag : Int).bmod (2 ^ 32)))),
  (ascii "dataSize", .literal (.integer ((flvTagGetBodyLength tag : Int).bmod (2 ^ 32)))),
  (ascii "offset", .literal (.integer offset))]

/-- The members that the callback for the header emits before the array of tags. -/
def headerMembers (header : FlvHeader) : List (Bytes × Value (JsonNumber N)) := [
  (ascii "magic", .string header.signature.bytes),
  (ascii "hasVideo", .boolean (flvHeaderHasVideo header != 0)),
  (ascii "hasAudio", .boolean (flvHeaderHasAudio header != 0)),
  (ascii "version", .literal (.integer ((header.version.toNat : Int).bmod (2 ^ 32))))]

theorem emits_jsonOnTag (tag : FlvTag) (je : JsonEmitter N) (stream : FlvStream) :
    EmitsMembers (jsonEmitObjectStart je) (jsonOnTag tag je stream).2.1
      (tagMembers tag stream.currentTagOffset) := by
  have htype := cString_of_nulFree (nulFree_dumpStringGetTagType tag)
  have hstring := emitsValue_stringZ (dumpStringGetTagType tag)
    (jsonEmitObjectKeyZ (ascii "type") (jsonEmitObjectStart je))
  rw [htype] at hstring
  exact (hstring.memberZ (by simp [NulFree, ascii])).trans
    (((emitsValue_integer _ _).memberZ (by simp [NulFree, ascii])).trans
      (((emitsValue_integer _ _).memberZ (by simp [NulFree, ascii])).trans
        ((emitsValue_fileOffset _ _).memberZ (by simp [NulFree, ascii]))))

/-- One member, the data of a tag. -/
def EmitsData (je je' : JsonEmitter N) : Prop :=
  ∃ key value, EmitsMembers je je' [(key, value)]

theorem emits_jsonOnVideoTag (tag : FlvTag) {vt : FlvVideoTag} {je : JsonEmitter N}
    {stream : FlvStream} (h : (jsonOnVideoTag tag vt je stream).1 = 0) :
    EmitsData je (jsonOnVideoTag tag vt je stream).2.1 := by
  have hvideo : NulFree (ascii "videoData") := by simp [NulFree, ascii]
  have hcodec : NulFree (ascii "codecID") := by simp [NulFree, ascii]
  have htype : NulFree (ascii "frameType") := by simp [NulFree, ascii]
  have hpacket : NulFree (ascii "packetType") := by simp [NulFree, ascii]
  have havc : NulFree (ascii "AVCData") := by simp [NulFree, ascii]
  have htime : NulFree (ascii "compositionTimeOffset") := by simp [NulFree, ascii]
  have hframe := (emitsMember_stringZ hcodec (dumpStringGetVideoCodec vt)
    (jsonEmitObjectStart (jsonEmitObjectKeyZ (ascii "videoData") je))).trans
    (emitsMember_stringZ htype (dumpStringGetVideoFrameType vt) _)
  unfold jsonOnVideoTag at h ⊢
  dsimp only at h ⊢
  split at h
  · rename_i hext
    rw [if_pos hext]
    exact ⟨_, _, (hframe.trans (emitsMember_stringZ hpacket _ _)).object.memberZ hvideo⟩
  · rename_i hext
    rw [if_neg hext]
    split at h
    · rename_i hcodecId
      rw [if_pos hcodecId]
      cases hread : flvReadTagBody 1 stream with
      | mk type stream₁ =>
        rw [hread] at h
        dsimp only at h ⊢
        split at h
        · cases h
        · rename_i hlen
          rw [if_neg hlen]
          split at h
          · rename_i hnalu
            rw [if_pos hnalu]
            cases hread₂ : flvReadTagBody 3 stream₁ with
            | mk compositionTime stream₂ =>
              rw [hread₂] at h
              dsimp only at h ⊢
              split at h
              · cases h
              · rename_i hlen₂
                rw [if_neg hlen₂]
                exact ⟨_, _, (hframe.trans (((emitsMember_stringZ hpacket _ _).trans
                  ((emitsValue_integer _ _).memberZ htime)).object.memberZ havc)).object.memberZ
                    hvideo⟩
          · rename_i hnalu
            rw [if_neg hnalu]
            exact ⟨_, _, (hframe.trans
              ((emitsMember_stringZ hpacket _ _).object.memberZ havc)).object.memberZ hvideo⟩
    · rename_i hcodecId
      rw [if_neg hcodecId]
      exact ⟨_, _, hframe.object.memberZ hvideo⟩

theorem emits_jsonOnAudioTag (tag : FlvTag) {at' : UInt8} {je : JsonEmitter N}
    {stream : FlvStream} (h : (jsonOnAudioTag tag at' je stream).1 = 0) :
    EmitsData je (jsonOnAudioTag tag at' je stream).2.1 := by
  have haudio : NulFree (ascii "audioData") := by simp [NulFree, ascii]
  have htype : NulFree (ascii "type") := by simp [NulFree, ascii]
  have hsize : NulFree (ascii "size") := by simp [NulFree, ascii]
  have hrate : NulFree (ascii "rate") := by simp [NulFree, ascii]
  have hformat : NulFree (ascii "format") := by simp [NulFree, ascii]
  have haac : NulFree (ascii "AACData") := by simp [NulFree, ascii]
  have hpacket : NulFree (ascii "packetType") := by simp [NulFree, ascii]
  have hsound := (emitsMember_stringZ htype (dumpStringGetSoundType at')
    (jsonEmitObjectStart (jsonEmitObjectKeyZ (ascii "audioData") je))).trans
    ((emitsMember_stringZ hsize (dumpStringGetSoundSize at') _).trans
      ((emitsMember_stringZ hrate (dumpStringGetSoundRate at') _).trans
        (emitsMember_stringZ hformat (dumpStringGetSoundFormat at') _)))
  unfold jsonOnAudioTag at h ⊢
  dsimp only at h ⊢
  split at h
  · rename_i hformatAac
    rw [if_pos hformatAac]
    cases hread : flvReadTagBody 1 stream with
    | mk type stream₁ =>
      rw [hread] at h
      dsimp only at h ⊢
      split at h
      · cases h
      · rename_i hlen
        rw [if_neg hlen]
        exact ⟨_, _, (hsound.trans
          ((emitsMember_stringZ hpacket _ _).object.memberZ haac)).object.memberZ haudio⟩
  · rename_i hformatAac
    rw [if_neg hformatAac]
    exact ⟨_, _, hsound.object.memberZ haudio⟩

theorem emits_jsonOnMetadataTag (lib : JsonLibrary N) (tag : FlvTag) (name : Bytes)
    {data : AmfData N} (h : Supported data) (je : JsonEmitter N) (stream : FlvStream) :
    EmitsData je (jsonOnMetadataTag lib tag name data je stream).2.1 := by
  have hscript : NulFree (ascii "scriptDataObject") := by simp [NulFree, ascii]
  have hname : NulFree (ascii "name") := by simp [NulFree, ascii]
  have hmetadata : NulFree (ascii "metadata") := by simp [NulFree, ascii]
  have hmembers := (emitsMember_stringZ hname name
    (jsonEmitObjectStart (jsonEmitObjectKeyZ (ascii "scriptDataObject") je))).trans
    ((emitsValue_jsonAmfDataDump lib data h _).memberZ hmetadata)
  exact ⟨_, _, hmembers.object.memberZ hscript⟩

/-! ## A turn of the parser -/

section

variable [NumberImage N]

/-- The data of a script tag that was read is a tree of supported values. -/
theorem supported_flvReadMetadata (stream : FlvStream)
    (h : (flvReadMetadata stream : MetadataResult N × FlvStream).1.status = .ok) :
    Supported (flvReadMetadata stream : MetadataResult N × FlvStream).1.data := by
  rcases flvReadMetadata_data (N := N) stream with ⟨-, hsound⟩ | ⟨hne, -⟩
  · exact SoundTree.supported _ hsound
  · exact absurd h hne

omit [NumberImage N] in
theorem flvReadPrevTagSize_error {stream : FlvStream} {status : FlvStatus}
    (h : (flvReadPrevTagSize stream).1 = .error status) : status = .errorEof := by
  unfold flvReadPrevTagSize at h
  split at h
  · cases h
    rfl
  · dsimp only at h
    split at h
    · split at h
      · cases h
        rfl
      · cases h
    · cases h
      rfl

omit [NumberImage N] in
theorem flvReadHeader_error {stream : FlvStream} {status : FlvStatus}
    (h : (flvReadHeader stream).1 = .error status) : status.code ≠ 0 := by
  unfold flvReadHeader at h
  split at h
  · cases h
    decide
  · split at h
    · cases h
      decide
    · split at h
      · cases h
        decide
      · cases h

variable (lib : JsonLibrary N)

theorem emits_parseTagBody {tag : FlvTag} {st : ParseState (JsonEmitter N) N} {stream : FlvStream}
    (h : (parseTagBody (jsonParser lib) tag st stream).1 = 0) :
    ∃ data, data.length ≤ 1 ∧
      EmitsMembers st.user (parseTagBody (jsonParser lib) tag st stream).2.1.user data := by
  have hdata : ∀ {je' : JsonEmitter N}, EmitsData st.user je' →
      ∃ data, data.length ≤ 1 ∧ EmitsMembers st.user je' data :=
    fun ⟨key, value, hmember⟩ => ⟨[(key, value)], Nat.le_refl 1, hmember⟩
  have hnothing : ∃ data, data.length ≤ 1 ∧ EmitsMembers st.user st.user data :=
    ⟨[], Nat.zero_le 1, EmitsMembers.refl st.user⟩
  unfold parseTagBody at h ⊢
  by_cases haudio : tag.type = flvTagTypeAudio
  · rw [if_pos haudio] at h ⊢
    generalize flvReadAudioTag stream = r at h ⊢
    obtain ⟨result, stream₁⟩ := r
    cases result with
    | error status => exact hnothing
    | ok at' => exact hdata (emits_jsonOnAudioTag tag h)
  rw [if_neg haudio] at h ⊢
  by_cases hvideo : tag.type = flvTagTypeVideo
  · rw [if_pos hvideo] at h ⊢
    generalize flvReadVideoTag stream = r at h ⊢
    obtain ⟨result, stream₁⟩ := r
    cases result with
    | error status => exact hnothing
    | ok vt => exact hdata (emits_jsonOnVideoTag tag h)
  rw [if_neg hvideo] at h ⊢
  by_cases hscript : tag.type = flvTagTypeMeta
  · rw [if_pos hscript] at h ⊢
    have hsupported := supported_flvReadMetadata (N := N) stream
    generalize (flvReadMetadata stream : MetadataResult N × FlvStream) = r at h hsupported ⊢
    obtain ⟨result, stream₁⟩ := r
    dsimp only at h hsupported ⊢
    by_cases heof : result.status = .errorEof
    · rw [if_pos heof]
      exact hnothing
    rw [if_neg heof] at h ⊢
    by_cases hok : result.status = .ok ∧ amfDataGetType result.name = AmfType.string.code
    · rw [if_pos hok] at h ⊢
      exact hdata (emits_jsonOnMetadataTag lib tag _ (hsupported hok.1) st.user stream₁)
    · rw [if_neg hok]
      exact hnothing
  · rw [if_neg hscript]
    exact hnothing

/-- The object of a tag: what is known of every tag, and at most one member with its data. -/
def TagObject (tag : FlvTag) (offset : Nat) (value : Value (JsonNumber N)) : Prop :=
  ∃ data, data.length ≤ 1 ∧ value = .object (tagMembers tag offset ++ data)

/-- A turn that does not fail emits the object of its tag. -/
theorem emits_parseTag (tag : FlvTag) (st : ParseState (JsonEmitter N) N) (stream : FlvStream)
    (h : (parseTag (jsonParser lib) tag st stream).1 = 0) :
    ∃ value, TagObject tag stream.currentTagOffset value ∧
      EmitsValue st.user (parseTag (jsonParser lib) tag st stream).2.1.user value := by
  have htag := emits_jsonOnTag tag st.user stream
  unfold parseTag at h ⊢
  generalize hdeliver : deliver (jsonParser lib) (.tag tag) st stream = r at h ⊢
  have hr : r.1 = 0 ∧ r.2.1.user = (jsonOnTag tag st.user stream).2.1 := by
    rw [← hdeliver]
    exact ⟨rfl, rfl⟩
  rw [← hr.2] at htag
  rw [unlessFailed, if_neg (by rw [hr.1]; decide)] at h ⊢
  have hbody : (parseTagBody (jsonParser lib) tag r.2.1 r.2.2).1 = 0 → _ :=
    emits_parseTagBody lib
  generalize parseTagBody (jsonParser lib) tag r.2.1 r.2.2 = r' at h hbody ⊢
  by_cases hfailed : r'.1 ≠ 0
  · rw [unlessFailed, if_pos hfailed] at h
    exact absurd h hfailed
  rw [unlessFailed, if_neg hfailed] at h ⊢
  obtain ⟨data, hlength, hmembers⟩ := hbody (not_not.mp hfailed)
  refine ⟨_, ⟨data, hlength, rfl⟩, ?_⟩
  unfold parsePrevTagSize at h ⊢
  have herror := @flvReadPrevTagSize_error r'.2.2
  generalize flvReadPrevTagSize r'.2.2 = size at h herror ⊢
  obtain ⟨result, stream₁⟩ := size
  cases result with
  | error status =>
    obtain rfl := herror rfl
    cases h
  | ok size => exact (htag.trans hmembers).object

/-! ## The whole file -/

/-- The object of a file with its header and its tags. -/
def fileObject (header : FlvHeader) (tags : List (Value (JsonNumber N))) : Value (JsonNumber N) :=
  .object (headerMembers header ++ [(ascii "tags", .array tags)])

omit [NumberImage N] in
/-- What is emitted from the header to the end of the stream. -/
theorem emits_file (header : FlvHeader) (stream : FlvStream) {je : JsonEmitter N}
    {tags : List (Value (JsonNumber N))}
    (h : EmitsElements (jsonOnHeader header jsonEmitInit stream).2.1 je tags) :
    (jsonOnStreamEnd je stream).2.1.output = tokens (fileObject header tags) := by
  have hmagic : NulFree (ascii "magic") := by simp [NulFree, ascii]
  have hvideo : NulFree (ascii "hasVideo") := by simp [NulFree, ascii]
  have haudio : NulFree (ascii "hasAudio") := by simp [NulFree, ascii]
  have hversion : NulFree (ascii "version") := by simp [NulFree, ascii]
  have htags : NulFree (ascii "tags") := by simp [NulFree, ascii]
  have hmembers : EmitsMembers (jsonEmitObjectStart jsonEmitInit) _
      (headerMembers (N := N) header) :=
    ((emitsValue_string _ _).memberZ hmagic).trans
      (((emitsValue_boolean _ _).memberZ hvideo).trans
        (((emitsValue_boolean _ _).memberZ haudio).trans
          ((emitsValue_integer _ _).memberZ hversion)))
  have hobject : EmitsValue jsonEmitInit (jsonOnStreamEnd je stream).2.1 (fileObject header tags) :=
    (hmembers.trans (h.array.memberZ htags)).object
  rw [hobject]
  rfl

/-- The tags that the parser reads are dumped in order. -/
theorem emits_tags {fuel : Nat} {st st' : ParseState (JsonEmitter N) N}
    {stream stream' : FlvStream} {e : Loop.End (ParseState (JsonEmitter N) N) _}
    (h : Loop.loop (fun _ => true) fetchTag (parseTurn (jsonParser lib)) fuel st stream =
      some (e, stream')) (he : e.state? = some st') :
    ∃ tags, List.Forall₂ (fun visit value =>
        TagObject visit.1 (flvGetCurrentTagOffset visit.2.2) value)
      (Loop.visits (fun _ => true) fetchTag (parseTurn (jsonParser lib)) fuel st stream) tags ∧
      EmitsElements st.user st'.user tags := by
  refine Loop.forall₂_visits
    (fun visit value => TagObject visit.1 (flvGetCurrentTagOffset visit.2.2) value)
    (fun st st' tags => EmitsElements st.user st'.user tags)
    (fun st => EmitsElements.refl st.user) ?_ h he
  intro stream tag stream₁ st st₁ stream₂ st₂ tags hfetch hturn htags
  have htag := emits_parseTag lib tag st stream₁
  unfold parseTurn at hturn
  generalize parseTag (jsonParser lib) tag st stream₁ = r at hturn htag
  obtain ⟨retval, st₃, stream₃⟩ := r
  dsimp only at hturn htag
  by_cases hretval : retval ≠ 0
  · rw [if_pos hretval] at hturn
    cases hturn
  · rw [if_neg hretval] at hturn
    cases hturn
    obtain ⟨value, hvalue, hemits⟩ := htag (not_not.mp hretval)
    exact ⟨value, hvalue, hemits.element.trans htags⟩

theorem parseTurn_stop {parser : FlvParser (JsonEmitter N) N} {tag : FlvTag}
    {st : ParseState (JsonEmitter N) N} {stream stream' : FlvStream}
    {result : Int × ParseState (JsonEmitter N) N}
    (h : parseTurn parser tag st stream = (.stop result, stream')) : result.1 ≠ 0 := by
  unfold parseTurn at h
  generalize parseTag parser tag st stream = r at h
  obtain ⟨retval, st₁, stream₁⟩ := r
  dsimp only at h
  split at h
  · rename_i hretval
    cases h
    exact hretval
  · cases h

/-- The tokens of one object, whose array of tags has an object for every tag that is read, in the
order of the file. -/
def FileDocument (content : Bytes) (output : List (Token (JsonNumber N))) : Prop :=
  ∃ header tags, (flvReadHeader (flvOpen content)).1 = .ok header ∧
    output = tokens (fileObject header tags) ∧
    List.Forall₂ (fun visit value =>
      TagObject visit.1 (flvGetCurrentTagOffset visit.2.2) value)
      (parseVisits (jsonParser lib) jsonEmitInit content) tags

theorem dumpJsonFile_document {content : Bytes} {st : ParseState (JsonEmitter N) N}
    (h : dumpJsonFile lib (some content) = some (0, st)) :
    FileDocument lib content st.user.output := by
  unfold dumpJsonFile flvParse at h
  dsimp only at h
  cases hheader : flvReadHeader (flvOpen content) with
  | mk result stream =>
    rw [hheader] at h
    cases result with
    | error status =>
      injection h with h
      injection h with hcode
      exact absurd hcode (flvReadHeader_error (congrArg Prod.fst hheader))
    | ok header =>
      have hdeliver : deliver (jsonParser lib) (.header header) ⟨jsonEmitInit, []⟩ stream =
          (0, ⟨(jsonOnHeader header jsonEmitInit stream).2.1, [.header header]⟩, stream) := rfl
      have hvisits : parseVisits (jsonParser lib) jsonEmitInit content = Loop.visits
          (fun _ => true) fetchTag (parseTurn (jsonParser lib)) (content.length + 1)
          ⟨(jsonOnHeader header jsonEmitInit stream).2.1, [.header header]⟩ stream := by
        unfold parseVisits
        rw [hheader]
        dsimp only
        rw [hdeliver]
        simp only [ne_eq, not_true_eq_false, if_false]
      rw [FileDocument, hheader, hvisits]
      dsimp only at h
      rw [hdeliver] at h
      simp only [ne_eq, not_true_eq_false, if_false] at h
      generalize hloop : Loop.loop (fun _ => true) fetchTag (parseTurn (jsonParser lib))
        (content.length + 1)
        ⟨(jsonOnHeader header jsonEmitInit stream).2.1, [.header header]⟩ stream = r at h
      rcases r with _ | ⟨e, stream₁⟩
      · cases h
      cases e with
      | stopped result =>
        injection h with h
        exact absurd (congrArg Prod.fst h) (Loop.loop_stopped parseTurn_stop hloop)
      | finished st₁ =>
        obtain ⟨tags, htags, hemits⟩ := emits_tags lib hloop rfl
        cases h
        exact ⟨header, tags, rfl, emits_file header stream hemits, htags⟩
      | noItem st₁ =>
        obtain ⟨tags, htags, hemits⟩ := emits_tags lib hloop rfl
        cases h
        exact ⟨header, tags, rfl, emits_file header stream hemits, htags⟩

/-- A file that is parsed to its end is dumped as one document, which has one reading only, and an
AMF tree as one value after the comma that was pending. -/
theorem jsonDocument :
    (∀ (file : Option Bytes) (st : ParseState (JsonEmitter N) N),
      dumpJsonFile lib file = some (0, st) →
        ∃ content, file = some content ∧ FileDocument lib content st.user.output ∧
          ∃! value, st.user.output = tokens value) ∧
      ∀ (data : AmfData N) (je : JsonEmitter N), Supported data →
        EmitsValue je (jsonAmfDataDump lib data je) (toJson lib data) := by
  refine ⟨?_, fun data je h => emitsValue_jsonAmfDataDump lib data h je⟩
  intro file st h
  cases file with
  | none => cases h
  | some content =>
    have hdocument := dumpJsonFile_document lib h
    refine ⟨content, rfl, hdocument, ?_⟩
    obtain ⟨header, tags, -, houtput, -⟩ := hdocument
    refine ⟨fileObject header tags, houtput, ?_⟩
    intro value hvalue
    exact tokens_injective (hvalue.symm.trans houtput)

end

/-- A file of one AAC tag with the byte of its packet type. -/
def aacFile : Bytes :=
  [0x46, 0x4C, 0x56, 1, 4, 0, 0, 0, 9, 0, 0, 0, 0, 8, 0, 0, 2, 0, 0, 0, 0, 0, 0, 0, 0xAF, 1, 0, 0,
    0, 13]

/-- The bits of a number are finite unless those of its exponent are all set. -/
def bitsLibrary : JsonLibrary UInt64 where
  isfinite x := x &&& 0x7FF0000000000000 != 0x7FF0000000000000
  amfDateToTimeT _ := 0
  localtime _ := some ⟨0, 0, 0, 1, 0, 70, 4, 0, 0⟩
  strftime _ _ := ascii "1970-01-01T00:00:00"

theorem jsonDocument_aac :
    (∃ st, dumpJsonFile bitsLibrary (some aacFile) = some (0, st) ∧
      FileDocument bitsLibrary aacFile st.user.output) ∧
      EmitsValue jsonEmitInit
        (jsonAmfDataDump bitsLibrary (.array [.boolean 1, .undefined]) jsonEmitInit)
        (.array [.boolean true, .null]) := by
  constructor
  · have hstatus : (dumpJsonFile bitsLibrary (some aacFile)).map Prod.fst = some 0 := by
      rfl
    obtain ⟨⟨retval, st⟩, hdump, rfl⟩ := Option.map_eq_some_iff.mp hstatus
    obtain ⟨content, hcontent, hdocument, -⟩ := (jsonDocument bitsLibrary).1 _ st hdump
    cases hcontent
    exact ⟨st, hdump, hdocument⟩
  · exact (jsonDocument bitsLibrary).2 _ _ ⟨trivial, trivial, trivial⟩

end FlvMeta
