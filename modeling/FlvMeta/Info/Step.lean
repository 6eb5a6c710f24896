import FlvMeta.Info.Timeline
import FlvMeta.Info.Turn

/-!
# A turn of the first pass over a plain file

A plain file has only complete tags of the three known types, and its script bodies start with a
string and a value. On such a file every turn of the loop of `getFlvInfo` leaves the stream on the
tag it has read (`infoTag_plain`), so the first pass visits the tags of the timeline, the same
as the second pass. `Turned` says field by field what a turn does to the information gathered.
-/

namespace FlvMeta

open Endian Stdio

/-! ## Plain files -/

/-- A script body: the encodings of a string and of a value, and perhaps more. Its numbers are
64-bit patterns. -/
def ScriptBody (bs : Bytes) : Prop :=
  ∃ (name : AmfString) (data : AmfData UInt64) (extra : Bytes), WellFormed data ∧
    bs = amfDataImage (.string name : AmfData UInt64) ++ (amfDataImage data ++ extra)

structure PlainTag (content : Bytes) (p : Nat) (tag : FlvTag) : Prop where
  complete : Complete content p tag
  known : tag.Known
  script : tag.type = flvTagTypeMeta → flvTagGetBodyLength tag ≠ 0 →
    ScriptBody (tagBody content p tag)

def PlainFile (content : Bytes) : Prop := ∀ x ∈ tagsFrom content 13, PlainTag content x.1 x.2

/-- Only the bodies of script tags matter. -/
theorem PlainFile.of_scripts {content : Bytes}
    (htags : ∀ x ∈ tagsFrom content 13, Complete content x.1 x.2 ∧ x.2.Known)
    (hscripts : ∀ x ∈ (tagsFrom content 13).filter (·.2.type == flvTagTypeMeta),
      ScriptBody (tagBody content x.1 x.2)) : PlainFile content := by
  intro x hx
  obtain ⟨hcomplete, hknown⟩ := htags x hx
  refine ⟨hcomplete, hknown, fun htype _ => ?_⟩
  apply hscripts
  exact List.mem_filter.mpr ⟨hx, beq_iff_eq.mpr htype⟩

/-! ## Script tags -/

variable {N : Type}

section

variable [NumberImage N] {content : Bytes} {p : Nat} {tag : FlvTag}

/-- A script body is read, and the stream stays on its tag. -/
theorem flvReadMetadata_scriptBody (htag : tag = flvTagOfBytes (content.drop p))
    (hcomplete : Complete content p tag) (hbody : ScriptBody (tagBody content p tag)) :
    ∃ (name : AmfString) (data : AmfData N) (stream : FlvStream),
      (flvReadMetadata (tagStream content p) : MetadataResult N × FlvStream) =
        (⟨.ok, .string name, data⟩, stream) ∧
      amfDataGetErrorCode data = .ok ∧ Tracks content (some (p, tag)) stream := by
  obtain ⟨name, data, extra, hwf, hbytes⟩ := hbody
  have hname : WellFormed (.string name : AmfData UInt64) := trivial
  obtain ⟨stream, hread, hin⟩ := flvReadMetadata_images (N := N) htag hcomplete hname hwf hbytes
  refine ⟨name, data.mapNumbers reload, stream, hread, ?_, hin.tracks⟩
  rw [amfDataGetErrorCode_mapNumbers, hwf.errorCode]

theorem aligned_scriptBody (htag : tag = flvTagOfBytes (content.drop p))
    (hcomplete : Complete content p tag) (hbody : ScriptBody (tagBody content p tag)) :
    Aligned N content p := by
  obtain ⟨name, data, extra, hwf, hbytes⟩ := hbody
  have hname : WellFormed (.string name : AmfData UInt64) := trivial
  exact aligned_images htag hcomplete hname hwf hbytes

theorem PlainFile.alignedScripts (h : PlainFile content) : AlignedScripts N content 13 := by
  intro x hx hmeta hlen
  have hplain := h x hx
  exact aligned_scriptBody (tag_of_mem_tagsFrom 13 x hx) hplain.complete
    (hplain.script hmeta hlen)

end

/-! ## One turn of the loop -/

section

variable [Number64 N]

/-- What a turn of the loop on a tag of a plain file does to its state. -/
inductive InfoStep (opts : FlvmetaOpts N) (content : Bytes) (t : TimedTag) (st : InfoState N) :
    InfoState N → Prop
  | script {name data : AmfData N} : t.tag.type = flvTagTypeMeta →
    (flvTagGetBodyLength t.tag ≠ 0 → amfDataGetType name = AmfType.string.code) →
    InfoStep opts content t st { (infoTimestamp opts t.tag st).2 with
      info := infoMetadataName opts t.offset (flvTagGetBodyLength t.tag) name data
        (infoTimestamp opts t.tag st).2.info }
  | emptyVideo : t.tag.type = flvTagTypeVideo → flvTagGetBodyLength t.tag = 0 →
    InfoStep opts content t st { (infoTimestamp opts t.tag st).2 with
      info := countVideo 0 (infoTimestamp opts t.tag st).1 (infoTimestamp opts t.tag st).2.info }
  | video {vt : FlvVideoTag} {width height : Nat} {haveVideoSize : Bool} :
    t.tag.type = flvTagTypeVideo → flvTagGetBodyLength t.tag ≠ 0 →
    vt.videoTag = content.getD (t.offset + 11) 0 →
    InfoStep opts content t st { (infoTimestamp opts t.tag st).2 with
      info := afterVideo opts t.offset (flvTagGetBodyLength t.tag) (infoTimestamp opts t.tag st).1
        vt width height (infoTimestamp opts t.tag st).2.info
      haveVideoSize }
  | emptyAudio : t.tag.type = flvTagTypeAudio → flvTagGetBodyLength t.tag = 0 →
    InfoStep opts content t st { (infoTimestamp opts t.tag st).2 with
      info := countAudio 0 (infoTimestamp opts t.tag st).2.info }
  | audio {audioTag : UInt8} : t.tag.type = flvTagTypeAudio → flvTagGetBodyLength t.tag ≠ 0 →
    InfoStep opts content t st { (infoTimestamp opts t.tag st).2 with
      info := afterAudio (flvTagGetBodyLength t.tag) (infoTimestamp opts t.tag st).1 audioTag
        (infoTimestamp opts t.tag st).2.info }

/-- A turn on a tag of a plain file is such a step. -/
theorem infoStep_of_plain {opts : FlvmetaOpts N} {content : Bytes} {t : TimedTag}
    (htag : t.tag = flvTagOfBytes (content.drop t.offset))
    (hplain : PlainTag content t.offset t.tag) {st st' : InfoState N}
    (h : InfoOutcome opts t.tag st (tagStream content t.offset) st') :
    InfoStep opts content t st st' := by
  have hoffset : flvGetCurrentTagOffset (tagStream content t.offset) = t.offset := rfl
  cases h with
  | emptyScript htype hzero =>
    rw [hoffset, ← hzero]
    exact .script htype fun hne => absurd hzero hne
  | @script result stream' htype hne hread =>
    obtain ⟨name, data, stream₁, hread', -, -⟩ :=
      flvReadMetadata_scriptBody (N := N) htag hplain.complete (hplain.script htype hne)
    rw [hread'] at hread
    obtain ⟨rfl, -⟩ := Prod.mk.inj hread
    exact .script htype fun _ => rfl
  | emptyVideo htype hzero => exact .emptyVideo htype hzero
  | video htype hne hread => exact .video htype hne (flvReadVideoTag_ok hread)
  | emptyAudio htype hzero => exact .emptyAudio htype hzero
  | audio htype hne => exact .audio htype hne
  | unknown hunknown => exact absurd hplain.known hunknown

/-- A turn of the loop on a tag of a plain file leaves the stream on the tag. -/
theorem infoTag_plain {opts : FlvmetaOpts N} {content : Bytes} {t : TimedTag}
    (htag : t.tag = flvTagOfBytes (content.drop t.offset))
    (hplain : PlainTag content t.offset t.tag) {st st' : InfoState N} {stream : FlvStream}
    (h : infoTag opts t.tag st (tagStream content t.offset) = (.ok st', stream)) :
    InfoStep opts content t st st' ∧ Tracks content (some (t.offset, t.tag)) stream := by
  refine ⟨infoStep_of_plain htag hplain (infoTag_outcome h), ?_⟩
  have htracks := tracks_tagStream content t.offset
  rw [← htag] at htracks
  unfold infoTag at h
  dsimp only at h
  split at h
  · rename_i hmeta
    unfold infoMetaTag at h
    split at h
    · cases h
      exact htracks
    · rename_i hne
      obtain ⟨name, data, stream₁, hread, hcode, htracks'⟩ :=
        flvReadMetadata_scriptBody (N := N) htag hplain.complete (hplain.script hmeta hne)
      rw [hread] at h
      simp only [reduceCtorEq, if_false, false_and] at h
      cases h
      exact htracks'
  · split at h
    · have hkeep := Tracks.infoVideoTag htracks opts
        (flvGetCurrentTagOffset (tagStream content t.offset)) (flvTagGetBodyLength t.tag)
        (infoTimestamp opts t.tag st).1 (infoTimestamp opts t.tag st).2
      rw [h] at hkeep
      exact hkeep
    · split at h
      · have hkeep := Tracks.infoAudioTag htracks (flvTagGetBodyLength t.tag)
          (infoTimestamp opts t.tag st).1 (infoTimestamp opts t.tag st).2
        rw [h] at hkeep
        exact hkeep
      · obtain ⟨-, rfl⟩ := Prod.mk.inj h
        exact htracks

/-- A turn of the loop on a tag of any file, if it is an aligned script tag or of another type: the
next header is read behind the tag. -/
theorem infoTag_aimed {opts : FlvmetaOpts N} {content : Bytes} {p : Nat} {tag : FlvTag}
    (htag : tag = flvTagOfBytes (content.drop p))
    (halign : tag.type = flvTagTypeMeta → flvTagGetBodyLength tag ≠ 0 → Aligned N content p)
    {st st' : InfoState N} {stream : FlvStream}
    (h : infoTag opts tag st (tagStream content p) = (.ok st', stream)) :
    Aimed content (nextTag p tag) stream := by
  have htracks := tracks_tagStream content p
  rw [← htag] at htracks
  unfold infoTag at h
  dsimp only at h
  split at h
  · rename_i hmeta
    unfold infoMetaTag at h
    split at h
    · cases h
      exact htracks.aimed
    · rename_i hlen
      have hbody : (tagStream content p).currentTagBodyLength = flvTagGetBodyLength tag := by
        rw [htag]
        rfl
      have haimed := (halign hmeta hlen).aimed (by rwa [hbody])
      rw [hbody] at haimed
      generalize (flvReadMetadata (tagStream content p) : MetadataResult N × FlvStream) = r
        at h haimed
      obtain ⟨result, stream'⟩ := r
      dsimp only at h haimed
      split at h
      · cases h
      · rename_i heof
        split at h
        · cases h
        · cases h
          exact haimed heof
  · split at h
    · have hkeep := Tracks.infoVideoTag htracks opts
        (flvGetCurrentTagOffset (tagStream content p)) (flvTagGetBodyLength tag)
        (infoTimestamp opts tag st).1 (infoTimestamp opts tag st).2
      rw [h] at hkeep
      exact hkeep.aimed
    · split at h
      · have hkeep := Tracks.infoAudioTag htracks (flvTagGetBodyLength tag)
          (infoTimestamp opts tag st).1 (infoTimestamp opts tag st).2
        rw [h] at hkeep
        exact hkeep.aimed
      · obtain ⟨-, rfl⟩ := Prod.mk.inj h
        exact htracks.aimed

/-! ## What a turn does -/

/-- The first timestamp after a tag. -/
def firstAfter (st : InfoState N) (t : TimedTag) : Nat :=
  if ¬ st.haveFirstTimestamp ∧ t.tag.type ≠ flvTagTypeMeta then t.fixed
  else st.info.firstTimestamp

omit [Number64 N] in
theorem infoTimestamp_of_known {opts : FlvmetaOpts N} {t : TimedTag} {st : InfoState N}
    (hknown : t.tag.Known) (hfixed : t.fixed = (st.clocks.fix t.tag).1) :
    infoTimestamp opts t.tag st = (relative opts (firstAfter st t) t.fixed,
      { info := { st.info with
          firstTimestamp := firstAfter st t
          biggestTagBodySize :=
            if st.info.biggestTagBodySize < flvTagGetBodyLength t.tag
            then flvTagGetBodyLength t.tag else st.info.biggestTagBodySize
          lastTimestamp := relative opts (firstAfter st t) t.fixed }
        clocks := (st.clocks.fix t.tag).2
        haveVideoSize := st.haveVideoSize
        haveFirstTimestamp := st.haveFirstTimestamp || decide (t.tag.type ≠ flvTagTypeMeta) }) := by
  unfold infoTimestamp
  dsimp only
  rw [if_pos hknown, ← hfixed]
  by_cases h : ¬ st.haveFirstTimestamp ∧ t.tag.type ≠ flvTagTypeMeta
  · simp only [firstAfter, if_pos h, relative]
    simp [h.1, h.2]
  · simp only [firstAfter, if_neg h, relative]
    have hb : (st.haveFirstTimestamp || decide (t.tag.type ≠ flvTagTypeMeta)) =
        st.haveFirstTimestamp := by
      cases hf : st.haveFirstTimestamp with
      | true => rfl
      | false =>
        rw [hf] at h
        simpa using h
    rw [hb]

/-- A keyframe is indexed unless the one indexed before has the same timestamp. -/
def Indexes (opts : FlvmetaOpts N) (timestamp : Nat) (info : FlvInfo N) : Prop :=
  ¬ info.haveKeyframes ∨ (info.haveKeyframes ∧ info.lastKeyframeTimestamp ≠ timestamp) ∨
    opts.allKeyframes

instance (opts : FlvmetaOpts N) (timestamp : Nat) (info : FlvInfo N) :
    Decidable (Indexes opts timestamp info) := inferInstanceAs (Decidable (_ ∨ _ ∨ _))

/-- What a turn of the loop does, field by field. -/
structure Turned (opts : FlvmetaOpts N) (content : Bytes) (t : TimedTag) (st st' : InfoState N) :
    Prop where
  known : t.tag.Known
  clocks : st'.clocks = (st.clocks.fix t.tag).2
  haveFirst : st'.haveFirstTimestamp =
    (st.haveFirstTimestamp || decide (t.tag.type ≠ flvTagTypeMeta))
  header : st'.info.header = st.info.header
  first : st'.info.firstTimestamp = firstAfter st t
  last : st'.info.lastTimestamp = relative opts (firstAfter st t) t.fixed
  biggest : st.info.biggestTagBodySize ≤ st'.info.biggestTagBodySize ∧
    flvTagGetBodyLength t.tag ≤ st'.info.biggestTagBodySize
  video : st'.info.videoDataSize = st.info.videoDataSize +
    if t.tag.type = flvTagTypeVideo then flvTagGetBodyLength t.tag + flvTagSize else 0
  audio : st'.info.audioDataSize = st.info.audioDataSize +
    if t.tag.type = flvTagTypeAudio then flvTagGetBodyLength t.tag + flvTagSize else 0
  script : (t.tag.type = flvTagTypeMeta ∧ st.info.onMetadataSize = 0 ∧
      st'.info.onMetadataSize = flvTagGetBodyLength t.tag + 15 ∧
      st'.info.onMetadataOffset = t.offset ∧
      st'.info.metaDataSize = st.info.metaDataSize ∧
      st'.info.totalPrevTagsSize = st.info.totalPrevTagsSize) ∨
    (st'.info.onMetadataSize = st.info.onMetadataSize ∧
      st'.info.onMetadataOffset = st.info.onMetadataOffset ∧
      st'.info.metaDataSize = st.info.metaDataSize +
        (if t.tag.type = flvTagTypeMeta then flvTagGetBodyLength t.tag + flvTagSize else 0) ∧
      st'.info.totalPrevTagsSize = st.info.totalPrevTagsSize + 4)
  indexed : IsKeyframe content t →
    Indexes opts (relative opts (firstAfter st t) t.fixed) st.info →
    st'.info.haveKeyframes = true ∧
      st'.info.lastKeyframeTimestamp = relative opts (firstAfter st t) t.fixed ∧
      st'.info.times = st.info.times ++ [seconds (relative opts (firstAfter st t) t.fixed)] ∧
      st'.info.filepositions = st.info.filepositions ++ [Number64.ofInt t.offset]
  skipped : ¬ (IsKeyframe content t ∧
      Indexes opts (relative opts (firstAfter st t) t.fixed) st.info) →
    st'.info.haveKeyframes = st.info.haveKeyframes ∧
      st'.info.lastKeyframeTimestamp = st.info.lastKeyframeTimestamp ∧
      st'.info.times = st.info.times ∧ st'.info.filepositions = st.info.filepositions

omit [Number64 N] in
theorem infoMetadataName_cases (opts : FlvmetaOpts N) (offset bodyLength : Nat)
    (name data : AmfData N) (info : FlvInfo N) :
    (∃ original, info.onMetadataSize = 0 ∧
      infoMetadataName opts offset bodyLength name data info = { info with
        onMetadataSize := bodyLength + 15
        onMetadataOffset := offset
        originalOnMetadata := original }) ∨
    ∃ haveOnLastSecond, infoMetadataName opts offset bodyLength name data info = { info with
      haveOnLastSecond
      metaDataSize := info.metaDataSize + (bodyLength + flvTagSize)
      totalPrevTagsSize := info.totalPrevTagsSize + 4 } := by
  unfold infoMetadataName
  split
  · split
    · rename_i h
      exact Or.inl ⟨_, h.1, rfl⟩
    · right
      split
      · exact ⟨_, rfl⟩
      · exact ⟨_, rfl⟩
  · exact Or.inr ⟨_, rfl⟩

omit [Number64 N] in
/-- What an audio tag with a body leaves alone. -/
theorem afterAudio_frame (bodyLength timestamp : Nat) (audioTag : UInt8) (info : FlvInfo N) :
    ∃ haveAudio codec size rate stereo first duration real,
      afterAudio bodyLength timestamp audioTag info = { info with
        haveAudio
        audioCodec := codec
        audioSize := size
        audioRate := rate
        audioStereo := stereo
        audioFirstTimestamp := first
        audioFrameDuration := duration
        realAudioDataSize := real
        lastMediaFrameType := flvTagTypeAudio
        audioDataSize := info.audioDataSize + (bodyLength + flvTagSize)
        totalPrevTagsSize := info.totalPrevTagsSize + 4 } := by
  unfold afterAudio infoFirstAudio
  split
  · exact ⟨_, _, _, _, _, _, _, _, rfl⟩
  · exact ⟨_, _, _, _, _, _, _, _, rfl⟩

/-- What a video tag with a body leaves alone, the index of keyframes apart. -/
theorem afterVideo_frame (opts : FlvmetaOpts N) (offset bodyLength timestamp : Nat)
    (vt : FlvVideoTag) (width height : Nat) (info : FlvInfo N) :
    ∃ haveVideo codec first canSeekToEnd frames duration real,
      afterVideo opts offset bodyLength timestamp vt width height info =
        { (infoKeyframe opts offset timestamp vt info) with
          haveVideo
          videoWidth := width
          videoHeight := height
          videoCodec := codec
          videoFirstTimestamp := first
          canSeekToEnd
          videoFramesNumber := frames
          videoFrameDuration := duration
          realVideoDataSize := real
          lastMediaFrameType := flvTagTypeVideo
          videoDataSize := info.videoDataSize + (bodyLength + flvTagSize)
          totalPrevTagsSize := info.totalPrevTagsSize + 4 } := by
  unfold afterVideo infoFirstVideo infoKeyframe
  by_cases hv : info.haveVideo
  · simp only [if_pos hv]
    split
    · split
      · exact ⟨_, _, _, _, _, _, _, rfl⟩
      · exact ⟨_, _, _, _, _, _, _, rfl⟩
    · exact ⟨_, _, _, _, _, _, _, rfl⟩
  · simp only [if_neg hv]
    split
    · split
      · exact ⟨_, _, _, _, _, _, _, rfl⟩
      · exact ⟨_, _, _, _, _, _, _, rfl⟩
    · exact ⟨_, _, _, _, _, _, _, rfl⟩

/-- The index of keyframes after a video tag with a body. -/
theorem infoKeyframe_cases (opts : FlvmetaOpts N) (offset timestamp : Nat) (vt : FlvVideoTag)
    (info : FlvInfo N) :
    (IsKeyframeByte vt.videoTag ∧ Indexes opts timestamp info ∧ ∃ canSeekToEnd,
      infoKeyframe opts offset timestamp vt info = { info with
        haveKeyframes := true
        lastKeyframeTimestamp := timestamp
        times := info.times ++ [seconds timestamp]
        filepositions := info.filepositions ++ [Number64.ofInt offset]
        canSeekToEnd }) ∨
    (¬ (IsKeyframeByte vt.videoTag ∧ Indexes opts timestamp info) ∧ ∃ canSeekToEnd,
      infoKeyframe opts offset timestamp vt info = { info with canSeekToEnd }) := by
  unfold infoKeyframe
  split
  · rename_i hkey
    split
    · rename_i hindex
      exact Or.inl ⟨hkey, hindex, _, rfl⟩
    · rename_i hindex
      exact Or.inr ⟨fun h => hindex h.2, _, rfl⟩
  · rename_i hkey
    exact Or.inr ⟨fun h => hkey h.1, _, rfl⟩

theorem le_biggest (a b : Nat) : a ≤ (if a < b then b else a) ∧ b ≤ if a < b then b else a := by
  split <;> omega

theorem InfoStep.turned {opts : FlvmetaOpts N} {content : Bytes} {t : TimedTag}
    {st st' : InfoState N} (hfixed : t.fixed = (st.clocks.fix t.tag).1)
    (h : InfoStep opts content t st st') : Turned opts content t st st' := by
  have hmv : flvTagTypeMeta ≠ flvTagTypeVideo := by decide
  have hma : flvTagTypeMeta ≠ flvTagTypeAudio := by decide
  have hva : flvTagTypeVideo ≠ flvTagTypeAudio := by decide
  cases h with
  | @script name data htype hname =>
    have hknown : t.tag.Known := Or.inl htype
    have hkey : ¬ IsKeyframe content t := fun hk => hmv (htype.symm.trans hk.1)
    rw [infoTimestamp_of_known hknown hfixed]
    dsimp only
    rcases infoMetadataName_cases opts t.offset (flvTagGetBodyLength t.tag) name data
      { st.info with
        firstTimestamp := firstAfter st t
        biggestTagBodySize :=
          if st.info.biggestTagBodySize < flvTagGetBodyLength t.tag
          then flvTagGetBodyLength t.tag else st.info.biggestTagBodySize
        lastTimestamp := relative opts (firstAfter st t) t.fixed } with
      ⟨original, hzero, heq⟩ | ⟨hv, heq⟩
    · rw [heq]
      exact {
        known := hknown
        clocks := rfl
        haveFirst := rfl
        header := rfl
        first := rfl
        last := rfl
        biggest := le_biggest _ _
        video := by simp [htype, hmv]
        audio := by simp [htype, hma]
        script := Or.inl ⟨htype, hzero, rfl, rfl, rfl, rfl⟩
        indexed := fun hk => absurd hk hkey
        skipped := fun _ => ⟨rfl, rfl, rfl, rfl⟩ }
    · rw [heq]
      exact {
        known := hknown
        clocks := rfl
        haveFirst := rfl
        header := rfl
        first := rfl
        last := rfl
        biggest := le_biggest _ _
        video := by simp [htype, hmv]
        audio := by simp [htype, hma]
        script := Or.inr ⟨rfl, rfl, by simp [htype], rfl⟩
        indexed := fun hk => absurd hk hkey
        skipped := fun _ => ⟨rfl, rfl, rfl, rfl⟩ }
  | emptyVideo htype hzero =>
    have hknown : t.tag.Known := Or.inr (Or.inr htype)
    have hkey : ¬ IsKeyframe content t := fun hk => hk.2.1 hzero
    rw [infoTimestamp_of_known hknown hfixed]
    exact {
      known := hknown
      clocks := rfl
      haveFirst := rfl
      header := rfl
      first := rfl
      last := rfl
      biggest := le_biggest _ _
      video := by simp [htype, hzero, countVideo]
      audio := by simp [htype, hva, countVideo]
      script := Or.inr ⟨rfl, rfl, by simp [htype, hmv.symm, countVideo], rfl⟩
      indexed := fun hk => absurd hk hkey
      skipped := fun _ => ⟨rfl, rfl, rfl, rfl⟩ }
  | @video vt width height hv htype hne hbyte =>
    have hknown : t.tag.Known := Or.inr (Or.inr htype)
    rw [infoTimestamp_of_known hknown hfixed]
    dsimp only
    generalize hinfo : ({ st.info with
        firstTimestamp := firstAfter st t
        biggestTagBodySize :=
          if st.info.biggestTagBodySize < flvTagGetBodyLength t.tag
          then flvTagGetBodyLength t.tag else st.info.biggestTagBodySize
        lastTimestamp := relative opts (firstAfter st t) t.fixed } : FlvInfo N) = info
    have hindexes : Indexes opts (relative opts (firstAfter st t) t.fixed) info ↔
        Indexes opts (relative opts (firstAfter st t) t.fixed) st.info := by
      rw [← hinfo]
      rfl
    have hkey : IsKeyframe content t ↔ IsKeyframeByte vt.videoTag := by
      rw [hbyte]
      exact ⟨fun h => h.2.2, fun h => ⟨htype, hne, h⟩⟩
    obtain ⟨_, _, _, _, _, _, _, hframe⟩ := afterVideo_frame opts t.offset
      (flvTagGetBodyLength t.tag) (relative opts (firstAfter st t) t.fixed) vt width height info
    rw [hframe]
    rcases infoKeyframe_cases opts t.offset (relative opts (firstAfter st t) t.fixed) vt info with
      ⟨hbyteKey, hindex, _, hcase⟩ | ⟨hnot, _, hcase⟩
    · rw [hcase, ← hinfo]
      exact {
        known := hknown
        clocks := rfl
        haveFirst := rfl
        header := rfl
        first := rfl
        last := rfl
        biggest := le_biggest _ _
        video := by simp [htype]
        audio := by simp [htype, hva]
        script := Or.inr ⟨rfl, rfl, by simp [htype, hmv.symm], rfl⟩
        indexed := fun _ _ => ⟨rfl, rfl, rfl, rfl⟩
        skipped := fun h => absurd ⟨hkey.mpr hbyteKey, hindexes.mp hindex⟩ h }
    · rw [hcase, ← hinfo]
      exact {
        known := hknown
        clocks := rfl
        haveFirst := rfl
        header := rfl
        first := rfl
        last := rfl
        biggest := le_biggest _ _
        video := by simp [htype]
        audio := by simp [htype, hva]
        script := Or.inr ⟨rfl, rfl, by simp [htype, hmv.symm], rfl⟩
        indexed := fun hk hi => absurd ⟨hkey.mp hk, hindexes.mpr hi⟩ hnot
        skipped := fun _ => ⟨rfl, rfl, rfl, rfl⟩ }
  | emptyAudio htype hzero =>
    have hknown : t.tag.Known := Or.inr (Or.inl htype)
    have hkey : ¬ IsKeyframe content t := fun hk => hva.symm (htype.symm.trans hk.1)
    rw [infoTimestamp_of_known hknown hfixed]
    exact {
      known := hknown
      clocks := rfl
      haveFirst := rfl
      header := rfl
      first := rfl
      last := rfl
      biggest := le_biggest _ _
      video := by simp [htype, hva.symm, countAudio]
      audio := by simp [htype, hzero, countAudio]
      script := Or.inr ⟨rfl, rfl, by simp [htype, hma.symm, countAudio], rfl⟩
      indexed := fun hk => absurd hk hkey
      skipped := fun _ => ⟨rfl, rfl, rfl, rfl⟩ }
  | @audio audioTag htype hne =>
    have hknown : t.tag.Known := Or.inr (Or.inl htype)
    have hkey : ¬ IsKeyframe content t := fun hk => hva.symm (htype.symm.trans hk.1)
    rw [infoTimestamp_of_known hknown hfixed]
    dsimp only
    generalize hinfo : ({ st.info with
        firstTimestamp := firstAfter st t
        biggestTagBodySize :=
          if st.info.biggestTagBodySize < flvTagGetBodyLength t.tag
          then flvTagGetBodyLength t.tag else st.info.biggestTagBodySize
        lastTimestamp := relative opts (firstAfter st t) t.fixed } : FlvInfo N) = info
    obtain ⟨_, _, _, _, _, _, _, _, hframe⟩ := afterAudio_frame (flvTagGetBodyLength t.tag)
      (relative opts (firstAfter st t) t.fixed) audioTag info
    rw [hframe, ← hinfo]
    exact {
      known := hknown
      clocks := rfl
      haveFirst := rfl
      header := rfl
      first := rfl
      last := rfl
      biggest := le_biggest _ _
      video := by simp [htype, hva.symm]
      audio := by simp [htype]
      script := Or.inr ⟨rfl, rfl, by simp [htype, hma.symm], rfl⟩
      indexed := fun hk => absurd hk hkey
      skipped := fun _ => ⟨rfl, rfl, rfl, rfl⟩ }

end

end FlvMeta
