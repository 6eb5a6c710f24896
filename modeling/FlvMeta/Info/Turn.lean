import FlvMeta.Flv.Body
import FlvMeta.Info.Read

/-!
# A turn of the first pass over any file

`InfoOutcome` says what a turn of the loop of `getFlvInfo` that does not fail makes of its state,
one constructor for each way through it: it is inverted once (`infoTag_outcome`), and the invariants
of the loop are derived from its cases.
-/

namespace FlvMeta

open Stdio

variable {N : Type}

/-! ## Parts of a turn -/

/-- The first byte of the body of a video tag that was read. -/
theorem flvReadVideoTag_ok {content : Bytes} {p : Nat} {vt : FlvVideoTag} {stream : FlvStream}
    (h : flvReadVideoTag (tagStream content p) = (.ok vt, stream)) :
    vt.videoTag = content.getD (p + 11) 0 := by
  rw [flvReadVideoTag, if_neg (not_noBody_tagStream content p)] at h
  split at h
  · cases h
  · by_cases hle : 1 ≤ (tagStream content p).flvin.rest.length
    · rw [InFile.freadItem_of_le hle] at h
      have hbyte : ((tagStream content p).flvin.rest.take 1).getD 0 0 =
          content.getD (p + 11) 0 := by
        rw [show (tagStream content p).flvin.rest = content.drop (p + 11) from rfl]
        simp [List.getD_eq_getElem?_getD]
      dsimp only at h
      rw [hbyte] at h
      split at h
      · unfold flvReadFourccCodec at h
        dsimp only at h
        split at h
        · cases h
        · cases h
          rfl
      · cases h
        rfl
    · rw [InFile.freadItem_of_lt (by omega)] at h
      cases h

theorem infoVideoSize_ok {bodyLength : Nat} {vt : FlvVideoTag} {st st' : InfoState N}
    {stream stream' : FlvStream}
    (h : infoVideoSize bodyLength vt st stream = (.ok st', stream')) :
    ∃ width height haveVideoSize, st' = { st with
      info := { st.info with videoWidth := width, videoHeight := height }
      haveVideoSize } := by
  unfold infoVideoSize at h
  split at h
  · generalize (computeVideoSize st.info.videoCodec
      (subUint32 bodyLength sizeofFlvVideoTag)).run.run stream = r at h
    obtain ⟨result, stream₁⟩ := r
    cases result with
    | error status => cases h
    | ok size =>
      cases h
      cases size with
      | none => exact ⟨_, _, _, rfl⟩
      | some size => exact ⟨size.1, size.2, _, rfl⟩
  · cases h
    exact ⟨_, _, _, rfl⟩

variable [Number64 N]

/-- The information after a video tag with a body. -/
def afterVideo (opts : FlvmetaOpts N) (offset bodyLength timestamp : Nat) (vt : FlvVideoTag)
    (width height : Nat) (info : FlvInfo N) : FlvInfo N :=
  let info := infoKeyframe opts offset timestamp vt
    { infoFirstVideo vt timestamp info with videoWidth := width, videoHeight := height }
  countVideo bodyLength timestamp
    { info with realVideoDataSize := info.realVideoDataSize + (bodyLength - 1) }

/-- The information after an audio tag with a body. -/
def afterAudio (bodyLength timestamp : Nat) (audioTag : UInt8) (info : FlvInfo N) : FlvInfo N :=
  let info := infoFirstAudio audioTag timestamp info
  countAudio bodyLength { info with
    audioFrameDuration :=
      if info.audioFrameDuration = 0 then subUint32 timestamp info.audioFirstTimestamp
      else info.audioFrameDuration
    realAudioDataSize := info.realAudioDataSize + (bodyLength - 1) }

/-! ## The outcome of a turn -/

/-- What a turn makes of its state, on a stream that has just delivered the tag. -/
inductive InfoOutcome (opts : FlvmetaOpts N) (tag : FlvTag) (st : InfoState N)
    (stream : FlvStream) : InfoState N → Prop
  | emptyScript : tag.type = flvTagTypeMeta → flvTagGetBodyLength tag = 0 →
    InfoOutcome opts tag st stream { (infoTimestamp opts tag st).2 with
      info := infoMetadataName opts (flvGetCurrentTagOffset stream) 0 .nullPtr .nullPtr
        (infoTimestamp opts tag st).2.info }
  | script {result : MetadataResult N} {stream' : FlvStream} : tag.type = flvTagTypeMeta →
    flvTagGetBodyLength tag ≠ 0 → flvReadMetadata stream = (result, stream') →
    result.status ≠ .errorEof →
    ¬ (result.status = .errorInvalidMetadata ∧ opts.errorHandling = .exitOnError) →
    InfoOutcome opts tag st stream { (infoTimestamp opts tag st).2 with
      info := infoMetadataName opts (flvGetCurrentTagOffset stream) (flvTagGetBodyLength tag)
        result.name result.data (infoTimestamp opts tag st).2.info }
  | emptyVideo : tag.type = flvTagTypeVideo → flvTagGetBodyLength tag = 0 →
    InfoOutcome opts tag st stream { (infoTimestamp opts tag st).2 with
      info := countVideo 0 (infoTimestamp opts tag st).1 (infoTimestamp opts tag st).2.info }
  | video {vt : FlvVideoTag} {stream' : FlvStream} {width height : Nat} {haveVideoSize : Bool} :
    tag.type = flvTagTypeVideo → flvTagGetBodyLength tag ≠ 0 →
    flvReadVideoTag stream = (.ok vt, stream') →
    InfoOutcome opts tag st stream { (infoTimestamp opts tag st).2 with
      info := afterVideo opts (flvGetCurrentTagOffset stream) (flvTagGetBodyLength tag)
        (infoTimestamp opts tag st).1 vt width height (infoTimestamp opts tag st).2.info
      haveVideoSize }
  | emptyAudio : tag.type = flvTagTypeAudio → flvTagGetBodyLength tag = 0 →
    InfoOutcome opts tag st stream { (infoTimestamp opts tag st).2 with
      info := countAudio 0 (infoTimestamp opts tag st).2.info }
  | audio {audioTag : UInt8} : tag.type = flvTagTypeAudio → flvTagGetBodyLength tag ≠ 0 →
    InfoOutcome opts tag st stream { (infoTimestamp opts tag st).2 with
      info := afterAudio (flvTagGetBodyLength tag) (infoTimestamp opts tag st).1 audioTag
        (infoTimestamp opts tag st).2.info }
  | unknown {totalPrevTagsSize : Nat} : ¬ tag.Known →
    InfoOutcome opts tag st stream { (infoTimestamp opts tag st).2 with
      info := { (infoTimestamp opts tag st).2.info with totalPrevTagsSize } }

section

variable {opts : FlvmetaOpts N} {tag : FlvTag} {st st' : InfoState N} {stream stream' : FlvStream}

theorem infoMetaTag_outcome (htype : tag.type = flvTagTypeMeta)
    (h : infoMetaTag opts (flvGetCurrentTagOffset stream) (flvTagGetBodyLength tag)
      (infoTimestamp opts tag st).2 stream = (.ok st', stream')) :
    InfoOutcome opts tag st stream st' := by
  unfold infoMetaTag at h
  split at h
  · rename_i hzero
    rw [hzero] at h
    cases h
    exact .emptyScript htype hzero
  · rename_i hne
    cases hread : (flvReadMetadata stream : MetadataResult N × FlvStream) with
    | mk result stream₁ =>
      rw [hread] at h
      dsimp only at h
      split at h
      · cases h
      · rename_i heof
        split at h
        · cases h
        · rename_i hinvalid
          cases h
          exact .script htype hne hread heof hinvalid

theorem infoVideoTag_outcome (htype : tag.type = flvTagTypeVideo)
    (h : infoVideoTag opts (flvGetCurrentTagOffset stream) (flvTagGetBodyLength tag)
      (infoTimestamp opts tag st).1 (infoTimestamp opts tag st).2 stream = (.ok st', stream')) :
    InfoOutcome opts tag st stream st' := by
  unfold infoVideoTag at h
  split at h
  · rename_i hzero
    rw [hzero] at h
    cases h
    exact .emptyVideo htype hzero
  · rename_i hne
    cases hread : flvReadVideoTag stream with
    | mk result stream₁ =>
      rw [hread] at h
      cases result with
      | error status => cases h
      | ok vt =>
        dsimp only at h
        cases hsize : infoVideoSize (flvTagGetBodyLength tag) vt
          { (infoTimestamp opts tag st).2 with
            info := infoFirstVideo vt (infoTimestamp opts tag st).1
              (infoTimestamp opts tag st).2.info } stream₁ with
        | mk result stream₂ =>
          rw [hsize] at h
          cases result with
          | error status => cases h
          | ok st₂ =>
            obtain ⟨width, height, hv, rfl⟩ := infoVideoSize_ok hsize
            cases h
            exact .video htype hne hread

theorem infoAudioTag_outcome (htype : tag.type = flvTagTypeAudio)
    (h : infoAudioTag (flvTagGetBodyLength tag) (infoTimestamp opts tag st).1
      (infoTimestamp opts tag st).2 stream = (.ok st', stream')) :
    InfoOutcome opts tag st stream st' := by
  unfold infoAudioTag at h
  split at h
  · rename_i hzero
    rw [hzero] at h
    cases h
    exact .emptyAudio htype hzero
  · rename_i hne
    cases hread : flvReadAudioTag stream with
    | mk result stream₁ =>
      rw [hread] at h
      cases result with
      | error status => cases h
      | ok audioTag =>
        cases h
        exact .audio htype hne

theorem infoUnknownTag_outcome (hknown : ¬ tag.Known)
    (h : infoUnknownTag opts (infoTimestamp opts tag st).2 = .ok st') :
    InfoOutcome opts tag st stream st' := by
  unfold infoUnknownTag at h
  split at h
  · cases h
    exact .unknown hknown
  · cases h
    exact .unknown hknown
  · cases h

/-- Every turn that does not fail has one of these outcomes. -/
theorem infoTag_outcome (h : infoTag opts tag st stream = (.ok st', stream')) :
    InfoOutcome opts tag st stream st' := by
  unfold infoTag at h
  dsimp only at h
  split at h
  · rename_i hmeta
    exact infoMetaTag_outcome hmeta h
  · rename_i hnmeta
    split at h
    · rename_i hvideo
      exact infoVideoTag_outcome hvideo h
    · rename_i hnvideo
      split at h
      · rename_i haudio
        exact infoAudioTag_outcome haudio h
      · rename_i hnaudio
        refine infoUnknownTag_outcome ?_ (congrArg Prod.fst h)
        rintro (hk | hk | hk)
        · exact hnmeta hk
        · exact hnaudio hk
        · exact hnvideo hk

end

end FlvMeta
