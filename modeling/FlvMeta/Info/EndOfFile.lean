import FlvMeta.Flv.VideoSearch
import FlvMeta.Info.Step

/-!
# Files that the first pass does not read to the end

On a plain file the first pass fails at a video tag or nowhere: where the body of an extended tag
does not hold the code of its codec, and where the search for the size of the video finds the end
of the body. The search is made in keyframes until one of them has given a size, with the codec of
the first video tag (`VideoSeen`), so `VideoReadable` is a condition on the file alone, and the
first pass reports the end of the file on the other files exactly (`getFlvInfo_eof_iff`).
-/

namespace FlvMeta

open Endian Stdio

variable {N : Type} {content : Bytes}

/-! ## The video tags of a file -/

/-- A tag, with its offset, that has a video body. -/
def IsVideo (x : Nat × FlvTag) : Prop :=
  x.2.type = flvTagTypeVideo ∧ flvTagGetBodyLength x.2 ≠ 0

instance (x : Nat × FlvTag) : Decidable (IsVideo x) := inferInstanceAs (Decidable (_ ∧ _))

def videosOf (xs : List (Nat × FlvTag)) : List (Nat × FlvTag) := xs.filter fun x => IsVideo x

/-- The codec of the first video tag. -/
def firstCodec (content : Bytes) : List (Nat × FlvTag) → Nat
  | [] => 0
  | x :: _ => flvVideoTagCodecId (videoTagAt content x.1)

def KeyframeBody (content : Bytes) (x : Nat × FlvTag) : Prop :=
  IsKeyframeByte (content.getD (x.1 + 11) 0)

instance (x : Nat × FlvTag) : Decidable (KeyframeBody content x) :=
  inferInstanceAs (Decidable (IsKeyframeByte _))

/-- The search in a video tag. -/
def searchAt (content : Bytes) (codec : Nat) (x : Nat × FlvTag) :
    Except FlvStatus (Option (Nat × Nat)) :=
  searchVideo codec (subUint32 (flvTagGetBodyLength x.2) sizeofFlvVideoTag)
    (videoLeft content x.1 x.2)

/-- The tag is a keyframe that gives a size. -/
def GivesSize (content : Bytes) (codec : Nat) (x : Nat × FlvTag) : Prop :=
  KeyframeBody content x ∧
    ∃ width height, 0 < width ∧ 0 < height ∧ searchAt content codec x = .ok (some (width, height))

/-- The body of a video tag holds what is read of it, behind the video tags `earlier`. -/
structure ReadableVideo (content : Bytes) (codec : Nat) (earlier : List (Nat × FlvTag))
    (x : Nat × FlvTag) : Prop where
  header : ExtHeaderFits content x.1 x.2
  search : KeyframeBody content x → (∀ y ∈ earlier, ¬ GivesSize content codec y) →
    ¬ SearchFails codec (flvTagGetBodyLength x.2) (videoLeft content x.1 x.2)

def VideoReadable (content : Bytes) : Prop :=
  ∀ earlier x later, videosOf (tagsFrom content 13) = earlier ++ x :: later →
    ReadableVideo content (firstCodec content (videosOf (tagsFrom content 13))) earlier x

/-! ## The state of the search -/

/-- The size is known if one of the video tags `seen` has given it, and then it is positive. -/
structure SizeSeen (content : Bytes) (codec : Nat) (seen : List (Nat × FlvTag))
    (st : InfoState N) : Prop where
  found : st.haveVideoSize = true ↔ ∃ y ∈ seen, GivesSize content codec y
  size : st.haveVideoSize = true ↔ 0 < st.info.videoWidth ∧ 0 < st.info.videoHeight

/-- What the first pass knows of the video after the video tags `seen`. -/
structure VideoSeen (content : Bytes) (codec : Nat) (seen : List (Nat × FlvTag))
    (st : InfoState N) : Prop extends SizeSeen content codec seen st where
  haveVideo : st.info.haveVideo = true ↔ seen ≠ []
  videoCodec : seen ≠ [] → st.info.videoCodec = codec

theorem videoSeen_init (codec : Nat) (header : FlvHeader) :
    VideoSeen content codec [] (InfoState.init header : InfoState N) where
  haveVideo := by simp [InfoState.init, FlvInfo.init]
  videoCodec h := absurd rfl h
  found := by simp [InfoState.init]
  size := by simp [InfoState.init, FlvInfo.init]

/-- What concerns the video is as before. -/
structure KeepsVideo (st st' : InfoState N) : Prop where
  haveVideo : st'.info.haveVideo = st.info.haveVideo
  videoCodec : st'.info.videoCodec = st.info.videoCodec
  width : st'.info.videoWidth = st.info.videoWidth
  height : st'.info.videoHeight = st.info.videoHeight
  found : st'.haveVideoSize = st.haveVideoSize

theorem KeepsVideo.trans {st st' st'' : InfoState N} (h : KeepsVideo st st')
    (h' : KeepsVideo st' st'') : KeepsVideo st st'' where
  haveVideo := h'.haveVideo.trans h.haveVideo
  videoCodec := h'.videoCodec.trans h.videoCodec
  width := h'.width.trans h.width
  height := h'.height.trans h.height
  found := h'.found.trans h.found

theorem VideoSeen.keeps {codec : Nat} {seen : List (Nat × FlvTag)} {st st' : InfoState N}
    (h : VideoSeen content codec seen st) (hkeeps : KeepsVideo st st') :
    VideoSeen content codec seen st' where
  haveVideo := by rw [hkeeps.haveVideo, h.haveVideo]
  videoCodec hne := hkeeps.videoCodec.trans (h.videoCodec hne)
  found := by rw [hkeeps.found, h.found]
  size := by rw [hkeeps.found, hkeeps.width, hkeeps.height, h.size]

theorem keepsVideo_infoTimestamp (opts : FlvmetaOpts N) (tag : FlvTag) (st : InfoState N) :
    KeepsVideo st (infoTimestamp opts tag st).2 := by
  unfold infoTimestamp
  dsimp only
  split
  · split
    · exact ⟨rfl, rfl, rfl, rfl, rfl⟩
    · exact ⟨rfl, rfl, rfl, rfl, rfl⟩
  · split
    · exact ⟨rfl, rfl, rfl, rfl, rfl⟩
    · exact ⟨rfl, rfl, rfl, rfl, rfl⟩

/-! ## A turn on a video tag -/

/-- The search in the tag `x`, behind the video tags `seen`, finds the end of the body. -/
def SearchEnds (content : Bytes) (codec : Nat) (seen : List (Nat × FlvTag)) (x : Nat × FlvTag) :
    Prop :=
  KeyframeBody content x ∧ (∀ y ∈ seen, ¬ GivesSize content codec y) ∧
    SearchFails codec (flvTagGetBodyLength x.2) (videoLeft content x.1 x.2)

section

variable {codec : Nat} {seen : List (Nat × FlvTag)} {x : Nat × FlvTag} {vt : FlvVideoTag}
  {st : InfoState N} {stream : FlvStream}

theorem videoTag_videoTagAt (content : Bytes) (p : Nat) :
    (videoTagAt content p).videoTag = content.getD (p + 11) 0 := by
  unfold videoTagAt
  dsimp only
  split <;> rfl

theorem length_videoLeft (hcomplete : Complete content x.1 x.2)
    (hlen : flvTagGetBodyLength x.2 ≠ 0) (hext : ExtHeaderFits content x.1 x.2) :
    (videoLeft content x.1 x.2).length + 1 = flvTagGetBodyLength x.2 ∨
      (videoLeft content x.1 x.2).length + 5 = flvTagGetBodyLength x.2 := by
  unfold videoLeft
  rw [List.length_drop, length_tagBody hcomplete]
  split
  · rename_i hbit
    have hfits := hext hbit
    omega
  · omega

theorem exists_concat_iff {α : Type} {P : α → Prop} {ys : List α} {z : α} :
    (∃ y ∈ ys ++ [z], P y) ↔ (∃ y ∈ ys, P y) ∨ P z := by
  simp only [List.mem_append, List.mem_singleton, or_and_right, exists_or, exists_eq_left]

/-- The end of the search, in the state behind the header of the tag. -/
theorem infoVideoSize_ends (hcomplete : Complete content x.1 x.2)
    (hin : InTag content x.1 x.2 stream) (hleft : bodyLeft stream = videoLeft content x.1 x.2)
    (hvt : vt.videoTag = content.getD (x.1 + 11) 0) (hlen : flvTagGetBodyLength x.2 ≠ 0)
    (hext : ExtHeaderFits content x.1 x.2) (hcodec : st.info.videoCodec = codec)
    (hseen : SizeSeen content codec seen st) :
    (SearchEnds content codec seen x ∧ ∃ stream',
      infoVideoSize (flvTagGetBodyLength x.2) vt st stream = (.error .errorEof, stream')) ∨
    (¬ SearchEnds content codec seen x ∧ ∃ st' stream',
      infoVideoSize (flvTagGetBodyLength x.2) vt st stream = (.ok st', stream') ∧
        st'.info.haveVideo = st.info.haveVideo ∧ st'.info.videoCodec = codec ∧
        SizeSeen content codec (seen ++ [x]) st') := by
  have hkey : flvVideoTagFrameType vt = flvVideoTagFrameTypeKeyframe ↔ KeyframeBody content x := by
    unfold KeyframeBody IsKeyframeByte
    rw [← hvt]
    rfl
  have hends := searchVideo_error_iff codec (length_videoLeft hcomplete hlen hext)
    (flvTagGetBodyLength_lt x.2)
  obtain ⟨left', hgives⟩ := returns_computeVideoSize hcomplete codec
    (subUint32 (flvTagGetBodyLength x.2) sizeofFlvVideoTag) (videoLeft content x.1 x.2)
  obtain ⟨stream', hrun, -, -⟩ := hgives stream hin hleft
  unfold infoVideoSize
  by_cases hsearch : ¬ st.haveVideoSize ∧ flvVideoTagFrameType vt = flvVideoTagFrameTypeKeyframe
  · have hnone : ∀ y ∈ seen, ¬ GivesSize content codec y := fun y hy hgive =>
      hsearch.1 (hseen.found.mpr ⟨y, hy, hgive⟩)
    have hx := hkey.mp hsearch.2
    rw [if_pos hsearch, hcodec, hrun]
    cases hresult : searchVideo codec (subUint32 (flvTagGetBodyLength x.2) sizeofFlvVideoTag)
        (videoLeft content x.1 x.2) with
    | error e =>
      cases searchVideo_error hresult
      exact Or.inl ⟨⟨hx, hnone, hends.mp hresult⟩, _, rfl⟩
    | ok size =>
      have hgive : GivesSize content codec x ↔
          ∃ width height, 0 < width ∧ 0 < height ∧ size = some (width, height) := by
        simp only [GivesSize, searchAt, hresult, hx, true_and, Except.ok.injEq]
      have hnew : (∃ y ∈ seen ++ [x], GivesSize content codec y) ↔ GivesSize content codec x := by
        rw [exists_concat_iff]
        exact or_iff_right fun ⟨y, hy, h⟩ => hnone y hy h
      refine Or.inr ⟨fun h => ?_, _, _, rfl, ?_⟩
      · cases hresult.symm.trans (hends.mpr h.2.2)
      cases size with
      | none =>
        have hsize := mt hseen.size.mpr hsearch.1
        refine ⟨rfl, hcodec, ?_, decide_eq_true_iff⟩
        rw [hnew, hgive, decide_eq_true_iff]
        refine ⟨fun h => absurd h hsize, ?_⟩
        rintro ⟨_, _, _, _, h⟩
        cases h
      | some size =>
        refine ⟨rfl, hcodec, ?_, decide_eq_true_iff⟩
        rw [hnew, hgive, decide_eq_true_iff]
        refine ⟨fun h => ⟨size.1, size.2, h.1, h.2, rfl⟩, ?_⟩
        rintro ⟨width, height, hwidth, hheight, h⟩
        cases h
        exact ⟨hwidth, hheight⟩
  · rw [if_neg hsearch]
    refine Or.inr ⟨fun h => hsearch ⟨fun hfound => ?_, hkey.mpr h.1⟩, _, _, rfl, rfl, hcodec, ?_,
      hseen.size⟩
    · obtain ⟨y, hy, hgive⟩ := hseen.found.mp hfound
      exact h.2.1 y hy hgive
    · rw [exists_concat_iff, ← hseen.found]
      exact ⟨Or.inl, fun h => Decidable.not_not.mp fun hfound =>
        hsearch ⟨hfound, hkey.mpr (h.resolve_left hfound).1⟩⟩

variable [Number64 N] {opts : FlvmetaOpts N}

theorem keepsVideo_keyframe (opts : FlvmetaOpts N) (offset bodyLength timestamp : Nat)
    (vt : FlvVideoTag) (st : InfoState N) :
    KeepsVideo st { st with
      info := countVideo bodyLength timestamp
        { (infoKeyframe opts offset timestamp vt st.info) with
          realVideoDataSize := (infoKeyframe opts offset timestamp vt st.info).realVideoDataSize +
            (bodyLength - 1) } } := by
  rcases infoKeyframe_cases opts offset timestamp vt st.info with ⟨-, -, _, h⟩ | ⟨-, _, h⟩
  · rw [h]
    exact ⟨rfl, rfl, rfl, rfl, rfl⟩
  · rw [h]
    exact ⟨rfl, rfl, rfl, rfl, rfl⟩

/-- A turn on a tag with a video body, behind the video tags `seen`. -/
theorem infoVideoTag_readable (opts : FlvmetaOpts N) (offset timestamp : Nat)
    (htag : x.2 = flvTagOfBytes (content.drop x.1)) (hcomplete : Complete content x.1 x.2)
    (hlen : flvTagGetBodyLength x.2 ≠ 0) (hseen : VideoSeen content codec seen st)
    (hcodec : seen = [] → codec = flvVideoTagCodecId (videoTagAt content x.1)) :
    (¬ ReadableVideo content codec seen x ∧ ∃ stream',
      infoVideoTag opts offset (flvTagGetBodyLength x.2) timestamp st (tagStream content x.1) =
        (.error .errorEof, stream')) ∨
    (ReadableVideo content codec seen x ∧ ∃ st' stream',
      infoVideoTag opts offset (flvTagGetBodyLength x.2) timestamp st (tagStream content x.1) =
        (.ok st', stream') ∧ VideoSeen content codec (seen ++ [x]) st') := by
  unfold infoVideoTag
  rw [if_neg hlen]
  by_cases hext : ExtHeaderFits content x.1 x.2
  · obtain ⟨stream, hread, hin⟩ := flvReadVideoTag_complete htag hcomplete hlen hext
    have hleft := flvReadVideoTag_left htag hcomplete hlen
    rw [hread] at hleft ⊢
    dsimp only at hleft ⊢
    have hfirst : (infoFirstVideo (videoTagAt content x.1) timestamp st.info).haveVideo = true ∧
        (infoFirstVideo (videoTagAt content x.1) timestamp st.info).videoCodec = codec := by
      unfold infoFirstVideo
      by_cases hhave : st.info.haveVideo = true
      · rw [if_pos hhave]
        exact ⟨hhave, hseen.videoCodec (hseen.haveVideo.mp hhave)⟩
      · rw [if_neg hhave]
        have hnil : seen = [] := Decidable.not_not.mp fun hne => hhave (hseen.haveVideo.mpr hne)
        exact ⟨rfl, (hcodec hnil).symm⟩
    have hsize : SizeSeen content codec seen
        { st with info := infoFirstVideo (videoTagAt content x.1) timestamp st.info } := by
      refine ⟨hseen.found, ?_⟩
      unfold infoFirstVideo
      split
      · exact hseen.size
      · exact hseen.size
    rcases infoVideoSize_ends hcomplete hin hleft (videoTag_videoTagAt content x.1) hlen hext
        hfirst.2 hsize with
      ⟨hends, stream', hrun⟩ | ⟨hends, st', stream', hrun, hhave, hcodec', hseen'⟩
    · rw [hrun]
      exact Or.inl ⟨fun h => h.search hends.1 hends.2.1 hends.2.2, _, rfl⟩
    · rw [hrun]
      have hnew : VideoSeen content codec (seen ++ [x]) st' :=
        ⟨hseen', by simp [hhave, hfirst.1], fun _ => hcodec'⟩
      exact Or.inr ⟨⟨hext, fun hkey hnone hfails => hends ⟨hkey, hnone, hfails⟩⟩, _, _, rfl,
        hnew.keeps (keepsVideo_keyframe ..)⟩
  · obtain ⟨stream, hread⟩ := flvReadVideoTag_short htag hcomplete hlen hext
    rw [hread]
    exact Or.inl ⟨fun h => hext h.header, _, rfl⟩

/-- The whole turn on such a tag. -/
theorem infoTag_readable (opts : FlvmetaOpts N) (htag : x.2 = flvTagOfBytes (content.drop x.1))
    (hcomplete : Complete content x.1 x.2) (hvideo : IsVideo x)
    (hseen : VideoSeen content codec seen st)
    (hcodec : seen = [] → codec = flvVideoTagCodecId (videoTagAt content x.1)) :
    (¬ ReadableVideo content codec seen x ∧ ∃ stream',
      infoTag opts x.2 st (tagStream content x.1) = (.error .errorEof, stream')) ∨
    (ReadableVideo content codec seen x ∧ ∃ st' stream',
      infoTag opts x.2 st (tagStream content x.1) = (.ok st', stream') ∧
        VideoSeen content codec (seen ++ [x]) st' ∧ Tracks content (some (x.1, x.2)) stream') := by
  have htracks := tracks_tagStream content x.1
  rw [← htag] at htracks
  have hturn : infoTag opts x.2 st (tagStream content x.1) =
      infoVideoTag opts x.1 (flvTagGetBodyLength x.2) (infoTimestamp opts x.2 st).1
        (infoTimestamp opts x.2 st).2 (tagStream content x.1) := by
    unfold infoTag
    dsimp only
    rw [if_neg (by rw [hvideo.1]; decide), if_pos hvideo.1]
    rfl
  have hkeep := Tracks.infoVideoTag htracks opts x.1 (flvTagGetBodyLength x.2)
    (infoTimestamp opts x.2 st).1 (infoTimestamp opts x.2 st).2
  rw [← hturn] at hkeep
  rcases infoVideoTag_readable opts x.1 (infoTimestamp opts x.2 st).1 htag hcomplete
    hvideo.2 (hseen.keeps (keepsVideo_infoTimestamp opts x.2 st)) hcodec with
    ⟨hunreadable, stream', hrun⟩ | ⟨hreadable, st', stream', hrun, hseen'⟩
  · exact Or.inl ⟨hunreadable, stream', hturn.trans hrun⟩
  · rw [hturn.trans hrun] at hkeep
    exact Or.inr ⟨hreadable, st', stream', hturn.trans hrun, hseen', hkeep⟩

/-! ## The other turns -/

omit [Number64 N] in
theorem keepsVideo_infoMetadataName (opts : FlvmetaOpts N) (offset bodyLength : Nat)
    (name data : AmfData N) (st : InfoState N) :
    KeepsVideo st { st with
      info := infoMetadataName opts offset bodyLength name data st.info } := by
  rcases infoMetadataName_cases opts offset bodyLength name data st.info with
    ⟨_, -, h⟩ | ⟨_, h⟩
  · rw [h]
    exact ⟨rfl, rfl, rfl, rfl, rfl⟩
  · rw [h]
    exact ⟨rfl, rfl, rfl, rfl, rfl⟩

omit [Number64 N] in
theorem keepsVideo_afterAudio (bodyLength timestamp : Nat) (audioTag : UInt8) (st : InfoState N) :
    KeepsVideo st { st with info := afterAudio bodyLength timestamp audioTag st.info } := by
  obtain ⟨_, _, _, _, _, _, _, _, h⟩ := afterAudio_frame bodyLength timestamp audioTag st.info
  rw [h]
  exact ⟨rfl, rfl, rfl, rfl, rfl⟩

/-- A turn on a tag without a video body. -/
theorem InfoStep.keepsVideo {t : TimedTag} {st' : InfoState N} (h : InfoStep opts content t st st')
    (hvideo : ¬ IsVideo (t.offset, t.tag)) : KeepsVideo st st' := by
  have hfirst := keepsVideo_infoTimestamp opts t.tag st
  cases h with
  | script htype hname => exact hfirst.trans (keepsVideo_infoMetadataName ..)
  | emptyVideo htype hzero => exact hfirst.trans ⟨rfl, rfl, rfl, rfl, rfl⟩
  | video htype hne hbyte => exact absurd ⟨htype, hne⟩ hvideo
  | emptyAudio htype hzero => exact hfirst.trans ⟨rfl, rfl, rfl, rfl, rfl⟩
  | audio htype hne => exact hfirst.trans (keepsVideo_afterAudio ..)

/-- Such a turn does not fail. -/
theorem infoTag_other (opts : FlvmetaOpts N) (st : InfoState N)
    (htag : x.2 = flvTagOfBytes (content.drop x.1))
    (hplain : PlainTag content x.1 x.2) (hvideo : ¬ IsVideo x) :
    ∃ st' stream', infoTag opts x.2 st (tagStream content x.1) = (.ok st', stream') := by
  unfold infoTag
  dsimp only
  split
  · rename_i hmeta
    unfold infoMetaTag
    split
    · exact ⟨_, _, rfl⟩
    · rename_i hne
      obtain ⟨name, data, stream₁, hread, -, -⟩ :=
        flvReadMetadata_scriptBody (N := N) htag hplain.complete (hplain.script hmeta hne)
      rw [hread]
      simp only [reduceCtorEq, if_false, false_and]
      exact ⟨_, _, rfl⟩
  · split
    · rename_i hnmeta htype
      unfold infoVideoTag
      have hzero : flvTagGetBodyLength x.2 = 0 := Decidable.not_not.mp fun hne =>
        hvideo ⟨htype, hne⟩
      rw [if_pos hzero]
      exact ⟨_, _, rfl⟩
    · split
      · unfold infoAudioTag
        split
        · exact ⟨_, _, rfl⟩
        · rename_i hne
          obtain ⟨stream₁, hread, -⟩ := flvReadAudioTag_complete htag hplain.complete hne
          rw [hread]
          exact ⟨_, _, rfl⟩
      · rename_i hnmeta hnvideo hnaudio
        rcases hplain.known with hk | hk | hk
        · exact absurd hk hnmeta
        · exact absurd hk hnaudio
        · exact absurd hk hnvideo

/-! ## The run -/

theorem videosOf_cons_of_video {xs : List (Nat × FlvTag)} (h : IsVideo x) :
    videosOf (x :: xs) = x :: videosOf xs := List.filter_cons_of_pos (decide_eq_true h)

theorem videosOf_cons_of_not {xs : List (Nat × FlvTag)} (h : ¬ IsVideo x) :
    videosOf (x :: xs) = videosOf xs := List.filter_cons_of_neg (by simpa using h)

/-- The loop from the tag behind `last` on, when the video tags `seen` lie before it. -/
theorem infoLoop_eof_iff {fuel : Nat} {last : Option (Nat × FlvTag)}
    {result : Except Status (InfoState N)} {stream' : FlvStream}
    (htracks : Tracks content last stream) (hseen : VideoSeen content codec seen st)
    (hcodec : codec = firstCodec content (seen ++ videosOf (tagsFrom content (nextOffset last))))
    (hplain : ∀ x ∈ tagsFrom content (nextOffset last), PlainTag content x.1 x.2)
    (h : infoLoop opts fuel st stream = some (result, stream')) :
    result = .error .errorEof ↔
      ¬ ∀ earlier x later,
        videosOf (tagsFrom content (nextOffset last)) = earlier ++ x :: later →
          ReadableVideo content codec (seen ++ earlier) x := by
  induction fuel generalizing last seen st stream with
  | zero => cases h
  | succ fuel ih =>
    rw [infoLoop] at h
    by_cases hle : nextOffset last + 11 ≤ content.length
    · rw [htracks.flvReadTag hle] at h
      rw [tagsFrom_of_le hle] at hplain hcodec ⊢
      generalize htag : flvTagOfBytes (content.drop (nextOffset last)) = tag at h hplain hcodec ⊢
      dsimp only at h
      by_cases hvideo : IsVideo (nextOffset last, tag)
      · rw [videosOf_cons_of_video hvideo] at hcodec ⊢
        rw [forall_split_cons, List.append_nil]
        rcases infoTag_readable opts htag.symm (hplain _ List.mem_cons_self).complete
          hvideo hseen (by
            rintro rfl
            exact hcodec) with
          ⟨hunreadable, stream₁, hturn⟩ | ⟨hreadable, st₁, stream₁, hturn, hseen₁, htracks'⟩
        · rw [hturn] at h
          cases h
          simp [hunreadable]
        · rw [hturn] at h
          rw [List.append_cons] at hcodec
          have hrest := ih htracks' hseen₁ hcodec
            (fun y hy => hplain y (List.mem_cons_of_mem _ hy)) h
          simp only [List.append_assoc, List.singleton_append] at hrest
          rw [hrest, and_iff_right hreadable]
          rfl
      · rw [videosOf_cons_of_not hvideo] at hcodec ⊢
        obtain ⟨st₁, stream₁, hturn⟩ := infoTag_other opts st
          (x := (nextOffset last, tag)) htag.symm (hplain _ List.mem_cons_self) hvideo
        obtain ⟨hstep, htracks'⟩ := infoTag_plain
          (t := ⟨nextOffset last, tag, (st.clocks.fix tag).1⟩) htag.symm
          (hplain _ List.mem_cons_self) hturn
        rw [hturn] at h
        exact ih htracks' (hseen.keeps (hstep.keepsVideo hvideo)) hcodec
          (fun y hy => hplain y (List.mem_cons_of_mem _ hy)) h
    · obtain ⟨stream₁, hread, -⟩ := flvReadTag_of_aimed_lt htracks.aimed (by omega)
      rw [hread] at h
      cases h
      rw [tagsFrom_of_lt (by omega)]
      simp [videosOf]

/-- The loop from the tag behind `last` on knows of all video tags, or has found the end. -/
theorem infoLoop_videoSeen {fuel : Nat} {last : Option (Nat × FlvTag)}
    {result : Except Status (InfoState N)} {stream' : FlvStream}
    (htracks : Tracks content last stream) (hseen : VideoSeen content codec seen st)
    (hcodec : codec = firstCodec content (seen ++ videosOf (tagsFrom content (nextOffset last))))
    (hplain : ∀ x ∈ tagsFrom content (nextOffset last), PlainTag content x.1 x.2)
    (h : infoLoop opts fuel st stream = some (result, stream')) :
    result = .error .errorEof ∨ ∃ st', result = .ok st' ∧
      VideoSeen content codec (seen ++ videosOf (tagsFrom content (nextOffset last))) st' := by
  induction fuel generalizing last seen st stream with
  | zero => cases h
  | succ fuel ih =>
    rw [infoLoop] at h
    by_cases hle : nextOffset last + 11 ≤ content.length
    · rw [htracks.flvReadTag hle] at h
      rw [tagsFrom_of_le hle] at hplain hcodec ⊢
      generalize htag : flvTagOfBytes (content.drop (nextOffset last)) = tag at h hplain hcodec ⊢
      dsimp only at h
      by_cases hvideo : IsVideo (nextOffset last, tag)
      · rw [videosOf_cons_of_video hvideo] at hcodec ⊢
        rcases infoTag_readable opts htag.symm (hplain _ List.mem_cons_self).complete
          hvideo hseen (by
            rintro rfl
            exact hcodec) with
          ⟨-, stream₁, hturn⟩ | ⟨-, st₁, stream₁, hturn, hseen₁, htracks'⟩
        · rw [hturn] at h
          cases h
          exact Or.inl rfl
        · rw [hturn] at h
          rw [List.append_cons] at hcodec ⊢
          exact ih htracks' hseen₁ hcodec (fun y hy => hplain y (List.mem_cons_of_mem _ hy)) h
      · rw [videosOf_cons_of_not hvideo] at hcodec ⊢
        obtain ⟨st₁, stream₁, hturn⟩ := infoTag_other opts st
          (x := (nextOffset last, tag)) htag.symm (hplain _ List.mem_cons_self) hvideo
        obtain ⟨hstep, htracks'⟩ := infoTag_plain
          (t := ⟨nextOffset last, tag, (st.clocks.fix tag).1⟩) htag.symm
          (hplain _ List.mem_cons_self) hturn
        rw [hturn] at h
        exact ih htracks' (hseen.keeps (hstep.keepsVideo hvideo)) hcodec
          (fun y hy => hplain y (List.mem_cons_of_mem _ hy)) h
    · obtain ⟨stream₁, hread, -⟩ := flvReadTag_of_aimed_lt htracks.aimed (by omega)
      rw [hread] at h
      cases h
      rw [tagsFrom_of_lt (by omega)]
      exact Or.inr ⟨st, rfl, by simpa [videosOf] using hseen⟩

/-- The first pass over a plain file knows whether there is a video tag and whether a keyframe gives
the size, or has found the end. -/
theorem getFlvInfo_videoSeen (opts : FlvmetaOpts N) (content : Bytes) (hle : 9 ≤ content.length)
    (hsignature : (flvHeaderOfBytes content).signature = ⟨0x46, 0x4C, 0x56⟩)
    (hplain : PlainFile content) :
    (getFlvInfo opts (flvOpen content)).1 = .error .errorEof ∧ ¬ VideoReadable content ∨
      ∃ info, (getFlvInfo opts (flvOpen content)).1 = .ok info ∧ VideoReadable content ∧
        (info.haveVideo = true ↔ videosOf (tagsFrom content 13) ≠ []) ∧
        (0 < info.videoWidth ∧ 0 < info.videoHeight ↔
          ∃ y ∈ videosOf (tagsFrom content 13),
            GivesSize content (firstCodec content (videosOf (tagsFrom content 13))) y) := by
  unfold getFlvInfo
  rw [flvReadHeader_of_signature hle hsignature]
  dsimp only
  split
  · rename_i status stream hloop
    have hsome := (Option.eq_some_iff_get_eq).mpr ⟨_, hloop⟩
    have hrun := infoLoop_eof_iff (tracks_header content) (videoSeen_init _ _) rfl hplain hsome
    rcases infoLoop_videoSeen (tracks_header content) (videoSeen_init _ _) rfl hplain hsome with
      heof | ⟨st', hst, -⟩
    · exact Or.inl ⟨congrArg Except.error (Except.error.inj heof), hrun.mp heof⟩
    · cases hst
  · rename_i st stream hloop
    have hsome := (Option.eq_some_iff_get_eq).mpr ⟨_, hloop⟩
    have hrun := infoLoop_eof_iff (tracks_header content) (videoSeen_init _ _) rfl hplain hsome
    rcases infoLoop_videoSeen (tracks_header content) (videoSeen_init _ _) rfl hplain hsome with
      heof | ⟨st', hst, hseen⟩
    · cases heof
    · cases hst
      refine Or.inr ⟨st.info, rfl, ?_, hseen.haveVideo, hseen.size.symm.trans hseen.found⟩
      by_contra hno
      cases hrun.mpr hno

/-- The first pass over a plain file finds its end unless the video is readable. -/
theorem getFlvInfo_eof_iff (opts : FlvmetaOpts N) (content : Bytes) (hle : 9 ≤ content.length)
    (hsignature : (flvHeaderOfBytes content).signature = ⟨0x46, 0x4C, 0x56⟩)
    (hplain : PlainFile content) :
    (getFlvInfo opts (flvOpen content)).1 ≠ .error .errorEof ↔ VideoReadable content := by
  unfold getFlvInfo
  rw [flvReadHeader_of_signature hle hsignature]
  dsimp only
  split
  · rename_i status stream hloop
    have hrun := infoLoop_eof_iff (tracks_header content) (videoSeen_init _ _) rfl hplain
      ((Option.eq_some_iff_get_eq).mpr ⟨_, hloop⟩)
    rw [Except.error.injEq] at hrun
    rw [Ne, Except.error.injEq]
    exact (not_congr hrun).trans not_not
  · rename_i st stream hloop
    have hrun := infoLoop_eof_iff (tracks_header content) (videoSeen_init _ _) rfl hplain
      ((Option.eq_some_iff_get_eq).mpr ⟨_, hloop⟩)
    simp only [reduceCtorEq, false_iff, not_not] at hrun
    simp only [ne_eq, reduceCtorEq, not_false_eq_true, true_iff]
    exact hrun

end

/-! ## Two files of one keyframe -/

/-- A test of the status of a first pass that fails. -/
def failsWith {α : Type} (result : Except Status α) (status : Status) : Bool :=
  match result with
  | .ok _ => false
  | .error status' => decide (status' = status)

theorem of_failsWith {α : Type} {result : Except Status α} {status : Status}
    (h : failsWith result status = true) : result = .error status := by
  cases result with
  | ok a => cases h
  | error status' => rw [of_decide_eq_true h]

/-- A file of one video tag. -/
def videoFile (body : Bytes) : Bytes :=
  [0x46, 0x4C, 0x56, 1, 1, 0, 0, 0, 9, 0, 0, 0, 0] ++
    [9, 0, 0, UInt8.ofNat body.length, 0, 0, 0, 0, 0, 0, 0] ++ body ++
    [0, 0, 0, UInt8.ofNat (11 + body.length)]

/-- A keyframe of Sorensen H.263 that ends before the size of its picture. -/
def shortKeyframe : Bytes := videoFile [0x12, 0, 0, 0x84, 0, 0, 0]

theorem tags_shortKeyframe : tagsFrom shortKeyframe 13 =
    [(13, ⟨9, ⟨0, 0, 7⟩, ⟨0, 0, 0⟩, 0, ⟨0, 0, 0⟩⟩)] := rfl

theorem plainFile_shortKeyframe : PlainFile shortKeyframe := by
  apply PlainFile.of_scripts
  · rw [tags_shortKeyframe]
    decide
  · rw [tags_shortKeyframe]
    exact List.forall_mem_nil _

/-- The length told to the search wraps, so the keyframe is not skipped. -/
theorem getFlvInfo_shortKeyframe :
    letI := blankImage
    ¬ ∀ (opts : FlvmetaOpts ℚ) (content : Bytes), 9 ≤ content.length →
      (flvHeaderOfBytes content).signature = ⟨0x46, 0x4C, 0x56⟩ → PlainFile content →
      (∀ x ∈ tagsFrom content 13, nextTag x.1 x.2 ≤ content.length) →
      (getFlvInfo opts (flvOpen content)).1 ≠ .error .errorEof := by
  let := blankImage
  intro h
  have hfails : failsWith (getFlvInfo (defaultOptions : FlvmetaOpts ℚ)
      (flvOpen shortKeyframe)).1 .errorEof = true := rfl
  refine h defaultOptions shortKeyframe (by decide) (by decide) plainFile_shortKeyframe ?_
    (of_failsWith hfails)
  rw [tags_shortKeyframe]
  decide

/-- A keyframe of screen video with its size, 64 by 32. -/
def screenKeyframe : Bytes := videoFile [0x13, 0, 64, 0, 32, 0, 0, 0, 0, 0, 0, 0, 0]

theorem tags_screenKeyframe : tagsFrom screenKeyframe 13 =
    [(13, ⟨9, ⟨0, 0, 13⟩, ⟨0, 0, 0⟩, 0, ⟨0, 0, 0⟩⟩)] := rfl

/-- This keyframe is readable. -/
theorem getFlvInfo_screenKeyframe :
    letI := blankImage
    VideoReadable screenKeyframe ∧
      (getFlvInfo (defaultOptions : FlvmetaOpts ℚ) (flvOpen screenKeyframe)).1 ≠
        .error .errorEof := by
  let := blankImage
  have hplain : PlainFile screenKeyframe := by
    apply PlainFile.of_scripts
    · rw [tags_screenKeyframe]
      decide
    · rw [tags_screenKeyframe]
      exact List.forall_mem_nil _
  have hreadable : VideoReadable screenKeyframe := by
    unfold VideoReadable
    rw [tags_screenKeyframe, videosOf_cons_of_video (by decide), forall_split_cons]
    exact ⟨⟨fun hbit => absurd hbit (by decide), fun _ _ => by decide⟩, by simp [videosOf]⟩
  exact ⟨hreadable, (getFlvInfo_eof_iff defaultOptions screenKeyframe (by decide) (by decide)
    hplain).mpr hreadable⟩

end FlvMeta
