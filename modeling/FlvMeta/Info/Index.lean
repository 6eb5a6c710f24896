import Mathlib.Data.Rat.Cast.Order
import FlvMeta.Info.Visits

/-!
# The index of keyframes during the first pass

`KeyframeIndex` says what the state of the loop of `getFlvInfo` holds of the keyframes among the
tags seen so far. It holds before the first tag and every turn keeps it, whatever the file holds, so
it holds at the start of every turn and of the result (`keyframeIndex_invariant`). Then both lists
of the index have one entry for each indexed keyframe, and the positions increase with the offsets
of the tags.
-/

namespace FlvMeta

open Stdio

variable {N : Type}

/-! ## The keyframes that are indexed -/

/-- A video tag with a body. -/
def IsFrame (t : TimedTag) : Prop := t.tag.type = flvTagTypeVideo ∧ flvTagGetBodyLength t.tag ≠ 0

instance (t : TimedTag) : Decidable (IsFrame t) := inferInstanceAs (Decidable (_ ∧ _))

/-- A keyframe is indexed unless the one indexed before it has the same timestamp. -/
def indexVisit (opts : FlvmetaOpts N) (content : Bytes) (index : List Visit) (v : Visit) :
    List Visit :=
  if IsKeyframe content v.toTimedTag ∧
    ((∀ k ∈ index.getLast?, k.used ≠ v.used) ∨ opts.allKeyframes) then index ++ [v]
  else index

/-- The keyframes that are indexed among the tags that were read. -/
def indexVisits (opts : FlvmetaOpts N) (content : Bytes) (vs : List Visit) : List Visit :=
  vs.foldl (indexVisit opts content) []

/-- The keyframes that are seen. -/
def keyframesSeen (content : Bytes) (vs : List Visit) : List Visit :=
  vs.filter fun v => IsKeyframe content v.toTimedTag

/-- The frames that are seen. -/
def framesSeen (vs : List Visit) : List Visit := vs.filter fun v => IsFrame v.toTimedTag

section

variable {opts : FlvmetaOpts N} {content : Bytes} {vs : List Visit} {v : Visit}

theorem IsKeyframe.isFrame {t : TimedTag} (h : IsKeyframe content t) : IsFrame t := ⟨h.1, h.2.1⟩

theorem indexVisits_concat :
    indexVisits opts content (vs ++ [v]) = indexVisit opts content
      (indexVisits opts content vs) v := by
  simp [indexVisits]

theorem keyframesSeen_concat (h : IsKeyframe content v.toTimedTag) :
    keyframesSeen content (vs ++ [v]) = keyframesSeen content vs ++ [v] := by
  simp [keyframesSeen, h]

theorem keyframesSeen_concat_of_not (h : ¬ IsKeyframe content v.toTimedTag) :
    keyframesSeen content (vs ++ [v]) = keyframesSeen content vs := by
  simp [keyframesSeen, h]

theorem framesSeen_concat (h : IsFrame v.toTimedTag) :
    framesSeen (vs ++ [v]) = framesSeen vs ++ [v] := by
  simp [framesSeen, h]

theorem framesSeen_concat_of_not (h : ¬ IsFrame v.toTimedTag) :
    framesSeen (vs ++ [v]) = framesSeen vs := by
  simp [framesSeen, h]

theorem indexVisits_concat_of_not (h : ¬ IsKeyframe content v.toTimedTag) :
    indexVisits opts content (vs ++ [v]) = indexVisits opts content vs := by
  rw [indexVisits_concat, indexVisit, if_neg fun hkey => h hkey.1]

/-- The indexed keyframes are among the tags, in their order. -/
theorem indexVisits_sublist (opts : FlvmetaOpts N) (content : Bytes) (vs : List Visit) :
    (indexVisits opts content vs).Sublist vs := by
  induction vs using List.reverseRecOn with
  | nil => exact .slnil
  | append_singleton vs v ih =>
    rw [indexVisits_concat, indexVisit]
    split
    · exact ih.append (List.Sublist.refl [v])
    · exact ih.trans (List.sublist_append_left vs [v])

end

/-! ## The invariant -/

/-- The index of keyframes is the same. -/
structure SameIndex (info info' : FlvInfo N) : Prop where
  times : info'.times = info.times
  filepositions : info'.filepositions = info.filepositions
  haveKeyframes : info'.haveKeyframes = info.haveKeyframes
  lastKeyframe : info'.lastKeyframeTimestamp = info.lastKeyframeTimestamp
  canSeekToEnd : info'.canSeekToEnd = info.canSeekToEnd

theorem SameIndex.trans {info info' info'' : FlvInfo N} (h : SameIndex info info')
    (h' : SameIndex info' info'') : SameIndex info info'' where
  times := h'.times.trans h.times
  filepositions := h'.filepositions.trans h.filepositions
  haveKeyframes := h'.haveKeyframes.trans h.haveKeyframes
  lastKeyframe := h'.lastKeyframe.trans h.lastKeyframe
  canSeekToEnd := h'.canSeekToEnd.trans h.canSeekToEnd

variable [Number64 N]

/-- What the information holds of the keyframes among the tags that were read. -/
structure KeyframeIndex (opts : FlvmetaOpts N) (content : Bytes) (vs : List Visit)
    (info : FlvInfo N) : Prop where
  times : info.times = (indexVisits opts content vs).map fun v => seconds v.used
  filepositions : info.filepositions =
    (indexVisits opts content vs).map fun v => Number64.ofInt v.offset
  haveKeyframes : info.haveKeyframes = true ↔ indexVisits opts content vs ≠ []
  lastIndexed : ∀ v ∈ (indexVisits opts content vs).getLast?, info.lastKeyframeTimestamp = v.used
  lastKeyframe : ∀ v ∈ (keyframesSeen content vs).getLast?, info.lastKeyframeTimestamp = v.used
  canSeekToEnd : info.canSeekToEnd = true ↔
    ∃ v ∈ (framesSeen vs).getLast?, IsKeyframe content v.toTimedTag

section

variable {opts : FlvmetaOpts N} {content : Bytes} {vs : List Visit} {v : Visit}
  {info info' : FlvInfo N}

theorem keyframeIndex_init (opts : FlvmetaOpts N) (content : Bytes) (header : FlvHeader) :
    KeyframeIndex opts content [] (FlvInfo.init header) where
  times := rfl
  filepositions := rfl
  haveKeyframes := by simp [FlvInfo.init, indexVisits]
  lastIndexed := by simp [indexVisits]
  lastKeyframe := by simp [keyframesSeen]
  canSeekToEnd := by simp [FlvInfo.init, framesSeen]

theorem KeyframeIndex.congr (h : KeyframeIndex opts content vs info)
    (hsame : SameIndex info info') :
    KeyframeIndex opts content vs info' where
  times := hsame.times.trans h.times
  filepositions := hsame.filepositions.trans h.filepositions
  haveKeyframes := by rw [hsame.haveKeyframes, h.haveKeyframes]
  lastIndexed v hv := hsame.lastKeyframe.trans (h.lastIndexed v hv)
  lastKeyframe v hv := hsame.lastKeyframe.trans (h.lastKeyframe v hv)
  canSeekToEnd := by rw [hsame.canSeekToEnd, h.canSeekToEnd]

/-- A tag that is not a frame changes nothing. -/
theorem KeyframeIndex.skip (h : KeyframeIndex opts content vs info) (hv : ¬ IsFrame v.toTimedTag) :
    KeyframeIndex opts content (vs ++ [v]) info := by
  have hkey : ¬ IsKeyframe content v.toTimedTag := fun hkey => hv hkey.isFrame
  have hindex : indexVisits opts content (vs ++ [v]) = indexVisits opts content vs :=
    indexVisits_concat_of_not hkey
  exact {
    times := by rw [hindex, h.times]
    filepositions := by rw [hindex, h.filepositions]
    haveKeyframes := by rw [hindex, h.haveKeyframes]
    lastIndexed := by
      rw [hindex]
      exact h.lastIndexed
    lastKeyframe := by
      rw [keyframesSeen_concat_of_not hkey]
      exact h.lastKeyframe
    canSeekToEnd := by rw [framesSeen_concat_of_not hv, h.canSeekToEnd] }

/-- The loop compares a keyframe with the one that was indexed before it. -/
theorem KeyframeIndex.indexes_iff (h : KeyframeIndex opts content vs info) :
    (¬ info.haveKeyframes ∨ (info.haveKeyframes ∧ info.lastKeyframeTimestamp ≠ v.used) ∨
        opts.allKeyframes) ↔
      (∀ k ∈ (indexVisits opts content vs).getLast?, k.used ≠ v.used) ∨ opts.allKeyframes := by
  have hlast : (¬ info.haveKeyframes ∨ (info.haveKeyframes ∧ info.lastKeyframeTimestamp ≠ v.used)) ↔
      ∀ k ∈ (indexVisits opts content vs).getLast?, k.used ≠ v.used := by
    cases hindex : (indexVisits opts content vs).getLast? with
    | none =>
      have hnil := List.getLast?_eq_none_iff.mp hindex
      have hno : ¬ info.haveKeyframes := fun hhave => h.haveKeyframes.mp hhave hnil
      simp [hno]
    | some k =>
      have hne : indexVisits opts content vs ≠ [] := fun hnil => by simp [hnil] at hindex
      have hhave := h.haveKeyframes.mpr hne
      have hused := h.lastIndexed k hindex
      simp [hhave, hused]
  rw [← or_assoc, hlast]

/-- A video tag with a body, by its first byte. -/
theorem KeyframeIndex.frame (h : KeyframeIndex opts content vs info) {vt : FlvVideoTag}
    (hframe : IsFrame v.toTimedTag) (hbyte : vt.videoTag = content.getD (v.offset + 11) 0) :
    KeyframeIndex opts content (vs ++ [v]) (infoKeyframe opts v.offset v.used vt info) := by
  have hkey : IsKeyframe content v.toTimedTag ↔
      flvVideoTagFrameType vt = flvVideoTagFrameTypeKeyframe := by
    have hiff : IsKeyframeByte (content.getD (v.offset + 11) 0) ↔
        flvVideoTagFrameType vt = flvVideoTagFrameTypeKeyframe := by
      rw [← hbyte]
      exact Iff.rfl
    exact ⟨fun hk => hiff.mp hk.2.2, fun hk => ⟨hframe.1, hframe.2, hiff.mpr hk⟩⟩
  unfold infoKeyframe
  by_cases hk : IsKeyframe content v.toTimedTag
  · rw [if_pos (hkey.mp hk)]
    by_cases hnew : (∀ k ∈ (indexVisits opts content vs).getLast?, k.used ≠ v.used) ∨
        opts.allKeyframes
    · have hindex : indexVisits opts content (vs ++ [v]) = indexVisits opts content vs ++ [v] := by
        rw [indexVisits_concat, indexVisit, if_pos ⟨hk, hnew⟩]
      rw [if_pos (h.indexes_iff.mpr hnew)]
      exact {
        times := by simp [hindex, h.times]
        filepositions := by simp [hindex, h.filepositions]
        haveKeyframes := by simp [hindex]
        lastIndexed := by simp [hindex]
        lastKeyframe := by simp [keyframesSeen_concat hk]
        canSeekToEnd := by simp [framesSeen_concat hframe, hk] }
    · have hindex : indexVisits opts content (vs ++ [v]) = indexVisits opts content vs := by
        rw [indexVisits_concat, indexVisit, if_neg fun hboth => hnew hboth.2]
      -- the keyframe indexed before it has its timestamp
      have hused : info.lastKeyframeTimestamp = v.used := by
        by_contra hne
        refine hnew (h.indexes_iff.mp ?_)
        by_cases hhave : info.haveKeyframes
        · exact Or.inr (Or.inl ⟨hhave, hne⟩)
        · exact Or.inl hhave
      rw [if_neg fun hold => hnew (h.indexes_iff.mp hold)]
      exact {
        times := by rw [hindex, h.times]
        filepositions := by rw [hindex, h.filepositions]
        haveKeyframes := by rw [hindex, h.haveKeyframes]
        lastIndexed := by
          rw [hindex]
          exact h.lastIndexed
        lastKeyframe := by simp [keyframesSeen_concat hk, hused]
        canSeekToEnd := by simp [framesSeen_concat hframe, hk] }
  · have hindex : indexVisits opts content (vs ++ [v]) = indexVisits opts content vs :=
      indexVisits_concat_of_not hk
    rw [if_neg fun hbyteKey => hk (hkey.mpr hbyteKey)]
    exact {
      times := by rw [hindex, h.times]
      filepositions := by rw [hindex, h.filepositions]
      haveKeyframes := by rw [hindex, h.haveKeyframes]
      lastIndexed := by
        rw [hindex]
        exact h.lastIndexed
      lastKeyframe := by
        rw [keyframesSeen_concat_of_not hk]
        exact h.lastKeyframe
      canSeekToEnd := by simp [framesSeen_concat hframe, hk] }

end

/-! ## What a turn does to the index -/

omit [Number64 N] in
theorem sameIndex_infoTimestamp (opts : FlvmetaOpts N) (tag : FlvTag) (st : InfoState N) :
    SameIndex st.info (infoTimestamp opts tag st).2.info := by
  unfold infoTimestamp
  dsimp only
  constructor <;> split <;> split <;> rfl

omit [Number64 N] in
theorem sameIndex_infoMetadataName (opts : FlvmetaOpts N) (offset bodyLength : Nat)
    (name data : AmfData N) (info : FlvInfo N) :
    SameIndex info (infoMetadataName opts offset bodyLength name data info) := by
  rcases infoMetadataName_cases opts offset bodyLength name data info with ⟨_, -, h⟩ | ⟨_, h⟩
  · rw [h]
    exact ⟨rfl, rfl, rfl, rfl, rfl⟩
  · rw [h]
    exact ⟨rfl, rfl, rfl, rfl, rfl⟩

omit [Number64 N] in
theorem sameIndex_afterAudio (bodyLength timestamp : Nat) (audioTag : UInt8) (info : FlvInfo N) :
    SameIndex info (afterAudio bodyLength timestamp audioTag info) := by
  obtain ⟨_, _, _, _, _, _, _, _, h⟩ := afterAudio_frame bodyLength timestamp audioTag info
  rw [h]
  exact ⟨rfl, rfl, rfl, rfl, rfl⟩

omit [Number64 N] in
theorem sameIndex_infoFirstVideo (vt : FlvVideoTag) (timestamp width height : Nat)
    (info : FlvInfo N) :
    SameIndex info { infoFirstVideo vt timestamp info with
      videoWidth := width
      videoHeight := height } := by
  unfold infoFirstVideo
  split <;> exact ⟨rfl, rfl, rfl, rfl, rfl⟩

/-- Every turn keeps the index. -/
theorem infoInvariant_keyframeIndex (opts : FlvmetaOpts N) (content : Bytes) :
    InfoInvariant opts content fun vs st => KeyframeIndex opts content vs st.info where
  init := keyframeIndex_init opts content
  step := by
    intro seen q st st' houtcome hindex
    generalize htag : flvTagOfBytes (content.drop q) = tag at houtcome ⊢
    have hstamped := hindex.congr (sameIndex_infoTimestamp opts tag st)
    have hother : tag.type ≠ flvTagTypeVideo →
        ¬ IsFrame (infoVisit opts (tag, st, tagStream content q)).toTimedTag :=
      fun hne hframe => hne hframe.1
    cases houtcome with
    | emptyScript htype hzero =>
      dsimp only
      refine (hstamped.skip (hother ?_)).congr (sameIndex_infoMetadataName ..)
      rw [htype]
      decide
    | script htype =>
      dsimp only
      refine (hstamped.skip (hother ?_)).congr (sameIndex_infoMetadataName ..)
      rw [htype]
      decide
    | emptyVideo htype hzero =>
      have hempty : ¬ IsFrame (infoVisit opts (tag, st, tagStream content q)).toTimedTag :=
        fun hframe => hframe.2 hzero
      exact (hstamped.skip hempty).congr ⟨rfl, rfl, rfl, rfl, rfl⟩
    | @video vt stream' width height haveVideoSize htype hne hread =>
      have hframe : IsFrame (infoVisit opts (tag, st, tagStream content q)).toTimedTag :=
        ⟨htype, hne⟩
      have hsized := hstamped.congr (sameIndex_infoFirstVideo vt (infoTimestamp opts tag st).1
        width height (infoTimestamp opts tag st).2.info)
      exact (hsized.frame hframe (flvReadVideoTag_ok hread)).congr ⟨rfl, rfl, rfl, rfl, rfl⟩
    | emptyAudio htype hzero =>
      refine (hstamped.skip (hother ?_)).congr ⟨rfl, rfl, rfl, rfl, rfl⟩
      rw [htype]
      decide
    | audio htype =>
      refine (hstamped.skip (hother ?_)).congr (sameIndex_afterAudio ..)
      rw [htype]
      decide
    | unknown hunknown =>
      have hvideo : tag.type ≠ flvTagTypeVideo := fun htype => hunknown (Or.inr (Or.inr htype))
      exact (hstamped.skip (hother hvideo)).congr ⟨rfl, rfl, rfl, rfl, rfl⟩

/-! ## The invariant over exact numbers -/

/-- What the information holds of the keyframes among the tags that were read, and what follows for
the two lists. -/
structure IndexInvariant [NumberImage ℚ] (opts : FlvmetaOpts ℚ) (content : Bytes) (vs : List Visit)
    (info : FlvInfo ℚ) : Prop extends KeyframeIndex opts content vs info where
  lengths : info.times.length = info.filepositions.length
  increasing : info.filepositions.Pairwise (· < ·)
  nonempty : info.haveKeyframes = true ↔ info.times ≠ [] ∧ info.filepositions ≠ []

section

variable [NumberImage ℚ] {opts : FlvmetaOpts ℚ} {content : Bytes}

/-- The positions increase when the offsets of the tags do. -/
theorem KeyframeIndex.indexInvariant {vs : List Visit} {info : FlvInfo ℚ}
    (h : KeyframeIndex opts content vs info) (hvs : (vs.map fun v => v.offset).Pairwise (· < ·)) :
    IndexInvariant opts content vs info where
  toKeyframeIndex := h
  lengths := by rw [h.times, h.filepositions, List.length_map, List.length_map]
  increasing := by
    have hindex : (indexVisits opts content vs).Pairwise fun v w => v.offset < w.offset :=
      (List.pairwise_map.mp hvs).sublist (indexVisits_sublist opts content vs)
    rw [h.filepositions, List.pairwise_map]
    refine hindex.imp fun {v w} hlt => ?_
    have hcast : ((v.offset : Int) : ℚ) < ((w.offset : Int) : ℚ) := by exact_mod_cast hlt
    exact hcast
  nonempty := by
    rw [h.haveKeyframes, h.times, h.filepositions]
    simp

/-- The offsets of the tags before a turn increase. -/
theorem offsets_before {before after : List (FlvTag × InfoState ℚ × FlvStream)}
    (hsplit : infoTurns opts content = before ++ after) :
    ((before.map (infoVisit opts)).map fun v => v.offset).Pairwise (· < ·) := by
  have hoffsets := infoTurns_offsets opts content
  rw [hsplit, Loop.keys, List.map_append] at hoffsets
  rw [List.map_map]
  exact (List.pairwise_append.mp hoffsets).1

end

/-- On any file, the index holds what it should of the tags before each turn of the loop, and the
result holds it of all tags. -/
theorem keyframeIndex_invariant [NumberImage ℚ] (opts : FlvmetaOpts ℚ) (content : Bytes) :
    (∀ before turn after, infoTurns opts content = before ++ turn :: after →
      IndexInvariant opts content (before.map (infoVisit opts)) turn.2.1.info) ∧
    ∀ info stream, getFlvInfo opts (flvOpen content) = (.ok info, stream) →
      IndexInvariant opts content (infoVisits opts content) info := by
  have hinv := infoInvariant_keyframeIndex opts content
  constructor
  · intro before turn after hsplit
    exact (hinv.turns hsplit).indexInvariant (offsets_before hsplit)
  · intro info stream hinfo
    obtain ⟨st, rfl, hindex⟩ := hinv.result hinfo
    exact hindex.indexInvariant (offsets_before (List.append_nil _).symm)

/-- A file of two keyframes with the same timestamp and a frame that is none. -/
def repeatedKeyframe : Bytes :=
  [0x46, 0x4C, 0x56, 1, 1, 0, 0, 0, 9, 0, 0, 0, 0,
    9, 0, 0, 1, 0, 0, 0, 0, 0, 0, 0, 0x11, 0, 0, 0, 12,
    9, 0, 0, 1, 0, 0, 0, 0, 0, 0, 0, 0x11, 0, 0, 0, 12,
    9, 0, 0, 1, 0, 0, 40, 0, 0, 0, 0, 0x21, 0, 0, 0, 12]

/-- One of the keyframes is indexed, and it is when the second turn starts. -/
theorem keyframeIndex_repeated :
    letI := blankImage
    let opts : FlvmetaOpts ℚ := defaultOptions
    (∃ before turn after, infoTurns opts repeatedKeyframe = before ++ turn :: after ∧
      before.length = 1 ∧
      IndexInvariant opts repeatedKeyframe (before.map (infoVisit opts)) turn.2.1.info) ∧
    ∃ info stream, getFlvInfo opts (flvOpen repeatedKeyframe) = (.ok info, stream) ∧
      info.times.length = 1 ∧ info.canSeekToEnd = false ∧
      IndexInvariant opts repeatedKeyframe (infoVisits opts repeatedKeyframe) info := by
  let := blankImage
  let opts : FlvmetaOpts ℚ := defaultOptions
  have hlength : (infoTurns opts repeatedKeyframe).length = 3 := rfl
  obtain ⟨first, second, third, hturns⟩ := List.length_eq_three.mp hlength
  have hpass : infoTest opts repeatedKeyframe (fun info =>
      decide (info.times.length = 1 ∧ info.canSeekToEnd = false)) = true := by
    rfl
  obtain ⟨info, stream, hinfo, htest⟩ := of_infoTest hpass
  obtain ⟨htimes, hseek⟩ := of_decide_eq_true htest
  obtain ⟨hbefore, hresult⟩ := keyframeIndex_invariant opts repeatedKeyframe
  have hsplit : infoTurns opts repeatedKeyframe = [first] ++ second :: [third] := hturns
  exact ⟨⟨[first], second, [third], hsplit, rfl, hbefore _ _ _ hsplit⟩,
    info, stream, hinfo, htimes, hseek, hresult info stream hinfo⟩

end FlvMeta
