import FlvMeta.Flv.Names
import FlvMeta.Info.Visits

/-!
# The events that the first pass finds

On any file, what `getFlvInfo` has found of the two events is `eventsFound` of its comparison of
names and of the tags that it has read (`infoInvariant_found`). On a plain file its comparison
accepts the names that are alike (`found_plain`).
-/

namespace FlvMeta

open Stdio

variable {N : Type}

/-- What the first pass has found of the two events. -/
def FlvInfo.found (info : FlvInfo N) : EventsFound where
  onMetadata := if info.onMetadataSize = 0 then none else some info.onMetadataOffset
  onLastSecond := info.haveOnLastSecond

/-- The first pass compares the name of the tag at `p` with a literal, and they match. -/
def matched (N : Type) [NumberImage N] (content : Bytes) (literal : String) (p : Nat) : Bool :=
  let tag := flvTagOfBytes (content.drop p)
  let name := (flvReadMetadata (tagStream content p) : MetadataResult N × FlvStream).1.name
  decide (tag.type = flvTagTypeMeta ∧ 0 < flvTagGetBodyLength tag ∧
    amfDataGetType name = AmfType.string.code) && nameMatches name literal

theorem EventsFound.see_nothing (found : EventsFound) (p : Nat) {hasName : String → Bool}
    (h : ∀ literal, hasName literal = false) : found.see p hasName = found := by
  rw [EventsFound.see_other fun _ => h _, h, Bool.or_false]

/-! ## What a turn finds -/

theorem found_infoTimestamp (opts : FlvmetaOpts N) (tag : FlvTag) (st : InfoState N) :
    (infoTimestamp opts tag st).2.info.found = st.info.found := by
  unfold infoTimestamp
  dsimp only
  split <;> split <;> rfl

/-- The tag whose name has been read is seen under the names that match. -/
theorem found_infoMetadataName (opts : FlvmetaOpts N) (p bodyLength : Nat) (name data : AmfData N)
    (info : FlvInfo N) :
    (infoMetadataName opts p bodyLength name data info).found = info.found.see p fun literal =>
      decide (0 < bodyLength ∧ amfDataGetType name = AmfType.string.code) &&
        nameMatches name literal := by
  have hnone : info.found.onMetadata = none ↔ info.onMetadataSize = 0 := by
    simp [FlvInfo.found]
  unfold infoMetadataName
  by_cases hstring : 0 < bodyLength ∧ amfDataGetType name = AmfType.string.code
  · have hnames : (fun literal => decide (0 < bodyLength ∧ amfDataGetType name =
        AmfType.string.code) && nameMatches name literal) = nameMatches name := by
      simp [hstring]
    rw [if_pos hstring, hnames]
    by_cases hfirst : info.onMetadataSize = 0 ∧ nameMatches name "onMetaData" = true
    · rw [if_pos hfirst, EventsFound.see_first (hnone.mpr hfirst.1) hfirst.2]
      simp [FlvInfo.found]
    · have hno : info.found.onMetadata = none → nameMatches name "onMetaData" = false := fun h =>
        Bool.eq_false_iff.mpr fun hname => hfirst ⟨hnone.mp h, hname⟩
      rw [if_neg hfirst, EventsFound.see_other hno]
      cases nameMatches name "onLastSecond" with
      | true => simp [FlvInfo.found, countMeta]
      | false => simp [FlvInfo.found, countMeta]
  · rw [if_neg hstring, EventsFound.see_nothing]
    · rfl
    · simp [hstring]

variable [Number64 N]

theorem found_afterVideo (opts : FlvmetaOpts N) (offset bodyLength timestamp : Nat)
    (vt : FlvVideoTag) (width height : Nat) (info : FlvInfo N) :
    (afterVideo opts offset bodyLength timestamp vt width height info).found = info.found := by
  obtain ⟨_, _, _, _, _, _, _, hframe⟩ :=
    afterVideo_frame opts offset bodyLength timestamp vt width height info
  rw [hframe]
  rcases infoKeyframe_cases opts offset timestamp vt info with ⟨-, -, _, hkey⟩ | ⟨-, _, hkey⟩
  · rw [hkey]
    rfl
  · rw [hkey]
    rfl

omit [Number64 N] in
theorem found_afterAudio (bodyLength timestamp : Nat) (audioTag : UInt8) (info : FlvInfo N) :
    (afterAudio bodyLength timestamp audioTag info).found = info.found := by
  obtain ⟨_, _, _, _, _, _, _, _, hframe⟩ := afterAudio_frame bodyLength timestamp audioTag info
  rw [hframe]
  rfl

theorem matched_of_type {content : Bytes} {p : Nat}
    (h : (flvTagOfBytes (content.drop p)).type ≠ flvTagTypeMeta) (literal : String) :
    matched N content literal p = false := by
  simp [matched, h]

/-- A turn sees its tag under the names that match. -/
theorem InfoOutcome.found {opts : FlvmetaOpts N} {content : Bytes} {q : Nat} {st st' : InfoState N}
    (h : InfoOutcome opts (flvTagOfBytes (content.drop q)) st (tagStream content q) st') :
    st'.info.found = st.info.found.see q fun literal => matched N content literal q := by
  have hstamped := found_infoTimestamp opts (flvTagOfBytes (content.drop q)) st
  have hoffset : flvGetCurrentTagOffset (tagStream content q) = q := rfl
  have hother : (flvTagOfBytes (content.drop q)).type ≠ flvTagTypeMeta →
      (infoTimestamp opts (flvTagOfBytes (content.drop q)) st).2.info.found =
        st.info.found.see q fun literal => matched N content literal q := fun hne =>
    hstamped.trans (EventsFound.see_nothing _ q (matched_of_type hne)).symm
  cases h with
  | emptyScript htype hzero =>
    dsimp only
    rw [found_infoMetadataName, hstamped, hoffset]
    simp [matched, hzero]
  | @script result stream' htype hne hread =>
    dsimp only
    rw [found_infoMetadataName, hstamped, hoffset]
    simp [matched, htype, hread]
  | emptyVideo htype hzero => exact hother (by rw [htype]; decide)
  | video htype =>
    dsimp only
    rw [found_afterVideo]
    exact hother (by rw [htype]; decide)
  | emptyAudio htype hzero => exact hother (by rw [htype]; decide)
  | audio htype =>
    dsimp only
    rw [found_afterAudio]
    exact hother (by rw [htype]; decide)
  | unknown hunknown => exact hother fun htype => hunknown (Or.inl htype)

/-- What has been found is what there is among the tags seen so far. -/
theorem infoInvariant_found (opts : FlvmetaOpts N) (content : Bytes) :
    InfoInvariant opts content fun vs st =>
      st.info.found = eventsFound (matched N content) (vs.map fun v => v.offset) where
  init header := rfl
  step := by
    intro seen q st st' houtcome hfound
    rw [List.map_append, List.map_singleton, eventsFound_concat, ← hfound]
    exact houtcome.found

/-! ## Plain files -/

omit [Number64 N] in
theorem nameMatches_iff {name : AmfString} {literal : String} (h : NulFree (ascii literal)) :
    nameMatches (.string name : AmfData N) literal = true ↔
      name.bytes <+: ascii literal ∨ ascii literal ++ [0] <+: name.bytes :=
  strncmpEq_length_iff h

omit [Number64 N] in
/-- The name that is read is the one that is stored. -/
theorem scriptName_plain [NumberImage N] {content : Bytes} {p : Nat}
    (hplain : PlainTag content p (flvTagOfBytes (content.drop p))) :
    ((flvTagOfBytes (content.drop p)).type = flvTagTypeMeta ∧
      0 < flvTagGetBodyLength (flvTagOfBytes (content.drop p)) ∧
      ∃ (name : AmfString) (data : AmfData N) (stream : FlvStream),
        flvReadMetadata (tagStream content p) = (⟨.ok, .string name, data⟩, stream) ∧
        scriptName content p = some name.bytes) ∨
    (¬ ((flvTagOfBytes (content.drop p)).type = flvTagTypeMeta ∧
      0 < flvTagGetBodyLength (flvTagOfBytes (content.drop p))) ∧ scriptName content p = none) := by
  by_cases htype : (flvTagOfBytes (content.drop p)).type = flvTagTypeMeta
  · rw [scriptName, if_pos htype]
    by_cases hlen : flvTagGetBodyLength (flvTagOfBytes (content.drop p)) = 0
    · have hempty : tagBody content p (flvTagOfBytes (content.drop p)) = [] :=
        List.eq_nil_of_length_eq_zero ((length_tagBody hplain.complete).trans hlen)
      exact Or.inr ⟨fun h => absurd hlen (Nat.pos_iff_ne_zero.mp h.2), by rw [hempty]; rfl⟩
    · obtain ⟨name, data, extra, hwf, hbytes⟩ := hplain.script htype hlen
      have hname : WellFormed (.string name : AmfData UInt64) := trivial
      obtain ⟨stream, hread, -⟩ :=
        flvReadMetadata_images (N := N) rfl hplain.complete hname hwf hbytes
      exact Or.inl ⟨htype, Nat.pos_of_ne_zero hlen, name, _, stream, hread,
        by rw [hbytes, bodyName_image]⟩
  · exact Or.inr ⟨fun h => htype h.1, by rw [scriptName, if_neg htype]⟩

omit [Number64 N] in
/-- The first pass accepts the names that are alike. -/
theorem matched_plain [NumberImage N] {content : Bytes} {p : Nat}
    (hplain : PlainTag content p (flvTagOfBytes (content.drop p))) {literal : String}
    (h : NulFree (ascii literal)) : matched N content literal p = alike content literal p := by
  rcases scriptName_plain (N := N) hplain with
    ⟨htype, hlen, name, data, stream, hread, hname⟩ | ⟨hno, hname⟩
  · have hmatches : matched N content literal p =
        nameMatches (.string name : AmfData N) literal := by
      simp [matched, htype, hlen, hread, amfDataGetType]
    rw [hmatches, Bool.eq_iff_iff, nameMatches_iff h, alike_iff, hname]
    simp
  · have hnot : ¬ ((flvTagOfBytes (content.drop p)).type = flvTagTypeMeta ∧
        0 < flvTagGetBodyLength (flvTagOfBytes (content.drop p)) ∧
        amfDataGetType (flvReadMetadata (tagStream content p) :
          MetadataResult N × FlvStream).1.name = AmfType.string.code) := fun h =>
      hno ⟨h.1, h.2.1⟩
    simp only [matched, alike, hname, hnot, decide_false, Bool.false_and, Option.any_none]

theorem map_offset_infoVisits (opts : FlvmetaOpts N) (content : Bytes) :
    (infoVisits opts content).map (fun v => v.offset) = (readTags opts content).map Prod.fst := by
  rw [infoVisits, readTags, List.map_map, List.map_map]
  rfl

theorem eventsFound_congr {f g : String → Nat → Bool} {offsets : List Nat}
    (hmeta : ∀ p ∈ offsets, f "onMetaData" p = g "onMetaData" p)
    (hlast : ∀ p ∈ offsets, f "onLastSecond" p = g "onLastSecond" p) :
    eventsFound f offsets = eventsFound g offsets := by
  refine List.foldl_ext _ _ _ fun found p hp => ?_
  rw [EventsFound.see, EventsFound.see, hmeta p hp, hlast p hp]

theorem plainTag_of_mem {content : Bytes} (hplain : PlainFile content) {p : Nat}
    (hp : p ∈ tagOffsets content) : PlainTag content p (flvTagOfBytes (content.drop p)) := by
  obtain ⟨x, hx, rfl⟩ := List.mem_map.mp hp
  rw [← tag_of_mem_tagsFrom 13 x hx]
  exact hplain x hx

/-- On a plain file the first pass finds the events whose names are alike. -/
theorem found_plain {opts : FlvmetaOpts N} {content : Bytes} {info : FlvInfo N}
    {stream : FlvStream} (hplain : PlainFile content)
    (h : getFlvInfo opts (flvOpen content) = (.ok info, stream)) :
    info.found = eventsFound (alike content) (tagOffsets content) := by
  obtain ⟨st, rfl, hfound⟩ := (infoInvariant_found opts content).result h
  rw [hfound, map_offset_infoVisits, readTags_plain hplain h]
  refine eventsFound_congr (fun p hp => ?_) fun p hp => ?_
  · exact matched_plain (plainTag_of_mem hplain hp) (by simp [NulFree, ascii])
  · exact matched_plain (plainTag_of_mem hplain hp) (by simp [NulFree, ascii])

end FlvMeta
