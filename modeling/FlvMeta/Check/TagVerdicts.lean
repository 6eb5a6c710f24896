import FlvMeta.Check.Judges
import FlvMeta.Flv.Body

/-!
# What is judged of a tag

The start of a check, and a turn of its loop: a turn on the tag at `p` prints an error unless the
tag is valid behind what is remembered of the tags before (`ValidAt`), and a turn that does not jump
to the end leaves the stream in front of the next tag. The scripts of the file are assumed to hold a
name and a value.
-/

namespace FlvMeta

open Endian Stdio

variable {N : Type}

/-! ## The start of the file -/

theorem judges_checkHeader (header : FlvHeader) :
    Judges (checkHeader header : CheckM N Unit) header.Valid fun _ => True := by
  refine (Judges.bindSame (.error ..) fun _ _ => .bindSame (c := flvHeaderHasAudio header ≠ 0 ∨
    flvHeaderHasVideo header ≠ 0) (Q := fun _ => True) ?_ fun _ _ => .bindSame (.error ..)
      fun _ _ => .error ..).congr ?_
  · refine (Judges.ite (fun _ => .printError ..) fun _ => .ite (fun _ => Quiet.printInfo ..)
      fun _ => Quiet.warning ..).congr ?_
    constructor
    · intro h
      by_contra hno
      exact h.1 ⟨Decidable.not_not.mp fun ha => hno (Or.inl ha),
        Decidable.not_not.mp fun hv => hno (Or.inr hv)⟩
    · intro h
      exact ⟨fun hboth => h.elim (absurd hboth.1) (absurd hboth.2),
        fun _ => ⟨fun _ => trivial, fun _ => trivial⟩⟩
  · simp only [not_not]
    exact ⟨fun ⟨h1, h2, h3, h4⟩ => ⟨h1, h2, h3, h4⟩, fun h => ⟨h.1, h.2, h.3, h.4⟩⟩

/-- Four bytes are the image of a size if it is read from them. -/
theorem swapUint32_ofLE_eq_iff {bs : Bytes} (h : bs.length = 4) {n : Nat} (hn : n < 2 ^ 32) :
    swapUint32 (ofLE bs) = n ↔ bs = toBE 4 n := by
  rw [swapUint32_ofLE h]
  constructor
  · rintro rfl
    rw [← h, toBE_ofBE]
  · rintro rfl
    exact ofBE_toBE hn

theorem judges_checkFirstPrevTagSize (filesize : Nat) (stream : FlvStream) :
    Judges (checkFirstPrevTagSize filesize stream : CheckM N FlvStream)
      ((flvReadPrevTagSize stream).1 = .ok 0 ∧
        flvGetOffset (flvReadPrevTagSize stream).2 ≠ filesize)
      fun stream' => ∃ size, flvReadPrevTagSize stream = (.ok size, stream') := by
  unfold checkFirstPrevTagSize
  generalize flvReadPrevTagSize stream = r
  obtain ⟨result, stream'⟩ := r
  cases result with
  | error status =>
    refine ((Judges.fatalEnd ..).weaken fun _ h => h.elim).congr ?_
    simp
  | ok size =>
    refine (Judges.bindSame (.error ..) fun _ _ =>
      .ite (fun _ => (Judges.fatalEnd ..).weaken fun _ h => h.elim) fun _ =>
        .pure ⟨size, rfl⟩).congr ?_
    simp

/-- In front of the tag behind `last`, or of the first one. -/
structure AtTags (content : Bytes) (last : Option (Nat × FlvTag)) (stream : FlvStream) : Prop where
  tracks : Tracks content last stream
  eof : stream.flvin.eof = false
  state : stream.state = .tag

theorem AtTags.offset {content : Bytes} {last : Option (Nat × FlvTag)} {stream : FlvStream}
    (h : AtTags content last stream) : flvGetOffset stream = nextOffset last := by
  have htrack := h.tracks.onTrack h.eof
  have hstate := h.state
  cases last with
  | none =>
    rcases htrack with ⟨hs, -⟩ | ⟨hs, -⟩ | ⟨-, hpos⟩
    · cases hstate.symm.trans hs
    · cases hstate.symm.trans hs
    · exact hpos
  | some last =>
    obtain ⟨p, tag⟩ := last
    rcases htrack with ⟨hs, -⟩ | ⟨hs, -⟩ | ⟨-, hpos⟩
    · cases hstate.symm.trans hs
    · cases hstate.symm.trans hs
    · exact hpos

/-- The first previous tag size, as far as it is there. -/
theorem flvReadPrevTagSize_header (content : Bytes) :
    if 13 ≤ content.length then
      ∃ stream', flvReadPrevTagSize
          { flvOpen content with flvin := ⟨content, 9, false⟩, state := .prevTagSize } =
        (.ok (swapUint32 (ofLE ((content.drop 9).take 4))), stream') ∧ AtTags content none stream'
    else
      ∃ status, (flvReadPrevTagSize
        { flvOpen content with flvin := ⟨content, 9, false⟩, state := .prevTagSize }).1 =
          .error status := by
  have htracks := (tracks_header content).flvReadPrevTagSize
  have hrest : InFile.rest ⟨content, 9, false⟩ = content.drop 9 := rfl
  have hskip : skipTagBody { flvOpen content with
      flvin := ⟨content, 9, false⟩, state := .prevTagSize } =
    { flvOpen content with flvin := ⟨content, 9, false⟩, state := .prevTagSize } := rfl
  split
  · have hread : flvReadPrevTagSize
        { flvOpen content with flvin := ⟨content, 9, false⟩, state := .prevTagSize } =
          (.ok (swapUint32 (ofLE ((content.drop 9).take 4))),
            { flvOpen content with
              flvin := InFile.advance 4 ⟨content, 9, false⟩, state := .tag }) := by
      rw [flvReadPrevTagSize, if_neg Bool.false_ne_true, hskip]
      dsimp only
      rw [if_pos rfl, InFile.freadItem_of_le (by rw [hrest, List.length_drop]; omega), hrest]
    rw [hread] at htracks ⊢
    exact ⟨_, rfl, htracks, rfl, rfl⟩
  · refine ⟨.errorEof, ?_⟩
    rw [flvReadPrevTagSize, if_neg Bool.false_ne_true, hskip]
    dsimp only
    rw [if_pos rfl, InFile.freadItem_of_lt (by rw [hrest, List.length_drop]; omega)]

/-- The bytes in front of the first tag. -/
structure ValidStart (content : Bytes) : Prop where
  length : 13 < content.length
  signature : (flvHeaderOfBytes content).signature = ⟨0x46, 0x4C, 0x56⟩
  header : (flvHeaderOfBytes content).Valid
  prevTagSize : (content.drop 9).take 4 = toBE 4 0

theorem judges_checkStart (content : Bytes) :
    Judges (checkStart content : CheckM N (FlvHeader × FlvStream)) (ValidStart content)
      fun r => AtTags content none r.2 ∧ 13 ≤ content.length := by
  unfold checkStart
  by_cases hle : 9 ≤ content.length
  · by_cases hsignature : (flvHeaderOfBytes content).signature = ⟨0x46, 0x4C, 0x56⟩
    · rw [flvReadHeader_of_signature hle hsignature]
      dsimp only
      have hfirst := flvReadPrevTagSize_header content
      have hjudged := judges_checkFirstPrevTagSize (N := N) content.length
        { flvOpen content with flvin := ⟨content, 9, false⟩, state := .prevTagSize }
      refine (Judges.bindSame (judges_checkHeader _) fun _ _ => .bind hjudged
        (e := fun _ => True) (d := True) (fun stream' hread => .pure ?_)
          fun _ _ _ => Iff.rfl).congr ?_
      · obtain ⟨size, hread⟩ := hread
        split at hfirst
        · rename_i hlength
          obtain ⟨stream₁, hread₁, htags⟩ := hfirst
          cases hread.symm.trans hread₁
          exact ⟨htags, hlength⟩
        · obtain ⟨status, herror⟩ := hfirst
          rw [hread] at herror
          cases herror
      · split at hfirst
        · rename_i hlength
          obtain ⟨stream₁, hread₁, htags⟩ := hfirst
          have hoffset := htags.offset
          have hfour : ((content.drop 9).take 4).length = 4 := by
            rw [List.length_take, List.length_drop]
            omega
          rw [hread₁]
          dsimp only
          rw [hoffset, Except.ok.injEq, swapUint32_ofLE_eq_iff hfour (by omega), nextOffset]
          constructor
          · rintro ⟨hheader, ⟨hsize, hne⟩, -⟩
            exact ⟨by omega, hsignature, hheader, hsize⟩
          · rintro ⟨hlt, -, hheader, hsize⟩
            exact ⟨hheader, ⟨hsize, by omega⟩, trivial⟩
        · rename_i hlength
          obtain ⟨status, herror⟩ := hfirst
          rw [herror]
          refine iff_of_false (fun h => ?_) fun h => hlength (Nat.le_of_lt h.length)
          cases h.2.1.1
    · have hread : (flvReadHeader (flvOpen content)).1 = .error .errorNoFlv := by
        have hfields := readHeaderFields_of_le (f := InFile.ofContent content) hle
        have hflvin : (flvOpen content).flvin = InFile.ofContent content := rfl
        rw [flvReadHeader, if_neg (by simp [flvOpen, InFile.ofContent]), hflvin, hfields]
        dsimp only
        exact congrArg Prod.fst (if_pos hsignature)
      generalize flvReadHeader (flvOpen content) = r at hread
      obtain ⟨result, stream⟩ := r
      dsimp only at hread
      rw [hread]
      refine (Judges.iteSame (fun _ => .fatalEnd ..) fun _ => .fatalEnd ..).weaken (Q :=
        fun _ => False) (fun _ h => h.elim) |>.congr ?_
      exact iff_of_false id fun h => hsignature h.signature
  · have hread : ∃ status, (flvReadHeader (flvOpen content)).1 = .error status := by
      cases hread : flvReadHeader (flvOpen content) with
      | mk result stream =>
        cases result with
        | error status => exact ⟨status, rfl⟩
        | ok header => exact absurd (flvReadHeader_ok (atStart_flvOpen content) hread).1 hle
    obtain ⟨status, hread⟩ := hread
    generalize flvReadHeader (flvOpen content) = r at hread
    obtain ⟨result, stream⟩ := r
    dsimp only at hread
    rw [hread]
    refine (Judges.iteSame (fun _ => .fatalEnd ..) fun _ => .fatalEnd ..).weaken (Q :=
      fun _ => False) (fun _ h => h.elim) |>.congr ?_
    exact iff_of_false id fun h => hle (by have := h.length; omega)

/-! ## The header of a tag -/

/-- What is remembered of the tags before. -/
def CheckLocals.before (st : CheckLocals N) : Before where
  number := st.tagNumber
  last := st.lastTimestamp
  audio := st.lastAudioTimestamp
  video := st.lastVideoTimestamp

/-- What decides about errors is as before. -/
structure CheckLocals.Remembers (st st' : CheckLocals N) : Prop where
  before : st'.before = st.before
  first : st'.found.onMetadata = st.found.onMetadata

theorem CheckLocals.Remembers.trans {st st' st'' : CheckLocals N} (h : st.Remembers st')
    (h' : st'.Remembers st'') : st.Remembers st'' :=
  ⟨h'.before.trans h.before, h'.first.trans h.first⟩

theorem judges_checkTagType (offset : Nat) (tag : FlvTag) (st : CheckLocals N) :
    Judges (checkTagType offset tag st) tag.Known st.Remembers := by
  refine (Judges.ite (fun _ => .bindSame (.printError ..) fun _ _ => .ite
    (fun _ => (Judges.fatalEnd ..).weaken fun _ h => h.elim) fun _ => .pure ⟨rfl, rfl⟩)
      fun _ => .pure ⟨rfl, rfl⟩).congr ?_
  exact ⟨fun h => by_contra fun hno => (h.1 hno).1, fun h =>
    ⟨fun hno => absurd h hno, fun _ => trivial⟩⟩

theorem judges_checkUnexpected (header : FlvHeader) (offset : Nat) (tag : FlvTag)
    (st : CheckLocals N) : Judges (checkUnexpected header offset tag st) True st.Remembers :=
  (Quiet.warning ..).followedBy ((Quiet.warning ..).followedBy (.pure ⟨rfl, rfl⟩))

/-- A body that is longer than the file is fatal. -/
theorem judges_checkBodyLength (content : Bytes) (p : Nat) (tag : FlvTag) :
    Judges (checkBodyLength content.length p (flvTagGetBodyLength tag) (tagStream content p) :
      CheckM N Unit) (Complete content p tag) fun _ => Complete content p tag := by
  have hlong : ((content.length : Int) - flvGetOffset (tagStream content p) <
      flvTagGetBodyLength tag) ↔ ¬ Complete content p tag := by
    have hoffset : flvGetOffset (tagStream content p) = p + 11 := rfl
    rw [hoffset, Complete]
    omega
  unfold checkBodyLength
  refine (Judges.ite (fun _ => (Judges.fatalEnd ..).weaken fun _ h => h.elim) fun hcomplete =>
    Judges.weaken (Q := fun _ => True) (Quiet.ite (.printWarning ..) (.warning ..))
      fun _ _ => ?_).congr ?_
  · exact by_contra fun hno => hcomplete (hlong.mpr hno)
  · rw [hlong]
    exact ⟨fun h => by_contra h.1, fun h => ⟨fun hno => hno h, fun _ => trivial⟩⟩

theorem judges_checkDecrease (code : CheckCode) (stream : String) (type : UInt8)
    (offset timestamp last : Nat) (tag : FlvTag) :
    Judges (checkDecrease code stream type offset timestamp last tag : CheckM N Unit)
      (tag.type = type → last ≤ timestamp) fun _ => True := by
  refine (Judges.error ..).congr ?_
  rw [not_and, Nat.not_lt]

theorem CheckLocals.found_timed (st : CheckLocals N) (audio video last : Nat) :
    ({ st with
      lastAudioTimestamp := audio
      lastVideoTimestamp := video
      lastTimestamp := last } : CheckLocals N).found = st.found := rfl

/-- The number of the tags before has been increased already. -/
theorem judges_checkTimestamp (offset : Nat) (tag : FlvTag) {before : Before} (st : CheckLocals N)
    (hbefore : st.before = { before with number := (before.number + 1) % 2 ^ 32 }) :
    Judges (checkTimestamp offset (flvTagGetTimestamp tag) tag st) (before.Allows tag)
      fun st' => st'.before = before.next tag ∧ st'.found.onMetadata = st.found.onMetadata := by
  have hnumber : st.tagNumber = (before.number + 1) % 2 ^ 32 := congrArg Before.number hbefore
  have hlast : st.lastTimestamp = before.last := congrArg Before.last hbefore
  have hlastAudio : st.lastAudioTimestamp = before.audio := congrArg Before.audio hbefore
  have hlastVideo : st.lastVideoTimestamp = before.video := congrArg Before.video hbefore
  unfold checkTimestamp
  refine (Judges.bindSame (.error ..) fun _ _ => .bindSame (judges_checkDecrease ..) fun _ _ =>
    .bindSame (judges_checkDecrease ..) fun _ _ => .bindSame (c := CloseTo st.lastTimestamp tag)
      (Q := fun _ => True) ?_ fun _ _ => .pure ?_).congr ?_
  · refine (Judges.ite (fun _ => .printError ..) fun _ => .error ..).congr ?_
    constructor
    · rintro ⟨hoverflow, hdecrease⟩
      refine ⟨?_, fun haudio hvideo => ?_⟩
      · by_contra hno
        exact hoverflow (by omega)
      · by_contra hno
        have hclose := hdecrease hoverflow
        rw [not_and, not_and] at hclose
        exact hclose haudio hvideo (by omega)
    · rintro ⟨hoverflow, hdecrease⟩
      refine ⟨fun h => by omega, fun _ h => ?_⟩
      have hclose := hdecrease h.1 h.2.1
      omega
  · refine ⟨?_, by rw [CheckLocals.found_timed]⟩
    rw [CheckLocals.before, Before.next, ← hnumber, ← hlastAudio, ← hlastVideo]
  · rw [hnumber, hlast, hlastAudio, hlastVideo]
    constructor
    · rintro ⟨hfirst, haudio, hvideo, hclose, -⟩
      exact ⟨fun hone => by_contra fun hne => hfirst ⟨hone, hne⟩, haudio, hvideo, hclose⟩
    · rintro ⟨hfirst, haudio, hvideo, hclose⟩
      exact ⟨fun h => h.2 (hfirst h.1), haudio, hvideo, hclose, trivial⟩

theorem judges_checkDesync (offset : Nat) (st : CheckLocals N) :
    Judges (checkDesync offset st) True st.Remembers :=
  (Quiet.warning ..).followedBy (.pure ⟨rfl, rfl⟩)

theorem judges_checkStreamId (offset : Nat) (tag : FlvTag) :
    Judges (checkStreamId offset tag : CheckM N Unit) (flvTagGetStreamId tag = 0)
      fun _ => True :=
  (Judges.error ..).congr not_not

/-! ## Audio and video bodies -/

section

variable {content : Bytes} {p : Nat} {tag : FlvTag}

theorem judges_checkAudioTag (htag : tag = flvTagOfBytes (content.drop p))
    (hcomplete : Complete content p tag) (hlen : flvTagGetBodyLength tag ≠ 0)
    (st : CheckLocals N) :
    Judges (checkAudioTag p st (tagStream content p)) True
      fun r => st.Remembers r.1 ∧ InTag content p tag r.2 := by
  obtain ⟨stream, hread, hin⟩ := flvReadAudioTag_complete htag hcomplete hlen
  rw [checkAudioTag, hread]
  have hformat : ∀ audioTag, Quiet (checkAudioFormat p audioTag : CheckM N Unit) := fun _ =>
    .ite (.printWarning ..) (.warning ..)
  have hconsistent : ∀ audioTag, Quiet (checkAudioConsistency p audioTag : CheckM N Unit) :=
    fun _ => .seq (.warning ..) (.ite (.printWarning ..) (.ite (.printWarning ..) (.warning ..)))
  exact (Quiet.warning ..).followedBy ((hformat _).followedBy ((hconsistent _).followedBy
    (.pure ⟨⟨rfl, rfl⟩, hin⟩)))

theorem getD_tagBody (content : Bytes) (p : Nat) (hlen : flvTagGetBodyLength tag ≠ 0) :
    (tagBody content p tag).getD 0 0 = content.getD (p + 11) 0 := by
  rw [tagBody, List.getD_eq_getElem?_getD, List.getD_eq_getElem?_getD, List.getElem?_take,
    if_pos (Nat.pos_of_ne_zero hlen), List.getElem?_drop, Nat.add_zero]

/-- The header in front of a body that holds it is the one that is read. -/
theorem videoTagOf_tagBody (hlen : flvTagGetBodyLength tag ≠ 0)
    (hfits : ExtHeaderFits content p tag) :
    videoTagOf (tagBody content p tag) = videoTagAt content p := by
  rw [videoTagOf, videoTagAt, getD_tagBody content p hlen]
  split
  · rename_i hbit
    have hlong := hfits hbit
    have hfourcc : ((tagBody content p tag).drop 1).take 4 = (content.drop (p + 12)).take 4 := by
      rw [tagBody, List.drop_take, List.drop_drop, List.take_take, Nat.min_eq_left (by omega)]
    rw [hfourcc]
  · rfl

theorem extHeaderFits_iff (hcomplete : Complete content p tag)
    (hlen : flvTagGetBodyLength tag ≠ 0) :
    ExtHeaderFits content p tag ↔
      (flvVideoTagIsExtHeader ⟨(tagBody content p tag).getD 0 0, 0⟩ = true →
        5 ≤ (tagBody content p tag).length) := by
  rw [ExtHeaderFits, getD_tagBody content p hlen, length_tagBody hcomplete]

/-- What is asked of a video body, said of the file. -/
theorem validVideo_tagBody_iff (hcomplete : Complete content p tag)
    (hlen : flvTagGetBodyLength tag ≠ 0) :
    ValidVideo (tagBody content p tag) ↔ ExtHeaderFits content p tag ∧
      flvVideoTagFrameType (videoTagAt content p) ∈ videoFrameTypes ∧
      flvVideoTagCodecId (videoTagAt content p) ∈ videoCodecs := by
  have hext := extHeaderFits_iff hcomplete hlen
  constructor
  · rintro ⟨hfits, hframe, hcodec⟩
    rw [videoTagOf_tagBody hlen (hext.mpr hfits)] at hframe hcodec
    exact ⟨hext.mpr hfits, hframe, hcodec⟩
  · rintro ⟨hfits, hframe, hcodec⟩
    rw [← videoTagOf_tagBody hlen hfits] at hframe hcodec
    exact ⟨hext.mp hfits, hframe, hcodec⟩

theorem judges_checkVideoTag (htag : tag = flvTagOfBytes (content.drop p))
    (hcomplete : Complete content p tag) (hlen : flvTagGetBodyLength tag ≠ 0)
    (st : CheckLocals N) :
    Judges (checkVideoTag p st (tagStream content p)) (ValidVideo (tagBody content p tag))
      fun r => st.Remembers r.1 ∧ InTag content p tag r.2 := by
  rw [checkVideoTag, validVideo_tagBody_iff hcomplete hlen]
  by_cases hext : ExtHeaderFits content p tag
  · obtain ⟨stream, hread, hin⟩ := flvReadVideoTag_complete htag hcomplete hlen hext
    rw [hread]
    have hframe : Judges (checkVideoFrameType p (videoTagAt content p) st)
        (flvVideoTagFrameType (videoTagAt content p) ∈ videoFrameTypes) fun _ => True :=
      (Judges.bindSame (.error ..) fun _ _ => Quiet.warning ..).congr
        ⟨fun h => not_not.mp h.1, fun h => ⟨not_not.mpr h, trivial⟩⟩
    have hcodec : Judges (checkVideoCodec p (videoTagAt content p) : CheckM N Unit)
        (flvVideoTagCodecId (videoTagAt content p) ∈ videoCodecs) fun _ => True :=
      (Judges.bindSame (.error ..) fun _ _ => Quiet.warning ..).congr
        ⟨fun h => not_not.mp h.1, fun h => ⟨not_not.mpr h, trivial⟩⟩
    refine ((Quiet.warning ..).followedBy (.bindSame hframe fun _ _ => .bindSame hcodec
      fun _ _ => .pure ⟨⟨rfl, rfl⟩, hin⟩)).congr ?_
    exact ⟨fun ⟨h1, h2, _⟩ => ⟨hext, h1, h2⟩, fun ⟨_, h1, h2⟩ => ⟨h1, h2, trivial⟩⟩
  · obtain ⟨stream, hread⟩ := flvReadVideoTag_short htag hcomplete hlen hext
    rw [hread]
    exact ((Judges.fatalEnd ..).weaken fun _ h => h.elim).congr
      (iff_of_false id fun h => hext h.1)

end

/-! ## Script bodies -/

section

variable [NumberImage N] {content : Bytes} {p : Nat} {tag : FlvTag} {st : CheckLocals N}

/-- What the tag at `p` leaves behind: its event is the first one unless there has been one. -/
structure CheckLocals.Records (content : Bytes) (p : Nat) (st st' : CheckLocals N) : Prop where
  before : st'.before = st.before
  first : st'.found.onMetadata = st.found.onMetadata.or
    (if EventNamed N content "onMetaData" p then some p else none)

/-- The first `onMetaData` event must have an associative array. -/
def FitsData (N : Type) [NumberImage N] (content : Bytes) (first : Option Nat) (p : Nat) : Prop :=
  first = none → EventNamed N content "onMetaData" p →
    amfDataGetType (keptData N content p) = AmfType.associativeArray.code

theorem CheckLocals.Remembers.records {st' : CheckLocals N} (h : st.Remembers st')
    (hno : ¬ EventNamed N content "onMetaData" p) : st.Records content p st' where
  before := h.before
  first := by rw [h.first, if_neg hno, Option.or_none]

omit [NumberImage N] in
theorem judges_checkOnLastSecond (offset timestamp : Nat) (st : CheckLocals N) :
    Judges (checkOnLastSecond offset timestamp st) True st.Remembers :=
  .iteSame (fun _ => .pure ⟨rfl, rfl⟩) fun _ =>
    (Quiet.printWarning ..).followedBy (.pure ⟨rfl, rfl⟩)

omit [NumberImage N] in
theorem CheckLocals.first_eq_none {st : CheckLocals N} :
    st.found.onMetadata = none ↔ ¬ st.haveOnMetadata = true := by
  unfold CheckLocals.found
  cases st.haveOnMetadata with
  | true => simp
  | false => simp

theorem judges_checkOnMetadata (timestamp : Nat) (name data : AmfData N) (st : CheckLocals N)
    (hevent : EventNamed N content "onMetaData" p)
    (hdata : amfDataClone data = keptData N content p) :
    Judges (checkOnMetadata p timestamp name data st) (FitsData N content st.found.onMetadata p)
      (st.Records content p) := by
  rw [checkOnMetadata, FitsData, hdata]
  by_cases hhave : st.haveOnMetadata = true
  · have hsome : st.found.onMetadata ≠ none := fun h => CheckLocals.first_eq_none.mp h hhave
    rw [if_neg (not_not.mpr hhave)]
    refine Judges.congr (c := True) ?_ (iff_of_true trivial fun h => absurd h hsome)
    refine (Quiet.printWarning ..).followedBy ?_
    refine .pure ⟨rfl, ?_⟩
    cases hfirst : st.found.onMetadata with
    | none => exact absurd hfirst hsome
    | some q => rfl
  · have hnone := CheckLocals.first_eq_none.mpr hhave
    rw [if_pos hhave]
    refine (Judges.bindSame (d := True) (.error ..) fun _ _ => ?_).congr ?_
    · refine (Quiet.warning ..).followedBy ?_
      refine (Quiet.warning ..).followedBy ?_
      refine .pure ⟨rfl, ?_⟩
      rw [hnone, if_pos hevent]
      simp [CheckLocals.found]
    · constructor
      · rintro ⟨hno, -⟩ - -
        exact not_not.mp hno
      · intro h
        exact ⟨not_not.mpr (h hnone hevent), trivial⟩

theorem judges_checkEvent (bodyLength timestamp : Nat) {name data : AmfData N} (st : CheckLocals N)
    (stream : FlvStream)
    (hevent : EventNamed N content "onMetaData" p ↔ nameIs name "onMetaData" = true)
    (hdata : amfDataClone data = keptData N content p) :
    Judges (checkEvent p bodyLength timestamp name data st stream)
      (FitsData N content st.found.onMetadata p) (st.Records content p) := by
  have hremaining : Quiet (checkRemaining bodyLength stream : CheckM N Unit) :=
    .ite (.printWarning ..) (.warning ..)
  refine (Quiet.warning ..).followedBy (hremaining.followedBy ?_)
  refine (Judges.bind (Q := st.Remembers)
    (.iteSame (fun _ => judges_checkOnLastSecond ..) fun _ => .pure ⟨rfl, rfl⟩)
    (e := fun st' => FitsData N content st'.found.onMetadata p) (fun st₁ h₁ => ?_)
    fun st₁ h₁ _ => by rw [h₁.first]).congr ⟨fun h => h.2, fun h => ⟨trivial, h⟩⟩
  refine (Judges.bindSame (d := True) (Q := st.Records content p) ?_ fun st₂ h₂ => ?_).congr
    ⟨fun h => h.1, fun h => ⟨h, trivial⟩⟩
  swap
  · exact (Quiet.onlyIf (.printInfo ..)).followedBy (.pure h₂)
  have htrans : ∀ st₂ : CheckLocals N, st₁.Records content p st₂ → st.Records content p st₂ :=
    fun st₂ h₂ => ⟨h₂.before.trans h₁.before, by rw [h₂.first, h₁.first]⟩
  by_cases hname : nameIs name "onMetaData" = true
  · rw [if_pos hname]
    exact (judges_checkOnMetadata _ _ _ _ (hevent.mpr hname) hdata).weaken htrans
  · have hno : ¬ EventNamed N content "onMetaData" p := fun h => hname (hevent.mp h)
    rw [if_neg hname]
    refine (Judges.pure (htrans _ (CheckLocals.Remembers.records ⟨rfl, rfl⟩ hno))).congr ?_
    exact iff_of_true trivial fun _ h => absurd h hno

/-- The contents of a script body are read, and the stream stays in the tag. -/
theorem flvReadMetadata_inTag (htag : tag = flvTagOfBytes (content.drop p))
    (hcomplete : Complete content p tag) (hbody : ScriptBody (tagBody content p tag)) :
    ∃ (name : AmfString) (data : AmfData N) (stream : FlvStream),
      (flvReadMetadata (tagStream content p) : MetadataResult N × FlvStream) =
        (⟨.ok, .string name, data⟩, stream) ∧ InTag content p tag stream := by
  obtain ⟨name, data, extra, hwf, hbytes⟩ := hbody
  have hname : WellFormed (.string name : AmfData UInt64) := trivial
  obtain ⟨stream, hread, hin⟩ := flvReadMetadata_images (N := N) htag hcomplete hname hwf hbytes
  exact ⟨name, data.mapNumbers reload, stream, hread, hin⟩

theorem judges_checkScriptTag (htag : tag = flvTagOfBytes (content.drop p))
    (hcomplete : Complete content p tag) (htype : tag.type = flvTagTypeMeta)
    (hlen : flvTagGetBodyLength tag ≠ 0) (hbody : ScriptBody (tagBody content p tag))
    (bodyLength timestamp : Nat) (st : CheckLocals N) :
    Judges (checkScriptTag p bodyLength timestamp st (tagStream content p))
      (FitsData N content st.found.onMetadata p)
      fun r => st.Records content p r.1 ∧ InTag content p tag r.2 := by
  obtain ⟨name, data, stream, hread, hin⟩ := flvReadMetadata_inTag (N := N) htag hcomplete hbody
  have hevent : EventNamed N content "onMetaData" p ↔
      nameIs (.string name : AmfData N) "onMetaData" = true := by
    unfold EventNamed
    rw [← htag, hread]
    exact ⟨fun h => h.2.2.name, fun h => ⟨Nat.pos_of_ne_zero hlen, htype, rfl, rfl, h⟩⟩
  have hdata : amfDataClone data = keptData N content p := by rw [keptData, hread]
  rw [checkScriptTag, hread]
  simp only [reduceCtorEq, if_false]
  have hstring : ¬ amfDataGetType (.string name : AmfData N) ≠ AmfType.string.code :=
    not_not.mpr rfl
  rw [if_neg hstring]
  exact (Judges.bindSame (judges_checkEvent _ _ st stream hevent hdata) fun st' h =>
    .pure ⟨h, hin⟩).congr ⟨fun h => h.1, fun h => ⟨h, trivial⟩⟩

/-! ## A turn -/

theorem judges_checkTagBody (htag : tag = flvTagOfBytes (content.drop p))
    (hcomplete : Complete content p tag)
    (hscript : tag.type = flvTagTypeMeta → flvTagGetBodyLength tag ≠ 0 →
      ScriptBody (tagBody content p tag)) (timestamp : Nat) (st : CheckLocals N) :
    Judges (checkTagBody p (flvTagGetBodyLength tag) timestamp tag st (tagStream content p))
      ((tag.type = flvTagTypeVideo → tagBody content p tag ≠ [] →
        ValidVideo (tagBody content p tag)) ∧ FitsData N content st.found.onMetadata p)
      fun r => st.Records content p r.1 ∧ InTag content p tag r.2 := by
  have hlength := length_tagBody hcomplete
  have hstart := inTag_tagStream htag
  have hother : (flvTagGetBodyLength tag = 0 ∨ tag.type ≠ flvTagTypeMeta) →
      ¬ EventNamed N content "onMetaData" p := by
    intro h hevent
    unfold EventNamed at hevent
    rw [← htag] at hevent
    exact h.elim (Nat.pos_iff_ne_zero.mp hevent.1) fun hne => hne hevent.2.1
  have hremembers : ∀ st' : CheckLocals N, st.Remembers st' →
      (flvTagGetBodyLength tag = 0 ∨ tag.type ≠ flvTagTypeMeta) → st.Records content p st' :=
    fun st' h hno => h.records (hother hno)
  have hfits : (flvTagGetBodyLength tag = 0 ∨ tag.type ≠ flvTagTypeMeta) →
      FitsData N content st.found.onMetadata p := fun hno _ hevent => absurd hevent (hother hno)
  unfold checkTagBody
  by_cases hlen : flvTagGetBodyLength tag = 0
  · have hnil : tagBody content p tag = [] := List.length_eq_zero_iff.mp (hlength.trans hlen)
    rw [if_neg (by omega)]
    refine (Judges.pure ⟨hremembers st ⟨rfl, rfl⟩ (Or.inl hlen), hstart⟩).congr ?_
    exact iff_of_true trivial ⟨fun _ hne => absurd hnil hne, hfits (Or.inl hlen)⟩
  have hne : tagBody content p tag ≠ [] := fun h => hlen (by rw [← hlength, h]; rfl)
  rw [if_pos (Nat.pos_of_ne_zero hlen)]
  by_cases haudio : tag.type = flvTagTypeAudio
  · have hmeta : tag.type ≠ flvTagTypeMeta := fun h => by cases haudio.symm.trans h
    have hvideo : tag.type ≠ flvTagTypeVideo := fun h => by cases haudio.symm.trans h
    rw [if_pos haudio]
    refine ((judges_checkAudioTag htag hcomplete hlen st).weaken fun r hr =>
      ⟨hremembers r.1 hr.1 (Or.inr hmeta), hr.2⟩).congr ?_
    exact iff_of_true trivial ⟨fun h => absurd h hvideo, hfits (Or.inr hmeta)⟩
  rw [if_neg haudio]
  by_cases hvideo : tag.type = flvTagTypeVideo
  · have hmeta : tag.type ≠ flvTagTypeMeta := fun h => by cases hvideo.symm.trans h
    rw [if_pos hvideo]
    refine ((judges_checkVideoTag htag hcomplete hlen st).weaken fun r hr =>
      ⟨hremembers r.1 hr.1 (Or.inr hmeta), hr.2⟩).congr ?_
    exact ⟨fun h => ⟨fun _ _ => h, hfits (Or.inr hmeta)⟩, fun h => h.1 hvideo hne⟩
  rw [if_neg hvideo]
  by_cases hmeta : tag.type = flvTagTypeMeta
  · rw [if_pos hmeta]
    refine (judges_checkScriptTag htag hcomplete hmeta hlen (hscript hmeta hlen) _ timestamp
      st).congr ?_
    exact ⟨fun h => ⟨fun hv => absurd hv hvideo, h⟩, fun h => h.2⟩
  · rw [if_neg hmeta]
    refine (Judges.pure ⟨hremembers st ⟨rfl, rfl⟩ (Or.inr hmeta), hstart⟩).congr ?_
    exact iff_of_true trivial ⟨fun h => absurd h hvideo, hfits (Or.inr hmeta)⟩

omit [NumberImage N] in
theorem eof_flvReadPrevTagSize {stream stream' : FlvStream} {size : Nat}
    (h : flvReadPrevTagSize stream = (.ok size, stream')) : stream'.flvin.eof = false := by
  unfold flvReadPrevTagSize at h
  split at h
  · cases h
  · rename_i heof
    have hskip : (skipTagBody stream).flvin.eof = false := by
      unfold skipTagBody
      split
      · rfl
      · simpa using heof
    dsimp only at h
    split at h
    · rcases Nat.lt_or_ge (skipTagBody stream).flvin.rest.length 4 with hlt | hle
      · rw [InFile.freadItem_of_lt hlt] at h
        cases h
      · rw [InFile.freadItem_of_le hle] at h
        cases h
        exact hskip
    · cases h

omit [NumberImage N] in
theorem judges_checkPrevTagSize {stream : FlvStream} (h : InTag content p tag stream) :
    Judges (checkPrevTagSize (flvTagGetBodyLength tag) stream : CheckM N FlvStream)
      (nextTag p tag ≤ content.length ∧
        storedTagSize content p tag = flvTagSize + flvTagGetBodyLength tag)
      fun stream' => AtTags content (some (p, tag)) stream' := by
  unfold checkPrevTagSize
  by_cases hsize : nextTag p tag ≤ content.length
  · obtain ⟨stream', hread, htracks, hstate⟩ := h.flvReadPrevTagSize hsize
    have heof := eof_flvReadPrevTagSize hread
    rw [hread]
    refine (Judges.bindSame (.error ..) fun _ _ => .pure ⟨htracks, heof, hstate⟩).congr ?_
    rw [and_true, not_not]
    exact (and_iff_right hsize).symm
  · cases hread : flvReadPrevTagSize stream with
    | mk result stream' =>
      cases result with
      | error status =>
        exact ((Judges.fatalEnd ..).weaken fun _ h => h.elim).congr
          (iff_of_false id fun h => hsize h.1)
      | ok size => exact absurd (h.tracks.nextTag_le hread) hsize

/-- The tag at `p` is valid behind what is remembered of the tags before. -/
structure ValidAt (N : Type) [NumberImage N] (content : Bytes) (before : Before)
    (first : Option Nat) (p : Nat) (tag : FlvTag) : Prop where
  valid : ValidTag tag (tagBody content p tag)
  allows : before.Allows tag
  data : FitsData N content first p
  length : nextTag p tag ≤ content.length
  prevTagSize : storedTagSize content p tag = flvTagSize + flvTagGetBodyLength tag

/-- What a turn on the tag at `p` leaves behind. -/
structure CheckLocals.Passes (content : Bytes) (p : Nat) (tag : FlvTag) (st st' : CheckLocals N) :
    Prop where
  before : st'.before = st.before.next tag
  first : st'.found.onMetadata = st.found.onMetadata.or
    (if EventNamed N content "onMetaData" p then some p else none)

theorem judges_checkTag (header : FlvHeader) (htag : tag = flvTagOfBytes (content.drop p))
    (hscript : Complete content p tag → tag.type = flvTagTypeMeta →
      flvTagGetBodyLength tag ≠ 0 → ScriptBody (tagBody content p tag)) (st : CheckLocals N) :
    Judges (checkTag header content.length tag st (tagStream content p))
      (ValidAt N content st.before st.found.onMetadata p tag)
      fun r => st.Passes content p tag r.1 ∧ AtTags content (some (p, tag)) r.2 := by
  have hbefore : ∀ st' : CheckLocals N,
      ({ st with tagNumber := (st.tagNumber + 1) % 2 ^ 32 } : CheckLocals N).Remembers st' →
      st'.before = { st.before with number := (st.before.number + 1) % 2 ^ 32 } :=
    fun st' h => h.before
  have hbody : Complete content p tag → ∀ st' : CheckLocals N,
      st'.found.onMetadata = st.found.onMetadata →
      Judges (checkTagBody p (flvTagGetBodyLength tag) (flvTagGetTimestamp tag) tag st'
          (tagStream content p))
        ((tag.type = flvTagTypeVideo → tagBody content p tag ≠ [] →
          ValidVideo (tagBody content p tag)) ∧ FitsData N content st.found.onMetadata p)
        fun r => st'.Records content p r.1 ∧ InTag content p tag r.2 := by
    intro hcomplete st' hfirst
    rw [← hfirst]
    exact judges_checkTagBody htag hcomplete (hscript hcomplete) _ st'
  have hoffset : flvGetCurrentTagOffset (tagStream content p) = p := rfl
  unfold checkTag
  rw [hoffset]
  dsimp only
  refine Judges.congr (Judges.bindSame (judges_checkTagType ..) fun st₁ h₁ =>
    .bindSame (judges_checkUnexpected header p tag st₁) fun st₂ h₂ =>
    .bindSame (judges_checkBodyLength content p tag) fun _ hcomplete =>
    .bindSame (judges_checkTimestamp p tag st₂ (hbefore _ (h₁.trans h₂))) fun st₃ h₃ =>
    .bindSame (judges_checkDesync p st₃) fun st₄ h₄ =>
    .bindSame (judges_checkStreamId p tag) fun _ _ =>
    .bindSame (hbody hcomplete st₄ (h₄.first.trans (h₃.2.trans (h₁.trans h₂).first)))
      fun r hr => .bindSame (judges_checkPrevTagSize hr.2) fun stream hstream => .pure ?_) ?_
  · have hfirst : st₄.found.onMetadata = st.found.onMetadata :=
      h₄.first.trans (h₃.2.trans (h₁.trans h₂).first)
    refine ⟨⟨hr.1.before.trans (h₄.before.trans h₃.1), ?_⟩, hstream⟩
    rw [hr.1.first, hfirst]
  · constructor
    · rintro ⟨hknown, -, -, hallows, -, hstreamId, ⟨hvideo, hdata⟩, ⟨hlength, hsize⟩, -⟩
      exact ⟨⟨hknown, hstreamId, hvideo⟩, hallows, hdata, hlength, hsize⟩
    · rintro ⟨⟨hknown, hstreamId, hvideo⟩, hallows, hdata, hlength, hsize⟩
      have hcomplete : Complete content p tag := by
        unfold nextTag at hlength
        unfold Complete
        omega
      exact ⟨hknown, trivial, hcomplete, hallows, trivial, hstreamId, ⟨hvideo, hdata⟩,
        ⟨hlength, hsize⟩, trivial⟩

end

end FlvMeta
