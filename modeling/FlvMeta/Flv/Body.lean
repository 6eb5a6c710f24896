import FlvMeta.Amf.RoundTrip
import FlvMeta.Flv.Metadata
import FlvMeta.Flv.Position
import FlvMeta.Flv.Records

/-!
# Reading the bodies of complete tags

In a tag that the file holds in full, no read of the body finds the end of the file, so the stream
stays `InTag`: on its track and before the previous tag size. Each typed reader gives what the body
starts with, and wherever the body was left the previous tag size is read behind it
(`InTag.flvReadPrevTagSize`).
-/

namespace FlvMeta

open Endian Stdio

variable {N : Type}

/-- In the body of the tag at `p`, or right behind it. -/
structure InTag (content : Bytes) (p : Nat) (tag : FlvTag) (stream : FlvStream) : Prop where
  tracks : Tracks content (some (p, tag)) stream
  eof : stream.flvin.eof = false
  state : stream.state = .tagBody ∨ stream.state = .prevTagSize

variable {content : Bytes} {p : Nat} {tag : FlvTag} {stream : FlvStream}

theorem inTag_tagStream (htag : tag = flvTagOfBytes (content.drop p)) :
    InTag content p tag (tagStream content p) :=
  ⟨by rw [htag]; exact tracks_tagStream content p, rfl, Or.inl rfl⟩

/-- What is left of the body is in the file. -/
theorem InTag.length_rest (h : InTag content p tag stream) (hcomplete : Complete content p tag)
    (hbody : ¬ NoBody stream) : stream.currentTagBodyLength ≤ stream.flvin.rest.length := by
  obtain ⟨p', tag', heq, -, -, -, -, -, hle, hpos⟩ := h.tracks.body hbody
  cases heq
  rw [InFile.length_rest, h.tracks.content_eq]
  unfold Complete at hcomplete
  omega

theorem InTag.flvReadTagBody (h : InTag content p tag stream) (hcomplete : Complete content p tag)
    (n : Nat) : InTag content p tag (flvReadTagBody n stream).2 := by
  refine ⟨h.tracks.flvReadTagBody n, ?_, ?_⟩
  · unfold FlvMeta.flvReadTagBody
    split
    · exact h.eof
    · rename_i hbody
      have hle := h.length_rest hcomplete hbody
      have hfread := InFile.fread_of_le (n := min n stream.currentTagBodyLength)
        (f := stream.flvin) (by omega)
      rw [hfread]
      exact h.eof
  · unfold FlvMeta.flvReadTagBody
    split
    · exact h.state
    · dsimp only
      split
      · exact Or.inr rfl
      · exact Or.inl rfl

/-! ## The typed readers -/

/-- The first byte of the body is taken off. -/
theorem inTag_takeOff (htag : tag = flvTagOfBytes (content.drop p))
    (hlen : flvTagGetBodyLength tag ≠ 0) :
    InTag content p tag (takeOffBody 1 { tagStream content p with
      flvin := (tagStream content p).flvin.advance 1 }) := by
  have hstart := inTag_tagStream htag
  have hL : (tagStream content p).currentTagBodyLength = flvTagGetBodyLength tag := by
    rw [htag]
    rfl
  refine ⟨hstart.tracks.takeOff (not_noBody_tagStream content p) (by omega), ?_, ?_⟩
  · rw [takeOffBody_of_le rfl rfl (by dsimp only; omega)]
    rfl
  · rw [takeOffBody_of_le rfl rfl (by dsimp only; omega)]
    dsimp only
    split
    · exact Or.inr rfl
    · exact Or.inl rfl

theorem freadItem_tagStream (hcomplete : Complete content p tag)
    (hlen : flvTagGetBodyLength tag ≠ 0) :
    ∃ bs, (tagStream content p).flvin.freadItem 1 =
      (some bs, (tagStream content p).flvin.advance 1) ∧ bs.getD 0 0 = content.getD (p + 11) 0 := by
  have hrest : (tagStream content p).flvin.rest = content.drop (p + 11) := rfl
  have hle : 1 ≤ (tagStream content p).flvin.rest.length := by
    rw [hrest, List.length_drop]
    unfold Complete at hcomplete
    omega
  refine ⟨_, InFile.freadItem_of_le hle, ?_⟩
  rw [hrest]
  simp [List.getD_eq_getElem?_getD]

theorem flvReadAudioTag_complete (htag : tag = flvTagOfBytes (content.drop p))
    (hcomplete : Complete content p tag) (hlen : flvTagGetBodyLength tag ≠ 0) :
    ∃ stream, flvReadAudioTag (tagStream content p) = (.ok (content.getD (p + 11) 0), stream) ∧
      InTag content p tag stream := by
  obtain ⟨bs, hread, hbyte⟩ := freadItem_tagStream hcomplete hlen
  have hL : (tagStream content p).currentTagBodyLength ≠ 0 := by
    rw [htag] at hlen
    exact hlen
  refine ⟨_, ?_, inTag_takeOff htag hlen⟩
  rw [flvReadAudioTag, if_neg (not_noBody_tagStream content p), if_neg hL, hread]
  dsimp only
  rw [hbyte]

/-- The header of the video tag at `p`. -/
def videoTagAt (content : Bytes) (p : Nat) : FlvVideoTag :=
  let tag : FlvVideoTag := ⟨content.getD (p + 11) 0, 0⟩
  if flvVideoTagIsExtHeader tag then { tag with fourcc := ofLE ((content.drop (p + 12)).take 4) }
  else tag

/-- The body of an extended video tag holds the code of its codec. -/
def ExtHeaderFits (content : Bytes) (p : Nat) (tag : FlvTag) : Prop :=
  flvVideoTagIsExtHeader ⟨content.getD (p + 11) 0, 0⟩ = true → 5 ≤ flvTagGetBodyLength tag

theorem flvReadVideoTag_complete (htag : tag = flvTagOfBytes (content.drop p))
    (hcomplete : Complete content p tag) (hlen : flvTagGetBodyLength tag ≠ 0)
    (hext : ExtHeaderFits content p tag) :
    ∃ stream, flvReadVideoTag (tagStream content p) = (.ok (videoTagAt content p), stream) ∧
      InTag content p tag stream := by
  obtain ⟨bs, hread, hbyte⟩ := freadItem_tagStream hcomplete hlen
  have hL : (tagStream content p).currentTagBodyLength = flvTagGetBodyLength tag := by
    rw [htag]
    rfl
  have htaken := inTag_takeOff htag hlen
  rw [flvReadVideoTag, if_neg (not_noBody_tagStream content p), if_neg (by omega), hread]
  dsimp only
  rw [hbyte, videoTagAt]
  split
  · rename_i hbit
    have hlength := hext hbit
    have hfour : min 4 (flvTagGetBodyLength tag - 1) = 4 := by omega
    have hrest : ((tagStream content p).flvin.advance 1).rest = content.drop (p + 12) := rfl
    have hle : 4 ≤ ((tagStream content p).flvin.advance 1).rest.length := by
      rw [hrest, List.length_drop]
      unfold Complete at hcomplete
      omega
    have hbody : ¬ NoBody (takeOffBody 1 { tagStream content p with
        flvin := (tagStream content p).flvin.advance 1 }) := by
      rw [takeOffBody_of_le rfl rfl (by dsimp only; omega)]
      rintro (h | h)
      · cases h
      · dsimp only at h
        rw [if_neg (by omega)] at h
        exact h rfl
    have hfourcc := htaken.flvReadTagBody hcomplete 4
    have hbytes : (flvReadTagBody 4 (takeOffBody 1 { tagStream content p with
        flvin := (tagStream content p).flvin.advance 1 })).1 = (content.drop (p + 12)).take 4 := by
      rw [flvReadTagBody, if_neg hbody, takeOffBody_of_le rfl rfl (by dsimp only; omega)]
      dsimp only
      rw [hL, hfour, InFile.fread_of_le hle, hrest]
    have hlen4 : ((content.drop (p + 12)).take 4).length = 4 := by
      rw [hrest] at hle
      rw [List.length_take]
      omega
    refine ⟨_, ?_, hfourcc⟩
    unfold flvReadFourccCodec
    dsimp only
    rw [hbytes, if_neg (by rw [hlen4]; simp)]
  · exact ⟨_, rfl, htaken⟩

/-! ## The previous tag size -/

/-- The previous tag size stored behind the tag at `p`. -/
def storedTagSize (content : Bytes) (p : Nat) (tag : FlvTag) : Nat :=
  swapUint32 (ofLE ((content.drop (p + 11 + flvTagGetBodyLength tag)).take 4))

theorem InTag.skipTagBody (h : InTag content p tag stream) :
    (skipTagBody stream).state = .prevTagSize ∧
      (skipTagBody stream).flvin = ⟨content, p + 11 + flvTagGetBodyLength tag, false⟩ := by
  have hcontent := h.tracks.content_eq
  have htrack := h.tracks.onTrack h.eof
  have heof := h.eof
  unfold FlvMeta.skipTagBody
  rcases htrack with ⟨hs, ho, ht, -, -, -⟩ | ⟨hs, ho, ht, hpos⟩ | ⟨hs, -⟩
  · rw [if_pos hs, ho, ht, ← hcontent]
    exact ⟨rfl, rfl⟩
  · rw [if_neg (by rw [hs]; decide), ← hcontent, ← hpos, ← heof]
    exact ⟨hs, rfl⟩
  · rcases h.state with hb | hb
    · rw [hb] at hs
      cases hs
    · rw [hb] at hs
      cases hs

/-- Wherever the body was left, the previous tag size is read behind it. -/
theorem InTag.flvReadPrevTagSize (h : InTag content p tag stream)
    (hsize : nextTag p tag ≤ content.length) :
    ∃ stream', FlvMeta.flvReadPrevTagSize stream =
        (.ok (storedTagSize content p tag), stream') ∧
      Tracks content (some (p, tag)) stream' ∧ stream'.state = .tag := by
  have htracks := h.tracks.flvReadPrevTagSize
  obtain ⟨hstate, hflvin⟩ := h.skipTagBody
  have hrest : InFile.rest ⟨content, p + 11 + flvTagGetBodyLength tag, false⟩ =
      content.drop (p + 11 + flvTagGetBodyLength tag) := rfl
  have hle : 4 ≤ (InFile.rest ⟨content, p + 11 + flvTagGetBodyLength tag, false⟩).length := by
    rw [hrest, List.length_drop]
    unfold nextTag at hsize
    omega
  have hread : FlvMeta.flvReadPrevTagSize stream = (.ok (storedTagSize content p tag),
      { FlvMeta.skipTagBody stream with
        flvin := InFile.advance 4 ⟨content, p + 11 + flvTagGetBodyLength tag, false⟩
        state := .tag }) := by
    rw [FlvMeta.flvReadPrevTagSize, if_neg (by simp [h.eof])]
    dsimp only
    rw [if_pos hstate, hflvin, InFile.freadItem_of_le hle, hrest]
    rfl
  rw [hread] at htracks ⊢
  exact ⟨_, rfl, htracks, rfl⟩

/-- A previous tag size is read only inside of the file. -/
theorem Tracks.nextTag_le (h : Tracks content (some (p, tag)) stream) {size : ℕ}
    {stream' : FlvStream} (hread : FlvMeta.flvReadPrevTagSize stream = (.ok size, stream')) :
    nextTag p tag ≤ content.length := by
  unfold FlvMeta.flvReadPrevTagSize at hread
  split at hread
  · cases hread
  · rename_i heof
    obtain ⟨hskip, heof'⟩ := h.skipTagBody (by simpa using heof)
    generalize FlvMeta.skipTagBody stream = s at hskip heof' hread
    dsimp only at hread
    split at hread
    · rename_i hstate
      have hpos : s.flvin.pos + 4 = nextTag p tag := by
        have haimed := hskip.aimed.next heof'
        simpa [nextTagOffset, hstate, nextOffset] using haimed
      rcases Nat.lt_or_ge s.flvin.rest.length 4 with hlt | hle
      · rw [InFile.freadItem_of_lt hlt] at hread
        cases hread
      · rw [InFile.length_rest, hskip.content_eq] at hle
        omega
    · cases hread

/-! ## Script tags -/

/-- A body that starts with the images of two well-formed values: both are decoded, each from
exactly its bytes. -/
theorem amfDataFileRead_images [NumberImage N] (htag : tag = flvTagOfBytes (content.drop p))
    (hcomplete : Complete content p tag) {name data : AmfData UInt64} {extra : Bytes}
    (hname : WellFormed name) (hdata : WellFormed data)
    (hbytes : tagBody content p tag =
      amfDataImage name ++ (amfDataImage data ++ extra)) :
    amfDataSize name + amfDataSize data ≤ (tagStream content p).currentTagBodyLength ∧
      (decodedName content p : AmfData N × InFile) = (name.mapNumbers reload,
        (tagStream content p).flvin.advance (amfDataSize name)) ∧
      (decodedData content p : AmfData N × InFile) = (data.mapNumbers reload,
        ((tagStream content p).flvin.advance (amfDataSize name)).advance (amfDataSize data)) := by
  have hlength := length_tagBody hcomplete
  have hL : (tagStream content p).currentTagBodyLength = flvTagGetBodyLength tag := by
    rw [htag]
    rfl
  have hlen : ∀ d : AmfData UInt64, (amfDataImage d).length = amfDataSize d := fun d => by
    rw [amfDataImage_eq, length_amfBytes]
  rw [hbytes, List.length_append, List.length_append, hlen, hlen] at hlength
  have hrest : (tagStream content p).flvin.rest = amfDataImage name ++
      (amfDataImage data ++ (extra ++ (content.drop (p + 11)).drop (flvTagGetBodyLength tag))) := by
    rw [← List.append_assoc (amfDataImage data), ← List.append_assoc (amfDataImage _), ← hbytes,
      tagBody, List.take_append_drop]
    rfl
  have hread := amfDataFileRead_image (N := N) hname hrest
  have hrest' : ((tagStream content p).flvin.advance (amfDataSize name)).rest =
        amfDataImage data ++ (extra ++ (content.drop (p + 11)).drop (flvTagGetBodyLength tag)) := by
    rw [InFile.rest_advance, hrest, ← hlen, List.drop_left]
  refine ⟨by omega, hread, ?_⟩
  rw [decodedData, decodedName, hread]
  exact amfDataFileRead_image (N := N) hdata hrest'

/-- Such a script tag is aligned. -/
theorem aligned_images [NumberImage N] (htag : tag = flvTagOfBytes (content.drop p))
    (hcomplete : Complete content p tag) {name data : AmfData UInt64} {extra : Bytes}
    (hname : WellFormed name) (hdata : WellFormed data)
    (hbytes : tagBody content p tag =
      amfDataImage name ++ (amfDataImage data ++ extra)) : Aligned N content p := by
  obtain ⟨hle, hread, hread'⟩ :=
    amfDataFileRead_images (N := N) htag hcomplete hname hdata hbytes
  have hpos := hdata.size_pos
  have hL : (tagStream content p).currentTagBodyLength < 2 ^ 24 := flvTagGetBodyLength_lt _
  refine ⟨⟨fun _ => ?_, fun _ _ _ => ?_⟩, ?_, ?_⟩
  · rw [hread, amfDataSize_mapNumbers]
    rfl
  · rw [hread', hread, amfDataSize_mapNumbers]
    rfl
  · rintro ⟨-, hfills⟩
    rw [hread, amfDataSize_mapNumbers] at hfills
    omega
  · rintro ⟨-, -, -, hover⟩
    rw [hread, hread', amfDataSize_mapNumbers, amfDataSize_mapNumbers] at hover
    omega

/-- A body that starts with the images of two well-formed values is read. -/
theorem flvReadMetadata_images [NumberImage N] (htag : tag = flvTagOfBytes (content.drop p))
    (hcomplete : Complete content p tag) {name data : AmfData UInt64} {extra : Bytes}
    (hname : WellFormed name) (hdata : WellFormed data)
    (hbytes : tagBody content p tag =
      amfDataImage name ++ (amfDataImage data ++ extra)) :
    ∃ stream, (flvReadMetadata (tagStream content p) : MetadataResult N × FlvStream) =
        (⟨.ok, name.mapNumbers reload, data.mapNumbers reload⟩, stream) ∧
      InTag content p tag stream := by
  have htracks := (inTag_tagStream htag).tracks
  have hnobody := not_noBody_tagStream content p
  have hpos := hdata.size_pos
  have hpos' := hname.size_pos
  obtain ⟨hle, hread, hread'⟩ :=
    amfDataFileRead_images (N := N) htag hcomplete hname hdata hbytes
  rw [decodedData, hread] at hread'
  rw [decodedName] at hread
  have hcode : ∀ {d : AmfData UInt64}, WellFormed d →
      amfDataGetErrorCode (d.mapNumbers reload : AmfData N) = .ok := fun {d} hd => by
    rw [amfDataGetErrorCode_mapNumbers, hd.errorCode]
  have hstep := htracks.bodyStep hnobody
    (k := amfDataSize name + amfDataSize data) (by omega)
    (show (((tagStream content p).flvin.advance (amfDataSize name)).advance
      (amfDataSize data)).content = content from rfl)
    (by simp [Nat.add_assoc]) (fun heof => absurd (show false = true from heof) Bool.false_ne_true)
  refine ⟨_, ?_, hstep, rfl, ?_⟩
  · rw [flvReadMetadata, if_neg hnobody, if_neg (by omega)]
    dsimp only
    rw [hread]
    dsimp only
    rw [hcode hname, if_neg (by decide), if_neg (by simp), amfDataSize_mapNumbers,
      if_neg (by omega), hread']
    dsimp only
    rw [hcode hdata, if_neg (by decide), if_neg (by simp), amfDataSize_mapNumbers,
      takeOffBody_of_le rfl rfl (by dsimp only; omega)]
    dsimp only
    rw [Nat.sub_sub]
  · dsimp only
    split
    · exact Or.inr rfl
    · exact Or.inl rfl

end FlvMeta
