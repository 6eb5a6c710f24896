import FlvMeta.Info.EndOfFile
import FlvMeta.Info.Visits
import FlvMeta.Update.Sizes

/-!
# The index of keyframes

The first pass records where the keyframes are in the input. When the computed `onMetaData` tag
comes before all of them, every keyframe moves by the difference of the sizes of the new tag and
the old one, and by this difference the recorded offsets are shifted: they are the offsets of the
keyframes in the output (`keyframesIndex`), unless the size of the new tag exceeds a `uint32`.
-/

namespace FlvMeta

open Endian Stdio

variable {N : Type}

/-! ## Positions of copies -/

/-- A keyframe is found at a position, with a timestamp in milliseconds. -/
def KeyframeAt (bs : Bytes) (p : Nat) (timestamp : ℚ) : Prop :=
  ∃ (piece : Piece) (rest : Bytes), bs.drop p = piece.bytes ++ rest ∧ piece.Fits ∧
    piece.tag.type = flvTagTypeVideo ∧ (∃ b ∈ piece.body.head?, IsKeyframeByte b) ∧
    flvTagGetTimestamp piece.tag = timestamp

section

variable {opts : FlvmetaOpts N} {info : FlvInfo N} {content : Bytes}

/-- Copies take as many bytes as their tags. -/
theorem length_copies (opts : FlvmetaOpts N) {ts : List TimedTag}
    (h : ∀ t ∈ ts, CopiedWhole content info t) :
    ((ts.map (copyPiece opts info content)).flatMap Piece.bytes).length = span ts := by
  induction ts with
  | nil => rfl
  | cons t ts ih =>
    have hbytes : (copyPiece opts info content t).bytes.length =
        flvTagGetBodyLength t.tag + 15 := by
      rw [Piece.length_bytes, copyPiece, (h t List.mem_cons_self).length]
    rw [List.map_cons, List.flatMap_cons, List.length_append, hbytes,
      ih fun t ht => h t (List.mem_cons_of_mem _ ht), span, span, List.map_cons, List.sum_cons]

/-- A selected tag at the first offset is the first one. -/
theorem eq_nil_of_replaced {xs ys : List TimedTag} {t : TimedTag}
    (hsplit : timedTags content = xs ++ t :: ys) (ht : t.Replaced info)
    (hfirst : info.onMetadataOffset = 13) : xs = [] := by
  have hoffset : t.offset = 13 + span xs := offset_timeline 13 hsplit
  have hselected : info.onMetadataOffset = t.offset := ht
  cases xs with
  | nil => rfl
  | cons x xs =>
    rw [span, List.map_cons, List.sum_cons] at hoffset
    omega

/-- The copy of an indexed keyframe is a keyframe with the indexed timestamp. -/
theorem keyframeAt_of_copy {bs rest : Bytes} {p : Nat} {t : TimedTag}
    (ht : t ∈ timedTags content) (hwhole : CopiedWhole content info t)
    (hkey : IsKeyframe content t)
    (h : bs.drop p = (copyPiece opts info content t).bytes ++ rest) :
    KeyframeAt bs p (t.time opts info) := by
  obtain ⟨htype, hlength, hbyte⟩ := hkey
  refine ⟨_, rest, h, hwhole.length, htype, ⟨_, ?_, hbyte⟩, ?_⟩
  · have hbody : (copyPiece opts info content t).body = tagBody content t.offset t.tag :=
      hwhole.body
    have hlt : t.offset + 11 < content.length := by
      have hlen := hwhole.length
      rw [hwhole.body, tagBody, List.length_take, List.length_drop] at hlen
      omega
    rw [hbody, tagBody, List.head?_take, if_neg hlength, List.head?_drop]
    simp [List.getD_eq_getElem?_getD, hlt]
  · have htime := flvTagGetTimestamp_set t.tag
      (relative_lt opts info.firstTimestamp (fixed_lt_of_mem_timeline ht))
    exact congrArg Nat.cast htime

/-- Where a piece is found in the output. -/
theorem drop_pieces (head : Bytes) (before : List Piece) (piece : Piece) (after : List Piece) :
    (head ++ (before ++ piece :: after).flatMap Piece.bytes).drop
        (head.length + (before.flatMap Piece.bytes).length) =
      piece.bytes ++ after.flatMap Piece.bytes := by
  rw [← List.length_append, List.flatMap_append, List.flatMap_cons, ← List.append_assoc,
    List.drop_left]

end

section

variable [Number64 N] (env : Environment) {opts : FlvmetaOpts N} {content : Bytes}
  {info : FlvInfo N} {stream : FlvStream}

/-- The computed `onMetaData` tag comes before all keyframes, so a keyframe moves by the difference
of its size and the size of the tag that it replaces. -/
theorem keyframeAt_written (hplain : PlainFile content)
    (hinfo : getFlvInfo opts (flvOpen content) = (.ok info, stream))
    (hinsert : opts.insertOnlastsecond = false)
    (hfirst : info.onMetadataSize = 0 ∨ info.onMetadataOffset = 13) {head : Bytes}
    (hhead : head.length = 13) {k : TimedTag} (hk : k ∈ timedTags content)
    (hkey : IsKeyframe content k) :
    ∃ p, p + info.onMetadataSize =
        k.offset + (onMetadataPiece (computeMetadata env opts info)).bytes.length ∧
      KeyframeAt (head ++ (outputPieces opts info (computeMetadata env opts info) content).flatMap
        Piece.bytes) p (k.time opts info) := by
  have hwhole := copiedWhole_of_plain hplain hinfo
  rcases outputPieces_cases env hplain hinfo hinsert with
    ⟨hzero, hpieces⟩ | ⟨xs, t, ys, hsplit, ht, htype, hsize, hpieces⟩
  · obtain ⟨as, bs, hts⟩ := List.append_of_mem hk
    have hoffset : k.offset = 13 + span as := offset_timeline 13 hts
    have hlength := length_copies opts fun t (ht : t ∈ as) => hwhole t (by rw [hts]; simp [ht])
    have hdrop := drop_pieces head
      (onMetadataPiece (computeMetadata env opts info) :: as.map (copyPiece opts info content))
      (copyPiece opts info content k) (bs.map (copyPiece opts info content))
    rw [List.cons_append, ← List.map_cons, ← List.map_append, ← hts, ← hpieces] at hdrop
    refine ⟨_, ?_, keyframeAt_of_copy hk (hwhole k hk) hkey hdrop⟩
    rw [hzero, hhead, hoffset, List.flatMap_cons, List.length_append, hlength]
    omega
  · have hempty : xs = [] := eq_nil_of_replaced hsplit ht (hfirst.resolve_left (by omega))
    subst hempty
    have hmem : k ∈ ys := by
      rw [hsplit] at hk
      rcases List.mem_cons.mp hk with rfl | hk
      · exact absurd (htype.symm.trans hkey.1) (by decide)
      · exact hk
    obtain ⟨as, bs, rfl⟩ := List.append_of_mem hmem
    have hpieces' := hpieces.symm
    rw [List.map_nil, List.nil_append] at hpieces'
    have hts : timeline Clocks.init (tagsFrom content 13) = (t :: as) ++ k :: bs := hsplit
    have hoffset : k.offset = 13 + span (t :: as) := offset_timeline 13 hts
    have hlength := length_copies opts fun u (hu : u ∈ as) => hwhole u (by rw [hsplit]; simp [hu])
    have hdrop := drop_pieces head
      (onMetadataPiece (computeMetadata env opts info) :: as.map (copyPiece opts info content))
      (copyPiece opts info content k) (bs.map (copyPiece opts info content))
    rw [List.cons_append, ← List.map_cons, ← List.map_append, hpieces'] at hdrop
    refine ⟨_, ?_, keyframeAt_of_copy hk (hwhole k hk) hkey hdrop⟩
    rw [hsize, hhead, hoffset, List.flatMap_cons, List.length_append, hlength, span, span,
      List.map_cons, List.sum_cons]
    omega

end

/-! ## The index -/

section

variable [NumberImage ℚ] (env : Environment) {opts : FlvmetaOpts ℚ} {content : Bytes}
  {info : FlvInfo ℚ} {stream : FlvStream}

theorem thousand_mul_seconds (timestamp : Nat) : 1000 * (seconds timestamp : ℚ) = timestamp := by
  have hseconds : (seconds timestamp : ℚ) = timestamp / 1000 := by
    simp [seconds, Number64.ofInt, Number64.div]
  rw [hseconds, mul_div_cancel₀ _ (by simp)]

theorem newFileposition_eq (hinsert : opts.insertOnlastsecond = false)
    (newSize lastSize : Nat) (time fileposition : ℚ) :
    newFileposition opts info newSize lastSize time fileposition =
      fileposition + newSize - info.onMetadataSize := by
  have hnot : ¬ AfterOnLastSecond opts info time := by
    simp [AfterOnLastSecond, hinsert]
  rw [newFileposition, if_neg hnot, number_natCast, number_natCast]
  rfl

/-- The index in the tree. -/
theorem onlyValue_keyframes {args : List Bytes}
    (hargs : parseAdds .nullPtr args = some opts.metadata)
    (hpreserve : opts.preserveMetadata = false) (info : FlvInfo ℚ) (late : LateNumbers ℚ) :
    OnlyValue .object (ascii "keyframes") (buildOnMetadata env opts info late)
      (keyframes info.times late.filepositions) :=
  onlyValue_of_mem hargs hpreserve (mem_computedEntries (i := 14) rfl rfl
    (List.mem_cons_of_mem _ (List.mem_singleton.mpr rfl))) rfl (by decide)

/-- The index of keyframes in the written metadata of a plain file whose selected tag, if any, is
the first one: as many times as positions, and at each position of the output the keyframe with
the time of the same number, in seconds. -/
theorem keyframesIndex {args : List Bytes} (hargs : parseAdds .nullPtr args = some opts.metadata)
    (hinsert : opts.insertOnlastsecond = false) (hpreserve : opts.preserveMetadata = false)
    {files : UpdateFiles} (hinput : files.input = some content) (hplain : PlainFile content)
    (hinfo : getFlvInfo opts (flvOpen content) = (.ok info, stream))
    (hfirst : info.onMetadataSize = 0 ∨ info.onMetadataOffset = 13)
    (hsize : amfDataSize (computeMetadata env opts info).onMetadataName +
      amfDataSize (computeMetadata env opts info).onMetadata + 15 < 2 ^ 32)
    {out : OutFile} (hupdate : updateMetadata env opts files = (.ok, some out)) :
    (∃ before after, out.written =
      before ++ ((onMetadataPiece (computeMetadata env opts info)).bytes ++ after)) ∧
    ∃ times filepositions : List ℚ,
      OnlyValue .object (ascii "keyframes") (computeMetadata env opts info).onMetadata
        (keyframes times filepositions) ∧
      times.length = filepositions.length ∧
      ∀ i (ht : i < times.length) (hf : i < filepositions.length),
        ∃ p : Nat, filepositions[i] = p ∧ KeyframeAt out.written p (1000 * times[i]) := by
  refine ⟨written_onMetadata env hinput hplain hinfo hinsert hupdate, ?_⟩
  have hwritten := updateMetadata_plain env hinput hplain hinfo hupdate
  have htree := onMetadata_eq env opts (length_times hplain hinfo)
  have hbytes : (onMetadataPiece (computeMetadata env opts info)).bytes.length =
      newOnMetadataSize 13 (amfDataSize (computeMetadata env opts info).onMetadata) := by
    rw [amfDataSize_onMetadataName] at hsize
    rw [Piece.length_bytes, newOnMetadataSize]
    simp only [onMetadataPiece, scriptPiece, amfDataImage_eq, List.length_append,
      length_amfBytes, amfDataSize_onMetadataName, flvTagSize]
    omega
  obtain ⟨header, st, hst, -, hlength, hgathered⟩ := getFlvInfo_plain hplain hinfo
  have hhead : (content.take 9 ++ toBE 4 0).length = 13 := by
    rw [List.length_append, List.length_take, length_toBE]
    omega
  set index := indexed opts content (firstTimestamp (timedTags content)) (timedTags content)
  set newSize := newOnMetadataSize 13 (amfDataSize (computeMetadata env opts info).onMetadata)
  have htimes : info.times = index.map fun k => seconds (k.time opts info) := by
    rw [← hst, hgathered.times]
    simp only [TimedTag.time, hgathered.first]
    rfl
  have hfilepositions : info.filepositions = index.map fun k => (k.offset : ℚ) := by
    rw [← hst, hgathered.filepositions]
    simp only [Number64.ofInt, Int.cast_natCast]
    rfl
  have hshifted : List.zipWith (newFileposition opts info newSize 23) info.times
      info.filepositions = index.map fun k => (k.offset : ℚ) + newSize - info.onMetadataSize := by
    rw [htimes, hfilepositions, List.zipWith_map, List.zipWith_self]
    simp only [newFileposition_eq hinsert]
  refine ⟨index.map fun k => seconds (k.time opts info),
    index.map fun k => (k.offset : ℚ) + newSize - info.onMetadataSize, ?_, by simp, ?_⟩
  · rw [← htimes, ← hshifted, htree]
    exact onlyValue_keyframes env hargs hpreserve info _
  · intro i ht hf
    simp only [List.getElem_map, thousand_mul_seconds]
    have hi : i < index.length := by simpa using ht
    obtain ⟨hk, hkey⟩ := mem_indexed (List.getElem_mem hi)
    obtain ⟨p, hp, hat⟩ := keyframeAt_written env hplain hinfo hinsert hfirst hhead hk hkey
    refine ⟨p, ?_, ?_⟩
    · rw [sub_eq_iff_eq_add]
      rw [hbytes] at hp
      exact_mod_cast hp.symm
    · rwa [hwritten, ← List.append_assoc]

end

/-- The first tag of the movie is replaced by a longer one, and both of its keyframes are found in
the output. -/
theorem keyframesIndex_shortMovie :
    letI := blankImage
    letI opts : FlvmetaOpts ℚ := { defaultOptions with insertOnlastsecond := false }
    letI env : Environment := ⟨[], 0⟩
    ∃ (info : FlvInfo ℚ) (stream : FlvStream) (out : OutFile),
      getFlvInfo opts (flvOpen shortMovie) = (.ok info, stream) ∧
      info.onMetadataOffset = 13 ∧ info.times = [0, 1] ∧
      updateMetadata env opts ⟨some shortMovie, false, none, some ⟨none⟩⟩ = (.ok, some out) ∧
      (∃ before after, out.written =
        before ++ ((onMetadataPiece (computeMetadata env opts info)).bytes ++ after)) ∧
      ∃ times filepositions : List ℚ,
        OnlyValue .object (ascii "keyframes") (computeMetadata env opts info).onMetadata
          (keyframes times filepositions) ∧
        times.length = filepositions.length ∧
        ∀ i (ht : i < times.length) (hf : i < filepositions.length),
          ∃ p : Nat, filepositions[i] = p ∧ KeyframeAt out.written p (1000 * times[i]) := by
  let := blankImage
  let opts : FlvmetaOpts ℚ := { defaultOptions with insertOnlastsecond := false }
  let env : Environment := ⟨[], 0⟩
  have hpass : infoTest opts shortMovie (fun info =>
      decide (info.onMetadataOffset = 13 ∧ info.times = [0, 1] ∧
        amfDataSize (computeMetadata env opts info).onMetadataName +
          amfDataSize (computeMetadata env opts info).onMetadata + 15 < 2 ^ 32)) = true := by
    decide +kernel
  obtain ⟨info, stream, hinfo, htest⟩ := of_infoTest hpass
  obtain ⟨hoffset, htimes, hsize⟩ := of_decide_eq_true htest
  obtain ⟨out, hupdate⟩ := exists_updateMetadata_plain env plainFile_shortMovie hinfo
  have hargs : parseAdds .nullPtr [] = some opts.metadata := rfl
  exact ⟨info, stream, out, hinfo, hoffset, htimes, hupdate, keyframesIndex env hargs rfl rfl rfl
    plainFile_shortMovie hinfo (Or.inr hoffset) hsize hupdate⟩

/-! ## A size that wraps -/

/-- A keyframe of screen video, of one pixel. -/
def pixelKeyframe : Record where
  tag := ⟨9, ⟨0, 0, 13⟩, ⟨0, 0, 0⟩, 0, ⟨0, 0, 0⟩⟩
  body := [0x13, 0, 1, 0, 1, 0, 0, 0, 0, 0, 0, 0, 0]
  length_body := by decide

/-- A file of `n` such keyframes, all at the time zero. -/
def pixelMovie (n : Nat) : Bytes :=
  [0x46, 0x4C, 0x56, 1, 1, 0, 0, 0, 9, 0, 0, 0, 0] ++
    (List.replicate n pixelKeyframe).flatMap Record.bytes

section

variable {n : Nat} {x : Nat × FlvTag}

theorem rest_pixelMovie (n : Nat) :
    (pixelMovie n).drop 13 = (List.replicate n pixelKeyframe).flatMap Record.bytes := rfl

theorem tags_pixelMovie (n : Nat) : tagsFrom (pixelMovie n) 13 =
    (locate 13 (List.replicate n pixelKeyframe)).map fun x => (x.1, x.2.tag) :=
  tagsFrom_records (rest_pixelMovie n)

theorem first_mem_pixelMovie (n : Nat) :
    (13, pixelKeyframe.tag) ∈ tagsFrom (pixelMovie (n + 1)) 13 := by
  rw [tags_pixelMovie]
  exact List.mem_cons_self

/-- Every tag of the file has the bytes of the keyframe. -/
theorem drop_pixelMovie (hx : x ∈ tagsFrom (pixelMovie n) 13) :
    x.2 = pixelKeyframe.tag ∧ ∃ rest, (pixelMovie n).drop x.1 = pixelKeyframe.bytes ++ rest := by
  rw [tags_pixelMovie] at hx
  obtain ⟨y, hy, rfl⟩ := List.mem_map.mp hx
  have hrecord : y.2 = pixelKeyframe := List.eq_of_mem_replicate (mem_of_mem_locate hy)
  obtain ⟨rest, hrest⟩ := drop_locate (rest_pixelMovie n) y hy
  rw [hrecord] at hrest
  exact ⟨congrArg (fun r => r.tag) hrecord, rest, hrest⟩

theorem getD_pixelMovie (hx : x ∈ tagsFrom (pixelMovie n) 13) :
    (pixelMovie n).getD (x.1 + 11) 0 = 0x13 := by
  obtain ⟨-, rest, hrest⟩ := drop_pixelMovie hx
  rw [List.getD_eq_getElem?_getD, ← List.getElem?_drop, hrest]
  rfl

theorem complete_pixelMovie (hx : x ∈ tagsFrom (pixelMovie n) 13) :
    Complete (pixelMovie n) x.1 x.2 := by
  obtain ⟨htag, rest, hrest⟩ := drop_pixelMovie hx
  have hlength := congrArg List.length hrest
  rw [List.length_drop, List.length_append, Record.length_bytes] at hlength
  rw [Complete, htag]
  omega

theorem plainFile_pixelMovie (n : Nat) : PlainFile (pixelMovie n) := by
  intro x hx
  obtain ⟨htag, -⟩ := drop_pixelMovie hx
  refine ⟨complete_pixelMovie hx, ?_, ?_⟩
  · rw [htag]
    decide
  · rw [htag]
    exact fun h => absurd h (by decide)

theorem videoLeft_pixelMovie (hx : x ∈ tagsFrom (pixelMovie n) 13) :
    videoLeft (pixelMovie n) x.1 x.2 = [0, 1, 0, 1, 0, 0, 0, 0, 0, 0, 0, 0] := by
  obtain ⟨htag, rest, hrest⟩ := drop_pixelMovie hx
  rw [videoLeft, getD_pixelMovie hx, tagBody, ← List.drop_drop, hrest, htag]
  rfl

theorem videos_pixelMovie (n : Nat) :
    videosOf (tagsFrom (pixelMovie n) 13) = tagsFrom (pixelMovie n) 13 := by
  refine List.filter_eq_self.mpr fun x hx => ?_
  obtain ⟨htag, -⟩ := drop_pixelMovie hx
  refine decide_eq_true ⟨?_, ?_⟩
  · rw [htag]
    rfl
  · rw [htag]
    decide

theorem firstCodec_pixelMovie (n : Nat) :
    firstCodec (pixelMovie (n + 1)) (tagsFrom (pixelMovie (n + 1)) 13) = 3 := by
  have hcodec : flvVideoTagCodecId (videoTagAt (pixelMovie (n + 1)) 13) = 3 := by
    rw [videoTagAt, getD_pixelMovie (first_mem_pixelMovie n), if_neg (by decide)]
    rfl
  rw [tags_pixelMovie]
  exact hcodec

theorem givesSize_pixelMovie (hx : x ∈ tagsFrom (pixelMovie n) 13) :
    GivesSize (pixelMovie n) 3 x := by
  obtain ⟨htag, -⟩ := drop_pixelMovie hx
  refine ⟨?_, 1, 1, by decide, by decide, ?_⟩
  · rw [KeyframeBody, getD_pixelMovie hx]
    decide
  · have hlength : subUint32 (flvTagGetBodyLength x.2) sizeofFlvVideoTag = 5 := by
      rw [htag]
      decide
    rw [searchAt, videoLeft_pixelMovie hx, hlength]
    rfl

theorem readable_pixelMovie (n : Nat) : VideoReadable (pixelMovie (n + 1)) := by
  intro earlier x later hsplit
  rw [videos_pixelMovie] at hsplit
  have hx : x ∈ tagsFrom (pixelMovie (n + 1)) 13 := by
    rw [hsplit]
    exact List.mem_append_right _ List.mem_cons_self
  obtain ⟨htag, -⟩ := drop_pixelMovie hx
  rw [videos_pixelMovie, firstCodec_pixelMovie]
  refine ⟨?_, fun _ _ => ?_⟩
  · rw [ExtHeaderFits, getD_pixelMovie hx]
    exact fun hbit => absurd hbit (by decide)
  · rw [videoLeft_pixelMovie hx, htag]
    decide

theorem timed_pixelMovie {t : TimedTag} (ht : t ∈ timedTags (pixelMovie n)) :
    t.tag = pixelKeyframe.tag ∧ IsKeyframe (pixelMovie n) t := by
  have hx := mem_tags_of_mem_timeline ht
  have htag : t.tag = pixelKeyframe.tag := (drop_pixelMovie hx).1
  refine ⟨htag, ?_, ?_, ?_⟩
  · rw [htag]
    rfl
  · rw [htag]
    decide
  · rw [getD_pixelMovie hx]
    decide

theorem length_timed_pixelMovie (n : Nat) : (timedTags (pixelMovie n)).length = n := by
  have htags := congrArg List.length (map_timeline Clocks.init (tagsFrom (pixelMovie n) 13))
  rw [List.length_map] at htags
  rw [timedTags, htags, tags_pixelMovie, List.length_map, length_locate, List.length_replicate]

theorem head_timed_pixelMovie (n : Nat) :
    ∃ t ts, timedTags (pixelMovie (n + 1)) = t :: ts ∧ t.offset = 13 := by
  rw [timedTags, tags_pixelMovie]
  exact ⟨_, _, rfl, rfl⟩

end

/-- What the first pass finds when it indexes all keyframes. -/
structure PixelInfo (n : Nat) (info : FlvInfo ℚ) : Prop where
  haveVideo : info.haveVideo = true
  haveAudio : info.haveAudio = false
  width : 0 < info.videoWidth
  height : 0 < info.videoHeight
  onMetadataSize : info.onMetadataSize = 0
  times : info.times.length = n
  filepositions : ∃ fs, info.filepositions = 13 :: fs ∧ fs.length + 1 = n

theorem exists_pixelInfo [NumberImage ℚ] (n : Nat) {opts : FlvmetaOpts ℚ}
    (hall : opts.allKeyframes = true) :
    ∃ (info : FlvInfo ℚ) (stream : FlvStream),
      getFlvInfo opts (flvOpen (pixelMovie (n + 1))) = (.ok info, stream) ∧
        PixelInfo (n + 1) info := by
  have hplain := plainFile_pixelMovie (n + 1)
  have hlength : 9 ≤ (pixelMovie (n + 1)).length := by
    rw [pixelMovie, List.length_append]
    exact Nat.le_add_right_of_le (by decide)
  have hx := first_mem_pixelMovie n
  have hseen := getFlvInfo_videoSeen opts _ hlength rfl hplain
  rw [videos_pixelMovie, firstCodec_pixelMovie] at hseen
  cases hinfo : getFlvInfo opts (flvOpen (pixelMovie (n + 1))) with
  | mk result stream =>
    rw [hinfo] at hseen
    rcases hseen with ⟨-, hno⟩ | ⟨info, hok, -, hvideo, hsize⟩
    · exact absurd (readable_pixelMovie n) hno
    · obtain rfl : result = .ok info := hok
      obtain ⟨hwidth, hheight⟩ := hsize.mpr ⟨_, hx, givesSize_pixelMovie hx⟩
      have haudio := haveAudio_plain hplain hinfo fun y hy => by
        rw [(drop_pixelMovie hy).1]
        decide
      obtain ⟨header, st, rfl, -, -, hgathered⟩ := getFlvInfo_plain hplain hinfo
      have hindex := indexed_keyframes hall (firstTimestamp (timedTags (pixelMovie (n + 1))))
        fun t (ht : t ∈ timedTags (pixelMovie (n + 1))) => (timed_pixelMovie ht).2
      have hcount := length_timed_pixelMovie (n + 1)
      refine ⟨st.info, stream, rfl, hvideo.mpr (List.ne_nil_of_mem hx), haudio, hwidth, hheight,
        ?_, ?_, ?_⟩
      · rcases hgathered.selected with ⟨hzero, -⟩ | ⟨t, ht, htype, -⟩
        · exact hzero
        · rw [(timed_pixelMovie ht).1] at htype
          exact absurd htype (by decide)
      · rw [hgathered.times, hindex, List.length_map, hcount]
      · obtain ⟨t, ts, hts, hoffset⟩ := head_timed_pixelMovie n
        rw [hts, List.length_cons] at hcount
        rw [hgathered.filepositions, hindex, hts, List.map_cons, hoffset]
        exact ⟨_, rfl, by rw [List.length_map, hcount]⟩

/-- The size of an array of numbers. -/
theorem amfElementsSize_numbers (xs : List ℚ) :
    amfElementsSize (xs.map AmfData.number) = 9 * xs.length := by
  induction xs with
  | nil => rfl
  | cons x xs ih =>
    rw [List.map_cons, amfElementsSize, ih, amfDataSize, List.length_cons]
    omega

theorem keyframes_eq (times filepositions : List ℚ) :
    keyframes times filepositions = .object [amfStr (ascii "times"), .array (times.map .number),
      amfStr (ascii "filepositions"), .array (filepositions.map .number)] := rfl

theorem amfDataSize_keyframes (times filepositions : List ℚ) :
    amfDataSize (keyframes times filepositions) =
      36 + 9 * (times.length + filepositions.length) := by
  have htimes : amfStringGetSize (amfStr (ascii "times") : AmfData ℚ) = 5 := rfl
  have hfilepositions : amfStringGetSize (amfStr (ascii "filepositions") : AmfData ℚ) = 13 := rfl
  simp only [keyframes_eq, amfDataSize, amfPairsSize, amfElementsSize_numbers, htimes,
    hfilepositions]
  omega

/-- Options to index all keyframes. -/
def indexOptions : FlvmetaOpts ℚ :=
  { (defaultOptions : FlvmetaOpts ℚ) with allKeyframes := true, insertOnlastsecond := false }

/-- The number of bytes of an entry. -/
def entrySize (e : Bytes × AmfData ℚ) : Nat :=
  2 + amfStringGetSize (amfStr e.1 : AmfData ℚ) + amfDataSize e.2

theorem entrySize_ascii (name : String) (value : AmfData ℚ) :
    entrySize (ascii name, value) = 2 + name.toList.length % 2 ^ 16 + amfDataSize value := by
  have hlength : (ascii name).length = name.toList.length := List.length_map ..
  have hsize : amfStringGetSize (amfStr (ascii name) : AmfData ℚ) =
      ((ascii name).take (UInt16.ofNat (ascii name).length).toNat).length := rfl
  have hmin : min (name.toList.length % 2 ^ 16) name.toList.length =
      name.toList.length % 2 ^ 16 := Nat.min_eq_left (Nat.mod_le _ _)
  rw [entrySize, hsize, List.length_take, hlength, UInt16.toNat_ofNat', hmin]

theorem amfDataSize_creator :
    amfDataSize (amfStr (ascii "flvmeta 1.2.2") : AmfData ℚ) = 16 := rfl

/-- The computed entries for such a file. -/
theorem PixelInfo.sum_entrySize [NumberImage ℚ] {n : Nat} {info : FlvInfo ℚ} (h : PixelInfo n info)
    {late : LateNumbers ℚ} (hlate : late.filepositions.length = n) :
    ((computedEntries ⟨ascii "flvmeta 1.2.2", 0⟩ indexOptions info late).map entrySize).sum =
      441 + 18 * n := by
  simp only [computedEntries, entryGroups, h.haveVideo, h.haveAudio, h.width, h.height,
    show indexOptions.preserveMetadata = false from rfl, Bool.not_false, Bool.true_or,
    decide_true, List.flatMap_cons, List.flatMap_nil, if_true, Bool.false_and,
    Bool.false_eq_true, if_false, List.map_append, List.sum_append, List.map_cons, List.sum_cons,
    List.map_nil, List.sum_nil, booleanEntry, numberEntry, entrySize_ascii, String.reduceToList,
    List.length_cons, List.length_nil, Nat.reduceAdd, Nat.reducePow, Nat.reduceMod,
    amfDataSize_keyframes, amfDataSize_creator, h.times, hlate, amfDataSize, amfBooleanNew,
    amfElementsSize]
  -- what is left is about `n` alone
  clear hlate
  omega

/-- The tree for such a file. -/
theorem PixelInfo.size_onMetadata [NumberImage ℚ] {n : Nat} {info : FlvInfo ℚ}
    (h : PixelInfo n info) {late : LateNumbers ℚ} (hlate : late.filepositions.length = n) :
    amfDataSize (buildOnMetadata ⟨ascii "flvmeta 1.2.2", 0⟩ indexOptions info late) =
      449 + 18 * n := by
  have hmetadata : (if indexOptions.metadata.isNull then .associativeArray []
      else indexOptions.metadata) = (AmfData.associativeArray (entryList []) : AmfData ℚ) := rfl
  have hsum := h.sum_entrySize hlate
  unfold entrySize at hsum
  rw [buildOnMetadata_of_metadata _ indexOptions info late hmetadata rfl, amfDataSize,
    amfPairsSize_entryList, List.nil_append, hsum]
  omega

theorem keyframes_inj {times times' filepositions filepositions' : List ℚ}
    (h : keyframes times filepositions = keyframes times' filepositions') :
    times = times' ∧ filepositions = filepositions' := by
  have hinj : Function.Injective (List.map (AmfData.number : ℚ → AmfData ℚ)) :=
    List.map_injective_iff.mpr fun _ _ h => AmfData.number.inj h
  rw [keyframes_eq, keyframes_eq] at h
  simp only [AmfData.object.injEq, List.cons.injEq, AmfData.array.injEq, true_and, and_true] at h
  exact ⟨hinj h.1, hinj h.2⟩

/-- In the header of the computed `onMetaData` tag, the timestamp is no start of a video tag. -/
theorem drop_onMetadataPiece [NumberImage ℚ] (metadata : FlvMetadata ℚ) {piece : Piece}
    {bs rest : Bytes} (h : ((onMetadataPiece metadata).bytes ++ bs).drop 5 = piece.bytes ++ rest) :
    piece.tag.type ≠ flvTagTypeVideo := by
  have hzero : (0 : UInt8) = piece.tag.type := (List.cons.inj h).1
  rw [← hzero]
  decide

/-- With 238609268 keyframes the new tag takes `2^32 + 5` bytes, which are 5 as a `uint32`, so the
position of the first keyframe is that of the timestamp of the `onMetaData` tag. -/
theorem keyframesIndex_overflow :
    letI := blankImage
    letI env : Environment := ⟨ascii "flvmeta 1.2.2", 0⟩
    letI content := pixelMovie 238609268
    parseAdds .nullPtr [] = some indexOptions.metadata ∧
    indexOptions.errorHandling = .exitOnError ∧ indexOptions.insertOnlastsecond = false ∧
    indexOptions.preserveMetadata = false ∧ PlainFile content ∧
    ∃ (info : FlvInfo ℚ) (stream : FlvStream) (out : OutFile),
      getFlvInfo indexOptions (flvOpen content) = (.ok info, stream) ∧ info.onMetadataSize = 0 ∧
      updateMetadata env indexOptions ⟨some content, false, none, some ⟨none⟩⟩ = (.ok, some out) ∧
      ¬ ∃ times filepositions : List ℚ,
        OnlyValue .object (ascii "keyframes") (computeMetadata env indexOptions info).onMetadata
          (keyframes times filepositions) ∧
        times.length = filepositions.length ∧
        ∀ i (ht : i < times.length) (hf : i < filepositions.length),
          ∃ p : Nat, filepositions[i] = p ∧ KeyframeAt out.written p (1000 * times[i]) := by
  let := blankImage
  let env : Environment := ⟨ascii "flvmeta 1.2.2", 0⟩
  have hplain := plainFile_pixelMovie 238609268
  obtain ⟨info, stream, hinfo, hfound⟩ :=
    exists_pixelInfo 238609267 (show indexOptions.allKeyframes = true from rfl)
  have hupdate := updateMetadata_unlimited env hinfo
  rw [rewritten_plain env hplain hinfo] at hupdate
  refine ⟨rfl, rfl, rfl, rfl, hplain, info, stream, _, hinfo, hfound.onMetadataSize, hupdate, ?_⟩
  rintro ⟨times, filepositions, honly, hlength, hposition⟩
  obtain ⟨fs, hfilepositions, hcount⟩ := hfound.filepositions
  have hlengths : info.times.length = info.filepositions.length := by
    rw [hfound.times, hfilepositions, List.length_cons, hcount]
  have htree := onMetadata_eq env indexOptions hlengths
  have hsize : amfDataSize (computeMetadata env indexOptions info).onMetadata = 4294967273 := by
    rw [congrArg amfDataSize htree, hfound.size_onMetadata]
    rw [lateNumbers, List.length_zipWith, ← hlengths, Nat.min_self, hfound.times]
  have hnew : newOnMetadataSize 13 4294967273 = 5 := by
    simp [newOnMetadataSize, flvTagSize]
  rw [hsize] at htree
  have hlate : (lateNumbers indexOptions info 4294967273).filepositions.head? =
      some ((18 : Nat) : ℚ) := by
    obtain ⟨t, ts, htimes⟩ := List.exists_cons_of_length_pos
      (show 0 < info.times.length by rw [hfound.times]; decide)
    rw [lateNumbers, hnew, htimes, hfilepositions, List.zipWith_cons_cons, List.head?_cons,
      newFileposition_eq rfl, hfound.onMetadataSize, Nat.cast_zero, sub_zero]
    exact congrArg some (by exact_mod_cast (rfl : 13 + 5 = 18))
  have hindex := onlyValue_keyframes env (show parseAdds .nullPtr [] = some indexOptions.metadata
    from rfl) (show indexOptions.preserveMetadata = false from rfl) info
      (lateNumbers indexOptions info 4294967273)
  rw [htree] at honly
  obtain ⟨rfl, rfl⟩ := keyframes_inj ((honly _).mp ((hindex _).mpr rfl))
  have ht : 0 < info.times.length := by
    rw [hfound.times]
    decide
  obtain ⟨p, hp, piece, rest, hdrop, -, htype, -⟩ := hposition 0 ht (hlength ▸ ht)
  rw [List.head?_eq_getElem?, List.getElem?_eq_getElem (hlength ▸ ht)] at hlate
  have hp : (p : ℚ) = (18 : Nat) := hp.symm.trans (Option.some.inj hlate)
  rw [Nat.cast_injective hp] at hdrop
  dsimp only at hdrop
  rw [show 18 = 13 + 5 from rfl, ← List.drop_drop, drop_written hplain hinfo,
    outputPieces_plain env hplain hinfo, if_pos hfound.onMetadataSize, List.singleton_append,
    List.flatMap_cons] at hdrop
  exact drop_onMetadataPiece _ hdrop htype

end FlvMeta
