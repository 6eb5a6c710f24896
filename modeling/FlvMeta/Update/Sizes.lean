import FlvMeta.Info.Tree
import FlvMeta.Update.Layout

/-!
# The declared sizes

The running totals of the first pass and the size of the new tree add up to what the second pass
writes: the numbers `filesize`, `datasize`, `videosize` and `audiosize` of the written metadata are
the sizes of the output and of its tags (`declaredSizes`).
-/

namespace FlvMeta

open Endian Stdio

variable {N : Type}

/-! ## Sizes of pieces -/

/-- Copies have the sizes of their tags. -/
theorem sizeOfType_copies (type : UInt8) (opts : FlvmetaOpts N) (info : FlvInfo N)
    (content : Bytes) (ts : List TimedTag) :
    sizeOfType type ((ts.map (copyPiece opts info content)).map (·.tag)) =
      sizeOfType type (ts.map (·.tag)) := by
  induction ts with
  | nil => rfl
  | cons t ts ih =>
    have htype : (copyPiece opts info content t).tag.type = t.tag.type := rfl
    have hlength : flvTagGetBodyLength (copyPiece opts info content t).tag =
      flvTagGetBodyLength t.tag := rfl
    simp only [List.map_cons, sizeOfType, htype, hlength, ih]

/-- The size of records is that of their tags by type, and four bytes for each of them. -/
theorem length_records {pieces : List Piece} (hfit : ∀ piece ∈ pieces, piece.Fits)
    (hknown : ∀ piece ∈ pieces, piece.tag.Known) :
    (pieces.flatMap Piece.bytes).length = sizeOfType flvTagTypeMeta (pieces.map (·.tag)) +
      sizeOfType flvTagTypeVideo (pieces.map (·.tag)) +
      sizeOfType flvTagTypeAudio (pieces.map (·.tag)) + 4 * pieces.length := by
  induction pieces with
  | nil => rfl
  | cons piece pieces ih =>
    have htail := ih (fun piece hp => hfit piece (List.mem_cons_of_mem _ hp))
      (fun piece hp => hknown piece (List.mem_cons_of_mem _ hp))
    have hbytes : piece.bytes.length = flvTagGetBodyLength piece.tag + 15 := by
      rw [piece.length_bytes, hfit piece List.mem_cons_self]
    have hmv : flvTagTypeMeta ≠ flvTagTypeVideo := by decide
    have hma : flvTagTypeMeta ≠ flvTagTypeAudio := by decide
    have hva : flvTagTypeVideo ≠ flvTagTypeAudio := by decide
    rw [List.flatMap_cons, List.length_append, hbytes, htail, List.length_cons]
    simp only [List.map_cons, sizeOfType, flvTagSize]
    rcases hknown piece List.mem_cons_self with h | h | h
    · simp only [h, hmv, hma, if_true, if_false]
      omega
    · simp only [h, hma.symm, hva.symm, if_true, if_false]
      omega
    · simp only [h, hmv.symm, hva, if_true, if_false]
      omega

section

variable [Number64 N] (env : Environment) {opts : FlvmetaOpts N} {content : Bytes}
  {info : FlvInfo N} {stream : FlvStream}

theorem known_outputPieces (hplain : PlainFile content)
    (hinfo : getFlvInfo opts (flvOpen content) = (.ok info, stream))
    (hinsert : opts.insertOnlastsecond = false) :
    ∀ piece ∈ outputPieces opts info (computeMetadata env opts info) content,
      piece.tag.Known := by
  have hmeta : (onMetadataPiece (computeMetadata env opts info)).tag.Known := Or.inl rfl
  have hcopies : ∀ ts : List TimedTag, (∀ t ∈ ts, t ∈ timedTags content) →
      ∀ piece ∈ ts.map (copyPiece opts info content), piece.tag.Known := by
    intro ts hts piece hpiece
    obtain ⟨t, ht, rfl⟩ := List.mem_map.mp hpiece
    exact (hplain _ (mem_tags_of_mem_timeline (hts t ht))).known
  rcases outputPieces_cases env hplain hinfo hinsert with
    ⟨-, hpieces⟩ | ⟨xs, t, ys, hsplit, -, -, -, hpieces⟩
  · rw [hpieces]
    exact List.forall_mem_cons.mpr ⟨hmeta, hcopies _ fun t ht => ht⟩
  · rw [hpieces]
    refine List.forall_mem_append.mpr ⟨hcopies xs ?_,
      List.forall_mem_cons.mpr ⟨hmeta, hcopies ys ?_⟩⟩
    · intro u hu
      simp [hsplit, hu]
    · intro u hu
      simp [hsplit, hu]

/-- What the pieces for a plain file amount to, in terms of the totals of the first pass. -/
theorem sizes_outputPieces (hplain : PlainFile content)
    (hinfo : getFlvInfo opts (flvOpen content) = (.ok info, stream))
    (hinsert : opts.insertOnlastsecond = false)
    (hsize : amfDataSize (computeMetadata env opts info).onMetadataName +
      amfDataSize (computeMetadata env opts info).onMetadata < 2 ^ 24) :
    let pieces := outputPieces opts info (computeMetadata env opts info) content
    let size := amfDataSize (computeMetadata env opts info).onMetadata
    sizeOfType flvTagTypeVideo (pieces.map (·.tag)) = info.videoDataSize ∧
    sizeOfType flvTagTypeAudio (pieces.map (·.tag)) = info.audioDataSize ∧
    sizeOfType flvTagTypeMeta (pieces.map (·.tag)) = info.metaDataSize + 24 + size ∧
    4 * pieces.length = info.totalPrevTagsSize := by
  have hmv : flvTagTypeMeta ≠ flvTagTypeVideo := by decide
  have hma : flvTagTypeMeta ≠ flvTagTypeAudio := by decide
  have htype : (onMetadataPiece (computeMetadata env opts info)).tag.type = flvTagTypeMeta := rfl
  have hlength : flvTagGetBodyLength (onMetadataPiece (computeMetadata env opts info)).tag =
      13 + amfDataSize (computeMetadata env opts info).onMetadata := by
    rw [← fits_onMetadataPiece env opts info hsize]
    simp [onMetadataPiece, scriptPiece, amfDataImage_eq, amfDataSize_onMetadataName]
  have hcases := outputPieces_cases env hplain hinfo hinsert
  obtain ⟨header, st, rfl, -, -, hgathered⟩ := getFlvInfo_plain hplain hinfo
  have hvideo := hgathered.video
  have haudio := hgathered.audio
  have hscript := hgathered.script
  have hcount := hgathered.count
  rcases hcases with ⟨hzero, hpieces⟩ | ⟨xs, t, ys, hsplit, -, htag, hselected, hpieces⟩
  · simp only [hpieces, List.map_cons, sizeOfType, htype, hmv, hma, if_true, if_false,
      sizeOfType_copies, hlength, flvTagSize, List.length_cons, List.length_map]
    rw [hzero] at hscript
    rw [if_pos hzero] at hcount
    omega
  · rw [hsplit] at hvideo haudio hscript hcount
    simp only [List.map_append, List.map_cons, sizeOfType_append, sizeOfType, htag, hmv, hma,
      if_true, if_false, flvTagSize, List.length_append, List.length_cons]
      at hvideo haudio hscript hcount
    simp only [hpieces, List.map_append, List.map_cons, sizeOfType_append, sizeOfType, htype, hmv,
      hma, if_true, if_false, sizeOfType_copies, hlength, flvTagSize, List.length_append,
      List.length_cons, List.length_map]
    rw [if_neg (by omega)] at hcount
    omega

/-- An update of a plain file that succeeds has written the header, a zero previous tag size and
the pieces. -/
theorem updateMetadata_plain {files : UpdateFiles} (hinput : files.input = some content)
    (hplain : PlainFile content)
    (hinfo : getFlvInfo opts (flvOpen content) = (.ok info, stream)) {out : OutFile}
    (hupdate : updateMetadata env opts files = (.ok, some out)) :
    out.written = content.take 9 ++ (toBE 4 0 ++
      (outputPieces opts info (computeMetadata env opts info) content).flatMap Piece.bytes) := by
  obtain ⟨content', info', stream', hinput', hinfo', hwritten⟩ := updateMetadata_ok hupdate
  obtain rfl : content = content' := Option.some.inj (hinput.symm.trans hinput')
  obtain ⟨rfl, -⟩ : info = info' ∧ stream = stream' := by
    simpa using hinfo.symm.trans hinfo'
  rw [(hwritten (not_unchecked hplain info)).2, rewritten_plain env hplain hinfo]

/-- The pieces follow the first thirteen bytes of the output. -/
theorem drop_written (hplain : PlainFile content)
    (hinfo : getFlvInfo opts (flvOpen content) = (.ok info, stream)) (bs : Bytes) :
    (content.take 9 ++ (toBE 4 0 ++ bs)).drop 13 = bs := by
  obtain ⟨header, st, -, -, hlength, -⟩ := getFlvInfo_plain hplain hinfo
  have hlen : (content.take 9 ++ toBE 4 0).length = 13 := by
    rw [List.length_append, List.length_take, length_toBE]
    omega
  rw [← List.append_assoc, ← hlen, List.drop_left]

/-- The computed `onMetaData` tag is written. -/
theorem written_onMetadata {files : UpdateFiles} (hinput : files.input = some content)
    (hplain : PlainFile content)
    (hinfo : getFlvInfo opts (flvOpen content) = (.ok info, stream))
    (hinsert : opts.insertOnlastsecond = false) {out : OutFile}
    (hupdate : updateMetadata env opts files = (.ok, some out)) :
    ∃ before after, out.written =
      before ++ ((onMetadataPiece (computeMetadata env opts info)).bytes ++ after) := by
  have hmem : onMetadataPiece (computeMetadata env opts info) ∈
      outputPieces opts info (computeMetadata env opts info) content := by
    rcases outputPieces_cases env hplain hinfo hinsert with
      ⟨-, hpieces⟩ | ⟨xs, t, ys, -, -, -, -, hpieces⟩
    · simp [hpieces]
    · simp [hpieces]
  obtain ⟨before, after, hsplit⟩ := List.append_of_mem hmem
  refine ⟨content.take 9 ++ (toBE 4 0 ++ before.flatMap Piece.bytes),
    after.flatMap Piece.bytes, ?_⟩
  rw [updateMetadata_plain env hinput hplain hinfo hupdate, hsplit]
  simp

/-- As many timestamps as positions are indexed. -/
theorem length_times (hplain : PlainFile content)
    (hinfo : getFlvInfo opts (flvOpen content) = (.ok info, stream)) :
    info.times.length = info.filepositions.length := by
  obtain ⟨header, st, rfl, -, -, hgathered⟩ := getFlvInfo_plain hplain hinfo
  rw [hgathered.times, hgathered.filepositions, List.length_map, List.length_map]

end

/-! ## The declared sizes -/

section

variable [NumberImage ℚ] (env : Environment) {opts : FlvmetaOpts ℚ} {content : Bytes}
  {info : FlvInfo ℚ} {stream : FlvStream}

theorem number_natCast (n : Nat) : (number (n : Int) : ℚ) = n := by
  simp [number, Number64.ofInt]

/-- The late numbers are the sizes of what is written. -/
theorem lateNumbers_sizes (hplain : PlainFile content)
    (hinfo : getFlvInfo opts (flvOpen content) = (.ok info, stream))
    (hinsert : opts.insertOnlastsecond = false)
    (hsize : amfDataSize (computeMetadata env opts info).onMetadataName +
      amfDataSize (computeMetadata env opts info).onMetadata < 2 ^ 24) :
    let pieces := outputPieces opts info (computeMetadata env opts info) content
    let late := lateNumbers opts info (amfDataSize (computeMetadata env opts info).onMetadata)
    late.filesize = ((13 + (pieces.flatMap Piece.bytes).length : Nat) : ℚ) ∧
    late.datasize = (sizeOfType flvTagTypeMeta (pieces.map (·.tag)) : Nat) := by
  have hcounts : countsOnLastSecond opts info = false := by simp [countsOnLastSecond, hinsert]
  obtain ⟨hvideo, haudio, hscript, hcount⟩ := sizes_outputPieces env hplain hinfo hinsert hsize
  rw [amfDataSize_onMetadataName] at hsize
  have htotal := length_records (outputPieces_fit env hplain hinfo (by
    rw [amfDataSize_onMetadataName]; exact hsize)) (known_outputPieces env hplain hinfo hinsert)
  have hnew : newOnMetadataSize 13 (amfDataSize (computeMetadata env opts info).onMetadata) =
      28 + amfDataSize (computeMetadata env opts info).onMetadata := by
    unfold newOnMetadataSize flvTagSize
    omega
  have hmod : (13 + amfDataSize (computeMetadata env opts info).onMetadata) % 2 ^ 32 =
      13 + amfDataSize (computeMetadata env opts info).onMetadata :=
    Nat.mod_eq_of_lt (by omega)
  constructor
  · simp only [lateNumbers, hcounts, hnew, number_natCast, Nat.cast_inj, flvHeaderSize,
      Bool.false_eq_true, if_false]
    omega
  · simp only [lateNumbers, hcounts, hmod, number_natCast, Nat.cast_inj, flvTagSize,
      Bool.false_eq_true, if_false]
    omega

/-- An update of a plain file that succeeds, without `onLastSecond` tags and without the original
metadata, declares the real sizes: the number `filesize` is the length of the output, `datasize`
the size of its script tags, and `videosize` and `audiosize`, when present, the sizes of its video
and audio tags. -/
theorem declaredSizes {args : List Bytes} (hargs : parseAdds .nullPtr args = some opts.metadata)
    (hinsert : opts.insertOnlastsecond = false) (hpreserve : opts.preserveMetadata = false)
    {files : UpdateFiles} (hinput : files.input = some content) (hplain : PlainFile content)
    (hinfo : getFlvInfo opts (flvOpen content) = (.ok info, stream))
    (hsize : amfDataSize (computeMetadata env opts info).onMetadataName +
      amfDataSize (computeMetadata env opts info).onMetadata < 2 ^ 24)
    {out : OutFile} (hupdate : updateMetadata env opts files = (.ok, some out)) :
    let metadata := computeMetadata env opts info
    let tags := (tagsFrom out.written 13).map Prod.snd
    (∃ before after, out.written = before ++ ((onMetadataPiece metadata).bytes ++ after)) ∧
    OnlyValue .number (ascii "filesize") metadata.onMetadata (.number out.written.length) ∧
    OnlyValue .number (ascii "datasize") metadata.onMetadata
      (.number (sizeOfType flvTagTypeMeta tags)) ∧
    (∀ v, HasValue .number (ascii "videosize") metadata.onMetadata v →
      v = .number (sizeOfType flvTagTypeVideo tags)) ∧
    ∀ v, HasValue .number (ascii "audiosize") metadata.onMetadata v →
      v = .number (sizeOfType flvTagTypeAudio tags) := by
  intro metadata tags
  have hwritten := updateMetadata_plain env hinput hplain hinfo hupdate
  have hfit := outputPieces_fit env hplain hinfo hsize
  obtain ⟨hfilesize, hdatasize⟩ := lateNumbers_sizes env hplain hinfo hinsert hsize
  obtain ⟨hvideo, haudio, -, -⟩ := sizes_outputPieces env hplain hinfo hinsert hsize
  have htree := onMetadata_eq env opts (length_times hplain hinfo)
  obtain ⟨header, st, -, -, h9, -⟩ := getFlvInfo_plain hplain hinfo
  generalize lateNumbers opts info (amfDataSize (computeMetadata env opts info).onMetadata) = late
    at hfilesize hdatasize htree
  generalize hpieces : outputPieces opts info (computeMetadata env opts info) content = pieces
    at hwritten hfit hfilesize hdatasize hvideo haudio
  have htags : tags = pieces.map (·.tag) := by
    refine tags_of_fits ?_ hfit
    rw [hwritten, drop_written hplain hinfo]
  have htotal : out.written.length = 13 + (pieces.flatMap Piece.bytes).length := by
    rw [hwritten, List.length_append, List.length_append, List.length_take, length_toBE]
    omega
  have hvalue : ∀ {i : Nat} {e : Bytes × AmfData ℚ} {v : AmfData ℚ},
      (possibleEntries env opts info late)[i]? = some e →
      HasValue .number e.1 (buildOnMetadata env opts info late) v → v = e.2 := fun he hv =>
    hv.eq hargs hpreserve (List.mem_of_getElem? he) (by decide)
  refine ⟨written_onMetadata env hinput hplain hinfo hinsert hupdate, ?_⟩
  simp only [metadata, htree]
  refine ⟨?_, ?_, fun v hv => ?_, fun v hv => ?_⟩
  · rw [htotal, ← hfilesize]
    exact onlyValue_of_mem hargs hpreserve
      (mem_computedEntries (i := 5) rfl rfl (List.mem_singleton.mpr rfl)) rfl (by decide)
  · rw [htags, ← hdatasize]
    exact onlyValue_of_mem hargs hpreserve
      (mem_computedEntries (i := 8) rfl rfl List.mem_cons_self) rfl (by decide)
  · rw [htags, hvideo, ← number_natCast]
    exact hvalue (i := 15) rfl hv
  · rw [htags, haudio, ← number_natCast]
    exact hvalue (i := 16) rfl hv

end

/-- The sizes declared for a file that has tags of all types. -/
theorem declaredSizes_shortMovie :
    letI := blankImage
    letI opts : FlvmetaOpts ℚ := { defaultOptions with insertOnlastsecond := false }
    letI env : Environment := ⟨[], 0⟩
    ∃ (info : FlvInfo ℚ) (stream : FlvStream) (out : OutFile),
      getFlvInfo opts (flvOpen shortMovie) = (.ok info, stream) ∧
      updateMetadata env opts ⟨some shortMovie, false, none, some ⟨none⟩⟩ = (.ok, some out) ∧
      letI metadata := computeMetadata env opts info
      letI tags := (tagsFrom out.written 13).map Prod.snd
      (∃ before after, out.written = before ++ ((onMetadataPiece metadata).bytes ++ after)) ∧
      OnlyValue .number (ascii "filesize") metadata.onMetadata (.number out.written.length) ∧
      OnlyValue .number (ascii "datasize") metadata.onMetadata
        (.number (sizeOfType flvTagTypeMeta tags)) ∧
      (∀ v, HasValue .number (ascii "videosize") metadata.onMetadata v →
        v = .number (sizeOfType flvTagTypeVideo tags)) ∧
      ∀ v, HasValue .number (ascii "audiosize") metadata.onMetadata v →
        v = .number (sizeOfType flvTagTypeAudio tags) := by
  let := blankImage
  let opts : FlvmetaOpts ℚ := { defaultOptions with insertOnlastsecond := false }
  let env : Environment := ⟨[], 0⟩
  have hpass : infoTest opts shortMovie (fun info =>
      decide (amfDataSize (computeMetadata env opts info).onMetadataName +
        amfDataSize (computeMetadata env opts info).onMetadata < 2 ^ 24)) = true := by
    decide +kernel
  obtain ⟨info, stream, hinfo, htest⟩ := of_infoTest hpass
  obtain ⟨out, hupdate⟩ := exists_updateMetadata_plain env plainFile_shortMovie hinfo
  have hargs : parseAdds .nullPtr [] = some opts.metadata := rfl
  exact ⟨info, stream, out, hinfo, hupdate, declaredSizes env hargs rfl rfl rfl plainFile_shortMovie
    hinfo (of_decide_eq_true htest) hupdate⟩

end FlvMeta
