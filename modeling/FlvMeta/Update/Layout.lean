import FlvMeta.Info.Scan
import FlvMeta.Update.Files

/-!
# The layout of the output

On a plain file the second pass writes a group of pieces for each tag of the input: the computed
`onMetaData` tag in the place of the selected one, and a copy of every other tag, with an
`onLastSecond` tag before the first copy that is within the last second. `layout` is the list of
these groups. That the copies are whole follows from the bound on the sizes of the bodies
gathered by the first pass (`rewritten_plain`), so the tags are copied verbatim
(`writeFlv_verbatim`).
-/

namespace FlvMeta

open Endian Stdio

variable {N : Type}

/-! ## Groups of pieces -/

section

variable [NumberImage N] (opts : FlvmetaOpts N) (info : FlvInfo N) (metadata : FlvMetadata N)
  (content : Bytes)

/-- The groups of pieces for the tags of a timeline; `seen` says that an `onLastSecond` tag has
been written before. -/
def layout (seen : Bool) : List TimedTag → List (List Piece)
  | [] => []
  | t :: ts =>
    if t.Replaced info then [onMetadataPiece metadata] :: layout seen ts
    else if InsertsOnLastSecond opts info seen (t.time opts info) then
      [onLastSecondPiece opts info metadata t, copyPiece opts info content t] :: layout true ts
    else [copyPiece opts info content t] :: layout seen ts

/-- Tags that are not truncated are written as their groups. -/
theorem blocks_layout {ts : List TimedTag} (h : ∀ t ∈ ts, ¬ t.Truncated content info)
    (seen : Bool) : blocks opts info metadata content seen ts =
      (.ok, (layout opts info metadata content seen ts).flatten) := by
  induction ts generalizing seen with
  | nil => rfl
  | cons t ts ih =>
    have htail := ih fun t ht => h t (List.mem_cons_of_mem _ ht)
    have hcopy : ∀ seen, copyBlock opts info content seen t =
        ⟨[copyPiece opts info content t], seen, none⟩ := fun _ => if_neg (h t List.mem_cons_self)
    unfold blocks block layout
    by_cases hreplaced : t.Replaced info
    · simp [hreplaced, htail]
    · by_cases hinsert : InsertsOnLastSecond opts info seen (t.time opts info)
      · simp [hreplaced, hinsert, hcopy, htail]
      · simp [hreplaced, hinsert, hcopy, htail]

/-- At most one `onLastSecond` tag is written. -/
theorem layout_inserted_le (seen : Bool) (ts : List TimedTag) :
    ((layout opts info metadata content seen ts).filter (·.length ≠ 1)).length ≤
      if seen then 0 else 1 := by
  induction ts generalizing seen with
  | nil => simp [layout]
  | cons t ts ih =>
    unfold layout
    split
    · simpa using ih seen
    · split
      · rename_i hinsert
        have hseen : seen = false := by simpa using hinsert.2.1
        simpa [hseen] using ih true
      · simpa using ih seen

end

/-! ## The output for a plain file -/

/-- The whole body of a tag is copied. -/
structure CopiedWhole (content : Bytes) (info : FlvInfo N) (t : TimedTag) : Prop where
  body : t.copied content info = tagBody content t.offset t.tag
  length : (t.copied content info).length = flvTagGetBodyLength t.tag

theorem CopiedWhole.not_truncated {content : Bytes} {info : FlvInfo N} {t : TimedTag}
    (h : CopiedWhole content info t) : ¬ t.Truncated content info := by
  have hle := copyLength_le info t.tag
  have hlength := h.length
  unfold TimedTag.Truncated
  omega

section

variable [Number64 N] (env : Environment) {opts : FlvmetaOpts N} {content : Bytes}
  {info : FlvInfo N} {stream : FlvStream}

/-- The tags of a plain file fit in the copy buffer that the first pass has asked for. -/
theorem copiedWhole_of_plain (hplain : PlainFile content)
    (hinfo : getFlvInfo opts (flvOpen content) = (.ok info, stream)) :
    ∀ t ∈ timedTags content, CopiedWhole content info t := by
  obtain ⟨header, st, rfl, -, -, hgathered⟩ := getFlvInfo_plain hplain hinfo
  intro t ht
  have hbody : t.copied content st.info = tagBody content t.offset t.tag :=
    copied_of_le (hgathered.biggest t ht)
  exact ⟨hbody, by
    rw [hbody, length_tagBody (hplain _ (mem_tags_of_mem_timeline ht)).complete]⟩

/-- The pieces for a plain file. -/
theorem outputPieces_plain (hplain : PlainFile content)
    (hinfo : getFlvInfo opts (flvOpen content) = (.ok info, stream)) :
    outputPieces opts info (computeMetadata env opts info) content =
      (if info.onMetadataSize = 0 then [onMetadataPiece (computeMetadata env opts info)] else []) ++
        (layout opts info (computeMetadata env opts info) content false
          (timedTags content)).flatten := by
  rw [outputPieces, blocks_layout opts info _ content fun t ht =>
    (copiedWhole_of_plain hplain hinfo t ht).not_truncated]

/-- What an update of a plain file writes: the header of the file, a zero previous tag size and
the pieces. -/
theorem rewritten_plain (hplain : PlainFile content)
    (hinfo : getFlvInfo opts (flvOpen content) = (.ok info, stream)) :
    rewritten env opts info content = (.ok, content.take 9 ++ (toBE 4 0 ++
      (outputPieces opts info (computeMetadata env opts info) content).flatMap Piece.bytes)) := by
  have hblocks := blocks_layout opts info (computeMetadata env opts info) content
    (fun t ht => (copiedWhole_of_plain hplain hinfo t ht).not_truncated) false
  obtain ⟨header, st, rfl, hheader, -, hgathered⟩ := getFlvInfo_plain hplain hinfo
  rw [rewritten, output, hblocks, hgathered.header, hheader]

/-- A plain file is written to a device without limit. -/
theorem exists_writeFlv_plain (hplain : PlainFile content)
    (hinfo : getFlvInfo opts (flvOpen content) = (.ok info, stream)) :
    ∃ stream' out, writeFlv opts info (computeMetadata env opts info) stream
      (Device.file ⟨none⟩) = (.ok, stream', out) := by
  obtain ⟨stream', hwrite⟩ := writeFlv_unlimited env hinfo
  rw [rewritten_plain env hplain hinfo] at hwrite
  exact ⟨stream', _, hwrite⟩

/-- A plain file is updated to another file on a device without limit. -/
theorem exists_updateMetadata_plain (hplain : PlainFile content)
    (hinfo : getFlvInfo opts (flvOpen content) = (.ok info, stream)) :
    ∃ out, updateMetadata env opts ⟨some content, false, none, some ⟨none⟩⟩ = (.ok, some out) := by
  have hupdate := updateMetadata_unlimited env hinfo
  rw [rewritten_plain env hplain hinfo] at hupdate
  exact ⟨_, hupdate⟩

omit [Number64 N] in
/-- A plain file has no tag whose writes are not checked. -/
theorem not_unchecked (hplain : PlainFile content) (info : FlvInfo N) :
    ¬ ∃ t ∈ timedTags content, Unchecked opts info content t := by
  rintro ⟨t, ht, -, -, htrunc⟩
  exact not_complete_of_truncated htrunc (hplain _ (mem_tags_of_mem_timeline ht)).complete

/-- All pieces for a plain file are records if the computed `onMetaData` tag is. -/
theorem outputPieces_fit (hplain : PlainFile content)
    (hinfo : getFlvInfo opts (flvOpen content) = (.ok info, stream))
    (hsize : amfDataSize (computeMetadata env opts info).onMetadataName +
      amfDataSize (computeMetadata env opts info).onMetadata < 2 ^ 24) :
    ∀ piece ∈ outputPieces opts info (computeMetadata env opts info) content, piece.Fits := by
  have hmeta := fits_onMetadataPiece env opts info hsize
  have hlayout : ∀ (ts : List TimedTag), (∀ t ∈ ts, CopiedWhole content info t) → ∀ seen,
      ∀ piece ∈ (layout opts info (computeMetadata env opts info) content seen ts).flatten,
        piece.Fits := by
    intro ts
    induction ts with
    | nil => simp [layout]
    | cons t ts ih =>
      intro hwhole seen
      have htail := ih fun t ht => hwhole t (List.mem_cons_of_mem _ ht)
      have hcopy : (copyPiece opts info content t).Fits := (hwhole t List.mem_cons_self).length
      have hlast := fits_onLastSecondPiece env opts info t
      unfold layout
      split
      · simpa [hmeta] using htail seen
      · split
        · simpa [hcopy, hlast] using htail true
        · simpa [hcopy] using htail seen
  rw [outputPieces_plain env hplain hinfo, List.forall_mem_append]
  refine ⟨?_, hlayout _ (copiedWhole_of_plain hplain hinfo) false⟩
  split
  · simpa using hmeta
  · simp

/-- The first pass has selected no tag, or exactly one. -/
theorem Gathered.selected_split {header : FlvHeader} {st : InfoState N}
    (h : Gathered opts content header (timedTags content) st) :
    (st.info.onMetadataSize = 0 ∧ ∀ t ∈ timedTags content, ¬ t.Replaced st.info) ∨
    ∃ xs t ys, timedTags content = xs ++ t :: ys ∧ t.Replaced st.info ∧
      t.tag.type = flvTagTypeMeta ∧
      st.info.onMetadataSize = flvTagGetBodyLength t.tag + 15 ∧
      ∀ u ∈ xs ++ ys, ¬ u.Replaced st.info := by
  rcases h.selected with ⟨hsize, hoffset⟩ | ⟨t, ht, htype, hoffset, hsize⟩
  · refine Or.inl ⟨hsize, fun t ht hreplaced => ?_⟩
    have hle := le_of_mem_tagsFrom 13 _ (mem_tags_of_mem_timeline ht)
    unfold TimedTag.Replaced at hreplaced
    omega
  · obtain ⟨xs, ys, hsplit⟩ := List.append_of_mem ht
    have hnodup : ((timedTags content).map (·.offset)).Nodup := by
      have hmap : (timedTags content).map (·.offset) = (tagsFrom content 13).map Prod.fst := by
        rw [← map_timeline Clocks.init (tagsFrom content 13), List.map_map]
        rfl
      rw [hmap]
      exact nodup_offsets content 13
    rw [hsplit, List.map_append, List.map_cons, List.nodup_middle] at hnodup
    refine Or.inr ⟨xs, t, ys, hsplit, hoffset, htype, hsize, fun u hu hreplaced => ?_⟩
    refine (List.nodup_cons.mp hnodup).1 ?_
    rw [← List.map_append]
    exact List.mem_map.mpr ⟨u, hu, hreplaced.symm.trans hoffset⟩

omit [Number64 N] in
/-- Without `onLastSecond` tags, each tag gives one piece. -/
theorem flatten_layout [NumberImage N] {opts : FlvmetaOpts N}
    (hinsert : opts.insertOnlastsecond = false) (info : FlvInfo N)
    (metadata : FlvMetadata N) (content : Bytes) (seen : Bool) (ts : List TimedTag) :
    (layout opts info metadata content seen ts).flatten = ts.map fun t =>
      if t.Replaced info then onMetadataPiece metadata else copyPiece opts info content t := by
  induction ts with
  | nil => rfl
  | cons t ts ih =>
    have hnot : ¬ InsertsOnLastSecond opts info seen (t.time opts info) := by
      simp [InsertsOnLastSecond, hinsert]
    rw [layout, List.map_cons, if_neg hnot]
    by_cases hreplaced : t.Replaced info
    · simp [hreplaced, ih]
    · simp [hreplaced, ih]

/-- Without `onLastSecond` tags, the pieces are the computed `onMetaData` tag, first or in its
place, and the copies. -/
theorem outputPieces_cases (hplain : PlainFile content)
    (hinfo : getFlvInfo opts (flvOpen content) = (.ok info, stream))
    (hinsert : opts.insertOnlastsecond = false) :
    (info.onMetadataSize = 0 ∧ outputPieces opts info (computeMetadata env opts info) content =
      onMetadataPiece (computeMetadata env opts info) ::
        (timedTags content).map (copyPiece opts info content)) ∨
    ∃ xs t ys, timedTags content = xs ++ t :: ys ∧ t.Replaced info ∧
      t.tag.type = flvTagTypeMeta ∧ info.onMetadataSize = flvTagGetBodyLength t.tag + 15 ∧
      outputPieces opts info (computeMetadata env opts info) content =
        xs.map (copyPiece opts info content) ++
          onMetadataPiece (computeMetadata env opts info) ::
            ys.map (copyPiece opts info content) := by
  have hcopies : ∀ ts : List TimedTag, (∀ t ∈ ts, ¬ t.Replaced info) →
      (ts.map fun t => if t.Replaced info then onMetadataPiece (computeMetadata env opts info)
        else copyPiece opts info content t) = ts.map (copyPiece opts info content) := fun ts h =>
    List.map_congr_left fun t ht => if_neg (h t ht)
  rw [outputPieces_plain env hplain hinfo, flatten_layout hinsert]
  obtain ⟨header, st, rfl, -, -, hgathered⟩ := getFlvInfo_plain hplain hinfo
  rcases hgathered.selected_split with ⟨hsize, hnone⟩ | ⟨xs, t, ys, hsplit, ht, htype, hsize, hrest⟩
  · exact Or.inl ⟨hsize, by rw [if_pos hsize, hcopies _ hnone, List.singleton_append]⟩
  · refine Or.inr ⟨xs, t, ys, hsplit, ht, htype, hsize, ?_⟩
    rw [if_neg (by omega), hsplit, List.map_append, List.map_cons, if_pos ht,
      hcopies xs fun u hu => hrest u (List.mem_append_left _ hu),
      hcopies ys fun u hu => hrest u (List.mem_append_right _ hu), List.nil_append]

/-! ## Tags are copied verbatim -/

/-- A piece that keeps everything of a tag but its timestamp. -/
structure Verbatim (content : Bytes) (x : Nat × FlvTag) (piece : Piece) : Prop where
  type : piece.tag.type = x.2.type
  streamId : piece.tag.streamId = x.2.streamId
  bodyLength : piece.tag.bodyLength = x.2.bodyLength
  body : piece.body = tagBody content x.1 x.2

/-- How a tag of the input appears in the output: the tag at `offset` is replaced, any other is
copied, perhaps behind an `onLastSecond` tag. -/
inductive Appears (content : Bytes) (offset : Nat) (onMetadata : Piece)
    (onLastSecond : TimedTag → Piece) : Nat × FlvTag → List Piece → Prop
  | replaced {x} : x.1 = offset → Appears content offset onMetadata onLastSecond x [onMetadata]
  | copied {x piece} : x.1 ≠ offset → Verbatim content x piece →
    Appears content offset onMetadata onLastSecond x [piece]
  | preceded {x piece} (t : TimedTag) : x.1 ≠ offset → Verbatim content x piece →
    Appears content offset onMetadata onLastSecond x [onLastSecond t, piece]

omit [Number64 N] in
theorem verbatim_copyPiece (opts : FlvmetaOpts N) {t : TimedTag} (h : CopiedWhole content info t) :
    Verbatim content (t.offset, t.tag) (copyPiece opts info content t) :=
  ⟨rfl, rfl, rfl, h.body⟩

omit [Number64 N] in
theorem layout_appears [NumberImage N] (opts : FlvmetaOpts N) (metadata : FlvMetadata N)
    {ts : List TimedTag}
    (h : ∀ t ∈ ts, CopiedWhole content info t) (seen : Bool) :
    List.Forall₂ (Appears content info.onMetadataOffset (onMetadataPiece metadata)
      (onLastSecondPiece opts info metadata))
      (ts.map fun t => (t.offset, t.tag)) (layout opts info metadata content seen ts) := by
  induction ts generalizing seen with
  | nil => exact .nil
  | cons t ts ih =>
    have htail := ih fun t ht => h t (List.mem_cons_of_mem _ ht)
    have hcopy := verbatim_copyPiece opts (h t List.mem_cons_self)
    unfold layout
    split
    · rename_i hreplaced
      exact .cons (.replaced hreplaced.symm) (htail seen)
    · rename_i hreplaced
      split
      · exact .cons (.preceded t (Ne.symm hreplaced) hcopy) (htail true)
      · exact .cons (.copied (Ne.symm hreplaced) hcopy) (htail seen)

/-- The first pass has selected no tag just when no tag has the selected offset. -/
theorem Gathered.selected_iff {header : FlvHeader} {st : InfoState N}
    (h : Gathered opts content header (timedTags content) st) :
    st.info.onMetadataSize = 0 ↔
      ¬ ∃ x ∈ tagsFrom content 13, x.1 = st.info.onMetadataOffset := by
  rcases h.selected with ⟨hsize, hoffset⟩ | ⟨t, ht, -, hoffset, hsize⟩
  · refine ⟨fun _ => ?_, fun _ => hsize⟩
    rintro ⟨x, hx, hxo⟩
    have hle := le_of_mem_tagsFrom 13 x hx
    omega
  · refine ⟨fun hzero => absurd hzero (by omega), fun hnone => ?_⟩
    exact absurd ⟨_, mem_tags_of_mem_timeline ht, hoffset.symm⟩ hnone

/-- When both passes succeed on a plain file, the output is the header of the input, a zero
previous tag size and records in the order of the input. The tag at the selected offset is
replaced by the computed `onMetaData` tag, which comes first if there is no such tag. Every other
tag is copied verbatim, and at most one `onLastSecond` tag is inserted. -/
theorem writeFlv_verbatim (hplain : PlainFile content)
    (hinfo : getFlvInfo opts (flvOpen content) = (.ok info, stream))
    (hsize : amfDataSize (computeMetadata env opts info).onMetadataName +
      amfDataSize (computeMetadata env opts info).onMetadata < 2 ^ 24)
    {device : Device} {stream' : FlvStream} {out : OutFile}
    (hwrite : writeFlv opts info (computeMetadata env opts info) stream device.file =
      (.ok, stream', out)) :
    ∃ (first : List Piece) (groups : List (List Piece)),
      out.written =
        content.take 9 ++ ([0, 0, 0, 0] ++ (first ++ groups.flatten).flatMap Piece.bytes) ∧
      (∀ piece ∈ first ++ groups.flatten, piece.Fits) ∧
      first = (if ∃ x ∈ tagsFrom content 13, x.1 = info.onMetadataOffset then []
        else [onMetadataPiece (computeMetadata env opts info)]) ∧
      List.Forall₂ (Appears content info.onMetadataOffset
        (onMetadataPiece (computeMetadata env opts info))
        (onLastSecondPiece opts info (computeMetadata env opts info)))
        (tagsFrom content 13) groups ∧
      (groups.filter (·.length ≠ 1)).length ≤ 1 := by
  have hpieces := outputPieces_plain env hplain hinfo
  have hfit := outputPieces_fit env hplain hinfo hsize
  obtain ⟨-, hout⟩ :=
    (writeFlv_rewritten env hinfo hwrite).of_ok rfl (not_unchecked hplain info)
  rw [rewritten_plain env hplain hinfo, hpieces] at hout
  rw [hpieces] at hfit
  refine ⟨_, _, ?_, hfit, ?_, ?_, layout_inserted_le _ _ _ _ false _⟩
  · rw [hout]
    rfl
  · obtain ⟨header, st, rfl, -, -, hgathered⟩ := getFlvInfo_plain hplain hinfo
    rw [if_congr hgathered.selected_iff rfl rfl, ite_not]
  · have happears := layout_appears opts (computeMetadata env opts info)
      (copiedWhole_of_plain hplain hinfo) false
    rwa [timedTags, map_timeline] at happears

end

theorem plainFile_shortMovie : PlainFile shortMovie := by
  apply PlainFile.of_scripts
  · rw [tags_shortMovie]
    decide
  · rw [tags_shortMovie]
    refine List.forall_mem_singleton.mpr ?_
    exact ⟨⟨ascii "onMetaData", by decide⟩, .associativeArray [], [],
      by simp [WellFormed, WellFormedPairs], rfl⟩

/-- Its first tag is replaced, the others are copied, and an `onLastSecond` tag is put between
them. -/
theorem writeFlv_verbatim_shortMovie :
    letI := blankImage
    letI opts : FlvmetaOpts ℚ := defaultOptions
    letI env : Environment := ⟨[], 0⟩
    ∃ (info : FlvInfo ℚ) (stream stream' : FlvStream) (out : OutFile),
      getFlvInfo opts (flvOpen shortMovie) = (.ok info, stream) ∧
      info.onMetadataOffset = 13 ∧ countsOnLastSecond opts info = true ∧
      writeFlv opts info (computeMetadata env opts info) stream (Device.file ⟨none⟩) =
        (.ok, stream', out) ∧
      ∃ (first : List Piece) (groups : List (List Piece)),
        out.written =
          shortMovie.take 9 ++ ([0, 0, 0, 0] ++ (first ++ groups.flatten).flatMap Piece.bytes) ∧
        (∀ piece ∈ first ++ groups.flatten, piece.Fits) ∧
        first = (if ∃ x ∈ tagsFrom shortMovie 13, x.1 = info.onMetadataOffset then []
          else [onMetadataPiece (computeMetadata env opts info)]) ∧
        List.Forall₂ (Appears shortMovie info.onMetadataOffset
          (onMetadataPiece (computeMetadata env opts info))
          (onLastSecondPiece opts info (computeMetadata env opts info)))
          (tagsFrom shortMovie 13) groups ∧
        (groups.filter (·.length ≠ 1)).length ≤ 1 := by
  let := blankImage
  let opts : FlvmetaOpts ℚ := defaultOptions
  let env : Environment := ⟨[], 0⟩
  have hpass : infoTest opts shortMovie (fun info =>
      decide (info.onMetadataOffset = 13 ∧ countsOnLastSecond opts info = true ∧
        amfDataSize (computeMetadata env opts info).onMetadataName +
          amfDataSize (computeMetadata env opts info).onMetadata < 2 ^ 24)) = true := by
    decide +kernel
  obtain ⟨info, stream, hinfo, htest⟩ := of_infoTest hpass
  obtain ⟨hoffset, hcounts, hsize⟩ := of_decide_eq_true htest
  obtain ⟨stream', out, hwrite⟩ := exists_writeFlv_plain env plainFile_shortMovie hinfo
  exact ⟨info, stream, stream', out, hinfo, hoffset, hcounts, hwrite,
    writeFlv_verbatim env plainFile_shortMovie hinfo hsize hwrite⟩

end FlvMeta
