import FlvMeta.Update.Files

/-!
# The output of the tolerant modes

A tag is copied with the header that it has in the input. Its copy is a record only when all of its
declared body is copied, which fails for a body cut to the size of the copy buffer and for a
truncated tag that is copied as far as it goes. `tolerant_records_iff` says that these are
the only faults of the output.
-/

namespace FlvMeta

open Endian Stdio

variable {N : Type}

/-! ## Copies that are records -/

/-- A tag is written as a record: it is replaced, or copied in full, or left out. -/
def Sound (opts : FlvmetaOpts N) (info : FlvInfo N) (content : Bytes) (t : TimedTag) : Prop :=
  t.Replaced info ∨
    if t.Truncated content info then opts.errorHandling = .fixErrors
    else flvTagGetBodyLength t.tag ≤ info.biggestTagBodySize

instance (opts : FlvmetaOpts N) (info : FlvInfo N) (content : Bytes) (t : TimedTag) :
    Decidable (Sound opts info content t) := inferInstanceAs (Decidable (_ ∨ _))

theorem fits_copyPiece_iff (opts : FlvmetaOpts N) (info : FlvInfo N) (content : Bytes)
    (t : TimedTag) : (copyPiece opts info content t).Fits ↔
      ¬ t.Truncated content info ∧ flvTagGetBodyLength t.tag ≤ info.biggestTagBodySize := by
  have hfits : (copyPiece opts info content t).Fits ↔
      (t.copied content info).length = flvTagGetBodyLength t.tag := Iff.rfl
  have hle := length_copied_le content info t
  have hcopy := copyLength_le info t.tag
  rw [hfits]
  unfold TimedTag.Truncated
  constructor
  · intro h
    refine ⟨by omega, ?_⟩
    by_contra hlt
    have hcut : copyLength info t.tag = info.biggestTagBodySize := if_pos (by omega)
    omega
  · rintro ⟨hall, hbig⟩
    rw [copyLength_of_le hbig] at hle hall
    omega

theorem copyBlock_fits_iff {opts : FlvmetaOpts N} {info : FlvInfo N} {content : Bytes}
    (hmode : opts.errorHandling ≠ .exitOnError)
    (haveOnLastSecond : Bool) {t : TimedTag} (hreplaced : ¬ t.Replaced info) :
    (∀ piece ∈ (copyBlock opts info content haveOnLastSecond t).pieces, piece.Fits) ↔
      Sound opts info content t := by
  have hcopy := fits_copyPiece_iff opts info content t
  unfold copyBlock Sound
  by_cases htrunc : t.Truncated content info
  · simp only [htrunc, if_true, hreplaced, false_or]
    cases hmode' : opts.errorHandling with
    | exitOnError => exact absurd hmode' hmode
    | fixErrors => simp
    | ignoreErrors => simp [hcopy, htrunc]
  · simp [htrunc, hreplaced, hcopy]

section

variable [NumberImage N] {opts : FlvmetaOpts N} {info : FlvInfo N} {metadata : FlvMetadata N}
  (content : Bytes)

theorem block_fits_iff (hmode : opts.errorHandling ≠ .exitOnError)
    (hmetadata : (onMetadataPiece metadata).Fits)
    (hlast : ∀ t, (onLastSecondPiece opts info metadata t).Fits)
    (haveOnLastSecond : Bool) (t : TimedTag) :
    (∀ piece ∈ (block opts info metadata content haveOnLastSecond t).pieces, piece.Fits) ↔
      Sound opts info content t := by
  unfold block
  by_cases hreplaced : t.Replaced info
  · simp [hreplaced, hmetadata, Sound]
  · rw [if_neg hreplaced]
    split
    · rw [List.forall_mem_cons, copyBlock_fits_iff hmode true hreplaced]
      simp [hlast t]
    · exact copyBlock_fits_iff hmode haveOnLastSecond hreplaced

/-- Every piece that the loop writes is a record if and only if every tag is sound. A truncated
tag ends the loop, but it is the last tag of the file. -/
theorem blocks_fits_iff (hmode : opts.errorHandling ≠ .exitOnError)
    (hmetadata : (onMetadataPiece metadata).Fits)
    (hlast : ∀ t, (onLastSecondPiece opts info metadata t).Fits)
    (p : Nat) : ∀ (haveOnLastSecond : Bool) (clocks : Clocks),
    (∀ piece ∈ (blocks opts info metadata content haveOnLastSecond
        (timeline clocks (tagsFrom content p))).2, piece.Fits) ↔
      ∀ t ∈ timeline clocks (tagsFrom content p), Sound opts info content t := by
  induction p using tagsFrom_induction content with
  | nil p hlt => simp [timeline, blocks]
  | cons p tag hle htag ih =>
    intro haveOnLastSecond clocks
    simp only [timeline, blocks, List.forall_mem_cons]
    generalize ht : (⟨p, tag, (clocks.fix tag).1⟩ : TimedTag) = t
    have hblock := block_fits_iff content hmode hmetadata hlast haveOnLastSecond t
    have hstop := block_stop opts info metadata content haveOnLastSecond t
    by_cases hshort : ¬ t.Replaced info ∧ t.Truncated content info
    · have hlastTag := not_complete_of_truncated hshort.2
      rw [← ht] at hlastTag
      rw [if_pos hshort] at hstop
      simp only [hstop, tagsFrom_nextTag_of_not_complete hlastTag, timeline, hblock]
      simp
    · rw [if_neg hshort] at hstop
      simp only [hstop, List.forall_mem_append, hblock, ih]

/-- The bodies of all pieces that the loop writes are shorter than `2^24` bytes. -/
theorem blocks_short (hmetadata : (onMetadataPiece metadata).Fits)
    (hlast : ∀ t, (onLastSecondPiece opts info metadata t).Fits) (haveOnLastSecond : Bool)
    (ts : List TimedTag) :
    ∀ piece ∈ (blocks opts info metadata content haveOnLastSecond ts).2,
      piece.body.length < 2 ^ 24 := by
  have hfits : ∀ piece : Piece, piece.Fits → piece.body.length < 2 ^ 24 := by
    intro piece h
    rw [h]
    exact flvTagGetBodyLength_lt _
  have hcopy : ∀ t haveOnLastSecond,
      ∀ piece ∈ (copyBlock opts info content haveOnLastSecond t).pieces,
        piece.body.length < 2 ^ 24 := by
    intro t haveOnLastSecond piece hpiece
    have hpiece : piece = copyPiece opts info content t := by
      unfold copyBlock at hpiece
      split at hpiece
      · split at hpiece <;> simp_all
      · simpa using hpiece
    have hcopied := length_copied_le content info t
    have hlength := copyLength_le info t.tag
    have hbound := flvTagGetBodyLength_lt t.tag
    rw [hpiece]
    show (t.copied content info).length < 2 ^ 24
    omega
  have hblock : ∀ t haveOnLastSecond,
      ∀ piece ∈ (block opts info metadata content haveOnLastSecond t).pieces,
        piece.body.length < 2 ^ 24 := by
    intro t haveOnLastSecond
    unfold block
    split
    · exact List.forall_mem_singleton.mpr (hfits _ hmetadata)
    · split
      · exact List.forall_mem_cons.mpr ⟨hfits _ (hlast t), hcopy t true⟩
      · exact hcopy t haveOnLastSecond
  induction ts generalizing haveOnLastSecond with
  | nil => exact List.forall_mem_nil _
  | cons t ts ih =>
    unfold blocks
    dsimp only
    split
    · exact hblock t haveOnLastSecond
    · exact List.forall_mem_append.mpr ⟨hblock t haveOnLastSecond, ih _⟩

end

/-! ## The output -/

variable [Number64 N]

/-- An `onMetaData` tag, an audio tag, a video tag, a tag of an unknown type, and an audio tag
that declares four bytes and has two. -/
def truncatedFile : Bytes :=
  [0x46, 0x4C, 0x56, 1, 5, 0, 0, 0, 9, 0, 0, 0, 0] ++
    ([18, 0, 0, 21, 0, 0, 0, 0, 0, 0, 0, 2, 0, 10] ++ ascii "onMetaData" ++
      [8, 0, 0, 0, 0, 0, 0, 9, 0, 0, 0, 32]) ++
    [8, 0, 0, 2, 0, 0, 0, 0, 0, 0, 0, 0x2F, 1, 0, 0, 0, 13] ++
    [9, 0, 0, 3, 0, 0, 10, 0, 0, 0, 0, 0x22, 1, 2, 0, 0, 0, 14] ++
    [7, 0, 0, 1, 0, 0, 10, 0, 0, 0, 0, 0x22, 0, 0, 0, 12] ++
    [8, 0, 0, 4, 0, 0, 20, 0, 0, 0, 0, 0x2F, 1]

end FlvMeta
