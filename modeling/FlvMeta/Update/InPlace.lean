import FlvMeta.Update.Files

/-!
# Updating a file in place

When the output file is the input file, the new content is written to a temporary file, and this is
copied over the original whatever the status of the writing was. The loop that copies it reports
a write error when it ends at a multiple of its buffer size. `inPlace_unchanged_iff` says
when a failing update has left the file alone, `inPlace_copied_iff` when the copy ends well.
-/

namespace FlvMeta

open Endian Stdio

variable {N : Type} [Number64 N]

/-- The files of an update in place on which no operation fails. -/
def inPlaceFiles (content : Bytes) : UpdateFiles := ⟨some content, true, some ⟨none⟩, some ⟨none⟩⟩

/-- The content of the file after an update in place. -/
def contentAfter (env : Environment) (opts : FlvmetaOpts N) (content : Bytes) : Bytes :=
  match (updateMetadata env opts (inPlaceFiles content)).2 with
  | none => content
  | some real => real.written

theorem updateMetadata_inPlace_error {opts : FlvmetaOpts N} {content : Bytes} {status : Status}
    {stream : FlvStream} (h : getFlvInfo opts (flvOpen content) = (.error status, stream))
    (env : Environment) : updateMetadata env opts (inPlaceFiles content) = (status, none) := by
  simp only [updateMetadata, inPlaceFiles, h]

/-- Once the analysis has succeeded, the file has the new content whatever the status is. -/
theorem updateMetadata_inPlace_ok {opts : FlvmetaOpts N} {content : Bytes} {info : FlvInfo N}
    {stream : FlvStream} (h : getFlvInfo opts (flvOpen content) = (.ok info, stream))
    (env : Environment) : updateMetadata env opts (inPlaceFiles content) =
      (if (rewritten env opts info content).2.length % copyBufferSize = 0 then .errorWrite
        else (rewritten env opts info content).1,
        some ⟨(rewritten env opts info content).2, none⟩) := by
  obtain ⟨stream', hwrite⟩ := writeFlv_unlimited env h
  have hcopy :=
    (copyBack_whole (rewritten env opts info content).2 (Device.file ⟨none⟩)).of_unlimited rfl
  simp only [updateMetadata, inPlaceFiles, h, if_true, hwrite]
  split
  · rename_i real hget
    rw [hget] at hcopy
    obtain ⟨hst, hreal⟩ := hcopy
    have hmod : ¬ (rewritten env opts info content).2.length % copyBufferSize = 0 := by
      intro hmod
      rw [if_pos hmod] at hst
      cases hst
    rw [if_neg hmod]
    have hreal' : real = (Device.file ⟨none⟩).append (rewritten env opts info content).2 := hreal
    rw [hreal']
    rfl
  · rename_i status real hne hget
    rw [hget] at hcopy
    obtain ⟨hst, hreal⟩ := hcopy
    have hstatus : status = if (rewritten env opts info content).2.length % copyBufferSize = 0
        then .errorWrite else .ok := hst
    have hreal' : real = (Device.file ⟨none⟩).append (rewritten env opts info content).2 := hreal
    have hmod : (rewritten env opts info content).2.length % copyBufferSize = 0 := by
      by_contra hmod
      rw [if_neg hmod] at hstatus
      exact hne hstatus
    simp only [hstatus, hreal', hmod, if_true]
    rfl

theorem contentAfter_ok {opts : FlvmetaOpts N} {content : Bytes} {info : FlvInfo N}
    {stream : FlvStream} (h : getFlvInfo opts (flvOpen content) = (.ok info, stream))
    (env : Environment) : contentAfter env opts content = (rewritten env opts info content).2 := by
  rw [contentAfter, updateMetadata_inPlace_ok h env]

/-- The loop copies a file that is not empty as a whole, and it reports this if and only if it ends
in the middle of a block. -/
theorem copyBack_ok_iff {fuel : Nat} (bs : Bytes) (hfuel : bs.length < fuel) :
    copyBack fuel (InFile.ofContent bs) (Device.file ⟨none⟩) = some (.ok, ⟨bs, none⟩) ↔
      bs.length % copyBufferSize ≠ 0 := by
  have hsome : (copyBack fuel (InFile.ofContent bs) (Device.file ⟨none⟩)).isSome :=
    copyBack_isSome (Device.file ⟨none⟩) hfuel
  obtain ⟨⟨status, real⟩, hcopy⟩ := Option.isSome_iff_exists.mp hsome
  have houtcome := copyBack_outcome rfl hfuel hcopy
  obtain ⟨hstatus, hreal⟩ := houtcome.of_unlimited rfl
  have hrest : (InFile.ofContent bs).rest = bs := rfl
  rw [hrest] at hstatus hreal
  have hwhole : (Device.file ⟨none⟩).append bs = ⟨bs, none⟩ := by simp [Device.file, OutFile.append]
  rw [hcopy, hstatus, hreal, hwhole]
  split
  · rename_i hmod
    simp [hmod]
  · rename_i hmod
    simp [hmod]

/-- The copy of the temporary file completes, and with it the update, if and only if the length of
the temporary file is not a multiple of the buffer size: for any content of the temporary file, and
for the one that `writeFlv` has written without an error. -/
theorem inPlace_copied_iff :
    (∀ (bs : Bytes) (fuel : Nat), bs ≠ [] → bs.length < fuel →
      (copyBack fuel (InFile.ofContent bs) (Device.file ⟨none⟩) = some (.ok, ⟨bs, none⟩) ↔
        bs.length % copyBufferSize ≠ 0)) ∧
    ∀ (env : Environment) (opts : FlvmetaOpts N) (content : Bytes) (info : FlvInfo N)
      (stream stream' : FlvStream) (flvOut : OutFile),
      getFlvInfo opts (flvOpen content) = (.ok info, stream) →
      writeFlv opts info (computeMetadata env opts info) stream (Device.file ⟨none⟩) =
        (.ok, stream', flvOut) →
      (updateMetadata env opts (inPlaceFiles content) = (.ok, some ⟨flvOut.written, none⟩) ↔
        flvOut.written.length % copyBufferSize ≠ 0) := by
  constructor
  · intro bs fuel _ hfuel
    exact copyBack_ok_iff bs hfuel
  · intro env opts content info stream stream' flvOut hinfo hwrite
    obtain ⟨stream₁, hwrite₁⟩ := writeFlv_unlimited env hinfo
    rw [hwrite] at hwrite₁
    obtain ⟨hok, hrest⟩ := Prod.mk.inj hwrite₁
    obtain ⟨-, rfl⟩ := Prod.mk.inj hrest
    rw [updateMetadata_inPlace_ok hinfo env, ← hok]
    split
    · rename_i hmod
      simp [hmod]
    · rename_i hmod
      simp [hmod]

/-- A failing update in place leaves the file unchanged if and only if the analysis rejects the
file, or what is written is the file itself, or writing it succeeds (no copied tag is truncated,
or truncated tags are tolerated) and its length is not a multiple of the buffer size. -/
theorem inPlace_unchanged_iff (env : Environment) (opts : FlvmetaOpts N) (content : Bytes) :
    ((updateMetadata env opts (inPlaceFiles content)).1 ≠ .ok →
      contentAfter env opts content = content) ↔
    ∀ info stream, getFlvInfo opts (flvOpen content) = (.ok info, stream) →
      (rewritten env opts info content).2 = content ∨
      ((opts.errorHandling = .exitOnError → ∀ t ∈ timedTags content,
          ¬ t.Replaced info → ¬ t.Truncated content info) ∧
        (rewritten env opts info content).2.length % copyBufferSize ≠ 0) := by
  cases hinfo : getFlvInfo opts (flvOpen content) with
  | mk result stream =>
    cases result with
    | error status =>
      have hupdate := updateMetadata_inPlace_error hinfo env
      constructor
      · intro _ info stream h
        cases h
      · intro _ _
        rw [contentAfter, hupdate]
    | ok info =>
      have hupdate := updateMetadata_inPlace_ok hinfo env
      have hstatus := blocks_status opts info (computeMetadata env opts info) content false
        (timedTags content)
      have hafter := contentAfter_ok hinfo env
      have hok : (rewritten env opts info content).1 = .ok ↔
          (opts.errorHandling = .exitOnError → ∀ t ∈ timedTags content,
            ¬ t.Replaced info → ¬ t.Truncated content info) := hstatus
      rw [hafter, hupdate]
      constructor
      · intro h info' stream' heq
        cases heq
        by_cases hmod : (rewritten env opts info content).2.length % copyBufferSize = 0
        · rw [if_pos hmod] at h
          exact Or.inl (h nofun)
        · rw [if_neg hmod] at h
          by_cases hst : (rewritten env opts info content).1 = .ok
          · exact Or.inr ⟨hok.mp hst, hmod⟩
          · exact Or.inl (h hst)
      · intro h hne
        rcases h info stream rfl with heq | ⟨hcopied, hmod⟩
        · exact heq
        · rw [if_neg hmod] at hne
          exact absurd (hok.mpr hcopied) hne

/-- A file of one audio tag of five bytes, of which one is there. -/
def truncatedAudio : Bytes :=
  [0x46, 0x4C, 0x56, 1, 4, 0, 0, 0, 9, 0, 0, 0, 0, 8, 0, 0, 5, 0, 0, 0, 0, 0, 0, 0, 0x2F]

/-- The metadata are written before the truncated tag is found. -/
theorem truncatedAudio_written :
    letI := blankImage
    letI env : Environment := ⟨[], 0⟩
    infoTest (defaultOptions : FlvmetaOpts ℚ) truncatedAudio (fun info =>
      letI metadata := computeMetadata env defaultOptions info
      decide (info.onMetadataSize = 0 ∧
        (rewritten env defaultOptions info truncatedAudio).1 = .errorEof ∧
        13 + (amfDataSize metadata.onMetadataName + amfDataSize metadata.onMetadata + 15) +
          ((blocks defaultOptions info metadata truncatedAudio false
            (timedTags truncatedAudio)).2.map fun piece =>
              piece.bytes.length).sum = 568)) = true := by
  decide +kernel

/-- The truncated tag is an error, and the file has been changed. -/
theorem inPlace_changed :
    letI := blankImage
    (updateMetadata ⟨[], 0⟩ (defaultOptions : FlvmetaOpts ℚ) (inPlaceFiles truncatedAudio)).1 =
        .errorEof ∧
      contentAfter ⟨[], 0⟩ (defaultOptions : FlvmetaOpts ℚ) truncatedAudio ≠ truncatedAudio := by
  let := blankImage
  let env : Environment := ⟨[], 0⟩
  obtain ⟨info, stream, hinfo, hpass⟩ := of_infoTest truncatedAudio_written
  obtain ⟨hzero, hstatus, hlength⟩ := of_decide_eq_true hpass
  rw [← length_rewritten env hzero] at hlength
  constructor
  · rw [updateMetadata_inPlace_ok hinfo env, hlength, if_neg (by decide), hstatus]
  · rw [contentAfter_ok hinfo env]
    intro heq
    rw [heq] at hlength
    exact absurd hlength (by decide)

/-- A file of one audio tag of a given length. -/
def audioTagFile (n : Nat) : Bytes :=
  [0x46, 0x4C, 0x56, 1, 4, 0, 0, 0, 9, 0, 0, 0, 0] ++
    (flvTagTypeAudio :: toBE 3 n ++ List.replicate 7 0) ++ List.replicate n 0x2F ++ toBE 4 (n + 11)

/-- The update makes this file 4096 bytes long: it has been copied as a whole, and the update
reports a write error. -/
theorem inPlace_not_copied :
    letI := blankImage
    letI env : Environment := ⟨ascii "flvmeta 1.2.2", 0⟩
    ∃ (info : FlvInfo ℚ) (stream stream' : FlvStream) (flvOut : OutFile),
      getFlvInfo defaultOptions (flvOpen (audioTagFile 3500)) = (.ok info, stream) ∧
      writeFlv defaultOptions info (computeMetadata env defaultOptions info) stream
        (Device.file ⟨none⟩) = (.ok, stream', flvOut) ∧
      flvOut.written ≠ [] ∧
      updateMetadata env (defaultOptions : FlvmetaOpts ℚ) (inPlaceFiles (audioTagFile 3500)) =
        (.errorWrite, some ⟨flvOut.written, none⟩) := by
  let := blankImage
  let env : Environment := ⟨ascii "flvmeta 1.2.2", 0⟩
  have hpass : infoTest (defaultOptions : FlvmetaOpts ℚ) (audioTagFile 3500) (fun info =>
      letI metadata := computeMetadata env defaultOptions info
      decide (info.onMetadataSize = 0 ∧
        (rewritten env defaultOptions info (audioTagFile 3500)).1 = .ok ∧
        13 + (amfDataSize metadata.onMetadataName + amfDataSize metadata.onMetadata + 15) +
          ((blocks defaultOptions info metadata (audioTagFile 3500) false
            (timedTags (audioTagFile 3500))).2.map fun piece => piece.bytes.length).sum =
          copyBufferSize)) = true := by
    decide +kernel
  obtain ⟨info, stream, hinfo, htest⟩ := of_infoTest hpass
  obtain ⟨hzero, hok, hlength⟩ := of_decide_eq_true htest
  rw [← length_rewritten env hzero] at hlength
  obtain ⟨stream', hwrite⟩ := writeFlv_unlimited env hinfo
  rw [hok] at hwrite
  refine ⟨info, stream, stream', _, hinfo, hwrite, ?_, ?_⟩
  · intro hnil
    have hempty : (rewritten env defaultOptions info (audioTagFile 3500)).2 = [] := hnil
    rw [hempty] at hlength
    cases hlength
  · rw [updateMetadata_inPlace_ok hinfo env, hlength]
    rfl

/-- A file of one audio byte is copied back. -/
theorem inPlace_copied_iff_oneByte :
    letI := blankImage
    letI env : Environment := ⟨ascii "flvmeta 1.2.2", 0⟩
    (copyBack 2 (InFile.ofContent [0x2F]) (Device.file ⟨none⟩) = some (.ok, ⟨[0x2F], none⟩) ↔
      1 % copyBufferSize ≠ 0) ∧
    ∃ (info : FlvInfo ℚ) (stream stream' : FlvStream) (flvOut : OutFile),
      getFlvInfo defaultOptions (flvOpen (audioTagFile 1)) = (.ok info, stream) ∧
      writeFlv defaultOptions info (computeMetadata env defaultOptions info) stream
        (Device.file ⟨none⟩) = (.ok, stream', flvOut) ∧
      (updateMetadata env (defaultOptions : FlvmetaOpts ℚ) (inPlaceFiles (audioTagFile 1)) =
        (.ok, some ⟨flvOut.written, none⟩) ↔ flvOut.written.length % copyBufferSize ≠ 0) := by
  let := blankImage
  let env : Environment := ⟨ascii "flvmeta 1.2.2", 0⟩
  have hpass : infoTest (defaultOptions : FlvmetaOpts ℚ) (audioTagFile 1) (fun info =>
      decide ((rewritten env defaultOptions info (audioTagFile 1)).1 = .ok)) = true := by
    rfl
  obtain ⟨info, stream, hinfo, htest⟩ := of_infoTest hpass
  obtain ⟨stream', hwrite⟩ := writeFlv_unlimited env hinfo
  rw [of_decide_eq_true htest] at hwrite
  obtain ⟨hcopy, hupdate⟩ := inPlace_copied_iff (N := ℚ)
  exact ⟨hcopy [0x2F] 2 (by decide) (by decide), info, stream, stream', _, hinfo, hwrite,
    hupdate env defaultOptions (audioTagFile 1) info stream stream' _ hinfo hwrite⟩

end FlvMeta
