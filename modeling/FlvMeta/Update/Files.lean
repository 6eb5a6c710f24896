import FlvMeta.Update.Output

/-!
# Updating a file

`updateMetadata` is the whole update: the analysis of the input, the writing of the output, and,
when both are the same file, the copy of a temporary file over it. The devices behind the files
are parameters; opening a file can fail, and so can writing to it.
-/

namespace FlvMeta

open Stdio

/-! ## Copying the temporary file back -/

/-- `COPY_BUFFER_SIZE`. -/
def copyBufferSize : Nat := 4096

/-- The loop that copies the temporary file into the output file. -/
def copyBack : Nat → InFile → OutFile → Option (Status × OutFile)
  | 0, _, _ => none
  | fuel + 1, flvOut, real =>
    if flvOut.eof then some (.ok, real)
    else
      match flvOut.fread copyBufferSize with
      | (buffer, flvOut) =>
        if 0 < buffer.length then
          match put buffer real with
          | (true, real) => copyBack fuel flvOut real
          | (false, real) => some (.errorWrite, real)
        else some (.errorWrite, real)

theorem copyBack_isSome {fuel : Nat} {flvOut : InFile} (real : OutFile)
    (hfuel : flvOut.rest.length < fuel) : (copyBack fuel flvOut real).isSome := by
  induction fuel generalizing flvOut real with
  | zero => omega
  | succ fuel ih =>
    rw [copyBack]
    split
    · rfl
    · dsimp only
      split
      · rename_i hpos
        have hread := fileSource.rest_read_le copyBufferSize flvOut
        have hlen : ((flvOut.fread copyBufferSize).2).rest.length < fuel := by
          simp only [fileSource] at hread
          omega
        split
        · exact ih _ hlen
        · rfl
      · rfl

/-- The copy is complete, but its loop ends well only when the last read is a short one that is not
empty. -/
theorem copyBack_outcome {fuel : Nat} {flvOut : InFile} {real real' : OutFile} {status : Status}
    (heof : flvOut.eof = false) (hfuel : flvOut.rest.length < fuel)
    (h : copyBack fuel flvOut real = some (status, real')) :
    Outcome real (if flvOut.rest.length % copyBufferSize = 0 then .errorWrite else .ok)
      flvOut.rest False status real' := by
  induction fuel generalizing flvOut real with
  | zero => omega
  | succ fuel ih =>
    rw [copyBack, heof] at h
    rcases InFile.fread_cases copyBufferSize flvOut with ⟨hle, hread⟩ | ⟨hlt, hread⟩
    · have hlen : (flvOut.rest.take copyBufferSize).length = copyBufferSize := by
        rw [List.length_take, Nat.min_eq_left hle]
      have hpos : 0 < copyBufferSize := by decide
      have hrest : (flvOut.advance copyBufferSize).rest.length =
          flvOut.rest.length - copyBufferSize := by
        rw [InFile.rest_advance, List.length_drop]
      have hmod : (flvOut.rest.length - copyBufferSize) % copyBufferSize =
          flvOut.rest.length % copyBufferSize := (Nat.mod_eq_sub_mod hle).symm
      simp only [hread, hlen, hpos, if_true, Bool.false_eq_true, if_false] at h
      rcases (emits_put (flvOut.rest.take copyBufferSize)).cases real with hw | ⟨real₁, hw, hl⟩
      · simp only [hw] at h
        have hih := ih (show (flvOut.advance copyBufferSize).eof = false from heof) (by omega) h
        rw [hrest, hmod, InFile.rest_advance] at hih
        have hall := hih.prepend
        rwa [List.take_append_drop] at hall
      · simp only [hw] at h
        cases h
        exact .failed hl
    · simp only [hread, Bool.false_eq_true, if_false] at h
      by_cases hpos : 0 < flvOut.rest.length
      · simp only [hpos, if_true] at h
        have hmod : flvOut.rest.length % copyBufferSize ≠ 0 := by
          rw [Nat.mod_eq_of_lt hlt]
          omega
        rw [if_neg hmod]
        rcases (emits_put flvOut.rest).cases real with hw | ⟨real₁, hw, hl⟩
        · obtain ⟨fuel, rfl⟩ : ∃ n, fuel = n + 1 := ⟨fuel - 1, by omega⟩
          simp only [hw, copyBack, if_true] at h
          cases h
          exact .written
        · simp only [hw] at h
          cases h
          exact .failed hl
      · have hnil : flvOut.rest = [] := List.length_eq_zero_iff.mp (by omega)
        simp only [hpos, if_false] at h
        cases h
        rw [hnil]
        exact Outcome.nothing _ _

/-! ## The update -/

/-- A device for a file opened for writing: how many bytes it accepts. -/
structure Device where
  limit : Option Nat
deriving DecidableEq, Repr

/-- A file opened with `"wb"` is empty. -/
def Device.file (device : Device) : OutFile := ⟨[], device.limit⟩

/-- The files of an update: the content of the input, and the devices of the temporary file and of
the output file, `none` where opening fails. -/
structure UpdateFiles where
  input : Option Bytes
  sameFile : Bool
  temporary : Option Device
  output : Option Device

section

variable {N : Type} [Number64 N]

/-- `update_metadata`: its status, and the output file if it was opened. -/
def updateMetadata (env : Environment) (opts : FlvmetaOpts N) (files : UpdateFiles) :
    Status × Option OutFile :=
  match files.input with
  | none => (.errorOpenRead, none)
  | some content =>
    match getFlvInfo opts (flvOpen content) with
    | (.error status, _) => (status, none)
    | (.ok info, flvIn) =>
      let metadata := computeMetadata env opts info
      if files.sameFile then
        match files.temporary with
        | none => (.errorOpenWrite, none)
        | some temporary =>
          match writeFlv opts info metadata flvIn temporary.file with
          | (res, _, flvOut) =>
            match files.output with
            | none => (.errorOpenWrite, none)
            | some real =>
              match (copyBack (flvOut.written.length + 1) (InFile.ofContent flvOut.written)
                real.file).get (copyBack_isSome real.file (Nat.lt_succ_self _)) with
              | (.ok, real) => (res, some real)
              | (status, real) => (status, some real)
      else
        match files.output with
        | none => (.errorOpenWrite, none)
        | some real =>
          match writeFlv opts info metadata flvIn real.file with
          | (res, _, flvOut) => (res, some flvOut)

/-- The status of an update and the bytes that it is to write. -/
def rewritten (env : Environment) (opts : FlvmetaOpts N) (info : FlvInfo N) (content : Bytes) :
    Status × Bytes :=
  output opts info (computeMetadata env opts info) content

/-- The length of what is written when no tag is to be replaced. -/
theorem length_rewritten (env : Environment) {opts : FlvmetaOpts N} {info : FlvInfo N}
    (hzero : info.onMetadataSize = 0) (content : Bytes) :
    letI metadata := computeMetadata env opts info
    (rewritten env opts info content).2.length =
      13 + (amfDataSize metadata.onMetadataName + amfDataSize metadata.onMetadata + 15) +
        ((blocks opts info metadata content false (timedTags content)).2.map
          fun piece => piece.bytes.length).sum := by
  rw [rewritten, length_output, outputPieces, if_pos hzero, List.singleton_append, List.map_cons,
    List.sum_cons, length_onMetadataPiece]
  omega

/-- What is written behind the header when no tag is to be replaced. -/
theorem drop_rewritten (env : Environment) {opts : FlvmetaOpts N} {info : FlvInfo N}
    (hzero : info.onMetadataSize = 0) (content : Bytes) :
    letI metadata := computeMetadata env opts info
    (rewritten env opts info content).2.drop 13 = (onMetadataPiece metadata ::
      (blocks opts info metadata content false (timedTags content)).2).flatMap Piece.bytes := by
  rw [rewritten, drop_output, outputPieces, if_pos hzero, List.singleton_append]

/-- The tags written when all of them fit. -/
theorem tags_rewritten (env : Environment) {opts : FlvmetaOpts N} {info : FlvInfo N}
    (hzero : info.onMetadataSize = 0) {content : Bytes}
    (hsize : amfDataSize (computeMetadata env opts info).onMetadataName +
      amfDataSize (computeMetadata env opts info).onMetadata < 2 ^ 24)
    (hfit : ∀ piece ∈ (blocks opts info (computeMetadata env opts info) content false
      (timedTags content)).2, piece.Fits) :
    letI metadata := computeMetadata env opts info
    (tagsFrom (rewritten env opts info content).2 13).map Prod.snd = onMetadataTag metadata ::
      (blocks opts info metadata content false (timedTags content)).2.map (·.tag) := by
  rw [tags_of_fits (drop_rewritten env hzero content) ?_, List.map_cons]
  · rfl
  · rw [List.forall_mem_cons]
    exact ⟨fits_onMetadataPiece env opts info hsize, hfit⟩

/-- The copy of a whole temporary file. -/
theorem copyBack_whole (bs : Bytes) (real : OutFile) :
    Outcome real (if bs.length % copyBufferSize = 0 then .errorWrite else .ok) bs False
      ((copyBack (bs.length + 1) (InFile.ofContent bs) real).get
        (copyBack_isSome real (Nat.lt_succ_self _))).1
      ((copyBack (bs.length + 1) (InFile.ofContent bs) real).get
        (copyBack_isSome real (Nat.lt_succ_self _))).2 :=
  copyBack_outcome (show (InFile.ofContent bs).eof = false from rfl) (Nat.lt_succ_self _)
    (Option.eq_some_iff_get_eq.mpr ⟨_, rfl⟩)

theorem writeFlv_rewritten (env : Environment) {opts : FlvmetaOpts N} {content : Bytes}
    {info : FlvInfo N} {stream stream' : FlvStream} {out out' : OutFile} {status : Status}
    (hinfo : getFlvInfo opts (flvOpen content) = (.ok info, stream))
    (h : writeFlv opts info (computeMetadata env opts info) stream out = (status, stream', out')) :
    Outcome out (rewritten env opts info content).1 (rewritten env opts info content).2
      (∃ t ∈ timedTags content, Unchecked opts info content t) status out' :=
  writeFlv_outcome opts info (computeMetadata env opts info) content (getFlvInfo_content hinfo) h

/-- What `writeFlv` leaves on a device without limit. -/
theorem writeFlv_unlimited (env : Environment) {opts : FlvmetaOpts N} {content : Bytes}
    {info : FlvInfo N} {stream : FlvStream}
    (hinfo : getFlvInfo opts (flvOpen content) = (.ok info, stream)) :
    ∃ stream', writeFlv opts info (computeMetadata env opts info) stream (Device.file ⟨none⟩) =
      ((rewritten env opts info content).1, stream',
        ⟨(rewritten env opts info content).2, none⟩) := by
  cases hwrite : writeFlv opts info (computeMetadata env opts info) stream
    (Device.file ⟨none⟩) with
  | mk res r =>
    obtain ⟨hres, hout⟩ := (writeFlv_rewritten env hinfo hwrite).of_unlimited rfl
    exact ⟨r.1, Prod.ext hres (Prod.ext rfl hout)⟩

/-- An update to another file on a device without limit. -/
theorem updateMetadata_unlimited (env : Environment) {opts : FlvmetaOpts N} {content : Bytes}
    {info : FlvInfo N} {stream : FlvStream}
    (hinfo : getFlvInfo opts (flvOpen content) = (.ok info, stream)) :
    updateMetadata env opts ⟨some content, false, none, some ⟨none⟩⟩ =
      ((rewritten env opts info content).1,
        some ⟨(rewritten env opts info content).2, none⟩) := by
  obtain ⟨stream', hwrite⟩ := writeFlv_unlimited env hinfo
  simp only [updateMetadata, hinfo, Bool.false_eq_true, if_false, hwrite]

/-- An update that succeeds has analysed its input, and its output is what `writeFlv` has written
on some device. -/
theorem updateMetadata_writes {env : Environment} {opts : FlvmetaOpts N} {files : UpdateFiles}
    {real : OutFile} (h : updateMetadata env opts files = (.ok, some real)) :
    ∃ content info stream device stream' flvOut, files.input = some content ∧
      getFlvInfo opts (flvOpen content) = (.ok info, stream) ∧
      writeFlv opts info (computeMetadata env opts info) stream (Device.file device) =
        (.ok, stream', flvOut) ∧
      real.written = flvOut.written := by
  unfold updateMetadata at h
  cases hinput : files.input with
  | none =>
    rw [hinput] at h
    cases h
  | some content =>
    cases hinfo : getFlvInfo opts (flvOpen content) with
    | mk result flvIn =>
      cases result with
      | error status =>
        simp only [hinput, hinfo] at h
        cases h
      | ok info =>
        simp only [hinput, hinfo] at h
        split at h
        · cases htemp : files.temporary with
          | none =>
            rw [htemp] at h
            cases h
          | some temporary =>
            simp only [htemp] at h
            cases hwrite : writeFlv opts info (computeMetadata env opts info) flvIn
              temporary.file with
            | mk res r =>
              obtain ⟨stream', flvOut⟩ := r
              simp only [hwrite] at h
              cases hreal : files.output with
              | none =>
                rw [hreal] at h
                cases h
              | some device =>
                have hcopy := copyBack_whole flvOut.written device.file
                simp only [hreal] at h
                split at h
                · rename_i real' hget
                  rw [hget] at hcopy
                  cases h
                  have hreal' : real = device.file.append flvOut.written := (hcopy.of_ok rfl id).2
                  exact ⟨content, info, flvIn, temporary, stream', flvOut, rfl, hinfo, hwrite,
                    by simp [hreal', Device.file]⟩
                · rename_i hne hget
                  cases h
                  exact (hne rfl).elim
        · cases hreal : files.output with
          | none =>
            rw [hreal] at h
            cases h
          | some device =>
            simp only [hreal] at h
            cases hwrite : writeFlv opts info (computeMetadata env opts info) flvIn
              device.file with
            | mk res r =>
              obtain ⟨stream', flvOut⟩ := r
              simp only [hwrite] at h
              cases h
              exact ⟨content, info, flvIn, device, stream', real, rfl, hinfo, hwrite, rfl⟩

/-- Where no write goes unchecked, it has written what it was to write. -/
theorem updateMetadata_ok {env : Environment} {opts : FlvmetaOpts N} {files : UpdateFiles}
    {real : OutFile} (h : updateMetadata env opts files = (.ok, some real)) :
    ∃ content info stream, files.input = some content ∧
      getFlvInfo opts (flvOpen content) = (.ok info, stream) ∧
      ((¬ ∃ t ∈ timedTags content, Unchecked opts info content t) →
        (rewritten env opts info content).1 = .ok ∧
          real.written = (rewritten env opts info content).2) := by
  obtain ⟨content, info, stream, device, stream', flvOut, hinput, hinfo, hwrite, hreal⟩ :=
    updateMetadata_writes h
  refine ⟨content, info, stream, hinput, hinfo, fun hchecked => ?_⟩
  obtain ⟨hstatus, hout⟩ := (writeFlv_rewritten env hinfo hwrite).of_ok rfl hchecked
  refine ⟨hstatus, ?_⟩
  rw [hreal, hout]
  simp [Device.file]

end

end FlvMeta
