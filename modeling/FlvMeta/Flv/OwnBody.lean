import FlvMeta.Amf.Padding
import FlvMeta.Flv.Metadata

/-!
# Script tags and what follows them

`flvReadMetadata` reads its two values from the file, not from the body of the tag, and an overflow
is recorded and taken back afterwards. So what it gives may depend on what follows the body. It
does not if the values end within the body, or more precisely, if there is no end of file where
the file is cut behind the body (`readsOwnBody_iff`).
-/

namespace FlvMeta

open Endian Stdio ByteSource

variable {N : Type} [NumberImage N]

/-! ## The result -/

/-- What is returned for a body of a given length from whose start the two values are read. -/
def metadataResult (length : Nat) (name data : AmfData N) : MetadataResult N :=
  if amfDataGetErrorCode name = .eof then ⟨.errorEof, name, .nullPtr⟩
  else if amfDataGetErrorCode name ≠ .ok then ⟨.errorInvalidMetadataName, name, .nullPtr⟩
  else if length ≤ amfDataSize name then ⟨.errorInvalidMetadata, name, .nullPtr⟩
  else if amfDataGetErrorCode data = .eof then ⟨.errorEof, name, data⟩
  else if amfDataGetErrorCode data ≠ .ok then ⟨.errorInvalidMetadata, name, data⟩
  else ⟨.ok, name, data⟩

theorem flvReadMetadata_result (stream : FlvStream) (hbody : ¬ NoBody stream)
    (hlen : stream.currentTagBodyLength ≠ 0) :
    (flvReadMetadata stream : MetadataResult N × FlvStream).1 =
      metadataResult stream.currentTagBodyLength (amfDataFileRead stream.flvin).1
        (amfDataFileRead (amfDataFileRead stream.flvin : AmfData N × InFile).2).1 := by
  have hrun := metadataRun (N := N) hbody hlen
  unfold metadataResult
  generalize (flvReadMetadata stream : MetadataResult N × FlvStream).1 = result at hrun ⊢
  generalize (flvReadMetadata stream : MetadataResult N × FlvStream).2 = stream' at hrun
  cases hrun with
  | nameEof hname heof => rw [hname, if_pos heof]
  | badName hname heof hok => rw [hname, if_neg heof, if_pos hok]
  | nameFills hname hok hfills =>
    rw [hname, if_neg (by rw [hok]; decide), if_neg (not_not.mpr hok), if_pos hfills]
  | dataEof hname hok hlt hdata heof =>
    rw [hname, if_neg (by rw [hok]; decide), if_neg (not_not.mpr hok),
      if_neg (Nat.not_le.mpr hlt)]
    dsimp only
    rw [hdata, if_pos heof]
  | badData hname hok hlt hdata heof hcode =>
    rw [hname, if_neg (by rw [hok]; decide), if_neg (not_not.mpr hok),
      if_neg (Nat.not_le.mpr hlt)]
    dsimp only
    rw [hdata, if_neg heof, if_pos hcode]
  | data hname hok hlt hdata hcode =>
    rw [hname, if_neg (by rw [hok]; decide), if_neg (not_not.mpr hok),
      if_neg (Nat.not_le.mpr hlt)]
    dsimp only
    rw [hdata, if_neg (by rw [hcode]; decide), if_neg (not_not.mpr hcode)]

omit [NumberImage N] in
theorem metadataResult_status_eof (length : Nat) (name data : AmfData N) :
    (metadataResult length name data).status = .errorEof ↔
      amfDataGetErrorCode name = .eof ∨ (amfDataGetErrorCode name = .ok ∧
        amfDataSize name < length ∧ amfDataGetErrorCode data = .eof) := by
  unfold metadataResult
  by_cases heof : amfDataGetErrorCode name = .eof
  · simp [heof]
  · by_cases hok : amfDataGetErrorCode name = .ok
    · by_cases hfills : length ≤ amfDataSize name
      · simp [hok, hfills]
      · by_cases heof' : amfDataGetErrorCode data = .eof
        · simp [hok, hfills, heof', Nat.lt_of_not_le hfills]
        · by_cases hok' : amfDataGetErrorCode data = .ok
          · simp [hok, hfills, hok']
          · simp [hok, hfills, heof', hok']
    · simp [heof, hok]

omit [NumberImage N] in
/-- The data count only behind a name that does not fill the body. -/
theorem metadataResult_congr {length : Nat} {name data data' : AmfData N}
    (h : amfDataGetErrorCode name = .ok → amfDataSize name < length → data' = data) :
    metadataResult length name data' = metadataResult length name data := by
  unfold metadataResult
  by_cases hok : amfDataGetErrorCode name = .ok
  · by_cases hfills : length ≤ amfDataSize name
    · simp [hok, hfills]
    · rw [h hok (Nat.lt_of_not_le hfills)]
  · simp [hok]

/-! ## Other files -/

/-- The reader in the same state on another file. -/
def FlvStream.onFile (stream : FlvStream) (content : Bytes) : FlvStream :=
  { stream with flvin := { stream.flvin with content } }

/-- The end of the declared body. -/
def bodyEnd (stream : FlvStream) : Nat :=
  stream.currentTagOffset + 11 + stream.currentTagBodyLength

/-- The file up to the end of the declared body. -/
def upToBody (stream : FlvStream) : Bytes := stream.flvin.content.take (bodyEnd stream)

/-- The script tag is decoded from its own body only: what follows that does not count. -/
def ReadsOwnBody (N : Type) [NumberImage N] (stream : FlvStream) : Prop :=
  ∀ content : Bytes, content.take (bodyEnd stream) = upToBody stream →
    (flvReadMetadata (stream.onFile content) : MetadataResult N × FlvStream).1 =
      (flvReadMetadata stream).1

theorem amfDataFileRead_beyond {stream stream' : InFile}
    (hrel : (beyondFile fileSource).Rel stream stream') :
    ((amfDataFileRead stream' : AmfData N × InFile).1 = (amfDataFileRead stream).1 ∧
      (beyondFile fileSource).Rel (amfDataFileRead stream : AmfData N × InFile).2
        (amfDataFileRead stream' : AmfData N × InFile).2) ∨
      amfDataGetErrorCode (amfDataFileRead stream : AmfData N × InFile).1 = .eof :=
  (agrees_amfDataRead (beyondFile fileSource) hrel (amfDataRead_eq_fileRead stream)
    (amfDataRead_eq_fileRead stream') fun hbad => hbad).imp_right fun heof => heof.1

theorem beyond_upToBody (stream : FlvStream) {content : Bytes}
    (h : content.take (bodyEnd stream) = upToBody stream) :
    (beyondFile fileSource).Rel (stream.onFile (upToBody stream)).flvin
      (stream.onFile content).flvin := by
  have hcontent : content = upToBody stream ++ content.drop (bodyEnd stream) := by
    rw [← h, List.take_append_drop]
  by_cases hpos : stream.flvin.pos ≤ (upToBody stream).length
  · refine .inr ⟨content.drop (bodyEnd stream), ?_⟩
    have hdrop : (upToBody stream ++ content.drop (bodyEnd stream)).drop stream.flvin.pos =
        (upToBody stream).drop stream.flvin.pos ++ content.drop (bodyEnd stream) :=
      List.drop_append_of_le_length hpos
    rw [← hcontent] at hdrop
    exact hdrop
  · exact .inl (List.drop_eq_nil_of_le (Nat.le_of_not_le hpos))

/-- If there is no end of file where the file is cut behind the body, what follows it does not
count. -/
theorem readsOwnBody_of_upToBody {stream : FlvStream}
    (hend : (flvReadMetadata (stream.onFile (upToBody stream)) :
      MetadataResult N × FlvStream).1.status ≠ .errorEof) {content : Bytes}
    (h : content.take (bodyEnd stream) = upToBody stream) :
    (flvReadMetadata (stream.onFile content) : MetadataResult N × FlvStream).1 =
      (flvReadMetadata (stream.onFile (upToBody stream))).1 := by
  by_cases hbody : NoBody stream
  · rw [flvReadMetadata, if_pos (show NoBody (stream.onFile (upToBody stream)) from hbody)] at hend
    exact absurd rfl hend
  by_cases hlen : stream.currentTagBodyLength = 0
  · have hempty : ∀ content : Bytes, (flvReadMetadata (stream.onFile content) :
        MetadataResult N × FlvStream).1 = ⟨.errorEmptyTag, .nullPtr, .nullPtr⟩ := by
      intro content
      rw [flvReadMetadata, if_neg (show ¬ NoBody (stream.onFile content) from hbody),
        if_pos (show (stream.onFile content).currentTagBodyLength = 0 from hlen)]
    rw [hempty, hempty]
  have hresult := fun content : Bytes => flvReadMetadata_result (N := N)
    (stream.onFile content) hbody hlen
  rw [hresult] at hend
  rw [hresult, hresult]
  have hgood := (metadataResult_status_eof _ _ _).not.mp hend
  rcases amfDataFileRead_beyond (N := N) (beyond_upToBody stream h) with ⟨hname, hrel⟩ | heof
  · rw [hname]
    refine metadataResult_congr fun hok hlt => ?_
    rcases amfDataFileRead_beyond (N := N) hrel with ⟨hdata, -⟩ | heof
    · exact hdata
    · exact absurd (.inr ⟨hok, hlt, heof⟩) hgood
  · exact absurd (.inl heof) hgood

/-- In front of enough padding the values are read without an end of file. -/
theorem flvReadMetadata_padded (stream : FlvStream) (hbody : ¬ NoBody stream)
    (h : Padded fileSource 2 stream.flvin) :
    (flvReadMetadata stream : MetadataResult N × FlvStream).1.status ≠ .errorEof := by
  by_cases hlen : stream.currentTagBodyLength = 0
  · rw [flvReadMetadata, if_neg hbody, if_pos hlen]
    simp
  obtain ⟨hname, hnext⟩ := amfDataRead_padded (N := N) (c := 1) h
    (amfDataRead_eq_fileRead stream.flvin)
  obtain ⟨hdata, -⟩ := amfDataRead_padded (N := N) (c := 0) hnext (amfDataRead_eq_fileRead _)
  rw [flvReadMetadata_result stream hbody hlen, Ne, metadataResult_status_eof]
  rintro (heof | ⟨-, -, heof⟩)
  · exact hname heof
  · exact hdata heof

theorem exists_padded (content : Bytes) (pos : Nat) (eof : Bool) :
    ∃ m, Padded fileSource 2 ⟨content ++ List.replicate m 0xFF, pos, eof⟩ := by
  refine ⟨70000 * content.length + 2 + pos, content.drop pos,
    70000 * content.length + 2 + pos - (pos - content.length), ?_, ?_⟩
  · exact (List.drop_append).trans (by rw [List.drop_replicate])
  · rw [List.length_drop]
    omega

/-- What follows the body of a script tag counts exactly if the body lies in the file and its end
is an end of file for the two values. -/
theorem readsOwnBody_iff (stream : FlvStream) :
    ReadsOwnBody N stream ↔
      NoBody stream ∨ stream.flvin.content.length < bodyEnd stream ∨
        (flvReadMetadata (stream.onFile (upToBody stream)) :
          MetadataResult N × FlvStream).1.status ≠ .errorEof := by
  have hsame : stream.flvin.content.take (bodyEnd stream) = upToBody stream := rfl
  constructor
  · intro h
    by_contra hnot
    simp only [not_or, not_lt, not_not] at hnot
    obtain ⟨hbody, hlen, heof⟩ := hnot
    have htake : (upToBody stream).length = bodyEnd stream := by
      rw [upToBody, List.length_take, Nat.min_eq_left hlen]
    obtain ⟨m, hm⟩ := exists_padded (upToBody stream) stream.flvin.pos stream.flvin.eof
    have hcut := h (upToBody stream) (by rw [upToBody, List.take_take, Nat.min_self])
    have hlong := h (upToBody stream ++ List.replicate m 0xFF) (List.take_left' htake)
    refine flvReadMetadata_padded (N := N)
      (stream.onFile (upToBody stream ++ List.replicate m 0xFF)) hbody hm ?_
    rw [hlong, ← hcut]
    exact heof
  · intro h content hcontent
    rcases h with hbody | hshort | hend
    · rw [flvReadMetadata, flvReadMetadata, if_pos hbody,
        if_pos (show NoBody (stream.onFile content) from hbody)]
    · have hall : upToBody stream = stream.flvin.content :=
        List.take_of_length_le (Nat.le_of_lt hshort)
      rw [hall] at hcontent
      have hlt : content.length < bodyEnd stream := by
        have hlen := congrArg List.length hcontent
        rw [List.length_take] at hlen
        omega
      rw [List.take_of_length_le (Nat.le_of_lt hlt)] at hcontent
      rw [hcontent]
      rfl
    · rw [readsOwnBody_of_upToBody hend hcontent]
      exact (readsOwnBody_of_upToBody hend hsame).symm

/-- A file with one script tag, whose body ends behind the type of a number. -/
def cutNumberFile : Bytes :=
  [0x46, 0x4C, 0x56, 1, 0, 0, 0, 0, 9, 0, 0, 0, 0] ++
    [18, 0, 0, 5, 0, 0, 0, 0, 0, 0, 0] ++ [2, 0, 1, 97, 0] ++ [0, 0, 0, 16]

/-- The reader at the start of that body. -/
def atCutNumber : FlvStream := (flvReadTag (flvReadHeader (flvOpen cutNumberFile)).2).2

/-- An empty tag behind it completes the number. -/
theorem not_readsOwnBody :
    ¬ ∀ (stream : FlvStream) (content : Bytes),
      stream.flvin.pos = stream.currentTagOffset + 11 →
      content.take (bodyEnd stream) = stream.flvin.content.take (bodyEnd stream) →
      (flvReadMetadata (stream.onFile content) : MetadataResult UInt64 × FlvStream).1 =
        (flvReadMetadata stream).1 := by
  intro h
  have hstatus := congrArg MetadataResult.status
    (h atCutNumber (cutNumberFile ++ [18, 0, 0, 0, 0, 0, 0, 0, 0, 0, 0, 0, 0, 0, 11])
      (by decide) (by decide))
  revert hstatus
  decide

end FlvMeta
