import FlvMeta.Amf.Sound
import FlvMeta.Flv.Tags

/-!
# Alignment after a script tag

`flvReadMetadata` decodes two values without regard to the declared length of the body, and
puts the stream back when they went beyond it. `realigned_iff` says when the next header
is read behind the declared body: the name must not fill the body, because the overflow of a
name is computed from a length that has already been set to zero; and the overflow of the data
must fit in a `uint32`. Script tags within this law are `Aligned`: after them the stream is aimed at
the next tag, also at the end of the file (`Aligned.aimed`).
-/

namespace FlvMeta

open Endian Stdio

variable {N : Type}

/-- The offset at which the next call of `flvReadTag` reads its header. If the end of the file
has been seen it reads none, and the offset of the last one stays. -/
def readOffset (stream : FlvStream) : Nat := (flvReadTag stream).2.currentTagOffset

theorem readOffset_of_not_eof {stream : FlvStream} (h : stream.flvin.eof = false) :
    readOffset stream = nextTagOffset stream := by
  unfold readOffset flvReadTag
  rw [h, skipped]
  simp only [Bool.false_eq_true, if_false, if_true]
  split <;> rfl

theorem readOffset_of_eof {stream : FlvStream} (h : stream.flvin.eof = true) :
    readOffset stream = stream.currentTagOffset := by
  unfold readOffset flvReadTag
  rw [h]
  rfl

/-- In front of a previous tag size, after a file was moved back by an overflow. -/
theorem readOffset_prevTagSize {stream : FlvStream} (overflow : Nat)
    (hstate : stream.state = .prevTagSize)
    {flvin : InFile} (hle : overflow ≤ flvin.pos)
    (hflvin : stream.flvin = if 0 < overflow then flvin.seekCur (-(overflow : Int)) else flvin)
    (heof : flvin.eof = true → 0 < overflow) :
    readOffset stream = flvin.pos - overflow + 4 := by
  by_cases hpos : 0 < overflow
  · rw [if_pos hpos, InFile.seekCur_back hle] at hflvin
    rw [readOffset_of_not_eof (by rw [hflvin]), nextTagOffset, hstate, hflvin]
  · rw [if_neg hpos] at hflvin
    have hfalse : flvin.eof = false := by
      cases he : flvin.eof with
      | false => rfl
      | true => exact absurd (heof he) hpos
    have hzero : overflow = 0 := by omega
    rw [readOffset_of_not_eof (by rw [hflvin]; exact hfalse), nextTagOffset, hstate, hflvin,
      hzero]
    rfl

section

variable [NumberImage N]

/-! ## The ways through `flvReadMetadata` -/

/-- What `flvReadMetadata` gives in a tag body that is not empty. -/
inductive MetadataRun (stream : FlvStream) : MetadataResult N → FlvStream → Prop
  | nameEof {name flvin} : amfDataFileRead stream.flvin = (name, flvin) →
    amfDataGetErrorCode name = .eof →
    MetadataRun stream ⟨.errorEof, name, .nullPtr⟩ { stream with flvin }
  | badName {name flvin} : amfDataFileRead stream.flvin = (name, flvin) →
    amfDataGetErrorCode name ≠ .eof → amfDataGetErrorCode name ≠ .ok →
    MetadataRun stream ⟨.errorInvalidMetadataName, name, .nullPtr⟩ { stream with flvin }
  | nameFills {name flvin} : amfDataFileRead stream.flvin = (name, flvin) →
    amfDataGetErrorCode name = .ok → stream.currentTagBodyLength ≤ amfDataSize name →
    MetadataRun stream ⟨.errorInvalidMetadata, name, .nullPtr⟩ { stream with
      flvin :=
        if 0 < subUint32 (amfDataSize name) 0 then
          flvin.seekCur (-(subUint32 (amfDataSize name) 0 : Int))
        else flvin
      currentTagBodyLength := 0
      currentTagBodyOverflow := subUint32 (amfDataSize name) 0
      state := .prevTagSize }
  | dataEof {name flvin data flvin'} : amfDataFileRead stream.flvin = (name, flvin) →
    amfDataGetErrorCode name = .ok → amfDataSize name < stream.currentTagBodyLength →
    amfDataFileRead flvin = (data, flvin') → amfDataGetErrorCode data = .eof →
    MetadataRun stream ⟨.errorEof, name, data⟩ { stream with
      flvin := flvin'
      currentTagBodyLength := stream.currentTagBodyLength - amfDataSize name }
  | badData {name flvin data flvin'} : amfDataFileRead stream.flvin = (name, flvin) →
    amfDataGetErrorCode name = .ok → amfDataSize name < stream.currentTagBodyLength →
    amfDataFileRead flvin = (data, flvin') → amfDataGetErrorCode data ≠ .eof →
    amfDataGetErrorCode data ≠ .ok →
    MetadataRun stream ⟨.errorInvalidMetadata, name, data⟩ { stream with
      flvin := flvin'
      currentTagBodyLength := stream.currentTagBodyLength - amfDataSize name }
  | data {name flvin data flvin'} : amfDataFileRead stream.flvin = (name, flvin) →
    amfDataGetErrorCode name = .ok → amfDataSize name < stream.currentTagBodyLength →
    amfDataFileRead flvin = (data, flvin') → amfDataGetErrorCode data = .ok →
    MetadataRun stream ⟨.ok, name, data⟩ (takeOffBody (amfDataSize data) { stream with
      flvin := flvin'
      currentTagBodyLength := stream.currentTagBodyLength - amfDataSize name })

theorem metadataRun {stream : FlvStream} (hbody : ¬ NoBody stream)
    (hlen : stream.currentTagBodyLength ≠ 0) :
    MetadataRun stream (flvReadMetadata stream : MetadataResult N × FlvStream).1
      (flvReadMetadata stream : MetadataResult N × FlvStream).2 := by
  unfold flvReadMetadata
  rw [if_neg hbody, if_neg hlen]
  cases hname : (amfDataFileRead stream.flvin : AmfData N × InFile) with
  | mk name flvin =>
    dsimp only
    by_cases heof : amfDataGetErrorCode name = .eof
    · rw [if_pos heof]
      exact .nameEof hname heof
    rw [if_neg heof]
    by_cases hok : amfDataGetErrorCode name ≠ .ok
    · rw [if_pos hok]
      exact .badName hname heof hok
    rw [if_neg hok]
    by_cases hfills : stream.currentTagBodyLength ≤ amfDataSize name
    · rw [if_pos hfills]
      exact .nameFills hname (Classical.not_not.mp hok) hfills
    rw [if_neg hfills]
    have hlt : amfDataSize name < stream.currentTagBodyLength := by omega
    cases hdata : (amfDataFileRead flvin : AmfData N × InFile) with
    | mk data flvin' =>
      dsimp only
      by_cases heof' : amfDataGetErrorCode data = .eof
      · rw [if_pos heof']
        exact .dataEof hname (Classical.not_not.mp hok) hlt hdata heof'
      rw [if_neg heof']
      by_cases hok' : amfDataGetErrorCode data ≠ .ok
      · rw [if_pos hok']
        exact .badData hname (Classical.not_not.mp hok) hlt hdata heof' hok'
      rw [if_neg hok']
      exact .data hname (Classical.not_not.mp hok) hlt hdata (Classical.not_not.mp hok')

/-- The data of a script tag are read without error and a sound tree, or their code is an error. -/
theorem flvReadMetadata_data (stream : FlvStream) :
    ((flvReadMetadata stream : MetadataResult N × FlvStream).1.status = .ok ∧
      SoundTree (flvReadMetadata stream : MetadataResult N × FlvStream).1.data) ∨
    ((flvReadMetadata stream : MetadataResult N × FlvStream).1.status ≠ .ok ∧
      amfDataGetErrorCode
        (flvReadMetadata stream : MetadataResult N × FlvStream).1.data ≠ .ok) := by
  have hnull : amfDataGetErrorCode (.nullPtr : AmfData N) ≠ .ok := by simp [amfDataGetErrorCode]
  by_cases hbody : NoBody stream
  · rw [flvReadMetadata, if_pos hbody]
    exact Or.inr ⟨by simp, hnull⟩
  by_cases hlen : stream.currentTagBodyLength = 0
  · rw [flvReadMetadata, if_neg hbody, if_pos hlen]
    exact Or.inr ⟨by simp, hnull⟩
  have hrun := metadataRun (N := N) hbody hlen
  generalize (flvReadMetadata stream : MetadataResult N × FlvStream).1 = result at hrun ⊢
  generalize (flvReadMetadata stream : MetadataResult N × FlvStream).2 = stream' at hrun
  cases hrun with
  | nameEof => exact Or.inr ⟨by simp, hnull⟩
  | badName => exact Or.inr ⟨by simp, hnull⟩
  | nameFills => exact Or.inr ⟨by simp, hnull⟩
  | dataEof hname hok hlt hdata heof => exact Or.inr ⟨by simp, by simp [heof]⟩
  | badData hname hok hlt hdata heof hbad => exact Or.inr ⟨by simp, hbad⟩
  | @data name flvin data flvin' hname hok hlt hdata hok' =>
    have hsound := soundTree_amfDataFileRead (N := N) flvin
    rw [hdata] at hsound
    exact Or.inl ⟨rfl, hsound hok'⟩

/-! ## Alignment -/

/-- The name and the data of the script tag at offset `p`, and the file after each, as they are
decoded from the start of its body. -/
def decodedName (content : Bytes) (p : Nat) : AmfData N × InFile :=
  amfDataFileRead (tagStream content p).flvin

def decodedData (content : Bytes) (p : Nat) : AmfData N × InFile :=
  amfDataFileRead (decodedName content p : AmfData N × InFile).2

/-- Of the values that `flvReadMetadata` decodes without error in the tag at `p`, each took
exactly its size from the file. -/
structure ExactSizes (N : Type) [NumberImage N] (content : Bytes) (p : Nat) : Prop where
  name : amfDataGetErrorCode (decodedName content p : AmfData N × InFile).1 = .ok →
    (decodedName content p : AmfData N × InFile).2.pos =
      p + 11 + amfDataSize (decodedName content p : AmfData N × InFile).1
  data : amfDataGetErrorCode (decodedName content p : AmfData N × InFile).1 = .ok →
    amfDataSize (decodedName content p : AmfData N × InFile).1 <
      (tagStream content p).currentTagBodyLength →
    amfDataGetErrorCode (decodedData content p : AmfData N × InFile).1 = .ok →
    (decodedData content p : AmfData N × InFile).2.pos =
      (decodedName content p : AmfData N × InFile).2.pos +
        amfDataSize (decodedData content p : AmfData N × InFile).1

/-- The name is decoded and as long as the body, or longer. -/
def NameFills (N : Type) [NumberImage N] (content : Bytes) (p : Nat) : Prop :=
  amfDataGetErrorCode (decodedName content p : AmfData N × InFile).1 = .ok ∧
    (tagStream content p).currentTagBodyLength ≤
      amfDataSize (decodedName content p : AmfData N × InFile).1

/-- Name and data are decoded and go beyond the body by `2^32` bytes or more. -/
def DataOverflows (N : Type) [NumberImage N] (content : Bytes) (p : Nat) : Prop :=
  amfDataGetErrorCode (decodedName content p : AmfData N × InFile).1 = .ok ∧
    amfDataSize (decodedName content p : AmfData N × InFile).1 <
      (tagStream content p).currentTagBodyLength ∧
    amfDataGetErrorCode (decodedData content p : AmfData N × InFile).1 = .ok ∧
    (tagStream content p).currentTagBodyLength + 2 ^ 32 ≤
      amfDataSize (decodedName content p : AmfData N × InFile).1 +
        amfDataSize (decodedData content p : AmfData N × InFile).1

theorem decodedName_run (content : Bytes) (p : Nat) :
    FileRun .value (tagStream content p).flvin (decodedName content p : AmfData N × InFile).1
      (decodedName content p : AmfData N × InFile).2 :=
  amfDataFileRead_run _

theorem decodedData_run (content : Bytes) (p : Nat) :
    FileRun .value (decodedName content p : AmfData N × InFile).2
      (decodedData content p : AmfData N × InFile).1
      (decodedData content p : AmfData N × InFile).2 :=
  amfDataFileRead_run _

/-- An error other than the end of the file leaves the stream in the tag body, from where the
next header is found by an absolute seek. -/
theorem readOffset_badName (content : Bytes) (p : Nat)
    (heof : amfDataGetErrorCode (decodedName content p : AmfData N × InFile).1 ≠ .eof)
    (hok : amfDataGetErrorCode (decodedName content p : AmfData N × InFile).1 ≠ .ok) :
    readOffset { tagStream content p with
      flvin := (decodedName content p : AmfData N × InFile).2 } =
      p + 15 + (tagStream content p).currentTagBodyLength := by
  have hfile : (decodedName content p : AmfData N × InFile).2.eof = false := by
    rcases (decodedName_run (N := N) content p).ofError nofun with h | h | h
    · exact absurd h hok
    · exact absurd h heof
    · exact h
  rw [readOffset_of_not_eof hfile]
  rfl

theorem readOffset_nameFills {content : Bytes} {p : Nat} (hexact : ExactSizes N content p)
    (hlen : (tagStream content p).currentTagBodyLength ≠ 0) (hfills : NameFills N content p)
    {stream : FlvStream} (hstate : stream.state = .prevTagSize)
    (hoffset : stream.currentTagOffset = p)
    (hflvin : stream.flvin =
      if 0 < subUint32 (amfDataSize (decodedName content p : AmfData N × InFile).1) 0 then
        (decodedName content p : AmfData N × InFile).2.seekCur
          (-(subUint32 (amfDataSize (decodedName content p : AmfData N × InFile).1) 0 : Int))
      else (decodedName content p : AmfData N × InFile).2) :
    readOffset stream ≠ p + 15 + (tagStream content p).currentTagBodyLength := by
  obtain ⟨hok, hle⟩ := hfills
  have hpos := hexact.name hok
  have hlt : (tagStream content p).currentTagBodyLength < 2 ^ 24 := flvTagGetBodyLength_lt _
  generalize (tagStream content p).currentTagBodyLength = L at hlen hle hlt ⊢
  generalize amfDataSize (decodedName content p : AmfData N × InFile).1 = n at hle hpos hflvin
  generalize (decodedName content p : AmfData N × InFile).2 = flvin at hpos hflvin
  have hv : subUint32 n 0 = n % 2 ^ 32 := by
    simp [subUint32]
  rw [hv] at hflvin
  by_cases heof : flvin.eof = true ∧ ¬ 0 < n % 2 ^ 32
  · rw [if_neg heof.2] at hflvin
    rw [readOffset_of_eof (by rw [hflvin]; exact heof.1), hoffset]
    omega
  · rw [readOffset_prevTagSize _ hstate (by omega) hflvin
      (fun he => Classical.not_not.mp fun h => heof ⟨he, h⟩)]
    omega

theorem eof_of_pos_lt {f f' : InFile} (h : f.Consumed f') (hf : f.eof = false)
    (hlt : f'.pos < f.content.length) : f'.eof = false := by
  cases he : f'.eof with
  | false => rfl
  | true =>
    rcases h.atEnd he with h' | h'
    · rw [hf] at h'
      cases h'
    · rw [h.content] at h'
      omega

theorem readOffset_badData {content : Bytes} {p : Nat} (hexact : ExactSizes N content p)
    (hok : amfDataGetErrorCode (decodedName content p : AmfData N × InFile).1 = .ok)
    (hfits : amfDataSize (decodedName content p : AmfData N × InFile).1 <
      (tagStream content p).currentTagBodyLength)
    (hend : p + 15 + (tagStream content p).currentTagBodyLength < content.length)
    (heof : amfDataGetErrorCode (decodedData content p : AmfData N × InFile).1 ≠ .eof)
    (hbad : amfDataGetErrorCode (decodedData content p : AmfData N × InFile).1 ≠ .ok)
    (length : Nat) :
    readOffset { tagStream content p with
      flvin := (decodedData content p : AmfData N × InFile).2
      currentTagBodyLength := length } =
      p + 15 + (tagStream content p).currentTagBodyLength := by
  have hpos := hexact.name hok
  have hname : (decodedName content p : AmfData N × InFile).2.eof = false :=
    eof_of_pos_lt (decodedName_run content p).consumed rfl (by
      have hcontent : (tagStream content p).flvin.content = content := rfl
      rw [hcontent]
      omega)
  have hfile : (decodedData content p : AmfData N × InFile).2.eof = false := by
    rcases (decodedData_run (N := N) content p).ofError (by rw [InFile.Sane, hname]; nofun) with
      h | h | h
    · exact absurd h hbad
    · exact absurd h heof
    · exact h
  rw [readOffset_of_not_eof hfile]
  rfl

theorem readOffset_data {content : Bytes} {p : Nat} (hexact : ExactSizes N content p)
    (hok : amfDataGetErrorCode (decodedName content p : AmfData N × InFile).1 = .ok)
    (hfits : amfDataSize (decodedName content p : AmfData N × InFile).1 <
      (tagStream content p).currentTagBodyLength)
    (hend : p + 15 + (tagStream content p).currentTagBodyLength < content.length)
    (hok' : amfDataGetErrorCode (decodedData content p : AmfData N × InFile).1 = .ok) :
    readOffset (takeOffBody (amfDataSize (decodedData content p : AmfData N × InFile).1)
      { tagStream content p with
        flvin := (decodedData content p : AmfData N × InFile).2
        currentTagBodyLength := (tagStream content p).currentTagBodyLength -
          amfDataSize (decodedName content p : AmfData N × InFile).1 }) =
      p + 15 + (tagStream content p).currentTagBodyLength ↔
    amfDataSize (decodedName content p : AmfData N × InFile).1 +
      amfDataSize (decodedData content p : AmfData N × InFile).1 <
      (tagStream content p).currentTagBodyLength + 2 ^ 32 := by
  have hpos := hexact.name hok
  have hpos' := hexact.data hok hfits hok'
  have hcontent : (tagStream content p).flvin.content = content := rfl
  have hconsumed := (decodedName_run (N := N) content p).consumed.trans
    (decodedData_run (N := N) content p).consumed
  have hL : (tagStream content p).currentTagBodyLength < 2 ^ 24 := flvTagGetBodyLength_lt _
  generalize amfDataSize (decodedName content p : AmfData N × InFile).1 = n at *
  generalize amfDataSize (decodedData content p : AmfData N × InFile).1 = d at *
  by_cases hle : d ≤ (tagStream content p).currentTagBodyLength - n
  · have hfile : (decodedData content p : AmfData N × InFile).2.eof = false :=
      eof_of_pos_lt hconsumed rfl (by rw [hcontent]; omega)
    refine ⟨fun _ => by omega, fun _ => ?_⟩
    rw [takeOffBody_of_le rfl rfl hle, readOffset_of_not_eof hfile]
    by_cases h0 : (tagStream content p).currentTagBodyLength - n - d = 0
    · simp only [nextTagOffset, h0, if_true]
      omega
    · simp only [nextTagOffset, h0, if_false]
      rfl
  · have hv := subUint32_of_le (a := d) (b := (tagStream content p).currentTagBodyLength - n)
      (by omega) (by omega)
    simp only [takeOffBody, if_neg hle, if_true, hv]
    generalize hov : (d - ((tagStream content p).currentTagBodyLength - n)) % 2 ^ 32 = v
    by_cases heof : (decodedData content p : AmfData N × InFile).2.eof = true ∧ ¬ 0 < v
    · rw [if_neg heof.2, readOffset_of_eof heof.1]
      have hp : (tagStream content p).currentTagOffset = p := rfl
      dsimp only
      rw [hp]
      omega
    · rw [readOffset_prevTagSize v rfl (by omega) rfl
        (fun he => Classical.not_not.mp fun h => heof ⟨he, h⟩)]
      omega

/-- After a script tag with a body, in a file that goes on behind it, the next header is read
behind the declared end of the body exactly if the name does not fill the body and the data
does not overflow it by `2^32` bytes or more. -/
theorem realigned_iff {content : Bytes} {p : Nat}
    (hlen : (tagStream content p).currentTagBodyLength ≠ 0)
    (hend : p + 15 + (tagStream content p).currentTagBodyLength < content.length)
    (hexact : ExactSizes N content p)
    (hstatus : (flvReadMetadata (tagStream content p) : MetadataResult N × FlvStream).1.status ≠
      .errorEof) :
    readOffset (flvReadMetadata (tagStream content p) : MetadataResult N × FlvStream).2 =
      p + 15 + (tagStream content p).currentTagBodyLength ↔
    ¬ NameFills N content p ∧ ¬ DataOverflows N content p := by
  have hbody := not_noBody_tagStream content p
  have hrun := metadataRun (N := N) hbody hlen
  generalize (flvReadMetadata (tagStream content p) : MetadataResult N × FlvStream).1 = result
    at hrun hstatus
  generalize (flvReadMetadata (tagStream content p) : MetadataResult N × FlvStream).2 = stream
    at hrun ⊢
  cases hrun with
  | nameEof hname heof => exact absurd rfl hstatus
  | @badName name flvin hname heof hok =>
    have hdecoded : decodedName content p = (name, flvin) := hname
    have hoffset := readOffset_badName (N := N) content p
    rw [hdecoded] at hoffset
    refine ⟨fun _ => ⟨fun h => ?_, fun h => ?_⟩, fun _ => hoffset heof hok⟩
    · exact hok (by simpa [hdecoded] using h.1)
    · exact hok (by simpa [hdecoded] using h.1)
  | @nameFills name flvin hname hok hle =>
    have hdecoded : decodedName content p = (name, flvin) := hname
    have hfills : NameFills N content p := by
      rw [NameFills, hdecoded]
      exact ⟨hok, hle⟩
    refine ⟨fun h => absurd h (readOffset_nameFills hexact hlen hfills rfl rfl ?_),
      fun h => absurd hfills h.1⟩
    rw [hdecoded]
  | dataEof hname hok hlt hdata heof => exact absurd rfl hstatus
  | @badData name flvin data flvin' hname hok hlt hdata heof hbad =>
    have hdecoded : decodedName content p = (name, flvin) := hname
    have hdecoded' : decodedData content p = (data, flvin') := by
      rw [decodedData, hdecoded]
      exact hdata
    have hoffset := readOffset_badData hexact (by rw [hdecoded]; exact hok)
      (by rw [hdecoded]; exact hlt) hend (by rw [hdecoded']; exact heof)
      (by rw [hdecoded']; exact hbad)
    rw [hdecoded'] at hoffset
    refine ⟨fun _ => ⟨fun h => ?_, fun h => ?_⟩, fun _ => hoffset _⟩
    · have hle := h.2
      rw [hdecoded] at hle
      dsimp only at hle
      omega
    · exact hbad (by simpa [hdecoded'] using h.2.2.1)
  | @data name flvin data flvin' hname hok hlt hdata hok' =>
    have hdecoded : decodedName content p = (name, flvin) := hname
    have hdecoded' : decodedData content p = (data, flvin') := by
      rw [decodedData, hdecoded]
      exact hdata
    have hoffset := readOffset_data hexact (by rw [hdecoded]; exact hok)
      (by rw [hdecoded]; exact hlt) hend (by rw [hdecoded']; exact hok')
    rw [NameFills, DataOverflows]
    rw [hdecoded, hdecoded'] at hoffset ⊢
    rw [hoffset]
    dsimp only
    constructor
    · intro h
      exact ⟨fun h' => by omega, fun h' => by omega⟩
    · intro h
      by_contra hge
      exact h.2 ⟨hok, hlt, hok', by omega⟩

/-! ## Aligned script tags -/

/-- The body of the script tag at `p` is decoded within the law of `realigned_iff`. -/
structure Aligned (N : Type) [NumberImage N] (content : Bytes) (p : Nat) : Prop where
  exact : ExactSizes N content p
  name : ¬ NameFills N content p
  data : ¬ DataOverflows N content p

/-- The script tags from `p` on that have a body. -/
def AlignedScripts (N : Type) [NumberImage N] (content : Bytes) (p : Nat) : Prop :=
  ∀ x ∈ tagsFrom content p, x.2.type = flvTagTypeMeta → flvTagGetBodyLength x.2 ≠ 0 →
    Aligned N content x.1

theorem decodedName_content (content : Bytes) (p : Nat) :
    (decodedName content p : AmfData N × InFile).2.content = content :=
  (decodedName_run content p).consumed.content

theorem decodedData_content (content : Bytes) (p : Nat) :
    (decodedData content p : AmfData N × InFile).2.content = content :=
  (decodedData_run (N := N) content p).consumed.content.trans (decodedName_content content p)

/-- A name that is shorter than the body ends before it. -/
theorem Aligned.name_atEnd {content : Bytes} {p : Nat} (h : Aligned N content p)
    (hok : amfDataGetErrorCode (decodedName content p : AmfData N × InFile).1 = .ok)
    (heof : (decodedName content p : AmfData N × InFile).2.eof = true) :
    content.length < p + 11 + (tagStream content p).currentTagBodyLength := by
  have hpos := h.exact.name hok
  have hfits : amfDataSize (decodedName content p : AmfData N × InFile).1 <
      (tagStream content p).currentTagBodyLength := by
    by_contra hle
    exact h.name ⟨hok, Nat.le_of_not_lt hle⟩
  rcases (decodedName_run (N := N) content p).consumed.atEnd heof with h' | h'
  · cases h'
  · rw [decodedName_content] at h'
    omega

theorem aimed_tagBody {content : Bytes} {p : Nat} {flvin : InFile} {length : Nat}
    (hcontent : flvin.content = content)
    (hend : flvin.eof = true →
      content.length < p + 26 + (tagStream content p).currentTagBodyLength) :
    Aimed content (p + 15 + (tagStream content p).currentTagBodyLength)
      { tagStream content p with flvin, currentTagBodyLength := length } where
  content_eq := hcontent
  next _ := rfl
  atEnd heof := by
    have h := hend heof
    omega

/-- A value that goes beyond the body is taken back. -/
theorem takeOffBody_of_lt {n v : Nat} {stream : FlvStream}
    (hlt : stream.currentTagBodyLength < n) (hv : subUint32 n stream.currentTagBodyLength = v)
    (hpos : 0 < v) : (takeOffBody n stream).state = .prevTagSize ∧
      (takeOffBody n stream).flvin = stream.flvin.seekCur (-(v : Int)) := by
  simp only [takeOffBody, if_neg (Nat.not_le_of_lt hlt), if_true, hv, if_pos hpos, and_self]

/-- A value that was read from the rest of a body, or beyond it, leaves the stream in the body or in
front of the previous tag size. -/
theorem aimed_takeOffBody {content : Bytes} {q n : Nat} {stream : FlvStream}
    (hcontent : stream.flvin.content = content) (hstate : stream.state = .tagBody)
    (hover : stream.currentTagBodyOverflow = 0)
    (hnext : nextTag stream.currentTagOffset stream.currentTag = q) (hq : 4 ≤ q)
    (hpos : stream.flvin.pos + stream.currentTagBodyLength + 4 = q + n)
    (hatEnd : stream.flvin.eof = true → content.length ≤ stream.flvin.pos)
    (hlength : stream.currentTagBodyLength < 2 ^ 32)
    (hn : n < stream.currentTagBodyLength + 2 ^ 32) :
    Aimed content q (takeOffBody n stream) := by
  by_cases hle : n ≤ stream.currentTagBodyLength
  · rw [takeOffBody_of_le hover hstate hle]
    refine ⟨hcontent, fun _ => ?_, fun heof => ?_⟩
    · by_cases h0 : stream.currentTagBodyLength - n = 0
      · simp only [nextTagOffset, h0, if_true]
        omega
      · simp only [nextTagOffset, h0, if_false]
        exact hnext
    · have hend := hatEnd heof
      omega
  · have hsub : subUint32 n stream.currentTagBodyLength = n - stream.currentTagBodyLength := by
      rw [subUint32_of_le hlength (Nat.le_of_not_le hle)]
      omega
    obtain ⟨hstate', hfile⟩ := takeOffBody_of_lt (Nat.lt_of_not_le hle) hsub (by omega)
    rw [InFile.seekCur_back (by omega)] at hfile
    refine ⟨by rw [hfile]; exact hcontent, fun _ => ?_, fun heof => ?_⟩
    · rw [nextTagOffset, hstate', hfile]
      dsimp only
      omega
    · rw [hfile] at heof
      cases heof

/-- Behind such a script tag the next header is read at its declared end. -/
theorem Aligned.aimed {content : Bytes} {p : Nat} (h : Aligned N content p)
    (hlen : (tagStream content p).currentTagBodyLength ≠ 0)
    (hstatus : (flvReadMetadata (tagStream content p) : MetadataResult N × FlvStream).1.status ≠
      .errorEof) :
    Aimed content (p + 15 + (tagStream content p).currentTagBodyLength)
      (flvReadMetadata (tagStream content p) : MetadataResult N × FlvStream).2 := by
  have hrun := metadataRun (N := N) (not_noBody_tagStream content p) hlen
  generalize (flvReadMetadata (tagStream content p) : MetadataResult N × FlvStream).1 = result
    at hrun hstatus
  generalize (flvReadMetadata (tagStream content p) : MetadataResult N × FlvStream).2 = stream
    at hrun ⊢
  have hnameRun := decodedName_run (N := N) content p
  have hdataRun := decodedData_run (N := N) content p
  have hname_content := decodedName_content (N := N) content p
  have hdata_content := decodedData_content (N := N) content p
  have hname_atEnd := h.name_atEnd
  cases hrun with
  | nameEof hname heof => exact absurd rfl hstatus
  | @badName name flvin hname heof hok =>
    have hdecoded : decodedName content p = (name, flvin) := hname
    rw [hdecoded] at hnameRun hname_content
    have hfile : flvin.eof = false := by
      rcases hnameRun.ofError nofun with h' | h' | h'
      · exact absurd h' hok
      · exact absurd h' heof
      · exact h'
    exact aimed_tagBody hname_content (by rw [hfile]; nofun)
  | @nameFills name flvin hname hok hle =>
    have hdecoded : decodedName content p = (name, flvin) := hname
    exact absurd (by rw [NameFills, hdecoded]; exact ⟨hok, hle⟩) h.name
  | dataEof hname hok hlt hdata heof => exact absurd rfl hstatus
  | @badData name flvin data flvin' hname hok hlt hdata heof hbad =>
    have hdecoded : decodedName content p = (name, flvin) := hname
    have hdecoded' : decodedData content p = (data, flvin') := by
      rw [decodedData, hdecoded]
      exact hdata
    rw [hdecoded, hdecoded'] at hdataRun
    rw [hdecoded'] at hdata_content
    rw [hdecoded] at hname_atEnd
    refine aimed_tagBody hdata_content fun he => ?_
    cases hf : flvin.eof with
    | true =>
      have hshort := hname_atEnd hok hf
      omega
    | false =>
      rcases hdataRun.ofError (by rw [InFile.Sane, hf]; nofun) with h' | h' | h'
      · exact absurd h' hbad
      · exact absurd h' heof
      · rw [he] at h'
        cases h'
  | @data name flvin data flvin' hname hok hlt hdata hok' =>
    have hdecoded : decodedName content p = (name, flvin) := hname
    have hdecoded' : decodedData content p = (data, flvin') := by
      rw [decodedData, hdecoded]
      exact hdata
    have hpos := h.exact.name
    have hpos' := h.exact.data
    have hno := h.data
    rw [DataOverflows] at hno
    rw [hdecoded, hdecoded'] at hpos' hno
    rw [hdecoded] at hpos
    have hnamePos := hpos hok
    have hdataPos := hpos' hok hlt hok'
    dsimp only at hnamePos hdataPos hno
    have hsum : amfDataSize name + amfDataSize data <
        (tagStream content p).currentTagBodyLength + 2 ^ 32 := by
      by_contra hge
      exact hno ⟨hok, hlt, hok', Nat.le_of_not_lt hge⟩
    have hconsumed := hnameRun.consumed.trans hdataRun.consumed
    rw [hdecoded'] at hdata_content hconsumed
    have hlength : (tagStream content p).currentTagBodyLength < 2 ^ 24 := flvTagGetBodyLength_lt _
    refine aimed_takeOffBody hdata_content rfl rfl rfl (by omega) ?_ (fun he => ?_) ?_ ?_
    · dsimp only
      omega
    · rcases hconsumed.atEnd he with h' | h'
      · cases h'
      · rwa [hdata_content] at h'
    · dsimp only
      omega
    · dsimp only
      omega

end

/-- A file with one script tag, at offset 13, and one byte after its previous tag size. -/
def scriptFile (body : Bytes) : Bytes :=
  [0x46, 0x4C, 0x56, 1, 0, 0, 0, 0, 9] ++ [0, 0, 0, 0] ++
    ([flvTagTypeMeta] ++ (uint32ToUint24Be body.length).bytes ++ [0, 0, 0, 0, 0, 0, 0]) ++ body ++
    toBE 4 (11 + body.length) ++ [0]

theorem realigned_iff_null :
    readOffset (flvReadMetadata (tagStream (scriptFile [2, 0, 1, 0x61, 5]) 13) :
      MetadataResult UInt64 × FlvStream).2 =
      13 + 15 + (tagStream (scriptFile [2, 0, 1, 0x61, 5]) 13).currentTagBodyLength ↔
    ¬ NameFills UInt64 (scriptFile [2, 0, 1, 0x61, 5]) 13 ∧
      ¬ DataOverflows UInt64 (scriptFile [2, 0, 1, 0x61, 5]) 13 :=
  realigned_iff (by decide) (by decide)
    ⟨fun _ => rfl, fun _ _ _ => rfl⟩ (by decide +kernel)

/-- A name that is the whole body: the stream is put back to its start, and the next header is
read inside it. -/
theorem not_realigned :
    ¬ ∀ (content : Bytes) (p : Nat), (tagStream content p).currentTag.type = flvTagTypeMeta →
      (tagStream content p).currentTagBodyLength ≠ 0 →
      p + 15 + (tagStream content p).currentTagBodyLength < content.length →
      ExactSizes UInt64 content p →
      (flvReadMetadata (tagStream content p) : MetadataResult UInt64 × FlvStream).1.status ≠
        .errorEof →
      readOffset (flvReadMetadata (tagStream content p) : MetadataResult UInt64 × FlvStream).2 =
        p + 15 + (tagStream content p).currentTagBodyLength := by
  intro h
  have hfile := h (scriptFile [2, 0, 0]) 13 (by decide) (by decide) (by decide)
    ⟨fun _ => rfl, fun _ h => absurd h (by decide +kernel)⟩ (by decide +kernel)
  exact absurd hfile (by decide +kernel)

end FlvMeta
