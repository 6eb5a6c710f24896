import FlvMeta.Base.Loop
import FlvMeta.Flv.Metadata
import FlvMeta.Flv.Position

/-!
# Progress

`Beyond content p stream` says that the next tag header is not read before `p`. Whatever is read of
the tag at `p`, the stream is then beyond `p`, script tags included, although `flvReadMetadata` may
move the file back: the size it moves back by is computed from a value that takes no more bytes
than were read. A loop over tags whose turns leave the stream beyond the start of their tag visits
increasing offsets, and ends (`advances_fetchTag`).
-/

namespace FlvMeta

open Endian Stdio

variable {N : Type}

/-- The next tag header is not read before `p`. -/
structure Beyond (content : Bytes) (p : Nat) (stream : FlvStream) : Prop where
  content_eq : stream.flvin.content = content
  next : stream.flvin.eof = false → p ≤ nextTagOffset stream

theorem Tracks.beyond {content : Bytes} {p q : Nat} {tag : FlvTag} {stream : FlvStream}
    (h : Tracks content (some (p, tag)) stream) (hq : q ≤ p + 15) : Beyond content q stream := by
  refine ⟨h.content_eq, fun heof => ?_⟩
  rw [h.aimed.next heof]
  simp only [nextOffset, nextTag]
  omega

/-- In or after the tag at `p`, wherever its file is behind the start of the tag. -/
structure After (content : Bytes) (p : Nat) (stream : FlvStream) : Prop where
  content_eq : stream.flvin.content = content
  state : stream.state ≠ .start
  offset : stream.state = .tagBody → stream.currentTagOffset = p
  pos : stream.flvin.eof = false → p < stream.flvin.pos

theorem After.beyond {content : Bytes} {p : Nat} {stream : FlvStream}
    (h : After content p stream) : Beyond content (p + 1) stream := by
  refine ⟨h.content_eq, fun heof => ?_⟩
  have hpos := h.pos heof
  unfold nextTagOffset
  cases hstate : stream.state with
  | start => exact absurd hstate h.state
  | tag => exact hpos
  | tagBody =>
    have hoffset := h.offset hstate
    simp only [nextTag]
    omega
  | prevTagSize =>
    dsimp only
    omega

theorem after_tagStream (content : Bytes) (p : Nat) : After content p (tagStream content p) :=
  ⟨rfl, nofun, fun _ => rfl, fun _ => by simp only [tagStream]; omega⟩

theorem After.flvReadTagBody {content : Bytes} {p : Nat} {stream : FlvStream}
    (h : After content p stream) (n : Nat) : After content p (flvReadTagBody n stream).2 := by
  unfold FlvMeta.flvReadTagBody
  split
  · exact h
  · rename_i hbody
    have hoffset : stream.currentTagOffset = p := by
      refine h.offset (Classical.not_not.mp fun hs => hbody (Or.inr hs))
    have heof : stream.flvin.eof = false := by
      simpa using fun he => hbody (Or.inl he)
    have hpos := h.pos heof
    refine ⟨h.content_eq, ?_, fun _ => hoffset, fun _ => ?_⟩
    · dsimp only
      split <;> decide
    · dsimp only
      rw [InFile.fread_pos]
      omega

theorem After.flvReadPrevTagSize {content : Bytes} {p : Nat} {stream : FlvStream}
    (h : After content p stream) : After content p (flvReadPrevTagSize stream).2 := by
  unfold FlvMeta.flvReadPrevTagSize
  split
  · exact h
  · rename_i heof
    have hskip : After content p (skipTagBody stream) := by
      unfold skipTagBody
      split
      · rename_i hstate
        have hoffset := h.offset hstate
        refine ⟨h.content_eq, by simp, nofun, fun _ => ?_⟩
        dsimp only [InFile.seekSet_pos, flvTagSize]
        omega
      · exact h
    generalize skipTagBody stream = s at hskip
    dsimp only
    split
    · rename_i hstate
      rcases Nat.lt_or_ge s.flvin.rest.length 4 with hlt | hle
      · rw [InFile.freadItem_of_lt hlt]
        exact ⟨hskip.content_eq, hskip.state, hskip.offset, nofun⟩
      · rw [InFile.freadItem_of_le hle]
        refine ⟨hskip.content_eq, by simp, nofun, fun he => ?_⟩
        have hpos := hskip.pos he
        dsimp only [InFile.advance_pos]
        omega
    · exact hskip

theorem Tracks.after {content : Bytes} {p : Nat} {tag : FlvTag} {stream : FlvStream}
    (h : Tracks content (some (p, tag)) stream) (hstate : stream.state ≠ .start)
    (hoffset : stream.state = .tagBody → stream.currentTagOffset = p) :
    After content p stream := by
  refine ⟨h.content_eq, hstate, hoffset, fun heof => ?_⟩
  rcases h.onTrack heof with ⟨-, -, -, -, -, hpos⟩ | ⟨-, -, -, hpos⟩ | ⟨-, hpos⟩
  · omega
  · omega
  · unfold nextTag at hpos
    omega

theorem After.takeOffBody {content : Bytes} {p size : Nat} {stream : FlvStream}
    (h : After content p stream) (hoffset : stream.currentTagOffset = p)
    (hov : stream.currentTagBodyOverflow = 0) (hstate : stream.state = .tagBody)
    (hlen : stream.currentTagBodyLength < 2 ^ 32) (hlen' : stream.currentTagBodyLength ≠ 0)
    (hpos : p + size ≤ stream.flvin.pos) : After content p (takeOffBody size stream) := by
  by_cases hle : size ≤ stream.currentTagBodyLength
  · rw [takeOffBody_of_le hov hstate hle]
    refine ⟨h.content_eq, ?_, fun _ => hoffset, h.pos⟩
    dsimp only
    split <;> decide
  · have hv := subUint32_of_le hlen (Nat.le_of_not_le hle)
    have hv' : subUint32 size stream.currentTagBodyLength ≤ size := by omega
    simp only [FlvMeta.takeOffBody, if_neg hle, if_true]
    refine ⟨?_, by simp, by simp, fun heof => ?_⟩
    · dsimp only
      split
      · rw [InFile.seekCur_content, h.content_eq]
      · exact h.content_eq
    · dsimp only at heof ⊢
      split at heof
      · rename_i hpos'
        rw [if_pos hpos', InFile.seekCur_back (by omega)]
        dsimp only
        omega
      · rename_i hpos'
        rw [if_neg hpos']
        exact h.pos heof

section

variable [NumberImage N]

/-- Whatever is decoded of a script body, from any place in it, the file is moved back only behind
the start of the tag. -/
theorem flvReadMetadata_after {content : Bytes} {p : Nat} {tag : FlvTag} {stream : FlvStream}
    (h : Tracks content (some (p, tag)) stream) (hbody : ¬ NoBody stream)
    (hlen : stream.currentTagBodyLength ≠ 0) :
    After content p (flvReadMetadata stream : MetadataResult N × FlvStream).2 := by
  have hrun := metadataRun (N := N) hbody hlen
  obtain ⟨p', tag', heq, heof, hstate, hoffset, -, hov, hle, hpos⟩ := h.body hbody
  cases heq
  have hL := flvTagGetBodyLength_lt tag
  have hsane : stream.flvin.Sane := fun he => absurd (heof.symm.trans he) Bool.false_ne_true
  have hafter : ∀ {flvin : InFile} {length : Nat}, stream.flvin.Consumed flvin →
      After content p { stream with flvin, currentTagBodyLength := length } := by
    intro flvin length hconsumed
    have hge := hconsumed.pos
    refine ⟨hconsumed.content.trans h.content_eq, ?_, fun _ => hoffset, fun _ => ?_⟩
    · dsimp only
      rw [hstate]
      decide
    · dsimp only
      omega
  generalize (flvReadMetadata stream : MetadataResult N × FlvStream).1 = result at hrun
  generalize (flvReadMetadata stream : MetadataResult N × FlvStream).2 = stream' at hrun ⊢
  cases hrun with
  | @nameEof name flvin hname =>
    have hfile := amfDataFileRead_run (N := N) stream.flvin
    rw [hname] at hfile
    exact hafter hfile.consumed
  | @badName name flvin hname =>
    have hfile := amfDataFileRead_run (N := N) stream.flvin
    rw [hname] at hfile
    exact hafter hfile.consumed
  | @nameFills name flvin hname hok hfills =>
    have hfile := amfDataFileRead_run (N := N) stream.flvin
    rw [hname] at hfile
    have hsize := hfile.size hsane trivial hok
    have hbit := Bool.toNat_le flvin.eof
    rw [heof] at hsize
    simp only [Frame.base, Bool.toNat_false] at hsize
    have hv := subUint32_of_le (a := amfDataSize name) (b := 0) (by decide) (Nat.zero_le _)
    refine ⟨?_, by simp, by simp, fun he => ?_⟩
    · dsimp only
      split
      · rw [InFile.seekCur_content]
        exact hfile.consumed.content.trans h.content_eq
      · exact hfile.consumed.content.trans h.content_eq
    · have hge := hfile.consumed.pos
      dsimp only at he ⊢
      split
      · rw [InFile.seekCur_back (by omega)]
        dsimp only
        omega
      · omega
  | @dataEof name flvin data flvin' hname hok hlt hdata =>
    have hfile := amfDataFileRead_run (N := N) stream.flvin
    have hfile' := amfDataFileRead_run (N := N) flvin
    rw [hname] at hfile
    rw [hdata] at hfile'
    exact hafter (hfile.consumed.trans hfile'.consumed)
  | @badData name flvin data flvin' hname hok hlt hdata =>
    have hfile := amfDataFileRead_run (N := N) stream.flvin
    have hfile' := amfDataFileRead_run (N := N) flvin
    rw [hname] at hfile
    rw [hdata] at hfile'
    exact hafter (hfile.consumed.trans hfile'.consumed)
  | @data name flvin data flvin' hname hok hlt hdata hok' =>
    have hfile := amfDataFileRead_run (N := N) stream.flvin
    have hfile' := amfDataFileRead_run (N := N) flvin
    rw [hname] at hfile
    rw [hdata] at hfile'
    have hsize := hfile'.size (hfile.consumed.sane hsane) trivial hok'
    have hbit := Bool.toNat_le flvin'.eof
    have hge := hfile.consumed.pos
    simp only [Frame.base] at hsize
    dsimp only at hge hsize
    refine (hafter (hfile.consumed.trans hfile'.consumed)).takeOffBody hoffset hov hstate ?_ ?_ ?_
    · dsimp only
      omega
    · dsimp only
      omega
    · dsimp only
      omega

end

/-- A call of `flvReadTag` on any stream: it fails, or it delivers the tag at the next offset. -/
theorem flvReadTag_cases (stream : FlvStream) :
    (∃ stream', flvReadTag stream = (.error .errorEof, stream') ∧
      stream'.flvin.content = stream.flvin.content) ∨
      (stream.flvin.eof = false ∧ nextTagOffset stream + 11 ≤ stream.flvin.content.length ∧
        flvReadTag stream =
          (.ok (flvTagOfBytes (stream.flvin.content.drop (nextTagOffset stream))),
            tagStream stream.flvin.content (nextTagOffset stream))) := by
  cases heof : stream.flvin.eof with
  | true =>
    left
    refine ⟨stream, ?_, rfl⟩
    rw [flvReadTag, heof]
    rfl
  | false =>
    have haimed : Aimed stream.flvin.content (nextTagOffset stream) stream :=
      ⟨rfl, fun _ => rfl, fun h => absurd (heof.symm.trans h) Bool.false_ne_true⟩
    by_cases hle : nextTagOffset stream + 11 ≤ stream.flvin.content.length
    · exact Or.inr ⟨rfl, hle, flvReadTag_of_aimed haimed hle⟩
    · obtain ⟨stream', hread, haimed', -⟩ := flvReadTag_of_aimed_lt haimed (by omega)
      exact Or.inl ⟨stream', hread, haimed'.content_eq⟩

/-! ## Loops over tags -/

/-- `flv_read_tag` as the condition of a loop. -/
def fetchTag (stream : FlvStream) : Option FlvTag × FlvStream :=
  match flvReadTag stream with
  | (.ok tag, stream) => (some tag, stream)
  | (.error _, stream) => (none, stream)

/-- Turns that leave the stream beyond the start of their tag. -/
def TurnsBeyond {S R : Type} (content : Bytes)
    (turn : FlvTag → S → FlvStream → Loop.Turn S R × FlvStream) : Prop :=
  ∀ p st st' stream', turn (flvTagOfBytes (content.drop p)) st (tagStream content p) =
    (.next st', stream') → Beyond content (p + 1) stream'

theorem fetchTag_some {content : Bytes} {p : Nat} {stream stream' : FlvStream} {tag : FlvTag}
    (h : Beyond content p stream) (hfetch : fetchTag stream = (some tag, stream')) :
    ∃ q, p ≤ q ∧ q + 11 ≤ content.length ∧ tag = flvTagOfBytes (content.drop q) ∧
      stream' = tagStream content q := by
  unfold fetchTag at hfetch
  rcases flvReadTag_cases stream with ⟨stream₁, hread, -⟩ | ⟨heof, hle, hread⟩
  · rw [hread] at hfetch
    cases hfetch
  · rw [h.content_eq] at hle hread
    rw [hread] at hfetch
    cases hfetch
    exact ⟨_, h.next heof, hle, rfl, rfl⟩

theorem content_fetchTag {stream stream' : FlvStream} {item : Option FlvTag}
    (hfetch : fetchTag stream = (item, stream')) :
    stream'.flvin.content = stream.flvin.content := by
  unfold fetchTag at hfetch
  rcases flvReadTag_cases stream with ⟨stream₁, hread, hcontent⟩ | ⟨-, -, hread⟩
  · rw [hread] at hfetch
    cases hfetch
    exact hcontent
  · rw [hread] at hfetch
    cases hfetch
    rfl

theorem advances_fetchTag {S R : Type} {content : Bytes}
    {turn : FlvTag → S → FlvStream → Loop.Turn S R × FlvStream} (h : TurnsBeyond content turn) :
    Loop.Advances fetchTag turn flvGetCurrentTagOffset content.length (Beyond content) where
  inside := by
    intro p stream tag stream' hp hfetch
    obtain ⟨q, hge, hlt, -, rfl⟩ := fetchTag_some hp hfetch
    have hoffset : flvGetCurrentTagOffset (tagStream content q) = q := rfl
    omega
  behind := by
    intro p stream tag stream' st st' stream'' hp hfetch hturn
    obtain ⟨q, -, -, rfl, rfl⟩ := fetchTag_some hp hfetch
    exact h q st st' stream'' hturn

end FlvMeta
