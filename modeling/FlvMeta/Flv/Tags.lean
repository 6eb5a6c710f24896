import Mathlib.Data.List.Nodup
import FlvMeta.Flv.Stream

/-!
# The tags of a file

`tagsFrom content p` lists the tags of a file from offset `p` on, each with its offset: the
header at `p`, then those found by stepping over its body and the previous tag size, for as long
as a whole header is left. The stream reader follows this list: a stream is `Aimed` at an
offset when the next call of `flvReadTag` reads its header there, and such a call delivers the
tag at that offset and puts the stream in a state that depends on nothing else
(`flvReadTag_of_aimed`).
-/

namespace FlvMeta

open Endian Stdio

/-! ## Reading a tag header -/

def FlvTag.bytes (tag : FlvTag) : Bytes :=
  tag.type :: (tag.bodyLength.bytes ++ (tag.timestamp.bytes ++
    (tag.timestampExtended :: tag.streamId.bytes)))

@[simp] theorem FlvTag.length_bytes (tag : FlvTag) : tag.bytes.length = 11 := rfl

/-- The tag whose header starts a buffer. -/
def flvTagOfBytes (bs : Bytes) : FlvTag where
  type := bs.getD 0 0
  bodyLength := Uint24Be.ofBytes (bs.drop 1)
  timestamp := Uint24Be.ofBytes (bs.drop 4)
  timestampExtended := bs.getD 7 0
  streamId := Uint24Be.ofBytes (bs.drop 8)

@[simp] theorem flvTagOfBytes_bytes (tag : FlvTag) (rest : Bytes) :
    flvTagOfBytes (tag.bytes ++ rest) = tag := rfl

theorem bytes_flvTagOfBytes {bs : Bytes} (h : 11 ≤ bs.length) :
    (flvTagOfBytes bs).bytes = bs.take 11 := by
  match bs, h with
  | a :: b :: c :: d :: e :: f :: g :: h :: i :: j :: k :: rest, _ => rfl

/-- A tag of one of the three known types. -/
def FlvTag.Known (tag : FlvTag) : Prop :=
  tag.type = flvTagTypeMeta ∨ tag.type = flvTagTypeAudio ∨ tag.type = flvTagTypeVideo

instance (tag : FlvTag) : Decidable tag.Known := inferInstanceAs (Decidable (_ ∨ _ ∨ _))

theorem flvTagGetBodyLength_lt (tag : FlvTag) : flvTagGetBodyLength tag < 2 ^ 24 :=
  uint24BeToUint32_lt _

theorem flvTagGetTimestamp_lt (tag : FlvTag) : flvTagGetTimestamp tag < 2 ^ 32 := by
  have h := uint24BeToUint32_lt tag.timestamp
  have h' := tag.timestampExtended.toNat_lt
  unfold flvTagGetTimestamp
  omega

theorem flvTagGetTimestamp_set (tag : FlvTag) {timestamp : Nat} (h : timestamp < 2 ^ 32) :
    flvTagGetTimestamp (flvTagSetTimestamp tag timestamp) = timestamp := by
  simp only [flvTagGetTimestamp, flvTagSetTimestamp, uint24BeToUint32_of_uint32,
    UInt8.toNat_ofNat']
  omega

theorem ofBytes_take (bs : Bytes) {n : Nat} (h : 3 ≤ n) :
    Uint24Be.ofBytes (bs.take n) = Uint24Be.ofBytes bs := by
  simp only [Uint24Be.ofBytes, List.getD_eq_getElem?_getD, List.getElem?_take]
  simp only [show 0 < n by omega, show 1 < n by omega, show 2 < n by omega, if_true]

theorem readTagFields_of_le {f : InFile} (h : 11 ≤ f.rest.length) :
    readTagFields f = (some (flvTagOfBytes f.rest), f.advance 11) := by
  have hitems := InFile.freadItems_of_le (show [1, 3, 3, 1, 3].sum ≤ f.rest.length from h)
  simp only [readTagFields, hitems, InFile.splitItems, List.drop_drop,
    ofBytes_take _ (Nat.le_refl 3), flvTagOfBytes, Nat.reduceAdd]
  congr 3
  · simp
  · simp

/-- A header that the file cannot serve in full is read up to the end of the file. -/
theorem readTagFields_of_lt {f : InFile} (h : f.rest.length < 11) :
    readTagFields f = (none, { f with pos := f.pos + f.rest.length, eof := true }) := by
  have hitems := InFile.freadItems_of_lt (show f.rest.length < [1, 3, 3, 1, 3].sum from h)
  simp only [readTagFields, hitems]

/-! ## The list of tags -/

/-- The offset of the tag after the one at offset `p`. -/
def nextTag (p : Nat) (tag : FlvTag) : Nat := p + 15 + flvTagGetBodyLength tag

/-- The tags from offset `p` on, at most `fuel` of them. -/
def scanTags (content : Bytes) : Nat → Nat → List (Nat × FlvTag)
  | 0, _ => []
  | fuel + 1, p =>
    if p + 11 ≤ content.length then
      let tag := flvTagOfBytes (content.drop p)
      (p, tag) :: scanTags content fuel (nextTag p tag)
    else []

/-- All tags from offset `p` on, each with its offset. -/
def tagsFrom (content : Bytes) (p : Nat) : List (Nat × FlvTag) :=
  scanTags content content.length p

theorem scanTags_fuel {content : Bytes} {m n p : Nat} (hm : content.length ≤ m + p)
    (hn : content.length ≤ n + p) : scanTags content m p = scanTags content n p := by
  induction m generalizing n p with
  | zero =>
    cases n with
    | zero => rfl
    | succ n => rw [scanTags, scanTags, if_neg (by omega)]
  | succ m ih =>
    cases n with
    | zero => rw [scanTags, scanTags, if_neg (by omega)]
    | succ n =>
      simp only [scanTags]
      split
      · rw [ih (n := n)] <;> (unfold nextTag; omega)
      · rfl

theorem tagsFrom_of_le {content : Bytes} {p : Nat} (h : p + 11 ≤ content.length) :
    tagsFrom content p = (p, flvTagOfBytes (content.drop p)) ::
      tagsFrom content (nextTag p (flvTagOfBytes (content.drop p))) := by
  unfold tagsFrom
  obtain ⟨n, hn⟩ : ∃ n, content.length = n + 1 := ⟨content.length - 1, by omega⟩
  rw [hn, scanTags, if_pos (by omega)]
  simp only [List.cons.injEq, true_and]
  exact scanTags_fuel (by unfold nextTag; omega) (by omega)

theorem tagsFrom_of_lt {content : Bytes} {p : Nat} (h : content.length < p + 11) :
    tagsFrom content p = [] := by
  unfold tagsFrom
  cases hn : content.length with
  | zero => rfl
  | succ n => rw [scanTags, if_neg (by omega)]

/-- Induction along the tags of a file. -/
theorem tagsFrom_induction (content : Bytes) {motive : Nat → List (Nat × FlvTag) → Prop}
    (nil : ∀ p, content.length < p + 11 → motive p [])
    (cons : ∀ p tag, p + 11 ≤ content.length → tag = flvTagOfBytes (content.drop p) →
      motive (nextTag p tag) (tagsFrom content (nextTag p tag)) →
      motive p ((p, tag) :: tagsFrom content (nextTag p tag))) (p : Nat) :
    motive p (tagsFrom content p) := by
  by_cases h : p + 11 ≤ content.length
  · rw [tagsFrom_of_le h]
    exact cons p _ h rfl (tagsFrom_induction content nil cons _)
  · rw [tagsFrom_of_lt (by omega)]
    exact nil p (by omega)
termination_by content.length - p
decreasing_by
  simp only [nextTag]
  omega

/-- Every tag lies behind those before it. -/
theorem le_of_mem_tagsFrom {content : Bytes} (p : Nat) : ∀ x ∈ tagsFrom content p, p ≤ x.1 := by
  induction p using tagsFrom_induction content with
  | nil p hlt => simp
  | cons p tag hle htag ih =>
    intro x hx
    rcases List.mem_cons.mp hx with rfl | hx
    · exact Nat.le_refl p
    · have hnext := ih x hx
      unfold nextTag at hnext
      omega

theorem tag_of_mem_tagsFrom {content : Bytes} (p : Nat) :
    ∀ x ∈ tagsFrom content p, x.2 = flvTagOfBytes (content.drop x.1) := by
  induction p using tagsFrom_induction content with
  | nil p hlt => simp
  | cons p tag hle htag ih =>
    intro x hx
    rcases List.mem_cons.mp hx with rfl | hx
    · exact htag
    · exact ih x hx

theorem pairwise_tagsFrom (content : Bytes) (p : Nat) :
    (tagsFrom content p).Pairwise fun x y => nextTag x.1 x.2 ≤ y.1 := by
  induction p using tagsFrom_induction content with
  | nil p hlt => exact .nil
  | cons p tag hle htag ih => exact .cons (le_of_mem_tagsFrom _) ih

theorem nodup_offsets (content : Bytes) (p : Nat) :
    ((tagsFrom content p).map Prod.fst).Nodup :=
  List.pairwise_map.mpr ((pairwise_tagsFrom content p).imp fun {a b} hab => by
    unfold nextTag at hab
    omega)

/-! ## Streams aimed at an offset -/

/-- Where the next tag header is read, when the end of the file has not been seen. -/
def nextTagOffset (stream : FlvStream) : Nat :=
  match stream.state with
  | .start => stream.flvin.pos + 13
  | .tag => stream.flvin.pos
  | .tagBody => nextTag stream.currentTagOffset stream.currentTag
  | .prevTagSize => stream.flvin.pos + 4

/-- The next call of `flvReadTag` reads a header at `p`, or it fails because the end of the file
was seen and no header fits at `p`. -/
structure Aimed (content : Bytes) (p : Nat) (stream : FlvStream) : Prop where
  content_eq : stream.flvin.content = content
  next : stream.flvin.eof = false → nextTagOffset stream = p
  atEnd : stream.flvin.eof = true → content.length < p + 11

/-- The stream that has just read the tag at offset `p`. -/
def tagStream (content : Bytes) (p : Nat) : FlvStream :=
  let tag := flvTagOfBytes (content.drop p)
  { flvin := ⟨content, p + 11, false⟩
    state := .tagBody
    currentTag := tag
    currentTagOffset := p
    currentTagBodyLength := flvTagGetBodyLength tag
    currentTagBodyOverflow := 0 }

theorem not_noBody_tagStream (content : Bytes) (p : Nat) : ¬ NoBody (tagStream content p) := by
  rintro (h | h)
  · cases h
  · exact h rfl

/-- After the seeks of `flvReadTag` the file is at the next tag offset. -/
theorem skipped (stream : FlvStream) :
    skipPrevTagSize (skipTagBody (skipHeader stream)) =
      { stream with
        flvin := ⟨stream.flvin.content, nextTagOffset stream,
          if stream.state = .tag then stream.flvin.eof else false⟩
        state := .tag } := by
  have h9 : ∀ f : InFile, f.seekCur flvHeaderSize = ⟨f.content, f.pos + 9, false⟩ := fun f =>
    InFile.seekCur_forward 9 f
  have h4 : ∀ f : InFile, f.seekCur 4 = ⟨f.content, f.pos + 4, false⟩ := fun f =>
    InFile.seekCur_forward 4 f
  obtain ⟨flvin, state, tag, offset, length, overflow⟩ := stream
  cases state with
  | start => simp [skipHeader, skipTagBody, skipPrevTagSize, nextTagOffset, h9, h4]
  | tag => simp [skipHeader, skipTagBody, skipPrevTagSize, nextTagOffset]
  | tagBody =>
    simp [skipHeader, skipTagBody, skipPrevTagSize, nextTagOffset, h4, nextTag, flvTagSize]
    omega
  | prevTagSize => simp [skipHeader, skipTagBody, skipPrevTagSize, nextTagOffset, h4]

/-- A call of `flvReadTag` on an aimed stream delivers the tag at its offset, and the stream is
then the same whatever it was before. -/
theorem flvReadTag_of_aimed {content : Bytes} {p : Nat} {stream : FlvStream}
    (h : Aimed content p stream) (hle : p + 11 ≤ content.length) :
    flvReadTag stream = (.ok (flvTagOfBytes (content.drop p)), tagStream content p) := by
  have heof : stream.flvin.eof = false := by
    cases he : stream.flvin.eof with
    | false => rfl
    | true =>
      have := h.atEnd he
      omega
  have hnext := h.next heof
  have hcontent := h.content_eq
  have hfields := readTagFields_of_le (f := ⟨content, p, false⟩)
    (by rw [InFile.length_rest]; dsimp only; omega)
  unfold flvReadTag
  rw [heof, skipped, heof, hnext, hcontent]
  simp only [ite_self, hfields]
  rfl

/-- Where no header fits, the call fails and so will those after it. -/
theorem flvReadTag_of_aimed_lt {content : Bytes} {p : Nat} {stream : FlvStream}
    (h : Aimed content p stream) (hlt : content.length < p + 11) :
    ∃ stream', flvReadTag stream = (.error .errorEof, stream') ∧ Aimed content p stream' ∧
      stream'.flvin.eof = true := by
  cases heof : stream.flvin.eof with
  | true =>
    refine ⟨stream, ?_, h, heof⟩
    rw [flvReadTag, heof]
    rfl
  | false =>
    have hnext := h.next heof
    have hcontent := h.content_eq
    have hfields := readTagFields_of_lt (f := ⟨content, p, false⟩)
      (by rw [InFile.length_rest]; dsimp only; omega)
    unfold flvReadTag
    rw [heof, skipped, heof, hnext, hcontent]
    simp only [ite_self, hfields]
    exact ⟨_, rfl, ⟨rfl, nofun, fun _ => hlt⟩, rfl⟩

theorem takeOffBody_of_le {n : Nat} {stream : FlvStream}
    (hov : stream.currentTagBodyOverflow = 0)
    (hstate : stream.state = .tagBody) (hn : n ≤ stream.currentTagBodyLength) :
    takeOffBody n stream = { stream with
      currentTagBodyLength := stream.currentTagBodyLength - n
      state := if stream.currentTagBodyLength - n = 0 then .prevTagSize else .tagBody } := by
  simp only [takeOffBody, if_pos hn, hov, Nat.lt_irrefl, if_false]
  split
  · rfl
  · rw [← hstate]

/-! ## The file header -/

def FlvHeader.bytes (header : FlvHeader) : Bytes :=
  header.signature.bytes ++ (header.version :: header.flags :: toLE 4 header.offset)

@[simp] theorem FlvHeader.length_bytes (header : FlvHeader) : header.bytes.length = 9 := by
  simp [FlvHeader.bytes]

/-- The header that starts a buffer. -/
def flvHeaderOfBytes (bs : Bytes) : FlvHeader where
  signature := Uint24Be.ofBytes bs
  version := bs.getD 3 0
  flags := bs.getD 4 0
  offset := ofLE ((bs.drop 5).take 4)

theorem bytes_flvHeaderOfBytes {bs : Bytes} (h : 9 ≤ bs.length) :
    (flvHeaderOfBytes bs).bytes = bs.take 9 := by
  match bs, h with
  | a :: b :: c :: d :: e :: f :: g :: h :: i :: rest, _ =>
    simpa [FlvHeader.bytes, flvHeaderOfBytes, Uint24Be.bytes, Uint24Be.ofBytes] using
      toLE_ofLE [f, g, h, i]

theorem readHeaderFields_of_le {f : InFile} (h : 9 ≤ f.rest.length) :
    readHeaderFields f = (some (flvHeaderOfBytes f.rest), f.advance 9) := by
  have hitems := InFile.freadItems_of_le (show [3, 1, 1, 4].sum ≤ f.rest.length from h)
  simp only [readHeaderFields, hitems, InFile.splitItems, List.drop_drop,
    ofBytes_take _ (Nat.le_refl 3), flvHeaderOfBytes, Nat.reduceAdd]
  congr 3
  · simp
  · simp

/-- A stream at the start of a file, just opened or reset. -/
structure AtStart (content : Bytes) (stream : FlvStream) : Prop where
  file : stream.flvin = ⟨content, 0, false⟩
  state : stream.state = .start

theorem atStart_flvOpen (content : Bytes) : AtStart content (flvOpen content) := ⟨rfl, rfl⟩

theorem atStart_flvReset (stream : FlvStream) :
    AtStart stream.flvin.content (flvReset stream) := ⟨rfl, rfl⟩

/-- A header that was read is the start of the file. -/
theorem flvReadHeader_ok {content : Bytes} {stream stream' : FlvStream} {header : FlvHeader}
    (hstart : AtStart content stream) (h : flvReadHeader stream = (.ok header, stream')) :
    9 ≤ content.length ∧ header.bytes = content.take 9 ∧
      stream' = { stream with flvin := ⟨content, 9, false⟩, state := .prevTagSize } := by
  have hcond : ¬ ((stream.flvin.eof = true) ∨ stream.state ≠ .start) := by
    simp [hstart.file, hstart.state]
  have hrest : InFile.rest ⟨content, 0, false⟩ = content := rfl
  rw [flvReadHeader, if_neg hcond, hstart.file] at h
  by_cases hle : 9 ≤ content.length
  · rw [readHeaderFields_of_le (by rwa [hrest])] at h
    dsimp only at h
    split at h
    · cases (Prod.mk.inj h).1
    · obtain ⟨hheader, hstream⟩ := Prod.mk.inj h
      cases hheader
      exact ⟨hle, bytes_flvHeaderOfBytes hle, hstream.symm⟩
  · have hlt : (⟨content, 0, false⟩ : InFile).rest.length < [3, 1, 1, 4].sum := by
      rw [hrest]
      exact Nat.lt_of_not_le hle
    have hitems := InFile.freadItems_of_lt hlt
    simp only [readHeaderFields, hitems] at h
    cases (Prod.mk.inj h).1

/-- The header of a file that starts with the signature is read. -/
theorem flvReadHeader_of_signature {content : Bytes} (hle : 9 ≤ content.length)
    (hsignature : (flvHeaderOfBytes content).signature = ⟨0x46, 0x4C, 0x56⟩) :
    flvReadHeader (flvOpen content) = (.ok (flvHeaderOfBytes content),
      { flvOpen content with flvin := ⟨content, 9, false⟩, state := .prevTagSize }) := by
  have hread := readHeaderFields_of_le (f := InFile.ofContent content) hle
  have hrest : (InFile.ofContent content).rest = content := rfl
  rw [hrest] at hread
  rw [flvReadHeader, if_neg (by simp [flvOpen, InFile.ofContent])]
  have hflvin : (flvOpen content).flvin = InFile.ofContent content := rfl
  rw [hflvin, hread]
  dsimp only
  rw [if_neg (not_not_intro hsignature)]
  rfl

theorem flvReadHeader_congr {content : Bytes} {s t : FlvStream} (h : AtStart content s)
    (h' : AtStart content t) : (flvReadHeader t).1 = (flvReadHeader s).1 := by
  unfold flvReadHeader
  rw [h.file, h.state, h'.file, h'.state]
  split
  · rfl
  · generalize readHeaderFields ⟨content, 0, false⟩ = r
    obtain ⟨header, f⟩ := r
    cases header with
    | none => rfl
    | some header =>
      dsimp only
      split <;> rfl

/-- In front of a previous tag size, a tag is read whatever the other fields are. -/
theorem flvReadTag_congr {s t : FlvStream} (hflvin : t.flvin = s.flvin)
    (hstate : s.state = .prevTagSize) (hstate' : t.state = .prevTagSize) :
    (flvReadTag t).1 = (flvReadTag s).1 ∧
      ∀ tag, (flvReadTag s).1 = .ok tag → flvReadTag t = flvReadTag s := by
  obtain ⟨flvin, state, _, _, _, _⟩ := s
  obtain ⟨flvin', state', _, _, _, _⟩ := t
  cases hflvin
  cases hstate
  cases hstate'
  unfold flvReadTag skipPrevTagSize skipTagBody skipHeader
  dsimp only
  split
  · exact ⟨rfl, fun _ h => by cases h⟩
  · simp only [reduceCtorEq, if_false, if_true]
    generalize readTagFields (flvin.seekCur 4) = r
    obtain ⟨tag, f⟩ := r
    cases tag with
    | none => exact ⟨rfl, fun _ h => by cases h⟩
    | some tag => exact ⟨rfl, fun _ _ => rfl⟩

end FlvMeta
