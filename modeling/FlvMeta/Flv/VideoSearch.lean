import FlvMeta.Flv.Body
import FlvMeta.Flv.VideoSize

/-!
# The search for the video size in a complete tag

In a tag that the file holds in full, a reader of the body sees the bytes that are left of it
(`bodyLeft`). `Gives` says what a reader returns on such bytes, and `computeVideoSize` gives the
result of `searchVideo`, a function of the bytes. The search is told the length of the body minus
the size of a structure in memory, a `uint32`. `SearchFails` is the exact condition on codec,
length and bytes under which it finds the end of the body (`searchVideo_error_iff`).
-/

namespace FlvMeta

open Endian Stdio

variable {content : Bytes} {p : Nat} {tag : FlvTag} {stream : FlvStream}

/-! ## The bytes that are left -/

/-- What is left of the body to be read. -/
def bodyLeft (stream : FlvStream) : Bytes :=
  if NoBody stream then [] else stream.flvin.rest.take stream.currentTagBodyLength

/-- A read leaves the state that fits the length. -/
theorem bodyLeft_of_state (heof : stream.flvin.eof = false)
    (hstate : stream.state =
      if stream.currentTagBodyLength = 0 then .prevTagSize else .tagBody) :
    bodyLeft stream = stream.flvin.rest.take stream.currentTagBodyLength := by
  unfold bodyLeft
  by_cases hzero : stream.currentTagBodyLength = 0
  · have hno : NoBody stream := Or.inr (by simp [hstate, hzero])
    rw [if_pos hno, hzero, List.take_zero]
  · refine if_neg ?_
    rintro (he | hs)
    · exact absurd (heof.symm.trans he) Bool.false_ne_true
    · exact hs (by rw [hstate, if_neg hzero])

theorem bodyLeft_flvReadTagBody (h : InTag content p tag stream)
    (hcomplete : Complete content p tag) (n : Nat) :
    (flvReadTagBody n stream).1 = (bodyLeft stream).take n ∧
      bodyLeft (flvReadTagBody n stream).2 = (bodyLeft stream).drop n := by
  unfold flvReadTagBody
  by_cases hbody : NoBody stream
  · rw [if_pos hbody, bodyLeft, if_pos hbody]
    simp
  · have hle := h.length_rest hcomplete hbody
    have hread := InFile.fread_of_le (n := min n stream.currentTagBodyLength)
      (f := stream.flvin) (by omega)
    have hlength : (stream.flvin.rest.take (min n stream.currentTagBodyLength)).length =
        min n stream.currentTagBodyLength := by
      rw [List.length_take]
      omega
    have hleft : bodyLeft stream = stream.flvin.rest.take stream.currentTagBodyLength :=
      if_neg hbody
    rw [if_neg hbody, hread, hleft]
    dsimp only
    rw [hlength]
    refine ⟨by rw [List.take_take], ?_⟩
    rw [bodyLeft_of_state (by exact h.eof) rfl]
    dsimp only
    rw [InFile.rest_advance, List.drop_take]
    by_cases hmin : n ≤ stream.currentTagBodyLength
    · rw [Nat.min_eq_left hmin]
    · rw [show stream.currentTagBodyLength - n = 0 by omega,
        show stream.currentTagBodyLength - min n stream.currentTagBodyLength = 0 by omega,
        List.take_zero, List.take_zero]

/-- What is left of the body of a video tag behind its header. -/
def videoLeft (content : Bytes) (p : Nat) (tag : FlvTag) : Bytes :=
  (tagBody content p tag).drop
    (if flvVideoTagIsExtHeader ⟨content.getD (p + 11) 0, 0⟩ then 5 else 1)

theorem bodyLeft_takeOff (htag : tag = flvTagOfBytes (content.drop p))
    (hlen : flvTagGetBodyLength tag ≠ 0) :
    bodyLeft (takeOffBody 1 { tagStream content p with
      flvin := (tagStream content p).flvin.advance 1 }) = (tagBody content p tag).drop 1 := by
  have hL : (tagStream content p).currentTagBodyLength = flvTagGetBodyLength tag := by
    rw [htag]
    rfl
  rw [takeOffBody_of_le rfl rfl (by dsimp only; omega)]
  rw [bodyLeft_of_state rfl rfl]
  dsimp only
  rw [hL, InFile.rest_advance, tagBody, List.drop_take]
  rfl

/-- The header of a video tag is taken off its body. -/
theorem flvReadVideoTag_left (htag : tag = flvTagOfBytes (content.drop p))
    (hcomplete : Complete content p tag) (hlen : flvTagGetBodyLength tag ≠ 0) :
    bodyLeft (flvReadVideoTag (tagStream content p)).2 = videoLeft content p tag := by
  obtain ⟨bs, hread, hbyte⟩ := freadItem_tagStream hcomplete hlen
  have hL : (tagStream content p).currentTagBodyLength = flvTagGetBodyLength tag := by
    rw [htag]
    rfl
  have hleft := bodyLeft_takeOff htag hlen
  have hrest := (bodyLeft_flvReadTagBody (inTag_takeOff htag hlen) hcomplete 4).2
  rw [hleft, List.drop_drop] at hrest
  rw [flvReadVideoTag, if_neg (not_noBody_tagStream content p), if_neg (by omega), hread]
  dsimp only
  rw [hbyte, videoLeft]
  split
  · unfold flvReadFourccCodec
    dsimp only
    split
    · exact hrest
    · exact hrest
  · exact hleft

/-- An extended video tag whose body does not hold the code of its codec is not read. -/
theorem flvReadVideoTag_short (htag : tag = flvTagOfBytes (content.drop p))
    (hcomplete : Complete content p tag) (hlen : flvTagGetBodyLength tag ≠ 0)
    (hext : ¬ ExtHeaderFits content p tag) :
    ∃ stream, flvReadVideoTag (tagStream content p) = (.error .errorEof, stream) := by
  obtain ⟨bs, hread, hbyte⟩ := freadItem_tagStream hcomplete hlen
  have hL : (tagStream content p).currentTagBodyLength = flvTagGetBodyLength tag := by
    rw [htag]
    rfl
  obtain ⟨hbit, hshort⟩ := not_forall.mp hext
  have hbytes := (bodyLeft_flvReadTagBody (inTag_takeOff htag hlen) hcomplete 4).1
  have hfourcc : (flvReadTagBody 4 (takeOffBody 1 { tagStream content p with
      flvin := (tagStream content p).flvin.advance 1 })).1.length ≠ 4 := by
    rw [hbytes, bodyLeft_takeOff htag hlen, List.length_take, List.length_drop,
      length_tagBody hcomplete]
    omega
  rw [flvReadVideoTag, if_neg (not_noBody_tagStream content p), if_neg (by omega), hread]
  dsimp only
  rw [hbyte, if_pos hbit]
  unfold flvReadFourccCodec
  dsimp only
  rw [if_pos hfourcc]
  exact ⟨_, rfl⟩

/-! ## Readers of the body -/

/-- In the tag, where `left` is left of its body, the reader returns `result` and leaves `left'`. -/
def Gives {α : Type} (content : Bytes) (p : Nat) (tag : FlvTag) (x : StreamReader α) (left : Bytes)
    (result : Except FlvStatus α) (left' : Bytes) : Prop :=
  ∀ stream, InTag content p tag stream → bodyLeft stream = left →
    ∃ stream', x.run.run stream = (result, stream') ∧ InTag content p tag stream' ∧
      bodyLeft stream' = left'

section

variable {α β : Type} {left left' left'' : Bytes}

theorem Gives.pure (a : α) : Gives content p tag (Pure.pure a : StreamReader α) left (.ok a) left :=
  fun stream hin hleft => ⟨stream, rfl, hin, hleft⟩

theorem Gives.throw (e : FlvStatus) :
    Gives content p tag (MonadExcept.throw e : StreamReader α) left (.error e) left :=
  fun stream hin hleft => ⟨stream, rfl, hin, hleft⟩

theorem Gives.bind {x : StreamReader α} {f : α → StreamReader β} {a : α}
    {result : Except FlvStatus β} (hx : Gives content p tag x left (.ok a) left')
    (hf : Gives content p tag (f a) left' result left'') :
    Gives content p tag (x >>= f) left result left'' := by
  intro stream hin hleft
  obtain ⟨stream₁, hrun, hin₁, hleft₁⟩ := hx stream hin hleft
  obtain ⟨stream₂, hrun₂, hin₂, hleft₂⟩ := hf stream₁ hin₁ hleft₁
  refine ⟨stream₂, ?_, hin₂, hleft₂⟩
  rw [ExceptT.run_bind, StateT.run_bind, hrun]
  exact hrun₂

theorem Gives.bind_error {x : StreamReader α} {f : α → StreamReader β} {e : FlvStatus}
    (hx : Gives content p tag x left (.error e) left') :
    Gives content p tag (x >>= f) left (.error e) left' := by
  intro stream hin hleft
  obtain ⟨stream₁, hrun, hin₁, hleft₁⟩ := hx stream hin hleft
  refine ⟨stream₁, ?_, hin₁, hleft₁⟩
  rw [ExceptT.run_bind, StateT.run_bind, hrun]
  rfl

theorem gives_readBody (hcomplete : Complete content p tag) {n : Nat} (h : n ≤ left.length) :
    Gives content p tag (readBody n) left (.ok (left.take n)) (left.drop n) := by
  intro stream hin hleft
  obtain ⟨hbytes, hrest⟩ := bodyLeft_flvReadTagBody hin hcomplete n
  refine ⟨_, ?_, hin.flvReadTagBody hcomplete n, hrest.trans (by rw [hleft])⟩
  rw [← hleft, ← hbytes]
  have hlength : ¬ (flvReadTagBody n stream).1.length < n := by
    rw [hbytes, hleft, List.length_take]
    omega
  unfold readBody
  exact Prod.ext (if_neg hlength) rfl

theorem gives_readBody_short (hcomplete : Complete content p tag) {n : Nat}
    (h : left.length < n) :
    Gives content p tag (readBody n) left (.error .errorEof) (left.drop n) := by
  intro stream hin hleft
  obtain ⟨hbytes, hrest⟩ := bodyLeft_flvReadTagBody hin hcomplete n
  refine ⟨_, ?_, hin.flvReadTagBody hcomplete n, hrest.trans (by rw [hleft])⟩
  have hlength : (flvReadTagBody n stream).1.length < n := by
    rw [hbytes, hleft, List.length_take]
    omega
  unfold readBody
  exact Prod.ext (if_pos hlength) rfl

end

/-! ## The search -/

/-- A header of fixed size, which is read if the length allows for it. -/
def searchHeader (size bodyLength : Nat) (f : Bytes → Option (Nat × Nat)) (left : Bytes) :
    Except FlvStatus (Option (Nat × Nat)) :=
  if size ≤ bodyLength then
    if left.length < size then .error .errorEof else .ok (f (left.take size))
  else .ok none

/-- The size of the first sequence parameter set of a configuration record. -/
def spsSize (left : Bytes) : Nat := swapUint16 (ofLE ((left.drop 10).take 2))

/-- A configuration record: packet type, composition time, six bytes, and the first sequence
parameter set behind its size. -/
def searchAvc (bodyLength : Nat) (left : Bytes) : Except FlvStatus (Option (Nat × Nat)) :=
  if bodyLength < 10 then .ok none
  else if left.length < 1 then .error .errorEof
  else if byteAt left 0 ≠ 0 then .ok none
  else if left.length < 10 then .error .errorEof
  else if byteAt left 9 % 2 ^ 5 = 0 then .ok none
  else if left.length < 12 then .error .errorEof
  else if spsSize left = 0 ∨ subSize bodyLength 12 < spsSize left then .error .errorEof
  else if left.length < 12 + spsSize left then .error .errorEof
  else .ok (parseSps ((left.drop 12).take (spsSize left)))

def searchVideo (videoCodec bodyLength : Nat) (left : Bytes) :
    Except FlvStatus (Option (Nat × Nat)) :=
  match videoCodec with
  | 2 => searchHeader 9 bodyLength h263Size left
  | 3 | 6 => searchHeader 4 bodyLength (fun header =>
      some (byteAt header 0 % 2 ^ 4 * 2 ^ 8 + byteAt header 1,
        byteAt header 2 % 2 ^ 4 * 2 ^ 8 + byteAt header 3)) left
  | 4 => searchHeader 7 bodyLength (fun header => vp6Size header 0) left
  | 5 => searchHeader 10 bodyLength (fun header => vp6Size header 3) left
  | 7 => searchAvc bodyLength left
  | _ => .ok none

/-- What a reader returns, wherever it leaves the body. -/
def Returns {α : Type} (content : Bytes) (p : Nat) (tag : FlvTag) (x : StreamReader α)
    (left : Bytes) (result : Except FlvStatus α) : Prop :=
  ∃ left', Gives content p tag x left result left'

theorem returns_searchHeader (hcomplete : Complete content p tag) (size bodyLength : Nat)
    (f : Bytes → Option (Nat × Nat)) (left : Bytes) :
    Returns content p tag (do
      if size ≤ bodyLength then
        let header ← readBody size
        return f header
      else return none : VideoSizeReader) left (searchHeader size bodyLength f left) := by
  unfold searchHeader
  by_cases hsize : size ≤ bodyLength
  · rw [if_pos hsize, if_pos hsize]
    by_cases hshort : left.length < size
    · rw [if_pos hshort]
      exact ⟨_, (gives_readBody_short hcomplete hshort).bind_error⟩
    · rw [if_neg hshort]
      exact ⟨_, (gives_readBody hcomplete (Nat.le_of_not_lt hshort)).bind (.pure _)⟩
  · rw [if_neg hsize, if_neg hsize]
    exact ⟨_, .pure _⟩

/-- One read of a reader that goes on with `f`. -/
theorem returns_readBody {α : Type} (hcomplete : Complete content p tag) (n : Nat) {left : Bytes}
    {f : Bytes → StreamReader α} {result : Except FlvStatus α}
    (hshort : left.length < n → result = .error .errorEof)
    (hf : n ≤ left.length → Returns content p tag (f (left.take n)) (left.drop n) result) :
    Returns content p tag (readBody n >>= f) left result := by
  by_cases h : left.length < n
  · rw [hshort h]
    exact ⟨_, (gives_readBody_short hcomplete h).bind_error⟩
  · obtain ⟨left', hgives⟩ := hf (Nat.le_of_not_lt h)
    exact ⟨left', (gives_readBody hcomplete (Nat.le_of_not_lt h)).bind hgives⟩

theorem byteAt_take_drop (left : Bytes) {k n : Nat} (h : 0 < n) :
    byteAt ((left.drop k).take n) 0 = byteAt left k := by
  simp [byteAt, List.getD_eq_getElem?_getD, h]

/-- One read behind the first `k` bytes. -/
theorem returns_readBody_drop {α : Type} (hcomplete : Complete content p tag) {k : Nat} (n : Nat)
    {left : Bytes} {f : Bytes → StreamReader α} {result : Except FlvStatus α}
    (hk : k ≤ left.length) (hshort : left.length < k + n → result = .error .errorEof)
    (hf : k + n ≤ left.length →
      Returns content p tag (f ((left.drop k).take n)) (left.drop (k + n)) result) :
    Returns content p tag (readBody n >>= f) (left.drop k) result := by
  refine returns_readBody hcomplete n (fun h => hshort ?_) fun h => ?_
  · rw [List.length_drop] at h
    omega
  · rw [List.length_drop] at h
    rw [List.drop_drop]
    exact hf (by omega)

theorem returns_readAvcResolution (hcomplete : Complete content p tag) (bodyLength : Nat)
    (left : Bytes) :
    Returns content p tag (readAvcResolution bodyLength) left (searchAvc bodyLength left) := by
  unfold readAvcResolution searchAvc
  by_cases hbody : bodyLength < 10
  · rw [if_pos hbody, if_pos hbody]
    exact ⟨_, .pure _⟩
  rw [if_neg hbody, if_neg hbody]
  refine returns_readBody hcomplete 1 (fun h => if_pos h) fun h₁ => ?_
  rw [if_neg (Nat.not_lt.mpr h₁), ← byteAt_take_drop left (k := 0) Nat.one_pos]
  by_cases htype : byteAt (left.take 1) 0 ≠ 0
  · exact ⟨_, by simpa [htype] using Gives.pure _⟩
  simp only [List.drop_zero, if_neg htype]
  -- the composition time and the record up to the number of sequence parameter sets
  have hshort : ∀ {m : Nat} {result : Except FlvStatus (Option (Nat × Nat))}, m ≤ 10 →
      left.length < m → (if left.length < 10 then .error .errorEof else result) =
        (.error .errorEof : Except FlvStatus (Option (Nat × Nat))) :=
    fun hm h => if_pos (by omega)
  refine returns_readBody_drop hcomplete 3 h₁ (hshort (by omega)) fun h₄ => ?_
  refine returns_readBody_drop hcomplete 1 h₄ (hshort (by omega)) fun h₅ => ?_
  refine returns_readBody_drop hcomplete 1 h₅ (hshort (by omega)) fun h₆ => ?_
  refine returns_readBody_drop hcomplete 1 h₆ (hshort (by omega)) fun h₇ => ?_
  refine returns_readBody_drop hcomplete 1 h₇ (hshort (by omega)) fun h₈ => ?_
  refine returns_readBody_drop hcomplete 1 h₈ (hshort (by omega)) fun h₉ => ?_
  refine returns_readBody_drop hcomplete 1 h₉ (hshort (by omega)) fun h₁₀ => ?_
  have hnumber : byteAt ((left.drop (1 + 3 + 1 + 1 + 1 + 1 + 1)).take 1) 0 = byteAt left 9 :=
    byteAt_take_drop left Nat.one_pos
  rw [if_neg (show ¬ left.length < 10 by omega), hnumber]
  by_cases hsets : byteAt left 9 % 2 ^ 5 = 0
  · rw [if_pos hsets, if_pos hsets]
    exact ⟨_, .pure _⟩
  rw [if_neg hsets, if_neg hsets]
  refine returns_readBody_drop hcomplete 2 h₁₀ (fun h => if_pos h) fun h₁₂ => ?_
  rw [if_neg (show ¬ left.length < 12 by omega),
    show swapUint16 (ofLE ((left.drop (1 + 3 + 1 + 1 + 1 + 1 + 1 + 1)).take 2)) = spsSize left
      from rfl]
  by_cases hsize : spsSize left = 0 ∨ subSize bodyLength 12 < spsSize left
  · rw [if_pos hsize, if_pos hsize]
    exact ⟨_, (Gives.throw _).bind_error⟩
  rw [if_neg hsize, if_neg hsize]
  refine returns_readBody_drop hcomplete _ h₁₂ (fun h => if_pos h) fun h => ?_
  rw [if_neg (Nat.not_lt.mpr h)]
  exact ⟨_, .pure _⟩

/-- In a tag that the file holds in full, the search depends on the bytes that are left alone. -/
theorem returns_computeVideoSize (hcomplete : Complete content p tag)
    (videoCodec bodyLength : Nat) (left : Bytes) :
    Returns content p tag (computeVideoSize videoCodec bodyLength) left
      (searchVideo videoCodec bodyLength left) := by
  unfold computeVideoSize
  split
  · exact returns_searchHeader hcomplete 9 bodyLength _ left
  · exact returns_searchHeader hcomplete 4 bodyLength _ left
  · exact returns_searchHeader hcomplete 4 bodyLength _ left
  · exact returns_searchHeader hcomplete 7 bodyLength _ left
  · exact returns_searchHeader hcomplete 10 bodyLength _ left
  · exact returns_readAvcResolution hcomplete bodyLength left
  · have hother : searchVideo videoCodec bodyLength left = .ok none := by
      unfold searchVideo
      split
      all_goals first | contradiction | rfl
    exact hother ▸ ⟨_, .pure _⟩

/-! ## When the search finds the end of the body -/

theorem searchHeader_error {size bodyLength : Nat} {f : Bytes → Option (Nat × Nat)} {left : Bytes}
    {e : FlvStatus} (h : searchHeader size bodyLength f left = .error e) : e = .errorEof := by
  unfold searchHeader at h
  split at h
  · split at h
    · cases h
      rfl
    · cases h
  · cases h

theorem searchAvc_error {bodyLength : Nat} {left : Bytes} {e : FlvStatus}
    (h : searchAvc bodyLength left = .error e) : e = .errorEof := by
  unfold searchAvc at h
  repeat' split at h
  all_goals cases h
  all_goals rfl

/-- The search fails with the end of the file or not at all. -/
theorem searchVideo_error {videoCodec bodyLength : Nat} {left : Bytes} {e : FlvStatus}
    (h : searchVideo videoCodec bodyLength left = .error e) : e = .errorEof := by
  unfold searchVideo at h
  split at h
  · exact searchHeader_error h
  · exact searchHeader_error h
  · exact searchHeader_error h
  · exact searchHeader_error h
  · exact searchHeader_error h
  · exact searchAvc_error h
  · cases h

/-- The first sequence parameter set of a configuration record in a body of `length` bytes is
empty or larger than the search allows for. -/
def SpsUnreadable (length : Nat) (left : Bytes) : Prop :=
  spsSize left = 0 ∨
    if length < 20 then left.length < 12 + spsSize left else length < 20 + spsSize left

instance (length : Nat) (left : Bytes) : Decidable (SpsUnreadable length left) :=
  inferInstanceAs (Decidable (_ ∨ _))

/-- The condition on the codec, the length of the body and the bytes behind its header under which
the search finds the end of the body. Below 8 bytes the length that it is told has wrapped. -/
def SearchFails (videoCodec length : Nat) (left : Bytes) : Prop :=
  ((videoCodec = 2 ∨ videoCodec = 4 ∨ videoCodec = 5) ∧ length < 8) ∨
  ((videoCodec = 3 ∨ videoCodec = 6) ∧ length < 8 ∧ left.length < 4) ∨
  (videoCodec = 7 ∧ byteAt left 0 = 0 ∧
    (length < 8 ∨ (18 ≤ length ∧ byteAt left 9 % 2 ^ 5 ≠ 0 ∧ SpsUnreadable length left)))

instance (videoCodec length : Nat) (left : Bytes) :
    Decidable (SearchFails videoCodec length left) := inferInstanceAs (Decidable (_ ∨ _ ∨ _))

section

variable {length : Nat} {left : Bytes}

theorem searchHeader_error_iff {size : Nat} (f : Bytes → Option (Nat × Nat))
    (hleft : left.length + 1 = length ∨ left.length + 5 = length) (hsize : size ≤ 10) :
    searchHeader size (subUint32 length sizeofFlvVideoTag) f left = .error .errorEof ↔
      length < 8 ∧ left.length < size := by
  have hwrap : length < 8 → size ≤ subUint32 length sizeofFlvVideoTag := fun h => by
    unfold subUint32 sizeofFlvVideoTag
    omega
  have hlong : ¬ length < 8 → subUint32 length sizeofFlvVideoTag ≤ length - 8 := fun h => by
    unfold subUint32 sizeofFlvVideoTag
    omega
  unfold searchHeader
  split
  · split
    · simp only [true_iff]
      omega
    · simp only [reduceCtorEq, false_iff]
      omega
  · simp only [reduceCtorEq, false_iff]
    omega

theorem searchAvc_error_iff (hleft : left.length + 1 = length ∨ left.length + 5 = length)
    (hlength : length < 2 ^ 24) :
    searchAvc (subUint32 length sizeofFlvVideoTag) left = .error .errorEof ↔
      byteAt left 0 = 0 ∧
        (length < 8 ∨ (18 ≤ length ∧ byteAt left 9 % 2 ^ 5 ≠ 0 ∧ SpsUnreadable length left)) := by
  have hwrap : length < 8 → ¬ subUint32 length sizeofFlvVideoTag < 10 := fun h => by
    unfold subUint32 sizeofFlvVideoTag
    omega
  have hlong : ¬ length < 8 → subUint32 length sizeofFlvVideoTag = length - 8 := fun h => by
    unfold subUint32 sizeofFlvVideoTag
    omega
  by_cases hshort : length < 8
  · -- the configuration record does not fit, and its packet type is read at most
    have hbytes : left.length < 1 → byteAt left 0 = 0 := fun h => by
      rw [List.length_eq_zero_iff.mp (Nat.lt_one_iff.mp h)]
      rfl
    rw [searchAvc, if_neg (hwrap hshort)]
    by_cases hnil : left.length < 1
    · simp [hnil, hbytes hnil, hshort]
    · by_cases htype : byteAt left 0 = 0
      · simp [hnil, htype, hshort, show left.length < 10 by omega]
      · simp [hnil, htype]
  · rw [hlong hshort, searchAvc]
    by_cases hbody : length - 8 < 10
    · simp [hbody, hshort, show ¬ 18 ≤ length by omega]
    · have hspsSize : spsSize left < 2 ^ 16 := swapUint16_lt _
      have hsize : subSize (length - 8) 12 < spsSize left ↔
          ¬ length < 20 ∧ length < 20 + spsSize left := by
        unfold subSize
        omega
      rw [if_neg hbody, if_neg (show ¬ left.length < 1 by omega),
        if_neg (show ¬ left.length < 10 by omega), if_neg (show ¬ left.length < 12 by omega),
        SpsUnreadable]
      generalize byteAt left 9 % 2 ^ 5 = sets
      by_cases htype : byteAt left 0 = 0
      · by_cases hsets : sets = 0
        · simp [htype, hsets, hshort]
        · by_cases hzero : spsSize left = 0
          · simp [htype, hsets, hzero, show 18 ≤ length by omega]
          · by_cases hwrapped : length < 20
            · simp [htype, hsets, hzero, hsize, hwrapped, hshort, show 18 ≤ length by omega]
            · simp [htype, hsets, hzero, hsize, hwrapped, hshort, show 18 ≤ length by omega]
              omega
      · simp [htype]

theorem searchVideo_error_iff (videoCodec : Nat)
    (hleft : left.length + 1 = length ∨ left.length + 5 = length) (hlength : length < 2 ^ 24) :
    searchVideo videoCodec (subUint32 length sizeofFlvVideoTag) left = .error .errorEof ↔
      SearchFails videoCodec length left := by
  unfold searchVideo SearchFails
  split
  · simp [searchHeader_error_iff _ hleft]
    omega
  · simp [searchHeader_error_iff _ hleft]
  · simp [searchHeader_error_iff _ hleft]
  · simp [searchHeader_error_iff _ hleft]
    omega
  · simp [searchHeader_error_iff _ hleft]
    omega
  · simp [searchAvc_error_iff hleft hlength]
  · rename_i h₂ h₃ h₆ h₄ h₅ h₇
    simp only [reduceCtorEq, false_iff]
    rintro (⟨h | h | h, -⟩ | ⟨h | h, -⟩ | ⟨h, -⟩)
    exacts [h₂ h, h₄ h, h₅ h, h₃ h, h₆ h, h₇ h]

end

end FlvMeta
