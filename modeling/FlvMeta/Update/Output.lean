import FlvMeta.Flv.Records
import FlvMeta.Info.Timeline
import FlvMeta.Update.Write

/-!
# What is written

The loop of `writeFlv` is a recursion over the timeline of the input: each tag is replaced, or
copied, perhaps with an `onLastSecond` tag in front of it, and a tag that the file does not hold
in full ends the loop. `blocks` is this recursion, on lists of bytes, and `writeFlv_outcome` tells
what comes of it: a device on which no write fails receives exactly these bytes
(`Outcome.of_unlimited`); on any device, a status `ok` means that it has received them, unless the
last of them belong to a truncated tag (`Outcome.of_ok`).
-/

namespace FlvMeta

open Endian Stdio

variable {N : Type}

/-! ## The pieces of the output -/

namespace TimedTag

/-- The timestamp of a tag in the output. -/
def time (opts : FlvmetaOpts N) (info : FlvInfo N) (t : TimedTag) : Nat :=
  relative opts info.firstTimestamp t.fixed

/-- The header of a tag in the output. -/
def header (opts : FlvmetaOpts N) (info : FlvInfo N) (t : TimedTag) : FlvTag :=
  flvTagSetTimestamp t.tag (t.time opts info)

/-- The tag in whose place the computed metadata is written. -/
def Replaced (info : FlvInfo N) (t : TimedTag) : Prop := info.onMetadataOffset = t.offset

instance (info : FlvInfo N) (t : TimedTag) : Decidable (t.Replaced info) :=
  inferInstanceAs (Decidable (_ = _))

/-- The bytes of its body that are read to be copied. -/
def copied (content : Bytes) (info : FlvInfo N) (t : TimedTag) : Bytes :=
  (content.drop (t.offset + 11)).take (copyLength info t.tag)

/-- The file ends within the bytes to be copied. -/
def Truncated (content : Bytes) (info : FlvInfo N) (t : TimedTag) : Prop :=
  (t.copied content info).length < copyLength info t.tag

instance (content : Bytes) (info : FlvInfo N) (t : TimedTag) :
    Decidable (t.Truncated content info) := inferInstanceAs (Decidable (_ < _))

end TimedTag

/-! ## Script tags that the program makes -/

/-- A script tag that the program makes. -/
def scriptPiece [NumberImage N] (tag : FlvTag) (name data : AmfData N) : Piece :=
  ⟨tag, amfDataImage name ++ amfDataImage data⟩

theorem bytes_scriptPiece [NumberImage N] (tag : FlvTag) (name data : AmfData N) :
    (scriptPiece tag name data).bytes = scriptTagBytes tag name data := by
  have hsize : (flvTagSize + amfDataSize32 name + amfDataSize32 data) % 256 ^ 4 =
      (flvTagSize + (amfDataSize name + amfDataSize data)) % 256 ^ 4 := by
    unfold amfDataSize32
    omega
  have htoBE : toBE 4 (flvTagSize + amfDataSize32 name + amfDataSize32 data) =
      toBE 4 (flvTagSize + (amfDataSize name + amfDataSize data)) := by
    rw [← toBE_mod, hsize, toBE_mod]
  simp only [scriptPiece, Piece.bytes, scriptTagBytes, htoBE, amfDataImage_eq,
    List.length_append, length_amfBytes, List.append_assoc]

/-- It is a record as long as its length fits in 24 bits. -/
theorem fits_scriptPiece [NumberImage N] {tag : FlvTag} {name data : AmfData N}
    (htag : tag.bodyLength = uint32ToUint24Be (amfDataSize32 name + amfDataSize32 data))
    (hsize : amfDataSize name + amfDataSize data < 2 ^ 24) :
    (scriptPiece tag name data).Fits := by
  have hname : amfDataSize32 name = amfDataSize name := Nat.mod_eq_of_lt (by omega)
  have hdata : amfDataSize32 data = amfDataSize data := Nat.mod_eq_of_lt (by omega)
  simp only [Piece.Fits, scriptPiece]
  rw [flvTagGetBodyLength, htag, uint24BeToUint32_of_uint32, hname, hdata,
    Nat.mod_eq_of_lt hsize]
  simp [amfDataImage_eq]

/-! ## The blocks of the output -/

theorem emits_writeBody (tag : FlvTag) (body : Bytes) :
    Emits (writeBody tag body) (Piece.bytes ⟨tag, body⟩) :=
  emits_andThen (emits_flvWriteTag tag) (emits_andThen (emits_put body) (emits_writePrevTagSize _))

/-- What a turn of the loop writes, whether it is known after it that an `onLastSecond` tag was
inserted, and the status with which it ends the loop. -/
structure Block where
  pieces : List Piece
  haveOnLastSecond : Bool
  stop : Option Status

section

variable [NumberImage N] (opts : FlvmetaOpts N) (info : FlvInfo N) (metadata : FlvMetadata N)
  (content : Bytes)

def onMetadataPiece : Piece :=
  scriptPiece (onMetadataTag metadata) metadata.onMetadataName metadata.onMetadata

/-- The `onLastSecond` tag inserted before a tag. -/
def onLastSecondPiece (t : TimedTag) : Piece :=
  scriptPiece (scriptTag metadata.onLastSecondName metadata.onLastSecond (t.header opts info))
    metadata.onLastSecondName metadata.onLastSecond

/-- The copy of a tag, as far as it is read. -/
def copyPiece (t : TimedTag) : Piece := ⟨t.header opts info, t.copied content info⟩

def copyBlock (haveOnLastSecond : Bool) (t : TimedTag) : Block :=
  if t.Truncated content info then
    match opts.errorHandling with
    | .exitOnError => ⟨[], haveOnLastSecond, some .errorEof⟩
    | .fixErrors => ⟨[], haveOnLastSecond, some .ok⟩
    | .ignoreErrors => ⟨[copyPiece opts info content t], haveOnLastSecond, some .ok⟩
  else ⟨[copyPiece opts info content t], haveOnLastSecond, none⟩

def block (haveOnLastSecond : Bool) (t : TimedTag) : Block :=
  if t.Replaced info then ⟨[onMetadataPiece metadata], haveOnLastSecond, none⟩
  else if InsertsOnLastSecond opts info haveOnLastSecond (t.time opts info) then
    let b := copyBlock opts info content true t
    { b with pieces := onLastSecondPiece opts info metadata t :: b.pieces }
  else copyBlock opts info content haveOnLastSecond t

/-- The status and the pieces of the loop. -/
def blocks (haveOnLastSecond : Bool) : List TimedTag → Status × List Piece
  | [] => (.ok, [])
  | t :: ts =>
    let b := block opts info metadata content haveOnLastSecond t
    match b.stop with
    | some status => (status, b.pieces)
    | none =>
      let rest := blocks b.haveOnLastSecond ts
      (rest.1, b.pieces ++ rest.2)

/-- What is written before the loop. -/
def startBytes : Bytes :=
  info.header.bytes ++ (toBE 4 0 ++
    if info.onMetadataSize = 0 then (onMetadataPiece metadata).bytes else [])

end

/-! ## Outcomes of writes -/

/-- How writes on a device `out` can end when they are to give a status and some bytes: they
give both; or a write fails, if the device has a limit; or, where the last write is not
checked, the status is `ok` all the same. -/
inductive Outcome (out : OutFile) (status : Status) (bytes : Bytes) (unchecked : Prop) :
    Status → OutFile → Prop
  | written : Outcome out status bytes unchecked status (out.append bytes)
  | failed {out'} : out.limit ≠ none → Outcome out status bytes unchecked .errorWrite out'
  | unchecked {out'} : out.limit ≠ none → status = .ok → unchecked →
    Outcome out status bytes unchecked .ok out'

theorem Outcome.nothing (out : OutFile) (status : Status) {unchecked : Prop} :
    Outcome out status [] unchecked status out := by
  have hwritten : Outcome out status [] unchecked status (out.append []) := .written
  simpa using hwritten

/-- Bytes written first, successfully. -/
theorem Outcome.prepend {out : OutFile} {bs : Bytes} {status status' : Status} {bytes : Bytes}
    {unchecked : Prop} {out' : OutFile}
    (h : Outcome (out.append bs) status bytes unchecked status' out') :
    Outcome out status (bs ++ bytes) unchecked status' out' := by
  cases h with
  | written =>
    rw [OutFile.append_append]
    exact .written
  | failed hl => exact .failed hl
  | unchecked hl hs hu => exact .unchecked hl hs hu

theorem Outcome.mono {out : OutFile} {status status' : Status} {bytes : Bytes}
    {p q : Prop} {out' : OutFile} (hpq : p → q) (h : Outcome out status bytes p status' out') :
    Outcome out status bytes q status' out' := by
  cases h with
  | written => exact .written
  | failed hl => exact .failed hl
  | unchecked hl hs hu => exact .unchecked hl hs (hpq hu)

theorem Outcome.of_unlimited {out : OutFile} {status status' : Status} {bytes : Bytes}
    {unchecked : Prop} {out' : OutFile} (h : Outcome out status bytes unchecked status' out')
    (hl : out.limit = none) : status' = status ∧ out' = out.append bytes := by
  cases h with
  | written => exact ⟨rfl, rfl⟩
  | failed hne => exact absurd hl hne
  | unchecked hne => exact absurd hl hne

theorem Outcome.of_ok {out : OutFile} {status status' : Status} {bytes : Bytes}
    {unchecked : Prop} {out' : OutFile} (h : Outcome out status bytes unchecked status' out')
    (hs : status' = .ok) (hu : ¬ unchecked) : status = .ok ∧ out' = out.append bytes := by
  cases h with
  | written => exact ⟨hs, rfl⟩
  | failed => cases hs
  | unchecked _ _ hu' => exact absurd hu' hu

/-- The outcome of a turn of the loop. -/
inductive TurnOutcome (out : OutFile) (b : Block) (clocks : Clocks) (unchecked : Prop) :
    WriteTurn → OutFile → Prop
  | next : b.stop = none → TurnOutcome out b clocks unchecked
      (.next ⟨clocks, b.haveOnLastSecond⟩) (out.append (b.pieces.flatMap Piece.bytes))
  | done {status status' out'} : b.stop = some status →
    Outcome out status (b.pieces.flatMap Piece.bytes) unchecked status' out' →
    TurnOutcome out b clocks unchecked (.done status') out'
  | failed {out'} : out.limit ≠ none →
    TurnOutcome out b clocks unchecked (.done .errorWrite) out'

/-- A turn that writes one piece. -/
theorem TurnOutcome.one (out : OutFile) (piece : Piece) (haveOnLastSecond : Bool)
    (clocks : Clocks) {unchecked : Prop} :
    TurnOutcome out ⟨[piece], haveOnLastSecond, none⟩ clocks unchecked
      (.next ⟨clocks, haveOnLastSecond⟩) (out.append piece.bytes) := by
  have hnext : TurnOutcome out ⟨[piece], haveOnLastSecond, none⟩ clocks unchecked
      (.next ⟨clocks, haveOnLastSecond⟩) (out.append ([piece].flatMap Piece.bytes)) := .next rfl
  rwa [List.flatMap_singleton] at hnext

theorem TurnOutcome.prepend {out : OutFile} {piece : Piece} {b : Block} {clocks : Clocks}
    {unchecked : Prop} {turn : WriteTurn} {out' : OutFile}
    (h : TurnOutcome (out.append piece.bytes) b clocks unchecked turn out') :
    TurnOutcome out { b with pieces := piece :: b.pieces } clocks unchecked turn out' := by
  cases h with
  | next hstop =>
    rw [OutFile.append_append, ← List.flatMap_cons]
    exact .next hstop
  | done hstop hout =>
    refine .done hstop ?_
    rw [List.flatMap_cons]
    exact hout.prepend
  | failed hl => exact .failed hl

/-! ## One turn of the loop -/

theorem copyLength_le (info : FlvInfo N) (tag : FlvTag) :
    copyLength info tag ≤ flvTagGetBodyLength tag := by
  unfold copyLength
  split <;> omega

theorem copyLength_of_le {info : FlvInfo N} {tag : FlvTag}
    (h : flvTagGetBodyLength tag ≤ info.biggestTagBodySize) :
    copyLength info tag = flvTagGetBodyLength tag :=
  if_neg (by omega)

theorem length_copied_le (content : Bytes) (info : FlvInfo N) (t : TimedTag) :
    (t.copied content info).length ≤ copyLength info t.tag := by
  rw [TimedTag.copied, List.length_take]
  exact Nat.min_le_left _ _

theorem copied_of_le {content : Bytes} {info : FlvInfo N} {t : TimedTag}
    (h : flvTagGetBodyLength t.tag ≤ info.biggestTagBodySize) :
    t.copied content info = tagBody content t.offset t.tag := by
  rw [TimedTag.copied, copyLength_of_le h, tagBody]

theorem not_complete_of_truncated {content : Bytes} {info : FlvInfo N} {t : TimedTag}
    (h : t.Truncated content info) : ¬ Complete content t.offset t.tag := by
  intro hcomplete
  have hle := copyLength_le info t.tag
  unfold TimedTag.Truncated TimedTag.copied at h
  rw [List.length_take, List.length_drop] at h
  unfold Complete at hcomplete
  omega

theorem flvReadTagBody_tagStream (content : Bytes) (p : Nat) {n : Nat}
    (hn : n ≤ flvTagGetBodyLength (flvTagOfBytes (content.drop p))) :
    (flvReadTagBody n (tagStream content p)).1 = (content.drop (p + 11)).take n := by
  have hbody := not_noBody_tagStream content p
  have hmin : min n (tagStream content p).currentTagBodyLength = n := Nat.min_eq_left hn
  rw [flvReadTagBody, if_neg hbody, hmin]
  rfl

/-- The unchecked writes of a truncated tag. -/
theorem writeBodyUnchecked_outcome (tag : FlvTag) (body : Bytes) (out : OutFile) :
    Outcome out .ok (Piece.bytes ⟨tag, body⟩) True .ok (writeBodyUnchecked tag body out) := by
  cases hl : out.limit with
  | some l => exact .unchecked (by rw [hl]; nofun) rfl trivial
  | none =>
    have step : ∀ {a : WriteStep} {bs : Bytes} {o : OutFile}, Emits a bs → o.limit = none →
        (a o).2 = o.append bs := fun ha ho => ha.written _ (ha.unlimited _ ho)
    have h : writeBodyUnchecked tag body out = out.append (Piece.bytes ⟨tag, body⟩) := by
      rw [writeBodyUnchecked, step (emits_flvWriteTag tag) hl,
        step (o := out.append tag.bytes) (emits_put body) hl,
        step (o := (out.append tag.bytes).append body) (emits_writePrevTagSize _) hl,
        OutFile.append_append, OutFile.append_append, Piece.bytes]
    rw [h]
    exact .written

section

variable (opts : FlvmetaOpts N) (info : FlvInfo N) (content : Bytes)

/-- A truncated tag whose writes are not checked. -/
def Unchecked (t : TimedTag) : Prop :=
  opts.errorHandling = .ignoreErrors ∧ ¬ t.Replaced info ∧ t.Truncated content info

theorem copyTag_outcome {t : TimedTag} (htag : t.tag = flvTagOfBytes (content.drop t.offset))
    (hreplaced : ¬ t.Replaced info) (clocks : Clocks) (haveOnLastSecond : Bool) (out : OutFile) :
    TurnOutcome out (copyBlock opts info content haveOnLastSecond t) clocks
      (Unchecked opts info content t)
      (copyTag opts info (t.header opts info) ⟨clocks, haveOnLastSecond⟩
        (tagStream content t.offset) out).1
      (copyTag opts info (t.header opts info) ⟨clocks, haveOnLastSecond⟩
        (tagStream content t.offset) out).2.2 := by
  have hlen : copyLength info (t.header opts info) = copyLength info t.tag := rfl
  have hbody : (flvReadTagBody (copyLength info t.tag) (tagStream content t.offset)).1 =
      t.copied content info :=
    flvReadTagBody_tagStream content t.offset (by rw [← htag]; exact copyLength_le _ _)
  unfold copyTag copyBlock
  simp only [hlen, hbody]
  by_cases htrunc : t.Truncated content info
  · rw [if_pos htrunc, if_pos (show _ < _ from htrunc)]
    cases hmode : opts.errorHandling with
    | exitOnError => exact .done rfl (Outcome.nothing _ _)
    | fixErrors => exact .done rfl (Outcome.nothing _ _)
    | ignoreErrors =>
      refine .done rfl ?_
      rw [List.flatMap_singleton]
      exact (writeBodyUnchecked_outcome _ _ out).mono fun _ => ⟨hmode, hreplaced, htrunc⟩
  · rw [if_neg htrunc, if_neg (show ¬ _ < _ from htrunc)]
    rcases (emits_writeBody (t.header opts info) (t.copied content info)).cases out with
      hw | ⟨out', hw, hl⟩
    · rw [hw]
      exact TurnOutcome.one _ _ _ _
    · rw [hw]
      exact .failed hl

end

section

variable [NumberImage N] (opts : FlvmetaOpts N) (info : FlvInfo N) (metadata : FlvMetadata N)
  (content : Bytes)

/-- A turn of the loop on the tag at offset `p` writes the block of this tag. -/
theorem writeTag_outcome (p : Nat) (st : WriteState) (out : OutFile) {tag : FlvTag}
    (htag : tag = flvTagOfBytes (content.drop p)) :
    TurnOutcome out
      (block opts info metadata content st.haveOnLastSecond ⟨p, tag, (st.clocks.fix tag).1⟩)
      (st.clocks.fix tag).2 (Unchecked opts info content ⟨p, tag, (st.clocks.fix tag).1⟩)
      (writeTag opts info metadata tag st (tagStream content p) out).1
      (writeTag opts info metadata tag st (tagStream content p) out).2.2 := by
  generalize ht : (⟨p, tag, (st.clocks.fix tag).1⟩ : TimedTag) = t
  have htime : writeTimestamp opts info tag st.clocks =
      (t.time opts info, (st.clocks.fix tag).2) := by
    rw [← ht]
    rfl
  have hheader : flvTagSetTimestamp tag (t.time opts info) = t.header opts info := by
    rw [← ht]
    rfl
  have hoffset : flvGetCurrentTagOffset (tagStream content p) = p := rfl
  have hp : p = t.offset := by rw [← ht]
  have htag' : t.tag = flvTagOfBytes (content.drop t.offset) := by
    rw [← hp, ← htag, ← ht]
  unfold writeTag block
  simp only [htime, hheader, hoffset]
  subst hp
  by_cases hreplaced : t.Replaced info
  · rw [if_pos hreplaced, if_pos (show _ = _ from hreplaced)]
    rcases (emits_writeScriptTag (onMetadataTag metadata) metadata.onMetadataName
      metadata.onMetadata).cases out with hw | ⟨out', hw, hl⟩
    · rw [hw, ← bytes_scriptPiece]
      exact TurnOutcome.one _ (onMetadataPiece metadata) _ _
    · rw [hw]
      exact .failed hl
  · rw [if_neg hreplaced, if_neg (show ¬ _ = _ from hreplaced)]
    by_cases hinsert : InsertsOnLastSecond opts info st.haveOnLastSecond (t.time opts info)
    · rw [if_pos hinsert, if_pos hinsert]
      rcases (emits_writeScriptTag (scriptTag metadata.onLastSecondName metadata.onLastSecond
        (t.header opts info)) metadata.onLastSecondName metadata.onLastSecond).cases out with
        hw | ⟨out', hw, hl⟩
      · rw [hw, ← bytes_scriptPiece]
        exact (copyTag_outcome opts info content htag' hreplaced _ true _).prepend
      · rw [hw]
        exact .failed hl
    · rw [if_neg hinsert, if_neg hinsert]
      exact copyTag_outcome opts info content htag' hreplaced _ _ _

/-- A turn ends the loop only on a truncated tag. -/
theorem block_stop (haveOnLastSecond : Bool) (t : TimedTag) :
    (block opts info metadata content haveOnLastSecond t).stop =
      if ¬ t.Replaced info ∧ t.Truncated content info then
        some (if opts.errorHandling = .exitOnError then .errorEof else .ok)
      else none := by
  have hcopy : ∀ have', (copyBlock opts info content have' t).stop =
      if t.Truncated content info then
        some (if opts.errorHandling = .exitOnError then .errorEof else .ok)
      else none := fun have' => by
    unfold copyBlock
    split
    · cases opts.errorHandling <;> rfl
    · rfl
  unfold block
  by_cases hreplaced : t.Replaced info
  · simp [hreplaced]
  · simp only [hreplaced, if_false, not_false_eq_true, true_and]
    split
    · exact hcopy true
    · exact hcopy haveOnLastSecond

/-! ## The loop -/

/-- The loop fails only on a truncated tag, and only when errors end the program. -/
theorem blocks_status (haveOnLastSecond : Bool) (ts : List TimedTag) :
    (blocks opts info metadata content haveOnLastSecond ts).1 = .ok ↔
      (opts.errorHandling = .exitOnError →
        ∀ t ∈ ts, ¬ t.Replaced info → ¬ t.Truncated content info) := by
  induction ts generalizing haveOnLastSecond with
  | nil => simp [blocks]
  | cons t ts ih =>
    have hstop := block_stop opts info metadata content haveOnLastSecond t
    by_cases hshort : ¬ t.Replaced info ∧ t.Truncated content info
    · rw [if_pos hshort] at hstop
      simp only [blocks, hstop]
      constructor
      · intro hok hexit
        simp [hexit] at hok
      · intro h
        by_contra hne
        have hexit : opts.errorHandling = .exitOnError := by
          by_contra hmode
          simp [hmode] at hne
        exact h hexit t (by simp) hshort.1 hshort.2
    · rw [if_neg hshort] at hstop
      simp only [blocks, hstop, ih, List.forall_mem_cons]
      constructor
      · intro h hexit
        exact ⟨fun hr ht => hshort ⟨hr, ht⟩, h hexit⟩
      · intro h hexit
        exact (h hexit).2

theorem writeLoop_outcome {fuel : Nat} {last : Option (Nat × FlvTag)} {stream : FlvStream}
    (st : WriteState) (out : OutFile) (h : Tracks content last stream) {status : Status}
    {stream' : FlvStream} {out' : OutFile}
    (hloop : writeLoop opts info metadata fuel st stream out = some (status, stream', out')) :
    Outcome out
      (blocks opts info metadata content st.haveOnLastSecond
        (timeline st.clocks (tagsFrom content (nextOffset last)))).1
      ((blocks opts info metadata content st.haveOnLastSecond
        (timeline st.clocks (tagsFrom content (nextOffset last)))).2.flatMap Piece.bytes)
      (∃ t ∈ timeline st.clocks (tagsFrom content (nextOffset last)),
        Unchecked opts info content t) status out' := by
  induction fuel generalizing last stream st out with
  | zero => cases hloop
  | succ fuel ih =>
    rw [writeLoop] at hloop
    by_cases hle : nextOffset last + 11 ≤ content.length
    · rw [h.flvReadTag hle] at hloop
      dsimp only at hloop
      rw [tagsFrom_of_le hle, timeline, blocks]
      generalize htag : flvTagOfBytes (content.drop (nextOffset last)) = tag at hloop ⊢
      have hturn := writeTag_outcome opts info metadata content (nextOffset last) st out htag.symm
      have htracks := writeTag_tracks opts info metadata tag st
        (tracks_tagStream content (nextOffset last)) out
      generalize writeTag opts info metadata tag st (tagStream content (nextOffset last)) out = r
        at hloop hturn htracks
      obtain ⟨turn, stream₁, out₁⟩ := r
      dsimp only at hturn htracks
      cases hturn with
      | next hstop =>
        have hrest := ih _ _ htracks hloop
        rw [htag] at hrest
        simp only [hstop, List.flatMap_append]
        refine hrest.prepend.mono ?_
        rintro ⟨t, ht, hu⟩
        exact ⟨t, List.mem_cons_of_mem _ ht, hu⟩
      | done hstop hout =>
        cases hloop
        simp only [hstop]
        exact hout.mono fun hu => ⟨_, List.mem_cons_self, hu⟩
      | failed hl =>
        cases hloop
        exact .failed hl
    · obtain ⟨stream₁, hread, -⟩ := flvReadTag_of_aimed_lt h.aimed (by omega)
      rw [hread] at hloop
      cases hloop
      rw [tagsFrom_of_lt (by omega), timeline]
      exact Outcome.nothing _ _

theorem emits_writeStart : Emits (writeStart info metadata) (startBytes info metadata) := by
  have hmeta : Emits (writeScriptTag (onMetadataTag metadata) metadata.onMetadataName
      metadata.onMetadata) (onMetadataPiece metadata).bytes := by
    rw [onMetadataPiece, bytes_scriptPiece]
    exact emits_writeScriptTag _ _ _
  exact emits_andThen (emits_flvWriteHeader _)
    (emits_andThen (emits_writePrevTagSize 0) (emits_ite _ hmeta emits_noWrite))

/-- The pieces written after the first previous tag size. -/
def outputPieces : List Piece :=
  (if info.onMetadataSize = 0 then [onMetadataPiece metadata] else []) ++
    (blocks opts info metadata content false (timedTags content)).2

/-- The status and the bytes of `writeFlv`. -/
def output : Status × Bytes :=
  ((blocks opts info metadata content false (timedTags content)).1,
    info.header.bytes ++
      (toBE 4 0 ++ (outputPieces opts info metadata content).flatMap Piece.bytes))

theorem startBytes_append : startBytes info metadata ++
    (blocks opts info metadata content false (timedTags content)).2.flatMap Piece.bytes =
      (output opts info metadata content).2 := by
  unfold output startBytes outputPieces
  split <;> simp

theorem length_output : (output opts info metadata content).2.length =
    13 + ((outputPieces opts info metadata content).map fun piece => piece.bytes.length).sum := by
  simp [output, List.length_flatMap]
  omega

theorem length_onMetadataPiece : (onMetadataPiece metadata).bytes.length =
    amfDataSize metadata.onMetadataName + amfDataSize metadata.onMetadata + 15 := by
  simp [Piece.length_bytes, onMetadataPiece, scriptPiece, amfDataImage_eq]

theorem drop_output : (output opts info metadata content).2.drop 13 =
    (outputPieces opts info metadata content).flatMap Piece.bytes := by
  have hlen : (info.header.bytes ++ toBE 4 0).length = 13 := by simp
  rw [output, ← List.append_assoc, ← hlen, List.drop_left]

theorem writeFlv_outcome {flvIn : FlvStream} (hcontent : flvIn.flvin.content = content)
    {out out' : OutFile} {status : Status} {stream : FlvStream}
    (h : writeFlv opts info metadata flvIn out = (status, stream, out')) :
    Outcome out (output opts info metadata content).1 (output opts info metadata content).2
      (∃ t ∈ timedTags content, Unchecked opts info content t) status out' := by
  unfold writeFlv at h
  rcases (emits_writeStart info metadata).cases out with hw | ⟨out₁, hw, hl⟩
  · simp only [hw] at h
    have hloop := writeLoop_outcome opts info metadata flvIn.flvin.content WriteState.init
      (out.append (startBytes info metadata)) (atStart_flvReset flvIn).tracks
      ((Option.eq_some_iff_get_eq).mpr ⟨_, h⟩)
    rw [hcontent] at hloop
    rw [← startBytes_append]
    exact hloop.prepend
  · simp only [hw] at h
    cases h
    exact .failed hl

end

/-! ## The computed metadata -/

theorem fits_onMetadataPiece [Number64 N] (env : Environment) (opts : FlvmetaOpts N)
    (info : FlvInfo N)
    (hsize : amfDataSize (computeMetadata env opts info).onMetadataName +
      amfDataSize (computeMetadata env opts info).onMetadata < 2 ^ 24) :
    (onMetadataPiece (computeMetadata env opts info)).Fits :=
  fits_scriptPiece rfl hsize

theorem fits_onLastSecondPiece [Number64 N] (env : Environment) (opts : FlvmetaOpts N)
    (info : FlvInfo N) (t : TimedTag) :
    (onLastSecondPiece opts info (computeMetadata env opts info) t).Fits :=
  fits_scriptPiece rfl (by rw [amfDataSize_onLastSecond]; decide)

end FlvMeta
