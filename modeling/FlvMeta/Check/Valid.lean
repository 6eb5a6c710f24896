import Mathlib.Data.List.Chain
import FlvMeta.Check.Run
import FlvMeta.Info.EndOfFile

/-!
# Valid files

What a file without errors is, said of its header and its records: `ValidFile`. The condition on the
timestamps is a condition on all tags together, while the check remembers some timestamps and
compares each tag with them; `validTimestamps_iff` connects the two.
-/

namespace FlvMeta

open Endian Stdio

variable {N : Type}

/-! ## Headers and bodies -/

structure FlvHeader.Valid (header : FlvHeader) : Prop where
  version : header.version = flvVersion
  streams : flvHeaderHasAudio header ≠ 0 ∨ flvHeaderHasVideo header ≠ 0
  reservedFlags : header.flags &&& 0xFA = 0
  offset : flvHeaderGetOffset header = 9

/-- The header in front of a video body. -/
def videoTagOf (body : Bytes) : FlvVideoTag :=
  let tag : FlvVideoTag := ⟨body.getD 0 0, 0⟩
  if flvVideoTagIsExtHeader tag then { tag with fourcc := ofLE ((body.drop 1).take 4) } else tag

/-- The header of a video body is there, and its frame type and its codec are known. -/
structure ValidVideo (body : Bytes) : Prop where
  extHeader : flvVideoTagIsExtHeader ⟨body.getD 0 0, 0⟩ = true → 5 ≤ body.length
  frameType : flvVideoTagFrameType (videoTagOf body) ∈ videoFrameTypes
  codec : flvVideoTagCodecId (videoTagOf body) ∈ videoCodecs

/-- What is asked of a tag by itself. -/
structure ValidTag (tag : FlvTag) (body : Bytes) : Prop where
  known : tag.Known
  streamId : flvTagGetStreamId tag = 0
  video : tag.type = flvTagTypeVideo → body ≠ [] → ValidVideo body

/-! ## Timestamps -/

/-- Behind the timestamp `last` a tag neither falls back so far that the timestamp must have
overflown, nor, if it is neither audio nor video, by a second. -/
def CloseTo (last : Nat) (tag : FlvTag) : Prop :=
  last ≤ flvTagGetTimestamp tag + 0xF00000 ∧
    (tag.type ≠ flvTagTypeAudio → tag.type ≠ flvTagTypeVideo →
      last < flvTagGetTimestamp tag + 1000)

def timestampsOf (type : UInt8) (tags : List FlvTag) : List Nat :=
  (tags.filter (·.type == type)).map flvTagGetTimestamp

/-- The counter of the tags is a `uint32`, and a tag is the first one when the counter is 1. -/
structure ValidTimestamps (tags : List FlvTag) : Prop where
  first : ∀ i tag, tags[i]? = some tag → i % 2 ^ 32 = 0 → flvTagGetTimestamp tag = 0
  audio : (timestampsOf flvTagTypeAudio tags).Pairwise (· ≤ ·)
  video : (timestampsOf flvTagTypeVideo tags).Pairwise (· ≤ ·)
  close : tags.IsChain fun tag tag' => CloseTo (flvTagGetTimestamp tag) tag'

/-! ## Metadata -/

/-- Whether an entry with this name is a number. -/
def hasNumber (field : String) : List (AmfData N) → Bool
  | name :: data :: rest =>
    (nameIs name field && amfDataGetType data == AmfType.number.code) || hasNumber field rest
  | _ => false

/-- The size of the video can be searched, and it is in the metadata. -/
structure ValidSizes (N : Type) [NumberImage N] (content : Bytes) (records : List Record)
    (p : Nat) : Prop where
  readable : VideoReadable content
  width : (∃ r ∈ records, r.tag.type = flvTagTypeVideo ∧ r.body ≠ []) →
    hasNumber "width" (keptData N content p).listData = true
  height : (∃ r ∈ records, r.tag.type = flvTagTypeVideo ∧ r.body ≠ []) →
    hasNumber "height" (keptData N content p).listData = true

/-! ## Files -/

/-- A header, a first previous tag size of zero and records, at least one. Of the `onMetaData`
events only the first one counts. -/
structure ValidFile (N : Type) [NumberImage N] (content : Bytes) (header : FlvHeader)
    (records : List Record) : Prop where
  bytes : content = header.bytes ++ (toBE 4 0 ++ records.flatMap Record.bytes)
  signature : header.signature = ⟨0x46, 0x4C, 0x56⟩
  header : header.Valid
  nonempty : records ≠ []
  tags : ∀ r ∈ records, ValidTag r.tag r.body
  timestamps : ValidTimestamps (records.map fun r => r.tag)
  dataType : ∀ p ∈ firstOnMetadata N content ((locate 13 records).map Prod.fst),
    amfDataGetType (keptData N content p) = AmfType.associativeArray.code
  sizes : ∀ p ∈ firstOnMetadata N content ((locate 13 records).map Prod.fst),
    ValidSizes N content records p

/-! ## Timestamps one after the other -/

/-- What is remembered of the tags before: how many they are, and the timestamps of the last one, of
the last audio tag and of the last video tag. -/
structure Before where
  number : Nat
  last : Nat
  audio : Nat
  video : Nat

namespace Before

def start : Before := ⟨0, 0, 0, 0⟩

def next (before : Before) (tag : FlvTag) : Before where
  number := (before.number + 1) % 2 ^ 32
  last := flvTagGetTimestamp tag
  audio := if tag.type = flvTagTypeAudio then flvTagGetTimestamp tag else before.audio
  video := if tag.type = flvTagTypeVideo then flvTagGetTimestamp tag else before.video

structure Allows (before : Before) (tag : FlvTag) : Prop where
  first : (before.number + 1) % 2 ^ 32 = 1 → flvTagGetTimestamp tag = 0
  audio : tag.type = flvTagTypeAudio → before.audio ≤ flvTagGetTimestamp tag
  video : tag.type = flvTagTypeVideo → before.video ≤ flvTagGetTimestamp tag
  close : CloseTo before.last tag

def AllowsAll : Before → List FlvTag → Prop
  | _, [] => True
  | before, tag :: tags => before.Allows tag ∧ (before.next tag).AllowsAll tags

end Before

theorem timestampsOf_cons (type : UInt8) (tag : FlvTag) (tags : List FlvTag) :
    timestampsOf type (tag :: tags) =
      if tag.type = type then flvTagGetTimestamp tag :: timestampsOf type tags
      else timestampsOf type tags := by
  unfold timestampsOf
  by_cases h : tag.type = type
  · simp [h]
  · simp [h]

/-- A value that is kept apart from the list it is compared with. -/
theorem isChain_timestampsOf_cons (type : UInt8) (last : Nat) (tag : FlvTag) (tags : List FlvTag) :
    (last :: timestampsOf type (tag :: tags)).IsChain (· ≤ ·) ↔
      (tag.type = type → last ≤ flvTagGetTimestamp tag) ∧
        ((if tag.type = type then flvTagGetTimestamp tag else last) ::
          timestampsOf type tags).IsChain (· ≤ ·) := by
  rw [timestampsOf_cons]
  by_cases h : tag.type = type
  · rw [if_pos h, if_pos h, List.isChain_cons_cons, forall_prop_of_true h]
  · rw [if_neg h, if_neg h]
    exact ⟨fun hchain => ⟨fun ht => absurd ht h, hchain⟩, fun hboth => hboth.2⟩

theorem allowsAll_iff (before : Before) (tags : List FlvTag) :
    before.AllowsAll tags ↔
      (∀ i tag, tags[i]? = some tag → (before.number + i) % 2 ^ 32 = 0 →
        flvTagGetTimestamp tag = 0) ∧
      (before.audio :: timestampsOf flvTagTypeAudio tags).IsChain (· ≤ ·) ∧
      (before.video :: timestampsOf flvTagTypeVideo tags).IsChain (· ≤ ·) ∧
      (∀ tag ∈ tags.head?, CloseTo before.last tag) ∧
      tags.IsChain fun tag tag' => CloseTo (flvTagGetTimestamp tag) tag' := by
  induction tags generalizing before with
  | nil => simp [Before.AllowsAll, timestampsOf]
  | cons tag tags ih =>
    have hfirst : (∀ i t, (tag :: tags)[i]? = some t → (before.number + i) % 2 ^ 32 = 0 →
          flvTagGetTimestamp t = 0) ↔
        ((before.number + 1) % 2 ^ 32 = 1 → flvTagGetTimestamp tag = 0) ∧
          ∀ i t, tags[i]? = some t → ((before.next tag).number + i) % 2 ^ 32 = 0 →
            flvTagGetTimestamp t = 0 := by
      constructor
      · intro h
        refine ⟨fun hone => h 0 tag rfl (by omega), fun i t ht hzero => h (i + 1) t ht ?_⟩
        dsimp only [Before.next] at hzero
        omega
      · rintro ⟨hzero, hrest⟩ i t ht hi
        cases i with
        | zero => exact Option.some.inj ht ▸ hzero (by omega)
        | succ i =>
          refine hrest i t ht ?_
          dsimp only [Before.next]
          omega
    have hclose : (tag :: tags).IsChain (fun tag tag' => CloseTo (flvTagGetTimestamp tag) tag') ↔
        (∀ t ∈ tags.head?, CloseTo (flvTagGetTimestamp tag) t) ∧
          tags.IsChain fun tag tag' => CloseTo (flvTagGetTimestamp tag) tag' := List.isChain_cons
    rw [Before.AllowsAll, ih, hfirst, isChain_timestampsOf_cons, isChain_timestampsOf_cons, hclose]
    have hhead : (∀ t ∈ (tag :: tags).head?, CloseTo before.last t) ↔ CloseTo before.last tag := by
      simp
    rw [hhead]
    constructor
    · rintro ⟨⟨h1, h2, h3, h4⟩, h5, h6, h7, h8, h9⟩
      exact ⟨⟨h1, h5⟩, ⟨h2, h6⟩, ⟨h3, h7⟩, h4, h8, h9⟩
    · rintro ⟨⟨h1, h5⟩, ⟨h2, h6⟩, ⟨h3, h7⟩, h4, h8, h9⟩
      exact ⟨⟨h1, h2, h3, h4⟩, h5, h6, h7, h8, h9⟩

theorem validTimestamps_iff (tags : List FlvTag) :
    ValidTimestamps tags ↔ Before.start.AllowsAll tags := by
  have hchain : ∀ times : List Nat, (0 :: times).IsChain (· ≤ ·) ↔ times.Pairwise (· ≤ ·) := by
    intro times
    rw [List.isChain_iff_pairwise, List.pairwise_cons]
    exact and_iff_right fun _ _ => Nat.zero_le _
  have hclose : ∀ tag ∈ tags.head?, CloseTo 0 tag := fun tag _ =>
    ⟨Nat.zero_le _, fun _ _ => by omega⟩
  rw [allowsAll_iff]
  dsimp only [Before.start]
  simp only [Nat.zero_add]
  rw [hchain, hchain]
  constructor
  · rintro ⟨h1, h2, h3, h4⟩
    exact ⟨h1, h2, h3, hclose, h4⟩
  · rintro ⟨h1, h2, h3, -, h4⟩
    exact ⟨h1, h2, h3, h4⟩

end FlvMeta
