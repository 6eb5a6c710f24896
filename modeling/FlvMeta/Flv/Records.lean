import Mathlib.Data.List.Induction
import FlvMeta.Flv.Tags

/-!
# Records

After its header and the first previous tag size, an FLV file is a sequence of records: a tag
header, a body of the length that the header declares, and the size of both. Scanning such a file
for tags finds exactly its records (`tagsFrom_records`).
-/

namespace FlvMeta

open Endian Stdio

/-- A tag header and a body. -/
structure Piece where
  tag : FlvTag
  body : Bytes

namespace Piece

/-- A tag with its body and the previous tag size behind it. -/
def bytes (piece : Piece) : Bytes :=
  piece.tag.bytes ++ (piece.body ++ toBE 4 (flvTagSize + piece.body.length))

/-- The body has the length that the header declares. -/
def Fits (piece : Piece) : Prop := piece.body.length = flvTagGetBodyLength piece.tag

instance (piece : Piece) : Decidable piece.Fits := inferInstanceAs (Decidable (_ = _))

theorem length_bytes (piece : Piece) : piece.bytes.length = piece.body.length + 15 := by
  simp [bytes]
  omega

end Piece

/-- A tag whose body has the declared length. -/
structure Record extends Piece where
  length_body : toPiece.Fits

namespace Record

def bytes (r : Record) : Bytes := r.toPiece.bytes

theorem length_bytes (r : Record) : r.bytes.length = flvTagGetBodyLength r.tag + 15 := by
  rw [bytes, Piece.length_bytes, r.length_body]

end Record

/-- Bytes that are a sequence of records. -/
def Records (bs : Bytes) : Prop := ∃ rs : List Record, bs = rs.flatMap Record.bytes

/-- Pieces that fit are records. -/
theorem exists_records {pieces : List Piece} (h : ∀ piece ∈ pieces, piece.Fits) :
    ∃ rs : List Record, rs.map Record.toPiece = pieces := by
  induction pieces with
  | nil => exact ⟨[], rfl⟩
  | cons piece pieces ih =>
    obtain ⟨rs, hrs⟩ := ih fun piece hp => h piece (List.mem_cons_of_mem _ hp)
    exact ⟨⟨piece, h piece List.mem_cons_self⟩ :: rs, by rw [List.map_cons, hrs]⟩

theorem records_of_fits {pieces : List Piece} (h : ∀ piece ∈ pieces, piece.Fits) :
    Records (pieces.flatMap Piece.bytes) := by
  obtain ⟨rs, rfl⟩ := exists_records h
  exact ⟨rs, by rw [List.flatMap_map]; rfl⟩

/-- Records one after the other, each with its offset. -/
def locate (p : Nat) : List Record → List (Nat × Record)
  | [] => []
  | r :: rs => (p, r) :: locate (nextTag p r.tag) rs

theorem drop_nextTag {content : Bytes} {p : Nat} {r : Record} {rest : Bytes}
    (h : content.drop p = r.bytes ++ rest) : content.drop (nextTag p r.tag) = rest := by
  have hlen : nextTag p r.tag = p + r.bytes.length := by
    rw [nextTag, r.length_bytes]
    omega
  rw [hlen, ← List.drop_drop, h, List.drop_left]

theorem flvTagOfBytes_record (r : Record) (rest : Bytes) :
    flvTagOfBytes (r.bytes ++ rest) = r.tag := by
  rw [Record.bytes, Piece.bytes, List.append_assoc, flvTagOfBytes_bytes]

/-- Scanning a sequence of records finds its tags. -/
theorem tagsFrom_records {content : Bytes} {rs : List Record} {p : Nat}
    (h : content.drop p = rs.flatMap Record.bytes) :
    tagsFrom content p = (locate p rs).map fun x => (x.1, x.2.tag) := by
  induction rs generalizing p with
  | nil =>
    have hle : content.length ≤ p := List.drop_eq_nil_iff.mp h
    exact tagsFrom_of_lt (by omega)
  | cons r rs ih =>
    rw [List.flatMap_cons] at h
    have hlen := congrArg List.length h
    rw [List.length_drop, List.length_append, r.length_bytes] at hlen
    rw [tagsFrom_of_le (by omega), h, flvTagOfBytes_record, ih (drop_nextTag h)]
    rfl

/-- Scanning pieces that fit finds their tags. -/
theorem tags_of_fits {content : Bytes} {pieces : List Piece} {p : Nat}
    (h : content.drop p = pieces.flatMap Piece.bytes) (hfit : ∀ piece ∈ pieces, piece.Fits) :
    (tagsFrom content p).map Prod.snd = pieces.map (·.tag) := by
  have hlocate : ∀ (rs : List Record) (p : Nat),
      (locate p rs).map (fun x => x.2.tag) = rs.map fun r => r.tag := fun rs => by
    induction rs with
    | nil => intro p; rfl
    | cons r rs ih => intro p; simp [locate, ih]
  obtain ⟨rs, rfl⟩ := exists_records hfit
  rw [List.flatMap_map] at h
  rw [tagsFrom_records h, List.map_map, List.map_map]
  exact hlocate rs p

theorem mem_of_mem_locate {rs : List Record} {p : Nat} {x : Nat × Record} (h : x ∈ locate p rs) :
    x.2 ∈ rs := by
  induction rs generalizing p with
  | nil => cases h
  | cons r rs ih =>
    rcases List.mem_cons.mp h with rfl | h
    · exact List.mem_cons_self
    · exact List.mem_cons_of_mem _ (ih h)

theorem length_locate {p : Nat} {rs : List Record} : (locate p rs).length = rs.length := by
  induction rs generalizing p with
  | nil => rfl
  | cons r rs ih => rw [locate, List.length_cons, ih, List.length_cons]

/-- Where a record of a sequence is found. -/
theorem drop_locate {content : Bytes} {rs : List Record} {p : Nat}
    (h : content.drop p = rs.flatMap Record.bytes) :
    ∀ x ∈ locate p rs, ∃ rest, content.drop x.1 = x.2.bytes ++ rest := by
  induction rs generalizing p with
  | nil => simp [locate]
  | cons r rs ih =>
    intro x hx
    rw [List.flatMap_cons] at h
    rcases List.mem_cons.mp hx with rfl | hx
    · exact ⟨_, h⟩
    · exact ih (drop_nextTag h) x hx

/-- A sequence of records ends where its last record ends. -/
theorem Records.complete {bs : Bytes} (h : Records bs) :
    ∀ x ∈ tagsFrom bs 0, nextTag x.1 x.2 ≤ bs.length := by
  obtain ⟨rs, rfl⟩ := h
  intro x hx
  have hdrop : (rs.flatMap Record.bytes).drop 0 = rs.flatMap Record.bytes := rfl
  rw [tagsFrom_records hdrop] at hx
  obtain ⟨y, hy, rfl⟩ := List.mem_map.mp hx
  obtain ⟨rest, hrest⟩ := drop_locate hdrop y hy
  have hlen := congrArg List.length hrest
  rw [List.length_drop, List.length_append, y.2.length_bytes] at hlen
  simp only [nextTag]
  omega

theorem not_records_of_scan {bs : Bytes}
    (h : ∃ x ∈ tagsFrom bs 0, bs.length < nextTag x.1 x.2) : ¬ Records bs := by
  intro hrecords
  obtain ⟨x, hx, hlt⟩ := h
  exact absurd (hrecords.complete x hx) (by omega)

/-- What follows a piece that fits is a sequence of records if the whole is. -/
theorem Records.tail {piece : Piece} {bs : Bytes} (h : Records (piece.bytes ++ bs))
    (hfit : piece.Fits) : Records bs := by
  obtain ⟨rs, hrs⟩ := h
  have hlength := piece.length_bytes
  cases rs with
  | nil =>
    have hnil := congrArg List.length hrs
    rw [List.length_append, List.flatMap_nil, List.length_nil] at hnil
    omega
  | cons r rs =>
    rw [List.flatMap_cons] at hrs
    have htag : piece.tag = r.tag := by
      rw [← flvTagOfBytes_record ⟨piece, hfit⟩ bs, ← flvTagOfBytes_record r _]
      exact congrArg flvTagOfBytes hrs
    have hbytes : piece.bytes.length = r.bytes.length := by
      rw [hlength, hfit, r.length_bytes, htag]
    exact ⟨rs, (List.append_inj hrs hbytes).2⟩

/-- Pieces are a sequence of records only if all of them fit: each ends with the size of what it
holds, so the records are found from the end of the bytes. -/
theorem records_iff_fits {pieces : List Piece}
    (hshort : ∀ piece ∈ pieces, piece.body.length < 2 ^ 24) :
    Records (pieces.flatMap Piece.bytes) ↔ ∀ piece ∈ pieces, piece.Fits := by
  refine ⟨?_, records_of_fits⟩
  rintro ⟨rs, hrs⟩
  induction pieces using List.reverseRecOn generalizing rs with
  | nil => exact List.forall_mem_nil _
  | append_singleton pieces last ih =>
    rw [List.forall_mem_append, List.forall_mem_singleton] at hshort ⊢
    obtain ⟨hshort, hlast⟩ := hshort
    rw [List.flatMap_append, List.flatMap_singleton] at hrs
    rcases List.eq_nil_or_concat' rs with rfl | ⟨rs, r, rfl⟩
    · have hnil := congrArg List.length hrs
      rw [List.length_append, Piece.length_bytes, List.flatMap_nil, List.length_nil] at hnil
      omega
    rw [List.flatMap_append, List.flatMap_singleton] at hrs
    -- the sizes at the ends are equal, and with them the last pieces
    have hsize : flvTagSize + last.body.length = flvTagSize + r.body.length := by
      have hends : ∀ (front : Bytes) (piece : Piece),
          front ++ piece.bytes = (front ++ (piece.tag.bytes ++ piece.body)) ++
            toBE 4 (flvTagSize + piece.body.length) := fun front piece => by simp [Piece.bytes]
      have hbound := flvTagGetBodyLength_lt r.tag
      have hbody := r.length_body
      have hflv : flvTagSize = 11 := rfl
      unfold Piece.Fits at hbody
      rw [Record.bytes, hends, hends] at hrs
      have hequal := congrArg ofBE (List.append_inj' hrs (by simp)).2
      rwa [ofBE_toBE (by omega), ofBE_toBE (by omega)] at hequal
    have hlength : last.bytes.length = r.bytes.length := by
      rw [Piece.length_bytes, Record.bytes, Piece.length_bytes]
      omega
    obtain ⟨hfront, hbytes⟩ := List.append_inj' hrs hlength
    refine ⟨ih hshort rs hfront, ?_⟩
    have htag : last.tag = r.tag := congrArg flvTagOfBytes hbytes
    have hbody := r.length_body
    unfold Piece.Fits at hbody ⊢
    rw [htag, ← hbody]
    omega

/-! ## Tags of a file as records -/

/-- The file holds the whole body of a tag. -/
def Complete (content : Bytes) (p : Nat) (tag : FlvTag) : Prop :=
  p + 11 + flvTagGetBodyLength tag ≤ content.length

instance (content : Bytes) (p : Nat) (tag : FlvTag) : Decidable (Complete content p tag) :=
  inferInstanceAs (Decidable (_ ≤ _))

/-- The body of a tag in a file, as far as it is there. -/
def tagBody (content : Bytes) (p : Nat) (tag : FlvTag) : Bytes :=
  (content.drop (p + 11)).take (flvTagGetBodyLength tag)

theorem length_tagBody {content : Bytes} {p : Nat} {tag : FlvTag} (h : Complete content p tag) :
    (tagBody content p tag).length = flvTagGetBodyLength tag := by
  rw [tagBody, List.length_take, List.length_drop]
  unfold Complete at h
  omega

/-- After a tag that is not complete there is none. -/
theorem tagsFrom_nextTag_of_not_complete {content : Bytes} {p : Nat} {tag : FlvTag}
    (h : ¬ Complete content p tag) : tagsFrom content (nextTag p tag) = [] := by
  refine tagsFrom_of_lt ?_
  unfold Complete at h
  unfold nextTag
  omega

/-- A file of an `onMetaData` tag without entries, a keyframe, an audio tag, another frame and, a
second after the first one, another keyframe. -/
def shortMovie : Bytes :=
  [0x46, 0x4C, 0x56, 1, 5, 0, 0, 0, 9, 0, 0, 0, 0] ++
    [18, 0, 0, 21, 0, 0, 0, 0, 0, 0, 0, 2, 0, 10, 0x6F, 0x6E, 0x4D, 0x65, 0x74, 0x61, 0x44, 0x61,
      0x74, 0x61, 8, 0, 0, 0, 0, 0, 0, 9, 0, 0, 0, 32] ++
    [9, 0, 0, 2, 0, 0, 0, 0, 0, 0, 0, 0x11, 1, 0, 0, 0, 13] ++
    [8, 0, 0, 1, 0, 0, 10, 0, 0, 0, 0, 0x2F, 0, 0, 0, 12] ++
    [9, 0, 0, 1, 0, 0, 40, 0, 0, 0, 0, 0x21, 0, 0, 0, 12] ++
    [9, 0, 0, 1, 0, 3, 232, 0, 0, 0, 0, 0x11, 0, 0, 0, 12]

theorem tags_shortMovie : tagsFrom shortMovie 13 =
    [(13, ⟨18, ⟨0, 0, 21⟩, ⟨0, 0, 0⟩, 0, ⟨0, 0, 0⟩⟩), (49, ⟨9, ⟨0, 0, 2⟩, ⟨0, 0, 0⟩, 0, ⟨0, 0, 0⟩⟩),
      (66, ⟨8, ⟨0, 0, 1⟩, ⟨0, 0, 10⟩, 0, ⟨0, 0, 0⟩⟩),
      (82, ⟨9, ⟨0, 0, 1⟩, ⟨0, 0, 40⟩, 0, ⟨0, 0, 0⟩⟩),
      (98, ⟨9, ⟨0, 0, 1⟩, ⟨0, 3, 232⟩, 0, ⟨0, 0, 0⟩⟩)] := by
  rfl

end FlvMeta
