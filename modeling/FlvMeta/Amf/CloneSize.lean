import FlvMeta.Amf.Clone
import FlvMeta.Amf.Sound

/-!
# What a clone loses

`amf_data_size` and `amf_data_write` skip the NULL that stands for a null or undefined value, so
every one of them makes the encoding of the clone one byte shorter (`amfDataSize_clone`). The clone
of a tree is faithful, in value, bytes and size, exactly when the tree holds neither
(`faithfulClone_iff`).
-/

namespace FlvMeta

variable {N : Type}

mutual

/-- The number of null and undefined values at any depth. -/
def nullCount : AmfData N → Nat
  | .null _ => 1
  | .undefined => 1
  | .object list => nullCountList list
  | .associativeArray list => nullCountList list
  | .array list => nullCountList list
  | _ => 0

def nullCountList : List (AmfData N) → Nat
  | [] => 0
  | data :: rest => nullCount data + nullCountList rest

end

mutual

theorem cloneable_iff_nullCount (data : AmfData N) (h : Supported data) :
    Cloneable data ↔ nullCount data = 0 := by
  cases data with
  | nullPtr => exact h.elim
  | other type => exact h.elim
  | object list => exact cloneableList_iff_entries list h
  | associativeArray list => exact cloneableList_iff_entries list h
  | array list => exact cloneableList_iff_elements list h
  | _ => simp [Cloneable, nullCount]

theorem cloneableList_iff_entries (list : List (AmfData N)) (h : SupportedEntries list) :
    CloneableList list ↔ nullCountList list = 0 :=
  match list, h with
  | [], _ => by simp [CloneableList, nullCountList]
  | [_], h => h.elim
  | _ :: value :: rest, ⟨⟨s, hname⟩, hvalue, hrest⟩ => by
    subst hname
    simp [CloneableList, nullCountList, Cloneable, nullCount, cloneable_iff_nullCount value hvalue,
      cloneableList_iff_entries rest hrest]

theorem cloneableList_iff_elements (list : List (AmfData N)) (h : SupportedElements list) :
    CloneableList list ↔ nullCountList list = 0 :=
  match list, h with
  | [], _ => by simp [CloneableList, nullCountList]
  | element :: rest, ⟨helement, hrest⟩ => by
    simp [CloneableList, nullCountList, cloneable_iff_nullCount element helement,
      cloneableList_iff_elements rest hrest]

end

mutual

/-- Each null or undefined value costs the one byte of its type. -/
theorem amfDataSize_clone (data : AmfData N) (h : Supported data) :
    amfDataSize (amfDataClone data) + nullCount data = amfDataSize data := by
  cases data with
  | nullPtr => exact h.elim
  | other type => exact h.elim
  | object list =>
    have hpairs := amfPairsSize_clone list h
    simp only [amfDataClone, amfDataSize, nullCount]
    omega
  | associativeArray list =>
    have hpairs := amfPairsSize_clone list h
    simp only [amfDataClone, amfDataSize, nullCount]
    omega
  | array list =>
    have helements := amfElementsSize_clone list h
    simp only [amfDataClone, amfDataSize, nullCount]
    omega
  | _ => simp [amfDataClone, amfDataSize, nullCount]

theorem amfPairsSize_clone (list : List (AmfData N)) (h : SupportedEntries list) :
    amfPairsSize (amfListClone list) + nullCountList list = amfPairsSize list :=
  match list, h with
  | [], _ => by simp [amfListClone, amfPairsSize, nullCountList]
  | [_], h => h.elim
  | _ :: value :: rest, ⟨⟨s, hname⟩, hvalue, hrest⟩ => by
    have hsize := amfDataSize_clone value hvalue
    have hpairs := amfPairsSize_clone rest hrest
    subst hname
    simp only [amfListClone, amfDataClone, amfPairsSize, nullCountList, nullCount]
    omega

theorem amfElementsSize_clone (list : List (AmfData N)) (h : SupportedElements list) :
    amfElementsSize (amfListClone list) + nullCountList list = amfElementsSize list :=
  match list, h with
  | [], _ => by simp [amfListClone, amfElementsSize, nullCountList]
  | element :: rest, ⟨helement, hrest⟩ => by
    have hsize := amfDataSize_clone element helement
    have helements := amfElementsSize_clone rest hrest
    simp only [amfListClone, amfElementsSize, nullCountList]
    omega

end

variable [NumberImage N]

/-- The clone is a value, the same one, and is encoded alike. -/
structure FaithfulClone (data : AmfData N) : Prop where
  notNull : (amfDataClone data).isNull = false
  same : amfDataClone data = data
  sameBytes : amfDataImage (amfDataClone data) = amfDataImage data
  sameSize : amfDataSize (amfDataClone data) = amfDataSize data

/-- For a tree of supported types: without null and undefined the clone is faithful, with them not
even its size is right. -/
theorem faithfulClone_iff (data : AmfData N) (h : Supported data) :
    (FaithfulClone data ↔ Cloneable data) ∧
      (amfDataImage (amfDataClone data) = amfDataImage data ↔ Cloneable data) ∧
      (amfDataSize (amfDataClone data) = amfDataSize data ↔ Cloneable data) := by
  have hsize : amfDataSize (amfDataClone data) = amfDataSize data ↔ Cloneable data := by
    have hclone := amfDataSize_clone data h
    rw [cloneable_iff_nullCount data h]
    omega
  have himage : amfDataImage (amfDataClone data) = amfDataImage data ↔ Cloneable data := by
    refine ⟨fun heq => hsize.mp ?_, fun hcloneable => ?_⟩
    · have hlength := congrArg List.length heq
      rwa [amfDataImage_eq, amfDataImage_eq, length_amfBytes, length_amfBytes] at hlength
    · rw [(amfDataClone_eq_iff data).mpr hcloneable]
  refine ⟨⟨fun hfaithful => hsize.mp hfaithful.sameSize, fun hcloneable => ?_⟩, himage, hsize⟩
  have hsame := (amfDataClone_eq_iff data).mpr hcloneable
  exact ⟨by rw [hsame, h.isNull], hsame, himage.mpr hcloneable, hsize.mpr hcloneable⟩

/-- An array of one undefined value. -/
theorem faithfulClone_iff_undefined :
    ¬ FaithfulClone (.array [.undefined] : AmfData UInt64) := fun h =>
  ((faithfulClone_iff (.array [.undefined] : AmfData UInt64) ⟨trivial, trivial⟩).1.mp h).1

/-- Its clone is an array of NULL, one byte shorter. -/
theorem not_faithfulClone :
    ¬ ∀ data : AmfData UInt64, Supported data → FaithfulClone data := fun h =>
  absurd (h (.array [.undefined]) ⟨trivial, trivial⟩).sameSize (by decide)

end FlvMeta
