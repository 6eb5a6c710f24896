import FlvMeta.Amf.Data
import FlvMeta.Base.Stdio

/-!
# Encoding AMF values

`amfDataSize` and `amfDataWrite` are the two recursions of the program over a value. `amfBytes`
is the byte string written, and `counts_amfDataWrite` connects the three: `amfDataWrite`
to a file writes `amfBytes`, whose length is `amfDataSize` (`length_amfBytes`).
-/

namespace FlvMeta

open Endian Stdio

variable {N : Type}

/-! ## Sizes -/

mutual

def amfDataSize : AmfData N → Nat
  | .nullPtr => 0
  | .number _ => 1 + 8
  | .boolean _ => 1 + 1
  | .string s => 1 + (2 + s.size)
  | .object list => 1 + (amfPairsSize list + (2 + 1))
  | .null _ => 1
  | .undefined => 1
  | .associativeArray list => 1 + (4 + amfPairsSize list + (2 + 1))
  | .array list => 1 + (4 + amfElementsSize list)
  | .date _ _ => 1 + (8 + 2)
  | .other _ => 1

/-- The loop of `amf_data_size` over the names and values of a list. -/
def amfPairsSize : List (AmfData N) → Nat
  | [] => 0
  | [name] => 2 + amfStringGetSize name
  | name :: value :: rest => 2 + amfStringGetSize name + amfDataSize value + amfPairsSize rest

/-- The loop of `amf_data_size` over the elements of an array. -/
def amfElementsSize : List (AmfData N) → Nat
  | [] => 0
  | element :: rest => amfDataSize element + amfElementsSize rest

end

/-! ## Writing -/

section

variable {τ : Type} (writeProc : WriteProc τ)

/-- `amf_string_write`: a length of zero is not followed by a second write. -/
def amfStringWrite (s : AmfString) : CountedWrite τ :=
  .plus (writeProc (toLE 2 (swapUint16 s.size)))
    (if 0 < s.size then writeProc s.bytes else .zero)

/-- The empty name and the terminator that close an object. -/
def amfEndWrite : CountedWrite τ :=
  .plus (writeProc (toLE 2 (swapUint16 0))) (writeProc [AmfType.endTag.code])

variable [NumberImage N]

def amfNumberWrite (x : N) : CountedWrite τ :=
  writeProc (toLE 8 (swapNumber64 (NumberImage.bits x).toNat))

/-- `list->size`, a `uint32`. -/
def amfListSize (list : List (AmfData N)) : Nat := list.length % 2 ^ 32

mutual

def amfDataWrite : AmfData N → CountedWrite τ
  | .nullPtr => .zero
  | .number x => .plus (writeProc [AmfType.number.code]) (amfNumberWrite writeProc x)
  | .boolean b => .plus (writeProc [AmfType.boolean.code]) (writeProc [b])
  | .string s => .plus (writeProc [AmfType.string.code]) (amfStringWrite writeProc s)
  | .object list =>
    .plus (writeProc [AmfType.object.code])
      (.plus (amfPairsWrite list) (amfEndWrite writeProc))
  | .null _ => writeProc [AmfType.null.code]
  | .undefined => writeProc [AmfType.undefined.code]
  | .associativeArray list =>
    .plus (writeProc [AmfType.associativeArray.code])
      -- the swapped size is halved, not the size
      (.plus (writeProc (toLE 4 (swapUint32 (amfListSize list) / 2)))
        (.plus (amfPairsWrite list) (amfEndWrite writeProc)))
  | .array list =>
    .plus (writeProc [AmfType.array.code])
      (.plus (writeProc (toLE 4 (swapUint32 (amfListSize list)))) (amfElementsWrite list))
  | .date milliseconds timezone =>
    .plus (writeProc [AmfType.date.code])
      (.plus (amfNumberWrite writeProc milliseconds)
        (writeProc (toLE 2 (swapUint16 timezone.toNat))))
  | .other type => writeProc [type]

/-- The loop over the names and values of a list. -/
def amfPairsWrite : List (AmfData N) → CountedWrite τ
  | [] => .zero
  | [name] => amfStringWrite writeProc name.stringData
  | name :: value :: rest =>
    .plus (amfStringWrite writeProc name.stringData)
      (.plus (amfDataWrite value) (amfPairsWrite rest))

/-- The loop over the elements of an array. -/
def amfElementsWrite : List (AmfData N) → CountedWrite τ
  | [] => .zero
  | element :: rest => .plus (amfDataWrite element) (amfElementsWrite rest)

end

end

variable [NumberImage N]

/-- `amf_data_file_write`. -/
def amfDataFileWrite (data : AmfData N) : CountedWrite OutFile :=
  amfDataWrite OutFile.fwrite data

/-- The bytes that `amf_data_file_write` leaves in an empty file. -/
def amfDataImage (data : AmfData N) : Bytes := (amfDataFileWrite data OutFile.empty).2.written

/-! ## The bytes written -/

def amfStringBytes (s : AmfString) : Bytes := toBE 2 s.size ++ s.bytes

def amfNumberBytes (x : N) : Bytes := toBE 8 (NumberImage.bits x).toNat

/-- The bytes that close an object or an associative array. -/
def amfEndBytes : Bytes := [0, 0, AmfType.endTag.code]

mutual

def amfBytes : AmfData N → Bytes
  | .nullPtr => []
  | .number x => AmfType.number.code :: amfNumberBytes x
  | .boolean b => [AmfType.boolean.code, b]
  | .string s => AmfType.string.code :: amfStringBytes s
  | .object list => AmfType.object.code :: (amfPairsBytes list ++ amfEndBytes)
  | .null _ => [AmfType.null.code]
  | .undefined => [AmfType.undefined.code]
  | .associativeArray list =>
    AmfType.associativeArray.code ::
      (toLE 4 (swapUint32 (amfListSize list) / 2) ++ (amfPairsBytes list ++ amfEndBytes))
  | .array list => AmfType.array.code :: (toBE 4 (amfListSize list) ++ amfElementsBytes list)
  | .date milliseconds timezone =>
    AmfType.date.code :: (amfNumberBytes milliseconds ++ toBE 2 timezone.toNat)
  | .other type => [type]

def amfPairsBytes : List (AmfData N) → Bytes
  | [] => []
  | [name] => amfStringBytes name.stringData
  | name :: value :: rest =>
    amfStringBytes name.stringData ++ (amfBytes value ++ amfPairsBytes rest)

def amfElementsBytes : List (AmfData N) → Bytes
  | [] => []
  | element :: rest => amfBytes element ++ amfElementsBytes rest

end

@[simp] theorem length_amfStringBytes (s : AmfString) :
    (amfStringBytes s).length = 2 + s.size := by
  simp [amfStringBytes, AmfString.size]

@[simp] theorem length_amfNumberBytes (x : N) : (amfNumberBytes x).length = 8 := by
  simp [amfNumberBytes]

@[simp] theorem length_amfEndBytes : amfEndBytes.length = 3 := rfl

mutual

/-- `amf_data_size` is the length of the encoding. -/
@[simp] theorem length_amfBytes : ∀ data : AmfData N, (amfBytes data).length = amfDataSize data
  | .nullPtr => rfl
  | .number x => by simp [amfBytes, amfDataSize]
  | .boolean b => by simp [amfBytes, amfDataSize]
  | .string s => by
    simp [amfBytes, amfDataSize]
    omega
  | .object list => by
    simp [amfBytes, amfDataSize, length_amfPairsBytes list]
    omega
  | .null e => by simp [amfBytes, amfDataSize]
  | .undefined => by simp [amfBytes, amfDataSize]
  | .associativeArray list => by
    simp [amfBytes, amfDataSize, length_amfPairsBytes list]
    omega
  | .array list => by
    simp [amfBytes, amfDataSize, length_amfElementsBytes list]
    omega
  | .date ms tz => by simp [amfBytes, amfDataSize]
  | .other type => by simp [amfBytes, amfDataSize]

@[simp] theorem length_amfPairsBytes :
    ∀ list : List (AmfData N), (amfPairsBytes list).length = amfPairsSize list
  | [] => rfl
  | [name] => by simp [amfPairsBytes, amfPairsSize, amfStringGetSize]
  | name :: value :: rest => by
    simp [amfPairsBytes, amfPairsSize, amfStringGetSize, length_amfBytes value,
      length_amfPairsBytes rest]
    omega

@[simp] theorem length_amfElementsBytes :
    ∀ list : List (AmfData N), (amfElementsBytes list).length = amfElementsSize list
  | [] => rfl
  | element :: rest => by
    simp [amfElementsBytes, amfElementsSize, length_amfBytes element,
      length_amfElementsBytes rest]

end

/-! ## Writing to a file -/

theorem counts_amfStringWrite (s : AmfString) :
    Counts (amfStringWrite OutFile.fwrite s) (amfStringBytes s) := by
  have hlen : Counts (OutFile.fwrite (toLE 2 (swapUint16 s.size))) (toBE 2 s.size) := by
    rw [toLE_swapUint16]
    exact counts_fwrite _
  unfold amfStringWrite amfStringBytes
  by_cases h : 0 < s.size
  · rw [if_pos h]
    exact counts_plus hlen (counts_fwrite _)
  · have hnil : s.bytes = [] := List.length_eq_zero_iff.mp (by unfold AmfString.size at h; omega)
    rw [if_neg h, hnil]
    exact counts_plus hlen counts_zero

theorem counts_amfEndWrite : Counts (amfEndWrite OutFile.fwrite) amfEndBytes :=
  counts_plus (counts_fwrite [0, 0]) (counts_fwrite _)

theorem counts_amfNumberWrite (x : N) :
    Counts (amfNumberWrite OutFile.fwrite x) (amfNumberBytes x) := by
  unfold amfNumberWrite amfNumberBytes
  rw [toLE_swapNumber64]
  exact counts_fwrite _

mutual

theorem counts_amfDataWrite : ∀ data : AmfData N,
    Counts (amfDataWrite OutFile.fwrite data) (amfBytes data)
  | .nullPtr => by
    simp only [amfDataWrite, amfBytes]
    exact counts_zero
  | .number x => by
    simp only [amfDataWrite, amfBytes]
    exact counts_plus (counts_fwrite [_]) (counts_amfNumberWrite x)
  | .boolean b => by
    simp only [amfDataWrite, amfBytes]
    exact counts_plus (counts_fwrite [_]) (counts_fwrite [_])
  | .string s => by
    simp only [amfDataWrite, amfBytes]
    exact counts_plus (counts_fwrite [_]) (counts_amfStringWrite s)
  | .object list => by
    simp only [amfDataWrite, amfBytes]
    exact counts_plus (counts_fwrite [_])
      (counts_plus (counts_amfPairsWrite list) counts_amfEndWrite)
  | .null e => by
    simp only [amfDataWrite, amfBytes]
    exact counts_fwrite _
  | .undefined => by
    simp only [amfDataWrite, amfBytes]
    exact counts_fwrite _
  | .associativeArray list => by
    simp only [amfDataWrite, amfBytes]
    exact counts_plus (counts_fwrite [_]) (counts_plus (counts_fwrite _)
      (counts_plus (counts_amfPairsWrite list) counts_amfEndWrite))
  | .array list => by
    simp only [amfDataWrite, amfBytes, toLE_swapUint32]
    exact counts_plus (counts_fwrite [_])
      (counts_plus (counts_fwrite _) (counts_amfElementsWrite list))
  | .date ms tz => by
    simp only [amfDataWrite, amfBytes, toLE_swapUint16]
    exact counts_plus (counts_fwrite [_])
      (counts_plus (counts_amfNumberWrite ms) (counts_fwrite _))
  | .other type => by
    simp only [amfDataWrite, amfBytes]
    exact counts_fwrite _

theorem counts_amfPairsWrite : ∀ list : List (AmfData N),
    Counts (amfPairsWrite OutFile.fwrite list) (amfPairsBytes list)
  | [] => by
    simp only [amfPairsWrite, amfPairsBytes]
    exact counts_zero
  | [name] => by
    simp only [amfPairsWrite, amfPairsBytes]
    exact counts_amfStringWrite _
  | name :: value :: rest => by
    simp only [amfPairsWrite, amfPairsBytes]
    exact counts_plus (counts_amfStringWrite _)
      (counts_plus (counts_amfDataWrite value) (counts_amfPairsWrite rest))

theorem counts_amfElementsWrite : ∀ list : List (AmfData N),
    Counts (amfElementsWrite OutFile.fwrite list) (amfElementsBytes list)
  | [] => by
    simp only [amfElementsWrite, amfElementsBytes]
    exact counts_zero
  | element :: rest => by
    simp only [amfElementsWrite, amfElementsBytes]
    exact counts_plus (counts_amfDataWrite element) (counts_amfElementsWrite rest)

end

theorem amfDataImage_eq (data : AmfData N) : amfDataImage data = amfBytes data := by
  have h := (counts_amfDataWrite data).of_unlimited (show OutFile.empty.limit = none from rfl)
  rw [amfDataImage, amfDataFileWrite, h]
  rfl

end FlvMeta
