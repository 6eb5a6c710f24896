import FlvMeta.Base.Pieces
import FlvMeta.Amf.Write

/-!
# Short writes

`amf_data_write` is one sequence of writes, whatever the write procedure is and does
(`amfDataWrite_eq_writeAll`), so its result is `amf_data_size` exactly when all of them are
complete. A write to a buffer is complete or does nothing.
-/

namespace FlvMeta

open Endian Stdio

variable {N : Type} [NumberImage N]

/-! ## The writes -/

/-- The writes of `amf_string_write`. -/
def amfStringWrites (s : AmfString) : List Bytes :=
  toBE 2 s.size :: if 0 < s.size then [s.bytes] else []

/-- The writes that close an object or an associative array. -/
def amfEndWrites : List Bytes := [[0, 0], [AmfType.endTag.code]]

mutual

/-- The writes of `amf_data_write`. -/
def amfDataWrites : AmfData N → List Bytes
  | .nullPtr => []
  | .number x => [[AmfType.number.code], amfNumberBytes x]
  | .boolean b => [[AmfType.boolean.code], [b]]
  | .string s => [AmfType.string.code] :: amfStringWrites s
  | .object list => [AmfType.object.code] :: (amfPairsWrites list ++ amfEndWrites)
  | .null _ => [[AmfType.null.code]]
  | .undefined => [[AmfType.undefined.code]]
  | .associativeArray list =>
    [AmfType.associativeArray.code] :: toLE 4 (swapUint32 (amfListSize list) / 2) ::
      (amfPairsWrites list ++ amfEndWrites)
  | .array list => [AmfType.array.code] :: toBE 4 (amfListSize list) :: amfElementsWrites list
  | .date milliseconds timezone =>
    [[AmfType.date.code], amfNumberBytes milliseconds, toBE 2 timezone.toNat]
  | .other type => [[type]]

def amfPairsWrites : List (AmfData N) → List Bytes
  | [] => []
  | [name] => amfStringWrites name.stringData
  | name :: value :: rest =>
    amfStringWrites name.stringData ++ (amfDataWrites value ++ amfPairsWrites rest)

def amfElementsWrites : List (AmfData N) → List Bytes
  | [] => []
  | element :: rest => amfDataWrites element ++ amfElementsWrites rest

end

section

variable {τ : Type} (writeProc : WriteProc τ)

theorem amfStringWrite_eq_writeAll (s : AmfString) :
    amfStringWrite writeProc s = writeAll writeProc (amfStringWrites s) := by
  rw [amfStringWrite, amfStringWrites, writeAll, toLE_swapUint16]
  split
  · rw [writeAll_singleton]
  · rfl

theorem amfEndWrite_eq_writeAll : amfEndWrite writeProc = writeAll writeProc amfEndWrites := by
  rw [amfEndWrite, amfEndWrites, writeAll, writeAll_singleton]
  rfl

theorem amfNumberWrite_eq (x : N) : amfNumberWrite writeProc x = writeProc (amfNumberBytes x) := by
  rw [amfNumberWrite, toLE_swapNumber64]
  rfl

mutual

theorem amfDataWrite_eq_writeAll (data : AmfData N) :
    amfDataWrite writeProc data = writeAll writeProc (amfDataWrites data) := by
  cases data with
  | nullPtr => simp only [amfDataWrite, amfDataWrites, writeAll]
  | number x =>
    simp only [amfDataWrite, amfDataWrites, writeAll, amfNumberWrite_eq, CountedWrite.plus_zero]
  | string s => simp only [amfDataWrite, amfDataWrites, writeAll, amfStringWrite_eq_writeAll]
  | object list =>
    simp only [amfDataWrite, amfDataWrites, writeAll, writeAll_append,
      amfPairsWrite_eq_writeAll list, amfEndWrite_eq_writeAll]
  | associativeArray list =>
    simp only [amfDataWrite, amfDataWrites, writeAll, writeAll_append,
      amfPairsWrite_eq_writeAll list, amfEndWrite_eq_writeAll]
  | array list =>
    simp only [amfDataWrite, amfDataWrites, writeAll, amfElementsWrite_eq_writeAll list,
      toLE_swapUint32]
  | date milliseconds timezone =>
    simp only [amfDataWrite, amfDataWrites, writeAll, amfNumberWrite_eq, toLE_swapUint16,
      CountedWrite.plus_zero]
  | _ => simp only [amfDataWrite, amfDataWrites, writeAll, CountedWrite.plus_zero]

theorem amfPairsWrite_eq_writeAll (list : List (AmfData N)) :
    amfPairsWrite writeProc list = writeAll writeProc (amfPairsWrites list) :=
  match list with
  | [] => by simp only [amfPairsWrite, amfPairsWrites, writeAll]
  | [name] => by simp only [amfPairsWrite, amfPairsWrites, amfStringWrite_eq_writeAll]
  | name :: value :: rest => by
    simp only [amfPairsWrite, amfPairsWrites, writeAll_append, amfStringWrite_eq_writeAll,
      amfDataWrite_eq_writeAll value, amfPairsWrite_eq_writeAll rest]

theorem amfElementsWrite_eq_writeAll (list : List (AmfData N)) :
    amfElementsWrite writeProc list = writeAll writeProc (amfElementsWrites list) :=
  match list with
  | [] => by simp only [amfElementsWrite, amfElementsWrites, writeAll]
  | element :: rest => by
    simp only [amfElementsWrite, amfElementsWrites, writeAll_append,
      amfDataWrite_eq_writeAll element, amfElementsWrite_eq_writeAll rest]

end

end

/-! ## Their bytes -/

omit [NumberImage N] in
theorem flatten_amfStringWrites (s : AmfString) :
    (amfStringWrites s).flatten = amfStringBytes s := by
  rw [amfStringWrites, amfStringBytes]
  by_cases h : 0 < s.size
  · simp [h]
  · have hnil : s.bytes = [] := List.length_eq_zero_iff.mp (by unfold AmfString.size at h; omega)
    simp [h, hnil]

mutual

theorem flatten_amfDataWrites (data : AmfData N) :
    (amfDataWrites data).flatten = amfBytes data := by
  cases data with
  | string s => simp [amfDataWrites, amfBytes, flatten_amfStringWrites]
  | object list =>
    simp [amfDataWrites, amfBytes, flatten_amfPairsWrites list, amfEndWrites, amfEndBytes]
  | associativeArray list =>
    simp [amfDataWrites, amfBytes, flatten_amfPairsWrites list, amfEndWrites, amfEndBytes]
  | array list => simp [amfDataWrites, amfBytes, flatten_amfElementsWrites list]
  | _ => simp [amfDataWrites, amfBytes]

theorem flatten_amfPairsWrites (list : List (AmfData N)) :
    (amfPairsWrites list).flatten = amfPairsBytes list :=
  match list with
  | [] => by simp [amfPairsWrites, amfPairsBytes]
  | [name] => by simp [amfPairsWrites, amfPairsBytes, flatten_amfStringWrites]
  | name :: value :: rest => by
    simp [amfPairsWrites, amfPairsBytes, flatten_amfStringWrites, flatten_amfDataWrites value,
      flatten_amfPairsWrites rest]

theorem flatten_amfElementsWrites (list : List (AmfData N)) :
    (amfElementsWrites list).flatten = amfElementsBytes list :=
  match list with
  | [] => by simp [amfElementsWrites, amfElementsBytes]
  | element :: rest => by
    simp [amfElementsWrites, amfElementsBytes, flatten_amfDataWrites element,
      flatten_amfElementsWrites rest]

end

theorem length_amfDataWrites (data : AmfData N) :
    (amfDataWrites data).flatten.length = amfDataSize data := by
  rw [flatten_amfDataWrites, length_amfBytes]

/-! ## Writing to a buffer -/

/-- The bytes at all addresses. -/
abbrev Memory := Nat → UInt8

/-- The memory after `memcpy(address, bs, ..)`. -/
def Memory.copy (memory : Memory) (address : Nat) (bs : Bytes) : Memory := fun a =>
  if address ≤ a ∧ a < address + bs.length then bs.getD (a - address) 0 else memory a

/-- The `buffer_context` of `buffer_write`, with the memory. -/
structure WriteContext where
  memory : Memory
  startAddress : Nat
  currentAddress : Nat
  bufferSize : Nat

/-- `buffer_write`. -/
def bufferWrite : WriteProc WriteContext := fun bs ctxt =>
  if ctxt.startAddress ≤ ctxt.currentAddress ∧
      ctxt.currentAddress + bs.length ≤ ctxt.startAddress + ctxt.bufferSize then
    (bs.length, { ctxt with
      memory := ctxt.memory.copy ctxt.currentAddress bs
      currentAddress := ctxt.currentAddress + bs.length })
  else (0, ctxt)

/-- `amf_data_buffer_write`: its result, and the memory after it. -/
def amfDataBufferWrite (data : AmfData N) (memory : Memory) (buffer maxbytes : Nat) :
    Nat × Memory :=
  match amfDataWrite bufferWrite data ⟨memory, buffer, buffer, maxbytes⟩ with
  | (s, ctxt) => (s, ctxt.memory)

theorem modest_bufferWrite : Modest bufferWrite := by
  intro bs ctxt
  unfold bufferWrite
  split
  · exact Nat.le_refl _
  · exact Nat.zero_le _

/-- The context still describes the same buffer, whose end has not been passed, and the memory
around the buffer is as before. -/
structure InBuffer (memory : Memory) (buffer maxbytes : Nat) (ctxt : WriteContext) : Prop where
  startAddress : ctxt.startAddress = buffer
  bufferSize : ctxt.bufferSize = maxbytes
  start_le : buffer ≤ ctxt.currentAddress
  le_end : ctxt.currentAddress ≤ buffer + maxbytes
  outside : ∀ a, ¬ (buffer ≤ a ∧ a < buffer + maxbytes) → ctxt.memory a = memory a

namespace InBuffer

variable {memory : Memory} {buffer maxbytes : Nat} {ctxt : WriteContext}

theorem bufferWrite (h : InBuffer memory buffer maxbytes ctxt) (bs : Bytes) :
    InBuffer memory buffer maxbytes (bufferWrite bs ctxt).2 := by
  unfold FlvMeta.bufferWrite
  rw [h.startAddress, h.bufferSize]
  split
  · rename_i hfits
    refine ⟨rfl, rfl, Nat.le_add_right_of_le h.start_le, hfits.2, ?_⟩
    intro a ha
    have hstart := h.start_le
    have hfree : ¬ (ctxt.currentAddress ≤ a ∧ a < ctxt.currentAddress + bs.length) := by omega
    exact (if_neg hfree).trans (h.outside a ha)
  · exact h

theorem writeAll (h : InBuffer memory buffer maxbytes ctxt) (pieces : List Bytes) :
    InBuffer memory buffer maxbytes (writeAll FlvMeta.bufferWrite pieces ctxt).2 := by
  induction pieces generalizing ctxt with
  | nil => exact h
  | cons piece pieces ih => exact ih (h.bufferWrite piece)

/-- All pieces are written if and only if they fit in the rest of the buffer. -/
theorem allComplete_iff (h : InBuffer memory buffer maxbytes ctxt) (pieces : List Bytes) :
    AllComplete FlvMeta.bufferWrite pieces ctxt ↔
      ctxt.currentAddress + pieces.flatten.length ≤ buffer + maxbytes := by
  induction pieces generalizing ctxt with
  | nil =>
    have hend := h.le_end
    simpa [AllComplete] using hend
  | cons piece pieces ih =>
    rw [AllComplete, ih (h.bufferWrite piece), List.flatten_cons, List.length_append]
    unfold FlvMeta.bufferWrite
    rw [h.startAddress, h.bufferSize]
    have hstart := h.start_le
    have hend := h.le_end
    split
    · simp only [true_and]
      omega
    · simp only
      omega

end InBuffer

/-- `amf_data_write` returns at most `amf_data_size`, with equality if and only if every write is
complete; to a buffer it changes nothing outside the buffer, and it returns `amf_data_size` if
and only if the buffer is big enough. -/
theorem amfDataWrite_count (data : AmfData N) :
    (∀ (τ : Type) (writeProc : WriteProc τ),
      amfDataWrite writeProc data = writeAll writeProc (amfDataWrites data) ∧
      (Modest writeProc → ∀ t : τ,
        (amfDataWrite writeProc data t).1 ≤ amfDataSize data ∧
        ((amfDataWrite writeProc data t).1 = amfDataSize data ↔
          AllComplete writeProc (amfDataWrites data) t))) ∧
    ∀ (memory : Memory) (buffer maxbytes : Nat),
      (∀ a, ¬ (buffer ≤ a ∧ a < buffer + maxbytes) →
        (amfDataBufferWrite data memory buffer maxbytes).2 a = memory a) ∧
      ((amfDataBufferWrite data memory buffer maxbytes).1 = amfDataSize data ↔
        amfDataSize data ≤ maxbytes) := by
  constructor
  · intro τ writeProc
    refine ⟨amfDataWrite_eq_writeAll writeProc data, fun hmodest t => ?_⟩
    rw [amfDataWrite_eq_writeAll, ← length_amfDataWrites]
    exact ⟨count_writeAll_le writeProc hmodest _ t, count_writeAll_eq_iff writeProc hmodest _ t⟩
  · intro memory buffer maxbytes
    have hstart : InBuffer memory buffer maxbytes ⟨memory, buffer, buffer, maxbytes⟩ :=
      ⟨rfl, rfl, Nat.le_refl _, Nat.le_add_right _ _, fun _ _ => rfl⟩
    have hcomplete := hstart.allComplete_iff (amfDataWrites data)
    rw [length_amfDataWrites] at hcomplete
    constructor
    · intro a ha
      have houtside := (hstart.writeAll (amfDataWrites data)).outside a ha
      rw [← amfDataWrite_eq_writeAll] at houtside
      exact houtside
    · have hcount := count_writeAll_eq_iff bufferWrite modest_bufferWrite (amfDataWrites data)
        ⟨memory, buffer, buffer, maxbytes⟩
      rw [length_amfDataWrites, ← amfDataWrite_eq_writeAll, hcomplete] at hcount
      refine hcount.trans ?_
      exact Nat.add_le_add_iff_left

/-- An object with a name whose value is NULL. -/
def danglingName : AmfData UInt64 := .object [amfStr (ascii "k"), .nullPtr]

/-- It has seven bytes, and is written to a buffer of six. -/
theorem danglingName_count :
    letI ctxt : WriteContext := ⟨fun _ => 0, 0, 0, 6⟩
    (amfDataWrite bufferWrite danglingName ctxt).1 ≤ amfDataSize danglingName ∧
      ((amfDataWrite bufferWrite danglingName ctxt).1 = amfDataSize danglingName ↔
        AllComplete bufferWrite (amfDataWrites danglingName) ctxt) :=
  ((amfDataWrite_count danglingName).1 WriteContext bufferWrite).2 modest_bufferWrite _

example : amfDataSize danglingName = 7 := by decide

end FlvMeta
