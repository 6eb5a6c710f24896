import FlvMeta.Base.Bits
import FlvMeta.Flv.VideoSize

/-!
# The bit reader as a position in a bit string

The reader keeps the address of a byte and a number of bits already read of it. Seen from
outside it is a bit string with a position, which a skip may move past the end (`BitList`): every
sequence of calls gives the same answers there, and dereferences bytes of the buffer only.
Exp-Golomb codes are read from wherever the position is.
-/

namespace FlvMeta

open Bits

/-- What an evaluation does besides its results. -/
inductive BitEvent
  /-- A byte of the buffer is read, at its offset from the start. -/
  | deref (offset : Nat)
  | shift (amount : Nat)
  /-- The bits that are asked for or skipped do not all exist. -/
  | pastEnd
  /-- An unsigned operation leaves the range of its type. -/
  | wrap
  deriving DecidableEq

namespace BitBuffer

/-- The number of bits in front of the reader. -/
def position (bb : BitBuffer) : Nat := 8 * bb.current + bb.readBits

/-- The bits that are left. -/
def rest (bb : BitBuffer) : List Bool := (ofBytes bb.bytes).drop bb.position

/-- `read_bits` counts bits of one byte. -/
def Valid (bb : BitBuffer) : Prop := bb.readBits < 8

theorem length_rest (bb : BitBuffer) : bb.rest.length = 8 * bb.bytes.length - bb.position := by
  rw [rest, List.length_drop, length_ofBytes]

/-! ## Skipping -/

@[simp] theorem bytes_skipBits (n : Nat) (bb : BitBuffer) : (bb.skipBits n).bytes = bb.bytes := rfl

theorem valid_skipBits (n : Nat) (bb : BitBuffer) : (bb.skipBits n).Valid :=
  Nat.mod_lt _ (by decide)

@[simp] theorem position_skipBits (n : Nat) (bb : BitBuffer) :
    (bb.skipBits n).position = bb.position + n := by
  simp only [position, skipBits]
  omega

@[simp] theorem rest_skipBits (n : Nat) (bb : BitBuffer) :
    (bb.skipBits n).rest = bb.rest.drop n := by
  rw [rest, rest, bytes_skipBits, position_skipBits, List.drop_drop]

theorem skipBits_skipBits (m n : Nat) (bb : BitBuffer) :
    (bb.skipBits m).skipBits n = bb.skipBits (m + n) := by
  simp only [skipBits, BitBuffer.mk.injEq, true_and]
  omega

theorem Valid.skipBits_zero {bb : BitBuffer} (h : bb.Valid) : bb.skipBits 0 = bb := by
  obtain ⟨bytes, current, readBits⟩ := bb
  have hread : readBits < 8 := h
  simp only [BitBuffer.skipBits, BitBuffer.mk.injEq, true_and]
  omega

/-! ## Single bits -/

/-- One bit on, within a byte or into the next one. -/
theorem Valid.skipBits_one {bb : BitBuffer} (h : bb.Valid) :
    bb.skipBits 1 = if bb.readBits = 7
      then { bb with readBits := 0, current := bb.current + 1 }
      else { bb with readBits := bb.readBits + 1 } := by
  obtain ⟨bytes, current, readBits⟩ := bb
  have hread : readBits < 8 := h
  simp only [BitBuffer.skipBits]
  split
  · simp only [BitBuffer.mk.injEq, true_and]
    omega
  · simp only [BitBuffer.mk.injEq, true_and]
    omega

/-- The reader is at the end when its current byte does not exist. -/
theorem Valid.rest_eq_nil_iff {bb : BitBuffer} (h : bb.Valid) :
    bb.rest = [] ↔ bb.bytes.length ≤ bb.current := by
  have hread : bb.readBits < 8 := h
  rw [← List.length_eq_zero_iff, length_rest, position]
  omega

theorem Valid.getBit_nil {bb : BitBuffer} (h : bb.Valid) (hrest : bb.rest = []) :
    bb.getBit = (none, bb) := by
  rw [getBit, if_pos (h.rest_eq_nil_iff.mp hrest)]

/-- The bit that the shift and the mask select is the one at the position. -/
theorem Valid.getBit_cons {bb : BitBuffer} {bit : Bool} {tail : List Bool} (h : bb.Valid)
    (hrest : bb.rest = bit :: tail) : bb.getBit = (some bit.toNat, bb.skipBits 1) := by
  have hread : bb.readBits < 8 := h
  have hcurrent : ¬ bb.bytes.length ≤ bb.current := fun hle => by
    rw [h.rest_eq_nil_iff.mpr hle] at hrest
    cases hrest
  have hbit : bit.toNat = (bb.bytes.getD bb.current 0).toNat / 2 ^ (7 - bb.readBits) % 2 := by
    have hdiv : bb.position / 8 = bb.current := by
      rw [position]
      omega
    have hmod : bb.position % 8 = bb.readBits := by
      rw [position]
      omega
    have hhead : (ofBytes bb.bytes)[bb.position]? = some bit := by
      rw [← List.head?_drop]
      exact congrArg List.head? hrest
    rw [getElem?_ofBytes, hdiv, hmod, List.getElem?_eq_getElem (by omega)] at hhead
    rw [← Option.some.inj hhead, Nat.toNat_testBit, List.getD_eq_getElem?_getD,
      List.getElem?_eq_getElem (by omega), Option.getD_some]
  rw [getBit, if_neg hcurrent, h.skipBits_one, hbit]
  dsimp only
  split
  · rfl
  · rfl

/-- `get_bit` with the offset that it dereferences. -/
def getBitLog (bb : BitBuffer) : List BitEvent :=
  if bb.bytes.length ≤ bb.current then [.pastEnd]
  else [.deref bb.current, .shift (7 - bb.readBits)]

/-! ## Several bits -/

/-- The loop of `get_bits`, which has read `done` before. -/
theorem Valid.getBitsLoop_eq {bb : BitBuffer} (h : bb.Valid) {n : Nat} (done : List Bool)
    (hn : done.length + n ≤ 32) :
    getBitsLoop n (ofBits done) bb =
      if n ≤ bb.rest.length then (some (ofBits (done ++ bb.rest.take n)), bb.skipBits n)
      else (none, bb.skipBits bb.rest.length) := by
  induction n generalizing bb done with
  | zero => simp [getBitsLoop, h.skipBits_zero]
  | succ n ih =>
    rw [getBitsLoop]
    cases hrest : bb.rest with
    | nil =>
      rw [h.getBit_nil hrest, if_neg (by simp), List.length_nil, h.skipBits_zero]
    | cons bit tail =>
      have hlt := ofBits_lt (done ++ [bit])
      have hle : 2 ^ (done ++ [bit]).length ≤ 2 ^ 32 := by
        refine Nat.pow_le_pow_right (by decide) ?_
        rw [List.length_append, List.length_singleton]
        omega
      have hacc : (ofBits done * 2 + bit.toNat) % 2 ^ 32 = ofBits (done ++ [bit]) := by
        rw [Nat.mul_comm, ← ofBits_append_singleton]
        exact Nat.mod_eq_of_lt (Nat.lt_of_lt_of_le hlt hle)
      have htail : (bb.skipBits 1).rest = tail := by
        rw [rest_skipBits, hrest, List.drop_succ_cons, List.drop_zero]
      rw [h.getBit_cons hrest]
      dsimp only
      rw [hacc, ih (valid_skipBits 1 bb) (done ++ [bit]) (by
        rw [List.length_append, List.length_singleton]
        omega), htail, skipBits_skipBits, skipBits_skipBits]
      simp only [List.length_cons, Nat.add_le_add_iff_right, List.take_succ_cons,
        List.append_assoc, List.singleton_append, Nat.add_comm 1]

/-- All of at most 32 bits, or the bits that are left and a failure. -/
theorem Valid.getBits_eq {bb : BitBuffer} (h : bb.Valid) (n : Nat) :
    bb.getBits n =
      if min n 32 ≤ bb.rest.length
      then (some (ofBits (bb.rest.take (min n 32))), bb.skipBits (min n 32))
      else (none, bb.skipBits bb.rest.length) :=
  h.getBitsLoop_eq [] (by simp)

/-- The events of the loop of `get_bits`. -/
def getBitsLoopLog : Nat → BitBuffer → List BitEvent
  | 0, _ => []
  | n + 1, bb =>
    bb.getBitLog ++
      match bb.getBit with
      | (none, _) => []
      | (some _, bb) => .shift 1 :: getBitsLoopLog n bb

def getBitsLog (nbits : Nat) (bb : BitBuffer) : List BitEvent :=
  getBitsLoopLog (min nbits 32) bb

end BitBuffer

/-! ## Sequences of calls -/

inductive BitCall
  | skipBits (nbits : Nat)
  | getBit
  | getBits (nbits : Nat)

/-- How far a call skips. -/
def BitCall.skipped : BitCall → Nat
  | .skipBits nbits => nbits
  | _ => 0

/-- The offsets among the events. -/
def derefs (events : List BitEvent) : List Nat :=
  events.filterMap fun event =>
    match event with
    | .deref offset => some offset
    | _ => none

@[simp] theorem derefs_nil : derefs [] = [] := rfl

@[simp] theorem derefs_append (a b : List BitEvent) : derefs (a ++ b) = derefs a ++ derefs b :=
  List.filterMap_append

@[simp] theorem derefs_deref (offset : Nat) (events : List BitEvent) :
    derefs (.deref offset :: events) = offset :: derefs events := rfl

@[simp] theorem derefs_shift (amount : Nat) (events : List BitEvent) :
    derefs (.shift amount :: events) = derefs events := rfl

@[simp] theorem derefs_pastEnd (events : List BitEvent) :
    derefs (.pastEnd :: events) = derefs events := rfl

namespace BitBuffer

/-- The answer of a call, `none` for a failure and for `skip_bits`, which returns nothing. -/
def call (bb : BitBuffer) : BitCall → Option Nat × BitBuffer
  | .skipBits nbits => (none, bb.skipBits nbits)
  | .getBit => bb.getBit
  | .getBits nbits => bb.getBits nbits

def callLog (bb : BitBuffer) : BitCall → List BitEvent
  | .skipBits _ => []
  | .getBit => bb.getBitLog
  | .getBits nbits => bb.getBitsLog nbits

/-- The answers of calls made one after the other. -/
def calls : List BitCall → BitBuffer → List (Option Nat) × BitBuffer
  | [], bb => ([], bb)
  | c :: cs, bb =>
    match bb.call c with
    | (answer, bb) =>
      match calls cs bb with
      | (answers, bb) => (answer :: answers, bb)

def callsLog : List BitCall → BitBuffer → List BitEvent
  | [], _ => []
  | c :: cs, bb => bb.callLog c ++ callsLog cs (bb.call c).2

end BitBuffer

/-- The reader from outside: bits, and a position that may lie past their end. -/
structure BitList where
  bits : List Bool
  position : Nat

namespace BitList

def rest (reader : BitList) : List Bool := reader.bits.drop reader.position

def advance (n : Nat) (reader : BitList) : BitList :=
  { reader with position := reader.position + n }

/-- At most 32 bits are asked for; when they do not all exist, those that do are passed over. -/
def call (reader : BitList) : BitCall → Option Nat × BitList
  | .skipBits nbits => (none, reader.advance nbits)
  | .getBit =>
    match reader.rest with
    | [] => (none, reader)
    | bit :: _ => (some bit.toNat, reader.advance 1)
  | .getBits nbits =>
    if min nbits 32 ≤ reader.rest.length
    then (some (ofBits (reader.rest.take (min nbits 32))), reader.advance (min nbits 32))
    else (none, reader.advance reader.rest.length)

def calls : List BitCall → BitList → List (Option Nat) × BitList
  | [], reader => ([], reader)
  | c :: cs, reader =>
    match reader.call c with
    | (answer, reader) =>
      match calls cs reader with
      | (answers, reader) => (answer :: answers, reader)

end BitList

namespace BitBuffer

/-- The bit list that a reader stands for. -/
def toBitList (bb : BitBuffer) : BitList := ⟨ofBytes bb.bytes, bb.position⟩

@[simp] theorem rest_toBitList (bb : BitBuffer) : bb.toBitList.rest = bb.rest := rfl

@[simp] theorem toBitList_skipBits (n : Nat) (bb : BitBuffer) :
    (bb.skipBits n).toBitList = bb.toBitList.advance n := by
  rw [toBitList, bytes_skipBits, position_skipBits]
  rfl

/-- What a call may do to a buffer: it goes on, by what it skips and one bit for each byte that it
dereferences, all of them in the buffer. -/
structure Advances (skipped : Nat) (events : List BitEvent) (bb after : BitBuffer) : Prop where
  valid : after.Valid
  bytes : after.bytes = bb.bytes
  position : after.position = bb.position + skipped + (derefs events).length
  inside : ∀ offset ∈ derefs events, offset < bb.bytes.length

theorem Advances.refl {bb : BitBuffer} (h : bb.Valid) : Advances 0 [] bb bb :=
  ⟨h, rfl, rfl, by simp⟩

theorem Advances.trans {m n : Nat} {before after : List BitEvent} {a b c : BitBuffer}
    (h₁ : Advances m before a b) (h₂ : Advances n after b c) :
    Advances (m + n) (before ++ after) a c := by
  refine ⟨h₂.valid, h₂.bytes.trans h₁.bytes, ?_, fun offset hoffset => ?_⟩
  · rw [h₂.position, h₁.position, derefs_append, List.length_append]
    omega
  · rw [derefs_append, List.mem_append] at hoffset
    rcases hoffset with hoffset | hoffset
    · exact h₁.inside offset hoffset
    · rw [← h₁.bytes]
      exact h₂.inside offset hoffset

theorem Valid.advances_getBit {bb : BitBuffer} (h : bb.Valid) :
    Advances 0 bb.getBitLog bb bb.getBit.2 := by
  cases hrest : bb.rest with
  | nil =>
    have hend := h.rest_eq_nil_iff.mp hrest
    rw [h.getBit_nil hrest, getBitLog, if_pos hend]
    exact ⟨h, rfl, rfl, by simp⟩
  | cons bit tail =>
    have hcurrent : ¬ bb.bytes.length ≤ bb.current := fun hle => by
      rw [h.rest_eq_nil_iff.mpr hle] at hrest
      cases hrest
    rw [h.getBit_cons hrest, getBitLog, if_neg hcurrent]
    refine ⟨valid_skipBits 1 bb, rfl, position_skipBits 1 bb, fun offset hoffset => ?_⟩
    have hoffset : offset = bb.current := by simpa using hoffset
    omega

theorem Valid.advances_getBitsLoop {bb : BitBuffer} (h : bb.Valid) (n ret : Nat) :
    Advances 0 (getBitsLoopLog n bb) bb (getBitsLoop n ret bb).2 := by
  induction n generalizing bb ret with
  | zero => exact .refl h
  | succ n ih =>
    have hfirst := h.advances_getBit
    rw [getBitsLoopLog, getBitsLoop]
    cases hget : bb.getBit with
    | mk answer after =>
      rw [hget] at hfirst
      cases answer with
      | none =>
        dsimp only
        rw [List.append_nil]
        exact hfirst
      | some bit =>
        have hrest := ih hfirst.valid ((ret * 2 + bit) % 2 ^ 32)
        have hshift : Advances 0 (.shift 1 :: getBitsLoopLog n after) after
            (getBitsLoop n ((ret * 2 + bit) % 2 ^ 32) after).2 :=
          ⟨hrest.valid, hrest.bytes, hrest.position, hrest.inside⟩
        exact hfirst.trans hshift

theorem Valid.advances_call {bb : BitBuffer} (h : bb.Valid) (c : BitCall) :
    Advances c.skipped (bb.callLog c) bb (bb.call c).2 := by
  cases c with
  | skipBits nbits => exact ⟨valid_skipBits nbits bb, rfl,
      position_skipBits nbits bb, by simp [callLog]⟩
  | getBit => exact h.advances_getBit
  | getBits nbits => exact h.advances_getBitsLoop _ _

theorem Valid.advances_calls {bb : BitBuffer} (h : bb.Valid) (cs : List BitCall) :
    Advances (cs.map BitCall.skipped).sum (bb.callsLog cs) bb (bb.calls cs).2 := by
  induction cs generalizing bb with
  | nil => exact .refl h
  | cons c cs ih =>
    have hfirst := h.advances_call c
    rw [List.map_cons, List.sum_cons]
    exact hfirst.trans (ih hfirst.valid)

/-- One call answers as on the bit list, and leaves the two alike. -/
theorem Valid.call_toBitList {bb : BitBuffer} (h : bb.Valid) (c : BitCall) :
    bb.toBitList.call c = ((bb.call c).1, (bb.call c).2.toBitList) := by
  cases c with
  | skipBits nbits => rw [BitList.call, call, toBitList_skipBits]
  | getBit =>
    rw [BitList.call, call, rest_toBitList]
    cases hrest : bb.rest with
    | nil => rw [h.getBit_nil hrest]
    | cons bit tail => rw [h.getBit_cons hrest, toBitList_skipBits]
  | getBits nbits =>
    rw [BitList.call, call, rest_toBitList, h.getBits_eq]
    split
    · rw [toBitList_skipBits]
    · rw [toBitList_skipBits]

theorem Valid.calls_toBitList {bb : BitBuffer} (h : bb.Valid) (cs : List BitCall) :
    bb.toBitList.calls cs = ((bb.calls cs).1, (bb.calls cs).2.toBitList) := by
  induction cs generalizing bb with
  | nil => rfl
  | cons c cs ih =>
    rw [BitList.calls, h.call_toBitList c]
    dsimp only
    rw [ih (h.advances_call c).valid]
    rfl

/-- A reader of `bytes` is where the bits skipped and read have brought it, answers what the bit
list has there, and has read no other bytes. -/
structure AtPosition (bytes : Bytes) (skipped : Nat) (events : List BitEvent) (bb : BitBuffer) :
    Prop where
  /-- Every bit that is read is read from one dereferenced byte. -/
  position_eq : bb.position = skipped + (derefs events).length
  inside : ∀ offset ∈ derefs events, offset < bytes.length
  getBit_eq : bb.getBit.1 = (ofBytes bytes)[bb.position]?.map Bool.toNat
  getBit_none_iff : bb.getBit = (none, bb) ↔ 8 * bytes.length ≤ bb.position
  getBits_eq : ∀ n ≤ 32, (bb.getBits n).1 =
    if n ≤ 8 * bytes.length - bb.position
    then some (ofBits (((ofBytes bytes).drop bb.position).take n)) else none

theorem Valid.getBit_answer {bb : BitBuffer} (h : bb.Valid) :
    bb.getBit.1 = (ofBytes bb.bytes)[bb.position]?.map Bool.toNat := by
  have hhead : (ofBytes bb.bytes)[bb.position]? = bb.rest.head? := by
    rw [rest, List.head?_drop]
  rw [hhead]
  cases hrest : bb.rest with
  | nil => rw [h.getBit_nil hrest, List.head?_nil, Option.map_none]
  | cons bit tail => rw [h.getBit_cons hrest, List.head?_cons, Option.map_some]

theorem Valid.getBit_none_iff {bb : BitBuffer} (h : bb.Valid) :
    bb.getBit = (none, bb) ↔ 8 * bb.bytes.length ≤ bb.position := by
  have hlength := bb.length_rest
  cases hrest : bb.rest with
  | nil =>
    rw [hrest, List.length_nil] at hlength
    exact iff_of_true (h.getBit_nil hrest) (by omega)
  | cons bit tail =>
    rw [hrest, List.length_cons] at hlength
    rw [h.getBit_cons hrest]
    exact iff_of_false (fun hnone => by cases hnone) (by omega)

/-- From the start of a buffer, every sequence of calls is answered as on its bits, and so is the
next call. -/
theorem calls_refine_bitList (bytes : Bytes) (cs : List BitCall) :
    let after := (calls cs ⟨bytes, 0, 0⟩).2
    BitList.calls cs ⟨ofBytes bytes, 0⟩ =
        ((calls cs ⟨bytes, 0, 0⟩).1, ⟨ofBytes bytes, after.position⟩) ∧
      AtPosition bytes (cs.map BitCall.skipped).sum (callsLog cs ⟨bytes, 0, 0⟩) after := by
  intro after
  have hstart : Valid ⟨bytes, 0, 0⟩ := Nat.zero_lt_succ 7
  have hrun : Advances _ _ _ after := hstart.advances_calls cs
  have hbytes : after.bytes = bytes := hrun.bytes
  refine ⟨?_, ?_, hrun.inside, ?_, ?_, fun n hn => ?_⟩
  · have hlist := hstart.calls_toBitList cs
    have hend : after.toBitList = ⟨ofBytes bytes, after.position⟩ := by rw [toBitList, hbytes]
    rwa [hend] at hlist
  · have hposition := hrun.position
    rwa [show position ⟨bytes, 0, 0⟩ = 0 from rfl, Nat.zero_add] at hposition
  · rw [hrun.valid.getBit_answer, hbytes]
  · rw [hrun.valid.getBit_none_iff, hbytes]
  · rw [hrun.valid.getBits_eq, Nat.min_eq_left hn, length_rest, rest, hbytes]
    split
    · rfl
    · rfl

end BitBuffer

end FlvMeta
