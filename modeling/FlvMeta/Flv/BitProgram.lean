import FlvMeta.Flv.ExpGolomb

/-!
# Programs that read bits

A parser of a bit stream as a tree: what it asks for next depends on the answers it got. A program
runs on a buffer, with a log of the events, and walks along a bit string, with a list of the
Exp-Golomb codes that it meets. Both give the same result, and the codes alone tell whether a shift
is out of range (`BitProgram.run_walk`).
-/

namespace FlvMeta

open Bits

/-! ## Codes met in a bit string -/

/-- An Exp-Golomb code, by its leading zeros if all its bits exist. -/
inductive Code
  | whole (zeros : Nat)
  | cut
  deriving DecidableEq

def leadingZeros (bits : List Bool) : Nat := (bits.takeWhile fun bit => !bit).length

/-- The code at the front of a bit string. -/
def codeAt (bits : List Bool) : Code :=
  if leadingZeros bits + 1 + BitBuffer.digits (leadingZeros bits) ≤ bits.length
  then .whole (leadingZeros bits) else .cut

/-- Its value, and what follows it. -/
def readCode (bits : List Bool) : Nat × List Bool :=
  match codeAt bits with
  | .whole zeros =>
    (BitBuffer.ueValue zeros (bits.drop (zeros + 1)),
      bits.drop (zeros + 1 + BitBuffer.digits zeros))
  | .cut => (0, [])

theorem leadingZeros_one (k : Nat) (tail : List Bool) :
    leadingZeros (List.replicate k false ++ true :: tail) = k := by
  induction k with
  | zero => rfl
  | succ k ih => exact congrArg (· + 1) ih

theorem leadingZeros_zeros (n : Nat) : leadingZeros (List.replicate n false) = n := by
  induction n with
  | zero => rfl
  | succ n ih => exact congrArg (· + 1) ih

theorem codeAt_zeros {bits : List Bool} (h : bits = List.replicate bits.length false) :
    codeAt bits = .cut := by
  have hz : leadingZeros bits = bits.length := by
    rw [h, leadingZeros_zeros, List.length_replicate]
  rw [codeAt, hz, if_neg (by omega)]

theorem codeAt_one (k : Nat) (tail : List Bool) :
    codeAt (List.replicate k false ++ true :: tail) =
      if BitBuffer.digits k ≤ tail.length then .whole k else .cut := by
  rw [codeAt, leadingZeros_one, List.length_append, List.length_replicate, List.length_cons]
  by_cases hfit : BitBuffer.digits k ≤ tail.length
  · rw [if_pos (by omega), if_pos hfit]
  · rw [if_neg (by omega), if_neg hfit]

theorem drop_one (k n : Nat) (tail : List Bool) :
    (List.replicate k false ++ true :: tail).drop (k + 1 + n) = tail.drop n := by
  rw [List.drop_append, List.drop_of_length_le (by simp; omega), List.length_replicate,
    List.nil_append, show k + 1 + n - k = n + 1 from by omega, List.drop_succ_cons]

namespace BitBuffer

/-- `exp_golomb_ue` returns the value of the code at the reader, and leaves what follows it. -/
theorem Valid.expGolombUe_eq {bb : BitBuffer} (h : bb.Valid) :
    bb.expGolombUe.2.Valid ∧ bb.expGolombUe.1 = (readCode bb.rest).1 ∧
      bb.expGolombUe.2.rest = (readCode bb.rest).2 := by
  rcases zeros_or_one bb.rest with hzeros | ⟨k, tail, hone⟩
  · rw [h.expGolombUe_zeros hzeros, readCode, codeAt_zeros hzeros, rest_skipBits, List.drop_length]
    exact ⟨valid_skipBits _ bb, rfl, rfl⟩
  · rw [h.expGolombUe_one hone, readCode, hone, codeAt_one]
    by_cases hfit : digits k ≤ tail.length
    · rw [if_pos hfit, if_pos hfit, rest_skipBits, hone]
      refine ⟨valid_skipBits _ bb, ?_, rfl⟩
      dsimp only
      rw [drop_one k 0, List.drop_zero]
    · rw [if_neg hfit, if_neg hfit, rest_skipBits, hone, List.drop_length]
      exact ⟨valid_skipBits _ bb, rfl, rfl⟩

/-! ## Events of a code -/

/-- The events of the first loop of `exp_golomb_ue`, which counts in 8 bits. -/
def significantBitsLog : Nat → Nat → BitBuffer → List BitEvent
  | 0, _, _ => []
  | fuel + 1, count, bb =>
    bb.getBitLog ++
      match bb.getBit with
      | (none, _) => []
      | (some bit, bb) =>
        if bit = 0 then
          (if count = 2 ^ 8 - 1 then [.wrap] else []) ++
            significantBitsLog fuel ((count + 1) % 2 ^ 8) bb
        else []

/-- The sum and the difference after the shift do not leave their type when the shift does not. -/
def expGolombUeLog (bb : BitBuffer) : List BitEvent :=
  bb.significantBitsLog (8 * bb.bytes.length + 1) 0 ++
    match bb.significantBits (8 * bb.bytes.length + 1) 0 with
    | (none, _) => []
    | (some count, bb) =>
      bb.getBitsLog count ++
        match bb.getBits count with
        | (none, _) => []
        | (some _, _) => [.shift count]

def skipBitsLog (nbits : Nat) (bb : BitBuffer) : List BitEvent :=
  if 8 * bb.bytes.length < bb.position + nbits then [.pastEnd] else []

end BitBuffer

/-- No shift is by the width of its type or more. -/
def ShiftsInRange (events : List BitEvent) : Prop :=
  ∀ amount, .shift amount ∈ events → amount < 32

@[simp] theorem shiftsInRange_nil : ShiftsInRange [] := by simp [ShiftsInRange]

@[simp] theorem shiftsInRange_append (a b : List BitEvent) :
    ShiftsInRange (a ++ b) ↔ ShiftsInRange a ∧ ShiftsInRange b := by
  simp [ShiftsInRange, or_imp, forall_and]

@[simp] theorem shiftsInRange_shift (amount : Nat) (events : List BitEvent) :
    ShiftsInRange (.shift amount :: events) ↔ amount < 32 ∧ ShiftsInRange events := by
  simp [ShiftsInRange, or_imp, forall_and]

@[simp] theorem shiftsInRange_deref (offset : Nat) (events : List BitEvent) :
    ShiftsInRange (.deref offset :: events) ↔ ShiftsInRange events := by
  simp [ShiftsInRange]

@[simp] theorem shiftsInRange_pastEnd (events : List BitEvent) :
    ShiftsInRange (.pastEnd :: events) ↔ ShiftsInRange events := by
  simp [ShiftsInRange]

@[simp] theorem shiftsInRange_wrap (events : List BitEvent) :
    ShiftsInRange (.wrap :: events) ↔ ShiftsInRange events := by
  simp [ShiftsInRange]

namespace BitBuffer

theorem shiftsInRange_getBitLog (bb : BitBuffer) : ShiftsInRange bb.getBitLog := by
  unfold getBitLog
  split
  · simp
  · simp only [shiftsInRange_deref, shiftsInRange_shift, shiftsInRange_nil, and_true]
    omega

theorem wrap_notMem_getBitLog (bb : BitBuffer) : .wrap ∉ bb.getBitLog := by
  unfold getBitLog
  split
  · simp
  · simp

theorem Valid.pastEnd_mem_getBitLog {bb : BitBuffer} (h : bb.Valid) :
    .pastEnd ∈ bb.getBitLog ↔ bb.rest = [] := by
  rw [h.rest_eq_nil_iff]
  unfold getBitLog
  by_cases hend : bb.bytes.length ≤ bb.current
  · simp [hend]
  · simp [hend]

/-- What several bits log: only that they do not all exist. -/
theorem Valid.getBitsLoopLog_spec {bb : BitBuffer} (h : bb.Valid) (n : Nat) :
    ShiftsInRange (getBitsLoopLog n bb) ∧ .wrap ∉ getBitsLoopLog n bb ∧
      (.pastEnd ∈ getBitsLoopLog n bb ↔ bb.rest.length < n) := by
  induction n generalizing bb with
  | zero => simp [getBitsLoopLog]
  | succ n ih =>
    have hshift := bb.shiftsInRange_getBitLog
    have hwrap := bb.wrap_notMem_getBitLog
    have hpast := h.pastEnd_mem_getBitLog
    rw [getBitsLoopLog]
    cases hrest : bb.rest with
    | nil =>
      rw [h.getBit_nil hrest]
      simp [hshift, hwrap, hpast, hrest]
    | cons bit tail =>
      have htail : (bb.skipBits 1).rest.length = tail.length := by
        rw [rest_skipBits, hrest, List.drop_succ_cons, List.drop_zero]
      obtain ⟨ihShift, ihWrap, ihPast⟩ := ih (valid_skipBits 1 bb)
      rw [htail] at ihPast
      rw [h.getBit_cons hrest]
      simp [hshift, hwrap, hpast, hrest, ihShift, ihWrap, ihPast]

/-- A zero is counted, or the count starts again. -/
theorem Valid.significantBitsLog_false {bb : BitBuffer} (h : bb.Valid) {tail : List Bool}
    (hrest : bb.rest = false :: tail) (fuel count : Nat) :
    significantBitsLog (fuel + 1) count bb =
      bb.getBitLog ++ ((if count = 2 ^ 8 - 1 then [.wrap] else []) ++
        significantBitsLog fuel ((count + 1) % 2 ^ 8) (bb.skipBits 1)) := by
  rw [significantBitsLog, h.getBit_cons hrest]
  rfl

/-- The counter of zeros wraps around when there are more than it can hold. -/
theorem Valid.significantBitsLog_one {bb : BitBuffer} (h : bb.Valid) {k : Nat} (fuel count : Nat)
    {tail : List Bool} (hrest : bb.rest = List.replicate k false ++ true :: tail)
    (hfuel : k < fuel) (hcount : count < 2 ^ 8) :
    ShiftsInRange (significantBitsLog fuel count bb) ∧
      .pastEnd ∉ significantBitsLog fuel count bb ∧
      (.wrap ∈ significantBitsLog fuel count bb ↔ 2 ^ 8 ≤ count + k) := by
  induction k generalizing fuel count bb with
  | zero =>
    obtain ⟨fuel, rfl⟩ := Nat.exists_eq_succ_of_ne_zero (Nat.ne_of_gt hfuel)
    have hcons : bb.rest = true :: tail := hrest
    have hlog : significantBitsLog (fuel + 1) count bb = bb.getBitLog := by
      rw [significantBitsLog, h.getBit_cons hcons]
      exact List.append_nil _
    rw [hlog, h.pastEnd_mem_getBitLog, hcons]
    exact ⟨bb.shiftsInRange_getBitLog, by simp, iff_of_false bb.wrap_notMem_getBitLog (by omega)⟩
  | succ k ih =>
    obtain ⟨fuel, rfl⟩ := Nat.exists_eq_succ_of_ne_zero (Nat.ne_of_gt (Nat.zero_lt_of_lt hfuel))
    have hcons : bb.rest = false :: (List.replicate k false ++ true :: tail) := hrest
    have hnext : (bb.skipBits 1).rest = List.replicate k false ++ true :: tail := by
      rw [rest_skipBits, hcons, List.drop_succ_cons, List.drop_zero]
    have hpast : .pastEnd ∉ bb.getBitLog := by simp [h.pastEnd_mem_getBitLog, hcons]
    obtain ⟨ihShift, ihPast, ihWrap⟩ := ih (valid_skipBits 1 bb) fuel ((count + 1) % 2 ^ 8) hnext
      (by omega)
      (Nat.mod_lt (count + 1) (by decide))
    rw [h.significantBitsLog_false hcons]
    by_cases hfull : count = 2 ^ 8 - 1
    · rw [if_pos hfull, shiftsInRange_append, shiftsInRange_append, List.mem_append,
        List.mem_append]
      refine ⟨⟨bb.shiftsInRange_getBitLog, by simp, ihShift⟩,
        not_or_intro hpast (not_or_intro (by simp) ihPast), ?_⟩
      exact iff_of_true (by simp) (by omega)
    · rw [if_neg hfull, List.nil_append, shiftsInRange_append, List.mem_append, List.mem_append,
        or_iff_right bb.wrap_notMem_getBitLog, ihWrap]
      exact ⟨⟨bb.shiftsInRange_getBitLog, ihShift⟩, not_or_intro hpast ihPast, by omega⟩

/-- Without a one the end is reached. -/
theorem Valid.significantBitsLog_zeros {bb : BitBuffer} (h : bb.Valid) (fuel count : Nat)
    (hrest : bb.rest = List.replicate bb.rest.length false) (hfuel : bb.rest.length < fuel) :
    ShiftsInRange (significantBitsLog fuel count bb) ∧
      .pastEnd ∈ significantBitsLog fuel count bb := by
  induction hn : bb.rest.length generalizing fuel count bb with
  | zero =>
    obtain ⟨fuel, rfl⟩ := Nat.exists_eq_succ_of_ne_zero (Nat.ne_of_gt (Nat.zero_lt_of_lt hfuel))
    have hnil := List.length_eq_zero_iff.mp hn
    have hlog : significantBitsLog (fuel + 1) count bb = bb.getBitLog := by
      rw [significantBitsLog, h.getBit_nil hnil]
      exact List.append_nil _
    rw [hlog, h.pastEnd_mem_getBitLog]
    exact ⟨bb.shiftsInRange_getBitLog, hnil⟩
  | succ n ih =>
    obtain ⟨fuel, rfl⟩ := Nat.exists_eq_succ_of_ne_zero (Nat.ne_of_gt (Nat.zero_lt_of_lt hfuel))
    have hcons : bb.rest = false :: List.replicate n false := by
      rw [hrest, hn, List.replicate_succ]
    have hnext : (bb.skipBits 1).rest = List.replicate n false := by
      rw [rest_skipBits, hcons, List.drop_succ_cons, List.drop_zero]
    have hlen : (bb.skipBits 1).rest.length = n := by rw [hnext, List.length_replicate]
    obtain ⟨ihShift, ihPast⟩ := ih (valid_skipBits 1 bb) fuel ((count + 1) % 2 ^ 8)
      (by rw [hlen, hnext]) (by omega) hlen
    rw [h.significantBitsLog_false hcons]
    refine ⟨?_, List.mem_append_right _ (List.mem_append_right _ ihPast)⟩
    rw [shiftsInRange_append, shiftsInRange_append]
    refine ⟨bb.shiftsInRange_getBitLog, ?_, ihShift⟩
    split
    · simp
    · simp

/-- What the code at the reader tells about the events of reading it. -/
structure CodeEvents (code : Code) (events : List BitEvent) : Prop where
  shiftsInRange_iff : ShiftsInRange events ↔ ∀ zeros, code = .whole zeros → zeros % 2 ^ 8 < 32
  pastEnd_mem_iff : .pastEnd ∈ events ↔ code = .cut
  wrap_mem_iff : ∀ zeros, code = .whole zeros → (.wrap ∈ events ↔ 2 ^ 8 ≤ zeros)

theorem Valid.codeEvents {bb : BitBuffer} (h : bb.Valid) :
    CodeEvents (codeAt bb.rest) bb.expGolombUeLog := by
  rcases zeros_or_one bb.rest with hzeros | ⟨k, tail, hone⟩
  · obtain ⟨hshift, hpast⟩ := h.significantBitsLog_zeros _ 0 hzeros bb.rest_length_lt
    rw [codeAt_zeros hzeros, expGolombUeLog, h.significantBits_zeros hzeros bb.rest_length_lt,
      List.append_nil]
    exact ⟨iff_of_true hshift (by simp), iff_of_true hpast rfl, by simp⟩
  · have hk : k < 8 * bb.bytes.length + 1 := by
      have hlt := bb.rest_length_lt
      rw [hone, List.length_append, List.length_replicate] at hlt
      omega
    have hnext : (bb.skipBits (k + 1)).rest = tail := by
      rw [rest_skipBits, hone]
      exact drop_one k 0 tail
    have hvalid := valid_skipBits (k + 1) bb
    obtain ⟨hshift, hpast, hwrap⟩ := h.significantBitsLog_one _ 0 hone hk (by decide)
    obtain ⟨digitsShift, digitsWrap, digitsPast⟩ := hvalid.getBitsLoopLog_spec (min (k % 2 ^ 8) 32)
    rw [Nat.zero_add] at hwrap
    rw [hnext] at digitsPast
    rw [hone, codeAt_one, expGolombUeLog, h.significantBits_one hone hk (by decide), Nat.zero_add]
    dsimp only
    rw [hvalid.getBits_eq, hnext, getBitsLog, show min (k % 2 ^ 8) 32 = digits k from rfl]
    rw [show min (k % 2 ^ 8) 32 = digits k from rfl] at digitsShift digitsWrap digitsPast
    by_cases hfit : digits k ≤ tail.length
    · rw [if_pos hfit, if_pos hfit]
      refine ⟨?_, ?_, ?_⟩
      · simp [hshift, digitsShift]
      · simp [hpast, digitsPast, hfit]
      · rintro zeros ⟨⟩
        simp [hwrap, digitsWrap]
    · rw [if_neg hfit, if_neg hfit]
      refine ⟨?_, ?_, ?_⟩
      · simp [hshift, digitsShift]
      · simp [digitsPast, Nat.lt_of_not_le hfit]
      · simp

end BitBuffer

/-! ## Programs -/

/-- A parser of bits: results, and what it asks for next given the answers so far. -/
inductive BitProgram (α : Type)
  | done (a : α)
  | skipBits (nbits : Nat) (next : BitProgram α)
  | getBit (next : Option Nat → BitProgram α)
  | getBits (nbits : Nat) (next : Option Nat → BitProgram α)
  | expGolombUe (next : Nat → BitProgram α)

namespace BitProgram

variable {α β : Type}

def bind : BitProgram α → (α → BitProgram β) → BitProgram β
  | done a, f => f a
  | skipBits nbits next, f => skipBits nbits (bind next f)
  | getBit next, f => getBit fun answer => bind (next answer) f
  | getBits nbits next, f => getBits nbits fun answer => bind (next answer) f
  | expGolombUe next, f => expGolombUe fun value => bind (next value) f

/-- On a buffer, by the functions of the reader. -/
def run : BitProgram α → BitBuffer → α × BitBuffer
  | done a, bb => (a, bb)
  | skipBits nbits next, bb => next.run (bb.skipBits nbits)
  | getBit next, bb => (next bb.getBit.1).run bb.getBit.2
  | getBits nbits next, bb => (next (bb.getBits nbits).1).run (bb.getBits nbits).2
  | expGolombUe next, bb => (next bb.expGolombUe.1).run bb.expGolombUe.2

def log : BitProgram α → BitBuffer → List BitEvent
  | done _, _ => []
  | skipBits nbits next, bb => bb.skipBitsLog nbits ++ next.log (bb.skipBits nbits)
  | getBit next, bb => bb.getBitLog ++ (next bb.getBit.1).log bb.getBit.2
  | getBits nbits next, bb =>
    bb.getBitsLog nbits ++ (next (bb.getBits nbits).1).log (bb.getBits nbits).2
  | expGolombUe next, bb => bb.expGolombUeLog ++ (next bb.expGolombUe.1).log bb.expGolombUe.2

/-- Along a bit string. -/
def walk : BitProgram α → List Bool → α × List Bool
  | done a, bits => (a, bits)
  | skipBits nbits next, bits => next.walk (bits.drop nbits)
  | getBit next, bits => (next (bits.head?.map Bool.toNat)).walk (bits.drop 1)
  | getBits nbits next, bits =>
    if min nbits 32 ≤ bits.length
    then (next (some (ofBits (bits.take (min nbits 32))))).walk (bits.drop (min nbits 32))
    else (next none).walk []
  | expGolombUe next, bits => (next (readCode bits).1).walk (readCode bits).2

/-- The Exp-Golomb codes on the way. -/
def codes : BitProgram α → List Bool → List Code
  | done _, _ => []
  | skipBits nbits next, bits => next.codes (bits.drop nbits)
  | getBit next, bits => (next (bits.head?.map Bool.toNat)).codes (bits.drop 1)
  | getBits nbits next, bits =>
    if min nbits 32 ≤ bits.length
    then (next (some (ofBits (bits.take (min nbits 32))))).codes (bits.drop (min nbits 32))
    else (next none).codes []
  | expGolombUe next, bits => codeAt bits :: (next (readCode bits).1).codes (readCode bits).2

theorem run_bind (p : BitProgram α) (f : α → BitProgram β) (bb : BitBuffer) :
    (p.bind f).run bb = (f (p.run bb).1).run (p.run bb).2 := by
  induction p generalizing bb with
  | done a => rfl
  | skipBits nbits next ih => exact ih _
  | getBit next ih => exact ih _ _
  | getBits nbits next ih => exact ih _ _
  | expGolombUe next ih => exact ih _ _

theorem log_bind (p : BitProgram α) (f : α → BitProgram β) (bb : BitBuffer) :
    (p.bind f).log bb = p.log bb ++ (f (p.run bb).1).log (p.run bb).2 := by
  induction p generalizing bb with
  | done a => rfl
  | skipBits nbits next ih => exact (congrArg _ (ih _)).trans (List.append_assoc ..).symm
  | getBit next ih => exact (congrArg _ (ih _ _)).trans (List.append_assoc ..).symm
  | getBits nbits next ih => exact (congrArg _ (ih _ _)).trans (List.append_assoc ..).symm
  | expGolombUe next ih => exact (congrArg _ (ih _ _)).trans (List.append_assoc ..).symm

theorem codes_bind (p : BitProgram α) (f : α → BitProgram β) (bits : List Bool) :
    (p.bind f).codes bits = p.codes bits ++ (f (p.walk bits).1).codes (p.walk bits).2 := by
  induction p generalizing bits with
  | done a => rfl
  | skipBits nbits next ih => exact ih _
  | getBit next ih => exact ih _ _
  | getBits nbits next ih =>
    rw [bind, codes, codes, walk]
    split
    · exact ih _ _
    · exact ih _ _
  | expGolombUe next ih => exact congrArg _ (ih _ _)

end BitProgram

/-! ## Both ways agree -/

/-- From `bb` the reader came to `after`, whose bits are `rest`; the codes that were met tell about
the events. -/
structure ReadsBits (bb after : BitBuffer) (rest : List Bool) (events : List BitEvent)
    (codes : List Code) : Prop where
  valid : after.Valid
  rest_eq : after.rest = rest
  /-- There is no way back from the end. -/
  rest_nil : bb.rest = [] → rest = []
  shiftsInRange_iff :
    ShiftsInRange events ↔ ∀ zeros, .whole zeros ∈ codes → zeros % 2 ^ 8 < 32
  pastEnd_of_cut : .cut ∈ codes → .pastEnd ∈ events
  rest_of_pastEnd : .pastEnd ∈ events → rest = []
  wrap_iff : .cut ∉ codes → (.wrap ∈ events ↔ ∃ zeros, 2 ^ 8 ≤ zeros ∧ .whole zeros ∈ codes)

namespace ReadsBits

theorem refl {bb : BitBuffer} (h : bb.Valid) : ReadsBits bb bb bb.rest [] [] :=
  ⟨h, rfl, id, by simp, by simp, by simp, by simp⟩

theorem trans {a b c : BitBuffer} {restB restC : List Bool} {before after : List BitEvent}
    {met more : List Code} (h₁ : ReadsBits a b restB before met)
    (h₂ : ReadsBits b c restC after more) :
    ReadsBits a c restC (before ++ after) (met ++ more) := by
  refine ⟨h₂.valid, h₂.rest_eq, fun hnil => h₂.rest_nil (h₁.rest_eq.trans (h₁.rest_nil hnil)),
    ?_, ?_, ?_, ?_⟩
  · rw [shiftsInRange_append, h₁.shiftsInRange_iff, h₂.shiftsInRange_iff]
    simp only [List.mem_append, or_imp, forall_and]
  · intro hcut
    rcases List.mem_append.mp hcut with hcut | hcut
    · exact List.mem_append_left _ (h₁.pastEnd_of_cut hcut)
    · exact List.mem_append_right _ (h₂.pastEnd_of_cut hcut)
  · intro hpast
    rcases List.mem_append.mp hpast with hpast | hpast
    · exact h₂.rest_nil (h₁.rest_eq.trans (h₁.rest_of_pastEnd hpast))
    · exact h₂.rest_of_pastEnd hpast
  · intro hcut
    rw [List.mem_append, not_or] at hcut
    rw [List.mem_append, h₁.wrap_iff hcut.1, h₂.wrap_iff hcut.2]
    simp only [List.mem_append, and_or_left, exists_or]

end ReadsBits

namespace BitBuffer

theorem reads_skipBits (bb : BitBuffer) (n : Nat) :
    ReadsBits bb (bb.skipBits n) (bb.rest.drop n) (bb.skipBitsLog n) [] := by
  have hlength := bb.length_rest
  refine ⟨valid_skipBits n bb, rest_skipBits n bb, fun hnil => by rw [hnil, List.drop_nil],
    ?_, by simp, ?_, ?_⟩
  · unfold skipBitsLog
    split
    · simp
    · simp
  · unfold skipBitsLog
    split
    · intro _
      exact List.drop_of_length_le (by omega)
    · simp
  · unfold skipBitsLog
    split
    · simp
    · simp

theorem Valid.reads_getBit {bb : BitBuffer} (h : bb.Valid) :
    bb.getBit.1 = bb.rest.head?.map Bool.toNat ∧
      ReadsBits bb bb.getBit.2 (bb.rest.drop 1) bb.getBitLog [] := by
  have hpast := h.pastEnd_mem_getBitLog
  cases hrest : bb.rest with
  | nil =>
    rw [h.getBit_nil hrest]
    refine ⟨rfl, h, hrest, fun _ => rfl, ?_, by simp, fun _ => rfl, ?_⟩
    · exact iff_of_true bb.shiftsInRange_getBitLog (by simp)
    · simp [bb.wrap_notMem_getBitLog]
  | cons bit tail =>
    rw [h.getBit_cons hrest]
    refine ⟨rfl, valid_skipBits 1 bb, ?_, fun hnil => ?_, ?_, by simp, fun hmem => ?_, ?_⟩
    · rw [rest_skipBits, hrest]
    · rw [hrest] at hnil
      cases hnil
    · exact iff_of_true bb.shiftsInRange_getBitLog (by simp)
    · rw [hpast, hrest] at hmem
      cases hmem
    · simp [bb.wrap_notMem_getBitLog]

theorem Valid.reads_getBits {bb : BitBuffer} (h : bb.Valid) (n : Nat) :
    ReadsBits bb (bb.getBits n).2
      (if min n 32 ≤ bb.rest.length then bb.rest.drop (min n 32) else [])
      (bb.getBitsLog n) [] := by
  obtain ⟨hshift, hwrap, hpast⟩ := h.getBitsLoopLog_spec (min n 32)
  rw [h.getBits_eq, getBitsLog]
  by_cases hfit : min n 32 ≤ bb.rest.length
  · rw [if_pos hfit, if_pos hfit]
    refine ⟨valid_skipBits _ bb, rest_skipBits _ bb, fun hnil => by rw [hnil, List.drop_nil],
      iff_of_true hshift (by simp), by simp, fun hmem => ?_, by simp [hwrap]⟩
    rw [hpast] at hmem
    omega
  · rw [if_neg hfit, if_neg hfit]
    refine ⟨valid_skipBits _ bb, ?_, fun _ => rfl, iff_of_true hshift (by simp), by simp,
      fun _ => rfl, by simp [hwrap]⟩
    rw [rest_skipBits, List.drop_length]

theorem Valid.reads_expGolombUe {bb : BitBuffer} (h : bb.Valid) :
    ReadsBits bb bb.expGolombUe.2 (readCode bb.rest).2 bb.expGolombUeLog [codeAt bb.rest] := by
  obtain ⟨hvalid, -, hrest⟩ := h.expGolombUe_eq
  have hevents := h.codeEvents
  refine ⟨hvalid, hrest, fun hnil => ?_, ?_, fun hcut => ?_, fun hpast => ?_, fun hcut => ?_⟩
  · rw [hnil]
    rfl
  · rw [hevents.shiftsInRange_iff]
    simp only [List.mem_singleton, eq_comm]
  · rw [List.mem_singleton] at hcut
    exact hevents.pastEnd_mem_iff.mpr hcut.symm
  · rw [readCode, hevents.pastEnd_mem_iff.mp hpast]
  · rw [List.mem_singleton] at hcut
    cases hcode : codeAt bb.rest with
    | cut => exact absurd hcode.symm hcut
    | whole zeros =>
      rw [hevents.wrap_mem_iff zeros hcode]
      simp

end BitBuffer

namespace BitProgram

/-- A program has the same result on a buffer and along its bits. -/
theorem run_walk {α : Type} (p : BitProgram α) {bb : BitBuffer} (h : bb.Valid) :
    (p.run bb).1 = (p.walk bb.rest).1 ∧
      ReadsBits bb (p.run bb).2 (p.walk bb.rest).2 (p.log bb) (p.codes bb.rest) := by
  induction p generalizing bb with
  | done a => exact ⟨rfl, .refl h⟩
  | skipBits nbits next ih =>
    have hfirst := bb.reads_skipBits nbits
    obtain ⟨hresult, hreads⟩ := ih hfirst.valid
    rw [hfirst.rest_eq] at hresult hreads
    exact ⟨hresult, hfirst.trans hreads⟩
  | getBit next ih =>
    obtain ⟨hanswer, hfirst⟩ := h.reads_getBit
    obtain ⟨hresult, hreads⟩ := ih bb.getBit.1 hfirst.valid
    rw [hfirst.rest_eq, hanswer] at hresult hreads
    rw [run, log, hanswer]
    exact ⟨hresult, hfirst.trans hreads⟩
  | getBits nbits next ih =>
    have hfirst := h.reads_getBits nbits
    obtain ⟨hresult, hreads⟩ := ih (bb.getBits nbits).1 hfirst.valid
    rw [hfirst.rest_eq] at hresult hreads
    rw [run, log, walk, codes]
    by_cases hfit : min nbits 32 ≤ bb.rest.length
    · rw [if_pos hfit] at hfirst hresult hreads
      rw [if_pos hfit, if_pos hfit]
      rw [h.getBits_eq, if_pos hfit] at hfirst hresult hreads ⊢
      exact ⟨hresult, hfirst.trans hreads⟩
    · rw [if_neg hfit] at hfirst hresult hreads
      rw [if_neg hfit, if_neg hfit]
      rw [h.getBits_eq, if_neg hfit] at hfirst hresult hreads ⊢
      exact ⟨hresult, hfirst.trans hreads⟩
  | expGolombUe next ih =>
    obtain ⟨-, hanswer, -⟩ := h.expGolombUe_eq
    have hfirst := h.reads_expGolombUe
    obtain ⟨hresult, hreads⟩ := ih bb.expGolombUe.1 hfirst.valid
    rw [hfirst.rest_eq, hanswer] at hresult hreads
    rw [run, log, hanswer]
    exact ⟨hresult, hfirst.trans hreads⟩

end BitProgram

end FlvMeta
