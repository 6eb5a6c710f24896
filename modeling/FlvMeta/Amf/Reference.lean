import FlvMeta.Amf.Sound

/-!
# The reference encoding

`referenceBytes` is the AMF0 encoding of a value: a type byte, numbers and lengths in network order,
objects closed by `00 00 09`, and a 32-bit count in front of an array, of its elements, and of an
associative array, of its pairs. There is none for a value with more elements or pairs than
the count holds. `amf_data_write` halves the count of the nodes of an associative array after it has
swapped its bytes, so it agrees only where the halving moves no bit from one byte to another
(`canonical_iff`).
-/

namespace FlvMeta

open Endian

variable {N : Type} [NumberImage N]

/-! ## The encoding -/

mutual

def referenceBytes : AmfData N → Option Bytes
  | .number x => some (0x00 :: toBE 8 (NumberImage.bits x).toNat)
  | .boolean b => some [0x01, b]
  | .string s => some (0x02 :: (toBE 2 s.size ++ s.bytes))
  | .object list => do
    let entries ← referenceEntries list
    return 0x03 :: (entries ++ [0x00, 0x00, 0x09])
  | .null _ => some [0x05]
  | .undefined => some [0x06]
  | .associativeArray list => do
    let entries ← referenceEntries list
    if list.length / 2 < 2 ^ 32 then
      return 0x08 :: (toBE 4 (list.length / 2) ++ (entries ++ [0x00, 0x00, 0x09]))
    else none
  | .array list => do
    let elements ← referenceElements list
    if list.length < 2 ^ 32 then return 0x0A :: (toBE 4 list.length ++ elements) else none
  | .date milliseconds timezone =>
    some (0x0B :: (toBE 8 (NumberImage.bits milliseconds).toNat ++ toBE 2 timezone.toNat))
  | _ => none

/-- The pairs of an object. -/
def referenceEntries : List (AmfData N) → Option Bytes
  | [] => some []
  | .string name :: value :: rest => do
    let valueBytes ← referenceBytes value
    let restBytes ← referenceEntries rest
    return toBE 2 name.size ++ name.bytes ++ (valueBytes ++ restBytes)
  | _ => none

/-- The elements of an array. -/
def referenceElements : List (AmfData N) → Option Bytes
  | [] => some []
  | element :: rest => do
    let elementBytes ← referenceBytes element
    let restBytes ← referenceElements rest
    return elementBytes ++ restBytes

end

mutual

/-- The reference encoding is as long as `amf_data_size` says. -/
theorem length_referenceBytes (data : AmfData N) {bs : Bytes} (h : referenceBytes data = some bs) :
    bs.length = amfDataSize data := by
  cases data with
  | nullPtr => simp [referenceBytes] at h
  | other type => simp [referenceBytes] at h
  | object list =>
    simp only [referenceBytes, Option.bind_eq_bind, Option.bind_eq_some_iff, Option.pure_def,
      Option.some.injEq] at h
    obtain ⟨entries, hentries, rfl⟩ := h
    have hlength := length_referenceEntries list hentries
    simp [amfDataSize, hlength]
    omega
  | associativeArray list =>
    simp only [referenceBytes, Option.bind_eq_bind, Option.bind_eq_some_iff] at h
    obtain ⟨entries, hentries, h⟩ := h
    have hlength := length_referenceEntries list hentries
    split at h
    · cases h
      simp [amfDataSize, hlength]
      omega
    · cases h
  | array list =>
    simp only [referenceBytes, Option.bind_eq_bind, Option.bind_eq_some_iff] at h
    obtain ⟨elements, helements, h⟩ := h
    have hlength := length_referenceElements list helements
    split at h
    · cases h
      simp [amfDataSize, hlength]
      omega
    · cases h
  | string s =>
    simp only [referenceBytes, Option.some.injEq] at h
    subst h
    simp [amfDataSize, AmfString.size]
    omega
  | _ =>
    simp only [referenceBytes, Option.some.injEq] at h
    subst h
    simp [amfDataSize]

theorem length_referenceEntries (list : List (AmfData N)) {bs : Bytes}
    (h : referenceEntries list = some bs) : bs.length = amfPairsSize list :=
  match list, h with
  | [], h => by
    cases h
    rfl
  | [name], h => by
    cases name <;> simp [referenceEntries] at h
  | name :: value :: rest, h => by
    cases name with
    | string name =>
      simp only [referenceEntries, Option.bind_eq_bind, Option.bind_eq_some_iff, Option.pure_def,
        Option.some.injEq] at h
      obtain ⟨valueBytes, hvalue, restBytes, hrest, rfl⟩ := h
      have hvalueLength := length_referenceBytes value hvalue
      have hrestLength := length_referenceEntries rest hrest
      simp [amfPairsSize, amfStringGetSize, AmfData.stringData, AmfString.size, hvalueLength,
        hrestLength]
      omega
    | _ => simp [referenceEntries] at h

theorem length_referenceElements (list : List (AmfData N)) {bs : Bytes}
    (h : referenceElements list = some bs) : bs.length = amfElementsSize list :=
  match list, h with
  | [], h => by
    cases h
    rfl
  | element :: rest, h => by
    simp only [referenceElements, Option.bind_eq_bind, Option.bind_eq_some_iff, Option.pure_def,
      Option.some.injEq] at h
    obtain ⟨elementBytes, helement, restBytes, hrest, rfl⟩ := h
    have helementLength := length_referenceBytes element helement
    have hrestLength := length_referenceElements rest hrest
    simp [amfElementsSize, helementLength, hrestLength]

end

/-! ## Counts -/

/-- The number with these four digits, the least significant first. -/
def ofDigits (a b c d : Nat) : Nat := a + 256 * (b + 256 * (c + 256 * d))

theorem toLE_ofDigits {a b c d : Nat} (ha : a < 256) (hb : b < 256) (hc : c < 256) (hd : d < 256) :
    toLE 4 (ofDigits a b c d) =
      [UInt8.ofNat a, UInt8.ofNat b, UInt8.ofNat c, UInt8.ofNat d] := by
  have hof : ofLE [UInt8.ofNat a, UInt8.ofNat b, UInt8.ofNat c, UInt8.ofNat d] =
      ofDigits a b c d := by
    simp only [ofLE, UInt8.toNat_ofNat', Nat.reducePow, Nat.mod_eq_of_lt ha, Nat.mod_eq_of_lt hb,
      Nat.mod_eq_of_lt hc, Nat.mod_eq_of_lt hd, ofDigits]
    omega
  rw [← hof]
  exact toLE_ofLE [_, _, _, _]

theorem swapUint32_ofDigits {a b c d : Nat} (ha : a < 256) (hb : b < 256) (hc : c < 256)
    (hd : d < 256) : swapUint32 (ofDigits a b c d) = ofDigits d c b a := by
  rw [swapUint32, toLE_ofDigits ha hb hc hd]
  simp only [List.reverse_cons, List.reverse_nil, List.nil_append, List.cons_append, ofLE,
    UInt8.toNat_ofNat', Nat.reducePow, Nat.mod_eq_of_lt ha, Nat.mod_eq_of_lt hb,
    Nat.mod_eq_of_lt hc, Nat.mod_eq_of_lt hd, ofDigits]
  omega

theorem ofNat_lt_128_iff {n : Nat} (h : n < 256) : UInt8.ofNat n < 128 ↔ n < 128 := by
  have h128 : (128 : UInt8).toNat = 128 := rfl
  rw [UInt8.lt_iff_toNat_lt, h128, UInt8.toNat_ofNat', Nat.mod_eq_of_lt h]

theorem ofNat_inj {n m : Nat} (hn : n < 256) (hm : m < 256) :
    UInt8.ofNat n = UInt8.ofNat m ↔ n = m := by
  rw [← UInt8.toNat_inj, UInt8.toNat_ofNat', UInt8.toNat_ofNat', Nat.mod_eq_of_lt hn,
    Nat.mod_eq_of_lt hm]

/-- `swap_uint32(size) / 2`, in memory, is the pair count in network order if and only if no byte
of the count has its highest bit set. -/
theorem halvedCount_iff {c : Nat} (hc : c < 2 ^ 32) :
    toLE 4 (swapUint32 (2 * c % 2 ^ 32) / 2) = toBE 4 c ↔ ∀ b ∈ toBE 4 c, b < 128 := by
  -- each digit of the count as its low seven bits and its highest bit
  obtain ⟨l₀, k₀, l₁, k₁, l₂, k₂, l₃, k₃, hcount, ⟨hl₀, hl₁, hl₂, hl₃⟩, hk₀, hk₁, hk₂, hk₃⟩ :
      ∃ l₀ k₀ l₁ k₁ l₂ k₂ l₃ k₃ : Nat,
        c = ofDigits (l₀ + 128 * k₀) (l₁ + 128 * k₁) (l₂ + 128 * k₂) (l₃ + 128 * k₃) ∧
        (l₀ < 128 ∧ l₁ < 128 ∧ l₂ < 128 ∧ l₃ < 128) ∧ k₀ < 2 ∧ k₁ < 2 ∧ k₂ < 2 ∧ k₃ < 2 := by
    refine ⟨c % 2 ^ 7, c / 2 ^ 7 % 2, c / 2 ^ 8 % 2 ^ 7, c / 2 ^ 15 % 2, c / 2 ^ 16 % 2 ^ 7,
      c / 2 ^ 23 % 2, c / 2 ^ 24 % 2 ^ 7, c / 2 ^ 31, ?_, ?_, ?_⟩
    · unfold ofDigits
      omega
    · omega
    · omega
  have hdouble : 2 * c % 2 ^ 32 = ofDigits (2 * l₀) (2 * l₁ + k₀) (2 * l₂ + k₁) (2 * l₃ + k₂) := by
    unfold ofDigits at hcount ⊢
    omega
  have hhalf : ofDigits (2 * l₃ + k₂) (2 * l₂ + k₁) (2 * l₁ + k₀) (2 * l₀) / 2 =
      ofDigits (l₃ + 128 * k₁) (l₂ + 128 * k₀) l₁ l₀ := by
    unfold ofDigits
    omega
  rw [hdouble, swapUint32_ofDigits (by omega) (by omega) (by omega) (by omega), hhalf, toBE,
    hcount, toLE_ofDigits (by omega) (by omega) (by omega) (by omega),
    toLE_ofDigits (by omega) (by omega) (by omega) (by omega)]
  simp only [List.reverse_cons, List.reverse_nil, List.nil_append, List.cons_append,
    List.cons.injEq, and_true, List.forall_mem_cons, List.not_mem_nil, false_implies,
    implies_true]
  rw [ofNat_inj (by omega) (by omega), ofNat_inj (by omega) (by omega),
    ofNat_inj (by omega) (by omega), ofNat_inj (by omega) (by omega),
    ofNat_lt_128_iff (by omega), ofNat_lt_128_iff (by omega), ofNat_lt_128_iff (by omega),
    ofNat_lt_128_iff (by omega)]
  omega

/-- No byte of the 32-bit pair count has its highest bit set. -/
def PairCountFits (count : Nat) : Prop := count < 2 ^ 32 ∧ ∀ b ∈ toBE 4 count, b < 128

mutual

/-- At any depth, the arrays have fewer than `2 ^ 32` elements, and the pair counts of the
associative arrays survive the halving. -/
def CountsFit : AmfData N → Prop
  | .object list => EntriesFit list
  | .associativeArray list => PairCountFits (list.length / 2) ∧ EntriesFit list
  | .array list => list.length < 2 ^ 32 ∧ ElementsFit list
  | _ => True

def EntriesFit : List (AmfData N) → Prop
  | _ :: value :: rest => CountsFit value ∧ EntriesFit rest
  | _ => True

def ElementsFit : List (AmfData N) → Prop
  | [] => True
  | element :: rest => CountsFit element ∧ ElementsFit rest

end

/-! ## The comparison -/

/-- Two parts of an encoding, the first of known length, are the parts of the reference. -/
theorem concat_eq_iff {first second : Option Bytes} {a b : Bytes}
    (hlength : ∀ x, first = some x → x.length = a.length) :
    (∃ x, first = some x ∧ ∃ y, second = some y ∧ x ++ y = a ++ b) ↔
      first = some a ∧ second = some b := by
  constructor
  · rintro ⟨x, hx, y, hy, heq⟩
    obtain ⟨rfl, rfl⟩ := List.append_inj heq (hlength x hx)
    exact ⟨hx, hy⟩
  · rintro ⟨hx, hy⟩
    exact ⟨a, hx, b, hy, rfl⟩

omit [NumberImage N] in
theorem SupportedEntries.even : ∀ {list : List (AmfData N)}, SupportedEntries list →
    ∃ count, list.length = 2 * count
  | [], _ => ⟨0, rfl⟩
  | [_], h => absurd h id
  | _ :: _ :: _, h => by
    obtain ⟨count, hcount⟩ := SupportedEntries.even h.2.2
    exact ⟨count + 1, by simp only [List.length_cons]; omega⟩

mutual

theorem referenceBytes_eq_iff (data : AmfData N) (h : Supported data) :
    referenceBytes data = some (amfBytes data) ↔ CountsFit data := by
  cases data with
  | nullPtr => exact absurd h id
  | other type => exact absurd h id
  | object list =>
    have hentries := referenceEntries_eq_iff list h
    simp [referenceBytes, amfBytes, CountsFit, amfEndBytes, AmfType.code, ← hentries,
      Option.bind_eq_some_iff]
  | associativeArray list =>
    have hentries := referenceEntries_eq_iff list h
    obtain ⟨count, hcount⟩ := SupportedEntries.even h
    have hhalf : list.length / 2 = count := by omega
    have hsize : amfListSize list = 2 * count % 2 ^ 32 := by rw [amfListSize, hcount]
    rw [CountsFit, PairCountFits, hhalf, ← hentries]
    simp only [referenceBytes, amfBytes, hhalf, hsize, Option.bind_eq_bind,
      Option.bind_eq_some_iff]
    by_cases hfit : count < 2 ^ 32
    · rw [← halvedCount_iff hfit]
      simp only [hfit, if_true, true_and, Option.pure_def, Option.some.injEq]
      constructor
      · rintro ⟨entries, href, heq⟩
        obtain ⟨hcounts, htail⟩ := List.append_inj (List.cons.inj heq).2 (by simp)
        obtain ⟨rfl, -⟩ := List.append_inj' htail rfl
        exact ⟨hcounts.symm, href⟩
      · rintro ⟨hcounts, href⟩
        refine ⟨_, href, ?_⟩
        rw [hcounts]
        rfl
    · simp only [hfit, if_false, reduceCtorEq, and_false, exists_false, false_and]
  | array list =>
    have helements := referenceElements_eq_iff list h
    rw [CountsFit, ← helements]
    simp only [referenceBytes, amfBytes, Option.bind_eq_bind, Option.bind_eq_some_iff]
    by_cases hfit : list.length < 2 ^ 32
    · have hsize : amfListSize list = list.length := Nat.mod_eq_of_lt hfit
      simp only [hfit, if_true, hsize, true_and, Option.pure_def, Option.some.injEq]
      simp [AmfType.code]
    · simp only [hfit, if_false, reduceCtorEq, and_false, exists_false, false_and]
  | _ => simp [referenceBytes, amfBytes, CountsFit, AmfType.code, amfNumberBytes, amfStringBytes]

theorem referenceEntries_eq_iff (list : List (AmfData N)) (h : SupportedEntries list) :
    referenceEntries list = some (amfPairsBytes list) ↔ EntriesFit list :=
  match list, h with
  | [], _ => by simp [referenceEntries, amfPairsBytes, EntriesFit]
  | [_], h => absurd h id
  | _ :: value :: rest, ⟨⟨s, hname⟩, hvalue, hrest⟩ => by
    have hfirst := referenceBytes_eq_iff value hvalue
    have hsecond := referenceEntries_eq_iff rest hrest
    subst hname
    rw [EntriesFit, ← hfirst, ← hsecond, ← concat_eq_iff fun x hx => by
      rw [length_referenceBytes value hx, length_amfBytes]]
    simp [referenceEntries, amfPairsBytes, amfStringBytes, AmfData.stringData,
      Option.bind_eq_some_iff]

theorem referenceElements_eq_iff (list : List (AmfData N)) (h : SupportedElements list) :
    referenceElements list = some (amfElementsBytes list) ↔ ElementsFit list :=
  match list, h with
  | [], _ => by simp [referenceElements, amfElementsBytes, ElementsFit]
  | element :: rest, ⟨helement, hrest⟩ => by
    have hfirst := referenceBytes_eq_iff element helement
    have hsecond := referenceElements_eq_iff rest hrest
    rw [ElementsFit, ← hfirst, ← hsecond, ← concat_eq_iff fun x hx => by
      rw [length_referenceBytes element hx, length_amfBytes]]
    simp [referenceElements, amfElementsBytes, Option.bind_eq_some_iff]

end

/-- A supported value is written in the reference encoding if and only if its counts fit. -/
theorem canonical_iff (data : AmfData N) (h : Supported data) :
    referenceBytes data = some (amfDataImage data) ↔ CountsFit data := by
  rw [amfDataImage_eq]
  exact referenceBytes_eq_iff data h

omit [NumberImage N] in
theorem supportedEntries_replicate (s : AmfString) (count : Nat) :
    SupportedEntries (List.replicate (2 * count) (.string s : AmfData N)) := by
  induction count with
  | zero => trivial
  | succ count ih => exact ⟨⟨s, rfl⟩, trivial, ih⟩

/-- An associative array of 128 pairs of a name and a string. -/
def manyPairs : AmfData UInt64 := .associativeArray (List.replicate 256 (amfStr (ascii "k")))

/-- The 128 of its count is written into the second byte instead of the last. -/
theorem manyPairs_not_canonical :
    Supported manyPairs ∧ referenceBytes manyPairs ≠ some (amfDataImage manyPairs) ∧
      (amfDataImage manyPairs).take 5 = [0x08, 0x00, 0x80, 0x00, 0x00] :=
  ⟨supportedEntries_replicate ⟨(ascii "k").take 1, by decide⟩ 128, by decide +kernel,
    by decide +kernel⟩

/-- An associative array of an array. -/
def onePair : AmfData UInt64 := .associativeArray [amfStr (ascii "k"), .array [.undefined]]

/-- It is written in the reference encoding. -/
theorem onePair_canonical_iff :
    referenceBytes onePair = some (amfDataImage onePair) ↔ CountsFit onePair := by
  refine canonical_iff onePair ⟨⟨⟨(ascii "k").take 1, by decide⟩, rfl⟩, ?_, trivial⟩
  exact ⟨trivial, trivial⟩

end FlvMeta
