import FlvMeta.Amf.Read

/-!
# Decoding what was encoded

`WellFormed` describes the values that the encoding can represent. Reading the bytes of a
well-formed value, whatever follows them, gives the value back and advances by exactly its
size. The induction is over the value; each loop of the reader is followed along the list
that produced its input, and stops at the bytes of `amfEndBytes`.
-/

namespace FlvMeta

open Endian Stdio

variable {σ M N : Type}

/-! ## Well-formed values -/

mutual

/-- A value that can be encoded. Names are C strings, those of an associative array also
nonempty, and an array has fewer than `2^32` elements. -/
def WellFormed : AmfData N → Prop
  | .nullPtr => False
  | .number _ => True
  | .boolean _ => True
  | .string _ => True
  | .object list => WellFormedPairs NulFree list
  | .null errorCode => errorCode = .ok
  | .undefined => True
  | .associativeArray list => WellFormedPairs (fun s => NulFree s ∧ s ≠ []) list
  | .array list => list.length < 2 ^ 32 ∧ WellFormedElements list
  | .date _ _ => True
  | .other _ => False

/-- A list of names satisfying `nameOk` and well-formed values. -/
def WellFormedPairs (nameOk : Bytes → Prop) : List (AmfData N) → Prop
  | [] => True
  | [_] => False
  | name :: value :: rest =>
    (∃ s, name = .string s ∧ nameOk s.bytes) ∧ WellFormed value ∧ WellFormedPairs nameOk rest

def WellFormedElements : List (AmfData N) → Prop
  | [] => True
  | element :: rest => WellFormed element ∧ WellFormedElements rest

end

theorem WellFormed.errorCode {data : AmfData N} (h : WellFormed data) :
    amfDataGetErrorCode data = .ok := by
  cases data with
  | null e => exact (by simpa [WellFormed] using h : e = .ok)
  | nullPtr => simp [WellFormed] at h
  | _ => rfl

theorem WellFormed.isNull {data : AmfData N} (h : WellFormed data) : data.isNull = false := by
  cases data with
  | nullPtr => simp [WellFormed] at h
  | _ => rfl

theorem WellFormed.size_pos {data : AmfData N} (h : WellFormed data) : 0 < amfDataSize data := by
  cases data with
  | nullPtr => simp [WellFormed] at h
  | _ =>
    simp only [amfDataSize]
    omega

/-! ## Reading numbers of another type

What was written as values of one number type may be read as values of another one: every
number is then the one with the same image.
-/

mutual

/-- A value with all its numbers replaced. -/
def AmfData.mapNumbers (f : M → N) : AmfData M → AmfData N
  | .nullPtr => .nullPtr
  | .number x => .number (f x)
  | .boolean b => .boolean b
  | .string s => .string s
  | .object list => .object (mapNumbersList f list)
  | .null errorCode => .null errorCode
  | .undefined => .undefined
  | .associativeArray list => .associativeArray (mapNumbersList f list)
  | .array list => .array (mapNumbersList f list)
  | .date milliseconds timezone => .date (f milliseconds) timezone
  | .other type => .other type

def mapNumbersList (f : M → N) : List (AmfData M) → List (AmfData N)
  | [] => []
  | data :: list => data.mapNumbers f :: mapNumbersList f list

end

@[simp] theorem amfDataGetErrorCode_mapNumbers (f : M → N) (data : AmfData M) :
    amfDataGetErrorCode (data.mapNumbers f) = amfDataGetErrorCode data := by
  cases data <;> rfl

@[simp] theorem isNull_mapNumbers (f : M → N) (data : AmfData M) :
    (data.mapNumbers f).isNull = data.isNull := by
  cases data <;> rfl

@[simp] theorem amfDataGetType_mapNumbers (f : M → N) (data : AmfData M) :
    amfDataGetType (data.mapNumbers f) = amfDataGetType data := by
  cases data <;> rfl

@[simp] theorem stringData_mapNumbers (f : M → N) (data : AmfData M) :
    (data.mapNumbers f).stringData = data.stringData := by
  cases data <;> rfl

mutual

theorem mapNumbers_id {f : N → N} (hf : ∀ x, f x = x) :
    ∀ data : AmfData N, data.mapNumbers f = data
  | .nullPtr => rfl
  | .number x => by rw [AmfData.mapNumbers, hf]
  | .boolean b => rfl
  | .string s => rfl
  | .object list => by rw [AmfData.mapNumbers, mapNumbersList_id hf list]
  | .null e => rfl
  | .undefined => rfl
  | .associativeArray list => by rw [AmfData.mapNumbers, mapNumbersList_id hf list]
  | .array list => by rw [AmfData.mapNumbers, mapNumbersList_id hf list]
  | .date ms tz => by rw [AmfData.mapNumbers, hf]
  | .other t => rfl

theorem mapNumbersList_id {f : N → N} (hf : ∀ x, f x = x) :
    ∀ list : List (AmfData N), mapNumbersList f list = list
  | [] => rfl
  | data :: list => by rw [mapNumbersList, mapNumbers_id hf data, mapNumbersList_id hf list]

end

mutual

@[simp] theorem amfDataSize_mapNumbers (f : M → N) :
    ∀ data : AmfData M, amfDataSize (data.mapNumbers f) = amfDataSize data
  | .nullPtr => rfl
  | .number x => rfl
  | .boolean b => rfl
  | .string s => rfl
  | .object list => by simp only [AmfData.mapNumbers, amfDataSize, amfPairsSize_mapNumbers f list]
  | .null e => rfl
  | .undefined => rfl
  | .associativeArray list => by
    simp only [AmfData.mapNumbers, amfDataSize, amfPairsSize_mapNumbers f list]
  | .array list => by
    simp only [AmfData.mapNumbers, amfDataSize, amfElementsSize_mapNumbers f list]
  | .date ms tz => rfl
  | .other t => rfl

@[simp] theorem amfPairsSize_mapNumbers (f : M → N) :
    ∀ list : List (AmfData M), amfPairsSize (mapNumbersList f list) = amfPairsSize list
  | [] => rfl
  | [name] => by simp [mapNumbersList, amfPairsSize, amfStringGetSize]
  | name :: value :: rest => by
    simp [mapNumbersList, amfPairsSize, amfStringGetSize, amfDataSize_mapNumbers f value,
      amfPairsSize_mapNumbers f rest]

@[simp] theorem amfElementsSize_mapNumbers (f : M → N) :
    ∀ list : List (AmfData M), amfElementsSize (mapNumbersList f list) = amfElementsSize list
  | [] => rfl
  | element :: rest => by
    simp [mapNumbersList, amfElementsSize, amfDataSize_mapNumbers f element,
      amfElementsSize_mapNumbers f rest]

end

/-- The number with the image of another one. -/
def reload [NumberImage M] [NumberImage N] (x : M) : N := NumberImage.ofBits (NumberImage.bits x)

theorem mapNumbers_reload [NumberImage N] [LawfulNumberImage N] (data : AmfData N) :
    data.mapNumbers reload = data :=
  mapNumbers_id LawfulNumberImage.ofBits_bits data

/-! ## Reading the parts of a value -/

section

variable (src : ByteSource σ)

theorem amfStringRead_bytes (str : AmfString) {s : σ} {rest : Bytes}
    (h : src.rest s = amfStringBytes str ++ rest) :
    (amfStringRead src s : AmfData N × σ) = (.string str, src.advance (2 + str.size) s) := by
  have hlt := str.size_lt
  have hlen : (toBE 2 str.size).length = 2 := by simp
  rw [amfStringBytes, List.append_assoc] at h
  have h₁ := src.read_append h
  have h₂ := src.rest_advance_append h
  rw [hlen] at h₁ h₂
  have hsize : swapUint16 (ofLE (toBE 2 str.size)) = str.size := by
    rw [swapUint16_ofLE hlen, ofBE_toBE (by simpa [AmfString.size] using hlt)]
  simp only [amfStringRead, h₁, hlen, hsize, Nat.lt_irrefl, if_false]
  by_cases h0 : str.size = 0
  · have hnil : str.bytes = [] := List.length_eq_zero_iff.mp h0
    rw [if_pos h0, h0]
    congr 1
    exact congrArg AmfData.string (AmfString.ext (by simp [hnil]))
  · have h₃ : src.read str.size (src.advance 2 s) =
        (str.bytes, src.advance str.size (src.advance 2 s)) := src.read_append h₂
    have hstr : (amfStringNew str.bytes (UInt16.ofNat str.size) : AmfData N) = .string str :=
      amfStr_bytes str
    rw [if_neg h0, h₃, src.advance_advance]
    simp only [hstr]
    exact if_pos rfl

theorem amfStringRead_empty {s : σ} {rest : Bytes} (h : src.rest s = 0 :: 0 :: rest) :
    (amfStringRead src s : AmfData N × σ) =
      (.string ⟨[], by decide⟩, src.advance 2 s) := by
  have hstr : amfStringBytes ⟨[], by decide⟩ = [0, 0] := by decide
  exact amfStringRead_bytes src _ (by rw [hstr]; exact h)

variable [NumberImage M] [NumberImage N]

theorem numberOfImage_bytes (x : M) : (numberOfImage (amfNumberBytes x) : N) = reload x := by
  have hlt := (NumberImage.bits x).toNat_lt
  have hbits : ofBE (toBE 8 (NumberImage.bits x).toNat) = (NumberImage.bits x).toNat :=
    ofBE_toBE (by simpa using hlt)
  rw [numberOfImage, swapNumber64_ofLE (length_amfNumberBytes x), amfNumberBytes, hbits,
    UInt64.ofNat_toNat, reload]

theorem amfNumberRead_bytes (x : M) {s : σ} {rest : Bytes}
    (h : src.rest s = amfNumberBytes x ++ rest) :
    (amfNumberRead src s : AmfData N × σ) = (.number (reload x), src.advance 8 s) := by
  have h₁ := src.read_append h
  rw [length_amfNumberBytes] at h₁
  simp [amfNumberRead, h₁, numberOfImage_bytes]

theorem amfDateRead_bytes (ms : M) (tz : UInt16) {s : σ} {rest : Bytes}
    (h : src.rest s = amfNumberBytes ms ++ toBE 2 tz.toNat ++ rest) :
    (amfDateRead src s : AmfData N × σ) = (.date (reload ms) tz, src.advance 10 s) := by
  have hlt := tz.toNat_lt
  have hlen : (toBE 2 tz.toNat).length = 2 := by simp
  have htz : UInt16.ofNat (swapUint16 (ofLE (toBE 2 tz.toNat))) = tz := by
    rw [swapUint16_ofLE hlen, ofBE_toBE (by simpa using hlt), UInt16.ofNat_toNat]
  rw [List.append_assoc] at h
  have h₁ := src.read_append h
  have h₂ := src.read_append (src.rest_advance_append h)
  rw [length_amfNumberBytes] at h₁ h₂
  rw [hlen] at h₂
  simp [amfDateRead, h₁, h₂, hlen, htz, numberOfImage_bytes, src.advance_advance]

/-! ### The loops -/

theorem amfObjectRead_end (fuel : Nat) (list : List (AmfData N)) {s : σ} {rest : Bytes}
    (h : src.rest s = amfEndBytes ++ rest) :
    amfObjectRead src (fuel + 2) list s = some (.object list, src.advance 3 s) := by
  have hname : src.rest s = 0 :: 0 :: AmfType.endTag.code :: rest := h
  have hend : src.rest (src.advance 2 s) = AmfType.endTag.code :: rest :=
    src.rest_advance_append (show src.rest s = [0, 0] ++ _ from hname)
  rw [amfObjectRead, amfStringRead_empty src hname]
  simp only [amfDataRead, src.read_cons hend, AmfType.ofCode_code, src.advance_advance]
  rfl

theorem amfAssociativeArrayRead_end (fuel : Nat) (list : List (AmfData N)) {s : σ}
    {rest : Bytes} (h : src.rest s = amfEndBytes ++ rest) :
    amfAssociativeArrayRead src (fuel + 2) list s =
      some (.associativeArray list, src.advance 3 s) := by
  have hname : src.rest s = 0 :: 0 :: AmfType.endTag.code :: rest := h
  have hend : src.rest (src.advance 2 s) = AmfType.endTag.code :: rest :=
    src.rest_advance_append (show src.rest s = [0, 0] ++ _ from hname)
  rw [amfAssociativeArrayRead, amfStringRead_empty src hname]
  simp only [amfDataRead, src.read_cons hend, AmfType.ofCode_code, src.advance_advance]
  rfl

/-- One turn of the loop of `amf_object_read` over a name and a value. -/
theorem amfObjectRead_entry {fuel : Nat} {list : List (AmfData N)} {str : AmfString}
    {value : AmfData N} {s s' : σ} {rest : Bytes} (hname : NulFree str.bytes)
    (hvalue : amfDataGetErrorCode value = .ok) (h : src.rest s = amfStringBytes str ++ rest)
    (hread : amfDataRead src fuel (src.advance (2 + str.size) s) = some (value, s')) :
    amfObjectRead src (fuel + 1) list s =
      amfObjectRead src fuel (list ++ [.string str, value]) s' := by
  have hnull := isNull_of_ok hvalue
  have hadd := amfObjectAdd_eq (show (AmfData.object list).isNull = false from rfl) hnull str.bytes
  rw [amfObjectRead, amfStringRead_bytes src str h]
  simp only [hread, hvalue, amfStringGetBytes, AmfData.stringData, cString_of_nulFree hname, hadd,
    hnull, amfStr_bytes]
  rfl

theorem amfAssociativeArrayRead_entry {fuel : Nat} {list : List (AmfData N)} {str : AmfString}
    {value : AmfData N} {s s' : σ} {rest : Bytes} (hname : NulFree str.bytes)
    (hne : str.bytes ≠ []) (hvalue : amfDataGetErrorCode value = .ok)
    (h : src.rest s = amfStringBytes str ++ rest)
    (hread : amfDataRead src fuel (src.advance (2 + str.size) s) = some (value, s')) :
    amfAssociativeArrayRead src (fuel + 1) list s =
      amfAssociativeArrayRead src fuel (list ++ [.string str, value]) s' := by
  have hnull := isNull_of_ok hvalue
  have hadd := amfObjectAdd_eq (show (AmfData.associativeArray list).isNull = false from rfl) hnull
    str.bytes
  have hsize : amfStringGetSize (AmfData.string str : AmfData N) ≠ 0 := by
    simpa [amfStringGetSize, AmfData.stringData, AmfString.size] using hne
  rw [amfAssociativeArrayRead, amfStringRead_bytes src str h]
  simp only [hread, hvalue, hsize, amfStringGetBytes, AmfData.stringData,
    cString_of_nulFree hname, hadd, hnull, amfStr_bytes]
  rfl

theorem amfArrayRead_element {fuel n : Nat} {list : List (AmfData N)} {element : AmfData N}
    {s s' : σ} (helement : amfDataGetErrorCode element = .ok)
    (hread : amfDataRead src fuel s = some (element, s')) :
    amfArrayRead src (fuel + 1) (n + 1) list s =
      amfArrayRead src fuel n (list ++ [element]) s' := by
  rw [amfArrayRead, hread]
  simp only [helement, amfListPush, isNull_of_ok helement]
  rfl

end

/-! ## Round trip -/

section

variable (src : ByteSource σ) [NumberImage M] [NumberImage N]

mutual

theorem amfDataRead_bytes : ∀ data : AmfData M, WellFormed data →
    ∀ {fuel : Nat} {s : σ} {rest : Bytes}, amfDataSize data ≤ fuel →
    src.rest s = amfBytes data ++ rest →
    amfDataRead src fuel s =
      some ((data.mapNumbers reload : AmfData N), src.advance (amfDataSize data) s)
  | data, hwf, 0, s, rest, hfuel, h => by
    have hpos := hwf.size_pos
    omega
  | .nullPtr, hwf, fuel + 1, s, rest, hfuel, h => by
    simp [WellFormed] at hwf
  | .number x, hwf, fuel + 1, s, rest, hfuel, h => by
    rw [amfBytes, List.cons_append] at h
    simp only [amfDataRead, src.read_cons h, AmfType.ofCode_code,
      amfNumberRead_bytes src x (src.rest_advance_cons h), src.advance_advance, amfDataSize,
      AmfData.mapNumbers]
  | .boolean b, hwf, fuel + 1, s, rest, hfuel, h => by
    have h' : src.rest s = AmfType.boolean.code :: b :: rest := by rw [h, amfBytes]; rfl
    simp [amfDataRead, src.read_cons h', AmfType.ofCode_code, amfBooleanRead,
      src.read_cons (src.rest_advance_cons h'), src.advance_advance, amfDataSize,
      AmfData.mapNumbers]
  | .string str, hwf, fuel + 1, s, rest, hfuel, h => by
    rw [amfBytes, List.cons_append] at h
    simp only [amfDataRead, src.read_cons h, AmfType.ofCode_code,
      amfStringRead_bytes src str (src.rest_advance_cons h), src.advance_advance, amfDataSize,
      AmfData.mapNumbers]
  | .object list, hwf, fuel + 1, s, rest, hfuel, h => by
    rw [amfBytes, List.cons_append, List.append_assoc] at h
    have hsize : amfPairsSize list + 3 ≤ fuel := by
      simp only [amfDataSize] at hfuel
      omega
    have hloop := amfObjectRead_bytes list (by simpa [WellFormed] using hwf) [] hsize
      (src.rest_advance_cons h)
    simp only [amfDataRead, src.read_cons h, AmfType.ofCode_code, hloop, src.advance_advance,
      amfDataSize, List.nil_append, AmfData.mapNumbers]
  | .null e, hwf, fuel + 1, s, rest, hfuel, h => by
    have he : e = .ok := by simpa [WellFormed] using hwf
    rw [amfBytes, List.singleton_append] at h
    simp only [amfDataRead, src.read_cons h, AmfType.ofCode_code, amfDataSize, he,
      AmfData.mapNumbers]
  | .undefined, hwf, fuel + 1, s, rest, hfuel, h => by
    rw [amfBytes, List.singleton_append] at h
    simp only [amfDataRead, src.read_cons h, AmfType.ofCode_code, amfDataSize, AmfData.mapNumbers]
  | .associativeArray list, hwf, fuel + 1, s, rest, hfuel, h => by
    rw [amfBytes, List.cons_append, List.append_assoc, List.append_assoc] at h
    have h₁ := src.rest_advance_cons h
    have h₂ := src.read_append h₁
    have hsize : amfPairsSize list + 3 ≤ fuel := by
      simp only [amfDataSize] at hfuel
      omega
    have hloop := amfAssociativeArrayRead_bytes list (by simpa [WellFormed] using hwf) [] hsize
      (src.rest_advance_append h₁)
    simp only [length_toLE, src.advance_advance] at h₂ hloop
    simp only [amfDataRead, src.read_cons h, AmfType.ofCode_code, h₂, length_toLE, Nat.lt_irrefl,
      if_false, hloop, amfDataSize, List.nil_append, AmfData.mapNumbers]
    congr 3
    omega
  | .array list, hwf, fuel + 1, s, rest, hfuel, h => by
    obtain ⟨hlt, hwf⟩ : list.length < 2 ^ 32 ∧ WellFormedElements list := by
      simpa [WellFormed] using hwf
    rw [amfBytes, List.cons_append, List.append_assoc] at h
    have h₁ := src.rest_advance_cons h
    have h₂ := src.read_append h₁
    have hcount : swapUint32 (ofLE (toBE 4 (amfListSize list))) = list.length := by
      rw [swapUint32_ofLE (length_toBE _ _), amfListSize, Nat.mod_eq_of_lt hlt,
        ofBE_toBE (by simpa using hlt)]
    have hsize : amfElementsSize list + 1 ≤ fuel := by
      simp only [amfDataSize] at hfuel
      omega
    have hloop := amfArrayRead_bytes list hwf [] hsize (src.rest_advance_append h₁)
    simp only [length_toBE, src.advance_advance] at h₂ hloop
    simp only [amfDataRead, src.read_cons h, AmfType.ofCode_code, h₂, length_toBE, Nat.lt_irrefl,
      if_false, hcount, hloop, amfDataSize, List.nil_append, AmfData.mapNumbers]
    congr 3
    omega
  | .date ms tz, hwf, fuel + 1, s, rest, hfuel, h => by
    rw [amfBytes, List.cons_append] at h
    simp only [amfDataRead, src.read_cons h, AmfType.ofCode_code,
      amfDateRead_bytes src ms tz (src.rest_advance_cons h), src.advance_advance, amfDataSize,
      AmfData.mapNumbers]
  | .other t, hwf, fuel + 1, s, rest, hfuel, h => by
    simp [WellFormed] at hwf

theorem amfObjectRead_bytes : ∀ list : List (AmfData M),
    WellFormedPairs NulFree list →
    ∀ (acc : List (AmfData N)) {fuel : Nat} {s : σ} {rest : Bytes},
    amfPairsSize list + 3 ≤ fuel →
    src.rest s = amfPairsBytes list ++ (amfEndBytes ++ rest) →
    amfObjectRead src fuel acc s =
      some (.object (acc ++ mapNumbersList reload list), src.advance (amfPairsSize list + 3) s)
  | [], hwf, acc, fuel + 2, s, rest, hfuel, h => by
    simpa [amfPairsSize, mapNumbersList] using amfObjectRead_end src fuel acc
      (by simpa [amfPairsBytes] using h)
  | [name], hwf, acc, fuel, s, rest, hfuel, h => by
    simp [WellFormedPairs] at hwf
  | name :: value :: list, hwf, acc, fuel + 1, s, rest, hfuel, h => by
    obtain ⟨⟨str, rfl, hname⟩, hvalue, hlist⟩ := hwf
    simp only [amfPairsSize, amfStringGetSize, AmfData.stringData] at hfuel ⊢
    simp only [amfPairsBytes, AmfData.stringData, List.append_assoc] at h
    have hrest := src.rest_advance_append h
    have hcode : amfDataGetErrorCode (value.mapNumbers reload : AmfData N) = .ok := by
      rw [amfDataGetErrorCode_mapNumbers, hvalue.errorCode]
    have hread := amfDataRead_bytes value hvalue (show amfDataSize value ≤ fuel by omega) hrest
    have hnext := src.rest_advance_append hrest
    rw [length_amfStringBytes] at hread hnext
    rw [length_amfBytes] at hnext
    rw [amfObjectRead_entry src hname hcode h hread,
      amfObjectRead_bytes list hlist _ (by omega) hnext]
    simp only [List.append_assoc, List.cons_append, List.nil_append, src.advance_advance,
      mapNumbersList, AmfData.mapNumbers]
    congr 3
  | [], hwf, acc, 0, s, rest, hfuel, h => by omega
  | [], hwf, acc, 1, s, rest, hfuel, h => by omega
  | name :: value :: list, hwf, acc, 0, s, rest, hfuel, h => by omega

theorem amfAssociativeArrayRead_bytes : ∀ list : List (AmfData M),
    WellFormedPairs (fun s => NulFree s ∧ s ≠ []) list →
    ∀ (acc : List (AmfData N)) {fuel : Nat} {s : σ} {rest : Bytes},
    amfPairsSize list + 3 ≤ fuel →
    src.rest s = amfPairsBytes list ++ (amfEndBytes ++ rest) →
    amfAssociativeArrayRead src fuel acc s =
      some (.associativeArray (acc ++ mapNumbersList reload list),
        src.advance (amfPairsSize list + 3) s)
  | [], hwf, acc, fuel + 2, s, rest, hfuel, h => by
    simpa [amfPairsSize, mapNumbersList] using
      amfAssociativeArrayRead_end src fuel acc (by simpa [amfPairsBytes] using h)
  | [name], hwf, acc, fuel, s, rest, hfuel, h => by
    simp [WellFormedPairs] at hwf
  | name :: value :: list, hwf, acc, fuel + 1, s, rest, hfuel, h => by
    obtain ⟨⟨str, rfl, hname, hne⟩, hvalue, hlist⟩ := hwf
    simp only [amfPairsSize, amfStringGetSize, AmfData.stringData] at hfuel ⊢
    simp only [amfPairsBytes, AmfData.stringData, List.append_assoc] at h
    have hrest := src.rest_advance_append h
    have hcode : amfDataGetErrorCode (value.mapNumbers reload : AmfData N) = .ok := by
      rw [amfDataGetErrorCode_mapNumbers, hvalue.errorCode]
    have hread := amfDataRead_bytes value hvalue (show amfDataSize value ≤ fuel by omega) hrest
    have hnext := src.rest_advance_append hrest
    rw [length_amfStringBytes] at hread hnext
    rw [length_amfBytes] at hnext
    rw [amfAssociativeArrayRead_entry src hname hne hcode h hread,
      amfAssociativeArrayRead_bytes list hlist _ (by omega) hnext]
    simp only [List.append_assoc, List.cons_append, List.nil_append, src.advance_advance,
      mapNumbersList, AmfData.mapNumbers]
    congr 3
  | [], hwf, acc, 0, s, rest, hfuel, h => by omega
  | [], hwf, acc, 1, s, rest, hfuel, h => by omega
  | name :: value :: list, hwf, acc, 0, s, rest, hfuel, h => by omega

theorem amfArrayRead_bytes : ∀ list : List (AmfData M),
    WellFormedElements list →
    ∀ (acc : List (AmfData N)) {fuel : Nat} {s : σ} {rest : Bytes},
    amfElementsSize list + 1 ≤ fuel →
    src.rest s = amfElementsBytes list ++ rest →
    amfArrayRead src fuel list.length acc s =
      some (.array (acc ++ mapNumbersList reload list), src.advance (amfElementsSize list) s)
  | [], hwf, acc, fuel + 1, s, rest, hfuel, h => by
    simp [amfArrayRead, amfElementsSize, mapNumbersList, src.advance_zero]
  | element :: list, hwf, acc, fuel + 1, s, rest, hfuel, h => by
    obtain ⟨helement, hlist⟩ := hwf
    simp only [amfElementsSize] at hfuel ⊢
    rw [amfElementsBytes, List.append_assoc] at h
    have hpos := helement.size_pos
    have hcode : amfDataGetErrorCode (element.mapNumbers reload : AmfData N) = .ok := by
      rw [amfDataGetErrorCode_mapNumbers, helement.errorCode]
    have hread := amfDataRead_bytes element helement (show amfDataSize element ≤ fuel by omega) h
    have hnext := src.rest_advance_append h
    rw [length_amfBytes] at hnext
    rw [List.length_cons, amfArrayRead_element src hcode hread,
      amfArrayRead_bytes list hlist _ (by omega) hnext]
    simp only [List.append_assoc, List.cons_append, List.nil_append, src.advance_advance,
      mapNumbersList]
  | [], hwf, acc, 0, s, rest, hfuel, h => by omega
  | element :: list, hwf, acc, 0, s, rest, hfuel, h => by omega

end

end

/-! ## The round trip on files and buffers -/

section

variable [NumberImage M] [NumberImage N]

/-- Reading from a file the image of a value followed by anything. -/
theorem amfDataFileRead_image {data : AmfData M} (hwf : WellFormed data) {stream : InFile}
    {rest : Bytes} (h : stream.rest = amfDataImage data ++ rest) :
    amfDataFileRead stream =
      ((data.mapNumbers reload : AmfData N), stream.advance (amfDataSize data)) := by
  rw [amfDataImage_eq] at h
  have hfuel : amfDataSize data ≤ stream.rest.length + 1 := by
    rw [h, List.length_append, length_amfBytes]
    omega
  have hread := amfDataRead_bytes (N := N) fileSource data hwf hfuel h
  rw [amfDataRead_eq_fileRead] at hread
  exact Option.some.inj hread

theorem amfDataBufferRead_image {data : AmfData M} (hwf : WellFormed data) (rest : Bytes) :
    amfDataBufferRead (amfDataImage data ++ rest) =
      ((data.mapNumbers reload : AmfData N),
        ⟨amfDataImage data ++ rest, amfDataSize data⟩) := by
  have hsize : amfDataSize data ≤ (amfBytes data ++ rest).length + 1 := by
    rw [List.length_append, length_amfBytes]
    omega
  have h := amfDataRead_bytes (N := N) bufferSource data hwf hsize
    (s := ⟨amfBytes data ++ rest, 0⟩) rfl
  have hadvance : bufferSource.advance (amfDataSize data) ⟨amfBytes data ++ rest, 0⟩ =
      ⟨amfBytes data ++ rest, amfDataSize data⟩ := by
    simp [bufferSource, BufferContext.advance]
  rw [amfDataImage_eq, amfDataBufferRead]
  simp only [h, hadvance, Option.get_some]

end

/-- Every well-formed value read back from its encoding, whatever follows: the same value, with
the code `ok`, and exactly what follows unread. Numbers are 64-bit patterns. -/
theorem amfDataRead_amfDataWrite (data : AmfData UInt64) (hwf : WellFormed data) (rest : Bytes) :
    amfDataGetErrorCode data = .ok ∧
    (∃ stream, amfDataFileRead (InFile.ofContent (amfDataImage data ++ rest)) =
      (data, stream) ∧ stream.rest = rest ∧ stream.eof = false) ∧
    ∃ ctxt, amfDataBufferRead (amfDataImage data ++ rest) = (data, ctxt) ∧
      ctxt.rest = rest := by
  have hlen : (amfDataImage data).length = amfDataSize data := by
    rw [amfDataImage_eq, length_amfBytes]
  have hsame : data.mapNumbers reload = data := mapNumbers_reload data
  have hfile := amfDataFileRead_image (N := UInt64) hwf
    (show (InFile.ofContent (amfDataImage data ++ rest)).rest = amfDataImage data ++ rest from rfl)
  have hbuffer := amfDataBufferRead_image (N := UInt64) hwf rest
  rw [hsame] at hfile hbuffer
  refine ⟨hwf.errorCode, ⟨_, hfile, ?_, rfl⟩, _, hbuffer, ?_⟩
  · simp [← hlen, InFile.rest, InFile.ofContent]
  · simp [BufferContext.rest, ← hlen]

/-- An object of one entry, followed by the bytes that close an object. -/
theorem amfDataRead_amfDataWrite_object :
    amfDataGetErrorCode
      (AmfData.object [amfStr (ascii "a"), .array [.undefined]] : AmfData UInt64) = .ok ∧
    (∃ stream, amfDataFileRead (InFile.ofContent (amfDataImage
        (AmfData.object [amfStr (ascii "a"), .array [.undefined]] : AmfData UInt64) ++
          [0, 0, 9])) =
      ((AmfData.object [amfStr (ascii "a"), .array [.undefined]] : AmfData UInt64),
        stream) ∧ stream.rest = [0, 0, 9] ∧ stream.eof = false) ∧
    ∃ ctxt, amfDataBufferRead (amfDataImage
        (AmfData.object [amfStr (ascii "a"), .array [.undefined]] : AmfData UInt64) ++
          [0, 0, 9]) =
      ((AmfData.object [amfStr (ascii "a"), .array [.undefined]] : AmfData UInt64), ctxt) ∧
      ctxt.rest = [0, 0, 9] :=
  amfDataRead_amfDataWrite (.object [amfStr (ascii "a"), .array [.undefined]])
    ⟨⟨_, rfl, by decide +kernel⟩, ⟨by decide, trivial, trivial⟩, trivial⟩ [0, 0, 9]

end FlvMeta
