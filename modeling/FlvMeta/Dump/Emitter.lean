import FlvMeta.Base.Json
import FlvMeta.Types

/-!
# The JSON emitter

`JsonEmitter` is the flag of a `json_emitter`, and what it has printed as tokens. A function that
emits a value puts a comma before it when one is pending and leaves one pending (`EmitsValue`).
Emissions of members, or of elements, follow each other (`EmitsMembers.trans`) and can be put into
an object or an array (`EmitsMembers.object`, `EmitsElements.array`), so that one flag does for all
levels of nesting.
-/

namespace FlvMeta

open Json

/-- A number in a document: an integer of the program or a `number64`. -/
inductive JsonNumber (N : Type) where
  | integer (value : Int)
  | number (x : N)

variable {N : Type}

structure JsonEmitter (N : Type) where
  printComma : Bool
  output : List (Token (JsonNumber N))

/-! ## Functions of the emitter -/

def jsonEmitInit : JsonEmitter N := ⟨false, []⟩

/-- `printf` of tokens. -/
def JsonEmitter.print (ts : List (Token (JsonNumber N))) (je : JsonEmitter N) : JsonEmitter N :=
  { je with output := je.output ++ ts }

def JsonEmitter.setComma (printComma : Bool) (je : JsonEmitter N) : JsonEmitter N :=
  { je with printComma }

def jsonPrintComma (je : JsonEmitter N) : JsonEmitter N :=
  if je.printComma then (je.print [.comma]).setComma false else je

def jsonEmitObjectStart (je : JsonEmitter N) : JsonEmitter N :=
  (jsonPrintComma je).print [.objectStart]

def jsonEmitObjectKey (str : Bytes) (je : JsonEmitter N) : JsonEmitter N :=
  ((jsonPrintComma je).print [.string str, .colon]).setComma false

def jsonEmitObjectKeyZ (str : Bytes) (je : JsonEmitter N) : JsonEmitter N :=
  ((jsonPrintComma je).print [.string (cString str), .colon]).setComma false

def jsonEmitObjectEnd (je : JsonEmitter N) : JsonEmitter N :=
  (je.print [.objectEnd]).setComma true

def jsonEmitArrayStart (je : JsonEmitter N) : JsonEmitter N :=
  (jsonPrintComma je).print [.arrayStart]

def jsonEmitArrayEnd (je : JsonEmitter N) : JsonEmitter N :=
  (je.print [.arrayEnd]).setComma true

def jsonEmitBoolean (value : UInt8) (je : JsonEmitter N) : JsonEmitter N :=
  ((jsonPrintComma je).print [.boolean (value != 0)]).setComma true

def jsonEmitNull (je : JsonEmitter N) : JsonEmitter N :=
  ((jsonPrintComma je).print [.null]).setComma true

/-- The argument is an `int`. -/
def jsonEmitInteger (value : Int) (je : JsonEmitter N) : JsonEmitter N :=
  ((jsonPrintComma je).print [.literal (.integer (value.bmod (2 ^ 32)))]).setComma true

def jsonEmitFileOffset (value : Nat) (je : JsonEmitter N) : JsonEmitter N :=
  ((jsonPrintComma je).print [.literal (.integer value)]).setComma true

/-- `isfinite` is a function of the C library. -/
def jsonEmitNumber (isfinite : N → Bool) (value : N) (je : JsonEmitter N) : JsonEmitter N :=
  if !isfinite value then jsonEmitNull je
  else ((jsonPrintComma je).print [.literal (.number value)]).setComma true

def jsonEmitString (str : Bytes) (je : JsonEmitter N) : JsonEmitter N :=
  ((jsonPrintComma je).print [.string str]).setComma true

def jsonEmitStringZ (str : Bytes) (je : JsonEmitter N) : JsonEmitter N :=
  ((jsonPrintComma je).print [.string (cString str)]).setComma true

/-! ## What is emitted -/

/-- From `je` to `je'` one value is emitted, after the comma that was pending; one is pending
then. -/
def EmitsValue (je je' : JsonEmitter N) (value : Value (JsonNumber N)) : Prop :=
  je' = ⟨true, je.output ++ (separator je.printComma ++ tokens value)⟩

/-- Members of an object are emitted. -/
def EmitsMembers (je je' : JsonEmitter N) (members : List (Bytes × Value (JsonNumber N))) : Prop :=
  je' = ⟨je.printComma || !members.isEmpty, je.output ++ memberTokens je.printComma members⟩

/-- Elements of an array are emitted. -/
def EmitsElements (je je' : JsonEmitter N) (elements : List (Value (JsonNumber N))) : Prop :=
  je' = ⟨je.printComma || !elements.isEmpty, je.output ++ elementTokens je.printComma elements⟩

theorem jsonPrintComma_eq (je : JsonEmitter N) :
    jsonPrintComma je = ⟨false, je.output ++ separator je.printComma⟩ := by
  obtain ⟨printComma, output⟩ := je
  cases printComma <;> simp [jsonPrintComma, separator, JsonEmitter.print, JsonEmitter.setComma]

/-- A value that is a single token. -/
theorem emitsValue_token (je : JsonEmitter N) {value : Value (JsonNumber N)}
    {t : Token (JsonNumber N)} (h : tokens value = [t]) :
    EmitsValue je (((jsonPrintComma je).print [t]).setComma true) value := by
  rw [EmitsValue, jsonPrintComma_eq, h]
  simp only [JsonEmitter.print, JsonEmitter.setComma, List.append_assoc]

theorem emitsValue_boolean (value : UInt8) (je : JsonEmitter N) :
    EmitsValue je (jsonEmitBoolean value je) (.boolean (value != 0)) := emitsValue_token je rfl

theorem emitsValue_null (je : JsonEmitter N) : EmitsValue je (jsonEmitNull je) .null :=
  emitsValue_token je rfl

theorem emitsValue_integer (value : Int) (je : JsonEmitter N) :
    EmitsValue je (jsonEmitInteger value je) (.literal (.integer (value.bmod (2 ^ 32)))) :=
  emitsValue_token je rfl

theorem emitsValue_fileOffset (value : Nat) (je : JsonEmitter N) :
    EmitsValue je (jsonEmitFileOffset value je) (.literal (.integer value)) :=
  emitsValue_token je rfl

theorem emitsValue_string (str : Bytes) (je : JsonEmitter N) :
    EmitsValue je (jsonEmitString str je) (.string str) := emitsValue_token je rfl

theorem emitsValue_stringZ (str : Bytes) (je : JsonEmitter N) :
    EmitsValue je (jsonEmitStringZ str je) (.string (cString str)) := emitsValue_token je rfl

theorem emitsValue_number (isfinite : N → Bool) (x : N) (je : JsonEmitter N) :
    EmitsValue je (jsonEmitNumber isfinite x je)
      (if isfinite x then .literal (.number x) else .null) := by
  unfold jsonEmitNumber
  cases isfinite x with
  | true => exact emitsValue_token je rfl
  | false => exact emitsValue_null je

theorem EmitsMembers.refl (je : JsonEmitter N) : EmitsMembers je je [] := by
  simp [EmitsMembers, memberTokens]

theorem EmitsElements.refl (je : JsonEmitter N) : EmitsElements je je [] := by
  simp [EmitsElements, elementTokens]

/-- A key and its value. -/
theorem EmitsValue.member {key : Bytes} {je je' : JsonEmitter N} {value : Value (JsonNumber N)}
    (h : EmitsValue (jsonEmitObjectKey key je) je' value) : EmitsMembers je je' [(key, value)] := by
  rw [EmitsMembers, h]
  simp [jsonEmitObjectKey, jsonPrintComma_eq, JsonEmitter.print, JsonEmitter.setComma, memberTokens,
    separator]

theorem EmitsValue.memberZ {key : Bytes} {je je' : JsonEmitter N} {value : Value (JsonNumber N)}
    (h : EmitsValue (jsonEmitObjectKeyZ key je) je' value) (hkey : NulFree key) :
    EmitsMembers je je' [(key, value)] := by
  apply EmitsValue.member
  rw [jsonEmitObjectKeyZ, cString_of_nulFree hkey] at h
  exact h

theorem emitsMember_stringZ {key : Bytes} (hkey : NulFree key) (str : Bytes) (je : JsonEmitter N) :
    EmitsMembers je (jsonEmitStringZ str (jsonEmitObjectKeyZ key je))
      [(key, .string (cString str))] :=
  (emitsValue_stringZ str _).memberZ hkey

theorem EmitsValue.element {je je' : JsonEmitter N} {value : Value (JsonNumber N)}
    (h : EmitsValue je je' value) : EmitsElements je je' [value] := by
  rw [EmitsElements, h]
  simp [elementTokens]

theorem EmitsMembers.trans {je je' je'' : JsonEmitter N}
    {xs ys : List (Bytes × Value (JsonNumber N))} (h : EmitsMembers je je' xs)
    (h' : EmitsMembers je' je'' ys) : EmitsMembers je je'' (xs ++ ys) := by
  rw [EmitsMembers, h', h]
  cases xs <;> simp [memberTokens_append, memberTokens]

theorem EmitsElements.trans {je je' je'' : JsonEmitter N} {xs ys : List (Value (JsonNumber N))}
    (h : EmitsElements je je' xs) (h' : EmitsElements je' je'' ys) :
    EmitsElements je je'' (xs ++ ys) := by
  rw [EmitsElements, h', h]
  cases xs <;> simp [elementTokens_append, elementTokens]

theorem EmitsMembers.object {je je' : JsonEmitter N}
    {members : List (Bytes × Value (JsonNumber N))}
    (h : EmitsMembers (jsonEmitObjectStart je) je' members) :
    EmitsValue je (jsonEmitObjectEnd je') (.object members) := by
  rw [EmitsValue, h]
  simp [jsonEmitObjectEnd, jsonEmitObjectStart, jsonPrintComma_eq, JsonEmitter.print,
    JsonEmitter.setComma, tokens]

theorem EmitsElements.array {je je' : JsonEmitter N} {elements : List (Value (JsonNumber N))}
    (h : EmitsElements (jsonEmitArrayStart je) je' elements) :
    EmitsValue je (jsonEmitArrayEnd je') (.array elements) := by
  rw [EmitsValue, h]
  simp [jsonEmitArrayEnd, jsonEmitArrayStart, jsonPrintComma_eq, JsonEmitter.print,
    JsonEmitter.setComma, tokens]

end FlvMeta
