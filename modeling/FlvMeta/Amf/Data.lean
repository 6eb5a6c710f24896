import FlvMeta.Types

/-!
# AMF values in memory

`AmfData` is what an `amf_data` pointer can point to, the NULL pointer included. A list
(`amf_list`) is the sequence of its nodes' data; objects and associative arrays keep their
entries in one flat list of alternating names and values, as the program does. A string
carries the fact that its size fits in a `uint16`.

`amf_data_error` builds a null value with an error code, so a null value keeps its code; every
other value has the code `ok`. Allocations succeed.
-/

namespace FlvMeta

/-! ## Types and error codes -/

inductive AmfType where
  | number | boolean | string | object | null | undefined | associativeArray | endTag | array
  | date | xml | «class»
deriving DecidableEq, Repr

namespace AmfType

def code : AmfType → UInt8
  | number => 0x00
  | boolean => 0x01
  | string => 0x02
  | object => 0x03
  | null => 0x05
  | undefined => 0x06
  | associativeArray => 0x08
  | endTag => 0x09
  | array => 0x0A
  | date => 0x0B
  | xml => 0x0F
  | «class» => 0x10

/-- The type with a given code, `none` for the default branch of a `switch`. -/
def ofCode (b : UInt8) : Option AmfType :=
  [number, boolean, string, object, null, undefined, associativeArray, endTag, array, date, xml,
    «class»].find? fun t => t.code == b

@[simp] theorem ofCode_code (t : AmfType) : ofCode t.code = some t := by
  cases t <;> rfl

theorem code_inj {t u : AmfType} (h : t.code = u.code) : t = u := by
  have hof := congrArg ofCode h
  rwa [ofCode_code, ofCode_code, Option.some.injEq] at hof

end AmfType

inductive AmfError where
  | ok | eof | unknownType | endTag | nullPointer | memory | unsupportedType
deriving DecidableEq, Repr

/-! ## Values -/

structure AmfString where
  bytes : Bytes
  size_lt : bytes.length < 2 ^ 16
deriving DecidableEq, Repr

namespace AmfString

def size (s : AmfString) : Nat := s.bytes.length

@[ext] theorem ext {s t : AmfString} (h : s.bytes = t.bytes) : s = t := by
  cases s
  cases t
  cases h
  rfl

end AmfString

/-- `date` keeps the sixteen bits of its timezone; `other` is a value of a type without data
of its own (XML, class, end). -/
inductive AmfData (N : Type) where
  | nullPtr
  | number (x : N)
  | boolean (b : UInt8)
  | string (s : AmfString)
  | object (list : List (AmfData N))
  | null (errorCode : AmfError)
  | undefined
  | associativeArray (list : List (AmfData N))
  | array (list : List (AmfData N))
  | date (milliseconds : N) (timezone : UInt16)
  | other (type : UInt8)
deriving Repr

variable {N : Type}

namespace AmfData

def isNull : AmfData N → Bool
  | nullPtr => true
  | _ => false

/-- The `string_data` of a value; only meaningful on strings, where alone the program reads
it as long as lists alternate names and values. -/
def stringData : AmfData N → AmfString
  | string s => s
  | _ => ⟨[], by decide⟩

/-- The nodes of `list_data`. -/
def listData : AmfData N → List (AmfData N)
  | object l => l
  | associativeArray l => l
  | array l => l
  | _ => []

def withListData : AmfData N → List (AmfData N) → AmfData N
  | object _, l => object l
  | associativeArray _, l => associativeArray l
  | array _, l => array l
  | d, _ => d

end AmfData

def amfDataGetType : AmfData N → UInt8
  | .nullPtr => AmfType.null.code
  | .number _ => AmfType.number.code
  | .boolean _ => AmfType.boolean.code
  | .string _ => AmfType.string.code
  | .object _ => AmfType.object.code
  | .null _ => AmfType.null.code
  | .undefined => AmfType.undefined.code
  | .associativeArray _ => AmfType.associativeArray.code
  | .array _ => AmfType.array.code
  | .date _ _ => AmfType.date.code
  | .other type => type

def amfDataGetErrorCode : AmfData N → AmfError
  | .nullPtr => .nullPointer
  | .null errorCode => errorCode
  | _ => .ok

def amfDataError (errorCode : AmfError) : AmfData N := .null errorCode

@[simp] theorem amfDataGetErrorCode_error (e : AmfError) :
    amfDataGetErrorCode (amfDataError e : AmfData N) = e := rfl

theorem isNull_of_ok {data : AmfData N} (h : amfDataGetErrorCode data = .ok) :
    data.isNull = false := by
  cases data with
  | nullPtr => cases h
  | _ => rfl

/-! ## Strings -/

def amfStringNew (str : Bytes) (size : UInt16) : AmfData N :=
  .string ⟨str.take size.toNat, by
    have h := size.toNat_lt
    rw [List.length_take]
    omega⟩

/-- `amf_str`: the length is cut to a `uint16`. -/
def amfStr (str : Bytes) : AmfData N := amfStringNew str (UInt16.ofNat str.length)

def amfStringGetSize (data : AmfData N) : Nat := data.stringData.size

def amfStringGetBytes (data : AmfData N) : Bytes := data.stringData.bytes

/-- `strcmp(name, literal) == 0`. -/
def nameIs (name : AmfData N) (literal : String) : Bool :=
  cString (amfStringGetBytes name) == ascii literal

theorem amfStringGetSize_amfStr_le (str : Bytes) :
    amfStringGetSize (amfStr str : AmfData N) ≤ str.length := by
  simp only [amfStringGetSize, amfStr, amfStringNew, AmfData.stringData, AmfString.size,
    List.length_take]
  omega

theorem amfStr_bytes (s : AmfString) : amfStr s.bytes = (.string s : AmfData N) := by
  have h := s.size_lt
  have hsize : (UInt16.ofNat s.bytes.length).toNat = s.bytes.length := by
    rw [UInt16.toNat_ofNat']
    omega
  simp [amfStr, amfStringNew, hsize]

theorem amfStr_of_length_lt {str : Bytes} (h : str.length < 2 ^ 16) :
    amfStr str = (.string ⟨str, h⟩ : AmfData N) := amfStr_bytes ⟨str, h⟩

theorem amfStringNew_of_length {str : Bytes} {n : Nat} (hn : str.length = n) (h : n < 2 ^ 16) :
    amfStringNew str (UInt16.ofNat n) = (.string ⟨str, hn ▸ h⟩ : AmfData N) := by
  subst hn
  exact amfStr_of_length_lt h

/-! ## Lists, objects and associative arrays -/

/-- `amf_list_push`: the pushed pointer and the list after it. The list is flat: the size of the
source is a `uint32`, which is zero again behind `2^32` nodes, so lists of fewer nodes are meant
here. `AmfList.push` has the nodes and the size. -/
def amfListPush (list : List (AmfData N)) (data : AmfData N) : AmfData N × List (AmfData N) :=
  (data, list ++ [data])

def amfListPop (list : List (AmfData N)) : AmfData N × List (AmfData N) :=
  (list.getLastD .nullPtr, list.dropLast)

/-- `amf_object_add`, for lists of fewer than `2^32` nodes, as `amfListPush`. The second push
reports the pushed pointer, so for a NULL element it looks failed: its node is popped and the name
stays behind. -/
def amfObjectAdd (data : AmfData N) (name : Bytes) (element : AmfData N) :
    AmfData N × AmfData N :=
  if data.isNull then (.nullPtr, data)
  else
    let (p, list) := amfListPush data.listData (amfStr name)
    if p.isNull then (.nullPtr, data)
    else
      let (q, list) := amfListPush list element
      if q.isNull then (.nullPtr, data.withListData (amfListPop list).2)
      else (element, data.withListData list)

/-- The object after `amf_object_add`. -/
def AmfData.add (data : AmfData N) (name : Bytes) (element : AmfData N) : AmfData N :=
  (amfObjectAdd data name element).2

def amfObjectGetLoop (name : Bytes) : List (AmfData N) → AmfData N
  | [] => .nullPtr
  | [_] => .nullPtr
  | node :: element :: rest =>
    if strncmpEq (amfStringGetBytes node) name (amfStringGetSize node) then element
    else amfObjectGetLoop name rest

def amfObjectGet (data : AmfData N) (name : Bytes) : AmfData N :=
  amfObjectGetLoop name data.listData

@[simp] theorem isNull_amfStr (str : Bytes) : (amfStr str : AmfData N).isNull = false := rfl

theorem amfObjectAdd_eq {data element : AmfData N} (hd : data.isNull = false)
    (he : element.isNull = false) (name : Bytes) :
    amfObjectAdd data name element =
      (element, data.withListData (data.listData ++ [amfStr name, element])) := by
  simp [amfObjectAdd, amfListPush, hd, he]

@[simp] theorem add_object (l : List (AmfData N)) (name : Bytes) {element : AmfData N}
    (he : element.isNull = false) :
    (AmfData.object l).add name element = .object (l ++ [amfStr name, element]) := by
  rw [AmfData.add, amfObjectAdd_eq rfl he]
  rfl

@[simp] theorem add_associativeArray (l : List (AmfData N)) (name : Bytes) {element : AmfData N}
    (he : element.isNull = false) :
    (AmfData.associativeArray l).add name element =
      .associativeArray (l ++ [amfStr name, element]) := by
  rw [AmfData.add, amfObjectAdd_eq rfl he]
  rfl

/-- Adding a NULL element leaves its name alone at the end of the list. -/
theorem amfObjectAdd_null {data element : AmfData N} (hd : data.isNull = false)
    (he : element.isNull = true) (name : Bytes) :
    amfObjectAdd data name element =
      (.nullPtr, data.withListData (data.listData ++ [amfStr name])) := by
  have hpop : (data.listData ++ [amfStr name, element]).dropLast =
      data.listData ++ [amfStr name] := by
    rw [List.dropLast_append_of_ne_nil (by simp)]
    rfl
  simp [amfObjectAdd, amfListPush, amfListPop, hd, he, hpop]

@[simp] theorem add_associativeArray_nullPtr (l : List (AmfData N)) (name : Bytes) :
    (AmfData.associativeArray l).add name .nullPtr = .associativeArray (l ++ [amfStr name]) := by
  rw [AmfData.add, amfObjectAdd_null rfl rfl]
  rfl

/-! ## Dates -/

/-- `struct tm`. -/
structure Tm where
  tmSec : Int
  tmMin : Int
  tmHour : Int
  tmMday : Int
  tmMon : Int
  tmYear : Int
  tmWday : Int
  tmYday : Int
  tmIsdst : Int
deriving DecidableEq, Repr

/-- What the text of a date uses of the C library: `milliseconds / 1000` as a `time_t`,
`localtime`, which can give NULL, and `strftime`. -/
structure DateLibrary (N : Type) where
  amfDateToTimeT : N → Int
  localtime : Int → Option Tm
  strftime : Bytes → Tm → Bytes

/-- `amf_date_to_iso8601`: the text in the buffer. -/
def DateLibrary.amfDateToIso8601 (lib : DateLibrary N) (milliseconds : N) : Bytes :=
  match lib.localtime (lib.amfDateToTimeT milliseconds) with
  | some t => lib.strftime (ascii "%Y-%m-%dT%H:%M:%S") t
  | none => ascii "0000-00-00T00:00:00"

end FlvMeta
