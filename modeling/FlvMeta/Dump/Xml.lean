import FlvMeta.Amf.Reference
import FlvMeta.Base.Xml

/-!
# Dumping an AMF tree as XML

`xmlAmfDataDump` prints names between quotation marks as they are, and strings as text, or in a
section if they have a bracket. Read back, the text gives the tree exactly if no name has a
quotation mark, an ampersand or a `<`, no string outside a section has an ampersand, and no string
in a section has the end of one (`document_xmlAmfDataDump_iff`).
-/

namespace FlvMeta

open Xml

variable {N : Type}

/-- What the dump uses of the C library: `%.12g`, and what a date needs. -/
structure XmlLibrary (N : Type) extends DateLibrary N where
  formatNumber : N → Bytes

/-- `has_xml_markers`. -/
def hasXmlMarkers (str : Bytes) : Bool := str.any fun c => c == 0x3c || c == 0x3e

/-- The namespace `ns`, as it stands before a name. -/
def xmlNs (qualified : Int) : Bytes := if qualified = 1 then ascii "amf:" else []

/-- The definition of the namespace `ns_decl`, at the root of a document only. -/
def xmlNsDecl (qualified : Int) (indentLevel : ℕ) : Bytes :=
  if indentLevel = 0 then
    ascii " xmlns" ++ (xmlNs qualified ++ ascii "=\"http://schemas.flvmeta.org/AMF0/1.0/\"")
  else []

def xmlName (qualified : Int) (name : String) : Bytes := xmlNs qualified ++ ascii name

/-- `%*s` of the empty string. -/
def xmlSpaces (width : ℕ) : Bytes := List.replicate width 0x20

/-! ## The dump -/

section

variable (lib : XmlLibrary N) (qualified : Int)

/-- The start of a tag, with what comes after its name. -/
def xmlTag (indentLevel : ℕ) (name : String) (text : Bytes) : Bytes :=
  0x3c :: (xmlName qualified name ++ (xmlNsDecl qualified indentLevel ++ text))

def xmlEndTag (name : String) : Bytes := 0x3c :: 0x2f :: (xmlName qualified name ++ [0x3e, 0x0a])

/-- The rest of a tag with a value. -/
def xmlValue (value : Bytes) : Bytes := ascii " value=\"" ++ (value ++ ascii "\"/>\n")

/-- The text of a string, in a section if it has brackets. -/
def xmlText (s : Bytes) : Bytes :=
  if hasXmlMarkers s then ascii "<![CDATA[" ++ (cString s ++ ascii "]]>") else cString s

/-- An indented dump; there is none of NULL. -/
def xmlIndented (data : AmfData N) (indentLevel : ℕ) (text : Bytes) : Bytes :=
  if data.isNull then [] else xmlSpaces (indentLevel * 2) ++ text

/-- An entry, around the dump of its value. -/
def xmlEntry (name : AmfData N) (value : Bytes) (indentLevel : ℕ) : Bytes :=
  xmlSpaces ((indentLevel + 1) * 2) ++ (0x3c :: (xmlName qualified "entry" ++
    (ascii " name=\"" ++ (cString (amfStringGetBytes name) ++ (ascii "\">\n" ++
      (value ++ (xmlSpaces ((indentLevel + 1) * 2) ++ xmlEndTag qualified "entry")))))))

mutual

/-- The `switch` of `xml_amf_data_dump`. -/
def xmlSwitch : AmfData N → ℕ → Bytes
  | .nullPtr, _ => []
  | .number x, indentLevel =>
    xmlTag qualified indentLevel "number" (xmlValue (lib.formatNumber x))
  | .boolean b, indentLevel =>
    xmlTag qualified indentLevel "boolean"
      (xmlValue (if b != 0 then ascii "true" else ascii "false"))
  | .string s, indentLevel =>
    if 0 < s.size then
      xmlTag qualified indentLevel "string" (0x3e ::
        (xmlText s.bytes ++ xmlEndTag qualified "string"))
    else xmlTag qualified indentLevel "string" (ascii "/>\n")
  | .object list, indentLevel =>
    if 0 < amfListSize list / 2 then
      xmlTag qualified indentLevel "object" (ascii ">\n" ++ (xmlEntriesDump list indentLevel ++
        (xmlSpaces (indentLevel * 2) ++ xmlEndTag qualified "object")))
    else xmlTag qualified indentLevel "object" (ascii "/>\n")
  | .null _, indentLevel => xmlTag qualified indentLevel "null" (ascii "/>\n")
  | .undefined, indentLevel => xmlTag qualified indentLevel "undefined" (ascii "/>\n")
  | .associativeArray list, indentLevel =>
    if 0 < amfListSize list / 2 then
      xmlTag qualified indentLevel "associativeArray" (ascii ">\n" ++
        (xmlEntriesDump list indentLevel ++
          (xmlSpaces (indentLevel * 2) ++ xmlEndTag qualified "associativeArray")))
    else xmlTag qualified indentLevel "associativeArray" (ascii "/>\n")
  | .array list, indentLevel =>
    if 0 < amfListSize list then
      xmlTag qualified indentLevel "array" (ascii ">\n" ++ (xmlElementsDump list indentLevel ++
        (xmlSpaces (indentLevel * 2) ++ xmlEndTag qualified "array")))
    else xmlTag qualified indentLevel "array" (ascii "/>\n")
  | .date milliseconds _, indentLevel =>
    xmlTag qualified indentLevel "date"
      (xmlValue (cString (lib.amfDateToIso8601 milliseconds)))
  | .other _, _ => []

/-- The loop over names and values. A last name without a value is followed by the dump of NULL. -/
def xmlEntriesDump : List (AmfData N) → ℕ → Bytes
  | [], _ => []
  | [name], indentLevel => xmlEntry qualified name [] indentLevel
  | name :: value :: rest, indentLevel =>
    xmlEntry qualified name (xmlIndented value (indentLevel + 2)
      (xmlSwitch value (indentLevel + 2)))
      indentLevel ++ xmlEntriesDump rest indentLevel

def xmlElementsDump : List (AmfData N) → ℕ → Bytes
  | [], _ => []
  | element :: rest, indentLevel =>
    xmlIndented element (indentLevel + 1) (xmlSwitch element (indentLevel + 1)) ++
      xmlElementsDump rest indentLevel

end

end

/-- `xml_amf_data_dump`. -/
def xmlAmfDataDump (lib : XmlLibrary N) (qualified : Int) (data : AmfData N) (indentLevel : ℕ) :
    Bytes :=
  xmlIndented data indentLevel (xmlSwitch lib qualified data indentLevel)

/-! ## Reading back -/

/-- What is read back of a tree: its nesting, its names and its strings. -/
inductive XmlShape
  | string (codes : List Nat)
  | object (entries : List (List Nat × XmlShape))
  | associativeArray (entries : List (List Nat × XmlShape))
  | array (elements : List XmlShape)
  | leaf (type : AmfType)

def xmlKinds : List (String × AmfType) :=
  [("number", .number), ("boolean", .boolean), ("string", .string), ("object", .object),
    ("null", .null), ("undefined", .undefined), ("associativeArray", .associativeArray),
    ("array", .array), ("date", .date)]

/-- The type whose elements have a name. -/
def xmlKind (qualified : Int) (name : Bytes) : Option AmfType :=
  (xmlKinds.find? fun kind => xmlName qualified kind.1 == name).map Prod.snd

section

variable (qualified : Int)

mutual

def readXml : Node → Option XmlShape
  | .element name _ children =>
    match xmlKind qualified name with
    | none => none
    | some .string => (textOf children).map .string
    | some .object => (readXmlEntries children).map .object
    | some .associativeArray => (readXmlEntries children).map .associativeArray
    | some .array => (readXmlElements children).map .array
    | some type => if children.isEmpty then some (.leaf type) else none
  | _ => none

/-- Entries between white space, each with a name and one value. -/
def readXmlEntries : List Node → Option (List (List Nat × XmlShape))
  | [] => some []
  | .char code :: nodes => if code = 0x20 || code = 0x0a then readXmlEntries nodes else none
  | .element name attributes children :: nodes =>
    if name = xmlName qualified "entry" then
      match attributes.lookup (ascii "name"), readXmlElements children, readXmlEntries nodes with
      | some key, some [value], some entries => some ((key, value) :: entries)
      | _, _, _ => none
    else none
  | _ :: _ => none

/-- Elements between white space. -/
def readXmlElements : List Node → Option (List XmlShape)
  | [] => some []
  | .char code :: nodes => if code = 0x20 || code = 0x0a then readXmlElements nodes else none
  | node :: nodes =>
    match readXml node, readXmlElements nodes with
    | some value, some elements => some (value :: elements)
    | _, _ => none

end

end

mutual

/-- The nesting, the names and the strings of a tree. -/
def xmlShape : AmfData N → XmlShape
  | .string s => .string (s.bytes.map UInt8.toNat)
  | .object list => .object (xmlShapeEntries list)
  | .associativeArray list => .associativeArray (xmlShapeEntries list)
  | .array list => .array (xmlShapeElements list)
  | .number _ => .leaf .number
  | .boolean _ => .leaf .boolean
  | .undefined => .leaf .undefined
  | .date _ _ => .leaf .date
  | _ => .leaf .null

def xmlShapeEntries : List (AmfData N) → List (List Nat × XmlShape)
  | name :: value :: rest =>
    ((amfStringGetBytes name).map UInt8.toNat, xmlShape value) :: xmlShapeEntries rest
  | _ => []

def xmlShapeElements : List (AmfData N) → List XmlShape
  | [] => []
  | element :: rest => xmlShape element :: xmlShapeElements rest

end

/-! ## Conditions on the texts of a tree -/

section

variable (nameOk stringOk : Bytes → Prop) (lengthOk : ℕ → Prop)

mutual

/-- The names, the strings and the lengths of the lists of a tree have given properties. -/
def Everywhere : AmfData N → Prop
  | .string s => stringOk s.bytes
  | .object list => lengthOk list.length ∧ EverywhereEntries list
  | .associativeArray list => lengthOk list.length ∧ EverywhereEntries list
  | .array list => lengthOk list.length ∧ EverywhereElements list
  | _ => True

def EverywhereEntries : List (AmfData N) → Prop
  | name :: value :: rest =>
    nameOk (amfStringGetBytes name) ∧ Everywhere value ∧ EverywhereEntries rest
  | _ => True

def EverywhereElements : List (AmfData N) → Prop
  | [] => True
  | element :: rest => Everywhere element ∧ EverywhereElements rest

end

end

/-- Printable ASCII. -/
def PrintableText (text : Bytes) : Prop := ∀ c ∈ text, 0x20 ≤ c ∧ c < 0x7f

instance (text : Bytes) : Decidable (PrintableText text) :=
  List.decidableBAll (fun c => 0x20 ≤ c ∧ c < 0x7f) text

abbrev PrintableTree : AmfData N → Prop :=
  Everywhere PrintableText PrintableText fun _ => True

/-- A string that is read back from its text or its section. -/
def Enclosable (s : Bytes) : Prop :=
  if hasXmlMarkers s then ¬ cdataEnd <:+: s else ∀ c ∈ s, c ≠ 0x26

instance (s : Bytes) : Decidable (Enclosable s) :=
  inferInstanceAs (Decidable (if hasXmlMarkers s then ¬ cdataEnd <:+: s else ∀ c ∈ s, c ≠ 0x26))

/-- A list whose nodes are not counted as none. -/
def CountedNodes (length : ℕ) : Prop := length = 0 ∨ length % 2 ^ 32 ≠ 0

/-- The names and the strings have no character or sequence that is markup where they stand. -/
abbrev XmlFaithful : AmfData N → Prop :=
  Everywhere (Quotable 0x22) Enclosable CountedNodes

/-- The texts of the C library are printable, without the characters that are markup in a value. -/
structure XmlLibrary.Plain (lib : XmlLibrary N) : Prop where
  number : ∀ x, PrintableText (lib.formatNumber x) ∧ Quotable 0x22 (lib.formatNumber x)
  date : ∀ t, PrintableText (lib.strftime (ascii "%Y-%m-%dT%H:%M:%S") t) ∧
    Quotable 0x22 (lib.strftime (ascii "%Y-%m-%dT%H:%M:%S") t)

/-- So is the text of a date. -/
theorem XmlLibrary.Plain.iso8601 {lib : XmlLibrary N} (h : lib.Plain) (milliseconds : N) :
    PrintableText (lib.amfDateToIso8601 milliseconds) ∧
      Quotable 0x22 (lib.amfDateToIso8601 milliseconds) := by
  unfold DateLibrary.amfDateToIso8601
  split
  · exact h.date _
  · exact by decide

/-! ## What is read of the parts of a dump -/

variable {qualified : Int} {indentLevel : ℕ}

/-- A text that is read as one element. -/
def ReadsValue (qualified : Int) (text : Text) (value : XmlShape) (rest : Text) : Prop :=
  ∃ node, Nodes text [node] rest ∧ readXml qualified node = some value

theorem isXmlName_xmlName (qualified : Int) {name : String} (h : IsXmlName (ascii name)) :
    IsXmlName (xmlName qualified name) := by
  obtain ⟨hall, c, hc, hstart⟩ := h
  unfold xmlName xmlNs
  split
  · refine ⟨?_, 0x61, rfl, by decide⟩
    rw [List.all_append, hall, Bool.and_true]
    decide
  · exact ⟨hall, c, hc, hstart⟩

/-- The names of the elements are names. -/
theorem isXmlName_of_mem (kind : String × AmfType) (h : kind ∈ xmlKinds) :
    IsXmlName (ascii kind.1) := by
  revert h
  revert kind
  decide

theorem xmlKind_xmlName (qualified : Int) (name : String) :
    xmlKind qualified (xmlName qualified name) =
      (xmlKinds.find? fun kind => ascii kind.1 == ascii name).map Prod.snd := by
  unfold xmlKind
  congr 2
  funext kind
  rw [Bool.eq_iff_iff, beq_iff_eq, beq_iff_eq, xmlName, xmlName, List.append_cancel_left_eq]

theorem xmlTag_eq (hpos : 0 < indentLevel) (name : String) (text : Bytes) :
    xmlTag qualified indentLevel name text = 0x3c :: (xmlName qualified name ++ text) := by
  rw [xmlTag, xmlNsDecl, if_neg hpos.ne', List.nil_append]

theorem xmlValue_eq (value : Bytes) :
    xmlValue value = 0x20 :: (ascii "value" ++ 0x3d :: 0x22 ::
      (value ++ 0x22 :: 0x2f :: 0x3e :: [0x0a])) := by
  have hstart : ascii " value=\"" = 0x20 :: (ascii "value" ++ [0x3d, 0x22]) := by decide
  have hend : ascii "\"/>\n" = [0x22, 0x2f, 0x3e, 0x0a] := by decide
  rw [xmlValue, hstart, hend]
  simp

theorem PrintableText.isChar {text : Bytes} (h : PrintableText text) :
    ∀ c ∈ text, Xml.isChar c := by
  intro c hc
  obtain ⟨hlow, hhigh⟩ := h c hc
  by_cases hspace : c = 0x20
  · subst hspace
    decide
  · have hlt : 0x20 < c := UInt8.lt_of_le_of_ne hlow (Ne.symm hspace)
    have hlt' : c < 0x80 := UInt8.lt_trans hhigh (by decide)
    simp [Xml.isChar, hlt, hlt']

theorem PrintableText.cString_eq {text : Bytes} (h : PrintableText text) : cString text = text :=
  cString_of_nulFree fun c hc hzero => by
    subst hzero
    exact absurd (h 0 hc).1 (by decide)

theorem PrintableText.literal_eq {text : Bytes} (h : PrintableText text) :
    literal text = text.map UInt8.toNat := by
  refine List.map_congr_left fun c hc => ?_
  split
  · next hblank =>
    simp only [isBlank, Bool.or_eq_true, beq_iff_eq] at hblank
    rcases hblank with (rfl | rfl) | rfl
    · rfl
    · exact absurd (h _ hc).1 (by decide)
    · exact absurd (h _ hc).1 (by decide)
  · rfl

/-- An element without content. -/
theorem readsValue_empty_iff {name : String} (hname : IsXmlName (ascii name))
    (hpos : 0 < indentLevel)
    {text rest : Text} {value : XmlShape} :
    ReadsValue qualified (xmlTag qualified indentLevel name (ascii "/>\n") ++ text) value rest ↔
      readXml qualified (.element (xmlName qualified name) [] []) = some value ∧
        rest = 0x0a :: text := by
  have htext : ascii "/>\n" ++ text = 0x2f :: 0x3e :: 0x0a :: text := rfl
  rw [xmlTag_eq hpos, List.cons_append, List.append_assoc, htext]
  constructor
  · rintro ⟨node, hnode, hread⟩
    obtain ⟨rfl, rfl⟩ := (nodes_emptyTag_iff (isXmlName_xmlName qualified hname)).mp hnode
    exact ⟨hread, rfl⟩
  · rintro ⟨hread, rfl⟩
    exact ⟨_, (nodes_emptyTag_iff (isXmlName_xmlName qualified hname)).mpr ⟨rfl, rfl⟩, hread⟩

/-- An element with a value. -/
theorem readsValue_value_iff {name : String} (hname : IsXmlName (ascii name))
    (hpos : 0 < indentLevel)
    {s : Bytes} (hs : PrintableText s) (hquotable : Quotable 0x22 s) {text rest : Text}
    {value : XmlShape} :
    ReadsValue qualified (xmlTag qualified indentLevel name (xmlValue s) ++ text) value rest ↔
      readXml qualified (.element (xmlName qualified name) [(ascii "value", literal s)] []) =
        some value ∧ rest = 0x0a :: text := by
  have hkey : IsXmlName (ascii "value") := by decide
  have hnodes : ∀ {node rest}, Nodes (xmlTag qualified indentLevel name (xmlValue s) ++ text) [node]
      rest ↔ node = .element (xmlName qualified name) [(ascii "value", literal s)] [] ∧
        rest = 0x0a :: text := by
    intro node rest
    rw [← nodes_emptyTag_literal_iff (isXmlName_xmlName qualified hname) hkey hs.isChar hquotable,
      xmlTag_eq hpos, xmlValue_eq]
    simp
  constructor
  · rintro ⟨node, hnode, hread⟩
    obtain ⟨rfl, rfl⟩ := hnodes.mp hnode
    exact ⟨hread, rfl⟩
  · rintro ⟨hread, rfl⟩
    exact ⟨_, hnodes.mpr ⟨rfl, rfl⟩, hread⟩

/-- An element with content. -/
theorem readsValue_content_iff {name : String} (hname : IsXmlName (ascii name))
    (hpos : 0 < indentLevel)
    {content text rest : Text} {value : XmlShape} :
    ReadsValue qualified (xmlTag qualified indentLevel name (0x3e :: content) ++ text) value rest ↔
      ∃ children endText, Nodes (content ++ text) children endText ∧
        CloseTag endText (xmlName qualified name) rest ∧
        readXml qualified (.element (xmlName qualified name) [] children) = some value := by
  rw [xmlTag_eq hpos, List.cons_append, List.append_assoc, List.cons_append]
  constructor
  · rintro ⟨node, hnode, hread⟩
    obtain ⟨children, endText, hchildren, hend, rfl⟩ :=
      (nodes_startTag_iff (isXmlName_xmlName qualified hname)).mp hnode
    exact ⟨children, endText, hchildren, hend, hread⟩
  · rintro ⟨children, endText, hchildren, hend, hread⟩
    exact ⟨_, (nodes_startTag_iff (isXmlName_xmlName qualified hname)).mpr
      ⟨children, endText, hchildren, hend, rfl⟩, hread⟩

/-! ## Lists -/

theorem readXmlElements_blank (qualified : Int) {c : UInt8} (hc : c = 0x20 ∨ c = 0x0a)
    (nodes : List Node) :
    readXmlElements qualified (.char c.toNat :: nodes) = readXmlElements qualified nodes := by
  rcases hc with rfl | rfl
  · rfl
  · rfl

theorem readXmlEntries_blank (qualified : Int) {c : UInt8} (hc : c = 0x20 ∨ c = 0x0a)
    (nodes : List Node) :
    readXmlEntries qualified (.char c.toNat :: nodes) = readXmlEntries qualified nodes := by
  rcases hc with rfl | rfl
  · rfl
  · rfl

section

variable {α : Type} {read : List Node → Option α}

theorem yields_newline_iff
    (hblank : ∀ c : UInt8, c = 0x20 ∨ c = 0x0a → ∀ nodes, read (.char c.toNat :: nodes) =
      read nodes)
    {text stop : Text} {a : α} :
    Yields read (0x0a :: text) a (0x3c :: stop) ↔ Yields read text a (0x3c :: stop) :=
  yields_blank_iff (by decide) (hblank _ (.inr rfl))

theorem yields_spaces_iff
    (hblank : ∀ c : UInt8, c = 0x20 ∨ c = 0x0a → ∀ nodes, read (.char c.toNat :: nodes) =
      read nodes)
    (width : ℕ) {text stop : Text} {a : α} :
    Yields read (xmlSpaces width ++ text) a (0x3c :: stop) ↔ Yields read text a (0x3c :: stop) := by
  refine yields_blanks_iff ?_ ?_
  · intro c hc
    rw [List.eq_of_mem_replicate hc]
    decide
  · intro c hc
    exact hblank c (.inl (List.eq_of_mem_replicate hc))

/-- The content of a list ends with its end tag. -/
theorem yields_xmlEndTag_iff
    (hblank : ∀ c : UInt8, c = 0x20 ∨ c = 0x0a → ∀ nodes, read (.char c.toNat :: nodes) =
      read nodes)
    (qualified : Int) (width : ℕ) (name : String) (text : Text) {rest : Text} {a : α} :
    (∃ endText, Yields read (xmlSpaces width ++ (xmlEndTag qualified name ++ text)) a endText ∧
        CloseTag endText (xmlName qualified name) rest) ↔
      read [] = some a ∧ rest = 0x0a :: text := by
  have htext : xmlEndTag qualified name ++ text =
      0x3c :: 0x2f :: (xmlName qualified name ++ 0x3e :: 0x0a :: text) := by simp [xmlEndTag]
  rw [htext]
  constructor
  · rintro ⟨endText, hyields, hend⟩
    obtain ⟨blanks, -, rfl⟩ := id hend
    rw [yields_spaces_iff hblank, yields_end_iff] at hyields
    rw [hyields.2, closeTag_iff] at hend
    exact ⟨hyields.1, hend⟩
  · rintro ⟨hnil, rfl⟩
    exact ⟨_, (yields_spaces_iff hblank width).mpr (yields_end_iff.mpr ⟨hnil, rfl⟩),
      closeTag_iff.mpr rfl⟩

/-- An object or an array with content. -/
theorem readsValue_list_iff {name : String} (hname : IsXmlName (ascii name))
    (hpos : 0 < indentLevel)
    {wrap : α → XmlShape} (hwrap : Function.Injective wrap)
    (hread : ∀ children, readXml qualified (.element (xmlName qualified name) [] children) =
      (read children).map wrap)
    (hblank : ∀ c : UInt8, c = 0x20 ∨ c = 0x0a → ∀ nodes, read (.char c.toNat :: nodes) =
      read nodes)
    {a e : α} (hnil : read [] = some e) {content : Bytes} {P : Prop}
    (hcontent : ∀ tail stop, Yields read (content ++ tail) a (0x3c :: stop) ↔
      P ∧ Yields read tail e (0x3c :: stop)) (width : ℕ) {text rest : Text} :
    ReadsValue qualified (xmlTag qualified indentLevel name (ascii ">\n" ++
      (content ++ (xmlSpaces width ++ xmlEndTag qualified name))) ++ text) (wrap a) rest ↔
        P ∧ rest = 0x0a :: text := by
  have hstart : ∀ content : Bytes, ascii ">\n" ++ content = 0x3e :: 0x0a :: content := fun _ => rfl
  have hsplit : 0x0a :: (content ++ (xmlSpaces width ++ xmlEndTag qualified name)) ++ text =
      0x0a :: (content ++ (xmlSpaces width ++ (xmlEndTag qualified name ++ text))) := by simp
  rw [hstart, readsValue_content_iff hname hpos, hsplit]
  constructor
  · rintro ⟨children, endText, hchildren, hend, hvalue⟩
    rw [hread, Option.map_eq_some_iff] at hvalue
    obtain ⟨a', ha, heq⟩ := hvalue
    obtain rfl := hwrap heq
    obtain ⟨blanks, -, hendText⟩ := id hend
    have hyields : Yields read _ _ endText := ⟨children, hchildren, ha⟩
    rw [hendText, yields_newline_iff hblank, hcontent, ← hendText] at hyields
    obtain ⟨-, hrest⟩ := (yields_xmlEndTag_iff hblank qualified width name text).mp
      ⟨endText, hyields.2, hend⟩
    exact ⟨hyields.1, hrest⟩
  · rintro ⟨hP, rfl⟩
    obtain ⟨endText, hyields, hend⟩ :=
      (yields_xmlEndTag_iff hblank qualified width name text).mpr ⟨hnil, rfl⟩
    obtain ⟨blanks, -, hendText⟩ := id hend
    rw [hendText] at hyields
    obtain ⟨children, hchildren, ha⟩ :=
      (yields_newline_iff hblank).mpr ((hcontent _ _).mpr ⟨hP, hyields⟩)
    rw [← hendText] at hchildren
    exact ⟨children, endText, hchildren, hend, by rw [hread, ha, Option.map_some]⟩

end

theorem readXmlElements_cons_iff {node : Node} (h : node.IsElement) {nodes : List Node}
    {shape : XmlShape} {shapes : List XmlShape} :
    readXmlElements qualified (node :: nodes) = some (shape :: shapes) ↔
      readXml qualified node = some shape ∧ readXmlElements qualified nodes = some shapes := by
  cases node with
  | element name attributes children =>
    have hread : readXmlElements qualified (.element name attributes children :: nodes) =
        match readXml qualified (.element name attributes children),
          readXmlElements qualified nodes with
        | some value, some elements => some (value :: elements)
        | _, _ => none := rfl
    rw [hread]
    split
    · next hvalue helements => simp [hvalue, helements]
    · next hnone =>
      refine iff_of_false (by simp) ?_
      rintro ⟨hvalue, helements⟩
      exact hnone _ _ hvalue helements
  | _ => exact h.elim

theorem readXmlEntries_cons_iff {name : Text} {attributes : List (Text × List Nat)}
    {children nodes : List Node} {key : List Nat} {shape : XmlShape}
    {entries : List (List Nat × XmlShape)} :
    readXmlEntries qualified (.element name attributes children :: nodes) =
        some ((key, shape) :: entries) ↔
      name = xmlName qualified "entry" ∧ attributes.lookup (ascii "name") = some key ∧
        readXmlElements qualified children = some [shape] ∧
        readXmlEntries qualified nodes = some entries := by
  rw [readXmlEntries]
  split
  · next hname =>
    split
    · next hkey hchildren hnodes =>
      simp only [Option.some.injEq, List.cons.injEq, Prod.mk.injEq, hname, hkey, hchildren, hnodes,
        and_true, true_and, and_assoc]
    · next hnone =>
      refine iff_of_false (by simp) ?_
      rintro ⟨-, hkey, hchildren, hnodes⟩
      exact hnone _ _ _ hkey hchildren hnodes
  · next hname => exact iff_of_false (by simp) fun h => hname h.1

/-- An element of a list, with what follows it. -/
theorem yields_element_iff {name : Text} (hname : IsXmlName name) {dump content : Bytes}
    (hdump : dump = 0x3c :: (name ++ content)) {shape : XmlShape} {P : Prop}
    (hvalue : ∀ text rest, ReadsValue qualified (dump ++ text) shape rest ↔ P ∧ rest = 0x0a :: text)
    (width : ℕ) {text stop : Text} {shapes : List XmlShape} :
    Yields (readXmlElements qualified) (xmlSpaces width ++ dump ++ text) (shape :: shapes)
        (0x3c :: stop) ↔
      P ∧ Yields (readXmlElements qualified) text shapes (0x3c :: stop) := by
  have helement : ∀ {node text'}, Nodes (dump ++ text) [node] text' → node.IsElement := by
    intro node text' hnode
    rw [hdump, List.cons_append, List.append_assoc, nodes_tag_iff hname] at hnode
    rcases hnode with ⟨_, _, ⟨-, rfl⟩ | ⟨_, _, _, -, -, -, rfl⟩⟩
    · trivial
    · trivial
  rw [List.append_assoc, yields_spaces_iff fun _ hc => readXmlElements_blank qualified hc]
  constructor
  · rintro ⟨nodes, hnodes, hread⟩
    cases nodes with
    | nil => cases hread
    | cons node nodes =>
      obtain ⟨text', hnode, hrest⟩ := nodes_cons_iff.mp hnodes
      obtain ⟨hshape, hshapes⟩ := (readXmlElements_cons_iff (helement hnode)).mp hread
      obtain ⟨hP, rfl⟩ := (hvalue text text').mp ⟨node, hnode, hshape⟩
      exact ⟨hP, (yields_newline_iff fun _ hc => readXmlElements_blank qualified hc).mp
        ⟨nodes, hrest, hshapes⟩⟩
  · rintro ⟨hP, hrest⟩
    obtain ⟨node, hnode, hshape⟩ := (hvalue text (0x0a :: text)).mpr ⟨hP, rfl⟩
    obtain ⟨nodes, hnodes, hshapes⟩ :=
      (yields_newline_iff fun _ hc => readXmlElements_blank qualified hc).mpr hrest
    exact ⟨node :: nodes, nodes_cons_iff.mpr ⟨_, hnode, hnodes⟩,
      (readXmlElements_cons_iff (helement hnode)).mpr ⟨hshape, hshapes⟩⟩

theorem xmlEntry_eq {s : AmfString} (hs : PrintableText s.bytes) (dump text : Bytes) :
    xmlEntry qualified (.string s : AmfData N) dump indentLevel ++ text =
      xmlSpaces ((indentLevel + 1) * 2) ++ 0x3c :: (xmlName qualified "entry" ++ 0x20 ::
        (ascii "name" ++ 0x3d :: 0x22 :: (s.bytes ++ 0x22 :: 0x3e :: 0x0a :: (dump ++
          (xmlSpaces ((indentLevel + 1) * 2) ++ (xmlEndTag qualified "entry" ++ text)))))) := by
  have hstart : ascii " name=\"" = 0x20 :: (ascii "name" ++ [0x3d, 0x22]) := by decide
  have hend : ascii "\">\n" = [0x22, 0x3e, 0x0a] := by decide
  have hname : cString (amfStringGetBytes (.string s : AmfData N)) = s.bytes := hs.cString_eq
  rw [xmlEntry, hname, hstart, hend]
  simp

/-- An entry, with what follows it. -/
theorem yields_entry_iff {s : AmfString} (hs : PrintableText s.bytes) {dump : Bytes}
    {shape : XmlShape} {P : Prop}
    (hvalue : ∀ text stop, Yields (readXmlElements qualified) (dump ++ text) [shape]
      (0x3c :: stop) ↔ P ∧ Yields (readXmlElements qualified) text [] (0x3c :: stop))
    {text stop : Text} {entries : List (List Nat × XmlShape)} :
    Yields (readXmlEntries qualified)
        (xmlEntry qualified (.string s : AmfData N) dump indentLevel ++ text)
        ((s.bytes.map UInt8.toNat, shape) :: entries) (0x3c :: stop) ↔
      (Quotable 0x22 s.bytes ∧ P) ∧
        Yields (readXmlEntries qualified) text entries (0x3c :: stop) := by
  have hentry : IsXmlName (xmlName qualified "entry") := isXmlName_xmlName qualified (by decide)
  have hkey : IsXmlName (ascii "name") := by decide
  rw [xmlEntry_eq hs, yields_spaces_iff fun _ hc => readXmlEntries_blank qualified hc,
    ← hs.literal_eq]
  constructor
  · rintro ⟨nodes, hnodes, hread⟩
    cases nodes with
    | nil => cases hread
    | cons node nodes =>
      obtain ⟨text', hnode, hrest⟩ := nodes_cons_iff.mp hnodes
      have helement : node.IsElement := by
        rcases (nodes_tag_iff hentry).mp hnode with ⟨_, _, ⟨-, rfl⟩ | ⟨_, _, _, -, -, -, rfl⟩⟩
        · trivial
        · trivial
      cases node with
      | element name attributes children =>
        obtain ⟨-, hname, hchildren, hentries⟩ := readXmlEntries_cons_iff.mp hread
        have hquotable := quotable_of_nodes hentry hkey hnode hname
        obtain ⟨_, endText, hcontent, hend, heq⟩ :=
          (nodes_startTag_literal_iff hentry hkey hs.isChar hquotable).mp hnode
        cases heq
        obtain ⟨blanks, -, hendText⟩ := id hend
        have hyields : Yields (readXmlElements qualified) _ _ endText := ⟨_, hcontent, hchildren⟩
        rw [hendText, yields_newline_iff fun _ hc => readXmlElements_blank qualified hc, hvalue,
          ← hendText] at hyields
        obtain ⟨-, rfl⟩ := (yields_xmlEndTag_iff
          (fun _ hc => readXmlElements_blank qualified hc) qualified _ _ _).mp
          ⟨endText, hyields.2, hend⟩
        exact ⟨⟨hquotable, hyields.1⟩, (yields_newline_iff fun _ hc =>
          readXmlEntries_blank qualified hc).mp ⟨nodes, hrest, hentries⟩⟩
      | _ => exact helement.elim
  · rintro ⟨⟨hquotable, hP⟩, hrest⟩
    obtain ⟨endText, hyields, hend⟩ :=
      (yields_xmlEndTag_iff (fun _ hc => readXmlElements_blank qualified hc) qualified
        ((indentLevel + 1) * 2) "entry" text).mpr ⟨rfl, rfl⟩
    obtain ⟨blanks, -, hendText⟩ := id hend
    rw [hendText] at hyields
    obtain ⟨children, hcontent, hchildren⟩ :=
      (yields_newline_iff fun _ hc => readXmlElements_blank qualified hc).mpr
        ((hvalue _ _).mpr ⟨hP, hyields⟩)
    rw [← hendText] at hcontent
    obtain ⟨nodes, hnodes, hentries⟩ :=
      (yields_newline_iff fun _ hc => readXmlEntries_blank qualified hc).mpr hrest
    exact ⟨_, nodes_cons_iff.mpr ⟨_, (nodes_startTag_literal_iff hentry hkey hs.isChar
      hquotable).mpr ⟨children, endText, hcontent, hend, rfl⟩, hnodes⟩,
      readXmlEntries_cons_iff.mpr ⟨rfl, List.lookup_cons_self, hchildren, hentries⟩⟩

/-! ## Trees -/

/-- The tag of a tree. -/
theorem exists_xmlSwitch_eq (lib : XmlLibrary N) (qualified : Int) {data : AmfData N}
    (h : Supported data) (hpos : 0 < indentLevel) :
    ∃ name content, IsXmlName name ∧ xmlSwitch lib qualified data indentLevel =
      0x3c :: (name ++ content) := by
  have htag : ∀ kind ∈ xmlKinds, ∀ content : Bytes, ∃ name content', IsXmlName name ∧
      xmlTag qualified indentLevel kind.1 content = 0x3c :: (name ++ content') :=
    fun kind hkind content => ⟨xmlName qualified kind.1, content,
      isXmlName_xmlName qualified (isXmlName_of_mem kind hkind), xmlTag_eq hpos _ _⟩
  cases data with
  | nullPtr => exact h.elim
  | number x => exact htag ("number", .number) (by decide) _
  | boolean b => exact htag ("boolean", .boolean) (by decide) _
  | string s =>
    rw [xmlSwitch]
    split
    · exact htag ("string", .string) (by decide) _
    · exact htag ("string", .string) (by decide) _
  | object list =>
    rw [xmlSwitch]
    split
    · exact htag ("object", .object) (by decide) _
    · exact htag ("object", .object) (by decide) _
  | null errorCode => exact htag ("null", .null) (by decide) _
  | undefined => exact htag ("undefined", .undefined) (by decide) _
  | associativeArray list =>
    rw [xmlSwitch]
    split
    · exact htag ("associativeArray", .associativeArray) (by decide) _
    · exact htag ("associativeArray", .associativeArray) (by decide) _
  | array list =>
    rw [xmlSwitch]
    split
    · exact htag ("array", .array) (by decide) _
    · exact htag ("array", .array) (by decide) _
  | date milliseconds timezone => exact htag ("date", .date) (by decide) _
  | other type => exact h.elim

theorem readXml_leaf (qualified : Int) (kind : String × AmfType)
    (h : kind ∈ [("number", .number), ("boolean", .boolean), ("null", .null),
      ("undefined", .undefined), ("date", AmfType.date)])
    (attributes : List (Text × List Nat)) :
    readXml qualified (.element (xmlName qualified kind.1) attributes []) =
      some (.leaf kind.2) := by
  rw [readXml, xmlKind_xmlName]
  simp only [List.mem_cons, List.not_mem_nil, or_false] at h
  rcases h with rfl | rfl | rfl | rfl | rfl
  · rfl
  · rfl
  · rfl
  · rfl
  · rfl

/-- A list is read back from its entries or elements unless its nodes are counted as none. -/
theorem readsValue_counted_iff {α : Type} {read : List Node → Option α} {name : String}
    (hname : IsXmlName (ascii name)) (hpos : 0 < indentLevel) {wrap : α → XmlShape}
    (hwrap : Function.Injective wrap)
    (hread : ∀ children, readXml qualified (.element (xmlName qualified name) [] children) =
      (read children).map wrap)
    (hblank : ∀ c : UInt8, c = 0x20 ∨ c = 0x0a → ∀ nodes, read (.char c.toNat :: nodes) =
      read nodes)
    {a e : α} (hnil : read [] = some e) {content : Bytes} {P : Prop}
    (hcontent : ∀ tail stop, Yields read (content ++ tail) a (0x3c :: stop) ↔
      P ∧ Yields read tail e (0x3c :: stop))
    {size length : ℕ} (hsize : 0 < size ↔ length % 2 ^ 32 ≠ 0) (hempty : a = e ↔ length = 0)
    (hP : length = 0 → P) (width : ℕ) {text rest : Text} :
    ReadsValue qualified ((if 0 < size then
        xmlTag qualified indentLevel name (ascii ">\n" ++ (content ++
          (xmlSpaces width ++ xmlEndTag qualified name)))
      else xmlTag qualified indentLevel name (ascii "/>\n")) ++ text) (wrap a) rest ↔
      (CountedNodes length ∧ P) ∧ rest = 0x0a :: text := by
  split
  · next hcount =>
    have hcounted : CountedNodes length := .inr (hsize.mp hcount)
    rw [readsValue_list_iff hname hpos hwrap hread hblank hnil hcontent]
    exact and_congr_left' (iff_and_self.mpr fun _ => hcounted)
  · next hcount =>
    have hmod : length % 2 ^ 32 = 0 := not_not.mp fun hne => hcount (hsize.mpr hne)
    rw [readsValue_empty_iff hname hpos, hread, hnil, Option.map_some, Option.some.injEq,
      hwrap.eq_iff, eq_comm, hempty]
    refine and_congr_left' ⟨fun hzero => ⟨.inl hzero, hP hzero⟩, ?_⟩
    rintro ⟨hzero | hne, -⟩
    · exact hzero
    · exact absurd hmod hne

/-- Text with brackets is printed in a section, other text as it is. -/
theorem yields_xmlText_iff {s : Bytes} (hs : PrintableText s) {text stop : Text} :
    Yields textOf (xmlText s ++ 0x3c :: 0x2f :: text) (s.map UInt8.toNat) (0x3c :: 0x2f :: stop) ↔
      Enclosable s ∧ stop = text := by
  have hsection : ascii "<![CDATA[" = cdataStart ∧ ascii "]]>" = cdataEnd := by decide
  unfold Enclosable xmlText
  rw [hs.cString_eq, hsection.1, hsection.2]
  split
  · rw [List.append_assoc, List.append_assoc]
    exact text_section_iff hs.isChar
  · next hmarkers =>
    have hplain : ∀ c ∈ s, c ≠ 0x3c ∧ c ≠ 0x3e := by
      simpa [hasXmlMarkers] using hmarkers
    have hend : ¬ cdataEnd <:+: s := fun hin =>
      (hplain 0x3e (hin.subset (by decide))).2 rfl
    exact text_literal_iff hs.isChar (fun c hc => (hplain c hc).1) hend

theorem readsValue_string_iff (lib : XmlLibrary N) {s : AmfString} (hs : PrintableText s.bytes)
    (hpos : 0 < indentLevel) {text rest : Text} :
    ReadsValue qualified (xmlSwitch lib qualified (.string s) indentLevel ++ text)
        (.string (s.bytes.map UInt8.toNat)) rest ↔
      Enclosable s.bytes ∧ rest = 0x0a :: text := by
  have hname : IsXmlName (ascii "string") := isXmlName_of_mem ("string", .string) (by decide)
  have hread : ∀ children, readXml qualified (.element (xmlName qualified "string") [] children) =
      (textOf children).map .string := by
    intro children
    rw [readXml, xmlKind_xmlName]
    rfl
  rw [xmlSwitch]
  split
  · have htext : xmlText s.bytes ++ xmlEndTag qualified "string" ++ text = xmlText s.bytes ++
        0x3c :: 0x2f :: (xmlName qualified "string" ++ 0x3e :: 0x0a :: text) := by simp [xmlEndTag]
    rw [readsValue_content_iff hname hpos, htext]
    constructor
    · rintro ⟨children, endText, hchildren, hend, hvalue⟩
      rw [hread, Option.map_eq_some_iff] at hvalue
      obtain ⟨codes, hcodes, heq⟩ := hvalue
      obtain rfl := XmlShape.string.inj heq
      obtain ⟨blanks, -, rfl⟩ := id hend
      obtain ⟨henclosable, hstop⟩ := (yields_xmlText_iff hs).mp ⟨children, hchildren, hcodes⟩
      rw [hstop, closeTag_iff] at hend
      exact ⟨henclosable, hend⟩
    · rintro ⟨henclosable, rfl⟩
      obtain ⟨children, hchildren, hcodes⟩ := (yields_xmlText_iff hs).mpr ⟨henclosable, rfl⟩
      exact ⟨children, _, hchildren, closeTag_iff.mpr rfl, by rw [hread, hcodes, Option.map_some]⟩
  · next hsize =>
    have hnil : s.bytes = [] := List.eq_nil_of_length_eq_zero (Nat.eq_zero_of_not_pos hsize)
    rw [readsValue_empty_iff hname hpos, hread, hnil]
    exact and_congr_left' (iff_of_true rfl (by simp [Enclosable, hasXmlMarkers]))

theorem xmlShapeEntries_eq_nil_iff {list : List (AmfData N)} (h : SupportedEntries list) :
    xmlShapeEntries list = [] ↔ list.length = 0 := by
  match list, h with
  | [], _ => exact iff_of_true rfl rfl
  | [_], h => exact absurd h id
  | _ :: _ :: _, _ => exact iff_of_false (by simp [xmlShapeEntries]) (by simp)

theorem xmlShapeElements_eq_nil_iff (list : List (AmfData N)) :
    xmlShapeElements list = [] ↔ list.length = 0 := by
  cases list with
  | nil => exact iff_of_true rfl rfl
  | cons element rest => exact iff_of_false (by simp [xmlShapeElements]) (by simp)

/-- The entries of a supported list are counted as none where its nodes are. -/
theorem entries_counted_iff {list : List (AmfData N)} (h : SupportedEntries list) :
    0 < amfListSize list / 2 ↔ list.length % 2 ^ 32 ≠ 0 := by
  obtain ⟨count, hcount⟩ := h.even
  rw [amfListSize, hcount]
  omega

mutual

/-- A tree is read back from its element exactly if it is faithful. -/
theorem readsValue_xmlSwitch_iff {lib : XmlLibrary N} (hlib : lib.Plain) (qualified : Int)
    (data : AmfData N)
    (h : Supported data) (hprintable : PrintableTree data) {indentLevel : ℕ}
    (hpos : 0 < indentLevel) (text rest : Text) :
    ReadsValue qualified (xmlSwitch lib qualified data indentLevel ++ text) (xmlShape data) rest ↔
      XmlFaithful data ∧ rest = 0x0a :: text := by
  cases data with
  | nullPtr => exact h.elim
  | number x =>
    rw [xmlSwitch, readsValue_value_iff (isXmlName_of_mem ("number", .number) (by decide))
      hpos (hlib.number x).1 (hlib.number x).2, readXml_leaf qualified ("number", .number)
      (by decide)]
    exact and_congr_left' (iff_of_true rfl trivial)
  | boolean b =>
    have hplain : ∀ value : Bytes, value = ascii "true" ∨ value = ascii "false" →
        PrintableText value ∧ Quotable 0x22 value := by
      rintro value (rfl | rfl)
      · decide
      · decide
    obtain ⟨hvalue, hquotable⟩ := hplain (if b != 0 then ascii "true" else ascii "false")
      (by split <;> simp)
    rw [xmlSwitch, readsValue_value_iff (isXmlName_of_mem ("boolean", .boolean) (by decide))
      hpos hvalue hquotable, readXml_leaf qualified ("boolean", .boolean) (by decide)]
    exact and_congr_left' (iff_of_true rfl trivial)
  | string s => exact readsValue_string_iff lib hprintable hpos
  | object list =>
    have hread : ∀ children, readXml qualified (.element (xmlName qualified "object") [] children) =
        (readXmlEntries qualified children).map .object := by
      intro children
      rw [readXml, xmlKind_xmlName]
      rfl
    refine readsValue_counted_iff (isXmlName_of_mem ("object", .object) (by decide)) hpos
      (fun _ _ => XmlShape.object.inj) hread (fun _ hc => readXmlEntries_blank qualified hc) rfl
      (fun tail stop => ?_) (entries_counted_iff h) (xmlShapeEntries_eq_nil_iff h)
      (fun hzero => ?_) _
    · simpa using yields_xmlEntriesDump_iff hlib qualified list h hprintable.2 hpos tail stop []
    · rw [List.eq_nil_of_length_eq_zero hzero]
      trivial
  | null errorCode =>
    rw [xmlSwitch, readsValue_empty_iff (isXmlName_of_mem ("null", .null) (by decide)) hpos,
      readXml_leaf qualified ("null", .null) (by decide)]
    exact and_congr_left' (iff_of_true rfl trivial)
  | undefined =>
    rw [xmlSwitch, readsValue_empty_iff (isXmlName_of_mem ("undefined", .undefined)
      (by decide)) hpos, readXml_leaf qualified ("undefined", .undefined) (by decide)]
    exact and_congr_left' (iff_of_true rfl trivial)
  | associativeArray list =>
    have hread : ∀ children, readXml qualified (.element (xmlName qualified "associativeArray") []
        children) = (readXmlEntries qualified children).map .associativeArray := by
      intro children
      rw [readXml, xmlKind_xmlName]
      rfl
    refine readsValue_counted_iff (isXmlName_of_mem ("associativeArray", .associativeArray)
      (by decide)) hpos (fun _ _ => XmlShape.associativeArray.inj) hread
      (fun _ hc => readXmlEntries_blank qualified hc) rfl (fun tail stop => ?_)
        (entries_counted_iff h)
      (xmlShapeEntries_eq_nil_iff h) (fun hzero => ?_) _
    · simpa using yields_xmlEntriesDump_iff hlib qualified list h hprintable.2 hpos tail stop []
    · rw [List.eq_nil_of_length_eq_zero hzero]
      trivial
  | array list =>
    have hread : ∀ children, readXml qualified (.element (xmlName qualified "array") [] children) =
        (readXmlElements qualified children).map .array := by
      intro children
      rw [readXml, xmlKind_xmlName]
      rfl
    refine readsValue_counted_iff (isXmlName_of_mem ("array", .array) (by decide)) hpos
      (fun _ _ => XmlShape.array.inj) hread (fun _ hc => readXmlElements_blank qualified hc) rfl
      (fun tail stop => ?_) Nat.pos_iff_ne_zero (xmlShapeElements_eq_nil_iff list)
      (fun hzero => ?_) _
    · simpa using yields_xmlElementsDump_iff hlib qualified list h hprintable.2 hpos tail stop []
    · rw [List.eq_nil_of_length_eq_zero hzero]
      trivial
  | date milliseconds timezone =>
    obtain ⟨hvalue, hquotable⟩ := hlib.iso8601 milliseconds
    rw [xmlSwitch, hvalue.cString_eq, readsValue_value_iff (isXmlName_of_mem ("date", .date)
      (by decide)) hpos hvalue hquotable, readXml_leaf qualified ("date", .date)
      (by decide)]
    exact and_congr_left' (iff_of_true rfl trivial)
  | other type => exact h.elim

theorem yields_xmlEntriesDump_iff {lib : XmlLibrary N} (hlib : lib.Plain) (qualified : Int)
    (list : List (AmfData N))
    (h : SupportedEntries list)
    (hprintable : EverywhereEntries PrintableText PrintableText (fun _ => True) list)
    {indentLevel : ℕ} (hpos : 0 < indentLevel) (text stop : Text)
    (entries : List (List Nat × XmlShape)) :
    Yields (readXmlEntries qualified) (xmlEntriesDump lib qualified list indentLevel ++ text)
        (xmlShapeEntries list ++ entries) (0x3c :: stop) ↔
      EverywhereEntries (Quotable 0x22) Enclosable CountedNodes list ∧
        Yields (readXmlEntries qualified) text entries (0x3c :: stop) :=
  match list, h, hprintable with
  | [], _, _ => (and_iff_right trivial).symm
  | [_], h, _ => absurd h id
  | _ :: value :: rest, ⟨⟨s, hname⟩, hvalue, hrest⟩,
      ⟨hprintableName, hprintable, hprintableRest⟩ => by
    subst hname
    obtain ⟨name, content, hname, hdump⟩ :=
      exists_xmlSwitch_eq lib qualified hvalue (Nat.succ_pos (indentLevel + 1))
    have hindented : ∀ text stop, Yields (readXmlElements qualified)
        (xmlIndented value (indentLevel + 2) (xmlSwitch lib qualified value (indentLevel + 2)) ++
          text)
        [xmlShape value] (0x3c :: stop) ↔ XmlFaithful value ∧
          Yields (readXmlElements qualified) text [] (0x3c :: stop) := by
      intro text stop
      rw [xmlIndented, hvalue.isNull, if_neg (by decide)]
      exact yields_element_iff hname hdump
        (readsValue_xmlSwitch_iff hlib qualified value hvalue hprintable (Nat.succ_pos _)) _
    have hkey : amfStringGetBytes (.string s : AmfData N) = s.bytes := rfl
    rw [xmlEntriesDump, List.append_assoc, xmlShapeEntries, List.cons_append, hkey]
    rw [yields_entry_iff (s := s) hprintableName hindented,
      yields_xmlEntriesDump_iff hlib qualified rest hrest hprintableRest hpos text stop entries]
    rw [EverywhereEntries, and_assoc, and_assoc, and_assoc]
    rfl

theorem yields_xmlElementsDump_iff {lib : XmlLibrary N} (hlib : lib.Plain) (qualified : Int)
    (list : List (AmfData N)) (h : SupportedElements list)
    (hprintable : EverywhereElements PrintableText PrintableText (fun _ => True) list)
    {indentLevel : ℕ} (hpos : 0 < indentLevel) (text stop : Text) (shapes : List XmlShape) :
    Yields (readXmlElements qualified) (xmlElementsDump lib qualified list indentLevel ++ text)
        (xmlShapeElements list ++ shapes) (0x3c :: stop) ↔
      EverywhereElements (Quotable 0x22) Enclosable CountedNodes list ∧
        Yields (readXmlElements qualified) text shapes (0x3c :: stop) :=
  match list, h, hprintable with
  | [], _, _ => (and_iff_right trivial).symm
  | element :: rest, ⟨helement, hrest⟩, ⟨hprintable, hprintableRest⟩ => by
    obtain ⟨name, content, hname, hdump⟩ :=
      exists_xmlSwitch_eq lib qualified helement (Nat.succ_pos indentLevel)
    rw [xmlElementsDump, List.append_assoc, xmlShapeElements, List.cons_append, xmlIndented,
      helement.isNull, if_neg (by decide)]
    rw [yields_element_iff hname hdump (readsValue_xmlSwitch_iff hlib qualified element helement
      hprintable (Nat.succ_pos _)),
      yields_xmlElementsDump_iff hlib qualified rest hrest hprintableRest hpos text stop shapes]
    rw [EverywhereElements, and_assoc]

end

/-- What starts with an element starts with a bracket. -/
theorem head_of_nodes {text rest : Text} {root : Node} (hroot : root.IsElement)
    (h : Nodes text [root] rest) : ∃ content, text = 0x3c :: content := by
  cases h with
  | emptyElement htag =>
    obtain ⟨-, -, tag, blanks, rfl, -⟩ := htag
    exact ⟨_, rfl⟩
  | element htag =>
    obtain ⟨-, -, tag, blanks, rfl, -⟩ := htag
    exact ⟨_, rfl⟩
  | _ => exact hroot.elim

theorem xmlAmfDataDump_eq (lib : XmlLibrary N) (qualified : Int) {data : AmfData N}
    (h : Supported data) (indentLevel : ℕ) :
    xmlAmfDataDump lib qualified data indentLevel =
      xmlSpaces (indentLevel * 2) ++ xmlSwitch lib qualified data indentLevel := by
  rw [xmlAmfDataDump, xmlIndented, h.isNull, if_neg (by decide)]

theorem blanks_xmlSpaces (width : ℕ) : Blanks (xmlSpaces width) := by
  intro c hc
  rw [List.eq_of_mem_replicate hc]
  decide

/-- Only a faithful tree is read back from its dump. -/
theorem faithful_of_document {lib : XmlLibrary N} (hlib : lib.Plain) {data : AmfData N}
    (h : Supported data) (hprintable : PrintableTree data) (hpos : 0 < indentLevel) {root : Node}
    (hroot : Document (xmlAmfDataDump lib qualified data indentLevel) root)
    (hread : readXml qualified root = some (xmlShape data)) : XmlFaithful data := by
  obtain ⟨before, start, after, htext, hbefore, -, helement, hnodes⟩ := hroot
  obtain ⟨content, rfl⟩ := head_of_nodes helement hnodes
  obtain ⟨name, content', -, hswitch⟩ := exists_xmlSwitch_eq lib qualified h hpos
  rw [xmlAmfDataDump_eq lib qualified h, hswitch] at htext
  obtain ⟨-, hstart⟩ := split_unique htext (blanks_xmlSpaces _) hbefore
    (by
      rintro c ⟨⟩
      decide)
    (by
      rintro c ⟨⟩
      decide)
  rw [← hstart, ← hswitch, ← List.append_nil (xmlSwitch _ _ _ _)] at hnodes
  exact ((readsValue_xmlSwitch_iff hlib qualified data h hprintable hpos [] after).mp
    ⟨root, hnodes, hread⟩).1

theorem exists_document {lib : XmlLibrary N} (hlib : lib.Plain) {data : AmfData N}
    (h : Supported data) (hprintable : PrintableTree data) (hpos : 0 < indentLevel)
    (hfaithful : XmlFaithful data) :
    ∃ root, Document (xmlAmfDataDump lib qualified data indentLevel) root ∧
      readXml qualified root = some (xmlShape data) := by
  obtain ⟨root, hnodes, hread⟩ := (readsValue_xmlSwitch_iff hlib qualified data h
    hprintable hpos [] [0x0a]).mpr ⟨hfaithful, rfl⟩
  have hroot : root.IsElement := by
    cases root with
    | element => trivial
    | _ => cases hread
  rw [xmlAmfDataDump_eq lib qualified h]
  rw [List.append_nil] at hnodes
  exact ⟨root, ⟨_, _, _, rfl, blanks_xmlSpaces _, by decide, hroot, hnodes⟩, hread⟩

/-- The dump of a printable tree is one XML element from which the nesting, the names and the
strings are read back if and only if no name has a quotation mark, an ampersand or a `<`, no string
without brackets has an ampersand, no string with brackets has the end of a section, and no list is
so long that its nodes are counted as none. -/
theorem document_xmlAmfDataDump_iff {lib : XmlLibrary N} (hlib : lib.Plain) (qualified : Int)
    (data : AmfData N) (h : Supported data) (hprintable : PrintableTree data) {indentLevel : ℕ}
    (hpos : 0 < indentLevel) :
    (∃ root, Document (xmlAmfDataDump lib qualified data indentLevel) root ∧
        readXml qualified root = some (xmlShape data)) ↔ XmlFaithful data := by
  constructor
  · rintro ⟨root, hroot, hread⟩
    exact faithful_of_document hlib h hprintable hpos hroot hread
  · exact exists_document hlib h hprintable hpos

/-- A library for numbers that are 1. -/
def oneLibrary : XmlLibrary ℚ where
  formatNumber := fun _ => ascii "1"
  amfDateToTimeT := fun _ => 0
  localtime := fun _ => some ⟨0, 0, 0, 1, 0, 70, 4, 0, 0⟩
  strftime := fun _ _ => ascii "1970-01-01T00:00:00"

theorem oneLibrary_plain : oneLibrary.Plain where
  number := fun _ => (by decide : PrintableText (ascii "1") ∧ Quotable 0x22 (ascii "1"))
  date := fun _ => (by decide : PrintableText (ascii "1970-01-01T00:00:00") ∧
    Quotable 0x22 (ascii "1970-01-01T00:00:00"))

/-- An object with a string in a section, and an array. -/
def bracketTree : AmfData ℚ :=
  .object [amfStr (ascii "it's"), amfStr (ascii "a < b && b > c"), amfStr (ascii "list"),
    .array [.number 1, amfStr (ascii "]] >"), .null .ok]]

theorem document_xmlAmfDataDump_iff_brackets :
    ∃ root, Document (xmlAmfDataDump oneLibrary 1 bracketTree 3) root ∧
      readXml 1 root = some (xmlShape bracketTree) :=
  (document_xmlAmfDataDump_iff oneLibrary_plain 1 bracketTree
    (by simp [bracketTree, Supported, SupportedEntries, SupportedElements, amfStr, amfStringNew])
    (by
      simp only [bracketTree, PrintableTree, amfStr, amfStringNew, Everywhere, EverywhereEntries,
        EverywhereElements]
      decide) (by decide)).mpr (by
      simp only [bracketTree, XmlFaithful, amfStr, amfStringNew, Everywhere, EverywhereEntries,
        EverywhereElements, CountedNodes]
      decide)

/-- `a&b` is not even well formed as it is printed. -/
theorem not_document_xmlAmfDataDump :
    ¬ ∀ (lib : XmlLibrary ℚ), lib.Plain → ∀ (qualified : Int) (data : AmfData ℚ),
      Supported data → PrintableTree data → ∀ indentLevel : ℕ, 0 < indentLevel →
      ∃ root, Document (xmlAmfDataDump lib qualified data indentLevel) root ∧
        readXml qualified root = some (xmlShape data) := by
  intro h
  have hprintable : PrintableTree (.string ⟨ascii "a&b", by decide⟩ : AmfData ℚ) :=
    (by decide : PrintableText (ascii "a&b"))
  have hsupported : Supported (.string ⟨ascii "a&b", by decide⟩ : AmfData ℚ) := trivial
  obtain ⟨root, hroot, hread⟩ :=
    h oneLibrary oneLibrary_plain 0 _ hsupported hprintable 1 (by decide)
  have hfaithful :=
    faithful_of_document oneLibrary_plain hsupported hprintable (by decide) hroot hread
  exact absurd hfaithful (by decide : ¬ Enclosable (ascii "a&b"))

end FlvMeta
