import FlvMeta.Base.XmlElements
import FlvMeta.Dump.Agreement

/-!
# The XML document of a file

A file that is parsed to its end is dumped as one XML document, whose element has an element for
each tag that was read, if the names and the data of its script tags have no markup. From that
document the names, and of the data the nesting, the strings and the types of the other values, are
read back (`dumpXmlFile_document`).
-/

namespace FlvMeta

open Stdio Xml

variable {N : Type}

/-! ## Values of attributes -/

theorem plainValue_of_range {value : Bytes} (h : ∀ c ∈ value, 0x2d ≤ c ∧ c ≤ 0x39) :
    PlainValue value := by
  constructor
  · intro c hc
    obtain ⟨hlow, hhigh⟩ := h c hc
    have hlt : 0x20 < c := UInt8.lt_of_lt_of_le (by decide : (0x20 : UInt8) < 0x2d) hlow
    have hlt' : c < 0x80 := UInt8.lt_of_le_of_lt hhigh (by decide)
    simp [Xml.isChar, hlt, hlt']
  · intro c hc
    obtain ⟨hlow, hhigh⟩ := h c hc
    refine ⟨?_, ?_, ?_⟩
    · rintro rfl
      exact absurd hlow (by decide)
    · rintro rfl
      exact absurd hhigh (by decide)
    · rintro rfl
      exact absurd hlow (by decide)

theorem plainValue_decimal (value : ℕ) : PlainValue (decimal value) :=
  plainValue_of_range mem_decimal

theorem plainValue_printInteger (value : ℤ) : PlainValue (printInteger value) :=
  plainValue_of_range mem_printInteger

/-- The bytes of a string literal come from its characters: to decode the literal takes longer. -/
theorem plainValue_ofList {name : List Char}
    (h : PlainValue (name.map fun c => UInt8.ofNat c.toNat)) :
    PlainValue (ascii (String.ofList name)) := by
  rw [ascii, String.toList_ofList]
  exact h

theorem plainValue_xmlTrueFalse (flag : UInt8) : PlainValue (xmlTrueFalse flag) := by
  unfold xmlTrueFalse
  split
  · decide
  · decide

/-! ## Names -/

section

variable {α : Type}

/-- The names in the cases of a `switch` are plain. -/
def PlainCases (cases : List (α × String)) : Prop := ∀ c ∈ cases, PlainValue (ascii c.2)

theorem plainCases_nil : PlainCases ([] : List (α × String)) := by
  intro c hc
  cases hc

theorem plainCases_cons {value : α} {name : List Char} {cases : List (α × String)}
    (hname : PlainValue (name.map fun c => UInt8.ofNat c.toNat)) (hcases : PlainCases cases) :
    PlainCases ((value, String.ofList name) :: cases) := by
  intro c hc
  rcases List.mem_cons.mp hc with rfl | hc
  · exact plainValue_ofList hname
  · exact hcases c hc

theorem plainValue_dumpString [BEq α] [LawfulBEq α] {other : List Char}
    {cases : List (α × String)}
    (hother : PlainValue (other.map fun c => UInt8.ofNat c.toNat)) (hcases : PlainCases cases)
    (value : α) : PlainValue (dumpString (String.ofList other) cases value) := by
  unfold dumpString
  cases hlookup : cases.lookup value with
  | none => exact plainValue_ofList hother
  | some name =>
    obtain ⟨before, after, rfl, -⟩ := List.lookup_eq_some_iff.mp hlookup
    exact hcases (value, name) (by simp)

end

theorem plainValue_dumpStringGetTagType (tag : FlvTag) :
    PlainValue (dumpStringGetTagType tag) := by
  apply plainValue_dumpString (by decide)
  repeat apply plainCases_cons (by decide)
  exact plainCases_nil

theorem plainValue_dumpStringGetVideoCodec (vt : FlvVideoTag) :
    PlainValue (dumpStringGetVideoCodec vt) := by
  apply plainValue_dumpString (by decide)
  repeat apply plainCases_cons (by decide)
  exact plainCases_nil

theorem plainValue_dumpStringGetVideoFrameType (vt : FlvVideoTag) :
    PlainValue (dumpStringGetVideoFrameType vt) := by
  unfold dumpStringGetVideoFrameType
  by_cases havc : flvVideoTagCodecId vt = flvVideoTagCodecAvc
  · rw [if_pos havc, if_pos havc]
    apply plainValue_dumpString (by decide)
    repeat apply plainCases_cons (by decide)
    exact plainCases_nil
  · rw [if_neg havc, if_neg havc]
    apply plainValue_dumpString (by decide)
    repeat apply plainCases_cons (by decide)
    exact plainCases_nil

theorem plainValue_dumpStringGetExtPacketType (vt : FlvVideoTag) :
    PlainValue (dumpStringGetExtPacketType vt) := by
  unfold dumpStringGetExtPacketType
  split
  · apply plainValue_dumpString (by decide)
    repeat apply plainCases_cons (by decide)
    exact plainCases_nil
  · exact plainValue_ofList (by decide)

theorem plainValue_dumpStringGetAvcPacketType (type : UInt8) :
    PlainValue (dumpStringGetAvcPacketType type) := by
  apply plainValue_dumpString (by decide)
  repeat apply plainCases_cons (by decide)
  exact plainCases_nil

theorem plainValue_dumpStringGetSoundType (at' : UInt8) :
    PlainValue (dumpStringGetSoundType at') := by
  apply plainValue_dumpString (by decide)
  repeat apply plainCases_cons (by decide)
  exact plainCases_nil

theorem plainValue_dumpStringGetSoundSize (at' : UInt8) :
    PlainValue (dumpStringGetSoundSize at') := by
  apply plainValue_dumpString (by decide)
  repeat apply plainCases_cons (by decide)
  exact plainCases_nil

theorem plainValue_dumpStringGetSoundRate (at' : UInt8) :
    PlainValue (dumpStringGetSoundRate at') := by
  apply plainValue_dumpString (by decide)
  repeat apply plainCases_cons (by decide)
  exact plainCases_nil

theorem plainValue_dumpStringGetSoundFormat (at' : UInt8) :
    PlainValue (dumpStringGetSoundFormat at') := by
  apply plainValue_dumpString (by decide)
  repeat apply plainCases_cons (by decide)
  exact plainCases_nil

theorem plainValue_dumpStringGetAacPacketType (type : UInt8) :
    PlainValue (dumpStringGetAacPacketType type) := by
  apply plainValue_dumpString (by decide)
  repeat apply plainCases_cons (by decide)
  exact plainCases_nil

/-! ## Elements -/

/-- Attributes with fixed keys. -/
def xmlPairs (attributes : List (String × Bytes)) : List (Text × Text) :=
  attributes.map fun a => (ascii a.1, a.2)

/-- Keys that are names, and unlike. -/
def XmlKeys (keys : List String) : Prop :=
  (∀ key ∈ keys, IsXmlName (ascii key)) ∧ (keys.map ascii).Nodup

instance (keys : List String) : Decidable (XmlKeys keys) := inferInstanceAs (Decidable (_ ∧ _))

theorem plainAttributes {attributes : List (String × Bytes)}
    (hkeys : XmlKeys (attributes.map Prod.fst)) (hvalues : ∀ a ∈ attributes, PlainValue a.2) :
    PlainAttributes (xmlPairs attributes) where
  keys := by
    intro a ha
    obtain ⟨b, hb, rfl⟩ := List.mem_map.mp ha
    exact hkeys.1 b.1 (List.mem_map_of_mem hb)
  values := by
    intro a ha
    obtain ⟨b, hb, rfl⟩ := List.mem_map.mp ha
    exact hvalues b hb
  unique := by
    have hunique := hkeys.2
    rw [List.map_map] at hunique
    rw [xmlPairs, List.map_map]
    exact hunique

theorem attributesText_xmlPairs (key : String) (value : Bytes)
    (attributes : List (String × Bytes)) :
    attributesText (xmlPairs ((key, value) :: attributes)) =
      xmlAttribute key value ++ attributesText (xmlPairs attributes) := by
  have hspace : ascii " " = [0x20] := by decide
  have hequals : ascii "=\"" = [0x3d, 0x22] := by decide
  have hquote : ascii "\"" = [0x22] := by decide
  rw [xmlAttribute, hspace, hequals, hquote]
  simp [attributesText, xmlPairs]

theorem attributesText_xmlPairs_nil : attributesText (xmlPairs []) = [] := rfl

/-- The line of a start tag. -/
def xmlStartLine (indent : ℕ) (name : String) (attributes : List (String × Bytes)) : Bytes :=
  xmlSpaces indent ++ 0x3c :: (ascii name ++ (attributesText (xmlPairs attributes) ++ [0x3e, 0x0a]))

/-- The line of an end tag. -/
def xmlEndLine (indent : ℕ) (name : String) : Bytes :=
  xmlSpaces indent ++ 0x3c :: 0x2f :: (ascii name ++ [0x3e, 0x0a])

/-- The line of an element without content. -/
def xmlLine (indent : ℕ) (name : String) (attributes : List (String × Bytes)) : Bytes :=
  xmlSpaces indent ++
    0x3c :: (ascii name ++ (attributesText (xmlPairs attributes) ++ [0x2f, 0x3e, 0x0a]))

section

variable {name : String} {attributes : List (String × Bytes)}

/-- The lines of an element with content. -/
theorem reads_lines (hname : IsXmlName (ascii name))
    (hattributes : PlainAttributes (xmlPairs attributes)) {content : Bytes} {elements : List Node}
    (h : Contains content elements) (indent indent' : ℕ) :
    ∃ (node : Node) (text : Text), node.Is (ascii name)
      (attributesRead (xmlPairs attributes)) elements ∧
      Xml.Reads text [node] ∧ xmlStartLine indent name attributes ++
        (content ++ xmlEndLine indent' name) = xmlSpaces indent ++ (text ++ [0x0a]) := by
  have hcontent : Contains ([0x0a] ++ (content ++ xmlSpaces indent')) ([] ++ (elements ++ [])) :=
    (contains_blanks (List.forall_mem_singleton.mpr rfl)).append
      (h.append (contains_blanks (blanks_xmlSpaces indent')))
  rw [List.nil_append, List.append_nil] at hcontent
  obtain ⟨children, hchildren, helements⟩ := hcontent
  refine ⟨_, _, ⟨children, rfl, helements⟩, reads_element hname hattributes hchildren, ?_⟩
  simp [xmlStartLine, xmlEndLine]

theorem contains_lines (hname : IsXmlName (ascii name))
    (hattributes : PlainAttributes (xmlPairs attributes)) {content : Bytes} {elements : List Node}
    (h : Contains content elements) (indent indent' : ℕ) :
    ∃ node : Node, node.Is (ascii name) (attributesRead (xmlPairs attributes)) elements ∧
      Contains (xmlStartLine indent name attributes ++ (content ++ xmlEndLine indent' name))
        [node] := by
  obtain ⟨node, text, hnode, hreads, htext⟩ := reads_lines hname hattributes h indent indent'
  refine ⟨node, hnode, ?_⟩
  rw [htext]
  exact hreads.contains_between hnode.isElement (blanks_xmlSpaces indent)
    (List.forall_mem_singleton.mpr rfl)

theorem contains_line (hname : IsXmlName (ascii name))
    (hattributes : PlainAttributes (xmlPairs attributes)) (indent : ℕ) :
    ∃ node : Node, node.Is (ascii name) (attributesRead (xmlPairs attributes)) [] ∧
      Contains (xmlLine indent name attributes) [node] := by
  refine ⟨_, ⟨[], rfl, rfl⟩, ?_⟩
  have hnode := (reads_emptyElement hname hattributes).contains_between trivial
    (blanks_xmlSpaces indent) (List.forall_mem_singleton.mpr rfl : Blanks [0x0a])
  have htext : xmlLine indent name attributes = xmlSpaces indent ++
      ((0x3c :: (ascii name ++ (attributesText (xmlPairs attributes) ++ [0x2f, 0x3e]))) ++
        [0x0a]) := by
    simp [xmlLine]
  rw [htext]
  exact hnode

end

/-! ## Reading back -/

/-- The name and the data of the element of a script tag. -/
def readScript : Node → Option (List ℕ × XmlShape)
  | .element name attributes children =>
    if name = ascii "scriptDataObject" then
      match attributes.lookup (ascii "name"), elementsOf children with
      | some key, some [value] => (readXml 1 value).map fun shape => (key, shape)
      | _, _ => none
    else none
  | _ => none

/-- The names and the data of all script tags in the element of a file. -/
def readScripts (root : Node) : List (List ℕ × XmlShape) :=
  root.elements.flatMap fun tag => tag.elements.filterMap readScript

/-- What is read back of a script tag. -/
def scriptShape (script : Bytes × AmfData N) : List ℕ × XmlShape :=
  (literal script.1, xmlShape script.2)

/-- A script tag without markup in its name and its data. -/
def XmlPrintable (script : Bytes × AmfData N) : Prop :=
  PlainValue script.1 ∧ PrintableTree script.2 ∧ XmlFaithful script.2

theorem readScript_of_is {node : Node} {name : Text} {attributes : List (Text × List ℕ)}
    {elements : List Node} (h : node.Is name attributes elements)
    (hname : name ≠ ascii "scriptDataObject") : readScript node = none := by
  obtain ⟨children, rfl, -⟩ := h
  rw [readScript, if_neg hname]

/-! ## The data of a tag -/

/-- A callback for the body of a tag prints an element that is no script tag, or it returns an
error. -/
def PrintsMedia (retval : Int) (output output' : Bytes) : Prop :=
  ∃ text, output' = output ++ text ∧
    (retval = 0 → ∃ node, Contains text [node] ∧ readScript node = none)

theorem PrintsMedia.of_error (output text : Bytes) :
    PrintsMedia errorInvalidTag output (output ++ text) :=
  ⟨text, rfl, fun hzero => absurd hzero (by decide)⟩

section

variable {name name' : String} {attributes attributes' : List (String × Bytes)}

theorem PrintsMedia.of_line (hname : IsXmlName (ascii name))
    (hscript : ascii name ≠ ascii "scriptDataObject")
    (hattributes : PlainAttributes (xmlPairs attributes)) (indent : ℕ) (output : Bytes) :
    PrintsMedia 0 output (output ++ xmlLine indent name attributes) := by
  obtain ⟨node, hnode, hcontains⟩ := contains_line hname hattributes indent
  exact ⟨_, rfl, fun _ => ⟨node, hcontains, readScript_of_is hnode hscript⟩⟩

/-- An element with another one for the packet. -/
theorem PrintsMedia.of_packet (hname : IsXmlName (ascii name))
    (hscript : ascii name ≠ ascii "scriptDataObject")
    (hattributes : PlainAttributes (xmlPairs attributes)) (hname' : IsXmlName (ascii name'))
    (hattributes' : PlainAttributes (xmlPairs attributes')) (indent indent' : ℕ)
    (output : Bytes) :
    PrintsMedia 0 output (output ++ (xmlStartLine indent name attributes ++
      (xmlLine indent' name' attributes' ++ xmlEndLine indent name))) := by
  obtain ⟨packet, -, hpacket⟩ := contains_line hname' hattributes' indent'
  obtain ⟨node, hnode, hcontains⟩ := contains_lines hname hattributes hpacket indent indent
  exact ⟨_, rfl, fun _ => ⟨node, hcontains, readScript_of_is hnode hscript⟩⟩

end

/-- The attributes of a frame. -/
def xmlFrame (vt : FlvVideoTag) : List (String × Bytes) :=
  [("codecID", dumpStringGetVideoCodec vt), ("frameType", dumpStringGetVideoFrameType vt)]

/-- The attributes of a sound. -/
def xmlSound (at' : UInt8) : List (String × Bytes) :=
  [("type", dumpStringGetSoundType at'), ("size", dumpStringGetSoundSize at'),
    ("rate", dumpStringGetSoundRate at'), ("format", dumpStringGetSoundFormat at')]

theorem plainValue_xmlFrame (vt : FlvVideoTag) : ∀ a ∈ xmlFrame vt, PlainValue a.2 :=
  List.forall_mem_cons.mpr ⟨plainValue_dumpStringGetVideoCodec vt,
    List.forall_mem_singleton.mpr (plainValue_dumpStringGetVideoFrameType vt)⟩

theorem plainValue_xmlSound (at' : UInt8) : ∀ a ∈ xmlSound at', PlainValue a.2 :=
  List.forall_mem_cons.mpr ⟨plainValue_dumpStringGetSoundType at',
    List.forall_mem_cons.mpr ⟨plainValue_dumpStringGetSoundSize at',
      List.forall_mem_cons.mpr ⟨plainValue_dumpStringGetSoundRate at',
        List.forall_mem_singleton.mpr (plainValue_dumpStringGetSoundFormat at')⟩⟩⟩

theorem prints_xmlOnVideoTag (tag : FlvTag) (vt : FlvVideoTag) (output : Bytes)
    (stream : FlvStream) :
    PrintsMedia (xmlOnVideoTag tag vt output stream).1 output
      (xmlOnVideoTag tag vt output stream).2.1 := by
  have hstart : ascii "    <videoData" = xmlSpaces 4 ++ 0x3c :: ascii "videoData" := by decide
  have hpacket : ascii "        <AVCData" = xmlSpaces 8 ++ 0x3c :: ascii "AVCData" := by decide
  have hstop : ascii "    </videoData>\n" = xmlEndLine 4 "videoData" := by decide
  have hopen : ascii ">\n" = [0x3e, 0x0a] := by decide
  have hclose : ascii "/>\n" = [0x2f, 0x3e, 0x0a] := by decide
  have hname : IsXmlName (ascii "videoData") := by decide
  have hscript : ascii "videoData" ≠ ascii "scriptDataObject" := by decide
  have hframe : PlainAttributes (xmlPairs (xmlFrame vt)) :=
    plainAttributes (by decide : XmlKeys ["codecID", "frameType"]) (plainValue_xmlFrame vt)
  -- an element with the attributes of its packet in an element within
  have hnested : ∀ (packet : List (String × Bytes)) (output' : Bytes),
      PlainAttributes (xmlPairs packet) →
      output' = output ++ (xmlStartLine 4 "videoData" (xmlFrame vt) ++
        (xmlLine 8 "AVCData" packet ++ xmlEndLine 4 "videoData")) →
      PrintsMedia 0 output output' := by
    rintro packet output' hplain rfl
    exact .of_packet hname hscript hframe (by decide) hplain 4 8 output
  unfold xmlOnVideoTag
  dsimp only
  split
  · have hattributes : PlainAttributes (xmlPairs (xmlFrame vt ++
        [("packetType", dumpStringGetExtPacketType vt)])) :=
      plainAttributes (by decide : XmlKeys ["codecID", "frameType", "packetType"])
        (List.forall_mem_append.mpr ⟨plainValue_xmlFrame vt,
          List.forall_mem_singleton.mpr (plainValue_dumpStringGetExtPacketType vt)⟩)
    have hprints := PrintsMedia.of_line hname hscript hattributes 4 output
    simpa [xmlLine, xmlFrame, attributesText_xmlPairs, attributesText_xmlPairs_nil, hstart,
      hclose] using hprints
  · split
    · generalize flvReadTagBody 1 stream = read
      obtain ⟨type, stream₁⟩ := read
      have htype := plainValue_dumpStringGetAvcPacketType (type.getD 0 0)
      dsimp only
      split
      · simp only [List.append_assoc]
        exact .of_error output _
      · split
        · generalize flvReadTagBody 3 stream₁ = read₂
          obtain ⟨compositionTime, stream₂⟩ := read₂
          have hoffset := plainValue_printInteger (Endian.ofBE compositionTime)
          dsimp only
          split
          · simp only [List.append_assoc]
            exact .of_error output _
          · refine hnested [("packetType", dumpStringGetAvcPacketType (type.getD 0 0)),
              ("compositionTimeOffset", printInteger (Endian.ofBE compositionTime))] _
              (plainAttributes (by decide : XmlKeys ["packetType", "compositionTimeOffset"])
                (List.forall_mem_cons.mpr ⟨htype, by simpa using hoffset⟩)) ?_
            simp [xmlLine, xmlStartLine, xmlFrame, attributesText_xmlPairs,
              attributesText_xmlPairs_nil, hstart, hpacket, hopen, hclose, hstop]
        · refine hnested [("packetType", dumpStringGetAvcPacketType (type.getD 0 0))] _
            (plainAttributes (by decide : XmlKeys ["packetType"])
              (List.forall_mem_singleton.mpr htype)) ?_
          simp [xmlLine, xmlStartLine, xmlFrame, attributesText_xmlPairs,
            attributesText_xmlPairs_nil, hstart, hpacket, hopen, hclose, hstop]
    · have hprints := PrintsMedia.of_line hname hscript hframe 4 output
      simpa [xmlLine, xmlFrame, attributesText_xmlPairs, attributesText_xmlPairs_nil, hstart,
        hclose] using hprints

theorem prints_xmlOnAudioTag (tag : FlvTag) (at' : UInt8) (output : Bytes) (stream : FlvStream) :
    PrintsMedia (xmlOnAudioTag tag at' output stream).1 output
      (xmlOnAudioTag tag at' output stream).2.1 := by
  have hstart : ascii "    <audioData" = xmlSpaces 4 ++ 0x3c :: ascii "audioData" := by decide
  have hpacket : ascii "        <AACData" = xmlSpaces 8 ++ 0x3c :: ascii "AACData" := by decide
  have hstop : ascii "    </audioData>\n" = xmlEndLine 4 "audioData" := by decide
  have hopen : ascii ">\n" = [0x3e, 0x0a] := by decide
  have hclose : ascii "/>\n" = [0x2f, 0x3e, 0x0a] := by decide
  have hname : IsXmlName (ascii "audioData") := by decide
  have hscript : ascii "audioData" ≠ ascii "scriptDataObject" := by decide
  have hsound : PlainAttributes (xmlPairs (xmlSound at')) :=
    plainAttributes (by decide : XmlKeys ["type", "size", "rate", "format"])
      (plainValue_xmlSound at')
  unfold xmlOnAudioTag
  dsimp only
  split
  · generalize flvReadTagBody 1 stream = read
    obtain ⟨type, stream₁⟩ := read
    have htype := plainValue_dumpStringGetAacPacketType (type.getD 0 0)
    dsimp only
    split
    · simp only [List.append_assoc]
      exact .of_error output _
    · have hattributes : PlainAttributes
          (xmlPairs [("packetType", dumpStringGetAacPacketType (type.getD 0 0))]) :=
        plainAttributes (by decide : XmlKeys ["packetType"])
          (List.forall_mem_singleton.mpr htype)
      have hprints := PrintsMedia.of_packet hname hscript hsound
        (by decide : IsXmlName (ascii "AACData")) hattributes 4 8 output
      simpa [xmlLine, xmlStartLine, xmlSound, attributesText_xmlPairs,
        attributesText_xmlPairs_nil, hstart, hpacket, hopen, hclose, hstop] using hprints
  · have hprints := PrintsMedia.of_line hname hscript hsound 4 output
    simpa [xmlLine, xmlSound, attributesText_xmlPairs, attributesText_xmlPairs_nil, hstart,
      hclose] using hprints

/-- What is printed of a script tag. -/
def xmlScript (lib : XmlLibrary N) (name : Bytes) (data : AmfData N) : Bytes :=
  xmlStartLine 4 "scriptDataObject" [("name", name)] ++
    (xmlAmfDataDump lib 1 data 3 ++ xmlEndLine 4 "scriptDataObject")

theorem xmlOnMetadataTag_eq (lib : XmlLibrary N) (tag : FlvTag) (name : Bytes) (data : AmfData N)
    (output : Bytes) (stream : FlvStream) :
    xmlOnMetadataTag lib tag name data output stream =
      (0, output ++ xmlScript lib (cString name) data, stream) := by
  have hstart : ascii "    <scriptDataObject" =
      xmlSpaces 4 ++ 0x3c :: ascii "scriptDataObject" := by
    decide
  have hstop : puts "    </scriptDataObject>" = xmlEndLine 4 "scriptDataObject" := by decide
  have hopen : ascii ">\n" = [0x3e, 0x0a] := by decide
  simp [xmlOnMetadataTag, xmlScript, xmlStartLine, attributesText_xmlPairs,
    attributesText_xmlPairs_nil, hstart, hopen, hstop]

/-- From the element of a script tag its name and its data are read back. -/
theorem contains_xmlScript {lib : XmlLibrary N} (hlib : lib.Plain) {name : Bytes}
    {data : AmfData N} (h : Supported data) (hprintable : XmlPrintable (name, data)) :
    ∃ node, Contains (xmlScript lib name data) [node] ∧
      readScript node = some (scriptShape (name, data)) := by
  obtain ⟨hname, htree, hfaithful⟩ := hprintable
  obtain ⟨value, hnodes, hread⟩ := (readsValue_xmlSwitch_iff hlib 1 data h htree
    (by decide : 0 < 3) [] [0x0a]).mpr ⟨hfaithful, rfl⟩
  have helement : value.IsElement := by
    cases value with
    | element => trivial
    | _ => cases hread
  rw [List.append_nil] at hnodes
  obtain ⟨used, hswitch, hreads⟩ := hnodes.reads helement
  have hvalue := hreads.contains_between helement (blanks_xmlSpaces (3 * 2))
    (List.forall_mem_singleton.mpr rfl : Blanks [0x0a])
  rw [← hswitch, ← xmlAmfDataDump_eq lib 1 h] at hvalue
  have hattributes : PlainAttributes (xmlPairs [("name", name)]) :=
    plainAttributes (by decide : XmlKeys ["name"]) (List.forall_mem_singleton.mpr hname)
  obtain ⟨node, ⟨children, rfl, hchildren⟩, hcontains⟩ := contains_lines
    (by decide : IsXmlName (ascii "scriptDataObject")) hattributes hvalue 4 4
  refine ⟨_, hcontains, ?_⟩
  have hkey : (attributesRead (xmlPairs [("name", name)])).lookup (ascii "name") =
      some (literal name) := by
    simp [attributesRead, xmlPairs]
  rw [readScript, if_pos rfl, hkey, hchildren]
  dsimp only
  rw [hread]
  rfl

/-! ## A turn of the parser -/

/-- The attributes of a tag. -/
def xmlTagAttributes (tag : FlvTag) (offset : ℕ) : List (String × Bytes) :=
  [("type", dumpStringGetTagType tag), ("timestamp", printInteger (flvTagGetTimestamp tag)),
    ("dataSize", printInteger (flvTagGetBodyLength tag)), ("offset", decimal offset)]

/-- The element of a tag: what is known of every tag, and at most one element with its data. -/
def XmlTag (tag : FlvTag) (offset : ℕ) (node : Node) : Prop :=
  ∃ data, data.length ≤ 1 ∧
    node.Is (ascii "tag") (attributesRead (xmlPairs (xmlTagAttributes tag offset))) data

theorem plainAttributes_xmlTag (tag : FlvTag) (offset : ℕ) :
    PlainAttributes (xmlPairs (xmlTagAttributes tag offset)) := by
  have htype := plainValue_dumpStringGetTagType tag
  have htimestamp := plainValue_printInteger (flvTagGetTimestamp tag)
  have hsize := plainValue_printInteger (flvTagGetBodyLength tag)
  have hoffset := plainValue_decimal offset
  refine plainAttributes (by decide : XmlKeys ["type", "timestamp", "dataSize", "offset"]) ?_
  simp [xmlTagAttributes, htype, htimestamp, hsize, hoffset]

section

variable [NumberImage N] {lib : XmlLibrary N}

/-- What is printed for the body of a tag: at most one element, unless there is an error, and the
script tag is read back from it. -/
theorem prints_parseTagBody (hlib : lib.Plain) (tag : FlvTag) (st : ParseState Bytes N)
    (stream : FlvStream) :
    ∃ text found, (parseTagBody (xmlParser lib) tag st stream).2.1 =
        ⟨st.user ++ text, st.events ++ found⟩ ∧
      ((parseTagBody (xmlParser lib) tag st stream).1 = 0 → ∃ data : List Node, data.length ≤ 1 ∧
        ((∀ script ∈ scriptsOf found, XmlPrintable script) → Contains text data ∧
          data.filterMap readScript = (scriptsOf found).map scriptShape)) := by
  have hnothing : ∀ retval : Int, ∃ text found, st = ⟨st.user ++ text, st.events ++ found⟩ ∧
      (retval = 0 → ∃ data : List Node, data.length ≤ 1 ∧
        ((∀ script ∈ scriptsOf (N := N) found, XmlPrintable script) → Contains text data ∧
          data.filterMap readScript = (scriptsOf found).map scriptShape)) := by
    intro retval
    refine ⟨[], [], by simp, fun _ => ⟨[], Nat.zero_le 1, fun _ => ⟨?_, rfl⟩⟩⟩
    exact contains_blanks (List.forall_mem_nil _)
  have hmedia : ∀ (event : FlvEvent N) (retval : Int) (output : Bytes),
      scriptsOf [event] = [] → PrintsMedia retval st.user output →
      ∃ text found, (⟨output, st.events ++ [event]⟩ : ParseState Bytes N) =
          ⟨st.user ++ text, st.events ++ found⟩ ∧
        (retval = 0 → ∃ data : List Node, data.length ≤ 1 ∧
          ((∀ script ∈ scriptsOf found, XmlPrintable script) → Contains text data ∧
            data.filterMap readScript = (scriptsOf found).map scriptShape)) := by
    rintro event retval output hscripts ⟨text, rfl, hnode⟩
    refine ⟨text, [event], rfl, fun hzero => ?_⟩
    obtain ⟨node, hcontains, hread⟩ := hnode hzero
    refine ⟨[node], Nat.le_refl 1, fun _ => ⟨hcontains, ?_⟩⟩
    rw [hscripts, List.filterMap_cons_none hread]
    rfl
  unfold parseTagBody
  by_cases haudio : tag.type = flvTagTypeAudio
  · rw [if_pos haudio]
    generalize flvReadAudioTag stream = r
    obtain ⟨result, stream₁⟩ := r
    cases result with
    | error status => exact hnothing _
    | ok at' =>
      exact hmedia (.audioTag tag at') _ _ rfl (prints_xmlOnAudioTag tag at' st.user stream₁)
  rw [if_neg haudio]
  by_cases hvideo : tag.type = flvTagTypeVideo
  · rw [if_pos hvideo]
    generalize flvReadVideoTag stream = r
    obtain ⟨result, stream₁⟩ := r
    cases result with
    | error status => exact hnothing _
    | ok vt =>
      exact hmedia (.videoTag tag vt) _ _ rfl (prints_xmlOnVideoTag tag vt st.user stream₁)
  rw [if_neg hvideo]
  by_cases hscript : tag.type = flvTagTypeMeta
  · rw [if_pos hscript]
    have hsupported := supported_flvReadMetadata (N := N) stream
    generalize (flvReadMetadata stream : MetadataResult N × FlvStream) = r at hsupported ⊢
    obtain ⟨result, stream₁⟩ := r
    dsimp only at hsupported ⊢
    by_cases heof : result.status = .errorEof
    · rw [if_pos heof]
      exact hnothing _
    rw [if_neg heof]
    by_cases hok : result.status = .ok ∧ amfDataGetType result.name = AmfType.string.code
    · rw [if_pos hok]
      have hdeliver : deliver (xmlParser lib)
          (.metadataTag tag (amfStringGetBytes result.name) result.data) st stream₁ =
          (0, ⟨st.user ++ xmlScript lib (cString (amfStringGetBytes result.name)) result.data,
            st.events ++ [.metadataTag tag (amfStringGetBytes result.name) result.data]⟩,
            stream₁) := by
        unfold deliver FlvParser.callback
        simp only [xmlParser, Option.map_some, xmlOnMetadataTag_eq]
      rw [hdeliver]
      refine ⟨_, _, rfl, fun _ => ?_⟩
      by_cases hprintable : XmlPrintable (cString (amfStringGetBytes result.name), result.data)
      · obtain ⟨node, hcontains, hread⟩ := contains_xmlScript hlib (hsupported hok.1) hprintable
        refine ⟨[node], Nat.le_refl 1, fun _ => ⟨hcontains, ?_⟩⟩
        rw [List.filterMap_cons_some hread]
        rfl
      · -- nothing is said of a script tag with markup
        exact ⟨[], Nat.zero_le 1, fun h => absurd (h _ List.mem_cons_self) hprintable⟩
    · rw [if_neg hok]
      exact hnothing _
  · rw [if_neg hscript]
    exact hnothing _

omit [NumberImage N] in
theorem xmlOnTag_eq (tag : FlvTag) (output : Bytes) (stream : FlvStream) :
    xmlOnTag tag output stream = (0, output ++ xmlStartLine 2 "tag"
      (xmlTagAttributes tag stream.currentTagOffset), stream) := by
  have hstart : ascii "  <tag" = xmlSpaces 2 ++ 0x3c :: ascii "tag" := by decide
  have hopen : ascii ">\n" = [0x3e, 0x0a] := by decide
  simp [xmlOnTag, xmlStartLine, xmlTagAttributes, attributesText_xmlPairs,
    attributesText_xmlPairs_nil, hstart, hopen]

/-- A turn that does not fail prints the element of its tag. -/
theorem prints_parseTag (hlib : lib.Plain) (tag : FlvTag) (st : ParseState Bytes N)
    (stream : FlvStream) (h : (parseTag (xmlParser lib) tag st stream).1 = 0) :
    ∃ text found node, (parseTag (xmlParser lib) tag st stream).2.1 =
        ⟨st.user ++ text, st.events ++ found⟩ ∧ XmlTag tag stream.currentTagOffset node ∧
      ((∀ script ∈ scriptsOf found, XmlPrintable script) → Contains text [node] ∧
        node.elements.filterMap readScript = (scriptsOf found).map scriptShape) := by
  have hdeliver : deliver (xmlParser lib) (.tag tag) st stream =
      (0, ⟨st.user ++ xmlStartLine 2 "tag" (xmlTagAttributes tag stream.currentTagOffset),
        st.events ++ [.tag tag]⟩, stream) := by
    unfold deliver FlvParser.callback
    simp only [xmlParser, Option.map_some, xmlOnTag_eq]
  rw [parseTag, hdeliver, unlessFailed, if_neg (not_not.mpr rfl)] at h ⊢
  dsimp only at h ⊢
  obtain ⟨text, found, hstate, hdata⟩ := prints_parseTagBody hlib tag
    ⟨st.user ++ xmlStartLine 2 "tag" (xmlTagAttributes tag stream.currentTagOffset),
      st.events ++ [.tag tag]⟩ stream
  generalize parseTagBody (xmlParser lib) tag _ stream = r at h hstate hdata ⊢
  obtain ⟨retval, st₁, stream₁⟩ := r
  dsimp only at h hstate hdata ⊢
  subst hstate
  by_cases hfailed : retval ≠ 0
  · rw [unlessFailed, if_pos hfailed] at h
    exact absurd h hfailed
  rw [unlessFailed, if_neg hfailed] at h ⊢
  obtain ⟨data, hlength, hdata⟩ := hdata (not_not.mp hfailed)
  unfold parsePrevTagSize at h ⊢
  have herror := @flvReadPrevTagSize_error stream₁
  generalize flvReadPrevTagSize stream₁ = size at h herror ⊢
  obtain ⟨result, stream₂⟩ := size
  cases result with
  | error status =>
    obtain rfl := herror rfl
    exact absurd h (by decide : ¬ FlvStatus.errorEof.code = 0)
  | ok size =>
    have hend : puts "  </tag>" = xmlEndLine 2 "tag" := by decide
    have hstate : (deliver (xmlParser lib) (.prevTagSize size)
        ⟨st.user ++ xmlStartLine 2 "tag" (xmlTagAttributes tag stream.currentTagOffset) ++ text,
          st.events ++ [.tag tag] ++ found⟩ stream₂).2.1 =
        ⟨st.user ++ (xmlStartLine 2 "tag" (xmlTagAttributes tag stream.currentTagOffset) ++
          (text ++ xmlEndLine 2 "tag")), st.events ++
          (.tag tag :: (found ++ [.prevTagSize size]))⟩ := by
      unfold deliver FlvParser.callback
      simp [xmlParser, xmlOnPrevTagSize, hend]
    have hscripts : scriptsOf (N := N) (.tag tag :: (found ++ [.prevTagSize size])) =
        scriptsOf found := by
      simp [scriptsOf]
    have hlines : ∃ node, XmlTag tag stream.currentTagOffset node ∧
        ((∀ script ∈ scriptsOf found, XmlPrintable script) →
          Contains (xmlStartLine 2 "tag" (xmlTagAttributes tag stream.currentTagOffset) ++
            (text ++ xmlEndLine 2 "tag")) [node] ∧
          node.elements.filterMap readScript = (scriptsOf found).map scriptShape) := by
      by_cases hprintable : ∀ script ∈ scriptsOf found, XmlPrintable script
      · obtain ⟨hcontains, hread⟩ := hdata hprintable
        obtain ⟨node, hnode, hlines⟩ := contains_lines (by decide : IsXmlName (ascii "tag"))
          (plainAttributes_xmlTag tag stream.currentTagOffset) hcontains 2 2
        refine ⟨node, ⟨data, hlength, hnode⟩, fun _ => ⟨hlines, ?_⟩⟩
        rw [hnode.elements_eq]
        exact hread
      · exact ⟨_, ⟨[], Nat.zero_le 1, [], rfl, rfl⟩, fun h => absurd h hprintable⟩
    obtain ⟨node, hnode, hprints⟩ := hlines
    rw [← hscripts] at hprints
    exact ⟨_, _, node, hstate, hnode, hprints⟩

/-! ## The whole file -/

theorem prints_parseTurn_next (hlib : lib.Plain) {tag : FlvTag} {st st' : ParseState Bytes N}
    {stream stream' : FlvStream}
    (h : parseTurn (xmlParser lib) tag st stream = (.next st', stream')) :
    ∃ text found node, st' = ⟨st.user ++ text, st.events ++ found⟩ ∧
      XmlTag tag stream.currentTagOffset node ∧
      ((∀ script ∈ scriptsOf found, XmlPrintable script) → Contains text [node] ∧
        node.elements.filterMap readScript = (scriptsOf found).map scriptShape) := by
  have hprints := prints_parseTag hlib tag st stream
  unfold parseTurn at h
  generalize parseTag (xmlParser lib) tag st stream = r at h hprints
  obtain ⟨retval, st₁, stream₁⟩ := r
  dsimp only at h hprints
  split at h
  · cases h
  · rename_i hretval
    cases h
    exact hprints (not_not.mp hretval)

/-- The tags that the parser reads are printed in order. -/
theorem prints_tags (hlib : lib.Plain) {fuel : ℕ} {st st' : ParseState Bytes N}
    {stream stream' : FlvStream} {e : Loop.End (ParseState Bytes N) (Int × ParseState Bytes N)}
    (h : Loop.loop (fun _ => true) fetchTag (parseTurn (xmlParser lib)) fuel st stream =
      some (e, stream')) (he : e.state? = some st') :
    ∃ tags, List.Forall₂ (fun visit node => XmlTag visit.1 (flvGetCurrentTagOffset visit.2.2) node)
      (Loop.visits (fun _ => true) fetchTag (parseTurn (xmlParser lib)) fuel st stream) tags ∧
      ∃ text found, st' = ⟨st.user ++ text, st.events ++ found⟩ ∧
        ((∀ script ∈ scriptsOf found, XmlPrintable script) → Contains text tags ∧
          tags.flatMap (fun tag => tag.elements.filterMap readScript) =
            (scriptsOf found).map scriptShape) := by
  refine Loop.forall₂_visits
    (fun visit node => XmlTag visit.1 (flvGetCurrentTagOffset visit.2.2) node)
    (fun st st' tags => ∃ text found, st' = ⟨st.user ++ text, st.events ++ found⟩ ∧
      ((∀ script ∈ scriptsOf found, XmlPrintable script) → Contains text tags ∧
        tags.flatMap (fun tag => tag.elements.filterMap readScript) =
          (scriptsOf found).map scriptShape))
    ?_ ?_ h he
  · intro st
    refine ⟨[], [], by simp, fun _ => ⟨contains_blanks (List.forall_mem_nil _), rfl⟩⟩
  · rintro stream tag stream₁ st st₁ stream₂ st₂ tags hfetch hturn ⟨text', found', rfl, htags⟩
    obtain ⟨text, found, node, rfl, hnode, hprints⟩ := prints_parseTurn_next hlib hturn
    refine ⟨node, hnode, text ++ text', found ++ found', by simp, fun hprintable => ?_⟩
    rw [scriptsOf_append] at hprintable ⊢
    obtain ⟨hfirst, hmore⟩ := List.forall_mem_append.mp hprintable
    obtain ⟨hcontains, hread⟩ := hprints hfirst
    obtain ⟨hcontains', hread'⟩ := htags hmore
    refine ⟨hcontains.append hcontains', ?_⟩
    rw [List.flatMap_cons, hread, hread', List.map_append]

/-- The attributes of a file. -/
def xmlFileAttributes (header : FlvHeader) : List (String × Bytes) :=
  [("xmlns", ascii "http://schemas.flvmeta.org/FLV/1.0/"),
    ("xmlns:amf", ascii "http://schemas.flvmeta.org/AMF0/1.0/"),
    ("hasVideo", xmlTrueFalse (flvHeaderHasVideo header)),
    ("hasAudio", xmlTrueFalse (flvHeaderHasAudio header)),
    ("version", decimal header.version.toNat)]

theorem plainAttributes_xmlFile (header : FlvHeader) :
    PlainAttributes (xmlPairs (xmlFileAttributes header)) := by
  have hns : PlainValue (ascii "http://schemas.flvmeta.org/FLV/1.0/") := by decide +kernel
  have hnsAmf : PlainValue (ascii "http://schemas.flvmeta.org/AMF0/1.0/") := by decide +kernel
  have hvideo := plainValue_xmlTrueFalse (flvHeaderHasVideo header)
  have haudio := plainValue_xmlTrueFalse (flvHeaderHasAudio header)
  have hversion := plainValue_decimal header.version.toNat
  refine plainAttributes
    (by decide : XmlKeys ["xmlns", "xmlns:amf", "hasVideo", "hasAudio", "version"]) ?_
  simp [xmlFileAttributes, hns, hnsAmf, hvideo, haudio, hversion]

theorem xmlOnHeader_eq (header : FlvHeader) (output : Bytes) (stream : FlvStream) :
    xmlOnHeader header output stream =
      (0, output ++ (xmlDeclaration ++ xmlStartLine 0 "flv" (xmlFileAttributes header)),
        stream) := by
  have hstart : ascii "<flv" = xmlSpaces 0 ++ 0x3c :: ascii "flv" := by decide
  have hopen : ascii ">\n" = [0x3e, 0x0a] := by decide
  simp [xmlOnHeader, xmlStartLine, xmlFileAttributes, attributesText_xmlPairs,
    attributesText_xmlPairs_nil, hstart, hopen]

/-- After the declaration, one element: it has the flags and the version of the header, and an
element for every tag that is read, in the order of the file. From it the names and the data of the
script tags are read back. -/
def XmlDocument (lib : XmlLibrary N) (content : Bytes) (st : ParseState Bytes N) : Prop :=
  ∃ header text root tags, (flvReadHeader (flvOpen content)).1 = .ok header ∧
    st.user = xmlDeclaration ++ text ∧ Document text root ∧
    root.Is (ascii "flv") (attributesRead (xmlPairs (xmlFileAttributes header))) tags ∧
    List.Forall₂ (fun visit node => XmlTag visit.1 (flvGetCurrentTagOffset visit.2.2) node)
      (parseVisits (xmlParser lib) [] content) tags ∧
    readScripts root = (scriptsOf st.events).map scriptShape

/-- A file that is parsed to its end is dumped as one XML document if the names and the data of its
script tags have no markup: there is an element for every tag that is read, and of the script tags
the names, and the nesting, the strings and the types of the other values of the data, are read
back. -/
theorem dumpXmlFile_document (hlib : lib.Plain) (file : Option Bytes) {st : ParseState Bytes N}
    (h : dumpXmlFile lib file = some (0, st))
    (hscripts : ∀ script ∈ scriptsOf st.events, XmlPrintable script) :
    ∃ content, file = some content ∧ XmlDocument lib content st := by
  unfold dumpXmlFile at h
  cases file with
  | none => cases h
  | some content =>
    refine ⟨content, rfl, ?_⟩
    cases hheader : flvReadHeader (flvOpen content) with
    | mk result stream =>
      cases result with
      | error status =>
        rw [flvParse_of_noHeader hheader] at h
        injection h with h
        injection h with hcode
        exact absurd hcode (flvReadHeader_error (congrArg Prod.fst hheader))
      | ok header =>
        let start := xmlStartLine 0 "flv" (xmlFileAttributes header)
        have hdeliver : deliver (xmlParser lib) (.header header) ⟨[], []⟩ stream =
            (0, ⟨xmlDeclaration ++ start, [.header header]⟩, stream) := by
          unfold deliver FlvParser.callback
          simp only [xmlParser, Option.map_some, xmlOnHeader_eq, List.nil_append, start]
        have hvisits : parseVisits (xmlParser lib) [] content = Loop.visits (fun _ => true)
            fetchTag (parseTurn (xmlParser lib)) (content.length + 1)
            ⟨xmlDeclaration ++ start, [.header header]⟩ stream := by
          unfold parseVisits
          rw [hheader]
          dsimp only
          rw [hdeliver, if_neg (not_not.mpr rfl)]
        rw [flvParse_of_header hheader, hdeliver, parseFrom, if_neg (not_not.mpr rfl)] at h
        obtain ⟨⟨e, stream₁⟩, hloop, hend⟩ := Option.map_eq_some_iff.mp h
        have hdocument : ∀ {st₁}, e.state? = some st₁ →
            (0, st) = resultOf (deliver (xmlParser lib) .streamEnd st₁ stream₁) →
            XmlDocument lib content st := by
          intro st₁ he hresult
          obtain ⟨tags, htags, text, found, rfl, hprints⟩ := prints_tags hlib hloop he
          have hstop : puts "</flv>" = xmlEndLine 0 "flv" := by decide
          have hst : st = ⟨xmlDeclaration ++ (start ++ (text ++ xmlEndLine 0 "flv")),
              .header header :: (found ++ [.streamEnd])⟩ := by
            have hsnd := congrArg Prod.snd hresult
            unfold resultOf deliver FlvParser.callback at hsnd
            simpa [xmlParser, xmlOnStreamEnd, hstop] using hsnd
          have hfound : scriptsOf st.events = scriptsOf found := by
            rw [hst]
            simp [scriptsOf]
          rw [hfound] at hscripts
          obtain ⟨hcontains, hread⟩ := hprints hscripts
          obtain ⟨root, rootText, hroot, hreads, htext⟩ := reads_lines
            (by decide : IsXmlName (ascii "flv")) (plainAttributes_xmlFile header) hcontains 0 0
          refine ⟨header, start ++ (text ++ xmlEndLine 0 "flv"), root, tags, by rw [hheader],
            by rw [hst], ?_, hroot, ?_, ?_⟩
          · rw [htext]
            exact hreads.document hroot.isElement (blanks_xmlSpaces 0)
              (List.forall_mem_singleton.mpr rfl)
          · rw [hvisits]
            exact htags
          · rw [readScripts, hroot.elements_eq, hread, hfound]
        cases e with
        | finished st₁ => exact hdocument rfl hend.symm
        | noItem st₁ => exact hdocument rfl hend.symm
        | stopped r =>
          have hretval : r.1 = 0 := congrArg Prod.fst hend
          have hne : r.1 ≠ 0 := Loop.loop_stopped parseTurn_stopped hloop
          exact absurd hretval hne

end

theorem zeroLibrary_plain : zeroLibrary.toXmlLibrary.Plain where
  number := fun _ => (by decide : PrintableText (ascii "0") ∧ Quotable 0x22 (ascii "0"))
  date := fun _ => (by decide : PrintableText (ascii "1970-01-01T00:00:00") ∧
    Quotable 0x22 (ascii "1970-01-01T00:00:00"))

theorem dumpXmlFile_document_tagged :
    ∃ st, dumpXmlFile zeroLibrary.toXmlLibrary (some taggedFile) = some (0, st) ∧
      (scriptsOf st.events).map Prod.fst = [ascii "onMetaData"] ∧
      XmlDocument zeroLibrary.toXmlLibrary taggedFile st := by
  have hdump : (dumpXmlFile zeroLibrary.toXmlLibrary (some taggedFile)).map (fun r =>
      (r.1, (scriptsOf r.2.events).map fun script =>
        (script.1, amfDataGetType script.2))) = some (0, [(ascii "onMetaData", 1)]) := by
    decide +kernel
  obtain ⟨⟨retval, st⟩, hdump, hresult⟩ := Option.map_eq_some_iff.mp hdump
  obtain ⟨rfl, hscripts⟩ := Prod.mk.inj hresult
  obtain ⟨⟨name, data⟩, hscript, hpair⟩ := List.map_eq_singleton_iff.mp hscripts
  obtain ⟨rfl, htype⟩ := Prod.mk.inj hpair
  have hprintable : ∀ script ∈ scriptsOf st.events, XmlPrintable script := by
    rw [hscript]
    refine List.forall_mem_singleton.mpr ⟨(by decide : PlainValue (ascii "onMetaData")), ?_⟩
    cases data with
    | boolean => exact ⟨trivial, trivial⟩
    | other => exact ⟨trivial, trivial⟩
    | _ => cases htype
  obtain ⟨content, hcontent, hdocument⟩ :=
    dumpXmlFile_document zeroLibrary_plain (some taggedFile) hdump hprintable
  cases hcontent
  exact ⟨st, hdump, by rw [hscript]; rfl, hdocument⟩

end FlvMeta
