import Mathlib.Algebra.Order.Ring.Nat
import Mathlib.Data.List.Basic
import Mathlib.Data.List.Infix

/-!
# XML elements

The grammar of an element and of its content in ASCII text, without a document type: `Nodes` reads
nodes from the start of a text and leaves a rest. The lemmas say what is read from a tag, from a
quoted value and from the text of an element, in both directions. Text of the length that is read
from it is literal (`length_text`): a reference or a section takes more than what it stands for.
-/

namespace Xml

abbrev Text := List UInt8

/-! ## Characters -/

def isBlank (c : UInt8) : Bool := c == 0x20 || c == 0x09 || c == 0x0a

/-- A literal character. A carriage return, which is read as a line feed, is left out. -/
def isChar (c : UInt8) : Bool := isBlank c || (0x20 < c && c < 0x80)

def isNameStart (c : UInt8) : Bool :=
  (0x41 ≤ c && c ≤ 0x5a) || (0x61 ≤ c && c ≤ 0x7a) || c == 0x3a || c == 0x5f

def isNameChar (c : UInt8) : Bool :=
  isNameStart c || (0x30 ≤ c && c ≤ 0x39) || c == 0x2d || c == 0x2e

def IsXmlName (name : Text) : Prop := name.all isNameChar ∧ ∃ c ∈ name.head?, isNameStart c

instance (name : Text) : Decidable (IsXmlName name) := inferInstanceAs (Decidable (_ ∧ _))

def Blanks (blanks : Text) : Prop := ∀ c ∈ blanks, isBlank c

instance (blanks : Text) : Decidable (Blanks blanks) :=
  List.decidableBAll (fun c => isBlank c = true) blanks

/-! ## References -/

def digits : Text :=
  [0x30, 0x31, 0x32, 0x33, 0x34, 0x35, 0x36, 0x37, 0x38, 0x39, 0x61, 0x62, 0x63, 0x64, 0x65, 0x66,
    0x41, 0x42, 0x43, 0x44, 0x45, 0x46]

def digitValue (c : UInt8) : Nat :=
  if digits.idxOf c < 16 then digits.idxOf c else digits.idxOf c - 6

def isDigit (base : Nat) (c : UInt8) : Bool := digits.contains c && digitValue c < base

/-- The code points of characters. -/
def isCode (n : Nat) : Bool :=
  n == 0x09 || n == 0x0a || n == 0x0d || (0x20 ≤ n && n < 0xd800) || (0xe000 ≤ n && n < 0xfffe) ||
    (0x10000 ≤ n && n < 0x110000)

def numeral (base : Nat) (text : Text) : Option Nat :=
  let value := text.foldl (fun n c => n * base + digitValue c) 0
  if !text.isEmpty && text.all (isDigit base) && isCode value then some value else none

/-- The predefined entities: `lt`, `gt`, `amp`, `apos` and `quot`. -/
def entities : List (Text × Nat) :=
  [([0x6c, 0x74], 0x3c), ([0x67, 0x74], 0x3e), ([0x61, 0x6d, 0x70], 0x26),
    ([0x61, 0x70, 0x6f, 0x73], 0x27), ([0x71, 0x75, 0x6f, 0x74], 0x22)]

/-- The character that is meant between an ampersand and a semicolon. -/
def referenceValue : Text → Option Nat
  | 0x23 :: 0x78 :: text => numeral 16 text
  | 0x23 :: text => numeral 10 text
  | text => entities.lookup text

/-! ## Tags -/

/-- The value of an attribute, up to the quote that closes it. White space is read as spaces. -/
inductive Value (quote : UInt8) : Text → List Nat → Text → Prop
  | close (rest : Text) : Value quote (quote :: rest) [] rest
  | char {c : UInt8} {text rest : Text} {codes : List Nat} (hchar : isChar c) (hquote : c ≠ quote)
      (hless : c ≠ 0x3c) (hamp : c ≠ 0x26) (h : Value quote text codes rest) :
      Value quote (c :: text) ((if isBlank c then 0x20 else c.toNat) :: codes) rest
  | reference {name text rest : Text} {code : Nat} {codes : List Nat}
      (hcode : referenceValue name = some code) (h : Value quote text codes rest) :
      Value quote (0x26 :: (name ++ 0x3b :: text)) (code :: codes) rest

/-- The attributes of a tag. -/
inductive Attributes : Text → List (Text × List Nat) → Text → Prop
  | nil (rest : Text) : Attributes rest [] rest
  | cons {blanks blanks₁ blanks₂ key text text' rest : Text} {quote : UInt8} {codes : List Nat}
      {attributes : List (Text × List Nat)} (hne : blanks ≠ []) (hblanks : Blanks blanks)
      (hkey : IsXmlName key) (hblanks₁ : Blanks blanks₁) (hblanks₂ : Blanks blanks₂)
      (hquote : quote = 0x22 ∨ quote = 0x27) (hvalue : Value quote text codes text')
      (h : Attributes text' attributes rest) :
      Attributes (blanks ++ (key ++ (blanks₁ ++ 0x3d :: (blanks₂ ++ quote :: text))))
        ((key, codes) :: attributes) rest

/-- A tag with the brackets that close it, `>` or `/>`. -/
def Tag (text name : Text) (attributes : List (Text × List Nat)) (close rest : Text) : Prop :=
  IsXmlName name ∧ (attributes.map Prod.fst).Nodup ∧ ∃ tag blanks, text = 0x3c :: (name ++ tag) ∧
    Blanks blanks ∧ Attributes tag attributes (blanks ++ (close ++ rest))

/-- The end tag. -/
def CloseTag (text name rest : Text) : Prop :=
  ∃ blanks, Blanks blanks ∧ text = 0x3c :: 0x2f :: (name ++ (blanks ++ 0x3e :: rest))

/-! ## Content -/

inductive Node
  | char (code : Nat)
  | cdata (text : Text)
  | comment (text : Text)
  | instruction (target text : Text)
  | element (name : Text) (attributes : List (Text × List Nat)) (children : List Node)

/-- `<![CDATA[`. -/
def cdataStart : Text := [0x3c, 0x21, 0x5b, 0x43, 0x44, 0x41, 0x54, 0x41, 0x5b]

/-- `]]>`. -/
def cdataEnd : Text := [0x5d, 0x5d, 0x3e]

/-- The nodes that are read from a text, and the rest of it. -/
inductive Nodes : Text → List Node → Text → Prop
  | done (rest : Text) : Nodes rest [] rest
  | char {c : UInt8} {text rest : Text} {nodes : List Node} (hchar : isChar c) (hless : c ≠ 0x3c)
      (hamp : c ≠ 0x26) (hend : ¬ cdataEnd <+: c :: text) (h : Nodes text nodes rest) :
      Nodes (c :: text) (.char c.toNat :: nodes) rest
  | reference {name text rest : Text} {code : Nat} {nodes : List Node}
      (hcode : referenceValue name = some code) (h : Nodes text nodes rest) :
      Nodes (0x26 :: (name ++ 0x3b :: text)) (.char code :: nodes) rest
  | cdata {body text rest : Text} {nodes : List Node} (hchar : ∀ c ∈ body, isChar c)
      (hend : ¬ cdataEnd <:+: body) (h : Nodes text nodes rest) :
      Nodes (cdataStart ++ (body ++ (cdataEnd ++ text))) (.cdata body :: nodes) rest
  | comment {body text rest : Text} {nodes : List Node} (hchar : ∀ c ∈ body, isChar c)
      (hhyphens : ¬ [0x2d, 0x2d] <:+: body) (hlast : body.getLast? ≠ some 0x2d)
      (h : Nodes text nodes rest) :
      Nodes (0x3c :: 0x21 :: 0x2d :: 0x2d :: (body ++ 0x2d :: 0x2d :: 0x3e :: text))
        (.comment body :: nodes) rest
  | instruction {target body text rest : Text} {nodes : List Node} (htarget : IsXmlName target)
      (hxml : target.map (· ||| 0x20) ≠ [0x78, 0x6d, 0x6c]) (hchar : ∀ c ∈ body, isChar c)
      (hblank : ∀ c ∈ body.head?, isBlank c) (hend : ¬ [0x3f, 0x3e] <:+: body)
      (h : Nodes text nodes rest) :
      Nodes (0x3c :: 0x3f :: (target ++ (body ++ 0x3f :: 0x3e :: text)))
        (.instruction target body :: nodes) rest
  | emptyElement {text name text' rest : Text} {attributes : List (Text × List Nat)}
      {nodes : List Node} (htag : Tag text name attributes [0x2f, 0x3e] text')
      (h : Nodes text' nodes rest) : Nodes text (.element name attributes [] :: nodes) rest
  | element {text name text' endText text'' rest : Text} {attributes : List (Text × List Nat)}
      {children nodes : List Node} (htag : Tag text name attributes [0x3e] text')
      (hchildren : Nodes text' children endText) (hend : CloseTag endText name text'')
      (h : Nodes text'' nodes rest) : Nodes text (.element name attributes children :: nodes) rest

def Node.IsElement : Node → Prop
  | element _ _ _ => True
  | _ => False

/-- One element between white space. -/
def Document (text : Text) (root : Node) : Prop :=
  ∃ before start after, text = before ++ start ∧ Blanks before ∧ Blanks after ∧ root.IsElement ∧
    Nodes start [root] after

/-! ## One node after the other -/

theorem nodes_cons_iff {text rest : Text} {node : Node} {nodes : List Node} :
    Nodes text (node :: nodes) rest ↔
      ∃ text', Nodes text [node] text' ∧ Nodes text' nodes rest := by
  constructor
  · intro h
    cases h with
    | char hchar hless hamp hend h => exact ⟨_, .char hchar hless hamp hend (.done _), h⟩
    | reference hcode h => exact ⟨_, .reference hcode (.done _), h⟩
    | cdata hchar hend h => exact ⟨_, .cdata hchar hend (.done _), h⟩
    | comment hchar hhyphens hlast h => exact ⟨_, .comment hchar hhyphens hlast (.done _), h⟩
    | instruction htarget hxml hchar hblank hend h =>
      exact ⟨_, .instruction htarget hxml hchar hblank hend (.done _), h⟩
    | emptyElement htag h => exact ⟨_, .emptyElement htag (.done _), h⟩
    | element htag hchildren hend h => exact ⟨_, .element htag hchildren hend (.done _), h⟩
  · rintro ⟨text', hnode, h⟩
    cases hnode with
    | char hchar hless hamp hend hdone =>
      cases hdone
      exact .char hchar hless hamp hend h
    | reference hcode hdone =>
      cases hdone
      exact .reference hcode h
    | cdata hchar hend hdone =>
      cases hdone
      exact .cdata hchar hend h
    | comment hchar hhyphens hlast hdone =>
      cases hdone
      exact .comment hchar hhyphens hlast h
    | instruction htarget hxml hchar hblank hend hdone =>
      cases hdone
      exact .instruction htarget hxml hchar hblank hend h
    | emptyElement htag hdone =>
      cases hdone
      exact .emptyElement htag h
    | element htag hchildren hend hdone =>
      cases hdone
      exact .element htag hchildren hend h

theorem nodes_nil_iff {text rest : Text} : Nodes text [] rest ↔ text = rest := by
  constructor
  · intro h
    cases h
    rfl
  · rintro rfl
    exact .done _

theorem IsXmlName.exists_cons {name : Text} (h : IsXmlName name) :
    ∃ c tail, name = c :: tail ∧ isNameStart c := by
  obtain ⟨-, c, hhead, hc⟩ := h
  exact ⟨c, name.tail, List.eq_cons_of_mem_head? hhead, hc⟩

/-! ## Tags -/

theorem split_unique {p : UInt8 → Bool} {a b x y : Text} (h : a ++ x = b ++ y)
    (ha : ∀ c ∈ a, p c = true) (hb : ∀ c ∈ b, p c = true) (hx : ∀ c ∈ x.head?, p c = false)
    (hy : ∀ c ∈ y.head?, p c = false) : a = b ∧ x = y := by
  induction a generalizing b with
  | nil =>
    cases b with
    | nil => exact ⟨rfl, h⟩
    | cons d b =>
      subst h
      exact absurd (hb d List.mem_cons_self) (by rw [hx d rfl]; decide)
  | cons c a ih =>
    cases b with
    | nil =>
      subst h
      exact absurd (ha c List.mem_cons_self) (by rw [hy c rfl]; decide)
    | cons d b =>
      obtain ⟨rfl, htail⟩ := List.cons.inj h
      obtain ⟨rfl, rfl⟩ := ih htail (fun c hc => ha c (List.mem_cons_of_mem _ hc))
        (fun c hc => hb c (List.mem_cons_of_mem _ hc))
      exact ⟨rfl, rfl⟩

theorem IsXmlName.isNameChar {name : Text} (h : IsXmlName name) :
    ∀ c ∈ name, Xml.isNameChar c = true :=
  List.all_eq_true.mp h.1

theorem isNameChar_of_isBlank {c : UInt8} (h : isBlank c) : isNameChar c = false := by
  simp only [isBlank, Bool.or_eq_true, beq_iff_eq] at h
  rcases h with (rfl | rfl) | rfl
  · decide
  · decide
  · decide

theorem isBlank_of_isNameStart {c : UInt8} (h : isNameStart c) : isBlank c = false := by
  by_contra hblank
  have hchar := isNameChar_of_isBlank (Bool.not_eq_false _ ▸ hblank)
  rw [isNameChar, h] at hchar
  exact absurd hchar (by simp)

/-- What closes a tag. -/
def IsClose (close : Text) : Prop := close = [0x2f, 0x3e] ∨ close = [0x3e]

theorem IsClose.empty : IsClose [0x2f, 0x3e] := .inl rfl

theorem IsClose.plain : IsClose [0x3e] := .inr rfl

theorem head_blanks_append {blanks rest : Text} {p : UInt8 → Bool} (hblanks : Blanks blanks)
    (hblank : ∀ c, isBlank c → p c = false) (hrest : ∀ c ∈ rest.head?, p c = false) :
    ∀ c ∈ (blanks ++ rest).head?, p c = false := by
  cases blanks with
  | nil => exact hrest
  | cons b blanks =>
    intro c hc
    cases hc
    exact hblank _ (hblanks _ List.mem_cons_self)

theorem IsClose.head {close : Text} (h : IsClose close) (rest : Text) {p : UInt8 → Bool}
    (hslash : p 0x2f = false) (hgreater : p 0x3e = false) :
    ∀ c ∈ (close ++ rest).head?, p c = false := by
  rcases h with rfl | rfl
  · rintro c ⟨⟩
    exact hslash
  · rintro c ⟨⟩
    exact hgreater

/-- A name ends before the attributes. -/
theorem Attributes.head {text rest : Text} {attributes : List (Text × List Nat)}
    (h : Attributes text attributes rest) (hrest : ∀ c ∈ rest.head?, isNameChar c = false) :
    ∀ c ∈ text.head?, isNameChar c = false := by
  cases h with
  | nil => exact hrest
  | @cons blanks _ _ _ _ _ _ _ _ _ hne hblanks =>
    cases blanks with
    | nil => exact absurd rfl hne
    | cons b blanks =>
      rintro c ⟨⟩
      exact isNameChar_of_isBlank (hblanks _ List.mem_cons_self)

theorem tag_iff {name name' text close rest : Text} {attributes : List (Text × List Nat)}
    (hname : IsXmlName name) (htext : ∀ c ∈ text.head?, isNameChar c = false)
    (hclose : IsClose close) :
    Tag (0x3c :: (name ++ text)) name' attributes close rest ↔
      name' = name ∧ (attributes.map Prod.fst).Nodup ∧
        ∃ blanks, Blanks blanks ∧ Attributes text attributes (blanks ++ (close ++ rest)) := by
  constructor
  · rintro ⟨hname', hunique, tag, blanks, heq, hblanks, hattributes⟩
    have hhead : ∀ c ∈ (blanks ++ (close ++ rest)).head?, isNameChar c = false :=
      head_blanks_append hblanks (fun _ => isNameChar_of_isBlank) (hclose.head rest rfl rfl)
    obtain ⟨rfl, rfl⟩ := split_unique (List.cons.inj heq).2 hname.isNameChar hname'.isNameChar
      htext (hattributes.head hhead)
    exact ⟨rfl, hunique, blanks, hblanks, hattributes⟩
  · rintro ⟨rfl, hunique, blanks, hblanks, hattributes⟩
    exact ⟨hname, hunique, text, blanks, rfl, hblanks, hattributes⟩

theorem isClose_append_inj {blanks close close' rest rest' : Text} (hclose : IsClose close)
    (hclose' : IsClose close') (hblanks : Blanks blanks)
    (h : close' ++ rest' = blanks ++ (close ++ rest)) :
    blanks = [] ∧ close = close' ∧ rest = rest' := by
  obtain ⟨hnil, hrest⟩ := split_unique (a := []) h (by simp) hblanks
    (hclose'.head rest' (by decide) (by decide)) (hclose.head rest (by decide) (by decide))
  refine ⟨hnil.symm, ?_⟩
  rcases hclose with rfl | rfl
  · rcases hclose' with rfl | rfl
    · exact ⟨rfl, (List.append_cancel_left hrest).symm⟩
    · cases hrest
  · rcases hclose' with rfl | rfl
    · cases hrest
    · exact ⟨rfl, (List.append_cancel_left hrest).symm⟩

/-- No attributes stand before the brackets. -/
theorem attributes_close_iff {blanks close close' rest rest' : Text}
    {attributes : List (Text × List Nat)} (hclose : IsClose close) (hclose' : IsClose close')
    (hblanks : Blanks blanks) :
    Attributes (close' ++ rest') attributes (blanks ++ (close ++ rest)) ↔
      attributes = [] ∧ blanks = [] ∧ close = close' ∧ rest = rest' := by
  constructor
  · generalize htext : close' ++ rest' = text
    intro h
    cases h with
    | nil => exact ⟨rfl, isClose_append_inj hclose hclose' hblanks htext⟩
    | @cons blanks' _ _ _ _ _ _ _ _ _ hne hblanks' =>
      cases blanks' with
      | nil => exact absurd rfl hne
      | cons b blanks' =>
        have hhead := hclose'.head rest' (p := isBlank) (by decide) (by decide) b
          (by rw [htext]; rfl)
        rw [hblanks' b List.mem_cons_self] at hhead
        cases hhead
  · rintro ⟨rfl, rfl, rfl, rfl⟩
    exact .nil _

theorem tag_plain_iff {name name' close close' rest rest' : Text}
    {attributes : List (Text × List Nat)} (hname : IsXmlName name) (hclose : IsClose close)
    (hclose' : IsClose close') :
    Tag (0x3c :: (name ++ (close' ++ rest'))) name' attributes close rest ↔
      name' = name ∧ attributes = [] ∧ close = close' ∧ rest = rest' := by
  rw [tag_iff hname (hclose'.head rest' rfl rfl) hclose]
  constructor
  · rintro ⟨rfl, -, blanks, hblanks, hattributes⟩
    obtain ⟨rfl, -, hrest⟩ := (attributes_close_iff hclose hclose' hblanks).mp hattributes
    exact ⟨rfl, rfl, hrest⟩
  · rintro ⟨rfl, rfl, rfl, rfl⟩
    exact ⟨rfl, by simp, [], by simp [Blanks], .nil _⟩

/-! ## Quoted values -/

/-- What a literal value is read as. -/
def literal (value : Text) : List Nat := value.map fun c => if isBlank c then 0x20 else c.toNat

/-- A value that can stand between quotes as it is. -/
def Quotable (quote : UInt8) (value : Text) : Prop := ∀ c ∈ value, c ≠ quote ∧ c ≠ 0x3c ∧ c ≠ 0x26

instance (quote : UInt8) (value : Text) : Decidable (Quotable quote value) :=
  List.decidableBAll (fun c => c ≠ quote ∧ c ≠ 0x3c ∧ c ≠ 0x26) value

theorem value_literal {quote : UInt8} {value : Text} (hchar : ∀ c ∈ value, isChar c)
    (hquotable : Quotable quote value) (rest : Text) :
    Value quote (value ++ quote :: rest) (literal value) rest := by
  induction value with
  | nil => exact .close rest
  | cons c value ih =>
    obtain ⟨hquote, hless, hamp⟩ := hquotable c List.mem_cons_self
    exact .char (hchar c List.mem_cons_self) hquote hless hamp
      (ih (fun c hc => hchar c (List.mem_cons_of_mem _ hc))
        fun c hc => hquotable c (List.mem_cons_of_mem _ hc))

theorem isNameChar_of_numeral {base : Nat} {text : Text} {code : Nat}
    (h : numeral base text = some code) : ∀ c ∈ text, isNameChar c = true := by
  have hdigits : ∀ c ∈ digits, isNameChar c = true := List.all_eq_true.mp rfl
  unfold numeral at h
  dsimp only at h
  split at h
  · next hall =>
    simp only [Bool.and_eq_true, List.all_eq_true, isDigit, List.contains_iff_mem] at hall
    exact fun c hc => hdigits c (hall.1.2 c hc).1
  · cases h

/-- References are made of name characters and the number sign. -/
theorem reference_char {name : Text} {code : Nat} (h : referenceValue name = some code) :
    ∀ c ∈ name, isNameChar c = true ∨ c = 0x23 := by
  unfold referenceValue at h
  split at h
  · intro c hc
    rcases List.mem_cons.mp hc with rfl | hc
    · exact .inr rfl
    rcases List.mem_cons.mp hc with rfl | hc
    · exact .inl (by decide)
    · exact .inl (isNameChar_of_numeral h c hc)
  · intro c hc
    rcases List.mem_cons.mp hc with rfl | hc
    · exact .inr rfl
    · exact .inl (isNameChar_of_numeral h c hc)
  · obtain ⟨before, after, hentities, -⟩ := List.lookup_eq_some_iff.mp h
    have hkeys : ∀ entry ∈ entities, entry.1.all isNameChar = true := by decide
    have hmem : (name, code) ∈ entities := by
      rw [hentities]
      exact List.mem_append_right _ List.mem_cons_self
    exact fun c hc => .inl (List.all_eq_true.mp (hkeys _ hmem) c hc)

theorem reference_ne {name : Text} {code : Nat} (h : referenceValue name = some code) {d : UInt8}
    (hname : isNameChar d = false) (hsign : d ≠ 0x23) : d ∉ name := by
  intro hd
  rcases reference_char h d hd with hchar | hchar
  · rw [hname] at hchar
    cases hchar
  · exact hsign hchar

/-- What ends where `d` is not part of it ends before `d`. -/
theorem append_of_not_mem {as text v rest : Text} {d e : UInt8} (hd : d ∉ as) (hne : e ≠ d)
    (h : as ++ e :: text = v ++ d :: rest) : ∃ w, v = as ++ e :: w ∧ text = w ++ d :: rest := by
  induction as generalizing v with
  | nil =>
    cases v with
    | nil => exact absurd (List.cons.inj h).1 hne
    | cons c v =>
      obtain ⟨rfl, htail⟩ := List.cons.inj h
      exact ⟨v, rfl, htail⟩
  | cons a as ih =>
    cases v with
    | nil =>
      obtain ⟨rfl, -⟩ := List.cons.inj h
      exact absurd List.mem_cons_self hd
    | cons c v =>
      obtain ⟨rfl, htail⟩ := List.cons.inj h
      obtain ⟨w, rfl, htext⟩ := ih (fun hmem => hd (List.mem_cons_of_mem _ hmem)) htail
      exact ⟨w, rfl, htext⟩

/-- A value of the length of what stands for it is literal. -/
theorem length_value {quote : UInt8} (hquote : quote = 0x22 ∨ quote = 0x27)
    {value rest rest' : Text}
    {codes : List Nat} (h : Value quote (value ++ quote :: rest) codes rest') :
    codes.length ≤ value.length ∧
      (codes.length = value.length →
        Quotable quote value ∧ rest' = rest ∧ codes = literal value) := by
  generalize htext : value ++ quote :: rest = text at h
  induction h generalizing value with
  | close rest' =>
    refine ⟨Nat.zero_le _, fun hlength => ?_⟩
    obtain rfl := List.eq_nil_of_length_eq_zero hlength.symm
    exact ⟨by simp [Quotable], (List.cons.inj htext).2.symm, rfl⟩
  | char hchar hne hless hamp _ ih =>
    cases value with
    | nil => exact absurd (List.cons.inj htext).1.symm hne
    | cons c value =>
      obtain ⟨rfl, htail⟩ := List.cons.inj htext
      obtain ⟨hle, heq⟩ := ih htail
      refine ⟨Nat.succ_le_succ hle, fun hlength => ?_⟩
      obtain ⟨hquotable, hrest, hcodes⟩ := heq (Nat.succ.inj hlength)
      exact ⟨List.forall_mem_cons.mpr ⟨⟨hne, hless, hamp⟩, hquotable⟩, hrest, by
        rw [hcodes]
        rfl⟩
  | @reference name _ _ _ _ hcode _ ih =>
    cases value with
    | nil =>
      obtain ⟨hamp, -⟩ := List.cons.inj htext
      rcases hquote with rfl | rfl
      · cases hamp
      · cases hamp
    | cons c value =>
      obtain ⟨rfl, htail⟩ := List.cons.inj htext
      have hmem : quote ∉ name := by
        rcases hquote with rfl | rfl
        · exact reference_ne hcode (by decide) (by decide)
        · exact reference_ne hcode (by decide) (by decide)
      have hne : (0x3b : UInt8) ≠ quote := by
        rcases hquote with rfl | rfl
        · decide
        · decide
      obtain ⟨w, rfl, htext'⟩ := append_of_not_mem hmem hne htail.symm
      have hle := (ih htext'.symm).1
      simp only [List.length_cons, List.length_append]
      exact ⟨by omega, fun hlength => absurd hlength (by omega)⟩

theorem value_literal_iff {quote : UInt8} (hquote : quote ≠ 0x26) {value : Text}
    (hchar : ∀ c ∈ value, isChar c) (hquotable : Quotable quote value) {rest rest' : Text}
    {codes : List Nat} :
    Value quote (value ++ quote :: rest) codes rest' ↔ codes = literal value ∧ rest' = rest := by
  constructor
  · intro h
    induction value generalizing codes with
    | nil =>
      cases h with
      | close => exact ⟨rfl, rfl⟩
      | char _ hne => exact absurd rfl hne
      | reference => exact absurd rfl hquote
    | cons c value ih =>
      obtain ⟨hne, -, hamp⟩ := hquotable c List.mem_cons_self
      rw [List.cons_append] at h
      generalize htail : value ++ quote :: rest = tail at h
      cases h with
      | close => exact absurd rfl hne
      | char _ _ _ _ h =>
        subst htail
        obtain ⟨rfl, rfl⟩ := ih (fun c hc => hchar c (List.mem_cons_of_mem _ hc))
          (fun c hc => hquotable c (List.mem_cons_of_mem _ hc)) h
        exact ⟨rfl, rfl⟩
      | reference => exact absurd rfl hamp
  · rintro ⟨rfl, rfl⟩
    exact value_literal hchar hquotable _

/-- A tag with an attribute between quotation marks. -/
theorem tag_attribute_iff {name name' key text close rest : Text}
    {attributes : List (Text × List Nat)} (hname : IsXmlName name) (hkey : IsXmlName key)
    (hclose : IsClose close) :
    Tag (0x3c :: (name ++ 0x20 :: (key ++ 0x3d :: 0x22 :: text))) name' attributes close rest ↔
      name' = name ∧ ∃ codes text' more blanks, attributes = (key, codes) :: more ∧
        (attributes.map Prod.fst).Nodup ∧ Value 0x22 text codes text' ∧ Blanks blanks ∧
        Attributes text' more (blanks ++ (close ++ rest)) := by
  have hspace : ∀ c ∈ (0x20 :: (key ++ 0x3d :: 0x22 :: text)).head?, isNameChar c = false := by
    rintro c ⟨⟩
    decide
  have hstart : ∀ rest', ∀ c ∈ (key ++ rest').head?, isBlank c = false := by
    obtain ⟨c, tail, rfl, hc⟩ := hkey.exists_cons
    rintro rest' d ⟨⟩
    exact isBlank_of_isNameStart hc
  rw [tag_iff hname hspace hclose]
  refine and_congr_right fun _ => ?_
  constructor
  · rintro ⟨hunique, blanks, hblanks, hattributes⟩
    generalize htext : 0x20 :: (key ++ 0x3d :: 0x22 :: text) = tag at hattributes
    cases hattributes with
    | nil =>
      -- the brackets do not start with a name
      obtain ⟨-, hrest⟩ := split_unique (a := [0x20]) htext
        (List.forall_mem_singleton.mpr rfl) hblanks (hstart _)
        (hclose.head rest (by decide) (by decide))
      obtain ⟨c, tail, rfl, hc⟩ := hkey.exists_cons
      have hhead := hclose.head rest (p := isNameStart) (by decide) (by decide) c
        (by rw [← hrest]; rfl)
      rw [hc] at hhead
      cases hhead
    | @cons blanks' blanks₁ blanks₂ key' text₁ text' _ quote codes more hne hblanks' hkey' hblanks₁
        hblanks₂ hquote hvalue hmore =>
      have hstart' : ∀ rest', ∀ c ∈ (key' ++ rest').head?, isBlank c = false := by
        obtain ⟨c, tail, rfl, hc⟩ := hkey'.exists_cons
        rintro rest' d ⟨⟩
        exact isBlank_of_isNameStart hc
      obtain ⟨-, hkeys⟩ := split_unique (a := [0x20]) htext
        (List.forall_mem_singleton.mpr rfl) hblanks' (hstart _)
        (hstart' _)
      obtain ⟨rfl, hequals⟩ := split_unique hkeys hkey.isNameChar hkey'.isNameChar
        (by rintro c ⟨⟩; decide)
        (head_blanks_append hblanks₁ (fun _ => isNameChar_of_isBlank) (by rintro c ⟨⟩; decide))
      obtain ⟨-, hequals⟩ := split_unique (a := []) hequals (by simp) hblanks₁
        (by rintro c ⟨⟩; decide) (by rintro c ⟨⟩; decide)
      obtain ⟨-, hquotes⟩ := split_unique (a := []) (List.cons.inj hequals).2 (by simp) hblanks₂
        (by rintro c ⟨⟩; decide)
        (by
          rintro c ⟨⟩
          rcases hquote with rfl | rfl
          · decide
          · decide)
      obtain ⟨rfl, rfl⟩ := List.cons.inj hquotes
      exact ⟨codes, text', more, blanks, rfl, hunique, hvalue, hblanks, hmore⟩
  · rintro ⟨codes, text', more, blanks, rfl, hunique, hvalue, hblanks, hmore⟩
    have hattributes : Attributes ([0x20] ++ (key ++ ([] ++ 0x3d :: ([] ++ 0x22 :: text))))
        ((key, codes) :: more) (blanks ++ (close ++ rest)) :=
      .cons (by decide) (by decide) hkey (by decide) (by decide) (.inl rfl) hvalue hmore
    exact ⟨hunique, blanks, hblanks, hattributes⟩

/-- A tag with a literal value for its one attribute. -/
theorem tag_literal_iff {name name' key value close close' rest rest' : Text}
    {attributes : List (Text × List Nat)} (hname : IsXmlName name) (hkey : IsXmlName key)
    (hclose : IsClose close) (hclose' : IsClose close') (hchar : ∀ c ∈ value, isChar c)
    (hquotable : Quotable 0x22 value) :
    Tag (0x3c :: (name ++ 0x20 :: (key ++ 0x3d :: 0x22 :: (value ++ 0x22 :: (close' ++ rest')))))
        name' attributes close rest ↔
      name' = name ∧ attributes = [(key, literal value)] ∧ close = close' ∧ rest = rest' := by
  rw [tag_attribute_iff hname hkey hclose]
  refine and_congr_right fun _ => ?_
  constructor
  · rintro ⟨codes, text', more, blanks, rfl, -, hvalue, hblanks, hmore⟩
    obtain ⟨rfl, rfl⟩ := (value_literal_iff (by decide) hchar hquotable).mp hvalue
    obtain ⟨rfl, -, hrest⟩ := (attributes_close_iff hclose hclose' hblanks).mp hmore
    exact ⟨rfl, hrest⟩
  · rintro ⟨rfl, rfl, rfl⟩
    exact ⟨literal value, close ++ rest, [], [], rfl, by simp, value_literal hchar hquotable _,
      by simp [Blanks], .nil _⟩

/-- A value that is read back as it was is literal. -/
theorem quotable_of_tag {name name' key value close rest rest' : Text}
    {attributes : List (Text × List Nat)} (hname : IsXmlName name) (hkey : IsXmlName key)
    (hclose : IsClose close)
    (h : Tag (0x3c :: (name ++ 0x20 :: (key ++ 0x3d :: 0x22 :: (value ++ 0x22 :: rest')))) name'
      attributes close rest)
    (hvalue : attributes.lookup key = some (literal value)) : Quotable 0x22 value := by
  obtain ⟨-, codes, text', more, blanks, rfl, -, hread, -, -⟩ :=
    (tag_attribute_iff hname hkey hclose).mp h
  rw [List.lookup_cons_self, Option.some.injEq] at hvalue
  subst hvalue
  exact ((length_value (.inl rfl) hread).2 (by simp [literal])).1

/-! ## Nodes at the start of a text -/

/-- White space is read by itself. -/
theorem nodes_blank_iff {c : UInt8} (hc : isBlank c) {text rest : Text} {node : Node} :
    Nodes (c :: text) [node] rest ↔ node = .char c.toNat ∧ rest = text := by
  have hne : c ≠ 0x3c ∧ c ≠ 0x26 ∧ c ≠ 0x5d := by
    simp only [isBlank, Bool.or_eq_true, beq_iff_eq] at hc
    rcases hc with (rfl | rfl) | rfl
    · decide
    · decide
    · decide
  constructor
  · generalize hstart : c :: text = start
    intro h
    cases h with
    | char _ _ _ _ h =>
      obtain ⟨rfl, rfl⟩ := List.cons.inj hstart
      cases h
      exact ⟨rfl, rfl⟩
    | reference => exact absurd (List.cons.inj hstart).1 hne.2.1
    | cdata => exact absurd (List.cons.inj hstart).1 hne.1
    | comment => exact absurd (List.cons.inj hstart).1 hne.1
    | instruction => exact absurd (List.cons.inj hstart).1 hne.1
    | emptyElement htag =>
      obtain ⟨-, -, tag, blanks, rfl, -⟩ := htag
      exact absurd (List.cons.inj hstart).1 hne.1
    | element htag =>
      obtain ⟨-, -, tag, blanks, rfl, -⟩ := htag
      exact absurd (List.cons.inj hstart).1 hne.1
  · rintro ⟨rfl, rfl⟩
    refine .char (by simp [isChar, hc]) hne.1 hne.2.1 ?_ (.done _)
    intro hpre
    exact hne.2.2 (List.cons_prefix_cons.mp hpre).1.symm

/-- A tag is read as an element. -/
theorem nodes_tag_iff {name text rest : Text} (hname : IsXmlName name) {node : Node} :
    Nodes (0x3c :: (name ++ text)) [node] rest ↔
      ∃ name' attributes, (Tag (0x3c :: (name ++ text)) name' attributes [0x2f, 0x3e] rest ∧
          node = .element name' attributes []) ∨
        ∃ text' children endText, Tag (0x3c :: (name ++ text)) name' attributes [0x3e] text' ∧
          Nodes text' children endText ∧ CloseTag endText name' rest ∧
          node = .element name' attributes children := by
  obtain ⟨c, tail, rfl, hc⟩ := hname.exists_cons
  constructor
  · generalize hstart : 0x3c :: (c :: tail ++ text) = start
    intro h
    cases h with
    | char _ hless => exact absurd (List.cons.inj hstart).1.symm hless
    | reference => exact absurd (List.cons.inj hstart).1 (by decide)
    | cdata =>
      obtain ⟨rfl, -⟩ := List.cons.inj (List.cons.inj hstart).2
      cases hc
    | comment =>
      obtain ⟨rfl, -⟩ := List.cons.inj (List.cons.inj hstart).2
      cases hc
    | instruction =>
      obtain ⟨rfl, -⟩ := List.cons.inj (List.cons.inj hstart).2
      cases hc
    | @emptyElement _ name' _ _ attributes _ htag h =>
      cases h
      exact ⟨name', attributes, .inl ⟨htag, rfl⟩⟩
    | @element _ name' text' endText _ _ attributes children _ htag hchildren hend h =>
      cases h
      exact ⟨name', attributes, .inr ⟨text', children, endText, htag, hchildren, hend, rfl⟩⟩
  · rintro ⟨name', attributes, ⟨htag, rfl⟩ | ⟨text', children, endText, htag, hchildren, hend, rfl⟩⟩
    · exact .emptyElement htag (.done _)
    · exact .element htag hchildren hend (.done _)

theorem nodes_emptyTag_iff {name text rest : Text} (hname : IsXmlName name) {node : Node} :
    Nodes (0x3c :: (name ++ 0x2f :: 0x3e :: text)) [node] rest ↔
      node = .element name [] [] ∧ rest = text := by
  rw [nodes_tag_iff hname]
  constructor
  · rintro ⟨name', attributes, ⟨htag, rfl⟩ | ⟨text', children, endText, htag, -⟩⟩
    · obtain ⟨rfl, rfl, -, rfl⟩ :=
        (tag_plain_iff hname IsClose.empty IsClose.empty).mp htag
      exact ⟨rfl, rfl⟩
    · have hclose := (tag_plain_iff hname IsClose.plain IsClose.empty).mp htag
      cases hclose.2.2.1
  · rintro ⟨rfl, rfl⟩
    exact ⟨name, [], .inl ⟨(tag_plain_iff hname IsClose.empty
      IsClose.empty).mpr ⟨rfl, rfl, rfl, rfl⟩, rfl⟩⟩

theorem nodes_startTag_iff {name text rest : Text} (hname : IsXmlName name) {node : Node} :
    Nodes (0x3c :: (name ++ 0x3e :: text)) [node] rest ↔
      ∃ children endText, Nodes text children endText ∧ CloseTag endText name rest ∧
        node = .element name [] children := by
  rw [nodes_tag_iff hname]
  constructor
  · rintro ⟨name', attributes, ⟨htag, rfl⟩ | ⟨text', children, endText, htag, hchildren, hend, rfl⟩⟩
    · have hclose := (tag_plain_iff hname IsClose.empty IsClose.plain).mp htag
      cases hclose.2.2.1
    · obtain ⟨rfl, rfl, -, rfl⟩ :=
        (tag_plain_iff hname IsClose.plain IsClose.plain).mp htag
      exact ⟨children, endText, hchildren, hend, rfl⟩
  · rintro ⟨children, endText, hchildren, hend, rfl⟩
    exact ⟨name, [], .inr ⟨text, children, endText, (tag_plain_iff hname
      IsClose.plain IsClose.plain).mpr ⟨rfl, rfl, rfl, rfl⟩, hchildren, hend, rfl⟩⟩

theorem nodes_emptyTag_literal_iff {name key value text rest : Text} (hname : IsXmlName name)
    (hkey : IsXmlName key) (hchar : ∀ c ∈ value, isChar c) (hquotable : Quotable 0x22 value)
    {node : Node} :
    Nodes
      (0x3c :: (name ++ 0x20 :: (key ++ 0x3d :: 0x22 :: (value ++ 0x22 :: 0x2f :: 0x3e :: text))))
        [node] rest ↔
      node = .element name [(key, literal value)] [] ∧ rest = text := by
  rw [nodes_tag_iff hname]
  constructor
  · rintro ⟨name', attributes, ⟨htag, rfl⟩ | ⟨text', children, endText, htag, -⟩⟩
    · obtain ⟨rfl, rfl, -, rfl⟩ := (tag_literal_iff hname hkey IsClose.empty
        IsClose.empty hchar hquotable).mp htag
      exact ⟨rfl, rfl⟩
    · have hclose := (tag_literal_iff hname hkey IsClose.plain IsClose.empty
        hchar hquotable).mp htag
      cases hclose.2.2.1
  · rintro ⟨rfl, rfl⟩
    exact ⟨name, _, .inl ⟨(tag_literal_iff hname hkey IsClose.empty
      IsClose.empty hchar hquotable).mpr ⟨rfl, rfl, rfl, rfl⟩, rfl⟩⟩

theorem nodes_startTag_literal_iff {name key value text rest : Text} (hname : IsXmlName name)
    (hkey : IsXmlName key) (hchar : ∀ c ∈ value, isChar c) (hquotable : Quotable 0x22 value)
    {node : Node} :
    Nodes (0x3c :: (name ++ 0x20 :: (key ++ 0x3d :: 0x22 :: (value ++ 0x22 :: 0x3e :: text))))
      [node]
        rest ↔
      ∃ children endText, Nodes text children endText ∧ CloseTag endText name rest ∧
        node = .element name [(key, literal value)] children := by
  rw [nodes_tag_iff hname]
  constructor
  · rintro ⟨name', attributes, ⟨htag, rfl⟩ | ⟨text', children, endText, htag, hchildren, hend, rfl⟩⟩
    · have hclose := (tag_literal_iff hname hkey IsClose.empty IsClose.plain hchar
        hquotable).mp htag
      cases hclose.2.2.1
    · obtain ⟨rfl, rfl, -, rfl⟩ := (tag_literal_iff hname hkey IsClose.plain
        IsClose.plain hchar hquotable).mp htag
      exact ⟨children, endText, hchildren, hend, rfl⟩
  · rintro ⟨children, endText, hchildren, hend, rfl⟩
    exact ⟨name, _, .inr ⟨text, children, endText, (tag_literal_iff hname hkey
      IsClose.plain IsClose.plain hchar hquotable).mpr ⟨rfl, rfl, rfl, rfl⟩, hchildren, hend, rfl⟩⟩

/-- A value that is read back as it was is literal. -/
theorem quotable_of_nodes {name name' key value rest rest' : Text}
    {attributes : List (Text × List Nat)} {children : List Node} (hname : IsXmlName name)
    (hkey : IsXmlName key)
    (h : Nodes (0x3c :: (name ++ 0x20 :: (key ++ 0x3d :: 0x22 :: (value ++ 0x22 :: rest'))))
      [.element name' attributes children] rest)
    (hvalue : attributes.lookup key = some (literal value)) : Quotable 0x22 value := by
  rcases (nodes_tag_iff hname).mp h with
    ⟨name'', attributes', ⟨htag, hnode⟩ | ⟨text', children', endText, htag, -, -, hnode⟩⟩
  · cases hnode
    exact quotable_of_tag hname hkey (.inl rfl) htag hvalue
  · cases hnode
    exact quotable_of_tag hname hkey (.inr rfl) htag hvalue

theorem closeTag_iff {name text rest : Text} :
    CloseTag (0x3c :: 0x2f :: (name ++ 0x3e :: text)) name rest ↔ rest = text := by
  constructor
  · rintro ⟨blanks, hblanks, h⟩
    have htail := List.append_cancel_left (List.cons.inj (List.cons.inj h).2).2
    obtain ⟨-, hrest⟩ := split_unique (a := []) htail (by simp) hblanks
      (by rintro c ⟨⟩; decide) (by rintro c ⟨⟩; decide)
    exact (List.cons.inj hrest).2.symm
  · rintro rfl
    exact ⟨[], by simp [Blanks], rfl⟩

/-- An end tag is no node. -/
theorem nodes_end_iff {text rest : Text} {nodes : List Node} :
    Nodes (0x3c :: 0x2f :: text) nodes rest ↔ nodes = [] ∧ rest = 0x3c :: 0x2f :: text := by
  constructor
  · generalize hstart : 0x3c :: 0x2f :: text = start
    have hnot : ∀ {name attributes close rest}, ¬ Tag start name attributes close rest := by
      rintro name attributes close rest ⟨hname, -, tag, blanks, rfl, -⟩
      obtain ⟨c, tail, rfl, hc⟩ := hname.exists_cons
      obtain ⟨rfl, -⟩ := List.cons.inj (List.cons.inj hstart).2
      cases hc
    intro h
    cases h with
    | done => exact ⟨rfl, rfl⟩
    | char _ hless => exact absurd (List.cons.inj hstart).1.symm hless
    | reference => exact absurd (List.cons.inj hstart).1 (by decide)
    | cdata => exact absurd (List.cons.inj (List.cons.inj hstart).2).1 (by decide)
    | comment => exact absurd (List.cons.inj (List.cons.inj hstart).2).1 (by decide)
    | instruction => exact absurd (List.cons.inj (List.cons.inj hstart).2).1 (by decide)
    | emptyElement htag => exact absurd htag hnot
    | element htag => exact absurd htag hnot
  · rintro ⟨rfl, rfl⟩
    exact .done _

/-! ## Text -/

/-- The text of nodes without markup. -/
def textOf : List Node → Option (List Nat)
  | [] => some []
  | .char code :: nodes => (textOf nodes).map (code :: ·)
  | .cdata body :: nodes => (textOf nodes).map (body.map UInt8.toNat ++ ·)
  | _ :: _ => none

/-- The first end of a section is not after another one. -/
theorem cdataEnd_first {body text v rest : Text} (hend : ¬ cdataEnd <:+: body)
    (h : body ++ (cdataEnd ++ text) = v ++ (cdataEnd ++ rest)) :
    (v = body ∧ text = rest) ∨
      ∃ w, v = body ++ (cdataEnd ++ w) ∧ text = w ++ (cdataEnd ++ rest) := by
  induction body generalizing v with
  | nil =>
    match v, h with
    | [], h => exact .inl ⟨rfl, by simpa using h⟩
    | [a], h =>
      simp [cdataEnd] at h
    | [a, b], h =>
      simp [cdataEnd] at h
    | a :: b :: c :: w, h =>
      simp only [cdataEnd, List.nil_append, List.cons_append, List.cons.injEq] at h
      obtain ⟨rfl, rfl, rfl, htext⟩ := h
      exact .inr ⟨w, rfl, htext⟩
  | cons c body ih =>
    cases v with
    | nil =>
      match body, h with
      | [], h => simp [cdataEnd] at h
      | [b], h => simp [cdataEnd] at h
      | b :: b' :: body, h =>
        simp only [cdataEnd, List.nil_append, List.cons_append, List.cons.injEq] at h
        obtain ⟨rfl, rfl, rfl, -⟩ := h
        exact absurd ⟨[], body, rfl⟩ hend
    | cons d v =>
      obtain ⟨rfl, htail⟩ := List.cons.inj h
      have hbody : ¬ cdataEnd <:+: body := fun hin => hend (List.infix_cons hin)
      rcases ih hbody htail with ⟨rfl, htext⟩ | ⟨w, rfl, htext⟩
      · exact .inl ⟨rfl, htext⟩
      · exact .inr ⟨w, rfl, htext⟩

/-- A prefix without `d` ends before `d`. -/
theorem prefix_of_not_mem {as x rest : Text} {d : UInt8} (hd : d ∉ as) (h : as <+: x ++ d :: rest) :
    as <+: x := by
  rcases List.prefix_or_prefix_of_prefix h (List.prefix_append x _) with hpre | ⟨y, rfl⟩
  · exact hpre
  · cases y with
    | nil => simp
    | cons e y =>
      rw [List.prefix_append_right_inj] at h
      obtain ⟨rfl, -⟩ := List.cons_prefix_cons.mp h
      exact absurd (by simp) hd

/-- No section that starts in the text goes on after it. -/
def Closed (text : Text) : Prop := (∀ c ∈ text, c ≠ 0x3c) ∨ cdataEnd <:+ text

theorem Closed.append {a b : Text} (h : Closed (a ++ b)) : Closed b := by
  rcases h with h | h
  · exact .inl fun c hc => h c (List.mem_append_right _ hc)
  · have hless : ∀ c ∈ cdataEnd, c ≠ 0x3c := by simp [cdataEnd]
    rcases List.suffix_or_suffix_of_suffix h (List.suffix_append a b) with hb | hb
    · exact .inr hb
    · exact .inl fun c hc => hless c (hb.subset hc)

/-- A section that is read within a closed text ends there. -/
theorem Closed.section {text body rest rest' : Text} (h : Closed text) (hend : ¬ cdataEnd <:+: body)
    (heq : text ++ 0x3c :: 0x2f :: rest = cdataStart ++ (body ++ (cdataEnd ++ rest'))) :
    ∃ w, text = cdataStart ++ (body ++ (cdataEnd ++ w)) ∧ rest' = w ++ 0x3c :: 0x2f :: rest := by
  rcases h with h | ⟨x, rfl⟩
  · cases text with
    | nil => exact absurd (List.cons.inj (List.cons.inj heq).2).1 (by decide)
    | cons c text =>
      exact absurd (List.cons.inj heq).1 (h c List.mem_cons_self)
  · have hstart : cdataStart <+: x := by
      rw [List.append_assoc] at heq
      exact prefix_of_not_mem (d := 0x5d) (by decide) ⟨_, heq.symm⟩
    obtain ⟨v, rfl⟩ := hstart
    rw [List.append_assoc, List.append_assoc, List.append_cancel_left_eq] at heq
    rcases cdataEnd_first hend heq.symm with ⟨rfl, rfl⟩ | ⟨w, rfl, rfl⟩
    · exact ⟨[], by simp, rfl⟩
    · exact ⟨w ++ cdataEnd, by simp, by simp⟩

/-- The text of an element is shorter than what stands for it, unless it is literal. -/
theorem length_text (text : Text) {rest rest' : Text} (hclosed : Closed text) {nodes : List Node}
    {codes : List Nat} (h : Nodes (text ++ 0x3c :: 0x2f :: rest) nodes (0x3c :: 0x2f :: rest'))
    (hcodes : textOf nodes = some codes) :
    codes.length ≤ text.length ∧ (codes.length = text.length →
      (∀ c ∈ text, c ≠ 0x26) ∧ ¬ cdataEnd <:+: text ∧ rest' = rest) := by
  generalize hstart : text ++ 0x3c :: 0x2f :: rest = start at h
  generalize hstop : 0x3c :: 0x2f :: rest' = stop at h
  induction h generalizing text codes with
  | done stop =>
    cases hcodes
    refine ⟨Nat.zero_le _, fun hlength => ?_⟩
    obtain rfl := List.eq_nil_of_length_eq_zero hlength.symm
    rw [← hstop, List.nil_append] at hstart
    exact ⟨by simp, by simp [cdataEnd], (List.cons.inj (List.cons.inj hstart).2).2.symm⟩
  | @char c _ _ _ _ hless hamp hend _ ih =>
    obtain ⟨codes, hnodes, rfl⟩ := Option.map_eq_some_iff.mp hcodes
    cases text with
    | nil => exact absurd (List.cons.inj hstart).1.symm hless
    | cons d text =>
      obtain ⟨rfl, htail⟩ := List.cons.inj hstart
      obtain ⟨hle, heq⟩ := ih _ (Closed.append (a := [d]) hclosed) hnodes htail hstop
      refine ⟨Nat.succ_le_succ hle, fun hlength => ?_⟩
      obtain ⟨hplain, hin, hrest⟩ := heq (Nat.succ.inj hlength)
      refine ⟨List.forall_mem_cons.mpr ⟨hamp, hplain⟩, ?_, hrest⟩
      rw [List.infix_cons_iff]
      rintro (hpre | hin')
      · subst htail
        exact hend (hpre.trans (List.prefix_append (d :: text) _))
      · exact hin hin'
  | @reference name _ _ _ _ hcode _ ih =>
    obtain ⟨codes, hnodes, rfl⟩ := Option.map_eq_some_iff.mp hcodes
    cases text with
    | nil => exact absurd (List.cons.inj hstart).1 (by decide)
    | cons d text =>
      obtain ⟨rfl, htail⟩ := List.cons.inj hstart
      obtain ⟨w, rfl, htext⟩ := append_of_not_mem (reference_ne hcode (by decide) (by decide))
        (by decide) htail.symm
      have hsplit : 0x26 :: (name ++ 0x3b :: w) = (0x26 :: (name ++ [0x3b])) ++ w := by simp
      rw [hsplit] at hclosed
      have hle := (ih w hclosed.append hnodes htext.symm hstop).1
      simp only [List.length_cons, List.length_append]
      exact ⟨by omega, fun hlength => absurd hlength (by omega)⟩
  | @cdata body _ _ _ _ hend _ ih =>
    obtain ⟨codes, hnodes, rfl⟩ := Option.map_eq_some_iff.mp hcodes
    obtain ⟨w, rfl, htext⟩ := hclosed.section hend hstart
    have hsplit : cdataStart ++ (body ++ (cdataEnd ++ w)) =
        (cdataStart ++ body ++ cdataEnd) ++ w := by
      simp
    rw [hsplit] at hclosed
    have hle := (ih w hclosed.append hnodes htext.symm hstop).1
    simp only [List.length_map, List.length_append]
    have hstart : cdataStart.length = 9 := rfl
    exact ⟨by omega, fun hlength => absurd hlength (by omega)⟩
  | comment => cases hcodes
  | instruction => cases hcodes
  | emptyElement => cases hcodes
  | element => cases hcodes

theorem nodes_literal {text rest : Text} (hchar : ∀ c ∈ text, isChar c)
    (hless : ∀ c ∈ text, c ≠ 0x3c) (hamp : ∀ c ∈ text, c ≠ 0x26) (hend : ¬ cdataEnd <:+: text) :
    Nodes (text ++ 0x3c :: rest) (text.map fun c => .char c.toNat) (0x3c :: rest) := by
  induction text with
  | nil => exact .done _
  | cons c text ih =>
    rw [List.forall_mem_cons] at hchar hless hamp
    rw [List.infix_cons_iff, not_or] at hend
    refine .char hchar.1 hless.1 hamp.1 (fun hpre => ?_) (ih hchar.2 hless.2 hamp.2 hend.2)
    exact hend.1 (prefix_of_not_mem (by decide) hpre)

theorem textOf_literal (text : Text) :
    textOf (text.map fun c => .char c.toNat) = some (text.map UInt8.toNat) := by
  induction text with
  | nil => rfl
  | cons c text ih => rw [List.map_cons, textOf, ih, Option.map_some, List.map_cons]

/-- Text without markup is read back exactly if it has no ampersand. -/
theorem text_literal_iff {text rest rest' : Text} (hchar : ∀ c ∈ text, isChar c)
    (hless : ∀ c ∈ text, c ≠ 0x3c) (hend : ¬ cdataEnd <:+: text) :
    (∃ nodes, Nodes (text ++ 0x3c :: 0x2f :: rest) nodes (0x3c :: 0x2f :: rest') ∧
        textOf nodes = some (text.map UInt8.toNat)) ↔
      (∀ c ∈ text, c ≠ 0x26) ∧ rest' = rest := by
  constructor
  · rintro ⟨nodes, hnodes, htext⟩
    obtain ⟨hamp, -, hrest⟩ := (length_text text (.inl hless) hnodes htext).2 (List.length_map _)
    exact ⟨hamp, hrest⟩
  · rintro ⟨hamp, rfl⟩
    exact ⟨_, nodes_literal hchar hless hamp hend, textOf_literal text⟩

/-- Text in a section is read back exactly if it does not end the section. -/
theorem text_section_iff {text rest rest' : Text} (hchar : ∀ c ∈ text, isChar c) :
    (∃ nodes, Nodes (cdataStart ++ (text ++ (cdataEnd ++ 0x3c :: 0x2f :: rest))) nodes
        (0x3c :: 0x2f :: rest') ∧ textOf nodes = some (text.map UInt8.toNat)) ↔
      ¬ cdataEnd <:+: text ∧ rest' = rest := by
  constructor
  · rintro ⟨nodes, hnodes, htext⟩
    generalize hstart : cdataStart ++ (text ++ (cdataEnd ++ 0x3c :: 0x2f :: rest)) = start at hnodes
    generalize hstop : 0x3c :: 0x2f :: rest' = stop at hnodes
    cases hnodes with
    | done =>
      subst hstop
      exact absurd (List.cons.inj (List.cons.inj hstart).2).1 (by decide)
    | char _ hless => exact absurd (List.cons.inj hstart).1.symm hless
    | reference => exact absurd (List.cons.inj hstart).1 (by decide)
    | cdata _ hend h =>
      obtain ⟨codes, hcodes, hread⟩ := Option.map_eq_some_iff.mp htext
      subst hstop
      rcases cdataEnd_first hend (List.append_cancel_left hstart).symm with
        ⟨rfl, rfl⟩ | ⟨w, rfl, rfl⟩
      · obtain rfl : codes = [] := by simpa using hread
        exact ⟨hend, ((length_text [] (.inl (by simp)) h hcodes).2 rfl).2.2⟩
      · -- the rest of the text would have to be literal, with an end in it
        have hlength := congrArg List.length hread
        simp only [List.length_append, List.length_map] at hlength
        have hliteral := length_text (w ++ cdataEnd) (.inr (List.suffix_append _ _))
          (by rwa [List.append_assoc]) hcodes
        rw [List.length_append] at hliteral
        exact absurd (List.suffix_append w cdataEnd).isInfix (hliteral.2 (by omega)).2.1
    | comment => cases htext
    | instruction => cases htext
    | emptyElement => cases htext
    | element => cases htext
  · rintro ⟨hend, rfl⟩
    exact ⟨_, .cdata hchar hend (.done _), by simp [textOf]⟩

/-! ## Readers -/

/-- What a reader makes of the content of an element. -/
def Yields {α : Type} (read : List Node → Option α) (text : Text) (a : α) (stop : Text) : Prop :=
  ∃ nodes, Nodes text nodes stop ∧ read nodes = some a

variable {α : Type} {read : List Node → Option α}

theorem yields_blank_iff {c : UInt8} (hc : isBlank c)
    (hread : ∀ nodes, read (.char c.toNat :: nodes) = read nodes) {text stop : Text} {a : α} :
    Yields read (c :: text) a (0x3c :: stop) ↔ Yields read text a (0x3c :: stop) := by
  constructor
  · rintro ⟨nodes, hnodes, hyields⟩
    cases nodes with
    | nil =>
      obtain ⟨rfl, -⟩ := List.cons.inj (nodes_nil_iff.mp hnodes)
      cases hc
    | cons node nodes =>
      obtain ⟨text', hnode, hrest⟩ := nodes_cons_iff.mp hnodes
      obtain ⟨rfl, rfl⟩ := (nodes_blank_iff hc).mp hnode
      rw [hread] at hyields
      exact ⟨nodes, hrest, hyields⟩
  · rintro ⟨nodes, hnodes, hyields⟩
    exact ⟨_, nodes_cons_iff.mpr ⟨text, (nodes_blank_iff hc).mpr ⟨rfl, rfl⟩, hnodes⟩,
      (hread nodes).trans hyields⟩

theorem yields_blanks_iff {blanks : Text} (hblanks : Blanks blanks)
    (hread : ∀ c ∈ blanks, ∀ nodes, read (.char c.toNat :: nodes) = read nodes) {text stop : Text}
    {a : α} :
    Yields read (blanks ++ text) a (0x3c :: stop) ↔ Yields read text a (0x3c :: stop) := by
  induction blanks with
  | nil => rfl
  | cons c blanks ih =>
    rw [List.cons_append, yields_blank_iff (hblanks c List.mem_cons_self)
      (hread c List.mem_cons_self)]
    exact ih (fun c hc => hblanks c (List.mem_cons_of_mem _ hc))
      fun c hc => hread c (List.mem_cons_of_mem _ hc)

theorem yields_end_iff {text stop : Text} {a : α} :
    Yields read (0x3c :: 0x2f :: text) a stop ↔ read [] = some a ∧ stop = 0x3c :: 0x2f :: text := by
  constructor
  · rintro ⟨nodes, hnodes, hyields⟩
    obtain ⟨rfl, rfl⟩ := nodes_end_iff.mp hnodes
    exact ⟨hyields, rfl⟩
  · rintro ⟨hyields, rfl⟩
    exact ⟨[], .done _, hyields⟩

end Xml
