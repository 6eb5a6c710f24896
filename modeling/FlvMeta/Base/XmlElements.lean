import FlvMeta.Base.Xml

/-!
# Writing XML elements

`Reads text nodes`: the text is read as these nodes whatever comes after it. So the parts of an
element can be put together in the order in which they are printed. What is read as one element is
such a text (`Nodes.reads`), since only a character looks at what comes after it, and an element
ends with a bracket. `Contains text elements` leaves out the white space between the elements.
-/

namespace Xml

/-! ## Attributes as they are printed -/

/-- Attributes, each after a space. -/
def attributesText : List (Text × Text) → Text
  | [] => []
  | (key, value) :: attributes =>
    0x20 :: (key ++ 0x3d :: 0x22 :: (value ++ 0x22 :: attributesText attributes))

def attributesRead (attributes : List (Text × Text)) : List (Text × List Nat) :=
  attributes.map fun a => (a.1, literal a.2)

/-- A value that is printed as it is. -/
def PlainValue (value : Text) : Prop := (∀ c ∈ value, isChar c) ∧ Quotable 0x22 value

instance (value : Text) : Decidable (PlainValue value) :=
  @instDecidableAnd _ _ (List.decidableBAll (fun c => isChar c = true) value) inferInstance

structure PlainAttributes (attributes : List (Text × Text)) : Prop where
  keys : ∀ a ∈ attributes, IsXmlName a.1
  values : ∀ a ∈ attributes, PlainValue a.2
  unique : (attributes.map Prod.fst).Nodup

theorem attributes_text {attributes : List (Text × Text)}
    (hkeys : ∀ a ∈ attributes, IsXmlName a.1) (hvalues : ∀ a ∈ attributes, PlainValue a.2)
    (rest : Text) :
    Attributes (attributesText attributes ++ rest) (attributesRead attributes) rest := by
  induction attributes with
  | nil => exact .nil rest
  | cons a attributes ih =>
    obtain ⟨key, value⟩ := a
    obtain ⟨hkey, hkeys⟩ := List.forall_mem_cons.mp hkeys
    obtain ⟨hvalue, hvalues⟩ := List.forall_mem_cons.mp hvalues
    have hread : Attributes ([0x20] ++ (key ++ ([] ++ 0x3d :: ([] ++ 0x22 ::
        (value ++ 0x22 :: (attributesText attributes ++ rest))))))
        ((key, literal value) :: attributesRead attributes) rest :=
      .cons (by decide) (by decide) hkey (by decide) (by decide) (.inl rfl)
        (value_literal hvalue.1 hvalue.2 _) (ih hkeys hvalues)
    have htext : attributesText ((key, value) :: attributes) ++ rest = [0x20] ++ (key ++ ([] ++
        0x3d :: ([] ++ 0x22 :: (value ++ 0x22 :: (attributesText attributes ++ rest))))) := by
      simp [attributesText]
    rw [htext]
    exact hread

/-- A tag with its attributes as they are printed. -/
theorem tag_text {name : Text} {attributes : List (Text × Text)} (hname : IsXmlName name)
    (hattributes : PlainAttributes attributes) (close rest : Text) :
    Tag (0x3c :: (name ++ (attributesText attributes ++ (close ++ rest)))) name
      (attributesRead attributes) close rest := by
  refine ⟨hname, ?_, _, [], rfl, by decide, ?_⟩
  · have hkeys : (attributesRead attributes).map Prod.fst = attributes.map Prod.fst := by
      rw [attributesRead, List.map_map]
      rfl
    rw [hkeys]
    exact hattributes.unique
  · exact attributes_text hattributes.keys hattributes.values _

/-! ## What is read does not depend on what follows -/

theorem Value.used {quote : UInt8} {text rest : Text} {codes : List Nat}
    (h : Value quote text codes rest) :
    ∃ used, text = used ++ rest ∧ ∀ rest', Value quote (used ++ rest') codes rest' := by
  induction h with
  | close rest => exact ⟨[quote], rfl, fun rest' => .close rest'⟩
  | @char c _ _ _ hchar hquote hless hamp _ ih =>
    obtain ⟨used, rfl, hused⟩ := ih
    exact ⟨c :: used, rfl, fun rest' => .char hchar hquote hless hamp (hused rest')⟩
  | @reference name _ _ _ _ hcode _ ih =>
    obtain ⟨used, rfl, hused⟩ := ih
    refine ⟨0x26 :: (name ++ 0x3b :: used), by simp, fun rest' => ?_⟩
    have hread := Value.reference hcode (hused rest')
    simpa using hread

theorem Attributes.used {text rest : Text} {attributes : List (Text × List Nat)}
    (h : Attributes text attributes rest) :
    ∃ used, text = used ++ rest ∧ ∀ rest', Attributes (used ++ rest') attributes rest' := by
  induction h with
  | nil rest => exact ⟨[], rfl, fun rest' => .nil rest'⟩
  | @cons blanks blanks₁ blanks₂ key _ _ _ quote _ _ hne hblanks hkey hblanks₁ hblanks₂ hquote
      hvalue _ ih =>
    obtain ⟨used, rfl, hused⟩ := ih
    obtain ⟨usedValue, rfl, husedValue⟩ := hvalue.used
    refine ⟨blanks ++ (key ++ (blanks₁ ++ 0x3d :: (blanks₂ ++ quote :: (usedValue ++ used)))),
      by simp, fun rest' => ?_⟩
    have hread := Attributes.cons hne hblanks hkey hblanks₁ hblanks₂ hquote
      (husedValue (used ++ rest')) (hused rest')
    simpa using hread

theorem Tag.used {text name close rest : Text} {attributes : List (Text × List Nat)}
    (h : Tag text name attributes close rest) :
    ∃ used, text = used ++ rest ∧ ∀ rest', Tag (used ++ rest') name attributes close rest' := by
  obtain ⟨hname, hunique, tag, blanks, rfl, hblanks, hattributes⟩ := h
  obtain ⟨used, rfl, -⟩ := hattributes.used
  refine ⟨0x3c :: (name ++ (used ++ (blanks ++ close))), by simp, fun rest' => ?_⟩
  refine ⟨hname, hunique, used ++ (blanks ++ (close ++ rest')), blanks, by simp, hblanks, ?_⟩
  obtain ⟨used', hused', hread⟩ := hattributes.used
  rw [List.append_cancel_right hused']
  exact hread _

/-- What a text starts with is seen in its first characters. -/
theorem take_append {α : Type} {xs ys : List α} {n : Nat} (h : xs.take n = ys.take n)
    (used : List α) : (used ++ xs).take n = (used ++ ys).take n := by
  induction used generalizing n with
  | nil => exact h
  | cons a used ih =>
    cases n with
    | zero => rfl
    | succ n =>
      have hpre : xs.take n = ys.take n := by
        have hmin := congrArg (List.take n) h
        rwa [List.take_take, List.take_take, Nat.min_eq_left (Nat.le_succ n)] at hmin
      rw [List.cons_append, List.cons_append, List.take_succ_cons, List.take_succ_cons, ih hpre]

/-- Nodes are read from what stands before the rest. A character looks at two more of them. -/
theorem Nodes.used {text rest : Text} {nodes : List Node} (h : Nodes text nodes rest) :
    ∃ used, text = used ++ rest ∧
      ∀ rest', rest'.take 2 = rest.take 2 → Nodes (used ++ rest') nodes rest' := by
  induction h with
  | done rest => exact ⟨[], rfl, fun rest' _ => .done rest'⟩
  | @char c _ _ _ hchar hless hamp hend _ ih =>
    obtain ⟨used, rfl, hused⟩ := ih
    refine ⟨c :: used, rfl, fun rest' hrest => ?_⟩
    refine .char hchar hless hamp ?_ (hused rest' hrest)
    intro hpre
    apply hend
    have htake : cdataEnd = (c :: (used ++ rest')).take 3 := List.prefix_iff_eq_take.mp hpre
    exact List.prefix_iff_eq_take.mpr (htake.trans (congrArg (c :: ·) (take_append hrest used)))
  | @reference name _ _ _ _ hcode _ ih =>
    obtain ⟨used, rfl, hused⟩ := ih
    refine ⟨0x26 :: (name ++ 0x3b :: used), by simp, fun rest' hrest => ?_⟩
    have hread := Nodes.reference hcode (hused rest' hrest)
    simpa using hread
  | @cdata body _ _ _ hchar hend _ ih =>
    obtain ⟨used, rfl, hused⟩ := ih
    refine ⟨cdataStart ++ (body ++ (cdataEnd ++ used)), by simp, fun rest' hrest => ?_⟩
    have hread := Nodes.cdata hchar hend (hused rest' hrest)
    simpa using hread
  | @comment body _ _ _ hchar hhyphens hlast _ ih =>
    obtain ⟨used, rfl, hused⟩ := ih
    refine ⟨0x3c :: 0x21 :: 0x2d :: 0x2d :: (body ++ 0x2d :: 0x2d :: 0x3e :: used), by simp,
      fun rest' hrest => ?_⟩
    have hread := Nodes.comment hchar hhyphens hlast (hused rest' hrest)
    simpa using hread
  | @instruction target body _ _ _ htarget hxml hchar hblank hend _ ih =>
    obtain ⟨used, rfl, hused⟩ := ih
    refine ⟨0x3c :: 0x3f :: (target ++ (body ++ 0x3f :: 0x3e :: used)), by simp,
      fun rest' hrest => ?_⟩
    have hread := Nodes.instruction htarget hxml hchar hblank hend (hused rest' hrest)
    simpa using hread
  | emptyElement htag _ ih =>
    obtain ⟨used, rfl, hused⟩ := ih
    obtain ⟨usedTag, rfl, husedTag⟩ := htag.used
    refine ⟨usedTag ++ used, by simp, fun rest' hrest => ?_⟩
    have hread := Nodes.emptyElement (husedTag (used ++ rest')) (hused rest' hrest)
    simpa using hread
  | @element _ name _ _ _ _ _ _ _ htag _ hend _ ihchildren ih =>
    obtain ⟨used, rfl, hused⟩ := ih
    obtain ⟨blanks, hblanks, rfl⟩ := hend
    obtain ⟨usedChildren, rfl, husedChildren⟩ := ihchildren
    obtain ⟨usedTag, rfl, husedTag⟩ := htag.used
    refine ⟨usedTag ++ (usedChildren ++ 0x3c :: 0x2f :: (name ++ (blanks ++ 0x3e :: used))),
      by simp, fun rest' hrest => ?_⟩
    -- the content is read up to the end tag, whatever comes after that
    have hread := Nodes.element (husedTag _) (husedChildren (0x3c :: 0x2f :: (name ++ (blanks ++
      0x3e :: (used ++ rest')))) rfl) ⟨blanks, hblanks, rfl⟩ (hused rest' hrest)
    simpa using hread

/-- A text that is read as nodes, whatever comes after it. -/
def Reads (text : Text) (nodes : List Node) : Prop := ∀ rest, Nodes (text ++ rest) nodes rest

/-- What is read as an element is read as one, whatever comes after it. -/
theorem Nodes.reads {text rest : Text} {node : Node} (h : Nodes text [node] rest)
    (helement : node.IsElement) : ∃ used, text = used ++ rest ∧ Reads used [node] := by
  cases h with
  | emptyElement htag hrest =>
    cases hrest
    obtain ⟨used, rfl, hused⟩ := htag.used
    exact ⟨used, rfl, fun rest' => .emptyElement (hused rest') (.done rest')⟩
  | @element _ name _ _ _ _ _ _ _ htag hchildren hend hrest =>
    cases hrest
    obtain ⟨blanks, hblanks, rfl⟩ := hend
    obtain ⟨usedChildren, rfl, husedChildren⟩ := hchildren.used
    obtain ⟨usedTag, rfl, husedTag⟩ := htag.used
    refine ⟨usedTag ++ (usedChildren ++ 0x3c :: 0x2f :: (name ++ (blanks ++ [0x3e]))), by simp,
      fun rest' => ?_⟩
    have hread := Nodes.element (husedTag _) (husedChildren (0x3c :: 0x2f :: (name ++ (blanks ++
      0x3e :: rest'))) rfl) ⟨blanks, hblanks, rfl⟩ (.done rest')
    simpa using hread
  | _ => exact helement.elim

/-! ## Putting texts together -/

theorem Reads.nil : Reads [] [] := fun rest => .done rest

theorem Reads.append {text text' : Text} {nodes nodes' : List Node} (h : Reads text nodes)
    (h' : Reads text' nodes') : Reads (text ++ text') (nodes ++ nodes') := by
  intro rest
  have hnodes : Nodes (text ++ (text' ++ rest)) nodes (text' ++ rest) := h _
  have hnodes' : Nodes (text' ++ rest) nodes' rest := h' rest
  rw [List.append_assoc]
  generalize text ++ (text' ++ rest) = start at hnodes
  generalize text' ++ rest = middle at hnodes hnodes'
  clear h h'
  induction nodes generalizing start with
  | nil =>
    rw [nodes_nil_iff.mp hnodes]
    exact hnodes'
  | cons node nodes ih =>
    obtain ⟨next, hnode, hnodes⟩ := nodes_cons_iff.mp hnodes
    exact nodes_cons_iff.mpr ⟨next, hnode, ih next hnodes⟩

theorem reads_blanks {blanks : Text} (h : Blanks blanks) :
    Reads blanks (blanks.map fun c => .char c.toNat) := by
  induction blanks with
  | nil => exact .nil
  | cons c blanks ih =>
    intro rest
    obtain ⟨hc, hblanks⟩ := List.forall_mem_cons.mp h
    exact nodes_cons_iff.mpr ⟨_, (nodes_blank_iff hc).mpr ⟨rfl, rfl⟩, ih hblanks rest⟩

theorem reads_element {name content : Text} {attributes : List (Text × Text)}
    {children : List Node} (hname : IsXmlName name) (hattributes : PlainAttributes attributes)
    (h : Reads content children) :
    Reads (0x3c :: (name ++ (attributesText attributes ++ 0x3e ::
        (content ++ 0x3c :: 0x2f :: (name ++ [0x3e])))))
      [.element name (attributesRead attributes) children] := by
  intro rest
  have hread : Nodes (0x3c :: (name ++ (attributesText attributes ++ ([0x3e] ++
      (content ++ 0x3c :: 0x2f :: (name ++ ([] ++ 0x3e :: rest)))))))
      [.element name (attributesRead attributes) children] rest :=
    .element (tag_text hname hattributes _ _) (h _) ⟨[], by decide, rfl⟩ (.done rest)
  simpa using hread

theorem reads_emptyElement {name : Text} {attributes : List (Text × Text)}
    (hname : IsXmlName name) (hattributes : PlainAttributes attributes) :
    Reads (0x3c :: (name ++ (attributesText attributes ++ [0x2f, 0x3e])))
      [.element name (attributesRead attributes) []] := by
  intro rest
  have hread : Nodes (0x3c :: (name ++ (attributesText attributes ++ ([0x2f, 0x3e] ++ rest))))
      [.element name (attributesRead attributes) []] rest :=
    .emptyElement (tag_text hname hattributes _ _) (.done rest)
  simpa using hread

/-! ## Elements between white space -/

/-- The elements of a content that has nothing but white space between them. -/
def elementsOf : List Node → Option (List Node)
  | [] => some []
  | .char code :: nodes =>
    if code = 0x20 ∨ code = 0x09 ∨ code = 0x0a then elementsOf nodes else none
  | .element name attributes children :: nodes =>
    (elementsOf nodes).map (.element name attributes children :: ·)
  | _ :: _ => none

theorem elementsOf_append {nodes nodes' elements elements' : List Node}
    (h : elementsOf nodes = some elements) (h' : elementsOf nodes' = some elements') :
    elementsOf (nodes ++ nodes') = some (elements ++ elements') := by
  induction nodes generalizing elements with
  | nil =>
    cases h
    exact h'
  | cons node nodes ih =>
    cases node with
    | char code =>
      rw [elementsOf] at h
      rw [List.cons_append, elementsOf]
      split at h
      · rename_i hblank
        rw [if_pos hblank]
        exact ih h
      · cases h
    | element name attributes children =>
      rw [elementsOf] at h
      obtain ⟨more, hmore, rfl⟩ := Option.map_eq_some_iff.mp h
      rw [List.cons_append, elementsOf, ih hmore]
      rfl
    | _ => cases h

theorem elementsOf_blanks {blanks : Text} (h : Blanks blanks) :
    elementsOf (blanks.map fun c => .char c.toNat) = some [] := by
  induction blanks with
  | nil => rfl
  | cons c blanks ih =>
    obtain ⟨hc, hblanks⟩ := List.forall_mem_cons.mp h
    have hcode : c.toNat = 0x20 ∨ c.toNat = 0x09 ∨ c.toNat = 0x0a := by
      simp only [isBlank, Bool.or_eq_true, beq_iff_eq] at hc
      rcases hc with (rfl | rfl) | rfl
      · exact .inl rfl
      · exact .inr (.inl rfl)
      · exact .inr (.inr rfl)
    rw [List.map_cons, elementsOf, if_pos hcode]
    exact ih hblanks

/-- The elements within an element. -/
def Node.elements : Node → List Node
  | .element _ _ children => (elementsOf children).getD []
  | _ => []

/-- An element with the elements of its content. -/
def Node.Is (name : Text) (attributes : List (Text × List Nat)) (elements : List Node)
    (node : Node) : Prop :=
  ∃ children, node = .element name attributes children ∧ elementsOf children = some elements

/-- A text that is read as elements between white space, whatever comes after it. -/
def Contains (text : Text) (elements : List Node) : Prop :=
  ∃ nodes, Reads text nodes ∧ elementsOf nodes = some elements

variable {text text' : Text} {elements elements' : List Node}

theorem Node.Is.elements_eq {name : Text} {attributes : List (Text × List Nat)} {node : Node}
    (h : node.Is name attributes elements) : node.elements = elements := by
  obtain ⟨children, rfl, hchildren⟩ := h
  rw [Node.elements, hchildren]
  rfl

theorem Node.Is.isElement {name : Text} {attributes : List (Text × List Nat)} {node : Node}
    (h : node.Is name attributes elements) : node.IsElement := by
  obtain ⟨children, rfl, -⟩ := h
  trivial

theorem Contains.append (h : Contains text elements) (h' : Contains text' elements') :
    Contains (text ++ text') (elements ++ elements') := by
  obtain ⟨nodes, hreads, hnodes⟩ := h
  obtain ⟨nodes', hreads', hnodes'⟩ := h'
  exact ⟨_, hreads.append hreads', elementsOf_append hnodes hnodes'⟩

theorem contains_blanks {blanks : Text} (h : Blanks blanks) : Contains blanks [] :=
  ⟨_, reads_blanks h, elementsOf_blanks h⟩

theorem Reads.contains {node : Node} (h : Reads text [node]) (helement : node.IsElement) :
    Contains text [node] := by
  refine ⟨[node], h, ?_⟩
  cases node with
  | element => rfl
  | _ => exact helement.elim

/-- White space, an element and white space. -/
theorem Reads.contains_between {node : Node} {before after : Text} (h : Reads text [node])
    (helement : node.IsElement) (hbefore : Blanks before) (hafter : Blanks after) :
    Contains (before ++ (text ++ after)) [node] :=
  (contains_blanks hbefore).append ((h.contains helement).append (contains_blanks hafter))

theorem Reads.document {node : Node} {before after : Text} (h : Reads text [node])
    (helement : node.IsElement) (hbefore : Blanks before) (hafter : Blanks after) :
    Document (before ++ (text ++ after)) node :=
  ⟨before, text ++ after, after, rfl, hbefore, hafter, helement, h after⟩

end Xml
