import FlvMeta.Amf.Write
import FlvMeta.Flv.Records

/-!
# The names of script tags

The name of a script tag is the string that starts its body. A pass over the tags looks for the
events `onMetaData` and `onLastSecond`; `eventsFound` is what it finds when its comparison of names
is given. Comparing a name up to its own length accepts the names that are `alike`: these are the
exact ones for the two events of a file exactly if it has `NoLookAlike`.
-/

namespace FlvMeta

open Endian

/-! ## Names -/

/-- The string that starts a script body. -/
def bodyName : Bytes → Option Bytes
  | 0x02 :: hi :: lo :: rest => some (rest.take (ofBE [hi, lo]))
  | _ => none

/-- The name of the tag at `p`, if it is a script tag. -/
def scriptName (content : Bytes) (p : Nat) : Option Bytes :=
  if (flvTagOfBytes (content.drop p)).type = flvTagTypeMeta then
    bodyName (tagBody content p (flvTagOfBytes (content.drop p)))
  else none

/-- A script tag of exactly this name. -/
def named (content : Bytes) (literal : String) (p : Nat) : Bool :=
  scriptName content p == some (ascii literal)

/-- A script tag whose name starts this one, or goes on behind all of it with a zero byte. -/
def alike (content : Bytes) (literal : String) (p : Nat) : Bool :=
  (scriptName content p).any fun name =>
    name.isPrefixOf (ascii literal) || (ascii literal ++ [0]).isPrefixOf name

def tagOffsets (content : Bytes) : List Nat := (tagsFrom content 13).map Prod.fst

theorem bodyName_image {N : Type} [NumberImage N] (name : AmfString) (rest : Bytes) :
    bodyName (amfDataImage (.string name : AmfData N) ++ rest) = some name.bytes := by
  obtain ⟨hi, lo, hsize⟩ : ∃ hi lo, toBE 2 name.size = [hi, lo] :=
    List.length_eq_two.mp (length_toBE 2 name.size)
  have hlt : name.size < 256 ^ 2 := name.size_lt
  have hbytes : amfDataImage (.string name : AmfData N) ++ rest =
      0x02 :: hi :: lo :: (name.bytes ++ rest) := by
    rw [amfDataImage_eq, amfBytes, amfStringBytes, hsize]
    rfl
  rw [hbytes, bodyName, ← hsize, ofBE_toBE hlt, AmfString.size, List.take_left]

section

variable {content : Bytes} {literal : String} {p : Nat}

theorem named_iff : named content literal p = true ↔ scriptName content p = some (ascii literal) :=
  beq_iff_eq

theorem alike_iff : alike content literal p = true ↔ ∃ name, scriptName content p = some name ∧
    (name <+: ascii literal ∨ ascii literal ++ [0] <+: name) := by
  simp only [alike, Option.any_eq_true, Bool.or_eq_true, List.isPrefixOf_iff_prefix]

theorem alike_of_named (h : named content literal p = true) : alike content literal p = true :=
  alike_iff.mpr ⟨ascii literal, named_iff.mp h, Or.inl (List.prefix_refl _)⟩

/-- The name of one event is not like that of the other. -/
theorem not_alike_of_named (h : named content "onMetaData" p = true) :
    alike content "onLastSecond" p = false := by
  rw [alike, named_iff.mp h]
  decide

end

/-! ## The events of a pass -/

/-- What is found of the two events: the offset of the first `onMetaData`, and whether there is an
`onLastSecond`. -/
structure EventsFound where
  onMetadata : Option Nat
  onLastSecond : Bool
deriving DecidableEq

/-- One more tag, whose names are given. The tag recorded as `onMetaData` is not tested for the
other name. -/
def EventsFound.see (found : EventsFound) (p : Nat) (hasName : String → Bool) : EventsFound :=
  if found.onMetadata = none ∧ hasName "onMetaData" then { found with onMetadata := some p }
  else { found with onLastSecond := found.onLastSecond || hasName "onLastSecond" }

/-- The events found among the tags at some offsets, behind others. -/
def seeAll (hasName : String → Nat → Bool) (found : EventsFound) (offsets : List Nat) :
    EventsFound :=
  offsets.foldl (fun found p => found.see p fun literal => hasName literal p) found

def eventsFound (hasName : String → Nat → Bool) (offsets : List Nat) : EventsFound :=
  seeAll hasName ⟨none, false⟩ offsets

/-- The first tag of the one name, and whether there is one of the other. -/
def exactEvents (content : Bytes) (offsets : List Nat) : EventsFound where
  onMetadata := offsets.find? (named content "onMetaData")
  onLastSecond := offsets.any (named content "onLastSecond")

theorem EventsFound.see_first {hasName : String → Bool} {found : EventsFound}
    (hnone : found.onMetadata = none) (h : hasName "onMetaData" = true) (p : Nat) :
    found.see p hasName = { found with onMetadata := some p } := if_pos ⟨hnone, h⟩

theorem EventsFound.see_other {hasName : String → Bool} {found : EventsFound}
    (h : found.onMetadata = none → hasName "onMetaData" = false) (p : Nat) :
    found.see p hasName =
      { found with onLastSecond := found.onLastSecond || hasName "onLastSecond" } := by
  rw [EventsFound.see, if_neg]
  rintro ⟨hnone, hmeta⟩
  rw [h hnone] at hmeta
  cases hmeta

section

variable {hasName : String → Nat → Bool}

theorem eventsFound_concat (offsets : List Nat) (p : Nat) :
    eventsFound hasName (offsets ++ [p]) =
      (eventsFound hasName offsets).see p fun literal => hasName literal p := by
  simp [eventsFound, seeAll]

theorem seeAll_of_some (q : Nat) (last : Bool) (offsets : List Nat) :
    seeAll hasName ⟨some q, last⟩ offsets =
      ⟨some q, last || offsets.any (hasName "onLastSecond")⟩ := by
  induction offsets generalizing last with
  | nil => simp [seeAll]
  | cons p offsets ih =>
    rw [seeAll, List.foldl_cons, EventsFound.see_other fun h => (by cases h), List.any_cons,
      ← Bool.or_assoc]
    exact ih _

theorem seeAll_of_none (last : Bool) {offsets : List Nat}
    (h : ∀ p, offsets.find? (hasName "onMetaData") = some p → hasName "onLastSecond" p = false) :
    seeAll hasName ⟨none, last⟩ offsets =
      ⟨offsets.find? (hasName "onMetaData"), last || offsets.any (hasName "onLastSecond")⟩ := by
  induction offsets generalizing last with
  | nil => simp [seeAll]
  | cons p offsets ih =>
    rw [seeAll, List.foldl_cons]
    cases hmeta : hasName "onMetaData" p with
    | true =>
      have hlast := h p (List.find?_cons_of_pos hmeta)
      rw [EventsFound.see_first rfl hmeta, List.find?_cons_of_pos hmeta, List.any_cons, hlast,
        Bool.false_or]
      exact seeAll_of_some p last offsets
    | false =>
      have hskip : (p :: offsets).find? (hasName "onMetaData") =
          offsets.find? (hasName "onMetaData") :=
        List.find?_cons_of_neg (by simp [hmeta])
      rw [EventsFound.see_other fun _ => hmeta, hskip, List.any_cons, ← Bool.or_assoc]
      exact ih _ fun q hq => h q (hskip.trans hq)

/-- The first tag of the one name is recorded, whatever the names are. -/
theorem onMetadata_eventsFound (offsets : List Nat) :
    (eventsFound hasName offsets).onMetadata = offsets.find? (hasName "onMetaData") := by
  have hall : ∀ last, (seeAll hasName ⟨none, last⟩ offsets).onMetadata =
      offsets.find? (hasName "onMetaData") := by
    induction offsets with
    | nil => exact fun _ => rfl
    | cons p offsets ih =>
      intro last
      rw [seeAll, List.foldl_cons]
      cases hmeta : hasName "onMetaData" p with
      | true =>
        rw [EventsFound.see_first rfl hmeta, List.find?_cons_of_pos hmeta]
        exact congrArg EventsFound.onMetadata (seeAll_of_some p last offsets)
      | false =>
        rw [EventsFound.see_other fun _ => hmeta, List.find?_cons_of_neg (by simp [hmeta])]
        exact ih _
  exact hall false

/-- Where the recorded tag does not have the other name, that name is found on any tag. -/
theorem eventsFound_of_exclusive {offsets : List Nat}
    (h : ∀ p, offsets.find? (hasName "onMetaData") = some p → hasName "onLastSecond" p = false) :
    eventsFound hasName offsets =
      ⟨offsets.find? (hasName "onMetaData"), offsets.any (hasName "onLastSecond")⟩ := by
  rw [eventsFound, seeAll_of_none false h, Bool.false_or]

end

/-! ## Look-alikes -/

/-- The first tag with a name like `onMetaData` has exactly this name, and if a tag has a name like
`onLastSecond`, one has exactly this name. -/
def NoLookAlike (content : Bytes) : Prop :=
  (∀ p, (tagOffsets content).find? (alike content "onMetaData") = some p →
    named content "onMetaData" p = true) ∧
  ((tagOffsets content).any (alike content "onLastSecond") = true →
    (tagOffsets content).any (named content "onLastSecond") = true)

/-- A comparison of names that accepts the exact ones, and only names that are alike. -/
structure Between (content : Bytes) (hasName : String → Nat → Bool) (literal : String) : Prop where
  of_named : ∀ p ∈ tagOffsets content, named content literal p = true → hasName literal p = true
  alike : ∀ p ∈ tagOffsets content, hasName literal p = true → alike content literal p = true

theorem between_alike (content : Bytes) (literal : String) :
    Between content (alike content) literal := ⟨fun _ _ => alike_of_named, fun _ _ h => h⟩

/-- Two tests find the same first element if the second accepts no more than the first, and the
element found by a third, which accepts no less, passes the first. -/
theorem find?_between {f g h : Nat → Bool} {offsets : List Nat}
    (hfg : ∀ p ∈ offsets, f p = true → g p = true) (hgh : ∀ p ∈ offsets, g p = true → h p = true)
    (hfirst : ∀ p, offsets.find? h = some p → f p = true) :
    offsets.find? g = offsets.find? f := by
  induction offsets with
  | nil => rfl
  | cons p offsets ih =>
    cases hp : h p with
    | true =>
      have hf := hfirst p (List.find?_cons_of_pos hp)
      rw [List.find?_cons_of_pos hf, List.find?_cons_of_pos (hfg p List.mem_cons_self hf)]
    | false =>
      have hg : ¬ g p = true := fun hg =>
        Bool.false_ne_true (hp.symm.trans (hgh p List.mem_cons_self hg))
      have hf : ¬ f p = true := fun hf => hg (hfg p List.mem_cons_self hf)
      rw [List.find?_cons_of_neg hg, List.find?_cons_of_neg hf]
      refine ih (fun q hq => hfg q (List.mem_cons_of_mem _ hq))
        (fun q hq => hgh q (List.mem_cons_of_mem _ hq)) fun q hq => hfirst q ?_
      rw [List.find?_cons_of_neg (by simp [hp]), hq]

variable {content : Bytes} {hasName : String → Nat → Bool}

/-- Without look-alikes any such comparison finds the exact events. -/
theorem NoLookAlike.eventsFound (h : NoLookAlike content)
    (hmeta : Between content hasName "onMetaData")
    (hlast : Between content hasName "onLastSecond") :
    eventsFound hasName (tagOffsets content) = exactEvents content (tagOffsets content) := by
  have hfirst := find?_between hmeta.of_named hmeta.alike h.1
  have hexclusive : ∀ p, (tagOffsets content).find? (hasName "onMetaData") = some p →
      hasName "onLastSecond" p = false := by
    intro p hp
    have hmem := List.mem_of_find?_eq_some hp
    rw [hfirst] at hp
    refine Bool.eq_false_iff.mpr fun hname => ?_
    exact Bool.false_ne_true ((not_alike_of_named (List.find?_some hp)).symm.trans
      (hlast.alike p hmem hname))
  rw [eventsFound_of_exclusive hexclusive, hfirst, exactEvents, EventsFound.mk.injEq,
    and_iff_right rfl, Bool.eq_iff_iff, List.any_eq_true, List.any_eq_true]
  constructor
  · rintro ⟨p, hp, hname⟩
    exact List.any_eq_true.mp (h.2 (List.any_eq_true.mpr ⟨p, hp, hlast.alike p hp hname⟩))
  · rintro ⟨p, hp, hname⟩
    exact ⟨p, hp, hlast.of_named p hp hname⟩

/-- Names that are alike find the exact events exactly if there is no look-alike. -/
theorem eventsFound_alike_iff (content : Bytes) :
    eventsFound (alike content) (tagOffsets content) = exactEvents content (tagOffsets content) ↔
      NoLookAlike content := by
  constructor
  · intro h
    have hfirst : (tagOffsets content).find? (alike content "onMetaData") =
        (tagOffsets content).find? (named content "onMetaData") := by
      rw [← onMetadata_eventsFound, h, exactEvents]
    have hnamed : ∀ p, (tagOffsets content).find? (alike content "onMetaData") = some p →
        named content "onMetaData" p = true := fun p hp => List.find?_some (hfirst.symm.trans hp)
    rw [eventsFound_of_exclusive fun p hp => not_alike_of_named (hnamed p hp), exactEvents,
      EventsFound.mk.injEq] at h
    exact ⟨hnamed, fun hlast => h.2.symm.trans hlast⟩
  · exact fun h => h.eventsFound (between_alike ..) (between_alike ..)

end FlvMeta
