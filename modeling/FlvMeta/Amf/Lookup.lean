import FlvMeta.Amf.Entries

/-!
# Looking up an entry

`amf_object_get` and `amf_object_set` compare a stored name with the given one only up to the length
of the stored one, so they stop at the first entry whose name is a prefix of the given name.
`lookup_exact_iff` says when this is the entry that was meant.
-/

namespace FlvMeta

variable {N : Type}

/-! ## Setting an entry -/

/-- The string that `string_data` holds, when the value is a string. -/
def AmfData.string? : AmfData N → Option AmfString
  | .string s => some s
  | _ => none

/-- The loop of `amf_object_set`. It fails where it would read the name of a value that is not a
string, or go on from a NULL node. -/
def amfObjectSetLoop (name : Bytes) (element : AmfData N) :
    List (AmfData N) → Option (AmfData N × List (AmfData N))
  | [] => some (.nullPtr, [])
  | [node] => do
    let s ← node.string?
    if strncmpEq s.bytes name s.size then none else return (.nullPtr, [node])
  | [node, value] => do
    let s ← node.string?
    if strncmpEq s.bytes name s.size ∧ value.isNull = false then return (element, [node, element])
    else return (.nullPtr, [node, value])
  | node :: value :: next :: rest => do
    let s ← node.string?
    if strncmpEq s.bytes name s.size then
      if value.isNull then
        -- `node` is the value already, so the next step skips the next name
        let (result, rest) ← amfObjectSetLoop name element rest
        return (result, node :: value :: next :: rest)
      else return (element, node :: element :: next :: rest)
    else
      let (result, rest) ← amfObjectSetLoop name element (next :: rest)
      return (result, node :: value :: rest)

/-- `amf_object_set`: the returned pointer, and the object after it. -/
def amfObjectSet (data : AmfData N) (name : Bytes) (element : AmfData N) :
    Option (AmfData N × AmfData N) :=
  if data.isNull then some (.nullPtr, data)
  else
    (amfObjectSetLoop name element data.listData).map fun r => (r.1, data.withListData r.2)

section

variable {e : Bytes × AmfData N} {name : Bytes}

theorem IsName.string? {s : Bytes} (h : IsName s) :
    (amfStr s : AmfData N).string? = some ⟨s, h.2⟩ := by
  rw [amfStr_of_length_lt h.2]
  rfl

theorem amfObjectGetLoop_cons (he : IsName e.1) (hname : NulFree name)
    (entries : List (Bytes × AmfData N)) :
    amfObjectGetLoop name (entryList (e :: entries)) =
      if e.1 <+: name then e.2 else amfObjectGetLoop name (entryList entries) := by
  rw [entryList_cons, amfObjectGetLoop, he.size, he.bytes]
  simp only [strncmpEq_iff_starts he.1 hname]

theorem amfObjectSetLoop_cons (he : IsName e.1 ∧ e.2.isNull = false) (hname : NulFree name)
    (element : AmfData N) (entries : List (Bytes × AmfData N)) :
    amfObjectSetLoop name element (entryList (e :: entries)) =
      if e.1 <+: name then some (element, amfStr e.1 :: element :: entryList entries)
      else (amfObjectSetLoop name element (entryList entries)).map fun r =>
        (r.1, amfStr e.1 :: e.2 :: r.2) := by
  have hstarts := strncmpEq_iff_starts he.1.1 hname
  cases entries with
  | nil =>
    rw [entryList_cons]
    simp [entryList, amfObjectSetLoop, he.1.string?, he.2, AmfString.size, hstarts]
  | cons e' entries =>
    rw [entryList_cons, entryList_cons]
    simp only [amfObjectSetLoop, he.1.string?, he.2, AmfString.size, hstarts,
      Option.bind_eq_bind, Option.bind_some, Option.pure_def, Bool.false_eq_true, if_false]
    split
    · rfl
    · rw [Option.map_eq_bind]
      rfl

end

/-! ## The meaning of a lookup -/

/-- The value of the first entry with a name, or NULL. -/
def valueOf (name : Bytes) : List (Bytes × AmfData N) → AmfData N
  | [] => .nullPtr
  | e :: entries => if e.1 = name then e.2 else valueOf name entries

/-- The entries with the value of the first one of a name replaced. -/
def replaceValue (name : Bytes) (element : AmfData N) :
    List (Bytes × AmfData N) → List (Bytes × AmfData N)
  | [] => []
  | e :: entries =>
    if e.1 = name then (e.1, element) :: entries else e :: replaceValue name element entries

/-- Getting a name gives the value of the first entry with it, or NULL. Setting a name replaces
this value and returns the new one, or it changes nothing and returns NULL. -/
def LooksUp (data : AmfData N) (entries : List (Bytes × AmfData N)) (name : Bytes) : Prop :=
  amfObjectGet data name = valueOf name entries ∧
    ∀ element, amfObjectSet data name element =
      some (if (entries.map Prod.fst).contains name then element else .nullPtr,
        data.withListData (entryList (replaceValue name element entries)))

/-- Up to the first entry with this name, no entry has a name that is a prefix of it. -/
def NoPrefixBefore (name : Bytes) : List (Bytes × AmfData N) → Prop
  | [] => True
  | e :: entries => e.1 = name ∨ (¬ e.1 <+: name ∧ NoPrefixBefore name entries)

/-- The loops find the entry with the name. -/
def LoopsLookUp (entries : List (Bytes × AmfData N)) (name : Bytes) : Prop :=
  amfObjectGetLoop name (entryList entries) = valueOf name entries ∧
    ∀ element, amfObjectSetLoop name element (entryList entries) =
      some (if (entries.map Prod.fst).contains name then element else .nullPtr,
        entryList (replaceValue name element entries))

theorem loopsLookUp_cons {e : Bytes × AmfData N} (he : IsName e.1 ∧ e.2.isNull = false)
    {name : Bytes} (hname : NulFree name) (entries : List (Bytes × AmfData N)) :
    LoopsLookUp (e :: entries) name ↔
      e.1 = name ∨ (¬ e.1 <+: name ∧ LoopsLookUp entries name) := by
  unfold LoopsLookUp
  simp only [amfObjectGetLoop_cons he.1 hname, amfObjectSetLoop_cons he hname, valueOf,
    replaceValue, List.map_cons, List.contains_iff_mem, List.mem_cons]
  by_cases heq : e.1 = name
  · simp [heq, entryList_cons]
  · have hname' : ¬ name = e.1 := fun h => heq h.symm
    by_cases hstarts : e.1 <+: name
    · -- the value of `e` is replaced, whatever the new one is
      simp only [heq, hname', hstarts, if_true, if_false, false_or, not_true_eq_false, false_and,
        iff_false, not_and, entryList_cons]
      intro _ hset
      have hundefined := hset .undefined
      have hboolean := hset (.boolean 0)
      simp only [Option.some.injEq, Prod.mk.injEq, List.cons.injEq] at hundefined hboolean
      rw [← hundefined.2.2.1] at hboolean
      cases hboolean.2.2.1
    · simp only [heq, hname', hstarts, if_false, false_or, not_false_eq_true, true_and,
        entryList_cons]
      refine and_congr_right fun _ => forall_congr' fun element => ?_
      rw [Option.map_eq_some_iff]
      constructor
      · rintro ⟨r, hr, heq⟩
        obtain ⟨hfst, hsnd⟩ := Prod.mk.inj heq
        rw [hr, ← hfst, (List.cons.inj (List.cons.inj hsnd).2).2.symm]
      · intro hr
        exact ⟨_, hr, rfl⟩

theorem loopsLookUp_iff {entries : List (Bytes × AmfData N)} (hentries : Storable entries)
    {name : Bytes} (hname : NulFree name) :
    LoopsLookUp entries name ↔ NoPrefixBefore name entries := by
  induction entries with
  | nil => simp [LoopsLookUp, NoPrefixBefore, entryList, amfObjectGetLoop, amfObjectSetLoop,
      valueOf, replaceValue]
  | cons e entries ih =>
    obtain ⟨he, hrest⟩ := List.forall_mem_cons.mp hentries
    rw [loopsLookUp_cons he hname, ih hrest, NoPrefixBefore]

/-- Setting an entry of an object and of its list. -/
theorem IsEmptyObject.set_eq_some_iff {start : AmfData N} (hstart : IsEmptyObject start)
    (list list' : List (AmfData N)) (name : Bytes) (element result : AmfData N) :
    amfObjectSet (start.withListData list) name element =
        some (result, (start.withListData list).withListData list') ↔
      amfObjectSetLoop name element list = some (result, list') := by
  rcases hstart with rfl | rfl
  · simp [amfObjectSet, AmfData.withListData, AmfData.listData, AmfData.isNull]
  · simp [amfObjectSet, AmfData.withListData, AmfData.listData, AmfData.isNull]

/-- The lookup of a name is exact if and only if no name before its first entry is a prefix of
it. -/
theorem lookup_exact_iff {start : AmfData N} (hstart : IsEmptyObject start)
    {entries : List (Bytes × AmfData N)} (hentries : Storable entries) {name : Bytes}
    (hname : NulFree name) :
    LooksUp (addEntries start entries) entries name ↔ NoPrefixBefore name entries := by
  rw [hstart.addEntries hentries, ← loopsLookUp_iff hentries hname]
  have hget : amfObjectGet (start.withListData (entryList entries)) name =
      amfObjectGetLoop name (entryList entries) := by
    rcases hstart with rfl | rfl
    · rfl
    · rfl
  unfold LooksUp LoopsLookUp
  simp only [hget, hstart.set_eq_some_iff]

/-- The entry `a` is taken for `ab`: its value is found, and set. -/
theorem lookup_not_exact :
    letI start : AmfData UInt64 := .object []
    letI entries : List (Bytes × AmfData UInt64) := [([0x61], .boolean 1)]
    IsEmptyObject start ∧ Storable entries ∧ NulFree [0x61, 0x62] ∧
      ¬ LooksUp (addEntries start entries) entries [0x61, 0x62] := by
  refine ⟨Or.inl rfl, ?_, by simp [NulFree], ?_⟩
  · exact storable_singleton ⟨by simp [NulFree], by decide⟩ rfl
  · intro h
    have hget : AmfData.boolean 1 = .nullPtr := h.1
    cases hget

/-- The entry `ab` twice, with `b` in front of it and its prefix `a` behind the first of them. -/
def fourEntries : List (Bytes × AmfData UInt64) :=
  [([0x62], amfStr [0x76]), ([0x61, 0x62], .boolean 1), ([0x61], .undefined),
    ([0x61, 0x62], .boolean 0)]

/-- In them, `ab` is found and `abc` is not, for which `ab` is taken. -/
theorem lookup_exact_iff_found :
    LooksUp (addEntries (.object []) fourEntries) fourEntries [0x61, 0x62] ∧
      ¬ LooksUp (addEntries (.object []) fourEntries) fourEntries [0x61, 0x62, 0x63] := by
  have hstorable : Storable fourEntries := by
    intro e he
    simp only [fourEntries, List.mem_cons, List.not_mem_nil, or_false] at he
    rcases he with rfl | rfl | rfl | rfl <;> exact ⟨⟨by simp [NulFree], by decide⟩, rfl⟩
  have hfound : NoPrefixBefore [0x61, 0x62] fourEntries :=
    .inr ⟨by decide, .inl rfl⟩
  have hmissed : ¬ NoPrefixBefore [0x61, 0x62, 0x63] fourEntries := by
    rintro (h | ⟨-, h | ⟨h, -⟩⟩)
    · exact absurd h (by decide)
    · exact absurd h (by decide)
    · exact h (by decide)
  constructor
  · exact (lookup_exact_iff (Or.inl rfl) hstorable (by simp [NulFree])).mpr hfound
  · intro h
    exact hmissed ((lookup_exact_iff (Or.inl rfl) hstorable (by simp [NulFree])).mp h)

end FlvMeta
