import FlvMeta.Amf.Entries
import FlvMeta.Amf.List

/-!
# Adding and deleting entries, node by node

The list of an object as its chain of nodes. Here the allocations inside `amf_object_add` can fail,
and a NULL element can be pushed; `addsPair_iff` says when an entry is added completely or not at
all. `amf_object_delete` compares values where it means names (`deletesEntry_iff`).
-/

namespace FlvMeta

variable {N : Type}

/-! ## Adding an entry -/

/-- Which allocations inside `amf_object_add` succeed: the string of the name, its bytes, and the
nodes of the name and of the element. -/
structure Allocations where
  string : Bool
  bytes : Bool
  nameNode : Bool
  elementNode : Bool
deriving DecidableEq, Repr

/-- `amf_str(name)`; a NULL name is the same as an empty one. -/
def amfStrAlloc (allocs : Allocations) (name : Bytes) : AmfData N :=
  if allocs.string ∧ allocs.bytes then amfStr name else .nullPtr

/-- `amf_list_push`, where the allocation of the node can fail. -/
def amfListPushAlloc (allocated : Bool) (list : AmfList (AmfData N)) (data : AmfData N) :
    AmfData N × AmfList (AmfData N) :=
  if allocated then (data, list.push data) else (.nullPtr, list)

/-- `amf_object_add` on an object that is not NULL. -/
def amfObjectAddNodes (allocs : Allocations) (list : AmfList (AmfData N)) (name : Bytes)
    (element : AmfData N) : AmfData N × AmfList (AmfData N) :=
  match amfListPushAlloc allocs.nameNode list (amfStrAlloc allocs name) with
  | (pushed, list) =>
    if pushed.isNull then (.nullPtr, list)
    else
      match amfListPushAlloc allocs.elementNode list element with
      | (pushed, list) =>
        if pushed.isNull then (.nullPtr, list.pop.2) else (element, list)

/-- The element is returned and the chain has gained the pair, or NULL is returned and the chain is
as before. -/
def AddsPair (ns : List (Nat × AmfData N)) (name : Bytes) (element : AmfData N)
    (r : AmfData N × AmfList (AmfData N)) : Prop :=
  (r.1 = element ∧ ∃ (p q : Nat) (s : AmfString), s.bytes = name ∧
    r.2.Consistent (ns ++ [(p, .string s), (q, element)])) ∨
  (r.1 = .nullPtr ∧ r.2.Consistent ns)

/-- No node is made for a name that could not be allocated, and none for a NULL element behind a
name; and what is added fits. -/
structure AddSafe (allocs : Allocations) (count : Nat) (name : Bytes) (element : AmfData N) :
    Prop where
  named : allocs.nameNode → allocs.string ∧ allocs.bytes
  element : allocs.nameNode → allocs.elementNode → element.isNull = false
  fits : allocs.nameNode → allocs.elementNode → name.length < 2 ^ 16 ∧ count + 2 < 2 ^ 32

section

variable {allocs : Allocations} {list : AmfList (AmfData N)} {ns : List (Nat × AmfData N)}
  {name : Bytes} {element : AmfData N}

theorem isNull_nullPtr : (AmfData.nullPtr : AmfData N).isNull = true := rfl

theorem amfObjectAddNodes_noNode (h : allocs.nameNode = false) :
    amfObjectAddNodes allocs list name element = (.nullPtr, list) := by
  simp [amfObjectAddNodes, amfListPushAlloc, h, isNull_nullPtr]

/-- The name could not be allocated: a node with NULL stays in the list. -/
theorem amfObjectAddNodes_noName (h : allocs.nameNode = true)
    (hname : ¬ (allocs.string = true ∧ allocs.bytes = true)) :
    amfObjectAddNodes allocs list name element = (.nullPtr, list.push .nullPtr) := by
  simp [amfObjectAddNodes, amfListPushAlloc, amfStrAlloc, h, hname, isNull_nullPtr]

theorem amfObjectAddNodes_noElementNode (h : allocs.nameNode = true)
    (hname : allocs.string = true ∧ allocs.bytes = true) (helement : allocs.elementNode = false) :
    amfObjectAddNodes allocs list name element = (.nullPtr, (list.push (amfStr name)).pop.2) := by
  simp [amfObjectAddNodes, amfListPushAlloc, amfStrAlloc, h, hname, helement, isNull_nullPtr]

/-- A NULL element: its node is popped, and the name stays in the list. -/
theorem amfObjectAddNodes_nullElement (h : allocs.nameNode = true)
    (hname : allocs.string = true ∧ allocs.bytes = true) (helement : allocs.elementNode = true)
    (hnull : element.isNull = true) :
    amfObjectAddNodes allocs list name element =
      (.nullPtr, ((list.push (amfStr name)).push element).pop.2) := by
  simp [amfObjectAddNodes, amfListPushAlloc, amfStrAlloc, h, hname, helement, hnull]

theorem amfObjectAddNodes_added (h : allocs.nameNode = true)
    (hname : allocs.string = true ∧ allocs.bytes = true) (helement : allocs.elementNode = true)
    (hnull : element.isNull = false) :
    amfObjectAddNodes allocs list name element =
      (element, (list.push (amfStr name)).push element) := by
  simp [amfObjectAddNodes, amfListPushAlloc, amfStrAlloc, h, hname, helement, hnull]

theorem AddsPair.size {r : AmfData N × AmfList (AmfData N)} (h : AddsPair ns name element r) :
    r.2.size = ns.length ∨ r.2.size = ns.length + 2 := by
  rcases h with ⟨-, p, q, s, -, hr⟩ | ⟨-, hr⟩
  · exact Or.inr (by rw [hr.size, List.length_append]; rfl)
  · exact Or.inl hr.size

theorem length_entryList (entries : List (Bytes × AmfData N)) :
    (entryList entries).length = 2 * entries.length := by
  induction entries with
  | nil => rfl
  | cons e entries ih =>
    rw [entryList_cons, List.length_cons, List.length_cons, ih, List.length_cons]
    omega

/-- Behind a name, a pair has been added if and only if it fits. -/
theorem addsPair_added_iff
    (hname : (list.push (amfStr name)).Consistent (ns ++ [(list.fresh, amfStr name)]))
    (hnull : element.isNull = false) :
    AddsPair ns name element (element, (list.push (amfStr name)).push element) ↔
      name.length < 2 ^ 16 ∧ ns.length + 2 < 2 ^ 32 := by
  have hlength : (ns ++ [(list.fresh, (amfStr name : AmfData N))]).length = ns.length + 1 := by
    rw [List.length_append, List.length_singleton]
  constructor
  · rintro (⟨-, p, q, s, rfl, hpair⟩ | ⟨helement, -⟩)
    · have hsize := hpair.size
      rw [AmfList.size_push, hname.size, hlength, List.length_append] at hsize
      refine ⟨s.size_lt, ?_⟩
      simp only [List.length_cons, List.length_nil] at hsize
      omega
    · rw [show element = .nullPtr from helement] at hnull
      cases hnull
  · rintro ⟨hshort, hfits⟩
    have hpair := hname.push (by rw [hlength]; exact hfits) element
    rw [List.append_assoc] at hpair
    refine Or.inl ⟨rfl, list.fresh, (list.push (amfStr name)).fresh, ⟨name, hshort⟩, rfl, ?_⟩
    rw [← amfStr_of_length_lt hshort]
    exact hpair

/-- An entry is added completely or not at all if and only if its allocations and its element are
safe. -/
theorem addsPair_iff (allocs : Allocations) (hlist : list.Consistent ns)
    {entries : List (Bytes × AmfData N)} (hentries : ns.map Prod.snd = entryList entries)
    (hlt : ns.length < 2 ^ 32) (name : Bytes) (element : AmfData N) :
    AddsPair ns name element (amfObjectAddNodes allocs list name element) ↔
      AddSafe allocs ns.length name element := by
  have heven : ns.length = 2 * entries.length := by
    rw [← length_entryList, ← hentries, List.length_map]
  have hroom : ns.length + 1 < 2 ^ 32 := by omega
  have hname := hlist.push hroom (amfStr name : AmfData N)
  have hlength : (ns ++ [(list.fresh, (amfStr name : AmfData N))]).length = ns.length + 1 := by
    rw [List.length_append, List.length_singleton]
  cases hnode : allocs.nameNode with
  | false =>
    rw [amfObjectAddNodes_noNode hnode]
    constructor
    · intro _
      exact ⟨by simp [hnode], by simp [hnode], by simp [hnode]⟩
    · intro _
      exact Or.inr ⟨rfl, hlist⟩
  | true =>
    by_cases hnamed : allocs.string = true ∧ allocs.bytes = true
    · cases helement : allocs.elementNode with
      | false =>
        rw [amfObjectAddNodes_noElementNode hnode hnamed helement]
        have hpop := (hname.pop (by rw [hlength]; exact hroom)).2
        constructor
        · intro _
          exact ⟨fun _ => hnamed, by simp [helement], by simp [helement]⟩
        · intro _
          exact Or.inr ⟨rfl, hpop⟩
      | true =>
        cases hnull : element.isNull with
        | true =>
          rw [amfObjectAddNodes_nullElement hnode hnamed helement hnull]
          have hsize : ((list.push (amfStr name)).push element).pop.2.size = ns.length + 1 := by
            rw [hname.size_pop_push, AmfList.size_push, hname.size, hlength, AmfList.pred]
            omega
          constructor
          · intro h
            have hsizes := h.size
            rw [hsize] at hsizes
            omega
          · intro h
            rw [h.element hnode helement] at hnull
            cases hnull
        | false =>
          rw [amfObjectAddNodes_added hnode hnamed helement hnull, addsPair_added_iff hname hnull]
          constructor
          · intro hfits
            exact ⟨fun _ => hnamed, fun _ _ => hnull, fun _ _ => hfits⟩
          · intro h
            exact h.fits hnode helement
    · rw [amfObjectAddNodes_noName hnode hnamed]
      have hsize : (list.push .nullPtr).size = ns.length + 1 := by
        rw [AmfList.size_push, hlist.size]
        omega
      constructor
      · intro h
        have hsizes := h.size
        rw [hsize] at hsizes
        omega
      · intro h
        exact absurd (h.named hnode) hnamed

/-- When all allocations succeed and the list does not overflow, the chain holds the list of
`amfObjectAdd`. -/
theorem amfObjectAddNodes_refines (hlist : list.Consistent ns) (hlt : ns.length + 2 < 2 ^ 32)
    (name : Bytes) (element : AmfData N) :
    ∃ ns', (amfObjectAddNodes ⟨true, true, true, true⟩ list name element).2.Consistent ns' ∧
      ns'.map Prod.snd =
        (amfObjectAdd (.object (ns.map Prod.snd)) name element).2.listData ∧
      (amfObjectAddNodes ⟨true, true, true, true⟩ list name element).1 =
        (amfObjectAdd (.object (ns.map Prod.snd)) name element).1 := by
  have hname := hlist.push (by omega) (amfStr name : AmfData N)
  have hlength : (ns ++ [(list.fresh, (amfStr name : AmfData N))]).length = ns.length + 1 := by
    rw [List.length_append, List.length_singleton]
  have hpair := hname.push (by rw [hlength]; exact hlt) element
  cases hnull : element.isNull with
  | true =>
    rw [amfObjectAddNodes_nullElement rfl ⟨rfl, rfl⟩ rfl hnull]
    have hpop := (hpair.pop (by simpa using hlt)).2
    rw [amfObjectAdd_null rfl hnull]
    refine ⟨_, hpop, ?_, rfl⟩
    simp [AmfData.listData, AmfData.withListData]
  | false =>
    rw [amfObjectAddNodes_added rfl ⟨rfl, rfl⟩ rfl hnull]
    rw [amfObjectAdd_eq rfl hnull]
    refine ⟨_, hpair, ?_, rfl⟩
    simp [AmfData.listData, AmfData.withListData]

end

/-- A NULL element is added to an empty object, as for the clone of a null value: its name stays. -/
theorem not_addsPair_nullElement :
    (AmfList.init : AmfList (AmfData UInt64)).Consistent [] ∧
      ¬ AddsPair [] (ascii "k") (.nullPtr : AmfData UInt64)
        (amfObjectAddNodes ⟨true, true, true, true⟩ AmfList.init (ascii "k") .nullPtr) := by
  refine ⟨AmfList.consistent_init, ?_⟩
  intro h
  have hsize : (amfObjectAddNodes ⟨true, true, true, true⟩ AmfList.init (ascii "k")
      (.nullPtr : AmfData UInt64)).2.size = 1 := rfl
  have hsizes := h.size
  rw [hsize] at hsizes
  simp at hsizes

/-- Two entries. -/
def twoEntries : List (Bytes × AmfData UInt64) := [([0x6b], amfStr [0x76]), ([0x6c], .boolean 1)]

/-- A value is added behind them. Where its name cannot be allocated, a NULL node is. -/
theorem addsPair_iff_twoEntries :
    ∃ ns, (AmfList.ofList (entryList twoEntries)).Consistent ns ∧
      ns.map Prod.snd = entryList twoEntries ∧
      AddsPair ns [0x6d] .undefined (amfObjectAddNodes ⟨true, true, true, true⟩
        (AmfList.ofList (entryList twoEntries)) [0x6d] .undefined) ∧
      ¬ AddsPair ns [0x6d] .undefined (amfObjectAddNodes ⟨false, true, true, true⟩
        (AmfList.ofList (entryList twoEntries)) [0x6d] .undefined) := by
  have hlength : (entryList twoEntries).length = 4 := rfl
  obtain ⟨ns, hlist, hns⟩ := AmfList.exists_consistent_ofList
    (show (entryList twoEntries).length < 2 ^ 32 by omega)
  have hsize : ns.length = 4 := by rw [← hlength, ← hns, List.length_map]
  have hlt : ns.length < 2 ^ 32 := by omega
  refine ⟨ns, hlist, hns, ?_, ?_⟩
  · apply (addsPair_iff ⟨true, true, true, true⟩ hlist hns hlt [0x6d] .undefined).mpr
    exact ⟨fun _ => ⟨rfl, rfl⟩, fun _ _ => rfl, fun _ _ => ⟨by decide, by omega⟩⟩
  · intro h
    have hsafe := (addsPair_iff ⟨false, true, true, true⟩ hlist hns hlt [0x6d] .undefined).mp h
    cases (hsafe.named rfl).1

/-! ## Deleting an entry -/

/-- What `string_data` shows of a value: the bytes behind `mbstr` and the size, `none` where
reading them faults. A string shows itself; what other values show is left open. -/
structure StringView (N : Type) where
  view : AmfData N → Option (Bytes × Nat)
  view_string : ∀ s, view (.string s) = some (s.bytes, s.size)

/-- The loop of `amf_object_delete`, from the node at an address. It fails where a NULL node or a
faulting value would be read, or when the fuel is used up. -/
def amfObjectDeleteLoop (sv : StringView N) (name : Bytes) (list : AmfList (AmfData N)) :
    Nat → Option Nat → Option (AmfData N × AmfList (AmfData N))
  | 0, _ => none
  | _ + 1, none => some (.nullPtr, list)
  | fuel + 1, some p => do
    let nameNode ← list.nodes p
    -- `node = node->next` comes before the comparison, which is therefore made with the value
    let q ← nameNode.next
    let node ← list.nodes q
    let (mbstr, size) ← sv.view node.data
    if strncmpEq mbstr name size then
      match (list.delete (some q)).2.delete node.next with
      | (deleted, list) => return (deleted.getD .nullPtr, list)
    else amfObjectDeleteLoop sv name list fuel node.next

/-- `amf_object_delete` on an object that is not NULL. -/
def amfObjectDelete (sv : StringView N) (list : AmfList (AmfData N)) (name : Bytes) :
    Option (AmfData N × AmfList (AmfData N)) :=
  amfObjectDeleteLoop sv name list (list.size + 1) list.first

/-- The first pair with this name is taken out of the chain and its value returned; when there is
none, NULL is returned and the chain is as before. -/
def DeletesEntry (ns : List (Nat × AmfData N)) (entries : List (Bytes × AmfData N)) (name : Bytes)
    (r : Option (AmfData N × AmfList (AmfData N))) : Prop :=
  (∃ es e fs as p v bs list, entries = es ++ e :: fs ∧ (∀ e' ∈ es, e'.1 ≠ name) ∧ e.1 = name ∧
    ns = as ++ p :: v :: bs ∧ as.length = 2 * es.length ∧ r = some (e.2, list) ∧
    list.Consistent (as ++ bs)) ∨
  ((∀ e ∈ entries, e.1 ≠ name) ∧ ∃ list, r = some (.nullPtr, list) ∧ list.Consistent ns)

/-- Reading the string of a value does not fault, and it does not look like the name. -/
def Unlike (sv : StringView N) (name : Bytes) (value : AmfData N) : Prop :=
  ∃ mbstr size, sv.view value = some (mbstr, size) ∧ strncmpEq mbstr name size = false

/-- How the loop ends: no value looked like the name, or one faulted, or the first one that looked
like it has been deleted with the node behind it. -/
inductive DeleteOutcome (sv : StringView N) (name : Bytes) (list : AmfList (AmfData N))
    (suf : List (Nat × AmfData N)) (entries : List (Bytes × AmfData N)) :
    Option (AmfData N × AmfList (AmfData N)) → Prop where
  | unchanged (h : ∀ e ∈ entries, Unlike sv name e.2) :
      DeleteOutcome sv name list suf entries (some (.nullPtr, list))
  | faulted {e} (he : e ∈ entries) (h : sv.view e.2 = none) :
      DeleteOutcome sv name list suf entries none
  | deleted {e as p v bs} (he : e ∈ entries) (h : ¬ Unlike sv name e.2)
      (hsuf : suf = as ++ p :: v :: bs) (heven : ∃ k, as.length = 2 * k) (deleted) :
      DeleteOutcome sv name list suf entries
        (some (deleted, ((list.delete (some v.1)).2.delete (bs.head?.map Prod.fst)).2))

theorem DeleteOutcome.later {sv : StringView N} {name : Bytes} {list : AmfList (AmfData N)}
    {p v : Nat × AmfData N} {suf : List (Nat × AmfData N)} {e : Bytes × AmfData N}
    {entries : List (Bytes × AmfData N)} {r : Option (AmfData N × AmfList (AmfData N))}
    (he : Unlike sv name e.2) (h : DeleteOutcome sv name list suf entries r) :
    DeleteOutcome sv name list (p :: v :: suf) (e :: entries) r := by
  cases h with
  | unchanged h => exact .unchanged (List.forall_mem_cons.mpr ⟨he, h⟩)
  | faulted he' h => exact .faulted (List.mem_cons_of_mem e he') h
  | @deleted e' as p' v' bs he' h hsuf heven d =>
    obtain ⟨k, hk⟩ := heven
    have hsuf' : p :: v :: suf = (p :: v :: as) ++ p' :: v' :: bs := by
      rw [hsuf]
      rfl
    have heven' : (p :: v :: as).length = 2 * (k + 1) := by
      simp only [List.length_cons]
      omega
    exact .deleted (List.mem_cons_of_mem e he') h hsuf' ⟨k + 1, heven'⟩ d

theorem amfObjectDeleteLoop_outcome (sv : StringView N) (name : Bytes)
    {list : AmfList (AmfData N)} {entries : List (Bytes × AmfData N)} {fuel : Nat}
    {pre suf : List (Nat × AmfData N)} (hlist : list.Consistent (pre ++ suf))
    (hsuf : suf.map Prod.snd = entryList entries) (hfuel : entries.length < fuel) :
    DeleteOutcome sv name list suf entries
      (amfObjectDeleteLoop sv name list fuel (suf.head?.map Prod.fst)) := by
  induction entries generalizing pre suf fuel with
  | nil =>
    obtain ⟨fuel, rfl⟩ : ∃ n, fuel = n + 1 := ⟨fuel - 1, by omega⟩
    obtain rfl : suf = [] := List.map_eq_nil_iff.mp hsuf
    exact .unchanged (by simp)
  | cons e entries ih =>
    obtain ⟨fuel, rfl⟩ : ∃ n, fuel = n + 1 := ⟨fuel - 1, by omega⟩
    rw [entryList_cons] at hsuf
    obtain ⟨p, suf₁, rfl, hp, hsuf⟩ := List.map_eq_cons_iff.mp hsuf
    obtain ⟨v, suf₂, rfl, hv, hsuf⟩ := List.map_eq_cons_iff.mp hsuf
    have hnode := hlist.node pre p (v :: suf₂) rfl
    have hsplit : pre ++ p :: v :: suf₂ = (pre ++ [p]) ++ v :: suf₂ := by simp
    have hvalue := hlist.node (pre ++ [p]) v suf₂ hsplit
    have hhead : ((p :: v :: suf₂).head?).map Prod.fst = some p.1 := rfl
    rw [hhead, amfObjectDeleteLoop, hnode]
    simp only [Option.bind_eq_bind, Option.bind_some, List.head?_cons, Option.map_some, hvalue, hv]
    cases hview : sv.view e.2 with
    | none => exact .faulted List.mem_cons_self hview
    | some r =>
      obtain ⟨mbstr, size⟩ := r
      simp only [Option.bind_some]
      by_cases hlike : strncmpEq mbstr name size = true
      · rw [if_pos hlike]
        have hnot : ¬ Unlike sv name e.2 := by
          rintro ⟨mbstr', size', hview', hunlike⟩
          rw [hview] at hview'
          cases hview'
          rw [hlike] at hunlike
          cases hunlike
        have hfirst : p :: v :: suf₂ = [] ++ p :: v :: suf₂ := rfl
        exact .deleted List.mem_cons_self hnot hfirst ⟨0, rfl⟩ _
      · rw [if_neg hlike]
        have hsplit' : pre ++ p :: v :: suf₂ = (pre ++ [p, v]) ++ suf₂ := by simp
        rw [hsplit'] at hlist
        have hlater := ih hlist hsuf (by simpa using hfuel)
        exact hlater.later ⟨mbstr, size, hview, by simpa using hlike⟩

/-- After a deletion the chain holds neither what it held before nor all but the first pair with a
name: what is missing are a value and the name behind it. -/
theorem not_deletesEntry {list : AmfList (AmfData N)} {ns : List (Nat × AmfData N)}
    (hlist : list.Consistent ns) (hlt : ns.length < 2 ^ 32) {as bs : List (Nat × AmfData N)}
    {p v : Nat × AmfData N} (hns : ns = as ++ p :: v :: bs) (heven : ∃ k, as.length = 2 * k)
    (entries : List (Bytes × AmfData N)) (name : Bytes) (deleted : AmfData N) :
    ¬ DeletesEntry ns entries name
      (some (deleted, ((list.delete (some v.1)).2.delete (bs.head?.map Prod.fst)).2)) := by
  obtain ⟨k, hk⟩ := heven
  have hsplit : ns = (as ++ [p]) ++ v :: bs := by simp [hns]
  rw [hsplit] at hlist
  obtain ⟨-, hfirst, hfree⟩ := hlist.delete (by rw [← hsplit]; exact hlt)
  generalize (list.delete (some v.1)).2 = list₁ at hfirst hfree ⊢
  cases bs with
  | nil =>
    have hsize : list₁.size = as.length + 1 := by
      rw [hfirst.size]
      simp
    rintro (⟨es, e, fs, as', p', v', bs', l, -, -, -, hns', -, hr, hrest⟩ | ⟨-, l, hr, hrest⟩)
    · obtain rfl : list₁ = l := (Prod.mk.inj (Option.some.inj hr)).2
      have hlength := congrArg List.length (hns.symm.trans hns')
      have hsize' := hrest.size
      rw [hsize] at hsize'
      simp only [List.length_append, List.length_cons, List.length_nil] at hlength hsize'
      omega
    · obtain rfl : list₁ = l := (Prod.mk.inj (Option.some.inj hr)).2
      have hsize' := hrest.size
      rw [hsize, hns] at hsize'
      simp only [List.length_append, List.length_cons, List.length_nil] at hsize'
      omega
  | cons m bs =>
    have hlt₁ : (as ++ [p] ++ m :: bs).length < 2 ^ 32 := by
      rw [hns] at hlt
      simp only [List.length_append, List.length_cons, List.length_nil] at hlt ⊢
      omega
    obtain ⟨-, hsecond, hfree₂⟩ := hfirst.delete hlt₁
    have hfree₁ := AmfList.nodes_delete_of_none hfree (some m.1)
    rw [List.head?_cons, Option.map_some]
    generalize (list₁.delete (some m.1)).2 = list₂ at hsecond hfree₁ hfree₂ ⊢
    have hnodup : (ns.map Prod.fst).Nodup := by
      rw [hsplit]
      exact hlist.nodup
    rintro (⟨es, e, fs, as', p', v', bs', l, -, -, -, hns', heven, hr, hrest⟩ | ⟨-, l, hr, hrest⟩)
    · obtain rfl : list₂ = l := (Prod.mk.inj (Option.some.inj hr)).2
      -- the value and the name behind it have an odd and an even index, the pair the reverse
      have hv := hrest.index_of_free hnodup hns' hsplit hfree₁
      have hm := hrest.index_of_free hnodup hns' (show ns = (as ++ [p, v]) ++ m :: bs by simp [hns])
        hfree₂
      simp only [List.length_append, List.length_cons, List.length_nil] at hv hm
      omega
    · obtain rfl : list₂ = l := (Prod.mk.inj (Option.some.inj hr)).2
      have hsize := hrest.size
      rw [hsecond.size, hns] at hsize
      simp only [List.length_append, List.length_cons, List.length_nil] at hsize
      omega

/-- When the chain is as before, no entry may have the name. -/
theorem deletesEntry_unchanged_iff {list : AmfList (AmfData N)} {ns : List (Nat × AmfData N)}
    (hlist : list.Consistent ns) (entries : List (Bytes × AmfData N)) (name : Bytes) :
    DeletesEntry ns entries name (some (.nullPtr, list)) ↔ ∀ e ∈ entries, e.1 ≠ name := by
  constructor
  · rintro (⟨es, e, fs, as, p, v, bs, l, -, -, -, hns, -, hr, hrest⟩ | ⟨hnames, -⟩)
    · obtain rfl : list = l := (Prod.mk.inj (Option.some.inj hr)).2
      have hsize := hrest.size
      rw [hlist.size, hns] at hsize
      simp only [List.length_append, List.length_cons] at hsize
      omega
    · exact hnames
  · intro hnames
    exact Or.inr ⟨hnames, list, rfl, hlist⟩

/-- An entry is deleted by its name if and only if there is none with this name, and no value looks
like it. -/
theorem deletesEntry_iff (sv : StringView N) {list : AmfList (AmfData N)}
    {ns : List (Nat × AmfData N)} (hlist : list.Consistent ns) (hlt : ns.length < 2 ^ 32)
    {entries : List (Bytes × AmfData N)} (hentries : ns.map Prod.snd = entryList entries)
    (name : Bytes) :
    DeletesEntry ns entries name (amfObjectDelete sv list name) ↔
      ∀ e ∈ entries, e.1 ≠ name ∧ Unlike sv name e.2 := by
  have hfuel : entries.length < list.size + 1 := by
    have hlength : ns.length = 2 * entries.length := by
      rw [← length_entryList, ← hentries, List.length_map]
    rw [hlist.size]
    omega
  have hchain : list.Consistent ([] ++ ns) := hlist
  have houtcome := amfObjectDeleteLoop_outcome sv name hchain hentries hfuel
  rw [← hlist.first] at houtcome
  unfold amfObjectDelete
  generalize amfObjectDeleteLoop sv name list (list.size + 1) list.first = r at houtcome ⊢
  cases houtcome with
  | unchanged hunlike =>
    rw [deletesEntry_unchanged_iff hlist]
    constructor
    · intro hnames e he
      exact ⟨hnames e he, hunlike e he⟩
    · intro h e he
      exact (h e he).1
  | @faulted e he hview =>
    constructor
    · rintro (⟨es, e, fs, as, p, v, bs, l, -, -, -, -, -, hr, -⟩ | ⟨-, l, hr, -⟩)
      · cases hr
      · cases hr
    · intro h
      obtain ⟨mbstr, size, hsome, -⟩ := (h e he).2
      rw [hview] at hsome
      cases hsome
  | @deleted e as p v bs he hlike hns heven deleted =>
    constructor
    · intro h
      exact absurd h (not_deletesEntry hlist hlt hns heven entries name deleted)
    · intro h
      exact absurd (h e he).2 hlike

/-- A view that faults on everything but strings. -/
def stringsOnly : StringView UInt64 where
  view
    | .string s => some (s.bytes, s.size)
    | _ => none
  view_string _ := rfl

/-- The entry `k` with the value `v`. -/
def oneEntry : List (Bytes × AmfData UInt64) := [(ascii "k", amfStr (ascii "v"))]

/-- Its object is not changed by the deletion of `k`. -/
theorem not_deletesEntry_oneEntry :
    ∃ ns, (AmfList.ofList (entryList oneEntry)).Consistent ns ∧
      ns.map Prod.snd = entryList oneEntry ∧ Storable oneEntry ∧ NulFree (ascii "k") ∧
      ¬ DeletesEntry ns oneEntry (ascii "k")
        (amfObjectDelete stringsOnly (AmfList.ofList (entryList oneEntry)) (ascii "k")) := by
  obtain ⟨ns, hlist, hns⟩ := AmfList.exists_consistent_ofList
    (show (entryList oneEntry).length < 2 ^ 32 by decide)
  have hname : NulFree (ascii "k") := by simp [NulFree, ascii]
  refine ⟨ns, hlist, hns, storable_singleton ⟨hname, by decide⟩ rfl, hname, ?_⟩
  have hdelete : amfObjectDelete stringsOnly (AmfList.ofList (entryList oneEntry)) (ascii "k") =
      some (.nullPtr, AmfList.ofList (entryList oneEntry)) := rfl
  rw [hdelete, deletesEntry_unchanged_iff hlist]
  intro h
  exact h (ascii "k", amfStr (ascii "v")) (by simp [oneEntry]) rfl

/-- Three entries, two of them with the same name. -/
def threeEntries : List (Bytes × AmfData UInt64) :=
  [([0x6b], amfStr [0x76]), ([0x6c], amfStr [0x77]), ([0x6b], amfStr [0x78])]

/-- Deleting `m` leaves them as they are. Neither the name `l` nor the value `x` can be deleted. -/
theorem deletesEntry_iff_threeEntries :
    ∃ ns, (AmfList.ofList (entryList threeEntries)).Consistent ns ∧
      ns.map Prod.snd = entryList threeEntries ∧
      DeletesEntry ns threeEntries [0x6d]
        (amfObjectDelete stringsOnly (AmfList.ofList (entryList threeEntries)) [0x6d]) ∧
      ¬ DeletesEntry ns threeEntries [0x6c]
        (amfObjectDelete stringsOnly (AmfList.ofList (entryList threeEntries)) [0x6c]) ∧
      ¬ DeletesEntry ns threeEntries [0x78]
        (amfObjectDelete stringsOnly (AmfList.ofList (entryList threeEntries)) [0x78]) := by
  have hlength : (entryList threeEntries).length = 6 := rfl
  obtain ⟨ns, hlist, hns⟩ := AmfList.exists_consistent_ofList
    (show (entryList threeEntries).length < 2 ^ 32 by omega)
  have hlt : ns.length < 2 ^ 32 := by
    have hsize : ns.length = 6 := by rw [← hlength, ← hns, List.length_map]
    omega
  refine ⟨ns, hlist, hns, ?_, ?_, ?_⟩
  · apply (deletesEntry_iff stringsOnly hlist hlt hns [0x6d]).mpr
    intro e he
    simp only [threeEntries, List.mem_cons, List.not_mem_nil, or_false] at he
    rcases he with rfl | rfl | rfl
    · exact ⟨by decide, [0x76], 1, rfl, by decide⟩
    · exact ⟨by decide, [0x77], 1, rfl, by decide⟩
    · exact ⟨by decide, [0x78], 1, rfl, by decide⟩
  · intro h
    have hnames := (deletesEntry_iff stringsOnly hlist hlt hns [0x6c]).mp h
    exact (hnames ([0x6c], amfStr [0x77]) (by simp [threeEntries])).1 rfl
  · intro h
    have hnames := (deletesEntry_iff stringsOnly hlist hlt hns [0x78]).mp h
    obtain ⟨mbstr, size, hview, hunlike⟩ :=
      (hnames ([0x6b], amfStr [0x78]) (by simp [threeEntries])).2
    obtain ⟨rfl, rfl⟩ := Prod.mk.inj (Option.some.inj hview)
    exact absurd hunlike (by decide)

end FlvMeta
