import FlvMeta.Amf.Data

/-!
# Entries of objects

Objects and associative arrays keep their entries in one list of alternating names and values.
`entryList` is the list of given entries, and `addEntries` the value that `amf_object_add` makes of
them. The program finds an entry whose name is a prefix of the one it looks for.
-/

namespace FlvMeta

variable {N : Type}

/-! ## Names -/

/-- A name that an `amf_string` can hold. -/
def IsName (s : Bytes) : Prop := NulFree s ∧ s.length < 2 ^ 16

theorem IsName.size {s : Bytes} (h : IsName s) :
    amfStringGetSize (amfStr s : AmfData N) = s.length := by
  rw [amfStr_of_length_lt h.2]
  rfl

theorem IsName.bytes {s : Bytes} (h : IsName s) : amfStringGetBytes (amfStr s : AmfData N) = s := by
  rw [amfStr_of_length_lt h.2]
  rfl

theorem IsName.amfStr_inj {s t : Bytes} (hs : IsName s) (ht : IsName t)
    (h : (amfStr s : AmfData N) = amfStr t) : s = t := by
  rw [← hs.bytes (N := N), h, ht.bytes]

/-! ## Lists of entries -/

/-- The list of an associative array with these entries. -/
def entryList (entries : List (Bytes × AmfData N)) : List (AmfData N) :=
  entries.flatMap fun entry => [amfStr entry.1, entry.2]

theorem entryList_append (xs ys : List (Bytes × AmfData N)) :
    entryList (xs ++ ys) = entryList xs ++ entryList ys := List.flatMap_append

theorem entryList_cons (e : Bytes × AmfData N) (entries : List (Bytes × AmfData N)) :
    entryList (e :: entries) = amfStr e.1 :: e.2 :: entryList entries := rfl

/-- Entries that a list holds. -/
def Storable (entries : List (Bytes × AmfData N)) : Prop :=
  ∀ e ∈ entries, IsName e.1 ∧ e.2.isNull = false

theorem storable_singleton {e : Bytes × AmfData N} (hname : IsName e.1)
    (hvalue : e.2.isNull = false) : Storable [e] := by
  intro e' he
  rw [List.mem_singleton.mp he]
  exact ⟨hname, hvalue⟩

theorem Storable.concat {base : List (Bytes × AmfData N)} {e : Bytes × AmfData N}
    (h : Storable base) (he : IsName e.1 ∧ e.2.isNull = false) : Storable (base ++ [e]) := by
  intro e' he'
  rcases List.mem_append.mp he' with he' | he'
  · exact h e' he'
  · obtain rfl := List.mem_singleton.mp he'
    exact he

/-! ## Adding entries -/

def addEntries (data : AmfData N) (entries : List (Bytes × AmfData N)) : AmfData N :=
  entries.foldl (fun data entry => data.add entry.1 entry.2) data

/-- An object or associative array without entries. -/
def IsEmptyObject (data : AmfData N) : Prop := data = .object [] ∨ data = .associativeArray []

theorem addEntries_associativeArray (list : List (AmfData N))
    {entries : List (Bytes × AmfData N)} (h : ∀ e ∈ entries, e.2.isNull = false) :
    addEntries (.associativeArray list) entries =
      .associativeArray (list ++ entryList entries) := by
  induction entries generalizing list with
  | nil => simp [addEntries, entryList]
  | cons e entries ih =>
    have hrest := ih (list ++ [amfStr e.1, e.2]) fun e he => h e (List.mem_cons_of_mem _ he)
    rw [addEntries, List.foldl_cons, add_associativeArray _ _ (h e List.mem_cons_self)]
    rw [addEntries] at hrest
    simp [hrest, entryList]

theorem addEntries_object (list : List (AmfData N))
    {entries : List (Bytes × AmfData N)} (h : ∀ e ∈ entries, e.2.isNull = false) :
    addEntries (.object list) entries = .object (list ++ entryList entries) := by
  induction entries generalizing list with
  | nil => simp [addEntries, entryList]
  | cons e entries ih =>
    have hrest := ih (list ++ [amfStr e.1, e.2]) fun e he => h e (List.mem_cons_of_mem _ he)
    rw [addEntries, List.foldl_cons, add_object _ _ (h e List.mem_cons_self)]
    rw [addEntries] at hrest
    simp [hrest, entryList]

/-- The value made of an empty one holds the entries. -/
theorem IsEmptyObject.addEntries {data : AmfData N} (hdata : IsEmptyObject data)
    {entries : List (Bytes × AmfData N)} (h : Storable entries) :
    addEntries data entries = data.withListData (entryList entries) := by
  have hvalues : ∀ e ∈ entries, e.2.isNull = false := fun e he => (h e he).2
  rcases hdata with rfl | rfl
  · exact addEntries_object [] hvalues
  · exact addEntries_associativeArray [] hvalues

/-! ## Finding an entry -/

/-- A name is not found when no entry has a prefix of it as its name. -/
theorem amfObjectGetLoop_isNull_iff {entries : List (Bytes × AmfData N)}
    (hnames : ∀ e ∈ entries, IsName e.1) (hvalues : ∀ e ∈ entries, e.2.isNull = false)
    {name : Bytes} (hname : NulFree name) :
    (amfObjectGetLoop name (entryList entries)).isNull = true ↔
      ∀ e ∈ entries, ¬ e.1 <+: name := by
  induction entries with
  | nil =>
    have hnil : entryList ([] : List (Bytes × AmfData N)) = [] := rfl
    simp [hnil, amfObjectGetLoop, AmfData.isNull]
  | cons e entries ih =>
    obtain ⟨he, hnames⟩ := List.forall_mem_cons.mp hnames
    obtain ⟨hvalue, hvalues⟩ := List.forall_mem_cons.mp hvalues
    rw [entryList_cons, amfObjectGetLoop, he.size, he.bytes, List.forall_mem_cons,
      ← strncmpEq_iff_starts he.1 hname]
    split
    · rename_i hfound
      simp [hfound, hvalue]
    · rename_i hfound
      simp [hfound, ih hnames hvalues]

theorem Storable.get_isNull_iff {base : List (Bytes × AmfData N)} (h : Storable base) {name : Bytes}
    (hname : NulFree name) :
    (amfObjectGetLoop name (entryList base)).isNull = true ↔ ∀ e ∈ base, ¬ e.1 <+: name :=
  amfObjectGetLoop_isNull_iff (fun e he => (h e he).1) (fun e he => (h e he).2) hname

end FlvMeta
