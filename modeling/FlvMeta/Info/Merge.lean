import FlvMeta.Amf.Sound
import FlvMeta.Info.Tree
import FlvMeta.Info.Visits

/-!
# Merging the original metadata

When they are preserved, the entries of the original metadata are added behind the computed ones,
but for those whose name is already there (`newEntries`). The program takes a name for present when
it begins with a name that is there, and adds the clone of a value, which for null and undefined
does not exist. `mergeMetadata_iff` says that these are the only two ways in which the merge goes
wrong.
-/

namespace FlvMeta

open Stdio

variable {N : Type}

/-! ## Entries -/

/-- A list alternates names and values, and these are its entries. -/
structure Alternates (list : List (AmfData N)) (entries : List (Bytes × AmfData N)) : Prop where
  eq : list = entryList entries
  short : ∀ e ∈ entries, e.1.length < 2 ^ 16

/-- The entries of a tree that was read. -/
theorem SoundPairs.alternates : ∀ {list : List (AmfData N)}, SoundPairs list →
    ∃ entries, list = entryList entries ∧ ∀ e ∈ entries, IsName e.1 ∧ SoundTree e.2
  | [], _ => ⟨[], rfl, by simp⟩
  | [_], h => by simp [SoundPairs] at h
  | name :: value :: rest, h => by
    obtain ⟨⟨s, rfl, hname⟩, hvalue, hrest⟩ := h
    obtain ⟨entries, rfl, hentries⟩ := hrest.alternates
    refine ⟨(s.bytes, value) :: entries, ?_, ?_⟩
    · rw [← amfStr_bytes]
      rfl
    · rw [List.forall_mem_cons]
      exact ⟨⟨⟨hname, s.size_lt⟩, hvalue⟩, hentries⟩

/-! ## The entries to be added -/

/-- The entries whose name is none of the earlier names. -/
def newEntries (names : List Bytes) : List (Bytes × AmfData N) → List (Bytes × AmfData N)
  | [] => []
  | e :: entries =>
    if e.1 ∈ names then newEntries names entries else e :: newEntries (names ++ [e.1]) entries

/-- An entry is not taken for an earlier one, and its value can be cloned. -/
def Survives (earlier : List (Bytes × AmfData N)) (e : Bytes × AmfData N) : Prop :=
  (∀ e' ∈ earlier, ¬ e'.1 <+: e.1) ∧ Cloneable e.2

/-- All new entries survive. -/
def AllSurvive (base originals : List (Bytes × AmfData N)) : Prop :=
  ∀ as e bs, newEntries (base.map Prod.fst) originals = as ++ e :: bs → Survives (base ++ as) e

theorem allSurvive_nil (base : List (Bytes × AmfData N)) : AllSurvive base [] := by
  intro as e bs h
  simp [newEntries] at h

theorem allSurvive_cons_of_mem {base originals : List (Bytes × AmfData N)} {e : Bytes × AmfData N}
    (h : e.1 ∈ base.map Prod.fst) :
    AllSurvive base (e :: originals) ↔ AllSurvive base originals := by
  unfold AllSurvive
  rw [newEntries, if_pos h]

theorem allSurvive_cons_of_not_mem {base originals : List (Bytes × AmfData N)}
    {e : Bytes × AmfData N} (h : e.1 ∉ base.map Prod.fst) :
    AllSurvive base (e :: originals) ↔ Survives base e ∧ AllSurvive (base ++ [e]) originals := by
  unfold AllSurvive
  rw [newEntries, if_neg h, List.map_append, List.map_singleton]
  constructor
  · intro hall
    refine ⟨by simpa using hall [] e _ rfl, fun as e' bs hsplit => ?_⟩
    simpa using hall (e :: as) e' bs (by rw [hsplit, List.cons_append])
  · rintro ⟨he, hall⟩ as e' bs hsplit
    cases as with
    | nil =>
      obtain ⟨rfl, -⟩ := List.cons.inj hsplit
      simpa using he
    | cons a as =>
      obtain ⟨rfl, hrest⟩ := List.cons.inj hsplit
      simpa using hall as e' bs hrest

/-! ## The merge -/

/-- An entry of the original metadata is added when its name is not found. -/
theorem mergeMetadata_cons {e : Bytes × AmfData N} (h : IsName e.1)
    (originals : List (Bytes × AmfData N)) (l : List (AmfData N)) :
    mergeMetadata (entryList (e :: originals)) (.associativeArray l) =
      mergeMetadata (entryList originals)
        (if (amfObjectGetLoop e.1 l).isNull then
          (AmfData.associativeArray l).add e.1 (amfDataClone e.2)
        else .associativeArray l) := by
  rw [entryList_cons, mergeMetadata, h.bytes, cString_of_nulFree h.1]
  rfl

theorem add_associativeArray_appends (l : List (AmfData N)) (name : Bytes) (element : AmfData N) :
    ∃ ys, (AmfData.associativeArray l).add name element =
      .associativeArray (l ++ amfStr name :: ys) := by
  cases hnull : element.isNull with
  | true =>
    cases element with
    | nullPtr => exact ⟨[], add_associativeArray_nullPtr l name⟩
    | _ => cases hnull
  | false => exact ⟨[element], add_associativeArray l name hnull⟩

/-- The merge appends, and what it appends first is a name that was not found. -/
theorem mergeMetadata_appends : ∀ (originals : List (Bytes × AmfData N)) (l : List (AmfData N)),
    (∀ e ∈ originals, IsName e.1) →
    ∃ ys, mergeMetadata (entryList originals) (.associativeArray l) = .associativeArray (l ++ ys) ∧
      ∀ y ∈ ys.head?, ∃ name, IsName name ∧ y = amfStr name ∧
        (amfObjectGetLoop name l).isNull = true
  | [], l, _ => ⟨[], by simp [entryList, mergeMetadata], by simp⟩
  | e :: originals, l, h => by
    obtain ⟨he, horiginals⟩ := List.forall_mem_cons.mp h
    rw [mergeMetadata_cons he]
    by_cases hfound : (amfObjectGetLoop e.1 l).isNull = true
    · obtain ⟨ys, hadd⟩ := add_associativeArray_appends l e.1 (amfDataClone e.2)
      obtain ⟨zs, hrest, -⟩ := mergeMetadata_appends originals (l ++ amfStr e.1 :: ys) horiginals
      refine ⟨amfStr e.1 :: (ys ++ zs), ?_, ?_⟩
      · rw [if_pos hfound, hadd, hrest]
        simp
      · intro y hy
        obtain rfl : amfStr e.1 = y := by simpa using hy
        exact ⟨e.1, he, rfl, hfound⟩
    · rw [if_neg hfound]
      exact mergeMetadata_appends originals l horiginals

section

variable {base originals : List (Bytes × AmfData N)} {e : Bytes × AmfData N}

/-- An entry whose name is there is left out. -/
theorem mergeMetadata_present (hbase : Storable base) (he : IsName e.1)
    (h : e.1 ∈ base.map Prod.fst) :
    mergeMetadata (entryList (e :: originals)) (.associativeArray (entryList base)) =
      mergeMetadata (entryList originals) (.associativeArray (entryList base)) := by
  obtain ⟨e', he', hname⟩ := List.mem_map.mp h
  have hfound : ¬ (amfObjectGetLoop e.1 (entryList base)).isNull = true := by
    rw [hbase.get_isNull_iff he.1]
    exact fun hall => hall e' he' (hname ▸ List.prefix_refl _)
  rw [mergeMetadata_cons he, if_neg hfound]

/-- An entry that survives is added as it is. -/
theorem mergeMetadata_survives (hbase : Storable base) (he : IsName e.1)
    (hvalue : e.2.isNull = false) (h : Survives base e) :
    mergeMetadata (entryList (e :: originals)) (.associativeArray (entryList base)) =
      mergeMetadata (entryList originals) (.associativeArray (entryList (base ++ [e]))) := by
  have hmissing := (hbase.get_isNull_iff he.1).mpr h.1
  have hadd : entryList base ++ [amfStr e.1, e.2] = entryList (base ++ [e]) := by
    simp [entryList]
  rw [mergeMetadata_cons he, if_pos hmissing, (amfDataClone_eq_iff e.2).mpr h.2,
    add_associativeArray _ _ hvalue, hadd]

/-- An entry whose name begins with one that is there is lost. -/
theorem mergeMetadata_hidden (he : IsName e.1) (horiginals : ∀ e ∈ originals, IsName e.1)
    (h : (amfObjectGetLoop e.1 (entryList base)).isNull ≠ true)
    (entries : List (Bytes × AmfData N)) :
    mergeMetadata (entryList (e :: originals)) (.associativeArray (entryList base)) ≠
      .associativeArray (entryList (base ++ e :: entries)) := by
  obtain ⟨ys, hmerge, hhead⟩ := mergeMetadata_appends originals (entryList base) horiginals
  rw [mergeMetadata_cons he, if_neg h, hmerge, entryList_append]
  intro heq
  obtain rfl := List.append_cancel_left (AmfData.associativeArray.inj heq)
  obtain ⟨name, hname, hfirst, hmissing⟩ := hhead (amfStr e.1) rfl
  obtain rfl := he.amfStr_inj hname hfirst
  exact h hmissing

/-- The value of an entry that cannot be cloned is missing, or another one. -/
theorem mergeMetadata_lost (he : IsName e.1) (horiginals : ∀ e ∈ originals, IsName e.1)
    (hmissing : (amfObjectGetLoop e.1 (entryList base)).isNull = true) (h : ¬ Cloneable e.2)
    (entries : List (Bytes × AmfData N)) :
    mergeMetadata (entryList (e :: originals)) (.associativeArray (entryList base)) ≠
      .associativeArray (entryList (base ++ e :: entries)) := by
  have hne : amfDataClone e.2 ≠ e.2 := fun heq => h ((amfDataClone_eq_iff e.2).mp heq)
  rw [mergeMetadata_cons he, if_pos hmissing, entryList_append, entryList_cons]
  cases hclone : (amfDataClone e.2).isNull with
  | true =>
    have hnull : amfDataClone e.2 = .nullPtr := by
      cases hc : amfDataClone e.2 with
      | nullPtr => rfl
      | _ =>
        rw [hc] at hclone
        cases hclone
    obtain ⟨ys, hmerge, hhead⟩ :=
      mergeMetadata_appends originals (entryList base ++ [amfStr e.1]) horiginals
    rw [hnull, add_associativeArray_nullPtr, hmerge, List.append_assoc]
    intro heq
    obtain rfl := (List.cons.inj (List.append_cancel_left (AmfData.associativeArray.inj heq))).2
    obtain ⟨name, -, hfirst, -⟩ := hhead e.2 rfl
    rw [hfirst] at hnull
    cases hnull
  | false =>
    obtain ⟨ys, hmerge, -⟩ := mergeMetadata_appends originals
      (entryList base ++ [amfStr e.1, amfDataClone e.2]) horiginals
    rw [add_associativeArray _ _ hclone, hmerge, List.append_assoc]
    intro heq
    have htail := (List.cons.inj (List.append_cancel_left (AmfData.associativeArray.inj heq))).2
    exact hne (List.cons.inj htail).1

end

/-- The merge adds the new entries as they are if and only if all of them survive. -/
theorem mergeMetadata_iff {base originals : List (Bytes × AmfData N)} (hbase : Storable base)
    (horiginals : Storable originals) :
    mergeMetadata (entryList originals) (.associativeArray (entryList base)) =
        .associativeArray (entryList (base ++ newEntries (base.map Prod.fst) originals)) ↔
      AllSurvive base originals := by
  induction originals generalizing base with
  | nil => simp [entryList, mergeMetadata, newEntries, allSurvive_nil]
  | cons e originals ih =>
    obtain ⟨⟨he, hvalue⟩, horiginals⟩ := List.forall_mem_cons.mp horiginals
    have hnames : ∀ e ∈ originals, IsName e.1 := fun e he => (horiginals e he).1
    by_cases hmem : e.1 ∈ base.map Prod.fst
    · rw [mergeMetadata_present hbase he hmem, allSurvive_cons_of_mem hmem, newEntries, if_pos hmem]
      exact ih hbase horiginals
    rw [allSurvive_cons_of_not_mem hmem, newEntries, if_neg hmem]
    by_cases hmissing : (amfObjectGetLoop e.1 (entryList base)).isNull = true
    · by_cases hclone : Cloneable e.2
      · have hsurvives : Survives base e := ⟨(hbase.get_isNull_iff he.1).mp hmissing, hclone⟩
        have hih := ih (hbase.concat ⟨he, hvalue⟩) horiginals
        rw [List.map_append, List.map_singleton, List.append_assoc, List.singleton_append] at hih
        rw [mergeMetadata_survives hbase he hvalue hsurvives, hih]
        exact ⟨fun h => ⟨hsurvives, h⟩, fun h => h.2⟩
      · exact ⟨fun h => absurd h (mergeMetadata_lost he hnames hmissing hclone _),
          fun h => absurd h.1.2 hclone⟩
    · exact ⟨fun h => absurd h (mergeMetadata_hidden he hnames hmissing _),
        fun h => absurd ((hbase.get_isNull_iff he.1).mpr h.1.1) hmissing⟩

/-! ## The intended merge -/

/-- An entry holds a pair given on the command line. -/
def Given (pair : Bytes × Bytes) (e : Bytes × AmfData N) : Prop :=
  e.1 = pair.1 ∧ ∃ s, e.2 = .string s ∧ s.bytes = pair.2

/-- A list holds, in order, the added pairs, the computed entries, and the original entries whose
name is none of the earlier ones. -/
def IsMerge (pairs : List (Bytes × Bytes)) (computed originals : List (Bytes × AmfData N))
    (list : List (AmfData N)) : Prop :=
  ∃ added, List.Forall₂ Given pairs added ∧
    Alternates list (added ++ computed ++ newEntries ((added ++ computed).map Prod.fst) originals)

/-- The pairs fit in strings, and the new original entries survive. -/
structure Mergeable (pairs : List (Bytes × Bytes)) (computed originals : List (Bytes × AmfData N)) :
    Prop where
  short : ∀ pair ∈ pairs, pair.1.length < 2 ^ 16 ∧ pair.2.length < 2 ^ 16
  survive : AllSurvive (pairs.map pairEntry ++ computed) originals

theorem given_pairEntry {pair : Bytes × Bytes} (h : pair.2.length < 2 ^ 16) :
    Given pair (pairEntry pair : Bytes × AmfData N) :=
  ⟨rfl, ⟨pair.2, h⟩, amfStr_of_length_lt h, rfl⟩

theorem Given.eq {pair : Bytes × Bytes} {e : Bytes × AmfData N} (h : Given pair e) :
    e = pairEntry pair := by
  obtain ⟨hname, s, hvalue, hbytes⟩ := h
  exact Prod.ext hname (by rw [hvalue, pairEntry, ← hbytes, amfStr_bytes])

theorem Given.value_lt {pair : Bytes × Bytes} {e : Bytes × AmfData N} (h : Given pair e) :
    pair.2.length < 2 ^ 16 := by
  obtain ⟨-, s, -, hbytes⟩ := h
  exact hbytes ▸ s.size_lt

/-- Entries that hold the pairs are those that the program makes of them. -/
theorem eq_of_given {pairs : List (Bytes × Bytes)} {added : List (Bytes × AmfData N)}
    (h : List.Forall₂ Given pairs added) :
    added = pairs.map pairEntry ∧ ∀ pair ∈ pairs, pair.2.length < 2 ^ 16 := by
  induction h with
  | nil => exact ⟨rfl, by simp⟩
  | cons hgiven _ ih =>
    rw [List.map_cons, List.forall_mem_cons, ← ih.1, ← hgiven.eq]
    exact ⟨rfl, hgiven.value_lt, ih.2⟩

theorem newEntries_subset (names : List Bytes) (originals : List (Bytes × AmfData N)) :
    newEntries names originals ⊆ originals := by
  induction originals generalizing names with
  | nil => exact List.Subset.refl _
  | cons e originals ih =>
    rw [newEntries]
    split
    · exact List.subset_cons_of_subset _ (ih _)
    · exact List.cons_subset_cons _ (ih _)

section

variable {pairs : List (Bytes × Bytes)} {computed originals : List (Bytes × AmfData N)}

theorem storable_base (hpairs : ∀ pair ∈ pairs, NulFree pair.1)
    (hshort : ∀ pair ∈ pairs, pair.1.length < 2 ^ 16 ∧ pair.2.length < 2 ^ 16)
    (hcomputed : Storable computed) : Storable (pairs.map pairEntry ++ computed) := by
  intro e he
  rcases List.mem_append.mp he with he | he
  · obtain ⟨pair, hpair, rfl⟩ := List.mem_map.mp he
    exact ⟨⟨hpairs pair hpair, (hshort pair hpair).1⟩, rfl⟩
  · exact hcomputed e he

/-- The merge of the program is the intended one if and only if it is possible. -/
theorem isMerge_iff (hpairs : ∀ pair ∈ pairs, NulFree pair.1) (hcomputed : Storable computed)
    (horiginals : Storable originals) :
    IsMerge pairs computed originals
        (mergeMetadata (entryList originals)
          (.associativeArray (entryList (pairs.map pairEntry ++ computed)))).listData ↔
      Mergeable pairs computed originals := by
  obtain ⟨ys, hmerge, -⟩ := mergeMetadata_appends originals
    (entryList (pairs.map pairEntry ++ computed)) fun e he => (horiginals e he).1
  constructor
  · rintro ⟨added, hgiven, halternates⟩
    obtain ⟨rfl, hvalues⟩ := eq_of_given hgiven
    have hshort : ∀ pair ∈ pairs, pair.1.length < 2 ^ 16 ∧ pair.2.length < 2 ^ 16 :=
      fun pair hpair => by
        refine ⟨halternates.short (pairEntry pair) ?_, hvalues pair hpair⟩
        exact List.mem_append_left _ (List.mem_append_left _ (List.mem_map_of_mem hpair))
    have htree := halternates.eq
    rw [hmerge] at htree
    refine ⟨hshort, (mergeMetadata_iff (storable_base hpairs hshort hcomputed) horiginals).mp ?_⟩
    exact hmerge.trans (congrArg AmfData.associativeArray htree)
  · intro h
    have hbase := storable_base hpairs h.short hcomputed
    have htree := (mergeMetadata_iff hbase horiginals).mpr h.survive
    refine ⟨pairs.map pairEntry, ?_, ?_, ?_⟩
    · rw [List.forall₂_map_right_iff, List.forall₂_same]
      exact fun pair hpair => given_pairEntry (h.short pair hpair).2
    · rw [htree]
      rfl
    · intro e he
      rcases List.mem_append.mp he with he | he
      · exact (hbase e he).1.2
      · exact (horiginals e (newEntries_subset _ _ he)).1.2

end

/-! ## The tree of the computed metadata -/

section

variable [Number64 N] (env : Environment) (opts : FlvmetaOpts N) (info : FlvInfo N)
  (late : LateNumbers N)

omit [Number64 N] in
theorem isName_entryNames : ∀ name ∈ entryNames, IsName name := by
  have hnames : ∀ name ∈ entryNames, NulFree name := by decide +kernel
  exact fun name h => ⟨hnames name h, length_entryNames name h⟩

theorem storable_computedEntries : Storable (computedEntries env opts info late) := fun e he =>
  ⟨isName_entryNames _ (mem_entryNames env opts info late
      (computedEntries_subset env opts info late he)),
    isNull_computedEntries env opts info late e he⟩

/-- With the original metadata preserved, the tree is the merge behind the added pairs and the
computed entries. -/
theorem buildOnMetadata_preserved {args : List Bytes} {pairs : List (Bytes × Bytes)}
    (hargs : parseAdds .nullPtr args = some opts.metadata)
    (hpairs : args.mapM splitArgument = some pairs) (hpreserve : opts.preserveMetadata = true) :
    buildOnMetadata env opts info late = mergeMetadata info.originalOnMetadata.listData
      (.associativeArray (entryList (pairs.map pairEntry ++
        computedEntries env opts info late))) := by
  obtain ⟨pairs', hpairs', hmetadata⟩ :=
    parseAdds_eq (show _ = AmfData.associativeArray (entryList []) from rfl) hargs
  obtain rfl : pairs = pairs' := Option.some.inj (hpairs.symm.trans hpairs')
  rw [List.nil_append] at hmetadata
  rw [buildOnMetadata, hmetadata, hpreserve,
    addEntries_associativeArray _ (isNull_computedEntries env opts info late), entryList_append]
  rfl

end

/-! ## What the first pass gathers -/

/-- The original metadata are absent or a sound tree, and every keyframe of the index has a time and
a position. -/
structure SoundInfo (info : FlvInfo N) : Prop where
  original : info.originalOnMetadata = .nullPtr ∨ SoundTree info.originalOnMetadata
  indexed : info.times.length = info.filepositions.length

theorem soundInfo_init (header : FlvHeader) : SoundInfo (FlvInfo.init header : FlvInfo N) :=
  ⟨Or.inl rfl, rfl⟩

/-- Other information with the same original metadata and index. -/
theorem SoundInfo.of_eq {info info' : FlvInfo N} (h : SoundInfo info)
    (horiginal : info'.originalOnMetadata = info.originalOnMetadata)
    (htimes : info'.times = info.times) (hpositions : info'.filepositions = info.filepositions) :
    SoundInfo info' :=
  ⟨horiginal ▸ h.original, by rw [htimes, hpositions, h.indexed]⟩

theorem SoundInfo.infoTimestamp {st : InfoState N} (h : SoundInfo st.info) (opts : FlvmetaOpts N)
    (tag : FlvTag) : SoundInfo (infoTimestamp opts tag st).2.info := by
  unfold FlvMeta.infoTimestamp
  dsimp only
  refine h.of_eq ?_ ?_ ?_ <;> split <;> split <;> rfl

theorem SoundInfo.infoMetadataName {info : FlvInfo N} (h : SoundInfo info) (opts : FlvmetaOpts N)
    (offset bodyLength : Nat) (name : AmfData N) {data : AmfData N}
    (hdata : amfDataGetErrorCode data = .ok → SoundTree data) :
    SoundInfo (infoMetadataName opts offset bodyLength name data info) := by
  unfold FlvMeta.infoMetadataName countMeta
  split
  · split
    · refine ⟨?_, h.indexed⟩
      dsimp only
      split
      · split
        · exact Or.inr ⟨linked _, trivial⟩
        · rename_i hok
          exact Or.inr (hdata (Classical.not_not.mp fun hne => hok (Or.inl hne)))
      · exact h.original
    · split <;> exact h.of_eq rfl rfl rfl
  · exact h.of_eq rfl rfl rfl

section

variable [Number64 N] {opts : FlvmetaOpts N}

theorem SoundInfo.afterVideo {info : FlvInfo N} (h : SoundInfo info) (opts : FlvmetaOpts N)
    (offset bodyLength timestamp : Nat) (vt : FlvVideoTag) (width height : Nat) :
    SoundInfo (afterVideo opts offset bodyLength timestamp vt width height info) := by
  obtain ⟨_, _, _, _, _, _, _, hframe⟩ :=
    afterVideo_frame opts offset bodyLength timestamp vt width height info
  rw [hframe]
  rcases infoKeyframe_cases opts offset timestamp vt info with ⟨-, -, _, hkey⟩ | ⟨-, _, hkey⟩
  · rw [hkey]
    refine ⟨h.original, ?_⟩
    simp [h.indexed]
  · rw [hkey]
    exact h.of_eq rfl rfl rfl

/-- Every turn keeps it, whatever the file holds. -/
theorem infoInvariant_soundInfo (opts : FlvmetaOpts N) (content : Bytes) :
    InfoInvariant opts content fun _ st => SoundInfo st.info where
  init := soundInfo_init
  step := by
    intro _ q st st' houtcome hinfo
    have hstamped := hinfo.infoTimestamp opts (flvTagOfBytes (content.drop q))
    cases houtcome with
    | emptyScript =>
      have hnull : amfDataGetErrorCode (.nullPtr : AmfData N) = .ok →
          SoundTree (.nullPtr : AmfData N) := by
        simp [amfDataGetErrorCode]
      exact hstamped.infoMetadataName opts q 0 .nullPtr hnull
    | @script result stream' htype hne hread =>
      refine hstamped.infoMetadataName opts q _ result.name fun hok => ?_
      have hdata := flvReadMetadata_data (N := N) (tagStream content q)
      rw [hread] at hdata
      rcases hdata with ⟨-, hsound⟩ | ⟨-, hbad⟩
      · exact hsound
      · exact absurd hok hbad
    | emptyVideo => exact hstamped.of_eq rfl rfl rfl
    | video => exact hstamped.afterVideo ..
    | emptyAudio => exact hstamped.of_eq rfl rfl rfl
    | @audio audioTag =>
      obtain ⟨_, _, _, _, _, _, _, _, hframe⟩ := afterAudio_frame
        (flvTagGetBodyLength (flvTagOfBytes (content.drop q)))
        (infoTimestamp opts (flvTagOfBytes (content.drop q)) st).1 audioTag
        (infoTimestamp opts (flvTagOfBytes (content.drop q)) st).2.info
      dsimp only
      rw [hframe]
      exact hstamped.of_eq rfl rfl rfl
    | unknown => exact hstamped.of_eq rfl rfl rfl

/-- The information of a first pass that succeeds, on any file. -/
theorem soundInfo_getFlvInfo {content : Bytes} {info : FlvInfo N} {stream : FlvStream}
    (h : getFlvInfo opts (flvOpen content) = (.ok info, stream)) : SoundInfo info := by
  obtain ⟨st, rfl, hsound⟩ := (infoInvariant_soundInfo opts content).result h
  exact hsound

end

end FlvMeta
