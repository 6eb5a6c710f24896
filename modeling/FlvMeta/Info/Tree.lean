import FlvMeta.Amf.RoundTrip
import FlvMeta.Info.Compute

/-!
# The tree of the computed metadata

The positions of the keyframes depend on the size of the tree that holds them, but this size
depends only on their number (`amfDataSize_buildOnMetadata`): with its numbers forgotten the tree
is the same for all positions. Unless the original metadata are preserved, the entries of the tree
are the pairs given on the command line, whose values are strings, and the computed ones
(`buildOnMetadata_eq`), so a name and a type determine a computed value (`HasValue.eq`).
-/

namespace FlvMeta

variable {M N : Type}

/-! ## Numbers forgotten -/

/-- A value with its numbers forgotten. -/
def AmfData.shape (data : AmfData N) : AmfData Unit := data.mapNumbers fun _ => ()

theorem mapNumbersList_eq_map (f : M → N) (list : List (AmfData M)) :
    mapNumbersList f list = list.map (AmfData.mapNumbers f) := by
  induction list with
  | nil => rfl
  | cons data list ih => rw [mapNumbersList, ih, List.map_cons]

theorem listData_mapNumbers (f : M → N) (data : AmfData M) :
    (data.mapNumbers f).listData = data.listData.map (AmfData.mapNumbers f) := by
  rw [← mapNumbersList_eq_map]
  cases data <;> rfl

theorem withListData_mapNumbers (f : M → N) (data : AmfData M) (list : List (AmfData M)) :
    (data.withListData list).mapNumbers f =
      (data.mapNumbers f).withListData (list.map (AmfData.mapNumbers f)) := by
  rw [← mapNumbersList_eq_map]
  cases data <;> rfl

theorem add_mapNumbers (f : M → N) (data element : AmfData M) (name : Bytes) :
    (data.add name element).mapNumbers f = (data.mapNumbers f).add name (element.mapNumbers f) := by
  have hname : (amfStr name : AmfData M).mapNumbers f = amfStr name := rfl
  unfold AmfData.add amfObjectAdd
  simp only [isNull_mapNumbers, amfListPush, amfListPop, isNull_amfStr, Bool.false_eq_true,
    if_false, listData_mapNumbers]
  by_cases hdata : data.isNull
  · simp [hdata]
  · by_cases helement : element.isNull
    · simp [hdata, helement, withListData_mapNumbers, hname]
    · simp [hdata, helement, withListData_mapNumbers, hname]

theorem amfStringGetBytes_mapNumbers (f : M → N) (data : AmfData M) :
    amfStringGetBytes (data.mapNumbers f) = amfStringGetBytes data := by
  rw [amfStringGetBytes, stringData_mapNumbers, amfStringGetBytes]

theorem amfStringGetSize_mapNumbers (f : M → N) (data : AmfData M) :
    amfStringGetSize (data.mapNumbers f) = amfStringGetSize data := by
  rw [amfStringGetSize, stringData_mapNumbers, amfStringGetSize]

theorem amfObjectGetLoop_mapNumbers (f : M → N) (name : Bytes) (list : List (AmfData M)) :
    amfObjectGetLoop name (list.map (AmfData.mapNumbers f)) =
      (amfObjectGetLoop name list).mapNumbers f := by
  induction list using amfObjectGetLoop.induct name with
  | case1 => rfl
  | case2 node => rfl
  | case3 node element rest hmatch =>
    simp [amfObjectGetLoop, amfStringGetBytes_mapNumbers, amfStringGetSize_mapNumbers, hmatch]
  | case4 node element rest hmatch ih =>
    simp [amfObjectGetLoop, amfStringGetBytes_mapNumbers, amfStringGetSize_mapNumbers, hmatch, ih]

theorem amfObjectGet_mapNumbers (f : M → N) (data : AmfData M) (name : Bytes) :
    amfObjectGet (data.mapNumbers f) name = (amfObjectGet data name).mapNumbers f := by
  rw [amfObjectGet, listData_mapNumbers, amfObjectGetLoop_mapNumbers, amfObjectGet]

/-- Whether a name is found does not depend on the numbers. -/
theorem amfObjectGet_isNull_of_shape {data data' : AmfData N} (h : data.shape = data'.shape)
    (name : Bytes) : (amfObjectGet data name).isNull = (amfObjectGet data' name).isNull := by
  have hget := congrArg (fun d => (amfObjectGet d name).isNull) h
  simpa only [AmfData.shape, amfObjectGet_mapNumbers, isNull_mapNumbers] using hget

theorem add_shape {data data' element element' : AmfData N} (h : data.shape = data'.shape)
    (he : element.shape = element'.shape) (name : Bytes) :
    (data.add name element).shape = (data'.add name element').shape := by
  unfold AmfData.shape at *
  rw [add_mapNumbers, add_mapNumbers, h, he]

/-- Entries with the same name and values of the same shape. -/
def SameShape (e e' : Bytes × AmfData N) : Prop := e.1 = e'.1 ∧ e.2.shape = e'.2.shape

theorem SameShape.refl (e : Bytes × AmfData N) : SameShape e e := ⟨rfl, rfl⟩

theorem addEntries_shape {entries entries' : List (Bytes × AmfData N)}
    (h : List.Forall₂ SameShape entries entries')
    {data data' : AmfData N} (hdata : data.shape = data'.shape) :
    (addEntries data entries).shape = (addEntries data' entries').shape := by
  induction h generalizing data data' with
  | nil => exact hdata
  | @cons e e' entries entries' hentry _ ih =>
    have hadd : (data.add e.1 e.2).shape = (data'.add e'.1 e'.2).shape := by
      rw [hentry.1]
      exact add_shape hdata hentry.2 _
    exact ih hadd

/-- Merging the same metadata into trees of the same shape gives trees of the same shape. -/
theorem mergeMetadata_shape : ∀ (list : List (AmfData N)) {data data' : AmfData N},
    data.shape = data'.shape →
    (mergeMetadata list data).shape = (mergeMetadata list data').shape
  | [], _, _, h => h
  | [_], _, _, h => by
    simp only [mergeMetadata, amfObjectGet_isNull_of_shape h]
    split
    · exact add_shape h rfl _
    · exact h
  | _ :: _ :: rest, _, _, h => by
    simp only [mergeMetadata, amfObjectGet_isNull_of_shape h]
    split
    · exact mergeMetadata_shape rest (add_shape h rfl _)
    · exact mergeMetadata_shape rest h

section

variable [Number64 N]

omit [Number64 N] in
theorem keyframes_shape (times : List N) {filepositions filepositions' : List N}
    (h : filepositions.length = filepositions'.length) :
    (keyframes times filepositions).shape = (keyframes times filepositions').shape := by
  have harray : (AmfData.array (filepositions.map .number)).shape =
      (AmfData.array (filepositions'.map .number)).shape := by
    simp only [AmfData.shape, AmfData.mapNumbers, mapNumbersList_eq_map, List.map_map]
    have hconst : ∀ l : List N, l.map (AmfData.mapNumbers (fun _ => ()) ∘ AmfData.number) =
        List.replicate l.length (.number ()) := fun l => by
      rw [← List.map_const']
      rfl
    rw [hconst, hconst, h]
  exact add_shape rfl harray _

/-- The entries with other late numbers have the same names and values of the same shapes. -/
theorem computedEntries_shape (env : Environment) (opts : FlvmetaOpts N) (info : FlvInfo N)
    {late late' : LateNumbers N} (h : late.filepositions.length = late'.filepositions.length) :
    List.Forall₂ SameShape (computedEntries env opts info late)
      (computedEntries env opts info late') := by
  have hgroups : List.Forall₂ (fun group group' : Bool × List (Bytes × AmfData N) =>
      group.1 = group'.1 ∧ List.Forall₂ SameShape group.2 group'.2)
      (entryGroups env opts info late) (entryGroups env opts info late') := by
    have hnumber : ∀ x y : N, (AmfData.number x).shape = (AmfData.number y).shape :=
      fun _ _ => rfl
    have hkeyframes := keyframes_shape info.times h
    simp only [entryGroups, numberEntry, List.forall₂_cons, List.forall₂_nil_left_iff, SameShape,
      hnumber late.filesize late'.filesize, hnumber late.datasize late'.datasize, hkeyframes,
      and_self]
  have hselect : ∀ {group group' : Bool × List (Bytes × AmfData N)}, group.1 = group'.1 →
      List.Forall₂ SameShape group.2 group'.2 →
      List.Forall₂ SameShape (if group.1 then group.2 else [])
        (if group'.1 then group'.2 else []) :=
    fun {group group'} hcond hentries => by
      rw [hcond]
      split
      · exact hentries
      · exact .nil
  exact List.rel_flatMap hgroups fun group group' hgroup => hselect hgroup.1 hgroup.2

/-- The size of the tree does not depend on the late numbers. -/
theorem amfDataSize_buildOnMetadata (env : Environment) (opts : FlvmetaOpts N) (info : FlvInfo N)
    {late late' : LateNumbers N} (h : late.filepositions.length = late'.filepositions.length) :
    amfDataSize (buildOnMetadata env opts info late) =
      amfDataSize (buildOnMetadata env opts info late') := by
  have hshape : (buildOnMetadata env opts info late).shape =
      (buildOnMetadata env opts info late').shape := by
    have hentries : ∀ data : AmfData N,
        (addEntries data (computedEntries env opts info late)).shape =
          (addEntries data (computedEntries env opts info late')).shape := fun data =>
      addEntries_shape (computedEntries_shape env opts info h) rfl
    unfold buildOnMetadata
    dsimp only
    split
    · exact mergeMetadata_shape _ (hentries _)
    · exact hentries _
  have hsize := congrArg amfDataSize hshape
  simpa only [AmfData.shape, amfDataSize_mapNumbers] using hsize

end

/-! ## The late numbers -/

section

variable [Number64 N]

/-- The late numbers for a tree of a given size. -/
def lateNumbers (opts : FlvmetaOpts N) (info : FlvInfo N) (size : Nat) : LateNumbers N where
  filesize := number (flvHeaderSize + info.totalPrevTagsSize + info.videoDataSize +
    info.audioDataSize + info.metaDataSize + newOnMetadataSize 13 size +
    (if countsOnLastSecond opts info then onLastSecondTagSize 23 % 2 ^ 32 else 0) : Nat)
  datasize := number (info.metaDataSize + flvTagSize + (13 + size) % 2 ^ 32 +
    (if countsOnLastSecond opts info then 23 + flvTagSize else 0) : Nat)
  filepositions := List.zipWith (newFileposition opts info (newOnMetadataSize 13 size) 23)
    info.times info.filepositions

/-- The tree holds the late numbers for its own size. -/
theorem onMetadata_eq (env : Environment) (opts : FlvmetaOpts N) {info : FlvInfo N}
    (h : info.times.length = info.filepositions.length) :
    (computeMetadata env opts info).onMetadata = buildOnMetadata env opts info
      (lateNumbers opts info (amfDataSize (computeMetadata env opts info).onMetadata)) := by
  have hzip : ∀ f : N → N → N,
      (List.zipWith f info.times info.filepositions).length = info.filepositions.length :=
    fun f => by rw [List.length_zipWith, h, Nat.min_self]
  have hsize : ∀ late : LateNumbers N, late.filepositions.length = info.filepositions.length →
      amfDataSize (buildOnMetadata env opts info late) =
        amfDataSize (computeMetadata env opts info).onMetadata := fun late hlate =>
    amfDataSize_buildOnMetadata env opts info (hlate.trans (hzip _).symm)
  have hfirst := hsize ⟨number 0, number 0, info.filepositions⟩ rfl
  have hsecond := fun f => hsize ⟨number 0, number 0, List.zipWith f info.times
    info.filepositions⟩ (hzip f)
  generalize amfDataSize (computeMetadata env opts info).onMetadata = size at hfirst hsecond ⊢
  have hname : amfDataSize (amfStr (ascii "onMetaData") : AmfData N) = 13 := rfl
  have hlast : (amfDataSize (amfStr (ascii "onLastSecond") : AmfData N) +
      amfDataSize (.associativeArray [] : AmfData N)) % 2 ^ 32 = 23 := rfl
  simp only [computeMetadata, hfirst, hsecond, hname, hlast]
  rfl

end

/-! ## Metadata given on the command line -/

/-- The name and the value in an argument of the form `NAME=VALUE`. -/
def splitArgument (optarg : Bytes) : Option (Bytes × Bytes) :=
  match optarg.dropWhile (· != 0x3D) with
  | [] => none
  | _ :: value => some (optarg.takeWhile (· != 0x3D), value)

/-- A pair added to the metadata, which are created for the first one. -/
def addPair (metadata : AmfData N) (pair : Bytes × Bytes) : AmfData N :=
  (if metadata.isNull then .associativeArray [] else metadata).add pair.1 (amfStr pair.2)

/-- The `-a` cases of `parse_command_line`; `none` when it rejects an argument. -/
def parseAdds : AmfData N → List Bytes → Option (AmfData N)
  | metadata, [] => some metadata
  | metadata, optarg :: args =>
    match splitArgument optarg with
    | none => none
    | some pair => parseAdds (addPair metadata pair) args

/-! ## Lists of entries -/

/-- The entry that an added pair makes. -/
def pairEntry (pair : Bytes × Bytes) : Bytes × AmfData N := (pair.1, amfStr pair.2)

/-- The metadata from the command line are absent, or an associative array of the added pairs. -/
theorem parseAdds_eq {args : List Bytes} {metadata metadata' : AmfData N}
    {entries : List (Bytes × AmfData N)}
    (hstart : (if metadata.isNull then .associativeArray [] else metadata) =
      AmfData.associativeArray (entryList entries))
    (h : parseAdds metadata args = some metadata') :
    ∃ pairs, args.mapM splitArgument = some pairs ∧
      (if metadata'.isNull then .associativeArray [] else metadata') =
        AmfData.associativeArray (entryList (entries ++ pairs.map pairEntry)) := by
  induction args generalizing metadata entries with
  | nil =>
    cases h
    exact ⟨[], rfl, by simpa using hstart⟩
  | cons optarg args ih =>
    rw [parseAdds] at h
    cases hsplit : splitArgument optarg with
    | none =>
      rw [hsplit] at h
      cases h
    | some pair =>
      rw [hsplit] at h
      have hadd : addPair metadata pair =
          .associativeArray (entryList (entries ++ [pairEntry pair])) := by
        rw [addPair, hstart, add_associativeArray _ _ rfl]
        simp [entryList, pairEntry]
      have hnext : (if (addPair metadata pair).isNull then .associativeArray []
          else addPair metadata pair) =
            .associativeArray (entryList (entries ++ [pairEntry pair])) := by
        rw [hadd]
        rfl
      obtain ⟨pairs, hpairs, hmetadata⟩ := ih hnext h
      refine ⟨pair :: pairs, ?_, ?_⟩
      · simp [List.mapM_cons, hsplit, hpairs]
      · rw [hmetadata]
        simp

theorem amfPairsSize_entryList (entries : List (Bytes × AmfData N)) :
    amfPairsSize (entryList entries) = (entries.map fun e =>
      2 + amfStringGetSize (amfStr e.1 : AmfData N) + amfDataSize e.2).sum := by
  induction entries with
  | nil => rfl
  | cons e entries ih =>
    rw [entryList_cons, amfPairsSize, ih, List.map_cons, List.sum_cons]

/-- The entries of a list. -/
def entriesOf : List (AmfData N) → List (Bytes × AmfData N)
  | name :: value :: rest => (amfStringGetBytes name, value) :: entriesOf rest
  | _ => []

theorem entriesOf_entryList (entries : List (Bytes × AmfData N)) :
    entriesOf (entryList entries) =
      entries.map fun e => (amfStringGetBytes (amfStr e.1 : AmfData N), e.2) := by
  induction entries with
  | nil => rfl
  | cons e entries ih =>
    rw [entryList_cons, entriesOf, ih, List.map_cons]

/-- A tree has a value of a type under a name. -/
def HasValue (type : AmfType) (name : Bytes) (data value : AmfData N) : Prop :=
  (name, value) ∈ entriesOf data.listData ∧ amfDataGetType value = type.code

/-- A tree has a value of a type under a name, and no other one. -/
def OnlyValue (type : AmfType) (name : Bytes) (data value : AmfData N) : Prop :=
  ∀ v, HasValue type name data v ↔ v = value

/-! ## The entries of the tree -/

section

variable [Number64 N] (env : Environment) (opts : FlvmetaOpts N) (info : FlvInfo N)
  (late : LateNumbers N)

/-- The entries of all groups. -/
def possibleEntries : List (Bytes × AmfData N) :=
  (entryGroups env opts info late).flatMap Prod.snd

/-- The names of the entries. -/
def entryNames : List Bytes :=
  ["hasMetadata", "hasVideo", "hasAudio", "duration", "lasttimestamp", "lastkeyframetimestamp",
    "width", "height", "videodatarate", "framerate", "audiodatarate", "audiosamplerate",
    "audiosamplesize", "stereo", "filesize", "videosize", "audiosize", "datasize",
    "metadatacreator", "metadatadate", "audiocodecid", "videocodecid", "audiodelay",
    "canSeekToEnd", "hasCuePoints", "cuePoints", "hasKeyframes", "keyframes"].map ascii

theorem names_possibleEntries :
    (possibleEntries env opts info late).map Prod.fst = entryNames := rfl

omit [Number64 N] in
theorem nodup_entryNames : entryNames.Nodup := by decide +kernel

omit [Number64 N] in
theorem length_entryNames : ∀ name ∈ entryNames, name.length < 2 ^ 16 := by decide +kernel

theorem computedEntries_subset :
    computedEntries env opts info late ⊆ possibleEntries env opts info late := by
  intro e he
  obtain ⟨group, hgroup, hmem⟩ := List.mem_flatMap.mp he
  split at hmem
  · exact List.mem_flatMap.mpr ⟨group, hgroup, hmem⟩
  · cases hmem

/-- Entries of the same name are the same. -/
theorem possibleEntries_inj {e e' : Bytes × AmfData N}
    (he : e ∈ possibleEntries env opts info late) (he' : e' ∈ possibleEntries env opts info late)
    (h : e.1 = e'.1) : e = e' := by
  have hnodup : ((possibleEntries env opts info late).map Prod.fst).Nodup := by
    rw [names_possibleEntries]
    exact nodup_entryNames
  exact List.inj_on_of_nodup_map hnodup he he' h

theorem isNull_computedEntries :
    ∀ e ∈ computedEntries env opts info late, e.2.isNull = false := by
  have hall : (possibleEntries env opts info late).all (fun e => !e.2.isNull) = true := rfl
  intro e he
  simpa using List.all_eq_true.mp hall e (computedEntries_subset env opts info late he)

theorem buildOnMetadata_of_metadata {entries : List (Bytes × AmfData N)}
    (hmetadata : (if opts.metadata.isNull then .associativeArray [] else opts.metadata) =
      AmfData.associativeArray (entryList entries)) (hpreserve : opts.preserveMetadata = false) :
    buildOnMetadata env opts info late =
      .associativeArray (entryList (entries ++ computedEntries env opts info late)) := by
  rw [buildOnMetadata, hpreserve, hmetadata,
    addEntries_associativeArray _ (isNull_computedEntries env opts info late)]
  simp [entryList]

/-- Without the original metadata, the tree has the added pairs and the computed entries. -/
theorem buildOnMetadata_eq {args : List Bytes}
    (hargs : parseAdds .nullPtr args = some opts.metadata)
    (hpreserve : opts.preserveMetadata = false) :
    ∃ pairs, args.mapM splitArgument = some pairs ∧ buildOnMetadata env opts info late =
      .associativeArray (entryList (pairs.map pairEntry ++
        computedEntries env opts info late)) := by
  obtain ⟨pairs, hpairs, hmetadata⟩ := parseAdds_eq
    (show _ = AmfData.associativeArray (entryList []) from rfl) hargs
  exact ⟨pairs, hpairs, buildOnMetadata_of_metadata env opts info late hmetadata hpreserve⟩

omit [Number64 N] in
theorem amfStringGetBytes_entryName {name : Bytes} (h : name ∈ entryNames) :
    amfStringGetBytes (amfStr name : AmfData N) = name := by
  rw [amfStr_of_length_lt (length_entryNames name h)]
  rfl

theorem mem_entryNames {e : Bytes × AmfData N} (he : e ∈ possibleEntries env opts info late) :
    e.1 ∈ entryNames := by
  rw [← names_possibleEntries env opts info late]
  exact List.mem_map_of_mem he

variable {env opts info late}

/-- The tree has the computed entries. -/
theorem hasValue_of_mem {args : List Bytes} (hargs : parseAdds .nullPtr args = some opts.metadata)
    (hpreserve : opts.preserveMetadata = false) {e : Bytes × AmfData N}
    (he : e ∈ computedEntries env opts info late) {type : AmfType}
    (htype : amfDataGetType e.2 = type.code) :
    HasValue type e.1 (buildOnMetadata env opts info late) e.2 := by
  obtain ⟨pairs, -, htree⟩ := buildOnMetadata_eq env opts info late hargs hpreserve
  have hname := mem_entryNames env opts info late (computedEntries_subset env opts info late he)
  refine ⟨?_, htype⟩
  rw [htree, AmfData.listData, entriesOf_entryList]
  refine List.mem_map.mpr ⟨e, List.mem_append_right _ he, ?_⟩
  rw [amfStringGetBytes_entryName hname]

/-- A value under the name of a computed entry is the value of this entry, or a string. -/
theorem HasValue.eq {args : List Bytes} (hargs : parseAdds .nullPtr args = some opts.metadata)
    (hpreserve : opts.preserveMetadata = false) {e : Bytes × AmfData N}
    (he : e ∈ possibleEntries env opts info late) {type : AmfType} {value : AmfData N}
    (h : HasValue type e.1 (buildOnMetadata env opts info late) value) (htype : type ≠ .string) :
    value = e.2 := by
  obtain ⟨pairs, -, htree⟩ := buildOnMetadata_eq env opts info late hargs hpreserve
  obtain ⟨hmem, hcode⟩ := h
  rw [htree, AmfData.listData, entriesOf_entryList] at hmem
  obtain ⟨e', he', heq⟩ := List.mem_map.mp hmem
  obtain ⟨hname, rfl⟩ := Prod.mk.inj heq
  rcases List.mem_append.mp he' with hpair | hcomputed
  · obtain ⟨pair, -, rfl⟩ := List.mem_map.mp hpair
    exact absurd (AmfType.code_inj (show type.code = AmfType.string.code from hcode.symm)) htype
  · have hpossible := computedEntries_subset env opts info late hcomputed
    rw [amfStringGetBytes_entryName (mem_entryNames env opts info late hpossible)] at hname
    rw [possibleEntries_inj env opts info late hpossible he hname]

/-- An entry of a group whose condition holds is computed. -/
theorem mem_computedEntries {i : Nat} {group : Bool × List (Bytes × AmfData N)}
    {e : Bytes × AmfData N} (hgroup : (entryGroups env opts info late)[i]? = some group)
    (hcond : group.1 = true) (he : e ∈ group.2) : e ∈ computedEntries env opts info late :=
  List.mem_flatMap.mpr ⟨group, List.mem_of_getElem? hgroup, by rwa [if_pos hcond]⟩

/-- A computed value that is not a string is the only one of its type and name. -/
theorem onlyValue_of_mem {args : List Bytes} (hargs : parseAdds .nullPtr args = some opts.metadata)
    (hpreserve : opts.preserveMetadata = false) {e : Bytes × AmfData N}
    (he : e ∈ computedEntries env opts info late) {type : AmfType}
    (htype : amfDataGetType e.2 = type.code) (hne : type ≠ .string) :
    OnlyValue type e.1 (buildOnMetadata env opts info late) e.2 := fun _ =>
  ⟨fun hv => hv.eq hargs hpreserve (computedEntries_subset env opts info late he) hne,
    fun heq => heq ▸ hasValue_of_mem hargs hpreserve he htype⟩

end

end FlvMeta
