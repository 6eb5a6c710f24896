import FlvMeta.Info.Merge
import FlvMeta.Update.Layout
import FlvMeta.Update.Written

/-!
# The preserved metadata in the output

The value of the written `onMetaData` tag is the image of the merged tree. Where the merge is the
intended one and the encoding can represent every entry, reading the value gives the merge back
(`preservedMetadata`). A null value in the original metadata is enough to make the written value
unreadable (`preservedMetadata_null`).
-/

namespace FlvMeta

open Endian Stdio

variable {N : Type}

/-! ## Trees that can be encoded -/

/-- An entry that the encoding can represent in an associative array. -/
def EntryEncodable (e : Bytes × AmfData N) : Prop := e.1 ≠ [] ∧ WellFormed e.2

theorem wellFormedPairs_entryList {entries : List (Bytes × AmfData N)} {nameOk : Bytes → Prop}
    (h : ∀ e ∈ entries, IsName e.1 ∧ nameOk e.1 ∧ WellFormed e.2) :
    WellFormedPairs nameOk (entryList entries) := by
  induction entries with
  | nil => exact trivial
  | cons e entries ih =>
    obtain ⟨⟨hname, hok, hvalue⟩, hentries⟩ := List.forall_mem_cons.mp h
    exact ⟨⟨_, amfStr_of_length_lt hname.2, hok⟩, hvalue, ih hentries⟩

theorem wellFormedElements_numbers (xs : List N) :
    WellFormedElements (xs.map AmfData.number) := by
  induction xs with
  | nil => exact trivial
  | cons x xs ih => exact ⟨trivial, ih⟩

theorem wellFormed_keyframes {times filepositions : List N} (htimes : times.length < 2 ^ 32)
    (hpositions : filepositions.length < 2 ^ 32) : WellFormed (keyframes times filepositions) := by
  have harray : ∀ {xs : List N}, xs.length < 2 ^ 32 → WellFormed (.array (xs.map AmfData.number)) :=
    fun {xs} h => ⟨by rwa [List.length_map], wellFormedElements_numbers xs⟩
  have hlist : keyframes times filepositions = .object (entryList [
      (ascii "times", .array (times.map .number)),
      (ascii "filepositions", .array (filepositions.map .number))]) := rfl
  have hnames : ∀ name ∈ [ascii "times", ascii "filepositions"],
      NulFree name ∧ name.length < 2 ^ 16 := by
    decide +kernel
  rw [hlist]
  refine wellFormedPairs_entryList ?_
  simp only [List.forall_mem_cons]
  have h₁ := hnames (ascii "times") (by simp)
  have h₂ := hnames (ascii "filepositions") (by simp)
  exact ⟨⟨h₁, h₁.1, harray htimes⟩, ⟨h₂, h₂.1, harray hpositions⟩, by simp⟩

theorem entryNames_ne_nil : ∀ name ∈ entryNames, name ≠ [] := by decide +kernel

section

variable [Number64 N] (env : Environment) (opts : FlvmetaOpts N) (info : FlvInfo N)
  (late : LateNumbers N)

theorem wellFormed_computedEntries (htimes : info.times.length < 2 ^ 32)
    (hpositions : late.filepositions.length < 2 ^ 32) :
    ∀ e ∈ computedEntries env opts info late, EntryEncodable e := by
  have hkeyframes := wellFormed_keyframes htimes hpositions
  have harray : WellFormed (.array [] : AmfData N) := ⟨by simp, trivial⟩
  have hall : ∀ e ∈ possibleEntries env opts info late, WellFormed e.2 := by
    have hflat : possibleEntries env opts info late =
      (entryGroups env opts info late).flatMap Prod.snd := rfl
    rw [hflat]
    simp only [entryGroups, List.flatMap_cons, List.flatMap_nil, List.cons_append, List.nil_append,
      List.forall_mem_cons, hkeyframes, harray, true_and]
    simp [numberEntry, booleanEntry, amfBooleanNew, amfStr, amfStringNew, WellFormed]
  intro e he
  have hpossible := computedEntries_subset env opts info late he
  exact ⟨entryNames_ne_nil _ (mem_entryNames env opts info late hpossible), hall e hpossible⟩

end

/-! ## The merge in the output -/

/-- The merge is possible, and the encoding can represent its entries. -/
structure Preservable (pairs : List (Bytes × Bytes))
    (computed originals : List (Bytes × AmfData N)) :
    Prop where
  merge : Mergeable pairs computed originals
  pairNames : ∀ pair ∈ pairs, pair.1 ≠ []
  encodable : ∀ e ∈ newEntries ((pairs.map pairEntry ++ computed).map Prod.fst) originals,
    EntryEncodable e

theorem Preservable.wellFormed {pairs : List (Bytes × Bytes)}
    {computed originals : List (Bytes × AmfData N)} (h : Preservable pairs computed originals)
    (hpairs : ∀ pair ∈ pairs, NulFree pair.1) (hcomputed : Storable computed)
    (hencodable : ∀ e ∈ computed, EntryEncodable e) (horiginals : Storable originals) :
    WellFormed (.associativeArray (entryList (pairs.map pairEntry ++ computed ++
      newEntries ((pairs.map pairEntry ++ computed).map Prod.fst) originals))) := by
  have hbase := storable_base hpairs h.merge.short hcomputed
  have key : ∀ {e : Bytes × AmfData N}, IsName e.1 → EntryEncodable e →
      IsName e.1 ∧ (NulFree e.1 ∧ e.1 ≠ []) ∧ WellFormed e.2 := fun hname he =>
    ⟨hname, ⟨hname.1, he.1⟩, he.2⟩
  refine wellFormedPairs_entryList fun e he => ?_
  rcases List.mem_append.mp he with he | he
  · refine key (hbase e he).1 ?_
    rcases List.mem_append.mp he with he | he
    · obtain ⟨pair, hpair, rfl⟩ := List.mem_map.mp he
      exact ⟨h.pairNames pair hpair, trivial⟩
    · exact hencodable e he
  · exact key (horiginals e (newEntries_subset _ _ he)).1 (h.encodable e he)

/-- The pairs of C strings are C strings. -/
theorem nulFree_splitArgument {args : List Bytes} {pairs : List (Bytes × Bytes)}
    (hargs : ∀ arg ∈ args, NulFree arg) (h : args.mapM splitArgument = some pairs) :
    ∀ pair ∈ pairs, NulFree pair.1 := by
  induction args generalizing pairs with
  | nil =>
    obtain rfl : [] = pairs := by simpa using h
    simp
  | cons arg args ih =>
    obtain ⟨harg, hargs⟩ := List.forall_mem_cons.mp hargs
    rw [List.mapM_cons] at h
    obtain ⟨pair, hpair, h⟩ := Option.bind_eq_some_iff.mp h
    obtain ⟨rest, hrest, h⟩ := Option.bind_eq_some_iff.mp h
    obtain rfl : pair :: rest = pairs := by simpa using h
    refine List.forall_mem_cons.mpr ⟨?_, ih hargs hrest⟩
    unfold splitArgument at hpair
    split at hpair
    · cases hpair
    · cases hpair
      exact fun b hb => harg b ((List.takeWhile_prefix _).subset hb)

section

variable [Number64 N]

/-- What is behind the name in the computed tag. -/
theorem rest_onMetadataPiece (env : Environment) (opts : FlvmetaOpts N) (info : FlvInfo N)
    {out : OutFile} {before after : Bytes} (h : out.written = before ++
      ((onMetadataPiece (computeMetadata env opts info)).bytes ++ after)) :
    ∃ rest, InFile.rest ⟨out.written, before.length + 24, false⟩ =
      amfDataImage (computeMetadata env opts info).onMetadata ++ rest := by
  have hname : (amfDataImage (computeMetadata env opts info).onMetadataName).length = 13 := by
    rw [amfDataImage_eq, length_amfBytes, amfDataSize_onMetadataName]
  have hhead : (onMetadataPiece (computeMetadata env opts info)).tag.bytes.length = 11 := by simp
  refine ⟨toBE 4 (flvTagSize + (onMetadataPiece (computeMetadata env opts info)).body.length) ++
    after, ?_⟩
  have hlength : (before ++ ((onMetadataPiece (computeMetadata env opts info)).tag.bytes ++
      amfDataImage (computeMetadata env opts info).onMetadataName)).length =
        before.length + 24 := by
    rw [List.length_append, List.length_append, hhead, hname]
  have hsplit :
    out.written = before ++ ((onMetadataPiece (computeMetadata env opts info)).tag.bytes ++
      amfDataImage (computeMetadata env opts info).onMetadataName) ++
        (amfDataImage (computeMetadata env opts info).onMetadata ++
          (toBE 4 (flvTagSize + (onMetadataPiece (computeMetadata env opts info)).body.length) ++
            after)) := by
    rw [h, Piece.bytes]
    simp [onMetadataPiece, scriptPiece]
  rw [InFile.rest, hsplit, ← hlength, List.drop_left]

variable [LawfulNumberImage N]

/-- The metadata written by an update that preserves the original metadata and succeeds. The merged
tree is the intended one if and only if the merge is possible. If moreover the encoding can
represent its entries and the second pass comes to the tag to be replaced, then the output holds the
computed tag, and its value is read as the intended merge. -/
theorem preservedMetadata (env : Environment) {opts : FlvmetaOpts N} {args : List Bytes}
    {pairs : List (Bytes × Bytes)} (hnulFree : ∀ arg ∈ args, NulFree arg)
    (hargs : parseAdds .nullPtr args = some opts.metadata)
    (hpairs : args.mapM splitArgument = some pairs) (hpreserve : opts.preserveMetadata = true)
    {files : UpdateFiles} {content : Bytes} (hinput : files.input = some content)
    {info : FlvInfo N} {stream : FlvStream}
    (hinfo : getFlvInfo opts (flvOpen content) = (.ok info, stream)) {list : List (AmfData N)}
    (horiginal : info.originalOnMetadata = .associativeArray list) {out : OutFile}
    (hupdate : updateMetadata env opts files = (.ok, some out)) :
    let metadata := computeMetadata env opts info
    let computed := computedEntries env opts info
      (lateNumbers opts info (amfDataSize metadata.onMetadata))
    let originals := entriesOf list
    (IsMerge pairs computed originals metadata.onMetadata.listData ↔
      Mergeable pairs computed originals) ∧
    (Preservable pairs computed originals → info.times.length < 2 ^ 32 →
      ComesBack info content →
      (onMetadataPiece metadata).bytes <:+: out.written ∧
      ∀ before after, out.written = before ++ ((onMetadataPiece metadata).bytes ++ after) →
        ∃ list', (amfDataFileRead ⟨out.written, before.length + 24, false⟩ :
            AmfData N × InFile).1 = .associativeArray list' ∧
          IsMerge pairs computed originals list') := by
  intro metadata computed originals
  have hsound := soundInfo_getFlvInfo hinfo
  have hnames := nulFree_splitArgument hnulFree hpairs
  have hcomputed : Storable computed := storable_computedEntries env opts info _
  -- the original entries
  obtain ⟨entries, rfl, hentries⟩ : ∃ entries, list = entryList entries ∧
      ∀ e ∈ entries, IsName e.1 ∧ SoundTree e.2 := by
    rcases hsound.original with hnull | htree
    · rw [horiginal] at hnull
      cases hnull
    · rw [horiginal] at htree
      exact htree.2.alternates
  have horiginals : originals = entries := by
    refine (entriesOf_entryList entries).trans ?_
    refine (List.map_congr_left fun e he => ?_).trans (List.map_id entries)
    exact Prod.ext ((hentries e he).1.bytes (N := N)) rfl
  have hstorable : Storable originals := by
    rw [horiginals]
    exact fun e he => ⟨(hentries e he).1, isNull_of_ok (hentries e he).2.errorCode⟩
  have htree : metadata.onMetadata = mergeMetadata (entryList originals)
      (.associativeArray (entryList (pairs.map pairEntry ++ computed))) := by
    rw [horiginals]
    refine (onMetadata_eq env opts hsound.indexed).trans ?_
    rw [buildOnMetadata_preserved env opts info _ hargs hpairs hpreserve, horiginal]
    rfl
  have hiff := isMerge_iff hnames hcomputed hstorable
  rw [← htree] at hiff
  refine ⟨hiff, fun hpreservable htimes hcomes => ?_⟩
  refine ⟨updateMetadata_holds hinput hinfo hcomes hupdate, fun before after hsplit => ?_⟩
  -- the value is well-formed, so it is read back
  have hpositions : (lateNumbers opts info (amfDataSize metadata.onMetadata)).filepositions.length <
      2 ^ 32 := by
    refine lt_of_le_of_lt ?_ htimes
    rw [lateNumbers, List.length_zipWith]
    exact Nat.min_le_left _ _
  have hwf := hpreservable.wellFormed hnames hcomputed
    (wellFormed_computedEntries env opts info _ htimes hpositions) hstorable
  have hmerged := htree.trans ((mergeMetadata_iff
    (storable_base hnames hpreservable.merge.short hcomputed) hstorable).mpr
      hpreservable.merge.survive)
  obtain ⟨rest, hrest⟩ := rest_onMetadataPiece env opts info hsplit
  have hread := amfDataFileRead_image (N := N) (hmerged ▸ hwf) hrest
  rw [mapNumbers_reload] at hread
  refine ⟨_, (congrArg Prod.fst hread).trans hmerged, ?_⟩
  have hlist := hiff.mpr hpreservable.merge
  rwa [hmerged] at hlist

end

/-! ## A file whose metadata has an author -/

/-- Numbers as the bit patterns of doubles, with the arithmetic of the host where the result is a
natural number below `2^53` or an argument is zero; other results are NaN. -/
@[reducible] def smallDoubles : Number64 UInt64 where
  ofInt n :=
    if n ≤ 0 then 0
    else
      let e := Nat.log2 n.toNat
      UInt64.ofNat ((1023 + e) * 2 ^ 52 + (n.toNat * 2 ^ (52 - e) - 2 ^ 52))
  add x y := if x = 0 then y else if y = 0 then x else 0x7FF8000000000000
  sub x y := if y = 0 then x else 0x7FF8000000000000
  mul x y := if x = 0 ∨ y = 0 then 0 else 0x7FF8000000000000
  div x y := if x = 0 ∧ y ≠ 0 then 0 else 0x7FF8000000000000
  le x y := decide (x ≤ y)

/-- A file of one `onMetaData` tag with one entry, whose value is given encoded. -/
def authorFile (value : Bytes) : Bytes :=
  [0x46, 0x4C, 0x56, 1, 4, 0, 0, 0, 9, 0, 0, 0, 0, 18, 0, 0, UInt8.ofNat (29 + value.length),
    0, 0, 0, 0, 0, 0, 0, 2, 0, 10] ++ ascii "onMetaData" ++ [8, 1, 0, 0, 0, 0, 6] ++
      ascii "author" ++ value ++ [0, 0, 9] ++ toBE 4 (40 + value.length)

def authorOptions : FlvmetaOpts UInt64 :=
  { (defaultOptions : FlvmetaOpts UInt64) with
    metadata := addPair .nullPtr (ascii "x", ascii "y")
    preserveMetadata := true }

/-- Metadata with an author, and perhaps a string as its value. -/
def isAuthor (string : Bool) : AmfData UInt64 → Bool
  | .associativeArray [.string name, .string _] => string && name.bytes == ascii "author"
  | .associativeArray [.string name, .null _] => !string && name.bytes == ascii "author"
  | _ => false

theorem of_isAuthor {data : AmfData UInt64} (h : isAuthor true data = true) :
    ∃ name value, data = .associativeArray [.string name, .string value] ∧
      name.bytes = ascii "author" := by
  unfold isAuthor at h
  split at h
  · exact ⟨_, _, rfl, by simpa using h⟩
  · simp at h
  · cases h

theorem preservable_author [Number64 UInt64] (env : Environment) (info : FlvInfo UInt64)
    (late : LateNumbers UInt64) (value : AmfString) :
    Preservable [(ascii "x", ascii "y")] (computedEntries env authorOptions info late)
      [(ascii "author", .string value)] := by
  have hnames : ∀ name ∈ ascii "x" :: entryNames, ¬ name <+: ascii "author" := by decide +kernel
  have hbase : ∀ e ∈ [(ascii "x", ascii "y")].map pairEntry ++
      computedEntries env authorOptions info late, ¬ e.1 <+: ascii "author" := by
    intro e he
    rcases List.mem_append.mp he with he | he
    · obtain rfl : e = pairEntry (ascii "x", ascii "y") := by simpa using he
      exact hnames _ List.mem_cons_self
    · refine hnames _ (List.mem_cons_of_mem _ ?_)
      exact mem_entryNames env authorOptions info late (computedEntries_subset _ _ _ _ he)
  have hnew : ascii "author" ∉ ([(ascii "x", ascii "y")].map pairEntry ++
      computedEntries env authorOptions info late).map Prod.fst := by
    intro h
    obtain ⟨e, he, hname⟩ := List.mem_map.mp h
    exact hbase e he (hname ▸ List.prefix_refl _)
  refine ⟨⟨by decide +kernel, ?_⟩, by decide +kernel, ?_⟩
  · rw [allSurvive_cons_of_not_mem hnew]
    exact ⟨⟨hbase, trivial⟩, allSurvive_nil _⟩
  · rw [newEntries, if_neg hnew]
    intro e he
    obtain rfl : e = (ascii "author", .string value) := by simpa [newEntries] using he
    exact ⟨by show ascii "author" ≠ []; decide +kernel, trivial⟩

/-- The author is a string. -/
theorem preservedMetadata_author :
    letI := smallDoubles
    letI env : Environment := ⟨[], 0⟩
    letI content := authorFile [2, 0, 1, 0x78]
    ∃ (info : FlvInfo UInt64) (stream : FlvStream) (out : OutFile) (value : AmfString),
      getFlvInfo authorOptions (flvOpen content) = (.ok info, stream) ∧
      updateMetadata env authorOptions ⟨some content, false, none, some ⟨none⟩⟩ =
        (.ok, some out) ∧
      letI metadata := computeMetadata env authorOptions info
      letI computed := computedEntries env authorOptions info
        (lateNumbers authorOptions info (amfDataSize metadata.onMetadata))
      (onMetadataPiece metadata).bytes <:+: out.written ∧
      ∀ before after, out.written = before ++ ((onMetadataPiece metadata).bytes ++ after) →
        ∃ list', (amfDataFileRead ⟨out.written, before.length + 24, false⟩ :
            AmfData UInt64 × InFile).1 = .associativeArray list' ∧
          IsMerge [(ascii "x", ascii "y")] computed [(ascii "author", .string value)] list' := by
  let := smallDoubles
  let env : Environment := ⟨[], 0⟩
  have hpass : infoTest authorOptions (authorFile [2, 0, 1, 0x78]) (fun info =>
      isAuthor true info.originalOnMetadata && decide (info.times.length < 2 ^ 32) &&
        decide (∃ t ∈ timedTags (authorFile [2, 0, 1, 0x78]), t.Replaced info) &&
        decide ((rewritten env authorOptions info
          (authorFile [2, 0, 1, 0x78])).1 = .ok)) = true := by
    decide +kernel
  obtain ⟨info, stream, hinfo, htest⟩ := of_infoTest hpass
  simp only [Bool.and_eq_true, decide_eq_true_eq] at htest
  obtain ⟨⟨⟨hauthor, htimes⟩, hcomes⟩, hstatus⟩ := htest
  obtain ⟨name, value, horiginal, hname⟩ := of_isAuthor hauthor
  have hupdate := updateMetadata_unlimited env hinfo
  rw [hstatus] at hupdate
  have hentries : entriesOf ([.string name, .string value] : List (AmfData UInt64)) =
      [(ascii "author", .string value)] := by
    rw [← hname]
    rfl
  have hnulFree : ∀ arg ∈ [ascii "x=y"], NulFree arg := by decide +kernel
  have hsplit : [ascii "x=y"].mapM splitArgument = some [(ascii "x", ascii "y")] := rfl
  have hall := preservedMetadata env hnulFree rfl hsplit rfl rfl hinfo horiginal hupdate
  rw [hentries] at hall
  exact ⟨info, stream, _, value, hinfo, hupdate,
    hall.2 (preservable_author env info _ value) htimes (Or.inr hcomes)⟩

/-- The author is null: the value that is written cannot be read. -/
theorem preservedMetadata_null :
    letI := smallDoubles
    letI env : Environment := ⟨[], 0⟩
    letI content := authorFile [5]
    ∃ (info : FlvInfo UInt64) (stream : FlvStream) (out : OutFile) (before after : Bytes),
      getFlvInfo authorOptions (flvOpen content) = (.ok info, stream) ∧
      isAuthor false info.originalOnMetadata = true ∧
      updateMetadata env authorOptions ⟨some content, false, none, some ⟨none⟩⟩ =
        (.ok, some out) ∧
      out.written =
        before ++ ((onMetadataPiece (computeMetadata env authorOptions info)).bytes ++ after) ∧
      amfDataGetErrorCode (amfDataFileRead ⟨out.written, before.length + 24, false⟩ :
        AmfData UInt64 × InFile).1 = .eof := by
  let := smallDoubles
  let env : Environment := ⟨[], 0⟩
  have hpass : infoTest authorOptions (authorFile [5]) (fun info =>
      isAuthor false info.originalOnMetadata &&
        decide (rewritten env authorOptions info (authorFile [5]) =
          (.ok, (authorFile [5]).take 13 ++
            ((onMetadataPiece (computeMetadata env authorOptions info)).bytes ++ []))) &&
        decide (amfDataGetErrorCode (amfDataFileRead
          ⟨(rewritten env authorOptions info (authorFile [5])).2, 37, false⟩ :
            AmfData UInt64 × InFile).1 = .eof)) = true := by
    decide +kernel
  obtain ⟨info, stream, hinfo, htest⟩ := of_infoTest hpass
  simp only [Bool.and_eq_true, decide_eq_true_eq] at htest
  obtain ⟨⟨hauthor, hwritten⟩, hread⟩ := htest
  have hupdate := updateMetadata_unlimited env hinfo
  have hstatus : (rewritten env authorOptions info (authorFile [5])).1 = .ok := by rw [hwritten]
  rw [hstatus] at hupdate
  exact ⟨info, stream, _, (authorFile [5]).take 13, [], hinfo, hauthor, hupdate,
    congrArg Prod.snd hwritten, hread⟩

end FlvMeta
