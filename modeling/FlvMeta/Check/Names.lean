import FlvMeta.Check.Run
import FlvMeta.Update.Layout

/-!
# The names of events in the first pass and in the check

`get_flv_info` and `check_flv_file` compare the names of script tags in two ways, and both differ
from equality of the stored name. On a plain file the first pass selects exactly the events, and the
check agrees with it, just when no other name is alike (`selectsExactly_iff`).
-/

namespace FlvMeta

open Stdio

variable {N : Type}

/-! ## The comparison of the check -/

theorem starts_of_cString {name literal : Bytes} (h : cString name = literal) :
    name <+: literal ∨ literal ++ [0] <+: name := by
  have hsplit := List.takeWhile_append_dropWhile (p := fun b : UInt8 => b != 0) (l := name)
  cases hrest : name.dropWhile (fun b : UInt8 => b != 0) with
  | nil =>
    rw [hrest, List.append_nil] at hsplit
    exact Or.inl ⟨[], by rw [List.append_nil, ← hsplit]; exact h⟩
  | cons b rest =>
    have hzero : b = 0 := by
      have hhead := List.head?_dropWhile_not (fun b : UInt8 => b != 0) name
      rw [hrest] at hhead
      simpa using hhead
    refine Or.inr ⟨rest, ?_⟩
    rw [← h, List.append_assoc, cString]
    rw [hrest, hzero] at hsplit
    exact hsplit

theorem between_eventNamed [NumberImage N] {content : Bytes} (hplain : PlainFile content)
    {literal : String} (hnul : NulFree (ascii literal)) :
    Between content (fun literal p => decide (EventNamed N content literal p)) literal where
  of_named := by
    intro p hp hnamed
    rcases scriptName_plain (N := N) (plainTag_of_mem hplain hp) with
      ⟨htype, hlen, name, data, stream, hread, hname⟩ | ⟨-, hname⟩
    · refine decide_eq_true ⟨hlen, htype, ?_⟩
      rw [hread]
      refine ⟨rfl, rfl, beq_iff_eq.mpr ?_⟩
      have hbytes : name.bytes = ascii literal :=
        Option.some.inj (hname.symm.trans (named_iff.mp hnamed))
      exact (congrArg cString hbytes).trans (cString_of_nulFree hnul)
    · cases hname.symm.trans (named_iff.mp hnamed)
  alike := by
    intro p hp hevent
    obtain ⟨hlen, htype, hevent⟩ := of_decide_eq_true hevent
    rcases scriptName_plain (N := N) (plainTag_of_mem hplain hp) with
      ⟨-, -, name, data, stream, hread, hname⟩ | ⟨hno, -⟩
    · rw [hread] at hevent
      exact alike_iff.mpr ⟨name.bytes, hname, starts_of_cString (beq_iff_eq.mp hevent.name)⟩
    · exact absurd ⟨htype, hlen⟩ hno

variable [Number64 N]

/-- What a check of a plain file has found when it comes to the global checks. -/
theorem found_checkBefore {content : Bytes} (hplain : PlainFile content) {opts : CheckOpts}
    {report report' : Report N} {st : CheckLocals N} {outcome : MetadataOutcome N}
    (h : ((checkBefore content).run opts).run.run report = (some (st, outcome), report')) :
    st.found = eventsFound (fun literal p => decide (EventNamed N content literal p))
      (tagOffsets content) := by
  obtain ⟨result, offsets, messages, hsaid, -, hresult, -⟩ := checkBefore_run (N := N) content
  have hsome : result = some (st, outcome) := congrArg Prod.fst ((hsaid opts report).symm.trans h)
  obtain ⟨-, hfound, hall⟩ := hresult _ hsome
  rw [hfound, hall hplain]

/-! ## The events that are selected -/

/-- The tag recorded as `onMetaData` is the first of exactly this name, and `onLastSecond` is found
if a tag has exactly this name; the second pass replaces the tag recorded and no other, and a check
that comes to the global checks has found the same. -/
structure SelectsExactly (content : Bytes) (info : FlvInfo N) : Prop where
  found : info.found = exactEvents content (tagOffsets content)
  replaced : ∀ t ∈ timedTags content, t.Replaced info ↔
    (tagOffsets content).find? (named content "onMetaData") = some t.offset
  checked : ∀ (opts : CheckOpts) (report report' : Report N) (st : CheckLocals N)
    (outcome : MetadataOutcome N),
    ((checkBefore content).run opts).run.run report = (some (st, outcome), report') →
    st.found = info.found

theorem replaced_iff_found {opts : FlvmetaOpts N} {content : Bytes} {info : FlvInfo N}
    {stream : FlvStream} (hplain : PlainFile content)
    (h : getFlvInfo opts (flvOpen content) = (.ok info, stream)) {t : TimedTag}
    (ht : t ∈ timedTags content) : t.Replaced info ↔ info.found.onMetadata = some t.offset := by
  obtain ⟨header, st, rfl, -, -, hgathered⟩ := getFlvInfo_plain hplain h
  rcases hgathered.selected_split with ⟨hsize, hnone⟩ | ⟨xs, u, ys, -, -, -, hsize, -⟩
  · exact iff_of_false (hnone t ht) (by simp [FlvInfo.found, hsize])
  · simp [FlvInfo.found, hsize, TimedTag.Replaced]

/-- On a plain file the events are selected exactly just when no name is like that of an event
without being it. -/
theorem selectsExactly_iff {opts : FlvmetaOpts N} {content : Bytes} {info : FlvInfo N}
    {stream : FlvStream} (hplain : PlainFile content)
    (h : getFlvInfo opts (flvOpen content) = (.ok info, stream)) :
    SelectsExactly content info ↔ NoLookAlike content := by
  have hfound := found_plain hplain h
  rw [← eventsFound_alike_iff, ← hfound]
  refine ⟨fun hselects => hselects.found, fun hexact => ⟨hexact, fun t ht => ?_, ?_⟩⟩
  · rw [replaced_iff_found hplain h ht, hexact, exactEvents]
  · intro checkOpts report report' st outcome hrun
    have hno : NoLookAlike content := (eventsFound_alike_iff content).mp (hfound.symm.trans hexact)
    rw [found_checkBefore hplain hrun, hexact]
    exact hno.eventsFound (between_eventNamed hplain (by simp [NulFree, ascii]))
      (between_eventNamed hplain (by simp [NulFree, ascii]))

/-! ## An empty name -/

/-- A file of two script tags, one without a name and one named `onMetaData`. -/
def emptyNamed : Bytes :=
  [0x46, 0x4C, 0x56, 1, 4, 0, 0, 0, 9, 0, 0, 0, 0] ++
    [18, 0, 0, 5, 0, 0, 0, 0, 0, 0, 0, 2, 0, 0, 1, 1, 0, 0, 0, 16] ++
    [18, 0, 0, 21, 0, 0, 0, 0, 0, 0, 0, 2, 0, 10, 0x6F, 0x6E, 0x4D, 0x65, 0x74, 0x61, 0x44, 0x61,
      0x74, 0x61, 8, 0, 0, 0, 0, 0, 0, 9, 0, 0, 0, 32]

theorem plainFile_emptyNamed : PlainFile emptyNamed := by
  have htags : tagsFrom emptyNamed 13 =
      [(13, ⟨18, ⟨0, 0, 5⟩, ⟨0, 0, 0⟩, 0, ⟨0, 0, 0⟩⟩),
        (33, ⟨18, ⟨0, 0, 21⟩, ⟨0, 0, 0⟩, 0, ⟨0, 0, 0⟩⟩)] := by
    rfl
  apply PlainFile.of_scripts
  · rw [htags]
    decide
  · rw [htags]
    refine List.forall_mem_cons.mpr ⟨?_, List.forall_mem_singleton.mpr ?_⟩
    · exact ⟨⟨[], by decide⟩, .boolean 1, [], trivial, rfl⟩
    · exact ⟨⟨[0x6F, 0x6E, 0x4D, 0x65, 0x74, 0x61, 0x44, 0x61, 0x74, 0x61], by decide⟩,
        .associativeArray [], [], by simp [WellFormed, WellFormedPairs], rfl⟩

/-- The tag without a name is recorded. -/
theorem recorded_emptyNamed :
    letI := blankImage
    infoTest (defaultOptions : FlvmetaOpts ℚ) emptyNamed
      (fun info => decide (info.found.onMetadata = some 13)) = true := by
  decide +kernel

theorem selectsExactly_iff_emptyNamed :
    letI := blankImage
    ∃ (info : FlvInfo ℚ) (stream : FlvStream),
      getFlvInfo (defaultOptions : FlvmetaOpts ℚ) (flvOpen emptyNamed) = (.ok info, stream) ∧
      (SelectsExactly emptyNamed info ↔ NoLookAlike emptyNamed) := by
  let := blankImage
  obtain ⟨info, stream, hinfo, -⟩ := of_infoTest recorded_emptyNamed
  exact ⟨info, stream, hinfo, selectsExactly_iff plainFile_emptyNamed hinfo⟩

/-- The tag without a name is discarded by `update`, and the `onMetaData` behind it is kept. -/
theorem not_selectsExactly :
    letI := blankImage
    ¬ ∀ (opts : FlvmetaOpts ℚ) (content : Bytes) (info : FlvInfo ℚ) (stream : FlvStream),
      PlainFile content → getFlvInfo opts (flvOpen content) = (.ok info, stream) →
      SelectsExactly content info := by
  let := blankImage
  intro h
  obtain ⟨info, stream, hinfo, hfound⟩ := of_infoTest recorded_emptyNamed
  have hexact : (exactEvents emptyNamed (tagOffsets emptyNamed)).onMetadata = some 33 := by
    decide +kernel
  rw [← (h _ _ info stream plainFile_emptyNamed hinfo).found, of_decide_eq_true hfound] at hexact
  cases hexact

end FlvMeta
