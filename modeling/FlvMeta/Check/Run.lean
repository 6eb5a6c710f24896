import FlvMeta.Check.File
import FlvMeta.Flv.Events
import FlvMeta.Info.Visits

/-!
# A run of the check

What a check does before the global checks, in one statement (`checkBefore_run`): it reads the same
tags and prints the same messages with any options, and ends according to the first `onMetaData`
event. The three loops over the tags of a file read increasing offsets, and end
(`tagLoops_progress`).
-/

namespace FlvMeta

open Stdio

variable {N : Type}

/-! ## Before and after the tags -/

theorem speaks_checkStart (content : Bytes) :
    Speaks (checkStart content : CheckM N (FlvHeader × FlvStream))
      fun r => Tracks content none r.2 := by
  unfold checkStart
  cases hheader : flvReadHeader (flvOpen content) with
  | mk result stream =>
    cases result with
    | error status => exact .ite (fun _ => .fatalEnd ..) fun _ => .fatalEnd ..
    | ok header =>
      obtain ⟨-, -, rfl⟩ := flvReadHeader_ok (atStart_flvOpen content) hheader
      refine .bind (speaks_checkHeader header) fun _ _ => ?_
      refine .bind (Q := fun stream => Tracks content none stream) ?_ fun stream h => .pure h
      have hread := (tracks_header content).flvReadPrevTagSize
      unfold checkFirstPrevTagSize
      generalize flvReadPrevTagSize _ = r at hread ⊢
      obtain ⟨result, stream⟩ := r
      cases result with
      | error status => exact .fatalEnd ..
      | ok prevTagSize =>
        exact .bind (.onlyIf (.printError ..)) fun _ _ =>
          .ite (fun _ => .fatalEnd ..) fun _ => .pure hread

theorem speaks_checkFinal (header : FlvHeader) (filesize : Nat) (st : CheckLocals N) :
    Speaks (checkFinal header filesize st) fun _ => True := by
  refine .bind (Q := fun _ => True) ?_ fun _ _ => ?_
  · exact .bind (.onlyIf (.printWarning ..)) fun _ _ => .onlyIf (.printWarning ..)
  refine .bind (.onlyIf (.ite (fun _ => .printWarning ..) fun _ => .printWarning ..))
    fun _ _ => ?_
  refine .bind (Q := fun _ => True) ?_ fun _ _ => .onlyIf (.printWarning ..)
  exact .bind (.onlyIf (.printWarning ..)) fun _ _ => .bind (.onlyIf (.printWarning ..))
    fun _ _ => .onlyIf (.printWarning ..)

theorem speaks_checkSizeFound (offset : Nat) (info : FlvInfo N) (found : FoundSize) :
    Speaks (checkSizeFound offset info found) fun _ => True :=
  .onlyIf (.bind (.onlyIf (.printError ..)) fun _ _ => .onlyIf (.printError ..))

variable [Number64 N]

/-- The information about the file that the check gathers. -/
def checkedInfo (N : Type) [Number64 N] (content : Bytes) : Except Status (FlvInfo N) :=
  (getFlvInfo checkInfoOptions (flvOpen content)).1

/-- The end of the part about `onMetaData`, when this is what has been kept of the event. -/
structure MetadataOutcome.EndsAs (content : Bytes) (onMetadata : Option (AmfData N))
    (outcome : MetadataOutcome N) : Prop where
  missing : outcome = .missing ↔ onMetadata = none
  undefined : outcome = .undefined ↔ ∃ data, onMetadata = some data ∧ walkable data = false
  filled : ∀ info, outcome = .filled info → checkedInfo N content = .ok info

theorem speaks_checkMetadata (filesize : Nat) (st : CheckLocals N) (stream : FlvStream) :
    Speaks (checkMetadata filesize st stream) fun outcome =>
      outcome.EndsAs stream.flvin.content (some st.onMetadata) := by
  unfold checkMetadata
  cases hgathered : (getFlvInfo checkInfoOptions (flvReset stream) :
    Except Status (FlvInfo N) × FlvStream).1 with
  | error status => exact .fatalEnd ..
  | ok info =>
    have hinfo : checkedInfo N stream.flvin.content = .ok info := by
      rw [checkedInfo, ← getFlvInfo_flvReset, hgathered]
    refine .bind (speaks_checkOnMetadataEntries _) fun found hfound => ?_
    cases found with
    | none =>
      refine .pure ⟨iff_of_false (by simp) (by simp), iff_of_true rfl ⟨_, rfl, hfound.symm⟩, ?_⟩
      intro info h
      cases h
    | some found =>
      have hwalk : walkable st.onMetadata = true := hfound.symm
      refine .bind (speaks_checkSizeFound ..) fun _ _ => .pure ⟨iff_of_false (by simp) (by simp),
        iff_of_false (by simp) ?_, ?_⟩
      · rintro ⟨data, hdata, hno⟩
        rw [← Option.some.inj hdata, hwalk] at hno
        cases hno
      · intro info' h
        cases h
        exact hinfo

theorem speaks_checkOnMetadataFound (filesize : Nat) (st : CheckLocals N) (stream : FlvStream) :
    Speaks (checkOnMetadataFound filesize st stream) fun outcome =>
      outcome.EndsAs stream.flvin.content
        (if st.haveOnMetadata then some st.onMetadata else none) := by
  refine .ite (fun hno => ?_) fun hhave => ?_
  · rw [if_neg hno]
    refine .bind (.printWarning ..) fun _ _ => .pure ⟨iff_of_true rfl rfl, ?_, ?_⟩
    · simp
    · intro info h
      cases h
  · rw [if_pos (Decidable.not_not.mp hhave)]
    exact speaks_checkMetadata ..

omit [Number64 N] in
theorem CheckLocals.KeepsData.kept [NumberImage N] {content : Bytes} {st : CheckLocals N}
    (h : st.KeepsData content) :
    (if st.haveOnMetadata then some st.onMetadata else none) =
      st.found.onMetadata.map (keptData N content) := by
  have hdata := h st.onMetadataOffset
  unfold CheckLocals.found at hdata ⊢
  cases hhave : st.haveOnMetadata with
  | true =>
    rw [hhave] at hdata
    exact congrArg some (hdata rfl)
  | false => rfl

/-! ## The turns of a check -/

/-- The turns of `check_flv_file` on a file. -/
def checkTurns (env : Environment) (opts : CheckOpts) (content : Bytes) :
    List (FlvTag × (CheckLocals N × Report N) × FlvStream) :=
  match ((checkStart content).run opts).run.run (reportStart env opts .init) with
  | (none, _) => []
  | (some (header, stream), report) =>
    checkVisits opts header content.length (stream.flvin.content.length + 1)
      (CheckLocals.init, report) stream

/-- What precedes the global checks is the same with any options. -/
theorem checkBefore_run (content : Bytes) :
    ∃ result offsets messages, Says (checkBefore content : CheckM N _) result messages ∧
      FatalLast result messages ∧
      (∀ r : CheckLocals N × MetadataOutcome N, result = some r →
        r.2.EndsAs content ((firstOnMetadata N content offsets).map (keptData N content)) ∧
        r.1.found = eventsFound (fun literal p => decide (EventNamed N content literal p))
          offsets ∧
        (PlainFile content → offsets = tagOffsets content)) ∧
      ∀ env opts, Loop.keys flvGetCurrentTagOffset
        (checkTurns env opts content : List (FlvTag × (CheckLocals N × Report N) × FlvStream)) =
          offsets := by
  obtain ⟨result, messages, hstart, htracks, hlast⟩ := speaks_checkStart (N := N) content
  cases result with
  | none =>
    refine ⟨none, [], messages, hstart.bind_none, hlast, ?_, fun env opts => ?_⟩
    · exact fun r h => (Option.some_ne_none r h.symm).elim
    · rw [checkTurns, hstart opts _]
      rfl
  | some r =>
    obtain ⟨header, stream⟩ := r
    have hstream : Tracks content none stream := htracks _ rfl
    obtain ⟨result, offsets, messages', htags, hlast', hend, hkeys⟩ :=
      checkTags_run (N := N) header hstream
    have hturns : ∀ env opts, Loop.keys flvGetCurrentTagOffset
        (checkTurns env opts content : List (FlvTag × (CheckLocals N × Report N) × FlvStream)) =
          offsets := fun env opts => by
      rw [checkTurns, hstart opts _]
      dsimp only
      rw [hstream.content_eq]
      exact hkeys opts _
    cases result with
    | none =>
      refine ⟨none, offsets, messages ++ messages', hstart.bind htags.bind_none,
        hlast.append hlast', ?_, hturns⟩
      exact fun r h => (Option.some_ne_none r h.symm).elim
    | some r =>
      obtain ⟨st, stream'⟩ := r
      obtain ⟨hcontent', hfound, hkeeps, hall⟩ := hend _ rfl
      have hkept : (if st.haveOnMetadata then some st.onMetadata else none) =
          (firstOnMetadata N content offsets).map (keptData N content) := by
        rw [hkeeps.kept, hfound, onMetadata_eventsFound]
        rfl
      have hrest : Speaks (do
          checkFinal header content.length st
          let outcome ← checkOnMetadataFound content.length st stream'
          pure (st, outcome)) fun r : CheckLocals N × MetadataOutcome N => r.1 = st ∧
            r.2.EndsAs content ((firstOnMetadata N content offsets).map (keptData N content)) := by
        refine .bind (speaks_checkFinal ..) fun _ _ =>
          .bind (speaks_checkOnMetadataFound ..) fun outcome houtcome => .pure ⟨rfl, ?_⟩
        rwa [hcontent', hkept] at houtcome
      obtain ⟨result, messages'', hsaid, hends, hlast''⟩ := hrest
      refine ⟨result, offsets, messages ++ (messages' ++ messages''),
        hstart.bind (htags.bind hsaid), hlast.append (hlast'.append hlast''),
        fun r hr => ?_, hturns⟩
      obtain ⟨hlocals, houtcome⟩ := hends r hr
      exact ⟨houtcome, hlocals ▸ hfound, hall⟩

/-! ## The loops over the tags -/

/-- The offsets of the tags that are read increase. -/
theorem checkTurns_offsets (env : Environment) (opts : CheckOpts) (content : Bytes) :
    (Loop.keys flvGetCurrentTagOffset (checkTurns env opts content :
      List (FlvTag × (CheckLocals N × Report N) × FlvStream))).Pairwise (· < ·) := by
  unfold checkTurns
  split
  · exact .nil
  · exact Loop.pairwise_keys (advances_fetchTag (turnsBeyond_checkTurn _ _ _ _))
      ⟨rfl, fun _ => Nat.zero_le _⟩

/-- On any file each of the three loops reads tags at increasing offsets, and ends. -/
theorem tagLoops_progress {U M : Type} [NumberImage M] {parser : FlvParser U M}
    (hreads : parser.OnlyReadsBodies) (user : U) (opts : FlvmetaOpts N) (env : Environment)
    (checkOpts : CheckOpts) (content : Bytes) :
    ((Loop.keys flvGetCurrentTagOffset (parseVisits parser user content)).Pairwise (· < ·) ∧
      (flvParse parser user (some content)).isSome) ∧
    ((Loop.keys flvGetCurrentTagOffset (infoTurns opts content)).Pairwise (· < ·) ∧
      ∀ header stream, flvReadHeader (flvOpen content) = (.ok header, stream) →
        (infoLoop opts (content.length + 1) (InfoState.init header) stream).isSome) ∧
    (Loop.keys flvGetCurrentTagOffset (checkTurns env checkOpts content :
        List (FlvTag × (CheckLocals N × Report N) × FlvStream))).Pairwise (· < ·) ∧
      ∀ header stream report,
        ((checkStart content).run checkOpts).run.run (reportStart env checkOpts .init) =
          (some (header, stream), report) →
        (checkLoop checkOpts header content.length (content.length + 1)
          (CheckLocals.init, (report : Report N)) stream).isSome := by
  refine ⟨⟨parseVisits_offsets hreads user content, flvParse_isSome hreads user (some content)⟩,
    ⟨infoTurns_offsets opts content, fun header stream hheader => ?_⟩,
    checkTurns_offsets env checkOpts content, fun header stream report hstart => ?_⟩
  · obtain ⟨-, -, rfl⟩ := flvReadHeader_ok (atStart_flvOpen content) hheader
    exact infoLoop_isSome opts _ ⟨rfl, fun _ => Nat.zero_le _⟩ (Nat.zero_le _)
      (Nat.lt_succ_self _)
  · obtain ⟨result, messages, hsaid, htracks, -⟩ := speaks_checkStart (N := N) content
    have hstream : stream.flvin.content = content :=
      (htracks _ (congrArg Prod.fst ((hsaid ..).symm.trans hstart))).content_eq
    have hsome := checkLoop_isSome checkOpts header content.length (CheckLocals.init, report) stream
    rwa [hstream] at hsome

/-- A script tag with its data, an audio tag, and a script tag whose body is the name alone, so that
the stream is put back to its start. -/
def nameBehindAudio : Bytes :=
  [0x46, 0x4C, 0x56, 1, 5, 0, 0, 0, 9] ++ [0, 0, 0, 0] ++
    [18, 0, 0, 5, 0, 0, 0, 0, 0, 0, 0, 2, 0, 1, 0x61, 5] ++ [0, 0, 0, 16] ++
    [8, 0, 0, 2, 0, 0, 0, 0, 0, 0, 0, 175, 1] ++ [0, 0, 0, 13] ++
    [18, 0, 0, 3, 0, 0, 0, 0, 0, 0, 0, 2, 0, 0] ++ [0, 0, 0, 14]

/-- The three tags are read, in their order. -/
theorem tagLoops_progress_name :
    letI := blankImage
    let opts : CheckOpts := ⟨[], .info, false, .raw⟩
    Loop.keys flvGetCurrentTagOffset
      (parseVisits (bodyParser none 1) () nameBehindAudio) = [13, 33, 50] ∧
    ((Loop.keys flvGetCurrentTagOffset
        (parseVisits (bodyParser none 1) () nameBehindAudio)).Pairwise (· < ·) ∧
      (flvParse (bodyParser none 1) () (some nameBehindAudio)).isSome) ∧
    ((Loop.keys flvGetCurrentTagOffset
        (infoTurns (defaultOptions : FlvmetaOpts ℚ) nameBehindAudio)).Pairwise (· < ·) ∧
      ∀ header stream, flvReadHeader (flvOpen nameBehindAudio) = (.ok header, stream) →
        (infoLoop (defaultOptions : FlvmetaOpts ℚ) (nameBehindAudio.length + 1)
          (InfoState.init header) stream).isSome) ∧
    (Loop.keys flvGetCurrentTagOffset (checkTurns ⟨[], 0⟩ opts nameBehindAudio :
        List (FlvTag × (CheckLocals ℚ × Report ℚ) × FlvStream))).Pairwise (· < ·) ∧
      ∀ header stream report,
        ((checkStart nameBehindAudio).run opts).run.run (reportStart ⟨[], 0⟩ opts .init) =
          (some (header, stream), report) →
        (checkLoop opts header nameBehindAudio.length (nameBehindAudio.length + 1)
          (CheckLocals.init, (report : Report ℚ)) stream).isSome := by
  let := blankImage
  constructor
  · decide +kernel
  · exact tagLoops_progress (onlyReadsBodies_bodyParser none 1) () defaultOptions ⟨[], 0⟩
      ⟨[], .info, false, .raw⟩ nameBehindAudio

end FlvMeta
